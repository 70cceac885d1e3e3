/-
  G20OsLab.Kernel.UserCopy

  What a process sees of its memory, and copies to and from it.

  A page below the size of the process that has no frame yet is seen as zeros:
  `vmfault` gives it one, and changes nothing of what is seen
  (`Holds.vmfault`).  `copyout` writes the bytes to what is seen
  (`Holds.copyout`), and `copyin` reads them from there (`Holds.copyin`).
-/

import Mathlib.Data.List.GetD
import G20OsLab.Kernel.FrameCosts

namespace G20OsLab.Kernel

open Lib (Frame Role Forest Intact slotAt setSlot entry nodeAt)

/-- The flags of lazily allocated pages, and of a stack or a heap. -/
def PteFlags.user : PteFlags := ⟨true, true, false, true⟩

/-- The address space of a process of size `sz`: its own pages, and at the top
    the trapframe and the trampoline. -/
structure Proper (m : UserSpace) (sz tf tramp : Nat) : Prop where
  size : sz ≤ trapframe
  own : m.OwnIn 0 (pageCount sz)
  trapframe : m trapframePage = some (.shared tf, ⟨true, true, false, false⟩)
  trampoline : m (trapframePage + 1) = some (.shared tramp, ⟨true, false, true, false⟩)
  beyond : ∀ n, pageCount sz ≤ n → n ≠ trapframePage → n ≠ trapframePage + 1 → m n = none

/-! ## What is seen -/

/-- The user pages: the bytes, and whether the page is writable. -/
abbrev Seen := Nat → Option (Page × Bool)

/-- What a process of size `sz` sees of its address space. -/
def UserSpace.seen (m : UserSpace) (sz : Nat) : Seen := fun n =>
  match m n with
  | some (.page data, flags) => if flags.u then some (data, flags.w) else none
  | some (.shared _, _) => none
  | none => if n * pgsize < sz then some (Page.zero, true) else none

namespace Seen

/-- The byte at an address. -/
def byteAt (v : Seen) (va : Nat) : Option UInt8 :=
  (v (va / pgsize)).map fun page => page.1 ⟨va % pgsize, Nat.mod_lt _ (Nat.succ_pos 4095)⟩

/-- The bytes `src` are written from `dst` on. -/
def write (v : Seen) (dst : Nat) (src : List UInt8) : Seen := fun n =>
  (v n).map fun page => (fun k =>
    if dst ≤ n * pgsize + k then src.getD (n * pgsize + k - dst) (page.1 k) else page.1 k, page.2)

/-- The page of an address may be written. -/
def Writable (v : Seen) (va : Nat) : Prop := ∃ data, v (va / pgsize) = some (data, true)

instance (v : Seen) (va : Nat) : Decidable (v.Writable va) :=
  decidable_of_iff ((v (va / pgsize)).any (·.2) = true) (by
    rw [Option.any_eq_true, Writable]
    constructor
    · rintro ⟨page, hpage, hw⟩
      exact ⟨page.1, by rw [hpage, ← hw]⟩
    · rintro ⟨data, hpage⟩
      exact ⟨_, hpage, rfl⟩)

variable {v : Seen} {dst n : Nat} {src src' : List UInt8}

@[simp] theorem write_nil : v.write dst [] = v := by
  funext n
  rw [write]
  cases v n with
  | none => rfl
  | some page => simp

/-- Two writes, one after the other. -/
theorem write_append : (v.write dst src).write (dst + src.length) src' =
    v.write dst (src ++ src') := by
  funext n
  rw [write, write, write, Option.map_map]
  congr 1
  funext page
  refine Prod.ext (funext fun k => ?_) rfl
  simp only [Function.comp_apply]
  by_cases hdst : dst ≤ n * pgsize + k
  · rw [if_pos hdst, if_pos hdst]
    by_cases hlt : dst + src.length ≤ n * pgsize + k
    · have hlen : src.length ≤ n * pgsize + k - dst := Nat.le_sub_of_add_le' hlt
      rw [if_pos hlt, List.getD_append_right _ _ _ _ hlen, List.getD_eq_default src _ hlen,
        Nat.sub_sub]
    · rw [if_neg hlt, List.getD_append _ _ _ _ (by omega)]
  · rw [if_neg hdst, if_neg hdst, if_neg (by omega)]

/-- Writing changes no permissions. -/
theorem writable_write {va : Nat} : (v.write dst src).Writable va ↔ v.Writable va := by
  rw [Writable, Writable, write]
  cases v (va / pgsize) with
  | none => simp
  | some page =>
      obtain ⟨data, w⟩ := page
      simp

/-- A write within one page. -/
theorem write_page (hlen : dst % pgsize + src.length ≤ pgsize) :
    v.write dst src = Function.update v (dst / pgsize)
      ((v (dst / pgsize)).map fun page => (page.1.write (dst % pgsize) src, page.2)) := by
  have hdst : dst / pgsize * pgsize + dst % pgsize = dst := Nat.div_add_mod' dst pgsize
  funext n
  by_cases hn : n = dst / pgsize
  · rw [hn, Function.update_self, write]
    congr 1
    funext page
    refine Prod.ext (funext fun k => ?_) rfl
    have hiff : dst ≤ dst / pgsize * pgsize + k ↔ dst % pgsize ≤ k := by omega
    have hindex : dst / pgsize * pgsize + k - dst = k - dst % pgsize := by omega
    simp only [Page.write, hiff, hindex]
  · rw [Function.update_of_ne hn, write]
    cases v n with
    | none => rfl
    | some page =>
        refine congrArg some (Prod.ext (funext fun k => ?_) rfl)
        have hk := k.isLt
        by_cases hle : dst ≤ n * pgsize + k
        · have hlt : dst / pgsize < n := by
            unfold pgsize at hle hn ⊢
            omega
          have hmul : (dst / pgsize + 1) * pgsize ≤ n * pgsize := Nat.mul_le_mul_right _ hlt
          rw [Nat.succ_mul] at hmul
          exact (if_pos hle).trans (List.getD_eq_default _ _ (by omega))
        · exact if_neg hle

/-- The bytes of a part of one page. -/
theorem read_page {src c : Nat} {data : Page} {w : Bool} (hv : v (src / pgsize) = some (data, w))
    (hc : src % pgsize + c ≤ pgsize) :
    (((List.ofFn data).drop (src % pgsize)).take c).map some =
      (List.range' src c).map v.byteAt := by
  have hsize : pgsize = 4096 := rfl
  refine List.ext_getElem ?_ fun k hk hk' => ?_
  · rw [List.length_map, List.length_take, List.length_drop, List.length_ofFn, List.length_map,
      List.length_range']
    omega
  · rw [List.length_map, List.length_range'] at hk'
    have hdiv : (src + k) / pgsize = src / pgsize := by
      rw [hsize] at hc ⊢
      omega
    have hmod : (src + k) % pgsize = src % pgsize + k := by
      rw [hsize] at hc ⊢
      omega
    simp only [List.getElem_map, List.getElem_take, List.getElem_drop, List.getElem_ofFn,
      List.getElem_range', Nat.one_mul, byteAt, hdiv, hv, Option.map_some, hmod]

end Seen

/-- The pages of a copy, without the first. -/
theorem pageCount_span {dst c len : Nat} (hpos : len > 0)
    (hc : min (pgsize - dst % pgsize) len = c) :
    pageCount (len - c) + 1 ≤ pageCount (dst % pgsize + len) := by
  have hmod : dst % pgsize < pgsize := Nat.mod_lt _ (by decide)
  unfold pageCount pgroundup pgrounddown pgsize at *
  omega

/-- There is a user page. -/
def UserSpace.Mapped (m : UserSpace) (n : Nat) : Prop :=
  ∃ data flags, m n = some (.page data, flags) ∧ flags.u = true

section UserCopy

variable {ι : Type} {kend : Nat} {s s' : Phys} {root : ι → Option Nat}
variable {role role' : Roles ι} {loose : List Nat} {i : ι} {f r n va sz tf tramp : Nat}
variable {flags : PteFlags} {m m' : UserSpace} {data old : Page}

namespace UserSpace

/-- A page that is mapped. -/
theorem seen_page (hm : m n = some (.page data, flags)) (hu : flags.u = true) :
    m.seen sz n = some (data, flags.w) := by
  rw [seen, hm]
  exact if_pos hu

/-- What is seen without a user page is a page yet to come. -/
theorem absent_of_seen (hsome : m.seen sz n ≠ none) (hnot : ¬ m.Mapped n) :
    n * pgsize < sz ∧ m n = none := by
  rw [seen] at hsome
  cases hm : m n with
  | none =>
      simp only [hm, ne_eq, ite_eq_right_iff, reduceCtorEq, imp_false, Decidable.not_not] at hsome
      exact ⟨hsome, rfl⟩
  | some l =>
      obtain ⟨leaf, flags⟩ := l
      cases leaf with
      | shared f => simp [hm] at hsome
      | page data =>
          refine absurd ⟨data, flags, hm, ?_⟩ hnot
          by_contra hu
          simp [hm, hu] at hsome

/-- Mapping zeros where there is no page yet is not seen. -/
theorem seen_fault (hm : m n = none) (hn : n * pgsize < sz) :
    seen (Function.update m n (some (.page Page.zero, .user))) sz = m.seen sz := by
  funext x
  by_cases hx : x = n
  · rw [hx, seen_page (Function.update_self ..) rfl, seen, hm]
    exact (if_pos hn).symm
  · rw [seen, Function.update_of_ne hx, seen]

/-- Writing a page is seen there. -/
theorem seen_update (hu : flags.u = true) :
    seen (Function.update m n (some (.page data, flags))) sz =
      Function.update (m.seen sz) n (some (data, flags.w)) := by
  funext x
  by_cases hx : x = n
  · rw [hx, seen_page (Function.update_self ..) hu, Function.update_self]
  · rw [seen, Function.update_of_ne hx, Function.update_of_ne hx, seen]

end UserSpace

namespace Proper

/-- User pages end below the trap frame. -/
theorem user_lt (h : Proper m sz tf tramp) (hn : n < pageCount sz) : n < trapframePage :=
  Nat.lt_of_lt_of_le hn (pageCount_le h.size)

/-- Pages of its own are below the size. -/
theorem lt_of_page (h : Proper m sz tf tramp) (hm : m n = some (.page data, flags)) :
    n < pageCount sz := by
  by_contra hn
  by_cases htf : n = trapframePage
  · rw [htf, h.trapframe] at hm
    cases hm
  · by_cases htramp : n = trapframePage + 1
    · rw [htramp, h.trampoline] at hm
      cases hm
    · rw [h.beyond n (Nat.not_lt.mp hn) htf htramp] at hm
      cases hm

/-- A page below the size is changed. -/
theorem update (h : Proper m sz tf tramp) (hn : n < pageCount sz) :
    Proper (Function.update m n (some (.page data, flags))) sz tf tramp where
  size := h.size
  own := by
    intro x hx hxsz f flags'
    by_cases hxn : x = n
    · rw [hxn, Function.update_self]
      simp
    · rw [Function.update_of_ne hxn]
      exact h.own x hx hxsz f flags'
  trapframe := by
    have hlt := h.user_lt hn
    rw [Function.update_of_ne (by omega), h.trapframe]
  trampoline := by
    have hlt := h.user_lt hn
    rw [Function.update_of_ne (by omega), h.trampoline]
  beyond := by
    intro x hx htf htramp
    rw [Function.update_of_ne (by omega), h.beyond x hx htf htramp]

/-- Nothing is seen beyond the size. -/
theorem seen_beyond (h : Proper m sz tf tramp) (hn : pageCount sz ≤ n) : m.seen sz n = none := by
  rw [UserSpace.seen]
  by_cases htf : n = trapframePage
  · rw [htf, h.trapframe]
  · by_cases htramp : n = trapframePage + 1
    · rw [htramp, h.trampoline]
    · rw [h.beyond n hn htf htramp]
      refine if_neg fun hlt => ?_
      exact absurd (lt_pageCount.mpr hlt) (Nat.not_lt.mpr hn)

/-- Nothing is seen beyond `MAXVA`. -/
theorem seen_none (h : Proper m sz tf tramp) (hva : maxva ≤ n * pgsize) : m.seen sz n = none := by
  refine h.seen_beyond (Nat.not_lt.mp fun hn => ?_)
  have hlt := lt_maxva (h.user_lt hn)
  omega

/-- The shared frames are the trapframe and the trampoline. -/
theorem shared_cases (h : Proper m sz tf tramp) (hm : m n = some (.shared f, flags)) :
    (n = trapframePage ∧ f = tf ∨ n = trapframePage + 1 ∧ f = tramp) ∧ flags.u = false := by
  have hn : ¬ n < pageCount sz := fun hn => h.own n (Nat.zero_le n) hn f flags hm
  by_cases htf : n = trapframePage
  · rw [htf, h.trapframe] at hm
    cases hm
    exact ⟨Or.inl ⟨htf, rfl⟩, rfl⟩
  · by_cases htramp : n = trapframePage + 1
    · rw [htramp, h.trampoline] at hm
      cases hm
      exact ⟨Or.inr ⟨htramp, rfl⟩, rfl⟩
    · rw [h.beyond n (Nat.not_lt.mp hn) htf htramp] at hm
      cases hm

end Proper

/-! ## Accesses -/

/-- Accesses to the memory of process `i`, which keep its size and its pages.
    Its address space is `m'` after them. -/
structure Accesses (kend : Nat) (root : ι → Option Nat) (loose : List Nat) (i : ι)
    (r sz tf tramp : Nat) (s : Phys) (role : Roles ι) (m : UserSpace) (s' : Phys)
    (role' : Roles ι) (m' : UserSpace) : Prop where
  within : Within i s role s' role'
  holds : Holds kend s' root role' none loose i r m'
  proper : Proper m' sz tf tramp
  mapped : ∀ x, m.Mapped x → m'.Mapped x

namespace Accesses

/-- Nothing is accessed. -/
theorem refl (h : Holds kend s root role none loose i r m) (hm : Proper m sz tf tramp) :
    Accesses kend root loose i r sz tf tramp s role m s role m :=
  ⟨Within.refl, h, hm, fun _ => id⟩

/-- One access after another is an access. -/
theorem trans {s'' : Phys} {role'' : Roles ι} {m'' : UserSpace}
    (h : Accesses kend root loose i r sz tf tramp s role m s' role' m')
    (h' : Accesses kend root loose i r sz tf tramp s' role' m' s'' role'' m'') :
    Accesses kend root loose i r sz tf tramp s role m s'' role'' m'' :=
  ⟨h.within.trans h'.within, h'.holds, h'.proper, fun x hx => h'.mapped x (h.mapped x hx)⟩

/-- A user page gets other bytes. -/
theorem write (h : Holds kend s root role none loose i r m) (hm : Proper m sz tf tramp)
    (hpage : m n = some (.page old, flags)) (hu : flags.u = true)
    (hf : role f = .place i (vpath n)) (data : Page) :
    Accesses kend root loose i r sz tf tramp s role m (s.set f (.page data)) role
      (Function.update m n (some (.page data, flags))) where
  within := by
    refine Within.content (f := f) (fun g hg => Phys.set_of_ne hg) ?_
    rw [hf]
    rfl
  holds := h.write data hf hpage
  proper := hm.update (hm.lt_of_page hpage)
  mapped := by
    intro x hx
    by_cases hxn : x = n
    · exact ⟨data, flags, by rw [hxn, Function.update_self], hu⟩
    · obtain ⟨data', flags', hpage', hu'⟩ := hx
      exact ⟨data', flags', by rw [Function.update_of_ne hxn, hpage'], hu'⟩

end Accesses

namespace Holds

/-! ## vmfault -/

/-- A mapped page is found mapped. -/
theorem ismapped_some (h : Holds kend s root role none loose i r m) (hva : n * pgsize < maxva)
    {l : Leaf × PteFlags} (hm : m n = some l) : ismapped s r (n * pgsize) = some true := by
  obtain ⟨leaf, flags⟩ := l
  rw [ismapped]
  cases leaf with
  | shared f =>
      rw [h.lookup_shared hva hm]
      rfl
  | page data =>
      obtain ⟨f, hlookup, -, -⟩ := h.lookup_page hva hm
      rw [hlookup]
      rfl

/-- `vmfault` gives a page of zeros to an address below the size where no page
    is, if three frames are free, and nothing of that is seen. -/
theorem vmfault (h : Holds kend s root role none loose i r m) (hm : Proper m sz tf tramp)
    (va : Nat) :
    ∃ s' role' m', ∃ res : Option Nat, vmfault kend s ⟨r, sz⟩ r va = some (s', res) ∧
      Accesses kend root loose i r sz tf tramp s role m s' role' m' ∧
      m'.seen sz = m.seen sz ∧
      (va < sz → m (va / pgsize) = none → Costs 3 s s' res.isSome) ∧
      ∀ f, res = some f → va < sz ∧ m (va / pgsize) = none ∧
        m' (va / pgsize) = some (.page Page.zero, .user) ∧
        role' f = .place i (vpath (va / pgsize)) := by
  by_cases hsz : sz ≤ va
  · exact ⟨s, role, m, none, by rw [Kernel.vmfault, if_pos hsz], .refl h hm, rfl,
      fun hlt => absurd hlt (Nat.not_lt.mpr hsz), by simp⟩
  · have hva : va < sz := Nat.not_le.mp hsz
    have hn : va / pgsize * pgsize < sz := Nat.lt_of_le_of_lt (Nat.div_mul_le_self ..) hva
    have hcount : va / pgsize < pageCount sz := lt_pageCount.mpr hn
    have hmax := lt_maxva (hm.user_lt hcount)
    cases hpage : m (va / pgsize) with
    -- a page that is mapped is not faulted in again
    | some l =>
        have hmapped := h.ismapped_some hmax hpage
        refine ⟨s, role, m, none, ?_, .refl h hm, rfl, fun _ => by simp, by simp⟩
        simp only [Kernel.vmfault, if_neg hsz, pgrounddown_eq, hmapped, Option.bind_eq_bind,
          Option.bind_some, if_true]
    | none =>
        have hmapped : ismapped s r (va / pgsize * pgsize) = some false := by
          rw [ismapped, h.lookup_none hmax hpage]
          rfl
        have hcost : ∀ {s' : Phys} {res : Option Nat},
            Kernel.vmfault kend s ⟨r, sz⟩ r va = some (s', res) → Costs 3 s s' res.isSome := by
          intro s' res hcall
          refine vmfault_costs (p := ⟨r, sz⟩) hva ?_ hcall
          rwa [pgrounddown_eq]
        have hleaf : PteFlags.user.leaf = true := rfl
        -- a page of zeros, no page, or no table for it
        rcases h.new_page Page.zero hleaf hmax hpage with ⟨hkalloc, -⟩ |
          ⟨s1, f, hkalloc, -, -, hok | hfailed⟩
        · have hcall : Kernel.vmfault kend s ⟨r, sz⟩ r va = some (s, none) := by
            simp only [Kernel.vmfault, if_neg hsz, pgrounddown_eq, hmapped, Option.bind_eq_bind,
              Option.bind_some, hkalloc]
            rfl
          exact ⟨s, role, m, none, hcall, .refl h hm, rfl, fun _ _ => hcost hcall, by simp⟩
        · obtain ⟨s', role', hmap, hin, -, hf, h'⟩ := hok
          have hcall : Kernel.vmfault kend s ⟨r, sz⟩ r va = some (s', some f) := by
            rw [PteFlags.user] at hmap
            simp only [Kernel.vmfault, if_neg hsz, pgrounddown_eq, hmapped, Option.bind_eq_bind,
              Option.bind_some, hkalloc, Phys.zeroPage, hmap]
            rfl
          refine ⟨s', role', _, some f, hcall, ⟨hin, h', hm.update hcount, fun x hx => ?_⟩,
            UserSpace.seen_fault hpage hn, fun _ _ => hcost hcall, ?_⟩
          -- the pages that were mapped stay
          · obtain ⟨data, flags, hx, hu⟩ := hx
            have hne : x ≠ va / pgsize := by
              rintro rfl
              rw [hpage] at hx
              cases hx
            exact ⟨data, flags, by rw [Function.update_of_ne hne, hx], hu⟩
          · rintro f' ⟨⟩
            exact ⟨hva, rfl, Function.update_self .., hf⟩
        · obtain ⟨s2, s', role', hmap, hkfree, hin, h'⟩ := hfailed
          have hcall : Kernel.vmfault kend s ⟨r, sz⟩ r va = some (s', none) := by
            rw [PteFlags.user] at hmap
            simp only [Kernel.vmfault, if_neg hsz, pgrounddown_eq, hmapped, Option.bind_eq_bind,
              Option.bind_some, hkalloc, Phys.zeroPage, hmap, hkfree]
            rfl
          exact ⟨s', role', m, none, hcall, ⟨hin, h', hm, fun _ => id⟩, rfl,
            fun _ _ => hcost hcall, by simp⟩

/-! ## Copies -/

/-- `walkaddr` of a user page. -/
theorem walkaddr_page (h : Holds kend s root role none loose i r m) (hva : n * pgsize < maxva)
    (hm : m n = some (.page data, flags)) (hu : flags.u = true) :
    ∃ f, walkaddr s r (n * pgsize) = some (some f) ∧ role f = .place i (vpath n) := by
  obtain ⟨f, hlookup, hf, -⟩ := h.lookup_page hva hm
  refine ⟨f, ?_, hf⟩
  rw [walkaddr, if_neg (Nat.not_le.mpr hva), hlookup]
  simp only [Option.bind_eq_bind, Option.bind_some, hu, if_true]

/-- `walkaddr` of anything else. -/
theorem walkaddr_none (h : Holds kend s root role none loose i r m) (hm : Proper m sz tf tramp)
    (hnot : ∀ data flags, m n = some (.page data, flags) → flags.u = false) :
    walkaddr s r (n * pgsize) = some none := by
  by_cases hva : maxva ≤ n * pgsize
  · rw [walkaddr, if_pos hva]
  · have hlt := Nat.not_le.mp hva
    rw [walkaddr, if_neg hva]
    cases hpage : m n with
    | none =>
        rw [h.lookup_none hlt hpage]
        rfl
    | some l =>
        obtain ⟨leaf, flags⟩ := l
        cases leaf with
        | page data =>
            obtain ⟨f, hlookup, -, -⟩ := h.lookup_page hlt hpage
            rw [hlookup]
            simp [hnot data flags hpage]
        | shared f =>
            rw [h.lookup_shared hlt hpage]
            simp [(hm.shared_cases hpage).2]

/-- A copy finds the page, or makes it, or fails.  It needs the image of the
    process only to make a page. -/
theorem copyAddr (h : Holds kend s root role none loose i r m) (hm : Proper m sz tf tramp)
    {p : Image} (hp : p = ⟨r, sz⟩ ∨ m.Mapped n) :
    ∃ s' role' m', ∃ res : Option Nat,
      copyAddr kend s p r (n * pgsize) = some (s', res) ∧
      Accesses kend root loose i r sz tf tramp s role m s' role' m' ∧
      m'.seen sz = m.seen sz ∧ (m.Mapped n → res ≠ none) ∧
      (m.seen sz n ≠ none → Costs 3 s s' res.isSome) ∧
      ∀ f, res = some f → ∃ data flags, m' n = some (.page data, flags) ∧ flags.u = true ∧
        role' f = .place i (vpath n) := by
  by_cases huser : m.Mapped n
  · obtain ⟨data, flags, hpage, hu⟩ := huser
    have hva := lt_maxva (hm.user_lt (hm.lt_of_page hpage))
    obtain ⟨f, hwalk, hf⟩ := h.walkaddr_page hva hpage hu
    refine ⟨s, role, m, some f, ?_, .refl h hm, rfl, by simp,
      fun _ => (Costs.of_eq rfl).mono (Nat.zero_le 3), ?_⟩
    · rw [Kernel.copyAddr, hwalk]
      rfl
    · rintro f' ⟨⟩
      exact ⟨data, flags, hpage, hu, hf⟩
  · obtain rfl := hp.resolve_right huser
    have hwalk := h.walkaddr_none hm (n := n) fun data flags hpage => by
      by_contra hu
      exact huser ⟨data, flags, hpage, by simpa using hu⟩
    obtain ⟨s', role', m', res, hfault, hacc, hseen, hcost, hres⟩ := h.vmfault hm (n * pgsize)
    have hcopy : Kernel.copyAddr kend s ⟨r, sz⟩ r (n * pgsize) = some (s', res) := by
      rw [Kernel.copyAddr, hwalk]
      exact hfault
    rw [Nat.mul_div_cancel n (by decide)] at hcost hres
    refine ⟨s', role', m', res, hcopy, hacc, hseen, fun hmapped => absurd hmapped huser,
      fun hsome => ?_, fun f hf => ?_⟩
    · obtain ⟨hlt, hnone⟩ := UserSpace.absent_of_seen hsome huser
      exact hcost hlt hnone
    · obtain ⟨-, -, hpage, hrole⟩ := hres f hf
      exact ⟨Page.zero, .user, hpage, rfl, hrole⟩

/-! ## copyout -/

/-- A round of `copyout` stops at a page that may not be written, or that is not
    there when fewer than three frames are free, or it writes up to the end of
    the page and goes on with the next. -/
theorem copyout_round (h : Holds kend s root role none loose i r m) (hm : Proper m sz tf tramp)
    {p : Image} {dst c : Nat} {src : List UInt8} (hpos : src.length > 0)
    (hp : p = ⟨r, sz⟩ ∨ m.Mapped (dst / pgsize))
    (hc : min (pgsize - dst % pgsize) src.length = c) :
    ∃ s' role' m', Accesses kend root loose i r sz tf tramp s role m s' role' m' ∧
      (copyout kend s p r dst src = some (s', false) ∧ m'.seen sz = m.seen sz ∧
          (¬ (m.seen sz).Writable dst ∨
            ¬ m.Mapped (dst / pgsize) ∧ s.freelist.length < 3) ∨
        copyout kend s p r dst src =
            copyout kend s' p r (dst / pgsize * pgsize + pgsize) (src.drop c) ∧
          m'.seen sz = (m.seen sz).write dst (src.take c) ∧ (m.seen sz).Writable dst ∧
          s.freelist.length ≤ s'.freelist.length + 3) := by
  have hdst : dst / pgsize * pgsize + dst % pgsize = dst := Nat.div_add_mod' dst pgsize
  have hmod : dst % pgsize < pgsize := Nat.mod_lt _ (by decide)
  have hoff : dst - dst / pgsize * pgsize = dst % pgsize := by omega
  rw [Kernel.copyout, if_pos hpos]
  simp only [pgrounddown_eq, hoff, hc]
  by_cases hmax : maxva ≤ dst / pgsize * pgsize
  · have hnone : m.seen sz (dst / pgsize) = none := hm.seen_none hmax
    refine ⟨s, role, m, .refl h hm, Or.inl ⟨by rw [if_pos hmax], rfl, Or.inl ?_⟩⟩
    rintro ⟨data, hpage⟩
    rw [hnone] at hpage
    cases hpage
  · rw [if_neg hmax]
    obtain ⟨s1, role1, m1, res, hcopy, hacc, hseen, hmapped, hcost, hres⟩ := h.copyAddr hm hp
    cases res with
    | none =>
        refine ⟨s1, role1, m1, hacc, Or.inl ⟨?_, hseen, ?_⟩⟩
        · simp only [hcopy, Option.bind_eq_bind, Option.bind_some]
        · by_cases hsome : m.seen sz (dst / pgsize) = none
          · left
            rintro ⟨data, hpage⟩
            rw [hsome] at hpage
            cases hpage
          · exact Or.inr ⟨fun hm => hmapped hm rfl, hcost hsome⟩
    | some f =>
        obtain ⟨data, flags, hpage, hu, hf⟩ := hres f rfl
        obtain ⟨f', hlookup, hf', hdata⟩ := hacc.holds.lookup_page (Nat.not_le.mp hmax) hpage
        -- the second walk finds the same page
        obtain rfl := hacc.holds.forest.place_unique hf hf'
        have hv : m.seen sz (dst / pgsize) = some (data, flags.w) := by
          rw [← hseen, UserSpace.seen_page hpage hu]
        simp only [hcopy, hlookup, Option.bind_eq_bind, Option.bind_some, Option.map_some,
          Option.getD_some]
        -- `copyout` refuses read-only pages
        by_cases hw : flags.w = true
        · have hcpos : 0 < c := by omega
          have htake : (src.take c).length = c := by
            rw [List.length_take]
            omega
          simp only [if_pos hw, Phys.loadPage_eq hdata, Phys.storePage_eq hdata, Option.bind_some,
            if_pos hcpos]
          refine ⟨_, _, _, hacc.trans (.write hacc.holds hacc.proper hpage hu hf _),
            Or.inr ⟨rfl, ?_, ⟨data, by rw [hv, hw]⟩, hcost (by simp [hv])⟩⟩
          rw [UserSpace.seen_update hu, ← hseen, Seen.write_page (by omega),
            UserSpace.seen_page hpage hu]
          rfl
        · refine ⟨s1, role1, m1, hacc, Or.inl ⟨by rw [if_neg hw], hseen, Or.inl ?_⟩⟩
          rintro ⟨data', hpage'⟩
          rw [hv, Option.some.injEq, Prod.mk.injEq] at hpage'
          exact hw hpage'.2

/-- `copyout` writes the bytes, or the first `k` of them: it comes to an end
    at a page that may not be written, or that is not there when there may be too
    few frames for the pages of the copy. -/
theorem copyout (h : Holds kend s root role none loose i r m) (hm : Proper m sz tf tramp)
    {p : Image} {dst : Nat} {src : List UInt8}
    (hp : p = ⟨r, sz⟩ ∨ ∀ a, dst ≤ a → a < dst + src.length → m.Mapped (a / pgsize)) :
    ∃ s' role' m', ∃ ok : Bool, ∃ k, copyout kend s p r dst src = some (s', ok) ∧
      Accesses kend root loose i r sz tf tramp s role m s' role' m' ∧
      m'.seen sz = (m.seen sz).write dst (src.take k) ∧
      (∀ a, dst ≤ a → a < dst + k → (m.seen sz).Writable a) ∧
      if ok then k = src.length else k < src.length ∧
        (¬ (m.seen sz).Writable (dst + k) ∨ ¬ m.Mapped ((dst + k) / pgsize) ∧
          s.freelist.length < 3 * pageCount (dst % pgsize + src.length)) := by
  -- on the bytes that are left, a page at a time
  induction hlen : src.length using Nat.strongRecOn generalizing s role m dst src with
  | ind len ih =>
      by_cases hpos : src.length > 0
      · generalize hc : min (pgsize - dst % pgsize) src.length = c
        have hdst : dst / pgsize * pgsize + dst % pgsize = dst := Nat.div_add_mod' dst pgsize
        have hmod : dst % pgsize < pgsize := Nat.mod_lt _ (by decide)
        have hspan := pageCount_span hpos hc
        obtain ⟨s1, role1, m1, hacc, ⟨hstop, hseen, hwhy⟩ | ⟨hround, hseen, hw, hcost⟩⟩ :=
          h.copyout_round hm hpos (hp.imp_right fun hp => hp dst (Nat.le_refl dst) (by omega)) hc
        · refine ⟨s1, role1, m1, false, 0, hstop, hacc, ?_, fun a ha ha' => by omega, ?_⟩
          · rw [List.take_zero, Seen.write_nil, hseen]
          · refine ⟨by omega, hwhy.imp_right fun hshort => ⟨hshort.1, ?_⟩⟩
            rw [← hlen]
            omega
        · have hdrop : (src.drop c).length = src.length - c := List.length_drop
          -- what is left begins on the next page
          have hnext : 0 < (src.drop c).length → dst / pgsize * pgsize + pgsize = dst + c := by
            omega
          have hp' : p = ⟨r, sz⟩ ∨ ∀ a, dst / pgsize * pgsize + pgsize ≤ a →
              a < dst / pgsize * pgsize + pgsize + (src.drop c).length → m1.Mapped (a / pgsize) :=
            hp.imp_right fun hp a ha ha' => hacc.mapped _ (hp a (by omega) (by omega))
          obtain ⟨s', role', m', ok, k, hrest, hacc', hseen', hwritable, hok⟩ :=
            ih (src.drop c).length (by omega) hacc.holds hacc.proper hp' rfl
          have hk : k ≤ (src.drop c).length := by
            cases ok with
            | true => exact Nat.le_of_eq hok
            | false => exact Nat.le_of_lt hok.1
          refine ⟨s', role', m', ok, c + k, hround.trans hrest, hacc.trans hacc', ?_,
            fun a ha hak => ?_, ?_⟩
          · rw [hseen', hseen, List.take_add, ← Seen.write_append, List.length_take,
              Nat.min_eq_left (by omega)]
            by_cases hmore : 0 < (src.drop c).length
            · rw [hnext hmore]
            · have hnil : src.drop c = [] := List.eq_nil_of_length_eq_zero (by omega)
              rw [hnil, List.take_nil, Seen.write_nil, Seen.write_nil]
          -- this page, or one of the later ones
          · by_cases hac : a < dst + c
            · have hpage : a / pgsize = dst / pgsize := by
                unfold pgsize at hc hdst ⊢
                omega
              rwa [Seen.Writable, hpage]
            · have hle := hnext (by omega)
              have hwritten := hwritable a (by omega) (by omega)
              rwa [hseen, Seen.writable_write] at hwritten
          · cases ok with
            | true =>
                have hall : k = (src.drop c).length := hok
                show c + k = len
                omega
            | false =>
                obtain ⟨hlt, hwhy⟩ := hok
                have hle := hnext (by omega)
                have haddr : dst / pgsize * pgsize + pgsize + k = dst + (c + k) := by omega
                -- a page that is not there now was not there before
                rw [haddr, hseen, Seen.writable_write, hdrop, ← Nat.succ_mul,
                  Nat.mul_mod_left, Nat.zero_add] at hwhy
                refine ⟨by omega, hwhy.imp_right fun hshort => ⟨fun hm => hshort.1
                  (hacc.mapped _ hm), ?_⟩⟩
                rw [← hlen]
                omega
      · have hnil : src = [] := List.eq_nil_of_length_eq_zero (by omega)
        subst hnil
        refine ⟨s, role, m, true, 0, ?_, .refl h hm, ?_, fun a ha ha' => by omega, ?_⟩
        · rw [Kernel.copyout, if_neg hpos]
        · rw [List.take_nil, Seen.write_nil]
        · rw [if_pos rfl, ← hlen]
          rfl

/-! ## copyin -/

/-- `copyin` reads the bytes that are seen.  It fails only if one of them is not
    there, or there may be too few frames for the pages of the copy. -/
theorem copyin (h : Holds kend s root role none loose i r m) (hm : Proper m sz tf tramp)
    (src len : Nat) :
    ∃ s' role' m', ∃ res : Option (List UInt8), copyin kend s ⟨r, sz⟩ r src len = some (s', res) ∧
      Accesses kend root loose i r sz tf tramp s role m s' role' m' ∧
      m'.seen sz = m.seen sz ∧
      (∀ bytes, res = some bytes →
        bytes.map some = (List.range' src len).map (m.seen sz).byteAt) ∧
      (res = none → (∃ k < len, (m.seen sz).byteAt (src + k) = none) ∨
        s.freelist.length < 3 * pageCount (src % pgsize + len)) := by
  -- on the bytes that are left, a page at a time
  induction len using Nat.strongRecOn generalizing s role m src with
  | ind len ih =>
      rw [Kernel.copyin]
      by_cases hpos : len > 0
      · rw [if_pos hpos]
        have hsrc : src / pgsize * pgsize + src % pgsize = src := Nat.div_add_mod' src pgsize
        have hmod : src % pgsize < pgsize := Nat.mod_lt _ (by decide)
        have hoff : src - src / pgsize * pgsize = src % pgsize := by omega
        simp only [pgrounddown_eq, hoff]
        generalize hc : min (pgsize - src % pgsize) len = c
        have hcpos : 0 < c := by omega
        have hspan := pageCount_span hpos hc
        obtain ⟨s1, role1, m1, res1, hcopy, hacc, hseen, -, hcost, hres⟩ :=
          h.copyAddr hm (n := src / pgsize) (Or.inl rfl)
        cases res1 with
        | none =>
            simp only [hcopy, Option.bind_eq_bind, Option.bind_some]
            refine ⟨s1, role1, m1, none, rfl, hacc, hseen, by simp, fun _ => ?_⟩
            by_cases hsome : m.seen sz (src / pgsize) = none
            · exact Or.inl ⟨0, hpos, by rw [Nat.add_zero, Seen.byteAt, hsome]; rfl⟩
            · have hshort : s.freelist.length < 3 := hcost hsome
              right
              omega
        | some f =>
            obtain ⟨data, flags, hpage, hu, hf⟩ := hres f rfl
            obtain ⟨f', -, hf', hdata⟩ := hacc.holds.page_frame (by simp) hpage
            -- the frame is the page that is seen there
            obtain rfl := hacc.holds.forest.place_unique hf hf'
            have hv : m.seen sz (src / pgsize) = some (data, flags.w) := by
              rw [← hseen, UserSpace.seen_page hpage hu]
            have htaken : s.freelist.length ≤ s1.freelist.length + 3 := hcost (by simp [hv])
            have hread := Seen.read_page (c := c) hv (by omega)
            -- what is left begins on the next page
            have hnext : 0 < len - c → src / pgsize * pgsize + pgsize = src + c := by omega
            obtain ⟨s', role', m', res, hrest, hacc', hseen', hbytes, hwhy⟩ :=
              ih (len - c) (by omega) hacc.holds hacc.proper (src / pgsize * pgsize + pgsize)
            simp only [hcopy, Option.bind_eq_bind, Option.bind_some, Phys.loadPage_eq hdata,
              if_pos hcpos, hrest]
            cases res with
            | none =>
                refine ⟨s', role', m', none, rfl, hacc.trans hacc', hseen'.trans hseen, by simp,
                  fun _ => ?_⟩
                rcases hwhy rfl with ⟨k, hk, hnone⟩ | hshort
                · have hle := hnext (by omega)
                  rw [hle, hseen, Nat.add_assoc] at hnone
                  exact Or.inl ⟨c + k, by omega, hnone⟩
                · rw [← Nat.succ_mul, Nat.mul_mod_left, Nat.zero_add] at hshort
                  right
                  omega
            | some rest =>
                refine ⟨s', role', m', _, rfl, hacc.trans hacc', hseen'.trans hseen, ?_,
                  fun hnone => absurd hnone (Option.some_ne_none _)⟩
                rintro bytes ⟨⟩
                -- the bytes of this page and those of the rest
                have hrange : List.range' src len = List.range' src c ++
                    List.range' (src / pgsize * pgsize + pgsize) (len - c) := by
                  by_cases hlast : len - c = 0
                  · rw [hlast, List.range'_zero, List.append_nil]
                    congr 1
                    omega
                  · rw [hnext (Nat.pos_of_ne_zero hlast), List.range'_append_1]
                    congr 1
                    omega
                rw [hrange, List.map_append, List.map_append, hread, hbytes rest rfl, hseen]
      · rw [if_neg hpos]
        refine ⟨s, role, m, some [], rfl, .refl h hm, rfl, ?_, by simp⟩
        rintro bytes ⟨⟩
        have hzero : len = 0 := by omega
        rw [hzero]
        rfl

end Holds

end UserCopy

end G20OsLab.Kernel
