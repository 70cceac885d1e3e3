/-
  G20OsLab.Kernel.Spaces

  All address spaces at once.

  `Spaces` is the invariant of physical memory with the space of every page
  table.  It is kept by what happens within one page table (`Spaces.within`),
  and when a frame comes into use or goes out of use that no page table points
  to (`Spaces.miss`).  Page tables of processes are made (`Spaces.procPagetable`)
  and freed (`Spaces.procFreepagetable`) in it.
-/

import G20OsLab.Kernel.UserCopy
import G20OsLab.Kernel.VmSystem

namespace G20OsLab.Kernel

open Lib (Frame Role Forest Intact Linked slotAt setSlot entry nodeAt)

/-- Physical memory is in order, and the page tables hold `m`. -/
structure Spaces {ι : Type} (kend : Nat) (s : Phys) (root : ι → Option Nat) (role : Roles ι)
    (loose : List Nat) (m : ι → UserSpace) : Prop extends Owned kend s root role none loose where
  space_eq : ∀ i r, root i = some r → space s role r = m i

section Spaces

variable {ι : Type} {kend tramp : Nat} {s s' : Phys} {root root' : ι → Option Nat}
variable {role role' : Roles ι} {loose loose' : List Nat} {i j : ι} {f r tf sz : Nat}
variable {m : ι → UserSpace} {m' : UserSpace} {p : List (Fin 512)} {w : Use} {flags : PteFlags}
variable {x : Frame Nat (Fin 512) PteFlags Page} {b : Role ι (Fin 512) Use}

/-- A frame that page table `j` does not lead to does not matter to it. -/
theorem Owned.space_of_miss (h : Owned kend s root role none loose) (hr : root j = some r)
    (hsame : ∀ g, g ≠ f → role' g = role g ∧ s'.mem g = s.mem g)
    (hmiss : ∀ p, ¬ Linked s.mem root role j p f) : space s' role' r = space s role r := by
  have hplace : ∀ g p, role g = .place j p → s'.mem g = s.mem g := by
    intro g p hg
    refine (hsame g ?_).2
    rintro rfl
    exact hmiss p (h.forest.up g j p hg)
  funext n
  rw [space, space]
  congr 1
  rw [h.forest.entry_congr Lib.intact_none hr hplace (Nat.le_of_eq (vpath_length n))]
  cases he : entry s.mem r (vpath n) with
  | none => rfl
  | some e =>
      have hne : e.1 ≠ f := by
        rintro rfl
        obtain ⟨g, hg, hslot⟩ := (h.forest.entry_eq_some Lib.intact_none hr tablePath_lt).mp he
        exact hmiss (vpath n) ⟨g, e, hg, hslot, rfl⟩
      exact congrArg some (leafOf_congr (hsame e.1 hne).1 (hsame e.1 hne).2)

namespace Spaces

/-- Each address space alone is held by its page table. -/
theorem holds (h : Spaces kend s root role loose m) (hr : root i = some r) :
    Holds kend s root role none loose i r (m i) where
  toOwned := h.toOwned
  root_eq := hr
  intact := Lib.intact_none
  space_eq := h.space_eq i r hr

variable [DecidableEq ι]

/-- What happens within one page table, or with it. -/
theorem within (h : Spaces kend s root role loose m) (hin : Within i s role s' role')
    (h' : Owned kend s' root' role' none loose') (hroot : ∀ j, j ≠ i → root' j = root j)
    (hi : ∀ r, root' i = some r → space s' role' r = m') :
    Spaces kend s' root' role' loose' (Function.update m i m') where
  toOwned := h'
  space_eq := by
    intro j r hr
    by_cases hji : j = i
    · subst hji
      rw [Function.update_self]
      exact hi r hr
    · rw [hroot j hji] at hr
      rw [Function.update_of_ne hji, h.toOwned.space_of_within hin hji (by simp) hr,
        h.space_eq j r hr]

/-- An operation on one address space leaves the others. -/
theorem within_holds (h : Spaces kend s root role loose m) (hin : Within i s role s' role')
    (h' : Holds kend s' root role' none loose' i r m') :
    Spaces kend s' root role' loose' (Function.update m i m') := by
  refine h.within hin h'.toOwned (fun _ _ => rfl) fun r' hr' => ?_
  rw [h'.root_eq] at hr'
  cases hr'
  exact h'.space_eq

omit [DecidableEq ι] in
/-- A frame that no page table leads to. -/
theorem miss (h : Spaces kend s root role loose m) (h' : Owned kend s' root role' none loose')
    (hsame : ∀ g, g ≠ f → role' g = role g ∧ s'.mem g = s.mem g)
    (hmiss : ∀ j p, ¬ Linked s.mem root role j p f) : Spaces kend s' root role' loose' m where
  toOwned := h'
  space_eq := by
    intro j r hr
    rw [h.toOwned.space_of_miss hr hsame (hmiss j), h.space_eq j r hr]

end Spaces

namespace Owned

/-- No page table leads to a free or loose frame. -/
theorem not_linked (h : Owned kend s root role none loose)
    (hf : role f = .free ∨ role f = .loose) : ¬ Linked s.mem root role j p f := by
  intro hlinked
  rcases h.forest.down f j p hlinked with hhole | hplace | ⟨-, w, hw⟩
  · cases hhole
  · rcases hf with hf | hf <;> rw [hf] at hplace <;> cases hplace
  · rcases hf with hf | hf <;> rw [hf] at hw <;> cases hw

/-- A page table that leads to a frame outside has an entry for it. -/
theorem entry_of_linked (h : Owned kend s root role none loose) (hf : role f = .other w)
    (hlinked : Linked s.mem root role j p f) :
    ∃ r n flags, root j = some r ∧ n < pages ∧ p = vpath n ∧
      entry s.mem r (vpath n) = some (f, flags) := by
  rcases h.forest.down f j p hlinked with hhole | hplace | ⟨hlen, -⟩
  · cases hhole
  · rw [hf] at hplace
    cases hplace
  · obtain ⟨n, hn, rfl⟩ := exists_vpath hlen
    obtain ⟨g, e, hg, he, rfl⟩ := hlinked
    obtain ⟨r, hr⟩ := h.forest.root_of_place hg
    exact ⟨r, n, e.2, hr, hn, rfl,
      (h.forest.entry_eq_some Lib.intact_none hr tablePath_lt).mpr ⟨g, hg, he⟩⟩

/-- A frame from `kalloc` is put to a use outside the page tables. -/
theorem use (h : Owned kend s root role none (f :: loose)) (hf : f ∉ loose) (w : Use) :
    Owned kend (s.set f .junk) root (Function.update role f (.other w)) none loose := by
  have hloose : role f = .loose := (h.loose f).mp (List.mem_cons_self ..)
  refine h.assign (h.forest.reuse (Or.inr hloose) trivial) rfl ?_
    (mem_iff_update h.freelist (by rw [hloose]; simp) (by simp)) h.nodup
    (mem_tail_iff_update h.loose hf (by simp)) (by rw [hloose]; simp)
  intro k
  exact Lib.slotAt_junk (Function.update_self ..)

/-- `kfree` of a frame outside the page tables; `hole` is the place of the
    pointer that is left behind, if there is one. -/
theorem kfree_other (h : Owned kend s root role none loose) {hole : Hole ι}
    (hf : role f = .other w) (hw : w ≠ .kernel)
    (honly : ∀ j p, Linked s.mem root role j p f → hole = some (j, p))
    (hvacant : ∀ g j p, hole = some (j, p) → role g ≠ .place j p) :
    ∃ s', Kernel.kfree kend s f = some s' ∧ s'.mem = Function.update s.mem f .junk ∧
      Owned kend s' root (Function.update role f .free) hole loose := by
  have hkernel : role f ≠ .other .kernel := by
    rw [hf]
    rintro ⟨⟩
    exact hw rfl
  have hunplaced : (role f).Unplaced := by
    rw [hf]
    trivial
  exact h.kfree (h.forest.reassign hunplaced trivial honly (by simp) hvacant) hkernel
    (by rw [hf]; simp) (mem_iff_update h.loose (by rw [hf]; simp) (by simp))

/-! ## Page tables of processes -/

variable [DecidableEq ι]

/-- `uvmcreate` makes an empty page table. -/
theorem uvmcreate (h : Owned kend s root role none loose) (hroot : root i = none) :
    (Kernel.uvmcreate s = (s, none)) ∨
    ∃ s' r role', Kernel.uvmcreate s = (s', some r) ∧ Within i s role s' role' ∧
      Holds kend s' (Function.update root i (some r)) role' none loose i r fun _ => none := by
  rcases h.kalloc with ⟨hkalloc, -⟩ | ⟨s1, r, hkalloc, -, hfree, hmem, h1⟩
  · left
    rw [Kernel.uvmcreate, hkalloc]
  · right
    have hfresh : r ∉ loose := by
      rw [h.loose, hfree]
      simp
    have hloose : Function.update role r .loose r = .loose := Function.update_self ..
    have htable : (s1.zeroTable r).mem r = .table fun _ => none := Function.update_self ..
    have h2 := h1.set_loose (x := .table fun _ => none) hloose
    have hforest := h2.forest.plant hroot hloose htable (by decide)
    rw [Function.update_idem] at hforest
    have hmem2 : (s1.zeroTable r).mem = Function.update s.mem r (.table fun _ => none) := by
      rw [Phys.zeroTable, Phys.set, hmem, Function.update_idem]
    have hslots : ∀ k, slotAt (s1.zeroTable r).mem r k = none := fun k => Lib.slotAt_table htable
    have howned : Owned kend (s1.zeroTable r) (Function.update root i (some r))
        (Function.update role r (.place i [])) none loose := by
      refine h.assign hforest hmem2 hslots ?_ h1.nodup ?_ (by rw [hfree]; simp)
      · intro g
        by_cases hgr : g = r
        · subst hgr
          rw [Function.update_self, Phys.zeroTable, Phys.set, h1.freelist, Function.update_self]
          simp
        · rw [Function.update_of_ne hgr, Phys.zeroTable, Phys.set, h1.freelist,
            Function.update_of_ne hgr]
      · exact mem_iff_update h.loose (by rw [hfree]; simp) (by simp)
    refine ⟨s1.zeroTable r, r, _, by rw [Kernel.uvmcreate, hkalloc], ?_, howned,
      Function.update_self .., Lib.intact_none, ?_⟩
    · refine Within.update hmem2 ?_ rfl
      rw [hfree]
      trivial
    · funext n
      have hentry : entry (s1.zeroTable r).mem r (vpath n) = none := by
        rw [vpath, leafPath, tablePath, entry, nodeAt, nodeAt, nodeAt, Option.bind_some, hslots]
        rfl
      rw [space, hentry]
      split <;> rfl

end Owned

/-- The address space of a new process. -/
def newSpace (tf tramp : Nat) : UserSpace :=
  Function.update (Function.update (fun _ => none) (trapframePage + 1)
    (some (.shared tramp, ⟨true, false, true, false⟩))) trapframePage
    (some (.shared tf, ⟨true, true, false, false⟩))

theorem trampoline_eq : trampoline = (trapframePage + 1) * pgsize := by decide

theorem trapframe_eq : trapframe = trapframePage * pgsize := by decide

theorem trapframePage_lt : trapframePage * pgsize < maxva := by decide

theorem trampolinePage_lt : (trapframePage + 1) * pgsize < maxva := by decide

/-- A new address space has the trampoline and the trap frame only. -/
theorem newSpace_proper : Proper (newSpace tf tramp) 0 tf tramp where
  size := Nat.zero_le _
  own := fun n _ hn => absurd hn (Nat.not_lt_zero n)
  trapframe := Function.update_self ..
  trampoline := by
    rw [newSpace, Function.update_of_ne (Nat.succ_ne_self _), Function.update_self]
  beyond := by
    intro n _ htf htramp
    rw [newSpace, Function.update_of_ne htf, Function.update_of_ne htramp]

/-- A new page table has no user memory. -/
theorem newSpace_seen : (newSpace tf tramp).seen 0 = fun _ => none :=
  funext fun n => newSpace_proper.seen_beyond (Nat.zero_le n)

variable [DecidableEq ι]

/-- `uvmfree` of a page table that was never used. -/
theorem Holds.uvmfree_empty (h : Holds kend s root role none loose i r fun _ => none) :
    ∃ s' role', Kernel.uvmfree kend s r 0 = some s' ∧ Within i s role s' role' ∧
      Owned kend s' (Function.update root i none) role' none loose ∧
      ∀ f p, role' f ≠ .place i p :=
  h.uvmfree 0 (Nat.zero_le _) (fun n _ hn => absurd hn (Nat.not_lt_zero n)) fun _ _ => rfl

/-- `proc_pagetable` makes the page table of a new process, or leaves nothing
    behind. -/
theorem Owned.procPagetable (h : Owned kend s root role none loose) (hroot : root i = none)
    (htramp : role tramp = .other .kernel) (htf : role tf = .other w) :
    ∃ s' role', ∃ res : Option Nat, Vm.procPagetable kend tramp s tf = some (s', res) ∧
      Within i s role s' role' ∧
      match res with
      | none => Owned kend s' root role' none loose ∧ ∀ f p, role' f ≠ .place i p
      | some r => Holds kend s' (Function.update root i (some r)) role' none loose i r
          (newSpace tf tramp) := by
  have hundo : ∀ r : Nat, Function.update (Function.update root i (some r)) i none = root := by
    intro r
    rw [Function.update_idem, ← hroot, Function.update_eq_self]
  rcases h.uvmcreate hroot with hnone | ⟨s1, r, role1, hcreate, hin1, h1⟩
  · refine ⟨s, role, none, by rw [Vm.procPagetable, hnone], Within.refl, h, fun f p hf => ?_⟩
    obtain ⟨r, hr⟩ := h.forest.root_of_place hf
    rw [hroot] at hr
    cases hr
  · obtain ⟨s2, role2, ok, hmap, hin2, -, h2⟩ := h1.mappages_shared (n := trapframePage + 1)
      ⟨true, false, true, false⟩ (hin1.other_iff.mpr htramp) rfl trampolinePage_lt rfl
    have hin12 := hin1.trans hin2
    rw [← trampoline_eq] at hmap
    cases ok with
    | false =>
        obtain ⟨s3, role3, hfree, hin3, h3, hgone⟩ := Holds.uvmfree_empty h2
        rw [hundo] at h3
        refine ⟨s3, role3, none, ?_, hin12.trans hin3, h3, hgone⟩
        simp only [Vm.procPagetable, hcreate, hmap, hfree, Option.bind_eq_bind, Option.bind_some]
    | true =>
        have h2' : Holds kend s2 _ role2 none loose i r _ := h2
        have hnone : Function.update (fun _ => none : UserSpace) (trapframePage + 1)
            (some (.shared tramp, ⟨true, false, true, false⟩)) trapframePage = none :=
          Function.update_of_ne (Nat.ne_of_lt (Nat.lt_succ_self _)) ..
        obtain ⟨s3, role3, ok, hmap', hin3, -, h3⟩ := h2'.mappages_shared (n := trapframePage)
          ⟨true, true, false, false⟩ (hin12.other_iff.mpr htf) rfl trapframePage_lt
          hnone
        have hin13 := hin12.trans hin3
        rw [← trapframe_eq] at hmap'
        cases ok with
        | true =>
            refine ⟨s3, role3, some r, ?_, hin13, h3⟩
            simp only [Vm.procPagetable, hcreate, hmap, hmap', Option.bind_eq_bind,
              Option.bind_some]
        | false =>
            have h3' : Holds kend s3 _ role3 none loose i r _ := h3
            obtain ⟨s4, hunmap, hin4, -, h4⟩ := h3'.unmap_keep none trampolinePage_lt
              (Function.update_self ..) (by simp) (by simp)
            rw [Function.update_idem, Function.update_eq_self_iff.mpr rfl] at h4
            rw [← trampoline_eq] at hunmap
            obtain ⟨s5, role5, hfree, hin5, h5, hgone⟩ := Holds.uvmfree_empty h4
            rw [hundo] at h5
            refine ⟨s5, role5, none, ?_, (hin13.trans hin4).trans hin5, h5, hgone⟩
            simp only [Vm.procPagetable, hcreate, hmap, hmap', hunmap, hfree, Option.bind_eq_bind,
              Option.bind_some]

/-- `proc_freepagetable` frees all of a page table; the trapframe may be free
    already. -/
theorem Holds.procFreepagetable {hole : Hole ι} (h : Holds kend s root role hole loose i r m')
    (hm : Proper m' sz tf tramp)
    (hhole : ∀ place, hole = some place → place = (i, vpath trapframePage)) :
    ∃ s' role', Vm.procFreepagetable kend s r sz = some s' ∧ Within i s role s' role' ∧
      Owned kend s' (Function.update root i none) role' none loose ∧
      ∀ f p, role' f ≠ .place i p := by
  obtain ⟨s1, hunmap1, hin1, -, h1⟩ := h.unmap_keep hole trampolinePage_lt
    hm.trampoline (fun _ hplace => Or.inr hplace) (fun _ hplace => hplace)
  have htf : Function.update m' (trapframePage + 1) none trapframePage =
      some (.shared tf, ⟨true, true, false, false⟩) := by
    rw [Function.update_of_ne (Nat.ne_of_lt (Nat.lt_succ_self _)), hm.trapframe]
  obtain ⟨s2, hunmap2, hin2, -, h2⟩ := h1.unmap_keep none trapframePage_lt htf
    (fun place hplace => Or.inl (hhole place hplace)) (by simp)
  have hlow : ∀ x, x < pageCount sz →
      Function.update (Function.update m' (trapframePage + 1) none) trapframePage none x =
        m' x := by
    intro x hx
    have hlt := hm.user_lt hx
    rw [Function.update_of_ne (by omega), Function.update_of_ne (by omega)]
  obtain ⟨s', role', hfree, hin3, h', hgone⟩ := h2.uvmfree sz
    (Nat.le_trans (Nat.mul_le_mul_right _ (pageCount_le hm.size)) (by decide))
    (fun x hx hxsz => by
      rw [hlow x hxsz]
      exact hm.own x hx hxsz)
    (fun x hx => by
      by_cases hxtf : x = trapframePage
      · rw [hxtf, Function.update_self]
      · rw [Function.update_of_ne hxtf]
        by_cases hxtramp : x = trapframePage + 1
        · rw [hxtramp, Function.update_self]
        · rw [Function.update_of_ne hxtramp, hm.beyond x hx hxtf hxtramp])
  rw [← trampoline_eq] at hunmap1
  rw [← trapframe_eq] at hunmap2
  refine ⟨s', role', ?_, (hin1.trans hin2).trans hin3, h', hgone⟩
  simp only [Vm.procFreepagetable, hunmap1, hunmap2, Option.bind_eq_bind, Option.bind_some, hfree]

/-! ## freeproc -/

omit [DecidableEq ι] in
/-- `kfree` of a trapframe, which the page table of the process still maps. -/
theorem Spaces.kfree_trapframe (h : Spaces kend s root role loose m) (hr : root i = some r)
    (hf : role tf = .other w) (hw : w ≠ .kernel)
    (honly : ∀ j p, Linked s.mem root role j p tf → (j, p) = (i, vpath trapframePage))
    (hm : m i trapframePage = some (.shared tf, flags)) :
    ∃ s' role', kfree kend s tf = some s' ∧
      (∀ g, g ≠ tf → role' g = role g ∧ s'.mem g = s.mem g) ∧ role' tf = .free ∧
      Holds kend s' root role' (some (i, vpath trapframePage)) loose i r (m i) ∧
      ∀ j r', j ≠ i → root j = some r' → space s' role' r' = m j := by
  have hi := h.holds hr
  obtain ⟨he, -⟩ := hi.shared_frame hm
  -- the path leads to the trap frame, which is not in the tree
  have hvacant : ∀ g j p, some (i, vpath trapframePage) = some (j, p) → role g ≠ .place j p := by
    rintro g j p ⟨⟩ hg
    obtain ⟨g', hg', hslot⟩ := (h.forest.entry_eq_some Lib.intact_none hr tablePath_lt).mp he
    have hlinked : Linked s.mem root role i (vpath trapframePage) tf :=
      ⟨g', (tf, flags), hg', hslot, rfl⟩
    rw [h.forest.linked_unique hlinked (h.forest.up g i _ hg), hg] at hf
    cases hf
  obtain ⟨s', hkfree, hmem, h'⟩ := h.toOwned.kfree_other hf hw
    (fun j p hlinked => congrArg some (honly j p hlinked).symm) hvacant
  have hsame : ∀ g, g ≠ tf → Function.update role tf .free g = role g ∧ s'.mem g = s.mem g :=
    fun g hg => ⟨Function.update_of_ne hg .., by rw [hmem, Function.update_of_ne hg]⟩
  have hplace : ∀ g p, role g = .place i p → s'.mem g = s.mem g := by
    intro g p hg
    refine (hsame g ?_).2
    rintro rfl
    rw [hf] at hg
    cases hg
  refine ⟨s', _, hkfree, hsame, Function.update_self .., ⟨h', hr, ?_, ?_⟩, ?_⟩
  · rintro q ⟨⟩
    exact Nat.le_refl 3
  · funext n
    rw [← hi.space_eq, space, space]
    congr 1
    rw [h.forest.entry_congr Lib.intact_none hr hplace (Nat.le_of_eq (vpath_length n))]
    cases entry s.mem r (vpath n) with
    | none => rfl
    | some e =>
        refine congrArg some ?_
        obtain ⟨g, flags'⟩ := e
        -- the entry of the trap frame still points to it
        by_cases hg : g = tf
        · subst hg
          rw [leafOf_other hf, leafOf, hmem, Function.update_self]
        · exact leafOf_congr (hsame g hg).1 (hsame g hg).2
  · intro j r' hji hr'
    rw [h.toOwned.space_of_miss hr' hsame fun p hlinked => ?_, h.space_eq j r' hr']
    exact hji (congrArg Prod.fst (honly j p hlinked))

/-- `freeproc` of a process with memory leaves nothing of it. -/
theorem Spaces.freeproc (h : Spaces kend s root role loose m) (hr : root i = some r)
    (hf : role tf = .other w) (hw : w ≠ .kernel)
    (honly : ∀ j p, Linked s.mem root role j p tf → (j, p) = (i, vpath trapframePage))
    (hm : Proper (m i) sz tf tramp) :
    ∃ s' role', Vm.freeproc kend s ⟨some tf, some r, sz⟩ = some s' ∧
      (∀ u, u ≠ w → ∀ f, role' f = .other u ↔ role f = .other u) ∧
      (∀ f, role' f = .other w ↔ role f = .other w ∧ f ≠ tf) ∧
      Spaces kend s' (Function.update root i none) role' loose m := by
  obtain ⟨s1, role1, hkfree, hsame, hfree, h1, hspaces⟩ :=
    h.kfree_trapframe hr hf hw honly hm.trapframe
  obtain ⟨s', role', hdone, hin, h', hgone⟩ := h1.procFreepagetable hm
    fun place hplace => (Option.some.inj hplace).symm
  have hrole : ∀ u f, role' f = .other u ↔ role f = .other u ∧ f ≠ tf := by
    intro u f
    rw [hin.other_iff]
    by_cases hftf : f = tf
    · subst hftf
      rw [hfree]
      simp
    · rw [(hsame f hftf).1]
      simp [hftf]
  refine ⟨s', role', ?_, fun u hu f => ?_, hrole w, h', fun j r' hr' => ?_⟩
  · simp only [Vm.freeproc, hkfree, Option.bind_eq_bind, Option.bind_some, hdone]
  · rw [hrole]
    constructor
    · exact And.left
    · intro hfu
      refine ⟨hfu, ?_⟩
      rintro rfl
      rw [hf] at hfu
      cases hfu
      exact hu rfl
  · by_cases hji : j = i
    · rw [hji, Function.update_self] at hr'
      cases hr'
    · rw [Function.update_of_ne hji] at hr'
      rw [h1.toOwned.space_of_within hin hji (by rintro q ⟨⟩; exact hji rfl) hr',
        hspaces j r' hji hr']

/-! ## allocproc and fork -/

omit [DecidableEq ι] in
/-- Within one page table the others get no new pointers. -/
theorem Within.linked (h : Within i s role s' role') (hji : j ≠ i)
    (hlinked : Linked s'.mem root role' j p f) : Linked s.mem root role j p f := by
  cases p with
  | nil => exact hlinked
  | cons k p =>
      obtain ⟨g, e, hg, he, hf⟩ := hlinked
      rw [h.place_iff hji] at hg
      have hmem : s'.mem g = s.mem g := by
        refine h.mem_eq ?_
        rw [hg]
        exact hji
      exact ⟨g, e, hg, by rwa [slotAt, hmem] at he, hf⟩

omit [DecidableEq ι] in
/-- Only the process itself maps its trapframe. -/
theorem Spaces.only_linked (h : Spaces kend s root role loose m) (hf : role tf = .other w)
    (hm : Proper (m i) sz tf tramp) (hne : tf ≠ tramp)
    (hothers : ∀ j p, j ≠ i → ¬ Linked s.mem root role j p tf) (j : ι) (p : List (Fin 512))
    (hlinked : Linked s.mem root role j p tf) : (j, p) = (i, vpath trapframePage) := by
  by_cases hji : j = i
  · subst hji
    obtain ⟨r, n, flags, hr, hn, rfl, he⟩ := h.toOwned.entry_of_linked hf hlinked
    have hshared : m j n = some (.shared tf, flags) := by
      rw [(h.holds hr).apply hn, he, Option.map_some, leafOf_other hf]
    rcases (hm.shared_cases hshared).1 with ⟨rfl, -⟩ | ⟨-, htramp⟩
    · rfl
    · exact absurd htramp hne
  · exact absurd hlinked (hothers j p hji)

omit [DecidableEq ι] in
/-- A frame from `kalloc` is put to a use outside the page tables. -/
theorem Spaces.kalloc_use (h : Spaces kend s root role [] m) (w : Use) :
    kalloc s = (s, none) ∨
    ∃ s' f, kalloc s = (s', some f) ∧ role f = .free ∧
      Spaces kend s' root (Function.update role f (.other w)) [] m ∧
      ∀ j p, ¬ Linked s'.mem root (Function.update role f (.other w)) j p f := by
  rcases h.toOwned.kalloc with ⟨hkalloc, -⟩ | ⟨s1, f, hkalloc, -, hfree, hmem, h1⟩
  · exact Or.inl hkalloc
  · right
    have hjunk : s1.mem f = .junk := by
      rw [hmem, Function.update_self]
    have h2 := h1.use (by simp) w
    rw [Phys.set_eq_self hjunk, Function.update_idem] at h2
    have hsame : ∀ g, g ≠ f →
        Function.update role f (.other w) g = role g ∧ s1.mem g = s.mem g :=
      fun g hg => ⟨Function.update_of_ne hg .., by rw [hmem, Function.update_of_ne hg]⟩
    refine ⟨s1, f, hkalloc, hfree, h.miss h2 hsame fun j p => h.toOwned.not_linked (Or.inl hfree),
      fun j p hlinked => ?_⟩
    -- a pointer to it would have been there before
    refine h.toOwned.not_linked (j := j) (p := p) (Or.inl hfree) ?_
    cases p with
    | nil => exact hlinked
    | cons k p =>
        obtain ⟨g, e, hg, he, hf⟩ := hlinked
        have hgf : g ≠ f := by
          rintro rfl
          rw [Function.update_self] at hg
          cases hg
        rw [(hsame g hgf).1] at hg
        exact ⟨g, e, hg, by rwa [slotAt, (hsame g hgf).2] at he, hf⟩

omit [DecidableEq ι] in
/-- `kfree` of such a frame, when no page table leads to it. -/
theorem Spaces.kfree_unused (h : Spaces kend s root role [] m) (hf : role f = .other w)
    (hw : w ≠ .kernel) (hmiss : ∀ j p, ¬ Linked s.mem root role j p f) :
    ∃ s', kfree kend s f = some s' ∧
      Spaces kend s' root (Function.update role f .free) [] m := by
  have hvacant : ∀ (g : Nat) j p, (none : Hole ι) = some (j, p) → role g ≠ .place j p := by
    simp
  obtain ⟨s', hkfree, hmem, h'⟩ := h.toOwned.kfree_other hf hw
    (fun j p hlinked => absurd hlinked (hmiss j p)) hvacant
  exact ⟨s', hkfree, h.miss h' (fun g hg => ⟨Function.update_of_ne hg .., by
    rw [hmem, Function.update_of_ne hg]⟩) hmiss⟩

/-- `allocproc` makes a trapframe and a page table, or leaves nothing behind. -/
theorem Spaces.allocproc (h : Spaces kend s root role [] m) (hroot : root i = none)
    (htramp : role tramp = .other .kernel) (hw : w ≠ .kernel) (hnone : ∀ f, role f ≠ .other w) :
    ∃ s' role', ∃ res : Option ProcMem, Vm.allocproc kend tramp s = some (s', res) ∧
      match res with
      | none => Spaces kend s' root role' [] m ∧ ∀ u f, role' f = .other u ↔ role f = .other u
      | some p => ∃ tf r, p = ⟨some tf, some r, 0⟩ ∧
          Spaces kend s' (Function.update root i (some r)) role' []
            (Function.update m i (newSpace tf tramp)) ∧
          (∀ u, u ≠ w → ∀ f, role' f = .other u ↔ role f = .other u) ∧
          (∀ f, role' f = .other w ↔ f = tf) ∧ tf ≠ tramp ∧
          ∀ j p, j ≠ i → ¬ Linked s'.mem (Function.update root i (some r)) role' j p tf := by
  rcases h.kalloc_use w with hkalloc | ⟨s1, tf, hkalloc, hfree, h1, hback⟩
  · refine ⟨s, role, none, ?_, h, fun _ _ => Iff.rfl⟩
    simp only [Vm.allocproc, hkalloc, Vm.freeproc, ProcMem.unused, Option.bind_eq_bind,
      Option.bind_some]
  · have hne : tf ≠ tramp := by
      rintro rfl
      rw [hfree] at htramp
      cases htramp
    have hother : ∀ u f, Function.update role tf (.other w) f = .other u ↔
        role f = .other u ∨ f = tf ∧ u = w := by
      intro u f
      by_cases hf : f = tf
      · subst hf
        rw [Function.update_self, hfree]
        simp [eq_comm]
      · rw [Function.update_of_ne hf]
        simp [hf]
    obtain ⟨s2, role2, res, hmade, hin, h2⟩ := h1.toOwned.procPagetable hroot
      ((hother _ _).mpr (Or.inl htramp)) (Function.update_self ..)
    cases res with
    | none =>
        -- `freeproc` gives the trap frame back, to which nothing points
        obtain ⟨howned, hgone⟩ := h2
        have hmiss : ∀ j p, ¬ Linked s2.mem root role2 j p tf := by
          intro j p hlinked
          by_cases hji : j = i
          · subst hji
            cases p with
            | nil =>
                rw [Linked, hroot] at hlinked
                cases hlinked
            | cons k p =>
                obtain ⟨g, e, hg, -⟩ := hlinked
                exact hgone g p hg
          · exact hback j p (hin.linked hji hlinked)
        -- no page table has been made, so the address spaces are the same
        have h2' : Spaces kend s2 root role2 [] (Function.update m i (m i)) :=
          h1.within hin howned (fun _ _ => rfl) fun r hr => by
            rw [hroot] at hr
            cases hr
        rw [Function.update_eq_self] at h2'
        obtain ⟨s3, hkfree, h3⟩ :=
          h2'.kfree_unused (hin.other_iff.mpr (Function.update_self ..)) hw hmiss
        refine ⟨s3, _, none, ?_, h3, fun u f => ?_⟩
        · simp only [Vm.allocproc, hkalloc, hmade, Vm.freeproc, hkfree, Option.bind_eq_bind,
            Option.bind_some]
        · by_cases hf : f = tf
          · subst hf
            rw [Function.update_self, hfree]
          · rw [Function.update_of_ne hf, hin.other_iff, hother]
            simp [hf]
    | some r =>
        have h2' : Holds kend s2 _ role2 none [] i r (newSpace tf tramp) := h2
        refine ⟨s2, role2, some ⟨some tf, some r, 0⟩, ?_, tf, r, rfl, ?_, fun u hu f => ?_,
          fun f => ?_, hne, fun j p hji hlinked => ?_⟩
        · simp only [Vm.allocproc, hkalloc, hmade, Option.bind_eq_bind, Option.bind_some]
        · refine h1.within hin h2'.toOwned (fun j hj => Function.update_of_ne hj ..) ?_
          intro r' hr'
          rw [Function.update_self] at hr'
          cases hr'
          exact h2'.space_eq
        · rw [hin.other_iff, hother]
          simp [hu]
        · rw [hin.other_iff, hother]
          simp [hnone f]
        · refine hback j p ?_
          have hlinked' := hin.linked hji hlinked
          cases p with
          | nil => rwa [Linked, Function.update_of_ne hji] at hlinked'
          | cons k p => exact hlinked'

/-- The copy of an address space of size `sz` in a new process. -/
def childSpace (m' : UserSpace) (tf tramp sz : Nat) : UserSpace :=
  m'.copied (newSpace tf tramp) 0 (pageCount sz)

omit [DecidableEq ι] in

/-- A child has the pages of its parent under its own trap frame. -/
theorem childSpace_proper {tf' : Nat} (hm : Proper m' sz tf' tramp) :
    Proper (childSpace m' tf tramp sz) sz tf tramp where
  size := hm.size
  own := by
    intro x hx hxsz
    rw [childSpace, UserSpace.copied, if_pos ⟨hx, by omega⟩]
    exact hm.own x hx hxsz
  trapframe := by
    have hle := pageCount_le hm.size
    rw [childSpace, UserSpace.copied, if_neg (by omega), newSpace_proper.trapframe]
  trampoline := by
    have hle := pageCount_le hm.size
    rw [childSpace, UserSpace.copied, if_neg (by omega), newSpace_proper.trampoline]
  beyond := by
    intro x hx htf htramp
    rw [childSpace, UserSpace.copied, if_neg (by omega)]
    exact newSpace_proper.beyond x (Nat.zero_le x) htf htramp

omit [DecidableEq ι] in
/-- A child sees what its parent sees. -/
theorem childSpace_seen {tf' : Nat} (hm : Proper m' sz tf' tramp) :
    (childSpace m' tf tramp sz).seen sz = m'.seen sz := by
  funext x
  by_cases hx : x < pageCount sz
  · rw [UserSpace.seen, childSpace, UserSpace.copied, if_pos (by omega), UserSpace.seen]
  · have hle := Nat.not_lt.mp hx
    rw [(childSpace_proper hm).seen_beyond hle, hm.seen_beyond hle]

/-- `fork_with_priority` and `kclone` make a copy, or leave nothing behind. -/
theorem Spaces.fork (h : Spaces kend s root role [] m) (hroot : root i = none)
    (htramp : role tramp = .other .kernel) (hw : w ≠ .kernel) (hnone : ∀ f, role f ≠ .other w)
    {tf' : Nat} (hr : root j = some r) (hm : Proper (m j) sz tf' tramp) :
    ∃ s' role', ∃ res : Option ProcMem, Vm.fork kend tramp s r sz = some (s', res) ∧
      match res with
      | none => ∃ m', Spaces kend s' root role' [] (Function.update m i m') ∧
          ∀ u f, role' f = .other u ↔ role f = .other u
      | some p => ∃ tf r', p = ⟨some tf, some r', sz⟩ ∧
          Spaces kend s' (Function.update root i (some r')) role' []
            (Function.update m i (childSpace (m j) tf tramp sz)) ∧
          (∀ u, u ≠ w → ∀ f, role' f = .other u ↔ role f = .other u) ∧
          (∀ f, role' f = .other w ↔ f = tf) := by
  have hji : j ≠ i := by
    rintro rfl
    rw [hroot] at hr
    cases hr
  obtain ⟨s1, role1, res, halloc, h1⟩ := h.allocproc hroot htramp hw hnone
  cases res with
  | none =>
      refine ⟨s1, role1, none, ?_, m i, ?_, h1.2⟩
      · simp only [Vm.fork, halloc, Option.bind_eq_bind, Option.bind_some]
      · rw [Function.update_eq_self]
        exact h1.1
  | some np =>
      obtain ⟨tf, r', rfl, h1, hother, hown, hne, hmiss⟩ := h1
      have hi := h1.holds (i := i) (Function.update_self ..)
      have hj := h1.holds (i := j) ((Function.update_of_ne hji ..).trans hr)
      rw [Function.update_self] at hi
      rw [Function.update_of_ne hji] at hj
      obtain ⟨s2, role2, ok, hcopy, hin, -, h2⟩ := hj.uvmcopy hi hji
        (Nat.le_trans (Nat.mul_le_mul_right _ (pageCount_le hm.size)) (by decide)) hm.own
        (fun x hx => newSpace_proper.beyond x (Nat.zero_le x)
          (Nat.ne_of_lt (hm.user_lt hx)) (Nat.ne_of_lt (Nat.lt_succ_of_lt (hm.user_lt hx))))
      have h2' := h1.within_holds hin h2
      rw [Function.update_idem] at h2'
      cases ok with
      | true =>
          rw [if_pos rfl] at h2'
          refine ⟨s2, role2, some ⟨some tf, some r', sz⟩, ?_, tf, r', rfl, h2',
            fun u hu f => ?_, fun f => ?_⟩
          · simp only [Vm.fork, halloc, hcopy, Option.bind_eq_bind, Option.bind_some]
          · rw [hin.other_iff, hother u hu]
          · rw [hin.other_iff, hown]
      -- `uvmcopy` has emptied the child, and `freeproc` takes the rest
      | false =>
          rw [if_neg (by simp)] at h2'
          have hm2 : Proper (Function.update m i (newSpace tf tramp) i) 0 tf tramp := by
            rw [Function.update_self]
            exact newSpace_proper
          have htf : role2 tf = .other w := hin.other_iff.mpr ((hown tf).mpr rfl)
          obtain ⟨s3, role3, hdone, hother3, hown3, h3⟩ := h2'.freeproc (i := i)
            (Function.update_self ..) htf hw (h2'.only_linked htf hm2 hne fun j p hji hlinked =>
              hmiss j p hji (hin.linked hji hlinked)) hm2
          rw [Function.update_idem, ← hroot, Function.update_eq_self] at h3
          refine ⟨s3, role3, none, ?_, newSpace tf tramp, h3, fun u f => ?_⟩
          · simp only [Vm.fork, halloc, hcopy, hdone, Option.bind_eq_bind, Option.bind_some]
          · by_cases hu : u = w
            · rw [hu, hown3, hin.other_iff, hown]
              simp [hnone f]
            · rw [hother3 u hu, hin.other_iff, hother u hu]

end Spaces

end G20OsLab.Kernel
