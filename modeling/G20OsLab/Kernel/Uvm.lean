/-
  G20OsLab.Kernel.Uvm

  The functions on user memory, and what they do to an address space.

  Each is a for-loop over pages.  None is stuck; when one runs out of memory it
  has undone what it did (`Holds.uvmalloc`, `Holds.uvmcopy`).
-/

import G20OsLab.Kernel.Mapping

namespace G20OsLab.Kernel

open Lib (Frame Role Forest Intact slotAt setSlot entry nodeAt)

/-! ## Sizes -/

/-- The number of pages of a user memory of size `sz`. -/
def pageCount (sz : Nat) : Nat := pgroundup sz / pgsize

/-- A page counts if it begins below the size. -/
theorem lt_pageCount {n sz : Nat} : n < pageCount sz ↔ n * pgsize < sz := by
  unfold pageCount pgroundup pgrounddown pgsize
  omega

theorem pgroundup_eq (sz : Nat) : pgroundup sz = pageCount sz * pgsize := by
  unfold pageCount pgroundup pgrounddown pgsize
  omega

theorem pgrounddown_eq (va : Nat) : pgrounddown va = va / pgsize * pgsize := by
  unfold pgrounddown pgsize
  omega

@[simp] theorem pageCount_mul (n : Nat) : pageCount (n * pgsize) = n := by
  unfold pageCount pgroundup pgrounddown pgsize
  omega

@[simp] theorem pageCount_zero : pageCount 0 = 0 := rfl

/-- More memory needs no fewer pages. -/
theorem pageCount_mono {a b : Nat} (h : a ≤ b) : pageCount a ≤ pageCount b := by
  unfold pageCount pgroundup pgrounddown pgsize
  omega

/-- The number of the page at `TRAPFRAME`. -/
def trapframePage : Nat := trapframe / pgsize

theorem lt_maxva {n : Nat} (hn : n < trapframePage) : n * pgsize < maxva := by
  unfold trapframePage trapframe trampoline maxva pgsize at hn
  unfold maxva pgsize
  omega

theorem pageCount_le {sz : Nat} (h : sz ≤ trapframe) : pageCount sz ≤ trapframePage := by
  refine Nat.le_trans (pageCount_mono h) (Nat.le_of_eq ?_)
  decide

/-! ## Address spaces -/

namespace UserSpace

variable {m m' : UserSpace} {n c : Nat} {perm : PteFlags} {data : Page}

/-- An address space with `c` new pages from `n` on. -/
def withZeros (m : UserSpace) (n c : Nat) (perm : PteFlags) : UserSpace := fun x =>
  if n ≤ x ∧ x < n + c then some (.page Page.zero, perm) else m x

/-- There is nothing shared from page `n` up to page `b`. -/
def OwnIn (m : UserSpace) (n b : Nat) : Prop :=
  ∀ x, n ≤ x → x < b → ∀ f flags, m x ≠ some (.shared f, flags)

theorem without_zero : m.without n 0 = m := by
  funext x
  rw [without, if_neg (by omega)]

theorem withZeros_zero : m.withZeros n 0 perm = m := by
  funext x
  rw [withZeros, if_neg (by omega)]

/-- One new page, and then `c` more. -/
theorem withZeros_succ :
    withZeros (Function.update m n (some (.page Page.zero, perm))) (n + 1) c perm =
      m.withZeros n (c + 1) perm := by
  funext x
  rw [withZeros, withZeros]
  by_cases hx : x = n
  · rw [hx, if_neg (by omega), Function.update_self, if_pos (by omega)]
  · rw [Function.update_of_ne hx]
    by_cases hrange : n + 1 ≤ x ∧ x < n + 1 + c
    · rw [if_pos hrange, if_pos (by omega)]
    · rw [if_neg hrange, if_neg (by omega)]

/-- A new page is taken away again. -/
theorem without_update {l : Leaf × PteFlags} {b : Nat} (hn : m n = none) (hb : b ≤ n) :
    without (Function.update m n (some l)) b (n + 1 - b) = m.without b (n - b) := by
  funext x
  rw [without, without]
  by_cases hx : x = n
  · rw [hx, if_pos (by omega), if_neg (by omega), hn]
  · rw [Function.update_of_ne hx]
    by_cases hrange : b ≤ x ∧ x < b + (n + 1 - b)
    · rw [if_pos hrange, if_pos (by omega)]
    · rw [if_neg hrange, if_neg (by omega)]

/-- One more page of its own. -/
theorem OwnIn.update {b : Nat} (h : m.OwnIn b n) :
    OwnIn (Function.update m n (some (.page data, perm))) b (n + 1) := by
  intro x hbx hx f flags
  by_cases hxn : x = n
  · rw [hxn, Function.update_self]
    simp
  · rw [Function.update_of_ne hxn]
    exact h x hbx (by omega) f flags

/-- `c` pages of `m` from `n` on are copied to `m'`. -/
def copied (m m' : UserSpace) (n c : Nat) : UserSpace := fun x =>
  if n ≤ x ∧ x < n + c then m x else m' x

theorem copied_zero : m.copied m' n 0 = m' := by
  funext x
  rw [copied, if_neg (by omega)]

/-- One page is copied, and then `c` more. -/
theorem copied_succ : m.copied (Function.update m' n (m n)) (n + 1) c = m.copied m' n (c + 1) := by
  funext x
  rw [copied, copied]
  by_cases hx : x = n
  · rw [hx, if_neg (by omega), Function.update_self, if_pos (by omega)]
  · rw [Function.update_of_ne hx]
    by_cases hrange : n + 1 ≤ x ∧ x < n + 1 + c
    · rw [if_pos hrange, if_pos (by omega)]
    · rw [if_neg hrange, if_neg (by omega)]

/-- A page that is not shared is its own. -/
theorem OwnIn.succ {b : Nat} (h : m.OwnIn b n) (hn : ∀ f flags, m n ≠ some (.shared f, flags)) :
    m.OwnIn b (n + 1) := by
  intro x hbx hx
  rcases Nat.lt_succ_iff_lt_or_eq.mp hx with hlt | rfl
  · exact h x hbx hlt
  · exact hn

/-- Taking away a page that is not there. -/
theorem without_succ (hn : m n = none) : m.without 0 (n + 1) = m.without 0 n := by
  funext x
  rw [without, without]
  by_cases hx : x = n
  · rw [hx, if_pos (by omega), if_neg (by omega), hn]
  · by_cases hrange : 0 ≤ x ∧ x < 0 + (n + 1)
    · rw [if_pos hrange, if_pos (by omega)]
    · rw [if_neg hrange, if_neg (by omega)]

end UserSpace

section Uvm

variable {ι : Type} {kend : Nat} {s s' s'' : Phys} {root : ι → Option Nat}
variable {role role' role'' : Roles ι} {hole hole' : Hole ι} {loose loose' : List Nat} {i j : ι}
variable {f g r r' n va c sz : Nat} {k : Fin 512} {p : List (Fin 512)} {e : Pte}
variable {flags : PteFlags} {m m' : UserSpace} {data : Page} {w : Use}

namespace Holds

/-- What happens within page table `j` keeps the space of another. -/
theorem other (h : Holds kend s root role none loose i r m)
    (h' : Owned kend s' root role' none loose') (hin : Within j s role s' role') (hij : i ≠ j) :
    Holds kend s' root role' none loose' i r m where
  toOwned := h'
  root_eq := h.root_eq
  intact := Lib.intact_none
  space_eq := by
    rw [h.toOwned.space_of_within hin hij (by simp) h.root_eq, h.space_eq]

/-- The flags of a mapped page. -/
theorem leaf_flags (h : Holds kend s root role hole loose i r m) {l : Leaf}
    (hn : m n = some (l, flags)) : flags.leaf = true := by
  rw [h.apply (h.lt_of_mapped (by simp [hn])), Option.map_eq_some_iff] at hn
  obtain ⟨e, he, hleaf⟩ := hn
  have hflags : e.2 = flags := by
    rw [leafOf] at hleaf
    split at hleaf <;> cases hleaf <;> rfl
  obtain ⟨g, hg, hslot⟩ := (h.forest.entry_eq_some h.intact h.root_eq tablePath_lt).mp he
  rw [← hflags, h.leaf g i _ _ e hg hslot]
  rfl

/-- A page that is not mapped is not found. -/
theorem lookup_none (h : Holds kend s root role hole loose i r m) (hva : n * pgsize < maxva)
    (hn : m n = none) : lookup s r (n * pgsize) = some none := by
  rw [h.apply (lt_pages hva), Option.map_eq_none_iff] at hn
  rw [h.lookup_eq h.intact h.root_eq hva, ← hn]
  rfl

/-- A page of its own is found under its path. -/
theorem lookup_page (h : Holds kend s root role none loose i r m) (hva : n * pgsize < maxva)
    (hn : m n = some (.page data, flags)) :
    ∃ f, lookup s r (n * pgsize) = some (some (f, flags)) ∧ role f = .place i (vpath n) ∧
      s.mem f = .page data := by
  obtain ⟨f, he, hf, hdata⟩ := h.page_frame (by simp) hn
  exact ⟨f, (h.lookup_eq h.intact h.root_eq hva).trans (congrArg some he), hf, hdata⟩

/-- A shared page is found with its frame. -/
theorem lookup_shared (h : Holds kend s root role hole loose i r m) (hva : n * pgsize < maxva)
    (hn : m n = some (.shared f, flags)) : lookup s r (n * pgsize) = some (some (f, flags)) :=
  (h.lookup_eq h.intact h.root_eq hva).trans (congrArg some (h.shared_frame hn).1)

/-! ## One new page -/

/-- `kalloc` and `mappages`, with the `kfree` that follows if there is no memory
    left for the tables. -/
theorem new_page (h : Holds kend s root role none loose i r m) (data : Page)
    (hleaf : flags.leaf = true) (hva : n * pgsize < maxva) (hnone : m n = none) :
    (Kernel.kalloc s = (s, none) ∧ s.freelist = []) ∨
    ∃ s1 f, Kernel.kalloc s = (s1, some f) ∧ role f = .free ∧
      (∀ g, g ≠ f → s1.mem g = s.mem g) ∧
      ((∃ s' role', mappages (s1.set f (.page data)) r (n * pgsize) pgsize f flags =
          some (s', true) ∧ Within i s role s' role' ∧
          s'.freelist.length < s.freelist.length ∧ role' f = .place i (vpath n) ∧
          Holds kend s' root role' none loose i r
            (Function.update m n (some (.page data, flags)))) ∨
        ∃ s2 s' role', mappages (s1.set f (.page data)) r (n * pgsize) pgsize f flags =
          some (s2, false) ∧ kfree kend s2 f = some s' ∧ Within i s role s' role' ∧
          Holds kend s' root role' none loose i r m) := by
  rcases h.kalloc (.page data) with hempty |
    ⟨s1, f, hkalloc, hlist, hf, hfresh, hdata, hin, hmem, h1⟩
  · exact Or.inl hempty
  · right
    refine ⟨s1, f, hkalloc, hf, fun g hgf => (Phys.set_of_ne hgf).symm.trans (hmem g hgf), ?_⟩
    obtain ⟨s2, role2, ok, hmap, hin2, hsuffix, h2⟩ :=
      h1.mappages_page hfresh hdata hleaf hva hnone
    cases ok with
    | true =>
        left
        refine ⟨s2, role2, hmap, hin.trans hin2, ?_, h2.2, h2.1⟩
        have hlen := hsuffix.length_le
        rw [hlist, List.length_cons]
        exact Nat.lt_succ_of_le hlen
    | false =>
        right
        obtain ⟨s', hkfree, hin3, h'⟩ := Holds.kfree_loose h2 hfresh
        exact ⟨s2, s', _, hmap, hkfree, (hin.trans hin2).trans hin3, h'⟩

/-! ## uvmdealloc and uvmfree -/

/-- `uvmdealloc` removes the pages from the new size up. -/
theorem uvmdealloc (h : Holds kend s root role none loose i r m) (oldsz newsz : Nat)
    (hva : pageCount oldsz * pgsize ≤ maxva)
    (hown : m.OwnIn (pageCount newsz) (pageCount oldsz)) :
    ∃ s' role', uvmdealloc kend s r oldsz newsz = some (s', min oldsz newsz) ∧
      Within i s role s' role' ∧ Holds kend s' root role' none loose i r
        (m.without (pageCount newsz) (pageCount oldsz - pageCount newsz)) := by
  by_cases hle : oldsz ≤ newsz
  · refine ⟨s, role, ?_, Within.refl, ?_⟩
    · rw [Kernel.uvmdealloc, if_pos hle, Nat.min_eq_left hle]
    · rwa [Nat.sub_eq_zero_of_le (pageCount_mono hle), UserSpace.without_zero]
  · rw [Kernel.uvmdealloc, if_neg hle, Nat.min_eq_right (Nat.le_of_not_le hle)]
    simp only [pgroundup_eq, Nat.mul_lt_mul_right (by decide : 0 < pgsize)]
    by_cases hlt : pageCount newsz < pageCount oldsz
    · have hsum : pageCount newsz + (pageCount oldsz - pageCount newsz) = pageCount oldsz := by
        omega
      obtain ⟨s', role', hunmap, hin, h'⟩ := h.uvmunmap_free (n := pageCount newsz)
        (c := pageCount oldsz - pageCount newsz) (by rwa [hsum]) (by rwa [hsum])
      refine ⟨s', role', ?_, hin, h'⟩
      rw [if_pos hlt, ← Nat.sub_mul, Nat.mul_div_cancel _ (by decide), hunmap]
      rfl
    · refine ⟨s, role, by rw [if_neg hlt], Within.refl, ?_⟩
      rwa [Nat.sub_eq_zero_of_le (Nat.not_lt.mp hlt), UserSpace.without_zero]

variable [DecidableEq ι]

/-- `freewalk` of a page table without pages leaves nothing of it. -/
theorem freewalk (h : Holds kend s root role none loose i r fun _ => none) :
    ∃ s' role', freewalk kend 3 s r = some s' ∧ Within i s role s' role' ∧
      Owned kend s' (Function.update root i none) role' none loose ∧
      ∀ f p, role' f ≠ .place i p := by
  obtain ⟨s', role', hwalk, h', hfrees⟩ := h.toOwned.freewalk 3 h.bare
    (h.root_role h.intact h.root_eq) rfl (by decide)
  have hforest := h'.forest.uproot
  refine ⟨s', role', hwalk, hfrees.within,
    ⟨hforest, h'.freelist, h'.nodup, h'.loose, h'.range, h'.leaf⟩, fun f p hf => ?_⟩
  obtain ⟨r', hr'⟩ := hforest.root_of_place hf
  rw [Function.update_self] at hr'
  cases hr'

/-- `uvmfree` frees the user pages and then the tables. -/
theorem uvmfree (h : Holds kend s root role none loose i r m) (sz : Nat)
    (hva : pageCount sz * pgsize ≤ maxva) (hown : m.OwnIn 0 (pageCount sz))
    (hnone : ∀ x, pageCount sz ≤ x → m x = none) :
    ∃ s' role', uvmfree kend s r sz = some s' ∧ Within i s role s' role' ∧
      Owned kend s' (Function.update root i none) role' none loose ∧
      ∀ f p, role' f ≠ .place i p := by
  have hempty : m.without 0 (pageCount sz) = fun _ => none := by
    funext x
    rw [UserSpace.without]
    by_cases hx : 0 ≤ x ∧ x < 0 + pageCount sz
    · rw [if_pos hx]
    · rw [if_neg hx, hnone x (by omega)]
  by_cases hsz : sz > 0
  · have hva0 : (0 + pageCount sz) * pgsize ≤ maxva := by
      rw [Nat.zero_add]
      exact hva
    have hown0 : m.OwnIn 0 (0 + pageCount sz) := by
      rw [Nat.zero_add]
      exact hown
    obtain ⟨s1, role1, hunmap, hin, h1⟩ := h.uvmunmap_free hva0 hown0
    rw [hempty] at h1
    obtain ⟨s', role', hwalk, hin', h', hgone⟩ := h1.freewalk
    rw [Nat.zero_mul] at hunmap
    refine ⟨s', role', ?_, hin.trans hin', h', hgone⟩
    rw [Kernel.uvmfree, if_pos hsz, ← pageCount, hunmap]
    simp only [Option.bind_eq_bind, Option.bind_some, hwalk]
  · have hzero : sz = 0 := Nat.eq_zero_of_not_pos hsz
    rw [hzero, pageCount_zero, UserSpace.without_zero] at hempty
    rw [hempty] at h
    obtain ⟨s', role', hwalk, hin', h', hgone⟩ := h.freewalk
    refine ⟨s', role', ?_, hin', h', hgone⟩
    rw [Kernel.uvmfree, if_neg hsz]
    simp only [Option.bind_eq_bind, Option.bind_some, hwalk]

/-! ## uvmalloc -/

omit [DecidableEq ι] in
/-- The loop of `uvmalloc` from page `n` on, which began at page `b`.  It cannot
    come to `TRAPFRAME` if there is too little memory for that. -/
theorem allocLoop (h : Holds kend s root role none loose i r m) {b : Nat} (flags : PteFlags)
    (hleaf : flags.leaf = true) (hb : b ≤ n)
    (hlimit : n + min c s.freelist.length ≤ trapframePage) (hown : m.OwnIn b n)
    (hnone : ∀ x, n ≤ x → x < trapframePage → m x = none) :
    ∃ s' role', ∃ ok : Bool, allocLoop kend r (b * pgsize) flags c s (n * pgsize) = some (s', ok) ∧
      Within i s role s' role' ∧
      if ok then n + c ≤ trapframePage ∧
          Holds kend s' root role' none loose i r (m.withZeros n c flags)
        else Holds kend s' root role' none loose i r (m.without b (n - b)) := by
  induction c generalizing s role n m with
  | zero =>
      refine ⟨s, role, true, rfl, Within.refl, by omega, ?_⟩
      rwa [UserSpace.withZeros_zero]
  | succ c ih =>
      have hle : n ≤ trapframePage := Nat.le_trans (Nat.le_add_right ..) hlimit
      -- either failure gives back what the loop has allocated
      have hdealloc : ∀ {s role}, Holds kend s root role none loose i r m →
          ∃ s' role' sz, Kernel.uvmdealloc kend s r (n * pgsize) (b * pgsize) = some (s', sz) ∧
            Within i s role s' role' ∧
            Holds kend s' root role' none loose i r (m.without b (n - b)) := by
        intro s role h
        have hva : pageCount (n * pgsize) * pgsize ≤ maxva := by
          rw [pageCount_mul]
          exact Nat.le_trans (Nat.mul_le_mul_right _ hle) (by decide)
        obtain ⟨s', role', hdealloc, hin, h'⟩ := h.uvmdealloc (n * pgsize) (b * pgsize)
          hva (by rwa [pageCount_mul, pageCount_mul])
        rw [pageCount_mul, pageCount_mul] at h'
        exact ⟨s', role', _, hdealloc, hin, h'⟩
      cases hlist : s.freelist with
      | nil =>
          obtain ⟨s', role', sz, hdone, hin, h'⟩ := hdealloc h
          refine ⟨s', role', false, ?_, hin, h'⟩
          simp only [Kernel.allocLoop, Kernel.kalloc, hlist, hdone, Option.bind_eq_bind,
            Option.bind_some]
      | cons f0 next =>
          have hlt : n < trapframePage := by
            rw [hlist, List.length_cons] at hlimit
            omega
          have hn : m n = none := hnone n (Nat.le_refl n) hlt
          -- the list is not empty, so only a table may be missing
          rcases h.new_page Page.zero hleaf (lt_maxva hlt) hn with ⟨-, hempty⟩ |
            ⟨s1, f, hkalloc, -, -, hmapped | hfailed⟩
          · rw [hlist] at hempty
            cases hempty
          · obtain ⟨s2, role2, hmap, hin, hlen, -, h2⟩ := hmapped
            obtain ⟨s', role', ok, hloop, hin', h'⟩ := ih h2 (by omega) (by omega) hown.update
              fun x hx hxt => by
                rw [Function.update_of_ne (by omega)]
                exact hnone x (by omega) hxt
            rw [UserSpace.withZeros_succ, UserSpace.without_update hn hb] at h'
            refine ⟨s', role', ok, ?_, hin.trans hin', ?_⟩
            · rw [Nat.succ_mul] at hloop
              simp only [Kernel.allocLoop, hkalloc, Phys.zeroPage, hmap, Option.bind_eq_bind,
                Option.bind_some, hloop]
            · have hsum : n + (c + 1) = n + 1 + c := by omega
              rwa [hsum]
          · obtain ⟨s2, s3, role3, hmap, hkfree, hin, h3⟩ := hfailed
            obtain ⟨s', role', sz, hdone, hin', h'⟩ := hdealloc h3
            refine ⟨s', role', false, ?_, hin.trans hin', h'⟩
            simp only [Kernel.allocLoop, hkalloc, Phys.zeroPage, hmap, hkfree, hdone,
              Option.bind_eq_bind, Option.bind_some]

omit [DecidableEq ι] in
/-- `uvmalloc` maps the new pages, or leaves the address space as it was. -/
theorem uvmalloc (h : Holds kend s root role none loose i r m) {oldsz newsz : Nat}
    (xperm : PteFlags) (hle : oldsz ≤ newsz)
    (hlimit : pageCount oldsz + min (pageCount newsz - pageCount oldsz) s.freelist.length ≤
      trapframePage)
    (hnone : ∀ x, pageCount oldsz ≤ x → x < trapframePage → m x = none) :
    ∃ s' role', ∃ ok : Bool,
      uvmalloc kend s r oldsz newsz xperm = some (s', if ok then newsz else 0) ∧
      Within i s role s' role' ∧
      if ok then pageCount newsz ≤ trapframePage ∧ Holds kend s' root role' none loose i r
          (m.withZeros (pageCount oldsz) (pageCount newsz - pageCount oldsz)
            { xperm with r := true, u := true })
        else Holds kend s' root role' none loose i r m := by
  have hcount := pageCount_mono hle
  obtain ⟨s', role', ok, hloop, hin, h'⟩ := h.allocLoop
    { xperm with r := true, u := true } rfl (Nat.le_refl _) hlimit
    (fun x hx hxn => absurd hx (Nat.not_le.mpr hxn)) hnone
  refine ⟨s', role', ok, ?_, hin, ?_⟩
  · rw [Kernel.uvmalloc, if_neg (Nat.not_lt.mpr hle)]
    simp only [pgroundup_eq, ← Nat.sub_mul, Nat.mul_div_cancel _ (by decide : 0 < pgsize), hloop,
      Option.bind_eq_bind, Option.bind_some]
  · rw [Nat.sub_self, UserSpace.without_zero] at h'
    rwa [Nat.add_sub_cancel' hcount] at h'

/-! ## uvmcopy -/

omit [DecidableEq ι] in
/-- The loop of `uvmcopy`, from page `n` on. -/
theorem copyLoop (h : Holds kend s root role none loose i r m)
    (h' : Holds kend s root role none loose j r' m') (hij : i ≠ j)
    (hva : (n + c) * pgsize ≤ maxva) (hown : m.OwnIn n (n + c)) (hown' : m'.OwnIn 0 n)
    (hnone : ∀ x, n ≤ x → x < n + c → m' x = none) :
    ∃ s' role', ∃ ok : Bool, copyLoop kend r r' c s (n * pgsize) = some (s', ok) ∧
      Within j s role s' role' ∧ Holds kend s' root role' none loose i r m ∧
      Holds kend s' root role' none loose j r'
        (if ok then m.copied m' n c else m'.without 0 n) := by
  induction c generalizing s role n m' with
  | zero =>
      refine ⟨s, role, true, rfl, Within.refl, h, ?_⟩
      rwa [if_pos rfl, UserSpace.copied_zero]
  | succ c ih =>
      have hsum : n + (c + 1) = n + 1 + c := by omega
      rw [hsum] at hva hown hnone
      have hn : n * pgsize < maxva := by
        unfold pgsize at hva ⊢
        omega
      have hnone' : m' n = none := hnone n (by omega) (by omega)
      -- `err:` unmaps the pages that have been copied
      have hundo : ∀ {s role}, Holds kend s root role none loose j r' m' →
          ∃ s' role', uvmunmap kend s r' 0 (n * pgsize / pgsize) true = some s' ∧
            Within j s role s' role' ∧
              Holds kend s' root role' none loose j r' (m'.without 0 n) := by
        intro s role h'
        have hva0 : (0 + n) * pgsize ≤ maxva := by
          rw [Nat.zero_add]
          exact Nat.le_of_lt hn
        have hown0 : m'.OwnIn 0 (0 + n) := by
          rw [Nat.zero_add]
          exact hown'
        obtain ⟨s', role', hunmap, hin, h''⟩ := h'.uvmunmap_free hva0 hown0
        rw [Nat.zero_mul] at hunmap
        exact ⟨s', role', by rwa [Nat.mul_div_cancel n (by decide)], hin, h''⟩
      have hnext : ∀ x, n + 1 ≤ x → x < n + 1 + c → x ≠ n ∧ m' x = none := fun x hx hxc =>
        ⟨by omega, hnone x (by omega) hxc⟩
      cases hm : m n with
      -- a page that is not there yet is skipped
      | none =>
          have hnot : ∀ f flags, m' n ≠ some (.shared f, flags) := by simp [hnone']
          obtain ⟨s', role', ok, hloop, hin, hi, hj⟩ := ih h h' hva
            (fun x hx hxc => hown x (by omega) hxc) (hown'.succ hnot)
            (fun x hx hxc => (hnext x hx hxc).2)
          rw [Nat.succ_mul] at hloop
          refine ⟨s', role', ok, ?_, hin, hi, ?_⟩
          · simp only [Kernel.copyLoop, h.lookup_none hn hm, Option.bind_eq_bind,
              Option.bind_some, hloop]
          · rw [UserSpace.without_succ hnone'] at hj
            rwa [← UserSpace.copied_succ, hm, ← hnone', Function.update_eq_self]
      | some l =>
          obtain ⟨leaf, flags⟩ := l
          cases leaf with
          | shared f => exact absurd hm (hown n (by omega) (by omega) f flags)
          | page data =>
              obtain ⟨f, hlookup, hf, hdata⟩ := h.lookup_page hn hm
              have hload : ∀ (f' : Nat) (s1 : Phys), role f' = .free →
                  (∀ g, g ≠ f' → s1.mem g = s.mem g) →
                  s1.loadPage f = some data := by
                intro f' s1 hfree hmem
                refine Phys.loadPage_eq ((hmem f ?_).trans hdata)
                rintro rfl
                rw [hf] at hfree
                cases hfree
              -- `kalloc` may fail, and so may `mappages`, whose page goes back
              rcases h'.new_page data (h.leaf_flags hm) hn hnone' with ⟨hkalloc, -⟩ |
                ⟨s1, f', hkalloc, hfree, hmem, hmapped | hfailed⟩
              · obtain ⟨s', role', hdone, hin, hj⟩ := hundo h'
                refine ⟨s', role', false, ?_, hin, h.other hj.toOwned hin hij, hj⟩
                simp only [Kernel.copyLoop, hlookup, hkalloc, hdone, Option.bind_eq_bind,
                  Option.bind_some]
              · obtain ⟨s2, role2, hmap, hin, -, -, h2⟩ := hmapped
                obtain ⟨s', role', ok, hloop, hin', hi, hj⟩ := ih (h.other h2.toOwned hin hij) h2
                  hva (fun x hx hxc => hown x (by omega) hxc) hown'.update fun x hx hxc => by
                    rw [Function.update_of_ne (hnext x hx hxc).1]
                    exact (hnext x hx hxc).2
                rw [Nat.succ_mul] at hloop
                refine ⟨s', role', ok, ?_, hin.trans hin', hi, ?_⟩
                · simp only [Kernel.copyLoop, hlookup, hkalloc, hload f' s1 hfree hmem, hmap,
                    Option.bind_eq_bind, Option.bind_some, hloop]
                · have hundone := UserSpace.without_update (l := (.page data, flags)) hnone'
                    (Nat.zero_le n)
                  rw [Nat.sub_zero, Nat.sub_zero] at hundone
                  rw [hundone] at hj
                  rwa [← UserSpace.copied_succ, hm]
              · obtain ⟨s2, s3, role3, hmap, hkfree, hin, h3⟩ := hfailed
                obtain ⟨s', role', hdone, hin', hj⟩ := hundo h3
                have hin'' := hin.trans hin'
                refine ⟨s', role', false, ?_, hin'', h.other hj.toOwned hin'' hij, hj⟩
                simp only [Kernel.copyLoop, hlookup, hkalloc, hload f' s1 hfree hmem, hmap, hkfree,
                  hdone, Option.bind_eq_bind, Option.bind_some]

omit [DecidableEq ι] in
/-- `uvmcopy` makes an empty address space a copy, or leaves it empty. -/
theorem uvmcopy (h : Holds kend s root role none loose i r m)
    (h' : Holds kend s root role none loose j r' m') (hij : i ≠ j)
    (hva : pageCount sz * pgsize ≤ maxva) (hown : m.OwnIn 0 (pageCount sz))
    (hnone : ∀ x, x < pageCount sz → m' x = none) :
    ∃ s' role', ∃ ok : Bool, uvmcopy kend s r r' sz = some (s', ok) ∧ Within j s role s' role' ∧
      Holds kend s' root role' none loose i r m ∧
      Holds kend s' root role' none loose j r'
        (if ok then m.copied m' 0 (pageCount sz) else m') := by
  have hva0 : (0 + pageCount sz) * pgsize ≤ maxva := by
    rw [Nat.zero_add]
    exact hva
  have hown0 : m.OwnIn 0 (0 + pageCount sz) := by
    rw [Nat.zero_add]
    exact hown
  obtain ⟨s', role', ok, hloop, hin, hi, hj⟩ := h.copyLoop h' hij hva0 hown0
    (fun x _ hx => absurd hx (Nat.not_lt_zero x)) (fun x _ hx => hnone x (by omega))
  rw [Nat.zero_mul] at hloop
  rw [UserSpace.without_zero] at hj
  exact ⟨s', role', ok, hloop, hin, hi, hj⟩

end Holds

end Uvm

end G20OsLab.Kernel
