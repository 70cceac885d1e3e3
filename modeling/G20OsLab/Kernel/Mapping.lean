/-
  G20OsLab.Kernel.Mapping

  The functions on one page table, and what they do to its address space.

  None of them is stuck where the address space allows the call, and all stay
  within their page table: `mappages` adds one page (`Holds.mappages_page`),
  `uvmunmap` takes a range away (`Holds.uvmunmap_free`), and `freewalk` leaves
  nothing of an empty page table (`Holds.freewalk`).
-/

import G20OsLab.Kernel.AddressSpace

namespace G20OsLab.Kernel

open Lib (Frame Role Forest Intact slotAt setSlot entry nodeAt)

/-- From `s` to `s'` page table `i` gets new tables only. -/
structure Makes {ι : Type} (i : ι) (s : Phys) (role : Roles ι) (s' : Phys) (role' : Roles ι) :
    Prop where
  within : Within i s role s' role'
  loose : ∀ f, role f = .loose → role' f = .loose ∧ s'.mem f = s.mem f
  freelist : s'.freelist <:+ s.freelist

section Mapping

variable {ι : Type} {kend : Nat} {s s' s'' : Phys} {root : ι → Option Nat}
variable {role role' role'' : Roles ι} {hole hole' : Hole ι} {loose loose' : List Nat} {i j : ι}
variable {f g r n va : Nat} {k : Fin 512} {p : List (Fin 512)} {e : Pte} {flags : PteFlags}
variable {m : UserSpace} {data : Page} {w : Use} {v : Option Pte}

namespace Makes

theorem refl : Makes i s role s role where
  within := Within.refl
  loose := fun _ hf => ⟨hf, rfl⟩
  freelist := List.suffix_rfl

theorem trans (h : Makes i s role s' role') (h' : Makes i s' role' s'' role'') :
    Makes i s role s'' role'' where
  within := h.within.trans h'.within
  loose := by
    intro f hf
    obtain ⟨hrole, hmem⟩ := h.loose f hf
    obtain ⟨hrole', hmem'⟩ := h'.loose f hrole
    exact ⟨hrole', hmem'.trans hmem⟩
  freelist := h'.freelist.trans h.freelist

end Makes

namespace Holds

/-- A frame outside the page tables changes between free and loose. -/
theorem unplaced (h : Holds kend s root role none loose i r m)
    (h' : Owned kend s' root role' none loose') (hf : role f = .free ∨ role f = .loose)
    (hsame : ∀ g, g ≠ f → role' g = role g ∧ s'.mem g = s.mem g) :
    Holds kend s' root role' none loose' i r m where
  toOwned := h'
  root_eq := h.root_eq
  intact := Lib.intact_none
  space_eq := by
    have hne : ∀ g b, role g = b → b ≠ .free → b ≠ .loose → g ≠ f := by
      rintro g b hg hfree hloose rfl
      rcases hf with hf | hf
      · exact hfree (hg.symm.trans hf)
      · exact hloose (hg.symm.trans hf)
    have hplace : ∀ g q, role g = .place i q → s'.mem g = s.mem g := fun g q hg =>
      (hsame g (hne g _ hg (by simp) (by simp))).2
    funext x
    rw [← h.space_eq, space, space]
    congr 1
    rw [h.forest.entry_congr h.intact h.root_eq hplace (Nat.le_of_eq (vpath_length x))]
    cases he : entry s.mem r (vpath x) with
    | none => rfl
    | some e =>
        have hef : e.1 ≠ f := by
          rcases h.entry_role (by simp) h.intact h.root_eq he with ⟨hrole, -⟩ | ⟨w, hw⟩
          · exact hne e.1 _ hrole (by simp) (by simp)
          · exact hne e.1 _ hw (by simp) (by simp)
        exact congrArg some (leafOf_congr (hsame e.1 hef).1 (hsame e.1 hef).2)

/-- `kalloc`, whose page is filled with `x`. -/
theorem kalloc (h : Holds kend s root role none loose i r m)
    (x : Frame Nat (Fin 512) PteFlags Page) :
    (kalloc s = (s, none) ∧ s.freelist = []) ∨
    ∃ s' f, Kernel.kalloc s = (s', some f) ∧ s.freelist = f :: s'.freelist ∧ role f = .free ∧
      f ∉ loose ∧ (s'.set f x).mem f = x ∧
      Within i s role (s'.set f x) (Function.update role f .loose) ∧
      (∀ g, g ≠ f → (s'.set f x).mem g = s.mem g) ∧
      Holds kend (s'.set f x) root (Function.update role f .loose) none (f :: loose) i r m := by
  rcases h.toOwned.kalloc with hempty | ⟨s', f, hkalloc, hlist, hf, hmem, howned⟩
  · exact Or.inl hempty
  · right
    have hne : ∀ g, g ≠ f → (s'.set f x).mem g = s.mem g := by
      intro g hgf
      rw [Phys.set_of_ne hgf, hmem, Function.update_of_ne hgf]
    have hset := howned.set_loose (x := x) (Function.update_self ..)
    refine ⟨s', f, hkalloc, hlist, hf, ?_, Function.update_self .., ?_, hne, ?_⟩
    · rw [h.loose, hf]
      simp
    · intro g
      by_cases hgf : g = f
      · subst hgf
        left
        rw [hf, Function.update_self]
        exact ⟨trivial, trivial⟩
      · exact Or.inr ⟨Function.update_of_ne hgf .., hne g hgf⟩
    · refine h.unplaced hset (Or.inl hf) fun g hgf => ?_
      exact ⟨Function.update_of_ne hgf .., hne g hgf⟩

/-- `kfree` of a frame from `kalloc` that is not in use yet. -/
theorem kfree_loose (h : Holds kend s root role none (f :: loose) i r m) (hf : f ∉ loose) :
    ∃ s', kfree kend s f = some s' ∧ Within i s role s' (Function.update role f .free) ∧
      Holds kend s' root (Function.update role f .free) none loose i r m := by
  have hloose : role f = .loose := (h.loose f).mp (List.mem_cons_self ..)
  obtain ⟨s', hkfree, hmem, howned⟩ := h.toOwned.kfree_loose hf
  refine ⟨s', hkfree, Within.update hmem ?_ trivial, ?_⟩
  · rw [hloose]
    trivial
  · refine h.unplaced howned (Or.inr hloose) fun g hgf => ?_
    exact ⟨Function.update_of_ne hgf .., by rw [hmem, Function.update_of_ne hgf]⟩

/-! ## walk -/

/-- `walk` with `alloc` makes the tables that are missing, or runs out of
    memory. -/
theorem walkFrom_make (h : Holds kend s root role none loose i r m) {level : Nat}
    (hg : role g = .place i p) (hlevel : p.length + level = 2) :
    ∃ s' role', ∃ t : Option Nat,
      walkFrom va true level s g = some (s', t.map fun t => (t, px 0 va)) ∧
      Holds kend s' root role' none loose i r m ∧ Makes i s role s' role' ∧
      ∀ f, t = some f → role' f = .place i (pathDown va level p) := by
  induction level generalizing s role g p with
  | zero =>
      refine ⟨s, role, some g, rfl, h, Makes.refl, ?_⟩
      rintro f ⟨⟩
      exact hg
  | succ level ih =>
      have hload := Phys.loadPte_eq (k := px (level + 1) va) (h.table hg (by omega))
      have hlen : (px (level + 1) va :: p).length + level = 2 := by
        rw [List.length_cons]
        omega
      cases he : slotAt s.mem g (px (level + 1) va) with
      | some e =>
          rw [he] at hload
          have hchild := h.forest.slot_table h.intact (by omega) hg he
          obtain ⟨s', role', t, hwalk, hrest⟩ := ih h hchild hlen
          refine ⟨s', role', t, ?_, hrest⟩
          simp only [walkFrom, hload, Option.bind_eq_bind, Option.bind_some]
          exact hwalk
      -- no table yet: `kalloc` makes one, filled with zeros
      | none =>
          rw [he] at hload
          rcases h.kalloc (.table fun _ => none) with ⟨hkalloc, -⟩ |
            ⟨s1, f, hkalloc, hlist, hf, hfresh, htable, hin, hmem, h1⟩
          · refine ⟨s, role, none, ?_, h, Makes.refl, ?_⟩
            · simp only [walkFrom, hload, Option.bind_eq_bind, Option.bind_some, hkalloc]
              rfl
            · simp
          · have hgf : g ≠ f := by
              rintro rfl
              rw [hg] at hf
              cases hf
            have hg1 : Function.update role f .loose g = .place i p := by
              rw [Function.update_of_ne hgf, hg]
            have hnone : slotAt (s1.set f (.table fun _ => none)).mem g (px (level + 1) va) =
                none := by
              rw [slotAt, hmem g hgf, ← slotAt, he]
            have h2 := h1.link_table hfresh htable hg1 (by omega) hnone
            obtain ⟨s', role', t, hwalk, h', hmakes, ht⟩ := ih h2 (Function.update_self ..) hlen
            refine ⟨s', role', t, ?_, h', Makes.trans ?_ hmakes, ht⟩
            · have hstore := Phys.storePte_eq (k := px (level + 1) va) (some (f, .pointer))
                (h1.table hg1 (by omega))
              simp only [walkFrom, hload, Option.bind_eq_bind, Option.bind_some, hkalloc,
                Phys.zeroTable, hstore]
              exact hwalk
            · constructor
              -- only the new frame and the slot that points to it change
              · refine hin.trans fun y => ?_
                by_cases hyf : y = f
                · subst hyf
                  left
                  rw [Function.update_self, Function.update_self]
                  exact ⟨trivial, rfl⟩
                · by_cases hyg : y = g
                  · subst hyg
                    left
                    rw [hg1, Function.update_of_ne hyf, hg1]
                    exact ⟨rfl, rfl⟩
                  · right
                    rw [Function.update_of_ne hyf]
                    exact ⟨rfl, Lib.setSlot_of_ne hyg⟩
              · intro y hy
                have hyf : y ≠ f := by
                  rintro rfl
                  rw [hf] at hy
                  cases hy
                have hyg : y ≠ g := by
                  rintro rfl
                  rw [hg] at hy
                  cases hy
                rw [Function.update_of_ne hyf, Function.update_of_ne hyf]
                exact ⟨hy, (Lib.setSlot_of_ne hyg).trans (hmem y hyf)⟩
              · exact ⟨[f], hlist.symm⟩

/-- `walk` with `alloc` goes from the root to the last table, or fails. -/
theorem walk_make (h : Holds kend s root role none loose i r m) (hva : va < maxva) :
    ∃ s' role', ∃ t : Option Nat,
      walk s r va true = some (s', t.map fun t => (t, px 0 va)) ∧
      Holds kend s' root role' none loose i r m ∧ Makes i s role s' role' ∧
      ∀ f, t = some f → role' f = .place i (tablePath va) := by
  rw [walk, if_neg (Nat.not_le.mpr hva)]
  exact h.walkFrom_make (h.root_role h.intact h.root_eq) rfl

/-! ## mappages -/

/-- `mappages` of one page is one round of its loop. -/
theorem mappages_one {pa : Nat} : mappages s r (n * pgsize) pgsize pa flags =
    mapLoop r flags 1 s (n * pgsize) pa := by
  rw [mappages, if_neg]
  · rfl
  · simp [pgsize]

/-- `mappages` of a frame from `kalloc`, whose page becomes one of the address
    space. -/
theorem mappages_page (h : Holds kend s root role none (f :: loose) i r m) (hf : f ∉ loose)
    (hmem : s.mem f = .page data) (hleaf : flags.leaf = true) (hva : n * pgsize < maxva)
    (hnone : m n = none) :
    ∃ s' role' ok, mappages s r (n * pgsize) pgsize f flags = some (s', ok) ∧
      Within i s role s' role' ∧ s'.freelist <:+ s.freelist ∧
      if ok then Holds kend s' root role' none loose i r
          (Function.update m n (some (.page data, flags))) ∧ role' f = .place i (vpath n)
        else Holds kend s' root role' none (f :: loose) i r m := by
  have hn := lt_pages hva
  have hloose : role f = .loose := (h.loose f).mp (List.mem_cons_self ..)
  obtain ⟨s1, role1, t, hwalk, h1, hmakes, ht⟩ := h.walk_make hva
  -- making tables leaves the new page alone
  obtain ⟨hloose1, hmem1⟩ := hmakes.loose f hloose
  cases t with
  | none =>
      refine ⟨s1, role1, false, ?_, hmakes.within, hmakes.freelist, h1⟩
      rw [mappages_one, mapLoop, hwalk]
      rfl
  | some g =>
      have hg := ht g rfl
      have hslot := h1.slot_none hn hg hnone
      have htable := h1.table hg tablePath_lt
      have hload := Phys.loadPte_eq (k := px 0 (n * pgsize)) htable
      have hstore := Phys.storePte_eq (k := px 0 (n * pgsize)) (some (f, flags)) htable
      rw [hslot] at hload
      have h2 := h1.link_page hf (hmem1.trans hmem) hleaf hn hg hnone
      refine ⟨{ s1 with mem := setSlot s1.mem g (px 0 (n * pgsize)) (some (f, flags)) },
        Function.update role1 f (.place i (vpath n)), true, ?_, hmakes.within.trans ?_,
        hmakes.freelist, h2, Function.update_self ..⟩
      · rw [mappages_one, mapLoop, hwalk]
        simp only [Option.map_some, Option.bind_eq_bind, Option.bind_some, hload, hstore]
        rfl
      -- besides the tables, the page and the slot for it change
      · intro y
        by_cases hyf : y = f
        · subst hyf
          left
          rw [hloose1, Function.update_self]
          exact ⟨trivial, rfl⟩
        · by_cases hyg : y = g
          · subst hyg
            left
            rw [Function.update_of_ne hyf, hg]
            exact ⟨rfl, rfl⟩
          · exact Or.inr ⟨Function.update_of_ne hyf .., Lib.setSlot_of_ne hyg⟩

/-- `mappages` of a frame that is in use elsewhere. -/
theorem mappages_shared (h : Holds kend s root role none loose i r m) (flags : PteFlags)
    (hf : role f = .other w) (hleaf : flags.leaf = true) (hva : n * pgsize < maxva)
    (hnone : m n = none) :
    ∃ s' role' ok, mappages s r (n * pgsize) pgsize f flags = some (s', ok) ∧
      Within i s role s' role' ∧ s'.freelist <:+ s.freelist ∧
      if ok then Holds kend s' root role' none loose i r
          (Function.update m n (some (.shared f, flags)))
        else Holds kend s' root role' none loose i r m := by
  have hn := lt_pages hva
  obtain ⟨s1, role1, t, hwalk, h1, hmakes, ht⟩ := h.walk_make hva
  have hf1 : role1 f = .other w := hmakes.within.other_iff.mpr hf
  cases t with
  | none =>
      refine ⟨s1, role1, false, ?_, hmakes.within, hmakes.freelist, h1⟩
      rw [mappages_one, mapLoop, hwalk]
      rfl
  | some g =>
      have hg := ht g rfl
      have hslot := h1.slot_none hn hg hnone
      have htable := h1.table hg tablePath_lt
      have hload := Phys.loadPte_eq (k := px 0 (n * pgsize)) htable
      have hstore := Phys.storePte_eq (k := px 0 (n * pgsize)) (some (f, flags)) htable
      rw [hslot] at hload
      have h2 := h1.link_shared hf1 hleaf hn hg hnone
      refine ⟨{ s1 with mem := setSlot s1.mem g (px 0 (n * pgsize)) (some (f, flags)) }, role1,
        true, ?_, hmakes.within.trans ?_, hmakes.freelist, h2⟩
      · rw [mappages_one, mapLoop, hwalk]
        simp only [Option.map_some, Option.bind_eq_bind, Option.bind_some, hload, hstore]
        rfl
      · refine Within.content (f := g) (fun y hy => Lib.setSlot_of_ne hy) ?_
        rw [hg]
        rfl

end Holds

/-! ## uvmunmap -/

/-- An address space without `c` pages from `n` on. -/
def UserSpace.without (m : UserSpace) (n c : Nat) : UserSpace := fun x =>
  if n ≤ x ∧ x < n + c then none else m x

namespace Holds

/-- There is no table on the way to a page without one. -/
theorem unmapped (h : Holds kend s root role hole loose i r m) (hn : n < pages)
    (hg : ∀ g, role g ≠ .place i (tablePath (n * pgsize))) : m n = none := by
  by_contra hne
  obtain ⟨l, hl⟩ := Option.ne_none_iff_exists'.mp hne
  rw [h.apply hn, Option.map_eq_some_iff] at hl
  obtain ⟨e, he, -⟩ := hl
  obtain ⟨g, hplace, -⟩ := (h.forest.entry_eq_some h.intact h.root_eq tablePath_lt).mp he
  exact hg g hplace

/-- The rounds of `uvmunmap` that find nothing to unmap. -/
theorem unmapLoop_none (h : Holds kend s root role hole loose i r m) {doFree : Bool}
    (hva : n * pgsize < maxva) (hnone : m n = none) (c : Nat) :
    unmapLoop kend r doFree (c + 1) s (n * pgsize) =
      unmapLoop kend r doFree c s ((n + 1) * pgsize) := by
  have hn := lt_pages hva
  obtain ⟨t, hwalk, ht⟩ := h.walk_find h.intact h.root_eq hva
  rw [Nat.succ_mul, unmapLoop, hwalk]
  cases t with
  | none => rfl
  | some g =>
      have hg := (ht g).mp rfl
      have hload := Phys.loadPte_eq (k := px 0 (n * pgsize)) (h.table hg tablePath_lt)
      rw [h.slot_none hn hg hnone] at hload
      simp only [Option.map_some, Option.bind_eq_bind, Option.bind_some, hload]

/-- A round of `uvmunmap` that finds an entry. -/
theorem unmapLoop_some (h : Holds kend s root role hole loose i r m) (doFree : Bool)
    (hva : n * pgsize < maxva) (hsome : m n ≠ none) :
    ∃ g f flags, role g = .place i (tablePath (n * pgsize)) ∧
      entry s.mem r (vpath n) = some (f, flags) ∧
      ∀ c s1, (if doFree then kfree kend s f else some s) = some s1 →
        (∃ slot, s1.mem g = .table slot) →
        unmapLoop kend r doFree (c + 1) s (n * pgsize) = unmapLoop kend r doFree c
          { s1 with mem := setSlot s1.mem g (px 0 (n * pgsize)) none } ((n + 1) * pgsize) := by
  have hn := lt_pages hva
  obtain ⟨t, hwalk, ht⟩ := h.walk_find h.intact h.root_eq hva
  cases t with
  | none =>
      refine absurd (h.unmapped hn fun g hg => ?_) hsome
      have hfound := (ht g).mpr hg
      cases hfound
  | some g =>
      have hg := (ht g).mp rfl
      have hload := Phys.loadPte_eq (k := px 0 (n * pgsize)) (h.table hg tablePath_lt)
      have hentry := h.forest.entry_of_place h.intact h.root_eq tablePath_lt hg
        (k := px 0 (n * pgsize))
      cases he : slotAt s.mem g (px 0 (n * pgsize)) with
      | none =>
          rw [h.apply_table hn hg, he] at hsome
          exact absurd rfl hsome
      | some e =>
          rw [he] at hload hentry
          refine ⟨g, e.1, e.2, hg, hentry, fun c s1 hs1 htable => ?_⟩
          have hstore := Phys.storePte_eq (k := px 0 (n * pgsize)) none htable
          rw [Nat.succ_mul, unmapLoop, hwalk]
          cases doFree with
          | false =>
              obtain rfl := Option.some.inj hs1
              simp only [Option.map_some, Option.bind_eq_bind, Option.bind_some, hload, hstore]
              rfl
          | true =>
              have hkfree : kfree kend s e.1 = some s1 := hs1
              simp only [Option.map_some, Option.bind_eq_bind, Option.bind_some, hload, if_true,
                hkfree, hstore]

/-- A round of `uvmunmap` that frees the page. -/
theorem unmap_free (h : Holds kend s root role none loose i r m) (hva : n * pgsize < maxva)
    (hown : ∀ f flags, m n ≠ some (.shared f, flags)) :
    ∃ s' role', (∀ c, unmapLoop kend r true (c + 1) s (n * pgsize) =
        unmapLoop kend r true c s' ((n + 1) * pgsize)) ∧
      Within i s role s' role' ∧
      Holds kend s' root role' none loose i r (Function.update m n none) := by
  cases hm : m n with
  | none =>
      refine ⟨s, role, h.unmapLoop_none hva hm, Within.refl, ?_⟩
      rwa [← hm, Function.update_eq_self]
  | some l =>
      obtain ⟨leaf, flags⟩ := l
      cases leaf with
      | shared f => exact absurd hm (hown f flags)
      | page data =>
          obtain ⟨f, he, hf, hdata⟩ := h.page_frame (by simp) hm
          obtain ⟨s1, hkfree, hmem, h1⟩ := h.free_page hf hm
          obtain ⟨g, f', flags', hg, he', hround⟩ :=
            h.unmapLoop_some true hva (by simp [hm])
          obtain ⟨rfl, rfl⟩ := Prod.mk.inj (Option.some.inj (he.symm.trans he'))
          have hgf : g ≠ f := ne_of_length hf hg (by simp [vpath_length, tablePath])
          have hg1 : Function.update role f .free g = .place i (tablePath (n * pgsize)) := by
            rw [Function.update_of_ne hgf, hg]
          have h2 : Holds kend { s1 with mem := setSlot s1.mem g (px 0 (n * pgsize)) none } root
              (Function.update role f .free) none loose i r _ :=
            h1.clear_entry (lt_pages hva) hg1 (fun y => h1.forest.vacant y i _ rfl)
              (fun place hplace => Or.inl (Option.some.inj hplace).symm) (by simp)
          rw [Function.update_idem] at h2
          refine ⟨_, _, fun c => hround c s1 hkfree (h1.table hg1 tablePath_lt), ?_, h2⟩
          refine (Within.update (b := .free) hmem ?_ trivial).trans (Within.content (f := g)
            (fun y hy => Lib.setSlot_of_ne hy) ?_)
          · rw [hf]
            rfl
          · rw [hg1]
            rfl

/-- A round of `uvmunmap` that only clears an entry. -/
theorem unmap_keep (h : Holds kend s root role hole loose i r m) (hole' : Hole ι)
    (hva : n * pgsize < maxva) (hm : m n = some (.shared f, flags))
    (hhole : ∀ place, hole = some place → place = (i, vpath n) ∨ hole' = some place)
    (hhole' : ∀ place, hole' = some place → hole = some place) :
    ∃ s', uvmunmap kend s r (n * pgsize) 1 false = some s' ∧ Within i s role s' role ∧
      s'.freelist = s.freelist ∧
      Holds kend s' root role hole' loose i r (Function.update m n none) := by
  obtain ⟨g, f', flags', hg, he', hround⟩ :=
    h.unmapLoop_some false hva (by simp [hm])
  obtain ⟨he, hother⟩ := h.shared_frame hm
  have hgone : ∀ y, role y ≠ .place i (vpath n) := by
    intro y hy
    by_cases hdangling : hole = some (i, vpath n)
    · exact h.forest.vacant y i _ hdangling hy
    · obtain ⟨w, hw⟩ := hother hdangling
      obtain ⟨g', hg', hslot⟩ := (h.forest.entry_eq_some h.intact h.root_eq tablePath_lt).mp he
      have hlinked : Lib.Linked s.mem root role i (vpath n) f := ⟨g', (f, flags), hg', hslot, rfl⟩
      rw [h.forest.linked_unique hlinked (h.forest.up y i _ hy), hy] at hw
      cases hw
  refine ⟨{ s with mem := setSlot s.mem g (px 0 (n * pgsize)) none }, ?_, ?_, rfl,
    h.clear_entry (lt_pages hva) hg hgone hhole hhole'⟩
  · rw [uvmunmap, if_neg (by simp), hround 0 s rfl (h.table hg tablePath_lt)]
    rfl
  · refine Within.content (f := g) (fun y hy => Lib.setSlot_of_ne hy) ?_
    rw [hg]
    rfl

/-- `uvmunmap` frees the pages of a range that has no shared frames. -/
theorem uvmunmap_free (h : Holds kend s root role none loose i r m) {c : Nat}
    (hva : (n + c) * pgsize ≤ maxva)
    (hown : ∀ x, n ≤ x → x < n + c → ∀ f flags, m x ≠ some (.shared f, flags)) :
    ∃ s' role', uvmunmap kend s r (n * pgsize) c true = some s' ∧ Within i s role s' role' ∧
      Holds kend s' root role' none loose i r (m.without n c) := by
  rw [uvmunmap, if_neg (by simp)]
  induction c generalizing s role m n with
  | zero =>
      refine ⟨s, role, rfl, Within.refl, ?_⟩
      have hsame : m.without n 0 = m := by
        funext x
        rw [UserSpace.without, if_neg (by omega)]
      rwa [hsame]
  | succ c ih =>
      have hva' : n * pgsize < maxva := by
        unfold pgsize at hva ⊢
        omega
      have hnext : n + (c + 1) = n + 1 + c := by omega
      rw [hnext] at hva
      obtain ⟨s1, role1, hround, hin, h1⟩ := h.unmap_free hva' (hown n (by omega) (by omega))
      obtain ⟨s', role', hloop, hin', h'⟩ := ih h1 hva fun x hx hxc => by
        rw [Function.update_of_ne (by omega)]
        exact hown x (by omega) (by omega)
      refine ⟨s', role', (hround c).trans hloop, hin.trans hin', ?_⟩
      have hsame : UserSpace.without (Function.update m n none) (n + 1) c =
          m.without n (c + 1) := by
        funext x
        rw [UserSpace.without, UserSpace.without]
        by_cases hx : x = n
        · subst hx
          rw [if_neg (by omega), Function.update_self, if_pos (by omega)]
        · rw [Function.update_of_ne hx]
          by_cases hrange : n + 1 ≤ x ∧ x < n + 1 + c
          · rw [if_pos hrange, if_pos (by omega)]
          · rw [if_neg hrange, if_neg (by omega)]
      rwa [← hsame]

end Holds

/-! ## freewalk -/

/-- Page table `i` has tables only. -/
def Bare (i : ι) (s : Phys) (role : Roles ι) : Prop :=
  ∀ g p k e, role g = .place i p → slotAt s.mem g k = some e → p.length < 2

/-- From `s` to `s'` the frames from path `p` on are freed, and no others
    change. -/
def Frees (i : ι) (p : List (Fin 512)) (s : Phys) (role : Roles ι) (s' : Phys)
    (role' : Roles ι) : Prop :=
  ∀ f, role' f = role f ∧ s'.mem f = s.mem f ∨
    (∃ q, role f = .place i (q ++ p)) ∧ role' f = .free

/-- Frames that are freed from a page table change nothing outside it. -/
theorem Frees.within (h : Frees i p s role s' role') : Within i s role s' role' := by
  intro f
  rcases h f with hsame | ⟨⟨q, hf⟩, hfree⟩
  · exact Or.inr hsame
  · left
    rw [hf, hfree]
    exact ⟨rfl, trivial⟩

/-- A page table without pages stays so while its frames are freed. -/
theorem Frees.bare (h : Frees i p s role s' role') (hbare : Bare i s role) : Bare i s' role' := by
  intro g q k e hg he
  rcases h g with ⟨hrole, hmem⟩ | ⟨-, hfree⟩
  · rw [slotAt, hmem] at he
    exact hbare g q k e (hrole ▸ hg) he
  · rw [hg] at hfree
    cases hfree

/-- A page table that maps nothing has no page. -/
theorem Holds.bare (h : Holds kend s root role none loose i r fun _ => none) : Bare i s role := by
  intro g p k e hg he
  by_contra hp
  have hlt := h.forest.length_lt_of_slot hg he
  obtain ⟨n, hn, hpath⟩ := exists_vpath (q := k :: p) (by rw [List.length_cons]; omega)
  have hentry := h.forest.entry_of_place h.intact h.root_eq hlt hg (k := k)
  have hnone := h.apply hn
  rw [hpath, hentry, he] at hnone
  cases hnone

namespace Owned

/-- The loop of `freewalk`. -/
theorem freeSlots (h : Owned kend s root role none loose) (hbare : Bare i s role)
    (hg : role g = .place i p) (hp : p.length < 3) (walk : Phys → Nat → Option Phys)
    (hwalk : ∀ {s role f k}, Owned kend s root role none loose → Bare i s role →
      role f = .place i (k :: p) → p.length < 2 →
      ∃ s' role', walk s f = some s' ∧ Owned kend s' root role' (some (i, k :: p)) loose ∧
        Frees i (k :: p) s role s' role')
    (ks : List (Fin 512)) :
    ∃ s' role', ks.foldlM (freeSlot walk g) s = some s' ∧
      Owned kend s' root role' none loose ∧ Bare i s' role' ∧ role' g = .place i p ∧
      (∀ k, slotAt s'.mem g k = if k ∈ ks then none else slotAt s.mem g k) ∧
      ∀ f, f ≠ g → role' f = role f ∧ s'.mem f = s.mem f ∨
        (∃ q, role f = .place i (q ++ p)) ∧ role' f = .free := by
  induction ks generalizing s role with
  | nil => exact ⟨s, role, rfl, h, hbare, hg, fun k => by simp, fun f _ => Or.inl ⟨rfl, rfl⟩⟩
  | cons k ks ih =>
      have hload := Phys.loadPte_eq (k := k) (h.table hg hp)
      cases he : slotAt s.mem g k with
      | none =>
          rw [he] at hload
          obtain ⟨s', role', hloop, h', hbare', hg', hslots, hframes⟩ := ih h hbare hg
          refine ⟨s', role', ?_, h', hbare', hg', fun j => ?_, hframes⟩
          · simp only [List.foldlM_cons, freeSlot, hload, Option.bind_eq_bind, Option.bind_some]
            exact hloop
          · rw [hslots]
            by_cases hj : j = k
            · rw [hj, he]
              simp
            · simp [hj]
      | some e =>
          rw [he] at hload
          have hlt := hbare g p k e hg he
          -- a bare table has no leaf, so `freewalk` does not panic
          have hleaf : ¬ e.2.leaf = true := by
            rw [h.leaf g i p k e hg he]
            omega
          have hchild := h.forest.slot_table Lib.intact_none
            (by rw [List.length_cons]; omega) hg he
          obtain ⟨s1, role1, hfreed, h1, hframes1⟩ := hwalk h hbare hchild hlt
          -- the tables below are other frames than `g`
          have hg1 : role1 g = .place i p ∧ s1.mem g = s.mem g := by
            rcases hframes1 g with ⟨hrole, hmem⟩ | ⟨⟨q, hunder⟩, -⟩
            · exact ⟨hrole.trans hg, hmem⟩
            · rw [hg] at hunder
              have hlen := congrArg List.length (Role.place.inj hunder).2
              simp only [List.length_append, List.length_cons] at hlen
              omega
          have hstore := Phys.storePte_eq (k := k) none (h1.table hg1.1 hp)
          have h2 :
              Owned kend { s1 with mem := Lib.setSlot s1.mem g k none } root role1 none loose :=
            h1.clear hg1.1 hp (fun y => h1.forest.vacant y i _ rfl)
              (fun place hplace => Or.inl (Option.some.inj hplace).symm) (by simp)
          have hslot2 : ∀ j, slotAt (Lib.setSlot s1.mem g k none) g j =
              if j = k then none else slotAt s.mem g j := by
            intro j
            obtain ⟨slot, hslot⟩ := h1.table hg1.1 hp
            by_cases hj : j = k
            · rw [hj, Lib.slotAt_setSlot_self hslot, if_pos rfl]
            · rw [Lib.slotAt_setSlot_of_ne (Or.inr hj), slotAt, hg1.2, ← slotAt, if_neg hj]
          -- clearing the slot maps nothing anew
          have hbare2 : Bare i { s1 with mem := Lib.setSlot s1.mem g k none } role1 := by
            intro g' q j e' hg' he'
            by_cases hgg : g' = g
            · subst hgg
              rw [hg1.1] at hg'
              cases hg'
              exact hlt
            · rw [Lib.slotAt_setSlot_of_ne (Or.inl hgg)] at he'
              exact hframes1.bare hbare g' q j e' hg' he'
          obtain ⟨s', role', hloop, h', hbare', hg', hslots, hframes⟩ := ih h2 hbare2 hg1.1
          refine ⟨s', role', ?_, h', hbare', hg', fun j => ?_, fun f hf => ?_⟩
          · simp only [List.foldlM_cons, freeSlot, hload, Option.bind_eq_bind, Option.bind_some,
              if_neg hleaf, hfreed, hstore]
            exact hloop
          · rw [hslots, hslot2]
            by_cases hj : j = k
            · simp [hj]
            · simp [hj]
          · have hmem2 : (Lib.setSlot s1.mem g k none) f = s1.mem f := Lib.setSlot_of_ne hf
            -- freed with this slot, with a later one, or not at all
            rcases hframes1 f with ⟨hrole1, hmem1⟩ | ⟨⟨q, hunder⟩, hfree1⟩
            · rcases hframes f hf with ⟨hrole, hmem⟩ | ⟨⟨q, hunder⟩, hfree⟩
              · exact Or.inl ⟨hrole.trans hrole1, hmem.trans (hmem2.trans hmem1)⟩
              · exact Or.inr ⟨⟨q, hrole1 ▸ hunder⟩, hfree⟩
            · right
              refine ⟨⟨q ++ [k], by rw [hunder, List.append_assoc]; rfl⟩, ?_⟩
              rcases hframes f hf with ⟨hrole, -⟩ | ⟨-, hfree⟩
              · exact hrole.trans hfree1
              · exact hfree

/-- `freewalk` frees a table and all below it. -/
theorem freewalk (h : Owned kend s root role none loose) (level : Nat) (hbare : Bare i s role)
    (hg : role g = .place i p) (hlevel : p.length + level = 3)
    (hp : p.length < 3) :
    ∃ s' role', freewalk kend level s g = some s' ∧
      Owned kend s' root role' (some (i, p)) loose ∧ Frees i p s role s' role' := by
  induction level generalizing s role g p with
  | zero => exact absurd hlevel (Nat.ne_of_lt hp)
  | succ level ih =>
      obtain ⟨s1, role1, hloop, h1, hbare1, hg1, hslots, hframes⟩ :=
        h.freeSlots hbare hg hp (Kernel.freewalk kend level)
          (fun h hbare hf hlt => ih h hbare hf (by rw [List.length_cons]; omega)
            (by rw [List.length_cons]; omega)) (List.finRange 512)
      have hempty : ∀ k, slotAt s1.mem g k = none := by
        intro k
        rw [hslots, if_pos (List.mem_finRange k)]
      obtain ⟨s', hkfree, hmem, h'⟩ := h1.kfree_place hg1 hempty
      refine ⟨s', _, ?_, h', fun f => ?_⟩
      · rw [Kernel.freewalk, hloop]
        exact hkfree
      · by_cases hf : f = g
        · subst hf
          exact Or.inr ⟨⟨[], hg⟩, Function.update_self ..⟩
        · rw [Function.update_of_ne hf, hmem, Function.update_of_ne hf]
          exact hframes f hf

end Owned

end Mapping

end G20OsLab.Kernel
