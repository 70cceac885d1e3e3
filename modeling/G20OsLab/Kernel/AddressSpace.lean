/-
  G20OsLab.Kernel.AddressSpace

  The address space behind a page table.

  `space` maps the number of a virtual page to what is mapped there, a page of
  the address space's own or a frame it shares, and the flags.  `Holds` is the
  invariant of physical memory with the space of one page table: what
  `mappages` and `uvmunmap` do to it, and that the spaces of the other page
  tables stay as they are (`Owned.space_of_within`).
-/

import Mathlib.Data.Nat.Basic
import G20OsLab.Kernel.PageTables

namespace G20OsLab.Kernel

open Lib (Frame Role Forest Intact slotAt setSlot entry nodeAt)

/-! ## Page numbers -/

/-- The number of entries for pages, half of them below `MAXVA`. -/
def pages : Nat := 2 ^ 27

/-- The path of virtual page `n`. -/
def vpath (n : Nat) : List (Fin 512) := leafPath (n * pgsize)

/-- Every address below `MAXVA` is on a page with an entry. -/
theorem lt_pages {n : Nat} (hva : n * pgsize < maxva) : n < pages := by
  unfold maxva pgsize at hva
  unfold pages
  omega

theorem px_eq (level va : Nat) : (px level va).val = va / pgsize / 512 ^ level % 512 := by
  rw [px, Nat.div_div_eq_div_mul]

/-- The digits of a page number in base 512 are the indices on the way to it. -/
theorem px_page (level n : Nat) : (px level (n * pgsize)).val = n / 512 ^ level % 512 := by
  rw [px_eq, Nat.mul_div_cancel n (by decide : 0 < pgsize)]

/-- The path of an address is that of its page. -/
theorem leafPath_eq (va : Nat) : leafPath va = vpath (va / pgsize) := by
  have hpx : ∀ level, px level va = px level (va / pgsize * pgsize) := by
    intro level
    apply Fin.ext
    rw [px_eq, px_page]
  rw [vpath, leafPath, leafPath, tablePath, tablePath, hpx, hpx, hpx]

/-- Two pages are not reached on one path. -/
theorem vpath_inj {n m : Nat} (hn : n < pages) (hm : m < pages) (h : vpath n = vpath m) :
    n = m := by
  simp only [vpath, leafPath, tablePath, List.cons.injEq, Fin.ext_iff, px_page, and_true] at h
  obtain ⟨h0, h1, h2⟩ := h
  unfold pages at hn hm
  omega

/-- Every path to a page is that of a page number. -/
theorem exists_vpath {q : List (Fin 512)} (hq : q.length = 3) : ∃ n, n < pages ∧ vpath n = q := by
  obtain ⟨k0, k1, k2, rfl⟩ := List.length_eq_three.mp hq
  refine ⟨k0 + 512 * k1 + 512 ^ 2 * k2, ?_, ?_⟩
  · unfold pages
    omega
  · simp only [vpath, leafPath, tablePath, List.cons.injEq, Fin.ext_iff, px_page, and_true]
    omega

theorem vpath_length (n : Nat) : (vpath n).length = 3 := rfl

/-! ## Address spaces -/

/-- What a page is mapped to. -/
inductive Leaf
  | page (data : Page)
  /-- a frame that is not the address space's own -/
  | shared (f : Nat)

abbrev UserSpace := Nat → Option (Leaf × PteFlags)

/-- What an entry for a page leads to. -/
def leafOf {ι : Type} (s : Phys) (role : Roles ι) (e : Pte) : Leaf × PteFlags :=
  match s.mem e.1, role e.1 with
  | .page data, .place _ _ => (.page data, e.2)
  | _, _ => (.shared e.1, e.2)

/-- The address space of the page table at `r`. -/
def space {ι : Type} (s : Phys) (role : Roles ι) (r : Nat) : UserSpace := fun n =>
  if n < pages then (entry s.mem r (vpath n)).map (leafOf s role) else none

/-- Physical memory is in order, and page table `i`, at `r`, holds `m`. -/
structure Holds {ι : Type} (kend : Nat) (s : Phys) (root : ι → Option Nat) (role : Roles ι)
    (hole : Hole ι) (loose : List Nat) (i : ι) (r : Nat) (m : UserSpace) : Prop
    extends Owned kend s root role hole loose where
  root_eq : root i = some r
  intact : Intact 3 hole i
  space_eq : space s role r = m

section AddressSpace

variable {ι : Type} {kend : Nat} {s s' s'' : Phys} {root : ι → Option Nat}
variable {role role' role'' : Roles ι} {hole hole' : Hole ι} {loose loose' : List Nat} {i j : ι}
variable {f g r n va : Nat} {k : Fin 512} {p : List (Fin 512)} {e : Pte} {flags : PteFlags}
variable {m : UserSpace} {data : Page} {w : Use} {v : Option Pte}

/-- What a leaf is depends on its own frame only. -/
theorem leafOf_congr (hrole : role' e.1 = role e.1) (hmem : s'.mem e.1 = s.mem e.1) :
    leafOf s' role' e = leafOf s role e := by
  rw [leafOf, hrole, hmem, leafOf]

/-- Entries do not matter to what a page is. -/
theorem leafOf_setSlot (hrole : role' e.1 = role e.1) (hmem : s'.mem = setSlot s.mem g k v) :
    leafOf s' role' e = leafOf s role e := by
  by_cases heg : e.1 = g
  · cases hcontent : s.mem g with
    | table slot =>
        rw [leafOf, hmem, Lib.setSlot_table hcontent, heg, Function.update_self, leafOf, heg,
          hcontent]
    | junk =>
        refine leafOf_congr hrole ?_
        rw [hmem, setSlot, heg, Function.update_self, hcontent]
    | page data =>
        refine leafOf_congr hrole ?_
        rw [hmem, setSlot, heg, Function.update_self, hcontent]
  · refine leafOf_congr hrole ?_
    rw [hmem, Lib.setSlot_of_ne heg]

theorem leafOf_page (hf : role f = .place i p) (hmem : s.mem f = .page data) :
    leafOf s role (f, flags) = (.page data, flags) := by
  rw [leafOf, hmem, hf]

/-- A frame outside the page tables is shared. -/
theorem leafOf_other (hf : role f = .other w) : leafOf s role (f, flags) = (.shared f, flags) := by
  rw [leafOf]
  split
  · rename_i hplace
    rw [hf] at hplace
    cases hplace
  · rfl

namespace Owned

/-- The frame of an entry for a page. -/
theorem entry_role (h : Owned kend s root role hole loose) (hhole : hole ≠ some (i, vpath n))
    (hintact : Intact 3 hole i) (hr : root i = some r) (he : entry s.mem r (vpath n) = some e) :
    (role e.1 = .place i (vpath n) ∧ ∃ data, s.mem e.1 = .page data) ∨
      ∃ w, role e.1 = .other w := by
  obtain ⟨g, hg, hslot⟩ := (h.forest.entry_eq_some hintact hr tablePath_lt).mp he
  rcases h.forest.slot_role hhole hg hslot with hplace | ⟨-, w, hw⟩
  · exact Or.inl ⟨hplace, (h.forest.page e.1 i _ hplace (Nat.lt_irrefl 3)).2⟩
  · exact Or.inr ⟨w, hw⟩

/-- What happens within page table `i` does not change the space of another. -/
theorem space_of_within (h : Owned kend s root role hole loose) (hin : Within i s role s' role')
    (hj : j ≠ i) (hhole : ∀ q, hole ≠ some (j, q)) (hr : root j = some r) :
    space s' role' r = space s role r := by
  have hintact : Intact 3 hole j := fun q hq => absurd hq (hhole q)
  have hsame : ∀ f p, role f = .place j p → s'.mem f = s.mem f := by
    intro f p hf
    refine hin.mem_eq ?_
    rw [hf]
    exact hj
  funext n
  rw [space, space]
  congr 1
  rw [h.forest.entry_congr hintact hr hsame (Nat.le_of_eq (vpath_length n))]
  cases he : entry s.mem r (vpath n) with
  | none => rfl
  | some e =>
      refine congrArg some ?_
      rcases h.entry_role (hhole _) hintact hr he with ⟨hplace, -⟩ | ⟨w, hw⟩
      · exact leafOf_congr (by rw [hplace, hin.place_iff hj, hplace]) (hsame e.1 _ hplace)
      · refine leafOf_congr (by rw [hw, hin.other_iff, hw]) (hin.mem_eq ?_)
        rw [hw]
        exact id

end Owned

namespace Holds

/-- The address space reads the entries of the page table. -/
theorem apply (h : Holds kend s root role hole loose i r m) (hn : n < pages) :
    m n = (entry s.mem r (vpath n)).map (leafOf s role) := by
  rw [← h.space_eq, space, if_pos hn]

/-- Only pages that have an entry are mapped. -/
theorem lt_of_mapped (h : Holds kend s root role hole loose i r m) (hne : m n ≠ none) :
    n < pages := by
  by_contra hn
  rw [← h.space_eq, space, if_neg hn] at hne
  exact hne rfl

/-- The entry of a page is in the lowest table on the way to it. -/
theorem apply_table (h : Holds kend s root role hole loose i r m) (hn : n < pages)
    (hg : role g = .place i (tablePath (n * pgsize))) :
    m n = (slotAt s.mem g (px 0 (n * pgsize))).map (leafOf s role) := by
  rw [h.apply hn, vpath, leafPath, h.forest.entry_of_place h.intact h.root_eq tablePath_lt hg]

/-- A page of the address space's own has a frame at its place. -/
theorem page_frame (h : Holds kend s root role hole loose i r m) (hhole : hole ≠ some (i, vpath n))
    (hn : m n = some (.page data, flags)) :
    ∃ f, entry s.mem r (vpath n) = some (f, flags) ∧ role f = .place i (vpath n) ∧
      s.mem f = .page data := by
  rw [h.apply (h.lt_of_mapped (by simp [hn])), Option.map_eq_some_iff] at hn
  obtain ⟨e, he, hleaf⟩ := hn
  rcases h.entry_role hhole h.intact h.root_eq he with ⟨hplace, old, hold⟩ | ⟨w, hw⟩
  · rw [leafOf, hold, hplace] at hleaf
    cases hleaf
    exact ⟨e.1, he, hplace, hold⟩
  · rw [show e = (e.1, e.2) from rfl, leafOf_other hw] at hleaf
    cases hleaf

/-- A shared frame is not in the page table. -/
theorem shared_frame (h : Holds kend s root role hole loose i r m)
    (hn : m n = some (.shared f, flags)) :
    entry s.mem r (vpath n) = some (f, flags) ∧
      (hole ≠ some (i, vpath n) → ∃ w, role f = .other w) := by
  rw [h.apply (h.lt_of_mapped (by simp [hn])), Option.map_eq_some_iff] at hn
  obtain ⟨e, he, hleaf⟩ := hn
  have heq : e = (f, flags) := by
    rw [leafOf] at hleaf
    split at hleaf <;> cases hleaf
    rfl
  subst heq
  refine ⟨he, fun hhole => ?_⟩
  rcases h.entry_role hhole h.intact h.root_eq he with ⟨hplace, old, hold⟩ | hother
  · rw [leafOf_page hplace hold] at hleaf
    cases hleaf
  · exact hother

/-- Writing the entry of page `n`. -/
theorem setEntry (h : Holds kend s root role hole loose i r m)
    (h' : Owned kend s' root role' hole' loose') (hintact : Intact 3 hole' i) (hn : n < pages)
    (hg : role g = .place i (tablePath (n * pgsize)))
    (hmem : s'.mem = setSlot s.mem g (px 0 (n * pgsize)) v)
    (htables : ∀ x q, q.length < 3 → (role' x = .place i q ↔ role x = .place i q))
    (hsame : ∀ x e, entry s.mem r (vpath x) = some e → role' e.1 = role e.1) :
    Holds kend s' root role' hole' loose' i r (Function.update m n (v.map (leafOf s' role'))) where
  toOwned := h'
  root_eq := h.root_eq
  intact := hintact
  space_eq := by
    funext x
    rw [space]
    by_cases hx : x < pages
    · rw [if_pos hx]
      by_cases hxn : x = n
      · subst hxn
        have hg' := (htables g _ tablePath_lt).mpr hg
        obtain ⟨slot, hslot⟩ := h.table hg tablePath_lt
        rw [Function.update_self, vpath, leafPath,
          h'.forest.entry_of_place hintact h.root_eq tablePath_lt hg', hmem,
          Lib.slotAt_setSlot_self hslot]
      -- another page number has another path, so its entry is in another slot
      · have hentry : entry s'.mem r (vpath x) = entry s.mem r (vpath x) := by
          ext e
          rw [vpath, leafPath, h'.forest.entry_eq_some hintact h.root_eq tablePath_lt,
            h.forest.entry_eq_some h.intact h.root_eq tablePath_lt]
          refine exists_congr fun y => ?_
          rw [htables y _ tablePath_lt]
          refine and_congr_right fun hy => ?_
          rw [hmem, Lib.slotAt_setSlot_of_ne]
          by_contra hboth
          rw [not_or, not_not, not_not] at hboth
          obtain ⟨rfl, hk⟩ := hboth
          rw [hg] at hy
          have hpath : vpath x = vpath n := by
            rw [vpath, leafPath, hk, ← (Role.place.inj hy).2]
            rfl
          exact hxn (vpath_inj hx hn hpath)
        rw [Function.update_of_ne hxn, h.apply hx, hentry]
        cases he : entry s.mem r (vpath x) with
        | none => rfl
        | some e => exact congrArg some (leafOf_setSlot (hsame x e he) hmem)
    · have hxn : x ≠ n := by
        rintro rfl
        exact hx hn
      rw [if_neg hx, Function.update_of_ne hxn]
      by_contra hne
      exact hx (h.lt_of_mapped fun hnone => hne hnone.symm)

/-- There is no entry for a page without one. -/
theorem slot_none (h : Holds kend s root role hole loose i r m) (hn : n < pages)
    (hg : role g = .place i (tablePath (n * pgsize))) (hnone : m n = none) :
    slotAt s.mem g (px 0 (n * pgsize)) = none := by
  rw [h.apply_table hn hg] at hnone
  exact Option.map_eq_none_iff.mp hnone

/-- An entry of a page table that nothing dangles from leads to no loose frame. -/
theorem entry_ne_loose (h : Holds kend s root role none loose i r m)
    (he : entry s.mem r (vpath n) = some e) (hf : role f = .loose) : e.1 ≠ f := by
  rintro rfl
  rcases h.entry_role (by simp) h.intact h.root_eq he with ⟨hplace, -⟩ | ⟨w, hw⟩
  · rw [hf] at hplace
    cases hplace
  · rw [hf] at hw
    cases hw

/-- A frame from `kalloc` becomes a page of the address space. -/
theorem link_page (h : Holds kend s root role none (f :: loose) i r m) (hf : f ∉ loose)
    (hmem : s.mem f = .page data) (hleaf : flags.leaf = true) (hn : n < pages)
    (hg : role g = .place i (tablePath (n * pgsize))) (hnone : m n = none) :
    Holds kend { s with mem := setSlot s.mem g (px 0 (n * pgsize)) (some (f, flags)) } root
      (Function.update role f (.place i (vpath n))) none loose i r
      (Function.update m n (some (.page data, flags))) := by
  have hloose : role f = .loose := (h.loose f).mp (List.mem_cons_self ..)
  have hfg : f ≠ g := by
    rintro rfl
    rw [hg] at hloose
    cases hloose
  have hlinked := h.link flags hf hg tablePath_lt (h.slot_none hn hg hnone)
    (fun hlt => absurd hlt (Nat.lt_irrefl 3)) (fun _ => ⟨data, hmem⟩) (iff_of_true hleaf rfl)
  have hset := h.setEntry hlinked Lib.intact_none hn hg rfl ?_ ?_
  · rwa [Option.map_some, leafOf_page (Function.update_self ..)
      ((Lib.setSlot_of_ne hfg).trans hmem)] at hset
  · intro x q hq
    by_cases hxf : x = f
    · rw [hxf, Function.update_self, hloose]
      refine iff_of_false ?_ (by simp)
      rintro ⟨⟩
      exact Nat.lt_irrefl 3 hq
    · rw [Function.update_of_ne hxf]
  · intro x e he
    exact Function.update_of_ne (h.entry_ne_loose he hloose) ..

/-- A frame in use elsewhere is mapped. -/
theorem link_shared (h : Holds kend s root role none loose i r m) (hf : role f = .other w)
    (hleaf : flags.leaf = true) (hn : n < pages)
    (hg : role g = .place i (tablePath (n * pgsize))) (hnone : m n = none) :
    Holds kend { s with mem := setSlot s.mem g (px 0 (n * pgsize)) (some (f, flags)) } root
      role none loose i r (Function.update m n (some (.shared f, flags))) := by
  have hlinked := h.link_other flags hf hg rfl (h.slot_none hn hg hnone) hleaf
  have hset := h.setEntry hlinked Lib.intact_none hn hg rfl (fun _ _ _ => Iff.rfl)
    (fun _ _ _ => rfl)
  rwa [Option.map_some, leafOf_other hf] at hset

/-- The entry of a frame that is gone or in use elsewhere is cleared. -/
theorem clear_entry (h : Holds kend s root role hole loose i r m) (hn : n < pages)
    (hg : role g = .place i (tablePath (n * pgsize))) (hgone : ∀ f, role f ≠ .place i (vpath n))
    (hhole : ∀ place, hole = some place → place = (i, vpath n) ∨ hole' = some place)
    (hhole' : ∀ place, hole' = some place → hole = some place) :
    Holds kend { s with mem := setSlot s.mem g (px 0 (n * pgsize)) none } root role hole' loose
      i r (Function.update m n none) := by
  have hcleared := h.clear hg tablePath_lt hgone hhole hhole'
  exact h.setEntry hcleared (fun q hq => h.intact q (hhole' _ hq)) hn hg rfl
    (fun _ _ _ => Iff.rfl) (fun _ _ _ => rfl)

/-- A frame from `kalloc` becomes a table. -/
theorem link_table (h : Holds kend s root role none (f :: loose) i r m) (hf : f ∉ loose)
    (hmem : s.mem f = .table fun _ => none) (hg : role g = .place i p)
    (hp : (k :: p).length < 3) (hnone : slotAt s.mem g k = none) :
    Holds kend { s with mem := setSlot s.mem g k (some (f, .pointer)) } root
      (Function.update role f (.place i (k :: p))) none loose i r m := by
  have hloose : role f = .loose := (h.loose f).mp (List.mem_cons_self ..)
  have hfg : f ≠ g := by
    rintro rfl
    rw [hg] at hloose
    cases hloose
  rw [List.length_cons] at hp
  have hlinked := h.link .pointer hf hg (by omega) hnone (fun _ => hmem)
    (fun hlen => absurd hp hlen) (iff_of_false (by decide) (by omega))
  refine ⟨hlinked, h.root_eq, Lib.intact_none, ?_⟩
  funext x
  rw [← h.space_eq, space, space]
  congr 1
  -- the new table is empty, and it replaces no entry
  have hentry : entry (setSlot s.mem g k (some (f, .pointer))) r (vpath x) =
      entry s.mem r (vpath x) := by
    ext e
    rw [vpath, leafPath, hlinked.forest.entry_eq_some Lib.intact_none h.root_eq tablePath_lt,
      h.forest.entry_eq_some h.intact h.root_eq tablePath_lt]
    refine exists_congr fun y => ?_
    by_cases hyf : y = f
    · subst hyf
      refine iff_of_false ?_ ?_
      · rintro ⟨-, he⟩
        rw [Lib.slotAt_setSlot_of_ne (Or.inl hfg), Lib.slotAt_table hmem] at he
        cases he
      · rintro ⟨hy, -⟩
        rw [hloose] at hy
        cases hy
    · rw [Function.update_of_ne hyf]
      refine and_congr_right fun hy => ?_
      rw [Lib.slotAt_setSlot_of_ne]
      left
      rintro rfl
      rw [hg] at hy
      cases hy
      exact Nat.lt_irrefl 2 (Nat.lt_of_succ_lt_succ hp)
  rw [hentry]
  cases he : entry s.mem r (vpath x) with
  | none => rfl
  | some e =>
      refine congrArg some (leafOf_setSlot ?_ rfl)
      exact Function.update_of_ne (h.entry_ne_loose he hloose) ..

/-- The frame of page `n` gets a content without entries. -/
theorem page_changed (h : Holds kend s root role none loose i r m)
    (h' : Owned kend s' root role' hole' loose') (hintact : Intact 3 hole' i)
    {x : Frame Nat (Fin 512) PteFlags Page} (hf : role f = .place i (vpath n))
    (hn : m n = some (.page data, flags)) (hmem : s'.mem = Function.update s.mem f x)
    (hx : ∀ k, slotAt s'.mem f k = none) (hrole : ∀ y, y ≠ f → role' y = role y) :
    Holds kend s' root role' hole' loose' i r
      (Function.update m n (some (leafOf s' role' (f, flags)))) := by
  obtain ⟨f', he, hplace, hold⟩ := h.page_frame (by simp) hn
  obtain rfl := h.forest.place_unique hf hplace
  have hslot : ∀ g k, slotAt s'.mem g k = slotAt s.mem g k := by
    intro g k
    by_cases hgf : g = f
    · rw [hgf, hx, Lib.slotAt_page hold]
    · rw [hmem, Lib.slotAt_update_of_ne hgf]
  refine ⟨h', h.root_eq, hintact, ?_⟩
  funext y
  rw [space, Lib.entry_of_slots hslot]
  by_cases hyn : y = n
  · subst hyn
    rw [if_pos (h.lt_of_mapped (by simp [hn])), Function.update_self, he]
    rfl
  · rw [Function.update_of_ne hyn, ← h.space_eq, space]
    by_cases hy : y < pages
    · rw [if_pos hy, if_pos hy]
      cases he' : entry s.mem r (vpath y) with
      | none => rfl
      | some e =>
          have hne : e.1 ≠ f := by
            rintro rfl
            rcases h.entry_role (by simp) h.intact h.root_eq he' with ⟨hplace', -⟩ | ⟨w, hw⟩
            · rw [hf] at hplace'
              exact hyn (vpath_inj hy (h.lt_of_mapped (by simp [hn]))
                (Role.place.inj hplace').2.symm)
            · rw [hf] at hw
              cases hw
          exact congrArg some (leafOf_congr (hrole e.1 hne)
            (by rw [hmem, Function.update_of_ne hne]))
    · rw [if_neg hy, if_neg hy]

/-- A page of the address space is written. -/
theorem write (h : Holds kend s root role none loose i r m) {old : Page} (data : Page)
    (hf : role f = .place i (vpath n)) (hn : m n = some (.page old, flags)) :
    Holds kend (s.set f (.page data)) root role none loose i r
      (Function.update m n (some (.page data, flags))) := by
  obtain ⟨f', he, hplace, hold⟩ := h.page_frame (by simp) hn
  obtain rfl := h.forest.place_unique hf hplace
  have hpage : ∀ k, slotAt (s.set f (.page data)).mem f k = none := fun k =>
    Lib.slotAt_page (Function.update_self ..)
  have howned : Owned kend (s.set f (.page data)) root role none loose := by
    refine ⟨h.forest.write hf (vpath_length n), h.freelist, h.nodup, h.loose, h.range, ?_⟩
    intro g j q k e hg he'
    have hgf : g ≠ f := by
      rintro rfl
      rw [hpage] at he'
      cases he'
    refine h.leaf g j q k e hg ?_
    rw [← he']
    exact (Lib.slotAt_update_of_ne hgf).symm
  have hchanged := h.page_changed howned h.intact hf hn rfl hpage fun _ _ => rfl
  rwa [leafOf_page hf (Function.update_self ..)] at hchanged

/-- The frame of a page is freed, while its entry is still there. -/
theorem free_page (h : Holds kend s root role none loose i r m)
    (hf : role f = .place i (vpath n)) (hn : m n = some (.page data, flags)) :
    ∃ s', kfree kend s f = some s' ∧ s'.mem = Function.update s.mem f .junk ∧
      Holds kend s' root (Function.update role f .free) (some (i, vpath n)) loose i r
        (Function.update m n (some (.shared f, flags))) := by
  obtain ⟨f', he, hplace, hold⟩ := h.page_frame (by simp) hn
  obtain rfl := h.forest.place_unique hf hplace
  obtain ⟨s', hkfree, hmem, howned⟩ := h.kfree_place hf fun k => Lib.slotAt_page hold
  have hjunk : s'.mem f = .junk := by
    rw [hmem, Function.update_self]
  have hintact : Intact 3 (some (i, vpath n)) i := by
    rintro q ⟨⟩
    exact Nat.le_refl 3
  have hchanged := h.page_changed howned hintact hf hn hmem (fun k => Lib.slotAt_junk hjunk)
    fun y hy => Function.update_of_ne hy ..
  rw [leafOf, hjunk] at hchanged
  exact ⟨s', hkfree, hmem, hchanged⟩

end Holds

end AddressSpace

end G20OsLab.Kernel
