/-
  G20OsLab.Kernel.PageTables

  What the frames of physical memory are in use for.

  `Owned` is the invariant of the allocator and the page tables: every frame is
  on the free list once, or is a table or a page of one page table, or is in
  use outside of them, and the pointers agree.  `walk` finds the entries of a
  page table (`walk_find`), and makes tables out of free frames only
  (`walk_make`).
-/

import G20OsLab.Kernel.Types
import G20OsLab.Kernel.Vm

namespace G20OsLab.Kernel

open Lib (Frame Role Forest Intact slotAt setSlot entry nodeAt)

/-- The uses of frames outside the page tables. -/
inductive Use
  | kernel
  | trapframe (i : Fin nproc)
  | pipe

abbrev Roles (ι : Type) := Nat → Role ι (Fin 512) Use

abbrev Hole (ι : Type) := Option (ι × List (Fin 512))

/-- The frames are in use as `role` says; `loose` are those between `kalloc` and
    their first use. -/
structure Owned {ι : Type} (kend : Nat) (s : Phys) (root : ι → Option Nat) (role : Roles ι)
    (hole : Hole ι) (loose : List Nat) : Prop where
  forest : Forest 3 s.mem root role hole
  freelist : ∀ f, f ∈ s.freelist ↔ role f = .free
  nodup : s.freelist.Nodup
  loose : ∀ f, f ∈ loose ↔ role f = .loose
  range : ∀ f, role f ≠ .other .kernel → kend ≤ f ∧ f < physTop
  /-- exactly the entries of the lowest tables have `PTE_R`, `PTE_W` or `PTE_X` -/
  leaf : ∀ g i p k e, role g = .place i p → slotAt s.mem g k = some e →
    (e.2.leaf = true ↔ p.length = 2)

/-- A frame that an operation on page table `i` may take, change or free. -/
def Mine {ι : Type} (i : ι) : Role ι (Fin 512) Use → Prop
  | .free => True
  | .loose => True
  | .place j _ => j = i
  | .other _ => False

/-- From `s` to `s'` only frames that are free or of page table `i` change. -/
def Within {ι : Type} (i : ι) (s : Phys) (role : Roles ι) (s' : Phys) (role' : Roles ι) : Prop :=
  ∀ f, Mine i (role f) ∧ Mine i (role' f) ∨ role' f = role f ∧ s'.mem f = s.mem f

section PageTables

variable {ι : Type} {kend : Nat} {s s' s'' : Phys} {root : ι → Option Nat}
variable {role role' role'' : Roles ι} {hole : Hole ι} {loose : List Nat} {i j : ι}
variable {f g r va : Nat} {k : Fin 512} {p : List (Fin 512)} {e : Pte}
variable {x : Frame Nat (Fin 512) PteFlags Page} {b : Role ι (Fin 512) Use}

/-- Frames at different depths of page tables are different. -/
theorem ne_of_length {q : List (Fin 512)} (hf : role f = .place i p) (hg : role g = .place j q)
    (hlen : p.length ≠ q.length) : g ≠ f := by
  rintro rfl
  rw [hf] at hg
  exact hlen (congrArg List.length (Role.place.inj hg).2)

namespace Within

theorem refl : Within i s role s role := fun _ => Or.inr ⟨rfl, rfl⟩

theorem trans (h : Within i s role s' role') (h' : Within i s' role' s'' role'') :
    Within i s role s'' role'' := by
  intro f
  rcases h f with ⟨hold, hnew⟩ | ⟨hrole, hmem⟩
  · rcases h' f with ⟨-, hnew'⟩ | ⟨hrole', -⟩
    · exact Or.inl ⟨hold, hnew'⟩
    · exact Or.inl ⟨hold, hrole' ▸ hnew⟩
  · rcases h' f with ⟨hold', hnew'⟩ | ⟨hrole', hmem'⟩
    · exact Or.inl ⟨hrole ▸ hold', hnew'⟩
    · exact Or.inr ⟨hrole'.trans hrole, hmem'.trans hmem⟩

/-- One frame changes. -/
theorem update (hmem : s'.mem = Function.update s.mem f x) (hold : Mine i (role f))
    (hnew : Mine i b) : Within i s role s' (Function.update role f b) := by
  intro g
  by_cases hgf : g = f
  · subst hgf
    exact Or.inl ⟨hold, by rwa [Function.update_self]⟩
  · exact Or.inr ⟨Function.update_of_ne hgf .., by rw [hmem, Function.update_of_ne hgf]⟩

/-- The content of one frame changes. -/
theorem content (hmem : ∀ g, g ≠ f → s'.mem g = s.mem g) (hf : Mine i (role f)) :
    Within i s role s' role := by
  intro g
  by_cases hgf : g = f
  · subst hgf
    exact Or.inl ⟨hf, hf⟩
  · exact Or.inr ⟨rfl, hmem g hgf⟩

/-- The frames of the other page tables stay as they are. -/
theorem place_iff (h : Within i s role s' role') (hj : j ≠ i) :
    role' f = .place j p ↔ role f = .place j p := by
  rcases h f with ⟨hold, hnew⟩ | ⟨hrole, -⟩
  · constructor
    · intro hf
      rw [hf] at hnew
      exact absurd hnew hj
    · intro hf
      rw [hf] at hold
      exact absurd hold hj
  · rw [hrole]

/-- Frames in other uses stay in them. -/
theorem other_iff (h : Within i s role s' role') {w : Use} :
    role' f = .other w ↔ role f = .other w := by
  rcases h f with ⟨hold, hnew⟩ | ⟨hrole, -⟩
  · constructor
    · intro hf
      rw [hf] at hnew
      exact hnew.elim
    · intro hf
      rw [hf] at hold
      exact hold.elim
  · rw [hrole]

/-- What is outside the page table keeps its contents. -/
theorem mem_eq (h : Within i s role s' role') (hf : ¬ Mine i (role f)) : s'.mem f = s.mem f := by
  rcases h f with ⟨hold, -⟩ | ⟨-, hmem⟩
  · exact absurd hold hf
  · exact hmem

end Within

/-! ## The allocator -/

section Lists

variable {l : List Nat} {c : Role ι (Fin 512) Use}

/-- A frame gets the role that the frames of a list have. -/
theorem mem_cons_iff_update (h : ∀ g, g ∈ l ↔ role g = c) (g : Nat) :
    g ∈ f :: l ↔ Function.update role f c g = c := by
  by_cases hgf : g = f
  · subst hgf
    rw [Function.update_self]
    exact iff_of_true (List.mem_cons_self ..) rfl
  · rw [Function.update_of_ne hgf, ← h g, List.mem_cons]
    exact ⟨fun hg => hg.resolve_left hgf, Or.inr⟩

/-- A frame loses it. -/
theorem mem_tail_iff_update (h : ∀ g, g ∈ f :: l ↔ role g = c) (hf : f ∉ l) (hb : b ≠ c)
    (g : Nat) : g ∈ l ↔ Function.update role f b g = c := by
  by_cases hgf : g = f
  · subst hgf
    rw [Function.update_self]
    exact iff_of_false hf hb
  · rw [Function.update_of_ne hgf, ← h g, List.mem_cons]
    exact ⟨Or.inr, fun hg => hg.resolve_left hgf⟩

/-- A frame neither gets nor loses it. -/
theorem mem_iff_update (h : ∀ g, g ∈ l ↔ role g = c) (hf : role f ≠ c) (hb : b ≠ c) (g : Nat) :
    g ∈ l ↔ Function.update role f b g = c := by
  by_cases hgf : g = f
  · subst hgf
    rw [Function.update_self]
    exact iff_of_false (fun hg => hf ((h g).mp hg)) hb
  · rw [Function.update_of_ne hgf, h g]

end Lists

namespace Owned

/-- A frame gets another use, and a content without entries. -/
theorem assign (h : Owned kend s root role hole loose) {loose' : List Nat} {hole' : Hole ι}
    {root' : ι → Option Nat}
    (hforest : Forest 3 s'.mem root' (Function.update role f b) hole')
    (hmem : s'.mem = Function.update s.mem f x) (hx : ∀ k, slotAt s'.mem f k = none)
    (hfree : ∀ g, g ∈ s'.freelist ↔ Function.update role f b g = .free)
    (hnodup : s'.freelist.Nodup)
    (hloose : ∀ g, g ∈ loose' ↔ Function.update role f b g = .loose)
    (hf : role f ≠ .other .kernel) :
    Owned kend s' root' (Function.update role f b) hole' loose' where
  forest := hforest
  freelist := hfree
  nodup := hnodup
  loose := hloose
  range := by
    intro g hg
    by_cases hgf : g = f
    · rw [hgf]
      exact h.range f hf
    · rw [Function.update_of_ne hgf] at hg
      exact h.range g hg
  leaf := by
    intro g j q k e hg he
    have hgf : g ≠ f := by
      rintro rfl
      rw [hx] at he
      cases he
    rw [Function.update_of_ne hgf] at hg
    rw [hmem, Lib.slotAt_update_of_ne hgf] at he
    exact h.leaf g j q k e hg he

/-- `kalloc` takes a free frame, if there is one. -/
theorem kalloc (h : Owned kend s root role hole loose) :
    (kalloc s = (s, none) ∧ s.freelist = []) ∨
    ∃ s' f, Kernel.kalloc s = (s', some f) ∧ s.freelist = f :: s'.freelist ∧ role f = .free ∧
      s'.mem = Function.update s.mem f .junk ∧
      Owned kend s' root (Function.update role f .loose) hole (f :: loose) := by
  cases hlist : s.freelist with
  | nil =>
      left
      exact ⟨by rw [Kernel.kalloc, hlist], rfl⟩
  | cons f next =>
      right
      have hfree := h.freelist
      have hnodup := h.nodup
      rw [hlist] at hfree
      rw [hlist, List.nodup_cons] at hnodup
      have hf : role f = .free := (hfree f).mp (List.mem_cons_self ..)
      refine ⟨{ s with freelist := next }.set f .junk, f, by rw [Kernel.kalloc, hlist], rfl, hf,
        rfl, ?_⟩
      refine h.assign (h.forest.reuse (Or.inl hf) trivial) rfl ?_
        (mem_tail_iff_update hfree hnodup.1 (by simp)) hnodup.2 (mem_cons_iff_update h.loose)
        (by rw [hf]; simp)
      intro k
      exact Lib.slotAt_junk (Function.update_self ..)

/-- The content of a loose frame does not matter. -/
theorem set_loose (h : Owned kend s root role hole loose) (hf : role f = .loose) :
    Owned kend (s.set f x) root role hole loose where
  forest := by
    have hforest := h.forest.reuse (x := x) (b := .loose) (Or.inr hf) trivial
    rwa [← hf, Function.update_eq_self] at hforest
  freelist := h.freelist
  nodup := h.nodup
  loose := h.loose
  range := h.range
  leaf := by
    intro g j q k e hg he
    have hgf : g ≠ f := by
      rintro rfl
      rw [hf] at hg
      cases hg
    refine h.leaf g j q k e hg ?_
    rw [← he]
    exact (Lib.slotAt_update_of_ne hgf).symm

/-- `kfree` of a frame in range fills it with junk and puts it on the list. -/
theorem kfree_eq (h : Owned kend s root role hole loose) (hf : role f ≠ .other .kernel) :
    kfree kend s f = some { s.set f .junk with freelist := f :: s.freelist } := by
  have hrange := h.range f hf
  rw [kfree, if_neg (by omega)]

/-- A frame that is in use becomes free. -/
theorem kfree (h : Owned kend s root role hole loose) {loose' : List Nat} {hole' : Hole ι}
    (hforest : Forest 3 (Function.update s.mem f .junk) root (Function.update role f .free) hole')
    (hf : role f ≠ .other .kernel) (hused : role f ≠ .free)
    (hloose : ∀ g, g ∈ loose' ↔ Function.update role f .free g = .loose) :
    ∃ s', kfree kend s f = some s' ∧ s'.mem = Function.update s.mem f .junk ∧
      Owned kend s' root (Function.update role f .free) hole' loose' := by
  refine ⟨_, h.kfree_eq hf, rfl, ?_⟩
  refine h.assign hforest rfl ?_ (mem_cons_iff_update h.freelist) ?_ hloose hf
  · intro k
    exact Lib.slotAt_junk (Function.update_self ..)
  · exact List.nodup_cons.mpr ⟨fun hmem => hused ((h.freelist f).mp hmem), h.nodup⟩

/-- `kfree` of a frame from `kalloc` that is not in use yet. -/
theorem kfree_loose (h : Owned kend s root role hole (f :: loose)) (hf : f ∉ loose) :
    ∃ s', Kernel.kfree kend s f = some s' ∧ s'.mem = Function.update s.mem f .junk ∧
      Owned kend s' root (Function.update role f .free) hole loose := by
  have hrole : role f = .loose := (h.loose f).mp (List.mem_cons_self ..)
  exact h.kfree (h.forest.reuse (Or.inr hrole) trivial) (by rw [hrole]; simp)
    (by rw [hrole]; simp) (mem_tail_iff_update h.loose hf (by simp))

/-- `kfree` of a page, or of a table without entries; the pointer to it is left
    behind. -/
theorem kfree_place (h : Owned kend s root role none loose) (hf : role f = .place i p)
    (hempty : ∀ k, slotAt s.mem f k = none) :
    ∃ s', Kernel.kfree kend s f = some s' ∧ s'.mem = Function.update s.mem f .junk ∧
      Owned kend s' root (Function.update role f .free) (some (i, p)) loose := by
  have hjunk : ∀ k, slotAt (Function.update s.mem f .junk) f k = none := fun k =>
    Lib.slotAt_junk (Function.update_self ..)
  exact h.kfree (h.forest.release hf hempty hjunk trivial) (by rw [hf]; simp) (by rw [hf]; simp)
    (mem_iff_update h.loose (by rw [hf]; simp) (by simp))

end Owned

/-! ## Lookups -/

/-- The path of the lowest table that `walk` comes to from a table at path `p`. -/
def pathDown (va : Nat) : (level : Nat) → (p : List (Fin 512)) → List (Fin 512)
  | 0, p => p
  | level + 1, p => pathDown va level (px (level + 1) va :: p)

/-- The path of the lowest table on the way to `va`. -/
def tablePath (va : Nat) : List (Fin 512) := [px 1 va, px 2 va]

/-- The path of the page at `va`. -/
def leafPath (va : Nat) : List (Fin 512) := px 0 va :: tablePath va

theorem tablePath_lt : (tablePath va).length < 3 := Nat.lt_succ_self 2

namespace Phys

theorem set_of_ne (h : g ≠ f) : (s.set f x).mem g = s.mem g := Function.update_of_ne h ..

theorem set_eq_self (h : s.mem f = x) : s.set f x = s := by
  rw [set, ← h, Function.update_eq_self]

/-- A slot of a page table can be read. -/
theorem loadPte_eq (h : ∃ slot, s.mem g = .table slot) :
    s.loadPte g k = some (slotAt s.mem g k) := by
  obtain ⟨slot, hslot⟩ := h
  rw [loadPte, hslot, Lib.slotAt_table hslot]

theorem loadPage_eq {data : Page} (h : s.mem f = .page data) : s.loadPage f = some data := by
  rw [loadPage, h]

theorem storePage_eq {old : Page} (h : s.mem f = .page old) (data : Page) :
    s.storePage f data = some (s.set f (.page data)) := by
  rw [storePage, h]

theorem storePte_eq (pte : Option Pte) (h : ∃ slot, s.mem g = .table slot) :
    s.storePte g k pte = some { s with mem := setSlot s.mem g k pte } := by
  obtain ⟨slot, hslot⟩ := h
  rw [storePte, hslot]

end Phys

namespace Owned

/-- A frame above the leaves is a page table. -/
theorem table (h : Owned kend s root role hole loose) (hg : role g = .place i p)
    (hp : p.length < 3) : ∃ slot, s.mem g = .table slot :=
  h.forest.table g i p hg hp

/-- There are tables all the way up. -/
theorem above (h : Owned kend s root role hole loose) (level : Nat)
    (hf : role f = .place i (pathDown va level p)) : ∃ g, role g = .place i p := by
  induction level generalizing p with
  | zero => exact ⟨f, hf⟩
  | succ level ih =>
      obtain ⟨g, hg⟩ := ih hf
      obtain ⟨g', -, hg', -, -⟩ := h.forest.up g i _ hg
      exact ⟨g', hg'⟩

/-- `walk` without `alloc` finds the table, if there is one. -/
theorem walkFrom_find (h : Owned kend s root role hole loose) (hhole : Intact 3 hole i)
    {level : Nat} (hg : role g = .place i p) (hlevel : p.length + level = 2) :
    ∃ t : Option Nat, walkFrom va false level s g = some (s, t.map fun t => (t, px 0 va)) ∧
      ∀ f, t = some f ↔ role f = .place i (pathDown va level p) := by
  induction level generalizing g p with
  | zero =>
      refine ⟨some g, rfl, fun f => ?_⟩
      constructor
      · rintro ⟨⟩
        exact hg
      · intro hf
        rw [h.forest.place_unique hg hf]
  | succ level ih =>
      have hload := Phys.loadPte_eq (k := px (level + 1) va) (h.table hg (by omega))
      cases he : slotAt s.mem g (px (level + 1) va) with
      | none =>
          rw [he] at hload
          refine ⟨none, ?_, fun f => ?_⟩
          · simp only [walkFrom, hload, Option.bind_eq_bind, Option.bind_some]
            rfl
          · refine iff_of_false (by simp) fun hf => ?_
            obtain ⟨g', hg'⟩ := h.above level hf
            exact h.forest.no_place hg he hg'
      | some e =>
          rw [he] at hload
          have hlen : (px (level + 1) va :: p).length < 3 := by
            rw [List.length_cons]
            omega
          have hchild := h.forest.slot_table hhole hlen hg he
          obtain ⟨t, hwalk, ht⟩ := ih hchild (by rw [List.length_cons]; omega)
          refine ⟨t, ?_, ht⟩
          simp only [walkFrom, hload, Option.bind_eq_bind, Option.bind_some]
          exact hwalk

/-- The root has the empty path. -/
theorem root_role (h : Owned kend s root role hole loose) (hhole : Intact 3 hole i)
    (hr : root i = some r) : role r = .place i [] :=
  h.forest.root_role hhole (by decide) hr

/-- `walk` without `alloc` finds the last table on the way, if it is there. -/
theorem walk_find (h : Owned kend s root role hole loose) (hhole : Intact 3 hole i)
    (hr : root i = some r) (hva : va < maxva) :
    ∃ t : Option Nat, walk s r va false = some (s, t.map fun t => (t, px 0 va)) ∧
      ∀ f, t = some f ↔ role f = .place i (tablePath va) := by
  rw [walk, if_neg (Nat.not_le.mpr hva)]
  exact h.walkFrom_find hhole (h.root_role hhole hr) rfl

/-- `lookup` reads the entry of the page. -/
theorem lookup_eq (h : Owned kend s root role hole loose) (hhole : Intact 3 hole i)
    (hr : root i = some r) (hva : va < maxva) :
    lookup s r va = some (entry s.mem r (leafPath va)) := by
  obtain ⟨t, hwalk, ht⟩ := h.walk_find hhole hr hva
  have hentry : entry s.mem r (leafPath va) = t.bind fun t => slotAt s.mem t (px 0 va) := by
    rw [leafPath, entry]
    congr 1
    ext f
    rw [h.forest.nodeAt_eq hhole hr tablePath_lt, ht]
  cases t with
  | none =>
      rw [hentry, lookup, hwalk]
      rfl
  | some t =>
      have hload := Phys.loadPte_eq (k := px 0 va) (h.table ((ht t).mp rfl) tablePath_lt)
      rw [hentry, lookup, hwalk]
      exact hload

end Owned

/-! ## New entries -/

namespace Owned

variable {v : Option Pte} {hole' : Hole ι}

/-- A slot of a table is written. -/
theorem setSlot (h : Owned kend s root role hole loose) (hg : role g = .place i p)
    (hp : p.length < 3) (hforest : Forest 3 (setSlot s.mem g k v) root role hole')
    (hleaf : ∀ e, v = some e → (e.2.leaf = true ↔ p.length = 2)) :
    Owned kend { s with mem := Lib.setSlot s.mem g k v } root role hole' loose where
  forest := hforest
  freelist := h.freelist
  nodup := h.nodup
  loose := h.loose
  range := h.range
  leaf := by
    intro g' j q k' e hg' he
    by_cases hsame : g' = g ∧ k' = k
    · obtain ⟨rfl, rfl⟩ := hsame
      rw [hg] at hg'
      cases hg'
      obtain ⟨slot, hslot⟩ := h.table hg hp
      rw [Lib.slotAt_setSlot_self hslot] at he
      exact hleaf e he
    · rw [Lib.slotAt_setSlot_of_ne (by tauto)] at he
      exact h.leaf g' j q k' e hg' he

/-- The entry of a frame that is gone, or that is in use elsewhere too, is
    cleared. -/
theorem clear (h : Owned kend s root role hole loose) (hg : role g = .place i p)
    (hp : p.length < 3) (hnone : ∀ f, role f ≠ .place i (k :: p))
    (hhole : ∀ place, hole = some place → place = (i, k :: p) ∨ hole' = some place)
    (hhole' : ∀ place, hole' = some place → hole = some place) :
    Owned kend { s with mem := Lib.setSlot s.mem g k none } root role hole' loose := by
  refine h.setSlot hg hp (h.forest.clear hg hp hnone hhole hhole') ?_
  intro e he
  cases he

/-- A frame from `kalloc` gets an entry. -/
theorem link (h : Owned kend s root role none (f :: loose)) (flags : PteFlags) (hf : f ∉ loose)
    (hg : role g = .place i p) (hp : p.length < 3) (hnone : slotAt s.mem g k = none)
    (htable : (k :: p).length < 3 → s.mem f = .table fun _ => none)
    (hpage : ¬ (k :: p).length < 3 → ∃ data, s.mem f = .page data)
    (hleaf : flags.leaf = true ↔ p.length = 2) :
    Owned kend { s with mem := Lib.setSlot s.mem g k (some (f, flags)) } root
      (Function.update role f (.place i (k :: p))) none loose := by
  have hloose : role f = .loose := (h.loose f).mp (List.mem_cons_self ..)
  have hfg : f ≠ g := by
    rintro rfl
    rw [hg] at hloose
    cases hloose
  constructor
  · exact h.forest.link hg hp hnone hloose htable hpage
  · exact mem_iff_update h.freelist (by rw [hloose]; simp) (by simp)
  · exact h.nodup
  · exact mem_tail_iff_update h.loose hf (by simp)
  · intro g' hg'
    by_cases hgf : g' = f
    · rw [hgf]
      exact h.range f (by rw [hloose]; simp)
    · rw [Function.update_of_ne hgf] at hg'
      exact h.range g' hg'
  · intro g' j q k' e hg' he
    have hgf : g' ≠ f := by
      rintro rfl
      rw [Lib.slotAt_setSlot_of_ne (Or.inl hfg)] at he
      by_cases hlen : (k :: p).length < 3
      · rw [Lib.slotAt_table (htable hlen)] at he
        cases he
      · obtain ⟨data, hdata⟩ := hpage hlen
        rw [slotAt, hdata] at he
        cases he
    rw [Function.update_of_ne hgf] at hg'
    by_cases hsame : g' = g ∧ k' = k
    · obtain ⟨rfl, rfl⟩ := hsame
      rw [hg] at hg'
      cases hg'
      obtain ⟨slot, hslot⟩ := h.table hg hp
      rw [Lib.slotAt_setSlot_self hslot] at he
      cases he
      exact hleaf
    · rw [Lib.slotAt_setSlot_of_ne (by tauto)] at he
      exact h.leaf g' j q k' e hg' he

/-- A frame outside the page tables gets an entry. -/
theorem link_other (h : Owned kend s root role none loose) (flags : PteFlags) {w : Use}
    (hf : role f = .other w) (hg : role g = .place i p) (hp : p.length = 2)
    (hnone : slotAt s.mem g k = none)
    (hleaf : flags.leaf = true) :
    Owned kend { s with mem := Lib.setSlot s.mem g k (some (f, flags)) } root role none loose := by
  have hforest := h.forest.setSlot flags hg (by omega)
    (Or.inr ⟨hnone, by rw [List.length_cons]; omega, w, hf⟩)
  refine h.setSlot hg (by omega) hforest ?_
  rintro e ⟨⟩
  exact iff_of_true hleaf hp

end Owned

end PageTables

end G20OsLab.Kernel
