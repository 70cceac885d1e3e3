/-
  G20OsLab.Lib.Forest

  Trees that live in one memory of frames.

  A frame holds a table, whose slots point to other frames, or a page.  Every
  tree `i` hangs from `root i`; its tables have paths shorter than `depth` and
  its pages paths of that length (a path lists the slots that lead to a frame,
  the last one first).  `role` says of each frame what it is in use for, and
  `Forest` that the pointers agree with it: a frame is at its place in one tree,
  the pointer to a place leads to the frame that has it.

  Freeing a frame leaves the pointer to it dangling for a moment.  The last
  argument of `Forest` is the place whose pointer may do so.

  A lookup in a tree depends on nothing but the tree's own frames
  (`Forest.entry_congr`).
-/

import Mathlib.Data.List.Basic
import Mathlib.Logic.Function.Basic

namespace G20OsLab.Lib

variable {φ ι κ π δ ω : Type _}

/-- What is in a frame; `junk` is anything. -/
inductive Frame (φ κ π δ : Type _)
  | junk
  | table (slot : κ → Option (φ × π))
  | page (data : δ)

/-- What a frame is in use for. -/
inductive Role (ι κ ω : Type _)
  | free
  /-- allocated and not yet in a tree -/
  | loose
  /-- at a place in a tree -/
  | place (tree : ι) (path : List κ)
  /-- outside the trees; pages of several trees may be the same such frame -/
  | other (use : ω)

/-- In no tree. -/
def Role.Unplaced : Role ι κ ω → Prop
  | .place _ _ => False
  | _ => True

/-- Slot `k` of frame `g`, if there is a table in it. -/
def slotAt (mem : φ → Frame φ κ π δ) (g : φ) (k : κ) : Option (φ × π) :=
  match mem g with
  | .table slot => slot k
  | _ => none

/-- Write slot `k` of the table in frame `g`. -/
def setSlot [DecidableEq φ] [DecidableEq κ] (mem : φ → Frame φ κ π δ) (g : φ) (k : κ)
    (v : Option (φ × π)) : φ → Frame φ κ π δ :=
  Function.update mem g <|
    match mem g with
    | .table slot => .table (Function.update slot k v)
    | content => content

section Slots

variable {mem : φ → Frame φ κ π δ} {f g : φ} {k j : κ}
variable {v : Option (φ × π)} {slot : κ → Option (φ × π)} {x : Frame φ κ π δ} {data : δ}

theorem slotAt_table (h : mem g = .table slot) : slotAt mem g k = slot k := by
  rw [slotAt, h]

theorem slotAt_junk (h : mem g = .junk) : slotAt mem g k = none := by
  rw [slotAt, h]

theorem slotAt_page (h : mem g = .page data) : slotAt mem g k = none := by
  rw [slotAt, h]

variable [DecidableEq φ]

theorem slotAt_update_of_ne (h : g ≠ f) :
    slotAt (Function.update mem f x) g k = slotAt mem g k := by
  rw [slotAt, slotAt, Function.update_of_ne h]

variable [DecidableEq κ]

theorem setSlot_table (h : mem g = .table slot) :
    setSlot mem g k v = Function.update mem g (.table (Function.update slot k v)) := by
  rw [setSlot, h]

theorem setSlot_of_ne (h : f ≠ g) : setSlot mem g k v f = mem f :=
  Function.update_of_ne h ..

theorem slotAt_setSlot_self (h : mem g = .table slot) : slotAt (setSlot mem g k v) g k = v := by
  rw [setSlot_table h, slotAt, Function.update_self]
  exact Function.update_self ..

theorem slotAt_setSlot_of_ne (h : f ≠ g ∨ j ≠ k) :
    slotAt (setSlot mem g k v) f j = slotAt mem f j := by
  by_cases hf : f = g
  · subst hf
    have hj : j ≠ k := h.resolve_left fun hne => hne rfl
    cases hmem : mem f with
    | table slot =>
        rw [setSlot_table hmem, slotAt, Function.update_self, slotAt_table hmem]
        exact Function.update_of_ne hj ..
    | junk => rw [setSlot, slotAt, Function.update_self, slotAt, hmem]
    | page data => rw [setSlot, slotAt, Function.update_self, slotAt, hmem]
  · rw [slotAt, setSlot_of_ne hf, slotAt]

end Slots

/-! ## Places -/

/-- There is a pointer to frame `f` for the given place. -/
def Linked (mem : φ → Frame φ κ π δ) (root : ι → Option φ) (role : φ → Role ι κ ω) (i : ι) :
    List κ → φ → Prop
  | [], f => root i = some f
  | k :: p, f => ∃ g e, role g = .place i p ∧ slotAt mem g k = some e ∧ e.1 = f

/-- The pointers agree with the roles, except for the pointer to `hole`. -/
structure Forest (depth : Nat) (mem : φ → Frame φ κ π δ) (root : ι → Option φ)
    (role : φ → Role ι κ ω) (hole : Option (ι × List κ)) : Prop where
  /-- the tables -/
  table : ∀ f i p, role f = .place i p → p.length < depth → ∃ slot, mem f = .table slot
  /-- the pages -/
  page : ∀ f i p, role f = .place i p → ¬ p.length < depth →
    p.length = depth ∧ ∃ data, mem f = .page data
  /-- a frame is where its role says -/
  up : ∀ f i p, role f = .place i p → Linked mem root role i p f
  /-- a pointer leads to the frame that has the place, or out of the trees -/
  down : ∀ f i p, Linked mem root role i p f →
    hole = some (i, p) ∨ role f = .place i p ∨ p.length = depth ∧ ∃ w, role f = .other w
  /-- nothing is at the place whose pointer may dangle -/
  vacant : ∀ f i p, hole = some (i, p) → role f ≠ .place i p

/-- The pointers to the tables of tree `i` do not dangle. -/
def Intact (depth : Nat) (hole : Option (ι × List κ)) (i : ι) : Prop :=
  ∀ q, hole = some (i, q) → depth ≤ q.length

section Places

variable {depth : Nat} {mem mem' : φ → Frame φ κ π δ} {root : ι → Option φ}
variable {role : φ → Role ι κ ω} {hole hole' : Option (ι × List κ)} {i : ι} {k : κ} {p q : List κ}
variable {f g r : φ} {e : φ × π} {flags : π} {data : δ} {x : Frame φ κ π δ} {b : Role ι κ ω}

theorem intact_none : Intact depth (none : Option (ι × List κ)) i := by
  intro q hq
  cases hq

namespace Forest

/-- A place has one frame. -/
theorem linked_unique (h : Forest depth mem root role hole) (hf : Linked mem root role i p f)
    (hg : Linked mem root role i p g) : f = g := by
  induction p generalizing f g with
  | nil => exact Option.some.inj (hf.symm.trans hg)
  | cons k p ih =>
      obtain ⟨f', e, hf', he, rfl⟩ := hf
      obtain ⟨g', e', hg', he', rfl⟩ := hg
      obtain rfl : f' = g' := ih (h.up f' i p hf') (h.up g' i p hg')
      rw [Option.some.inj (he.symm.trans he')]

theorem place_unique (h : Forest depth mem root role hole) (hf : role f = .place i p)
    (hg : role g = .place i p) : f = g :=
  h.linked_unique (h.up f i p hf) (h.up g i p hg)

/-- Only a table has slots. -/
theorem length_lt_of_slot (h : Forest depth mem root role hole) (hg : role g = .place i p)
    (he : slotAt mem g k = some e) : p.length < depth := by
  by_contra hp
  obtain ⟨-, data, hdata⟩ := h.page g i p hg hp
  rw [slotAt, hdata] at he
  cases he

/-- A slot of a table points to the frame at its place, or out of the trees. -/
theorem slot_role (h : Forest depth mem root role hole) (hhole : hole ≠ some (i, k :: p))
    (hg : role g = .place i p) (he : slotAt mem g k = some e) :
    role e.1 = .place i (k :: p) ∨ (k :: p).length = depth ∧ ∃ w, role e.1 = .other w :=
  (h.down e.1 i (k :: p) ⟨g, e, hg, he, rfl⟩).resolve_left hhole

/-- A slot of a table above the lowest ones points to a table. -/
theorem slot_table (h : Forest depth mem root role hole) (hhole : Intact depth hole i)
    (hp : (k :: p).length < depth) (hg : role g = .place i p) (he : slotAt mem g k = some e) :
    role e.1 = .place i (k :: p) := by
  have hne : hole ≠ some (i, k :: p) := fun hdangling =>
    absurd (hhole _ hdangling) (Nat.not_le.mpr hp)
  rcases h.slot_role hne hg he with hplace | ⟨hlen, -⟩
  · exact hplace
  · exact absurd hlen (Nat.ne_of_lt hp)

/-- The root of a tree has the empty path. -/
theorem root_role (h : Forest depth mem root role hole) (hhole : Intact depth hole i)
    (hdepth : 0 < depth) (hr : root i = some r) : role r = .place i [] := by
  rcases h.down r i [] hr with hdangling | hplace | ⟨hlen, -⟩
  · exact absurd (hhole _ hdangling) (Nat.not_le.mpr hdepth)
  · exact hplace
  · exact absurd hlen (Nat.ne_of_lt hdepth)

/-- There is no frame beyond an empty slot. -/
theorem no_place (h : Forest depth mem root role hole) (hg : role g = .place i p)
    (he : slotAt mem g k = none) : role f ≠ .place i (k :: p) := by
  intro hf
  obtain ⟨g', e, hg', he', -⟩ := h.up f i (k :: p) hf
  obtain rfl := h.place_unique hg hg'
  rw [he] at he'
  cases he'

/-! ### Lookups -/

/-- A tree that has a frame has a root. -/
theorem root_of_place (h : Forest depth mem root role hole) (hf : role f = .place i p) :
    ∃ r, root i = some r := by
  induction p generalizing f with
  | nil => exact ⟨f, h.up f i [] hf⟩
  | cons k p ih =>
      obtain ⟨g, -, hg, -⟩ := h.up f i (k :: p) hf
      exact ih hg

end Forest

/-- The frame at a path of tables from `r`. -/
def nodeAt (mem : φ → Frame φ κ π δ) (r : φ) : List κ → Option φ
  | [] => some r
  | k :: p => (nodeAt mem r p).bind fun g => (slotAt mem g k).map (·.1)

/-- The slot at a path from `r`. -/
def entry (mem : φ → Frame φ κ π δ) (r : φ) : List κ → Option (φ × π)
  | [] => none
  | k :: p => (nodeAt mem r p).bind fun g => slotAt mem g k

/-- A lookup reads slots only. -/
theorem entry_of_slots (hslot : ∀ g k, slotAt mem' g k = slotAt mem g k) :
    entry mem' r p = entry mem r p := by
  have hnode : ∀ p, nodeAt mem' r p = nodeAt mem r p := by
    intro p
    induction p with
    | nil => rfl
    | cons k p ih =>
        rw [nodeAt, nodeAt, ih]
        simp only [hslot]
  cases p with
  | nil => rfl
  | cons k p =>
      rw [entry, entry, hnode]
      simp only [hslot]

namespace Forest

theorem nodeAt_eq (h : Forest depth mem root role hole) (hhole : Intact depth hole i)
    (hr : root i = some r) (hp : p.length < depth) :
    nodeAt mem r p = some g ↔ role g = .place i p := by
  induction p generalizing g with
  | nil =>
      have hdown := h.root_role hhole hp hr
      constructor
      · intro hg
        rw [← Option.some.inj hg, hdown]
      · intro hg
        rw [nodeAt, h.place_unique hdown hg]
  | cons k p ih =>
      have hp' : p.length < depth := Nat.lt_of_succ_lt hp
      simp only [nodeAt, Option.bind_eq_some_iff, Option.map_eq_some_iff, ih hp']
      constructor
      · rintro ⟨g', hg', e, he, rfl⟩
        exact h.slot_table hhole hp hg' he
      · intro hg
        obtain ⟨g', e, hg', he, rfl⟩ := h.up g i (k :: p) hg
        exact ⟨g', hg', e, he, rfl⟩

theorem entry_eq_some (h : Forest depth mem root role hole) (hhole : Intact depth hole i)
    (hr : root i = some r) (hp : p.length < depth) :
    entry mem r (k :: p) = some e ↔ ∃ g, role g = .place i p ∧ slotAt mem g k = some e := by
  simp only [entry, Option.bind_eq_some_iff, h.nodeAt_eq hhole hr hp]

theorem entry_of_place (h : Forest depth mem root role hole) (hhole : Intact depth hole i)
    (hr : root i = some r) (hp : p.length < depth) (hg : role g = .place i p) :
    entry mem r (k :: p) = slotAt mem g k := by
  rw [entry, (h.nodeAt_eq hhole hr hp).mpr hg]
  rfl

theorem nodeAt_congr (h : Forest depth mem root role hole) (hhole : Intact depth hole i)
    (hr : root i = some r) (hsame : ∀ f p, role f = .place i p → mem' f = mem f)
    (hp : p.length ≤ depth) :
    nodeAt mem' r p = nodeAt mem r p := by
  induction p with
  | nil => rfl
  | cons k p ih =>
      have hp' : p.length < depth := hp
      rw [nodeAt, nodeAt, ih (Nat.le_of_lt hp')]
      refine Option.bind_congr fun g hg => ?_
      have hplace := (h.nodeAt_eq hhole hr hp').mp hg
      rw [slotAt, hsame g p hplace, slotAt]

/-- A lookup depends on the frames of the tree only. -/
theorem entry_congr (h : Forest depth mem root role hole) (hhole : Intact depth hole i)
    (hr : root i = some r) (hsame : ∀ f p, role f = .place i p → mem' f = mem f)
    (hp : p.length ≤ depth) :
    entry mem' r p = entry mem r p := by
  cases p with
  | nil => rfl
  | cons k p =>
      have hp' : p.length < depth := hp
      rw [entry, entry, h.nodeAt_congr hhole hr hsame (Nat.le_of_lt hp')]
      refine Option.bind_congr fun g hg => ?_
      have hplace := (h.nodeAt_eq hhole hr hp').mp hg
      rw [slotAt, hsame g p hplace, slotAt]

end Forest

/-! ## Changes -/

section Changes

variable [DecidableEq φ]

/-- What a frame without slots is in use for says nothing of the pointers. -/
theorem linked_update_role (hempty : ∀ k, slotAt mem f k = none) :
    Linked mem root (Function.update role f b) i p g ↔ Linked mem root role i p g := by
  cases p with
  | nil => exact Iff.rfl
  | cons k p =>
      have hne : ∀ g' e, slotAt mem g' k = some e → g' ≠ f := by
        rintro g' e he rfl
        rw [hempty k] at he
        cases he
      constructor
      · rintro ⟨g', e, hg', he, hge⟩
        rw [Function.update_of_ne (hne g' e he)] at hg'
        exact ⟨g', e, hg', he, hge⟩
      · rintro ⟨g', e, hg', he, hge⟩
        exact ⟨g', e, by rw [Function.update_of_ne (hne g' e he), hg'], he, hge⟩

/-- A frame outside the trees is at no place after the change. -/
theorem place_of_update_unplaced (hb : b.Unplaced) (hg : Function.update role f b g = .place i p) :
    g ≠ f ∧ role g = .place i p := by
  by_cases hgf : g = f
  · rw [hgf, Function.update_self] at hg
    rw [hg] at hb
    exact hb.elim
  · rw [Function.update_of_ne hgf] at hg
    exact ⟨hgf, hg⟩

/-- A frame is at a place that is new, or at the place where it was. -/
theorem place_of_update_place {j : ι}
    (hg : Function.update role f (.place i p) g = .place j q) :
    g = f ∧ j = i ∧ q = p ∨ g ≠ f ∧ role g = .place j q := by
  by_cases hgf : g = f
  · rw [hgf, Function.update_self] at hg
    cases hg
    exact Or.inl ⟨hgf, rfl, rfl⟩
  · rw [Function.update_of_ne hgf] at hg
    exact Or.inr ⟨hgf, hg⟩

namespace Forest

/-- A frame outside the trees gets another use and another content; a pointer
    that leads to it dangles from then on. -/
theorem reassign (h : Forest depth mem root role hole) (hf : (role f).Unplaced)
    (hb : b.Unplaced) (honly : ∀ i p, Linked mem root role i p f → hole' = some (i, p))
    (hhole : ∀ place, hole = some place → hole' = some place)
    (hvacant : ∀ g i p, hole' = some (i, p) → role g ≠ .place i p) :
    Forest depth (Function.update mem f x) root (Function.update role f b) hole' := by
  have hne : ∀ g i p, role g = .place i p → g ≠ f := by
    rintro g i p hg rfl
    rw [hg] at hf
    exact hf
  -- pointers are in frames of the trees, which `f` is not
  have hlink : ∀ g i p, Linked (Function.update mem f x) root (Function.update role f b) i p g ↔
      Linked mem root role i p g := by
    intro g i p
    cases p with
    | nil => exact Iff.rfl
    | cons k p =>
        constructor
        · rintro ⟨g', e, hg', he, hfe⟩
          obtain ⟨hgf, hg'⟩ := place_of_update_unplaced hb hg'
          rw [slotAt_update_of_ne hgf] at he
          exact ⟨g', e, hg', he, hfe⟩
        · rintro ⟨g', e, hg', he, hfe⟩
          have hgf := hne g' i p hg'
          exact ⟨g', e, by rw [Function.update_of_ne hgf, hg'],
            by rw [slotAt_update_of_ne hgf, he], hfe⟩
  constructor
  · intro g i p hg hp
    obtain ⟨hgf, hg⟩ := place_of_update_unplaced hb hg
    rw [Function.update_of_ne hgf]
    exact h.table g i p hg hp
  · intro g i p hg hp
    obtain ⟨hgf, hg⟩ := place_of_update_unplaced hb hg
    rw [Function.update_of_ne hgf]
    exact h.page g i p hg hp
  · intro g i p hg
    exact (hlink g i p).mpr (h.up g i p (place_of_update_unplaced hb hg).2)
  · intro g i p hlinked
    rw [hlink] at hlinked
    by_cases hgf : g = f
    · rw [hgf] at hlinked
      exact Or.inl (honly i p hlinked)
    · rw [Function.update_of_ne hgf]
      exact (h.down g i p hlinked).imp_left (hhole (i, p))
  · intro g i p hdangling hg
    exact hvacant g i p hdangling (place_of_update_unplaced hb hg).2

/-- A free or a loose frame gets another use and another content. -/
theorem reuse (h : Forest depth mem root role hole) (hf : role f = .free ∨ role f = .loose)
    (hb : b.Unplaced) :
    Forest depth (Function.update mem f x) root (Function.update role f b) hole := by
  have hunplaced : (role f).Unplaced := by
    rcases hf with hf | hf <;> rw [hf] <;> trivial
  refine h.reassign hunplaced hb ?_ (fun _ hplace => hplace) h.vacant
  intro i p hlinked
  rcases h.down f i p hlinked with hdangling | hplace | ⟨-, w, hw⟩
  · exact hdangling
  · rcases hf with hf | hf <;> rw [hf] at hplace <;> cases hplace
  · rcases hf with hf | hf <;> rw [hf] at hw <;> cases hw

/-- The content of a page changes. -/
theorem write (h : Forest depth mem root role hole) (hf : role f = .place i p)
    (hp : p.length = depth) :
    Forest depth (Function.update mem f (.page data)) root role hole := by
  have hpage : ∃ old, mem f = .page old := (h.page f i p hf (by omega)).2
  obtain ⟨old, hold⟩ := hpage
  have hslot : ∀ g k, slotAt (Function.update mem f (.page data)) g k = slotAt mem g k := by
    intro g k
    by_cases hgf : g = f
    · rw [hgf, slotAt, Function.update_self, slotAt, hold]
    · exact slotAt_update_of_ne hgf
  have hlink : ∀ g i p, Linked (Function.update mem f (.page data)) root role i p g ↔
      Linked mem root role i p g := by
    intro g i p
    cases p with
    | nil => exact Iff.rfl
    | cons k p => simp only [Linked, hslot]
  constructor
  · intro g j q hg hq
    have hgf : g ≠ f := by
      rintro rfl
      rw [hf] at hg
      cases hg
      omega
    rw [Function.update_of_ne hgf]
    exact h.table g j q hg hq
  · intro g j q hg hq
    by_cases hgf : g = f
    · subst hgf
      exact ⟨(h.page g j q hg hq).1, data, Function.update_self ..⟩
    · rw [Function.update_of_ne hgf]
      exact h.page g j q hg hq
  · intro g j q hg
    exact (hlink g j q).mpr (h.up g j q hg)
  · intro g j q hlinked
    exact h.down g j q ((hlink g j q).mp hlinked)
  · exact h.vacant

/-- A frame of a tree is freed that leads to no other. -/
theorem release (h : Forest depth mem root role none) (hf : role f = .place i p)
    (hempty : ∀ k, slotAt mem f k = none) (hx : ∀ k, slotAt (Function.update mem f x) f k = none)
    (hb : b.Unplaced) :
    Forest depth (Function.update mem f x) root (Function.update role f b) (some (i, p)) := by
  have hslot : ∀ g k, slotAt (Function.update mem f x) g k = slotAt mem g k := by
    intro g k
    by_cases hgf : g = f
    · rw [hgf, hx, hempty]
    · exact slotAt_update_of_ne hgf
  -- the frame has no slots before or after, so no pointer changes
  have hlink : ∀ g j q,
      Linked (Function.update mem f x) root (Function.update role f b) j q g ↔
        Linked mem root role j q g := by
    intro g j q
    rw [linked_update_role hx]
    cases q with
    | nil => exact Iff.rfl
    | cons k q => simp only [Linked, hslot]
  constructor
  · intro g j q hg hq
    obtain ⟨hgf, hg⟩ := place_of_update_unplaced hb hg
    rw [Function.update_of_ne hgf]
    exact h.table g j q hg hq
  · intro g j q hg hq
    obtain ⟨hgf, hg⟩ := place_of_update_unplaced hb hg
    rw [Function.update_of_ne hgf]
    exact h.page g j q hg hq
  · intro g j q hg
    exact (hlink g j q).mpr (h.up g j q (place_of_update_unplaced hb hg).2)
  · intro g j q hlinked
    rcases h.down g j q ((hlink g j q).mp hlinked) with hole | hplace | ⟨hlen, w, hw⟩
    · cases hole
    · by_cases hgf : g = f
      · subst hgf
        rw [hf] at hplace
        -- the pointer to the frame is the one that dangles
        cases hplace
        exact Or.inl rfl
      · exact Or.inr (Or.inl (by rw [Function.update_of_ne hgf, hplace]))
    · have hgf : g ≠ f := by
        rintro rfl
        rw [hf] at hw
        cases hw
      exact Or.inr (Or.inr ⟨hlen, w, by rw [Function.update_of_ne hgf, hw]⟩)
  · intro g j q hvacant hg
    obtain ⟨rfl, rfl⟩ := Prod.mk.injEq .. ▸ Option.some.inj hvacant
    obtain ⟨hgf, hg⟩ := place_of_update_unplaced hb hg
    exact hgf (h.place_unique hg hf)

/-- A new tree. -/
theorem plant [DecidableEq ι] (h : Forest depth mem root role none) (hroot : root i = none)
    (hf : role f = .loose) (htable : mem f = .table fun _ => none) (hdepth : 0 < depth) :
    Forest depth mem (Function.update root i (some f))
      (Function.update role f (.place i [])) none := by
  have hempty : ∀ k, slotAt mem f k = none := fun k => by rw [slotAt, htable]
  -- without a root the tree has no frame
  have hnone : ∀ x q, role x ≠ .place i q := by
    intro x q hx
    obtain ⟨r, hr⟩ := h.root_of_place hx
    rw [hroot] at hr
    cases hr
  have hroots : ∀ {j}, j ≠ i → Function.update root i (some f) j = root j := fun hj =>
    Function.update_of_ne hj ..
  have hlink : ∀ x j q, ¬ (j = i ∧ q = []) →
      (Linked mem (Function.update root i (some f)) (Function.update role f (.place i [])) j q x ↔
        Linked mem root role j q x) := by
    intro x j q hjq
    rw [linked_update_role hempty]
    cases q with
    | nil =>
        have hj : j ≠ i := fun hj => hjq ⟨hj, rfl⟩
        simp only [Linked, hroots hj]
    | cons k q => exact Iff.rfl
  constructor
  · intro x j q hx hq
    rcases place_of_update_place hx with ⟨rfl, -, -⟩ | ⟨-, hx⟩
    · exact ⟨_, htable⟩
    · exact h.table x j q hx hq
  · intro x j q hx hq
    rcases place_of_update_place hx with ⟨-, -, rfl⟩ | ⟨-, hx⟩
    · exact absurd hdepth hq
    · exact h.page x j q hx hq
  · intro x j q hx
    rcases place_of_update_place hx with ⟨rfl, rfl, rfl⟩ | ⟨-, hold⟩
    · exact Function.update_self ..
    · refine (hlink x j q ?_).mpr (h.up x j q hold)
      rintro ⟨rfl, rfl⟩
      exact hnone x [] hold
  · intro x j q hlinked
    -- the root, or a pointer that was there before
    by_cases hjq : j = i ∧ q = []
    · obtain ⟨rfl, rfl⟩ := hjq
      have hx : some f = some x := by
        rw [Linked, Function.update_self] at hlinked
        exact hlinked
      cases hx
      exact Or.inr (Or.inl (Function.update_self ..))
    · have hxf : ∀ {r}, role x = r → r ≠ .loose → x ≠ f := by
        rintro r hr hne rfl
        exact hne (hr.symm.trans hf)
      rcases h.down x j q ((hlink x j q hjq).mp hlinked) with hole | hplace | ⟨hlen, w, hw⟩
      · cases hole
      · have hne := hxf hplace (by simp)
        exact Or.inr (Or.inl (by rw [Function.update_of_ne hne, hplace]))
      · have hne := hxf hw (by simp)
        exact Or.inr (Or.inr ⟨hlen, w, by rw [Function.update_of_ne hne, hw]⟩)
  · intro x j q hvacant
    cases hvacant

omit [DecidableEq φ] in
/-- A tree is gone with its root. -/
theorem uproot [DecidableEq ι] (h : Forest depth mem root role (some (i, []))) :
    Forest depth mem (Function.update root i none) role none where
  table := h.table
  page := h.page
  up := by
    intro x j q hx
    have hlinked := h.up x j q hx
    cases q with
    | nil =>
        have hj : j ≠ i := by
          rintro rfl
          exact h.vacant x j [] rfl hx
        rwa [Linked, Function.update_of_ne hj]
    | cons k q => exact hlinked
  down := by
    intro x j q hlinked
    -- the one pointer that goes is the one from outside
    have hold : Linked mem root role j q x ∧ ¬ (j = i ∧ q = []) := by
      cases q with
      | nil =>
          by_cases hj : j = i
          · rw [hj, Linked, Function.update_self] at hlinked
            cases hlinked
          · rw [Linked, Function.update_of_ne hj] at hlinked
            exact ⟨hlinked, fun h => hj h.1⟩
      | cons k q => exact ⟨hlinked, by simp⟩
    rcases h.down x j q hold.1 with hole | hrest
    · cases hole
      exact absurd ⟨rfl, rfl⟩ hold.2
    · exact Or.inr hrest
  vacant := by
    intro x j q hvacant
    cases hvacant

variable [DecidableEq κ] {v : Option (φ × π)} {j : ι}

/-- Writing a slot changes the pointer to its place. -/
theorem linked_setSlot_self (h : Forest depth mem root role hole) (hg : role g = .place i p)
    (hp : p.length < depth) :
    Linked (setSlot mem g k v) root role i (k :: p) f ↔ ∃ e, v = some e ∧ e.1 = f := by
  obtain ⟨slot, hslot⟩ := h.table g i p hg hp
  constructor
  · rintro ⟨g', e, hg', he, hf⟩
    obtain rfl := h.place_unique hg' hg
    rw [slotAt_setSlot_self hslot] at he
    exact ⟨e, he, hf⟩
  · rintro ⟨e, rfl, hf⟩
    exact ⟨g, e, hg, slotAt_setSlot_self hslot, hf⟩

/-- It changes no other pointer. -/
theorem linked_setSlot_of_ne (hg : role g = .place i p) (hne : ¬ (j = i ∧ q = k :: p)) :
    Linked (setSlot mem g k v) root role j q f ↔ Linked mem root role j q f := by
  cases q with
  | nil => exact Iff.rfl
  | cons k' q =>
      have hslot : ∀ g', role g' = .place j q →
          slotAt (setSlot mem g k v) g' k' = slotAt mem g' k' := by
        intro g' hg'
        apply slotAt_setSlot_of_ne
        by_contra hboth
        rw [not_or, not_not, not_not] at hboth
        obtain ⟨rfl, rfl⟩ := hboth
        rw [hg] at hg'
        cases hg'
        exact hne ⟨rfl, rfl⟩
      constructor
      · rintro ⟨g', e, hg', he, hf⟩
        rw [hslot g' hg'] at he
        exact ⟨g', e, hg', he, hf⟩
      · rintro ⟨g', e, hg', he, hf⟩
        exact ⟨g', e, hg', by rw [hslot g' hg', he], hf⟩

theorem table_setSlot (h : ∃ slot, mem f = .table slot) :
    ∃ slot, setSlot mem g k v f = .table slot := by
  obtain ⟨slot, hslot⟩ := h
  by_cases hfg : f = g
  · subst hfg
    exact ⟨_, by rw [setSlot_table hslot, Function.update_self]⟩
  · exact ⟨slot, by rw [setSlot_of_ne hfg, hslot]⟩

theorem page_setSlot (h : ∃ data, mem f = .page data) :
    ∃ data, setSlot mem g k v f = .page data := by
  obtain ⟨data, hdata⟩ := h
  by_cases hfg : f = g
  · subst hfg
    exact ⟨data, by rw [setSlot, Function.update_self, hdata]⟩
  · exact ⟨data, by rw [setSlot_of_ne hfg, hdata]⟩

/-- The pointer to a place that no frame has is cleared. -/
theorem clear (h : Forest depth mem root role hole) (hg : role g = .place i p)
    (hp : p.length < depth) (hnone : ∀ f, role f ≠ .place i (k :: p))
    (hhole : ∀ place, hole = some place → place = (i, k :: p) ∨ hole' = some place)
    (hhole' : ∀ place, hole' = some place → hole = some place) :
    Forest depth (setSlot mem g k none) root role hole' where
  table := fun f i p hf hp => table_setSlot (h.table f i p hf hp)
  page := fun f i p hf hp => ⟨(h.page f i p hf hp).1, page_setSlot (h.page f i p hf hp).2⟩
  up := by
    intro f j q hf
    have hne : ¬ (j = i ∧ q = k :: p) := by
      rintro ⟨rfl, rfl⟩
      exact hnone f hf
    exact (linked_setSlot_of_ne hg hne).mpr (h.up f j q hf)
  down := by
    intro f j q hlinked
    by_cases hjq : j = i ∧ q = k :: p
    · obtain ⟨rfl, rfl⟩ := hjq
      obtain ⟨e, he, -⟩ := (h.linked_setSlot_self hg hp).mp hlinked
      cases he
    · rcases h.down f j q ((linked_setSlot_of_ne hg hjq).mp hlinked) with hdangling | hrest
      · rcases hhole _ hdangling with hplace | hsame
        · cases hplace
          exact absurd ⟨rfl, rfl⟩ hjq
        · exact Or.inl hsame
      · exact Or.inr hrest
  vacant := fun f j q hvacant => h.vacant f j q (hhole' _ hvacant)

/-- An allocated frame without slots is put at a place. -/
theorem link (h : Forest depth mem root role none) (hg : role g = .place i p)
    (hp : p.length < depth) (hnone : slotAt mem g k = none) (hf : role f = .loose)
    (htable : (k :: p).length < depth → mem f = .table fun _ => none)
    (hpage : ¬ (k :: p).length < depth → ∃ data, mem f = .page data) :
    Forest depth (setSlot mem g k (some (f, flags))) root
      (Function.update role f (.place i (k :: p))) none := by
  have hfg : f ≠ g := by
    rintro rfl
    rw [hf] at hg
    cases hg
  -- the new frame has no slots yet, so it adds one pointer only
  have hempty : ∀ k', slotAt (setSlot mem g k (some (f, flags))) f k' = none := by
    intro k'
    rw [slotAt, setSlot_of_ne hfg]
    by_cases hlt : (k :: p).length < depth
    · rw [htable hlt]
    · obtain ⟨data, hdata⟩ := hpage hlt
      rw [hdata]
  constructor
  · intro x j q hx hq
    apply table_setSlot
    rcases place_of_update_place hx with ⟨rfl, rfl, rfl⟩ | ⟨-, hx⟩
    · exact ⟨_, htable hq⟩
    · exact h.table x j q hx hq
  · intro x j q hx hq
    rcases place_of_update_place hx with ⟨rfl, rfl, rfl⟩ | ⟨-, hx⟩
    · refine ⟨?_, page_setSlot (hpage hq)⟩
      have hlen : (k :: p).length ≤ depth := hp
      omega
    · exact ⟨(h.page x j q hx hq).1, page_setSlot (h.page x j q hx hq).2⟩
  · intro x j q hx
    rw [linked_update_role hempty]
    rcases place_of_update_place hx with ⟨rfl, rfl, rfl⟩ | ⟨-, hold⟩
    · exact (h.linked_setSlot_self hg hp).mpr ⟨_, rfl, rfl⟩
    -- no other frame has the new place, as the slot was empty
    · refine (linked_setSlot_of_ne hg ?_).mpr (h.up x j q hold)
      rintro ⟨rfl, rfl⟩
      exact h.no_place hg hnone hold
  · intro x j q hlinked
    rw [linked_update_role hempty] at hlinked
    by_cases hjq : j = i ∧ q = k :: p
    · obtain ⟨rfl, rfl⟩ := hjq
      obtain ⟨e, he, rfl⟩ := (h.linked_setSlot_self hg hp).mp hlinked
      cases he
      exact Or.inr (Or.inl (Function.update_self ..))
    · rcases h.down x j q ((linked_setSlot_of_ne hg hjq).mp hlinked) with hole | hplace | hother
      · cases hole
      · have hxf : x ≠ f := by
          rintro rfl
          rw [hf] at hplace
          cases hplace
        exact Or.inr (Or.inl (by rw [Function.update_of_ne hxf, hplace]))
      · obtain ⟨hlen, w, hw⟩ := hother
        have hxf : x ≠ f := by
          rintro rfl
          rw [hf] at hw
          cases hw
        exact Or.inr (Or.inr ⟨hlen, w, by rw [Function.update_of_ne hxf, hw]⟩)
  · intro x j q hvacant
    cases hvacant

/-- A slot is written that does not lead to another frame of the trees: it
    points out of the trees, or where it pointed before. -/
theorem setSlot (h : Forest depth mem root role none) (flags : π) (hg : role g = .place i p)
    (hp : p.length < depth)
    (hold : (∃ e, slotAt mem g k = some e ∧ e.1 = f) ∨
      slotAt mem g k = none ∧ (k :: p).length = depth ∧ ∃ w, role f = .other w) :
    Forest depth (Lib.setSlot mem g k (some (f, flags))) root role none where
  table := fun f i p hf hp => table_setSlot (h.table f i p hf hp)
  page := fun f i p hf hp => ⟨(h.page f i p hf hp).1, page_setSlot (h.page f i p hf hp).2⟩
  up := by
    intro x j q hx
    by_cases hjq : j = i ∧ q = k :: p
    · obtain ⟨rfl, rfl⟩ := hjq
      refine (h.linked_setSlot_self hg hp).mpr ⟨_, rfl, ?_⟩
      rcases hold with ⟨e, he, rfl⟩ | ⟨hnone, -⟩
      · have hlinked : Linked mem root role j (k :: p) e.1 := ⟨g, e, hg, he, rfl⟩
        exact h.linked_unique hlinked (h.up x j _ hx)
      · exact absurd hx (h.no_place hg hnone)
    · exact (linked_setSlot_of_ne hg hjq).mpr (h.up x j q hx)
  down := by
    intro x j q hlinked
    by_cases hjq : j = i ∧ q = k :: p
    · obtain ⟨rfl, rfl⟩ := hjq
      obtain ⟨e, he, rfl⟩ := (h.linked_setSlot_self hg hp).mp hlinked
      cases he
      rcases hold with ⟨e, he, rfl⟩ | ⟨-, hlen, hother⟩
      · exact h.down e.1 j _ ⟨g, e, hg, he, rfl⟩
      · exact Or.inr (Or.inr ⟨hlen, hother⟩)
    · exact h.down x j q ((linked_setSlot_of_ne hg hjq).mp hlinked)
  vacant := fun f i p hvacant => h.vacant f i p hvacant

end Forest

end Changes

end Places

/-! ## Names of trees -/

/-- Tree `i` is called `σ i`. -/
def Role.rename {ι' : Type _} (σ : ι → ι') : Role ι κ ω → Role ι' κ ω
  | .free => .free
  | .loose => .loose
  | .place i p => .place (σ i) p
  | .other w => .other w

section Rename

variable {ι' : Type _} {σ : ι → ι'} {depth : Nat} {mem : φ → Frame φ κ π δ}
variable {root : ι → Option φ} {root' : ι' → Option φ} {role : φ → Role ι κ ω}
variable {role' : φ → Role ι' κ ω} {b : Role ι κ ω} {i : ι} {j : ι'} {p : List κ} {f : φ} {w : ω}

namespace Role

theorem rename_eq_free : b.rename σ = .free ↔ b = .free := by
  cases b <;> simp [rename]

theorem rename_eq_loose : b.rename σ = .loose ↔ b = .loose := by
  cases b <;> simp [rename]

theorem rename_eq_other : b.rename σ = .other w ↔ b = .other w := by
  cases b <;> simp [rename]

theorem exists_of_rename_place (h : b.rename σ = .place j p) : ∃ i, σ i = j ∧ b = .place i p := by
  cases b with
  | place i q =>
      cases h
      exact ⟨i, rfl, rfl⟩
  | free | loose | other w => cases h

theorem rename_eq_place (hσ : Function.Injective σ) :
    b.rename σ = .place (σ i) p ↔ b = .place i p := by
  constructor
  · intro h
    obtain ⟨i', hi, hb⟩ := exists_of_rename_place h
    rw [hb, hσ hi]
  · rintro rfl
    rfl

end Role

theorem linked_rename (hσ : Function.Injective σ) (hroot : ∀ i, root' (σ i) = root i) :
    Linked mem root' (fun f => (role f).rename σ) (σ i) p f ↔ Linked mem root role i p f := by
  cases p with
  | nil => rw [Linked, Linked, hroot]
  | cons k p => simp only [Linked, Role.rename_eq_place hσ]

/-- A pointer of a tree that has no old name. -/
theorem exists_of_linked_rename (hout : ∀ j, (∀ i, σ i ≠ j) → root' j = none)
    (h : Linked mem root' (fun f => (role f).rename σ) j p f) : ∃ i, σ i = j := by
  cases p with
  | nil =>
      by_contra hnot
      rw [not_exists] at hnot
      rw [Linked, hout j hnot] at h
      cases h
  | cons k p =>
      obtain ⟨g, e, hg, -, -⟩ := h
      obtain ⟨i, hi, -⟩ := Role.exists_of_rename_place hg
      exact ⟨i, hi⟩

namespace Forest

/-- The names of the trees do not matter, if they stay different. -/
theorem rename (hσ : Function.Injective σ) (hroot : ∀ i, root' (σ i) = root i)
    (hout : ∀ j, (∀ i, σ i ≠ j) → root' j = none) :
    Forest depth mem root' (fun f => (role f).rename σ) none ↔ Forest depth mem root role none := by
  constructor
  · intro h
    constructor
    · intro f i p hf
      exact h.table f (σ i) p ((Role.rename_eq_place hσ).mpr hf)
    · intro f i p hf
      exact h.page f (σ i) p ((Role.rename_eq_place hσ).mpr hf)
    · intro f i p hf
      exact (linked_rename hσ hroot).mp (h.up f (σ i) p ((Role.rename_eq_place hσ).mpr hf))
    · intro f i p hlinked
      have hdown := h.down f (σ i) p ((linked_rename hσ hroot).mpr hlinked)
      simpa only [reduceCtorEq, Role.rename_eq_place hσ, Role.rename_eq_other] using hdown
    · intro f i p hvacant
      cases hvacant
  · intro h
    constructor
    · intro f j p hf
      obtain ⟨i, rfl, hold⟩ := Role.exists_of_rename_place hf
      exact h.table f i p hold
    · intro f j p hf
      obtain ⟨i, rfl, hold⟩ := Role.exists_of_rename_place hf
      exact h.page f i p hold
    · intro f j p hf
      obtain ⟨i, rfl, hold⟩ := Role.exists_of_rename_place hf
      exact (linked_rename hσ hroot).mpr (h.up f i p hold)
    · intro f j p hlinked
      obtain ⟨i, rfl⟩ := exists_of_linked_rename hout hlinked
      have hdown := h.down f i p ((linked_rename hσ hroot).mp hlinked)
      simpa only [reduceCtorEq, Role.rename_eq_place hσ, Role.rename_eq_other] using hdown
    · intro f j p hvacant
      cases hvacant

/-- Only trees that have a root need a name. -/
theorem exists_rename (h : Forest depth mem root' role' none)
    (hout : ∀ j, (∀ i, σ i ≠ j) → root' j = none) :
    ∃ role : φ → Role ι κ ω, role' = fun f => (role f).rename σ := by
  have hrole : ∀ f, ∃ b : Role ι κ ω, b.rename σ = role' f := by
    intro f
    cases hf : role' f with
    | free => exact ⟨.free, rfl⟩
    | loose => exact ⟨.loose, rfl⟩
    | other w => exact ⟨.other w, rfl⟩
    | place j p =>
        obtain ⟨r, hr⟩ := h.root_of_place hf
        obtain ⟨i, rfl⟩ : ∃ i, σ i = j := by
          by_contra hnot
          rw [hout j fun i hi => hnot ⟨i, hi⟩] at hr
          cases hr
        exact ⟨.place i p, rfl⟩
  choose role hrole using hrole
  exact ⟨role, funext fun f => (hrole f).symm⟩

end Forest

end Rename

end G20OsLab.Lib
