/-
  G20OsLab.Lib.LoadBalance

  Loads and how uneven they are.

  `spread load` is the greatest of the loads less the least, `squares load` the
  sum of their squares.  Adding one to a load that exceeds no other by more
  than one does not drive the spread above 2 (`spread_place_le`).  Taking one
  from a greatest load and giving it to a least one that is 2 or more below
  does not add to the spread (`Transfer.spread_le`) and takes from the squares
  (`Transfer.squares_lt`).
-/

import Mathlib.Algebra.BigOperators.Fin
import Mathlib.Data.Finset.Lattice.Fold
import Mathlib.Order.Lattice.Nat
import Mathlib.Tactic.Ring

namespace G20OsLab.Lib

variable {ι : Type _} [Fintype ι] {load load' : ι → Nat}

/-- The greatest load less the least: no two loads are further apart. -/
def spread (load : ι → Nat) : Nat :=
  Finset.univ.sup fun i => Finset.univ.sup fun j => load i - load j

/-- The sum of the squares of the loads. -/
def squares (load : ι → Nat) : Nat := ∑ i, load i ^ 2

/-- The spread is a bound on the differences. -/
theorem spread_le_iff {bound : Nat} : spread load ≤ bound ↔ ∀ i j, load i ≤ load j + bound := by
  simp only [spread, Finset.sup_le_iff, Finset.mem_univ, true_imp_iff, Nat.sub_le_iff_le_add']

theorem le_add_spread (load : ι → Nat) (i j : ι) : load i ≤ load j + spread load :=
  spread_le_iff.mp (Nat.le_refl _) i j

/-- The spread is that of the fullest and the emptiest. -/
theorem spread_eq {most least : ι} (hmost : ∀ i, load i ≤ load most)
    (hleast : ∀ i, load least ≤ load i) : spread load = load most - load least := by
  apply Nat.le_antisymm
  · rw [spread_le_iff]
    intro i j
    have hi := hmost i
    have hj := hleast j
    omega
  · have hspread := le_add_spread load most least
    omega

section Place

variable [DecidableEq ι]

/-- One more on a load that exceeds no other by more than one. -/
theorem spread_place_le {i : ι} (hi : ∀ j, load i ≤ load j + 1) :
    spread (Function.update load i (load i + 1)) ≤ max (spread load) 2 := by
  rw [spread_le_iff]
  intro j k
  have hgrows : load k ≤ Function.update load i (load i + 1) k := by
    by_cases hk : k = i
    · subst hk
      rw [Function.update_self]
      exact Nat.le_succ _
    · rw [Function.update_of_ne hk]
  by_cases hj : j = i
  · subst hj
    have hk := hi k
    rw [Function.update_self]
    omega
  · have hspread := le_add_spread load j k
    rw [Function.update_of_ne hj]
    omega

end Place

/-! ## Moving between two components -/

/-- A sum over all components, with those of `a` and `b` in front. -/
theorem sum_eq_pair_add {M : Type _} [AddCommMonoid M] [DecidableEq ι] {a b : ι} (hab : a ≠ b)
    (f : ι → M) : ∑ i, f i = f a + f b + ∑ i ∈ (Finset.univ.erase a).erase b, f i := by
  have hb : b ∈ Finset.univ.erase a := Finset.mem_erase.mpr ⟨hab.symm, Finset.mem_univ b⟩
  rw [← Finset.add_sum_erase _ f (Finset.mem_univ a), ← Finset.add_sum_erase _ f hb, add_assoc]

theorem sum_rest_congr {M : Type _} [AddCommMonoid M] [DecidableEq ι] {a b : ι} {f g : ι → M}
    (h : ∀ i, i ≠ a → i ≠ b → f i = g i) :
    ∑ i ∈ (Finset.univ.erase a).erase b, f i = ∑ i ∈ (Finset.univ.erase a).erase b, g i := by
  apply Finset.sum_congr rfl
  intro i hi
  rw [Finset.mem_erase, Finset.mem_erase] at hi
  exact h i hi.2.1 hi.1

/-- One unit goes from a greatest load to a least one, 2 or more below. -/
structure Transfer (load load' : ι → Nat) (heavy light : ι) : Prop where
  greatest : ∀ i, load i ≤ load heavy
  least : ∀ i, load light ≤ load i
  apart : load light + 2 ≤ load heavy
  taken : load' heavy + 1 = load heavy
  given : load' light = load light + 1
  other : ∀ i, i ≠ heavy → i ≠ light → load' i = load i

variable {heavy light : ι}

omit [Fintype ι] in
theorem Transfer.ne (h : Transfer load load' heavy light) : heavy ≠ light := by
  rintro rfl
  have hapart := h.apart
  omega

omit [Fintype ι] in
/-- Every load stays between the least and the greatest. -/
theorem Transfer.between [DecidableEq ι] (h : Transfer load load' heavy light) (i : ι) :
    load light ≤ load' i ∧ load' i ≤ load heavy := by
  have hapart := h.apart
  by_cases hheavy : i = heavy
  · have htaken := h.taken
    subst hheavy
    omega
  · by_cases hlight : i = light
    · have hgiven := h.given
      subst hlight
      omega
    · rw [h.other i hheavy hlight]
      exact ⟨h.least i, h.greatest i⟩

/-- A transfer does not widen the spread. -/
theorem Transfer.spread_le [DecidableEq ι] (h : Transfer load load' heavy light) :
    spread load' ≤ spread load := by
  rw [spread_eq h.greatest h.least, spread_le_iff]
  intro i j
  have hi := (h.between i).2
  have hj := (h.between j).1
  omega

/-- A transfer lowers the sum of the squares. -/
theorem Transfer.squares_lt [DecidableEq ι] (h : Transfer load load' heavy light) :
    squares load' < squares load := by
  rw [squares, squares, sum_eq_pair_add h.ne, sum_eq_pair_add h.ne,
    sum_rest_congr fun i hheavy hlight => by rw [h.other i hheavy hlight]]
  apply Nat.add_lt_add_right
  obtain ⟨gap, hgap⟩ := Nat.exists_eq_add_of_le h.apart
  have htaken : load' heavy = load light + 1 + gap := by
    have htaken := h.taken
    omega
  have hexpand : (load light + 2 + gap) ^ 2 + load light ^ 2 =
      (load light + 1 + gap) ^ 2 + (load light + 1) ^ 2 + 2 * (gap + 1) := by ring
  rw [h.given, htaken, hgap]
  omega

/-- What two components hold together may be shared out anew. -/
theorem sum_exchange {M : Type _} [AddCommMonoid M] [DecidableEq ι] {a b : ι} (hab : a ≠ b)
    {f g : ι → M} (hpair : f a + f b = g a + g b) (h : ∀ i, i ≠ a → i ≠ b → f i = g i) :
    ∑ i, f i = ∑ i, g i := by
  rw [sum_eq_pair_add hab, sum_eq_pair_add hab, hpair, sum_rest_congr h]

end G20OsLab.Lib
