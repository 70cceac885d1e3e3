/-
  G20OsLab.Lib.Pointwise

  Tables that change slot by slot.

  A step of a system with a table of slots often makes several small changes
  to it.  `Pointwise R f g` says that each slot gets from its entry in `f` to
  its entry in `g` by changes that `R` allows at that slot; what one such
  change keeps, the whole step keeps (`Pointwise.invariant`).
-/

import Mathlib.Logic.Relation
import Mathlib.Logic.Function.Basic

namespace G20OsLab.Lib

variable {ι α : Type _} {R : ι → α → α → Prop} {f g h : ι → α}

/-- Every slot changes by steps of its own relation. -/
def Pointwise (R : ι → α → α → Prop) (f g : ι → α) : Prop :=
  ∀ j, Relation.ReflTransGen (R j) (f j) (g j)

theorem Pointwise.refl : Pointwise R f f := fun _ => .refl

/-- One more change, at one slot. -/
theorem Pointwise.update [DecidableEq ι] (hfg : Pointwise R f g) {i : ι} {a : α}
    (ha : R i (g i) a) : Pointwise R f (Function.update g i a) := by
  intro j
  by_cases hj : j = i
  · subst hj
    rw [Function.update_self]
    exact (hfg j).tail ha
  · rw [Function.update_of_ne hj]
    exact hfg j

/-- One more change, at every slot. -/
theorem Pointwise.map (hfg : Pointwise R f g) (hR : ∀ j, R j (g j) (h j)) : Pointwise R f h :=
  fun j => (hfg j).tail (hR j)

/-- What every change keeps at a slot holds of it in the end. -/
theorem Pointwise.invariant {I : α → Prop} (hfg : Pointwise R f g) {j : ι} (h0 : I (f j))
    (hI : ∀ a b, I a → R j a b → I b) : I (g j) := by
  have hchain := hfg j
  generalize g j = b at hchain
  induction hchain with
  | refl => exact h0
  | tail _ hab ih => exact hI _ _ ih hab

end G20OsLab.Lib
