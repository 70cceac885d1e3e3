/-
  G20OsLab.Lib.Loop

  Bounded counting loops and their invariant rules.

  `forLoop n body` is the loop `for (i = 0; i < n; i++) body(i)` as a state
  transformer.  Three rules cover the uses: an invariant indexed by the
  number of finished iterations (`forLoop_inv`), the pointwise rule for a
  loop whose iteration `i` touches component `i` only (`forLoop_pointwise`),
  and the value of an accumulating loop (`forLoop_add`).
-/

import Mathlib.Algebra.BigOperators.Fin

namespace G20OsLab.Lib

variable {σ α : Type _} {n : Nat}

/-- `for (i = 0; i < n; i++) body(i)`, run on the state `s`. -/
def forLoop (n : Nat) (body : Fin n → σ → σ) (s : σ) : σ :=
  Fin.foldl n (fun s i => body i s) s

@[simp] theorem forLoop_zero (body : Fin 0 → σ → σ) (s : σ) : forLoop 0 body s = s := rfl

/-- The last round comes after the loop over the others. -/
theorem forLoop_succ (body : Fin (n + 1) → σ → σ) (s : σ) :
    forLoop (n + 1) body s =
      body (Fin.last n) (forLoop n (fun i => body i.castSucc) s) := by
  simp only [forLoop, Fin.foldl_succ_last]

/-- The invariant rule: `I k` holds after `k` iterations. -/
theorem forLoop_inv {body : Fin n → σ → σ} {s : σ} (I : Nat → σ → Prop) (h0 : I 0 s)
    (hstep : ∀ (i : Fin n) (s' : σ), I i s' → I (i + 1) (body i s')) :
    I n (forLoop n body s) := by
  induction n with
  | zero => exact h0
  | succ n ih =>
      rw [forLoop_succ]
      exact hstep (Fin.last n) _ (ih fun i s' hi => hstep i.castSucc s' hi)

/-- A property kept by every iteration is kept by the loop. -/
theorem forLoop_preserves {body : Fin n → σ → σ} {s : σ} (P : σ → Prop) (h0 : P s)
    (hstep : ∀ (i : Fin n) (s' : σ), P s' → P (body i s')) : P (forLoop n body s) :=
  forLoop_inv (fun _ => P) h0 hstep

/-- The pointwise rule.  Where iteration `i` maps component `i` by `f i` and
    leaves the others alone (both under a loop invariant `J`), the loop maps
    every component by its own `f i`. -/
theorem forLoop_pointwise {body : Fin n → σ → σ} {s : σ} (J : σ → Prop)
    (get : σ → Fin n → α) (f : Fin n → α → α) (h0 : J s)
    (hJ : ∀ (i : Fin n) (s' : σ), J s' → J (body i s'))
    (hself : ∀ (i : Fin n) (s' : σ), J s' → get (body i s') i = f i (get s' i))
    (hother : ∀ (i j : Fin n) (s' : σ), J s' → j ≠ i → get (body i s') j = get s' j)
    (i : Fin n) : get (forLoop n body s) i = f i (get s i) := by
  let I (k : Nat) (s' : σ) : Prop :=
    J s' ∧ ∀ j : Fin n, get s' j = if j.val < k then f j (get s j) else get s j
  have hinv : I n (forLoop n body s) := by
    refine forLoop_inv I ⟨h0, fun j => by simp⟩ ?_
    rintro i s' ⟨hJs, hget⟩
    refine ⟨hJ i s' hJs, ?_⟩
    intro j
    by_cases hji : j = i
    · subst hji
      rw [hself j s' hJs, hget j, if_neg (Nat.lt_irrefl _), if_pos (Nat.lt_succ_self _)]
    · have hne : j.val ≠ i.val := fun h => hji (Fin.ext h)
      rw [hother i j s' hJs hji, hget j]
      by_cases hlt : j.val < i.val
      · rw [if_pos hlt, if_pos (by omega)]
      · rw [if_neg hlt, if_neg (by omega)]
  rw [hinv.2 i, if_pos i.isLt]

/-- An accumulating loop computes the sum of its increments. -/
theorem forLoop_add {M : Type _} [AddCommMonoid M] (g : Fin n → M) (x : M) :
    forLoop n (fun i acc => acc + g i) x = x + ∑ i, g i := by
  induction n with
  | zero => simp
  | succ n ih =>
      rw [forLoop_succ, ih (fun i => g i.castSucc), Fin.sum_univ_castSucc, add_assoc]

end G20OsLab.Lib
