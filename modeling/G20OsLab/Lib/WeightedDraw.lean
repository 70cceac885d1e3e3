/-
  G20OsLab.Lib.WeightedDraw

  Drawing an index with given weights: reduce a number modulo the sum of the
  weights and walk the list until the partial sum passes it.

  Index `i` is drawn by a half-open interval of residues as long as its weight,
  and the residues of the numbers below a bound are spread evenly up to one, so
  the numbers that draw an index can be counted.  An affine step with a
  multiplier coprime to the bound permutes the numbers below it and changes no
  count.
-/

import Mathlib.Algebra.Order.BigOperators.Group.Finset
import Mathlib.Algebra.Order.Floor.Div
import Mathlib.Data.Int.CardIntervalMod
import Mathlib.Data.Nat.Count

namespace G20OsLab.Lib

/-! ## The walk -/

/-- The first index at which the partial sum of the weights passes `target`. -/
def drawIndex : List Nat → Nat → Option Nat
  | [], _ => none
  | weight :: rest, target =>
      if target < weight then some 0 else (drawIndex rest (target - weight)).map (· + 1)

theorem drawIndex_eq_some_iff {weights : List Nat} {target i : Nat} :
    drawIndex weights target = some i ↔
      (weights.take i).sum ≤ target ∧ target < (weights.take (i + 1)).sum := by
  induction weights generalizing target i with
  | nil => simp [drawIndex]
  | cons weight rest ih =>
      unfold drawIndex
      split
      · rename_i hlt
        cases i with
        | zero => simp [hlt]
        | succ i =>
            simp only [Option.some.injEq, List.take_succ_cons, List.sum_cons]
            omega
      · rename_i hge
        cases i with
        | zero => simp; omega
        | succ i =>
            simp only [Option.map_eq_some_iff, Nat.add_right_cancel_iff, exists_eq_right, ih,
              List.take_succ_cons, List.sum_cons]
            omega

/-- A number below the sum draws an index of the list. -/
theorem exists_drawIndex {weights : List Nat} {target : Nat} (h : target < weights.sum) :
    ∃ i < weights.length, drawIndex weights target = some i := by
  induction weights generalizing target with
  | nil => exact absurd h (Nat.not_lt_zero _)
  | cons weight rest ih =>
      rw [List.sum_cons] at h
      unfold drawIndex
      split
      · exact ⟨0, Nat.succ_pos _, rfl⟩
      · have hrest : target - weight < rest.sum := by omega
        obtain ⟨i, hi, hdraw⟩ := ih hrest
        exact ⟨i + 1, Nat.succ_lt_succ hi, by rw [hdraw]; rfl⟩

/-! ## Counting residues -/

/-- The numbers below `bound` whose residue lies in `[lo, hi)`, residue by
    residue. -/
theorem count_mod_mem {bound modulus lo hi : Nat} (hhi : hi ≤ modulus) :
    Nat.count (fun x => lo ≤ x % modulus ∧ x % modulus < hi) bound =
      ∑ v ∈ Finset.Ico lo hi, Nat.count (· ≡ v [MOD modulus]) bound := by
  rw [Nat.count_eq_card_filter_range]
  have hmaps : Set.MapsTo (· % modulus)
      ((Finset.range bound).filter fun x => lo ≤ x % modulus ∧ x % modulus < hi : Set Nat)
      (Finset.Ico lo hi) := by
    intro x hx
    exact Finset.mem_Ico.mpr (Finset.mem_filter.mp hx).2
  rw [Finset.card_eq_sum_card_fiberwise hmaps]
  refine Finset.sum_congr rfl ?_
  intro v hv
  obtain ⟨hlo, hlt⟩ := Finset.mem_Ico.mp hv
  have hmod : v % modulus = v := Nat.mod_eq_of_lt (hlt.trans_le hhi)
  rw [Nat.count_eq_card_filter_range, Finset.filter_filter]
  congr 1
  refine Finset.filter_congr ?_
  intro x _
  rw [Nat.ModEq, hmod]
  constructor
  · exact And.right
  · intro hx
    rw [hx]
    exact ⟨⟨hlo, hlt⟩, rfl⟩

theorem div_le_count_modEq {bound modulus v : Nat} (h : 0 < modulus) :
    bound / modulus ≤ Nat.count (· ≡ v [MOD modulus]) bound := by
  rw [Nat.count_modEq_card _ h]
  exact Nat.le_add_right ..

theorem count_modEq_le_ceilDiv {bound modulus v : Nat} (h : 0 < modulus) :
    Nat.count (· ≡ v [MOD modulus]) bound ≤ bound ⌈/⌉ modulus := by
  rw [Nat.count_modEq_card _ h, Nat.ceilDiv_eq_add_pred_div]
  split
  · -- a nonzero remainder makes room for one more multiple of the modulus
    rename_i hrem
    rw [Nat.le_div_iff_mul_le h, Nat.add_mul, Nat.one_mul]
    have hdiv := Nat.div_add_mod bound modulus
    rw [Nat.mul_comm] at hdiv
    omega
  · exact Nat.div_le_div_right (by omega)

/-- Of the numbers below `bound`, each residue takes its share up to one. -/
theorem count_mod_mem_bounds {bound modulus lo hi : Nat} (h : 0 < modulus) (hhi : hi ≤ modulus) :
    (hi - lo) * (bound / modulus) ≤
        Nat.count (fun x => lo ≤ x % modulus ∧ x % modulus < hi) bound ∧
      Nat.count (fun x => lo ≤ x % modulus ∧ x % modulus < hi) bound ≤
        (hi - lo) * (bound ⌈/⌉ modulus) := by
  rw [count_mod_mem hhi, ← Nat.card_Ico, ← smul_eq_mul, ← smul_eq_mul]
  exact ⟨Finset.card_nsmul_le_sum _ _ _ fun v _ => div_le_count_modEq h,
    Finset.sum_le_card_nsmul _ _ _ fun v _ => count_modEq_le_ceilDiv h⟩

/-- The numbers below `bound` that draw index `i` are as many as its weight,
    times the bound over the sum of the weights rounded down or up. -/
theorem count_drawIndex_bounds {weights : List Nat} {i : Nat} (bound : Nat)
    (hi : i < weights.length) (hpos : 0 < weights.sum) :
    weights[i] * (bound / weights.sum) ≤
        Nat.count (fun x => drawIndex weights (x % weights.sum) = some i) bound ∧
      Nat.count (fun x => drawIndex weights (x % weights.sum) = some i) bound ≤
        weights[i] * (bound ⌈/⌉ weights.sum) := by
  have hsplit : (weights.take (i + 1)).sum = (weights.take i).sum + weights[i] :=
    List.sum_take_succ weights i hi
  have htake : (weights.take (i + 1)).sum + (weights.drop (i + 1)).sum = weights.sum := by
    rw [← List.sum_append, List.take_append_drop]
  have hweight : weights[i] = (weights.take (i + 1)).sum - (weights.take i).sum := by omega
  simp only [drawIndex_eq_some_iff]
  rw [hweight]
  exact count_mod_mem_bounds hpos (htake ▸ Nat.le_add_right ..)

/-! ## Affine steps -/

/-- An affine step with a coprime multiplier permutes the numbers below the
    modulus, so it changes no count. -/
theorem count_affine {a modulus : Nat} (c : Nat) (hcop : Nat.Coprime modulus a) (p : Nat → Prop)
    [DecidablePred p] :
    Nat.count (fun x => p ((a * x + c) % modulus)) modulus = Nat.count p modulus := by
  have hmaps : ∀ x ∈ Finset.range modulus, (a * x + c) % modulus ∈ Finset.range modulus := by
    intro x hx
    exact Finset.mem_range.mpr (Nat.mod_lt _ (Nat.zero_lt_of_lt (Finset.mem_range.mp hx)))
  have hinj : ∀ x ∈ Finset.range modulus, ∀ y ∈ Finset.range modulus,
      (a * x + c) % modulus = (a * y + c) % modulus → x = y := by
    intro x hx y hy hxy
    have hmul : a * x ≡ a * y [MOD modulus] := Nat.ModEq.add_right_cancel' c hxy
    have hmod : x ≡ y [MOD modulus] := Nat.ModEq.cancel_left_of_coprime hcop hmul
    exact hmod.eq_of_lt_of_lt (Finset.mem_range.mp hx) (Finset.mem_range.mp hy)
  have hsurj : ∀ y ∈ Finset.range modulus, ∃ x, ∃ _ : x ∈ Finset.range modulus,
      y = (a * x + c) % modulus :=
    Finset.surj_on_of_inj_on_of_card_le (fun x _ => (a * x + c) % modulus) hmaps
      (fun x y hx hy => hinj x hx y hy) le_rfl
  rw [Nat.count_eq_card_filter_range, Nat.count_eq_card_filter_range]
  refine Finset.card_bij (fun x _ => (a * x + c) % modulus) ?_ ?_ ?_
  · intro x hx
    obtain ⟨hx, hpx⟩ := Finset.mem_filter.mp hx
    exact Finset.mem_filter.mpr ⟨hmaps x hx, hpx⟩
  · intro x hx y hy
    exact hinj x (Finset.mem_filter.mp hx).1 y (Finset.mem_filter.mp hy).1
  · intro y hy
    obtain ⟨hy, hpy⟩ := Finset.mem_filter.mp hy
    obtain ⟨x, hx, rfl⟩ := hsurj y hy
    exact ⟨x, Finset.mem_filter.mpr ⟨hx, hpy⟩, rfl⟩

end G20OsLab.Lib
