/-
  G20OsLab.Lib.ArgMin

  The single-pass selection loop: remember the best entry so far, replace it
  when a later entry is smaller in a two-level order (`key` first, `tie` on
  equal keys).  The loop returns the first entry that is minimal in the
  lexicographic order.
-/

import Mathlib.Data.List.Induction
import Mathlib.Order.Lattice

namespace G20OsLab.Lib

variable {α K T : Type _} [LinearOrder K] [LinearOrder T]

/-- `x` comes strictly before `y`: smaller key, or equal keys and smaller tie. -/
def LexLt (key : α → K) (tie : α → T) (x y : α) : Prop :=
  key x < key y ∨ (key x = key y ∧ tie x < tie y)

instance (key : α → K) (tie : α → T) (x y : α) : Decidable (LexLt key tie x y) :=
  inferInstanceAs (Decidable (_ ∨ _))

theorem LexLt.irrefl {key : α → K} {tie : α → T} {x : α} : ¬ LexLt key tie x x := by
  rintro (h | ⟨_, h⟩)
  · exact lt_irrefl _ h
  · exact lt_irrefl _ h

theorem LexLt.trans {key : α → K} {tie : α → T} {x y z : α}
    (hxy : LexLt key tie x y) (hyz : LexLt key tie y z) : LexLt key tie x z := by
  rcases hxy with hxy | ⟨exy, hxy⟩ <;> rcases hyz with hyz | ⟨eyz, hyz⟩
  · exact .inl (hxy.trans hyz)
  · exact .inl (eyz ▸ hxy)
  · exact .inl (exy ▸ hyz)
  · exact .inr ⟨exy.trans eyz, hxy.trans hyz⟩

/-- The order is total up to ties: what is not before `y` is not after it
    either once it lies before something that is not before `y`. -/
theorem LexLt.trans_not {key : α → K} {tie : α → T} {x y z : α}
    (hxy : LexLt key tie x y) (hzy : ¬ LexLt key tie z y) : LexLt key tie x z := by
  have hkey : key y ≤ key z := not_lt.mp fun h => hzy (.inl h)
  rcases hkey.lt_or_eq with hlt | heq
  · exact LexLt.trans hxy (.inl hlt)
  · have htie : tie y ≤ tie z := not_lt.mp fun h => hzy (.inr ⟨heq.symm, h⟩)
    rcases hxy with hxy | ⟨exy, hxy⟩
    · exact .inl (heq ▸ hxy)
    · exact .inr ⟨exy.trans heq, lt_of_lt_of_le hxy htie⟩

/-- One iteration of the loop on the entry `e.1` at index `e.2`.  The state is
    the best index with the entry found there. -/
def scanStep (key : α → K) (tie : α → T) (best : Option (Nat × α)) (e : α × Nat) :
    Option (Nat × α) :=
  match best with
  | none => some (e.2, e.1)
  | some b => if LexLt key tie e.1 b.2 then some (e.2, e.1) else some b

/-- The selection loop over a list. -/
def scanMin (key : α → K) (tie : α → T) (items : List α) : Option (Nat × α) :=
  items.zipIdx.foldl (scanStep key tie) none

theorem scanMin_append_singleton (key : α → K) (tie : α → T) (items : List α) (x : α) :
    scanMin key tie (items ++ [x]) =
      scanStep key tie (scanMin key tie items) (x, items.length) := by
  simp [scanMin, List.zipIdx_append, List.foldl_append]

theorem scanMin_eq_none_iff {key : α → K} {tie : α → T} {items : List α} :
    scanMin key tie items = none ↔ items = [] := by
  induction items using List.reverseRecOn with
  | nil => simp [scanMin]
  | append_singleton xs x _ =>
      rw [scanMin_append_singleton]
      cases scanMin key tie xs with
      | none => simp [scanStep]
      | some b =>
          by_cases hlt : LexLt key tie x b.2 <;> simp [scanStep, hlt]

/-- The loop returns an entry of the list that no entry precedes, and that
    precedes every entry before it. -/
theorem scanMin_spec {key : α → K} {tie : α → T} {items : List α} {i : Nat} {x : α}
    (h : scanMin key tie items = some (i, x)) :
    items[i]? = some x ∧ (∀ y ∈ items, ¬ LexLt key tie y x) ∧
      ∀ j < i, ∀ y, items[j]? = some y → LexLt key tie x y := by
  -- on the end of the list, which the scan sees last
  induction items using List.reverseRecOn generalizing i x with
  | nil => simp [scanMin] at h
  | append_singleton xs z ih =>
      rw [scanMin_append_singleton] at h
      cases hbest : scanMin key tie xs with
      | none =>
          have hnil : xs = [] := scanMin_eq_none_iff.mp hbest
          subst hnil
          simp only [scanStep, hbest, Option.some.injEq, Prod.mk.injEq] at h
          obtain ⟨hi, rfl⟩ := h
          have hi0 : i = 0 := hi.symm
          subst hi0
          refine ⟨rfl, fun y hy => ?_, fun j hj => absurd hj (Nat.not_lt_zero j)⟩
          rw [List.nil_append, List.mem_singleton] at hy
          rw [hy]
          exact LexLt.irrefl
      | some b =>
          obtain ⟨k, y⟩ := b
          obtain ⟨hget, hmin, hfirst⟩ := ih hbest
          have hk : k < xs.length := (List.getElem?_eq_some_iff.mp hget).1
          by_cases hlt : LexLt key tie z y
          -- the new entry beats the best so far, and with it all before
          · simp only [scanStep, hbest, hlt, if_true, Option.some.injEq, Prod.mk.injEq] at h
            obtain ⟨rfl, rfl⟩ := h
            have hbefore : ∀ w ∈ xs, LexLt key tie z w := fun w hw =>
              LexLt.trans_not hlt (hmin w hw)
            refine ⟨by simp, ?_, ?_⟩
            · intro w hw
              rcases List.mem_append.mp hw with hw | hw
              · exact fun hwz => LexLt.irrefl (LexLt.trans hwz (hbefore w hw))
              · rw [List.mem_singleton.mp hw]
                exact LexLt.irrefl
            · intro j hj w hw
              rw [List.getElem?_append_left hj] at hw
              exact hbefore w (List.mem_of_getElem? hw)
          · simp only [scanStep, hbest, hlt, if_false, Option.some.injEq, Prod.mk.injEq] at h
            obtain ⟨rfl, rfl⟩ := h
            refine ⟨by rw [List.getElem?_append_left hk]; exact hget, fun w hw => ?_,
              fun j hj w hw => ?_⟩
            · rcases List.mem_append.mp hw with hw | hw
              · exact hmin w hw
              · rw [List.mem_singleton.mp hw]
                exact hlt
            · rw [List.getElem?_append_left (by omega)] at hw
              exact hfirst j hj w hw

end G20OsLab.Lib
