/-
  G20OsLab.Lib.Semaphore

  Counting semaphores.

  A semaphore is a number, or nothing before it is initialised, that `wait`
  takes one from and `post` adds one to; a `wait` at zero is not possible.
  `SemHistory` counts what was done since the last initialisation.  The value
  is the difference of the counts (`Counts`); where only those inside post, it
  also says how many may still enter (`Guards`).
-/

import Mathlib.Data.List.Basic

namespace G20OsLab.Lib

variable {π : Type _}

/-- An action on a semaphore, with the process that takes it. -/
inductive SemAction (π : Type _)
  | init (value : Int)
  | wait (p : π)
  | post (p : π)

/-- The value after an action, if the action is possible. -/
def semStep : SemAction π → Option Int → Option (Option Int)
  | .init value, _ => if 0 ≤ value then some (some value) else none
  | .wait _, some value => if 0 < value then some (some (value - 1)) else none
  | .post _, some value => some (some (value + 1))
  | _, none => none

/-- What was done since the last initialisation, and who is inside: has waited
    and not posted since then. -/
structure SemHistory (π : Type _) where
  init : Option Int
  posts : Nat
  waits : Nat
  inside : List π

def SemHistory.start : SemHistory π := ⟨none, 0, 0, []⟩

def SemHistory.add [DecidableEq π] (h : SemHistory π) : SemAction π → SemHistory π
  | .init value => ⟨some value, 0, 0, []⟩
  | .wait p => { h with waits := h.waits + 1, inside := p :: h.inside }
  | .post p => { h with posts := h.posts + 1, inside := h.inside.erase p }

/-- The value is the initial one with the posts and without the waits. -/
structure SemHistory.Counts (h : SemHistory π) (v : Option Int) : Prop where
  value : v = h.init.map fun i : Int => i + h.posts - h.waits
  nonneg : ∀ x, v = some x → 0 ≤ x

/-- The value says how many more may enter. -/
structure SemHistory.Guards (h : SemHistory π) (v : Option Int) : Prop where
  value : v = h.init.map fun i : Int => i - h.inside.length
  nonneg : ∀ x, v = some x → 0 ≤ x

section

variable {h : SemHistory π} {v : Option Int} {i x : Int}

theorem SemHistory.Counts.start : (SemHistory.start : SemHistory π).Counts none := ⟨rfl, nofun⟩

theorem SemHistory.Guards.start : (SemHistory.start : SemHistory π).Guards none := ⟨rfl, nofun⟩

theorem SemHistory.Counts.of_some (hv : h.Counts (some x)) :
    ∃ i, h.init = some i ∧ x = i + h.posts - h.waits ∧ 0 ≤ x := by
  obtain ⟨i, hinit, hx⟩ := Option.map_eq_some_iff.mp hv.value.symm
  exact ⟨i, hinit, hx.symm, hv.nonneg x rfl⟩

/-- The value follows from the history. -/
theorem SemHistory.Counts.value_eq (hv : h.Counts v) (hi : h.init = some i) :
    v = some (i + h.posts - h.waits) ∧ 0 ≤ i + h.posts - h.waits := by
  have hvalue : v = some (i + h.posts - h.waits) := by rw [hv.value, hi, Option.map_some]
  exact ⟨hvalue, hv.nonneg _ hvalue⟩

theorem SemHistory.Guards.of_some (hv : h.Guards (some x)) :
    ∃ i, h.init = some i ∧ x = i - h.inside.length ∧ 0 ≤ x := by
  obtain ⟨i, hinit, hx⟩ := Option.map_eq_some_iff.mp hv.value.symm
  exact ⟨i, hinit, hx.symm, hv.nonneg x rfl⟩

/-- Under guard no more are inside than the initial value says. -/
theorem SemHistory.Guards.inside_le (hv : h.Guards v) (hi : h.init = some i) :
    (h.inside.length : Int) ≤ i := by
  have hnonneg := hv.nonneg (i - h.inside.length) (by rw [hv.value, hi, Option.map_some])
  omega

end

variable [DecidableEq π] {h : SemHistory π} {v v' : Option Int} {a : SemAction π} {i : Int}

/-- The count begins with the initial value. -/
theorem SemHistory.Counts.init (hi : 0 ≤ i) : (h.add (.init i)).Counts (some i) where
  value := by simp [SemHistory.add]
  nonneg x hx := by
    obtain rfl := Option.some.inj hx
    exact hi

/-- So does the guard. -/
theorem SemHistory.Guards.init (hi : 0 ≤ i) : (h.add (.init i)).Guards (some i) where
  value := by simp [SemHistory.add]
  nonneg x hx := by
    obtain rfl := Option.some.inj hx
    exact hi

/-- Every possible action keeps the count. -/
theorem SemHistory.Counts.step (hv : h.Counts v) (ha : semStep a v = some v') :
    (h.add a).Counts v' := by
  cases a with
  | init value =>
      simp only [semStep, Option.ite_none_right_eq_some, Option.some.injEq] at ha
      obtain ⟨hvalue, rfl⟩ := ha
      exact .init hvalue
  | wait p =>
      cases v with
      | none => cases ha
      | some x =>
          obtain ⟨i, hinit, rfl, -⟩ := hv.of_some
          simp only [semStep, Option.ite_none_right_eq_some, Option.some.injEq] at ha
          obtain ⟨hpos, rfl⟩ := ha
          refine ⟨?_, ?_⟩
          · simp only [SemHistory.add, hinit, Option.map_some, Option.some.injEq]
            push_cast
            omega
          · intro x hx
            have hx' := Option.some.inj hx
            omega
  | post p =>
      cases v with
      | none => cases ha
      | some x =>
          obtain ⟨i, hinit, rfl, hnonneg⟩ := hv.of_some
          simp only [semStep, Option.some.injEq] at ha
          subst ha
          refine ⟨?_, ?_⟩
          · simp only [SemHistory.add, hinit, Option.map_some, Option.some.injEq]
            push_cast
            omega
          · intro x hx
            have hx' := Option.some.inj hx
            omega

/-- If nobody posts who is not inside, the semaphore keeps its guard. -/
theorem SemHistory.Guards.step (hv : h.Guards v) (ha : semStep a v = some v')
    (hpost : ∀ p, a = .post p → p ∈ h.inside) : (h.add a).Guards v' := by
  cases a with
  | init value =>
      simp only [semStep, Option.ite_none_right_eq_some, Option.some.injEq] at ha
      obtain ⟨hvalue, rfl⟩ := ha
      exact .init hvalue
  | wait p =>
      cases v with
      | none => cases ha
      | some x =>
          obtain ⟨i, hinit, rfl, -⟩ := hv.of_some
          simp only [semStep, Option.ite_none_right_eq_some, Option.some.injEq] at ha
          obtain ⟨hpos, rfl⟩ := ha
          refine ⟨?_, ?_⟩
          · simp only [SemHistory.add, hinit, Option.map_some, Option.some.injEq, List.length_cons]
            push_cast
            omega
          · intro x hx
            have hx' := Option.some.inj hx
            omega
  | post p =>
      cases v with
      | none => cases ha
      | some x =>
          obtain ⟨i, hinit, rfl, hnonneg⟩ := hv.of_some
          have hlength := List.length_erase_of_mem (hpost p rfl)
          have hinside := List.length_pos_of_mem (hpost p rfl)
          simp only [semStep, Option.some.injEq] at ha
          subst ha
          refine ⟨?_, ?_⟩
          · simp only [SemHistory.add, hinit, Option.map_some, Option.some.injEq, hlength]
            omega
          · intro x hx
            have hx' := Option.some.inj hx
            omega

end G20OsLab.Lib
