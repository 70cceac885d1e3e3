/-
  G20OsLab.Lib.Transition

  Runs of a partial step function.

  `step e s` is the state after event `e`, if the event can happen in `s`.
  `Steps P` relates the ends of runs whose every event meets `P` in the state
  it happens in; an invariant of such runs is proved one step at a time
  (`Steps.invariant`), and a run on a concrete list of events is evaluated
  (`Steps.of_run`).

  `observe` runs a system together with a history of what was seen of its
  steps.  The history restricts nothing: every run has one (`Steps.observed`).
-/

import Mathlib.Logic.Basic

namespace G20OsLab.Lib

variable {σ ε : Type _} (step : ε → σ → Option σ)

/-- A run whose every step meets `P`. -/
inductive Steps (P : σ → ε → Prop) (s : σ) : σ → Prop
  | refl : Steps P s s
  | tail {t u : σ} {e : ε} : Steps P s t → P t e → step e t = some u → Steps P s u

variable {step} {P Q : σ → ε → Prop} {s t u : σ}

/-- What holds at the start and is kept by every step that meets `P` holds at
    the end of every such run. -/
theorem Steps.invariant {I : σ → Prop} (h : Steps step P s t) (h0 : I s)
    (hstep : ∀ {t e u}, I t → P t e → step e t = some u → I u) : I t := by
  induction h with
  | refl => exact h0
  | tail _ hP hs ih => exact hstep ih hP hs

/-- One run after another is a run. -/
theorem Steps.trans (h : Steps step P s t) (h' : Steps step P t u) : Steps step P s u := by
  induction h' with
  | refl => exact h
  | tail _ hP hs ih => exact ih.tail hP hs

/-- A list of events run from left to right, as long as each of them is
    possible and passes the test. -/
def runEvents (step : ε → σ → Option σ) (test : σ → ε → Bool) : List ε → σ → Option σ
  | [], s => some s
  | e :: es, s => if test s e then (step e s).bind (runEvents step test es) else none

/-- A run of events that pass the test is a run. -/
theorem Steps.of_run {test : σ → ε → Bool} (htest : ∀ s e, test s e = true → P s e)
    {es : List ε} (h : runEvents step test es s = some t) : Steps step P s t := by
  induction es generalizing s with
  | nil =>
      cases h
      exact .refl
  | cons e es ih =>
      rw [runEvents] at h
      split at h
      · rename_i he
        obtain ⟨u, hu, hrest⟩ := Option.bind_eq_some_iff.mp h
        exact Steps.trans (Steps.tail .refl (htest _ _ he) hu) (ih hrest)
      · cases h

/-- Where a list of events leads; `s` itself if one of them cannot happen. -/
def endState (step : ε → σ → Option σ) (es : List ε) (s : σ) : σ :=
  (runEvents step (fun _ _ => true) es s).getD s

theorem step_endState {e : ε} (h : (step e s).isSome = true) :
    step e s = some (endState step [e] s) := by
  obtain ⟨t, ht⟩ := Option.isSome_iff_exists.mp h
  simp [endState, runEvents, ht]

/-- The test may be dropped. -/
theorem runEvents_true {test : σ → ε → Bool} {es : List ε}
    (h : runEvents step test es s = some t) : runEvents step (fun _ _ => true) es s = some t := by
  induction es generalizing s with
  | nil => exact h
  | cons e es ih =>
      rw [runEvents] at h ⊢
      split at h
      · obtain ⟨u, hu, hrest⟩ := Option.bind_eq_some_iff.mp h
        rw [if_pos rfl, hu]
        exact ih hrest
      · cases h

theorem runEvents_endState {es : List ε}
    (h : (runEvents step (fun _ _ => true) es s).isSome = true) :
    runEvents step (fun _ _ => true) es s = some (endState step es s) := by
  obtain ⟨t, ht⟩ := Option.isSome_iff_exists.mp h
  simp [endState, ht]

theorem Steps.endState {test : σ → ε → Bool} (htest : ∀ s e, test s e = true → P s e)
    {es : List ε} (h : (runEvents step test es s).isSome = true) :
    Steps step P s (endState step es s) := by
  obtain ⟨t, ht⟩ := Option.isSome_iff_exists.mp h
  have hend : Lib.endState step es s = t := by
    rw [Lib.endState, runEvents_true ht, Option.getD_some]
  rw [hend]
  exact Steps.of_run htest ht

/-! ## All steps of a run -/

/-- Every step of the run on a list of events meets `P`.  The run ends where
    an event cannot happen. -/
def AllSteps (step : ε → σ → Option σ) (P : σ → ε → Prop) : List ε → σ → Prop
  | [], _ => True
  | e :: es, s => ∀ t, step e s = some t → P s e ∧ AllSteps step P es t

/-- Two properties of steps that agree under an invariant, which is kept as
    long as they hold, hold of the same runs. -/
theorem allSteps_iff {I : σ → Prop} (hPQ : ∀ {s e t}, I s → step e s = some t → (P s e ↔ Q s e))
    (hstep : ∀ {s e t}, I s → Q s e → step e s = some t → I t) {es : List ε} (h0 : I s) :
    AllSteps step P es s ↔ AllSteps step Q es s := by
  induction es generalizing s with
  | nil => exact Iff.rfl
  | cons e es ih =>
      constructor
      · intro h t ht
        obtain ⟨hP, hrest⟩ := h t ht
        have hQ := (hPQ h0 ht).mp hP
        exact ⟨hQ, (ih (hstep h0 hQ ht)).mp hrest⟩
      · intro h t ht
        obtain ⟨hQ, hrest⟩ := h t ht
        exact ⟨(hPQ h0 ht).mpr hQ, (ih (hstep h0 hQ ht)).mpr hrest⟩

/-- The step after a list of events. -/
theorem AllSteps.last {es : List ε} {e : ε} (h : AllSteps step P (es ++ [e]) s)
    (hrun : runEvents step (fun _ _ => true) es s = some t) (he : step e t = some u) : P t e := by
  induction es generalizing s with
  | nil =>
      cases hrun
      exact (h u he).1
  | cons e' es ih =>
      rw [runEvents, if_pos rfl] at hrun
      obtain ⟨s', hs', hrest⟩ := Option.bind_eq_some_iff.mp hrun
      exact ih (h s' hs').2 hrest

/-! ## Histories -/

variable {η : Type _} {note : σ → ε → σ → η → η} {x y : σ × η}

/-- The system with a history: `note s e t` updates it in the step from `s` to
    `t`. -/
def observe (step : ε → σ → Option σ) (note : σ → ε → σ → η → η) (e : ε) (x : σ × η) :
    Option (σ × η) :=
  (step e x.1).map fun t => (t, note x.1 e t x.2)

/-- A step of the observed system is a step with its note. -/
theorem observe_eq_some {e : ε} : observe step note e x = some y ↔
    step e x.1 = some y.1 ∧ y.2 = note x.1 e y.1 x.2 := by
  rw [observe, Option.map_eq_some_iff]
  constructor
  · rintro ⟨t, ht, rfl⟩
    exact ⟨ht, rfl⟩
  · rintro ⟨ht, hnote⟩
    exact ⟨y.1, ht, Prod.ext rfl hnote.symm⟩

/-- Every run has a history. -/
theorem Steps.observed (h : Steps step P s t) (note : σ → ε → σ → η → η) (a : η) :
    ∃ b, Steps (observe step note) (fun x e => P x.1 e) (s, a) (t, b) := by
  induction h with
  | refl => exact ⟨a, .refl⟩
  | @tail t u e _ hP hs ih =>
      obtain ⟨b, hb⟩ := ih
      exact ⟨note t e u b, hb.tail hP (observe_eq_some.mpr ⟨hs, rfl⟩)⟩

/-- A run with a history is a run. -/
theorem Steps.forget {P : σ × η → ε → Prop} (h : Steps (observe step note) P x y)
    (hP : ∀ x e, P x e → Q x.1 e) : Steps step Q x.1 y.1 := by
  induction h with
  | refl => exact .refl
  | tail _ hPt hs ih => exact ih.tail (hP _ _ hPt) (observe_eq_some.mp hs).1

end G20OsLab.Lib
