/-
  G20OsLab.Lib.AtomicStore

  A store whose operations survive a crash as a whole or not at all.

  Operations `start`, `write` and `finish`; several can be active at a time.
  `commit` makes everything written so far stable, and happens only while no
  operation is active; `crash` goes back to what is stable.  The stable content
  is therefore that of a run without crashes, which takes a part of the events
  and cuts no operation in two (`stable_eq_run`).
-/

import Mathlib.Data.Finset.Basic
import Mathlib.Logic.Function.Basic
import G20OsLab.Lib.Simulation

namespace G20OsLab.Lib

variable {ι α β : Type _}

structure AtomicStore (ι α β : Type _) where
  /-- what a crash leaves -/
  stable : α → β
  /-- what the operations see -/
  current : α → β
  /-- the operations that have started and not finished -/
  active : Finset ι

inductive StoreEvent (ι α β : Type _)
  | start (i : ι)
  | read (a : α) (v : β)
  | write (i : ι) (a : α) (v : β)
  | finish (i : ι)
  | commit
  | crash
  deriving DecidableEq

variable [DecidableEq ι] [DecidableEq α] [DecidableEq β]

/-- The store after an event, if the event is possible. -/
def storeStep (e : StoreEvent ι α β) (s : AtomicStore ι α β) : Option (AtomicStore ι α β) :=
  match e with
  | .start i => if i ∈ s.active then none else some { s with active := insert i s.active }
  | .read a v => if s.current a = v then some s else none
  | .write i a v =>
      if i ∈ s.active then some { s with current := Function.update s.current a v } else none
  | .finish i => if i ∈ s.active then some { s with active := s.active.erase i } else none
  | .commit => if s.active = ∅ then some { s with stable := s.current } else none
  | .crash => some { s with current := s.stable, active := ∅ }

/-- Add an event to a history, which is in two parts: what is stable, and what
    a crash would take back. -/
def keep (h : List (StoreEvent ι α β) × List (StoreEvent ι α β)) :
    StoreEvent ι α β → List (StoreEvent ι α β) × List (StoreEvent ι α β)
  | .commit => (h.1 ++ h.2, [])
  | .crash => (h.1, [])
  | e => (h.1, h.2 ++ [e])

/-- The events before the last commit that no crash has taken back. -/
def survivors (es : List (StoreEvent ι α β)) : List (StoreEvent ι α β) :=
  (es.foldl keep ([], [])).1

/-- Neither a commit nor a crash. -/
def StoreEvent.IsAction : StoreEvent ι α β → Prop
  | .commit | .crash => False
  | _ => True

variable {s t u : AtomicStore ι α β} {e : StoreEvent ι α β} {es : List (StoreEvent ι α β)}

/-- What the operations do depends on nothing but what they see. -/
theorem storeStep_action (he : e.IsAction) (hs : storeStep e s = some t)
    (hcurrent : u.current = s.current) (hactive : u.active = s.active) :
    t.stable = s.stable ∧
      ∃ v, storeStep e u = some v ∧ v.current = t.current ∧ v.active = t.active := by
  cases e with
  | start i =>
      simp only [storeStep, Option.ite_none_left_eq_some, Option.some.injEq] at hs ⊢
      obtain ⟨hi, rfl⟩ := hs
      exact ⟨rfl, _, ⟨by rwa [hactive], rfl⟩, hcurrent, congrArg (insert i) hactive⟩
  | read a v =>
      simp only [storeStep, Option.ite_none_right_eq_some, Option.some.injEq] at hs ⊢
      obtain ⟨hv, rfl⟩ := hs
      exact ⟨rfl, u, ⟨by rwa [hcurrent], rfl⟩, hcurrent, hactive⟩
  | write i a v =>
      simp only [storeStep, Option.ite_none_right_eq_some, Option.some.injEq] at hs ⊢
      obtain ⟨hi, rfl⟩ := hs
      exact ⟨rfl, _, ⟨by rwa [hactive], rfl⟩, by rw [hcurrent], hactive⟩
  | finish i =>
      simp only [storeStep, Option.ite_none_right_eq_some, Option.some.injEq] at hs ⊢
      obtain ⟨hi, rfl⟩ := hs
      exact ⟨rfl, _, ⟨by rwa [hactive], rfl⟩, hcurrent, by rw [hactive]⟩
  | commit => exact he.elim
  | crash => exact he.elim

/-- A history of the store `s` that began in `s0`: its first part alone leads to
    the stable content with no operation active, and its second part on to what
    the operations see. -/
def History (s0 s : AtomicStore ι α β)
    (h : List (StoreEvent ι α β) × List (StoreEvent ι α β)) : Prop :=
  ∃ t u, run storeStep h.1 s0 = some t ∧ t.active = ∅ ∧ t.current = s.stable ∧
    run storeStep h.2 t = some u ∧ u.current = s.current ∧ u.active = s.active

theorem History.step {s0 : AtomicStore ι α β}
    {h : List (StoreEvent ι α β) × List (StoreEvent ι α β)} (hh : History s0 s h)
    (hs : storeStep e s = some t) : History s0 t (keep h e) := by
  obtain ⟨t0, u0, hkept, hnone, hstable, hrest, hcurrent, hactive⟩ := hh
  have haction : e.IsAction → keep h e = (h.1, h.2 ++ [e]) → History s0 t (keep h e) := by
    intro he hkeep
    obtain ⟨hsame, v, hv, hvcurrent, hvactive⟩ := storeStep_action he hs hcurrent hactive
    rw [hkeep]
    exact ⟨t0, v, hkept, hnone, hstable.trans hsame.symm,
      run_trans hrest (run_singleton.trans hv), hvcurrent, hvactive⟩
  cases e with
  | start i => exact haction trivial rfl
  | read a v => exact haction trivial rfl
  | write i a v => exact haction trivial rfl
  | finish i => exact haction trivial rfl
  | commit =>
      simp only [storeStep, Option.ite_none_right_eq_some, Option.some.injEq] at hs
      obtain ⟨hidle, rfl⟩ := hs
      exact ⟨u0, u0, run_trans hkept hrest, hactive.trans hidle, hcurrent, rfl, hcurrent, hactive⟩
  | crash =>
      cases hs
      exact ⟨t0, t0, hkept, hnone, hstable, rfl, hstable, hnone⟩

theorem History.run {s0 : AtomicStore ι α β}
    {h : List (StoreEvent ι α β) × List (StoreEvent ι α β)} (hh : History s0 s h)
    (hrun : run storeStep es s = some t) : History s0 t (es.foldl keep h) := by
  induction es generalizing s h with
  | nil =>
      cases hrun
      exact hh
  | cons e es ih =>
      rw [run_cons] at hrun
      obtain ⟨u, hu, hrest⟩ := Option.bind_eq_some_iff.mp hrun
      exact ih (hh.step hu) hrest

/-- The stable content is that of the run of the survivors, at the end of which
    no operation is active. -/
theorem stable_eq_run (hnone : s.active = ∅) (hclean : s.current = s.stable)
    (hrun : run storeStep es s = some t) :
    ∃ u, run storeStep (survivors es) s = some u ∧ u.active = ∅ ∧ u.current = t.stable := by
  have hstart : History s s ([], []) := ⟨s, s, rfl, hnone, hclean, rfl, rfl, rfl⟩
  obtain ⟨u, _, hkept, hactive, hstable, -⟩ := hstart.run hrun
  exact ⟨u, hkept, hactive, hstable⟩

end G20OsLab.Lib
