/-
  G20OsLab.Lib.Simulation

  Forward simulation of runs.

  A concrete system refines an abstract one if every step of the first is
  matched by events of the second, which `obs` reads off the step, and a
  relation between the two states is kept (`Simulates`).  A whole concrete run
  is then matched by the abstract run on its trace (`Simulates.run`).

  `Refines` is for systems where the outcome of a step is known only after it:
  every step can be taken, and then stands for abstract events that fit it.
-/

import G20OsLab.Lib.Transition

namespace G20OsLab.Lib

variable {σ ε τ δ : Type _}

/-- The run of a system on a list of events, with no condition on its steps. -/
def run (step : ε → σ → Option σ) (es : List ε) (s : σ) : Option σ :=
  runEvents step (fun _ _ => true) es s

section Run

variable {step : ε → σ → Option σ} {s t u : σ} {e : ε} {es fs : List ε}

@[simp] theorem run_nil : run step [] s = some s := rfl

theorem run_cons : run step (e :: es) s = (step e s).bind (run step es) := by
  rw [run, runEvents, if_pos rfl]
  rfl

theorem run_singleton : run step [e] s = step e s := by
  rw [run_cons]
  exact Option.bind_fun_some _

/-- A run over two lists is one run after the other. -/
theorem run_append : run step (es ++ fs) s = (run step es s).bind (run step fs) := by
  induction es generalizing s with
  | nil => rfl
  | cons e es ih =>
      rw [List.cons_append, run_cons, run_cons, Option.bind_assoc]
      exact congrArg _ (funext fun _ => ih)

theorem run_trans (h : run step es s = some t) (h' : run step fs t = some u) :
    run step (es ++ fs) s = some u := by
  rw [run_append, h]
  exact h'

end Run

/-! ## Simulation -/

/-- The abstract events of a run. -/
def trace (step : ε → σ → Option σ) (obs : σ → ε → List δ) : List ε → σ → List δ
  | [], _ => []
  | e :: es, s =>
      obs s e ++ match step e s with
        | some t => trace step obs es t
        | none => []

/-- Every step that passes the test is matched by the abstract events read off
    it. -/
def Simulates (step : ε → σ → Option σ) (test : σ → ε → Bool) (spec : δ → τ → Option τ)
    (obs : σ → ε → List δ) (R : σ → τ → Prop) : Prop :=
  ∀ {s t e a}, R s a → test s e = true → step e s = some t →
    ∃ b, run spec (obs s e) a = some b ∧ R t b

variable {step : ε → σ → Option σ} {test : σ → ε → Bool} {spec : δ → τ → Option τ}
variable {obs : σ → ε → List δ} {R : σ → τ → Prop} {s t : σ} {a : τ} {es : List ε}

/-- A run is matched by the abstract run on its trace. -/
theorem Simulates.run (h : Simulates step test spec obs R) (hR : R s a)
    (hrun : runEvents step test es s = some t) :
    ∃ b, Lib.run spec (trace step obs es s) a = some b ∧ R t b := by
  induction es generalizing s a with
  | nil =>
      cases hrun
      exact ⟨a, rfl, hR⟩
  | cons e es ih =>
      rw [runEvents] at hrun
      split at hrun
      · rename_i htest
        obtain ⟨u, hu, hrest⟩ := Option.bind_eq_some_iff.mp hrun
        obtain ⟨b, hb, hRb⟩ := h hR htest hu
        obtain ⟨c, hc, hRc⟩ := ih hRb hrest
        refine ⟨c, ?_, hRc⟩
        rw [trace, hu]
        exact run_trans hb hc
      · cases hrun

/-! ## Refinement -/

/-- The abstract events of a run, where the event and the states before and after
    it say which abstract events a step may stand for. -/
inductive Follows (step : ε → σ → Option σ) (may : σ → ε → σ → List δ → Prop) :
    List ε → σ → List δ → Prop
  | nil {s : σ} : Follows step may [] s []
  | cons {s t : σ} {e : ε} {es : List ε} {ds ds' : List δ} (hs : step e s = some t)
      (hmay : may s e t ds) (hrest : Follows step may es t ds') :
      Follows step may (e :: es) s (ds ++ ds')

/-- Every step that passes the test can be taken, and stands for abstract
    events that it may stand for. -/
def Refines (step : ε → σ → Option σ) (test : σ → ε → Bool) (spec : δ → τ → Option τ)
    (may : σ → ε → σ → List δ → Prop) (R : σ → τ → Prop) : Prop :=
  ∀ {s e a}, R s a → test s e = true →
    ∃ t ds b, step e s = some t ∧ may s e t ds ∧ Lib.run spec ds a = some b ∧ R t b

variable {may : σ → ε → σ → List δ → Prop}

/-- A run stands for an abstract run. -/
theorem Refines.run (h : Refines step test spec may R) (hR : R s a)
    (hrun : runEvents step test es s = some t) :
    ∃ ds b, Follows step may es s ds ∧ Lib.run spec ds a = some b ∧ R t b := by
  induction es generalizing s a with
  | nil =>
      cases hrun
      exact ⟨[], _, .nil, rfl, hR⟩
  | cons e es ih =>
      rw [runEvents] at hrun
      split at hrun
      · rename_i htest
        obtain ⟨u, hu, hrest⟩ := Option.bind_eq_some_iff.mp hrun
        obtain ⟨u', ds, b, hu', hmay, hb, hRb⟩ := h hR htest
        obtain rfl := Option.some.inj (hu.symm.trans hu')
        obtain ⟨ds', c, hfollows, hc, hRc⟩ := ih hRb hrest
        exact ⟨ds ++ ds', c, .cons hu hmay hfollows, run_trans hb hc, hRc⟩
      · cases hrun

/-- A state that a run comes to stands for some abstract state. -/
theorem Refines.steps {P : σ → ε → Prop} (h : Refines step test spec may R)
    (hP : ∀ s e, P s e → test s e = true) (hR : R s a) (hsteps : Steps step P s t) :
    ∃ b, R t b := by
  refine hsteps.invariant (I := fun s => ∃ b, R s b) ⟨a, hR⟩ ?_
  rintro t e u ⟨b, hb⟩ hPe hu
  obtain ⟨u', ds, c, hu', -, -, hc⟩ := h hb (hP t e hPe)
  obtain rfl := Option.some.inj (hu.symm.trans hu')
  exact ⟨c, hc⟩

end G20OsLab.Lib
