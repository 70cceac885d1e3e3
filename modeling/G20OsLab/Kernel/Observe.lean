/-
  G20OsLab.Kernel.Observe

  What can be seen of a step from outside: the system call that returns in it.

  The histories of the modules after this one are made of these returns; how
  a call gets to its value they do not look at.
-/

import G20OsLab.Kernel.Pending

namespace G20OsLab.Kernel

/-- The process whose system call returns in the step from `s` to `t`, the
    section it returns from, and the value. -/
def returned (s : KState) (e : Event) (t : KState) : Option (Fin nproc × Kpc × UInt64) :=
  match e with
  | .run i _ =>
      if t.kpc i = .trapExit false then some (i, s.kpc i, (t.proc i).trapframe.a0) else none
  | _ => none

section

variable {s t : KState} {e : Event} {i j : Fin nproc} {o : Outcome} {pc : Kpc} {v : UInt64}

/-- A call that returns is at its last section and puts the value in `a0`. -/
theorem returned_eq_some (h : step e s = some t) (hret : returned s e t = some (i, pc, v)) :
    s.At e i pc ∧ t.kpc i = .trapExit false ∧ (t.proc i).trapframe.a0 = v := by
  cases e with
  | run i' o =>
      simp only [returned, Option.ite_none_right_eq_some, Option.some.injEq, Prod.mk.injEq] at hret
      obtain ⟨hkpc, rfl, hpc, hv⟩ := hret
      simp only [step, Option.ite_none_right_eq_some] at h
      exact ⟨⟨⟨o, rfl⟩, h.1, hpc⟩, hkpc, hv⟩
  | _ => cases hret

/-- A section that returns `value`. -/
theorem returned_retInt (hat : s.At e i pc) {value : Int} :
    returned s e (t.retInt i value) = some (i, pc, u64OfInt value) := by
  obtain ⟨⟨o, rfl⟩, -, rfl⟩ := hat
  simp [returned, KState.retInt, KState.ret, KState.setKpc, KState.setProc]

theorem returned_none (hat : s.At e i pc) (hkpc : t.kpc i ≠ .trapExit false) :
    returned s e t = none := by
  obtain ⟨⟨o, rfl⟩, -, -⟩ := hat
  simp [returned, hkpc]

end

/-! ## Runs with a history -/

section

variable {η : Type _} {P : KState → η → Event → Prop} {note : KState → Event → KState → η → η}
variable {a b : η} {s : KState}

/-- A run from boot to `s` has the history `b`: `a` at boot, and then updated
    by `note` in every step.  Every step meets `P`. -/
def RecordedBy (P : KState → η → Event → Prop) (note : KState → Event → KState → η → η) (a : η)
    (s : KState) (b : η) : Prop :=
  Lib.Steps (Lib.observe step note) (fun x e => P x.1 x.2 e) (bootState, a) (s, b)

/-- Any run from boot to `s`. -/
def Recorded (note : KState → Event → KState → η → η) (a : η) (s : KState) (b : η) : Prop :=
  RecordedBy (fun _ _ _ => True) note a s b

/-- The states of a recorded run are reachable. -/
theorem RecordedBy.reachable (h : RecordedBy P note a s b) : Reachable s :=
  Lib.Steps.forget h fun _ _ _ => trivial

/-- Every run has a history. -/
theorem Reachable.recorded (h : Reachable s) (note : KState → Event → KState → η → η) (a : η) :
    ∃ b, Recorded note a s b :=
  Lib.Steps.observed h note a

/-- What holds of boot and `a`, and is kept by every step of a run, holds of a
    run and its history. -/
theorem RecordedBy.invariant {I : KState → η → Prop} (h : RecordedBy P note a s b)
    (h0 : I bootState a)
    (hstep : ∀ {s e t b}, Reachable s → I s b → P s b e → step e s = some t →
      I t (note s e t b)) : I s b := by
  have hinv : Reachable s ∧ I s b := by
    have hboot : Reachable bootState := Lib.Steps.refl
    refine Lib.Steps.invariant (I := fun x => Reachable x.1 ∧ I x.1 x.2) h ⟨hboot, h0⟩ ?_
    intro x e y hx hP hxy
    obtain ⟨ht, hnote⟩ := Lib.observe_eq_some.mp hxy
    rw [hnote]
    exact ⟨hx.1.tail trivial ht, hstep hx.1 hx.2 hP ht⟩
  exact hinv.2

/-- The state and the history after a list of events from boot. -/
def historyAfter (note : KState → Event → KState → η → η) (a : η) (es : List Event) : KState × η :=
  Lib.endState (Lib.observe step note) es (bootState, a)

theorem RecordedBy.after {test : KState × η → Event → Bool}
    (htest : ∀ x e, test x e = true → P x.1 x.2 e) {es : List Event}
    (h : (Lib.runEvents (Lib.observe step note) test es (bootState, a)).isSome = true) :
    RecordedBy P note a (historyAfter note a es).1 (historyAfter note a es).2 :=
  Lib.Steps.endState htest h

theorem Recorded.after {es : List Event}
    (h : (Lib.runEvents (Lib.observe step note) (fun _ _ => true) es (bootState, a)).isSome =
      true) :
    Recorded note a (historyAfter note a es).1 (historyAfter note a es).2 :=
  RecordedBy.after (fun _ _ _ => trivial) h

end

end G20OsLab.Kernel
