/-
  G20OsLab.Sim.Run

  The states of a run, tick by tick.

  `stateAt t` is the state at the start of tick `t`, `recordAt t` the state
  when `record_timeline` is called in it.  `runLoop_spec` says which of these
  the loop of `run_simulation` passes through: it executes the ticks below
  `ticks` and stops either at `max_ticks` or after the first tick that leaves
  every process `DONE`.
-/

import G20OsLab.Sim.Invariant

namespace G20OsLab.Sim

variable (w : Workload) (config : SimulationConfig) (algorithm : AlgorithmKind)

/-- The state at the start of tick `tick`. -/
def stateAt : Nat → SimState w.processCount config.cpuCount
  | 0 => initialState w config algorithm
  | tick + 1 => tickStep tick (stateAt tick)

/-- The state when `record_timeline` is called in tick `tick`. -/
def recordAt (tick : Nat) : SimState w.processCount config.cpuCount :=
  preRecord tick (stateAt w config algorithm tick)

@[simp] theorem stateAt_zero : stateAt w config algorithm 0 = initialState w config algorithm :=
  rfl

theorem stateAt_succ (tick : Nat) :
    stateAt w config algorithm (tick + 1) = tickStep tick (stateAt w config algorithm tick) :=
  rfl

/-- How a loop over the ticks from `tick` on ends. -/
structure LoopEnds (tick left : Nat) (final : RunEnd w.processCount config.cpuCount) : Prop where
  state : final.state = stateAt w config algorithm final.ticks
  le_ticks : tick ≤ final.ticks
  ticks_le : final.ticks ≤ tick + left
  exit : final.exitedDone = true → tick < final.ticks ∧ allDone final.state.procs = true
  full : final.exitedDone = false → final.ticks = tick + left
  running : ∀ k, tick < k → k ≤ final.ticks → (k < final.ticks ∨ final.exitedDone = false) →
    allDone (stateAt w config algorithm k).procs = false

theorem runFrom_ends (left tick : Nat) :
    LoopEnds w config algorithm tick left
      (runFrom tick left (stateAt w config algorithm tick)) := by
  induction left generalizing tick with
  | zero =>
      exact ⟨rfl, Nat.le_refl _, Nat.le_refl _, fun h => (Bool.false_ne_true h).elim,
        fun _ => rfl, fun k hk hk' _ => absurd hk (Nat.not_lt.mpr hk')⟩
  | succ left ih =>
      unfold runFrom
      dsimp only
      rw [← stateAt_succ]
      split
      · rename_i hdone
        refine ⟨rfl, Nat.le_succ _, by dsimp only; omega,
          fun _ => ⟨Nat.lt_succ_self _, hdone⟩,
          fun h => (Bool.false_ne_true h.symm).elim, fun k hk hk' hlt => ?_⟩
        rcases hlt with hlt | hfalse
        · exact absurd hk (by dsimp only at hlt; omega)
        · exact (Bool.false_ne_true hfalse.symm).elim
      · rename_i hdone
        have h := ih (tick + 1)
        refine ⟨h.state, by have := h.le_ticks; omega, by have := h.ticks_le; omega,
          fun he => ⟨by have := (h.exit he).1; omega, (h.exit he).2⟩,
          fun hf => by have := h.full hf; omega, fun k hk hk' hlt => ?_⟩
        by_cases hk1 : k = tick + 1
        · subst hk1
          simpa using hdone
        · exact h.running k (by omega) hk' hlt

/-- The loop of `run_simulation` passes through the states `stateAt`. -/
theorem runLoop_spec :
    LoopEnds w config algorithm 0 config.maxTicks.toNat (runLoop w config algorithm) :=
  runFrom_ends w config algorithm config.maxTicks.toNat 0

theorem allDone_iff {n : Nat} {procs : ProcTable n} :
    allDone procs = true ↔ ∀ i, (procs i).state = .done := by
  simp [allDone]

/-! ## The invariant along the run -/

variable {w}

theorem stateAt_inv (hn : w.processCount ≤ maxProcesses) (tick : Nat) :
    SimInv (stateAt w config algorithm tick) := by
  induction tick with
  | zero => exact initialState_inv w config algorithm
  | succ tick ih => exact tickStep_inv hn config.cpu_pos ih tick

theorem preDispatch_stateAt_inv (hn : w.processCount ≤ maxProcesses) (tick : Nat) :
    SimInv (preDispatch tick (stateAt w config algorithm tick)) :=
  preDispatch_inv hn config.cpu_pos (stateAt_inv config algorithm hn tick) tick

theorem recordAt_inv (hn : w.processCount ≤ maxProcesses) (tick : Nat) :
    SimInv (recordAt w config algorithm tick) :=
  preRecord_inv hn config.cpu_pos (stateAt_inv config algorithm hn tick) tick

end G20OsLab.Sim
