/-
  G20OsLab.Sim.CutOff

  The metrics of a run that `max_ticks` cuts off.

  `collect_metrics` counts every process as completed and reads the tick
  fields of unfinished ones with their initial `-1`.  The metrics are truthful
  exactly if the tick limit lets every process reach `DONE`.
-/

import G20OsLab.Sim.TimelineMetrics

namespace G20OsLab.Sim

open Lib (forLoop_add)

/-! ## Truthful metrics -/

/-- The process has a deadline and had not completed by it within `total`
    ticks. -/
def MissedWithin (total : Int) (proc : ProcessRuntime) : Prop :=
  0 ≤ proc.spec.deadline ∧
    (proc.state = .done ∧ proc.spec.deadline < proc.completionTick ∨
      proc.state ≠ .done ∧ proc.spec.deadline < total)

instance (total : Int) (proc : ProcessRuntime) : Decidable (MissedWithin total proc) :=
  inferInstanceAs (Decidable (_ ∧ _))

/-- The metrics say what the table `procs` says, and no process takes away
    from the averages. -/
structure TruthfulMetrics {n : Nat} (procs : ProcTable n) (metrics : SimulationMetrics) :
    Prop where
  completed : metrics.completed = (Finset.univ.filter fun i => (procs i).state = .done).card
  misses : metrics.deadlineMisses =
    (Finset.univ.filter fun i => MissedWithin metrics.totalTicks (procs i)).card
  turnaround : metrics.avgTurnaround =
    ((∑ i, ((procs i).completionTick - (procs i).spec.arrival) : Int) : Rat) / n
  turnaround_nonneg : ∀ i, 0 ≤ (procs i).completionTick - (procs i).spec.arrival
  response : metrics.avgResponse =
    ((∑ i, ((procs i).firstRunTick - (procs i).spec.arrival) : Int) : Rat) / n
  response_nonneg : ∀ i, 0 ≤ (procs i).firstRunTick - (procs i).spec.arrival

/-- After some tick within the limit every process is `DONE`. -/
def CompletesWithin (w : Workload) (config : SimulationConfig) (algorithm : AlgorithmKind) :
    Prop :=
  ∃ tick : Nat, tick ≤ config.maxTicks ∧
    ∀ i, ((stateAt w config algorithm tick).procs i).state = .done

/-! ## The first dispatch -/

/-- A process that has been on a CPU got there after its arrival. -/
structure FirstRunInv (proc : ProcessRuntime) : Prop where
  arrived : proc.firstRunTick < 0 ∨ proc.spec.arrival ≤ proc.firstRunTick
  ran : proc.state = .running ∨ proc.state = .blocked ∨ proc.state = .done →
    proc.spec.arrival ≤ proc.firstRunTick

theorem FirstRunInv.preTick {tick : Nat} {start proc : ProcessRuntime} (h : FirstRunInv start)
    (hpre : PreTick tick start proc) : FirstRunInv proc := by
  cases hpre with
  | notYet | waited | running | done => exact ⟨h.arrived, h.ran⟩
  | arrived | ioNext => exact ⟨h.arrived, nofun⟩
  | counted hblocked | ioEnded hblocked => exact ⟨h.arrived, fun _ => h.ran (.inr (.inl hblocked))⟩

theorem FirstRunInv.dispatch {cpu tick : Nat} {proc : ProcessRuntime} (h : FirstRunInv proc)
    (harrival : proc.spec.arrival ≤ tick) : FirstRunInv (dispatchProc cpu tick proc) := by
  have hran : (dispatchProc cpu tick proc).spec.arrival ≤
      (dispatchProc cpu tick proc).firstRunTick := by
    rcases h.arrived with hnever | hearlier
    · simp only [dispatchProc, if_pos hnever]
      exact harrival
    · simp only [dispatchProc]
      split
      · exact harrival
      · exact hearlier
  exact ⟨.inr hran, fun _ => hran⟩

theorem FirstRunInv.ran_after {tick : Nat} {proc after : ProcessRuntime} (h : FirstRunInv proc)
    (hstate : proc.state = .running) (hran : Ran tick proc after) : FirstRunInv after := by
  have hfirst := h.ran (.inl hstate)
  cases hran <;> exact ⟨.inr hfirst, fun _ => hfirst⟩

/-- A tick keeps it, if a process on a CPU has arrived. -/
theorem FirstRunInv.tickOf {c tick : Nat} {on : Fin c → Prop}
    {start before record after : ProcessRuntime} (h : FirstRunInv start)
    (htick : TickOf tick on start before record after)
    (harrival : ∀ cpu, on cpu → start.spec.arrival ≤ tick) : FirstRunInv after := by
  cases htick with
  | off hpre => exact h.preTick hpre
  | @placed _ _ cpu hpre _ hon hran =>
      have hplaced : FirstRunInv (dispatchProc cpu tick before) :=
        (h.preTick hpre).dispatch (hpre.spec.symm ▸ harrival cpu hon)
      exact hplaced.ran_after rfl hran
  | stayed hrunning _ _ hran => exact h.ran_after hrunning hran

section Run

variable {w : WfWorkload} (config : SimulationConfig) (algorithm : AlgorithmKind)

theorem procAt_firstRunInv (i : Fin w.processCount) (tick : Nat) :
    FirstRunInv (procAt w.toWorkload config algorithm i tick) := by
  induction tick with
  | zero => exact ⟨.inl (show (-1 : Int) < 0 by decide), nofun⟩
  | succ tick ih =>
      refine ih.tickOf (procAt_tick config algorithm w.count_le i tick) ?_
      intro cpu hon
      rw [procAt_spec config algorithm w.count_le]
      exact onCpu_arrival_le hon

/-- The loop ends with every process `DONE` exactly if the limit suffices for
    that. -/
theorem runLoop_done_iff (hmax : 1 ≤ config.maxTicks) :
    (∀ i, ((runLoop w.toWorkload config algorithm).state.procs i).state = .done) ↔
      CompletesWithin w.toWorkload config algorithm := by
  have hends := runLoop_spec w.toWorkload config algorithm
  constructor
  · intro hdone
    rw [hends.state] at hdone
    have hle := hends.ticks_le
    exact ⟨_, by omega, hdone⟩
  · rintro ⟨tick, hlimit, hdone⟩
    cases hexit : (runLoop w.toWorkload config algorithm).exitedDone with
    | true => exact allDone_iff.mp (hends.exit hexit).2
    | false =>
        -- the loop went on to the limit, so no state before it was all `DONE`
        have hfull := hends.full hexit
        have hpos : 0 < tick := by
          rcases Nat.eq_zero_or_pos tick with rfl | hpos
          · exact absurd (hdone ⟨0, w.count_pos⟩) nofun
          · exact hpos
        have hrunning := hends.running tick hpos (by omega) (.inr hexit)
        rw [allDone_iff.mpr hdone] at hrunning
        cases hrunning

end Run

/-! ## The collector -/

section Collector

variable {n : Nat} (config : SimulationConfig) (algorithm : AlgorithmKind) (procs : ProcTable n)
  (total busy : Int)

theorem collectMetrics_deadlineMisses :
    (collectMetrics config algorithm procs total busy).deadlineMisses =
      (Finset.univ.filter fun i => missedDeadline (procs i) = true).card := by
  dsimp only [collectMetrics]
  rw [forLoop_add, Int.zero_add, Finset.card_filter]
  push_cast
  rfl

theorem collectMetrics_avgTurnaround :
    (collectMetrics config algorithm procs total busy).avgTurnaround =
      ((∑ i, ((procs i).completionTick - (procs i).spec.arrival) : Int) : Rat) / n := by
  dsimp only [collectMetrics]
  rw [forLoop_add, Int.zero_add]

theorem collectMetrics_avgResponse :
    (collectMetrics config algorithm procs total busy).avgResponse =
      ((∑ i, ((procs i).firstRunTick - (procs i).spec.arrival) : Int) : Rat) / n := by
  dsimp only [collectMetrics]
  rw [forLoop_add, Int.zero_add]

end Collector

/-- The metrics of a run are truthful exactly if the tick limit lets every
    process reach `DONE`. -/
theorem metrics_truthful_iff (w : WfWorkload) (config : SimulationConfig)
    (algorithm : AlgorithmKind) (hmax : 1 ≤ config.maxTicks) (mallocOk : Bool)
    (result : SimulationResult)
    (hresult : runSimulation w.toWorkload config algorithm mallocOk = some result) :
    TruthfulMetrics (runLoop w.toWorkload config algorithm).state.procs result.metrics ↔
      CompletesWithin w.toWorkload config algorithm := by
  rw [← runLoop_done_iff config algorithm hmax]
  have hends := runLoop_spec w.toWorkload config algorithm
  rw [runSimulation_eq (by omega) hresult]
  dsimp only
  constructor
  -- as many completed as there are processes: all of them
  · intro htruthful
    have hcompleted := htruthful.completed
    have hcount : (collectMetrics config algorithm
        (runLoop w.toWorkload config algorithm).state.procs
        (runLoop w.toWorkload config algorithm).ticks
        (runLoop w.toWorkload config algorithm).state.busyTicks).completed = w.processCount := rfl
    rw [hcount, Nat.cast_inj] at hcompleted
    have hall := Finset.filter_card_eq (hcompleted.symm.trans (Finset.card_fin _).symm)
    exact fun i => hall i (Finset.mem_univ i)
  · intro hdone
    have hproc : ∀ i, (runLoop w.toWorkload config algorithm).state.procs i =
        (stateAt w.toWorkload config algorithm
          (runLoop w.toWorkload config algorithm).ticks).procs i := fun i => by rw [hends.state]
    refine ⟨?_, ?_, collectMetrics_avgTurnaround .., fun i => ?_, collectMetrics_avgResponse ..,
      fun i => ?_⟩
    -- all are done, so each sum is over all processes
    · rw [Finset.filter_true_of_mem fun i _ => hdone i, Finset.card_fin]
      rfl
    · rw [collectMetrics_deadlineMisses]
      congr 2
      refine Finset.filter_congr ?_
      intro i _
      simp [missedDeadline, MissedWithin, hdone i]
    · have hbalance := procAt_balance config algorithm w.count_le i
        (w.wellFormed i).arrival_nonneg (runLoop w.toWorkload config algorithm).ticks
      have hdone' := hdone i
      rw [hproc] at hdone' ⊢
      have hturnaround := hbalance.done hdone'
      dsimp only [procAt, ProcessRuntime.core] at hturnaround
      omega
    · have hfirst := procAt_firstRunInv config algorithm i
        (runLoop w.toWorkload config algorithm).ticks
      have hdone' := hdone i
      rw [hproc] at hdone' ⊢
      have hran := hfirst.ran (.inr (.inr hdone'))
      dsimp only [procAt, ProcessRuntime.core] at hran
      omega

/-- Three processes, whose last tick of work is tick 6, within a limit of seven
    ticks. -/
theorem metrics_truthful_iff_mixedJobs :
    TruthfulMetrics (runLoop mixedJobs.toWorkload (oneCpu 7) .edf).state.procs
        ((runSimulation mixedJobs.toWorkload (oneCpu 7) .edf true).get (by decide)).metrics ↔
      CompletesWithin mixedJobs.toWorkload (oneCpu 7) .edf :=
  metrics_truthful_iff mixedJobs (oneCpu 7) .edf (by decide) true _ (Option.some_get _).symm

/-- Two short processes on one CPU, cut off after one tick: both are counted
    as completed. -/
theorem shortJobs_cut_off :
    ¬ ∀ (w : WfWorkload) (config : SimulationConfig) (algorithm : AlgorithmKind)
        (mallocOk : Bool) (result : SimulationResult), 1 ≤ config.maxTicks →
        (∀ i, 1 ≤ (w.processes i).tickets) →
        runSimulation w.toWorkload config algorithm mallocOk = some result →
        TruthfulMetrics (runLoop w.toWorkload config algorithm).state.procs result.metrics := by
  intro h
  have htruthful := h (shortJobs 2 (by decide) (by decide)) (oneCpu 1) .edf true _ (by decide)
    (fun _ => Int.le_refl 1) rfl
  have hcompleted := htruthful.completed
  revert hcompleted
  decide +kernel

end G20OsLab.Sim
