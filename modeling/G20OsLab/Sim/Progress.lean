/-
  G20OsLab.Sim.Progress

  Every simulation finishes.

  The measure is the work left, summed over the processes: the durations of
  the bursts that have not run yet.  No tick adds to it, and once the last
  process has arrived every tick takes something off it, because a process
  that is neither `DONE` nor `BLOCKED` is `READY` or `RUNNING` and then some
  CPU is busy.
-/

import Mathlib.Algebra.Order.BigOperators.Group.Finset
import Mathlib.Algebra.Order.Ring.Int
import G20OsLab.Sim.Accounting
import G20OsLab.Sim.Bursts
import G20OsLab.Sim.WorkConserving

namespace G20OsLab.Sim

/-- The largest arrival. -/
def Workload.lastArrival (w : Workload) : Int :=
  ((List.finRange w.processCount).map fun i => (w.processes i).arrival).foldr max 0

/-- The durations of all bursts of all processes. -/
def Workload.totalWork (w : Workload) : Int :=
  ∑ i, ((w.processes i).bursts.map Burst.duration).sum

theorem Workload.arrival_le_lastArrival (w : Workload) (i : Fin w.processCount) :
    (w.processes i).arrival ≤ w.lastArrival := by
  rw [lastArrival]
  have hmem := List.mem_finRange i
  generalize List.finRange w.processCount = table at hmem ⊢
  induction table with
  | nil => cases hmem
  | cons j rest ih =>
      rw [List.map_cons, List.foldr_cons]
      rcases List.mem_cons.mp hmem with rfl | hmem
      · exact le_max_left ..
      · exact (ih hmem).trans (le_max_right ..)

/-- No arrival is negative. -/
theorem Workload.lastArrival_nonneg (w : Workload) : 0 ≤ w.lastArrival := by
  rw [lastArrival]
  induction List.finRange w.processCount with
  | nil => exact le_refl 0
  | cons j rest ih => exact ih.trans (le_max_right ..)

/-- There is work to do. -/
theorem WfWorkload.totalWork_pos (w : WfWorkload) : 0 < w.totalWork := by
  refine Finset.sum_pos (fun i _ => ?_) ⟨⟨0, w.count_pos⟩, Finset.mem_univ _⟩
  have hfirst : (w.processes i).workFrom 0 = _ :=
    ProcessSpec.workFrom_of_lt (w.wellFormed i).bursts_pos
  have hduration := (w.wellFormed i).one_le_durationAt (w.wellFormed i).bursts_pos
  have hrest := (w.wellFormed i).workFrom_nonneg (0 + 1)
  have hsum : ((w.processes i).bursts.map Burst.duration).sum = (w.processes i).workFrom 0 := rfl
  omega

section Run

variable (w : WfWorkload) (config : SimulationConfig) (algorithm : AlgorithmKind)

/-- The work left in the whole table at the start of tick `tick`. -/
def workAt (tick : Nat) : Int :=
  ∑ i, workLeft (procAt w.toWorkload config algorithm i tick)

/-- At tick 0 all the work is left. -/
theorem workAt_zero : workAt w config algorithm 0 = w.totalWork :=
  Finset.sum_congr rfl fun i _ => initRuntime_workLeft (w.wellFormed i)

theorem workAt_nonneg (tick : Nat) : 0 ≤ workAt w config algorithm tick :=
  Finset.sum_nonneg fun i _ => (procAt_burstInv config algorithm i tick).workLeft_nonneg
    (procAt_wellFormed config algorithm i tick)

theorem workLeft_step (i : Fin w.processCount) (tick : Nat) :
    workLeft (procAt w.toWorkload config algorithm i (tick + 1)) ≤
        workLeft (procAt w.toWorkload config algorithm i tick) ∧
      ((procAt w.toWorkload config algorithm i tick).state = .blocked ∨
          (∃ cpu, OnCpu w.toWorkload config algorithm i tick cpu) →
        workLeft (procAt w.toWorkload config algorithm i (tick + 1)) + 1 ≤
          workLeft (procAt w.toWorkload config algorithm i tick)) :=
  (procAt_tick config algorithm w.count_le i tick).workLeft
    (procAt_burstInv config algorithm i tick) (procAt_wellFormed config algorithm i tick)

/-- The work left does not grow. -/
theorem workAt_succ_le (tick : Nat) :
    workAt w config algorithm (tick + 1) ≤ workAt w config algorithm tick :=
  Finset.sum_le_sum fun i _ => (workLeft_step w config algorithm i tick).1

variable {w}

/-- A process that has arrived and is not `DONE` counts down, is on a CPU, or
    waits in the row. -/
theorem TickOf.active {c tick : Nat} {on : Fin c → Prop}
    {start before record after : ProcessRuntime} (htick : TickOf tick on start before record after)
    (harrival : start.spec.arrival ≤ tick) (hpending : start.state ≠ .done) :
    (start.state = .blocked ∨ ∃ cpu, on cpu) ∨ record.state = .ready := by
  cases htick with
  | placed _ _ hon _ => exact .inl (.inr ⟨_, hon⟩)
  | stayed _ _ hon _ => exact .inl (.inr ⟨_, hon⟩)
  | off hpre hnot _ =>
      cases hpre with
      | notYet _ hlt => omega
      | arrived | ioNext => exact .inr rfl
      | waited hready => exact .inr hready
      | running hrunning => exact absurd hrunning hnot
      | counted hblocked | ioEnded hblocked => exact .inl (.inl hblocked)
      | done hdone => exact absurd hdone hpending

/-- Once every process has arrived, a tick finds one `BLOCKED` or on a CPU,
    unless all are `DONE`. -/
theorem exists_active (hdraw : Drawable algorithm w.processes) {tick : Nat}
    (harrived : w.lastArrival ≤ tick)
    (hpending : allDone (stateAt w.toWorkload config algorithm tick).procs = false) :
    ∃ i, (procAt w.toWorkload config algorithm i tick).state = .blocked ∨
      ∃ cpu, OnCpu w.toWorkload config algorithm i tick cpu := by
  have hsome : ∃ i, (procAt w.toWorkload config algorithm i tick).state ≠ .done := by
    by_contra hall
    have hdone : allDone (stateAt w.toWorkload config algorithm tick).procs = true :=
      allDone_iff.mpr fun i => by
        by_contra hi
        exact hall ⟨i, hi⟩
    rw [hdone] at hpending
    cases hpending
  obtain ⟨i, hi⟩ := hsome
  have htick := procAt_tick config algorithm w.count_le i tick
  have harrival : (procAt w.toWorkload config algorithm i tick).spec.arrival ≤ tick := by
    rw [procAt_spec config algorithm w.count_le]
    exact (w.arrival_le_lastArrival i).trans harrived
  rcases htick.active harrival hi with hactive | hready
  · exact ⟨i, hactive⟩
  · obtain ⟨cpu, j, hj⟩ := exists_busy_of_ready config algorithm w.count_le hdraw hready
    exact ⟨j, .inr ⟨cpu, hj⟩⟩

/-- Every tick after the last arrival works something off. -/
theorem workAt_succ_lt (hdraw : Drawable algorithm w.processes) {tick : Nat}
    (harrived : w.lastArrival ≤ tick)
    (hpending : allDone (stateAt w.toWorkload config algorithm tick).procs = false) :
    workAt w config algorithm (tick + 1) < workAt w config algorithm tick := by
  obtain ⟨i, hi⟩ := exists_active config algorithm hdraw harrived hpending
  exact Finset.sum_lt_sum (fun j _ => (workLeft_step w config algorithm j tick).1)
    ⟨i, Finset.mem_univ i,
      Int.lt_iff_add_one_le.mpr ((workLeft_step w config algorithm i tick).2 hi)⟩

/-- The work left `k` ticks after the last arrival, in a run still going. -/
theorem workAt_le (hdraw : Drawable algorithm w.processes) {A k : Nat} (hA : w.lastArrival ≤ A)
    (hpending : ∀ tick, tick < A + k →
      allDone (stateAt w.toWorkload config algorithm tick).procs = false) :
    workAt w config algorithm (A + k) ≤ w.totalWork - k := by
  induction k with
  | zero =>
      have hmono : ∀ t, workAt w config algorithm t ≤ w.totalWork := by
        intro t
        induction t with
        | zero => exact (workAt_zero w config algorithm).le
        | succ t ih => exact (workAt_succ_le w config algorithm t).trans ih
      simpa using hmono A
  | succ k ih =>
      have hprev := ih fun tick htick => hpending tick (by omega)
      have hstep := workAt_succ_lt config algorithm hdraw (by omega) (hpending (A + k) (by omega))
      rw [← Nat.add_assoc]
      omega

theorem initial_not_done :
    allDone (stateAt w.toWorkload config algorithm 0).procs = false := by
  rw [Bool.eq_false_iff]
  intro hdone
  have hnew := allDone_iff.mp hdone ⟨0, w.count_pos⟩
  cases hnew

/-- A run is not going on after the last arrival and all the work: it would
    have less than no work left. -/
theorem ticks_lt_of_running (hdraw : Drawable algorithm w.processes) {T : Nat}
    (hrunning : ∀ tick, 0 < tick → tick ≤ T →
      allDone (stateAt w.toWorkload config algorithm tick).procs = false) :
    T < w.lastArrival.toNat + w.totalWork.toNat := by
  have hA := Int.toNat_of_nonneg w.lastArrival_nonneg
  have hW := Int.toNat_of_nonneg w.totalWork_pos.le
  by_contra hge
  have hpending : ∀ tick, tick < w.lastArrival.toNat + (w.totalWork.toNat + 1) →
      allDone (stateAt w.toWorkload config algorithm tick).procs = false := by
    intro tick htick
    rcases Nat.eq_zero_or_pos tick with rfl | hpos
    · exact initial_not_done config algorithm
    · exact hrunning tick hpos (by omega)
  have hwork := workAt_le config algorithm hdraw (by omega) hpending
  have hnonneg := workAt_nonneg w config algorithm
    (w.lastArrival.toNat + (w.totalWork.toNat + 1))
  push_cast at hwork
  omega

/-- A process that has completed did so at a tick of the run. -/
theorem completionTick_nonneg {i : Fin w.processCount} {tick : Nat}
    (hdone : ((stateAt w.toWorkload config algorithm tick).procs i).state = .done) :
    0 ≤ ((stateAt w.toWorkload config algorithm tick).procs i).completionTick := by
  have harrival := (w.wellFormed i).arrival_nonneg
  have hbalance := procAt_balance config algorithm w.count_le i harrival tick
  have hturnaround := hbalance.done hdone
  rw [procAt_spec config algorithm w.count_le] at hturnaround
  dsimp only [procAt, ProcessRuntime.core] at hturnaround
  omega

end Run

/-- **Every simulation finishes.**  A tick limit of the last arrival plus all
    burst durations is enough for every policy: the loop leaves by the
    `all_done` exit, within that many ticks. -/
theorem simulation_completes (w : WfWorkload) (config : SimulationConfig)
    (algorithm : AlgorithmKind) (hdraw : Drawable algorithm w.processes)
    (hmax : w.lastArrival + w.totalWork ≤ config.maxTicks) :
    (runLoop w.toWorkload config algorithm).exitedDone = true ∧
      (∀ i, ((runLoop w.toWorkload config algorithm).state.procs i).state = .done ∧
        0 ≤ ((runLoop w.toWorkload config algorithm).state.procs i).completionTick) ∧
      ∃ result, runSimulation w.toWorkload config algorithm true = some result ∧
        result.metrics.totalTicks ≤ w.lastArrival + w.totalWork := by
  have hends := runLoop_spec w.toWorkload config algorithm
  have hA := Int.toNat_of_nonneg w.lastArrival_nonneg
  have hW := Int.toNat_of_nonneg w.totalWork_pos.le
  have hexit : (runLoop w.toWorkload config algorithm).exitedDone = true := by
    by_contra hexit
    have hfalse : (runLoop w.toWorkload config algorithm).exitedDone = false := by
      simpa using hexit
    have hfull := hends.full hfalse
    have hlt := ticks_lt_of_running config algorithm hdraw fun tick hpos hle =>
      hends.running tick hpos hle (.inr hfalse)
    omega
  obtain ⟨hpos, hdone⟩ := hends.exit hexit
  have hticks := @ticks_lt_of_running w config algorithm hdraw
    ((runLoop w.toWorkload config algorithm).ticks - 1) fun tick htick hle =>
      hends.running tick htick (by omega) (.inl (by omega))
  refine ⟨hexit, fun i => ⟨allDone_iff.mp hdone i, ?_⟩, _, rfl, ?_⟩
  · have hstate := allDone_iff.mp hdone i
    rw [hends.state] at hstate ⊢
    exact completionTick_nonneg config algorithm hstate
  · simp only [collectMetrics, hexit, if_true]
    omega

/-- Nine ticks of work, the last of which arrive in tick 2, under the lottery. -/
theorem simulation_completes_mixedJobs :
    (runLoop mixedJobs.toWorkload (oneCpu 11) .lottery).exitedDone = true ∧
      (∀ i, ((runLoop mixedJobs.toWorkload (oneCpu 11) .lottery).state.procs i).state = .done ∧
        0 ≤ ((runLoop mixedJobs.toWorkload (oneCpu 11) .lottery).state.procs i).completionTick) ∧
      ∃ result, runSimulation mixedJobs.toWorkload (oneCpu 11) .lottery true = some result ∧
        result.metrics.totalTicks ≤ mixedJobs.lastArrival + mixedJobs.totalWork :=
  simulation_completes mixedJobs (oneCpu 11) .lottery (fun _ => ⟨by decide, by decide⟩) (by decide)

end G20OsLab.Sim
