/-
  G20OsLab.Sim.EdfOptimal

  EDF is optimal on one CPU.

  For processes with a single CPU burst the rows of a one-CPU EDF run form an
  earliest-deadline-first schedule of unit ticks (`edfRun_schedule`), so the
  general result on such schedules applies: a job is finished when its
  executed ticks reach its cost, and it is finished by its deadline.
-/

import G20OsLab.Lib.UnitSchedule
import G20OsLab.Sim.EdfOrder
import G20OsLab.Sim.Progress
import G20OsLab.Sim.TimelineMetrics

namespace G20OsLab.Sim

open Lib (JobSet EdfSchedule doneBy doneBy_succ forLoop_add)

/-! ## The end of a process -/

theorem PreTick.of_done {tick : Nat} {start proc : ProcessRuntime} (h : PreTick tick start proc)
    (hdone : start.state = .done) : proc = start := by
  cases h with
  | notYet | running | done => rfl
  | arrived hstate | waited hstate | counted hstate | ioEnded hstate | ioNext hstate =>
      exact absurd (hstate.symm.trans hdone) nofun

/-- A `DONE` process stays as it is. -/
theorem TickOf.of_done {c tick : Nat} {on : Fin c → Prop}
    {start before record after : ProcessRuntime} (h : TickOf tick on start before record after)
    (hdone : start.state = .done) : after = start := by
  cases h with
  | off hpre => exact hpre.of_done hdone
  | placed hpre hready =>
      rw [hpre.of_done hdone, hdone] at hready
      cases hready
  | stayed hrunning => exact absurd (hrunning.symm.trans hdone) nofun

/-- A process on a CPU was not `DONE` at the start of the tick. -/
theorem TickOf.not_done {c tick : Nat} {on : Fin c → Prop}
    {start before record after : ProcessRuntime} (h : TickOf tick on start before record after)
    {cpu : Fin c} (hon : on cpu) : start.state ≠ .done := by
  intro hdone
  cases h with
  | off _ _ hoff => exact hoff cpu hon
  | placed hpre hready =>
      rw [hpre.of_done hdone, hdone] at hready
      cases hready
  | stayed hrunning => exact absurd (hrunning.symm.trans hdone) nofun

/-- Completion is stamped no later than the end of the tick. -/
theorem TickOf.completion_le {c tick : Nat} {on : Fin c → Prop}
    {start before record after : ProcessRuntime} (h : TickOf tick on start before record after)
    (hstart : start.state = .done → start.completionTick ≤ tick) (hdone : after.state = .done) :
    after.completionTick ≤ tick + 1 := by
  have hpre : ∀ proc, PreTick tick start proc → proc.state = .done →
      proc.completionTick ≤ tick + 1 := by
    intro proc hproc hproc'
    cases hproc with
    | notYet hstate | waited hstate | running hstate | counted hstate =>
        exact absurd (hstate.symm.trans hproc') nofun
    | arrived | ioNext => cases hproc'
    | ioEnded => dsimp only; omega
    | done hstate => exact (hstart hstate).trans (by omega)
  have hran : ∀ proc, proc.state = .running → Ran tick proc after →
      after.completionTick ≤ tick + 1 := by
    intro proc hproc hafter
    cases hafter with
    | completed => exact Int.le_refl _
    | blocked | preempted => cases hdone
    | kept => exact absurd (hproc.symm.trans hdone) nofun
  cases h with
  | off hproc => exact hpre _ hproc hdone
  | placed _ _ _ hafter => exact hran _ rfl hafter
  | stayed hrunning _ _ hafter => exact hran _ hrunning hafter

section Run

variable {w : WfWorkload} (config : SimulationConfig) (algorithm : AlgorithmKind)

theorem procAt_done_stable (i : Fin w.processCount) {tick tick' : Nat} (h : tick ≤ tick')
    (hdone : (procAt w.toWorkload config algorithm i tick).state = .done) :
    procAt w.toWorkload config algorithm i tick' = procAt w.toWorkload config algorithm i tick := by
  induction tick', h using Nat.le_induction with
  | base => rfl
  | succ tick' _ ih =>
      rw [← ih] at hdone ⊢
      exact (procAt_tick config algorithm w.count_le i tick').of_done hdone

theorem procAt_completion_le (i : Fin w.processCount) (tick : Nat)
    (hdone : (procAt w.toWorkload config algorithm i tick).state = .done) :
    (procAt w.toWorkload config algorithm i tick).completionTick ≤ tick := by
  induction tick with
  | zero => cases hdone
  | succ tick ih =>
      have htick := procAt_tick config algorithm w.count_le i tick
      have hle := htick.completion_le ih hdone
      push_cast
      exact hle

end Run

/-! ## A run as a unit schedule -/

section OneCpu

variable (w : WfWorkload) (config : SimulationConfig)

/-- The processes of a workload as jobs; the cost is the first burst. -/
def Workload.jobs (w : Workload) : JobSet (Fin w.processCount) where
  release i := (w.processes i).arrival.toNat
  deadline i := (w.processes i).deadline.toNat
  cost i := ((w.processes i).durationAt 0).toNat

/-- The row of every tick on the first CPU. -/
def edfRun (tick : Nat) : Option (Fin w.processCount) :=
  ((recordAt w.toWorkload config .edf tick).cpus ⟨0, config.cpu_pos⟩).runningPid

variable {w config}

/-- A process with a single burst is never `BLOCKED`, and is `DONE` once it
    has been executed for the length of the burst. -/
theorem single_burst {proc : ProcessRuntime} (h : BurstInv proc)
    (hsingle : proc.spec.bursts.length = 1) (halt : proc.spec.Alternates) :
    proc.state ≠ .blocked ∧ served proc ≤ proc.spec.durationAt 0 ∧
      (proc.state = .done ↔ served proc = proc.spec.durationAt 0) := by
  -- a process that is not `DONE` is in its only burst
  have hzero : proc.state ≠ .done → proc.burstIndex = 0 := fun hdone => by
    have hlt := (h.pending hdone).1
    omega
  have hblocked : proc.state ≠ .blocked := by
    intro hblocked
    have hodd := h.ioBurst hblocked
    have hindex := hzero (by simp [hblocked])
    omega
  refine ⟨hblocked, ?_⟩
  by_cases hdone : proc.state = .done
  · have hindex := h.finished hdone
    have hall : served proc = proc.spec.durationAt 0 := by
      rw [served, if_pos (.inr hdone), hindex, hsingle,
        ProcessSpec.cpuTime_succ halt (by omega)]
      simp
    exact ⟨hall.le, fun _ => hall, fun _ => hdone⟩
  · have hserved : served proc = proc.spec.durationAt 0 - proc.remainingInBurst := by
      rw [served, if_neg (by simp [hblocked, hdone]), hzero hdone]
      simp
    have hrem := (h.pending hdone).2
    exact ⟨by omega, fun hc => absurd hc hdone, fun hc => by omega⟩

/-- On one CPU the schedule runs a process exactly if some CPU does. -/
theorem edfRun_eq_some_iff (hcpu : config.cpuCount = 1) {tick : Nat} {i : Fin w.processCount} :
    edfRun w config tick = some i ↔ ∃ cpu, OnCpu w.toWorkload config .edf i tick cpu := by
  constructor
  · exact fun h => ⟨_, h⟩
  · rintro ⟨cpu, hon⟩
    have hzero : cpu = ⟨0, config.cpu_pos⟩ := Fin.ext (by
      have hlt := cpu.isLt
      dsimp only
      omega)
    subst hzero
    exact hon

/-- The schedule has given a process its executed ticks. -/
theorem doneBy_edfRun (hcpu : config.cpuCount = 1) (i : Fin w.processCount) (tick : Nat) :
    (doneBy (edfRun w config) tick i : Int) =
      (procAt w.toWorkload config .edf i tick).runtimeTicks := by
  induction tick with
  | zero => rfl
  | succ tick ih =>
      rw [doneBy_succ, (procAt_tick config .edf w.count_le i tick).runtimeTicks, ← ih]
      simp only [edfRun_eq_some_iff hcpu, Nat.cast_add, Nat.cast_ite, Nat.cast_one, Nat.cast_zero]

/-- A job is unfinished exactly while its process is not `DONE`. -/
theorem doneBy_lt_cost_iff (hcpu : config.cpuCount = 1)
    (hsingle : ∀ i, (w.processes i).bursts.length = 1) (i : Fin w.processCount) (tick : Nat) :
    doneBy (edfRun w config) tick i < w.jobs.cost i ↔
      (procAt w.toWorkload config .edf i tick).state ≠ .done := by
  have hspec := procAt_spec config .edf w.count_le i tick
  have hburst := single_burst (procAt_burstInv config .edf i tick) (by rw [hspec]; exact hsingle i)
    (by rw [hspec]; exact (w.wellFormed i).alternates)
  have hdone : (doneBy (edfRun w config) tick i : Int) =
      (procAt w.toWorkload config .edf i tick).runtimeTicks := doneBy_edfRun hcpu i tick
  have hserved := procAt_served config .edf i tick
  have hcost := (w.wellFormed i).one_le_durationAt (w.wellFormed i).bursts_pos
  rw [hspec] at hburst
  have hdef : w.jobs.cost i = ((w.processes i).durationAt 0).toNat := rfl
  rw [hdef]
  obtain ⟨-, hle, hiff⟩ := hburst
  rw [Ne, hiff]
  omega

/-- A pending job is on the CPU or `READY` in the row. -/
theorem pending_cases (hcpu : config.cpuCount = 1)
    (hsingle : ∀ i, (w.processes i).bursts.length = 1) {tick : Nat} {i : Fin w.processCount}
    (hpending : w.jobs.Pending (edfRun w config) tick i) :
    edfRun w config tick = some i ∨
      ((recordAt w.toWorkload config .edf tick).procs i).state = .ready := by
  have hspec := procAt_spec config .edf w.count_le i tick
  have harrival : (procAt w.toWorkload config .edf i tick).spec.arrival ≤ tick := by
    have hrelease : (w.processes i).arrival.toNat ≤ tick := hpending.1
    rw [hspec]
    omega
  have hactive := (procAt_tick config .edf w.count_le i tick).active harrival
    ((doneBy_lt_cost_iff hcpu hsingle i tick).mp hpending.2)
  have hburst := single_burst (procAt_burstInv config .edf i tick) (by rw [hspec]; exact hsingle i)
    (by rw [hspec]; exact (w.wellFormed i).alternates)
  rcases hactive with (hblocked | hon) | hready
  · exact absurd hblocked hburst.1
  · exact .inl ((edfRun_eq_some_iff hcpu).mpr hon)
  · exact .inr hready

/-- The rows of a one-CPU EDF run are an earliest-deadline-first schedule. -/
theorem edfRun_schedule (hcpu : config.cpuCount = 1)
    (hsingle : ∀ i, (w.processes i).bursts.length = 1)
    (hdeadline : ∀ i, 0 ≤ (w.processes i).deadline) :
    EdfSchedule w.jobs (edfRun w config) where
  pending tick i hrun := by
    have harrival := onCpu_arrival_le hrun
    refine ⟨by simp only [Workload.jobs]; omega, ?_⟩
    rw [doneBy_lt_cost_iff hcpu hsingle]
    exact (procAt_tick config .edf w.count_le i tick).not_done hrun
  least tick i hrun k hpending := by
    rcases pending_cases hcpu hsingle hpending with hk | hready
    · rw [hrun, Option.some.injEq] at hk
      rw [hk]
    -- with deadlines given, the order of the rows is that of the deadlines
    · have hbefore := recordAt_edfRow config w.count_le tick _ i k hrun hready
      have hi := procInRow_spec config .edf w.count_le i tick
      have hk := procInRow_spec config .edf w.count_le k tick
      have hdi := hdeadline i
      have hdk := hdeadline k
      simp only [procInRow, ProcessRuntime.core] at hi hk
      rw [hi, hk, EdfBefore, edfKey, edfKey, if_neg (by omega), if_neg (by omega)] at hbefore
      simp only [Workload.jobs]
      omega
  busy tick hidle i hpending := by
    rcases pending_cases hcpu hsingle hpending with hrun | hready
    · have hnone := hidle.symm.trans hrun
      cases hnone
    -- the one CPU is not idle while a process is `READY`
    · have hdraw : Drawable .edf w.processes := fun hlottery => absurd hlottery (by decide)
      obtain ⟨cpu, j, hj⟩ := exists_busy_of_ready config .edf w.count_le hdraw hready
      have hnone := hidle.symm.trans ((edfRun_eq_some_iff hcpu).mpr ⟨cpu, hj⟩)
      cases hnone

end OneCpu

/-- Every process is done by its deadline, with the completion tick to show
    for it, in every later state. -/
theorem edf_done_by_deadline {w : WfWorkload} {config : SimulationConfig}
    (hcpu : config.cpuCount = 1) (hsingle : ∀ i, (w.processes i).bursts.length = 1)
    (hdeadline : ∀ i, 0 ≤ (w.processes i).deadline) {other : Nat → Option (Fin w.processCount)}
    (hfeasible : w.jobs.Feasible other) (i : Fin w.processCount) {T : Nat}
    (hT : (w.processes i).deadline ≤ T) :
    (procAt w.toWorkload config .edf i T).state = .done ∧
      (procAt w.toWorkload config .edf i T).completionTick ≤ (w.processes i).deadline := by
  have hmeets := (edfRun_schedule hcpu hsingle hdeadline).meets_deadlines hfeasible i
  have hdone :
      (procAt w.toWorkload config .edf i (w.processes i).deadline.toNat).state = .done := by
    by_contra hnot
    have hlt := (doneBy_lt_cost_iff hcpu hsingle i _).mpr hnot
    exact absurd hmeets hlt.ne
  have hle := procAt_completion_le config .edf i _ hdone
  have hpos := hdeadline i
  have hlater : (w.processes i).deadline.toNat ≤ T := by omega
  rw [procAt_done_stable config .edf i hlater hdone]
  exact ⟨hdone, by omega⟩

/-- No miss is counted when every process completed by its deadline. -/
theorem collectMetrics_no_miss {n : Nat} {procs : ProcTable n} {config : SimulationConfig}
    {algorithm : AlgorithmKind} {totalTicks busyTicks : Int}
    (h : ∀ i, (procs i).completionTick ≤ (procs i).spec.deadline) :
    (collectMetrics config algorithm procs totalTicks busyTicks).deadlineMisses = 0 := by
  have hnone : ∀ i, (if missedDeadline (procs i) then (1 : Int) else 0) = 0 := by
    intro i
    have hle := h i
    rw [missedDeadline, if_neg (by simp; omega)]
  dsimp only [collectMetrics]
  rw [forLoop_add]
  simp only [hnone, Finset.sum_const_zero, Int.add_zero]

/-- **EDF is optimal on one CPU.**  If any assignment of ticks to processes
    runs every process for its burst between its arrival and its deadline,
    the EDF run finishes every process by its deadline and reports no miss. -/
theorem edf_optimal (w : WfWorkload) (hsingle : ∀ i, (w.processes i).bursts.length = 1)
    (hdeadline : ∀ i, 0 ≤ (w.processes i).deadline) (config : SimulationConfig)
    (hcpu : config.cpuCount = 1) (hmax : ∀ i, (w.processes i).deadline ≤ config.maxTicks)
    (hfeasible : ∃ other, w.jobs.Feasible other) (mallocOk : Bool) (result : SimulationResult)
    (hresult : runSimulation w.toWorkload config .edf mallocOk = some result) :
    (∀ i, ((runLoop w.toWorkload config .edf).state.procs i).state = .done ∧
      ((runLoop w.toWorkload config .edf).state.procs i).completionTick ≤
        (w.processes i).deadline) ∧
      result.metrics.deadlineMisses = 0 := by
  obtain ⟨other, hother⟩ := hfeasible
  have hends := runLoop_spec w.toWorkload config .edf
  have hfinal : ∀ i, ((runLoop w.toWorkload config .edf).state.procs i).state = .done ∧
      ((runLoop w.toWorkload config .edf).state.procs i).completionTick ≤
        (w.processes i).deadline := by
    intro i
    have hpos := hdeadline i
    have hlimit := hmax i
    by_cases hlate : (w.processes i).deadline ≤ (runLoop w.toWorkload config .edf).ticks
    · rw [hends.state]
      exact edf_done_by_deadline hcpu hsingle hdeadline hother i hlate
    · -- a run that ends before the deadline ends with every process `DONE`
      have hexit : (runLoop w.toWorkload config .edf).exitedDone = true := by
        by_contra hexit
        have hfull := hends.full (by simpa using hexit)
        omega
      have hdone := allDone_iff.mp (hends.exit hexit).2 i
      refine ⟨hdone, ?_⟩
      rw [hends.state] at hdone ⊢
      have hle := procAt_completion_le config .edf i _ hdone
      exact hle.trans (by omega)
  refine ⟨hfinal, ?_⟩
  have hzero := (hdeadline ⟨0, w.count_pos⟩).trans (hmax ⟨0, w.count_pos⟩)
  rw [runSimulation_eq hzero hresult]
  apply collectMetrics_no_miss
  intro i
  have hspec : ((runLoop w.toWorkload config .edf).state.procs i).spec = w.processes i := by
    rw [hends.state]
    exact procAt_spec config .edf w.count_le i _
  rw [hspec]
  exact (hfinal i).2

/-- Three short processes on one CPU, of which the last is due first: running
    them in that order is feasible. -/
theorem edf_optimal_shortJobs :
    let jobs := shortJobs 3 (by decide) (by decide)
    (∀ i, ((runLoop jobs.toWorkload (oneCpu 3) .edf).state.procs i).state = .done ∧
      ((runLoop jobs.toWorkload (oneCpu 3) .edf).state.procs i).completionTick ≤
        (jobs.processes i).deadline) ∧
      ((runSimulation jobs.toWorkload (oneCpu 3) .edf true).get rfl).metrics.deadlineMisses = 0 :=
  edf_optimal (shortJobs 3 (by decide) (by decide)) (by decide) (by decide) (oneCpu 3) rfl
    (by decide) ⟨fun t => if t < 3 then some ⟨2 - t, Nat.lt_succ_of_le (Nat.sub_le 2 t)⟩ else none,
      by decide⟩ true _ (Option.some_get _).symm

end G20OsLab.Sim
