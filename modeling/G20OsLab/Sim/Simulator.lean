/-
  G20OsLab.Sim.Simulator

  The tick loop of the scheduling simulator (`src/core/simulator.c`).

  `run_simulation` is cut at its phase comments into one function per loop:
  arrivals, IO, scheduler tick, waiting, dispatch, `record_timeline`,
  execution.  `preRecord` is the part of a tick before `record_timeline` is
  called, `tickStep` a whole tick, `runFrom` the loop with its early exit.
-/

import G20OsLab.Lib.Loop
import G20OsLab.Sim.Mlfq
import G20OsLab.Sim.Lottery
import G20OsLab.Sim.Edf
import G20OsLab.Sim.Custom

namespace G20OsLab.Sim

open Lib (forLoop)

variable {n c : Nat}

/-! ## The scheduler interface -/

/-- `scheduler_init`: `memset`, then the initialiser of the algorithm. -/
def schedulerInit (algorithm : AlgorithmKind) (cpuCount n : Nat) (seed : UInt32) :
    SchedulerState n :=
  let zeroed : SchedulerState n :=
    { algorithm := algorithm
      cpuCount := cpuCount
      procCount := n
      seed := seed
      mlfq := ⟨fun _ => ReadyQueue.empty n, 0, 0⟩
      lottery := ⟨ReadyQueue.empty n, 0⟩
      edf := ⟨ReadyQueue.empty n⟩
      custom := ⟨fun _ => ReadyQueue.empty n, 0, 0, 0⟩ }
  match algorithm with
  | .mlfq => { zeroed with mlfq := mlfqInit n }
  | .lottery => { zeroed with lottery := lotteryInit n seed }
  | .edf => { zeroed with edf := edfInit n }
  | .custom | .all => { zeroed with custom := customInit n }

/-- `enqueue_process` (`scheduler_enqueue`). -/
def enqueueProcess (scheduler : SchedulerState n) (procs : ProcTable n) (pid : Fin n)
    (cpuHint now : Int) (reason : EnqueueReason) : SchedulerState n × ProcTable n :=
  let procs := Function.update procs pid { procs pid with state := .ready, readySince := now }
  match scheduler.algorithm with
  | .mlfq =>
      let (mlfq, procs) := mlfqEnqueue scheduler.mlfq procs pid reason
      ({ scheduler with mlfq := mlfq }, procs)
  | .lottery => ({ scheduler with lottery := lotteryEnqueue scheduler.lottery pid }, procs)
  | .edf => ({ scheduler with edf := edfEnqueue scheduler.edf pid }, procs)
  | .custom | .all =>
      let (custom, procs) :=
        customEnqueue scheduler.custom scheduler.cpuCount procs pid cpuHint
      ({ scheduler with custom := custom }, procs)

/-- `pick_next_process` (`scheduler_pick_next`). -/
def pickNextProcess (scheduler : SchedulerState n) (procs : ProcTable n) (cpuId : Nat)
    (now : Int) : Option (Fin n) × SchedulerState n :=
  match scheduler.algorithm with
  | .mlfq =>
      let (pid, mlfq) := mlfqPickNext scheduler.mlfq
      (pid, { scheduler with mlfq := mlfq })
  | .lottery =>
      let (pid, lottery) := lotteryPickNext scheduler.lottery procs
      (pid, { scheduler with lottery := lottery })
  | .edf =>
      let (pid, edf) := edfPickNext scheduler.edf procs
      (pid, { scheduler with edf := edf })
  | .custom | .all =>
      let (pid, custom) := customPickNext scheduler.custom procs cpuId now
      (pid, { scheduler with custom := custom })

/-- `scheduler_tick`. -/
def schedulerTick (scheduler : SchedulerState n) (procs : ProcTable n) (now : Int) :
    SchedulerState n × ProcTable n :=
  match scheduler.algorithm with
  -- the boost
  | .mlfq =>
      let (mlfq, procs) := mlfqTick scheduler.mlfq procs now
      ({ scheduler with mlfq := mlfq }, procs)
  -- work stealing
  | .custom =>
      let (custom, procs) := customTick scheduler.custom scheduler.cpuCount procs now
      ({ scheduler with custom := custom }, procs)
  | .lottery | .edf | .all => (scheduler, procs)

/-- `time_slice_for` (`scheduler_time_slice`). -/
def timeSliceFor (algorithm : AlgorithmKind) (proc : ProcessRuntime) : Int :=
  match algorithm with
  | .mlfq =>
      match proc.queueLevel with
      | 0 => 2
      | 1 => 4
      | _ => 8
  | .lottery => 2
  | .edf => 1
  | .custom => 4
  | .all => 1

/-! ## Simulator state -/

/-- The locals of `run_simulation` that live across ticks. -/
structure SimState (n c : Nat) where
  scheduler : SchedulerState n
  procs : ProcTable n
  cpus : Fin c → CpuState n
  timeline : Timeline
  busyTicks : Int

/-- `initialize_runtime`, one process. -/
def initRuntime (spec : ProcessSpec) : ProcessRuntime where
  spec := spec
  state := .new
  burstIndex := 0
  remainingInBurst := spec.durationAt 0
  readySince := spec.arrival
  firstRunTick := -1
  completionTick := -1
  totalWaiting := 0
  runtimeTicks := 0
  migrations := 0
  lastCpu := -1
  assignedCpu := spec.affinity
  queueLevel := 0

def initialState (w : Workload) (config : SimulationConfig) (algorithm : AlgorithmKind) :
    SimState w.processCount config.cpuCount where
  scheduler := schedulerInit algorithm config.cpuCount w.processCount config.seed
  procs := fun i => initRuntime (w.processes i)
  cpus := fun _ => ⟨none, 0⟩
  timeline :=
    { tickCount := config.maxTicks
      cpuCount := config.cpuCount
      slots := List.replicate (config.cpuCount * config.maxTicks).toNat (-1) }
  busyTicks := 0

/-- `enqueue_process` on the simulator state. -/
def SimState.enqueue (s : SimState n c) (pid : Fin n) (cpuHint now : Int)
    (reason : EnqueueReason) : SimState n c :=
  let (scheduler, procs) := enqueueProcess s.scheduler s.procs pid cpuHint now reason
  { s with scheduler := scheduler, procs := procs }

/-- Overwrite `procs[i]`. -/
def SimState.setProc (s : SimState n c) (i : Fin n) (proc : ProcessRuntime) : SimState n c :=
  { s with procs := Function.update s.procs i proc }

/-- Overwrite `cpus[i]`. -/
def SimState.setCpu (s : SimState n c) (i : Fin c) (cpu : CpuState n) : SimState n c :=
  { s with cpus := Function.update s.cpus i cpu }

/-! ## The phases of a tick -/

/-- Arrivals: enqueue every `NEW` process whose arrival has come. -/
def arrivalBody (tick : Nat) (i : Fin n) (s : SimState n c) : SimState n c :=
  if (s.procs i).state = .new ∧ (s.procs i).spec.arrival ≤ tick then
    s.enqueue i (s.procs i).assignedCpu tick .new
  else
    s

/-- IO: count a `BLOCKED` process down, and finish or re-enqueue it at zero. -/
def ioBody (tick : Nat) (i : Fin n) (s : SimState n c) : SimState n c :=
  let proc := s.procs i
  if proc.state = .blocked then
    let remaining := proc.remainingInBurst - 1
    if remaining ≤ 0 then
      let index := proc.burstIndex + 1
      -- the workload may end with an IO burst
      if proc.spec.bursts.length ≤ index then
        s.setProc i { proc with
          remainingInBurst := remaining
          burstIndex := index
          state := .done
          completionTick := tick }
      else
        (s.setProc i { proc with
          burstIndex := index
          remainingInBurst := proc.spec.durationAt index }).enqueue
            i proc.assignedCpu tick .ioComplete
    else
      s.setProc i { proc with remainingInBurst := remaining }
  else
    s

/-- `scheduler_tick` on the simulator state. -/
def tickBody (tick : Nat) (s : SimState n c) : SimState n c :=
  let (scheduler, procs) := schedulerTick s.scheduler s.procs tick
  { s with scheduler := scheduler, procs := procs }

/-- Waiting: every `READY` process waits one more tick. -/
def waitingBody (i : Fin n) (s : SimState n c) : SimState n c :=
  if (s.procs i).state = .ready then
    s.setProc i { s.procs i with totalWaiting := (s.procs i).totalWaiting + 1 }
  else
    s

/-- What dispatch on CPU `cpu` does to the picked process. -/
def dispatchProc (cpu tick : Nat) (proc : ProcessRuntime) : ProcessRuntime :=
  { proc with
    state := .running
    -- only the first dispatch sets it
    firstRunTick := if proc.firstRunTick < 0 then tick else proc.firstRunTick
    migrations :=
      if proc.lastCpu ≥ 0 ∧ proc.lastCpu ≠ cpu then proc.migrations + 1 else proc.migrations
    lastCpu := cpu }

/-- Dispatch: an idle CPU asks the policy for a process. -/
def dispatchBody (tick : Nat) (i : Fin c) (s : SimState n c) : SimState n c :=
  match (s.cpus i).runningPid with
  | some _ => s
  | none =>
      match pickNextProcess s.scheduler s.procs i tick with
      -- the pick can change the policy's state even if it finds nothing
      | (none, scheduler) => { s with scheduler := scheduler }
      | (some pid, scheduler) =>
          (({ s with scheduler := scheduler }).setProc pid
            (dispatchProc i tick (s.procs pid))).setCpu i ⟨some pid, 0⟩

/-- `record_timeline`, one CPU. -/
def recordBody (tick : Nat) (procs : ProcTable n) (cpus : Fin c → CpuState n) (cpu : Fin c)
    (slots : List Int) : List Int :=
  slots.set (tick * c + cpu)
    (match (cpus cpu).runningPid with
     | some slot => (procs slot).spec.pid
     | none => -1)

def recordTimeline (tick : Nat) (s : SimState n c) : SimState n c :=
  { s with timeline := { s.timeline with
      slots := forLoop c (recordBody tick s.procs s.cpus) s.timeline.slots } }

/-- One executed tick of a process. -/
def runProc (proc : ProcessRuntime) : ProcessRuntime :=
  { proc with
    runtimeTicks := proc.runtimeTicks + 1
    remainingInBurst := proc.remainingInBurst - 1 }

/-- The end of a CPU burst in tick `tick`. -/
def finishBurst (tick : Nat) (proc : ProcessRuntime) : ProcessRuntime :=
  let index := proc.burstIndex + 1
  if proc.spec.bursts.length ≤ index then
    { proc with burstIndex := index, state := .done, completionTick := tick + 1 }
  else
    { proc with
      burstIndex := index
      state := .blocked
      remainingInBurst := proc.spec.durationAt index }

/-- Execution: run the process of one CPU for a tick, then end its burst,
    preempt it, or leave it in place. -/
def executeBody (tick : Nat) (i : Fin c) (s : SimState n c) : SimState n c :=
  match (s.cpus i).runningPid with
  | none => s
  | some pid =>
      let proc := runProc (s.procs pid)
      let used := (s.cpus i).sliceUsed + 1
      let s := { s with busyTicks := s.busyTicks + 1 }
      -- a burst that ends with its slice counts as ended
      if proc.remainingInBurst ≤ 0 then
        (s.setProc pid (finishBurst tick proc)).setCpu i ⟨none, 0⟩
      else if used ≥ timeSliceFor s.scheduler.algorithm proc then
        ((s.setProc pid proc).enqueue pid i (tick + 1) .preempt).setCpu i ⟨none, 0⟩
      else
        (s.setProc pid proc).setCpu i ⟨some pid, used⟩

/-! ## Ticks -/

/-- The tick up to and including the waiting phase. -/
def preDispatch (tick : Nat) (s : SimState n c) : SimState n c :=
  forLoop n waitingBody
    (tickBody tick (forLoop n (ioBody tick) (forLoop n (arrivalBody tick) s)))

/-- The tick up to the call of `record_timeline`. -/
def preRecord (tick : Nat) (s : SimState n c) : SimState n c :=
  forLoop c (dispatchBody tick) (preDispatch tick s)

/-- One iteration of the loop of `run_simulation`. -/
def tickStep (tick : Nat) (s : SimState n c) : SimState n c :=
  forLoop c (executeBody tick) (recordTimeline tick (preRecord tick s))

/-- `all_done`. -/
def allDone (procs : ProcTable n) : Bool :=
  (List.finRange n).all fun i => decide ((procs i).state = .done)

/-! ## The run -/

/-- How the loop of `run_simulation` ended: the state, the number of executed
    ticks, and whether it left by the `all_done` exit. -/
structure RunEnd (n c : Nat) where
  state : SimState n c
  ticks : Nat
  exitedDone : Bool

/-- The loop from `tick` on, with `left` iterations to go. -/
def runFrom : (tick left : Nat) → SimState n c → RunEnd n c
  | tick, 0, s => ⟨s, tick, false⟩
  | tick, left + 1, s =>
      let s := tickStep tick s
      -- tested after the tick, so one tick is run in any case
      if allDone s.procs then ⟨s, tick + 1, true⟩ else runFrom (tick + 1) left s

def runLoop (w : Workload) (config : SimulationConfig) (algorithm : AlgorithmKind) :
    RunEnd w.processCount config.cpuCount :=
  runFrom 0 config.maxTicks.toNat (initialState w config algorithm)

/-- `algorithm_kind_name`. -/
def algorithmKindName : AlgorithmKind → String
  | .mlfq => "mlfq"
  | .lottery => "lottery"
  | .edf => "edf"
  | .custom => "custom"
  | .all => "all"

/-- `collect_metrics`'s test for a missed deadline. -/
def missedDeadline (proc : ProcessRuntime) : Bool :=
  decide (proc.spec.deadline ≥ 0 ∧ proc.completionTick > proc.spec.deadline)

/-- `collect_metrics`. -/
def collectMetrics (config : SimulationConfig) (algorithm : AlgorithmKind)
    (procs : ProcTable n) (totalTicks busyTicks : Int) : SimulationMetrics :=
  let sumOf (field : ProcessRuntime → Int) : Int :=
    forLoop n (fun i total => total + field (procs i)) 0
  -- the quotients are `double`s in the source
  let divisor : Int := if totalTicks > 0 then totalTicks else 1
  { algorithm := algorithm
    algorithmName := algorithmKindName algorithm
    cpuCount := config.cpuCount
    seed := config.seed
    totalTicks := totalTicks
    completed := n
    deadlineMisses := sumOf fun proc => if missedDeadline proc then 1 else 0
    busyTicks := busyTicks
    migrations := sumOf (·.migrations)
    throughput := (n : Rat) / divisor
    cpuUtilization := (busyTicks : Rat) / (divisor * config.cpuCount)
    avgWaiting := (sumOf (·.totalWaiting) : Rat) / n
    avgTurnaround := (sumOf fun proc => proc.completionTick - proc.spec.arrival : Rat) / n
    avgResponse := (sumOf fun proc => proc.firstRunTick - proc.spec.arrival : Rat) / n }

/-- `run_simulation`; `none` is the return of `-1` when `malloc` fails.  Both
    exits set `tick_count` and report the ticks: `tick + 1` on the `all_done`
    exit, `max_ticks` otherwise. -/
def runSimulation (w : Workload) (config : SimulationConfig) (algorithm : AlgorithmKind)
    (mallocOk : Bool) : Option SimulationResult :=
  if mallocOk then
    let final := runLoop w config algorithm
    let total : Int := if final.exitedDone then final.ticks else config.maxTicks
    some
      { metrics := collectMetrics config algorithm final.state.procs total final.state.busyTicks
        timeline := { final.state.timeline with tickCount := total } }
  else
    none

end G20OsLab.Sim
