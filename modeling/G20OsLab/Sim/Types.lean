/-
  G20OsLab.Sim.Types

  The data model of the scheduling simulator (`include/sim.h`,
  `include/scheduler.h`).

  A run fixes its process count `n` and its CPU count `c`, so a process index
  is a `Fin n`, the runtime table `procs` is a function on `Fin n`, and the
  CPU table a function on `Fin c`.  The index `-1` (no process) is `none`.
  C `int` fields are `Int`; the two places where the source can wrap (the
  lottery's ticket sums and its generator) spell the wrapping out.
-/

import Mathlib.Algebra.Group.Nat.Defs
import Mathlib.Data.Fintype.Basic
import Mathlib.Logic.Function.Basic

namespace G20OsLab.Sim

/-! ## Limits -/

def maxProcesses : Nat := 128

theorem one_le_maxProcesses : 1 ≤ maxProcesses := by decide

def maxBursts : Nat := 32

def maxCpus : Nat := 8

/-- `INT_MAX` of a 32-bit `int`. -/
def intMax : Int := 2147483647

/-- A 32-bit `int` result, overflow read as wrapping. -/
def wrap32 (x : Int) : Int := Int.bmod x (2 ^ 32)

/-! ## Enumerations -/

inductive AlgorithmKind
  | mlfq | lottery | edf | custom | all
  deriving DecidableEq, Repr

inductive BurstType
  | cpu | io
  deriving DecidableEq, Repr

inductive ProcState
  | new | ready | running | blocked | done
  deriving DecidableEq, Repr

inductive EnqueueReason
  | new | ioComplete | preempt
  deriving DecidableEq, Repr

/-! ## Workloads -/

structure Burst where
  type : BurstType
  duration : Int
  deriving DecidableEq, Repr

/-- `ProcessSpec`; `burst_count` is the length of `bursts`. -/
structure ProcessSpec where
  pid : Int
  arrival : Int
  basePriority : Int
  tickets : Int
  deadline : Int
  affinity : Int
  bursts : List Burst
  deriving DecidableEq, Repr

/-- `bursts[k].duration`, zero past the end as `memset` leaves it. -/
def ProcessSpec.durationAt (spec : ProcessSpec) (k : Nat) : Int :=
  (spec.bursts.getD k ⟨.cpu, 0⟩).duration

structure Workload where
  processCount : Nat
  processes : Fin processCount → ProcessSpec

/-- The burst list alternates CPU and IO bursts, starting with CPU. -/
def ProcessSpec.Alternates (spec : ProcessSpec) : Prop :=
  ∀ k, (h : k < spec.bursts.length) →
    (spec.bursts.get ⟨k, h⟩).type = if k % 2 = 0 then .cpu else .io

/-- What `parse_workload` asks of one line of the file. -/
structure ProcessSpec.WellFormed (spec : ProcessSpec) : Prop where
  pid_pos : 0 < spec.pid
  arrival_nonneg : 0 ≤ spec.arrival
  bursts_pos : 0 < spec.bursts.length
  bursts_le : spec.bursts.length ≤ maxBursts
  alternates : spec.Alternates
  duration_pos : ∀ b ∈ spec.bursts, 1 ≤ b.duration

/-- A workload with 1 to 128 well-formed processes. -/
structure WfWorkload extends Workload where
  count_pos : 0 < processCount
  count_le : processCount ≤ maxProcesses
  wellFormed : ∀ i, (processes i).WellFormed

/-- A process with pid `pid` that arrives at tick 0, has one CPU burst of one
    tick, one ticket, and is due at tick `deadline`. -/
def ProcessSpec.short (pid deadline : Int) : ProcessSpec :=
  ⟨pid, 0, 0, 1, deadline, -1, [⟨.cpu, 1⟩]⟩

theorem ProcessSpec.short_wellFormed {pid : Int} (h : 0 < pid) (deadline : Int) :
    (ProcessSpec.short pid deadline).WellFormed where
  pid_pos := h
  arrival_nonneg := Int.le_refl 0
  bursts_pos := Nat.one_pos
  bursts_le := by
    change 1 ≤ maxBursts
    decide
  alternates k hk := by
    obtain rfl : k = 0 := Nat.lt_one_iff.mp hk
    rfl
  duration_pos b hb := by
    obtain rfl := List.mem_singleton.mp hb
    exact Int.le_refl 1

/-- `count` short processes with pids from 1 on, due at ticks `count` down
    to 1. -/
def shortJobs (count : Nat) (hpos : 0 < count) (hle : count ≤ maxProcesses) : WfWorkload where
  processCount := count
  processes := fun i => .short (i + 1) (count - i)
  count_pos := hpos
  count_le := hle
  wellFormed := fun i => ProcessSpec.short_wellFormed (by omega) _

/-- One short process, due at tick 1. -/
def oneTick : WfWorkload := shortJobs 1 (by decide) (by decide)

/-- Three processes that arrive one after another and have different tickets,
    the first with an IO burst and some fields negative. -/
def mixedJobs : WfWorkload where
  processCount := 3
  processes := [⟨4, 0, -5, 2, 14, -1, [⟨.cpu, 3⟩, ⟨.io, 2⟩, ⟨.cpu, 1⟩]⟩,
    ⟨2, 1, 0, 1, -1, 0, [⟨.cpu, 2⟩]⟩, ⟨9, 2, 7, 3, 6, -1, [⟨.cpu, 1⟩]⟩].get
  count_pos := Nat.succ_pos 2
  count_le := Nat.le_of_ble_eq_true rfl
  wellFormed i :=
    match i with
    | 0 | 1 | 2 =>
      { pid_pos := by decide
        arrival_nonneg := by decide
        bursts_pos := by decide
        bursts_le := by decide
        alternates := by
          unfold ProcessSpec.Alternates
          decide
        duration_pos := by decide }

/-- `SimulationConfig`, with the range `parse_args` admits for `--cpus`.
    The paths and `run_all` are read by `main` only. -/
structure SimulationConfig where
  cpuCount : Nat
  seed : UInt32
  maxTicks : Int
  cpu_pos : 0 < cpuCount
  cpu_le : cpuCount ≤ maxCpus

/-- One CPU, the default seed, a limit of `maxTicks` ticks. -/
def oneCpu (maxTicks : Int) : SimulationConfig where
  cpuCount := 1
  seed := 42
  maxTicks := maxTicks
  cpu_pos := by decide
  cpu_le := by decide

/-! ## Runtime state -/

structure ProcessRuntime where
  spec : ProcessSpec
  state : ProcState
  burstIndex : Nat
  remainingInBurst : Int
  readySince : Int
  firstRunTick : Int
  completionTick : Int
  totalWaiting : Int
  runtimeTicks : Int
  migrations : Int
  lastCpu : Int
  assignedCpu : Int
  queueLevel : Nat
  deriving DecidableEq, Repr

/-- The process table `procs[]` of a run with `n` processes. -/
abbrev ProcTable (n : Nat) := Fin n → ProcessRuntime

structure CpuState (n : Nat) where
  runningPid : Option (Fin n)
  sliceUsed : Int
  deriving DecidableEq, Repr

/-- `ReadyQueue`; `count` is the length of `items`.  `dropped` is a ghost
    field: it counts the pushes that found the queue full, which the source
    discards without a trace.  Nothing reads it. -/
structure ReadyQueue (n : Nat) where
  items : List (Fin n)
  dropped : Nat
  deriving DecidableEq, Repr

/-- The queue `memset` leaves. -/
def ReadyQueue.empty (n : Nat) : ReadyQueue n := ⟨[], 0⟩

/-! ## Policy state

`SchedulerState.state` is a union of which only the member of the running
algorithm is ever touched; the model keeps the four members side by side.
An array of queues is a function of the index. -/

structure MlfqState (n : Nat) where
  queues : Nat → ReadyQueue n
  boostInterval : Int
  lastBoostTick : Int

structure LotteryState (n : Nat) where
  ready : ReadyQueue n
  rngState : UInt32

structure EdfState (n : Nat) where
  ready : ReadyQueue n

structure CustomState (n : Nat) where
  queues : Nat → ReadyQueue n
  stealInterval : Int
  lastStealTick : Int
  imbalanceThreshold : Int

structure SchedulerState (n : Nat) where
  algorithm : AlgorithmKind
  cpuCount : Nat
  procCount : Nat
  seed : UInt32
  mlfq : MlfqState n
  lottery : LotteryState n
  edf : EdfState n
  custom : CustomState n

/-! ## Results -/

/-- `Timeline`; `slots` is the row-major array of `cpu_count * max_ticks`
    pids, `-1` where idle. -/
structure Timeline where
  tickCount : Int
  cpuCount : Nat
  slots : List Int
  deriving DecidableEq, Repr

/-- `SimulationMetrics`.  The five `double` fields hold the quotient the
    source computes, before rounding to a `double`. -/
structure SimulationMetrics where
  algorithm : AlgorithmKind
  algorithmName : String
  cpuCount : Nat
  seed : UInt32
  totalTicks : Int
  completed : Int
  deadlineMisses : Int
  busyTicks : Int
  migrations : Int
  throughput : Rat
  cpuUtilization : Rat
  avgWaiting : Rat
  avgTurnaround : Rat
  avgResponse : Rat
  deriving DecidableEq, Repr

structure SimulationResult where
  metrics : SimulationMetrics
  timeline : Timeline
  deriving DecidableEq, Repr

end G20OsLab.Sim
