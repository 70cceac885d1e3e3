/-
  G20OsLab.Sim.Custom

  The affinity-aware scheduler (`src/schedulers/custom.c`): one queue per CPU,
  placement by affinity and load, a pick that weighs the remaining burst
  against the time waited, and periodic work stealing.
-/

import G20OsLab.Lib.ArgMin
import G20OsLab.Sim.Queue

namespace G20OsLab.Sim

variable {n : Nat}

def customInit (n : Nat) : CustomState n where
  queues := fun _ => ReadyQueue.empty n
  stealInterval := 5
  lastStealTick := 0
  imbalanceThreshold := 2

/-- The scan shared by `least_loaded_cpu` and `most_loaded_cpu`: start at
    CPU 0 and move to `cpu` whenever its count beats the best so far. -/
def loadScan (beats : Nat → Nat → Bool) (count : Nat → Nat) (cpuCount : Nat) : Nat :=
  (List.range' 1 (cpuCount - 1)).foldl
    (fun best cpu => if beats (count cpu) (count best) then cpu else best) 0

/-- `queues[cpu].count`. -/
def CustomState.count (s : CustomState n) (cpu : Nat) : Nat := (s.queues cpu).items.length

def leastLoadedCpu (s : CustomState n) (cpuCount : Nat) : Nat :=
  loadScan (fun a b => decide (a < b)) s.count cpuCount

def mostLoadedCpu (s : CustomState n) (cpuCount : Nat) : Nat :=
  loadScan (fun a b => decide (a > b)) s.count cpuCount

/-- The queue `custom_enqueue` would like: the affinity CPU, else the hinted
    CPU, else the least loaded one. -/
def customPreferred (s : CustomState n) (cpuCount : Nat) (affinity cpuHint : Int) : Nat :=
  if 0 ≤ affinity ∧ affinity < cpuCount then affinity.toNat
  else if 0 ≤ cpuHint ∧ cpuHint < cpuCount then cpuHint.toNat
  else leastLoadedCpu s cpuCount

/-- The queue `custom_enqueue` uses: the preferred one, unless it is more than
    one entry longer than the shortest. -/
def customTarget (s : CustomState n) (cpuCount : Nat) (affinity cpuHint : Int) : Nat :=
  let minimumLoad := s.count (leastLoadedCpu s cpuCount)
  let preferred := customPreferred s cpuCount affinity cpuHint
  if s.count preferred > minimumLoad + 1 then leastLoadedCpu s cpuCount else preferred

def customEnqueue (s : CustomState n) (cpuCount : Nat) (procs : ProcTable n) (pid : Fin n)
    (cpuHint : Int) : CustomState n × ProcTable n :=
  let preferred := customTarget s cpuCount (procs pid).spec.affinity cpuHint
  ({ s with queues := Function.update s.queues preferred (queuePush (s.queues preferred) pid) },
   Function.update procs pid { procs pid with assignedCpu := preferred })

/-- `score`: remaining burst, less the time waited, less 2 on the affinity CPU. -/
def customScore (procs : ProcTable n) (cpuId : Nat) (now : Int) (pid : Fin n) : Int :=
  let age := now - (procs pid).readySince
  let affinityBonus := if (procs pid).spec.affinity = cpuId then -2 else 0
  (procs pid).remainingInBurst - age + affinityBonus

def customPickNext (s : CustomState n) (procs : ProcTable n) (cpuId : Nat) (now : Int) :
    Option (Fin n) × CustomState n :=
  match Lib.scanMin (customScore procs cpuId now) (fun pid => (procs pid).spec.pid)
      (s.queues cpuId).items with
  | none => (none, s)
  | some (bestIndex, _) =>
      let (pid, queue) := queueRemoveAt (s.queues cpuId) bestIndex
      (pid, { s with queues := Function.update s.queues cpuId queue })

def customTick (s : CustomState n) (cpuCount : Nat) (procs : ProcTable n) (now : Int) :
    CustomState n × ProcTable n :=
  if now = 0 ∨ now - s.lastStealTick < s.stealInterval then
    (s, procs)
  else
    let heavyCpu := mostLoadedCpu s cpuCount
    let lightCpu := leastLoadedCpu s cpuCount
    let heavyCount : Int := s.count heavyCpu
    let lightCount : Int := s.count lightCpu
    -- a balanced tick does not start a new interval
    if heavyCount - lightCount < s.imbalanceThreshold then
      (s, procs)
    else
      -- steal from the tail
      match queueRemoveAt (s.queues heavyCpu) (heavyCount - 1) with
      | (none, queue) =>
          ({ s with queues := Function.update s.queues heavyCpu queue, lastStealTick := now },
           procs)
      | (some pid, queue) =>
          let queues := Function.update s.queues heavyCpu queue
          ({ s with
              queues := Function.update queues lightCpu (queuePush (queues lightCpu) pid)
              lastStealTick := now },
           Function.update procs pid { procs pid with assignedCpu := lightCpu })

end G20OsLab.Sim
