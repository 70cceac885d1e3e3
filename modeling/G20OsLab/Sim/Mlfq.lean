/-
  G20OsLab.Sim.Mlfq

  The multilevel feedback queue (`src/schedulers/mlfq.c`): three FIFO queues,
  demotion on preemption, promotion on IO completion, and a periodic boost
  that empties the two lower queues into the top one.
-/

import G20OsLab.Sim.Queue

namespace G20OsLab.Sim

variable {n : Nat}

def mlfqInit (n : Nat) : MlfqState n where
  queues := fun _ => queueClear n
  boostInterval := 20
  lastBoostTick := 0

/-- The level a process at `level` is queued at. -/
def mlfqLevel (level : Nat) : EnqueueReason → Nat
  | .new => 0
  | .ioComplete => if level > 0 then level - 1 else level
  | .preempt => if level < 2 then level + 1 else level

def mlfqEnqueue (s : MlfqState n) (procs : ProcTable n) (pid : Fin n)
    (reason : EnqueueReason) : MlfqState n × ProcTable n :=
  let level := mlfqLevel (procs pid).queueLevel reason
  ({ s with queues := Function.update s.queues level (queuePush (s.queues level) pid) },
   Function.update procs pid { procs pid with queueLevel := level })

/-- The loop over the levels, from `level` up. -/
def mlfqPickFrom (s : MlfqState n) : List Nat → Option (Fin n) × MlfqState n
  | [] => (none, s)
  | level :: levels =>
      if (s.queues level).items.length > 0 then
        let (pid, queue) := queuePop (s.queues level)
        (pid, { s with queues := Function.update s.queues level queue })
      else
        mlfqPickFrom s levels

def mlfqPickNext (s : MlfqState n) : Option (Fin n) × MlfqState n :=
  mlfqPickFrom s [0, 1, 2]

/-- One pass of the boost's `while`: move the head of `queues[level]` to the
    end of `queues[0]`. -/
def mlfqBoostStep (level : Nat) (s : MlfqState n) (procs : ProcTable n) :
    MlfqState n × ProcTable n :=
  match queuePop (s.queues level) with
  | (none, _) => (s, procs)
  | (some pid, queue) =>
      let queues := Function.update s.queues level queue
      ({ s with queues := Function.update queues 0 (queuePush (queues 0) pid) },
       Function.update procs pid { procs pid with queueLevel := 0 })

/-- `while (queues[level].count > 0)`, with the initial count as fuel. -/
def mlfqDrain (level : Nat) : Nat → MlfqState n × ProcTable n → MlfqState n × ProcTable n
  | 0, sp => sp
  | fuel + 1, sp =>
      if (sp.1.queues level).items.length > 0 then
        mlfqDrain level fuel (mlfqBoostStep level sp.1 sp.2)
      else
        sp

/-- The boost of one lower level. -/
def mlfqBoostLevel (level : Nat) (sp : MlfqState n × ProcTable n) :
    MlfqState n × ProcTable n :=
  mlfqDrain level (sp.1.queues level).items.length sp

def mlfqTick (s : MlfqState n) (procs : ProcTable n) (now : Int) :
    MlfqState n × ProcTable n :=
  if now = 0 ∨ now - s.lastBoostTick < s.boostInterval then
    (s, procs)
  else
    -- level 1 first, each level in its own order
    let sp := mlfqBoostLevel 2 (mlfqBoostLevel 1 (s, procs))
    ({ sp.1 with lastBoostTick := now }, sp.2)

end G20OsLab.Sim
