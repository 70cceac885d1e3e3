/-
  G20OsLab.Sim.Lottery

  The lottery scheduler (`src/schedulers/lottery.c`): one FIFO queue, a
  32-bit linear congruential generator, and a pick that walks the queue until
  the running ticket sum passes the drawn target.
-/

import G20OsLab.Sim.Queue

namespace G20OsLab.Sim

variable {n : Nat}

/-- `next_random`: the new generator state, which is also the value drawn. -/
def nextRandom (state : UInt32) : UInt32 := state * 1103515245 + 12345

def lotteryInit (n : Nat) (seed : UInt32) : LotteryState n where
  ready := ReadyQueue.empty n
  rngState := if seed ≠ 0 then seed else 42

def lotteryEnqueue (s : LotteryState n) (pid : Fin n) : LotteryState n :=
  { s with ready := queuePush s.ready pid }

/-- `total_tickets` of the queued processes, as the `int` sum computes it. -/
def totalTickets (procs : ProcTable n) (items : List (Fin n)) : Int :=
  items.foldl (fun total pid => wrap32 (total + (procs pid).spec.tickets)) 0

/-- The second loop, at index `i` with the partial sum `running`: the index
    where the sum first passes `target`. -/
def lotteryFind (procs : ProcTable n) (target : Int) :
    (i : Nat) → (running : Int) → List (Fin n) → Option Nat
  | _, _, [] => none
  | i, running, pid :: rest =>
      let running := wrap32 (running + (procs pid).spec.tickets)
      if running > target then some i else lotteryFind procs target (i + 1) running rest

def lotteryPickNext (s : LotteryState n) (procs : ProcTable n) :
    Option (Fin n) × LotteryState n :=
  let total := totalTickets procs s.ready.items
  if total ≤ 0 then
    (none, s)
  else
    let rng := nextRandom s.rngState
    let target : Int := (rng.toNat % total.toNat : Nat)
    let index : Int :=
      match lotteryFind procs target 0 0 s.ready.items with
      | some i => i
      -- the sum never passed the target: the last entry
      | none => (s.ready.items.length : Int) - 1
    let (pid, ready) := queueRemoveAt s.ready index
    (pid, { ready := ready, rngState := rng })

end G20OsLab.Sim
