/-
  G20OsLab.Sim.Edf

  Earliest deadline first (`src/schedulers/edf.c`): one queue, and a pick that
  scans it for the least deadline, on equal deadlines the least arrival.
-/

import G20OsLab.Lib.ArgMin
import G20OsLab.Sim.Queue

namespace G20OsLab.Sim

variable {n : Nat}

def edfInit (n : Nat) : EdfState n where
  ready := ReadyQueue.empty n

def edfEnqueue (s : EdfState n) (pid : Fin n) : EdfState n :=
  { s with ready := queuePush s.ready pid }

/-- The deadline `edf_pick_next` compares: a process without one is placed by
    its pid at the far end of the `int` range. -/
def edfKey (spec : ProcessSpec) : Int :=
  if spec.deadline < 0 then intMax - spec.pid else spec.deadline

/-- The selection loop; `best_deadline` is the key of the entry at
    `best_index`, and `best_index` is `-1` on an empty queue. -/
def edfBestIndex (s : EdfState n) (procs : ProcTable n) : Int :=
  match Lib.scanMin (fun pid => edfKey (procs pid).spec)
      (fun pid => (procs pid).spec.arrival) s.ready.items with
  | some (i, _) => i
  | none => -1

def edfPickNext (s : EdfState n) (procs : ProcTable n) : Option (Fin n) × EdfState n :=
  let (pid, ready) := queueRemoveAt s.ready (edfBestIndex s procs)
  (pid, { ready := ready })

end G20OsLab.Sim
