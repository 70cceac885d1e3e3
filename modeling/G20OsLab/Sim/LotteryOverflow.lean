/-
  G20OsLab.Sim.LotteryOverflow

  The lottery on accepted workloads.

  The parser bounds every ticket count, but not their sum.  In a reached state
  the lottery can pick every queued process exactly if the queued tickets fit
  an `int`.
-/

import G20OsLab.Sim.LotteryDraw
import G20OsLab.Sim.ParsedNumbers
import G20OsLab.Sim.Reached

namespace G20OsLab.Sim

open Lib (Numeral)

/-- From every generator state the lottery picks a queued process, and it picks
    every one from some. -/
def LotterySelects {n : Nat} (s : LotteryState n) (procs : ProcTable n) : Prop :=
  (∀ rng, ∃ pid ∈ s.ready.items, (lotteryPickNext { s with rngState := rng } procs).1 = some pid) ∧
    ∀ pid ∈ s.ready.items, ∃ rng, (lotteryPickNext { s with rngState := rng } procs).1 = some pid

/-- In a reached state the lottery selects exactly if the queued tickets fit an
    `int`. -/
theorem lottery_selects_iff (file : Lib.Bytes) (w : Workload)
    (h : parseWorkload (some file) = some w) (config : SimulationConfig)
    (s : SimState w.processCount config.cpuCount) (hs : Reached w config .lottery s)
    (hne : s.scheduler.lottery.ready.items ≠ []) :
    LotterySelects s.scheduler.lottery s.procs ↔
      ticketSum s.procs s.scheduler.lottery.ready.items ≤ intMax := by
  obtain ⟨hn, htickets⟩ := parseWorkload_tickets h
  have hrun := hs.runInv hn
  have hnodup : s.scheduler.lottery.ready.items.Nodup := by
    have hqueue := hrun.inv.queues.family.nodup 0
    simpa [SchedulerState.queueAt, hrun.algorithm_eq] using hqueue
  refine lotteryPickNext_selects_iff hne hnodup ?_ ?_
  · intro pid _
    rw [hrun.spec]
    exact (htickets pid).1
  · intro pid _
    rw [hrun.spec]
    exact (htickets pid).2

/-! ## Two processes with all the tickets -/

/-- A file with the rows `1,0,C1,0,<tickets>,-1,-1` and
    `2,0,C1,0,<tickets>,-1,-1`. -/
def twoRows (tickets : Numeral) : WorkloadFile where
  header := false
  rows := [.short (.digit .none 1) tickets (.digit .minus 1),
    .short (.digit .none 2) tickets (.digit .minus 1)]
  finalNewline := true

def twoRows.workload (tickets : Numeral) : Workload :=
  .ofList ((twoRows tickets).rows.map Row.spec)

def allTickets : Numeral := greatestInt

theorem twoRows_accepted {tickets : Numeral} (h : ¬ (twoRows tickets).Refused) :
    parseWorkload (some (twoRows tickets).text) = some (twoRows.workload tickets) :=
  (parseWorkload_text _ _).mpr ⟨h, rfl⟩

/-- The first dispatch of the run, with both processes queued. -/
def twoRows.dispatch (tickets : Numeral) :
    SimState (twoRows.workload tickets).processCount (oneCpu 1).cpuCount :=
  loopTo 0 _ (dispatchBody 0) (preDispatch 0 (stateAt (twoRows.workload tickets) (oneCpu 1)
    .lottery 0))

theorem lottery_selects_iff_oneTicket :
    LotterySelects (twoRows.dispatch ⟨.none, [1], by decide⟩).scheduler.lottery
        (twoRows.dispatch ⟨.none, [1], by decide⟩).procs ↔
      ticketSum (twoRows.dispatch ⟨.none, [1], by decide⟩).procs
        (twoRows.dispatch ⟨.none, [1], by decide⟩).scheduler.lottery.ready.items ≤ intMax :=
  lottery_selects_iff _ _ (twoRows_accepted (by decide +kernel)) (oneCpu 1) _
    (.dispatch 0 0 (by decide +kernel)) (by decide +kernel)

/-- With `INT_MAX` tickets each, the total is -2 and no process is picked. -/
theorem allTickets_not_selected :
    ¬ ∀ (file : Lib.Bytes) (w : Workload), parseWorkload (some file) = some w →
        ∀ (config : SimulationConfig) (s : SimState w.processCount config.cpuCount),
          Reached w config .lottery s → s.scheduler.lottery.ready.items ≠ [] →
          LotterySelects s.scheduler.lottery s.procs := by
  intro h
  have hselects := h _ _ (twoRows_accepted (by decide +kernel)) (oneCpu 1)
    (twoRows.dispatch allTickets) (.dispatch 0 0 (by decide +kernel)) (by decide +kernel)
  obtain ⟨pid, -, hpick⟩ := hselects.1 0
  have hnone : (lotteryPickNext { (twoRows.dispatch allTickets).scheduler.lottery with
      rngState := 0 } (twoRows.dispatch allTickets).procs).1 = none := by
    decide +kernel
  rw [hnone] at hpick
  cases hpick

end G20OsLab.Sim
