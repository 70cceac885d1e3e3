/-
  G20OsLab.Sim.Accounting

  Where the time of a process goes.

  The waiting phase comes before dispatch, so the tick in which a process is
  put on a CPU counts as waited and as run.  `total_waiting` is therefore the
  number of ticks the process spends `READY` and unplaced, plus the number of
  times it is dispatched (`Balance`), and a completed process, which was
  dispatched at least once, never meets the balance
  `turnaround = waiting + runtime + blocked`.
-/

import Mathlib.Data.Nat.Count
import G20OsLab.Sim.Trajectory

namespace G20OsLab.Sim

/-! ## The counts -/

section Counts

variable (w : Workload) (config : SimulationConfig) (algorithm : AlgorithmKind)

/-- How many ticks below `T` process `i` is in state `state` when
    `record_timeline` is called. -/
def ticksIn (i : Fin w.processCount) (state : ProcState) (T : Nat) : Nat :=
  Nat.count (fun tick => ((recordAt w config algorithm tick).procs i).state = state) T

/-- In tick `tick` dispatch puts process `i` on a CPU. -/
def DispatchedIn (i : Fin w.processCount) (tick : Nat) : Prop :=
  ((preDispatch tick (stateAt w config algorithm tick)).procs i).state = .ready ∧
    ((recordAt w config algorithm tick).procs i).state = .running

instance (i : Fin w.processCount) : DecidablePred (DispatchedIn w config algorithm i) :=
  fun _ => inferInstanceAs (Decidable (_ ∧ _))

/-- How many ticks below `T` dispatch puts process `i` on a CPU. -/
def dispatches (i : Fin w.processCount) (T : Nat) : Nat :=
  Nat.count (DispatchedIn w config algorithm i) T

end Counts

/-! ## The balance of one process -/

/-- The books of a process at the start of tick `tick`, from the ticks it
    spent `READY`, `RUNNING` and `BLOCKED` and the times it was dispatched. -/
structure Balance (tick ready running blocked placed : Nat) (proc : ProcessRuntime) : Prop where
  waiting : proc.totalWaiting = ready + placed
  runtime : proc.runtimeTicks = running
  new : proc.state = .new → tick ≤ proc.spec.arrival ∧ ready + running + blocked = 0
  active : proc.state ≠ .new → proc.state ≠ .done →
    tick - proc.spec.arrival = ready + running + blocked
  done : proc.state = .done →
    proc.completionTick - proc.spec.arrival = ready + running + blocked
  placed : proc.state ≠ .new → proc.state ≠ .ready → 1 ≤ placed

/-- The books before dispatch: a `READY` process has been charged one tick
    more. -/
structure Charged (tick ready running blocked placed : Nat) (proc : ProcessRuntime) : Prop where
  waiting : proc.totalWaiting = ready + placed + if proc.state = .ready then 1 else 0
  runtime : proc.runtimeTicks = running
  new : proc.state = .new → tick < proc.spec.arrival ∧ ready + running + blocked = 0
  active : proc.state ≠ .new → proc.state ≠ .done →
    tick - proc.spec.arrival = ready + running + blocked
  done : proc.state = .done →
    proc.completionTick - proc.spec.arrival = ready + running + blocked
  placed : proc.state ≠ .new → proc.state ≠ .ready → 1 ≤ placed

theorem initRuntime_balance {spec : ProcessSpec} (h : 0 ≤ spec.arrival) :
    Balance 0 0 0 0 0 (initRuntime spec).core where
  waiting := rfl
  runtime := rfl
  new _ := ⟨h, rfl⟩
  active hnew := absurd rfl hnew
  done hdone := by cases hdone
  placed hnew := absurd rfl hnew

theorem Balance.preTick {tick ready running blocked placed : Nat} {start proc : ProcessRuntime}
    (h : Balance tick ready running blocked placed start) (hpre : PreTick tick start proc) :
    Charged tick ready running blocked placed proc := by
  have hwaiting := h.waiting
  cases hpre with
  | notYet hnew hlt =>
      exact ⟨by simp [hnew, hwaiting], h.runtime, fun _ => ⟨hlt, (h.new hnew).2⟩, h.active,
        h.done, h.placed⟩
  | arrived hnew harrival =>
      -- arrivals are checked in every tick, so this one is the arrival itself
      obtain ⟨hle, hzero⟩ := h.new hnew
      exact ⟨by simp [hwaiting], h.runtime, nofun, fun _ _ => by dsimp only; omega, nofun,
        fun _ hready => absurd rfl hready⟩
  | waited hready =>
      exact ⟨by simp [hready, hwaiting], h.runtime,
        fun hnew => absurd (hready.symm.trans hnew) nofun,
        h.active, h.done, h.placed⟩
  | running hrunning =>
      exact ⟨by simp [hrunning, hwaiting], h.runtime,
        fun hnew => absurd (hrunning.symm.trans hnew) nofun, h.active, h.done, h.placed⟩
  | counted hblocked _ =>
      exact ⟨by simp [hblocked, hwaiting], h.runtime,
        fun hnew => absurd (hblocked.symm.trans hnew) nofun, h.active, h.done, h.placed⟩
  | ioEnded hblocked _ _ =>
      have hactive := h.active (by simp [hblocked]) (by simp [hblocked])
      have hplaced := h.placed (by simp [hblocked]) (by simp [hblocked])
      exact ⟨by simp [hwaiting], h.runtime, nofun, fun _ hdone => absurd rfl hdone,
        fun _ => hactive, fun _ _ => hplaced⟩
  | ioNext hblocked _ _ =>
      have hactive := h.active (by simp [hblocked]) (by simp [hblocked])
      exact ⟨by simp [hwaiting], h.runtime, nofun, fun _ _ => hactive, nofun,
        fun _ hready => absurd rfl hready⟩
  | done hdone =>
      exact ⟨by simp [hdone, hwaiting], h.runtime,
        fun hnew => absurd (hdone.symm.trans hnew) nofun, h.active, h.done, h.placed⟩

/-- The books after an executed tick, of a process that was dispatched at
    some point. -/
theorem Ran.balance {tick ready running blocked placed : Nat} {proc after : ProcessRuntime}
    (hran : Ran tick proc after) (hstate : proc.state = .running)
    (hwaiting : proc.totalWaiting = ready + placed) (hruntime : proc.runtimeTicks = running)
    (helapsed : tick - proc.spec.arrival = ready + running + blocked) (hplaced : 1 ≤ placed) :
    Balance (tick + 1) ready (running + 1) blocked placed after := by
  have hruntime' : (runProc proc).runtimeTicks = ((running + 1 : Nat) : Int) := by
    simp [runProc, hruntime]
  have hstate' : (runProc proc).state = .running := hstate
  cases hran with
  | completed _ _ =>
      exact ⟨hwaiting, hruntime', fun hnew => absurd hnew (by simp),
        fun _ hdone => absurd rfl hdone,
        fun _ => by dsimp only [runProc]; omega, fun _ _ => hplaced⟩
  | blocked _ _ =>
      exact ⟨hwaiting, hruntime', fun hnew => absurd hnew (by simp),
        fun _ _ => by dsimp only [runProc]; omega, fun hdone => absurd hdone (by simp),
        fun _ _ => hplaced⟩
  | preempted _ =>
      exact ⟨hwaiting, hruntime', fun hnew => absurd hnew (by simp),
        fun _ _ => by dsimp only [runProc]; omega, fun hdone => absurd hdone (by simp),
        fun _ hready => absurd rfl hready⟩
  | kept _ =>
      exact ⟨hwaiting, hruntime', fun hnew => absurd (hstate'.symm.trans hnew) (by simp),
        fun _ _ => by dsimp only [runProc]; omega,
        fun hdone => absurd (hstate'.symm.trans hdone) (by simp), fun _ _ => hplaced⟩

/-- A tick posts one of the books: the state in the row, and a dispatch where
    the process was `READY` before it and is `RUNNING` in the row. -/
theorem Balance.tick {c : Nat} {tick ready running blocked placed : Nat} {on : Fin c → Prop}
    {start before record after : ProcessRuntime}
    (h : Balance tick ready running blocked placed start)
    (htick : TickOf tick on start before record after) :
    Balance (tick + 1) (ready + if record.state = .ready then 1 else 0)
      (running + if record.state = .running then 1 else 0)
      (blocked + if record.state = .blocked then 1 else 0)
      (placed + if before.state = .ready ∧ record.state = .running then 1 else 0) after := by
  cases htick with
  | off hpre hnot _ =>
      have hcharged := h.preTick hpre
      have hwaiting := hcharged.waiting
      have hnew := hcharged.new
      have hactive := hcharged.active
      have hdone := hcharged.done
      have hplaced := hcharged.placed
      have hruntime := hcharged.runtime
      -- off a CPU all of the tick: one counter of the balance moves, by its state
      cases hstate : before.state with
      | running => exact absurd hstate hnot
      | new | ready | blocked | done =>
          simp only [hstate] at hwaiting hnew hactive hdone hplaced
          constructor <;> simp [hstate] at * <;> omega
  | placed hpre hready _ hran =>
      have hcharged := h.preTick hpre
      have hwaiting := hcharged.waiting
      have helapsed := hcharged.active (by simp [hready]) (by simp [hready])
      simp only [hready, if_true] at hwaiting
      -- the tick of the dispatch is charged as waited and as run
      have hpost := @Ran.balance tick ready running blocked (placed + 1) _ _ hran rfl
        (by dsimp only [dispatchProc]; omega) hcharged.runtime helapsed (Nat.le_add_left ..)
      simpa [hready, dispatchProc] using hpost
  | stayed hrunning _ _ hran =>
      have helapsed := h.active (by simp [hrunning]) (by simp [hrunning])
      have hplaced := h.placed (by simp [hrunning]) (by simp [hrunning])
      have hpost := hran.balance hrunning h.waiting h.runtime helapsed hplaced
      simpa [hrunning] using hpost

/-! ## The balance along a run -/

theorem procAt_balance {w : Workload} (config : SimulationConfig) (algorithm : AlgorithmKind)
    (hn : w.processCount ≤ maxProcesses) (i : Fin w.processCount)
    (harrival : 0 ≤ (w.processes i).arrival) (T : Nat) :
    Balance T (ticksIn w config algorithm i .ready T) (ticksIn w config algorithm i .running T)
      (ticksIn w config algorithm i .blocked T) (dispatches w config algorithm i T)
      (procAt w config algorithm i T) := by
  induction T with
  | zero => exact initRuntime_balance harrival
  | succ T ih =>
      unfold ticksIn dispatches at ih ⊢
      rw [Nat.count_succ, Nat.count_succ, Nat.count_succ, Nat.count_succ]
      have hpost := ih.tick (procAt_tick config algorithm hn i T)
      exact hpost

/-! ## The waiting time of a run -/

section Waiting

variable (w : Workload) (config : SimulationConfig) (algorithm : AlgorithmKind)

/-- The turnaround of process `i` is the sum of its waiting time, its run time
    and the ticks it was `BLOCKED`. -/
def TurnaroundBalances (i : Fin w.processCount) : Prop :=
  let final := runLoop w config algorithm
  let proc := final.state.procs i
  proc.completionTick - (w.processes i).arrival =
    proc.totalWaiting + proc.runtimeTicks + ticksIn w config algorithm i .blocked final.ticks

/-- The waiting time of process `i` is the number of ticks it was `READY` and
    on no CPU. -/
def WaitingIsUnplaced (i : Fin w.processCount) : Prop :=
  let final := runLoop w config algorithm
  (final.state.procs i).totalWaiting = ticksIn w config algorithm i .ready final.ticks

/-- The turnaround of process `i` falls short of the three times by one tick
    for every dispatch. -/
def ShortByDispatches (i : Fin w.processCount) : Prop :=
  let final := runLoop w config algorithm
  let proc := final.state.procs i
  proc.completionTick - (w.processes i).arrival + dispatches w config algorithm i final.ticks =
    proc.totalWaiting + proc.runtimeTicks + ticksIn w config algorithm i .blocked final.ticks

end Waiting

/-- **The waiting time is never right.**  The books of every process that
    reaches `DONE` are out by its dispatches, of which there is at least one:
    they never balance, and the waiting time is never the time unplaced. -/
theorem waiting_never_balances (w : WfWorkload) (config : SimulationConfig)
    (algorithm : AlgorithmKind) (i : Fin w.processCount)
    (hdone : ((runLoop w.toWorkload config algorithm).state.procs i).state = .done) :
    ShortByDispatches w.toWorkload config algorithm i ∧
      ¬ TurnaroundBalances w.toWorkload config algorithm i ∧
      ¬ WaitingIsUnplaced w.toWorkload config algorithm i := by
  unfold ShortByDispatches TurnaroundBalances WaitingIsUnplaced
  dsimp only
  have hstate := (runLoop_spec w.toWorkload config algorithm).state
  generalize runLoop w.toWorkload config algorithm = final at hdone hstate ⊢
  rw [hstate] at hdone ⊢
  have hbalance := procAt_balance config algorithm w.count_le i
    (w.wellFormed i).arrival_nonneg final.ticks
  have hspec := procAt_spec config algorithm w.count_le i final.ticks
  have hwaiting := hbalance.waiting
  have hruntime := hbalance.runtime
  have hturnaround := hbalance.done hdone
  have hlast : (procAt w.toWorkload config algorithm i final.ticks).state = .done := hdone
  have hdispatched := hbalance.placed (by simp [hlast]) (by simp [hlast])
  rw [hspec] at hturnaround
  dsimp only [procAt, ProcessRuntime.core] at hwaiting hruntime hturnaround
  refine ⟨?_, ?_, ?_⟩ <;> omega

/-- The first of three processes is dispatched once for each of its CPU
    bursts. -/
theorem waiting_never_balances_mixedJobs :
    ShortByDispatches mixedJobs.toWorkload (oneCpu 20) .edf ⟨0, by decide⟩ ∧
      ¬ TurnaroundBalances mixedJobs.toWorkload (oneCpu 20) .edf ⟨0, by decide⟩ ∧
      ¬ WaitingIsUnplaced mixedJobs.toWorkload (oneCpu 20) .edf ⟨0, by decide⟩ :=
  waiting_never_balances mixedJobs (oneCpu 20) .edf ⟨0, by decide⟩ rfl

/-- One tick of work on an idle CPU: one tick of turnaround, booked as one
    waited and one run. -/
theorem oneTick_turnaround_unbalanced :
    ¬ ∀ (w : WfWorkload) (config : SimulationConfig) (algorithm : AlgorithmKind)
        (i : Fin w.processCount),
        ((runLoop w.toWorkload config algorithm).state.procs i).state = .done →
        TurnaroundBalances w.toWorkload config algorithm i := by
  intro h
  have hfalse := h oneTick (oneCpu 5) .edf ⟨0, by decide⟩ rfl
  revert hfalse
  rw [TurnaroundBalances]
  decide +kernel

end G20OsLab.Sim
