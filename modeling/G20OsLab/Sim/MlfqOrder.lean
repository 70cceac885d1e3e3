/-
  G20OsLab.Sim.MlfqOrder

  MLFQ serves the levels in order, and each level first come, first served.

  The run is logged (`loggedAt`): for each level the log holds the processes
  that came to its queue, in the order in which they came.  Every queue is the
  end of its log, so what a dispatch takes from the front of a queue came
  before the rest of it.
-/

import G20OsLab.Sim.DispatchLength
import G20OsLab.Sim.MlfqFifo

namespace G20OsLab.Sim

open Lib (forLoop forLoop_inv forLoop_preserves entered logged Suffixed EnteredBefore
  entered_of_subset enteredBefore_of_suffix forLoop_logged_fst)

variable {n c : Nat}

/-! ## The logged run -/

/-- A state with the log of each queue. -/
abbrev LoggedState (n c : Nat) := SimState n c × (Nat → List (Fin n))

/-- `preDispatch` with the logs. -/
def logPreDispatch (tick : Nat) (p : LoggedState n c) : LoggedState n c :=
  forLoop n (fun i => logged queueItems (waitingBody i))
    (logged queueItems (tickBody tick)
      (forLoop n (fun i => logged queueItems (ioBody tick i))
        (forLoop n (fun i => logged queueItems (arrivalBody tick i)) p)))

/-- `preRecord` with the logs. -/
def logPreRecord (tick : Nat) (p : LoggedState n c) : LoggedState n c :=
  forLoop c (fun cpu => logged queueItems (dispatchBody tick cpu)) (logPreDispatch tick p)

/-- `tickStep` with the logs. -/
def logTickStep (tick : Nat) (p : LoggedState n c) : LoggedState n c :=
  forLoop c (fun cpu => logged queueItems (executeBody tick cpu))
    (logged queueItems (recordTimeline tick) (logPreRecord tick p))

/-- The log does not change the phases before dispatch. -/
theorem logPreDispatch_fst (tick : Nat) (p : LoggedState n c) :
    (logPreDispatch tick p).1 = preDispatch tick p.1 := by
  rw [logPreDispatch, forLoop_logged_fst, Lib.logged_fst, forLoop_logged_fst, forLoop_logged_fst]
  rfl

theorem logPreRecord_fst (tick : Nat) (p : LoggedState n c) :
    (logPreRecord tick p).1 = preRecord tick p.1 := by
  rw [logPreRecord, forLoop_logged_fst, logPreDispatch_fst]
  rfl

/-- The log does not change the tick. -/
theorem logTickStep_fst (tick : Nat) (p : LoggedState n c) :
    (logTickStep tick p).1 = tickStep tick p.1 := by
  rw [logTickStep, forLoop_logged_fst, Lib.logged_fst, logPreRecord_fst]
  rfl

section Log

variable (w : Workload) (config : SimulationConfig)

/-- The logged MLFQ run at the start of tick `tick`. -/
def loggedAt : Nat → LoggedState w.processCount config.cpuCount
  | 0 => (initialState w config .mlfq, fun _ => [])
  | tick + 1 => logTickStep tick (loggedAt tick)

/-- The processes that have come to the queue of each level when
    `record_timeline` is called in tick `tick`, in the order in which they came. -/
def entryLog (tick : Nat) : Nat → List (Fin w.processCount) :=
  (logPreRecord tick (loggedAt w config tick)).2

/-- The logged run is the run. -/
theorem loggedAt_fst (tick : Nat) :
    (loggedAt w config tick).1 = stateAt w config .mlfq tick := by
  induction tick with
  | zero => rfl
  | succ tick ih => rw [loggedAt, logTickStep_fst, ih, stateAt_succ]

end Log

/-! ## Every queue is the end of its log -/

/-- The invariant of the loop bodies. -/
structure MlfqInv (s : SimState n c) : Prop where
  inv : SimInv s
  algorithm : s.scheduler.algorithm = .mlfq

section Suffixed

variable (hn : n ≤ maxProcesses) (hc : 0 < c) {tick : Nat} {p : LoggedState n c}
include hn hc

/-- Before dispatch every queue stays the last part of its log. -/
theorem logPreDispatch_suffixed (hp : MlfqInv p.1) (h : Suffixed queueItems p) :
    Suffixed queueItems (logPreDispatch tick p) := by
  have harriveInv : ∀ i s, MlfqInv s → MlfqInv (arrivalBody tick i s : SimState n c) :=
    fun i s hs => ⟨arrivalBody_inv hn hc hs.inv tick i,
      ((arrivalBody_actsOn tick).outside i s).algorithm.trans hs.algorithm⟩
  have hioInv : ∀ i s, MlfqInv s → MlfqInv (ioBody tick i s : SimState n c) :=
    fun i s hs => ⟨ioBody_inv hn hc hs.inv tick i,
      ((ioBody_actsOn tick).outside i s).algorithm.trans hs.algorithm⟩
  have harrive := h.loop MlfqInv hp harriveInv fun i s hs => arrivalBody_fifo hs.inv tick i
  have hp1 : MlfqInv (forLoop n (arrivalBody tick) p.1) := forLoop_preserves MlfqInv hp harriveInv
  rw [← forLoop_logged_fst queueItems] at hp1
  have hio := harrive.loop MlfqInv hp1 hioInv fun i s hs => ioBody_fifo hs.inv tick i
  have hp2 := forLoop_preserves MlfqInv hp1 hioInv
  rw [← forLoop_logged_fst queueItems] at hp2
  have htick := hio.logged (tickBody_fifo hn hp2.inv hp2.algorithm tick)
  refine htick.loop (fun _ => True) trivial (fun _ _ _ => trivial) ?_
  intro i s _ l
  have hsame : queueItems (waitingBody i s) l = queueItems s l := by
    rw [waitingBody]
    split <;> rfl
  rw [hsame]
  exact .refl _

end Suffixed

/-! ## The dispatch loop -/

/-- `d` is of a higher level than `q`, or it came first to the queue of their
    level. -/
def GoesFirst (procs : ProcTable n) (log : Nat → List (Fin n)) (d q : Fin n) : Prop :=
  (procs d).queueLevel ≤ (procs q).queueLevel ∧
    ((procs d).queueLevel = (procs q).queueLevel →
      EnteredBefore (log (procs d).queueLevel) d q)

/-- The logged dispatch loop from `p` on, with the CPUs from `k` on still to
    come: what has been placed goes first. -/
structure Serving (tick : Nat) (p : LoggedState n c) (k : Nat) (p' : LoggedState n c) :
    Prop where
  dispatching : Dispatching tick p.1 k p'.1
  log : p'.2 = p.2
  suffixed : Suffixed queueItems p'
  first : ∀ cpu d q, Dispatched p.1 p'.1 cpu d → (p'.1.procs q).state = .ready →
    GoesFirst p'.1.procs p.2 d q

/-- A process on a CPU is not the one that a dispatch takes from a queue. -/
theorem SimInv.ne_of_front {s : SimState n c} (h : SimInv s) {level : Nat} {pid : Fin n}
    {rest : List (Fin n)} (hfront : queueItems s level = pid :: rest) {cpu : Fin c} {d : Fin n}
    (hd : (s.cpus cpu).runningPid = some d) : d ≠ pid := by
  rintro rfl
  have hmem : d ∈ queueItems s level := by
    rw [hfront]
    exact List.mem_cons_self
  exact h.not_queued (by simp [h.cpus.running hd]) level hmem

/-- The front of the first queue that has one goes first. -/
theorem Popped.goesFirst {tick : Nat} {cpu : Fin c} {p : LoggedState n c} {s' : SimState n c}
    {level : Nat} {pid : Fin n} {rest : List (Fin n)} (h : Popped tick cpu p.1 s' level pid rest)
    (hp : MlfqInv p.1) (hsuffixed : Suffixed queueItems p) {q : Fin n}
    (hq : (s'.procs q).state = .ready) : GoesFirst s'.procs p.2 pid q := by
  have hne : q ≠ pid := by
    rintro rfl
    rw [h.procs, Function.update_self] at hq
    cases hq
  have hlevel : (p.1.procs pid).queueLevel = level := by
    have hmem : pid ∈ queueItems p.1 level := by
      rw [h.front]
      exact List.mem_cons_self
    have hhome := ((hp.inv.queues.mem_iff level pid).mp hmem).2
    simp only [homeOf, hp.algorithm] at hhome
    exact Int.ofNat.inj hhome
  have hlevel' : (s'.procs pid).queueLevel = level := by
    rw [h.procs, Function.update_self]
    exact hlevel
  rw [h.procs, Function.update_of_ne hne] at hq
  have hqueued : q ∈ queueItems p.1 (p.1.procs q).queueLevel := by
    obtain ⟨k, hk⟩ := hp.inv.queuedAt_level hp.algorithm hq
    exact hk.mem
  have hsame : (s'.procs q).queueLevel = (p.1.procs q).queueLevel := by
    rw [h.procs, Function.update_of_ne hne]
  rw [GoesFirst, hlevel', hsame]
  refine ⟨?_, ?_⟩
  -- the levels above are empty
  · by_contra hlt
    rw [h.lower _ (by omega)] at hqueued
    cases hqueued
  · rintro rfl
    have hnodup := hp.inv.queues.family.nodup (p.1.procs q).queueLevel
    have hfront := h.front
    rw [queueItems] at hfront
    rw [hfront, List.nodup_cons] at hnodup
    rw [h.front] at hqueued
    -- on the same level the log has the order of the queue
    have hsuffix : pid :: rest <:+ p.2 (p.1.procs q).queueLevel := by
      rw [← h.front]
      exact hsuffixed _
    apply enteredBefore_of_suffix hsuffix hnodup.1
    exact (List.mem_cons.mp hqueued).resolve_left hne

/-- One CPU after the other is served. -/
theorem Serving.next {tick : Nat} {p p' : LoggedState n c} {cpu : Fin c}
    (h : Serving tick p cpu p') (ha : p.1.scheduler.algorithm = .mlfq) :
    Serving tick p (cpu + 1) (logged queueItems (dispatchBody tick cpu) p') := by
  have hinv : MlfqInv p'.1 :=
    ⟨h.dispatching.inv, h.dispatching.spec.algorithm.trans ha⟩
  have hcases := dispatchBody_mlfq hinv.algorithm tick cpu
  -- dispatch brings nothing to a queue
  have hsubset : ∀ l, queueItems (dispatchBody tick cpu p'.1) l ⊆ queueItems p'.1 l := by
    intro l
    rcases hcases with ⟨-, -, hsame⟩ | ⟨level, pid, rest, hpopped⟩
    · rw [hsame]
      exact List.Subset.refl _
    · rw [hpopped.queues]
      split
      · rename_i hl
        rw [hl, hpopped.front]
        exact List.subset_cons_self pid rest
      · exact List.Subset.refl _
  refine ⟨h.dispatching.next, ?_, ?_, ?_⟩
  · funext l
    show p'.2 l ++ entered (queueItems p'.1 l) (queueItems (dispatchBody tick cpu p'.1) l) = p.2 l
    rw [entered_of_subset (hsubset l), List.append_nil, h.log]
  · exact h.suffixed.logged (dispatchBody_fifo hinv.algorithm tick cpu)
  · intro cpu' d q hd hq
    rw [Lib.logged_fst] at hd hq ⊢
    have hsame := ready_of_dispatchBody hq
    rcases hcases with ⟨hcpus, hprocs, -⟩ | ⟨level, pid, rest, hpopped⟩
    · rw [hprocs] at hq ⊢
      exact h.first cpu' d q ⟨hd.1, by rw [← hcpus]; exact hd.2⟩ hq
    · by_cases hcpu : cpu' = cpu
      · have hpid : d = pid := by
          have hon := hd.2
          rw [hpopped.cpus, hcpu, Function.update_self] at hon
          exact (Option.some.inj hon).symm
        rw [hpid, ← h.log]
        exact hpopped.goesFirst hinv h.suffixed hq
      -- placed before, and untouched
      · have hon : (p'.1.cpus cpu').runningPid = some d := by
          have hon := hd.2
          rw [hpopped.cpus, Function.update_of_ne hcpu] at hon
          exact hon
        have hproc : (dispatchBody tick cpu p'.1).procs d = p'.1.procs d := by
          rw [hpopped.procs,
            Function.update_of_ne (h.dispatching.inv.ne_of_front hpopped.front hon)]
        rw [GoesFirst, hproc, hsame]
        exact h.first cpu' d q ⟨hd.1, hon⟩ (by rw [← hsame]; exact hq)

/-- The logged dispatch loop. -/
theorem logPreRecord_serving {tick : Nat} {p : LoggedState n c}
    (hp : MlfqInv (logPreDispatch tick p).1)
    (h : Suffixed queueItems (logPreDispatch tick p)) :
    Serving tick (logPreDispatch tick p) c (logPreRecord tick p) := by
  have hstart : Serving tick (logPreDispatch tick p) 0 (logPreDispatch tick p) :=
    ⟨.start hp.inv, rfl, h, fun cpu d q hd _ => absurd (hd.1.symm.trans hd.2) nofun⟩
  exact forLoop_inv (Serving tick (logPreDispatch tick p)) hstart fun cpu p' h' =>
    h'.next hp.algorithm

/-! ## Along the run -/

section Run

variable {w : Workload} (config : SimulationConfig) (hn : w.processCount ≤ maxProcesses)
include hn

/-- The invariant holds at every tick of the logged run. -/
theorem loggedAt_inv (tick : Nat) : MlfqInv (loggedAt w config tick).1 := by
  rw [loggedAt_fst]
  exact ⟨stateAt_inv config .mlfq hn tick, stateAt_algorithm config .mlfq hn tick⟩

theorem logPreDispatch_inv (tick : Nat) :
    MlfqInv (logPreDispatch tick (loggedAt w config tick)).1 := by
  rw [logPreDispatch_fst, loggedAt_fst]
  exact ⟨preDispatch_stateAt_inv config .mlfq hn tick,
    (preDispatch_outside ..).algorithm.trans (stateAt_algorithm config .mlfq hn tick)⟩

/-- At every tick each queue is the last part of its log. -/
theorem loggedAt_suffixed (tick : Nat) : Suffixed queueItems (loggedAt w config tick) := by
  induction tick with
  | zero =>
      intro l
      show queueItems (initialState w config .mlfq) l <:+ []
      rw [queueItems, initialState, schedulerInit_queueAt]
      exact List.suffix_refl []
  | succ tick ih =>
      have hpre : Suffixed queueItems (logPreDispatch tick (loggedAt w config tick)) :=
        logPreDispatch_suffixed hn config.cpu_pos (loggedAt_inv config hn tick) ih
      have hserved := logPreRecord_serving (logPreDispatch_inv config hn tick) hpre
      have hrow := hserved.suffixed.logged (f := recordTimeline tick) fun l => .refl _
      have hinv : SimInv (logged queueItems (recordTimeline tick)
          (logPreRecord tick (loggedAt w config tick))).1 := by
        have hinv' := hserved.dispatching.inv
        exact ⟨hinv'.queues, hinv'.cpus, hinv'.cpuCount⟩
      exact hrow.loop SimInv hinv (fun cpu s hs => executeBody_inv hn config.cpu_pos hs tick cpu)
        fun cpu s hs => executeBody_fifo hs tick cpu

/-- The boost of tick `tick`: it is due at every multiple of 20 but 0, and then
    puts the lower queues behind the top one. -/
structure BoostOf (tick : Nat) (m m' : MlfqState n) : Prop where
  merges : tick ≠ 0 → 20 ∣ tick → BoostMerges m m'
  otherwise : tick = 0 ∨ ¬ 20 ∣ tick → m' = m

/-- The multiples of 20 boost, and no other tick. -/
theorem preDispatch_boost (tick : Nat) {s : SimState w.processCount config.cpuCount}
    (hinv : SimInv s) (ha : s.scheduler.algorithm = .mlfq)
    (hinterval : s.scheduler.mlfq.boostInterval = 20)
    (hlast : s.scheduler.mlfq.lastBoostTick = ((20 * ((tick - 1) / 20) : Nat) : Int)) :
    BoostOf tick (beforeTick tick s).scheduler.mlfq (preDispatch tick s).scheduler.mlfq ∧
      (preDispatch tick s).scheduler.mlfq.boostInterval = 20 ∧
      (preDispatch tick s).scheduler.mlfq.lastBoostTick = ((20 * (tick / 20) : Nat) : Int) := by
  obtain ⟨hinterval', hlast'⟩ := boostClock_of_clocks (beforeTick_clocks tick s)
  have hboost : BoostInv ((beforeTick tick s).scheduler.mlfq, (beforeTick tick s).procs) :=
    (queueInv_iff_boostInv ((beforeTick_outside tick s).algorithm.trans ha)).mp
      (beforeTick_inv hn config.cpu_pos hinv tick).queues
  rw [preDispatch_mlfq ha]
  by_cases hdue : (tick : Int) = 0 ∨ tick - (beforeTick tick s).scheduler.mlfq.lastBoostTick <
      (beforeTick tick s).scheduler.mlfq.boostInterval
  · rw [mlfqTick, if_pos hdue]
    refine ⟨⟨?_, fun _ => rfl⟩, hinterval'.trans hinterval, ?_⟩
    · intro hpos hdvd
      omega
    · show (beforeTick tick s).scheduler.mlfq.lastBoostTick = _
      omega
  · obtain ⟨hmerges, hnow, -⟩ := mlfqTick_boosts hn hboost hdue
    have hkeep : (mlfqTick (beforeTick tick s).scheduler.mlfq (beforeTick tick s).procs
        tick).1.boostInterval = (beforeTick tick s).scheduler.mlfq.boostInterval := by
      rcases mlfqTick_cases (beforeTick tick s).scheduler.mlfq (beforeTick tick s).procs tick with
        ⟨hsame, -⟩ | hboosted
      · rw [hsame]
      · exact hboosted.interval
    refine ⟨⟨fun _ _ => hmerges, ?_⟩, by omega, by omega⟩
    intro hnot
    omega

/-- When the last boost was, at the start of tick `tick`. -/
theorem stateAt_lastBoost (tick : Nat) :
    (stateAt w config .mlfq tick).scheduler.mlfq.boostInterval = 20 ∧
      (stateAt w config .mlfq tick).scheduler.mlfq.lastBoostTick =
        ((20 * ((tick - 1) / 20) : Nat) : Int) := by
  induction tick with
  | zero => exact ⟨rfl, rfl⟩
  | succ tick ih =>
      obtain ⟨-, hinterval, hlast⟩ := preDispatch_boost config hn tick
        (stateAt_inv config .mlfq hn tick) (stateAt_algorithm config .mlfq hn tick) ih.1 ih.2
      obtain ⟨hi, hl⟩ := boostClock_of_clocks (stateAt_succ_clocks (w := w) config .mlfq tick)
      obtain ⟨hi', hl'⟩ := boostClock_of_clocks
        (preRecord_clocks tick (stateAt w config .mlfq tick))
      exact ⟨hi.trans (hi'.trans hinterval), hl.trans (hl'.trans hlast)⟩

end Run

/-- **MLFQ dispatches by level, and within a level first come, first served.**
    A process dispatched in a tick is of a higher level than every process still
    `READY` when the row is recorded, or it came to the queue of their level
    first; the boost of every twentieth tick puts the lower queues, in order,
    behind the top one. -/
theorem mlfq_dispatch_order (w : WfWorkload) (config : SimulationConfig) (tick : Nat) :
    (∀ cpu d q, DispatchedTo w.toWorkload config .mlfq tick cpu d →
        ((recordAt w.toWorkload config .mlfq tick).procs q).state = .ready →
        GoesFirst (recordAt w.toWorkload config .mlfq tick).procs
          (entryLog w.toWorkload config tick) d q) ∧
      BoostOf tick (beforeTick tick (stateAt w.toWorkload config .mlfq tick)).scheduler.mlfq
        (preDispatch tick (stateAt w.toWorkload config .mlfq tick)).scheduler.mlfq := by
  have hn := w.count_le
  have hpre : Suffixed queueItems (logPreDispatch tick (loggedAt w.toWorkload config tick)) :=
    logPreDispatch_suffixed hn config.cpu_pos (loggedAt_inv config hn tick)
      (loggedAt_suffixed config hn tick)
  have hserved := logPreRecord_serving (logPreDispatch_inv config hn tick) hpre
  have hstart : (logPreDispatch tick (loggedAt w.toWorkload config tick)).1 =
      preDispatch tick (stateAt w.toWorkload config .mlfq tick) := by
    rw [logPreDispatch_fst, loggedAt_fst]
  have hrow : (logPreRecord tick (loggedAt w.toWorkload config tick)).1 =
      recordAt w.toWorkload config .mlfq tick := by
    rw [logPreRecord_fst, loggedAt_fst]
    rfl
  refine ⟨?_, ?_⟩
  · intro cpu d q hd hq
    have hfirst := hserved.first cpu d q
    rw [hstart, hrow, ← hserved.log] at hfirst
    exact hfirst hd hq
  · obtain ⟨hinterval, hlast⟩ := stateAt_lastBoost (w := w.toWorkload) config hn tick
    exact (preDispatch_boost config hn tick (stateAt_inv config .mlfq hn tick)
      (stateAt_algorithm config .mlfq hn tick) hinterval hlast).1

/-- Three short processes on one CPU: the first is dispatched in tick 0 and the
    other two wait. -/
theorem mlfq_dispatch_order_shortJobs :
    GoesFirst (recordAt (shortJobs 3 (by decide) (by decide)).toWorkload (oneCpu 5) .mlfq 0).procs
      (entryLog (shortJobs 3 (by decide) (by decide)).toWorkload (oneCpu 5) 0)
      ⟨0, by decide⟩ ⟨1, by decide⟩ :=
  (mlfq_dispatch_order (shortJobs 3 (by decide) (by decide)) (oneCpu 5) 0).1 ⟨0, by decide⟩
    ⟨0, by decide⟩ ⟨1, by decide⟩ (by decide +kernel) (by decide +kernel)

end G20OsLab.Sim
