/-
  G20OsLab.Sim.MlfqWait

  The priority boost bounds every wait of an MLFQ run.

  A process below the top level is boosted within 20 ticks.  In the top queue,
  entries only leave before it, and CPU 0 takes one whenever it is idle: the
  sum of twice its index and of the slice left on CPU 0 falls with every tick
  it waits there.
-/

import G20OsLab.Sim.Slices

namespace G20OsLab.Sim

variable {n c : Nat}

/-! ## The boost -/

/-- A boost appends to the top queue. -/
theorem mlfqBoostStep_top {m : MlfqState n} {procs : ProcTable n} {level k : Nat} {q : Fin n}
    (hlevel : level ≠ 0) (h : (m.queues 0).items[k]? = some q) :
    ((mlfqBoostStep level m procs).1.queues 0).items[k]? = some q := by
  rw [mlfqBoostStep]
  split
  · exact h
  · rename_i pid queue hpop
    dsimp only
    rw [Function.update_self, Function.update_of_ne hlevel.symm]
    exact queuePush_entry h

/-- One pass of the boost takes the head out of its queue. -/
theorem mlfqBoostStep_length {m : MlfqState n} {procs : ProcTable n} {level : Nat}
    (hlevel : level ≠ 0) : ((mlfqBoostStep level m procs).1.queues level).items.length =
      (m.queues level).items.length - 1 := by
  rw [mlfqBoostStep]
  split
  · rename_i queue hpop
    rw [(queuePop_none hpop).1]
    rfl
  · rename_i pid queue hpop
    have htaken := queuePop_some hpop
    dsimp only
    rw [Function.update_of_ne hlevel, Function.update_self, htaken.items,
      List.length_erase_of_mem htaken.mem]

/-- A step of the boost touches two queues. -/
theorem mlfqBoostStep_other {m : MlfqState n} {procs : ProcTable n} {level l : Nat}
    (hlevel : l ≠ level) (hzero : l ≠ 0) :
    (mlfqBoostStep level m procs).1.queues l = m.queues l := by
  rw [mlfqBoostStep]
  split
  · rfl
  · dsimp only
    rw [Function.update_of_ne hzero, Function.update_of_ne hlevel]

/-- Draining a level keeps the entries of the top queue. -/
theorem mlfqDrain_top {level k : Nat} {q : Fin n} (hlevel : level ≠ 0) (fuel : Nat)
    {sp : MlfqState n × ProcTable n} (h : (sp.1.queues 0).items[k]? = some q) :
    ((mlfqDrain level fuel sp).1.queues 0).items[k]? = some q := by
  induction fuel generalizing sp with
  | zero => exact h
  | succ fuel ih =>
      rw [mlfqDrain]
      split
      · exact ih (mlfqBoostStep_top hlevel h)
      · exact h

/-- Draining a level touches two queues. -/
theorem mlfqDrain_other {level l : Nat} (hlevel : l ≠ level) (hzero : l ≠ 0) (fuel : Nat)
    (sp : MlfqState n × ProcTable n) : (mlfqDrain level fuel sp).1.queues l = sp.1.queues l := by
  induction fuel generalizing sp with
  | zero => rfl
  | succ fuel ih =>
      rw [mlfqDrain]
      split
      · rw [ih, mlfqBoostStep_other hlevel hzero]
      · rfl

/-- The count the source tests is fuel enough. -/
theorem mlfqDrain_empty {level : Nat} (hlevel : level ≠ 0) (fuel : Nat)
    (sp : MlfqState n × ProcTable n) (hfuel : (sp.1.queues level).items.length ≤ fuel) :
    ((mlfqDrain level fuel sp).1.queues level).items = [] := by
  induction fuel generalizing sp with
  | zero => exact List.eq_nil_of_length_eq_zero (Nat.le_zero.mp hfuel)
  | succ fuel ih =>
      rw [mlfqDrain]
      split
      · apply ih
        rw [mlfqBoostStep_length hlevel]
        omega
      · exact List.eq_nil_of_length_eq_zero (by omega)

theorem mlfqBoostStep_clock (level : Nat) (m : MlfqState n) (procs : ProcTable n) :
    (mlfqBoostStep level m procs).1.boostInterval = m.boostInterval := by
  rw [mlfqBoostStep]
  split <;> rfl

theorem mlfqDrain_clock (level fuel : Nat) (sp : MlfqState n × ProcTable n) :
    (mlfqDrain level fuel sp).1.boostInterval = sp.1.boostInterval := by
  induction fuel generalizing sp with
  | zero => rfl
  | succ fuel ih =>
      rw [mlfqDrain]
      split
      · rw [ih, mlfqBoostStep_clock]
      · rfl

/-- What a tick with a boost does. -/
structure Boosted (m m' : MlfqState n) (now : Int) : Prop where
  interval : m'.boostInterval = m.boostInterval
  last : m'.lastBoostTick = now
  top : ∀ (k : Nat) (q : Fin n), (m.queues 0).items[k]? = some q → (m'.queues 0).items[k]? = some q
  lower : ∀ l, l = 1 ∨ l = 2 → (m'.queues l).items = []

/-- The periodic tick boosts or does nothing. -/
theorem mlfqTick_cases (m : MlfqState n) (procs : ProcTable n) (now : Int) :
    (mlfqTick m procs now = (m, procs) ∧ (now = 0 ∨ now - m.lastBoostTick < m.boostInterval)) ∨
      Boosted m (mlfqTick m procs now).1 now := by
  rw [mlfqTick]
  split
  · rename_i hearly
    exact .inl ⟨rfl, hearly⟩
  · right
    refine ⟨?_, rfl, ?_, ?_⟩
    · show (mlfqBoostLevel 2 _).1.boostInterval = m.boostInterval
      rw [mlfqBoostLevel, mlfqDrain_clock, mlfqBoostLevel, mlfqDrain_clock]
    · intro k q h
      exact mlfqDrain_top (by decide) _ (mlfqDrain_top (by decide) _ h)
    · rintro l (rfl | rfl)
      · show ((mlfqBoostLevel 2 _).1.queues 1).items = []
        rw [mlfqBoostLevel, mlfqDrain_other (by decide) (by decide)]
        exact mlfqDrain_empty (by decide) _ _ (Nat.le_refl _)
      · exact mlfqDrain_empty (by decide) _ _ (Nat.le_refl _)

/-! ## Dispatch from the top queue -/

/-- A pick while the top queue holds `q` takes an entry before `q`, or `q`. -/
theorem mlfqPickNext_top {m m' : MlfqState n} {pid q : Fin n} {k : Nat}
    (h : mlfqPickNext m = (some pid, m')) (hq : (m.queues 0).items[k]? = some q) (hne : q ≠ pid) :
    pid ∈ (m.queues 0).items ∧ ∃ k', k = k' + 1 ∧ (m'.queues 0).items[k']? = some q := by
  have hk : k < (m.queues 0).items.length := (List.getElem?_eq_some_iff.mp hq).1
  rw [mlfqPickNext, mlfqPickFrom, if_pos (by omega), queuePop] at h
  cases hitems : (m.queues 0).items with
  | nil =>
      rw [hitems] at hk
      cases hk
  | cons head rest =>
      rw [hitems] at h hq
      obtain ⟨hhead, rfl⟩ := Prod.mk.inj h
      obtain rfl := Option.some.inj hhead
      cases k with
      | zero => exact absurd (Option.some.inj hq).symm hne
      | succ k' =>
          refine ⟨List.mem_cons_self, k', rfl, ?_⟩
          show (Function.update m.queues 0 _ 0).items[k']? = some q
          rw [Function.update_self]
          exact hq

/-- A CPU that finds `q` in the top queue gets a process from before `q`. -/
theorem dispatchBody_top {tick : Nat} {cpu : Fin c} {s : SimState n c} (hinv : SimInv s)
    (ha : s.scheduler.algorithm = .mlfq) {k : Nat} {q : Fin n} (hq : QueuedAt s.scheduler 0 k q)
    (hready : ((dispatchBody tick cpu s).procs q).state = .ready)
    (hidle : (s.cpus cpu).runningPid = none) :
    ∃ k' i, k = k' + 1 ∧ QueuedAt (dispatchBody tick cpu s).scheduler 0 k' q ∧
      (dispatchBody tick cpu s).cpus cpu = ⟨some i, 0⟩ ∧ (s.procs i).queueLevel = 0 := by
  have hentry : (s.scheduler.mlfq.queues 0).items[k]? = some q := by
    rw [QueuedAt, queueAt_mlfq ha] at hq
    exact hq
  have hpick : pickNextProcess s.scheduler s.procs cpu tick =
      ((mlfqPickNext s.scheduler.mlfq).1,
        { s.scheduler with mlfq := (mlfqPickNext s.scheduler.mlfq).2 }) := by
    simp [pickNextProcess, ha]
  rw [dispatchBody, hidle] at hready ⊢
  rw [hpick] at hready ⊢
  cases hnext : mlfqPickNext s.scheduler.mlfq with
  | mk picked m' =>
      rw [hnext] at hready
      cases picked with
      | none =>
          have hempty := (mlfqPickFrom_none hnext).2 0 (by decide)
          rw [hempty] at hentry
          cases hentry
      | some pid =>
          have hne : q ≠ pid := by
            rintro rfl
            simp [dispatchProc] at hready
          obtain ⟨hmem, k', hk, hrest⟩ := mlfqPickNext_top hnext hentry hne
          refine ⟨k', pid, hk, ?_, by simp, ?_⟩
          · rw [QueuedAt, queueAt_mlfq (by exact ha)]
            exact hrest
          · have hhome := ((hinv.queues.mem_iff 0 pid).mp (by rw [queueAt_mlfq ha]; exact hmem)).2
            simp only [homeOf, ha] at hhome
            exact Int.ofNat.inj hhome

/-- The dispatch loop and a process it leaves in the top queue: it moves up
    when CPU 0 was idle, which then has a fresh slice of the top level. -/
theorem preRecord_top {tick : Nat} {s : SimState n c} (hinv : SimInv (preDispatch tick s))
    (ha : (preDispatch tick s).scheduler.algorithm = .mlfq) {k : Nat} {q : Fin n}
    (hq : QueuedAt (preDispatch tick s).scheduler 0 k q)
    (hready : ((preRecord tick s).procs q).state = .ready) {first : Fin c}
    (hfirst : first.val = 0) :
    ∃ k', k' ≤ k ∧ QueuedAt (preRecord tick s).scheduler 0 k' q ∧
      (((preDispatch tick s).cpus first).runningPid = none →
        k' + 1 ≤ k ∧ sliceLeft (preRecord tick s) first = 2) := by
  let p := preDispatch tick s
  -- the first CPU has taken a process from the top queue
  let Fresh (s' : SimState n c) : Prop :=
    ∃ i, s'.cpus first = ⟨some i, 0⟩ ∧ (p.procs i).queueLevel = 0
  let I (m : Nat) (s' : SimState n c) : Prop :=
    (m = 0 → s' = p) ∧
      ((s'.procs q).state = .ready → ∃ k', k' ≤ k ∧ QueuedAt s'.scheduler 0 k' q ∧
        ((p.cpus first).runningPid = none → m ≠ 0 → k' + 1 ≤ k ∧ Fresh s'))
  -- every CPU keeps `I`, and the first one moves `q` forward if it was idle
  obtain ⟨hdispatched, -, hwait⟩ : Dispatching tick p c (preRecord tick s) ∧
      I c (preRecord tick s) := by
    refine preRecord_loop hinv I ⟨fun _ => rfl, fun _ =>
      ⟨k, Nat.le_refl k, hq, fun _ hm => absurd rfl hm⟩⟩ ?_
    rintro cpu s' hs' ⟨hstart, hwait⟩
    have hinv' := hs'.inv
    have ha' : s'.scheduler.algorithm = .mlfq := hs'.spec.algorithm.trans ha
    refine ⟨fun hm => absurd hm (Nat.succ_ne_zero _), ?_⟩
    intro hready'
    obtain ⟨k', hk', hq', hfresh⟩ := hwait (by rw [← ready_of_dispatchBody hready']; exact hready')
    by_cases hcpu : cpu = first
    · -- the first iteration
      subst hcpu
      have hs' := hstart hfirst
      cases hidle : (s'.cpus cpu).runningPid with
      | none =>
          obtain ⟨k'', i, hk'', hq'', hon, hlevel⟩ := dispatchBody_top hinv' ha' hq' hready' hidle
          refine ⟨k'', by omega, hq'', fun _ _ => ⟨by omega, i, hon, ?_⟩⟩
          rw [← hs']
          exact hlevel
      | some j =>
          have hsame : dispatchBody tick cpu s' = s' := by rw [dispatchBody, hidle]
          rw [hsame]
          refine ⟨k', hk', hq', ?_⟩
          intro hidle'
          rw [← hs', hidle] at hidle'
          cases hidle'
    · have hm : cpu.val ≠ 0 := fun hval => hcpu (Fin.ext (hval.trans hfirst.symm))
      -- later CPUs leave the first one as it is
      have hkeep : Fresh s' → Fresh (dispatchBody tick cpu s') := by
        rintro ⟨i, hon, hlevel⟩
        exact ⟨i, (dispatchBody_cpus_of_ne tick (Ne.symm hcpu)).trans hon, hlevel⟩
      cases hidle : (s'.cpus cpu).runningPid with
      | none =>
          obtain ⟨k'', i, hk'', hq'', -⟩ := dispatchBody_top hinv' ha' hq' hready' hidle
          refine ⟨k'', by omega, hq'', ?_⟩
          intro hidle' _
          obtain ⟨hlt, hf⟩ := hfresh hidle' hm
          exact ⟨by omega, hkeep hf⟩
      | some j =>
          have hsame : dispatchBody tick cpu s' = s' := by rw [dispatchBody, hidle]
          rw [hsame]
          exact ⟨k', hk', hq', fun hidle' _ => hfresh hidle' hm⟩
  have hmlfq : (preRecord tick s).scheduler.algorithm = .mlfq :=
    hdispatched.spec.algorithm.trans ha
  obtain ⟨k', hk', hq', hfresh⟩ := hwait hready
  refine ⟨k', hk', hq', ?_⟩
  intro hidle
  have hpos : c ≠ 0 := fun hc => absurd first.isLt (by omega)
  obtain ⟨hlt, i, hon, hlevel⟩ := hfresh hidle hpos
  refine ⟨hlt, ?_⟩
  have hrun : ((preRecord tick s).cpus first).runningPid = some i := by rw [hon]
  have hproc := (hdispatched.spec.fresh first i ⟨hidle, hrun⟩).2.2
  rw [sliceLeft_of_running hrun, hmlfq, hon, hproc]
  have hzero : (dispatchProc first tick ((preDispatch tick s).procs i)).queueLevel = 0 := hlevel
  rw [timeSliceFor, hzero]
  rfl

/-! ## The rows of a run -/

/-- A `READY` process is an entry of the queue of its level. -/
theorem SimInv.queuedAt_level {s : SimState n c} (h : SimInv s)
    (ha : s.scheduler.algorithm = .mlfq) {q : Fin n} (hq : (s.procs q).state = .ready) :
    ∃ k, QueuedAt s.scheduler (s.procs q).queueLevel k q := by
  apply exists_queuedAt
  rw [h.queues.mem_iff, ha]
  exact ⟨hq, rfl⟩

/-- The periodic tick on the simulator state. -/
theorem preDispatch_mlfq {s : SimState n c} (ha : s.scheduler.algorithm = .mlfq) (tick : Nat) :
    (preDispatch tick s).scheduler.mlfq =
      (mlfqTick (beforeTick tick s).scheduler.mlfq (beforeTick tick s).procs tick).1 := by
  have hb : (beforeTick tick s).scheduler.algorithm = .mlfq :=
    (beforeTick_outside tick s).algorithm.trans ha
  rw [preDispatch_scheduler, schedulerTick, hb]

/-- A tick either leaves the queues or boosts them. -/
theorem preDispatch_mlfq_cases {s : SimState n c} (ha : s.scheduler.algorithm = .mlfq)
    (tick : Nat) :
    ((preDispatch tick s).scheduler.mlfq = (beforeTick tick s).scheduler.mlfq ∧
      ((tick : Int) = 0 ∨ tick - (beforeTick tick s).scheduler.mlfq.lastBoostTick <
        (beforeTick tick s).scheduler.mlfq.boostInterval)) ∨
      Boosted (beforeTick tick s).scheduler.mlfq (preDispatch tick s).scheduler.mlfq tick := by
  rw [preDispatch_mlfq ha]
  rcases mlfqTick_cases (beforeTick tick s).scheduler.mlfq (beforeTick tick s).procs tick with
    ⟨hsame, hearly⟩ | hboosted
  · left
    exact ⟨congrArg Prod.fst hsame, hearly⟩
  · right
    exact hboosted

section Run

variable {w : Workload} (config : SimulationConfig)

/-- In a row the last boost is less than 20 ticks old. -/
structure BoostClock (s : SimState n c) (tick : Nat) : Prop where
  interval : s.scheduler.mlfq.boostInterval = 20
  last_le : s.scheduler.mlfq.lastBoostTick ≤ tick
  last_gt : tick - s.scheduler.mlfq.lastBoostTick < 20

theorem boostClock_of_clocks {s s' : SimState n c} (h : s'.scheduler.clocks = s.scheduler.clocks) :
    s'.scheduler.mlfq.boostInterval = s.scheduler.mlfq.boostInterval ∧
      s'.scheduler.mlfq.lastBoostTick = s.scheduler.mlfq.lastBoostTick :=
  ⟨congrArg Clocks.boostInterval h, congrArg Clocks.lastBoostTick h⟩

/-- What the boost of a tick makes of the clock. -/
theorem preRecord_boostClock {s : SimState n c} (ha : s.scheduler.algorithm = .mlfq) {tick : Nat}
    (hinterval : s.scheduler.mlfq.boostInterval = 20)
    (hlast : s.scheduler.mlfq.lastBoostTick ≤ tick)
    (hzero : tick = 0 → s.scheduler.mlfq.lastBoostTick = 0) :
    BoostClock (preRecord tick s) tick := by
  obtain ⟨hi, hl⟩ := boostClock_of_clocks (preRecord_clocks tick s)
  obtain ⟨hi', hl'⟩ := boostClock_of_clocks (beforeTick_clocks tick s)
  rcases preDispatch_mlfq_cases ha tick with ⟨hsame, hearly⟩ | hboosted
  · rw [hsame] at hi hl
    refine ⟨by omega, by omega, ?_⟩
    rcases hearly with hearly | hearly
    · have := hzero (by omega)
      omega
    · omega
  · have hnow := hboosted.last
    have hkeep := hboosted.interval
    exact ⟨by omega, by omega, by omega⟩

/-- The clock of the boosts is right in every row. -/
theorem recordAt_boostClock (hn : w.processCount ≤ maxProcesses) (tick : Nat) :
    BoostClock (recordAt w config .mlfq tick) tick := by
  induction tick with
  | zero => exact preRecord_boostClock rfl rfl (Int.le_refl 0) fun _ => rfl
  | succ tick ih =>
      obtain ⟨hi, hl⟩ := boostClock_of_clocks (stateAt_succ_clocks (w := w) config .mlfq tick)
      have hlast := ih.last_le
      exact preRecord_boostClock (stateAt_algorithm config .mlfq hn (tick + 1))
        (hi.trans ih.interval) (by push_cast; omega) fun hzero => absurd hzero (Nat.succ_ne_zero _)

/-- A process in a lower queue has not been boosted since it got there; one in
    the top queue has waited for what the entries before it and CPU 0 have used. -/
def MlfqWait (q : Fin w.processCount) (tick : Nat) : Prop :=
  let r := recordAt w config .mlfq tick
  r.scheduler.mlfq.lastBoostTick ≤ (r.procs q).readySince ∨
    ∃ k, QueuedAt r.scheduler 0 k q ∧
      tick - (r.procs q).readySince + 2 * k + sliceLeft r ⟨0, config.cpu_pos⟩ ≤
        2 * w.processCount + 26

/-- A time slice of MLFQ has at most 8 ticks left. -/
theorem sliceLeft_mlfq_le (hn : w.processCount ≤ maxProcesses) (tick : Nat)
    (cpu : Fin config.cpuCount) : sliceLeft (recordAt w config .mlfq tick) cpu ≤ 8 :=
  (recordAt_sliceInv config .mlfq hn tick).sliceLeft_le (by decide) (timeSliceFor_le _) cpu

/-- CPU 0 is busy while a process waits in the top queue. -/
theorem sliceLeft_pos_of_top (hn : w.processCount ≤ maxProcesses) {q : Fin w.processCount}
    {tick k : Nat} (hq : QueuedAt (recordAt w config .mlfq tick).scheduler 0 k q)
    (first : Fin config.cpuCount) : 1 ≤ sliceLeft (recordAt w config .mlfq tick) first := by
  have halg := recordAt_algorithm config .mlfq hn tick
  cases hidle : ((recordAt w config .mlfq tick).cpus first).runningPid with
  | some i => exact (recordAt_sliceInv config .mlfq hn tick).sliceLeft_pos hidle
  | none =>
      have hempty := recordAt_conserves config .mlfq hn nofun tick first first.isLt hidle 0
        (by rw [halg]; exact Nat.succ_pos 2) (by rw [halg]; trivial)
      have hmem := hq.mem
      rw [hempty] at hmem
      cases hmem

/-- A process that waits in the top queue moves up, or CPU 0 gets on. -/
theorem waits_top (hn : w.processCount ≤ maxProcesses) {q : Fin w.processCount} {tick k : Nat}
    (hready : ((recordAt w config .mlfq (tick + 1)).procs q).state = .ready)
    (hq : QueuedAt (recordAt w config .mlfq tick).scheduler 0 k q) (first : Fin config.cpuCount)
    (hfirst : first.val = 0) :
    ∃ k' : Nat, QueuedAt (recordAt w config .mlfq (tick + 1)).scheduler 0 k' q ∧
      2 * (k' : Int) + sliceLeft (recordAt w config .mlfq (tick + 1)) first + 1 ≤
        2 * k + sliceLeft (recordAt w config .mlfq tick) first := by
  have hpos := sliceLeft_pos_of_top config hn hq first
  have hbefore := queuedAt_beforeTick config .mlfq hq
  have halg := stateAt_algorithm (w := w) config .mlfq hn (tick + 1)
  have hpre := preDispatch_stateAt_inv config .mlfq hn (tick + 1)
  have halg' : (preDispatch (tick + 1) (stateAt w config .mlfq (tick + 1))).scheduler.algorithm =
      .mlfq := (preDispatch_outside ..).algorithm.trans halg
  -- neither the boost nor the phases before it move an entry of the top queue
  have hq' :
      QueuedAt (preDispatch (tick + 1) (stateAt w config .mlfq (tick + 1))).scheduler 0 k q := by
    rw [QueuedAt, queueAt_mlfq halg']
    rw [QueuedAt, queueAt_mlfq ((beforeTick_outside ..).algorithm.trans halg)] at hbefore
    rcases preDispatch_mlfq_cases halg (tick + 1) with ⟨hsame, -⟩ | hboosted
    · rw [hsame]
      exact hbefore
    · exact hboosted.top k q hbefore
  obtain ⟨k', hk', hqueued, hdispatch⟩ := preRecord_top hpre halg' hq' hready hfirst
  refine ⟨k', hqueued, ?_⟩
  have hsame : recordAt w config .mlfq (tick + 1) =
      preRecord (tick + 1) (stateAt w config .mlfq (tick + 1)) := rfl
  rcases busy_next (w := w) config .mlfq hn tick first with hidle | hbusy
  · obtain ⟨hlt, hslice⟩ := hdispatch hidle
    rw [hsame, hslice]
    omega
  · omega

/-- A process that waits below the top level is boosted, or the boost is still
    to come. -/
theorem waits_lower (hn : w.processCount ≤ maxProcesses) {q : Fin w.processCount} {tick : Nat}
    (hready : ((recordAt w config .mlfq (tick + 1)).procs q).state = .ready) :
    (recordAt w config .mlfq (tick + 1)).scheduler.mlfq.lastBoostTick =
        (recordAt w config .mlfq tick).scheduler.mlfq.lastBoostTick ∨
      ∃ k, QueuedAt (recordAt w config .mlfq (tick + 1)).scheduler 0 k q := by
  have halg := stateAt_algorithm (w := w) config .mlfq hn (tick + 1)
  have hpre := preDispatch_stateAt_inv config .mlfq hn (tick + 1)
  have hrow := recordAt_inv config .mlfq hn (tick + 1)
  have halg' : (preDispatch (tick + 1) (stateAt w config .mlfq (tick + 1))).scheduler.algorithm =
      .mlfq := (preDispatch_outside ..).algorithm.trans halg
  have hsince := (boostClock_of_clocks (stateAt_succ_clocks (w := w) config .mlfq tick)).2
  have hbefore := (boostClock_of_clocks
    (beforeTick_clocks (tick + 1) (stateAt w config .mlfq (tick + 1)))).2
  have hafter := (boostClock_of_clocks
    (preRecord_clocks (tick + 1) (stateAt w config .mlfq (tick + 1)))).2
  rcases preDispatch_mlfq_cases halg (tick + 1) with ⟨hsame, -⟩ | hboosted
  · left
    rw [hsame] at hafter
    exact hafter.trans (hbefore.trans hsince)
  · right
    -- after a boost every queued process is in the top queue
    have hproc := procs_of_ready_row config .mlfq hn hready
    have hready' : ((preDispatch (tick + 1) (stateAt w config .mlfq (tick + 1))).procs q).state =
        .ready := by
      rw [← hproc]
      exact hready
    obtain ⟨k, hk⟩ := hpre.queuedAt_level halg' hready'
    have hle := hpre.queues.level_le halg' q
    have hzero : ((preDispatch (tick + 1) (stateAt w config .mlfq (tick + 1))).procs q).queueLevel =
        0 := by
      by_contra hne
      rw [QueuedAt, queueAt_mlfq halg', hboosted.lower _ (by omega)] at hk
      cases hk
    obtain ⟨k', hk'⟩ := hrow.queuedAt_level (recordAt_algorithm config .mlfq hn (tick + 1)) hready
    rw [hproc, hzero] at hk'
    exact ⟨k', hk'⟩

/-- Every process that is `READY` in a row waits within its bound. -/
theorem recordAt_mlfqWait (hn : w.processCount ≤ maxProcesses) (tick : Nat)
    {q : Fin w.processCount} (hready : ((recordAt w config .mlfq tick).procs q).state = .ready) :
    MlfqWait config q tick := by
  induction tick with
  | zero =>
      left
      rw [ready_first_row config .mlfq hn hready]
      exact (recordAt_boostClock config hn 0).last_le
  | succ tick ih =>
      have hclock := recordAt_boostClock (w := w) config hn tick
      have hclock' := recordAt_boostClock (w := w) config hn (tick + 1)
      have hinv := recordAt_inv (w := w) config .mlfq hn (tick + 1)
      have hsame := procs_of_ready_row config .mlfq hn hready
      have hready' := hready
      rw [hsame] at hready'
      rcases ready_since_or_waits config .mlfq hn hready' with hnew | hwaits
      · left
        rw [hsame, hnew]
        exact hclock'.last_le
      · rcases ih hwaits.ready with hlower | ⟨k, hk, hbound⟩
        · rcases waits_lower config hn hready with hlast | ⟨k, hk⟩
          · left
            rw [hlast, hsame, hwaits.since]
            exact hlower
          · right
            have hk' := hinv.queues.entry_lt hk
            have hslice := sliceLeft_mlfq_le (w := w) config hn (tick + 1) ⟨0, config.cpu_pos⟩
            have hage := hclock.last_gt
            refine ⟨k, hk, ?_⟩
            rw [hsame, hwaits.since]
            push_cast
            omega
        · right
          obtain ⟨k', hk', hless⟩ := waits_top config hn hready hk ⟨0, config.cpu_pos⟩ rfl
          refine ⟨k', hk', ?_⟩
          rw [hsame, hwaits.since]
          push_cast
          omega

end Run

/-- **MLFQ does not starve.**  A process left `READY` in a row has waited for at
    most 28 ticks and two more for each process of the workload. -/
theorem mlfq_wait_bounded (w : WfWorkload) (config : SimulationConfig) (tick : Nat)
    (q : Fin w.processCount)
    (hready : ((recordAt w.toWorkload config .mlfq tick).procs q).state = .ready) :
    tick - ((recordAt w.toWorkload config .mlfq tick).procs q).readySince ≤
      28 + 2 * w.processCount := by
  rcases recordAt_mlfqWait config w.count_le tick hready with hlower | ⟨k, hk, hbound⟩
  · have hage := (recordAt_boostClock (w := w.toWorkload) config w.count_le tick).last_gt
    omega
  · have hpos := sliceLeft_pos_of_top config w.count_le hk ⟨0, config.cpu_pos⟩
    omega

/-- Three short processes on one CPU: the last one still waits in tick 1. -/
theorem mlfq_wait_bounded_shortJobs :
    ((1 : Nat) : Int) - ((recordAt (shortJobs 3 (by decide) (by decide)).toWorkload (oneCpu 5)
      .mlfq 1).procs ⟨2, by decide⟩).readySince ≤ 28 + 2 * (3 : Nat) :=
  mlfq_wait_bounded (shortJobs 3 (by decide) (by decide)) (oneCpu 5) 1 ⟨2, by decide⟩
    (by decide +kernel)

end G20OsLab.Sim
