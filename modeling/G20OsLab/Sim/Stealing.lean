/-
  G20OsLab.Sim.Stealing

  What the custom policy does to a waiting process.

  The periodic tick steals or does nothing (`customTick_cases`): a steal takes
  the last entry of the first longest queue to the first shortest one, at most
  once in 5 ticks.  Dispatch takes out of each queue an entry of the least
  score (`CustomRow`).
-/

import G20OsLab.Sim.Slices

namespace G20OsLab.Sim

open Lib (forLoop forLoop_preserves)

variable {n c : Nat}

/-! ## The load scan -/

theorem loadScan_succ (beats : Nat → Nat → Bool) (count : Nat → Nat) (m : Nat) :
    loadScan beats count (m + 2) =
      if beats (count (m + 1)) (count (loadScan beats count (m + 1))) then m + 1
      else loadScan beats count (m + 1) := by
  rw [loadScan, loadScan, Nat.add_sub_cancel, show m + 2 - 1 = m + 1 from rfl,
    List.range'_1_concat, List.foldl_append, List.foldl_cons, List.foldl_nil, Nat.add_comm 1 m]

/-- The scan ends at the first CPU of the least `key`. -/
theorem loadScan_first (beats : Nat → Nat → Bool) (key : Nat → Int)
    (hbeats : ∀ a b, beats a b = true ↔ key a < key b) (count : Nat → Nat) (m : Nat) :
    loadScan beats count (m + 1) ≤ m ∧
      (∀ k ≤ m, key (count (loadScan beats count (m + 1))) ≤ key (count k)) ∧
      ∀ k < loadScan beats count (m + 1),
        key (count (loadScan beats count (m + 1))) < key (count k) := by
  induction m with
  | zero =>
      have hzero : loadScan beats count 1 = 0 := rfl
      rw [hzero]
      refine ⟨Nat.le_refl 0, fun k hk => ?_, fun k hk => absurd hk (Nat.not_lt_zero k)⟩
      obtain rfl := Nat.le_zero.mp hk
      exact Int.le_refl _
  | succ m ih =>
      obtain ⟨hle, hleast, hfirst⟩ := ih
      rw [loadScan_succ]
      by_cases hbeat : beats (count (m + 1)) (count (loadScan beats count (m + 1)))
      · rw [if_pos hbeat]
        have hless := (hbeats _ _).mp hbeat
        have hbelow : ∀ k ≤ m, key (count (m + 1)) < key (count k) := fun k hk =>
          lt_of_lt_of_le hless (hleast k hk)
        refine ⟨Nat.le_refl _, fun k hk => ?_, fun k hk => hbelow k (by omega)⟩
        rcases Nat.lt_or_ge m k with hlt | hge
        · obtain rfl : k = m + 1 := by omega
          exact Int.le_refl _
        · exact le_of_lt (hbelow k hge)
      · rw [if_neg hbeat]
        have hnot : key (count (loadScan beats count (m + 1))) ≤ key (count (m + 1)) :=
          not_lt.mp fun hlt => hbeat ((hbeats _ _).mpr hlt)
        refine ⟨by omega, fun k hk => ?_, hfirst⟩
        rcases Nat.lt_or_ge m k with hlt | hge
        · obtain rfl : k = m + 1 := by omega
          exact hnot
        · exact hleast k hge

/-- `least_loaded_cpu` is the first CPU with the shortest queue. -/
theorem leastLoadedCpu_spec (s : CustomState n) {cpuCount : Nat} (h : 0 < cpuCount) :
    (∀ k < cpuCount, s.count (leastLoadedCpu s cpuCount) ≤ s.count k) ∧
      ∀ k < leastLoadedCpu s cpuCount, s.count (leastLoadedCpu s cpuCount) < s.count k := by
  obtain ⟨m, rfl⟩ : ∃ m, cpuCount = m + 1 := ⟨cpuCount - 1, by omega⟩
  obtain ⟨-, hleast, hfirst⟩ := loadScan_first (fun a b => decide (a < b)) (fun a => (a : Int))
    (fun a b => by simp) s.count m
  refine ⟨?_, ?_⟩
  · intro k hk
    exact Int.ofNat_le.mp (hleast k (by omega))
  · intro k hk
    exact Int.ofNat_lt.mp (hfirst k hk)

/-- `most_loaded_cpu` has a longest queue. -/
theorem le_mostLoadedCpu (s : CustomState n) {cpuCount k : Nat} (hk : k < cpuCount) :
    s.count k ≤ s.count (mostLoadedCpu s cpuCount) := by
  obtain ⟨m, rfl⟩ : ∃ m, cpuCount = m + 1 := ⟨cpuCount - 1, by omega⟩
  obtain ⟨-, hmost, -⟩ := loadScan_first (fun a b => decide (a > b)) (fun a => -(a : Int))
    (fun a b => by simp) s.count m
  have hle := hmost k (by omega)
  rw [mostLoadedCpu]
  omega

/-! ## The steal -/

/-- What a steal of `pid` makes of policy and table. -/
structure Stolen (s : CustomState n) (cpuCount : Nat) (procs : ProcTable n) (now : Int)
    (pid : Fin n) (s' : CustomState n) (procs' : ProcTable n) : Prop where
  due : s.stealInterval ≤ now - s.lastStealTick
  interval : s'.stealInterval = s.stealInterval
  threshold : s'.imbalanceThreshold = s.imbalanceThreshold
  last : s'.lastStealTick = now
  heavy : pid ∈ (s.queues (mostLoadedCpu s cpuCount)).items
  imbalance : s.imbalanceThreshold ≤
    (s.count (mostLoadedCpu s cpuCount) : Int) - s.count (leastLoadedCpu s cpuCount)
  procs : procs' = Function.update procs pid
    { procs pid with assignedCpu := leastLoadedCpu s cpuCount }

/-- Why a tick does not steal. -/
def StealRefused (s : CustomState n) (cpuCount : Nat) (now : Int) : Prop :=
  now = 0 ∨ now - s.lastStealTick < s.stealInterval ∨
    (s.count (mostLoadedCpu s cpuCount) : Int) - s.count (leastLoadedCpu s cpuCount) <
      s.imbalanceThreshold

/-- The periodic tick steals a process or does nothing. -/
theorem customTick_cases (s : CustomState n) (cpuCount : Nat) (procs : ProcTable n) (now : Int)
    (hnodup : ∀ l, (s.queues l).items.Nodup) (hthreshold : 0 < s.imbalanceThreshold) :
    (customTick s cpuCount procs now = (s, procs) ∧ StealRefused s cpuCount now) ∨
      ∃ pid, Stolen s cpuCount procs now pid (customTick s cpuCount procs now).1
        (customTick s cpuCount procs now).2 := by
  rw [customTick]
  split
  · rename_i hearly
    left
    exact ⟨rfl, hearly.imp_right .inl⟩
  · rename_i hearly
    dsimp only
    split
    · rename_i hbalanced
      left
      exact ⟨rfl, .inr (.inr hbalanced)⟩
    · rename_i hbalanced
      have hheavy : (s.queues (mostLoadedCpu s cpuCount)).items.length =
          s.count (mostLoadedCpu s cpuCount) := rfl
      split
      -- the longest queue has a last entry
      · rename_i queue hremove
        have hout := (queueRemoveAt_none hremove).2
        omega
      · rename_i pid queue hremove
        right
        have htaken := queueRemoveAt_some (hnodup _) hremove
        exact ⟨pid, by omega, rfl, rfl, rfl, htaken.mem, by omega, rfl⟩

/-- In a row the last steal lies in the past. -/
structure StealClock (s : SimState n c) (tick : Nat) : Prop where
  interval : s.scheduler.custom.stealInterval = 5
  threshold : s.scheduler.custom.imbalanceThreshold = 2
  last_le : s.scheduler.custom.lastStealTick ≤ tick

theorem stealClock_of_clocks {s s' : SimState n c} (h : s'.scheduler.clocks = s.scheduler.clocks) :
    s'.scheduler.custom.stealInterval = s.scheduler.custom.stealInterval ∧
      s'.scheduler.custom.imbalanceThreshold = s.scheduler.custom.imbalanceThreshold ∧
      s'.scheduler.custom.lastStealTick = s.scheduler.custom.lastStealTick :=
  ⟨congrArg Clocks.stealInterval h, congrArg Clocks.imbalanceThreshold h,
    congrArg Clocks.lastStealTick h⟩

theorem waitingLoop_assignedCpu (s : SimState n c) (i : Fin n) :
    ((forLoop n waitingBody s).procs i).assignedCpu = (s.procs i).assignedCpu := by
  let P (s' : SimState n c) : Prop := (s'.procs i).assignedCpu = (s.procs i).assignedCpu
  refine forLoop_preserves P rfl ?_
  intro j s' h'
  show ((waitingBody j s').procs i).assignedCpu = (s.procs i).assignedCpu
  rw [waitingBody]
  split
  · rw [setProc_procs]
    by_cases hj : i = j
    · subst hj
      rw [Function.update_self]
      exact h'
    · rw [Function.update_of_ne hj]
      exact h'
  · exact h'

/-- No phase from the periodic tick to dispatch changes the state of a process. -/
theorem preDispatch_state (tick : Nat) (s : SimState n c) (i : Fin n) :
    ((preDispatch tick s).procs i).state = ((beforeTick tick s).procs i).state := by
  have hwait := core_eq_state ((waitingBody_actsOn.loop (tickBody tick (beforeTick tick s)) i).trans
    (waitProc_core _).symm)
  have htick := core_eq_state (schedulerTick_core (beforeTick tick s).scheduler
    (beforeTick tick s).procs tick i)
  refine hwait.trans (Eq.trans ?_ htick)
  rw [waitProc]
  split <;> rfl

/-- The periodic tick on the simulator state. -/
theorem preDispatch_custom_cases (hn : n ≤ maxProcesses) (hc : 0 < c) {s : SimState n c}
    (hinv : SimInv s) (ha : s.scheduler.algorithm = .custom)
    (hthreshold : 0 < s.scheduler.custom.imbalanceThreshold) (tick : Nat) :
    ((preDispatch tick s).scheduler.custom = (beforeTick tick s).scheduler.custom ∧
      (∀ i, ((preDispatch tick s).procs i).assignedCpu =
        ((beforeTick tick s).procs i).assignedCpu) ∧
      StealRefused (beforeTick tick s).scheduler.custom c tick) ∨
      ∃ pid, (∀ i, ((preDispatch tick s).procs i).assignedCpu =
          (Function.update (beforeTick tick s).procs pid
            { (beforeTick tick s).procs pid with
              assignedCpu :=
                leastLoadedCpu (beforeTick tick s).scheduler.custom c } i).assignedCpu) ∧
        Stolen (beforeTick tick s).scheduler.custom c (beforeTick tick s).procs tick pid
          (preDispatch tick s).scheduler.custom (tickBody tick (beforeTick tick s)).procs := by
  have hb := beforeTick_inv hn hc hinv tick
  have halg : (beforeTick tick s).scheduler.algorithm = .custom :=
    (beforeTick_outside tick s).algorithm.trans ha
  have hclock : (beforeTick tick s).scheduler.custom.imbalanceThreshold =
      s.scheduler.custom.imbalanceThreshold :=
    congrArg Clocks.imbalanceThreshold (beforeTick_clocks tick s)
  have hnodup : ∀ l, ((beforeTick tick s).scheduler.custom.queues l).items.Nodup := by
    have hfamily := hb.queues.family.nodup
    rw [queueAt_custom halg] at hfamily
    exact hfamily
  -- counting the waiting time moves no process
  have hassigned : ∀ i, ((preDispatch tick s).procs i).assignedCpu =
      ((tickBody tick (beforeTick tick s)).procs i).assignedCpu :=
    waitingLoop_assignedCpu (tickBody tick (beforeTick tick s))
  have hstep : ((preDispatch tick s).scheduler.custom, (tickBody tick (beforeTick tick s)).procs) =
      customTick (beforeTick tick s).scheduler.custom c (beforeTick tick s).procs tick := by
    rw [preDispatch_scheduler, tickBody, schedulerTick, halg, hb.cpuCount]
  rcases customTick_cases (beforeTick tick s).scheduler.custom c (beforeTick tick s).procs tick
    hnodup (by rw [hclock]; exact hthreshold) with ⟨hsame, hrefused⟩ | ⟨pid, hstolen⟩
  · left
    rw [hsame] at hstep
    obtain ⟨hcustom, hprocs⟩ := Prod.mk.inj hstep
    exact ⟨hcustom, fun i => by rw [hassigned, hprocs], hrefused⟩
  · right
    rw [← hstep] at hstolen
    exact ⟨pid, fun i => by rw [hassigned, ← hstolen.procs], hstolen⟩

section Clock

variable {w : Workload} (config : SimulationConfig)

theorem preRecord_stealClock (hn : n ≤ maxProcesses) (hc : 0 < c) {s : SimState n c}
    (hinv : SimInv s) (ha : s.scheduler.algorithm = .custom) {tick : Nat}
    (h : StealClock s tick) : StealClock (preRecord tick s) tick := by
  obtain ⟨hi, ht, hl⟩ := stealClock_of_clocks (preRecord_clocks tick s)
  obtain ⟨hi', ht', hl'⟩ := stealClock_of_clocks (beforeTick_clocks tick s)
  have hinterval := h.interval
  have hthreshold := h.threshold
  have hlast := h.last_le
  rcases preDispatch_custom_cases hn hc hinv ha (by omega) tick with
    ⟨hsame, -⟩ | ⟨pid, -, hstolen⟩
  · rw [hsame] at hi ht hl
    exact ⟨by omega, by omega, by omega⟩
  · have hkeep := hstolen.interval
    have hkeep' := hstolen.threshold
    have hnow := hstolen.last
    exact ⟨by omega, by omega, by omega⟩

theorem recordAt_stealClock (hn : w.processCount ≤ maxProcesses) (tick : Nat) :
    StealClock (recordAt w config .custom tick) tick := by
  induction tick with
  | zero =>
      have hinit : StealClock (stateAt w config .custom 0) 0 := ⟨rfl, rfl, Int.le_refl 0⟩
      exact preRecord_stealClock hn config.cpu_pos (stateAt_inv config .custom hn 0) rfl hinit
  | succ tick ih =>
      obtain ⟨hi, ht, hl⟩ := stealClock_of_clocks (stateAt_succ_clocks (w := w) config .custom tick)
      have hlast := ih.last_le
      exact preRecord_stealClock hn config.cpu_pos (stateAt_inv config .custom hn (tick + 1))
        (stateAt_algorithm config .custom hn (tick + 1))
        ⟨hi.trans ih.interval, ht.trans ih.threshold, by push_cast; omega⟩

/-- What a tick does to the queue of a process that waits: it stays where it
    is, or it is stolen. -/
theorem waits_assignedCpu (hn : w.processCount ≤ maxProcesses) {q : Fin w.processCount}
    {tick : Nat} (hw : Waits config .custom q tick) :
    let last := (recordAt w config .custom tick).scheduler.custom.lastStealTick
    let last' := (recordAt w config .custom (tick + 1)).scheduler.custom.lastStealTick
    (((preDispatch (tick + 1) (stateAt w config .custom (tick + 1))).procs q).assignedCpu =
        ((recordAt w config .custom tick).procs q).assignedCpu ∧
      (last' = last ∨ last' = tick + 1)) ∨
    (last' = tick + 1 ∧ 5 ≤ tick + 1 - last) := by
  intro last last'
  have hclock := recordAt_stealClock (w := w) config hn tick
  have hinv := stateAt_inv (w := w) config .custom hn (tick + 1)
  have halg := stateAt_algorithm (w := w) config .custom hn (tick + 1)
  obtain ⟨hi, ht, hl⟩ := stealClock_of_clocks (stateAt_succ_clocks (w := w) config .custom tick)
  obtain ⟨hi', ht', hl'⟩ := stealClock_of_clocks
    (beforeTick_clocks (tick + 1) (stateAt w config .custom (tick + 1)))
  obtain ⟨-, -, hl''⟩ := stealClock_of_clocks
    (preRecord_clocks (tick + 1) (stateAt w config .custom (tick + 1)))
  have hsame : (beforeTick (tick + 1) (stateAt w config .custom (tick + 1))).procs q =
      (recordAt w config .custom tick).procs q := by
    rw [beforeTick_procs, hw.after]
    · rw [hw.after, hw.ready]
      exact nofun
    · rw [hw.after, hw.ready]
      exact nofun
  have hinterval := hclock.interval
  have hthreshold := hclock.threshold
  -- only a steal moves a waiting process to another CPU
  rcases preDispatch_custom_cases hn config.cpu_pos hinv halg (by omega) (tick + 1) with
    ⟨hcustom, hassigned, -⟩ | ⟨pid, hassigned, hstolen⟩
  · left
    rw [hcustom] at hl''
    exact ⟨(hassigned q).trans (congrArg ProcessRuntime.assignedCpu hsame),
      .inl (hl''.trans (hl'.trans hl))⟩
  · have hnow : last' = tick + 1 := hl''.trans (hstolen.last.trans (by push_cast; rfl))
    by_cases hpid : q = pid
    · right
      have hdue := hstolen.due
      have hlast : last = (recordAt w config .custom tick).scheduler.custom.lastStealTick := rfl
      push_cast at hdue
      exact ⟨hnow, by omega⟩
    · left
      refine ⟨?_, .inr hnow⟩
      rw [hassigned q, Function.update_of_ne hpid, hsame]

end Clock

/-! ## Dispatch -/

/-- The custom policy picks an entry of the queue with the least score. -/
theorem customPick_score {s s' : SchedulerState n} {procs : ProcTable n} {cpuId : Nat} {now : Int}
    {pid : Fin n} (ha : s.algorithm = .custom)
    (h : pickNextProcess s procs cpuId now = (some pid, s')) :
    pid ∈ (s.queueAt cpuId).items ∧ ∀ q ∈ (s.queueAt cpuId).items,
      customScore procs cpuId now pid ≤ customScore procs cpuId now q := by
  rw [queueAt_custom ha]
  simp only [pickNextProcess, ha, customPickNext, Prod.mk.injEq] at h
  have hpick := h.1
  split at hpick
  · cases hpick
  · rename_i k best hscan
    obtain ⟨hget, hmin, -⟩ := Lib.scanMin_spec hscan
    rw [queueRemoveAt_of_getElem? hget] at hpick
    obtain rfl := Option.some.inj hpick
    exact ⟨List.mem_of_getElem? hget, fun q hq => not_lt.mp fun hlt => hmin q hq (.inl hlt)⟩

/-- A CPU was given a process of its own queue, of no greater score than those
    left in it. -/
def CustomRow (tick : Nat) (p s : SimState n c) : Prop :=
  ∀ cpu r, Dispatched p s cpu r → (p.procs r).assignedCpu = (cpu.val : Int) ∧
    ∀ q, (s.procs q).state = .ready → (s.procs q).assignedCpu = (cpu.val : Int) →
      customScore p.procs cpu tick r ≤ customScore p.procs cpu tick q

theorem customScore_congr {procs procs' : ProcTable n} {i : Fin n} (h : procs i = procs' i)
    (cpuId : Nat) (now : Int) : customScore procs cpuId now i = customScore procs' cpuId now i := by
  rw [customScore, customScore, h]

theorem dispatchBody_customRow {tick : Nat} {p s : SimState n c} (hinv : SimInv s)
    (ha : s.scheduler.algorithm = .custom) (hspec : DispatchSpec tick p s) (cpu : Fin c)
    (hcpu : s.cpus cpu = p.cpus cpu) (h : CustomRow tick p s) :
    CustomRow tick p (dispatchBody tick cpu s) := by
  intro k r hr
  by_cases hk : k = cpu
  · subst hk
    have hidle : (s.cpus k).runningPid = none := by
      rw [hcpu]
      exact hr.1
    have hplaced := hr.2
    rw [dispatchBody, hidle] at hplaced
    dsimp only at hplaced
    split at hplaced
    · have hnone := hidle.symm.trans hplaced
      cases hnone
    · rename_i pid scheduler hpick
      rw [setCpu_cpus, Function.update_self] at hplaced
      obtain rfl := Option.some.inj hplaced
      obtain ⟨hmem, hleast⟩ := customPick_score ha hpick
      have hqueued := (hinv.queues.mem_iff k pid).mp hmem
      rw [ha] at hqueued
      -- a process `READY` here was given to no CPU before
      have hfree : ∀ i, (s.procs i).state = .ready → s.procs i = p.procs i := fun i hi =>
        hspec.other i fun k' hk' => hinv.cpus.ne_of_ready hi hk'.2 rfl
      refine ⟨hfree pid hqueued.1 ▸ hqueued.2, ?_⟩
      intro q hq hassigned
      have hsame := ready_of_dispatchBody hq
      rw [hsame] at hq hassigned
      have hscore := hleast q (by rw [hinv.queues.mem_iff, ha]; exact ⟨hq, hassigned⟩)
      rw [customScore_congr (hfree pid hqueued.1), customScore_congr (hfree q hq)] at hscore
      exact hscore
  · have hr' : Dispatched p s k r := by
      refine ⟨hr.1, ?_⟩
      rw [← dispatchBody_cpus_of_ne tick hk]
      exact hr.2
    obtain ⟨hown, hleast⟩ := h k r hr'
    refine ⟨hown, ?_⟩
    intro q hq hassigned
    have hsame := ready_of_dispatchBody hq
    rw [hsame] at hq hassigned
    exact hleast q hq hassigned

theorem preRecord_customRow {tick : Nat} {s : SimState n c} (hinv : SimInv (preDispatch tick s))
    (ha : (preDispatch tick s).scheduler.algorithm = .custom) :
    CustomRow tick (preDispatch tick s) (preRecord tick s) := by
  have hstart : CustomRow tick (preDispatch tick s) (preDispatch tick s) := fun cpu r hr =>
    absurd (hr.1.symm.trans hr.2) nofun
  refine (preRecord_loop hinv (fun _ => CustomRow tick (preDispatch tick s)) hstart
    fun cpu s' hs' hrow => ?_).2
  have hcpu := hs'.untouched cpu (Nat.le_refl _)
  exact dispatchBody_customRow hs'.inv (hs'.spec.algorithm.trans ha) hs'.spec cpu hcpu hrow

end G20OsLab.Sim
