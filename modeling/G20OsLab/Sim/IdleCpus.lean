/-
  G20OsLab.Sim.IdleCpus

  Which idle CPUs work stealing reaches.

  A steal needs two processes more in the longest queue than in the shortest
  one, and serves the first CPU with a shortest queue, be it busy or not.  So
  a CPU can idle beside a waiting process for as long as that process is alone
  in its queue, or as long as a lower CPU runs with an empty queue.  Apart
  from these two cases it gets a process within 5 ticks.
-/

import G20OsLab.Sim.Stealing

namespace G20OsLab.Sim

variable {n c : Nat}

/-! ## Idle rows -/

/-- CPU `cpu` is idle while a process without affinity is left `READY` in the
    queue of another CPU. -/
def IdleBesideReady (s : SimState n c) (cpu : Fin c) : Prop :=
  (s.cpus cpu).runningPid = none ∧ ∃ other : Fin c, other ≠ cpu ∧
    ∃ q ∈ (s.scheduler.queueAt other).items,
      (s.procs q).state = .ready ∧ (s.procs q).spec.affinity = -1

instance (s : SimState n c) (cpu : Fin c) : Decidable (IdleBesideReady s cpu) :=
  inferInstanceAs (Decidable (_ ∧ _))

/-- CPU `cpu` is idle while every lower CPU has a process left in its queue and
    some other CPU has two. -/
structure IdleBesideBacklog (s : SimState n c) (cpu : Fin c) : Prop where
  idle : (s.cpus cpu).runningPid = none
  lower : ∀ k : Fin c, k < cpu → (s.scheduler.queueAt k).items ≠ []
  backlog : ∃ other : Fin c, other ≠ cpu ∧ 2 ≤ (s.scheduler.queueAt other).items.length

/-! ## The shortest queue -/

theorem leastLoadedCpu_eq {s : CustomState n} {cpuCount cpu : Nat} (hcpu : cpu < cpuCount)
    (hzero : s.count cpu = 0) (hlower : ∀ k < cpu, 0 < s.count k) :
    leastLoadedCpu s cpuCount = cpu := by
  obtain ⟨hleast, hfirst⟩ := leastLoadedCpu_spec s (Nat.zero_lt_of_lt hcpu)
  have hle := hleast cpu hcpu
  rcases Nat.lt_trichotomy (leastLoadedCpu s cpuCount) cpu with hlt | heq | hgt
  · have hpos := hlower _ hlt
    omega
  · exact heq
  · have hless := hfirst cpu hgt
    omega

/-- A list without repetitions all of whose entries are equal. -/
theorem length_le_one_of_nodup {items : List (Fin n)} {x : Fin n} (hnodup : items.Nodup)
    (h : ∀ i ∈ items, i = x) : items.length ≤ 1 := by
  rw [List.eq_replicate_of_mem h] at hnodup
  exact List.nodup_replicate.mp hnodup

/-- A tick that leaves the queue of `cpu` empty, for all that a steal would
    serve it, was too early to steal. -/
theorem steal_too_early (hn : n ≤ maxProcesses) {s : SimState n c} (hinv : SimInv s)
    (ha : s.scheduler.algorithm = .custom) {tick : Nat} (htick : tick ≠ 0)
    (hclock : StealClock (beforeTick tick s) tick) {cpu : Fin c}
    (hempty : ∀ i, ((preDispatch tick s).procs i).state = .ready →
      ((preDispatch tick s).procs i).assignedCpu ≠ (cpu.val : Int))
    (hlower : ∀ k < cpu.val, 0 < (beforeTick tick s).scheduler.custom.count k)
    (hbacklog : ∃ k < c, 2 ≤ (beforeTick tick s).scheduler.custom.count k) :
    (preDispatch tick s).scheduler.custom.lastStealTick =
        (beforeTick tick s).scheduler.custom.lastStealTick ∧
      tick - (beforeTick tick s).scheduler.custom.lastStealTick < 5 := by
  have hc : 0 < c := cpu.pos
  have hb := beforeTick_inv hn hc hinv tick
  have halg : (beforeTick tick s).scheduler.algorithm = .custom :=
    (beforeTick_outside tick s).algorithm.trans ha
  have hthreshold := hclock.threshold
  have hinterval := hclock.interval
  have hold : (beforeTick tick s).scheduler.custom.imbalanceThreshold =
      s.scheduler.custom.imbalanceThreshold :=
    congrArg Clocks.imbalanceThreshold (beforeTick_clocks tick s)
  have hqueued : ∀ k i, i ∈ ((beforeTick tick s).scheduler.custom.queues k).items →
      ((preDispatch tick s).procs i).state = .ready ∧
        ((beforeTick tick s).procs i).assignedCpu = (k : Int) := by
    intro k i hi
    rw [← queueAt_custom halg, hb.queues.mem_iff, halg] at hi
    exact ⟨(preDispatch_state tick s i).trans hi.1, hi.2⟩
  obtain ⟨other, hother, htwo⟩ := hbacklog
  have hheavy := le_mostLoadedCpu (beforeTick tick s).scheduler.custom hother
  rcases preDispatch_custom_cases hn hc hinv ha (by omega) tick with
    ⟨hsame, hassigned, hrefused⟩ | ⟨pid, hassigned, hstolen⟩
  · -- the queue of `cpu` was empty, so the imbalance was large enough
    have hnil : ((beforeTick tick s).scheduler.custom.queues cpu).items = [] := by
      apply List.eq_nil_iff_forall_not_mem.mpr
      intro i hi
      obtain ⟨hready, hown⟩ := hqueued cpu i hi
      exact hempty i hready ((hassigned i).trans hown)
    have hzero : (beforeTick tick s).scheduler.custom.count cpu = 0 := by
      rw [CustomState.count, hnil]
      rfl
    rw [StealRefused, leastLoadedCpu_eq cpu.isLt hzero hlower, hzero] at hrefused
    refine ⟨by rw [hsame], ?_⟩
    omega
  · -- a steal would have served `cpu`
    exfalso
    have hpid := (hqueued _ pid hstolen.heavy).1
    have hothers : ∀ i ∈ ((beforeTick tick s).scheduler.custom.queues cpu).items, i = pid := by
      intro i hi
      by_contra hne
      obtain ⟨hready, hown⟩ := hqueued cpu i hi
      apply hempty i hready
      rw [hassigned i, Function.update_of_ne hne]
      exact hown
    have hnodup := hb.queues.family.nodup cpu
    rw [queueAt_custom halg] at hnodup
    have hcount := length_le_one_of_nodup hnodup hothers
    have hzero : (beforeTick tick s).scheduler.custom.count cpu = 0 := by
      rw [CustomState.count, List.length_eq_zero_iff]
      apply List.eq_nil_iff_forall_not_mem.mpr
      intro i hi
      obtain rfl := hothers i hi
      -- the longest queue would be the one of `cpu`, with one entry
      have hmost : mostLoadedCpu (beforeTick tick s).scheduler.custom c = cpu.val := by
        have h1 := (hqueued _ i hstolen.heavy).2
        rw [(hqueued cpu i hi).2] at h1
        exact (Int.ofNat.inj h1).symm
      have hlength : (beforeTick tick s).scheduler.custom.count cpu =
          ((beforeTick tick s).scheduler.custom.queues cpu).items.length := rfl
      rw [hmost] at hheavy
      omega
    apply hempty pid hpid
    rw [hassigned pid, Function.update_self]
    exact congrArg Nat.cast (leastLoadedCpu_eq cpu.isLt hzero hlower)

section Run

variable {w : Workload} (config : SimulationConfig)

/-- A CPU that stays idle had no process in its queue when dispatch began. -/
theorem assignedCpu_ne_of_idle (hn : w.processCount ≤ maxProcesses) {tick : Nat}
    {cpu : Fin config.cpuCount}
    (hidle : ((recordAt w config .custom tick).cpus cpu).runningPid = none) {i : Fin w.processCount}
    (hi : ((preDispatch tick (stateAt w config .custom tick)).procs i).state = .ready) :
    ((preDispatch tick (stateAt w config .custom tick)).procs i).assignedCpu ≠ (cpu.val : Int) := by
  intro hassigned
  have hpre := preDispatch_stateAt_inv config .custom hn tick
  have hrow := recordAt_inv config .custom hn tick
  have halg := recordAt_algorithm config .custom hn tick
  have halg' : (preDispatch tick (stateAt w config .custom tick)).scheduler.algorithm = .custom :=
    (preDispatch_outside ..).algorithm.trans (stateAt_algorithm config .custom hn tick)
  by_cases hplaced : ∃ k, Dispatched (preDispatch tick (stateAt w config .custom tick))
      (recordAt w config .custom tick) k i
  -- it was given to the CPU of its queue
  · obtain ⟨k, hk⟩ := hplaced
    have hown := (preRecord_customRow hpre halg' k i hk).1
    have hkc : k = cpu := Fin.ext (Int.ofNat.inj (hown.symm.trans hassigned))
    subst hkc
    exact absurd (hidle.symm.trans hk.2) nofun
  -- it is still in its queue
  · have hsame : (recordAt w config .custom tick).procs i =
        (preDispatch tick (stateAt w config .custom tick)).procs i :=
      (preRecord_spec hpre).other i fun k hk => hplaced ⟨k, hk⟩
    have hmem : i ∈ ((recordAt w config .custom tick).scheduler.queueAt cpu).items := by
      rw [hrow.queues.mem_iff, halg, hsame]
      exact ⟨hi, hassigned⟩
    have hempty := recordAt_conserves config .custom hn nofun tick cpu cpu.isLt hidle cpu
      (by rw [halg, hrow.cpuCount]; exact cpu.isLt) (by rw [halg]; rfl)
    rw [hempty] at hmem
    cases hmem

/-- While a CPU idles beside a backlog no steal is due. -/
theorem steal_not_due (hn : w.processCount ≤ maxProcesses) {tick : Nat} {cpu : Fin config.cpuCount}
    (hback : IdleBesideBacklog (recordAt w config .custom tick) cpu)
    (hidle : ((recordAt w config .custom (tick + 1)).cpus cpu).runningPid = none) :
    (recordAt w config .custom (tick + 1)).scheduler.custom.lastStealTick =
        (recordAt w config .custom tick).scheduler.custom.lastStealTick ∧
      tick + 1 - (recordAt w config .custom tick).scheduler.custom.lastStealTick < 5 := by
  have halg := recordAt_algorithm (w := w) config .custom hn tick
  have halg' := stateAt_algorithm (w := w) config .custom hn (tick + 1)
  have hbalg : (beforeTick (tick + 1) (stateAt w config .custom (tick + 1))).scheduler.algorithm =
      .custom := (beforeTick_outside ..).algorithm.trans halg'
  have hclock := recordAt_stealClock (w := w) config hn tick
  obtain ⟨hi, ht, hl⟩ := stealClock_of_clocks (stateAt_succ_clocks (w := w) config .custom tick)
  obtain ⟨hi', ht', hl'⟩ := stealClock_of_clocks
    (beforeTick_clocks (tick + 1) (stateAt w config .custom (tick + 1)))
  obtain ⟨-, -, hl''⟩ := stealClock_of_clocks
    (preRecord_clocks (tick + 1) (stateAt w config .custom (tick + 1)))
  have hpast := hclock.last_le
  -- entries of the row are still queued when the tick begins
  have hentry : ∀ (l k : Nat) (q : Fin w.processCount),
      ((recordAt w config .custom tick).scheduler.queueAt l).items[k]? = some q →
      k < (beforeTick (tick + 1)
        (stateAt w config .custom (tick + 1))).scheduler.custom.count l := by
    intro l k q hq
    have hbefore := queuedAt_beforeTick config .custom hq
    rw [QueuedAt, queueAt_custom hbalg] at hbefore
    exact (List.getElem?_eq_some_iff.mp hbefore).1
  have hcount : ∀ l k, k < ((recordAt w config .custom tick).scheduler.queueAt l).items.length →
      k < (beforeTick (tick + 1) (stateAt w config .custom (tick + 1))).scheduler.custom.count l :=
    fun l k hk => hentry l k _ (List.getElem?_eq_getElem hk)
  have hearly := steal_too_early hn (stateAt_inv config .custom hn (tick + 1)) halg'
    (show tick + 1 ≠ 0 by omega)
    ⟨hi'.trans (hi.trans hclock.interval), ht'.trans (ht.trans hclock.threshold),
      by push_cast; omega⟩
    (fun i hready => assignedCpu_ne_of_idle config hn hidle hready)
    (fun k hk => hcount k 0 (List.length_pos_of_ne_nil
      (hback.lower ⟨k, hk.trans cpu.isLt⟩ hk)))
    (by
      obtain ⟨other, -, htwo⟩ := hback.backlog
      exact ⟨other, other.isLt, hcount other 1 htwo⟩)
  obtain ⟨hsame, hless⟩ := hearly
  push_cast at hless
  exact ⟨hl''.trans (hsame.trans (hl'.trans hl)), by omega⟩

/-- Among any 6 rows in a row there is one in which a CPU does not idle beside
    a backlog. -/
theorem exists_not_idleBesideBacklog (hn : w.processCount ≤ maxProcesses) (tick : Nat)
    (cpu : Fin config.cpuCount) :
    ∃ k ≤ 5, ¬ IdleBesideBacklog (recordAt w config .custom (tick + k)) cpu := by
  by_contra hnone
  have hstretch : ∀ k ≤ 5, IdleBesideBacklog (recordAt w config .custom (tick + k)) cpu := by
    intro k hk
    by_contra hback
    exact hnone ⟨k, hk, hback⟩
  -- the last steal does not move in the stretch
  have hlast : ∀ k ≤ 5, (recordAt w config .custom (tick + k)).scheduler.custom.lastStealTick =
      (recordAt w config .custom tick).scheduler.custom.lastStealTick := by
    intro k
    induction k with
    | zero => exact fun _ => rfl
    | succ k ih =>
        intro hk
        have hnext := steal_not_due config hn (hstretch k (by omega)) (hstretch (k + 1) hk).idle
        exact hnext.1.trans (ih (by omega))
  have hdue := (steal_not_due config hn (hstretch 4 (by omega)) (hstretch 5 (by omega)).idle).2
  have hpast := (recordAt_stealClock (w := w) config hn tick).last_le
  rw [hlast 4 (by omega)] at hdue
  push_cast at hdue
  omega

end Run

/-- **Work stealing serves idle CPUs.**  No CPU idles beside a backlog in more
    than 5 rows in a row. -/
theorem work_stealing_serves_idle (w : WfWorkload) (config : SimulationConfig) (tick : Nat)
    (cpu : Fin config.cpuCount) :
    ∃ k ≤ 5, ¬ IdleBesideBacklog (recordAt w.toWorkload config .custom (tick + k)) cpu :=
  exists_not_idleBesideBacklog config w.count_le tick cpu

/-! ## Idle beside a `READY` process -/

/-- Processes of one CPU burst each, with pids from 1 on, given by arrival,
    affinity and duration. -/
def burstJobs (jobs : List (Int × Int × Int)) (hpos : 0 < jobs.length)
    (hle : jobs.length ≤ maxProcesses) (hjobs : ∀ job ∈ jobs, 0 ≤ job.1 ∧ 1 ≤ job.2.2) :
    WfWorkload where
  processCount := jobs.length
  processes := fun i =>
    ⟨i + 1, (jobs.get i).1, 0, 1, -1, (jobs.get i).2.1, [⟨.cpu, (jobs.get i).2.2⟩]⟩
  count_pos := hpos
  count_le := hle
  wellFormed i :=
    { pid_pos := by dsimp only; omega
      arrival_nonneg := (hjobs _ (List.get_mem ..)).1
      bursts_pos := Nat.one_pos
      bursts_le := by
        change 1 ≤ maxBursts
        decide
      alternates := fun k hk => by
        obtain rfl : k = 0 := Nat.lt_one_iff.mp hk
        rfl
      duration_pos := fun b hb => by
        obtain rfl := List.mem_singleton.mp hb
        exact (hjobs _ (List.get_mem ..)).2 }

/-- Two CPUs and a limit of 10 ticks. -/
def twoCpus : SimulationConfig :=
  { oneCpu 10 with cpuCount := 2, cpu_pos := by decide, cpu_le := by decide }

/-- Three CPUs and a limit of 10 ticks. -/
def threeCpus : SimulationConfig :=
  { oneCpu 10 with cpuCount := 3, cpu_pos := by decide, cpu_le := by decide }

/-- Two long processes without affinity; the second comes in a tick later. -/
def lateSecond : WfWorkload :=
  burstJobs [(0, -1, 10), (1, -1, 10)] (by decide) (by decide) (by decide)

/-- A backlog on CPU 0, a long process on CPU 1, and short ones on CPU 2. -/
def backlogged : WfWorkload :=
  burstJobs [(0, -1, 9), (0, 0, 4), (0, 1, 1), (0, 2, 1), (0, 0, 4), (0, 1, 1), (0, 2, 1),
    (0, 0, 4), (0, 1, 1), (0, 2, 1), (0, 0, 4), (0, 1, 9), (0, 2, 1), (0, 0, 4)]
    (by decide) (by decide) (by decide)

/-- CPU 1 idles for 6 ticks beside a process that is alone in the queue of
    CPU 0, and CPU 2 beside a backlog of CPU 0 while CPU 1 gets what is stolen. -/
theorem idle_beside_ready :
    ((∀ k < 6, IdleBesideReady (recordAt lateSecond.toWorkload twoCpus .custom (1 + k))
        ⟨1, by decide⟩) ∧
      (runLoop lateSecond.toWorkload twoCpus .custom).ticks = 10) ∧
    (∀ k < 6, IdleBesideReady (recordAt backlogged.toWorkload threeCpus .custom (4 + k))
        ⟨2, by decide⟩ ∧
      2 ≤ ((recordAt backlogged.toWorkload threeCpus .custom (4 + k)).scheduler.queueAt
        0).items.length) ∧
      (runLoop backlogged.toWorkload threeCpus .custom).ticks = 10 := by
  refine ⟨⟨?_, ?_⟩, ?_, ?_⟩
  · decide +kernel
  · decide +kernel
  · decide +kernel
  · decide +kernel

end G20OsLab.Sim
