/-
  G20OsLab.Sim.Interface

  Specifications of the three operations of the scheduler interface, one for
  all policies: an enqueue pushes the process on the queue of its new home, a
  pick takes one `READY` process out of its queue, and the periodic tick moves
  processes between queues without touching anything but their placement.
-/

import G20OsLab.Sim.Policy

namespace G20OsLab.Sim

variable {n : Nat}

/-! ## Enqueue -/

/-- The MLFQ level a process is enqueued at; other policies leave it alone. -/
def placeLevel (algorithm : AlgorithmKind) (level : Nat) (reason : EnqueueReason) : Nat :=
  match algorithm with
  | .mlfq => mlfqLevel level reason
  | .lottery | .edf | .custom | .all => level

/-- The CPU a process is assigned on enqueue; only the custom policy does. -/
def placeCpu (s : SchedulerState n) (proc : ProcessRuntime) (cpuHint : Int) : Int :=
  match s.algorithm with
  | .mlfq | .lottery | .edf => proc.assignedCpu
  | .custom | .all => customTarget s.custom s.cpuCount proc.spec.affinity cpuHint

/-- The process as `enqueue_process` leaves it. -/
def enqueuedProc (s : SchedulerState n) (proc : ProcessRuntime) (cpuHint now : Int)
    (reason : EnqueueReason) : ProcessRuntime :=
  { proc with
    state := .ready
    readySince := now
    queueLevel := placeLevel s.algorithm proc.queueLevel reason
    assignedCpu := placeCpu s proc cpuHint }

section Enqueue

variable (s : SchedulerState n) (procs : ProcTable n) (pid : Fin n) (cpuHint now : Int)
variable (reason : EnqueueReason)

@[simp] theorem enqueueProcess_algorithm :
    (enqueueProcess s procs pid cpuHint now reason).1.algorithm = s.algorithm := by
  rw [enqueueProcess]
  cases s.algorithm <;> rfl

@[simp] theorem enqueueProcess_cpuCount :
    (enqueueProcess s procs pid cpuHint now reason).1.cpuCount = s.cpuCount := by
  rw [enqueueProcess]
  cases s.algorithm <;> rfl

/-- An enqueue rewrites the enqueued process and no other. -/
theorem enqueueProcess_procs :
    (enqueueProcess s procs pid cpuHint now reason).2 =
      Function.update procs pid (enqueuedProc s (procs pid) cpuHint now reason) := by
  funext j
  unfold enqueueProcess enqueuedProc placeLevel placeCpu
  by_cases hj : j = pid
  · subst hj
    cases s.algorithm <;> simp [mlfqEnqueue, customEnqueue]
  · cases s.algorithm <;> simp [mlfqEnqueue, customEnqueue, hj]

/-- An enqueue pushes the process on the queue of its new home. -/
theorem enqueueProcess_queueAt :
    ∃ l : Nat, homeOf s.algorithm (enqueuedProc s (procs pid) cpuHint now reason) = l ∧
      (enqueueProcess s procs pid cpuHint now reason).1.queueAt =
        Function.update s.queueAt l (queuePush (s.queueAt l) pid) := by
  cases ha : s.algorithm with
  | mlfq =>
      refine ⟨mlfqLevel (procs pid).queueLevel reason, ?_, ?_⟩
      · simp [homeOf, enqueuedProc, placeLevel, ha]
      · funext k
        simp [enqueueProcess, SchedulerState.queueAt, mlfqEnqueue, ha, Function.update_apply]
  | lottery =>
      refine ⟨0, rfl, ?_⟩
      funext k
      by_cases hk : k = 0 <;>
        simp [enqueueProcess, SchedulerState.queueAt, lotteryEnqueue, ha, hk]
  | edf =>
      refine ⟨0, rfl, ?_⟩
      funext k
      by_cases hk : k = 0 <;>
        simp [enqueueProcess, SchedulerState.queueAt, edfEnqueue, ha, hk]
  | custom =>
      refine ⟨customTarget s.custom s.cpuCount (procs pid).spec.affinity cpuHint, ?_, ?_⟩
      · simp [homeOf, enqueuedProc, placeCpu, ha]
      · funext k
        simp [enqueueProcess, SchedulerState.queueAt, customEnqueue, ha, Function.update_apply]
  | all =>
      refine ⟨customTarget s.custom s.cpuCount (procs pid).spec.affinity cpuHint, ?_, ?_⟩
      · simp [homeOf, enqueuedProc, placeCpu, ha]
      · funext k
        simp [enqueueProcess, SchedulerState.queueAt, customEnqueue, ha, Function.update_apply]

end Enqueue

theorem mlfqLevel_le (level : Nat) (reason : EnqueueReason) (h : level ≤ 2) :
    mlfqLevel level reason ≤ 2 := by
  cases reason <;> simp only [mlfqLevel]
  · omega
  · split <;> omega
  · split <;> omega

/-- The load scan names a CPU of the range it scans. -/
theorem loadScan_lt (beats : Nat → Nat → Bool) (count : Nat → Nat) {cpuCount : Nat}
    (h : 0 < cpuCount) : loadScan beats count cpuCount < cpuCount := by
  have hscan : ∀ (cpus : List Nat) (best : Nat), best < cpuCount →
      (∀ cpu ∈ cpus, cpu < cpuCount) →
      cpus.foldl (fun best cpu => if beats (count cpu) (count best) then cpu else best) best
        < cpuCount := by
    intro cpus
    induction cpus with
    | nil => exact fun best hbest _ => hbest
    | cons cpu rest ih =>
        intro best hbest hcpus
        rw [List.foldl_cons]
        refine ih _ ?_ fun k hk => hcpus k (List.mem_cons_of_mem _ hk)
        split
        · exact hcpus cpu List.mem_cons_self
        · exact hbest
  refine hscan _ 0 h ?_
  intro cpu hcpu
  rw [List.mem_range'_1] at hcpu
  omega

theorem customTarget_lt (s : CustomState n) {cpuCount : Nat} (h : 0 < cpuCount)
    (affinity cpuHint : Int) : customTarget s cpuCount affinity cpuHint < cpuCount := by
  have hleast : leastLoadedCpu s cpuCount < cpuCount := loadScan_lt _ _ h
  have hpreferred : customPreferred s cpuCount affinity cpuHint < cpuCount := by
    rw [customPreferred]
    split
    · omega
    · split
      · omega
      · exact hleast
  unfold customTarget
  dsimp only
  split
  · exact hleast
  · exact hpreferred

theorem enqueuedProc_home_lt {s : SchedulerState n} {proc : ProcessRuntime}
    (hcpu : 0 < s.cpuCount) (hlevel : s.algorithm = .mlfq → proc.queueLevel ≤ 2)
    (cpuHint now : Int) (reason : EnqueueReason) :
    homeOf s.algorithm (enqueuedProc s proc cpuHint now reason) <
      queueCount s.algorithm s.cpuCount := by
  cases ha : s.algorithm with
  | mlfq =>
      have h := mlfqLevel_le proc.queueLevel reason (hlevel ha)
      simp only [homeOf, enqueuedProc, placeLevel, queueCount, ha]
      omega
  | lottery => simp [homeOf, queueCount]
  | edf => simp [homeOf, queueCount]
  | custom =>
      have h := customTarget_lt s.custom hcpu proc.spec.affinity cpuHint
      simp only [homeOf, enqueuedProc, placeCpu, queueCount, ha]
      omega
  | all =>
      have h := customTarget_lt s.custom hcpu proc.spec.affinity cpuHint
      simp only [homeOf, enqueuedProc, placeCpu, queueCount, ha]
      omega

/-- Enqueueing a process that is not `READY` keeps the queue invariant, and so
    finds room in its queue. -/
theorem enqueue_queueInv {s : SchedulerState n} {procs : ProcTable n} {pid : Fin n}
    (h : QueueInv s procs) (hn : n ≤ maxProcesses) (hcpu : 0 < s.cpuCount)
    (hpid : (procs pid).state ≠ .ready) (cpuHint now : Int) (reason : EnqueueReason) :
    QueueInv (enqueueProcess s procs pid cpuHint now reason).1
      (enqueueProcess s procs pid cpuHint now reason).2 := by
  obtain ⟨l, hhome, hqueue⟩ := enqueueProcess_queueAt s procs pid cpuHint now reason
  have hlt := enqueuedProc_home_lt hcpu (fun ha => h.level_le ha pid) cpuHint now reason
  rw [enqueueProcess_procs]
  refine ⟨?_, ?_, ?_⟩
  · rw [hqueue, enqueueProcess_algorithm]
    refine h.family.push hn hpid (by simp [enqueuedProc]) (by simpa using hhome)
      (fun i hi => by simp [hi]) (fun i hi _ => by simp [hi])
  · rw [enqueueProcess_algorithm, enqueueProcess_cpuCount]
    intro i hready
    by_cases hi : i = pid
    · subst hi
      rw [Function.update_self] at hready ⊢
      exact ⟨by omega, hlt⟩
    · rw [Function.update_of_ne hi] at hready ⊢
      exact h.home_range i hready
  · rw [enqueueProcess_algorithm]
    intro ha i
    by_cases hi : i = pid
    · subst hi
      have hle := mlfqLevel_le (procs i).queueLevel reason (h.level_le ha i)
      simpa [enqueuedProc, placeLevel, ha] using hle
    · rw [Function.update_of_ne hi]
      exact h.level_le ha i

/-! ## Pick -/

/-- What a successful pick does to the queues: one process leaves one queue. -/
structure Picked (s : SchedulerState n) (pid : Fin n) (s' : SchedulerState n) : Prop where
  algorithm : s'.algorithm = s.algorithm
  cpuCount : s'.cpuCount = s.cpuCount
  taken : ∃ l rest, Taken (s.queueAt l) pid rest ∧
    s'.queueAt = Function.update s.queueAt l rest

/-- What a pick without result does to the queues: nothing. -/
structure Unpicked (s s' : SchedulerState n) : Prop where
  algorithm : s'.algorithm = s.algorithm
  cpuCount : s'.cpuCount = s.cpuCount
  queueAt : s'.queueAt = s.queueAt

theorem mlfqPickFrom_some {m m' : MlfqState n} {pid : Fin n} {levels : List Nat}
    (h : mlfqPickFrom m levels = (some pid, m')) :
    ∃ l rest, Taken (m.queues l) pid rest ∧
      m' = { m with queues := Function.update m.queues l rest } := by
  induction levels with
  | nil => simp [mlfqPickFrom] at h
  | cons level levels ih =>
      rw [mlfqPickFrom] at h
      split at h
      · simp only [Prod.mk.injEq] at h
        exact ⟨level, _, queuePop_some (Prod.ext h.1 rfl), h.2.symm⟩
      · exact ih h

theorem mlfqPickFrom_none {m m' : MlfqState n} {levels : List Nat}
    (h : mlfqPickFrom m levels = (none, m')) :
    m' = m ∧ ∀ l ∈ levels, (m.queues l).items = [] := by
  induction levels with
  | nil => simpa [mlfqPickFrom] using h.symm
  | cons level levels ih =>
      rw [mlfqPickFrom] at h
      split at h
      · rename_i hpos
        simp only [Prod.mk.injEq] at h
        have hempty := (queuePop_none (Prod.ext h.1 rfl)).1
        rw [hempty] at hpos
        exact absurd hpos (Nat.lt_irrefl 0)
      · rename_i hpos
        obtain ⟨heq, hrest⟩ := ih h
        refine ⟨heq, ?_⟩
        intro l hl
        rcases List.mem_cons.mp hl with rfl | hl
        · exact List.eq_nil_of_length_eq_zero (by omega)
        · exact hrest l hl

/-- A draw takes out the entry at some index, at `-1` where it refuses. -/
theorem lotteryPickNext_index (s : LotteryState n) (procs : ProcTable n) :
    ∃ index, (lotteryPickNext s procs).1 = (queueRemoveAt s.ready index).1 ∧
      (lotteryPickNext s procs).2.ready = (queueRemoveAt s.ready index).2 := by
  rw [lotteryPickNext]
  by_cases htotal : totalTickets procs s.ready.items ≤ 0
  · rw [if_pos htotal]
    exact ⟨-1, rfl, rfl⟩
  · rw [if_neg htotal]
    exact ⟨_, rfl, rfl⟩

theorem pick_some {s s' : SchedulerState n} {procs : ProcTable n} {cpuId : Nat} {now : Int}
    {pid : Fin n} (hnodup : ∀ l, (s.queueAt l).items.Nodup)
    (h : pickNextProcess s procs cpuId now = (some pid, s')) : Picked s pid s' := by
  rw [pickNextProcess] at h
  unfold SchedulerState.queueAt at hnodup
  cases ha : s.algorithm with
  | mlfq =>
      simp only [ha, Prod.mk.injEq] at h
      obtain ⟨hpid, rfl⟩ := h
      obtain ⟨l, rest, htaken, hm⟩ := mlfqPickFrom_some (Prod.ext hpid rfl)
      refine ⟨ha.symm, rfl, l, rest, by simpa [SchedulerState.queueAt, ha] using htaken, ?_⟩
      funext k
      simp only [SchedulerState.queueAt, mlfqPickNext, hm]
      simp [Function.update_apply, SchedulerState.queueAt, ha]
  | lottery =>
      simp only [ha, Prod.mk.injEq] at h hnodup
      obtain ⟨hpid, rfl⟩ := h
      -- whatever the draw, the pick takes one entry out
      obtain ⟨index, hindex, hready⟩ := lotteryPickNext_index s.lottery procs
      have htaken : Taken s.lottery.ready pid (lotteryPickNext s.lottery procs).2.ready := by
        rw [hready]
        exact queueRemoveAt_some (by simpa using hnodup 0) (Prod.ext (hindex.symm.trans hpid) rfl)
      refine ⟨ha.symm, rfl, 0, _, by simpa [SchedulerState.queueAt, ha] using htaken, ?_⟩
      funext k
      by_cases hk : k = 0 <;> simp [SchedulerState.queueAt, ha, hk]
  | edf =>
      simp only [ha, Prod.mk.injEq] at h hnodup
      obtain ⟨hpid, rfl⟩ := h
      have htaken := queueRemoveAt_some (by simpa using hnodup 0) (Prod.ext hpid rfl)
      refine ⟨ha.symm, rfl, 0, _, by simpa [SchedulerState.queueAt, ha] using htaken, ?_⟩
      funext k
      by_cases hk : k = 0 <;> simp [SchedulerState.queueAt, ha, edfPickNext, hk]
  | custom | all =>
      simp only [ha, Prod.mk.injEq] at h hnodup
      obtain ⟨hpid, rfl⟩ := h
      rw [customPickNext] at hpid ⊢
      split at hpid
      · simp at hpid
      · rename_i bestIndex best hscan
        have htaken := queueRemoveAt_some (hnodup cpuId) (Prod.ext hpid rfl)
        refine ⟨ha.symm, rfl, cpuId, _, by simpa [SchedulerState.queueAt, ha] using htaken, ?_⟩
        funext k
        simp [SchedulerState.queueAt, ha, Function.update_apply]

theorem pick_none {s s' : SchedulerState n} {procs : ProcTable n} {cpuId : Nat} {now : Int}
    (h : pickNextProcess s procs cpuId now = (none, s')) : Unpicked s s' := by
  rw [pickNextProcess] at h
  cases ha : s.algorithm with
  | mlfq =>
      simp only [ha, Prod.mk.injEq] at h
      obtain ⟨hpid, rfl⟩ := h
      refine ⟨ha.symm, rfl, ?_⟩
      have heq : (mlfqPickNext s.mlfq).2 = s.mlfq :=
        (mlfqPickFrom_none (Prod.ext hpid rfl)).1
      funext k
      simp [SchedulerState.queueAt, ha, heq]
  | lottery =>
      simp only [ha, Prod.mk.injEq] at h
      obtain ⟨hpid, rfl⟩ := h
      refine ⟨ha.symm, rfl, ?_⟩
      -- only the generator may have moved on
      obtain ⟨index, hindex, hready⟩ := lotteryPickNext_index s.lottery procs
      have hsame : (lotteryPickNext s.lottery procs).2.ready = s.lottery.ready :=
        hready.trans (queueRemoveAt_none (Prod.ext (hindex.symm.trans hpid) rfl)).1
      funext k
      simp [SchedulerState.queueAt, ha, hsame]
  | edf =>
      simp only [ha, Prod.mk.injEq] at h
      obtain ⟨hpid, rfl⟩ := h
      refine ⟨ha.symm, rfl, ?_⟩
      have hready := (queueRemoveAt_none (Prod.ext hpid rfl)).1
      funext k
      simp [SchedulerState.queueAt, ha, edfPickNext, hready]
  | custom | all =>
      simp only [ha, Prod.mk.injEq] at h
      obtain ⟨hpid, rfl⟩ := h
      refine ⟨ha.symm, rfl, ?_⟩
      rw [customPickNext] at hpid ⊢
      split at hpid
      · funext k
        simp [SchedulerState.queueAt, ha]
      · have hqueue := (queueRemoveAt_none (Prod.ext hpid rfl)).1
        funext k
        simp [SchedulerState.queueAt, ha, hqueue]

/-- A picked process was `READY`, and once it is given any other state the
    queue invariant holds again. -/
theorem QueueInv.picked {s s' : SchedulerState n} {procs : ProcTable n} {pid : Fin n}
    (h : QueueInv s procs) (hp : Picked s pid s') :
    (procs pid).state = .ready ∧ ∀ proc : ProcessRuntime, proc.state ≠ .ready →
      proc.queueLevel = (procs pid).queueLevel →
      QueueInv s' (Function.update procs pid proc) := by
  obtain ⟨l, rest, htaken, hqueue⟩ := hp.taken
  refine ⟨((h.mem_iff l pid).mp htaken.mem).1, fun proc hstate hlevel => ⟨?_, ?_, ?_⟩⟩
  · rw [hqueue, hp.algorithm]
    exact h.family.take htaken (by simpa using hstate) (fun i hi => by simp [hi])
      (fun i hi _ => by simp [hi])
  · rw [hp.algorithm, hp.cpuCount]
    intro i hready
    by_cases hi : i = pid
    · subst hi
      rw [Function.update_self] at hready
      exact absurd hready hstate
    · rw [Function.update_of_ne hi] at hready ⊢
      exact h.home_range i hready
  · rw [hp.algorithm]
    intro ha i
    by_cases hi : i = pid
    · subst hi
      rw [Function.update_self, hlevel]
      exact h.level_le ha i
    · rw [Function.update_of_ne hi]
      exact h.level_le ha i

theorem QueueInv.unpicked {s s' : SchedulerState n} {procs : ProcTable n}
    (h : QueueInv s procs) (hp : Unpicked s s') : QueueInv s' procs := by
  refine ⟨?_, ?_, ?_⟩
  · rw [hp.queueAt, hp.algorithm]
    exact h.family
  · rw [hp.algorithm, hp.cpuCount]
    exact h.home_range
  · rw [hp.algorithm]
    exact h.level_le

/-! ## Tick -/

/-- A process with its placement fields blanked: what the periodic tick of a
    policy cannot change. -/
def ProcessRuntime.core (proc : ProcessRuntime) : ProcessRuntime :=
  { proc with queueLevel := 0, assignedCpu := 0 }

theorem core_eq_state {p q : ProcessRuntime} (h : p.core = q.core) : p.state = q.state := by
  simpa [ProcessRuntime.core] using congrArg ProcessRuntime.state h

/-- What the boost keeps of queues and levels. -/
structure BoostInv (sp : MlfqState n × ProcTable n) : Prop where
  family : Family sp.1.queues (fun i => (sp.2 i).state = .ready)
    (fun i => ((sp.2 i).queueLevel : Int))
  level_le : ∀ i, (sp.2 i).queueLevel ≤ 2

theorem mlfqBoostStep_inv {m : MlfqState n} {procs : ProcTable n} (hn : n ≤ maxProcesses)
    (h : BoostInv (m, procs)) (level : Nat) : BoostInv (mlfqBoostStep level m procs) := by
  rw [mlfqBoostStep]
  split
  · exact h
  · rename_i pid queue hpop
    have htaken := queuePop_some hpop
    constructor
    · refine h.family.move hn htaken (by simp) (fun i => ?_) (fun i hi _ => by simp [hi])
      by_cases hi : i = pid
      · subst hi; simp
      · simp [hi]
    · intro i
      by_cases hi : i = pid
      · subst hi; simp
      · simpa [hi] using h.level_le i

theorem mlfqBoostStep_core (level : Nat) (m : MlfqState n) (procs : ProcTable n) (i : Fin n) :
    ((mlfqBoostStep level m procs).2 i).core = (procs i).core := by
  rw [mlfqBoostStep]
  split
  · rfl
  · rename_i pid queue hpop
    by_cases hi : i = pid
    · subst hi; simp [ProcessRuntime.core]
    · simp [hi]

theorem mlfqDrain_inv (hn : n ≤ maxProcesses) (level fuel : Nat)
    {sp : MlfqState n × ProcTable n} (h : BoostInv sp) : BoostInv (mlfqDrain level fuel sp) := by
  induction fuel generalizing sp with
  | zero => exact h
  | succ fuel ih =>
      rw [mlfqDrain]
      split
      · exact ih (mlfqBoostStep_inv hn h level)
      · exact h

theorem mlfqDrain_core (level fuel : Nat) (sp : MlfqState n × ProcTable n) (i : Fin n) :
    ((mlfqDrain level fuel sp).2 i).core = (sp.2 i).core := by
  induction fuel generalizing sp with
  | zero => rfl
  | succ fuel ih =>
      rw [mlfqDrain]
      split
      · rw [ih, mlfqBoostStep_core]
      · rfl

theorem mlfqTick_inv (hn : n ≤ maxProcesses) {m : MlfqState n} {procs : ProcTable n}
    (h : BoostInv (m, procs)) (now : Int) : BoostInv (mlfqTick m procs now) := by
  rw [mlfqTick]
  split
  · exact h
  · have h1 : BoostInv (mlfqBoostLevel 1 (m, procs)) := mlfqDrain_inv hn 1 _ h
    have h2 : BoostInv (mlfqBoostLevel 2 (mlfqBoostLevel 1 (m, procs))) :=
      mlfqDrain_inv hn 2 _ h1
    exact ⟨h2.family, h2.level_le⟩

theorem mlfqTick_core (m : MlfqState n) (procs : ProcTable n) (now : Int) (i : Fin n) :
    ((mlfqTick m procs now).2 i).core = (procs i).core := by
  rw [mlfqTick]
  split
  · rfl
  · simp only [mlfqBoostLevel, mlfqDrain_core]

/-- What the steal keeps of queues and assigned CPUs. -/
structure StealInv (cpuCount : Nat) (sp : CustomState n × ProcTable n) : Prop where
  family : Family sp.1.queues (fun i => (sp.2 i).state = .ready)
    (fun i => (sp.2 i).assignedCpu)
  range : ∀ i, (sp.2 i).state = .ready →
    0 ≤ (sp.2 i).assignedCpu ∧ (sp.2 i).assignedCpu < cpuCount

theorem customTick_inv (hn : n ≤ maxProcesses) {s : CustomState n} {procs : ProcTable n}
    {cpuCount : Nat} (hcpu : 0 < cpuCount) (h : StealInv cpuCount (s, procs)) (now : Int) :
    StealInv cpuCount (customTick s cpuCount procs now) := by
  rw [customTick]
  split
  · exact h
  · dsimp only
    split
    · exact h
    · split
      · rename_i queue hremove
        have hqueue := (queueRemoveAt_none hremove).1
        refine ⟨?_, h.range⟩
        rw [hqueue]
        simpa using h.family
      -- the stolen process moves from the heavy to the light queue
      · rename_i pid queue hremove
        have htaken := queueRemoveAt_some (h.family.nodup _) hremove
        have hlight : leastLoadedCpu s cpuCount < cpuCount := loadScan_lt _ _ hcpu
        constructor
        · refine h.family.move hn htaken (by simp) (fun i => ?_) (fun i hi _ => by simp [hi])
          by_cases hi : i = pid
          · subst hi; simp
          · simp [hi]
        · intro i hready
          by_cases hi : i = pid
          · subst hi
            simp only [Function.update_self]
            omega
          · simp only [Function.update_of_ne hi] at hready ⊢
            exact h.range i hready

theorem customTick_core (s : CustomState n) (cpuCount : Nat) (procs : ProcTable n) (now : Int)
    (i : Fin n) : ((customTick s cpuCount procs now).2 i).core = (procs i).core := by
  rw [customTick]
  split
  · rfl
  · dsimp only
    split
    · rfl
    · split
      · rfl
      · rename_i pid queue hremove
        by_cases hi : i = pid
        · subst hi; simp [ProcessRuntime.core]
        · simp [hi]

section Tick

variable (s : SchedulerState n) (procs : ProcTable n) (now : Int)

@[simp] theorem schedulerTick_algorithm :
    (schedulerTick s procs now).1.algorithm = s.algorithm := by
  cases ha : s.algorithm <;> simp [schedulerTick, ha]

@[simp] theorem schedulerTick_cpuCount :
    (schedulerTick s procs now).1.cpuCount = s.cpuCount := by
  cases ha : s.algorithm <;> simp [schedulerTick, ha]

theorem schedulerTick_core (i : Fin n) :
    ((schedulerTick s procs now).2 i).core = (procs i).core := by
  rw [schedulerTick]
  cases s.algorithm with
  | mlfq => exact mlfqTick_core s.mlfq procs now i
  | custom => exact customTick_core s.custom s.cpuCount procs now i
  | lottery | edf | all => rfl

end Tick

/-- Under MLFQ the queue invariant is the one the boost keeps. -/
theorem queueInv_iff_boostInv {s : SchedulerState n} {procs : ProcTable n}
    (ha : s.algorithm = .mlfq) : QueueInv s procs ↔ BoostInv (s.mlfq, procs) := by
  constructor
  · intro h
    refine ⟨?_, h.level_le ha⟩
    simpa [queueAt_mlfq ha, homeOf, ha] using h.family
  · intro h
    refine ⟨?_, ?_, fun _ => h.level_le⟩
    · simpa [queueAt_mlfq ha, homeOf, ha] using h.family
    · intro i _
      have hle : (procs i).queueLevel ≤ 2 := h.level_le i
      simp only [homeOf, queueCount, ha]
      omega

/-- Under the custom policy the queue invariant is the one the steal keeps. -/
theorem queueInv_iff_stealInv {s : SchedulerState n} {procs : ProcTable n}
    (ha : s.algorithm = .custom) : QueueInv s procs ↔ StealInv s.cpuCount (s.custom, procs) := by
  constructor
  · intro h
    refine ⟨?_, ?_⟩
    · simpa [queueAt_custom ha, homeOf, ha] using h.family
    · simpa [queueCount, homeOf, ha] using h.home_range
  · intro h
    refine ⟨?_, ?_, ?_⟩
    · simpa [queueAt_custom ha, homeOf, ha] using h.family
    · simpa [queueCount, homeOf, ha] using h.range
    · intro hm
      rw [ha] at hm
      exact absurd hm (by decide)

theorem tick_queueInv {s : SchedulerState n} {procs : ProcTable n} (h : QueueInv s procs)
    (hn : n ≤ maxProcesses) (hcpu : 0 < s.cpuCount) (now : Int) :
    QueueInv (schedulerTick s procs now).1 (schedulerTick s procs now).2 := by
  cases ha : s.algorithm with
  | mlfq =>
      have hs : schedulerTick s procs now =
          ({ s with mlfq := (mlfqTick s.mlfq procs now).1 }, (mlfqTick s.mlfq procs now).2) := by
        simp [schedulerTick, ha]
      rw [hs, queueInv_iff_boostInv (by exact ha)]
      exact mlfqTick_inv hn ((queueInv_iff_boostInv ha).mp h) now
  | custom =>
      have hs : schedulerTick s procs now =
          ({ s with custom := (customTick s.custom s.cpuCount procs now).1 },
           (customTick s.custom s.cpuCount procs now).2) := by
        simp [schedulerTick, ha]
      rw [hs, queueInv_iff_stealInv (by exact ha)]
      exact customTick_inv hn hcpu ((queueInv_iff_stealInv ha).mp h) now
  | lottery | edf | all =>
      have hs : schedulerTick s procs now = (s, procs) := by simp [schedulerTick, ha]
      rw [hs]
      exact h

end G20OsLab.Sim
