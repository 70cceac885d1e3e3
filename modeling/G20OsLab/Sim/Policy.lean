/-
  G20OsLab.Sim.Policy

  What the four scheduling policies have in common.

  Seen from the simulator a policy is a family of ready queues.  `queueAt`
  reads the queues off the state of whichever policy runs, `homeOf` names the
  queue a process belongs to, and `QueueInv` says that the queues hold the
  `READY` processes, each once, at its home, and that no push was ever
  dropped.  The three operations of the interface are then described once for
  all policies: `enqueue_queueInv`, `pick_some`, `tick_queueInv`.
-/

import G20OsLab.Lib.Partition
import G20OsLab.Sim.Simulator

namespace G20OsLab.Sim

open Lib (Partitioned)

variable {n : Nat}

/-! ## Queue families -/

/-- A family of ready queues that holds the processes satisfying `member` at
    the index `home` names, and never dropped a push. -/
structure Family (queues : Nat → ReadyQueue n) (member : Fin n → Prop)
    (home : Fin n → Int) : Prop where
  partitioned : Partitioned (fun l => (queues l).items) member home
  no_drop : ∀ l, (queues l).dropped = 0

section Family

variable {queues : Nat → ReadyQueue n} {member member' : Fin n → Prop}
variable {home home' : Fin n → Int} {l : Nat} {x : Fin n}

theorem items_update (queues : Nat → ReadyQueue n) (l : Nat) (q : ReadyQueue n) :
    (fun k => (Function.update queues l q k).items) =
      Function.update (fun k => (queues k).items) l q.items := by
  funext k
  by_cases hk : k = l
  · subst hk
    simp
  · simp [hk]

theorem Family.nodup (h : Family queues member home) (l : Nat) : (queues l).items.Nodup :=
  h.partitioned.nodup l

theorem Family.mem_iff (h : Family queues member home) (l : Nat) (i : Fin n) :
    i ∈ (queues l).items ↔ member i ∧ home i = l := h.partitioned.mem_iff l i

/-- Queues depend on who is in them, and where. -/
theorem Family.congr (h : Family queues member home) (hm : ∀ i, member' i ↔ member i)
    (hh : ∀ i, member i → home' i = home i) : Family queues member' home' :=
  ⟨h.partitioned.congr hm hh, h.no_drop⟩

/-- A queue that misses a process has room for it. -/
theorem Family.length_lt (h : Family queues member home) (hn : n ≤ maxProcesses)
    (hx : ¬ member x) (l : Nat) : (queues l).items.length < maxProcesses :=
  length_lt_of_not_mem hn (h.nodup l) (h.partitioned.not_mem hx)

/-- A process enters its queue. -/
theorem Family.push (h : Family queues member home) (hn : n ≤ maxProcesses)
    (hx : ¬ member x) (hx' : member' x) (hl : home' x = l)
    (hm : ∀ i, i ≠ x → (member' i ↔ member i))
    (hh : ∀ i, i ≠ x → member i → home' i = home i) :
    Family (Function.update queues l (queuePush (queues l) x)) member' home' where
  partitioned := by
    rw [items_update, queuePush_of_lt (h.length_lt hn hx l)]
    exact h.partitioned.push hx hx' hl hm hh
  no_drop k := by
    by_cases hk : k = l
    · subst hk
      rw [Function.update_self, queuePush_of_lt (h.length_lt hn hx k)]
      exact h.no_drop k
    · rw [Function.update_of_ne hk]
      exact h.no_drop k

/-- A process leaves its queue. -/
theorem Family.take (h : Family queues member home) {rest : ReadyQueue n}
    (ht : Taken (queues l) x rest) (hx' : ¬ member' x)
    (hm : ∀ i, i ≠ x → (member' i ↔ member i))
    (hh : ∀ i, i ≠ x → member i → home' i = home i) :
    Family (Function.update queues l rest) member' home' where
  partitioned := by
    rw [items_update, ht.items]
    exact h.partitioned.erase ht.mem hx' hm hh
  no_drop k := by
    by_cases hk : k = l
    · subst hk
      rw [Function.update_self, ht.dropped]
      exact h.no_drop k
    · rw [Function.update_of_ne hk]
      exact h.no_drop k

/-- Taking a process from queue `l` and pushing it on queue `k`. -/
theorem Family.move (h : Family queues member home) (hn : n ≤ maxProcesses)
    {rest : ReadyQueue n} {k : Nat} (ht : Taken (queues l) x rest) (hk : home' x = k)
    (hm : ∀ i, member' i ↔ member i) (hh : ∀ i, i ≠ x → member i → home' i = home i) :
    Family (Function.update (Function.update queues l rest) k
      (queuePush (Function.update queues l rest k) x)) member' home' := by
  have hmem : member x := ((h.mem_iff l x).mp ht.mem).1
  have htaken : Family (Function.update queues l rest) (fun i => member i ∧ i ≠ x) home :=
    h.take ht (fun hc => hc.2 rfl) (fun i hi => by simp [hi]) (fun _ _ _ => rfl)
  exact htaken.push hn (fun hc => hc.2 rfl) ((hm x).mpr hmem) hk
    (fun i hi => by simp [hm i, hi]) (fun i hi hmi => hh i hi hmi.1)

end Family

/-! ## The queues of the running policy -/

/-- The ready queue at index `l` of the policy that runs. -/
def SchedulerState.queueAt (s : SchedulerState n) (l : Nat) : ReadyQueue n :=
  match s.algorithm with
  | .mlfq => s.mlfq.queues l
  | .lottery => if l = 0 then s.lottery.ready else ReadyQueue.empty n
  | .edf => if l = 0 then s.edf.ready else ReadyQueue.empty n
  | .custom | .all => s.custom.queues l

theorem queueAt_mlfq {s : SchedulerState n} (h : s.algorithm = .mlfq) :
    s.queueAt = s.mlfq.queues := by
  funext l
  simp [SchedulerState.queueAt, h]

theorem queueAt_custom {s : SchedulerState n} (h : s.algorithm = .custom) :
    s.queueAt = s.custom.queues := by
  funext l
  simp [SchedulerState.queueAt, h]

/-- How many queues the policy uses. -/
def queueCount (algorithm : AlgorithmKind) (cpuCount : Nat) : Nat :=
  match algorithm with
  | .mlfq => 3
  | .lottery | .edf => 1
  | .custom | .all => cpuCount

/-- The index of the queue a process belongs to. -/
def homeOf (algorithm : AlgorithmKind) (proc : ProcessRuntime) : Int :=
  match algorithm with
  | .mlfq => proc.queueLevel
  | .lottery | .edf => 0
  | .custom | .all => proc.assignedCpu

/-- The queues hold exactly the `READY` processes, each once, at its home. -/
structure QueueInv (s : SchedulerState n) (procs : ProcTable n) : Prop where
  family : Family s.queueAt (fun i => (procs i).state = .ready)
    (fun i => homeOf s.algorithm (procs i))
  home_range : ∀ i, (procs i).state = .ready →
    0 ≤ homeOf s.algorithm (procs i) ∧
      homeOf s.algorithm (procs i) < queueCount s.algorithm s.cpuCount
  level_le : s.algorithm = .mlfq → ∀ i, (procs i).queueLevel ≤ 2

/-- A ready process is in the queue of its home. -/
theorem QueueInv.mem_iff {s : SchedulerState n} {procs : ProcTable n} (h : QueueInv s procs)
    (l : Nat) (i : Fin n) : i ∈ (s.queueAt l).items ↔
      (procs i).state = .ready ∧ homeOf s.algorithm (procs i) = l :=
  h.family.mem_iff l i

/-- A `READY` process is in one of the queues in use. -/
theorem QueueInv.mem_queue {s : SchedulerState n} {procs : ProcTable n} (h : QueueInv s procs)
    {i : Fin n} (hi : (procs i).state = .ready) :
    ∃ l < queueCount s.algorithm s.cpuCount,
      homeOf s.algorithm (procs i) = l ∧ i ∈ (s.queueAt l).items := by
  obtain ⟨h0, hlt⟩ := h.home_range i hi
  refine ⟨(homeOf s.algorithm (procs i)).toNat, by omega, by omega, ?_⟩
  rw [h.mem_iff]
  exact ⟨hi, by omega⟩

/-- The invariant reads only the state and the placement of each process. -/
theorem QueueInv.congr {s : SchedulerState n} {procs procs' : ProcTable n}
    (h : QueueInv s procs)
    (hstate : ∀ i, (procs' i).state = .ready ↔ (procs i).state = .ready)
    (hlevel : ∀ i, (procs' i).queueLevel = (procs i).queueLevel)
    (hassigned : ∀ i, (procs' i).assignedCpu = (procs i).assignedCpu) :
    QueueInv s procs' := by
  have hhome : ∀ i, homeOf s.algorithm (procs' i) = homeOf s.algorithm (procs i) := by
    intro i
    unfold homeOf
    rw [hlevel i, hassigned i]
  refine ⟨h.family.congr hstate fun i _ => hhome i, ?_, ?_⟩
  · intro i hi
    rw [hhome i]
    exact h.home_range i ((hstate i).mp hi)
  · intro ha i
    rw [hlevel i]
    exact h.level_le ha i

/-- Overwriting one process without moving it in or out of `READY`. -/
theorem QueueInv.set {s : SchedulerState n} {procs : ProcTable n} (h : QueueInv s procs)
    {i : Fin n} {proc : ProcessRuntime}
    (hstate : proc.state = .ready ↔ (procs i).state = .ready)
    (hlevel : proc.queueLevel = (procs i).queueLevel)
    (hassigned : proc.assignedCpu = (procs i).assignedCpu) :
    QueueInv s (Function.update procs i proc) := by
  refine h.congr (fun j => ?_) (fun j => ?_) (fun j => ?_) <;>
    by_cases hj : j = i
  · subst hj; simpa using hstate
  · simp [hj]
  · subst hj; simpa using hlevel
  · simp [hj]
  · subst hj; simpa using hassigned
  · simp [hj]

/-! ## Initial state -/

@[simp] theorem schedulerInit_algorithm (algorithm : AlgorithmKind) (cpuCount : Nat)
    (seed : UInt32) : (schedulerInit algorithm cpuCount n seed).algorithm = algorithm := by
  cases algorithm <;> rfl

@[simp] theorem schedulerInit_cpuCount (algorithm : AlgorithmKind) (cpuCount : Nat)
    (seed : UInt32) : (schedulerInit algorithm cpuCount n seed).cpuCount = cpuCount := by
  cases algorithm <;> rfl

/-- At the beginning every queue is empty. -/
theorem schedulerInit_queueAt (algorithm : AlgorithmKind) (cpuCount : Nat) (seed : UInt32)
    (l : Nat) : (schedulerInit algorithm cpuCount n seed).queueAt l = ReadyQueue.empty n := by
  cases algorithm <;>
    simp [schedulerInit, SchedulerState.queueAt, mlfqInit, lotteryInit, edfInit, customInit]

end G20OsLab.Sim
