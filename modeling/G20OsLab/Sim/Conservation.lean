/-
  G20OsLab.Sim.Conservation

  No process is lost or duplicated by the simulator: whenever
  `record_timeline` is called, every process is in exactly the one place its
  state says, and no push on a ready queue was ever dropped.
-/

import G20OsLab.Sim.Run

namespace G20OsLab.Sim

variable {n c : Nat}

/-- Every process is where its state says. -/
structure InPlace (s : SimState n c) : Prop where
  /-- A `READY` process is in exactly one ready queue. -/
  ready_queued : ∀ i, (s.procs i).state = .ready →
    ∃! l, l < queueCount s.scheduler.algorithm c ∧ i ∈ (s.scheduler.queueAt l).items
  /-- No queue holds a process twice. -/
  queued_once : ∀ l, (s.scheduler.queueAt l).items.Nodup
  /-- A queued process is `READY`. -/
  queued_ready : ∀ l i, i ∈ (s.scheduler.queueAt l).items → (s.procs i).state = .ready
  /-- A `RUNNING` process is on exactly one CPU. -/
  running_placed : ∀ i, (s.procs i).state = .running →
    ∃! cpu, (s.cpus cpu).runningPid = some i
  /-- The process on a CPU is `RUNNING`. -/
  placed_running : ∀ cpu i, (s.cpus cpu).runningPid = some i → (s.procs i).state = .running
  /-- A process in any other state is in no queue and on no CPU. -/
  elsewhere : ∀ i, (s.procs i).state = .new ∨ (s.procs i).state = .blocked ∨
      (s.procs i).state = .done →
    (∀ l, i ∉ (s.scheduler.queueAt l).items) ∧ ∀ cpu, (s.cpus cpu).runningPid ≠ some i
  /-- MLFQ queues a process at its level. -/
  mlfq_level : s.scheduler.algorithm = .mlfq → ∀ l i,
    i ∈ (s.scheduler.mlfq.queues l).items → (s.procs i).queueLevel = l ∧ l ≤ 2
  /-- The custom policy queues a process at its assigned CPU. -/
  custom_cpu : s.scheduler.algorithm = .custom → ∀ k i,
    i ∈ (s.scheduler.custom.queues k).items → (s.procs i).assignedCpu = k ∧ k < c

/-- No `queue_push` took its silent drop branch so far. -/
def NoDrop (s : SimState n c) : Prop := ∀ l, (s.scheduler.queueAt l).dropped = 0

theorem SimInv.inPlace {s : SimState n c} (h : SimInv s) : InPlace s where
  ready_queued i hi := by
    obtain ⟨l, hl, hhome, hmem⟩ := h.queues.mem_queue hi
    rw [h.cpuCount] at hl
    exact ⟨l, ⟨hl, hmem⟩, fun k hk => (h.queues.family.partitioned.unique hmem hk.2).symm⟩
  queued_once := h.queues.family.nodup
  queued_ready l i hi := ((h.queues.mem_iff l i).mp hi).1
  running_placed i hi := by
    obtain ⟨cpu, hcpu⟩ := (h.cpus.running_iff i).mp hi
    exact ⟨cpu, hcpu, fun cpu' hcpu' => h.cpus.inj cpu' cpu i hcpu' hcpu⟩
  placed_running cpu i hcpu := h.cpus.running hcpu
  elsewhere i hi := by
    refine ⟨?_, ?_⟩
    · intro l hl
      have hready := ((h.queues.mem_iff l i).mp hl).1
      simp [hready] at hi
    · intro cpu hcpu
      have hrunning := h.cpus.running hcpu
      simp [hrunning] at hi
  mlfq_level ha l i hi := by
    rw [← queueAt_mlfq ha, h.queues.mem_iff] at hi
    have hlevel := h.queues.level_le ha i
    simp only [homeOf, ha] at hi
    omega
  custom_cpu ha k i hi := by
    rw [← queueAt_custom ha, h.queues.mem_iff] at hi
    have hrange := h.queues.home_range i hi.1
    simp only [homeOf, queueCount, ha, h.cpuCount] at hi hrange
    omega

theorem SimInv.noDrop {s : SimState n c} (h : SimInv s) : NoDrop s := h.queues.family.no_drop

/-- **No process is lost or duplicated.**  In every tick of every run each
    process is where its state says when `record_timeline` is called, and up
    to that point and up to the end of the tick no push was dropped. -/
theorem run_conserves_processes (w : WfWorkload) (config : SimulationConfig)
    (algorithm : AlgorithmKind) (tick : Nat) :
    InPlace (recordAt w.toWorkload config algorithm tick) ∧
      NoDrop (recordAt w.toWorkload config algorithm tick) ∧
      NoDrop (stateAt w.toWorkload config algorithm (tick + 1)) :=
  ⟨(recordAt_inv config algorithm w.count_le tick).inPlace,
    (recordAt_inv config algorithm w.count_le tick).noDrop,
    (stateAt_inv config algorithm w.count_le (tick + 1)).noDrop⟩

end G20OsLab.Sim
