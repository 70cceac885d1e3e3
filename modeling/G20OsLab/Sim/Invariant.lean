/-
  G20OsLab.Sim.Invariant

  The global invariant of the simulator: the ready queues hold exactly the
  `READY` processes (`QueueInv`), the CPUs hold exactly the `RUNNING` ones,
  each on one CPU (`CpuInv`).  Every loop body of a tick keeps it, so it holds
  whenever `record_timeline` is called and at the end of every tick.
-/

import G20OsLab.Sim.Interface

namespace G20OsLab.Sim

open Lib (forLoop_preserves)

variable {n c : Nat}

/-! ## CPUs -/

/-- The CPUs hold exactly the `RUNNING` processes, each on one CPU. -/
structure CpuInv (procs : ProcTable n) (cpus : Fin c → CpuState n) : Prop where
  running_iff : ∀ i, (procs i).state = .running ↔ ∃ cpu, (cpus cpu).runningPid = some i
  inj : ∀ cpu cpu' i, (cpus cpu).runningPid = some i → (cpus cpu').runningPid = some i →
    cpu = cpu'

section CpuInv

variable {procs procs' : ProcTable n} {cpus : Fin c → CpuState n}

/-- A process on a CPU is running. -/
theorem CpuInv.running (h : CpuInv procs cpus) {cpu : Fin c} {i : Fin n}
    (hcpu : (cpus cpu).runningPid = some i) : (procs i).state = .running :=
  (h.running_iff i).mpr ⟨cpu, hcpu⟩

/-- The CPUs see who is running, and nothing else. -/
theorem CpuInv.congr (h : CpuInv procs cpus)
    (hstate : ∀ i, (procs' i).state = .running ↔ (procs i).state = .running) :
    CpuInv procs' cpus :=
  ⟨fun i => (hstate i).trans (h.running_iff i), h.inj⟩

/-- A change of one CPU does not matter to a process that is on it neither
    before nor after. -/
theorem exists_running_update {cpus : Fin c → CpuState n} {cpu : Fin c} {slot : CpuState n}
    {j : Fin n} (hold : (cpus cpu).runningPid ≠ some j) (hnew : slot.runningPid ≠ some j) :
    (∃ k, (Function.update cpus cpu slot k).runningPid = some j) ↔
      ∃ k, (cpus k).runningPid = some j := by
  refine exists_congr ?_
  intro k
  by_cases hk : k = cpu
  · subst hk
    rw [Function.update_self]
    exact iff_of_false hnew hold
  · rw [Function.update_of_ne hk]

/-- Putting a process on an idle CPU. -/
theorem CpuInv.place (h : CpuInv procs cpus) {cpu : Fin c} {i : Fin n} {used : Int}
    (hidle : (cpus cpu).runningPid = none) (hi : (procs i).state ≠ .running)
    (hi' : (procs' i).state = .running)
    (hstate : ∀ j, j ≠ i → ((procs' j).state = .running ↔ (procs j).state = .running)) :
    CpuInv procs' (Function.update cpus cpu ⟨some i, used⟩) := by
  have hfree : ∀ k, (cpus k).runningPid ≠ some i := fun k hk => hi (h.running hk)
  refine ⟨?_, ?_⟩
  · intro j
    by_cases hj : j = i
    · subst hj
      exact ⟨fun _ => ⟨cpu, by simp⟩, fun _ => hi'⟩
    · rw [hstate j hj, h.running_iff j]
      refine (exists_running_update ?_ ?_).symm
      · intro hk
        rw [hidle] at hk
        cases hk
      · intro hk
        exact hj (Option.some.inj hk).symm
  · intro k k' j hk hk'
    by_cases hkc : k = cpu <;> by_cases hkc' : k' = cpu
    · rw [hkc, hkc']
    · subst hkc
      rw [Function.update_self, Option.some.injEq] at hk
      rw [Function.update_of_ne hkc', ← hk] at hk'
      exact absurd hk' (hfree k')
    · subst hkc'
      rw [Function.update_self, Option.some.injEq] at hk'
      rw [Function.update_of_ne hkc, ← hk'] at hk
      exact absurd hk (hfree k)
    · rw [Function.update_of_ne hkc] at hk
      rw [Function.update_of_ne hkc'] at hk'
      exact h.inj k k' j hk hk'

/-- Taking a process off its CPU. -/
theorem CpuInv.release (h : CpuInv procs cpus) {cpu : Fin c} {i : Fin n} {used : Int}
    (hcpu : (cpus cpu).runningPid = some i) (hi' : (procs' i).state ≠ .running)
    (hstate : ∀ j, j ≠ i → ((procs' j).state = .running ↔ (procs j).state = .running)) :
    CpuInv procs' (Function.update cpus cpu ⟨none, used⟩) := by
  refine ⟨?_, ?_⟩
  · intro j
    by_cases hj : j = i
    · subst hj
      refine ⟨fun hrun => absurd hrun hi', ?_⟩
      rintro ⟨k, hk⟩
      by_cases hkc : k = cpu
      · subst hkc
        rw [Function.update_self] at hk
        cases hk
      · rw [Function.update_of_ne hkc] at hk
        exact absurd (h.inj k cpu j hk hcpu) hkc
    · rw [hstate j hj, h.running_iff j]
      refine (exists_running_update ?_ ?_).symm
      · intro hk
        rw [hcpu, Option.some.injEq] at hk
        exact hj hk.symm
      · intro hk
        cases hk
  · intro k k' j hk hk'
    by_cases hkc : k = cpu
    · subst hkc
      rw [Function.update_self] at hk
      cases hk
    · by_cases hkc' : k' = cpu
      · subst hkc'
        rw [Function.update_self] at hk'
        cases hk'
      · rw [Function.update_of_ne hkc] at hk
        rw [Function.update_of_ne hkc'] at hk'
        exact h.inj k k' j hk hk'

/-- The slice counter of a CPU is not part of the invariant. -/
theorem CpuInv.setUsed (h : CpuInv procs cpus) {cpu : Fin c} {i : Fin n} {used : Int}
    (hcpu : (cpus cpu).runningPid = some i) :
    CpuInv procs (Function.update cpus cpu ⟨some i, used⟩) := by
  have hsame : ∀ k, (Function.update cpus cpu ⟨some i, used⟩ k).runningPid =
      (cpus k).runningPid := by
    intro k
    by_cases hk : k = cpu
    · subst hk
      rw [Function.update_self, hcpu]
    · rw [Function.update_of_ne hk]
  refine ⟨?_, ?_⟩
  · intro j
    simp only [hsame]
    exact h.running_iff j
  · intro k k' j hk hk'
    rw [hsame] at hk hk'
    exact h.inj k k' j hk hk'

end CpuInv

/-! ## The simulator invariant -/

structure SimInv (s : SimState n c) : Prop where
  queues : QueueInv s.scheduler s.procs
  cpus : CpuInv s.procs s.cpus
  cpuCount : s.scheduler.cpuCount = c

@[simp] theorem setProc_procs (s : SimState n c) (i : Fin n) (proc : ProcessRuntime) :
    (s.setProc i proc).procs = Function.update s.procs i proc := rfl

@[simp] theorem setProc_scheduler (s : SimState n c) (i : Fin n) (proc : ProcessRuntime) :
    (s.setProc i proc).scheduler = s.scheduler := rfl

@[simp] theorem setProc_cpus (s : SimState n c) (i : Fin n) (proc : ProcessRuntime) :
    (s.setProc i proc).cpus = s.cpus := rfl

@[simp] theorem setCpu_procs (s : SimState n c) (i : Fin c) (cpu : CpuState n) :
    (s.setCpu i cpu).procs = s.procs := rfl

@[simp] theorem setCpu_scheduler (s : SimState n c) (i : Fin c) (cpu : CpuState n) :
    (s.setCpu i cpu).scheduler = s.scheduler := rfl

@[simp] theorem setCpu_cpus (s : SimState n c) (i : Fin c) (cpu : CpuState n) :
    (s.setCpu i cpu).cpus = Function.update s.cpus i cpu := rfl

@[simp] theorem enqueue_cpus (s : SimState n c) (pid : Fin n) (cpuHint now : Int)
    (reason : EnqueueReason) : (s.enqueue pid cpuHint now reason).cpus = s.cpus := rfl

@[simp] theorem enqueue_algorithm (s : SimState n c) (pid : Fin n) (cpuHint now : Int)
    (reason : EnqueueReason) :
    (s.enqueue pid cpuHint now reason).scheduler.algorithm = s.scheduler.algorithm :=
  enqueueProcess_algorithm ..

@[simp] theorem enqueue_cpuCount (s : SimState n c) (pid : Fin n) (cpuHint now : Int)
    (reason : EnqueueReason) :
    (s.enqueue pid cpuHint now reason).scheduler.cpuCount = s.scheduler.cpuCount :=
  enqueueProcess_cpuCount ..

theorem enqueue_procs (s : SimState n c) (pid : Fin n) (cpuHint now : Int)
    (reason : EnqueueReason) :
    (s.enqueue pid cpuHint now reason).procs =
      Function.update s.procs pid
        (enqueuedProc s.scheduler (s.procs pid) cpuHint now reason) :=
  enqueueProcess_procs ..

/-- Overwriting one process without changing its state class or placement. -/
theorem SimInv.setProc {s : SimState n c} (h : SimInv s) {i : Fin n} {proc : ProcessRuntime}
    (hready : proc.state = .ready ↔ (s.procs i).state = .ready)
    (hrunning : proc.state = .running ↔ (s.procs i).state = .running)
    (hlevel : proc.queueLevel = (s.procs i).queueLevel)
    (hassigned : proc.assignedCpu = (s.procs i).assignedCpu) : SimInv (s.setProc i proc) := by
  refine ⟨h.queues.set hready hlevel hassigned, h.cpus.congr fun j => ?_, h.cpuCount⟩
  by_cases hj : j = i
  · subst hj
    simpa using hrunning
  · simp [hj]

section Steps

variable (hn : n ≤ maxProcesses) (hc : 0 < c)
include hn hc

/-- Enqueueing a process that is neither `READY` nor `RUNNING`. -/
theorem SimInv.enqueue {s : SimState n c} (h : SimInv s) {pid : Fin n}
    (hready : (s.procs pid).state ≠ .ready) (hrunning : (s.procs pid).state ≠ .running)
    (cpuHint now : Int) (reason : EnqueueReason) :
    SimInv (s.enqueue pid cpuHint now reason) := by
  refine ⟨?_, ?_, by rw [enqueue_cpuCount]; exact h.cpuCount⟩
  · exact enqueue_queueInv h.queues hn (by rw [h.cpuCount]; exact hc) hready cpuHint now reason
  · rw [enqueue_procs]
    refine h.cpus.congr ?_
    intro j
    by_cases hj : j = pid
    · subst hj
      simp [enqueuedProc, hrunning]
    · simp [hj]

/-- An arrival keeps the invariant. -/
theorem arrivalBody_inv {s : SimState n c} (h : SimInv s) (tick : Nat) (i : Fin n) :
    SimInv (arrivalBody tick i s) := by
  rw [arrivalBody]
  split
  · rename_i hnew
    exact h.enqueue hn hc (by simp [hnew.1]) (by simp [hnew.1]) _ _ _
  · exact h

/-- The end of an I/O burst keeps it. -/
theorem ioBody_inv {s : SimState n c} (h : SimInv s) (tick : Nat) (i : Fin n) :
    SimInv (ioBody tick i s) := by
  rw [ioBody]
  dsimp only
  split
  · rename_i hblocked
    split
    · split
      · exact h.setProc (by simp [hblocked]) (by simp [hblocked]) rfl rfl
      · -- the next burst starts: still `BLOCKED` when `enqueue_process` is called
        have hset : SimInv (s.setProc i { s.procs i with
            burstIndex := (s.procs i).burstIndex + 1
            remainingInBurst := (s.procs i).spec.durationAt ((s.procs i).burstIndex + 1) }) :=
          h.setProc (by simp) (by simp) rfl rfl
        exact hset.enqueue hn hc (by simp [hblocked]) (by simp [hblocked]) _ _ _
    · exact h.setProc (by simp) (by simp) rfl rfl
  · exact h

/-- The tick of the scheduler keeps it. -/
theorem tickBody_inv {s : SimState n c} (h : SimInv s) (tick : Nat) :
    SimInv (tickBody tick s) := by
  refine ⟨tick_queueInv h.queues hn (by rw [h.cpuCount]; exact hc) tick, ?_, ?_⟩
  · refine h.cpus.congr ?_
    intro i
    have hstate := core_eq_state (schedulerTick_core s.scheduler s.procs tick i)
    exact iff_of_eq (congrArg (· = ProcState.running) hstate)
  · exact (schedulerTick_cpuCount s.scheduler s.procs tick).trans h.cpuCount

omit hn hc in

/-- Counting the waiting time keeps it. -/
theorem waitingBody_inv {s : SimState n c} (h : SimInv s) (i : Fin n) :
    SimInv (waitingBody i s) := by
  rw [waitingBody]
  split
  · exact h.setProc (by simp) (by simp) rfl rfl
  · exact h

omit hn hc in

/-- A dispatch keeps it. -/
theorem dispatchBody_inv {s : SimState n c} (h : SimInv s) (tick : Nat) (cpu : Fin c) :
    SimInv (dispatchBody tick cpu s) := by
  rw [dispatchBody]
  split
  · exact h
  · rename_i hidle
    split
    · rename_i scheduler hpick
      have hnone := pick_none hpick
      exact ⟨h.queues.unpicked hnone, h.cpus, hnone.cpuCount.trans h.cpuCount⟩
    · rename_i pid scheduler hpick
      have hsome := pick_some h.queues.family.nodup hpick
      obtain ⟨hready, hset⟩ := h.queues.picked hsome
      refine ⟨?_, ?_, hsome.cpuCount.trans h.cpuCount⟩
      · exact hset _ (by simp [dispatchProc]) (by simp [dispatchProc])
      · refine h.cpus.place hidle (by simp [hready]) (by simp [dispatchProc]) ?_
        intro j hj
        simp [hj]

omit hn hc in
@[simp] theorem finishBurst_queueLevel (tick : Nat) (proc : ProcessRuntime) :
    (finishBurst tick proc).queueLevel = proc.queueLevel := by
  unfold finishBurst
  dsimp only
  split <;> rfl

omit hn hc in
@[simp] theorem finishBurst_assignedCpu (tick : Nat) (proc : ProcessRuntime) :
    (finishBurst tick proc).assignedCpu = proc.assignedCpu := by
  unfold finishBurst
  dsimp only
  split <;> rfl

omit hn hc in

/-- After a burst a process is done or blocked. -/
theorem finishBurst_state (tick : Nat) (proc : ProcessRuntime) :
    (finishBurst tick proc).state = .done ∨ (finishBurst tick proc).state = .blocked := by
  unfold finishBurst
  dsimp only
  split
  · exact .inl rfl
  · exact .inr rfl

/-- An execution keeps the invariant. -/
theorem executeBody_inv {s : SimState n c} (h : SimInv s) (tick : Nat) (cpu : Fin c) :
    SimInv (executeBody tick cpu s) := by
  rw [executeBody]
  split
  · exact h
  · rename_i pid hcpu
    have hrunning : (s.procs pid).state = .running := h.cpus.running hcpu
    dsimp only
    split
    · -- the burst ends: `DONE` or `BLOCKED`
      have hfinish := finishBurst_state tick (runProc (s.procs pid))
      refine ⟨h.queues.set ?_ (by simp [runProc]) (by simp [runProc]),
        h.cpus.release hcpu ?_ fun j hj => by simp [hj], h.cpuCount⟩
      · rcases hfinish with hf | hf <;> simp [hf, hrunning]
      · rcases hfinish with hf | hf <;> simp [hf]
    · split
      · -- the slice is used up: back to a queue
        refine ⟨?_, ?_, by simpa using h.cpuCount⟩
        · have hset : QueueInv s.scheduler
              (Function.update s.procs pid (runProc (s.procs pid))) :=
            h.queues.set (by simp [runProc]) rfl rfl
          exact enqueue_queueInv hset hn (by rw [h.cpuCount]; exact hc)
            (by simp [runProc, hrunning]) _ _ _
        · simp only [setCpu_procs, enqueue_procs, setCpu_cpus, enqueue_cpus]
          refine h.cpus.release hcpu (by simp [enqueuedProc]) fun j hj => by simp [hj]
      · refine ⟨h.queues.set (by simp [runProc]) rfl rfl, ?_, h.cpuCount⟩
        refine (h.cpus.congr fun j => ?_).setUsed hcpu
        by_cases hj : j = pid
        · subst hj
          simp [runProc]
        · simp [hj]

/-! ## Ticks -/

theorem preDispatch_inv {s : SimState n c} (h : SimInv s) (tick : Nat) :
    SimInv (preDispatch tick s) := by
  have harrive := forLoop_preserves SimInv h fun i _ h' => arrivalBody_inv hn hc h' tick i
  have hio := forLoop_preserves SimInv harrive fun i _ h' => ioBody_inv hn hc h' tick i
  exact forLoop_preserves SimInv (tickBody_inv hn hc hio tick) fun i _ h' =>
    waitingBody_inv h' i

theorem preRecord_inv {s : SimState n c} (h : SimInv s) (tick : Nat) :
    SimInv (preRecord tick s) :=
  forLoop_preserves SimInv (preDispatch_inv hn hc h tick) fun cpu _ h' =>
    dispatchBody_inv h' tick cpu

theorem tickStep_inv {s : SimState n c} (h : SimInv s) (tick : Nat) :
    SimInv (tickStep tick s) := by
  have hrecord : SimInv (recordTimeline tick (preRecord tick s)) := by
    have hpre := preRecord_inv hn hc h tick
    exact ⟨hpre.queues, hpre.cpus, hpre.cpuCount⟩
  exact forLoop_preserves SimInv hrecord fun cpu _ h' => executeBody_inv hn hc h' tick cpu

end Steps

theorem initialState_inv (w : Workload) (config : SimulationConfig)
    (algorithm : AlgorithmKind) : SimInv (initialState w config algorithm) := by
  refine ⟨⟨⟨⟨fun l => ?_, fun l i => ?_⟩, fun l => ?_⟩, fun i hi => ?_, fun _ i => ?_⟩,
    ⟨fun i => ?_, fun cpu cpu' i hcpu => ?_⟩, ?_⟩
  · simp [initialState, schedulerInit_queueAt]
  · simp [initialState, schedulerInit_queueAt, initRuntime]
  · simp [initialState, schedulerInit_queueAt]
  · simp [initialState, initRuntime] at hi
  · simp [initialState, initRuntime]
  · simp [initialState, initRuntime]
  · simp [initialState] at hcpu
  · simp [initialState]

end G20OsLab.Sim
