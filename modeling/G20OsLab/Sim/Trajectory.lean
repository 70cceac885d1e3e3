/-
  G20OsLab.Sim.Trajectory

  A run as one process sees it.

  `TickOf` says everything a tick can do to a process, up to the placement
  fields `queue_level` and `assigned_cpu`: the phases before dispatch
  (`PreTick`), then either no CPU, a fresh placement or a CPU kept from the
  tick before, and one executed tick on that CPU (`Ran`).  The invariants of a
  single process follow by case analysis on it.
-/

import G20OsLab.Sim.Tick

namespace G20OsLab.Sim

variable {n c : Nat}

/-! ## The phases of a tick, for one process -/

/-- What the phases before dispatch can make of a process. -/
inductive PreTick (tick : Nat) (start : ProcessRuntime) : ProcessRuntime → Prop
  | notYet : start.state = .new → tick < start.spec.arrival → PreTick tick start start
  | arrived : start.state = .new → start.spec.arrival ≤ tick →
      PreTick tick start { start with
        state := .ready, readySince := tick, totalWaiting := start.totalWaiting + 1 }
  | waited : start.state = .ready →
      PreTick tick start { start with totalWaiting := start.totalWaiting + 1 }
  | running : start.state = .running → PreTick tick start start
  | counted : start.state = .blocked → 1 < start.remainingInBurst →
      PreTick tick start { start with remainingInBurst := start.remainingInBurst - 1 }
  | ioEnded : start.state = .blocked → start.remainingInBurst ≤ 1 →
      start.spec.bursts.length ≤ start.burstIndex + 1 →
      PreTick tick start { start with
        remainingInBurst := start.remainingInBurst - 1
        burstIndex := start.burstIndex + 1
        state := .done
        completionTick := tick }
  | ioNext : start.state = .blocked → start.remainingInBurst ≤ 1 →
      start.burstIndex + 1 < start.spec.bursts.length →
      PreTick tick start { start with
        remainingInBurst := start.spec.durationAt (start.burstIndex + 1)
        burstIndex := start.burstIndex + 1
        state := .ready
        readySince := tick
        totalWaiting := start.totalWaiting + 1 }
  | done : start.state = .done → PreTick tick start start

/-- Until the dispatch phase a process does what the phases allow. -/
theorem preTick_preDispatchProc (tick : Nat) (start : ProcessRuntime) :
    PreTick tick start (preDispatchProc tick start) := by
  rw [preDispatchProc, arriveProc]
  cases hstate : start.state with
  | new =>
      by_cases harrival : start.spec.arrival ≤ tick
      · have h := PreTick.arrived hstate harrival
        simpa [harrival, ioProc, waitProc] using h
      · have h := PreTick.notYet hstate (not_le.mp harrival)
        simpa [harrival, ioProc, waitProc, hstate] using h
  | ready =>
      have h := @PreTick.waited tick start hstate
      simpa [ioProc, waitProc, hstate] using h
  | running =>
      have h := @PreTick.running tick start hstate
      simpa [ioProc, waitProc, hstate] using h
  | blocked =>
      by_cases hrem : start.remainingInBurst ≤ 1
      · have hrem' : start.remainingInBurst - 1 ≤ 0 := by omega
        by_cases hlast : start.spec.bursts.length ≤ start.burstIndex + 1
        · have h := @PreTick.ioEnded tick start hstate hrem hlast
          simpa [ioProc, waitProc, hstate, hrem', hlast] using h
        · have h := @PreTick.ioNext tick start hstate hrem (not_le.mp hlast)
          simpa [ioProc, waitProc, hstate, hrem', hlast] using h
      · have hrem' : ¬ start.remainingInBurst - 1 ≤ 0 := by omega
        have h := @PreTick.counted tick start hstate (not_le.mp hrem)
        simpa [ioProc, waitProc, hstate, hrem'] using h
  | done =>
      have h := @PreTick.done tick start hstate
      simpa [ioProc, waitProc, hstate] using h

theorem PreTick.lastCpu {tick : Nat} {start proc : ProcessRuntime} (h : PreTick tick start proc) :
    proc.lastCpu = start.lastCpu := by
  cases h <;> rfl

theorem PreTick.runtimeTicks {tick : Nat} {start proc : ProcessRuntime}
    (h : PreTick tick start proc) : proc.runtimeTicks = start.runtimeTicks := by
  cases h <;> rfl

theorem PreTick.spec {tick : Nat} {start proc : ProcessRuntime} (h : PreTick tick start proc) :
    proc.spec = start.spec := by
  cases h <;> rfl

/-- Until the dispatch phase a running process is left alone. -/
theorem PreTick.eq_of_running {tick : Nat} {start proc : ProcessRuntime}
    (h : PreTick tick start proc) (hrunning : proc.state = .running) : proc = start := by
  cases h with
  | notYet | running | done => rfl
  | waited hstate | counted hstate => exact absurd (hstate.symm.trans hrunning) nofun
  | arrived | ioEnded | ioNext => cases hrunning

/-- What a CPU can leave of the process it ran in tick `tick`. -/
inductive Ran (tick : Nat) (proc : ProcessRuntime) : ProcessRuntime → Prop
  | completed : proc.remainingInBurst ≤ 1 → proc.spec.bursts.length ≤ proc.burstIndex + 1 →
      Ran tick proc { runProc proc with
        burstIndex := proc.burstIndex + 1, state := .done, completionTick := tick + 1 }
  | blocked : proc.remainingInBurst ≤ 1 → proc.burstIndex + 1 < proc.spec.bursts.length →
      Ran tick proc { runProc proc with
        burstIndex := proc.burstIndex + 1
        state := .blocked
        remainingInBurst := proc.spec.durationAt (proc.burstIndex + 1) }
  | preempted : 1 < proc.remainingInBurst →
      Ran tick proc { runProc proc with state := .ready, readySince := tick + 1 }
  | kept : 1 < proc.remainingInBurst → Ran tick proc (runProc proc)

/-- A tick of execution is a tick of run time. -/
theorem ran_executeProc (algorithm : AlgorithmKind) (tick : Nat) (used : Int)
    (proc : ProcessRuntime) : Ran tick proc.core (executeProc algorithm tick used proc).core := by
  unfold executeProc
  dsimp only
  by_cases hrem : proc.remainingInBurst ≤ 1
  · have hrem' : (runProc proc).remainingInBurst ≤ 0 := by
      have h : (runProc proc).remainingInBurst = proc.remainingInBurst - 1 := rfl
      omega
    rw [if_pos hrem']
    unfold finishBurst
    dsimp only
    split
    · rename_i hlast
      exact Ran.completed hrem hlast
    · rename_i hlast
      exact Ran.blocked hrem (not_le.mp hlast)
  · have hrem' : ¬ (runProc proc).remainingInBurst ≤ 0 := by
      have h : (runProc proc).remainingInBurst = proc.remainingInBurst - 1 := rfl
      omega
    rw [if_neg hrem']
    split
    · exact Ran.preempted (not_le.mp hrem)
    · exact Ran.kept (not_le.mp hrem)

theorem Ran.lastCpu {tick : Nat} {proc after : ProcessRuntime} (h : Ran tick proc after) :
    after.lastCpu = proc.lastCpu := by
  cases h <;> rfl

theorem Ran.runtimeTicks {tick : Nat} {proc after : ProcessRuntime} (h : Ran tick proc after) :
    after.runtimeTicks = proc.runtimeTicks + 1 := by
  cases h <;> rfl

theorem Ran.spec {tick : Nat} {proc after : ProcessRuntime} (h : Ran tick proc after) :
    after.spec = proc.spec := by
  cases h <;> rfl

/-- One tick of a process: what it is at the start of the tick, before
    dispatch, when the row is recorded, and at the end; `on` holds of the CPUs
    it is on in the row. -/
inductive TickOf (tick : Nat) (on : Fin c → Prop) (start : ProcessRuntime) :
    (before record after : ProcessRuntime) → Prop
  | off {before} : PreTick tick start before → before.state ≠ .running → (∀ cpu, ¬ on cpu) →
      TickOf tick on start before before before
  | placed {before after cpu} : PreTick tick start before → before.state = .ready → on cpu →
      Ran tick (dispatchProc cpu tick before) after →
      TickOf tick on start before (dispatchProc cpu tick before) after
  | stayed {after cpu} : start.state = .running → start.lastCpu = (cpu.val : Int) → on cpu →
      Ran tick start after → TickOf tick on start start start after

theorem TickOf.before_spec {tick : Nat} {on : Fin c → Prop}
    {start before record after : ProcessRuntime} (h : TickOf tick on start before record after) :
    before.spec = start.spec := by
  cases h with
  | off hpre => exact hpre.spec
  | placed hpre => exact hpre.spec
  | stayed => rfl

theorem TickOf.record_spec {tick : Nat} {on : Fin c → Prop}
    {start before record after : ProcessRuntime} (h : TickOf tick on start before record after) :
    record.spec = start.spec := by
  cases h with
  | off hpre => exact hpre.spec
  | placed hpre => exact hpre.spec
  | stayed => rfl

theorem TickOf.after_spec {tick : Nat} {on : Fin c → Prop}
    {start before record after : ProcessRuntime} (h : TickOf tick on start before record after) :
    after.spec = start.spec := by
  cases h with
  | off hpre => exact hpre.spec
  | placed hpre _ _ hran => exact hran.spec.trans hpre.spec
  | stayed _ _ _ hran => exact hran.spec

/-- A tick on a CPU is one executed tick. -/
theorem TickOf.runtimeTicks {tick : Nat} {on : Fin c → Prop}
    {start before record after : ProcessRuntime} (h : TickOf tick on start before record after)
    [Decidable (∃ cpu, on cpu)] :
    after.runtimeTicks = start.runtimeTicks + if ∃ cpu, on cpu then 1 else 0 := by
  cases h with
  | off hpre _ hoff =>
      rw [if_neg fun ⟨cpu, hon⟩ => hoff cpu hon, hpre.runtimeTicks, Int.add_zero]
  | placed hpre _ hon hran =>
      rw [if_pos ⟨_, hon⟩, hran.runtimeTicks]
      exact congrArg (· + 1) hpre.runtimeTicks
  | stayed _ _ hon hran => rw [if_pos ⟨_, hon⟩, hran.runtimeTicks]

/-! ## Trajectories -/

section Trajectory

variable (w : Workload) (config : SimulationConfig) (algorithm : AlgorithmKind)

/-- Process `i` at the start of tick `tick`, up to its placement. -/
def procAt (i : Fin w.processCount) (tick : Nat) : ProcessRuntime :=
  ((stateAt w config algorithm tick).procs i).core

/-- Process `i` before the dispatch phase of tick `tick`, up to its placement. -/
def procBefore (i : Fin w.processCount) (tick : Nat) : ProcessRuntime :=
  ((preDispatch tick (stateAt w config algorithm tick)).procs i).core

/-- Process `i` in the row of tick `tick`, up to its placement. -/
def procInRow (i : Fin w.processCount) (tick : Nat) : ProcessRuntime :=
  ((recordAt w config algorithm tick).procs i).core

/-- In the row of tick `tick`, process `i` is on CPU `cpu`. -/
def OnCpu (i : Fin w.processCount) (tick : Nat) (cpu : Fin config.cpuCount) : Prop :=
  ((recordAt w config algorithm tick).cpus cpu).runningPid = some i

instance (i : Fin w.processCount) (tick : Nat) (cpu : Fin config.cpuCount) :
    Decidable (OnCpu w config algorithm i tick cpu) :=
  inferInstanceAs (Decidable (_ = _))

variable {w}

/-- A process on a CPU remembers that CPU as its last one. -/
def LastCpuInv (s : SimState n c) : Prop :=
  ∀ cpu i, (s.cpus cpu).runningPid = some i → (s.procs i).lastCpu = (cpu.val : Int)

/-- Before the dispatch phase no process changes its last CPU. -/
theorem preDispatch_lastCpu (tick : Nat) (s : SimState n c) (i : Fin n) :
    ((preDispatch tick s).procs i).lastCpu = (s.procs i).lastCpu := by
  have hcore : ((preDispatch tick s).procs i).core.lastCpu = (s.procs i).core.lastCpu := by
    rw [preDispatch_core]
    exact (preTick_preDispatchProc ..).lastCpu
  exact hcore

theorem preRecord_lastCpu {tick : Nat} {s : SimState n c} (hinv : SimInv (preDispatch tick s))
    (h : LastCpuInv s) : LastCpuInv (preRecord tick s) := by
  have hspec := preRecord_spec hinv
  have hcpus := (preDispatch_outside tick s).cpus
  intro cpu i hi
  cases hidle : ((preDispatch tick s).cpus cpu).runningPid with
  | none =>
      rw [(hspec.fresh cpu i ⟨hidle, hi⟩).2.2]
      rfl
  | some j =>
      have hkept := hspec.kept cpu j hidle
      rw [hkept, hidle, Option.some.injEq] at hi
      subst hi
      have hnot : ∀ k, ¬ Dispatched (preDispatch tick s) (preRecord tick s) k j := by
        intro k hk
        have hready := (hspec.fresh k j hk).1
        rw [hinv.cpus.running hidle] at hready
        cases hready
      rw [hspec.other j hnot, preDispatch_lastCpu]
      exact h cpu j (by rw [← hcpus]; exact hidle)

theorem tickStep_lastCpu {tick : Nat} {s : SimState n c} (hinv : SimInv (preRecord tick s))
    (h : LastCpuInv (preRecord tick s)) : LastCpuInv (tickStep tick s) := by
  have hspec := tickStep_spec hinv
  intro cpu i hi
  cases hbusy : ((preRecord tick s).cpus cpu).runningPid with
  | none =>
      rw [hspec.cpu_other cpu (.inr hbusy)] at hi
      exact absurd (hbusy.symm.trans hi) nofun
  | some j =>
      obtain ⟨hcpu, hproc⟩ := hspec.ran cpu j cpu.isLt hbusy
      have hij : j = i := by
        rw [hcpu] at hi
        unfold executeCpu at hi
        dsimp only at hi
        split at hi
        · cases hi
        · split at hi
          · cases hi
          · exact Option.some.inj (hbusy.symm.trans hi)
      subst hij
      have hlast : ((tickStep tick s).procs j).core.lastCpu
          = ((preRecord tick s).procs j).lastCpu := by
        rw [hproc]
        exact (ran_executeProc ..).lastCpu
      exact hlast.trans (h cpu j hbusy)

/-- The last CPU of a running process is the one it is on, at every tick. -/
theorem stateAt_lastCpu (hn : w.processCount ≤ maxProcesses) (tick : Nat) :
    LastCpuInv (stateAt w config algorithm tick) := by
  induction tick with
  | zero => exact fun cpu i hi => absurd hi nofun
  | succ tick ih =>
      exact tickStep_lastCpu (recordAt_inv config algorithm hn tick)
        (preRecord_lastCpu (preDispatch_stateAt_inv config algorithm hn tick) ih)

/-- Every process goes through every tick as `TickOf` says. -/
theorem procAt_tick (hn : w.processCount ≤ maxProcesses) (i : Fin w.processCount) (tick : Nat) :
    TickOf tick (OnCpu w config algorithm i tick) (procAt w config algorithm i tick)
      (procBefore w config algorithm i tick) (procInRow w config algorithm i tick)
      (procAt w config algorithm i (tick + 1)) := by
  have hpre := preDispatch_stateAt_inv config algorithm hn tick
  have hrow := recordAt_inv config algorithm hn tick
  have hdispatch := preRecord_spec hpre
  have hexecute := tickStep_spec hrow
  have hbefore : PreTick tick (procAt w config algorithm i tick)
      (procBefore w config algorithm i tick) := by
    rw [procBefore, preDispatch_core]
    exact preTick_preDispatchProc ..
  by_cases hon : ∃ cpu, OnCpu w config algorithm i tick cpu
  · obtain ⟨cpu, hcpu⟩ := hon
    have hran : Ran tick (procInRow w config algorithm i tick)
        (procAt w config algorithm i (tick + 1)) := by
      rw [procAt, stateAt_succ, (hexecute.ran cpu i cpu.isLt hcpu).2]
      exact ran_executeProc ..
    cases hidle : ((preDispatch tick (stateAt w config algorithm tick)).cpus cpu).runningPid with
    -- dispatched in this tick
    | none =>
        obtain ⟨hready, -, hproc⟩ := hdispatch.fresh cpu i ⟨hidle, hcpu⟩
        have hrecord : procInRow w config algorithm i tick =
            dispatchProc cpu tick (procBefore w config algorithm i tick) := by
          rw [procInRow, recordAt]
          rw [hproc]
          rfl
        rw [hrecord] at hran ⊢
        exact TickOf.placed hbefore hready hcpu hran
    -- there since an earlier tick
    | some j =>
        have hkept := hdispatch.kept cpu j hidle
        have hij : j = i := by
          have hj := congrArg CpuState.runningPid hkept
          rw [hidle] at hj
          exact Option.some.inj (hj.symm.trans hcpu)
        subst hij
        have hstart : ((stateAt w config algorithm tick).cpus cpu).runningPid = some j := by
          rw [← (preDispatch_outside tick (stateAt w config algorithm tick)).cpus]
          exact hidle
        have hrunning : (procAt w config algorithm j tick).state = .running :=
          (stateAt_inv config algorithm hn tick).cpus.running hstart
        have hlast : (procAt w config algorithm j tick).lastCpu = (cpu.val : Int) :=
          stateAt_lastCpu config algorithm hn tick cpu j hstart
        have hnot : ∀ k, ¬ Dispatched (preDispatch tick (stateAt w config algorithm tick))
            (recordAt w config algorithm tick) k j := by
          intro k hk
          have hready := (hdispatch.fresh k j hk).1
          rw [hpre.cpus.running hidle] at hready
          cases hready
        have hsame : procBefore w config algorithm j tick = procAt w config algorithm j tick :=
          hbefore.eq_of_running (hpre.cpus.running hidle)
        have hrecord : procInRow w config algorithm j tick = procBefore w config algorithm j tick :=
          congrArg ProcessRuntime.core (hdispatch.other j hnot)
        rw [hrecord, hsame] at hran ⊢
        exact TickOf.stayed hrunning hlast hcpu hran
  -- on no CPU: neither dispatch nor execution touches it
  · have hnone : ∀ cpu, ¬ OnCpu w config algorithm i tick cpu := fun cpu hcpu =>
      hon ⟨cpu, hcpu⟩
    have hrecord : procInRow w config algorithm i tick = procBefore w config algorithm i tick :=
      congrArg ProcessRuntime.core (hdispatch.other i fun cpu hcpu => hnone cpu hcpu.2)
    have hafter : procAt w config algorithm i (tick + 1) = procInRow w config algorithm i tick :=
      congrArg ProcessRuntime.core (hexecute.other i fun cpu _ hcpu => hnone cpu hcpu)
    rw [hafter, hrecord]
    refine TickOf.off hbefore (fun hrunning => ?_) hnone
    have hrow' : (procInRow w config algorithm i tick).state = .running := by
      rw [hrecord]
      exact hrunning
    obtain ⟨cpu, hcpu⟩ := (hrow.cpus.running_iff i).mp hrow'
    exact hnone cpu hcpu

/-- A process has the parameters of its row in the workload. -/
theorem procAt_spec (hn : w.processCount ≤ maxProcesses) (i : Fin w.processCount) (tick : Nat) :
    (procAt w config algorithm i tick).spec = w.processes i := by
  induction tick with
  | zero => rfl
  | succ tick ih => rw [(procAt_tick config algorithm hn i tick).after_spec, ih]

theorem procInRow_spec (hn : w.processCount ≤ maxProcesses) (i : Fin w.processCount)
    (tick : Nat) : (procInRow w config algorithm i tick).spec = w.processes i := by
  rw [(procAt_tick config algorithm hn i tick).record_spec, procAt_spec config algorithm hn]

end Trajectory

end G20OsLab.Sim
