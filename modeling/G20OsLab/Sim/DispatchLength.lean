/-
  G20OsLab.Sim.DispatchLength

  How long a process stays on a CPU once it is placed there.

  Along a dispatch the CPU counts up to the slice and the burst counts down to
  0, and neither the level nor the CPU changes (`DispatchSpan`, by induction
  on the ticks since the dispatch).  Whichever count gets there first takes
  the process off; the end of the burst is tested first.
-/

import G20OsLab.Sim.Bursts
import G20OsLab.Sim.Slices

namespace G20OsLab.Sim

variable {n c : Nat}

/-! ## One tick on a CPU -/

section Execute

variable {algorithm : AlgorithmKind} {tick : Nat} {used : Int} {proc : ProcessRuntime}

theorem timeSliceFor_runProc (algorithm : AlgorithmKind) (proc : ProcessRuntime) :
    timeSliceFor algorithm (runProc proc) = timeSliceFor algorithm proc :=
  timeSliceFor_congr algorithm rfl

/-- Burst and slice go on. -/
theorem execute_goesOn {cpu : CpuState n} (hburst : 1 < proc.remainingInBurst)
    (hslice : cpu.sliceUsed + 1 < timeSliceFor algorithm proc) :
    executeCpu algorithm proc cpu = ⟨cpu.runningPid, cpu.sliceUsed + 1⟩ ∧
      executeProc algorithm tick cpu.sliceUsed proc = runProc proc := by
  have hburst' : ¬ (runProc proc).remainingInBurst ≤ 0 := by
    show ¬ proc.remainingInBurst - 1 ≤ 0
    omega
  have hslice' : ¬ cpu.sliceUsed + 1 ≥ timeSliceFor algorithm (runProc proc) := by
    rw [timeSliceFor_runProc]
    omega
  exact ⟨by rw [executeCpu, if_neg hburst', if_neg hslice'],
    by rw [executeProc, if_neg hburst', if_neg hslice']⟩

/-- The last tick of a slice or of a burst frees the CPU. -/
theorem executeCpu_frees {cpu : CpuState n}
    (hends : proc.remainingInBurst ≤ 1 ∨ timeSliceFor algorithm proc ≤ cpu.sliceUsed + 1) :
    executeCpu algorithm proc cpu = ⟨none, 0⟩ := by
  have hburst : (runProc proc).remainingInBurst = proc.remainingInBurst - 1 := rfl
  rw [executeCpu, timeSliceFor_runProc]
  split
  · rfl
  · rw [if_pos (by omega)]

theorem executeProc_burstEnds (hburst : proc.remainingInBurst ≤ 1) :
    executeProc algorithm tick used proc = finishBurst tick (runProc proc) := by
  rw [executeProc, if_pos]
  show proc.remainingInBurst - 1 ≤ 0
  omega

theorem executeProc_sliceEnds (hburst : 1 < proc.remainingInBurst)
    (hslice : timeSliceFor algorithm proc ≤ used + 1) :
    (executeProc algorithm tick used proc).state = .ready := by
  have hburst' : ¬ (runProc proc).remainingInBurst ≤ 0 := by
    show ¬ proc.remainingInBurst - 1 ≤ 0
    omega
  rw [executeProc, if_neg hburst', timeSliceFor_runProc, if_pos hslice]

end Execute

/-! ## Dispatches of a run -/

/-- Process `i`, with level `level` when it was dispatched, has ended its burst
    and waits in no queue. -/
structure BurstOver (s : SimState n c) (i : Fin n) (level : Nat) : Prop where
  state : (s.procs i).state = .blocked ∨ (s.procs i).state = .done
  level : (s.procs i).queueLevel = level
  unqueued : ∀ l, i ∉ (s.scheduler.queueAt l).items

section Run

variable (w : Workload) (config : SimulationConfig) (algorithm : AlgorithmKind)

/-- In tick `tick` process `i` is placed on CPU `cpu`. -/
def DispatchedTo (tick : Nat) (cpu : Fin config.cpuCount) (i : Fin w.processCount) : Prop :=
  Dispatched (preDispatch tick (stateAt w config algorithm tick))
    (recordAt w config algorithm tick) cpu i

instance (tick : Nat) (cpu : Fin config.cpuCount) (i : Fin w.processCount) :
    Decidable (DispatchedTo w config algorithm tick cpu i) :=
  inferInstanceAs (Decidable (_ ∧ _))

/-- Process `i` has CPU `cpu` in the rows of the `length` ticks from `tick` on,
    keeps it from each to the next, and is on no CPU after the last. -/
structure HoldsFor (tick : Nat) (cpu : Fin config.cpuCount) (i : Fin w.processCount)
    (length : Nat) : Prop where
  rows : ∀ k < length,
    ((recordAt w config algorithm (tick + k)).cpus cpu).runningPid = some i
  kept : ∀ k < length, k ≠ 0 →
    ((stateAt w config algorithm (tick + k)).cpus cpu).runningPid = some i
  freed : ((stateAt w config algorithm (tick + length)).cpus cpu).runningPid = none
  off : ∀ cpu', ((stateAt w config algorithm (tick + length)).cpus cpu').runningPid ≠ some i

/-- `k` ticks after its dispatch process `i` is still on CPU `cpu`, and `k` ticks
    further in its slice and in its burst. -/
structure DispatchSpan (tick : Nat) (cpu : Fin config.cpuCount) (i : Fin w.processCount)
    (k : Nat) : Prop where
  onCpu : (recordAt w config algorithm (tick + k)).cpus cpu = ⟨some i, k⟩
  remaining : ((recordAt w config algorithm (tick + k)).procs i).remainingInBurst =
    ((recordAt w config algorithm tick).procs i).remainingInBurst - k
  level : ((recordAt w config algorithm (tick + k)).procs i).queueLevel =
    ((recordAt w config algorithm tick).procs i).queueLevel
  kept : k ≠ 0 → ((stateAt w config algorithm (tick + k)).cpus cpu).runningPid = some i

variable {w config algorithm} (hn : w.processCount ≤ maxProcesses) {tick : Nat}
  {cpu : Fin config.cpuCount} {i : Fin w.processCount}
include hn

/-- What the execution of a row makes of the process on a CPU and of the CPU. -/
theorem stateAt_succ_of_onCpu {tick : Nat} {used : Int}
    (hcpu : (recordAt w config algorithm tick).cpus cpu = ⟨some i, used⟩) :
    (stateAt w config algorithm (tick + 1)).cpus cpu =
        executeCpu algorithm ((recordAt w config algorithm tick).procs i) ⟨some i, used⟩ ∧
      ((stateAt w config algorithm (tick + 1)).procs i).core =
        (executeProc algorithm tick used ((recordAt w config algorithm tick).procs i)).core := by
  have hran := (tickStep_spec (recordAt_inv config algorithm hn tick)).ran cpu i cpu.isLt
    (congrArg CpuState.runningPid hcpu)
  have hrow : (recordTimeline tick (preRecord tick (stateAt w config algorithm tick))).cpus cpu =
      ⟨some i, used⟩ := hcpu
  have halg : (recordTimeline tick
      (preRecord tick (stateAt w config algorithm tick))).scheduler.algorithm = algorithm :=
    recordAt_algorithm config algorithm hn tick
  rw [hrow, halg] at hran
  exact hran

theorem DispatchSpan.start (h : DispatchedTo w config algorithm tick cpu i) :
    DispatchSpan w config algorithm tick cpu i 0 := by
  have hspec := preRecord_spec (preDispatch_stateAt_inv config algorithm hn tick)
  refine ⟨(hspec.fresh cpu i h).2.1, ?_, rfl, fun hne => absurd rfl hne⟩
  rw [Nat.cast_zero, Int.sub_zero]
  rfl

/-- A tick that ends neither the slice nor the burst. -/
theorem DispatchSpan.next {k : Nat} (h : DispatchSpan w config algorithm tick cpu i k)
    (hslice : (k : Int) + 1 <
      timeSliceFor algorithm ((recordAt w config algorithm tick).procs i))
    (hburst : (k : Int) + 1 < ((recordAt w config algorithm tick).procs i).remainingInBurst) :
    DispatchSpan w config algorithm tick cpu i (k + 1) := by
  have hremaining := h.remaining
  obtain ⟨hcpu, hproc⟩ := stateAt_succ_of_onCpu hn h.onCpu
  obtain ⟨hgoes, hruns⟩ := @execute_goesOn _ algorithm (tick + k)
    ((recordAt w config algorithm (tick + k)).procs i) ⟨some i, k⟩ (by omega)
    (by rw [timeSliceFor_congr algorithm h.level]; exact hslice)
  rw [hgoes] at hcpu
  rw [hruns] at hproc
  have hrunning : ((stateAt w config algorithm (tick + k + 1)).cpus cpu).runningPid = some i := by
    rw [hcpu]
  obtain ⟨hrowCpu, hrowProc⟩ := recordAt_of_running config algorithm hn hrunning
  have hlevel := (stateAt_succ_running config algorithm hn hrunning).2.2.2
  have hleft : ((stateAt w config algorithm (tick + k + 1)).procs i).remainingInBurst =
      ((recordAt w config algorithm (tick + k)).procs i).remainingInBurst - 1 :=
    congrArg ProcessRuntime.remainingInBurst hproc
  refine ⟨?_, ?_, ?_, fun _ => hrunning⟩
  · rw [← Nat.add_assoc, hrowCpu, hcpu]
    rfl
  · rw [← Nat.add_assoc, hrowProc, hleft, h.remaining]
    push_cast
    omega
  · rw [← Nat.add_assoc, hrowProc, hlevel, h.level]

theorem DispatchSpan.of_lt (h : DispatchedTo w config algorithm tick cpu i) {k : Nat}
    (hk : (k : Int) < min (timeSliceFor algorithm ((recordAt w config algorithm tick).procs i))
      ((recordAt w config algorithm tick).procs i).remainingInBurst) :
    DispatchSpan w config algorithm tick cpu i k := by
  induction k with
  | zero => exact .start hn h
  | succ k ih =>
      push_cast at hk
      exact (ih (by omega)).next hn (by omega) (by omega)

/-- The last tick of a dispatch takes the process off its CPU. -/
theorem DispatchSpan.last {last : Nat} (h : DispatchSpan w config algorithm tick cpu i last)
    (hlast : (last : Int) + 1 =
      min (timeSliceFor algorithm ((recordAt w config algorithm tick).procs i))
        ((recordAt w config algorithm tick).procs i).remainingInBurst) :
    ((stateAt w config algorithm (tick + last + 1)).cpus cpu).runningPid = none ∧
      ((last : Int) + 1 = ((recordAt w config algorithm tick).procs i).remainingInBurst →
        BurstOver (stateAt w config algorithm (tick + last + 1)) i
          ((recordAt w config algorithm tick).procs i).queueLevel) ∧
      ((last : Int) + 1 < ((recordAt w config algorithm tick).procs i).remainingInBurst →
        ((stateAt w config algorithm (tick + last + 1)).procs i).state = .ready) := by
  have hremaining := h.remaining
  have hslice := timeSliceFor_congr algorithm h.level
  obtain ⟨hcpu, hproc⟩ := stateAt_succ_of_onCpu hn h.onCpu
  refine ⟨?_, ?_, ?_⟩
  · rw [hcpu, executeCpu_frees]
    rw [hslice]
    dsimp only
    omega
  · intro hlength
    -- the end of the burst goes before the end of the slice
    rw [executeProc_burstEnds (by omega)] at hproc
    have hstate := core_eq_state hproc
    have hfinish := finishBurst_state (tick + last)
      (runProc ((recordAt w config algorithm (tick + last)).procs i))
    rw [← hstate] at hfinish
    have hready : ((stateAt w config algorithm (tick + last + 1)).procs i).state ≠ .ready := by
      rcases hfinish with hdone | hblocked
      · simp [hdone]
      · simp [hblocked]
    refine ⟨hfinish.symm, ?_, ?_⟩
    · have hlevel := executeLoop_level (recordAt_inv config algorithm hn (tick + last)) hready
      exact hlevel.trans h.level
    · intro l hmem
      have hinv := stateAt_inv (w := w) config algorithm hn (tick + last + 1)
      exact hready ((hinv.queues.mem_iff l i).mp hmem).1
  · intro hlength
    rw [core_eq_state hproc]
    apply executeProc_sliceEnds
    · omega
    · rw [hslice]
      omega

/-- A run that ends inside a dispatch ends at the tick limit. -/
theorem ticks_eq_of_running {k : Nat}
    (hkept : ((stateAt w config algorithm k).cpus cpu).runningPid = some i)
    (hk : (runLoop w config algorithm).ticks = k) :
    (runLoop w config algorithm).ticks = config.maxTicks.toNat := by
  have hloop := runLoop_spec w config algorithm
  cases hexit : (runLoop w config algorithm).exitedDone with
  | false =>
      have hfull := hloop.full hexit
      omega
  | true =>
      have hdone := allDone_iff.mp (hloop.exit hexit).2 i
      rw [hloop.state, hk] at hdone
      have hrunning := (stateAt_inv config algorithm hn k).cpus.running hkept
      exact absurd (hrunning.symm.trans hdone) nofun

end Run

/-- A process on a CPU has work left in its burst. -/
theorem one_le_remaining_of_onCpu {w : WfWorkload} (config : SimulationConfig)
    (algorithm : AlgorithmKind) {tick : Nat} {cpu : Fin config.cpuCount} {i : Fin w.processCount}
    (hon : ((recordAt w.toWorkload config algorithm tick).cpus cpu).runningPid = some i) :
    1 ≤ ((recordAt w.toWorkload config algorithm tick).procs i).remainingInBurst := by
  have hrunning := (recordAt_inv config algorithm w.count_le tick).cpus.running hon
  have htick := (procAt_burstInv config algorithm i tick).tickOf
    (procAt_wellFormed config algorithm i tick)
    (procAt_tick config algorithm w.count_le i tick)
  have hpending : (procInRow w.toWorkload config algorithm i tick).state ≠ .done := by
    show ((recordAt w.toWorkload config algorithm tick).procs i).state ≠ .done
    simp [hrunning]
  exact (htick.1.pending hpending).2

/-- **A dispatch lasts as long as its slice and burst allow.**  A process placed
    on a CPU stays there for the smaller of its slice and the rest of its burst,
    both as they are at the dispatch, and the run ends inside that time only at
    the tick limit.  Where the burst is over it blocks or finishes, is queued
    nowhere and keeps its level, also if the slice is over too; otherwise it is
    `READY` again. -/
theorem dispatch_lasts (w : WfWorkload) (config : SimulationConfig) (algorithm : AlgorithmKind)
    (tick : Nat) (cpu : Fin config.cpuCount) (i : Fin w.processCount)
    (hdispatched : DispatchedTo w.toWorkload config algorithm tick cpu i) :
    let proc := (recordAt w.toWorkload config algorithm tick).procs i
    ∃ length : Nat,
      (length : Int) = min (timeSliceFor algorithm proc) proc.remainingInBurst ∧
      HoldsFor w.toWorkload config algorithm tick cpu i length ∧
      (tick < (runLoop w.toWorkload config algorithm).ticks →
        tick + length ≤ (runLoop w.toWorkload config algorithm).ticks ∨
          (runLoop w.toWorkload config algorithm).ticks = config.maxTicks.toNat) ∧
      ((length : Int) = proc.remainingInBurst →
        BurstOver (stateAt w.toWorkload config algorithm (tick + length)) i proc.queueLevel) ∧
      ((length : Int) < proc.remainingInBurst →
        ((stateAt w.toWorkload config algorithm (tick + length)).procs i).state = .ready) := by
  intro proc
  have hn := w.count_le
  have hslice := timeSliceFor_pos algorithm proc
  have hburst : 1 ≤ proc.remainingInBurst :=
    one_le_remaining_of_onCpu config algorithm hdispatched.2
  -- `last` is the last tick of the dispatch, counted from 0
  obtain ⟨last, hlast⟩ : ∃ last : Nat,
      (last : Int) + 1 = min (timeSliceFor algorithm proc) proc.remainingInBurst :=
    ⟨(min (timeSliceFor algorithm proc) proc.remainingInBurst - 1).toNat, by omega⟩
  have hspan : ∀ k : Nat, k < last + 1 →
      DispatchSpan w.toWorkload config algorithm tick cpu i k := by
    intro k hk
    apply DispatchSpan.of_lt hn hdispatched
    show (k : Int) < min (timeSliceFor algorithm proc) proc.remainingInBurst
    omega
  obtain ⟨hfreed, hover, hready⟩ := (hspan last (Nat.lt_succ_self last)).last hn hlast
  refine ⟨last + 1, by push_cast; exact hlast, ⟨?_, ?_, hfreed, ?_⟩, ?_, ?_, ?_⟩
  · intro k hk
    rw [(hspan k hk).onCpu]
  · intro k hk hne
    exact (hspan k hk).kept hne
  -- afterwards the process is ready, blocked or done, so on no CPU
  · intro cpu' hon
    have hrunning := (stateAt_inv config algorithm hn (tick + (last + 1))).cpus.running hon
    rcases Int.lt_or_eq_of_le (show (last : Int) + 1 ≤ proc.remainingInBurst by omega) with
      hless | heq
    · exact absurd (hrunning.symm.trans (hready hless)) nofun
    · rcases (hover heq).state with hblocked | hdone
      · exact absurd (hrunning.symm.trans hblocked) nofun
      · exact absurd (hrunning.symm.trans hdone) nofun
  · intro hrun
    -- the run ends with a process on a CPU only at the limit
    by_contra hcut
    obtain ⟨k, hk⟩ : ∃ k, (runLoop w.toWorkload config algorithm).ticks = tick + k :=
      ⟨(runLoop w.toWorkload config algorithm).ticks - tick, by omega⟩
    have hlimit := ticks_eq_of_running hn ((hspan k (by omega)).kept (by omega)) hk
    omega
  · push_cast
    exact hover
  · push_cast
    exact hready

/-- Under MLFQ the first of three processes is dispatched in tick 0 for a slice
    that is shorter than its burst. -/
theorem dispatch_lasts_mixedJobs :
    let proc := (recordAt mixedJobs.toWorkload (oneCpu 20) .mlfq 0).procs ⟨0, by decide⟩
    ∃ length : Nat,
      (length : Int) = min (timeSliceFor .mlfq proc) proc.remainingInBurst ∧
      HoldsFor mixedJobs.toWorkload (oneCpu 20) .mlfq 0 ⟨0, by decide⟩ ⟨0, by decide⟩ length ∧
      (0 < (runLoop mixedJobs.toWorkload (oneCpu 20) .mlfq).ticks →
        0 + length ≤ (runLoop mixedJobs.toWorkload (oneCpu 20) .mlfq).ticks ∨
          (runLoop mixedJobs.toWorkload (oneCpu 20) .mlfq).ticks = (oneCpu 20).maxTicks.toNat) ∧
      ((length : Int) = proc.remainingInBurst →
        BurstOver (stateAt mixedJobs.toWorkload (oneCpu 20) .mlfq (0 + length)) ⟨0, by decide⟩
          proc.queueLevel) ∧
      ((length : Int) < proc.remainingInBurst →
        ((stateAt mixedJobs.toWorkload (oneCpu 20) .mlfq (0 + length)).procs
          ⟨0, by decide⟩).state = .ready) :=
  dispatch_lasts mixedJobs (oneCpu 20) .mlfq 0 ⟨0, by decide⟩ ⟨0, by decide⟩ (by decide +kernel)

end G20OsLab.Sim
