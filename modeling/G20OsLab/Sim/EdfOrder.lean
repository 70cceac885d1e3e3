/-
  G20OsLab.Sim.EdfOrder

  The EDF run is globally earliest-deadline-first.

  With a slice of one tick every CPU is idle when dispatch starts, so every
  process in a row was picked in that row.  A pick takes a process that none
  in the queue precedes, and the queue only shrinks after it, so no process
  left `READY` precedes one that was placed.
-/

import G20OsLab.Sim.WorkConserving

namespace G20OsLab.Sim

open Lib (LexLt)

variable {n c : Nat}

/-- The order in which EDF serves processes: smaller key, then earlier
    arrival. -/
def EdfBefore (p q : ProcessSpec) : Prop :=
  edfKey p < edfKey q ∨ (edfKey p = edfKey q ∧ p.arrival ≤ q.arrival)

theorem edfBefore_of_not_lexLt {specs : Fin n → ProcessSpec} {r q : Fin n}
    (h : ¬ LexLt (fun i => edfKey (specs i)) (fun i => (specs i).arrival) q r) :
    EdfBefore (specs r) (specs q) := by
  unfold LexLt at h
  unfold EdfBefore
  dsimp only at h
  omega

/-! ## A pick -/

/-- EDF picks a queued process that is before all others in the queue. -/
theorem edfPick_before {s s' : SchedulerState n} {procs : ProcTable n} {cpuId : Nat} {now : Int}
    {pid : Fin n} (ha : s.algorithm = .edf)
    (h : pickNextProcess s procs cpuId now = (some pid, s')) {q : Fin n}
    (hq : q ∈ (s.queueAt 0).items) : EdfBefore (procs pid).spec (procs q).spec := by
  have hready : (s.queueAt 0).items = s.edf.ready.items := by
    simp [SchedulerState.queueAt, ha]
  rw [hready] at hq
  simp only [pickNextProcess, ha, edfPickNext, edfBestIndex, Prod.mk.injEq] at h
  have hpick := h.1
  split at hpick
  · rename_i k best hscan
    obtain ⟨hget, hmin, -⟩ := Lib.scanMin_spec hscan
    rw [queueRemoveAt_of_getElem? hget, Option.some.injEq] at hpick
    subst hpick
    have hbefore := edfBefore_of_not_lexLt (hmin q hq)
    exact hbefore
  · simp [queueRemoveAt] at hpick

/-! ## The dispatch loop -/

/-- No process left `READY` should have been placed instead of one that is on
    a CPU. -/
def EdfRow (s : SimState n c) : Prop :=
  ∀ cpu r q, (s.cpus cpu).runningPid = some r → (s.procs q).state = .ready →
    EdfBefore (s.procs r).spec (s.procs q).spec

theorem dispatchBody_edfRow {tick : Nat} {s : SimState n c} (hinv : SimInv s)
    (ha : s.scheduler.algorithm = .edf) (cpu : Fin c) (h : EdfRow s) :
    EdfRow (dispatchBody tick cpu s) := by
  have hspec : ∀ i, ((dispatchBody tick cpu s).procs i).spec = (s.procs i).spec :=
    dispatchBody_spec_eq tick cpu s
  intro k r q hr hq
  rw [hspec, hspec]
  rw [dispatchBody] at hr hq
  split at hr
  · rename_i hbusy
    rw [hbusy] at hq
    exact h k r q hr hq
  · rename_i hidle
    rw [hidle] at hq
    split at hr
    · rename_i scheduler hpick
      rw [hpick] at hq
      exact h k r q hr hq
    · rename_i pid scheduler hpick
      rw [hpick] at hq
      -- `q` is still `READY`, so it was queued when `pid` was picked
      have hne : q ≠ pid := by
        rintro rfl
        simp [dispatchProc] at hq
      have hready : (s.procs q).state = .ready := by simpa [hne] using hq
      by_cases hk : k = cpu
      · subst hk
        rw [setCpu_cpus, Function.update_self, Option.some.injEq] at hr
        subst hr
        apply edfPick_before ha hpick
        rw [hinv.queues.mem_iff, ha]
        exact ⟨hready, rfl⟩
      · rw [setCpu_cpus, Function.update_of_ne hk] at hr
        exact h k r q hr hready

theorem preRecord_edfRow {tick : Nat} {s : SimState n c} (hinv : SimInv (preDispatch tick s))
    (ha : (preDispatch tick s).scheduler.algorithm = .edf)
    (hidle : ∀ cpu, ((preDispatch tick s).cpus cpu).runningPid = none) :
    EdfRow (preRecord tick s) := by
  have hstart : EdfRow (preDispatch tick s) := fun cpu r q hr _ =>
    absurd ((hidle cpu).symm.trans hr) nofun
  refine (preRecord_loop hinv (fun _ => EdfRow) hstart fun cpu s' hs' hrow => ?_).2
  exact dispatchBody_edfRow hs'.inv (hs'.spec.algorithm.trans ha) cpu hrow

/-! ## The rows of a run -/

section Run

variable {w : Workload} (config : SimulationConfig)

/-- The slice of one tick frees every CPU. -/
theorem stateAt_edf_idle (hn : w.processCount ≤ maxProcesses) (tick : Nat)
    (cpu : Fin config.cpuCount) :
    ((stateAt w config .edf tick).cpus cpu).runningPid = none := by
  induction tick with
  | zero => rfl
  | succ tick ih =>
      have hexecute := tickStep_spec (recordAt_inv config .edf hn tick)
      have hdispatch := preRecord_spec (preDispatch_stateAt_inv config .edf hn tick)
      have hidle :
          ((preDispatch tick (stateAt w config .edf tick)).cpus cpu).runningPid = none := by
        rw [(preDispatch_outside ..).cpus]
        exact ih
      rw [stateAt_succ]
      cases hrow : ((recordAt w config .edf tick).cpus cpu).runningPid with
      | none =>
          exact congrArg CpuState.runningPid (hexecute.cpu_other cpu (.inr hrow)) |>.trans hrow
      | some i =>
          have hfresh := (hdispatch.fresh cpu i ⟨hidle, hrow⟩).2.1
          have halg : (recordTimeline tick (recordAt w config .edf tick)).scheduler.algorithm =
              .edf := recordAt_algorithm config .edf hn tick
          have hcpu := (hexecute.ran cpu i cpu.isLt hrow).1
          have hslice : ((recordTimeline tick (recordAt w config .edf tick)).cpus cpu).sliceUsed =
              0 := congrArg CpuState.sliceUsed hfresh
          rw [recordAt] at halg hslice
          rw [hcpu, executeCpu, halg, hslice]
          simp [timeSliceFor]

theorem recordAt_edfRow (hn : w.processCount ≤ maxProcesses) (tick : Nat) :
    EdfRow (recordAt w config .edf tick) := by
  refine preRecord_edfRow (preDispatch_stateAt_inv config .edf hn tick) ?_ ?_
  · exact (preDispatch_outside ..).algorithm.trans (stateAt_algorithm config .edf hn tick)
  · intro cpu
    rw [(preDispatch_outside ..).cpus]
    exact stateAt_edf_idle config hn tick cpu

end Run

/-- **Every EDF row is earliest-deadline-first.**  When `record_timeline` is
    called, every process on a CPU comes before every process still `READY`,
    by deadline and then by arrival. -/
theorem edf_row_ordered (w : WfWorkload) (config : SimulationConfig) (tick : Nat)
    (cpu : Fin config.cpuCount) (r q : Fin w.processCount)
    (hr : ((recordAt w.toWorkload config .edf tick).cpus cpu).runningPid = some r)
    (hq : ((recordAt w.toWorkload config .edf tick).procs q).state = .ready) :
    EdfBefore (w.processes r) (w.processes q) := by
  have hspec : ∀ i, ((recordAt w.toWorkload config .edf tick).procs i).spec = w.processes i :=
    fun i => procInRow_spec config .edf w.count_le i tick
  have hbefore := recordAt_edfRow config w.count_le tick cpu r q hr hq
  rwa [hspec, hspec] at hbefore

/-- Two processes on one CPU: in tick 0 the one due at tick 1 runs. -/
theorem edf_row_ordered_shortJobs :
    EdfBefore (ProcessSpec.short 2 1) (ProcessSpec.short 1 2) :=
  edf_row_ordered (shortJobs 2 (by decide) (by decide)) (oneCpu 2) 0 ⟨0, by decide⟩
    ⟨1, by decide⟩ ⟨0, by decide⟩ (by decide +kernel) (by decide +kernel)

end G20OsLab.Sim
