/-
  G20OsLab.Sim.Reached

  The states of a run between two iterations of any loop of a tick.

  Every loop body keeps the global invariant, the algorithm and the workload
  (`SameRun`), so all of these states have them.
-/

import G20OsLab.Sim.Trajectory

namespace G20OsLab.Sim

open Lib (forLoop forLoop_preserves)

variable {n c : Nat}

/-! ## Reached states -/

/-- The first `k` iterations of a loop. -/
def loopTo {σ : Type _} (k : Nat) (n : Nat) (body : Fin n → σ → σ) (s : σ) : σ :=
  forLoop n (fun i s => if i.val < k then body i s else s) s

/-- A loop that stops early keeps what its body keeps. -/
theorem loopTo_preserves {σ : Type _} {k : Nat} {body : Fin n → σ → σ} {s : σ} (P : σ → Prop)
    (h0 : P s) (hstep : ∀ i s', P s' → P (body i s')) : P (loopTo k n body s) := by
  refine forLoop_preserves P h0 ?_
  intro i s' hs'
  split
  · exact hstep i s' hs'
  · exact hs'

/-- `s` is a state of the run in the course of one of its ticks. -/
inductive Reached (w : Workload) (config : SimulationConfig) (algorithm : AlgorithmKind) :
    SimState w.processCount config.cpuCount → Prop
  | arrivals (tick k : Nat) : tick < (runLoop w config algorithm).ticks →
      Reached w config algorithm
        (loopTo k _ (arrivalBody tick) (stateAt w config algorithm tick))
  | io (tick k : Nat) : tick < (runLoop w config algorithm).ticks →
      Reached w config algorithm
        (loopTo k _ (ioBody tick) (forLoop _ (arrivalBody tick) (stateAt w config algorithm tick)))
  | waiting (tick k : Nat) : tick < (runLoop w config algorithm).ticks →
      Reached w config algorithm
        (loopTo k _ waitingBody (tickBody tick (forLoop _ (ioBody tick)
          (forLoop _ (arrivalBody tick) (stateAt w config algorithm tick)))))
  | dispatch (tick k : Nat) : tick < (runLoop w config algorithm).ticks →
      Reached w config algorithm
        (loopTo k _ (dispatchBody tick) (preDispatch tick (stateAt w config algorithm tick)))
  | execute (tick k : Nat) : tick < (runLoop w config algorithm).ticks →
      Reached w config algorithm
        (loopTo k _ (executeBody tick) (recordTimeline tick (recordAt w config algorithm tick)))

/-! ## What every body keeps -/

/-- The two states run the same algorithm on the same processes. -/
structure SameRun (s s' : SimState n c) : Prop where
  algorithm : s'.scheduler.algorithm = s.scheduler.algorithm
  spec : ∀ i, (s'.procs i).spec = (s.procs i).spec

theorem SameRun.refl (s : SimState n c) : SameRun s s := ⟨rfl, fun _ => rfl⟩

theorem SameRun.trans {s s' s'' : SimState n c} (h : SameRun s s') (h' : SameRun s' s'') :
    SameRun s s'' :=
  ⟨h'.algorithm.trans h.algorithm, fun i => (h'.spec i).trans (h.spec i)⟩

theorem sameRun_setProc {s : SimState n c} {i : Fin n} {proc : ProcessRuntime}
    (h : proc.spec = (s.procs i).spec) : SameRun s (s.setProc i proc) where
  algorithm := rfl
  spec j := by
    rw [setProc_procs]
    by_cases hj : j = i
    · subst hj
      rw [Function.update_self, h]
    · rw [Function.update_of_ne hj]

theorem sameRun_enqueue (s : SimState n c) (pid : Fin n) (cpuHint now : Int)
    (reason : EnqueueReason) : SameRun s (s.enqueue pid cpuHint now reason) where
  algorithm := enqueue_algorithm ..
  spec j := by
    rw [enqueue_procs]
    by_cases hj : j = pid
    · subst hj
      rw [Function.update_self]
      rfl
    · rw [Function.update_of_ne hj]

theorem arrivalBody_sameRun (tick : Nat) (i : Fin n) (s : SimState n c) :
    SameRun s (arrivalBody tick i s) := by
  rw [arrivalBody]
  split
  · exact sameRun_enqueue ..
  · exact SameRun.refl s

theorem ioBody_sameRun (tick : Nat) (i : Fin n) (s : SimState n c) :
    SameRun s (ioBody tick i s) := by
  rw [ioBody]
  dsimp only
  split
  · split
    · split
      · exact sameRun_setProc rfl
      · refine SameRun.trans (sameRun_setProc ?_) (sameRun_enqueue ..)
        rfl
    · exact sameRun_setProc rfl
  · exact SameRun.refl s

theorem tickBody_sameRun (tick : Nat) (s : SimState n c) : SameRun s (tickBody tick s) where
  algorithm := schedulerTick_algorithm ..
  spec i := by
    have hspec := congrArg ProcessRuntime.spec (schedulerTick_core s.scheduler s.procs tick i)
    exact hspec

theorem waitingBody_sameRun (i : Fin n) (s : SimState n c) : SameRun s (waitingBody i s) := by
  rw [waitingBody]
  split
  · exact sameRun_setProc rfl
  · exact SameRun.refl s

/-- A dispatch sets no parameter of the run. -/
theorem dispatchBody_sameRun {tick : Nat} {s : SimState n c} (hinv : SimInv s) (cpu : Fin c) :
    SameRun s (dispatchBody tick cpu s) := by
  rw [dispatchBody]
  split
  · exact SameRun.refl s
  · split
    · rename_i scheduler hpick
      exact ⟨(pick_none hpick).algorithm, fun _ => rfl⟩
    · rename_i pid scheduler hpick
      have hsome := pick_some hinv.queues.family.nodup hpick
      have hset : SameRun { s with scheduler := scheduler }
          (({ s with scheduler := scheduler }).setProc pid
            (dispatchProc cpu tick (s.procs pid))) := sameRun_setProc rfl
      exact ⟨hsome.algorithm, hset.spec⟩

theorem finishBurst_spec (tick : Nat) (proc : ProcessRuntime) :
    (finishBurst tick proc).spec = proc.spec := by
  unfold finishBurst
  dsimp only
  split <;> rfl

theorem executeBody_sameRun (tick : Nat) (cpu : Fin c) (s : SimState n c) :
    SameRun s (executeBody tick cpu s) := by
  rw [executeBody]
  split
  · exact SameRun.refl s
  · rename_i pid _
    dsimp only
    split
    · have hset := sameRun_setProc (finishBurst_spec tick (runProc (s.procs pid)))
      exact ⟨rfl, hset.spec⟩
    · have hset : SameRun s (s.setProc pid (runProc (s.procs pid))) := sameRun_setProc rfl
      split
      · have henqueue := hset.trans (sameRun_enqueue _ pid cpu (tick + 1) .preempt)
        exact ⟨henqueue.algorithm, henqueue.spec⟩
      · exact ⟨rfl, hset.spec⟩

/-! ## What holds of every reached state -/

section Run

variable {w : Workload} {config : SimulationConfig} {algorithm : AlgorithmKind}

/-- The invariant of a run of `algorithm` on `w`. -/
structure RunInv (w : Workload) (algorithm : AlgorithmKind) (s : SimState w.processCount c) :
    Prop where
  inv : SimInv s
  algorithm_eq : s.scheduler.algorithm = algorithm
  spec : ∀ i, (s.procs i).spec = w.processes i

/-- A phase that keeps the invariant and the parameters keeps both. -/
theorem RunInv.step {s s' : SimState w.processCount c} (h : RunInv w algorithm s)
    (hinv : SimInv s') (hsame : SameRun s s') : RunInv w algorithm s' :=
  ⟨hinv, hsame.algorithm.trans h.algorithm_eq, fun i => (hsame.spec i).trans (h.spec i)⟩

variable (hn : w.processCount ≤ maxProcesses)
include hn

theorem RunInv.arrival {s : SimState w.processCount config.cpuCount} (h : RunInv w algorithm s)
    (tick : Nat) (i : Fin w.processCount) : RunInv w algorithm (arrivalBody tick i s) :=
  h.step (arrivalBody_inv hn config.cpu_pos h.inv tick i) (arrivalBody_sameRun tick i s)

theorem RunInv.io {s : SimState w.processCount config.cpuCount} (h : RunInv w algorithm s)
    (tick : Nat) (i : Fin w.processCount) : RunInv w algorithm (ioBody tick i s) :=
  h.step (ioBody_inv hn config.cpu_pos h.inv tick i) (ioBody_sameRun tick i s)

theorem RunInv.execute {s : SimState w.processCount config.cpuCount} (h : RunInv w algorithm s)
    (tick : Nat) (cpu : Fin config.cpuCount) : RunInv w algorithm (executeBody tick cpu s) :=
  h.step (executeBody_inv hn config.cpu_pos h.inv tick cpu) (executeBody_sameRun tick cpu s)

/-- The phases up to a point of the tick. -/
theorem RunInv.afterIo {s : SimState w.processCount config.cpuCount} (h : RunInv w algorithm s)
    (tick : Nat) : RunInv w algorithm
      (tickBody tick (forLoop _ (ioBody tick) (forLoop _ (arrivalBody tick) s))) := by
  have harrive := forLoop_preserves (RunInv w algorithm) h fun i _ h' =>
    RunInv.arrival hn h' tick i
  have hio := forLoop_preserves (RunInv w algorithm) harrive fun i _ h' => RunInv.io hn h' tick i
  exact hio.step (tickBody_inv hn config.cpu_pos hio.inv tick) (tickBody_sameRun tick _)

omit hn in
theorem RunInv.waiting {s : SimState w.processCount config.cpuCount} (h : RunInv w algorithm s)
    (i : Fin w.processCount) : RunInv w algorithm (waitingBody i s) :=
  h.step (waitingBody_inv h.inv i) (waitingBody_sameRun i s)

omit hn in
theorem RunInv.dispatch {s : SimState w.processCount config.cpuCount} (h : RunInv w algorithm s)
    (tick : Nat) (cpu : Fin config.cpuCount) : RunInv w algorithm (dispatchBody tick cpu s) :=
  h.step (dispatchBody_inv h.inv tick cpu) (dispatchBody_sameRun h.inv cpu)

omit hn in
theorem RunInv.record {s : SimState w.processCount config.cpuCount} (h : RunInv w algorithm s)
    (tick : Nat) : RunInv w algorithm (recordTimeline tick s) :=
  ⟨⟨h.inv.queues, h.inv.cpus, h.inv.cpuCount⟩, h.algorithm_eq, h.spec⟩

theorem RunInv.preDispatch {s : SimState w.processCount config.cpuCount} (h : RunInv w algorithm s)
    (tick : Nat) : RunInv w algorithm (Sim.preDispatch tick s) :=
  forLoop_preserves (RunInv w algorithm) (RunInv.afterIo hn h tick) fun i _ h' => h'.waiting i

theorem RunInv.preRecord {s : SimState w.processCount config.cpuCount} (h : RunInv w algorithm s)
    (tick : Nat) : RunInv w algorithm (Sim.preRecord tick s) :=
  forLoop_preserves (RunInv w algorithm) (RunInv.preDispatch hn h tick) fun cpu _ h' =>
    h'.dispatch tick cpu

/-- At every tick the state is one of the run. -/
theorem stateAt_runInv (tick : Nat) : RunInv w algorithm (stateAt w config algorithm tick) := by
  induction tick with
  | zero =>
      exact ⟨initialState_inv w config algorithm, schedulerInit_algorithm .., fun _ => rfl⟩
  | succ tick ih =>
      exact forLoop_preserves (RunInv w algorithm) ((RunInv.preRecord hn ih tick).record tick)
        fun cpu _ h' => RunInv.execute hn h' tick cpu

/-- Every reached state has the invariant. -/
theorem Reached.runInv {s : SimState w.processCount config.cpuCount}
    (h : Reached w config algorithm s) : RunInv w algorithm s := by
  cases h with
  | arrivals tick k =>
      exact loopTo_preserves (RunInv w algorithm) (stateAt_runInv hn tick) fun i _ h' =>
        RunInv.arrival hn h' tick i
  | io tick k =>
      have hstart : RunInv w algorithm (stateAt w config algorithm tick) := stateAt_runInv hn tick
      have harrive := forLoop_preserves (RunInv w algorithm) hstart fun i _ h' =>
        RunInv.arrival hn h' tick i
      exact loopTo_preserves (RunInv w algorithm) harrive fun i _ h' => RunInv.io hn h' tick i
  | waiting tick k =>
      exact loopTo_preserves (RunInv w algorithm)
        (RunInv.afterIo hn (stateAt_runInv hn tick) tick) fun i _ h' => h'.waiting i
  | dispatch tick k =>
      exact loopTo_preserves (RunInv w algorithm)
        (RunInv.preDispatch hn (stateAt_runInv hn tick) tick) fun cpu _ h' => h'.dispatch tick cpu
  | execute tick k =>
      exact loopTo_preserves (RunInv w algorithm)
        ((RunInv.preRecord hn (stateAt_runInv hn tick) tick).record tick) fun cpu _ h' =>
          RunInv.execute hn h' tick cpu

end Run

end G20OsLab.Sim
