/-
  G20OsLab.Kernel.InitReaps

  What `init` can reap.

  `reparent` hands every child of an exiting process to `init`, threads made
  by `kclone` included, but the loop of `kwait` skips the slots with
  `is_thread` set, and `init` calls nothing else.
-/

import G20OsLab.Kernel.Frame
import G20OsLab.Kernel.FreeSlots

namespace G20OsLab.Kernel

/-! ## Reaping -/

/-- Slot `j` is an exited child of `init`. -/
def KState.ZombieOfInit (s : KState) (j : Fin nproc) : Prop :=
  (s.proc j).parent = some s.initproc ∧ (s.proc j).state = .zombie

instance (s : KState) (j : Fin nproc) : Decidable (s.ZombieOfInit j) :=
  inferInstanceAs (Decidable (_ ∧ _))

/-- From `s` to `t`, `init` returns from a wait with the pid of child `j`, and
    the slot of the child becomes `UNUSED`. -/
structure ReapedByInit (s : KState) (j : Fin nproc) (t : KState) : Prop where
  zombie : s.ZombieOfInit j
  returned : t.kpc s.initproc = .trapExit false
  pid : (t.proc s.initproc).trapframe.a0 = u64OfInt (s.proc j).pid
  unused : (t.proc j).state = .unused

/-- If `init` has an exited child, its `wait(0)` reaps one. -/
def KState.InitReaps (s : KState) : Prop :=
  (∃ j, s.ZombieOfInit j) → ∀ o, ∃ j, ReapedByInit s j (kwait s s.initproc o 0)

/-- The event brings no thread under `init`: no process exits while it has a
    thread that it has not joined, and `init` makes none. -/
structure KState.KeepsThreads (s : KState) (e : Event) : Prop where
  exit : ∀ {i status j}, s.At e i (.call (.exit status)) → (s.proc j).parent = some i →
    (s.proc j).isThread = false
  link : ∀ {j pid}, s.At e s.initproc (.link j pid) → (s.proc j).isThread = false

section

variable {s t : KState} {e : Event} {i j : Fin nproc} {o : Outcome}

/-- What `kwait(0)` does when it finds a child. -/
theorem kwait_found
    (h : (List.finRange nproc).find? (fun j =>
      (decide ((s.proc j).parent = some i) && !(s.proc j).isThread) &&
        decide ((s.proc j).state = .zombie)) = some j) :
    kwait s i o 0 = s.setRet i j (freeproc (s.proc j), (s.proc j).pid) := by
  simp [kwait, waitSection, h]

/-- What `kwait(0)` leaves alone when it finds none. -/
theorem kwait_none
    (h : (List.finRange nproc).find? (fun j =>
      (decide ((s.proc j).parent = some i) && !(s.proc j).isThread) &&
        decide ((s.proc j).state = .zombie)) = none)
    (hret : (kwait s i o 0).kpc i = .trapExit false) : kwait s i o 0 = s.retInt i (-1) := by
  simp only [kwait, waitSection, h] at hret ⊢
  split
  · rfl
  · rename_i hsleep
    rw [if_neg hsleep] at hret
    simp [KState.sleep, KState.setKpc] at hret

/-- `init` reaps exactly when one of its exited children is no thread. -/
theorem initReaps_iff : s.InitReaps ↔
    ((∃ j, s.ZombieOfInit j) → ∃ j, s.ZombieOfInit j ∧ (s.proc j).isThread = false) := by
  refine forall_congr' ?_
  intro _
  cases hfind : (List.finRange nproc).find? (fun j =>
      (decide ((s.proc j).parent = some s.initproc) && !(s.proc j).isThread) &&
        decide ((s.proc j).state = .zombie)) with
  | some j =>
      have hj := List.find?_some hfind
      simp only [Bool.and_eq_true, decide_eq_true_eq, Bool.not_eq_true'] at hj
      have hzombie : s.ZombieOfInit j := ⟨hj.1.1, hj.2⟩
      refine iff_of_true (fun o => ⟨j, ?_⟩) ⟨j, hzombie, hj.1.2⟩
      rw [kwait_found hfind]
      exact ⟨hzombie, retInt_kpc_self .., retInt_a0 .., setRet_state ..⟩
  | none =>
      have hnone := List.find?_eq_none.mp hfind
      constructor
      · intro hreaps
        obtain ⟨j, hj⟩ := hreaps {}
        -- `kwait` returned `-1`, and no slot became `UNUSED`
        have hunused := hj.unused
        rw [kwait_none hfind hj.returned, retInt_state, hj.zombie.2] at hunused
        cases hunused
      · rintro ⟨j, hj, hthread⟩
        exact absurd (by simp [hj.1, hj.2, hthread]) (hnone j (List.mem_finRange j))

/-! ## The invariant -/

/-- `init` has no thread. -/
def KState.NoThreadOfInit (s : KState) : Prop :=
  ∀ j, (s.proc j).parent = some s.initproc → (s.proc j).isThread = false

theorem Proc.SameFamily.noThread {p q : Proc} {i : Fin nproc} (h : p.SameFamily q)
    (hp : p.parent = some i → p.isThread = false) (hq : q.parent = some i) :
    q.isThread = false := by
  rw [h.isThread]
  exact hp (h.parent.symm.trans hq)

/-- Every step keeps threads from `init`, if none is given to it. -/
theorem noThread_of_step (hfree : s.FreeClean False) (hkeeps : s.KeepsThreads e)
    (hs : s.NoThreadOfInit) (h : step e s = some t) : t.NoThreadOfInit := by
  intro j
  rw [(step_effect h).initproc]
  refine step_slot (I := fun p => p.parent = some s.initproc → p.isThread = false) h (hs j)
    fun p q hp hm => ?_
  intro hq
  cases hm with
  -- the changes of the process tree
  | fork _ _ => rfl
  | clone _ hunused =>
      -- the parent of a new thread is not set yet
      have hparent := (hfree j hunused).parent
      simp [cloneChild, allocInit, hparent] at hq
  | abort _ _ _ _ => rfl
  | free _ _ _ _ => rfl
  | link hat =>
      obtain rfl := Option.some.inj hq
      exact hkeeps.link hat
  | reparent hat =>
      simp only [reparentProc] at hq ⊢
      split
      · rename_i hchild
        exact hkeeps.exit hat hchild
      · rename_i hchild
        rw [if_neg hchild] at hq
        exact hp hq
  -- all others leave it alone
  | wakeup chan => exact (wakeupProc_sameFamily p chan).noThread hp hq
  | updateTime => exact (updateTime_sameFamily _).noThread hp hq
  | kill _ _ => exact (killProc_sameFamily _).noThread hp hq
  | sigsend _ _ _ => exact (sigsendProc_sameFamily _ _).noThread hp hq
  | deliver bytes copyOk _ _ _ => exact (msgsendProc_sameFamily _ _ _).noThread hp hq
  | receive copyOk _ _ => exact (msgrecvProc_sameFamily _ _).noThread hp hq
  | sigalarm _ => exact (sigalarm_sameFamily _ _ _).noThread hp hq
  | sigreturn _ => exact (sigreturn_sameFamily _).noThread hp hq
  | signalcheck _ => exact (signalcheck_sameFamily _).noThread hp hq
  | signaltick _ _ => exact (signaltick_sameFamily _).noThread hp hq
  | _ => exact hp hq

theorem bootState_noThread : bootState.NoThreadOfInit := by
  intro j hj
  by_cases hinit : j = initSlot
  · simp [bootState, hinit, allocInit]
  · simp [bootState, hinit, procinit]

/-- So does every run. -/
theorem ReachableBy.noThread (h : ReachableBy KState.KeepsThreads s) : s.NoThreadOfInit := by
  have hinv : (s.Pending ∧ s.FreeClean False) ∧ s.NoThreadOfInit :=
    h.invariant (I := fun s => (s.Pending ∧ s.FreeClean False) ∧ s.NoThreadOfInit)
      ⟨⟨bootState_pending, bootState_clean _⟩, bootState_noThread⟩
      fun ht hP hstep =>
        ⟨⟨step_pending ht.1.1 hstep, clean_of_step ht.1.1 False.elim ht.1.2 hstep⟩,
          noThread_of_step ht.1.2 hP ht.2 hstep⟩
  exact hinv.2

/-- In every run that brings no thread under `init`, its `wait(0)` reaps an
    exited child whenever there is one; in any state it does so exactly if
    one of them is no thread. -/
theorem init_reaps (s : KState) :
    (ReachableBy KState.KeepsThreads s → s.InitReaps) ∧
      (s.InitReaps ↔
        ((∃ j, s.ZombieOfInit j) → ∃ j, s.ZombieOfInit j ∧ (s.proc j).isThread = false)) := by
  refine ⟨fun hs => initReaps_iff.mpr ?_, initReaps_iff⟩
  rintro ⟨j, hj⟩
  exact ⟨j, hj, hs.noThread j hj.1⟩

end

/-- `KeepsThreads`, evaluated. -/
def keepsThreads (s : KState) (e : Event) : Bool :=
  match e with
  | .run i _ => match s.kpc i with
    | .call (.exit _) =>
        (List.finRange nproc).all fun j =>
          decide ((s.proc j).parent = some i → (s.proc j).isThread = false)
    | .link j _ => decide (i = s.initproc → (s.proc j).isThread = false)
    | _ => true
  | _ => true

theorem keepsThreads_sound {s : KState} {e : Event} (h : keepsThreads s e = true) :
    s.KeepsThreads e where
  exit := by
    rintro i status j ⟨⟨o, rfl⟩, -, hpc⟩ hparent
    simp only [keepsThreads, hpc, List.all_eq_true, decide_eq_true_eq] at h
    exact h j (List.mem_finRange j) hparent
  link := by
    rintro j pid ⟨⟨o, rfl⟩, -, hpc⟩
    simpa [keepsThreads, hpc] using h

/-- The first process forks a child into slot 1, which is then scheduled. -/
def forkChildEvents : List Event :=
  bootEvents ++ syscallEvents initSlot 1 0 0 0 ++
    [.run initSlot {}, .run initSlot {}, .run initSlot {}, .run initSlot {}] ++
    returnEvents initSlot ++ [.schedule ⟨1, by decide⟩]

/-- The slot of the child. -/
def childSlot : Fin nproc := ⟨1, by decide⟩

/-- The child exits. -/
def childExitEvents : List Event := forkChildEvents ++ syscallEvents ⟨1, by decide⟩ 2 0 0 0

theorem init_reaps_childExit :
    (stateAfter childExitEvents).ZombieOfInit ⟨1, by decide⟩ ∧
      (stateAfter childExitEvents).InitReaps :=
  ⟨by decide +kernel, (init_reaps _).1
    (ReachableBy.stateAfter (fun _ _ => keepsThreads_sound) (by decide +kernel))⟩

/-- The child makes a thread in slot 2 and exits, `init` waits for the child,
    and then the thread exits. -/
def abandonEvents : List Event :=
  forkChildEvents ++ syscallEvents ⟨1, by decide⟩ 25 0x100 0x2000 0 ++
    [.run ⟨1, by decide⟩ {}, .run ⟨1, by decide⟩ {}, .run ⟨1, by decide⟩ {},
      .run ⟨1, by decide⟩ {}, .run ⟨1, by decide⟩ {}] ++
    returnEvents ⟨1, by decide⟩ ++ syscallEvents ⟨1, by decide⟩ 2 0 0 0 ++
    syscallEvents initSlot 3 0 0 0 ++ returnEvents initSlot ++
    [.schedule ⟨2, by decide⟩] ++ syscallEvents ⟨2, by decide⟩ 2 0 0 0

/-- The thread is an exited child of `init`, but the `wait(0)` of `init`
    returns `-1`. -/
theorem abandoned_thread_stranded :
    ∃ s : KState, Reachable s ∧ s.ZombieOfInit ⟨2, by decide⟩ ∧
      ((kwait s s.initproc {} 0).proc s.initproc).trapframe.a0 = u64OfInt (-1) ∧
      ¬ s.InitReaps := by
  refine ⟨stateAfter abandonEvents, Reachable.stateAfter (by decide +kernel), by decide +kernel,
    by decide +kernel, ?_⟩
  have hthreads : ∀ j, (stateAfter abandonEvents).ZombieOfInit j →
      ((stateAfter abandonEvents).proc j).isThread = true := by decide +kernel
  rw [initReaps_iff]
  intro hreaps
  obtain ⟨j, hj, hthread⟩ := hreaps ⟨⟨2, by decide⟩, by decide +kernel⟩
  rw [hthreads j hj] at hthread
  cases hthread

end G20OsLab.Kernel
