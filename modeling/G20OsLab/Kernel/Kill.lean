/-
  G20OsLab.Kernel.Kill

  What a kill does to a process that sleeps.

  `kkill` sets `killed` and wakes the process; the loop it sleeps in has to
  look at `killed`.  That of `kjoin` does, as those of `kwait` and `waitx` do;
  those of `ksem_wait` and `msgrecv` go back to sleep.
-/

import G20OsLab.Kernel.Conditions
import G20OsLab.Kernel.InitReaps

namespace G20OsLab.Kernel

/-- From here, as long as what process `i` waits for does not come, it does
    not sleep in the call again, and the call returns -1 when it next runs, to
    the `killed` check in `usertrap`. -/
def KState.Escapes (t : KState) (i : Fin nproc) (call : Call) : Prop :=
  ∀ u, Lib.Steps step (fun x _ => (x.proc i).state ≠ .unused ∧ ¬ x.Ready i call) t u →
    ¬ ((u.proc i).state = .sleeping ∧ u.kpc i = .asleep call) ∧
      ∀ e u', u.At e i (.call call) → ¬ u.Ready i call → step e u = some u' →
        returned u e u' = some (i, .call call, u64OfInt (-1)) ∧ (u'.proc i).killed = true

/-- A killed process on its way out of the call. -/
structure KState.Doomed (s : KState) (i : Fin nproc) (call : Call) : Prop where
  killed : (s.proc i).killed = true
  kpc : (s.kpc i = .asleep call ∧ (s.proc i).state ≠ .sleeping) ∨ s.kpc i = .call call ∨
    s.kpc i = .trapExit false ∨
      ∃ status, s.kpc i = .call (.exit status) ∨ s.kpc i = .asleep (.exit status)

section

variable {s t : KState} {e : Event} {i i' j : Fin nproc} {o : Outcome} {call : Call}
variable {pid tid : Int} {v : UInt64}

/-! ## The kill -/

/-- A `kill` that stops at a slot has found its pid there. -/
theorem kill_hit (h : step e s = some t)
    (hkill : returned s e t = some (i', .scan (.kill pid) i, v)) :
    (s.proc i).pid = pid ∧ t = s.setRet i' i (killProc (s.proc i), 0) := by
  obtain ⟨hat, hkpc, -⟩ := returned_eq_some h hkill
  by_cases hpid : (s.proc i).pid = pid
  · exact ⟨hpid, kill_found hat hpid h⟩
  -- elsewhere the scan goes on
  · obtain ⟨o, -, rfl⟩ := step_scan hat h
    rw [scanSection_eq] at hkpc
    simp [scanAt, hpid] at hkpc

/-- Who is killed stays so until the slot is freed. -/
theorem killed_of_step (hs : (s.proc j).killed = true) (hused : (s.proc j).state ≠ .unused)
    (h : step e s = some t) (ht : (t.proc j).state ≠ .unused) : (t.proc j).killed = true := by
  have hkept : (t.proc j).killed = true ∨
      (s.proc j).state = .zombie ∧ (t.proc j).state = .unused := by
    refine step_slot (I := fun p => p.killed = true ∨
      (s.proc j).state = .zombie ∧ p.state = .unused) h (.inl hs) fun p q hp hm => ?_
    cases hm with
    -- made of a free slot
    | abort _ _ _ hunused => exact absurd hunused hused
    | fork _ hunused => exact absurd hunused hused
    | clone _ hunused => exact absurd hunused hused
    | free _ _ _ hzombie => exact .inr ⟨hzombie, rfl⟩
    | wakeup chan =>
        refine hp.imp (fun hkilled => ?_) fun ⟨hzombie, hfreed⟩ =>
          ⟨hzombie, (wakeupProc_samePlace _ _).unused.mpr hfreed⟩
        rw [wakeupProc, wake]
        repeat' split
        all_goals exact hkilled
    | exit hat _ => exact .inl (hp.resolve_right fun hzombie => by simp [hat.running] at hzombie)
    | regs _ hrun => exact .inl (hp.resolve_right fun hzombie => by simp [hrun] at hzombie)
    | kill _ _ => exact .inl (killProc_killed _)
    | fault _ => exact .inl rfl
    | signalcheck _ =>
        left
        rw [signalcheck]
        repeat' split
        · rename_i hsetup
          simp only [setupsignal, Option.ite_none_left_eq_some, Option.some.injEq] at hsetup
          obtain ⟨-, rfl⟩ := hsetup
          exact hs
        · rfl
        · exact hs
    | sigsend _ _ _ =>
        left
        rw [sigsendProc, wake]
        repeat' split
        all_goals exact hs
    | updateTime =>
        left
        rw [updateTime]
        split <;> exact hs
    | reparent _ =>
        left
        rw [reparentProc]
        split <;> exact hs
    | deliver _ _ _ _ _ =>
        left
        rw [msgsendProc]
        repeat' split
        all_goals exact hs
    | receive _ _ _ =>
        left
        rw [msgrecvProc]
        split <;> exact hs
    | sigalarm _ =>
        left
        simp only [sigalarm]
        repeat' split
        all_goals exact hs
    | sigreturn _ =>
        left
        rw [sigreturn]
        split <;> exact hs
    | signaltick _ _ =>
        left
        rw [signaltick]
        repeat' split
        all_goals exact hs
    | _ => exact .inl hs
  exact hkept.resolve_right fun hfreed => ht hfreed.2

/-! ## Out of `kjoin` -/

/-- A killed process leaves `kjoin` when no thread has exited for it. -/
theorem kjoin_killed (hkilled : (s.proc i).killed = true) (hnot : ¬ s.Ready i (.join tid)) :
    kjoin s i tid = s.retInt i (-1) := by
  rw [kjoin, waitSection]
  split
  · rename_i j hj
    have hfound := List.find?_some hj
    simp only [Bool.and_eq_true, decide_eq_true_eq] at hfound
    obtain ⟨⟨⟨hparent, htid⟩, hthread⟩, hzombie⟩ := hfound
    exact absurd ⟨j, hparent, ⟨htid, hthread⟩, hzombie⟩ hnot
  · rw [if_pos (by simp [hkilled])]

/-- `join` looks at `killed` in every round. -/
theorem step_join_killed (hat : s.At e i (.call (.join tid))) (hkilled : (s.proc i).killed = true)
    (hnot : ¬ s.Ready i (.join tid)) (h : step e s = some t) : t = s.retInt i (-1) := by
  obtain ⟨o, -, ho⟩ := step_call hat h
  rw [← kjoin_killed hkilled hnot]
  exact (Option.some.inj ho).symm

/-- One section on the way from `kjoin` to the exit. -/
theorem doomed_kpc (hs : s.Doomed i (.join tid)) (hused : (s.proc i).state ≠ .unused)
    (hnot : ¬ s.Ready i (.join tid)) (h : step e s = some t) :
    (t.kpc i = .asleep (.join tid) ∧ (t.proc i).state ≠ .sleeping) ∨ t.kpc i = .call (.join tid) ∨
      t.kpc i = .trapExit false ∨
        ∃ status, t.kpc i = .call (.exit status) ∨ t.kpc i = .asleep (.exit status) := by
  by_cases hself : ∃ pc, s.At e i pc
  · obtain ⟨pc, hat⟩ := hself
    obtain ⟨o, -, ho⟩ := hat.step h
    have hkilled := hs.killed
    rcases hs.kpc with ⟨hpc, -⟩ | hpc | hpc | ⟨status, hpc | hpc⟩
    · simp only [runSection, hpc, Option.some.injEq] at ho
      exact .inr (.inl (by simp [← ho]))
    · have hjoin : s.At e i (.call (.join tid)) := ⟨hat.1, hat.running, hpc⟩
      rw [step_join_killed hjoin hkilled hnot h]
      exact .inr (.inr (.inl (retInt_kpc_self ..)))
    · simp only [runSection, hpc, hkilled, if_true, Option.some.injEq] at ho
      exact .inr (.inr (.inr ⟨-1, .inl (by simp [← ho])⟩))
    · simp only [runSection, hpc, callSection, Option.ite_none_left_eq_some] at ho
      obtain ⟨-, ho⟩ := ho
      split at ho
      · obtain rfl := Option.some.inj ho
        exact .inr (.inr (.inr ⟨status, .inr (by simp [KState.sleep])⟩))
      -- `kexit` does not return
      · obtain rfl := Option.some.inj ho
        exact .inr (.inr (.inr ⟨status, .inl (by rw [kexit_kpc, hpc])⟩))
    · simp only [runSection, hpc, Option.some.injEq] at ho
      exact .inr (.inr (.inr ⟨status, .inl (by simp [← ho])⟩))
  · simp only [not_exists] at hself
    have htrap : ∀ regs cause, e ≠ .trap i regs cause := by
      rintro regs cause rfl
      simp only [step, Option.ite_none_right_eq_some] at h
      rcases hs.kpc with ⟨hpc, -⟩ | hpc | hpc | ⟨status, hpc | hpc⟩ <;> simp [hpc] at h
    rw [kpc_kept h hself htrap hused]
    refine hs.kpc.imp_left (And.imp_right fun hawake hsleep => ?_)
    rcases sleeping_of_step h hsleep with ⟨hold, -⟩ | ⟨call, chan, hat, -⟩
    · exact hawake hold
    · exact hself _ hat

/-- A killed process in a `join` is bound to leave it. -/
theorem doomed_of_step (hs : s.Doomed i (.join tid)) (hused : (s.proc i).state ≠ .unused)
    (hnot : ¬ s.Ready i (.join tid)) (h : step e s = some t)
    (ht : (t.proc i).state ≠ .unused) : t.Doomed i (.join tid) where
  killed := killed_of_step hs.killed hused h ht
  kpc := doomed_kpc hs hused hnot h

theorem KState.Doomed.escapes (ht : t.Doomed i (.join tid)) : t.Escapes i (.join tid) := by
  intro u hu
  have hdoomed : (u.proc i).state ≠ .unused → u.Doomed i (.join tid) := by
    refine Lib.Steps.invariant (I := fun u => (u.proc i).state ≠ .unused → u.Doomed i (.join tid))
      hu (fun _ => ht) fun hx hP hstep hused => ?_
    exact doomed_of_step (hx hP.1) hP.1 hP.2 hstep hused
  refine ⟨fun ⟨hsleep, hpc⟩ => ?_, ?_⟩
  · have h := hdoomed (by simp [hsleep])
    rcases h.kpc with ⟨-, hawake⟩ | hpc' | hpc' | ⟨status, hpc' | hpc'⟩
    · exact hawake hsleep
    all_goals simp [hpc] at hpc'
  · intro e u' hat hnot hstep
    have h := hdoomed (by simp [hat.running])
    have hret := step_join_killed hat h.killed hnot hstep
    have hused : (u'.proc i).state ≠ .unused := by simp [hret, retInt_state, hat.running]
    refine ⟨?_, killed_of_step h.killed (by simp [hat.running]) hstep hused⟩
    rw [hret]
    exact returned_retInt hat

/-! ## Back to sleep -/

/-- The loops that do not look at `killed`. -/
def Call.ForgetsKill (call : Call) (s : KState) : Prop :=
  match call with
  | .semWait semid => ∃ k, semIndex semid = some k ∧ (s.semtable k).used = true
  | .msgrecv _ => True
  | _ => False

/-- A round of such a loop ends in `sleep`, whatever `killed` is. -/
theorem forgets_sleep (hcall : call.ForgetsKill t) (hnot : ¬ t.Ready i call) {u : KState}
    (hsem : u.semtable = t.semtable) (hflag : (u.proc i).msgFlag = (t.proc i).msgFlag) :
    ¬ u.Ready i call ∧ ∃ chan, callSection u i {} call = some (u.sleep i chan call) := by
  cases call with
  | semWait semid =>
      obtain ⟨k, hk, hused⟩ := hcall
      have hvalue : (u.semtable k).value = 0 := by
        by_contra hvalue
        rw [hsem] at hvalue
        exact hnot ⟨k, hk, hvalue⟩
      rw [← hsem] at hused
      refine ⟨?_, .sem k, by simp [callSection, ksemWait, hk, hused, hvalue]⟩
      rintro ⟨k', hk', hvalue'⟩
      obtain rfl := Option.some.inj (hk.symm.trans hk')
      exact hvalue' hvalue
  | msgrecv buf =>
      have hempty : (u.proc i).msgFlag = false := by
        rw [hflag]
        exact Bool.not_eq_true _ ▸ hnot
      exact ⟨by simp [KState.Ready, hempty], .msgFlag i, by simp [callSection, msgrecv, hempty]⟩
  | _ => exact hcall.elim

/-- The process sleeps again as soon as it has run. -/
theorem not_escapes (hrun : (t.proc i).state = .runnable) (hpc : t.kpc i = .asleep call)
    (hcall : call.ForgetsKill t) (hnot : ¬ t.Ready i call) : ¬ t.Escapes i call := by
  intro hescapes
  let running := t.setProc i { t.proc i with state := .running }
  let awake := (running.setProc i { running.proc i with chan := none }).setKpc i (.call call)
  have hrunning : (running.proc i).state = .running := by simp [running]
  have hawake : (awake.proc i).state = .running := by simp [awake, running]
  have hkpc : awake.kpc i = .call call := by simp [awake]
  obtain ⟨hnot', -⟩ := forgets_sleep (u := running) hcall hnot rfl (by simp [running])
  obtain ⟨hnot'', chan, hsleep⟩ :=
    forgets_sleep (u := awake) hcall hnot rfl (by simp [awake, running])
  have hschedule : step (.schedule i) t = some running := by simp [step, hrun, running]
  have hresume : step (.run i {}) running = some awake := by
    simp [step, runSection, running, awake, hpc]
  have hround : step (.run i {}) awake = some (awake.sleep i chan call) := by
    rw [step, if_pos hawake]
    simp only [runSection, hkpc]
    exact hsleep
  have hsteps := ((Lib.Steps.refl.tail (P := fun x _ => (x.proc i).state ≠ .unused ∧
    ¬ x.Ready i call) ⟨by simp [hrun], hnot⟩ hschedule).tail ⟨by simp [hrunning], hnot'⟩
      hresume).tail ⟨by simp [hawake], hnot''⟩ hround
  apply (hescapes _ hsteps).1
  simp [KState.sleep, sleepOn]

/-! ## The calls -/

/-- The calls of the project that block. -/
def Call.Blocks : Call → Prop
  | .semWait _ | .msgrecv _ | .join _ => True
  | _ => False

/-- The caller of `kill` is another process. -/
theorem setRet_kill (hi : i ≠ i') {v : Int} :
    (s.setRet i' i (killProc (s.proc i), v)).proc i = killProc (s.proc i) ∧
      (s.setRet i' i (killProc (s.proc i), v)).kpc i = s.kpc i := by
  refine ⟨setRet_proc _ _ _ _ hi, ?_⟩
  exact Function.update_of_ne hi _ _

/-- A process killed in its sleep gets out of `kjoin`, and out of neither
    `ksem_wait` nor `msgrecv`. -/
theorem kill_escapes_iff (hs : Reachable s) (hsleep : (s.proc i).state = .sleeping)
    (hpc : s.kpc i = .asleep call) (hcall : call.Blocks) (h : step e s = some t)
    (hkill : returned s e t = some (i', .scan (.kill pid) i, 0)) :
    t.Escapes i call ↔ ∃ tid, call = .join tid := by
  have hi : i ≠ i' := by
    rintro rfl
    have hrunning := (returned_eq_some h hkill).1.running
    simp [hsleep] at hrunning
  obtain ⟨-, ht⟩ := kill_hit h hkill
  obtain ⟨hproc, hkpc⟩ := setRet_kill (s := s) (v := 0) hi
  rw [← ht] at hproc hkpc
  have hrun : (t.proc i).state = .runnable := by simp [hproc, killProc, wake, hsleep]
  rw [hpc] at hkpc
  constructor
  · intro hescapes
    obtain ⟨call', hasleep⟩ := ReachableBy.asleep hs hsleep
    obtain rfl := Kpc.asleep.inj (hpc.symm.trans hasleep.kpc)
    have hsem : t.semtable = s.semtable := by rw [ht]; rfl
    -- `kjoin` tests `killed`; the loops of the other two test their condition only
    cases call with
    | join tid => exact ⟨tid, rfl⟩
    | semWait semid =>
        obtain ⟨k, hk, hused⟩ := hasleep.sem semid rfl
        refine absurd hescapes (not_escapes hrun hkpc ⟨k, hk, by rwa [hsem]⟩ ?_)
        intro hready
        obtain ⟨k', hk', hvalue⟩ := hready
        rw [hsem] at hvalue
        exact hasleep.not_ready ⟨k', hk', hvalue⟩
    | msgrecv buf =>
        refine absurd hescapes (not_escapes hrun hkpc trivial ?_)
        intro hready
        rw [KState.Ready, hproc, (killProc_sameMail _).msgFlag] at hready
        exact hasleep.not_ready hready
    | _ => exact hcall.elim
  · rintro ⟨tid, rfl⟩
    refine KState.Doomed.escapes ⟨?_, .inl ⟨hkpc, by simp [hrun]⟩⟩
    rw [hproc]
    exact killProc_killed _

end

/-- The first process makes a thread and waits for it in `kjoin`; the thread
    is about to kill the first process. -/
def killJoinEvents : List Event :=
  bootEvents ++ syscallEvents initSlot 25 0x100 0x2000 0 ++
    [.run initSlot {}, .run initSlot {}, .run initSlot {}, .run initSlot {}] ++
    returnEvents initSlot ++ syscallEvents initSlot 26 2 0 0 ++
    [.schedule childSlot] ++ syscallEvents childSlot 6 1 0 0

/-- The state after the kill. -/
def killJoinState : KState :=
  Lib.endState step [.run childSlot {}] (stateAfter killJoinEvents)

theorem kill_escapes_iff_killJoin : killJoinState.Escapes initSlot (.join 2) := by
  have hpc : (stateAfter killJoinEvents).kpc initSlot = .asleep (.join 2) := by decide +kernel
  have hkill : returned (stateAfter killJoinEvents) (.run ⟨1, by decide⟩ {}) killJoinState =
      some (⟨1, by decide⟩, .scan (.kill 1) initSlot, 0) := by decide +kernel
  exact (kill_escapes_iff (Reachable.stateAfter (by decide +kernel)) (by decide +kernel) hpc
    trivial (Lib.step_endState (by decide +kernel)) hkill).mpr ⟨2, rfl⟩

/-- A child of the first process sleeps in `ksem_wait`, and the first process
    is about to kill it. -/
def killSemEvents : List Event :=
  forkChildEvents ++ syscallEvents initSlot 29 0 0 0 ++ returnEvents initSlot ++
    syscallEvents childSlot 30 0 0 0 ++ syscallEvents initSlot 6 2 0 0 ++ [.run initSlot {}]

/-- The state after the kill. -/
def killSemState : KState := Lib.endState step [.run initSlot {}] (stateAfter killSemEvents)

/-- The killed child does not get out of `ksem_wait`. -/
theorem semWait_survives_kill :
    Reachable (stateAfter killSemEvents) ∧
      ((stateAfter killSemEvents).proc ⟨1, by decide⟩).state = .sleeping ∧
      (stateAfter killSemEvents).kpc ⟨1, by decide⟩ = .asleep (.semWait 0) ∧
      step (.run initSlot {}) (stateAfter killSemEvents) = some killSemState ∧
      returned (stateAfter killSemEvents) (.run initSlot {}) killSemState =
        some (initSlot, .scan (.kill 2) 1, 0) ∧
      ¬ killSemState.Escapes ⟨1, by decide⟩ (.semWait 0) := by
  refine ⟨Reachable.stateAfter (by decide +kernel), by decide +kernel, by decide +kernel,
    Lib.step_endState (by decide +kernel), by decide +kernel, ?_⟩
  apply not_escapes
  · decide +kernel
  · decide +kernel
  · exact ⟨⟨0, by decide⟩, by decide, by decide +kernel⟩
  · rintro ⟨k, hk, hvalue⟩
    have hzero : semIndex 0 = some ⟨0, by decide⟩ := by decide
    obtain rfl := Option.some.inj (hzero.symm.trans hk)
    exact hvalue (by decide +kernel)

end G20OsLab.Kernel
