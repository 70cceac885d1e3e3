/-
  G20OsLab.Kernel.Sigreturn

  What a handler does to the program it interrupts.

  From the delivery of a signal to the `sigreturn` of its handler the saved
  trapframe stays as it is, whatever the process and all others do.  It comes
  back through the return type of `sigreturn`, an `int`, so `a0` loses its
  upper half.
-/

import G20OsLab.Kernel.Handlers

namespace G20OsLab.Kernel

/-- A handler is in flight that interrupted registers `tf`. -/
structure Proc.Interrupted (p : Proc) (tf : Trapframe) : Prop where
  inflight : p.signalInflight = true
  saved : p.signalTf = tf
  alive : p.state ≠ .unused ∧ p.state ≠ .zombie

/-- The event is no `exec`, `exit` or `sigreturn` of process `i`. -/
structure KState.Continues (s : KState) (i : Fin nproc) (e : Event) : Prop where
  exec : ∀ {img}, ¬ s.Commits e i img
  exit : ∀ {status}, ¬ s.At e i (.call (.exit status))
  sigreturn : ¬ s.At e i (.call .sigreturn)

/-- What leaves the signal fields alone leaves the interrupted context. -/
theorem Proc.SameSignals.interrupted {p q : Proc} {tf : Trapframe} (h : p.SameSignals q)
    (hp : p.Interrupted tf) (hstate : q.state = p.state ∨ q.state = .runnable) :
    q.Interrupted tf where
  inflight := h.signalInflight.trans hp.inflight
  saved := h.signalTf.trans hp.saved
  alive := by
    rcases hstate with hsame | hrunnable
    · rw [hsame]
      exact hp.alive
    · simp [hrunnable]

section

variable {p q : Proc} {tf : Trapframe}

theorem sigalarm_interrupted {ticks : Int} {handler : UInt64} (hp : p.Interrupted tf) :
    (sigalarm p ticks handler).1.Interrupted tf := by
  simp only [sigalarm, hp.inflight, if_true]
  repeat' split
  all_goals constructor <;> simp [hp.inflight, hp.saved, hp.alive]

theorem signaltick_interrupted (hp : p.Interrupted tf) : (signaltick p).Interrupted tf := by
  rw [signaltick, if_neg (by simp [hp.inflight])]
  exact hp

theorem signalcheck_interrupted (hp : p.Interrupted tf) : (signalcheck p).Interrupted tf := by
  rw [signalcheck, if_neg (by simp [deliverable, hp.inflight])]
  exact hp

theorem sigsendProc_interrupted {signum : Int} (hp : p.Interrupted tf) :
    (sigsendProc p signum).1.Interrupted tf := by
  simp only [sigsendProc]
  split
  · exact hp
  · have hset : Proc.Interrupted { p with pendingSignal := signum } tf :=
      ⟨hp.inflight, hp.saved, hp.alive⟩
    apply (wake_sameSignals _).interrupted hset
    rcases wake_cases { p with pendingSignal := signum } with hsame | hwoken
    · exact .inl (by rw [hsame])
    · exact .inr hwoken

/-- `setupsignal` interrupts the registers it redirects. -/
theorem setupsignal_interrupted {signum : Int} (hp : p.state ≠ .unused ∧ p.state ≠ .zombie)
    (h : setupsignal p signum = some q) : q.Interrupted p.trapframe := by
  simp only [setupsignal, Option.ite_none_left_eq_some, Option.some.injEq] at h
  obtain ⟨-, rfl⟩ := h
  exact ⟨rfl, rfl, hp⟩

end

/-! ## Runs of the handler -/

section

variable {s t : KState} {e : Event} {i : Fin nproc} {tf : Trapframe}

/-- The interrupted context survives every step of the handler. -/
theorem interrupted_of_step (hcont : s.Continues i e) (hs : (s.proc i).Interrupted tf)
    (h : step e s = some t) : (t.proc i).Interrupted tf := by
  refine step_slot (I := fun p => p.Interrupted tf) h hs ?_
  intro p q hp hm
  cases hm with
  -- ruled out by the assumption on the event
  | exec hcommit => exact absurd hcommit hcont.exec
  | exit hat => exact absurd hat hcont.exit
  | sigreturn hat => exact absurd hat hcont.sigreturn
  -- the slot is taken, and the process has not exited
  | abort _ _ _ hunused => exact absurd hunused hs.alive.1
  | fork _ hunused => exact absurd hunused hs.alive.1
  | clone _ hunused => exact absurd hunused hs.alive.1
  | free _ _ _ hzombie => exact absurd hzombie hs.alive.2
  -- the signal functions respect a handler in flight
  | sigalarm _ => exact sigalarm_interrupted hp
  | sigsend _ _ _ => exact sigsendProc_interrupted hp
  | signaltick _ _ => exact signaltick_interrupted ⟨hp.inflight, hp.saved, hp.alive⟩
  | signalcheck _ => exact signalcheck_interrupted hp
  -- all others change the scheduling state at most
  | wakeup chan =>
      apply (wakeupProc_sameSignals p chan).interrupted hp
      exact (wakeupProc_cases chan p).imp_left fun hsame => by rw [hsame]
  | updateTime => exact (updateTime_sameSignals _).interrupted hp (.inl (updateTime_state _))
  | kill _ _ =>
      apply (killProc_sameSignals _).interrupted hp
      exact (wake_cases _).imp_left fun hsame => by rw [killProc, hsame]
  | reparent _ =>
      exact (reparentProc_sameSignals _ _ _).interrupted hp (.inl (reparentProc_state _ _ _))
  | deliver _ _ _ _ _ =>
      exact (msgsendProc_sameSignals _ _ _).interrupted hp (.inl (msgsendProc_state _ _ _))
  | receive _ _ _ =>
      exact (msgrecvProc_sameSignals _ _).interrupted hp (.inl (msgrecvProc_state _ _))
  | schedule _ => exact ⟨hp.inflight, hp.saved, by simp⟩
  | yield _ => exact ⟨hp.inflight, hp.saved, by simp⟩
  | ready _ => exact ⟨hp.inflight, hp.saved, by simp⟩
  | sleep _ _ => exact ⟨hp.inflight, hp.saved, by simp [sleepOn]⟩
  | _ => exact ⟨hp.inflight, hp.saved, hp.alive⟩

/-- So it does over a run of them. -/
theorem interrupted_of_steps (h : Lib.Steps step (fun s e => s.Continues i e) s t)
    (hs : (s.proc i).Interrupted tf) : (t.proc i).Interrupted tf :=
  h.invariant (I := fun s => (s.proc i).Interrupted tf) hs
    fun ht hcont hstep => interrupted_of_step hcont ht hstep

/-- `sigreturn` restores all saved registers but `a0`, which it returns as an
    `int`. -/
theorem sigreturn_trapframe {o : Outcome} (hpc : s.kpc i = .call .sigreturn)
    (hs : (s.proc i).Interrupted tf) (h : step (.run i o) s = some t) :
    (t.proc i).trapframe = { tf with a0 := u64OfInt (intOfU64 tf.a0) } := by
  rw [step_sigreturn hpc h]
  simp [KState.setRet, KState.retInt, KState.ret, KState.setKpc, KState.setProc, sigreturn,
    hs.inflight, hs.saved]

end

/-- A signal is delivered to process `i`, then anything happens that is no
    `exec`, `exit` or `sigreturn` of it, and then it calls `sigreturn`: all
    its registers are as at the moment of delivery exactly if `a0` was the
    sign extension of its lower half. -/
theorem sigreturn_restores {s₀ s₁ s₂ s₃ : KState} {i : Fin nproc} {o o' : Outcome}
    (hpc : s₀.kpc i = .signal) (hdeliver : deliverable (s₀.proc i) = true)
    (hpending : 0 < (s₀.proc i).pendingSignal) (hstep : step (.run i o) s₀ = some s₁)
    (hrun : Lib.Steps step (fun s e => s.Continues i e) s₁ s₂)
    (hpc₂ : s₂.kpc i = .call .sigreturn) (hstep₂ : step (.run i o') s₂ = some s₃) :
    (s₃.proc i).trapframe = (s₀.proc i).trapframe ↔
      (s₀.proc i).trapframe.a0.toNat < 2 ^ 31 ∨
        2 ^ 64 - 2 ^ 31 ≤ (s₀.proc i).trapframe.a0.toNat := by
  have hsetup : ∃ q, setupsignal (s₀.proc i) (s₀.proc i).pendingSignal = some q := by
    simp only [deliverable, Bool.and_eq_true, Bool.not_eq_true'] at hdeliver
    simp [setupsignal, hdeliver.1.2, hdeliver.2, hpending]
  obtain ⟨q, hq⟩ := hsetup
  have hrunning : (s₀.proc i).state = .running := by
    simp only [step, Option.ite_none_right_eq_some] at hstep
    exact hstep.1
  have hs₁ : (s₁.proc i).Interrupted (s₀.proc i).trapframe := by
    rw [step_deliver hpc hdeliver hq hstep]
    exact setupsignal_interrupted (by simp [hrunning]) hq
  have hs₂ := interrupted_of_steps hrun hs₁
  rw [sigreturn_trapframe hpc₂ hs₂ hstep₂, ← u64OfInt_intOfU64]
  -- the two trapframes agree but for `a0`
  constructor
  · intro h
    exact congrArg Trapframe.a0 h
  · intro h
    rw [h]

/-- `Continues`, as far as the events of a trace need it. -/
def continues (i : Fin nproc) (s : KState) (e : Event) : Bool :=
  match e with
  | .run i' o =>
      decide (i' ≠ i) || (!o.exec.isSome && match s.kpc i with
        | .call (.exit _) => false
        | .call .sigreturn => false
        | _ => true)
  | _ => true

/-- The check on a run is sound. -/
theorem continues_sound {i : Fin nproc} {s : KState} {e : Event} (h : continues i s e = true) :
    s.Continues i e where
  exec := by
    rintro img ⟨o, rfl, -, hexec, -⟩
    simp [continues, hexec] at h
  exit := by
    rintro status ⟨⟨o, rfl⟩, -, hpc⟩
    simp [continues, hpc] at h
  sigreturn := by
    rintro ⟨⟨o, rfl⟩, -, hpc⟩
    simp [continues, hpc] at h

/-- The first process sets an alarm of one tick with its handler at 0x100, and
    a timer interrupt comes while it has `a0` in that register. -/
def alarmEvents (a0 : UInt64) : List Event :=
  bootEvents ++ syscallEvents initSlot 22 1 0x100 0 ++ returnEvents initSlot ++
    [.trap initSlot { Trapframe.zero with a0 := a0 } .timer, .run initSlot {},
      .schedule initSlot]

/-- Delivery of the signal. -/
def delivered (a0 : UInt64) : KState :=
  Lib.endState step [.run initSlot {}] (stateAfter (alarmEvents a0))

/-- The handler calls `sigreturn`. -/
def returning (a0 : UInt64) : KState :=
  Lib.endState step [.trap initSlot (ecallRegs 23 0 0 0) .ecall, .run initSlot {}] (delivered a0)

/-- The call has completed. -/
def restored (a0 : UInt64) : KState := Lib.endState step [.run initSlot {}] (returning a0)

theorem sigreturn_restores_small :
    ((restored 5).proc initSlot).trapframe =
      ((stateAfter (alarmEvents 5)).proc initSlot).trapframe :=
  (sigreturn_restores (by decide +kernel) (by decide +kernel) (by decide +kernel)
    (Lib.step_endState (by decide +kernel) : step (.run initSlot {}) _ = some (delivered 5))
    (Lib.Steps.endState (fun _ _ => continues_sound) (by decide +kernel) :
      Lib.Steps step (fun s e => s.Continues initSlot e) (delivered 5) (returning 5))
    (by decide +kernel)
    (Lib.step_endState (by decide +kernel) : step (.run initSlot {}) _ = some (restored 5))).mpr
    (by decide +kernel)

/-- With `2 ^ 32` in `a0` the interrupted program goes on with 0 in it. -/
theorem sigreturn_truncates_a0 :
    Reachable (stateAfter (alarmEvents 0x100000000)) ∧
      ((stateAfter (alarmEvents 0x100000000)).proc initSlot).trapframe.a0 = 0x100000000 ∧
      ((stateAfter (alarmEvents 0x100000000)).kpc initSlot) = .signal ∧
      deliverable ((stateAfter (alarmEvents 0x100000000)).proc initSlot) = true ∧
      step (.run initSlot {}) (stateAfter (alarmEvents 0x100000000)) =
        some (delivered 0x100000000) ∧
      Lib.Steps step (fun s e => s.Continues initSlot e) (delivered 0x100000000)
        (returning 0x100000000) ∧
      (returning 0x100000000).kpc initSlot = .call .sigreturn ∧
      step (.run initSlot {}) (returning 0x100000000) = some (restored 0x100000000) ∧
      ((restored 0x100000000).proc initSlot).trapframe.a0 = 0 :=
  ⟨Reachable.stateAfter (by decide +kernel), by decide +kernel, by decide +kernel,
    by decide +kernel, Lib.step_endState (by decide +kernel),
    Lib.Steps.endState (fun _ _ => continues_sound) (by decide +kernel), by decide +kernel,
    Lib.step_endState (by decide +kernel), by decide +kernel⟩

end G20OsLab.Kernel
