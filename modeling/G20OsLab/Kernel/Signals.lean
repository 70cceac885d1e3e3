/-
  G20OsLab.Kernel.Signals

  The signal state machine of a process.

  Eight fields of a slot belong to it.  `SignalInv` is the invariant they keep
  together, under the system calls of the process itself, `sigsend` of others
  and the timer; what a delivery, a return and a pending signal can rely on
  follows from it.
-/

import G20OsLab.Kernel.Handlers
import G20OsLab.Kernel.Observe

namespace G20OsLab.Kernel

/-! ## The invariant -/

/-- The invariant of the signal fields of a slot. -/
structure Proc.SignalInv (p : Proc) : Prop where
  active : p.signalInflight = true ↔ 0 < p.activeSignal
  saved : p.signalInflight = false → p.signalTf = .zero
  pending : p.pendingSignal ≠ 0 → p.signalRegistered = true ∧ 0 < p.pendingSignal
  alarm : 0 < p.alarmInterval →
    p.signalRegistered = true ∧ 0 ≤ p.alarmElapsed ∧ p.alarmElapsed < p.alarmInterval
  free : p.state = .unused → p.pendingSignal = 0

/-- What leaves the signal fields alone keeps the invariant. -/
theorem Proc.SameSignals.signalInv {p q : Proc} (h : p.SameSignals q) (hp : p.SignalInv)
    (hstate : q.state = .unused → p.state = .unused) : q.SignalInv where
  active := by
    rw [h.signalInflight, h.activeSignal]
    exact hp.active
  saved := by
    rw [h.signalInflight, h.signalTf]
    exact hp.saved
  pending := by
    rw [h.pendingSignal, h.signalRegistered]
    exact hp.pending
  alarm := by
    rw [h.alarmInterval, h.signalRegistered, h.alarmElapsed]
    exact hp.alarm
  free hq := by
    rw [h.pendingSignal]
    exact hp.free (hstate hq)

/-- The registers are no part of it. -/
theorem Proc.SignalInv.withRegs {p : Proc} (hp : p.SignalInv) (regs : Trapframe) :
    Proc.SignalInv { p with trapframe := regs } :=
  ⟨hp.active, hp.saved, hp.pending, hp.alarm, hp.free⟩

section

variable {p q : Proc}

theorem unused_of_wake (h : (wake p).state = .unused) : p.state = .unused := by
  rcases wake_cases p with hsame | hwoken
  · rwa [hsame] at h
  · rw [hwoken] at h
    cases h

theorem freeproc_signalInv : (freeproc p).SignalInv :=
  ⟨by simp [freeproc], fun _ => rfl, fun h => absurd rfl h, fun h => absurd h (by simp [freeproc]),
    fun _ => rfl⟩

theorem forkChild_signalInv {priority : Int} (hp : p.SignalInv) :
    (forkChild p q priority).SignalInv where
  active := by simp [forkChild]
  saved _ := rfl
  pending h := absurd rfl h
  alarm h := ⟨(hp.alarm h).1, Int.le_refl 0, h⟩
  free _ := rfl

theorem cloneChild_signalInv {fn stack arg : UInt64} (hp : p.SignalInv) :
    (cloneChild p q fn stack arg).SignalInv where
  active := by simp [cloneChild]
  saved _ := rfl
  pending h := absurd rfl h
  alarm h := ⟨(hp.alarm h).1, Int.le_refl 0, h⟩
  free _ := rfl

theorem sigalarm_signalInv {ticks : Int} {handler : UInt64} (hp : p.SignalInv) :
    (sigalarm p ticks handler).1.SignalInv := by
  simp only [sigalarm]
  split
  · exact hp
  · split
    · exact hp
    · split
      -- registered: the interval starts anew
      · rename_i hreg
        exact ⟨hp.active, hp.saved, fun hq => ⟨hreg, (hp.pending hq).2⟩,
          fun hq => ⟨hreg, Int.le_refl 0, hq⟩, hp.free⟩
      -- unregistered: nothing stays pending or armed
      · rename_i hreg
        simp only [Bool.not_eq_true, Bool.not_eq_false', Bool.and_eq_true,
          decide_eq_true_eq] at hreg
        have hoff : ∀ {P : Prop}, 0 < ticks → P := fun hq => by omega
        split
        · exact ⟨hp.active, hp.saved, fun hq => absurd rfl hq, hoff, fun _ => rfl⟩
        · rename_i hinflight
          exact ⟨by simp [hinflight], fun _ => rfl, fun hq => absurd rfl hq, hoff, fun _ => rfl⟩

theorem sigreturn_signalInv (hp : p.SignalInv) : (sigreturn p).1.SignalInv := by
  rw [sigreturn]
  split
  · exact ⟨by simp, fun _ => rfl, hp.pending, hp.alarm, hp.free⟩
  · exact hp

theorem sigsendProc_signalInv {signum : Int} (hp : p.SignalInv) (hsignum : 0 < signum)
    (hused : p.state ≠ .unused) : (sigsendProc p signum).1.SignalInv := by
  rw [sigsendProc]
  split
  · exact hp
  · rename_i hreg
    rw [not_or] at hreg
    have hset : Proc.SignalInv { p with pendingSignal := signum } :=
      ⟨hp.active, hp.saved, fun _ => ⟨by simpa using hreg.1, hsignum⟩, hp.alarm,
        fun h => absurd h hused⟩
    exact (wake_sameSignals _).signalInv hset unused_of_wake

theorem signaltick_signalInv (hp : p.SignalInv) (hrun : p.state = .running) :
    (signaltick p).SignalInv := by
  have hused : ∀ {P : Prop}, p.state = .unused → P := fun h => by simp [hrun] at h
  rw [signaltick]
  split
  · rename_i hticks
    obtain ⟨hinterval, hreg, -⟩ := hticks
    split
    -- the interval is over
    · refine ⟨hp.active, hp.saved, fun _ => ⟨hreg, ?_⟩, fun _ => ⟨hreg, Int.le_refl 0, hinterval⟩,
        hused⟩
      show 0 < if p.pendingSignal = 0 then sigalrm else p.pendingSignal
      split
      · decide
      · rename_i hpending
        exact (hp.pending hpending).2
    · rename_i hover
      have helapsed := (hp.alarm hinterval).2.1
      have hnext : 0 ≤ p.alarmElapsed + 1 ∧ p.alarmElapsed + 1 < p.alarmInterval := by omega
      exact ⟨hp.active, hp.saved, hp.pending, fun _ => ⟨hreg, hnext⟩, hp.free⟩
  · exact hp

theorem setupsignal_signalInv {signum : Int} (hp : p.SignalInv)
    (h : setupsignal p signum = some q) : q.SignalInv := by
  simp only [setupsignal, Option.ite_none_left_eq_some, Option.some.injEq] at h
  obtain ⟨hfail, rfl⟩ := h
  refine ⟨?_, fun hq => absurd hq.symm Bool.false_ne_true, fun hq => absurd rfl hq, hp.alarm,
    fun _ => rfl⟩
  show true = true ↔ 0 < signum
  exact iff_of_true rfl (by omega)

/-- A deliverable signal passes the tests of `setupsignal`. -/
theorem setupsignal_of_deliverable (hp : p.SignalInv) (hdeliver : deliverable p = true) :
    (setupsignal p p.pendingSignal).isSome = true := by
  simp only [deliverable, Bool.and_eq_true, decide_eq_true_eq, Bool.not_eq_true'] at hdeliver
  have hpositive := (hp.pending hdeliver.1.1).2
  simp [setupsignal, hdeliver.1.2, hdeliver.2, hpositive]

theorem signalcheck_signalInv (hp : p.SignalInv) : (signalcheck p).SignalInv := by
  rw [signalcheck]
  split
  · split
    · rename_i hsetup
      exact setupsignal_signalInv hp hsetup
    · exact ⟨hp.active, hp.saved, hp.pending, hp.alarm, hp.free⟩
  · exact hp

end

/-! ## Steps -/

/-- The arguments of a scan in progress have been checked. -/
def KState.ScansChecked (s : KState) : Prop :=
  ∀ i scan k, s.kpc i = .scan scan k → scan.Checked

section

variable {s t : KState} {e : Event} {i j : Fin nproc}

/-- The arguments of a scan stay checked. -/
theorem scansChecked_of_step (hs : s.ScansChecked) (h : step e s = some t) : t.ScansChecked := by
  intro i scan k hpc
  have hcontrol := (step_effect h).kpc i
  generalize t.kpc i = pc at hcontrol hpc
  cases hcontrol with
  | stay => exact hs i scan k hpc
  | scan hat hchecked =>
      cases hpc
      exact hchecked
  | next hat =>
      cases hpc
      exact hs i _ _ hat.2.2
  | _ => cases hpc

/-- Every step keeps the signal invariant of every slot. -/
theorem signalInv_of_step (hchecked : s.ScansChecked) (hs : ∀ j, (s.proc j).SignalInv)
    (h : step e s = some t) (j : Fin nproc) : (t.proc j).SignalInv := by
  refine step_slot (I := Proc.SignalInv) h (hs j) ?_
  intro p q hp hm
  cases hm with
  -- a new process takes over the handler of its creator
  | fork _ _ => exact forkChild_signalInv (hs _)
  | clone _ _ => exact cloneChild_signalInv (hs _)
  | abort _ _ _ _ => exact freeproc_signalInv
  | free _ _ _ _ => exact freeproc_signalInv
  -- the signal functions
  | sigalarm _ => exact sigalarm_signalInv hp
  | sigreturn _ => exact sigreturn_signalInv hp
  | sigsend hat _ hused => exact sigsendProc_signalInv hp (hchecked _ _ _ hat.2.2) hused
  | signaltick _ hrun => exact signaltick_signalInv (hp.withRegs _) hrun
  | signalcheck _ => exact signalcheck_signalInv hp
  -- all others leave the signal fields alone
  | wakeup chan =>
      apply (wakeupProc_sameSignals p chan).signalInv hp
      intro hq
      rcases wakeupProc_cases chan p with hsame | hwoken
      · rwa [hsame] at hq
      · simp [hwoken] at hq
  | updateTime => exact (updateTime_sameSignals _).signalInv hp (by simp)
  | kill _ _ =>
      apply (killProc_sameSignals _).signalInv hp
      intro hq
      have hold : ({ s.proc j with killed := true } : Proc).state = .unused := unused_of_wake hq
      exact hold
  | reparent _ => exact (reparentProc_sameSignals _ _ _).signalInv hp (by simp)
  | deliver _ _ _ _ _ => exact (msgsendProc_sameSignals _ _ _).signalInv hp (by simp)
  | receive _ _ _ => exact (msgrecvProc_sameSignals _ _).signalInv hp (by simp)
  | schedule _ => exact ⟨hp.active, hp.saved, hp.pending, hp.alarm, nofun⟩
  | yield _ => exact ⟨hp.active, hp.saved, hp.pending, hp.alarm, nofun⟩
  | ready _ => exact ⟨hp.active, hp.saved, hp.pending, hp.alarm, nofun⟩
  | sleep _ _ => exact ⟨hp.active, hp.saved, hp.pending, hp.alarm, nofun⟩
  | exit _ _ => exact ⟨hp.active, hp.saved, hp.pending, hp.alarm, nofun⟩
  | _ => exact ⟨hp.active, hp.saved, hp.pending, hp.alarm, hp.free⟩

theorem bootState_scansChecked : bootState.ScansChecked := by
  intro i scan k hpc
  simp only [bootState, Function.update_apply] at hpc
  split at hpc <;> cases hpc

theorem bootState_signalInv (j : Fin nproc) : (bootState.proc j).SignalInv := by
  have hbss : ∀ state, ({ procinit .bss with state := state } : Proc).SignalInv := fun _ =>
    ⟨by simp [procinit], fun _ => rfl, fun h => absurd rfl h,
      fun h => absurd h (by simp [procinit]), fun _ => rfl⟩
  by_cases hinit : j = initSlot
  · subst hinit
    have hfirst := hbss .runnable
    exact ⟨hfirst.active, hfirst.saved, hfirst.pending, hfirst.alarm, nofun⟩
  · simp only [bootState, Function.update_of_ne hinit]
    exact hbss .unused

/-- The invariant holds in every reachable state. -/
theorem ReachableBy.signalInv {P : KState → Event → Prop} (h : ReachableBy P s) :
    ∀ j, (s.proc j).SignalInv := by
  have hinv : s.ScansChecked ∧ ∀ j, (s.proc j).SignalInv :=
    h.invariant (I := fun s => s.ScansChecked ∧ ∀ j, (s.proc j).SignalInv)
      ⟨bootState_scansChecked, bootState_signalInv⟩ fun ht _ hstep =>
        ⟨scansChecked_of_step ht.1 hstep, signalInv_of_step ht.1 ht.2 hstep⟩
  exact hinv.2

/-! ## The saved context -/

/-- A saved context survives `sigalarm`. -/
theorem sigalarm_saved {p : Proc} {ticks : Int} {handler : UInt64}
    (hp : p.signalInflight = true) : (sigalarm p ticks handler).1.signalTf = p.signalTf := by
  simp only [sigalarm, hp, if_true]
  repeat' split
  all_goals rfl

/-- While a handler is in flight its saved context is not overwritten. -/
theorem saved_of_step (h : step e s = some t) (hs : (s.proc j).signalInflight = true)
    (ht : (t.proc j).signalInflight = true) : (t.proc j).signalTf = (s.proc j).signalTf := by
  refine step_slot (I := fun p => p.signalInflight = true → p.signalTf = (s.proc j).signalTf) h
    (fun _ => rfl) (fun p q hp hm hq => ?_) ht
  cases hm with
  | fork _ _ => simp [forkChild] at hq
  | clone _ _ => simp [cloneChild] at hq
  | abort _ _ _ _ => simp [freeproc] at hq
  | free _ _ _ _ => simp [freeproc] at hq
  | sigreturn _ => simp [sigreturn, hs] at hq
  -- no delivery while the handler runs
  | signalcheck _ => simp [signalcheck, deliverable, hs]
  | signaltick _ _ => simp [signaltick, hs]
  | sigalarm _ => exact sigalarm_saved hs
  | sigsend _ _ _ =>
      simp only [sigsendProc]
      split
      · rfl
      · exact (wake_sameSignals _).signalTf
  | wakeup chan =>
      have hsame := wakeupProc_sameSignals p chan
      rw [hsame.signalTf]
      exact hp (hsame.signalInflight.symm.trans hq)
  | updateTime => exact (updateTime_sameSignals _).signalTf
  | kill _ _ => exact (killProc_sameSignals _).signalTf
  | reparent _ => exact (reparentProc_sameSignals _ _ _).signalTf
  | deliver _ _ _ _ _ => exact (msgsendProc_sameSignals _ _ _).signalTf
  | receive _ _ _ => exact (msgrecvProc_sameSignals _ _).signalTf
  | _ => exact hp hq

/-! ## The pending signal -/

/-- `sigalarm` keeps a pending signal, or disarms and drops it. -/
theorem sigalarm_pending (p : Proc) (ticks : Int) (handler : UInt64) :
    (sigalarm p ticks handler).1.pendingSignal = p.pendingSignal ∨
      (ticks = 0 ∧ handler = 0) ∧ (sigalarm p ticks handler).1.pendingSignal = 0 := by
  simp only [sigalarm]
  split
  · exact .inl rfl
  · split
    · exact .inl rfl
    · split
      · exact .inl rfl
      · rename_i hreg
        simp only [Bool.not_eq_true, Bool.not_eq_false', Bool.and_eq_true,
          decide_eq_true_eq] at hreg
        split
        · exact .inr ⟨hreg, rfl⟩
        · exact .inr ⟨hreg, rfl⟩

/-- A second signal does not replace the first. -/
theorem sigsendProc_pending {p : Proc} (signum : Int) (hp : p.pendingSignal ≠ 0) :
    (sigsendProc p signum).1.pendingSignal = p.pendingSignal := by
  rw [sigsendProc, if_pos (.inr hp)]

/-- The tick of the timer neither. -/
theorem signaltick_pending {p : Proc} (hp : p.pendingSignal ≠ 0) :
    (signaltick p).pendingSignal = p.pendingSignal := by
  simp only [signaltick, if_neg hp]
  repeat' split
  all_goals rfl

/-- A pending signal stays until the process checks for it, unregisters its
    handler, or is freed. -/
theorem pending_of_step (hfree : (s.proc j).state ≠ .unused) (hs : (s.proc j).pendingSignal ≠ 0)
    (h : step e s = some t) :
    (t.proc j).pendingSignal = (s.proc j).pendingSignal ∨ s.At e j .signal ∨
      s.At e j (.call (.sigalarm 0 0)) ∧ (t.proc j).pendingSignal = 0 ∨
      (s.proc j).state = .zombie ∧ (t.proc j).state = .unused := by
  refine step_slot (I := fun p => p.pendingSignal = (s.proc j).pendingSignal ∨
    s.At e j .signal ∨ s.At e j (.call (.sigalarm 0 0)) ∧ p.pendingSignal = 0 ∨
    (s.proc j).state = .zombie ∧ p.state = .unused) h (.inl rfl) fun p q hp hm => ?_
  cases hm with
  | fork _ hunused => exact absurd hunused hfree
  | clone _ hunused => exact absurd hunused hfree
  | abort _ _ _ hunused => exact absurd hunused hfree
  | free _ _ _ hzombie => exact .inr (.inr (.inr ⟨hzombie, rfl⟩))
  | signalcheck hat => exact .inr (.inl hat)
  | @sigalarm ticks handler hat =>
      rcases sigalarm_pending (s.proc j) ticks handler with hsame | ⟨⟨rfl, rfl⟩, hzero⟩
      · exact .inl hsame
      · exact .inr (.inr (.inl ⟨hat, hzero⟩))
  | sigreturn _ =>
      rw [sigreturn]
      split <;> exact .inl rfl
  -- neither replaces a signal that is pending
  | sigsend _ _ _ => exact .inl (sigsendProc_pending _ hs)
  | signaltick _ _ => exact .inl (signaltick_pending hs)
  | wakeup chan =>
      rw [(wakeupProc_sameSignals p chan).pendingSignal]
      refine hp.imp_right (Or.imp_right (Or.imp_right (And.imp_right fun hunused => ?_)))
      simp [wakeupProc, wake, hunused]
  | updateTime => exact .inl (updateTime_sameSignals _).pendingSignal
  | kill _ _ => exact .inl (killProc_sameSignals _).pendingSignal
  | reparent _ => exact .inl (reparentProc_sameSignals _ _ _).pendingSignal
  | deliver _ _ _ _ _ => exact .inl (msgsendProc_sameSignals _ _ _).pendingSignal
  | receive _ _ _ => exact .inl (msgrecvProc_sameSignals _ _).pendingSignal
  | exit hat _ =>
      refine hp.imp_right (Or.imp_right (Or.imp_right fun hfreed => ?_))
      simp [hat.running] at hfreed
  | regs _ _ => exact hp
  | _ => exact .inl rfl

/-! ## Delivery -/

/-- On the way out of a trap a process runs `signalcheck`. -/
theorem step_signalcheck (hat : s.At e j .signal) (h : step e s = some t) :
    t.proc j = signalcheck (s.proc j) := by
  obtain ⟨o, -, ho⟩ := hat.step h
  simp only [runSection, hat.2.2, Option.some.injEq] at ho
  subst ho
  simp [KState.setKpc, KState.setProc]

/-- `signalcheck` delivers what is deliverable, and then `setupsignal` does
    not fail. -/
theorem signalcheck_cases {p : Proc} (hp : p.SignalInv) :
    signalcheck p = p ∨ setupsignal p p.pendingSignal = some (signalcheck p) := by
  rw [signalcheck]
  split
  · rename_i hdeliver
    obtain ⟨q, hq⟩ := Option.isSome_iff_exists.mp (setupsignal_of_deliverable hp hdeliver)
    exact .inr (by rw [hq])
  · exact .inl rfl

/-- Setting up a handler kills nobody. -/
theorem setupsignal_killed {p q : Proc} {signum : Int} (h : setupsignal p signum = some q) :
    q.killed = p.killed := by
  simp only [setupsignal, Option.ite_none_left_eq_some, Option.some.injEq] at h
  obtain ⟨-, rfl⟩ := h
  rfl

/-- A signal that is accepted is pending. -/
theorem sigsendProc_success {p : Proc} {signum : Int} (h : (sigsendProc p signum).2 = 0) :
    (sigsendProc p signum).1.pendingSignal = signum := by
  rw [sigsendProc] at h ⊢
  split at h
  · cases h
  · rename_i hreg
    rw [if_neg hreg]
    exact (wake_sameSignals _).pendingSignal

/-- A `sigsend` that returns 0 has queued its signal. -/
theorem sent_of_step {pid signum : Int} (h : step e s = some t)
    (hret : returned s e t = some (i, .scan (.sigsend pid signum) j, 0)) :
    (t.proc j).pendingSignal = signum := by
  obtain ⟨hat, hkpc, ha0⟩ := returned_eq_some h hret
  obtain ⟨o, -, rfl⟩ := step_scan hat h
  rw [scanSection_eq, scanAt] at hkpc ha0 ⊢
  by_cases hfound : (s.proc j).pid = pid ∧ (s.proc j).state ≠ .unused
  · rw [if_pos hfound, Option.getD_some, KState.setRet] at ha0 ⊢
    have hvalue : u64OfInt (sigsendProc (s.proc j) signum).2 = 0 := (retInt_a0 ..).symm.trans ha0
    have hzero : (sigsendProc (s.proc j) signum).2 = 0 := by
      rw [sigsendProc] at hvalue ⊢
      split
      · rename_i hreg
        rw [if_pos hreg] at hvalue
        exact absurd hvalue (by show u64OfInt (-1) ≠ 0; decide)
      · rfl
    obtain ⟨tf, htf⟩ := exists_retInt_proc (s.setProc j (sigsendProc (s.proc j) signum).1) i j
      (sigsendProc (s.proc j) signum).2
    rw [htf, setProc_proc, Function.update_self]
    exact sigsendProc_success hzero
  · rw [if_neg hfound] at hkpc
    simp at hkpc

end

/-! ## Runs -/

/-- What becomes of the signal `n` that a step takes off a slot. -/
inductive KState.TakesSignal (s : KState) (e : Event) (t : KState) (j : Fin nproc) (n : Int) : Prop
  /-- the process is redirected to its handler with number `n` -/
  | delivered (hat : s.At e j .signal) (hactive : (t.proc j).activeSignal = n)
      (ha0 : (t.proc j).trapframe.a0 = u64OfInt n)
      (hepc : (t.proc j).trapframe.epc = (s.proc j).signalHandler)
  /-- `sigalarm(0, 0)` -/
  | unregistered (hat : s.At e j (.call (.sigalarm 0 0))) (hpending : (t.proc j).pendingSignal = 0)
  /-- the slot is freed -/
  | freed (hzombie : (s.proc j).state = .zombie) (hunused : (t.proc j).state = .unused)

/-- What a step can rely on for the signals of slot `j`. -/
structure KState.SignalStep (s : KState) (e : Event) (t : KState) (j : Fin nproc) : Prop where
  /-- handlers do not nest -/
  saved : (s.proc j).signalInflight = true → (t.proc j).signalInflight = true →
    (t.proc j).signalTf = (s.proc j).signalTf
  /-- `signalcheck` never kills -/
  killed : s.At e j .signal → (t.proc j).killed = (s.proc j).killed
  sent : ∀ {i pid n}, returned s e t = some (i, .scan (.sigsend pid n) j, 0) →
    (t.proc j).pendingSignal = n
  taken : (s.proc j).pendingSignal ≠ 0 → (t.proc j).pendingSignal ≠ (s.proc j).pendingSignal →
    s.TakesSignal e t j (s.proc j).pendingSignal

/-- Every step moves a slot as the signal protocol allows. -/
theorem step_signalStep {s t : KState} {e : Event} {j : Fin nproc} (hs : (s.proc j).SignalInv)
    (h : step e s = some t) : s.SignalStep e t j where
  saved hin hin' := saved_of_step h hin hin'
  killed hat := by
    rw [step_signalcheck hat h]
    rcases signalcheck_cases hs with hsame | hsetup
    · rw [hsame]
    · exact setupsignal_killed hsetup
  sent hret := sent_of_step h hret
  taken hpending hchange := by
    have hfree : (s.proc j).state ≠ .unused := fun hunused => hpending (hs.free hunused)
    rcases pending_of_step hfree hpending h with hsame | hat | hsigalarm | hfreed
    · exact absurd hsame hchange
    · have hcheck := step_signalcheck hat h
      rcases signalcheck_cases hs with hsame | hsetup
      · rw [hcheck, hsame] at hchange
        exact absurd rfl hchange
      · rw [← hcheck] at hsetup
        simp only [setupsignal, Option.ite_none_left_eq_some, Option.some.injEq] at hsetup
        obtain ⟨-, hproc⟩ := hsetup
        exact .delivered hat (by rw [← hproc]) (by rw [← hproc]) (by rw [← hproc])
    · exact .unregistered hsigalarm.1 hsigalarm.2
    · exact .freed hfreed.1 hfreed.2

/-- In every run and for every process the signal fields keep their
    invariant, `setupsignal` does not fail where `signalcheck` calls it, and
    every step keeps saved contexts and pending signals as described. -/
theorem signal_state_machine {s : KState} (hs : Reachable s) (j : Fin nproc) :
    (s.proc j).SignalInv ∧
      (deliverable (s.proc j) = true →
        (setupsignal (s.proc j) (s.proc j).pendingSignal).isSome = true) ∧
      ∀ e t, step e s = some t → s.SignalStep e t j :=
  ⟨hs.signalInv j, setupsignal_of_deliverable (hs.signalInv j),
    fun _ _ h => step_signalStep (hs.signalInv j) h⟩

/-- The signal the first process has sent itself. -/
theorem signal_state_machine_sendSelf :
    (stateAfter (registerEvents ++ sendSelfEvents)).At (.run initSlot {}) initSlot .signal ∧
      (setupsignal ((stateAfter (registerEvents ++ sendSelfEvents)).proc initSlot)
        ((stateAfter (registerEvents ++ sendSelfEvents)).proc initSlot).pendingSignal).isSome =
          true :=
  ⟨⟨⟨{}, rfl⟩, by decide +kernel, by decide +kernel⟩,
    (signal_state_machine (Reachable.stateAfter (by decide +kernel)) initSlot).2.1
      (by decide +kernel)⟩

end G20OsLab.Kernel
