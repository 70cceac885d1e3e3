/-
  G20OsLab.Kernel.Handlers

  Signal handlers and program images.

  The ghosts of a slot say which image registered its handler and which one
  was interrupted by the handler in flight.  Every function that sets the
  signal state keeps them in step with the image, except `kexec`: it replaces
  the program and leaves the signal state of the old one.
-/

import G20OsLab.Kernel.Frame
import G20OsLab.Kernel.Pending

namespace G20OsLab.Kernel

/-! ## Signal state and image -/

/-- No signal is pending, armed or in flight. -/
structure Proc.NoSignal (p : Proc) : Prop where
  pending : p.pendingSignal = 0
  registered : p.signalRegistered = false
  interval : p.alarmInterval = 0
  inflight : p.signalInflight = false

/-- The handler was registered, and the context saved, by the current image;
    without a handler no signal is pending or armed. -/
structure Proc.SignalsCurrent (p : Proc) : Prop where
  handler : p.signalRegistered = true → p.handlerImage = p.image
  saved : p.signalInflight = true → p.savedImage = p.image
  quiet : p.signalRegistered = false → p.pendingSignal = 0 ∧ p.alarmInterval = 0

/-- A process that executes a new program has no handler registered and none
    in flight. -/
def KState.ExecsQuiet (s : KState) (e : Event) : Prop :=
  ∀ i img, s.Commits e i img →
    (s.proc i).signalRegistered = false ∧ (s.proc i).signalInflight = false

/-- Only the signal fields matter. -/
theorem Proc.SameSignals.current {p q : Proc} (h : p.SameSignals q) (hp : p.SignalsCurrent) :
    q.SignalsCurrent where
  handler hq := by
    rw [h.handlerImage, h.image]
    exact hp.handler (h.signalRegistered.symm.trans hq)
  saved hq := by
    rw [h.savedImage, h.image]
    exact hp.saved (h.signalInflight.symm.trans hq)
  quiet hq := by
    rw [h.pendingSignal, h.alarmInterval]
    exact hp.quiet (h.signalRegistered.symm.trans hq)

section

variable {p q : Proc}

theorem freeproc_current : (freeproc p).SignalsCurrent := ⟨nofun, nofun, fun _ => ⟨rfl, rfl⟩⟩

/-- A child has the handlers of its parent, and its image. -/
theorem forkChild_current {priority : Int} (hp : p.SignalsCurrent) :
    (forkChild p q priority).SignalsCurrent :=
  ⟨hp.handler, nofun, fun hq => ⟨rfl, (hp.quiet hq).2⟩⟩

theorem cloneChild_current {fn stack arg : UInt64} (hp : p.SignalsCurrent) :
    (cloneChild p q fn stack arg).SignalsCurrent :=
  ⟨hp.handler, nofun, fun hq => ⟨rfl, (hp.quiet hq).2⟩⟩

/-- A handler that is registered is one of the current image. -/
theorem sigalarm_current {ticks : Int} {handler : UInt64} (hp : p.SignalsCurrent) :
    (sigalarm p ticks handler).1.SignalsCurrent := by
  simp only [sigalarm]
  split
  · exact hp
  · split
    · exact hp
    · split
      · rename_i hreg
        exact ⟨fun _ => rfl, hp.saved, fun hq => absurd (hreg.symm.trans hq) (by simp)⟩
      · rename_i hreg
        simp only [Bool.not_eq_true, Bool.not_eq_false', Bool.and_eq_true,
          decide_eq_true_eq] at hreg
        split
        · exact ⟨fun _ => rfl, hp.saved, fun _ => ⟨rfl, hreg.1⟩⟩
        · exact ⟨fun _ => rfl, hp.saved, fun _ => ⟨rfl, hreg.1⟩⟩

/-- `sigreturn` drops the saved context. -/
theorem sigreturn_current (hp : p.SignalsCurrent) : (sigreturn p).1.SignalsCurrent := by
  simp only [sigreturn]
  split
  · exact ⟨hp.handler, fun hq => absurd hq Bool.false_ne_true, hp.quiet⟩
  · exact hp

/-- A signal that is sent is pending for a handler of the current image. -/
theorem sigsendProc_current {signum : Int} (hp : p.SignalsCurrent) :
    (sigsendProc p signum).1.SignalsCurrent := by
  simp only [sigsendProc]
  split
  · exact hp
  · rename_i hreg
    have hset : Proc.SignalsCurrent { p with pendingSignal := signum } :=
      ⟨hp.handler, hp.saved, fun hq => absurd (.inl hq) hreg⟩
    exact (wake_sameSignals _).current hset

theorem signaltick_current (hp : p.SignalsCurrent) : (signaltick p).SignalsCurrent := by
  simp only [signaltick]
  split
  · rename_i hticks
    have hreg : p.signalRegistered ≠ false := by simp [hticks.2.1]
    split
    · exact ⟨hp.handler, hp.saved, fun hq => absurd hq hreg⟩
    · exact ⟨hp.handler, hp.saved, fun hq => absurd hq hreg⟩
  · exact hp

theorem setupsignal_current {signum : Int} (hp : p.SignalsCurrent)
    (h : setupsignal p signum = some q) : q.SignalsCurrent := by
  simp only [setupsignal, Option.ite_none_left_eq_some, Option.some.injEq] at h
  obtain ⟨-, rfl⟩ := h
  exact ⟨hp.handler, fun _ => rfl, fun hq => ⟨rfl, (hp.quiet hq).2⟩⟩

theorem signalcheck_current (hp : p.SignalsCurrent) : (signalcheck p).SignalsCurrent := by
  simp only [signalcheck]
  split
  · split
    · rename_i hsetup
      exact setupsignal_current hp hsetup
    · exact ⟨hp.handler, hp.saved, hp.quiet⟩
  · exact hp

end

/-! ## Steps -/

section

variable {s t : KState} {e : Event} {i j : Fin nproc} {img : ExecImage}

/-- `exec` makes the handlers stale, unless there are none. -/
theorem exec_current (hp : (s.proc j).SignalsCurrent) (hexec : s.ExecsQuiet e)
    (hcommit : s.Commits e j img) :
    (execCommit (s.proc j) img s.nextImage).1.SignalsCurrent := by
  obtain ⟨hreg, hinflight⟩ := hexec j img hcommit
  refine ⟨?_, ?_, hp.quiet⟩
  · intro hq
    exact absurd (hreg.symm.trans hq) (by simp)
  · intro hq
    exact absurd (hinflight.symm.trans hq) (by simp)

/-- Every step keeps the handlers current, if no `exec` meets one. -/
theorem current_of_step (hexec : s.ExecsQuiet e) (hs : ∀ j, (s.proc j).SignalsCurrent)
    (h : step e s = some t) (j : Fin nproc) : (t.proc j).SignalsCurrent := by
  refine step_slot (I := Proc.SignalsCurrent) h (hs j) ?_
  intro p q hp hm
  cases hm with
  -- a new process takes over program and handler of its creator
  | fork _ _ => exact forkChild_current (hs _)
  | clone _ _ => exact cloneChild_current (hs _)
  | abort _ _ _ _ => exact freeproc_current
  | free _ _ _ _ => exact freeproc_current
  -- a new program, by assumption without a handler
  | exec hcommit => exact exec_current hp hexec hcommit
  -- the signal functions
  | sigalarm _ => exact sigalarm_current hp
  | sigreturn _ => exact sigreturn_current hp
  | sigsend _ _ _ => exact sigsendProc_current hp
  | signaltick _ _ => exact signaltick_current ⟨hp.handler, hp.saved, hp.quiet⟩
  | signalcheck _ => exact signalcheck_current hp
  -- all others leave the signal state alone
  | wakeup chan => exact (wakeupProc_sameSignals p chan).current hp
  | updateTime => exact (updateTime_sameSignals _).current hp
  | kill _ _ => exact (killProc_sameSignals _).current hp
  | reparent _ => exact (reparentProc_sameSignals _ _ _).current hp
  | deliver _ _ _ _ _ => exact (msgsendProc_sameSignals _ _ _).current hp
  | receive _ _ _ => exact (msgrecvProc_sameSignals _ _).current hp
  | _ => exact ⟨hp.handler, hp.saved, hp.quiet⟩

/-- A committed `kexec` is the whole step. -/
theorem step_exec (hcommit : s.Commits e i img) (h : step e s = some t) :
    t.proc = (kexec s i img).proc ∧ t.nextImage = s.nextImage + 1 := by
  obtain ⟨o, rfl, hrun, hexec, hpc⟩ := hcommit
  simp only [step, hrun, if_true] at h
  rcases hpc with hboot | ⟨hcall, hsleep⟩
  · simp only [runSection, hboot, hexec, Option.map_some, Option.some.injEq] at h
    subst h
    exact ⟨rfl, rfl⟩
  · simp only [runSection, hcall, callSection, hsleep, hexec, Option.some.injEq] at h
    subst h
    exact ⟨rfl, rfl⟩

/-- The number of an image is below that of the next one, so no two `kexec`s
    of a run give the same number. -/
theorem image_lt_of_step (hs : ∀ j, (s.proc j).image < s.nextImage) (h : step e s = some t)
    (j : Fin nproc) : (t.proc j).image < t.nextImage := by
  have hold : ∀ j, (s.proc j).image < t.nextImage := fun j =>
    (hs j).trans_le (step_effect h).nextImage
  refine step_slot (I := fun p => p.image < t.nextImage) h (hold j) ?_
  intro p q hp hm
  cases hm with
  | fork _ _ => exact hold _
  | clone _ _ => exact hold _
  | exec hcommit =>
      show s.nextImage < t.nextImage
      rw [(step_exec hcommit h).2]
      exact Nat.lt_succ_self _
  | sigalarm _ => exact (sigalarm_image _ _ _).trans_lt hp
  | sigreturn _ => exact (sigreturn_image _).trans_lt hp
  | sigsend _ _ _ => exact (sigsendProc_image _ _).trans_lt hp
  | signaltick _ _ => exact (signaltick_image _).trans_lt hp
  | signalcheck _ => exact (signalcheck_image _).trans_lt hp
  | wakeup chan => exact (wakeupProc_sameSignals p chan).image.trans_lt hp
  | updateTime => exact (updateTime_sameSignals _).image.trans_lt hp
  | kill _ _ => exact (killProc_sameSignals _).image.trans_lt hp
  | reparent _ => exact (reparentProc_sameSignals _ _ _).image.trans_lt hp
  | deliver _ _ _ _ _ => exact (msgsendProc_sameSignals _ _ _).image.trans_lt hp
  | receive _ _ _ => exact (msgrecvProc_sameSignals _ _).image.trans_lt hp
  | _ => exact hp

/-! ## Runs -/

theorem bootState_current (j : Fin nproc) : (bootState.proc j).SignalsCurrent := by
  by_cases hinit : j = initSlot
  · subst hinit
    exact ⟨fun hq => absurd hq Bool.false_ne_true, fun hq => absurd hq Bool.false_ne_true,
      fun _ => ⟨rfl, rfl⟩⟩
  · simp only [bootState, Function.update_of_ne hinit]
    exact ⟨fun hq => absurd hq Bool.false_ne_true, fun hq => absurd hq Bool.false_ne_true,
      fun _ => ⟨rfl, rfl⟩⟩

theorem bootState_image_lt (j : Fin nproc) : (bootState.proc j).image < bootState.nextImage := by
  by_cases hinit : j = initSlot
  · subst hinit
    exact Nat.zero_lt_one
  · simp only [bootState, Function.update_of_ne hinit]
    exact Nat.zero_lt_one

/-- So does every run. -/
theorem ReachableBy.current (h : ReachableBy KState.ExecsQuiet s) :
    ∀ j, (s.proc j).SignalsCurrent :=
  h.invariant (I := fun s => ∀ j, (s.proc j).SignalsCurrent) bootState_current
    fun ht hP hstep => current_of_step hP ht hstep

/-- Images are numbered in the order of `exec`. -/
theorem ReachableBy.image_lt {P : KState → Event → Prop} (h : ReachableBy P s) :
    ∀ j, (s.proc j).image < s.nextImage :=
  h.invariant (I := fun s => ∀ j, (s.proc j).image < s.nextImage) bootState_image_lt
    fun ht _ hstep => image_lt_of_step ht hstep

/-! ## Delivery, return and exec -/

/-- A step in which the process is redirected to its handler. -/
theorem step_deliver {o : Outcome} {q : Proc} (hpc : s.kpc i = .signal)
    (hdeliver : deliverable (s.proc i) = true)
    (hsetup : setupsignal (s.proc i) (s.proc i).pendingSignal = some q)
    (h : step (.run i o) s = some t) : t.proc i = q := by
  simp only [step, Option.ite_none_right_eq_some, runSection, hpc, Option.some.injEq] at h
  obtain ⟨-, rfl⟩ := h
  simp [KState.setKpc, KState.setProc, signalcheck, hdeliver, hsetup]

/-- The section of `sigreturn` does what the function does. -/
theorem step_sigreturn {o : Outcome} (hpc : s.kpc i = .call .sigreturn)
    (h : step (.run i o) s = some t) : t = s.setRet i i (sigreturn (s.proc i)) := by
  simp only [step, Option.ite_none_right_eq_some, runSection, hpc, callSection,
    Option.some.injEq] at h
  exact h.2.symm

/-- A program image starts with the signal state of the old one. -/
theorem kexec_signals : (kexec s i img).proc i =
    { s.proc i with
      trapframe := ((kexec s i img).proc i).trapframe
      sz := img.sz
      image := s.nextImage } := by
  simp [kexec, KState.setRet, KState.retInt, KState.ret, KState.setKpc, KState.setProc, execCommit]

theorem execsQuiet_iff (hcommit : s.Commits e i img) :
    s.ExecsQuiet e ↔ (s.proc i).signalRegistered = false ∧ (s.proc i).signalInflight = false := by
  refine ⟨fun h => h i img hcommit, ?_⟩
  intro h i' img' hcommit'
  obtain ⟨o, rfl, -⟩ := hcommit
  obtain ⟨o', ho', -⟩ := hcommit'
  obtain ⟨rfl, -⟩ := Event.run.inj ho'
  exact h

theorem exec_noSignal_iff (hp : (s.proc i).SignalsCurrent) (hcommit : s.Commits e i img)
    (h : step e s = some t) : (t.proc i).NoSignal ↔ s.ExecsQuiet e := by
  rw [execsQuiet_iff hcommit, (step_exec hcommit h).1, kexec_signals]
  constructor
  · intro hno
    exact ⟨hno.registered, hno.inflight⟩
  · rintro ⟨hreg, hinflight⟩
    exact ⟨(hp.quiet hreg).1, hreg, (hp.quiet hreg).2, hinflight⟩

/-- After a `kexec` with a handler registered or in flight, that handler or
    the saved context is one of an older image. -/
theorem exec_current_iff (hp : (s.proc i).SignalsCurrent) (himage : (s.proc i).image < s.nextImage)
    (hcommit : s.Commits e i img) (h : step e s = some t) :
    (t.proc i).SignalsCurrent ↔ s.ExecsQuiet e := by
  rw [execsQuiet_iff hcommit, (step_exec hcommit h).1, kexec_signals]
  constructor
  · intro hcurrent
    refine ⟨Bool.eq_false_iff.mpr ?_, Bool.eq_false_iff.mpr ?_⟩
    · intro hreg
      have hnew := hcurrent.handler hreg
      exact himage.ne ((hp.handler hreg).symm.trans hnew)
    · intro hinflight
      have hnew := hcurrent.saved hinflight
      exact himage.ne ((hp.saved hinflight).symm.trans hnew)
  · rintro ⟨hreg, hinflight⟩
    refine ⟨?_, ?_, hp.quiet⟩
    · intro hq
      exact absurd (hreg.symm.trans hq) (by simp)
    · intro hq
      exact absurd (hinflight.symm.trans hq) (by simp)

end

/-- In the next step, a handler that a process is redirected to was registered
    by the image it runs, and a context that `sigreturn` restores was saved
    while it ran. -/
structure KState.HandlersCurrent (s : KState) : Prop where
  delivered : ∀ {i o t q}, s.kpc i = .signal → deliverable (s.proc i) = true →
    setupsignal (s.proc i) (s.proc i).pendingSignal = some q → step (.run i o) s = some t →
    t.proc i = q ∧ q.trapframe.epc = (s.proc i).signalHandler ∧
      (s.proc i).handlerImage = q.image
  restored : ∀ {i o t}, s.kpc i = .call .sigreturn → (s.proc i).signalInflight = true →
    step (.run i o) s = some t → (s.proc i).savedImage = (t.proc i).image

/-- What the claim asks for, from the invariant of each process. -/
theorem SignalsCurrent.handlersCurrent {s : KState} (hs : ∀ j, (s.proc j).SignalsCurrent) :
    s.HandlersCurrent where
  delivered {i o t q} hpc hdeliver hsetup h := by
    have hreg : (s.proc i).signalRegistered = true := by
      simp only [deliverable, Bool.and_eq_true] at hdeliver
      exact hdeliver.1.2
    refine ⟨step_deliver hpc hdeliver hsetup h, ?_, ?_⟩
    · simp only [setupsignal, Option.ite_none_left_eq_some, Option.some.injEq] at hsetup
      obtain ⟨-, rfl⟩ := hsetup
      rfl
    · rw [setupsignal_image _ hsetup]
      exact (hs i).handler hreg
  restored {i o t} hpc hinflight h := by
    have himage : (t.proc i).image = (s.proc i).image := by
      rw [step_sigreturn hpc h]
      simpa [KState.setRet, KState.retInt, KState.ret, KState.setKpc, KState.setProc] using
        sigreturn_image (s.proc i)
    rw [himage]
    exact (hs i).saved hinflight

/-- In every run in which no process with a handler registered or in flight
    executes a new program, handlers and saved contexts are those of the
    current image; a `kexec` leaves a process without signal state, and
    without one of an older image, exactly if it is not such an exec. -/
theorem handlers_current {s : KState} (hs : ReachableBy KState.ExecsQuiet s) :
    s.HandlersCurrent ∧ ∀ e i img t, s.Commits e i img → step e s = some t →
      ((t.proc i).NoSignal ↔ s.ExecsQuiet e) ∧ ((t.proc i).SignalsCurrent ↔ s.ExecsQuiet e) := by
  refine ⟨SignalsCurrent.handlersCurrent hs.current, fun e i img t hcommit h => ⟨?_, ?_⟩⟩
  · exact exec_noSignal_iff (hs.current i) hcommit h
  · exact exec_current_iff (hs.current i) (hs.image_lt i) hcommit h

/-- `ExecsQuiet` for the events of a trace. -/
def execsQuiet (s : KState) (e : Event) : Bool :=
  match e with
  | .run i o =>
      !o.exec.isSome || (!(s.proc i).signalRegistered && !(s.proc i).signalInflight)
  | _ => true

theorem execsQuiet_sound {s : KState} {e : Event} (h : execsQuiet s e = true) :
    s.ExecsQuiet e := by
  rintro i img ⟨o, rfl, -, hexec, -⟩
  simpa [execsQuiet, hexec] using h

/-- The first process registers a handler (at address 0x100, no alarm). -/
def registerEvents : List Event :=
  bootEvents ++ syscallEvents initSlot 22 0 0x100 0 ++ returnEvents initSlot

/-- It sends itself signal 7, up to `signalcheck`. -/
def sendSelfEvents : List Event :=
  syscallEvents initSlot 24 1 7 0 ++ [.run initSlot {}, .run initSlot {}]

theorem handlers_current_sendSelf :
    deliverable ((stateAfter (registerEvents ++ sendSelfEvents)).proc initSlot) = true ∧
      (stateAfter (registerEvents ++ sendSelfEvents)).kpc initSlot = .signal ∧
      (stateAfter (registerEvents ++ sendSelfEvents)).HandlersCurrent :=
  ⟨by decide +kernel, by decide +kernel, (handlers_current
    (ReachableBy.stateAfter (fun _ _ => execsQuiet_sound) (by decide +kernel))).1⟩

/-- Between the two it executes a new program. -/
def execEvents : List Event :=
  [.trap initSlot (ecallRegs 7 0 0 0) .ecall, .run initSlot {},
    .run initSlot { exec := some ⟨0, 0x80, 0x80, 1⟩ }] ++ returnEvents initSlot

def survivorEvents : List Event := registerEvents ++ execEvents ++ sendSelfEvents

/-- The new program is redirected to the handler of the old one, at an address
    beyond its own size. -/
theorem handler_survives_exec :
    ∃ s t q, Reachable s ∧ s.kpc initSlot = .signal ∧ deliverable (s.proc initSlot) = true ∧
      setupsignal (s.proc initSlot) (s.proc initSlot).pendingSignal = some q ∧
      step (.run initSlot {}) s = some t ∧ t.proc initSlot = q ∧
      q.trapframe.epc = 0x100 ∧ q.sz = 0x80 ∧ (s.proc initSlot).handlerImage ≠ q.image := by
  have hs : Reachable (stateAfter survivorEvents) := Reachable.stateAfter (by decide +kernel)
  have hpc : (stateAfter survivorEvents).kpc initSlot = .signal := by decide +kernel
  have hdeliver : deliverable ((stateAfter survivorEvents).proc initSlot) = true := by
    decide +kernel
  obtain ⟨t, ht⟩ := Option.isSome_iff_exists.mp
    (by decide +kernel : (step (.run initSlot {}) (stateAfter survivorEvents)).isSome = true)
  have hq : (setupsignal ((stateAfter survivorEvents).proc initSlot)
      ((stateAfter survivorEvents).proc initSlot).pendingSignal).any (fun q =>
        decide (q.trapframe.epc = 0x100 ∧ q.sz = 0x80 ∧
          ((stateAfter survivorEvents).proc initSlot).handlerImage ≠ q.image)) = true := by
    decide +kernel
  obtain ⟨q, hsetup, hfields⟩ := (Option.any_eq_true _ _).mp hq
  exact ⟨_, t, q, hs, hpc, hdeliver, hsetup, ht, step_deliver hpc hdeliver hsetup ht,
    of_decide_eq_true hfields⟩

end G20OsLab.Kernel
