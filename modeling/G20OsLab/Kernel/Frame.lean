/-
  G20OsLab.Kernel.Frame

  What the slot functions leave alone.

  The functions of the scheduler, the mailbox and the signals do not touch a
  process's place in the process tree; all but the signal functions leave its
  signal state as it is, and all but the mailbox functions its mailbox.
-/

import G20OsLab.Kernel.Proc

namespace G20OsLab.Kernel

/-- The place in the process tree is the same. -/
structure Proc.SameFamily (p q : Proc) : Prop where
  pid : q.pid = p.pid
  parent : q.parent = p.parent
  xstate : q.xstate = p.xstate
  isThread : q.isThread = p.isThread

/-- The signal state and the ghosts are the same. -/
structure Proc.SameSignals (p q : Proc) : Prop where
  signalHandler : q.signalHandler = p.signalHandler
  signalRegistered : q.signalRegistered = p.signalRegistered
  alarmInterval : q.alarmInterval = p.alarmInterval
  alarmElapsed : q.alarmElapsed = p.alarmElapsed
  pendingSignal : q.pendingSignal = p.pendingSignal
  activeSignal : q.activeSignal = p.activeSignal
  signalInflight : q.signalInflight = p.signalInflight
  signalTf : q.signalTf = p.signalTf
  image : q.image = p.image
  handlerImage : q.handlerImage = p.handlerImage
  savedImage : q.savedImage = p.savedImage

/-- The mailbox is the same. -/
structure Proc.SameMail (p q : Proc) : Prop where
  msgFlag : q.msgFlag = p.msgFlag
  msgBuf : q.msgBuf = p.msgBuf

/-! ## Scheduling -/

variable (p : Proc)

theorem wake_sameFamily : p.SameFamily (wake p) := by
  rw [wake]
  split <;> constructor <;> rfl

theorem wake_sameSignals : p.SameSignals (wake p) := by
  rw [wake]
  split <;> constructor <;> rfl

theorem wakeupProc_sameFamily (chan : Option Chan) : p.SameFamily (wakeupProc chan p) := by
  rw [wakeupProc]
  split
  · exact wake_sameFamily p
  · constructor <;> rfl

theorem wakeupProc_sameSignals (chan : Option Chan) : p.SameSignals (wakeupProc chan p) := by
  rw [wakeupProc]
  split
  · exact wake_sameSignals p
  · constructor <;> rfl

theorem updateTime_sameFamily : p.SameFamily (updateTime p) := by
  rw [updateTime]
  split <;> constructor <;> rfl

theorem updateTime_sameSignals : p.SameSignals (updateTime p) := by
  rw [updateTime]
  split <;> constructor <;> rfl

theorem killProc_sameFamily : p.SameFamily (killProc p) := by
  rw [killProc, wake]
  split <;> constructor <;> rfl

theorem killProc_sameSignals : p.SameSignals (killProc p) := by
  rw [killProc, wake]
  split <;> constructor <;> rfl

theorem reparentProc_sameSignals (i initproc : Fin nproc) :
    p.SameSignals (reparentProc i initproc p) := by
  rw [reparentProc]
  split <;> constructor <;> rfl

theorem wake_sameMail : p.SameMail (wake p) := by
  rw [wake]
  split <;> constructor <;> rfl

theorem wakeupProc_sameMail (chan : Option Chan) : p.SameMail (wakeupProc chan p) := by
  rw [wakeupProc]
  split
  · exact wake_sameMail p
  · constructor <;> rfl

theorem updateTime_sameMail : p.SameMail (updateTime p) := by
  rw [updateTime]
  split <;> constructor <;> rfl

theorem killProc_sameMail : p.SameMail (killProc p) := by
  rw [killProc, wake]
  split <;> constructor <;> rfl

theorem reparentProc_sameMail (i initproc : Fin nproc) :
    p.SameMail (reparentProc i initproc p) := by
  rw [reparentProc]
  split <;> constructor <;> rfl

/-! ## Mailbox -/

theorem msgsendProc_sameFamily (bytes : List UInt8) (copyOk : Bool) :
    p.SameFamily (msgsendProc p bytes copyOk).1 := by
  rw [msgsendProc]
  split
  · constructor <;> rfl
  · split <;> constructor <;> rfl

theorem msgsendProc_sameSignals (bytes : List UInt8) (copyOk : Bool) :
    p.SameSignals (msgsendProc p bytes copyOk).1 := by
  rw [msgsendProc]
  split
  · constructor <;> rfl
  · split <;> constructor <;> rfl

theorem msgrecvProc_sameFamily (copyOk : Bool) : p.SameFamily (msgrecvProc p copyOk).1 := by
  rw [msgrecvProc]
  split <;> constructor <;> rfl

theorem msgrecvProc_sameSignals (copyOk : Bool) : p.SameSignals (msgrecvProc p copyOk).1 := by
  rw [msgrecvProc]
  split <;> constructor <;> rfl

/-- A delivery that fails leaves the flag as it is. -/
theorem msgsendProc_failed {p : Proc} {bytes : List UInt8} {copyOk : Bool}
    (h : (msgsendProc p bytes copyOk).2 ≠ 0) :
    (msgsendProc p bytes copyOk).1.msgFlag = p.msgFlag := by
  cases hflag : p.msgFlag with
  | true => rw [msgsendProc_full hflag, hflag]
  | false =>
      cases copyOk with
      | true =>
          rw [msgsendProc_copied hflag] at h
          exact absurd rfl h
      | false => rw [msgsendProc_notCopied hflag, hflag]

theorem msgrecvProc_failed {p : Proc} {copyOk : Bool} (h : (msgrecvProc p copyOk).2 ≠ 0) :
    (msgrecvProc p copyOk).1.msgFlag = p.msgFlag := by
  unfold msgrecvProc at h ⊢
  split
  · rename_i hcopy
    rw [if_pos hcopy] at h
    exact absurd rfl h
  · rfl

/-! ## Signals -/

theorem sigalarm_sameFamily (ticks : Int) (handler : UInt64) :
    p.SameFamily (sigalarm p ticks handler).1 := by
  simp only [sigalarm]
  repeat' split
  all_goals constructor <;> rfl

theorem sigreturn_sameFamily : p.SameFamily (sigreturn p).1 := by
  rw [sigreturn]
  split <;> constructor <;> rfl

theorem sigsendProc_sameFamily (signum : Int) : p.SameFamily (sigsendProc p signum).1 := by
  rw [sigsendProc, wake]
  repeat' split
  all_goals constructor <;> rfl

theorem signaltick_sameFamily : p.SameFamily (signaltick p) := by
  rw [signaltick]
  repeat' split
  all_goals constructor <;> rfl

theorem signalcheck_sameFamily : p.SameFamily (signalcheck p) := by
  rw [signalcheck, setupsignal]
  split
  · split <;> constructor <;> grind
  · constructor <;> rfl

theorem sigalarm_sameMail (ticks : Int) (handler : UInt64) :
    p.SameMail (sigalarm p ticks handler).1 := by
  simp only [sigalarm]
  repeat' split
  all_goals constructor <;> rfl

theorem sigreturn_sameMail : p.SameMail (sigreturn p).1 := by
  rw [sigreturn]
  split <;> constructor <;> rfl

theorem sigsendProc_sameMail (signum : Int) : p.SameMail (sigsendProc p signum).1 := by
  rw [sigsendProc, wake]
  repeat' split
  all_goals constructor <;> rfl

theorem signaltick_sameMail : p.SameMail (signaltick p) := by
  rw [signaltick]
  repeat' split
  all_goals constructor <;> rfl

theorem signalcheck_sameMail : p.SameMail (signalcheck p) := by
  rw [signalcheck, setupsignal]
  split
  · split <;> constructor <;> grind
  · constructor <;> rfl

/-! ## The program image -/

theorem sigalarm_image (ticks : Int) (handler : UInt64) :
    (sigalarm p ticks handler).1.image = p.image := by
  simp only [sigalarm]
  repeat' split
  all_goals rfl

theorem sigreturn_image : (sigreturn p).1.image = p.image := by
  rw [sigreturn]
  split <;> rfl

theorem sigsendProc_image (signum : Int) : (sigsendProc p signum).1.image = p.image := by
  rw [sigsendProc]
  split
  · rfl
  · exact (wake_sameSignals _).image

theorem signaltick_image : (signaltick p).image = p.image := by
  rw [signaltick]
  repeat' split
  all_goals rfl

theorem setupsignal_image {q : Proc} {signum : Int} (h : setupsignal p signum = some q) :
    q.image = p.image := by
  simp only [setupsignal, Option.ite_none_left_eq_some, Option.some.injEq] at h
  obtain ⟨-, rfl⟩ := h
  rfl

theorem signalcheck_image : (signalcheck p).image = p.image := by
  rw [signalcheck]
  split
  · split
    · rename_i hsetup
      exact setupsignal_image p hsetup
    · rfl
  · rfl

end G20OsLab.Kernel
