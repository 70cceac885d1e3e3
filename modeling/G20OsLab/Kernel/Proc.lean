/-
  G20OsLab.Kernel.Proc

  The parts of `kernel/proc.c` that work on one process slot: set-up and
  tear-down, scheduling states, mailbox, signals.

  Each function is the body of a section in which `p->lock` is held (or which
  only touches fields private to the process).
-/

import G20OsLab.Kernel.Types

namespace G20OsLab.Kernel

/-! ## Set-up and tear-down -/

/-- A slot of the table before `procinit`: zeroed memory. -/
def Proc.bss : Proc where
  rtime := 0
  stime := 0
  retime := 0
  state := .unused
  chan := none
  killed := false
  priority := 0
  xstate := 0
  pid := 0
  parent := none
  sz := 0
  trapframe := .zero
  signalHandler := 0
  signalRegistered := false
  alarmInterval := 0
  alarmElapsed := 0
  pendingSignal := 0
  activeSignal := 0
  signalInflight := false
  signalTf := .zero
  msgBuf := .zero
  msgFlag := false
  isThread := false
  threadStack := 0
  image := 0
  handlerImage := 0
  savedImage := 0

/-- `procinit`, one slot. -/
def procinit (p : Proc) : Proc :=
  { p with
    rtime := 0
    stime := 0
    retime := 0
    state := .unused
    priority := defaultPriority
    signalHandler := 0
    signalRegistered := false
    alarmInterval := 0
    alarmElapsed := 0
    pendingSignal := 0
    activeSignal := 0
    signalInflight := false
    msgBuf := .zero
    msgFlag := false
    isThread := false
    threadStack := 0
    signalTf := .zero }

/-- The assignments of `allocproc` after `found:`.  The new trapframe page is
    taken as zero where `kalloc` leaves the bytes 5: the callers copy that of the
    parent over it, and the registers of the first process, but for those that
    `kexec` sets, are overwritten by its first trap before the kernel reads them. -/
def allocInit (p : Proc) (pid : Int) : Proc :=
  -- `killed`, `chan`, `parent`, `xstate` and `sz` keep what the slot holds
  { p with
    pid := pid
    rtime := 0
    stime := 0
    retime := 0
    state := .used
    priority := defaultPriority
    signalHandler := 0
    signalRegistered := false
    alarmInterval := 0
    alarmElapsed := 0
    pendingSignal := 0
    activeSignal := 0
    signalInflight := false
    msgBuf := .zero
    msgFlag := false
    isThread := false
    threadStack := 0
    signalTf := .zero }

def freeproc (p : Proc) : Proc :=
  { p with
    trapframe := .zero
    sz := 0
    pid := 0
    parent := none
    chan := none
    killed := false
    priority := defaultPriority
    xstate := 0
    rtime := 0
    stime := 0
    retime := 0
    signalHandler := 0
    signalRegistered := false
    alarmInterval := 0
    alarmElapsed := 0
    pendingSignal := 0
    activeSignal := 0
    signalInflight := false
    msgBuf := .zero
    msgFlag := false
    isThread := false
    threadStack := 0
    signalTf := .zero
    state := .unused }

/-- `allocproc` at an `UNUSED` slot: the process with its lock held, or `none`
    for the slot freed again when a page is missing. -/
def allocproc (p : Proc) (pid : Int) (pagesOk : Bool) : Option Proc :=
  if pagesOk then some (allocInit p pid) else none

def priorityValid (priority : Int) : Bool :=
  decide (minPriority ≤ priority ∧ priority ≤ maxPriority)

/-- `fork_with_priority`: what the child `np` gets from its parent `p`.  The
    ghosts follow the copied program and handler. -/
def forkChild (p np : Proc) (priority : Int) : Proc :=
  { np with
    sz := p.sz
    -- fork returns 0 in the child
    trapframe := { p.trapframe with a0 := 0 }
    priority := priority
    signalHandler := p.signalHandler
    signalRegistered := p.signalRegistered
    alarmInterval := p.alarmInterval
    alarmElapsed := 0
    pendingSignal := 0
    activeSignal := 0
    signalInflight := false
    msgBuf := .zero
    msgFlag := false
    isThread := false
    threadStack := 0
    signalTf := .zero
    image := p.image
    handlerImage := p.handlerImage
    savedImage := 0 }

/-- `kclone`: what the thread `nt` gets from its creator `p`. -/
def cloneChild (p nt : Proc) (fn stack arg : UInt64) : Proc :=
  { nt with
    sz := p.sz
    -- the thread starts as the call `fn(arg)` on its own stack
    trapframe := { p.trapframe with epc := fn, sp := stack, a0 := arg }
    priority := p.priority
    signalHandler := p.signalHandler
    signalRegistered := p.signalRegistered
    alarmInterval := p.alarmInterval
    alarmElapsed := 0
    pendingSignal := 0
    activeSignal := 0
    signalInflight := false
    msgBuf := .zero
    msgFlag := false
    isThread := true
    threadStack := stack
    signalTf := .zero
    image := p.image
    handlerImage := p.handlerImage
    savedImage := 0 }

/-! ## Scheduling states -/

/-- Make a `SLEEPING` process `RUNNABLE`. -/
def wake (p : Proc) : Proc :=
  if p.state = .sleeping then { p with state := .runnable } else p

/-- `wake` makes a process `RUNNABLE` or leaves it. -/
theorem wake_cases (p : Proc) : wake p = p ∨ (wake p).state = .runnable := by
  rw [wake]
  split
  · exact .inr rfl
  · exact .inl rfl

/-- `wakeup(chan)`, one slot.  Its test `p != myproc()` is left out: the caller
    is `RUNNING` (or there is none), so its slot does not change. -/
def wakeupProc (chan : Option Chan) (p : Proc) : Proc :=
  if p.chan = chan then wake p else p

/-- `wakeup` makes a process `RUNNABLE` or leaves it. -/
theorem wakeupProc_cases (chan : Option Chan) (p : Proc) :
    wakeupProc chan p = p ∨ (wakeupProc chan p).state = .runnable := by
  rw [wakeupProc]
  split
  · exact wake_cases p
  · exact .inl rfl

/-- The first half of `sleep`. -/
def sleepOn (chan : Chan) (p : Proc) : Proc :=
  { p with chan := some chan, state := .sleeping }

/-- `update_time`, one slot. -/
def updateTime (p : Proc) : Proc :=
  match p.state with
  | .running => { p with rtime := p.rtime + 1 }
  | .sleeping => { p with stime := p.stime + 1 }
  | .runnable => { p with retime := p.retime + 1 }
  | .unused | .used | .zombie => p

@[simp] theorem updateTime_state (p : Proc) : (updateTime p).state = p.state := by
  rw [updateTime]
  split <;> rfl

/-- `kkill` at the slot it is looking for. -/
def killProc (p : Proc) : Proc :=
  -- a sleeper is woken whatever it waits for
  wake { p with killed := true }

theorem killProc_killed (p : Proc) : (killProc p).killed = true := by
  rw [killProc, wake]
  split <;> rfl

/-- `reparent(p)`, one slot; `i` is the exiting process. -/
def reparentProc (i initproc : Fin nproc) (p : Proc) : Proc :=
  if p.parent = some i then { p with parent := some initproc } else p

@[simp] theorem reparentProc_state (i initproc : Fin nproc) (p : Proc) :
    (reparentProc i initproc p).state = p.state := by
  rw [reparentProc]
  split <;> rfl

/-- The end of `kexit`. -/
def exitProc (p : Proc) (status : Int) : Proc := { p with xstate := status, state := .zombie }

/-! ## Mailbox -/

/-- `copyinstr` into a mailbox: the bytes it gets to write. -/
def copyinstr (buf : MsgBuf) (bytes : List UInt8) : MsgBuf :=
  Vector.ofFn fun k => bytes.getD k (buf.get k)

/-- `msgsend` at the slot it is looking for, and what it returns. -/
def msgsendProc (p : Proc) (bytes : List UInt8) (copyOk : Bool) : Proc × Int :=
  if p.msgFlag then (p, -1)
  -- a failed copy leaves the bytes it got to write
  else if copyOk then ({ p with msgBuf := copyinstr p.msgBuf bytes, msgFlag := true }, 0)
  else ({ p with msgBuf := copyinstr p.msgBuf bytes }, -1)

@[simp] theorem msgsendProc_state (p : Proc) (bytes : List UInt8) (copyOk : Bool) :
    (msgsendProc p bytes copyOk).1.state = p.state := by
  rw [msgsendProc]
  split
  · rfl
  · split <;> rfl

section

variable {p : Proc} {bytes : List UInt8} {copyOk : Bool}

/-- A full mailbox is left as it is. -/
theorem msgsendProc_full (h : p.msgFlag = true) : msgsendProc p bytes copyOk = (p, -1) := if_pos h

theorem msgsendProc_copied (h : p.msgFlag = false) :
    msgsendProc p bytes true =
      ({ p with msgBuf := copyinstr p.msgBuf bytes, msgFlag := true }, 0) := by
  rw [msgsendProc, if_neg (by simp [h]), if_pos rfl]

/-- A copy that fails has written into the buffer and left the flag. -/
theorem msgsendProc_notCopied (h : p.msgFlag = false) :
    msgsendProc p bytes false = ({ p with msgBuf := copyinstr p.msgBuf bytes }, -1) := by
  rw [msgsendProc, if_neg (by simp [h]), if_neg Bool.false_ne_true]

/-- It accepts what is copied to an empty mailbox, and nothing else. -/
theorem msgsendProc_result :
    (msgsendProc p bytes copyOk).2 = if p.msgFlag = false ∧ copyOk = true then 0 else -1 := by
  cases hflag : p.msgFlag with
  | true => rw [msgsendProc_full hflag]; rfl
  | false =>
      cases copyOk with
      | true => rw [msgsendProc_copied hflag]; rfl
      | false => rw [msgsendProc_notCopied hflag]; rfl

end

/-- `msgrecv` on a full mailbox, and what it returns. -/
def msgrecvProc (p : Proc) (copyOk : Bool) : Proc × Int :=
  if copyOk then ({ p with msgFlag := false, msgBuf := .zero }, 0) else (p, -1)

@[simp] theorem msgrecvProc_state (p : Proc) (copyOk : Bool) :
    (msgrecvProc p copyOk).1.state = p.state := by
  rw [msgrecvProc]
  split <;> rfl

/-! ## Signals -/

/-- `setupsignal`; `none` is its return of `-1`. -/
def setupsignal (p : Proc) (signum : Int) : Option Proc :=
  if p.signalRegistered = false ∨ p.signalInflight = true ∨ signum ≤ 0 then
    none
  else
    some { p with
      signalTf := p.trapframe
      signalInflight := true
      activeSignal := signum
      pendingSignal := 0
      trapframe := { p.trapframe with epc := p.signalHandler, a0 := u64OfInt signum }
      savedImage := p.image }

/-- `sigalarm`, and what it returns. -/
def sigalarm (p : Proc) (ticks : Int) (handler : UInt64) : Proc × Int :=
  if ticks < 0 then (p, -1)
  -- the handler must lie inside the program
  else if handler ≠ 0 ∧ handler ≥ p.sz then (p, -1)
  else
    let registered : Bool := !(decide (ticks = 0) && decide (handler = 0))
    let p := { p with
      alarmInterval := ticks
      alarmElapsed := 0
      signalHandler := handler
      signalRegistered := registered
      handlerImage := p.image }
    if registered then (p, 0)
    -- the saved context is needed as long as a handler runs
    else if p.signalInflight then ({ p with pendingSignal := 0 }, 0)
    else ({ p with pendingSignal := 0, activeSignal := 0, signalTf := .zero }, 0)

@[simp] theorem sigalarm_state (p : Proc) (ticks : Int) (handler : UInt64) :
    (sigalarm p ticks handler).1.state = p.state := by
  simp only [sigalarm]
  repeat' split
  all_goals rfl

/-- `sigreturn`, and what it returns. -/
def sigreturn (p : Proc) : Proc × Int :=
  if p.signalInflight then
    -- the saved `a0` is returned as an `int`
    ({ p with
      trapframe := p.signalTf
      signalInflight := false
      activeSignal := 0
      signalTf := .zero }, intOfU64 p.signalTf.a0)
  else
    (p, -1)

@[simp] theorem sigreturn_state (p : Proc) : (sigreturn p).1.state = p.state := by
  rw [sigreturn]
  split <;> rfl

/-- `sigsend` at the slot it is looking for, and what it returns. -/
def sigsendProc (p : Proc) (signum : Int) : Proc × Int :=
  if p.signalRegistered = false ∨ p.pendingSignal ≠ 0 then (p, -1)
  else (wake { p with pendingSignal := signum }, 0)

/-- A signal wakes a process or leaves its state. -/
theorem sigsendProc_state (p : Proc) (signum : Int) :
    (sigsendProc p signum).1.state = p.state ∨ (sigsendProc p signum).1.state = .runnable := by
  rw [sigsendProc]
  split
  · exact .inl rfl
  · rcases wake_cases { p with pendingSignal := signum } with hsame | hwoken
    · exact .inl (by rw [hsame])
    · exact .inr hwoken

def signaltick (p : Proc) : Proc :=
  if p.alarmInterval > 0 ∧ p.signalRegistered = true ∧ p.signalInflight = false then
    if p.alarmElapsed + 1 ≥ p.alarmInterval then
      -- a signal that is still pending stays, and the interval starts over all the same
      { p with
        pendingSignal := if p.pendingSignal = 0 then sigalrm else p.pendingSignal
        alarmElapsed := 0 }
    else
      { p with alarmElapsed := p.alarmElapsed + 1 }
  else
    p

@[simp] theorem signaltick_state (p : Proc) : (signaltick p).state = p.state := by
  rw [signaltick]
  repeat' split
  all_goals rfl

/-- The test of `signalcheck`. -/
def deliverable (p : Proc) : Bool :=
  decide (p.pendingSignal ≠ 0) && p.signalRegistered && !p.signalInflight

def signalcheck (p : Proc) : Proc :=
  if deliverable p then
    match setupsignal p p.pendingSignal with
    | some p => p
    | none => { p with killed := true }
  else
    p

@[simp] theorem signalcheck_state (p : Proc) : (signalcheck p).state = p.state := by
  rw [signalcheck, setupsignal]
  split
  · split <;> grind
  · rfl

/-! ## Exec and sbrk -/

/-- The end of `kexec`, and what it returns. -/
def execCommit (p : Proc) (img : ExecImage) (nextImage : Nat) : Proc × Int :=
  -- the signal state is not touched
  ({ p with
    trapframe := { p.trapframe with a1 := img.sp, epc := img.entry, sp := img.sp }
    sz := img.sz
    image := nextImage }, img.argc)

/-- `sys_sbrk` with `growproc`: the size after it, or `none` for a return of
    `-1`.  `SBRK_EAGER` is 1. -/
def sbrkSize (sz : UInt64) (n t : Int) (copyOk : Bool) : Option UInt64 :=
  let new := sz + u64OfInt n
  -- `growproc` allocates or frees at once
  if t = 1 ∨ n < 0 then
    if n > 0 then
      if new > trapframeVa then none
      else if copyOk then some (if new < sz then sz else new)
      else none
    else if n < 0 then some (if new ≥ sz then sz else new)
    else some sz
  -- lazy growth: pages come with their first use
  else if new < sz then none
  else if new > trapframeVa then none
  else some new

end G20OsLab.Kernel
