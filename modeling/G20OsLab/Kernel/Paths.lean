/-
  G20OsLab.Kernel.Paths

  The kernel paths of `proc.c`, `trap.c` and `sysproc.c`, as what they do with
  spinlocks.

  Every function is its sequence of `acquire`, `release`, `sleep` and `sched`
  in the order of the source; a test of anything else is a `flip`.  Other
  modules take locks in two ways: leaf locks, for one access each, and locks
  under which they call `sleep`, `wakeup` and `killed`.
-/

import G20OsLab.Kernel.Calls
import G20OsLab.Lib.LockMachine

namespace G20OsLab.Kernel.Paths

open Lib (Prog)
open Lib.Prog (any flip oneOf self)

/-! ## Locks -/

inductive SpinLock
  | tickslock
  | waitLock
  | sem (k : Fin nsem)
  | proc (i : Fin nproc)
  | pidLock
  /-- of another module, which may sleep and wake under it -/
  | outside (n : Nat)
  /-- of another module, which takes no other lock under it -/
  | leaf (n : Nat)
  deriving DecidableEq, Repr

abbrev Path := Prog SpinLock (Fin nproc)

def acquire (lk : SpinLock) : Path Unit := .acquire lk (.ret ())

def release (lk : SpinLock) : Path Unit := .release lk (.ret ())

def sched : Path Unit := .sched (.ret ())

/-- `swtch` from the scheduler. -/
def swtch (i : Fin nproc) : Path Unit := .dispatch i (.ret ())

/-- The context of a new process, at `forkret`. -/
def setContext (i : Fin nproc) : Path Unit := .spawn i (.ret ())

def myproc : Path (Option (Fin nproc)) := .myproc .ret

/-- `for(;;)` and `while`: again as long as the body returns `true`. -/
def loop (body : Path Bool) : Path Unit := .loop body (.ret ())

/-- The table `proc[]`, slot by slot. -/
def slots : List (Fin nproc) := List.finRange nproc

/-! ## Sleeping and waking -/

def wakeup : Path Unit :=
  slots.forM fun i => do
    if (← myproc) ≠ some i then
      acquire (.proc i)
      release (.proc i)

def sleep (lk : SpinLock) : Path Unit := do
  let p ← self
  acquire (.proc p)
  release lk
  sched
  release (.proc p)
  acquire lk

/-- The functions that look at one process under its lock: `killed`,
    `setkilled`, `sigalarm`, `sigreturn`, `signaltick`, `signalcheck`. -/
def lockProc (p : Fin nproc) : Path Unit := do
  acquire (.proc p)
  release (.proc p)

def killed (p : Fin nproc) : Path Bool := do
  lockProc p
  flip

def setkilled (p : Fin nproc) : Path Unit := lockProc p

/-! ## Other modules -/

/-- `kalloc`, `kfree`, `filedup`, `idup`, `printf` and what else takes leaf
    locks only, such as `uvmcopy`, `copyout` and `freeproc`. -/
def leafCalls : Path Unit :=
  loop do
    if ← flip then
      let n ← any
      acquire (.leaf n)
      release (.leaf n)
      return true
    else
      return false

/-- `killed(myproc())`, for its value. -/
def selfKilled : Path Unit := do
  let _ ← killed (← self)

/-- A section of another module under its lock `n`. -/
def outsideSection (n : Nat) : Path Unit := do
  acquire (.outside n)
  loop do
    oneOf [sleep (.outside n), wakeup, selfKilled, leafCalls]
    flip
  release (.outside n)

/-- Calls of other modules for a process: `fileclose`, `begin_op`, `iput`,
    `fsinit`, `kexec` and the system calls on files. -/
def outsideCalls : Path Unit :=
  loop do
    leafCalls
    if ← flip then
      outsideSection (← any)
      return true
    else
      return false

/-! ## Processes -/

def allocpid : Path Unit := do
  acquire .pidLock
  release .pidLock

def freeproc : Path Unit := leafCalls

/-- `allocproc`; the new process comes with its lock held. -/
def allocproc : Path (Option (Fin nproc)) := do
  let found ← slots.findM? fun i => do
    acquire (.proc i)
    -- `p->state == UNUSED`
    if ← flip then
      return true
    else
      release (.proc i)
      return false
  match found with
  | none => return none
  | some p =>
      allocpid
      -- `kalloc` of the trapframe, `proc_pagetable`
      leafCalls
      if ← flip then
        freeproc
        release (.proc p)
        return none
      setContext p
      return some p

/-- The rest of `fork_with_priority` and `kclone` after their checks. -/
def newProc : Path Unit := do
  match ← allocproc with
  | none => return
  | some np =>
      -- `uvmcopy`
      leafCalls
      if ← flip then
        freeproc
        release (.proc np)
      else
        -- `filedup`, `idup`
        leafCalls
        release (.proc np)
        acquire .waitLock
        release .waitLock
        lockProc np

def forkWithPriority : Path Unit := newProc

def kfork : Path Unit := forkWithPriority

def kforkprio : Path Unit := do
  if ← flip then
    return
  else
    forkWithPriority

def kclone : Path Unit := do
  if ← flip then
    return
  else
    newProc

/-- `!havekids || killed(p)`. -/
def noKidsOrKilled (p : Fin nproc) : Path Bool := do
  if ← flip then
    return true
  else
    killed p

/-- The loop of `kwait`, `waitx` and `kjoin`; `copies` are its calls of
    `copyout`, which tell whether one of them failed. -/
def waitLoop (copies : Path Bool) : Path Unit := do
  let p ← self
  acquire .waitLock
  loop do
    let returned ← slots.anyM fun pp => do
      -- `pp->parent == p`
      if ← flip then
        acquire (.proc pp)
        -- `pp->state == ZOMBIE`
        if ← flip then
          if ← copies then
            release (.proc pp)
            release .waitLock
            return true
          else
            freeproc
            release (.proc pp)
            release .waitLock
            return true
        else
          release (.proc pp)
          return false
      else
        return false
    if returned then
      return false
    else
      if ← noKidsOrKilled p then
        release .waitLock
        return false
      else
        sleep .waitLock
        return true

def kwait : Path Unit := waitLoop do
  leafCalls
  flip

def waitx : Path Unit := waitLoop do
  leafCalls
  flip

def kjoin : Path Unit := waitLoop (pure false)

def reparent : Path Unit :=
  slots.forM fun _ => do
    if ← flip then
      wakeup

def kexit : Path Unit := do
  let p ← self
  -- `init exiting`
  if ← flip then
    .panic
  else
    outsideCalls
    acquire .waitLock
    reparent
    wakeup
    acquire (.proc p)
    release .waitLock
    sched
    .panic

/-- The lookups of `kkill`, `setpriority`, `getpriority` and `sigsend`. -/
def lookup : Path Unit := do
  let _ ← slots.anyM fun i => do
    acquire (.proc i)
    -- `p->pid == pid`
    if ← flip then
      release (.proc i)
      return true
    else
      release (.proc i)
      return false

def kkill : Path Unit := lookup

def setpriority : Path Unit := do
  if ← flip then
    return
  else
    lookup

def getpriority : Path Unit := lookup

def sigsend : Path Unit := do
  if ← flip then
    return
  else
    lookup

/-- The loops of `update_time` and `getpinfo`. -/
def eachProc : Path Unit := slots.forM lockProc

def updateTime : Path Unit := eachProc

def getpinfo : Path Unit := do
  eachProc
  -- `copyout`
  leafCalls

/-! ## Semaphores, messages and signals -/

def ksemInit (semid : Int) : Path Unit :=
  match semIndex semid with
  | none => return
  | some k => do
      -- `value < 0`
      if ← flip then
        return
      else
        acquire (.sem k)
        wakeup
        release (.sem k)

def ksemWait (semid : Int) : Path Unit :=
  match semIndex semid with
  | none => return
  | some k => do
      acquire (.sem k)
      -- `!s->used`
      if ← flip then
        release (.sem k)
      else
        loop do
          -- `s->value == 0`
          if ← flip then
            sleep (.sem k)
            if ← flip then
              release (.sem k)
              return false
            else
              return true
          else
            release (.sem k)
            return false

def ksemPost (semid : Int) : Path Unit :=
  match semIndex semid with
  | none => return
  | some k => do
      acquire (.sem k)
      -- `!s->used`
      if ← flip then
        release (.sem k)
      else
        wakeup
        release (.sem k)

def sigalarm : Path Unit := do
  if ← flip then
    return
  else
    lockProc (← self)

def sigreturn : Path Unit := do lockProc (← self)

def signaltick (p : Fin nproc) : Path Unit := lockProc p

def signalcheck (p : Fin nproc) : Path Unit := lockProc p

def msgsend : Path Unit := do
  acquire .waitLock
  let returned ← slots.anyM fun i => do
    acquire (.proc i)
    -- the process is found
    if ← flip then
      -- its mailbox is full, or `copyinstr` fails
      if ← flip then
        release (.proc i)
        release .waitLock
        return true
      else
        release (.proc i)
        wakeup
        release .waitLock
        return true
    else
      release (.proc i)
      return false
  if returned then
    return
  else
    release .waitLock

def msgrecv : Path Unit := do
  let p ← self
  acquire .waitLock
  acquire (.proc p)
  loop do
    -- `p->msg_flag == 0`
    if ← flip then
      release (.proc p)
      sleep .waitLock
      acquire (.proc p)
      return true
    else
      return false
  -- `copyout`
  leafCalls
  release (.proc p)
  release .waitLock

/-! ## Ticks -/

def sysPause : Path Unit := do
  acquire .tickslock
  loop do
    -- `ticks - ticks0 < n`
    if ← flip then
      if ← killed (← self) then
        release .tickslock
        return false
      else
        sleep .tickslock
        return true
    else
      release .tickslock
      return false

def sysUptime : Path Unit := do
  acquire .tickslock
  release .tickslock

def clockintr : Path Unit := do
  -- `cpuid() == 0`
  if ← flip then
    acquire .tickslock
    updateTime
    wakeup
    release .tickslock

/-! ## Traps -/

def yield : Path Unit := do
  let p ← self
  acquire (.proc p)
  sched
  release (.proc p)

/-- `uartintr` and `virtio_disk_intr`. -/
def deviceIntr : Path Unit :=
  loop do
    leafCalls
    if ← flip then
      let n ← any
      acquire (.outside n)
      loop do
        oneOf [wakeup, leafCalls]
        flip
      release (.outside n)
      return true
    else
      return false

/-- `devintr`: 2 after a timer interrupt, 1 after another one, 0 if it was
    none. -/
def devintr : Path Nat := do
  if ← flip then
    deviceIntr
    return 1
  else if ← flip then
    clockintr
    return 2
  else
    return 0

def kerneltrap : Path Unit := do
  let whichDev ← devintr
  if whichDev = 0 then
    .panic
  else if whichDev = 2 then
    if (← myproc) ≠ none then
      yield

/-- `syscall`: one of the system calls, or none if the number is unknown. -/
def syscall : Path Unit := do
  let semid ← any
  oneOf [kfork, kexit, kwait, kkill, leafCalls, sysPause, sysUptime, outsideCalls, sigalarm,
    sigreturn, sigsend, kclone, kjoin, msgsend, msgrecv, ksemInit semid, ksemWait semid,
    ksemPost semid, kforkprio, setpriority, getpriority, waitx, getpinfo]

/-- The first half of `usertrap`, up to the second `killed` check; it tells
    which device it was. -/
def trapCause (p : Fin nproc) : Path Nat := do
  -- a system call
  if ← flip then
    if ← killed p then
      kexit
      return 0
    else
      syscall
      return 0
  else
    let whichDev ← devintr
    if whichDev = 0 then
      -- `vmfault`, or an unexpected cause
      leafCalls
      if ← flip then
        setkilled p
        return 0
      else
        return 0
    else if whichDev = 2 then
      signaltick p
      return 2
    else
      return whichDev

def usertrap : Path Unit := do
  let p ← self
  let whichDev ← trapCause p
  if ← killed p then
    kexit
  else if whichDev = 2 then
    yield
    signalcheck p
  else
    signalcheck p

/-- A process in user space, from trap to trap. -/
def userspace : Path Unit :=
  loop do
    usertrap
    return true

def forkret : Path Unit := do
  let p ← self
  release (.proc p)
  -- the first process: `fsinit`, `kexec`
  if ← flip then
    outsideCalls
  userspace

/-! ## CPUs -/

def scheduler : Path Unit :=
  loop do
    slots.forM fun i => do
      acquire (.proc i)
      -- `p->state == RUNNABLE`
      if ← flip then
        swtch i
      release (.proc i)
    return true

def userinit : Path Unit := do
  match ← allocproc with
  | none => .panic
  | some p =>
      -- `namei`
      leafCalls
      release (.proc p)

/-- `main` on one CPU; the first one makes the first process. -/
def main (first : Bool) : Path Unit := do
  leafCalls
  if first then
    userinit
  scheduler

def kernel : Lib.System SpinLock (Fin nproc) where
  entry := fun _ => forkret
  interrupt := kerneltrap

/-- All CPUs at the start of `main`, with no process to switch to. -/
def boot {C : Type} [DecidableEq C] (first : C) : Lib.Config C SpinLock (Fin nproc) where
  cpu := fun c => ⟨none, main (decide (c = first)), []⟩
  scheduler := fun _ => .panic
  saved := fun _ => none

end G20OsLab.Kernel.Paths
