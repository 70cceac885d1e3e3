/-
  G20OsLab.Kernel.Step

  System calls, traps and the step function (`kernel/syscall.c`,
  `kernel/sysproc.c`, `kernel/trap.c`).

  Every step is one section of one process, a decision of the scheduler, or an
  interrupt.  Any number of processes may be `RUNNING`, and any of them may
  take the next step, so the runs are all interleavings of the sections on any
  number of CPUs.
-/

import G20OsLab.Lib.Transition
import G20OsLab.Kernel.Calls

namespace G20OsLab.Kernel

/-! ## System calls -/

/-- `argint(n, &v)` for the registers `a0` to `a2`. -/
def argint (tf : Trapframe) (n : Fin 3) : Int :=
  intOfU64 (match n with | 0 => tf.a0 | 1 => tf.a1 | 2 => tf.a2)

/-- `syscalls[num]` and the arguments its `sys_` function fetches; `none` is
    an unknown number. -/
def decode (tf : Trapframe) : Option Call :=
  let num := intOfU64 tf.a7
  if num = 1 then some .fork
  else if num = 2 then some (.exit (argint tf 0))
  else if num = 3 then some (.wait tf.a0)
  else if num = 6 then some (.kill (argint tf 0))
  else if num = 7 then some .exec
  else if num = 11 then some .getpid
  else if num = 12 then some (.sbrk (argint tf 0) (argint tf 1))
  else if num = 22 then some (.sigalarm (argint tf 0) tf.a1)
  else if num = 23 then some .sigreturn
  else if num = 24 then some (.sigsend (argint tf 0) (argint tf 1))
  else if num = 25 then some (.clone tf.a0 tf.a1 tf.a2)
  else if num = 26 then some (.join (argint tf 0))
  else if num = 27 then some (.msgsend (argint tf 0) tf.a1)
  else if num = 28 then some (.msgrecv tf.a0)
  else if num = 29 then some (.semInit (argint tf 0) (argint tf 1))
  else if num = 30 then some (.semWait (argint tf 0))
  else if num = 31 then some (.semPost (argint tf 0))
  else if num = 32 then some (.forkprio (argint tf 0))
  else if num = 33 then some (.setpriority (argint tf 0) (argint tf 1))
  else if num = 34 then some (.getpriority (argint tf 0))
  else if num = 35 then some (.waitx tf.a0 tf.a1)
  else if 0 < num ∧ num ≤ 36 then some .other
  else none

/-- A section at the start of a system call's function, or of another round of
    its loop.  `none` is a panic. -/
def callSection (s : KState) (i : Fin nproc) (o : Outcome) (call : Call) : Option KState :=
  let p := s.proc i
  match call with
  | .fork => some (s.setKpc i (.scan (.fork p.priority) 0))
  | .forkprio priority =>
      some (if priorityValid priority then s.setKpc i (.scan (.fork priority) 0)
        else s.retInt i (-1))
  | .clone fn stack arg =>
      some (if fn ≥ p.sz ∨ stack = 0 ∨ stack ≥ p.sz then s.retInt i (-1)
        else s.setKpc i (.scan (.clone fn stack arg) 0))
  | .kill pid => some (s.setKpc i (.scan (.kill pid) 0))
  | .setpriority pid priority =>
      some (if priorityValid priority then s.setKpc i (.scan (.setpriority pid priority) 0)
        else s.retInt i (-1))
  | .getpriority pid => some (s.setKpc i (.scan (.getpriority pid) 0))
  | .sigsend pid signum =>
      some (if signum ≤ 0 then s.retInt i (-1) else s.setKpc i (.scan (.sigsend pid signum) 0))
  | .exit status =>
      if i = s.initproc then none
      else
        -- closing the files can sleep, any number of times
        match o.sleepOn with
        | some number => some (s.sleep i (.outside number) call)
        | none => some (kexit s i status)
  | .wait addr => some (kwait s i o addr)
  | .waitx rtime wtime => some (waitx s i o rtime wtime)
  | .join tid => some (kjoin s i tid)
  | .exec =>
      -- so can reading the program
      match o.sleepOn, o.exec with
      | some number, _ => some (s.sleep i (.outside number) call)
      | none, some img => some (kexec s i img)
      | none, none => some (s.retInt i (-1))
  | .getpid => some (s.retInt i p.pid)
  | .sbrk n t =>
      match sbrkSize p.sz n t o.copyOk with
      | some sz => some ((s.setProc i { p with sz := sz }).ret i p.sz)
      | none => some (s.retInt i (-1))
  | .sigalarm ticks handler => some (s.setRet i i (sigalarm p ticks handler))
  | .sigreturn => some (s.setRet i i (sigreturn p))
  | .msgsend pid _ => some (msgsend s i o pid)
  | .msgrecv buf => some (msgrecv s i o buf)
  | .semInit semid value => some (ksemInit s i semid value)
  | .semWait semid => some (ksemWait s i semid)
  | .semPost semid => some (ksemPost s i semid)
  | .other =>
      match o.sleepOn with
      | some number => some (s.sleep i (.outside number) call)
      | none => some (s.ret i o.value)

/-- `syscall`, up to the call of the `sys_` function. -/
def syscall (s : KState) (i : Fin nproc) : KState :=
  match decode (s.proc i).trapframe with
  | some call => s.setKpc i (.call call)
  | none => s.retInt i (-1)

/-! ## Traps -/

/-- The start of `usertrap`, with the registers `uservec` saved. -/
def trapSection (s : KState) (i : Fin nproc) (regs : Trapframe) (cause : Cause) : KState :=
  let p := { s.proc i with trapframe := regs }
  match cause with
  | .ecall => (s.setProc i p).setKpc i .ecall
  | .timer => (s.setProc i (signaltick p)).setKpc i (.trapExit true)
  -- also a page fault that `vmfault` serves
  | .device => (s.setProc i p).setKpc i (.trapExit false)
  | .fault => (s.setProc i { p with killed := true }).setKpc i (.trapExit false)

/-- The next section of process `i`. -/
def runSection (s : KState) (i : Fin nproc) (o : Outcome) : Option KState :=
  let p := s.proc i
  match s.kpc i with
  | .user => none
  -- `forkret` of the first process.  It cannot sleep here while `fsinit` and `kexec`
  -- read the disk: no other process exists that could take a step meanwhile.
  | .boot => o.exec.map fun img => (kexec s i img).setKpc i .user
  | .ecall =>
      if p.killed then some (s.setKpc i (.call (.exit (-1))))
      else
        -- return to the instruction after the `ecall`
        let tf := { p.trapframe with epc := p.trapframe.epc + 4 }
        some (syscall (s.setProc i { p with trapframe := tf }) i)
  | .call call => callSection s i o call
  | .scan scan k => some (scanSection s i o scan k)
  | .link child pid =>
      some ((s.setProc child { s.proc child with parent := some i }).setKpc i (.ready child pid))
  | .ready child pid =>
      some ((s.setProc child { s.proc child with state := .runnable }).retInt i pid)
  | .asleep call => some ((s.setProc i { p with chan := none }).setKpc i (.call call))
  | .trapExit timer =>
      if p.killed then some (s.setKpc i (.call (.exit (-1))))
      -- `yield`, after a timer interrupt
      else if timer then
        some ((s.setProc i { p with state := .runnable }).setKpc i .signal)
      else some (s.setKpc i .signal)
  | .signal => some ((s.setProc i (signalcheck p)).setKpc i .user)

/-! ## Steps -/

/-- The state after an event, if the event can happen. -/
def step (e : Event) (s : KState) : Option KState :=
  match e with
  | .schedule i =>
      if (s.proc i).state = .runnable then
        some (s.setProc i { s.proc i with state := .running })
      else
        none
  | .yield i =>
      if (s.proc i).state = .running ∧ s.kpc i ≠ .user then
        some (s.setProc i { s.proc i with state := .runnable })
      else
        none
  | .trap i regs cause =>
      if (s.proc i).state = .running ∧ s.kpc i = .user then some (trapSection s i regs cause)
      else none
  | .run i o => if (s.proc i).state = .running then runSection s i o else none
  | .clock => some ((s.mapProc updateTime).wakeup (some (.outside 0)))
  | .notify number => some (s.wakeup (some (.outside number)))

/-! ## Boot -/

/-- The slot of the first process. -/
def initSlot : Fin nproc := ⟨0, by decide⟩

/-- `procinit` and `userinit`: the first process is `RUNNABLE` with pid 1 and
    has not run yet, all other slots are `UNUSED`.  Its trapframe is zero, as
    `allocInit` has it. -/
def bootState : KState where
  proc := Function.update (fun _ => procinit .bss) initSlot
    { allocInit (procinit .bss) 1 with state := .runnable }
  initproc := initSlot
  nextpid := 2
  semtable := fun _ => ⟨false, 0⟩
  kpc := Function.update (fun _ => .user) initSlot .boot
  nextImage := 1

/-- The states of runs from boot whose steps all meet `P`. -/
def ReachableBy (P : KState → Event → Prop) (s : KState) : Prop := Lib.Steps step P bootState s

/-- The states of all runs from boot. -/
def Reachable (s : KState) : Prop := ReachableBy (fun _ _ => True) s

/-! ## Traces -/

/-- The state a list of events leads to from boot. -/
def stateAfter (es : List Event) : KState := Lib.endState step es bootState

theorem ReachableBy.stateAfter {P : KState → Event → Prop} {test : KState → Event → Bool}
    (htest : ∀ s e, test s e = true → P s e) {es : List Event}
    (h : (Lib.runEvents step test es bootState).isSome = true) : ReachableBy P (stateAfter es) :=
  Lib.Steps.endState htest h

theorem Reachable.stateAfter {es : List Event}
    (h : (Lib.runEvents step (fun _ _ => true) es bootState).isSome = true) :
    Reachable (stateAfter es) :=
  ReachableBy.stateAfter (fun _ _ _ => trivial) h

/-- The first process runs and executes a program of four pages. -/
def bootEvents : List Event :=
  [.schedule initSlot, .run initSlot { exec := some ⟨0, 0x4000, 0x4000, 1⟩ }]

/-- The registers of a system call. -/
def ecallRegs (num a0 a1 a2 : UInt64) : Trapframe :=
  { Trapframe.zero with a7 := num, a0 := a0, a1 := a1, a2 := a2 }

/-- Process `i` makes a system call, up to the first section of its function. -/
def syscallEvents (i : Fin nproc) (num a0 a1 a2 : UInt64) : List Event :=
  [.trap i (ecallRegs num a0 a1 a2) .ecall, .run i {}, .run i {}]

/-- Process `i` returns from a system call to user space. -/
def returnEvents (i : Fin nproc) : List Event := [.run i {}, .run i {}]

end G20OsLab.Kernel
