/-
  G20OsLab.Kernel.Types

  The data model of the xv6 process layer (`kernel/proc.h`, the globals of
  `kernel/proc.c`).

  A process is named by its slot in `proc[]`.  An `int` that the kernel uses
  as a flag is a `Bool`, any other `int` an `Int` (`nextpid` is taken not to
  wrap, the value of a semaphore wraps), the tick counters are `uint`s.  Left
  out are the fields no modelled function reads: the kernel stack and context,
  open files, the name, and the page table (what a copy through it yields is
  an outcome of the step, see `Outcome`).
-/

import Mathlib.Algebra.Group.Int.Defs
import Mathlib.Algebra.Group.Nat.Defs
import Mathlib.Data.Fintype.Basic
import Mathlib.Logic.Function.Basic

namespace G20OsLab.Kernel

/-! ## Constants -/

def nproc : Nat := 64

def nsem : Nat := 64

def defaultPriority : Int := 50

def minPriority : Int := 0

def maxPriority : Int := 100

def sigalrm : Int := 14

/-- `TRAPFRAME`, the page two below `MAXVA`. -/
def trapframeVa : UInt64 := 0x3FFFFFE000

/-! ## Conversions -/

/-- `INT_MAX`. -/
def intMax : Int := 2 ^ 31 - 1

/-- The result of `int` arithmetic; an overflow wraps, as the compiled
    addition does. -/
def wrapInt (v : Int) : Int := v.bmod (2 ^ 32)

theorem wrapInt_eq {v : Int} (h0 : -intMax ≤ v) (h : v ≤ intMax) : wrapInt v = v := by
  rw [intMax] at h0 h
  exact Int.bmod_eq_of_le (by omega) (by omega)

/-- `(int)x` of a `uint64`. -/
def intOfU64 (x : UInt64) : Int := x.toUInt32.toInt32.toInt

/-- `(uint64)v` of an `int`: sign extension. -/
def u64OfInt (v : Int) : UInt64 := UInt64.ofInt v

theorem intOfU64_eq (x : UInt64) : intOfU64 x = (x.toNat : Int).bmod (2 ^ 32) := by
  have htrunc : intOfU64 x = (x.toUInt32.toNat : Int).bmod (2 ^ 32) :=
    BitVec.toInt_eq_toNat_bmod x.toUInt32.toBitVec
  rw [htrunc, UInt64.toNat_toUInt32, Int.natCast_emod]
  exact Int.emod_bmod _ _

theorem u64OfInt_toNat (v : Int) : ((u64OfInt v).toNat : Int) = v % 2 ^ 64 := by
  show ((UInt64.ofNat (v % 2 ^ 64).toNat).toNat : Int) = v % 2 ^ 64
  rw [UInt64.toNat_ofNat']
  omega

/-- A `uint64` survives the cast to `int` and back if it is the sign extension
    of its lower half. -/
theorem u64OfInt_intOfU64 (x : UInt64) :
    u64OfInt (intOfU64 x) = x ↔ x.toNat < 2 ^ 31 ∨ 2 ^ 64 - 2 ^ 31 ≤ x.toNat := by
  have hx := x.toNat_lt
  have hround := u64OfInt_toNat (intOfU64 x)
  have hint := intOfU64_eq x
  rw [Int.bmod_def] at hint
  rw [← UInt64.toNat_inj]
  split at hint <;> omega

/-! ## The process record -/

inductive ProcState
  | unused | used | sleeping | runnable | running | zombie
  deriving DecidableEq, Repr

/-- A sleep channel.  `outside` stands for the channels of the rest of the
    kernel: `&ticks` (number 0), buffers, pipes, inodes. -/
inductive Chan
  | proc (i : Fin nproc)
  | sem (k : Fin nsem)
  | msgFlag (i : Fin nproc)
  | outside (number : Nat)
  deriving DecidableEq, Repr

/-- `struct trapframe`, the user registers; the `kernel_*` fields, which
    `usertrapret` overwrites on every return to user space, are left out. -/
structure Trapframe where
  epc : UInt64
  ra : UInt64
  sp : UInt64
  gp : UInt64
  tp : UInt64
  t0 : UInt64
  t1 : UInt64
  t2 : UInt64
  s0 : UInt64
  s1 : UInt64
  a0 : UInt64
  a1 : UInt64
  a2 : UInt64
  a3 : UInt64
  a4 : UInt64
  a5 : UInt64
  a6 : UInt64
  a7 : UInt64
  s2 : UInt64
  s3 : UInt64
  s4 : UInt64
  s5 : UInt64
  s6 : UInt64
  s7 : UInt64
  s8 : UInt64
  s9 : UInt64
  s10 : UInt64
  s11 : UInt64
  t3 : UInt64
  t4 : UInt64
  t5 : UInt64
  t6 : UInt64
  deriving DecidableEq, Repr

/-- The trapframe `memset` leaves. -/
def Trapframe.zero : Trapframe where
  epc := 0
  ra := 0
  sp := 0
  gp := 0
  tp := 0
  t0 := 0
  t1 := 0
  t2 := 0
  s0 := 0
  s1 := 0
  a0 := 0
  a1 := 0
  a2 := 0
  a3 := 0
  a4 := 0
  a5 := 0
  a6 := 0
  a7 := 0
  s2 := 0
  s3 := 0
  s4 := 0
  s5 := 0
  s6 := 0
  s7 := 0
  s8 := 0
  s9 := 0
  s10 := 0
  s11 := 0
  t3 := 0
  t4 := 0
  t5 := 0
  t6 := 0

/-- A mailbox buffer, `char[64]`. -/
abbrev MsgBuf := Vector UInt8 64

def MsgBuf.zero : MsgBuf := Vector.replicate 64 0

/-- `struct proc`.  `trapframe` is the content of the trapframe page, zero
    where the slot has none.  The last three fields are ghosts, which nothing
    reads: the program image the process runs, the image that registered its
    signal handler, and the image whose context is saved in `signalTf`. -/
structure Proc where
  rtime : UInt32
  stime : UInt32
  retime : UInt32
  state : ProcState
  chan : Option Chan
  killed : Bool
  priority : Int
  xstate : Int
  pid : Int
  parent : Option (Fin nproc)
  sz : UInt64
  trapframe : Trapframe
  signalHandler : UInt64
  signalRegistered : Bool
  alarmInterval : Int
  alarmElapsed : Int
  pendingSignal : Int
  activeSignal : Int
  signalInflight : Bool
  signalTf : Trapframe
  msgBuf : MsgBuf
  msgFlag : Bool
  isThread : Bool
  threadStack : UInt64
  image : Nat
  handlerImage : Nat
  savedImage : Nat
  deriving DecidableEq, Repr

/-- `struct ksem`. -/
structure Ksem where
  used : Bool
  value : Int
  deriving DecidableEq, Repr

/-! ## System calls -/

/-- A system call with the arguments its `sys_` wrapper fetches.  `other`
    stands for the calls outside the process layer. -/
inductive Call
  | fork
  | exit (status : Int)
  | wait (addr : UInt64)
  | kill (pid : Int)
  | exec
  | getpid
  | sbrk (n t : Int)
  | sigalarm (ticks : Int) (handler : UInt64)
  | sigreturn
  | sigsend (pid signum : Int)
  | clone (fn stack arg : UInt64)
  | join (tid : Int)
  | msgsend (pid : Int) (msg : UInt64)
  | msgrecv (buf : UInt64)
  | semInit (semid value : Int)
  | semWait (semid : Int)
  | semPost (semid : Int)
  | forkprio (priority : Int)
  | setpriority (pid priority : Int)
  | getpriority (pid : Int)
  | waitx (rtime wtime : UInt64)
  | other
  deriving DecidableEq, Repr

/-- What a process looks up slot by slot, with `p->lock` held on one slot at
    a time: a pid, or an `UNUSED` slot for a child. -/
inductive Scan
  | kill (pid : Int)
  | setpriority (pid priority : Int)
  | getpriority (pid : Int)
  | sigsend (pid signum : Int)
  | fork (priority : Int)
  | clone (fn stack arg : UInt64)
  deriving DecidableEq, Repr

/-- Where the kernel thread of a process stands.  Between two places it takes
    one lock-protected section, during which no lock is free that the section
    needs. -/
inductive Kpc
  /-- in user space -/
  | user
  /-- in `forkret` of the first process, before `kexec("/init")` -/
  | boot
  /-- in `usertrap`, at the first `killed` check of a system call -/
  | ecall
  /-- at the start of a system call's function, or of another round of its loop -/
  | call (call : Call)
  /-- in a scan, at slot `k` -/
  | scan (scan : Scan) (k : Nat)
  /-- in `fork_with_priority` or `kclone`, before `np->parent = p` -/
  | link (child : Fin nproc) (pid : Int)
  /-- in `fork_with_priority` or `kclone`, before `np->state = RUNNABLE` -/
  | ready (child : Fin nproc) (pid : Int)
  /-- in `sleep`, called in a round of the loop of `call` -/
  | asleep (call : Call)
  /-- in `usertrap`, at the second `killed` check; `timer` says to yield after it -/
  | trapExit (timer : Bool)
  /-- in `usertrap`, before `signalcheck` -/
  | signal
  deriving DecidableEq, Repr

/-! ## The kernel state -/

/-- The globals of `proc.c`, and where each process stands.  `nextImage` is a
    ghost: the number of the next program image. -/
structure KState where
  proc : Fin nproc → Proc
  initproc : Fin nproc
  nextpid : Int
  semtable : Fin nsem → Ksem
  kpc : Fin nproc → Kpc
  nextImage : Nat

/-! ## Events -/

/-- A committed `kexec`: entry point, stack pointer, size and `argc`. -/
structure ExecImage where
  entry : UInt64
  sp : UInt64
  sz : UInt64
  argc : Int
  deriving DecidableEq, Repr

/-- What the memory and file system layers answer in a section. -/
structure Outcome where
  /-- `kalloc` and `proc_pagetable` succeed -/
  pagesOk : Bool := true
  /-- `uvmcopy`, `uvmalloc` or the (first) `copyout` succeeds -/
  copyOk : Bool := true
  /-- the second `copyout` of `waitx` succeeds -/
  copyOk2 : Bool := true
  /-- what `copyinstr` writes -/
  bytes : List UInt8 := []
  /-- the image `kexec` commits to, if it does -/
  exec : Option ExecImage := none
  /-- the channel a call outside the process layer sleeps on, if it does -/
  sleepOn : Option Nat := none
  /-- what a call outside the process layer returns -/
  value : UInt64 := 0
  deriving DecidableEq, Repr

/-- Why a process traps from user space. -/
inductive Cause
  | ecall | timer | device | fault
  deriving DecidableEq, Repr

/-- What can happen next. -/
inductive Event
  /-- the scheduler picks a `RUNNABLE` process -/
  | schedule (i : Fin nproc)
  /-- a timer interrupt in the kernel makes process `i` yield -/
  | yield (i : Fin nproc)
  /-- process `i` traps from user space with registers `regs` -/
  | trap (i : Fin nproc) (regs : Trapframe) (cause : Cause)
  /-- process `i` takes its next section -/
  | run (i : Fin nproc) (o : Outcome)
  /-- `clockintr` on the first hart -/
  | clock
  /-- the rest of the kernel wakes the sleepers on one of its channels -/
  | notify (number : Nat)
  deriving DecidableEq, Repr

end G20OsLab.Kernel
