/-
  G20OsLab.Kernel.Locks

  The kernel one lock operation at a time.

  `step` takes a lock-protected section at once.  Here the sections that sleep
  or wake are cut at every `acquire` and `release` of `wait_lock`, of a
  semaphore's lock and of a `p->lock`, and at every slot of a loop over the
  table, with any steps of other processes in between.  A process between two
  of these operations stands at a `Place`; what locks it holds there says
  `Place.Holds`.  The other sections take one lock, for one slot; they are the
  steps of the coarser model, where their lock is free.
-/

import G20OsLab.Kernel.Sleeping

namespace G20OsLab.Kernel

/-! ## Places -/

/-- The spinlocks of `proc.c`. -/
inductive Lock
  | wait
  | sem (k : Fin nsem)
  | proc (i : Fin nproc)
  deriving DecidableEq, Repr

/-- What comes after a loop of `wakeup`. -/
inductive After
  /-- release the condition lock and return -/
  | leave (value : Int)
  /-- the next slot in `reparent` -/
  | reparent (k : Nat)
  /-- the rest of `kexit` -/
  | exit
  deriving DecidableEq, Repr

/-- Where a process stands inside a section; `idle` is between sections. -/
inductive Place
  | idle
  /-- with the condition lock `lk`, before the test of the condition -/
  | held (lk : Lock)
  /-- with `wait_lock`, in the loop of `msgsend`, `kwait`, `waitx` or `kjoin`
      at slot `k`; `found` is `havekids` -/
  | scan (k : Nat) (found : Bool)
  /-- with `wait_lock`, in the loop of `reparent` at slot `k` -/
  | reparent (k : Nat)
  /-- with the condition lock `lk`, in the loop of `wakeup(chan)` at slot `k` -/
  | waking (lk : Lock) (chan : Option Chan) (k : Nat) (after : After)
  /-- before `release(lk)` and the return -/
  | leave (lk : Lock) (value : Int)
  /-- in `kexit` after `wakeup(p->parent)`, before `acquire(&p->lock)` -/
  | exit
  /-- in `kexit`, before `p->state = ZOMBIE` and `release(&wait_lock)` -/
  | dying
  /-- in `sched`, for the last time, before the scheduler releases `p->lock` -/
  | dead
  /-- in `sleep(chan, lk)`, before `acquire(&p->lock)` -/
  | sleep (lk : Lock) (chan : Chan)
  /-- in `sleep(chan, lk)`, before `release(lk)` -/
  | sleepLocked (lk : Lock) (chan : Chan)
  /-- in `sleep`, before `p->chan = chan` and `p->state = SLEEPING`, after which
      the scheduler releases `p->lock` -/
  | sleepReleased (chan : Chan)
  deriving DecidableEq, Repr

/-- The locks process `i` holds at a place. -/
def Place.Holds (i : Fin nproc) (place : Place) (l : Lock) : Prop :=
  match place with
  | .idle => False
  | .held lk => l = lk
  | .scan _ _ => l = .wait
  | .reparent _ => l = .wait
  | .waking lk _ _ _ => l = lk
  | .leave lk _ => l = lk
  | .exit => l = .wait
  | .dying => l = .wait ∨ l = .proc i
  | .dead => l = .proc i
  | .sleep lk _ => l = lk
  | .sleepLocked lk _ => l = lk ∨ l = .proc i
  | .sleepReleased _ => l = .proc i

instance (i : Fin nproc) (place : Place) (l : Lock) : Decidable (place.Holds i l) := by
  unfold Place.Holds
  cases place <;> infer_instance

/-! ## The state -/

/-- The kernel, and where each process stands inside a section. -/
structure LState where
  base : KState
  place : Fin nproc → Place

/-- No process holds the lock. -/
def LState.Free (s : LState) (l : Lock) : Prop := ∀ i, ¬ (s.place i).Holds i l

instance (s : LState) (l : Lock) : Decidable (s.Free l) :=
  inferInstanceAs (Decidable (∀ _, _))

def LState.move (s : LState) (i : Fin nproc) (base : KState) (place : Place) : LState :=
  ⟨base, Function.update s.place i place⟩

/-- A step that changes nothing else. -/
def LState.goto (s : LState) (i : Fin nproc) (place : Place) : LState := s.move i s.base place

/-- A step where the lock has to be free. -/
def LState.locking (s : LState) (l : Lock) (t : LState) : Option LState :=
  if s.Free l then some t else none

/-- A section of the coarser model. -/
def LState.coarse (s : LState) (e : Event) : Option LState :=
  (step e s.base).map fun base => { s with base := base }

/-! ## The calls that sleep or wake -/

/-- The condition lock that the function of a call acquires first.  `kexit`
    closes the files before it. -/
def Call.lock : Call → Option Lock
  | .semInit semid value => if value < 0 then none else (semIndex semid).map .sem
  | .semWait semid => (semIndex semid).map .sem
  | .semPost semid => (semIndex semid).map .sem
  | .msgsend _ _ => some .wait
  | .msgrecv _ => some .wait
  | .wait _ => some .wait
  | .waitx _ _ => some .wait
  | .join _ => some .wait
  | _ => none

/-- The place behind this `acquire`. -/
def Call.start (call : Call) (lk : Lock) : Place :=
  match call with
  | .msgsend _ _ | .wait _ | .waitx _ _ | .join _ => .scan 0 false
  | _ => .held lk

/-- `pp` is a child that the call waits for. -/
def Call.child (call : Call) (i : Fin nproc) (pp : Proc) : Bool :=
  match call with
  | .wait _ | .waitx _ _ => decide (pp.parent = some i) && !pp.isThread
  | .join tid => decide (pp.parent = some i) && decide (pp.pid = tid) && pp.isThread
  | _ => false

/-- The status is copied out. -/
def Call.copied (call : Call) (o : Outcome) : Bool :=
  match call with
  | .wait addr => decide (addr = 0) || o.copyOk
  | .waitx _ _ => o.copyOk && o.copyOk2
  | _ => true

/-- What the call returns for a child. -/
def Call.result (call : Call) (pp : Proc) : Int :=
  match call with
  | .join tid => tid
  | _ => pp.pid

/-! ## Steps inside a section -/

section

variable (s : LState) (i : Fin nproc) (o : Outcome)

/-- The test of the condition, with its lock. -/
def heldStep (lk : Lock) (call : Call) : Option LState :=
  match lk, call with
  | .sem k, .semInit _ value =>
      some (s.move i (s.base.setSem k ⟨true, value⟩) (.waking lk (some (.sem k)) 0 (.leave 0)))
  | .sem k, .semWait _ =>
      let sem := s.base.semtable k
      if sem.used = false then some (s.goto i (.leave lk (-1)))
      else if sem.value = 0 then some (s.goto i (.sleep lk (.sem k)))
      else
        some (s.move i (s.base.setSem k { sem with value := wrapInt (sem.value - 1) })
          (.leave lk 0))
  | .sem k, .semPost _ =>
      let sem := s.base.semtable k
      if sem.used = false then some (s.goto i (.leave lk (-1)))
      else
        some (s.move i (s.base.setSem k { sem with value := wrapInt (sem.value + 1) })
          (.waking lk (some (.sem k)) 0 (.leave 0)))
  | .wait, .msgrecv _ =>
      -- the flag is tested under `p->lock`
      s.locking (.proc i)
        (if (s.base.proc i).msgFlag then
          let (p, result) := msgrecvProc (s.base.proc i) o.copyOk
          s.move i (s.base.setProc i p) (.leave .wait result)
        else s.goto i (.sleep .wait (.msgFlag i)))
  | _, _ => none

/-- A loop over the table with `wait_lock`, at slot `k`. -/
def scanStep (k : Nat) (found : Bool) (call : Call) : Option LState :=
  if h : k < nproc then
    let j : Fin nproc := ⟨k, h⟩
    let pp := s.base.proc j
    match call with
    | .msgsend pid _ =>
        s.locking (.proc j)
          (if pp.state ≠ .unused ∧ pp.pid = pid then
            let (p, result) := msgsendProc pp o.bytes o.copyOk
            s.move i (s.base.setProc j p)
              (if result = 0 then .waking .wait (some (.msgFlag j)) 0 (.leave 0)
                else .leave .wait result)
          else s.goto i (.scan (k + 1) found))
    | _ =>
        if call.child i pp then
          s.locking (.proc j)
            (if pp.state = .zombie then
              if call.copied o then
                s.move i (s.base.setProc j (freeproc pp)) (.leave .wait (call.result pp))
              else s.goto i (.leave .wait (-1))
            else s.goto i (.scan (k + 1) true))
        else some (s.goto i (.scan (k + 1) found))
  else
    match call with
    | .msgsend _ _ => some (s.goto i (.leave .wait (-1)))
    | _ =>
        some (s.goto i
          (if !found || (s.base.proc i).killed then .leave .wait (-1)
            else .sleep .wait (.proc i)))

/-- `reparent`, at slot `k`. -/
def reparentStep (k : Nat) : LState :=
  if h : k < nproc then
    let j : Fin nproc := ⟨k, h⟩
    if (s.base.proc j).parent = some i then
      s.move i (s.base.setProc j (reparentProc i s.base.initproc (s.base.proc j)))
        (.waking .wait (some (.proc s.base.initproc)) 0 (.reparent (k + 1)))
    else s.goto i (.reparent (k + 1))
  else
    -- `wakeup(p->parent)`
    s.goto i (.waking .wait ((s.base.proc i).parent.map .proc) 0 .exit)

/-- `wakeup(chan)`, at slot `k`. -/
def wakingStep (lk : Lock) (chan : Option Chan) (k : Nat) (after : After) : Option LState :=
  if h : k < nproc then
    let j : Fin nproc := ⟨k, h⟩
    let next : Place := .waking lk chan (k + 1) after
    if j = i then some (s.goto i next)
    else s.locking (.proc j) (s.move i (s.base.setProc j (wakeupProc chan (s.base.proc j))) next)
  else
    some (s.goto i
      (match after with
      | .leave value => .leave lk value
      | .reparent k => .reparent k
      | .exit => .exit))

/-- A process between two sections: the first `acquire` of the next one, or the
    next one as a whole. -/
def idleStep : Option LState :=
  let whole := s.coarse (.run i o)
  match s.base.kpc i with
  | .call (.exit _) =>
      match o.sleepOn with
      | some _ => whole
      | none =>
          if i = s.base.initproc then none
          else s.locking .wait (s.goto i (.reparent 0))
  | .call call =>
      match call.lock with
      | some lk => s.locking lk (s.goto i (call.start lk))
      | none => whole
  | .scan _ k => if h : k < nproc then whole.bind (s.locking (.proc ⟨k, h⟩)) else whole
  | .link _ _ => whole.bind (s.locking .wait)
  | .ready child _ => whole.bind (s.locking (.proc child))
  | _ => whole

/-- The next lock operation of process `i`. -/
def placeStep : Option LState :=
  match s.place i, s.base.kpc i with
  | .idle, _ => idleStep s i o
  | .held lk, .call call => heldStep s i o lk call
  | .scan k found, .call call => scanStep s i o k found call
  | .reparent k, _ => some (reparentStep s i k)
  | .waking lk chan k after, _ => wakingStep s i lk chan k after
  | .leave _ value, _ => some (s.move i (s.base.retInt i value) .idle)
  | .exit, _ => s.locking (.proc i) (s.goto i .dying)
  | .dying, .call (.exit status) =>
      some (s.move i (s.base.setProc i (exitProc (s.base.proc i) status)) .dead)
  | .dead, _ => some (s.goto i .idle)
  | .sleep lk chan, _ => s.locking (.proc i) (s.goto i (.sleepLocked lk chan))
  | .sleepLocked _ chan, _ => some (s.goto i (.sleepReleased chan))
  | .sleepReleased chan, .call call => some (s.move i (s.base.sleep i chan call) .idle)
  | _, _ => none

end

/-! ## Steps -/

/-- What can happen next.  The loops of `update_time` and of the rest of the
    kernel's `wakeup` go slot by slot. -/
inductive LEvent
  | schedule (i : Fin nproc)
  | yield (i : Fin nproc)
  | trap (i : Fin nproc) (regs : Trapframe) (cause : Cause)
  | run (i : Fin nproc) (o : Outcome)
  | updateTime (j : Fin nproc)
  | notify (number : Nat) (j : Fin nproc)
  deriving DecidableEq, Repr

/-- The state after an event, if the event can happen. -/
def lstep (e : LEvent) (s : LState) : Option LState :=
  match e with
  | .schedule i => (s.coarse (.schedule i)).bind (s.locking (.proc i))
  -- interrupts are off while a process holds a spinlock
  | .yield i => if s.place i = .idle then s.coarse (.yield i) else none
  | .trap i regs cause => s.coarse (.trap i regs cause)
  | .run i o =>
      if (s.base.proc i).state = .running ∨ s.place i = .dead then placeStep s i o else none
  | .updateTime j =>
      s.locking (.proc j) { s with base := s.base.setProc j (updateTime (s.base.proc j)) }
  | .notify number j =>
      s.locking (.proc j)
        { s with base := s.base.setProc j (wakeupProc (some (.outside number)) (s.base.proc j)) }

/-- No process is inside a section. -/
def LState.quiet (base : KState) : LState := ⟨base, fun _ => .idle⟩

/-- The states of all runs from boot. -/
def LReachable (s : LState) : Prop :=
  Lib.Steps lstep (fun _ _ => True) (LState.quiet bootState) s

end G20OsLab.Kernel
