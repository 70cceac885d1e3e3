/-
  G20OsLab.Kernel.Calls

  The sections of `kernel/proc.c` that work on the whole process table, as
  functions of the process `i` that runs them (`myproc()`).

  A section ends by returning from the system call (`ret`), by going to sleep
  (`sleep`), or at the next place where no lock is held (`setKpc`).
-/

import G20OsLab.Kernel.Proc

namespace G20OsLab.Kernel

/-! ## Updates -/

def KState.setProc (s : KState) (i : Fin nproc) (p : Proc) : KState :=
  { s with proc := Function.update s.proc i p }

def KState.setKpc (s : KState) (i : Fin nproc) (kpc : Kpc) : KState :=
  { s with kpc := Function.update s.kpc i kpc }

def KState.setSem (s : KState) (k : Fin nsem) (sem : Ksem) : KState :=
  { s with semtable := Function.update s.semtable k sem }

/-- Apply a function to every slot. -/
def KState.mapProc (s : KState) (f : Proc → Proc) : KState :=
  { s with proc := fun j => f (s.proc j) }

def KState.wakeup (s : KState) (chan : Option Chan) : KState := s.mapProc (wakeupProc chan)

/-- `syscall()` stores the return value in `a0`. -/
def KState.ret (s : KState) (i : Fin nproc) (value : UInt64) : KState :=
  (s.setProc i { s.proc i with trapframe := { (s.proc i).trapframe with a0 := value } }).setKpc i
    (.trapExit false)

/-- The return from a function of type `int`. -/
def KState.retInt (s : KState) (i : Fin nproc) (value : Int) : KState := s.ret i (u64OfInt value)

/-- `sleep(chan, lk)` in a round of the loop of `call`. -/
def KState.sleep (s : KState) (i : Fin nproc) (chan : Chan) (call : Call) : KState :=
  (s.setProc i (sleepOn chan (s.proc i))).setKpc i (.asleep call)

/-- Replace slot `j` by the first component and return the second. -/
def KState.setRet (s : KState) (i j : Fin nproc) (result : Proc × Int) : KState :=
  (s.setProc j result.1).retInt i result.2

section Updates

variable (s : KState) (i j : Fin nproc) (p : Proc) (pc : Kpc) (k : Fin nsem) (sem : Ksem)
variable (chan : Option Chan) (value : UInt64) (v : Int) (result : Proc × Int)

@[simp] theorem setProc_proc : (s.setProc i p).proc = Function.update s.proc i p := rfl
@[simp] theorem setProc_kpc : (s.setProc i p).kpc = s.kpc := rfl
@[simp] theorem setProc_semtable : (s.setProc i p).semtable = s.semtable := rfl
@[simp] theorem setProc_nextpid : (s.setProc i p).nextpid = s.nextpid := rfl

@[simp] theorem setKpc_proc : (s.setKpc i pc).proc = s.proc := rfl
@[simp] theorem setKpc_kpc : (s.setKpc i pc).kpc = Function.update s.kpc i pc := rfl
@[simp] theorem setKpc_semtable : (s.setKpc i pc).semtable = s.semtable := rfl
@[simp] theorem setKpc_nextpid : (s.setKpc i pc).nextpid = s.nextpid := rfl

@[simp] theorem setSem_proc : (s.setSem k sem).proc = s.proc := rfl
@[simp] theorem setSem_kpc : (s.setSem k sem).kpc = s.kpc := rfl
@[simp] theorem setSem_semtable :
    (s.setSem k sem).semtable = Function.update s.semtable k sem := rfl
@[simp] theorem setSem_nextpid : (s.setSem k sem).nextpid = s.nextpid := rfl

@[simp] theorem wakeup_proc : (s.wakeup chan).proc = fun j => wakeupProc chan (s.proc j) := rfl
@[simp] theorem wakeup_kpc : (s.wakeup chan).kpc = s.kpc := rfl
@[simp] theorem wakeup_semtable : (s.wakeup chan).semtable = s.semtable := rfl
@[simp] theorem wakeup_nextpid : (s.wakeup chan).nextpid = s.nextpid := rfl

@[simp] theorem ret_semtable : (s.ret i value).semtable = s.semtable := rfl
@[simp] theorem ret_nextpid : (s.ret i value).nextpid = s.nextpid := rfl
@[simp] theorem retInt_semtable : (s.retInt i v).semtable = s.semtable := rfl
@[simp] theorem retInt_nextpid : (s.retInt i v).nextpid = s.nextpid := rfl

@[simp] theorem ret_kpc_self : (s.ret i value).kpc i = .trapExit false :=
  Function.update_self ..

@[simp] theorem retInt_kpc_self : (s.retInt i v).kpc i = .trapExit false :=
  ret_kpc_self ..

theorem ret_proc : (s.ret i value).proc = Function.update s.proc i
    { s.proc i with trapframe := { (s.proc i).trapframe with a0 := value } } := rfl

theorem retInt_proc : (s.retInt i v).proc = Function.update s.proc i
    { s.proc i with trapframe := { (s.proc i).trapframe with a0 := u64OfInt v } } := rfl

theorem retInt_a0 : ((s.retInt i v).proc i).trapframe.a0 = u64OfInt v := by
  rw [retInt_proc, Function.update_self]

/-- A return changes no slot but in the registers. -/
theorem exists_retInt_proc :
    ∃ tf, (s.retInt i v).proc j = { s.proc j with trapframe := tf } := by
  by_cases hj : j = i
  · subst hj
    exact ⟨_, by rw [retInt_proc, Function.update_self]⟩
  · exact ⟨(s.proc j).trapframe, by rw [retInt_proc, Function.update_of_ne hj]⟩

theorem retInt_state : ((s.retInt i v).proc j).state = (s.proc j).state := by
  obtain ⟨tf, htf⟩ := exists_retInt_proc s i j v
  rw [htf]

theorem setRet_proc (hj : j ≠ i) : (s.setRet i j result).proc j = result.1 := by
  rw [KState.setRet, retInt_proc, Function.update_of_ne hj, setProc_proc, Function.update_self]

theorem setRet_state : ((s.setRet i j result).proc j).state = result.1.state := by
  rw [KState.setRet, retInt_state, setProc_proc, Function.update_self]

end Updates

/-! ## Scans -/

/-- `fork_with_priority` and `kclone` at an `UNUSED` slot `j`, up to the
    release of its lock; `child` fills in what the new process gets from its
    creator. -/
def spawn (s : KState) (i j : Fin nproc) (o : Outcome) (child : Proc → Proc → Proc) : KState :=
  let pid := s.nextpid
  let s := { s with nextpid := pid + 1 }
  match allocproc (s.proc j) pid o.pagesOk with
  -- `allocproc` frees the slot again if a page is missing, the pid is used up
  | none => (s.setProc j (freeproc (allocInit (s.proc j) pid))).retInt i (-1)
  | some np =>
      if o.copyOk then
        -- the child will start in `forkret`
        ((s.setProc j (child (s.proc i) np)).setKpc j .user).setKpc i (.link j pid)
      else
        (s.setProc j (freeproc np)).retInt i (-1)

/-- A scan at slot `j`: `none` to go on to the next slot. -/
def scanAt (s : KState) (i j : Fin nproc) (o : Outcome) (scan : Scan) : Option KState :=
  let p := s.proc j
  match scan with
  -- `kkill` does not look at the state
  | .kill pid => if p.pid = pid then some (s.setRet i j (killProc p, 0)) else none
  | .setpriority pid priority =>
      if p.pid = pid ∧ p.state ≠ .unused then
        some (s.setRet i j ({ p with priority := priority }, 0))
      else
        none
  | .getpriority pid =>
      if p.pid = pid ∧ p.state ≠ .unused then some (s.setRet i j (p, p.priority)) else none
  | .sigsend pid signum =>
      if p.pid = pid ∧ p.state ≠ .unused then some (s.setRet i j (sigsendProc p signum)) else none
  | .fork priority =>
      if p.state = .unused then
        some (spawn s i j o fun parent np => forkChild parent np priority)
      else
        none
  | .clone fn stack arg =>
      if p.state = .unused then
        some (spawn s i j o fun creator nt => cloneChild creator nt fn stack arg)
      else
        none

/-- One section of a scan; past the last slot it returns `-1`. -/
def scanSection (s : KState) (i : Fin nproc) (o : Outcome) (scan : Scan) (k : Nat) : KState :=
  if h : k < nproc then
    (scanAt s i ⟨k, h⟩ o scan).getD (s.setKpc i (.scan scan (k + 1)))
  else
    s.retInt i (-1)

/-! ## Exit and wait -/

/-- `reparent(p)`: `wakeup(initproc)` runs if there is a child to hand over. -/
def reparent (s : KState) (i : Fin nproc) : KState :=
  let s' := s.mapProc (reparentProc i s.initproc)
  if (List.finRange nproc).any fun j => decide ((s.proc j).parent = some i) then
    s'.wakeup (some (.proc s.initproc))
  else
    s'

/-- `kexit` under `wait_lock`. -/
def kexit (s : KState) (i : Fin nproc) (status : Int) : KState :=
  let s := reparent s i
  -- the parent may sleep in `wait`; without one this is `wakeup(0)`
  let s := s.wakeup ((s.proc i).parent.map .proc)
  s.setProc i (exitProc (s.proc i) status)

theorem reparent_kpc {s : KState} {i : Fin nproc} : (reparent s i).kpc = s.kpc := by
  rw [reparent]
  split <;> rfl

theorem kexit_kpc {s : KState} {i : Fin nproc} {status : Int} :
    (kexit s i status).kpc = s.kpc := reparent_kpc

/-- The loop of `kwait`, `waitx` and `kjoin`: look for a `ZOMBIE` among the
    slots that pass `child`, copy its status out and free it; without one
    sleep, unless no slot passes or the caller has been killed. -/
def waitSection (s : KState) (i : Fin nproc) (call : Call) (child : Proc → Bool) (copied : Bool)
    (result : Proc → Int) : KState :=
  match (List.finRange nproc).find? fun j =>
      child (s.proc j) && decide ((s.proc j).state = .zombie) with
  | some j =>
      -- if the status cannot be copied out, the child stays a `ZOMBIE`
      if copied then s.setRet i j (freeproc (s.proc j), result (s.proc j)) else s.retInt i (-1)
  | none =>
      -- `!havekids || killed(p)`
      if !((List.finRange nproc).any fun j => child (s.proc j)) || (s.proc i).killed then
        s.retInt i (-1)
      else
        s.sleep i (.proc i) call

def kwait (s : KState) (i : Fin nproc) (o : Outcome) (addr : UInt64) : KState :=
  waitSection s i (.wait addr) (fun pp => decide (pp.parent = some i) && !pp.isThread)
    (decide (addr = 0) || o.copyOk) (·.pid)

def waitx (s : KState) (i : Fin nproc) (o : Outcome) (rtime wtime : UInt64) : KState :=
  waitSection s i (.waitx rtime wtime) (fun pp => decide (pp.parent = some i) && !pp.isThread)
    (o.copyOk && o.copyOk2) (·.pid)

def kjoin (s : KState) (i : Fin nproc) (tid : Int) : KState :=
  waitSection s i (.join tid)
    (fun pp => decide (pp.parent = some i) && decide (pp.pid = tid) && pp.isThread) true
    fun _ => tid

/-! ## Messages -/

def msgsend (s : KState) (i : Fin nproc) (o : Outcome) (pid : Int) : KState :=
  match (List.finRange nproc).find? fun j =>
      decide ((s.proc j).state ≠ .unused) && decide ((s.proc j).pid = pid) with
  | some j =>
      let (p, result) := msgsendProc (s.proc j) o.bytes o.copyOk
      let s := s.setProc j p
      -- the receiver sleeps on its own flag
      (if result = 0 then s.wakeup (some (.msgFlag j)) else s).retInt i result
  | none => s.retInt i (-1)

def msgrecv (s : KState) (i : Fin nproc) (o : Outcome) (buf : UInt64) : KState :=
  if (s.proc i).msgFlag then s.setRet i i (msgrecvProc (s.proc i) o.copyOk)
  else s.sleep i (.msgFlag i) (.msgrecv buf)

/-! ## Semaphores -/

/-- `semtable[semid]`, if the index is in range. -/
def semIndex (semid : Int) : Option (Fin nsem) :=
  if h : 0 ≤ semid ∧ semid < nsem then some ⟨semid.toNat, by omega⟩ else none

def ksemInit (s : KState) (i : Fin nproc) (semid value : Int) : KState :=
  match semIndex semid with
  | none => s.retInt i (-1)
  | some k =>
      if value < 0 then s.retInt i (-1)
      else ((s.setSem k ⟨true, value⟩).wakeup (some (.sem k))).retInt i 0

/-- One round of the loop of `ksem_wait`. -/
def ksemWait (s : KState) (i : Fin nproc) (semid : Int) : KState :=
  match semIndex semid with
  | none => s.retInt i (-1)
  | some k =>
      if (s.semtable k).used = false then s.retInt i (-1)
      else if (s.semtable k).value = 0 then s.sleep i (.sem k) (.semWait semid)
      else
        (s.setSem k { s.semtable k with value := wrapInt ((s.semtable k).value - 1) }).retInt i 0

def ksemPost (s : KState) (i : Fin nproc) (semid : Int) : KState :=
  match semIndex semid with
  | none => s.retInt i (-1)
  | some k =>
      if (s.semtable k).used = false then s.retInt i (-1)
      else
        ((s.setSem k { s.semtable k with value := wrapInt ((s.semtable k).value + 1) }).wakeup
          (some (.sem k))).retInt i 0

/-! ## Exec -/

/-- The end of `kexec`. -/
def kexec (s : KState) (i : Fin nproc) (img : ExecImage) : KState :=
  { s.setRet i i (execCommit (s.proc i) img s.nextImage) with nextImage := s.nextImage + 1 }

end G20OsLab.Kernel
