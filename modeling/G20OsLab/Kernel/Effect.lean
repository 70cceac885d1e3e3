/-
  G20OsLab.Kernel.Effect

  What a step can do.

  `Mutation s e j` lists the changes that event `e` in state `s` can make to
  slot `j`, each with the condition it is made under, `Control s e i` the
  places it can bring process `i` to, and `SemChange s e k` what it can make
  of a semaphore.  `step_effect` says that these are all: an invariant is
  proved from the lists, and no proof after this module unfolds the system
  calls for it.
-/

import G20OsLab.Lib.Pointwise
import G20OsLab.Kernel.Step

namespace G20OsLab.Kernel

/-! ## Changes of a slot -/

/-- In event `e`, process `i` takes the section at `pc`. -/
def KState.At (s : KState) (e : Event) (i : Fin nproc) (pc : Kpc) : Prop :=
  (∃ o, e = .run i o) ∧ (s.proc i).state = .running ∧ s.kpc i = pc

theorem KState.At.running {s : KState} {e : Event} {i : Fin nproc} {pc : Kpc}
    (h : s.At e i pc) : (s.proc i).state = .running := h.2.1

/-- In event `e`, `kexec` of process `i` commits to the image `img`. -/
def KState.Commits (s : KState) (e : Event) (i : Fin nproc) (img : ExecImage) : Prop :=
  ∃ o : Outcome, e = .run i o ∧ (s.proc i).state = .running ∧ o.exec = some img ∧
    (s.kpc i = .boot ∨ s.kpc i = .call .exec ∧ o.sleepOn = none)

theorem KState.Commits.running {s : KState} {e : Event} {i : Fin nproc} {img : ExecImage}
    (h : s.Commits e i img) : (s.proc i).state = .running := by
  obtain ⟨o, -, hrun, -⟩ := h
  exact hrun

/-- The pid a scan looks for; `fork` and `clone` look for an `UNUSED` slot. -/
def Scan.pidArg : Scan → Option Int
  | .kill pid => some pid
  | .setpriority pid _ => some pid
  | .getpriority pid => some pid
  | .sigsend pid _ => some pid
  | .fork _ => none
  | .clone _ _ _ => none

/-- What the loops of `kwait`, `waitx` and `kjoin` look for among the
    children. -/
def Call.Reaps (call : Call) (p : Proc) : Prop :=
  match call with
  | .wait _ | .waitx _ _ => p.isThread = false
  | .join tid => p.pid = tid ∧ p.isThread = true
  | _ => False

/-- The changes to slot `j`, from its content before to its content after.
    Those with `At e j` are made by the process to itself; those from
    `s.proc j` are the first of their step. -/
inductive Mutation (s : KState) (e : Event) (j : Fin nproc) : Proc → Proc → Prop
  | schedule (hp : (s.proc j).state = .runnable) :
      Mutation s e j (s.proc j) { s.proc j with state := .running }
  | yield (hp : (s.proc j).state = .running)
      (hact : e = .yield j ∨ ∃ timer, s.At e j (.trapExit timer)) :
      Mutation s e j (s.proc j) { s.proc j with state := .runnable }
  | wakeup {p : Proc} (chan : Option Chan) : Mutation s e j p (wakeupProc chan p)
  | updateTime : Mutation s e j (s.proc j) (updateTime (s.proc j))
  | sleep {call : Call} (chan : Chan) (hat : s.At e j (.call call)) :
      Mutation s e j (s.proc j) (sleepOn chan (s.proc j))
  | tidy {call : Call} (hat : s.At e j (.asleep call)) :
      Mutation s e j (s.proc j) { s.proc j with chan := none }
  | kill {i : Fin nproc} {pid : Int} (hat : s.At e i (.scan (.kill pid) j))
      (hpid : (s.proc j).pid = pid) : Mutation s e j (s.proc j) (killProc (s.proc j))
  | fault {regs : Trapframe} (hrun : (s.proc j).state = .running) :
      Mutation s e j (s.proc j) { s.proc j with trapframe := regs, killed := true }
  | setpriority {i : Fin nproc} {pid : Int} {priority : Int}
      (hat : s.At e i (.scan (.setpriority pid priority) j)) (hpid : (s.proc j).pid = pid)
      (hp : (s.proc j).state ≠ .unused) :
      Mutation s e j (s.proc j) { s.proc j with priority := priority }
  | sigsend {i : Fin nproc} {pid signum : Int} (hat : s.At e i (.scan (.sigsend pid signum) j))
      (hpid : (s.proc j).pid = pid) (hp : (s.proc j).state ≠ .unused) :
      Mutation s e j (s.proc j) (sigsendProc (s.proc j) signum).1
  | abort {i : Fin nproc} {scan : Scan} (pid : Int) (hat : s.At e i (.scan scan j))
      (hscan : scan.pidArg = none) (hp : (s.proc j).state = .unused) :
      Mutation s e j (s.proc j) (freeproc (allocInit (s.proc j) pid))
  | fork {i : Fin nproc} {priority : Int} (hat : s.At e i (.scan (.fork priority) j))
      (hp : (s.proc j).state = .unused) :
      Mutation s e j (s.proc j)
        (forkChild (s.proc i) (allocInit (s.proc j) s.nextpid) priority)
  | clone {i : Fin nproc} {fn stack arg : UInt64} (hat : s.At e i (.scan (.clone fn stack arg) j))
      (hp : (s.proc j).state = .unused) :
      Mutation s e j (s.proc j)
        (cloneChild (s.proc i) (allocInit (s.proc j) s.nextpid) fn stack arg)
  | link {i : Fin nproc} {pid : Int} (hat : s.At e i (.link j pid)) :
      Mutation s e j (s.proc j) { s.proc j with parent := some i }
  | ready {i : Fin nproc} {pid : Int} (hat : s.At e i (.ready j pid)) :
      Mutation s e j (s.proc j) { s.proc j with state := .runnable }
  | reparent {i : Fin nproc} {status : Int} (hat : s.At e i (.call (.exit status))) :
      Mutation s e j (s.proc j) (reparentProc i s.initproc (s.proc j))
  | exit {p : Proc} {status : Int} (hat : s.At e j (.call (.exit status)))
      (hj : j ≠ s.initproc) : Mutation s e j p (exitProc p status)
  | free {i : Fin nproc} {call : Call} (hat : s.At e i (.call call))
      (hreaps : call.Reaps (s.proc j)) (hparent : (s.proc j).parent = some i)
      (hp : (s.proc j).state = .zombie) : Mutation s e j (s.proc j) (freeproc (s.proc j))
  | deliver {i : Fin nproc} {pid : Int} {msg : UInt64} (bytes : List UInt8) (copyOk : Bool)
      (hat : s.At e i (.call (.msgsend pid msg))) (hpid : (s.proc j).pid = pid)
      (hp : (s.proc j).state ≠ .unused) :
      Mutation s e j (s.proc j) (msgsendProc (s.proc j) bytes copyOk).1
  | receive {buf : UInt64} (copyOk : Bool) (hat : s.At e j (.call (.msgrecv buf)))
      (hp : (s.proc j).msgFlag = true) :
      Mutation s e j (s.proc j) (msgrecvProc (s.proc j) copyOk).1
  | regs {p : Proc} (tf : Trapframe) (hrun : (s.proc j).state = .running) :
      Mutation s e j p { p with trapframe := tf }
  | sigalarm {ticks : Int} {handler : UInt64} (hat : s.At e j (.call (.sigalarm ticks handler))) :
      Mutation s e j (s.proc j) (sigalarm (s.proc j) ticks handler).1
  | sigreturn (hat : s.At e j (.call .sigreturn)) :
      Mutation s e j (s.proc j) (sigreturn (s.proc j)).1
  | signalcheck (hat : s.At e j .signal) : Mutation s e j (s.proc j) (signalcheck (s.proc j))
  | signaltick {regs : Trapframe} (he : e = .trap j regs .timer)
      (hrun : (s.proc j).state = .running) :
      Mutation s e j (s.proc j) (signaltick { s.proc j with trapframe := regs })
  | exec {img : ExecImage} (hcommit : s.Commits e j img) :
      Mutation s e j (s.proc j) (execCommit (s.proc j) img s.nextImage).1
  | sbrk {n t : Int} (sz : UInt64) (hat : s.At e j (.call (.sbrk n t))) :
      Mutation s e j (s.proc j) { s.proc j with sz := sz }

/-! ## Moves of a process -/

/-- What a call has checked before it scans the table. -/
def Scan.Checked : Scan → Prop
  | .setpriority _ priority => priorityValid priority = true
  | .sigsend _ signum => 0 < signum
  | _ => True

/-- Where process `i` can stand after event `e`. -/
inductive Control (s : KState) (e : Event) (i : Fin nproc) : Kpc → Prop
  | stay : Control s e i (s.kpc i)
  | spawned (hi : (s.proc i).state = .unused) : Control s e i .user
  | trapEcall {regs : Trapframe} (he : e = .trap i regs .ecall) : Control s e i .ecall
  | trapOther {regs : Trapframe} {cause : Cause} {timer : Bool} (he : e = .trap i regs cause) :
      Control s e i (.trapExit timer)
  | enter {call : Call} (hat : s.At e i .ecall) : Control s e i (.call call)
  | killed {timer : Bool} (hat : s.At e i (.trapExit timer)) : Control s e i (.call (.exit (-1)))
  | resume {call : Call} (hat : s.At e i (.asleep call)) : Control s e i (.call call)
  | sleep {call : Call} (hat : s.At e i (.call call)) : Control s e i (.asleep call)
  | scan {call : Call} {scan : Scan} (hat : s.At e i (.call call)) (hscan : scan.Checked) :
      Control s e i (.scan scan 0)
  | next {scan : Scan} {k : Nat} (hat : s.At e i (.scan scan k)) :
      Control s e i (.scan scan (k + 1))
  | link {scan : Scan} {child : Fin nproc} {pid : Int} (hat : s.At e i (.scan scan child))
      (hchild : (s.proc child).state = .unused) : Control s e i (.link child pid)
  | ready {child : Fin nproc} {pid : Int} (hat : s.At e i (.link child pid)) :
      Control s e i (.ready child pid)
  | ret {pc : Kpc} (hat : s.At e i pc) : Control s e i (.trapExit false)
  | signal {timer : Bool} (hat : s.At e i (.trapExit timer)) : Control s e i .signal
  | leave (hat : s.At e i .boot ∨ s.At e i .signal) : Control s e i .user

/-! ## Changes of a semaphore -/

/-- What event `e` can leave of semaphore `k`. -/
inductive SemChange (s : KState) (e : Event) (k : Fin nsem) : Ksem → Prop
  | stay : SemChange s e k (s.semtable k)
  | init {i : Fin nproc} {semid value : Int} (hat : s.At e i (.call (.semInit semid value)))
      (hk : semIndex semid = some k) (hvalue : 0 ≤ value) : SemChange s e k ⟨true, value⟩
  | wait {i : Fin nproc} {semid : Int} (hat : s.At e i (.call (.semWait semid)))
      (hk : semIndex semid = some k) (hused : (s.semtable k).used = true)
      (hvalue : (s.semtable k).value ≠ 0) :
      SemChange s e k { s.semtable k with value := wrapInt ((s.semtable k).value - 1) }
  | post {i : Fin nproc} {semid : Int} (hat : s.At e i (.call (.semPost semid)))
      (hk : semIndex semid = some k) (hused : (s.semtable k).used = true) :
      SemChange s e k { s.semtable k with value := wrapInt ((s.semtable k).value + 1) }

/-! ## Effects -/

/-- `t` differs from `s` by changes and moves that `e` can make. -/
structure KState.Effect (s : KState) (e : Event) (t : KState) : Prop where
  proc : Lib.Pointwise (Mutation s e) s.proc t.proc
  kpc : ∀ i, Control s e i (t.kpc i)
  semtable : ∀ k, SemChange s e k (t.semtable k)
  initproc : t.initproc = s.initproc
  nextpid : s.nextpid ≤ t.nextpid
  nextImage : s.nextImage ≤ t.nextImage

section Effect

variable {s t : KState} {e : Event} {i j : Fin nproc} {p : Proc} {pc : Kpc}

/-- Nothing happens. -/
theorem KState.Effect.refl : s.Effect e s where
  proc := Lib.Pointwise.refl
  kpc := fun _ => .stay
  semtable := fun _ => .stay
  initproc := rfl
  nextpid := le_refl _
  nextImage := le_refl _

/-- A slot is changed in a way that `Mutation` lists. -/
theorem KState.Effect.setProc (h : s.Effect e t) (hp : Mutation s e j (t.proc j) p) :
    s.Effect e (t.setProc j p) :=
  { h with proc := h.proc.update hp }

/-- So is every slot. -/
theorem KState.Effect.mapProc (h : s.Effect e t) {f : Proc → Proc}
    (hf : ∀ j, Mutation s e j (t.proc j) (f (t.proc j))) : s.Effect e (t.mapProc f) :=
  { h with proc := h.proc.map hf }

/-- A wake-up is such a change. -/
theorem KState.Effect.wakeup (h : s.Effect e t) {chan : Option Chan} : s.Effect e (t.wakeup chan) :=
  h.mapProc fun _ => .wakeup chan

/-- A semaphore is changed in a way that `SemChange` lists. -/
theorem KState.Effect.setSem (h : s.Effect e t) {k : Fin nsem} {sem : Ksem}
    (hsem : SemChange s e k sem) : s.Effect e (t.setSem k sem) := by
  refine { h with semtable := fun k' => ?_ }
  by_cases hk : k' = k
  · subst hk
    simpa using hsem
  · simpa [hk] using h.semtable k'

theorem KState.Effect.setNextpid (h : s.Effect e t) {pid : Int} (hpid : t.nextpid ≤ pid) :
    s.Effect e { t with nextpid := pid } :=
  { h with nextpid := h.nextpid.trans hpid }

/-- The process goes on at another place. -/
theorem KState.Effect.setKpc (h : s.Effect e t) (hpc : Control s e i pc) :
    s.Effect e (t.setKpc i pc) := by
  refine { h with kpc := fun i' => ?_ }
  by_cases hi : i' = i
  · subst hi
    simpa [KState.setKpc] using hpc
  · simpa [KState.setKpc, hi] using h.kpc i'

/-- The call returns. -/
theorem KState.Effect.ret (h : s.Effect e t) (hat : s.At e i pc) {value : UInt64} :
    s.Effect e (t.ret i value) :=
  (h.setProc (.regs _ hat.running)).setKpc (.ret hat)

theorem KState.Effect.retInt (h : s.Effect e t) (hat : s.At e i pc) {value : Int} :
    s.Effect e (t.retInt i value) :=
  h.ret hat

/-- The process goes to sleep in its call. -/
theorem KState.Effect.sleep {call : Call} (hat : s.At e i (.call call)) {chan : Chan} :
    s.Effect e (s.sleep i chan call) :=
  (KState.Effect.refl.setProc (.sleep chan hat)).setKpc (.sleep hat)

theorem KState.Effect.setRet (h : s.Effect e t) (hat : s.At e i pc) {result : Proc × Int}
    (hp : Mutation s e j (t.proc j) result.1) : s.Effect e (t.setRet i j result) :=
  (h.setProc hp).retInt hat

end Effect

/-! ## The sections of the system calls -/

section Sections

variable {s : KState} {i : Fin nproc} {o : Outcome}

/-- A new process is a change of the slot that it takes. -/
theorem spawn_effect {e : Event} {j : Fin nproc} {scan : Scan} {child : Proc → Proc → Proc}
    (hat : s.At e i (.scan scan j)) (hscan : scan.pidArg = none)
    (hj : (s.proc j).state = .unused)
    (hchild : Mutation s e j (s.proc j) (child (s.proc i) (allocInit (s.proc j) s.nextpid))) :
    s.Effect e (spawn s i j o child) := by
  have h : s.Effect e { s with nextpid := s.nextpid + 1 } :=
    KState.Effect.refl.setNextpid (by omega)
  -- both failures free the slot again
  have hfail := h.setProc (.abort s.nextpid hat hscan hj)
  simp only [spawn, allocproc]
  cases o.pagesOk with
  | false => exact hfail.retInt hat
  | true =>
      simp only [if_true]
      split
      · exact ((h.setProc hchild).setKpc (.spawned hj)).setKpc (.link hat hj)
      · exact hfail.retInt hat

/-- A scan stops at a slot. -/
theorem scanAt_effect {scan : Scan} {j : Fin nproc} {t : KState}
    (hat : s.At (.run i o) i (.scan scan j)) (h : scanAt s i j o scan = some t) :
    s.Effect (.run i o) t := by
  unfold scanAt at h
  cases scan with
  | kill pid =>
      simp only [Option.ite_none_right_eq_some, Option.some.injEq] at h
      obtain ⟨hpid, rfl⟩ := h
      exact KState.Effect.refl.setRet hat (.kill hat hpid)
  | setpriority pid priority =>
      simp only [Option.ite_none_right_eq_some, Option.some.injEq] at h
      obtain ⟨⟨hpid, hp⟩, rfl⟩ := h
      exact KState.Effect.refl.setRet hat (.setpriority hat hpid hp)
  | getpriority pid =>
      simp only [Option.ite_none_right_eq_some, Option.some.injEq] at h
      obtain ⟨-, rfl⟩ := h
      -- it only reads
      have hsame : s.setProc j (s.proc j) = s := by simp [KState.setProc]
      rw [KState.setRet, hsame]
      exact KState.Effect.refl.retInt hat
  | sigsend pid signum =>
      simp only [Option.ite_none_right_eq_some, Option.some.injEq] at h
      obtain ⟨⟨hpid, hp⟩, rfl⟩ := h
      exact KState.Effect.refl.setRet hat (.sigsend hat hpid hp)
  | fork priority =>
      simp only [Option.ite_none_right_eq_some, Option.some.injEq] at h
      obtain ⟨hp, rfl⟩ := h
      exact spawn_effect hat rfl hp (.fork hat hp)
  | clone fn stack arg =>
      simp only [Option.ite_none_right_eq_some, Option.some.injEq] at h
      obtain ⟨hp, rfl⟩ := h
      exact spawn_effect hat rfl hp (.clone hat hp)

/-- A step of a scan. -/
theorem scanSection_effect {scan : Scan} {k : Nat} (hat : s.At (.run i o) i (.scan scan k)) :
    s.Effect (.run i o) (scanSection s i o scan k) := by
  rw [scanSection]
  split
  · rename_i hk
    cases hscan : scanAt s i ⟨k, hk⟩ o scan with
    -- on to the next slot
    | none => exact KState.Effect.refl.setKpc (.next hat)
    | some t => exact scanAt_effect hat hscan
  · exact KState.Effect.refl.retInt hat

/-- `kexit` makes a zombie of the process and gives its children away. -/
theorem kexit_effect {status : Int} (hat : s.At (.run i o) i (.call (.exit status)))
    (hi : i ≠ s.initproc) : s.Effect (.run i o) (kexit s i status) := by
  have hmap : s.Effect (.run i o) (s.mapProc (reparentProc i s.initproc)) :=
    KState.Effect.refl.mapProc fun _ => .reparent hat
  have hreparent : s.Effect (.run i o) (reparent s i) := by
    rw [reparent]
    split
    · exact hmap.wakeup
    · exact hmap
  exact hreparent.wakeup.setProc (.exit hat hi)

/-- A round of `wait`, `waitx` or `join` frees a child, sleeps or returns. -/
theorem waitSection_effect {call : Call} {child : Proc → Bool} {copied : Bool}
    {result : Proc → Int} (hat : s.At (.run i o) i (.call call))
    (hchild : ∀ p, child p = true → call.Reaps p ∧ p.parent = some i) :
    s.Effect (.run i o) (waitSection s i call child copied result) := by
  rw [waitSection]
  split
  · rename_i j hj
    have hfound := List.find?_some hj
    simp only [Bool.and_eq_true, decide_eq_true_eq] at hfound
    split
    · obtain ⟨hreaps, hparent⟩ := hchild _ hfound.1
      exact KState.Effect.refl.setRet hat (.free hat hreaps hparent hfound.2)
    · exact KState.Effect.refl.retInt hat
  · split
    · exact KState.Effect.refl.retInt hat
    · exact KState.Effect.sleep hat

/-- `msgsend` changes the mailbox of another process. -/
theorem msgsend_effect {pid : Int} {msg : UInt64}
    (hat : s.At (.run i o) i (.call (.msgsend pid msg))) :
    s.Effect (.run i o) (msgsend s i o pid) := by
  rw [msgsend]
  split
  · rename_i j hj
    have hfound := List.find?_some hj
    simp only [Bool.and_eq_true, decide_eq_true_eq] at hfound
    have hdeliver : s.Effect (.run i o)
        (s.setProc j (msgsendProc (s.proc j) o.bytes o.copyOk).1) :=
      KState.Effect.refl.setProc (.deliver _ _ hat hfound.2 hfound.1)
    simp only
    split
    · exact hdeliver.wakeup.retInt hat
    · exact hdeliver.retInt hat
  · exact KState.Effect.refl.retInt hat

/-- `msgrecv` changes the mailbox of the process itself. -/
theorem msgrecv_effect {buf : UInt64} (hat : s.At (.run i o) i (.call (.msgrecv buf))) :
    s.Effect (.run i o) (msgrecv s i o buf) := by
  rw [msgrecv]
  split
  · rename_i hflag
    exact KState.Effect.refl.setRet hat (.receive _ hat hflag)
  · exact KState.Effect.sleep hat

theorem ksemInit_effect {semid value : Int}
    (hat : s.At (.run i o) i (.call (.semInit semid value))) :
    s.Effect (.run i o) (ksemInit s i semid value) := by
  rw [ksemInit]
  split
  · exact KState.Effect.refl.retInt hat
  · rename_i k hk
    split
    · exact KState.Effect.refl.retInt hat
    · rename_i hvalue
      exact (KState.Effect.refl.setSem (.init hat hk (by omega))).wakeup.retInt hat

theorem ksemWait_effect {semid : Int} (hat : s.At (.run i o) i (.call (.semWait semid))) :
    s.Effect (.run i o) (ksemWait s i semid) := by
  rw [ksemWait]
  split
  · exact KState.Effect.refl.retInt hat
  · rename_i k hk
    split
    · exact KState.Effect.refl.retInt hat
    · rename_i hused
      split
      · exact KState.Effect.sleep hat
      · rename_i hvalue
        exact (KState.Effect.refl.setSem (.wait hat hk (by simpa using hused) hvalue)).retInt hat

theorem ksemPost_effect {semid : Int} (hat : s.At (.run i o) i (.call (.semPost semid))) :
    s.Effect (.run i o) (ksemPost s i semid) := by
  rw [ksemPost]
  split
  · exact KState.Effect.refl.retInt hat
  · rename_i k hk
    split
    · exact KState.Effect.refl.retInt hat
    · rename_i hused
      exact (KState.Effect.refl.setSem (.post hat hk (by simpa using hused))).wakeup.retInt hat

/-- `kexec` commits to the image. -/
theorem kexec_effect {img : ExecImage} {pc : Kpc} (hat : s.At (.run i o) i pc)
    (hcommit : s.Commits (.run i o) i img) : s.Effect (.run i o) (kexec s i img) :=
  { KState.Effect.refl.setRet hat (.exec hcommit) with nextImage := Nat.le_succ _ }

/-- A section of a call. -/
theorem callSection_effect {call : Call} {t : KState} (hat : s.At (.run i o) i (.call call))
    (h : callSection s i o call = some t) : s.Effect (.run i o) t := by
  have hret : ∀ v, s.Effect (.run i o) (s.retInt i v) := fun v => KState.Effect.refl.retInt hat
  have hscan : ∀ scan : Scan, scan.Checked → s.Effect (.run i o) (s.setKpc i (.scan scan 0)) :=
    fun scan hchecked => KState.Effect.refl.setKpc (.scan hat hchecked)
  -- a call returns, begins a scan, or does its work in one section
  cases call with
  | fork =>
      cases h
      exact hscan _ trivial
  | forkprio priority =>
      cases h
      split
      · exact hscan _ trivial
      · exact hret _
  | clone fn stack arg =>
      cases h
      split
      · exact hret _
      · exact hscan _ trivial
  | kill pid =>
      cases h
      exact hscan _ trivial
  | setpriority pid priority =>
      cases h
      split
      · rename_i hvalid
        exact hscan _ hvalid
      · exact hret _
  | getpriority pid =>
      cases h
      exact hscan _ trivial
  | sigsend pid signum =>
      cases h
      split
      · exact hret _
      · rename_i hsignum
        exact hscan _ (not_le.mp hsignum)
  | exit status =>
      simp only [callSection, Option.ite_none_left_eq_some] at h
      obtain ⟨hi, h⟩ := h
      split at h <;> cases h
      · exact KState.Effect.sleep hat
      · exact kexit_effect hat hi
  | wait addr =>
      cases h
      exact waitSection_effect hat fun p hp => by simp_all [Call.Reaps]
  | waitx rtime wtime =>
      cases h
      exact waitSection_effect hat fun p hp => by simp_all [Call.Reaps]
  | join tid =>
      cases h
      exact waitSection_effect hat fun p hp => by simp_all [Call.Reaps]
  | exec =>
      simp only [callSection] at h
      split at h <;> cases h
      · exact KState.Effect.sleep hat
      · rename_i img hsleep hexec
        exact kexec_effect hat ⟨o, rfl, hat.running, hexec, .inr ⟨hat.2.2, hsleep⟩⟩
      · exact hret _
  | getpid => cases h; exact hret _
  | sbrk n t =>
      simp only [callSection] at h
      split at h <;> cases h
      · exact (KState.Effect.refl.setProc (.sbrk _ hat)).ret hat
      · exact hret _
  | sigalarm ticks handler =>
      cases h
      exact KState.Effect.refl.setRet hat (.sigalarm hat)
  | sigreturn =>
      cases h
      exact KState.Effect.refl.setRet hat (.sigreturn hat)
  | msgsend pid msg => cases h; exact msgsend_effect hat
  | msgrecv buf => cases h; exact msgrecv_effect hat
  | semInit semid value => cases h; exact ksemInit_effect hat
  | semWait semid => cases h; exact ksemWait_effect hat
  | semPost semid => cases h; exact ksemPost_effect hat
  | other =>
      simp only [callSection] at h
      split at h <;> cases h
      · exact KState.Effect.sleep hat
      · exact KState.Effect.refl.ret hat

end Sections

/-! ## Steps -/

/-- A trap. -/
theorem trapSection_effect {s : KState} {i : Fin nproc} {regs : Trapframe} {cause : Cause}
    (hrun : (s.proc i).state = .running) :
    s.Effect (.trap i regs cause) (trapSection s i regs cause) := by
  have hregs := KState.Effect.refl.setProc (.regs (e := .trap i regs cause) regs hrun)
  cases cause with
  | ecall => exact hregs.setKpc (.trapEcall rfl)
  | timer => exact (KState.Effect.refl.setProc (.signaltick rfl hrun)).setKpc (.trapOther rfl)
  | device => exact hregs.setKpc (.trapOther rfl)
  | fault => exact (KState.Effect.refl.setProc (.fault hrun)).setKpc (.trapOther rfl)

/-- The arguments are read, and the call begins or fails. -/
theorem syscall_effect {s t : KState} {e : Event} {i : Fin nproc} (hat : s.At e i .ecall)
    (h : s.Effect e t) : s.Effect e (syscall t i) := by
  rw [syscall]
  split
  · exact h.setKpc (.enter hat)
  · exact h.retInt hat

/-- A section of a process. -/
theorem runSection_effect {s t : KState} {i : Fin nproc} {o : Outcome}
    (hrun : (s.proc i).state = .running) (h : runSection s i o = some t) :
    s.Effect (.run i o) t := by
  have hat : s.At (.run i o) i (s.kpc i) := ⟨⟨o, rfl⟩, hrun, rfl⟩
  rw [runSection] at h
  cases hkpc : s.kpc i with
  | user => simp [hkpc] at h
  | boot =>
      rw [hkpc] at h hat
      obtain ⟨img, hexec, rfl⟩ := Option.map_eq_some_iff.mp h
      exact (kexec_effect hat ⟨o, rfl, hrun, hexec, .inl hkpc⟩).setKpc (.leave (.inl hat))
  | ecall =>
      rw [hkpc] at hat
      simp only [hkpc] at h
      split at h <;> simp only [Option.some.injEq] at h <;> subst h
      · exact KState.Effect.refl.setKpc (.enter hat)
      · exact syscall_effect hat (KState.Effect.refl.setProc (.regs _ hrun))
  | call call =>
      rw [hkpc] at h hat
      exact callSection_effect hat h
  | scan scan k =>
      rw [hkpc] at hat
      simp only [hkpc, Option.some.injEq] at h
      subst h
      exact scanSection_effect hat
  | link child pid =>
      rw [hkpc] at hat
      simp only [hkpc, Option.some.injEq] at h
      subst h
      exact (KState.Effect.refl.setProc (.link hat)).setKpc (.ready hat)
  | ready child pid =>
      rw [hkpc] at hat
      simp only [hkpc, Option.some.injEq] at h
      subst h
      exact (KState.Effect.refl.setProc (.ready hat)).retInt hat
  | asleep call =>
      rw [hkpc] at hat
      simp only [hkpc, Option.some.injEq] at h
      subst h
      exact (KState.Effect.refl.setProc (.tidy hat)).setKpc (.resume hat)
  | trapExit timer =>
      rw [hkpc] at hat
      simp only [hkpc] at h
      split at h
      · cases h
        exact KState.Effect.refl.setKpc (.killed hat)
      · split at h <;> cases h
        · exact (KState.Effect.refl.setProc (.yield hrun (.inr ⟨_, hat⟩))).setKpc (.signal hat)
        · exact KState.Effect.refl.setKpc (.signal hat)
  | signal =>
      rw [hkpc] at hat
      simp only [hkpc, Option.some.injEq] at h
      subst h
      exact (KState.Effect.refl.setProc (.signalcheck hat)).setKpc (.leave (.inr hat))

/-- Whatever a step does is made of the changes and moves listed above. -/
theorem step_effect {s t : KState} {e : Event} (h : step e s = some t) : s.Effect e t := by
  cases e with
  | schedule i =>
      simp only [step, Option.ite_none_right_eq_some, Option.some.injEq] at h
      obtain ⟨hp, rfl⟩ := h
      exact KState.Effect.refl.setProc (.schedule hp)
  | yield i =>
      simp only [step, Option.ite_none_right_eq_some, Option.some.injEq] at h
      obtain ⟨⟨hp, -⟩, rfl⟩ := h
      exact KState.Effect.refl.setProc (.yield hp (.inl rfl))
  | trap i regs cause =>
      simp only [step, Option.ite_none_right_eq_some, Option.some.injEq] at h
      obtain ⟨⟨hp, -⟩, rfl⟩ := h
      exact trapSection_effect hp
  | run i o =>
      simp only [step, Option.ite_none_right_eq_some] at h
      exact runSection_effect h.1 h.2
  | clock =>
      cases h
      exact (KState.Effect.refl.mapProc fun _ => .updateTime).wakeup
  | notify number =>
      cases h
      exact KState.Effect.refl.wakeup

/-- A property of a slot that none of the changes destroys is kept by the step. -/
theorem step_slot {s t : KState} {e : Event} {I : Proc → Prop} {j : Fin nproc}
    (h : step e s = some t) (h0 : I (s.proc j))
    (hI : ∀ p q, I p → Mutation s e j p q → I q) : I (t.proc j) :=
  (step_effect h).proc.invariant h0 hI

end G20OsLab.Kernel
