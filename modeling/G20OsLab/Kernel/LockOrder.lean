/-
  G20OsLab.Kernel.LockOrder

  The order of the spinlocks.

  The condition locks (`tickslock`, `wait_lock`, those of the semaphores and
  of other modules that sleep) come first, then one `p->lock`, then
  `pid_lock`, then leaf locks.  Every kernel path keeps to that order, so no
  CPUs wait for each other, and enters `sched` with its own `p->lock` only.
-/

import G20OsLab.Kernel.Paths

namespace G20OsLab.Kernel.Paths

open Lib (Prog Discipline)
open Lib.Prog (oneOf wp_mono wp_seq wp_self wp_flip_seq wp_oneOf wp_forM wp_anyM wp_findM)

def SpinLock.rank : SpinLock → Nat
  | .tickslock | .waitLock | .sem _ | .outside _ => 0
  | .proc _ => 1
  | .pidLock => 2
  | .leaf _ => 3

section

variable {k : Fin nsem} {i : Fin nproc} {n : Nat}

@[simp] theorem rank_tickslock : SpinLock.tickslock.rank = 0 := rfl
@[simp] theorem rank_waitLock : SpinLock.waitLock.rank = 0 := rfl
@[simp] theorem rank_sem : (SpinLock.sem k).rank = 0 := rfl
@[simp] theorem rank_outside : (SpinLock.outside n).rank = 0 := rfl
@[simp] theorem rank_proc : (SpinLock.proc i).rank = 1 := rfl
@[simp] theorem rank_pidLock : SpinLock.pidLock.rank = 2 := rfl
@[simp] theorem rank_leaf : (SpinLock.leaf n).rank = 3 := rfl

end

/-- `p->lock` is the lock that a process gives up and gets back with the CPU. -/
def order : Discipline SpinLock (Fin nproc) := ⟨SpinLock.rank, .proc⟩

/-- All locks held rank below `r`. -/
def Below (r : Nat) (held : List SpinLock) : Prop := ∀ lk ∈ held, lk.rank < r

section

variable {α : Type} {me : Option (Fin nproc)} {held : List SpinLock} {p : Fin nproc}
  {lk : SpinLock} {r : Nat}

@[simp] theorem below_nil : Below r [] ↔ True := by simp [Below]

@[simp] theorem below_cons : Below r (lk :: held) ↔ lk.rank < r ∧ Below r held := by simp [Below]

/-! ## Operations -/

@[simp] theorem wp_acquire {Q : Unit → List SpinLock → Prop} :
    (acquire lk).wp order me held Q ↔ Below lk.rank held ∧ Q () (lk :: held) := Iff.rfl

@[simp] theorem wp_release {Q : Unit → List SpinLock → Prop} :
    (release lk).wp order me held Q ↔ lk ∈ held ∧ Q () (held.erase lk) := Iff.rfl

@[simp] theorem wp_sched {Q : Unit → List SpinLock → Prop} :
    sched.wp order me held Q ↔ (∃ p, me = some p ∧ held = [.proc p]) ∧ Q () held := Iff.rfl

@[simp] theorem wp_swtch {Q : Unit → List SpinLock → Prop} :
    (swtch p).wp order me held Q ↔ (me = none ∧ held = [.proc p]) ∧ Q () held := Iff.rfl

@[simp] theorem wp_setContext {Q : Unit → List SpinLock → Prop} :
    (setContext p).wp order me held Q ↔ Q () held := Iff.rfl

@[simp] theorem wp_myproc {Q : Option (Fin nproc) → List SpinLock → Prop} :
    myproc.wp order me held Q ↔ Q me held := Iff.rfl

/-- A lock may be taken above all that are held. -/
theorem acquire_seq {f : Unit → Path α} {Q : α → List SpinLock → Prop} (hheld : Below lk.rank held)
    (h : (f ()).wp order me (lk :: held) Q) : (acquire lk >>= f).wp order me held Q :=
  wp_seq ⟨hheld, h⟩

/-- The lock taken last is released. -/
theorem release_seq {f : Unit → Path α} {Q : α → List SpinLock → Prop}
    (h : (f ()).wp order me held Q) : (release lk >>= f).wp order me (lk :: held) Q := by
  refine wp_seq ⟨List.mem_cons_self, ?_⟩
  rw [List.erase_cons_head]
  exact h

/-- A loop that comes back with the locks it had. -/
theorem wp_loop {body : Path Bool} {Q : Unit → List SpinLock → Prop}
    (h : body.wp order me held fun again held' =>
      if again = true then held' = held else Q () held') : (loop body).wp order me held Q := h

/-! ## Sleeping and waking -/

theorem lockProc_wp {Q : Unit → List SpinLock → Prop} (h : Below 1 held) (hQ : Q () held) :
    (lockProc p).wp order me held Q := by
  simp [lockProc, h, hQ]

/-- `killed` takes the lock of the process for a moment. -/
theorem killed_wp {Q : Bool → List SpinLock → Prop} (h : Below 1 held) (hQ : ∀ b, Q b held) :
    (killed p).wp order me held Q := by
  rw [killed]
  exact wp_seq (lockProc_wp h (by simp [hQ]))

/-- `wakeup` takes the locks of all processes, one after another. -/
theorem wakeup_wp {Q : Unit → List SpinLock → Prop} (h : Below 1 held) (hQ : Q () held) :
    wakeup.wp order me held Q := by
  refine wp_forM (fun i _ => ?_) hQ
  simp only [Prog.wp_bind_iff, wp_myproc]
  split
  · simp [h]
  · simp

/-- `sleep` trades the lock it is called with for that of the process. -/
theorem sleep_wp {Q : Unit → List SpinLock → Prop} (hme : me = some p) (hrank : lk.rank = 0)
    (hQ : Q () [lk]) : (sleep lk).wp order me [lk] Q := by
  rw [sleep]
  refine wp_seq (wp_self hme ?_)
  have hne : SpinLock.proc p ≠ lk := by
    rintro rfl
    cases hrank
  simp [hrank, hme, hne, hQ]

/-- Calls into the files and the console below any lock of a process. -/
theorem leafCalls_wp {Q : Unit → List SpinLock → Prop} (h : Below 3 held) (hQ : Q () held) :
    leafCalls.wp order me held Q := by
  refine wp_loop ?_
  simp [h, hQ]

/-- Parts of a section of another module, in any order, that each leave the
    locks as they are. -/
theorem sectionLoop_wp {n : Nat} {paths : List (Path Unit)} {Q : Unit → List SpinLock → Prop}
    (hpaths : ∀ path ∈ paths, path.wp order me [.outside n] fun _ held => held = [.outside n])
    (hQ : Q () [.outside n]) :
    (loop (do oneOf paths; Prog.flip)).wp order me [.outside n] Q := by
  have hflip : (Prog.flip : Path Bool).wp order me [.outside n] fun again held =>
      if again = true then held = [.outside n] else Q () held := Prog.wp_flip.mpr ⟨rfl, hQ⟩
  refine wp_loop (wp_seq (wp_oneOf (fun path hpath => ?_) hflip))
  refine wp_mono (hpaths path hpath) ?_
  intro _ held hheld
  subst hheld
  exact hflip

/-! ## Calls of a process

A process calls these with no lock held, and holds none when they return.  A
round of a loop that leaves the function has released them, too. -/

section

variable (hme : me = some p)
include hme

/-- A section with one lock of the other layers. -/
theorem outsideSection_wp {Q : Unit → List SpinLock → Prop} {n : Nat} (hQ : Q () []) :
    (outsideSection n).wp order me [] Q := by
  have hlow : Below 1 [SpinLock.outside n] := by simp
  have hbody : ∀ path ∈ [sleep (.outside n), wakeup, selfKilled, leafCalls],
      path.wp order me [.outside n] fun _ held => held = [.outside n] := by
    simp only [List.mem_cons, List.not_mem_nil, or_false, forall_eq_or_imp, forall_eq]
    refine ⟨sleep_wp hme rfl rfl, wakeup_wp hlow rfl, ?_, leafCalls_wp (by simp) rfl⟩
    rw [selfKilled]
    exact wp_seq (wp_self hme (wp_seq (killed_wp hlow fun _ => rfl)))
  rw [outsideSection]
  refine acquire_seq (by simp) (wp_seq (sectionLoop_wp hbody ?_))
  simp [hQ]

theorem outsideCalls_wp {Q : Unit → List SpinLock → Prop} (hQ : Q () []) :
    outsideCalls.wp order me [] Q := by
  refine wp_loop (wp_seq (leafCalls_wp (by simp) ?_))
  refine wp_seq (Prog.wp_flip.mpr ⟨?_, hQ⟩)
  exact wp_seq (Prog.wp_any.mpr fun n => wp_seq (outsideSection_wp hme rfl))

end

/-! ## Processes -/

/-- `allocpid` comes below the locks of the processes. -/
theorem allocpid_wp {Q : Unit → List SpinLock → Prop} (h : Below 2 held) (hQ : Q () held) :
    allocpid.wp order me held Q := by
  simp [allocpid, h, hQ]

/-- `allocproc` returns with the lock of the new process, if it finds one. -/
theorem allocproc_wp {Q : Option (Fin nproc) → List SpinLock → Prop} (hnone : Q none [])
    (hsome : ∀ i, Q (some i) [.proc i]) : allocproc.wp order me [] Q := by
  rw [allocproc]
  refine wp_seq (wp_findM (fun i _ => acquire_seq (by simp) (wp_flip_seq ?_ ?_)) hnone)
  · -- found: `pid_lock` and leaf locks come after `p->lock`
    show Prog.wp order me (allocpid >>= _) [.proc i] Q
    refine wp_seq (allocpid_wp (by simp) ?_)
    refine wp_seq (leafCalls_wp (by simp) (wp_flip_seq ?_ (hsome i)))
    refine wp_seq (leafCalls_wp (by simp) ?_)
    simp [hnone]
  · simp

theorem newProc_wp {Q : Unit → List SpinLock → Prop} (hQ : Q () []) :
    newProc.wp order me [] Q := by
  rw [newProc]
  refine wp_seq (allocproc_wp hQ ?_)
  intro np
  refine wp_seq (leafCalls_wp (by simp) (wp_flip_seq ?_ ?_))
  · -- `uvmcopy` failed
    refine wp_seq (leafCalls_wp (by simp) ?_)
    simp [hQ]
  · refine wp_seq (leafCalls_wp (by simp) (release_seq ?_))
    refine acquire_seq (by simp) (release_seq ?_)
    exact lockProc_wp (by simp) hQ

/-- The loop of `wait` over the children. -/
theorem noKidsOrKilled_wp {Q : Bool → List SpinLock → Prop} (hheld : Below 1 held)
    (hQ : ∀ b, Q b held) : (noKidsOrKilled p).wp order me held Q :=
  wp_flip_seq (hQ true) (killed_wp hheld hQ)

theorem reparent_wp {Q : Unit → List SpinLock → Prop} (hheld : Below 1 held) (hQ : Q () held) :
    reparent.wp order me held Q :=
  wp_forM (fun _ _ => wp_flip_seq (wakeup_wp hheld rfl) rfl) hQ

section

variable (hme : me = some p)
include hme

/-- In the loop `wait_lock` is held, and one `p->lock` after the other. -/
theorem waitLoop_wp {copies : Path Bool} {Q : Unit → List SpinLock → Prop}
    (hcopies : ∀ {held : List SpinLock} {Q : Bool → List SpinLock → Prop}, Below 3 held →
      (∀ b, Q b held) → copies.wp order me held Q) (hQ : Q () []) :
    (waitLoop copies).wp order me [] Q := by
  rw [waitLoop]
  refine wp_seq (wp_self hme (acquire_seq (by simp) (wp_loop (wp_seq (wp_anyM ?_ ?_)))))
  · rintro pp -
    refine wp_flip_seq (acquire_seq (by simp) (wp_flip_seq ?_ (by simp))) rfl
    refine wp_seq (hcopies (by simp) ?_)
    intro failed
    cases failed with
    | true => simp [hQ]
    | false =>
        refine wp_seq (leafCalls_wp (by simp) ?_)
        simp [hQ]
  · -- nothing found
    refine wp_seq (noKidsOrKilled_wp (by simp) ?_)
    intro stop
    cases stop with
    | true => simp [hQ]
    | false => exact wp_seq (sleep_wp hme rfl rfl)

/-- `kexit` does not come back, and holds the lock of its process only. -/
theorem kexit_wp {Q : Unit → List SpinLock → Prop} : kexit.wp order me [] Q := by
  rw [kexit]
  refine wp_seq (wp_self hme (wp_flip_seq trivial ?_))
  refine wp_seq (outsideCalls_wp hme (acquire_seq (by simp) ?_))
  refine wp_seq (reparent_wp (by simp) (wp_seq (wakeup_wp (by simp) ?_)))
  simp [hme]

end

/-- A scan for a pid takes one lock at a time. -/
theorem lookup_wp {Q : Unit → List SpinLock → Prop} (hQ : Q () []) :
    lookup.wp order me [] Q := by
  rw [lookup]
  refine wp_seq (wp_anyM (fun i _ => ?_) hQ)
  simp [hQ]

theorem eachProc_wp {Q : Unit → List SpinLock → Prop} (hheld : Below 1 held) (hQ : Q () held) :
    eachProc.wp order me held Q :=
  wp_forM (fun _ _ => lockProc_wp hheld rfl) hQ

/-! ## Semaphores, messages and ticks -/

section

variable (hme : me = some p)
include hme

omit hme in
/-- `ksem_init` wakes the processes under the lock of the semaphore. -/
theorem ksemInit_wp {semid : Int} {Q : Unit → List SpinLock → Prop} (hQ : Q () []) :
    (ksemInit semid).wp order me [] Q := by
  rw [ksemInit]
  split
  · exact hQ
  · refine wp_flip_seq hQ (acquire_seq (by simp) (wp_seq (wakeup_wp (by simp) ?_)))
    simp [hQ]

theorem ksemWait_wp {semid : Int} {Q : Unit → List SpinLock → Prop} (hQ : Q () []) :
    (ksemWait semid).wp order me [] Q := by
  rw [ksemWait]
  split
  · exact hQ
  · refine acquire_seq (by simp) (wp_flip_seq (by simp [hQ]) (wp_loop (wp_flip_seq ?_ ?_)))
    · refine wp_seq (sleep_wp hme rfl (wp_flip_seq ?_ rfl))
      simp [hQ]
    · simp [hQ]

omit hme in
theorem ksemPost_wp {semid : Int} {Q : Unit → List SpinLock → Prop} (hQ : Q () []) :
    (ksemPost semid).wp order me [] Q := by
  rw [ksemPost]
  split
  · exact hQ
  · refine acquire_seq (by simp) (wp_flip_seq (by simp [hQ]) (wp_seq (wakeup_wp (by simp) ?_)))
    simp [hQ]

omit hme in
/-- `wakeup` comes after the release of `p->lock`. -/
theorem msgsend_wp {Q : Unit → List SpinLock → Prop} (hQ : Q () []) :
    msgsend.wp order me [] Q := by
  rw [msgsend]
  refine acquire_seq (by simp) (wp_seq (wp_anyM (fun i _ => ?_) (by simp [hQ])))
  refine acquire_seq (by simp) (wp_flip_seq (wp_flip_seq (by simp [hQ]) ?_) (by simp))
  refine release_seq (wp_seq (wakeup_wp (by simp) ?_))
  simp [hQ]

/-- `sleep` comes after the release of `p->lock`, and before it is taken
    again. -/
theorem msgrecv_wp {Q : Unit → List SpinLock → Prop} (hQ : Q () []) :
    msgrecv.wp order me [] Q := by
  rw [msgrecv]
  refine wp_seq (wp_self hme (acquire_seq (by simp) (acquire_seq (by simp) (wp_seq ?_))))
  refine wp_loop (wp_flip_seq (release_seq (wp_seq (sleep_wp hme rfl ?_))) ?_)
  · simp
  · refine wp_seq (leafCalls_wp (by simp) ?_)
    simp [hQ]

theorem sysPause_wp {Q : Unit → List SpinLock → Prop} (hQ : Q () []) :
    sysPause.wp order me [] Q := by
  rw [sysPause]
  refine acquire_seq (by simp) (wp_loop (wp_flip_seq ?_ (by simp [hQ])))
  refine wp_seq (wp_self hme (wp_seq (killed_wp (by simp) ?_)))
  intro k
  cases k with
  | true => simp [hQ]
  | false => exact wp_seq (sleep_wp hme rfl rfl)

end

/-- The clock takes `tickslock`, and wakes who waits for it. -/
theorem clockintr_wp {Q : Unit → List SpinLock → Prop} (hQ : Q () []) :
    clockintr.wp order me [] Q := by
  refine wp_flip_seq (acquire_seq (by simp) ?_) hQ
  refine wp_seq (eachProc_wp (by simp) (wp_seq (wakeup_wp (by simp) ?_)))
  simp [hQ]

/-! ## Traps -/

theorem deviceIntr_wp {Q : Unit → List SpinLock → Prop} (hQ : Q () []) :
    deviceIntr.wp order me [] Q := by
  have hbody : ∀ n, ∀ path ∈ [wakeup, leafCalls],
      path.wp order me [.outside n] fun _ held => held = [.outside n] := by
    intro n
    simp only [List.mem_cons, List.not_mem_nil, or_false, forall_eq_or_imp, forall_eq]
    exact ⟨wakeup_wp (by simp) rfl, leafCalls_wp (by simp) rfl⟩
  refine wp_loop (wp_seq (leafCalls_wp (by simp) (wp_flip_seq (wp_seq fun n => ?_) hQ)))
  refine acquire_seq (by simp) (wp_seq (sectionLoop_wp (hbody n) ?_))
  simp

theorem devintr_wp {Q : Nat → List SpinLock → Prop} (hQ : ∀ n, Q n []) :
    devintr.wp order me [] Q := by
  refine wp_flip_seq (wp_seq (deviceIntr_wp (hQ 1))) (wp_flip_seq ?_ (hQ 0))
  exact wp_seq (clockintr_wp (hQ 2))

section

variable (hme : me = some p)
include hme

/-- `yield` goes to the scheduler with the lock of the process only. -/
theorem yield_wp {Q : Unit → List SpinLock → Prop} (hQ : Q () []) : yield.wp order me [] Q := by
  rw [yield]
  refine wp_seq (wp_self hme ?_)
  simp [hme, hQ]

/-- Any system call. -/
theorem syscall_wp {Q : Unit → List SpinLock → Prop} (hQ : Q () []) :
    syscall.wp order me [] Q := by
  have hcopies : ∀ {held : List SpinLock} {Q : Bool → List SpinLock → Prop}, Below 3 held →
      (∀ b, Q b held) → (do leafCalls; Prog.flip : Path Bool).wp order me held Q := by
    intro held Q hheld hQ
    exact wp_seq (leafCalls_wp hheld (Prog.wp_flip.mpr ⟨hQ true, hQ false⟩))
  have hown : (lockProc p).wp order me [] Q := lockProc_wp (by simp) hQ
  have hlookup : (do if ← Prog.flip then return else lookup : Path Unit).wp order me [] Q :=
    wp_flip_seq hQ (lookup_wp hQ)
  have hfork : (do if ← Prog.flip then return else newProc : Path Unit).wp order me [] Q :=
    wp_flip_seq hQ (newProc_wp hQ)
  rw [syscall]
  refine wp_seq fun semid => wp_oneOf ?_ hQ
  simp only [List.mem_cons, List.not_mem_nil, or_false, forall_eq_or_imp, forall_eq]
  refine ⟨newProc_wp hQ, kexit_wp hme, waitLoop_wp hme hcopies hQ, lookup_wp hQ,
    leafCalls_wp (by simp) hQ, sysPause_wp hme hQ, ?_, outsideCalls_wp hme hQ,
    wp_flip_seq hQ (wp_seq (wp_self hme hown)), wp_seq (wp_self hme hown), hlookup, hfork,
    waitLoop_wp hme (fun _ hQ => hQ false) hQ, msgsend_wp hQ, msgrecv_wp hme hQ,
    ksemInit_wp hQ, ksemWait_wp hme hQ, ksemPost_wp hQ, hfork, hlookup, lookup_wp hQ,
    waitLoop_wp hme hcopies hQ, wp_seq (eachProc_wp (by simp) (leafCalls_wp (by simp) hQ))⟩
  rw [sysUptime]
  simp [hQ]

theorem trapCause_wp {Q : Nat → List SpinLock → Prop} (hQ : ∀ n, Q n []) :
    (trapCause p).wp order me [] Q := by
  refine wp_flip_seq (wp_seq (killed_wp (by simp) ?_)) ?_
  · intro k
    cases k with
    | true => exact wp_seq (kexit_wp hme)
    | false => exact wp_seq (syscall_wp hme (hQ 0))
  · refine wp_seq (devintr_wp ?_)
    intro whichDev
    split
    · refine wp_seq (leafCalls_wp (by simp) (wp_flip_seq ?_ (hQ 0)))
      exact wp_seq (lockProc_wp (by simp) (hQ 0))
    · split
      · exact wp_seq (lockProc_wp (by simp) (hQ 2))
      · exact hQ whichDev

/-- A trap from user space, with the system call in it. -/
theorem usertrap_wp {Q : Unit → List SpinLock → Prop} (hQ : Q () []) :
    usertrap.wp order me [] Q := by
  refine wp_seq (wp_self hme (wp_seq (trapCause_wp hme ?_)))
  intro whichDev
  have hcheck : (signalcheck p).wp order me [] Q := lockProc_wp (by simp) hQ
  refine wp_seq (killed_wp (by simp) ?_)
  intro k
  cases k with
  | true => exact kexit_wp hme
  | false =>
      rw [if_neg Bool.false_ne_true]
      split
      · exact wp_seq (yield_wp hme hcheck)
      · exact hcheck

theorem forkret_wp {Q : Unit → List SpinLock → Prop} : forkret.wp order me [.proc p] Q := by
  have huser : userspace.wp order me [] Q := wp_loop (wp_seq (usertrap_wp hme rfl))
  refine wp_seq (wp_self hme (release_seq ?_))
  exact wp_flip_seq (wp_seq (outsideCalls_wp hme huser)) huser

end

/-- The scheduler interrupted has no process to give up. -/
theorem kerneltrap_wp {Q : Unit → List SpinLock → Prop} (hQ : Q () []) :
    kerneltrap.wp order me [] Q := by
  refine wp_seq (devintr_wp ?_)
  intro whichDev
  split
  · trivial
  · split
    · refine wp_seq (wp_myproc.mpr ?_)
      cases hme : me with
      | none => exact hQ
      | some p => exact yield_wp rfl hQ
    · exact hQ

/-! ## CPUs -/

/-- A process comes back from `swtch` with the lock that it was given. -/
theorem scheduler_wp {Q : Unit → List SpinLock → Prop} : scheduler.wp order none [] Q := by
  refine wp_loop (wp_seq (wp_forM (fun i _ => acquire_seq (by simp) (wp_flip_seq ?_ ?_)) rfl))
  · simp
  · simp

theorem userinit_wp {Q : Unit → List SpinLock → Prop} (hQ : Q () []) :
    userinit.wp order me [] Q := by
  refine wp_seq (allocproc_wp trivial ?_)
  intro p
  refine wp_seq (leafCalls_wp (by simp) ?_)
  simp [hQ]

/-- Every CPU starts without a lock. -/
theorem main_wp {first : Bool} {Q : Unit → List SpinLock → Prop} :
    (main first).wp order none [] Q := by
  refine wp_seq (leafCalls_wp (by simp) ?_)
  cases first with
  | true => exact wp_seq (userinit_wp scheduler_wp)
  | false => exact scheduler_wp

end

/-- All paths of the kernel take locks in order. -/
theorem kernel_disciplined : kernel.Disciplined order where
  entry _ := forkret_wp rfl
  interrupt _ := kerneltrap_wp rfl

section

variable {C : Type} [DecidableEq C] {first : C}

/-- The machine is in order at boot. -/
theorem boot_inv : (boot first).Inv order where
  code _ := main_wp
  scheduler _ _ h := nomatch h
  saved _ _ h := nomatch h
  rising _ := List.Pairwise.nil
  disjoint _ _ _ h := nomatch h

end

/-- **No deadlock on spinlocks.**  In every configuration that any number of
    CPUs can reach from `main`: no CPUs wait in a cycle for each other's locks,
    no CPU acquires a lock that it holds or holds two `p->lock`s, and `sched`
    is entered with the `p->lock` of its process and no other lock. -/
theorem no_spinlock_deadlock {C : Type} [DecidableEq C] [Fintype C] (first : C)
    (s : Lib.Config C SpinLock (Fin nproc)) (h : Lib.ReachedFrom kernel (boot first) s) :
    (∀ c, ¬ Relation.TransGen s.Waits c c) ∧
      (∀ c lk next, (s.cpu c).code = .acquire lk next → lk ∉ (s.cpu c).held) ∧
      (∀ c i j, .proc i ∈ (s.cpu c).held → .proc j ∈ (s.cpu c).held → i = j) ∧
      ∀ c next, (s.cpu c).code = .sched next →
        ∃ p, (s.cpu c).thread = some p ∧ (s.cpu c).held = [.proc p] := by
  have hinv := boot_inv.reached kernel_disciplined h
  refine ⟨hinv.not_waits_cycle, fun c lk next => hinv.not_held, fun c i j hi hj => ?_,
    fun c next => hinv.sched_held⟩
  exact SpinLock.proc.inj (hinv.eq_of_rank hi hj rfl)

/-- The first CPU makes the first process and runs it up to `sched` in its
    `sys_pause`; the second one comes to the slot of that process. -/
def pauseEvents : List (Lib.CpuEvent (Fin 2)) :=
  [0, 1, 0, 0, 0, 0, 0, 1, 1, 0, 0, 1, 0, 0, 0, 0, 0, 0, 0, 1, 0, 0, 0, 0, 0, 1, 2, 5, 0, 0, 0, 0,
      0, 0, 1, 0, 0, 0].map (.run 0 ·) ++
    [0, 1, 0].map (.run 1 ·)

def pausing : Lib.Config (Fin 2) SpinLock (Fin nproc) :=
  Lib.endState (Lib.lockStep kernel) pauseEvents (boot 0)

theorem no_spinlock_deadlock_pausing :
    (pausing.cpu 0).held = [.proc ⟨0, by decide⟩] ∧
      ∀ c, ¬ Relation.TransGen pausing.Waits c c := by
  have hrun : (Lib.runEvents (Lib.lockStep kernel) (fun _ _ => true) pauseEvents
      (boot 0)).isSome = true := by decide +kernel
  exact ⟨by decide +kernel,
    (no_spinlock_deadlock 0 pausing (Lib.Steps.endState (fun _ _ _ => trivial) hrun)).1⟩

end G20OsLab.Kernel.Paths
