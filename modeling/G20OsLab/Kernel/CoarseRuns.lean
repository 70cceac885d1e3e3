/-
  G20OsLab.Kernel.CoarseRuns

  The coarser model inside the finer one.

  A section that a process goes through without a step of another process in
  between is a run of lock operations, and it ends in the state that `step`
  gives (`run_of_step`).  So every state of the coarser model is one of the
  finer model in which no process is inside a section
  (`LReachable.of_reachable`), and what holds of all runs of the finer model
  holds of all runs of the coarser one.
-/

import G20OsLab.Kernel.LockSteps

namespace G20OsLab.Kernel

/-- A run of lock operations. -/
abbrev LRun (s t : LState) : Prop := Lib.Steps lstep (fun _ _ => True) s t

/-- One step is a run. -/
theorem LRun.step {s t : LState} {e : LEvent} (h : lstep e s = some t) : LRun s t :=
  Lib.Steps.tail .refl trivial h

/-- The slots of the table from left to right. -/
theorem LRun.slots {f : Nat → LState} (h : ∀ k < nproc, LRun (f k) (f (k + 1))) (k : Nat)
    (hk : k ≤ nproc) : LRun (f 0) (f k) := by
  induction k with
  | zero => exact .refl
  | succ k ih => exact (ih (by omega)).trans (h k (by omega))

/-! ## One process inside a section -/

/-- Process `i` stands at `place`, all others are between sections. -/
def LState.only (base : KState) (i : Fin nproc) (place : Place) : LState :=
  ⟨base, Function.update (fun _ => .idle) i place⟩

section

variable {base base' : KState} {i : Fin nproc} {place place' : Place} {l : Lock} {o : Outcome}
variable {t : LState}

@[simp] theorem only_base : (LState.only base i place).base = base := rfl

@[simp] theorem only_place : (LState.only base i place).place i = place := by
  show Function.update (fun _ => Place.idle) i place i = place
  exact Function.update_self ..

theorem only_place_of_ne {j : Fin nproc} (hj : j ≠ i) :
    (LState.only base i place).place j = .idle := by
  show Function.update (fun _ => Place.idle) i place j = .idle
  exact Function.update_of_ne hj ..

/-- A process in no section is as if no section was going on. -/
theorem only_idle : LState.only base i .idle = LState.quiet base := by
  rw [LState.only, LState.quiet, Function.update_eq_self_iff.mpr rfl]

@[simp] theorem only_move :
    (LState.only base i place).move i base' place' = LState.only base' i place' := by
  rw [LState.move, LState.only, LState.only]
  dsimp only
  rw [Function.update_idem]

@[simp] theorem only_goto :
    (LState.only base i place).goto i place' = LState.only base i place' := only_move

/-- No other process holds a lock. -/
@[simp] theorem only_locking (h : ¬ place.Holds i l) :
    (LState.only base i place).locking l t = some t := by
  have hfree : (LState.only base i place).Free l := by
    intro j
    by_cases hj : j = i
    · subst hj
      rw [only_place]
      exact h
    · rw [only_place_of_ne hj]
      exact id
  rw [LState.locking, if_pos hfree]

/-- Where no section is going on, every lock is free. -/
theorem quiet_locking : (LState.quiet base).locking l t = some t := by
  have hfree : (LState.quiet base).Free l := fun _ => id
  rw [LState.locking, if_pos hfree]

/-- The next lock operation of the process inside a section. -/
theorem LRun.next (o : Outcome) (hrun : (base.proc i).state = .running)
    (h : placeStep (LState.only base i place) i o = some t) :
    LRun (LState.only base i place) t := by
  have hstep : lstep (.run i o) (LState.only base i place) = some t := by
    rw [lstep, if_pos (.inl hrun)]
    exact h
  exact LRun.step hstep

/-- The last one. -/
theorem LRun.leave (hrun : (base.proc i).state = .running) {l : Lock} {value : Int} :
    LRun (LState.only base i (.leave l value)) (LState.quiet (base.retInt i value)) := by
  rw [← only_idle (i := i)]
  apply LRun.next {} hrun
  rw [placeStep, only_place]
  simp

end

/-! ## Loops over the table -/

/-- The slots below `k` mapped. -/
def KState.mapBelow (s : KState) (k : Nat) (f : Proc → Proc) : KState :=
  { s with proc := fun j => if j.val < k then f (s.proc j) else s.proc j }

section

variable {s : KState} {f : Proc → Proc} {k : Nat}

/-- The loop has not begun. -/
theorem mapBelow_zero : s.mapBelow 0 f = s := by
  simp [KState.mapBelow]

/-- The loop is through. -/
theorem mapBelow_nproc : s.mapBelow nproc f = s.mapProc f := by
  simp [KState.mapBelow, KState.mapProc]

theorem mapBelow_proc (j : Fin nproc) : (s.mapBelow j f).proc j = s.proc j := by
  simp [KState.mapBelow]

/-- One round of the loop. -/
theorem mapBelow_succ (j : Fin nproc) :
    s.mapBelow (j + 1) f = (s.mapBelow j f).setProc j (f (s.proc j)) := by
  rw [KState.mapBelow, KState.setProc, KState.mapBelow]
  congr 1
  funext j'
  by_cases hj : j' = j
  · subst hj
    simp
  · have hne : j'.val ≠ j.val := fun he => hj (Fin.ext he)
    rw [Function.update_of_ne hj]
    dsimp only
    by_cases hlt : j'.val < j.val
    · rw [if_pos hlt, if_pos (by omega)]
    · rw [if_neg hlt, if_neg (by omega)]

/-- A slot that the function leaves alone. -/
theorem mapBelow_succ_of_eq {j : Fin nproc} (h : f (s.proc j) = s.proc j) :
    s.mapBelow (j + 1) f = s.mapBelow j f := by
  have hself : (s.mapBelow j f).setProc j (s.proc j) = s.mapBelow j f := by
    rw [KState.setProc, Function.update_eq_self_iff.mpr (mapBelow_proc j).symm]
  rw [mapBelow_succ, h, hself]

end

/-- A running process is not woken. -/
theorem wakeupProc_of_running {p : Proc} (chan : Option Chan) (h : p.state = .running) :
    wakeupProc chan p = p := by
  rw [wakeupProc]
  split
  · rw [wake, if_neg (by simp [h])]
  · rfl

/-- `wakeup(chan)`. -/
theorem LRun.waking {s : KState} {i : Fin nproc} (hrun : (s.proc i).state = .running) {l : Lock}
    (hl : ∀ j, l ≠ .proc j) (chan : Option Chan) (after : After) :
    LRun (LState.only s i (.waking l chan 0 after))
      (LState.only (s.wakeup chan) i (after.place l)) := by
  -- `wakeup` skips the process that runs it
  have hsame : wakeupProc chan (s.proc i) = s.proc i := wakeupProc_of_running chan hrun
  have hrun' : ∀ k, ((s.mapBelow k (wakeupProc chan)).proc i).state = .running := by
    intro k
    rw [KState.mapBelow]
    dsimp only
    rw [hsame, ite_self]
    exact hrun
  -- the state after `k` slots
  let f (k : Nat) : LState :=
    LState.only (s.mapBelow k (wakeupProc chan)) i (.waking l chan k after)
  have hloop : LRun (f 0) (f nproc) := by
    refine LRun.slots (fun k hk => ?_) nproc (Nat.le_refl _)
    apply LRun.next {} (hrun' k)
    rw [placeStep, only_place]
    dsimp only
    unfold wakingStep
    rw [dif_pos hk]
    dsimp only
    by_cases hj : (⟨k, hk⟩ : Fin nproc) = i
    · have hskip : s.mapBelow (k + 1) (wakeupProc chan) = s.mapBelow k (wakeupProc chan) :=
        mapBelow_succ_of_eq (j := ⟨k, hk⟩) (by rw [hj]; exact hsame)
      rw [if_pos hj, only_goto, ← hskip]
    · have hproc : (s.mapBelow k (wakeupProc chan)).proc ⟨k, hk⟩ = s.proc ⟨k, hk⟩ :=
        mapBelow_proc ⟨k, hk⟩
      have hfree : ¬ (Place.waking l chan k after).Holds i (.proc ⟨k, hk⟩) := by
        intro h
        exact hl ⟨k, hk⟩ (Eq.symm h)
      rw [if_neg hj, only_locking hfree, only_move, only_base, hproc, ← mapBelow_succ ⟨k, hk⟩]
  have hstart : f 0 = LState.only s i (.waking l chan 0 after) := by
    show LState.only (s.mapBelow 0 _) i _ = _
    rw [mapBelow_zero]
  have hend : f nproc = LState.only (s.wakeup chan) i (.waking l chan nproc after) := by
    show LState.only (s.mapBelow nproc _) i _ = _
    rw [mapBelow_nproc, KState.wakeup]
  rw [hstart, hend] at hloop
  refine hloop.trans (LRun.next {} (by rw [wakeup_proc]; simp only [hsame, hrun]) ?_)
  rw [placeStep, only_place]
  dsimp only
  unfold wakingStep
  rw [dif_neg (Nat.lt_irrefl _), only_goto]
  cases after <;> rfl

/-! ## The calls of the process layer -/

section

variable {s : KState} {i : Fin nproc} {o : Outcome}

/-- `sleep(chan, l)`. -/
theorem LRun.sleep (hrun : (s.proc i).state = .running) {l : Lock} (hl : l ≠ .proc i)
    {chan : Chan} {call : Call} (hcall : s.kpc i = .call call) :
    LRun (LState.only s i (.sleep l chan)) (LState.quiet (s.sleep i chan call)) := by
  have hfree : ¬ (Place.sleep l chan).Holds i (.proc i) := fun h => hl (Eq.symm h)
  have hlock : LRun (LState.only s i (.sleep l chan))
      (LState.only s i (.sleepLocked l chan)) := by
    apply LRun.next {} hrun
    rw [placeStep, only_place]
    dsimp only
    rw [only_locking hfree, only_goto]
  have hrelease : LRun (LState.only s i (.sleepLocked l chan))
      (LState.only s i (.sleepReleased chan)) := by
    apply LRun.next {} hrun
    rw [placeStep, only_place]
    dsimp only
    rw [only_goto]
  have hsleep : LRun (LState.only s i (.sleepReleased chan))
      (LState.quiet (s.sleep i chan call)) := by
    rw [← only_idle (i := i)]
    apply LRun.next {} hrun
    rw [placeStep, only_place, only_base, hcall]
    dsimp only
    rw [only_move]
  exact (hlock.trans hrelease).trans hsleep

/-- The first `acquire` of a call. -/
theorem LRun.start (hrun : (s.proc i).state = .running) {call : Call} (hcall : s.kpc i = .call call)
    (hexit : ∀ status, call ≠ .exit status) {l : Lock} (hl : call.lock = some l) :
    LRun (LState.quiet s) (LState.only s i (call.start l)) := by
  rw [← only_idle (i := i)]
  apply LRun.next {} hrun
  rw [placeStep, only_place]
  dsimp only
  rw [idleStep, only_base, hcall]
  cases call with
  | exit status => exact absurd rfl (hexit status)
  | _ =>
      dsimp only
      rw [hl]
      dsimp only
      rw [only_locking id, only_goto]

/-- A call that posts on its channel and returns 0. -/
theorem LRun.wakeLeave (hrun : (s.proc i).state = .running) {l : Lock} (hl : ∀ j, l ≠ .proc j)
    (chan : Option Chan) (value : Int) :
    LRun (LState.only s i (.waking l chan 0 (.leave value)))
      (LState.quiet ((s.wakeup chan).retInt i value)) := by
  refine (LRun.waking hrun hl chan (.leave value)).trans (LRun.leave ?_)
  rw [wakeup_proc]
  dsimp only
  rw [wakeupProc_of_running chan hrun]
  exact hrun

/-- What process `i` does with the condition lock. -/
theorem placeStep_held {l : Lock} {call : Call} (hcall : s.kpc i = .call call) :
    placeStep (LState.only s i (.held l)) i o =
      heldStep (LState.only s i (.held l)) i o l call := by
  rw [placeStep, only_place, only_base, hcall]

/-- The section of `ksem_init`, lock by lock. -/
theorem ksemInit_run (hrun : (s.proc i).state = .running) {semid value : Int}
    (hcall : s.kpc i = .call (.semInit semid value)) {k : Fin nsem} (hk : semIndex semid = some k)
    (hvalue : ¬ value < 0) :
    LRun (LState.quiet s) (LState.quiet (ksemInit s i semid value)) := by
  have hl : (Call.semInit semid value).lock = some (.sem k) := by
    rw [Call.lock, if_neg hvalue, hk]
    rfl
  rw [ksemInit, hk]
  dsimp only
  rw [if_neg hvalue]
  have hset : LRun (LState.only s i (.held (.sem k)))
      (LState.only (s.setSem k ⟨true, value⟩) i
        (.waking (.sem k) (some (.sem k)) 0 (.leave 0))) := by
    apply LRun.next {} hrun
    rw [placeStep_held hcall, heldStep, only_move, only_base]
  have hrun' : ((s.setSem k ⟨true, value⟩).proc i).state = .running := hrun
  exact ((LRun.start hrun hcall (by simp) hl).trans hset).trans
    (LRun.wakeLeave (l := .sem k) hrun' (by simp) _ 0)

/-- The section of `ksem_post`, lock by lock. -/
theorem ksemPost_run (hrun : (s.proc i).state = .running) {semid : Int}
    (hcall : s.kpc i = .call (.semPost semid)) {k : Fin nsem} (hk : semIndex semid = some k) :
    LRun (LState.quiet s) (LState.quiet (ksemPost s i semid)) := by
  have hl : (Call.semPost semid).lock = some (.sem k) := by
    rw [Call.lock, hk]
    rfl
  refine (LRun.start hrun hcall (by simp) hl).trans ?_
  rw [ksemPost, hk]
  dsimp only
  have hheld := placeStep_held (o := {}) (l := .sem k) hcall
  rw [heldStep, only_base] at hheld
  by_cases hused : (s.semtable k).used = false
  · rw [if_pos hused] at hheld ⊢
    rw [only_goto] at hheld
    exact (LRun.next {} hrun hheld).trans (LRun.leave hrun)
  · rw [if_neg hused] at hheld ⊢
    rw [only_move] at hheld
    exact (LRun.next {} hrun hheld).trans
      (LRun.wakeLeave (s := s.setSem k _) (l := .sem k) hrun (by simp) _ 0)

/-- The section of `ksem_wait`, lock by lock. -/
theorem ksemWait_run (hrun : (s.proc i).state = .running) {semid : Int}
    (hcall : s.kpc i = .call (.semWait semid)) {k : Fin nsem} (hk : semIndex semid = some k) :
    LRun (LState.quiet s) (LState.quiet (ksemWait s i semid)) := by
  have hl : (Call.semWait semid).lock = some (.sem k) := by
    rw [Call.lock, hk]
    rfl
  refine (LRun.start hrun hcall (by simp) hl).trans ?_
  rw [ksemWait, hk]
  dsimp only
  have hheld := placeStep_held (o := {}) (l := .sem k) hcall
  rw [heldStep, only_base] at hheld
  by_cases hused : (s.semtable k).used = false
  · rw [if_pos hused] at hheld ⊢
    rw [only_goto] at hheld
    exact (LRun.next {} hrun hheld).trans (LRun.leave hrun)
  · rw [if_neg hused] at hheld ⊢
    by_cases hzero : (s.semtable k).value = 0
    · rw [if_pos hzero] at hheld ⊢
      rw [only_goto] at hheld
      exact (LRun.next {} hrun hheld).trans (LRun.sleep (l := .sem k) hrun (by simp) hcall)
    · rw [if_neg hzero] at hheld ⊢
      rw [only_move] at hheld
      refine Lib.Steps.trans (LRun.next {} hrun hheld) (LRun.leave ?_)
      exact hrun

/-- The section of `msgrecv`, lock by lock. -/
theorem msgrecv_run (hrun : (s.proc i).state = .running) {buf : UInt64}
    (hcall : s.kpc i = .call (.msgrecv buf)) :
    LRun (LState.quiet s) (LState.quiet (msgrecv s i o buf)) := by
  refine (LRun.start hrun hcall (by simp) (l := .wait) rfl).trans ?_
  have hheld := placeStep_held (o := o) (l := .wait) hcall
  rw [msgrecv]
  by_cases hflag : (s.proc i).msgFlag
  · rw [if_pos hflag]
    have hstate : ((s.setProc i (msgrecvProc (s.proc i) o.copyOk).1).proc i).state = .running := by
      rw [setProc_proc, Function.update_self, msgrecvProc_state]
      exact hrun
    refine Lib.Steps.trans (LRun.next o hrun (hheld.trans ?_)) (LRun.leave hstate (l := .wait))
    rw [heldStep, only_locking (by simp [Place.Holds]), only_base, if_pos hflag]
    show some ((LState.only s i (.held .wait)).move i
      (s.setProc i (msgrecvProc (s.proc i) o.copyOk).1)
      (.leave .wait (msgrecvProc (s.proc i) o.copyOk).2)) = _
    rw [only_move]
  · rw [if_neg hflag]
    refine Lib.Steps.trans (LRun.next o hrun (hheld.trans ?_))
      (LRun.sleep hrun (l := .wait) (by simp) hcall)
    rw [heldStep, only_locking (by simp [Place.Holds]), only_base, if_neg hflag, only_goto]

/-! ### Scans with `wait_lock` -/

/-- A search of the table ends at the first slot that passes. -/
theorem find?_finRange_eq_some {n : Nat} {test : Fin n → Bool} {j : Fin n}
    (h : (List.finRange n).find? test = some j) :
    test j = true ∧ ∀ j' : Fin n, j'.val < j.val → test j' = false := by
  obtain ⟨hj, k, hk, hget, hbefore⟩ := List.find?_eq_some_iff_getElem.mp h
  rw [List.getElem_finRange] at hget
  have hkj : k = j.val := congrArg Fin.val hget
  refine ⟨hj, ?_⟩
  intro j' hj'
  have hno := hbefore j'.val (by omega)
  rw [List.getElem_finRange] at hno
  simpa using hno

/-- The process at slot `k` of a scan. -/
theorem placeStep_scan {call : Call} (hcall : s.kpc i = .call call) {k : Nat} {found : Bool} :
    placeStep (LState.only s i (.scan k found)) i o =
      scanStep (LState.only s i (.scan k found)) i o k found call := by
  rw [placeStep, only_place, only_base, hcall]

/-- A scan holds one lock at a time. -/
theorem scan_locking {k : Nat} {found : Bool} {j : Fin nproc} {t : LState} :
    (LState.only s i (.scan k found)).locking (.proc j) t = some t :=
  only_locking (by simp [Place.Holds])

/-- `msgsend` passes the slots that are not the one it looks for. -/
theorem msgsend_scan (hrun : (s.proc i).state = .running) {pid : Int} {msg : UInt64}
    (hcall : s.kpc i = .call (.msgsend pid msg)) (k : Nat) (hk : k ≤ nproc)
    (hmiss : ∀ j : Fin nproc, j.val < k →
      ¬ ((s.proc j).state ≠ .unused ∧ (s.proc j).pid = pid)) :
    LRun (LState.only s i (.scan 0 false)) (LState.only s i (.scan k false)) := by
  induction k with
  | zero => exact .refl
  | succ k ih =>
      refine Lib.Steps.trans (ih (by omega) fun j hj => hmiss j (by omega)) ?_
      apply LRun.next {} hrun
      have hmissed := hmiss ⟨k, by omega⟩ (Nat.lt_succ_self k)
      rw [placeStep_scan hcall, scanStep, dif_pos (show k < nproc by omega)]
      dsimp only
      rw [scan_locking, only_base, if_neg hmissed, only_goto]

/-- The section of `msgsend`, lock by lock. -/
theorem msgsend_run (hrun : (s.proc i).state = .running) {pid : Int} {msg : UInt64}
    (hcall : s.kpc i = .call (.msgsend pid msg)) :
    LRun (LState.quiet s) (LState.quiet (msgsend s i o pid)) := by
  refine (LRun.start (l := .wait) hrun hcall (by simp) rfl).trans ?_
  rw [msgsend]
  cases hfind : (List.finRange nproc).find? fun j =>
      decide ((s.proc j).state ≠ .unused) && decide ((s.proc j).pid = pid) with
  | none =>
      -- no such process: the scan goes over all slots
      have hmiss := List.find?_eq_none.mp hfind
      refine Lib.Steps.trans (msgsend_scan hrun hcall nproc (Nat.le_refl _) ?_) ?_
      · intro j _ hj
        exact hmiss j (List.mem_finRange j) (by simp [hj.1, hj.2])
      · refine Lib.Steps.trans (LRun.next {} hrun ?_) (LRun.leave (l := .wait) hrun)
        rw [placeStep_scan hcall, scanStep, dif_neg (Nat.lt_irrefl _), only_goto]
  | some j =>
      -- the scan stops at the first process with the pid
      obtain ⟨hj, hbefore⟩ := find?_finRange_eq_some hfind
      have hhit : (s.proc j).state ≠ .unused ∧ (s.proc j).pid = pid := by simpa using hj
      refine Lib.Steps.trans (msgsend_scan hrun hcall j (by omega) ?_) ?_
      · intro j' hj' hmatch
        have hno := hbefore j' hj'
        simp [hmatch.1, hmatch.2] at hno
      · have hstate : ((s.setProc j (msgsendProc (s.proc j) o.bytes o.copyOk).1).proc i).state =
            .running := by
          -- a process may send to itself
          by_cases hij : i = j
          · subst hij
            rw [setProc_proc, Function.update_self, msgsendProc_state]
            exact hrun
          · rw [setProc_proc, Function.update_of_ne hij]
            exact hrun
        have hscan : placeStep (LState.only s i (.scan j false)) i o = some (LState.only
            (s.setProc j (msgsendProc (s.proc j) o.bytes o.copyOk).1) i
            (if (msgsendProc (s.proc j) o.bytes o.copyOk).2 = 0 then
              .waking .wait (some (.msgFlag j)) 0 (.leave 0)
              else .leave .wait (msgsendProc (s.proc j) o.bytes o.copyOk).2)) := by
          rw [placeStep_scan hcall, scanStep, dif_pos j.isLt]
          dsimp only
          rw [scan_locking, only_base, if_pos hhit]
          exact congrArg some only_move
        refine Lib.Steps.trans (LRun.next o hrun hscan) ?_
        dsimp only
        by_cases hsent : (msgsendProc (s.proc j) o.bytes o.copyOk).2 = 0
        · rw [if_pos hsent, if_pos hsent, hsent]
          exact LRun.wakeLeave (l := .wait) hstate (by simp) _ 0
        · rw [if_neg hsent, if_neg hsent]
          exact LRun.leave hstate

/-- The loop of a reaping call at slot `k`. -/
theorem scanStep_wait {call : Call} (hwait : call.IsWait = true) (k : Nat) (found : Bool) :
    scanStep (LState.only s i (.scan k found)) i o k found call =
      if h : k < nproc then
        if call.child i (s.proc ⟨k, h⟩) then
          if (s.proc ⟨k, h⟩).state = .zombie then
            if call.copied o then
              some (LState.only (s.setProc ⟨k, h⟩ (freeproc (s.proc ⟨k, h⟩))) i
                (.leave .wait (call.result (s.proc ⟨k, h⟩))))
            else some (LState.only s i (.leave .wait (-1)))
          else some (LState.only s i (.scan (k + 1) true))
        else some (LState.only s i (.scan (k + 1) found))
      else
        some (LState.only s i
          (if !found || (s.proc i).killed then .leave .wait (-1) else .sleep .wait (.proc i))) := by
  have hnot : ∀ {t : LState} {j : Fin nproc},
      (LState.only s i (.scan k found)).locking (.proc j) t = some t := scan_locking
  cases call with
  | wait | waitx | join =>
      unfold scanStep
      by_cases hk : k < nproc
      · rw [dif_pos hk, dif_pos hk]
        dsimp only
        rw [hnot, only_base, only_move, only_goto, only_goto, only_goto]
        split
        · split
          · split <;> rfl
          · rfl
        · rfl
      · rw [dif_neg hk, dif_neg hk]
        dsimp only
        rw [only_goto, only_base]
  | _ => cases hwait

/-- A reaping call passes the slots that hold no `ZOMBIE` child, and notes
    whether they hold a child. -/
theorem wait_scan (hrun : (s.proc i).state = .running) {call : Call}
    (hcall : s.kpc i = .call call) (hwait : call.IsWait = true) (k : Nat) (hk : k ≤ nproc)
    (hmiss : ∀ j : Fin nproc, j.val < k →
      ¬ (call.child i (s.proc j) = true ∧ (s.proc j).state = .zombie)) :
    LRun (LState.only s i (.scan 0 false)) (LState.only s i
      (.scan k (decide (∃ j : Fin nproc, j.val < k ∧ call.child i (s.proc j) = true)))) := by
  induction k with
  | zero =>
      have hnone : ¬ ∃ j : Fin nproc, j.val < 0 ∧ call.child i (s.proc j) = true := by
        rintro ⟨j, hj, -⟩
        exact Nat.not_lt_zero _ hj
      rw [decide_eq_false hnone]
      exact .refl
  | succ k ih =>
      refine Lib.Steps.trans (ih (by omega) fun j hj => hmiss j (by omega)) ?_
      apply LRun.next {} hrun
      have hlt : k < nproc := by omega
      rw [placeStep_scan hcall, scanStep_wait hwait, dif_pos hlt]
      by_cases hchild : call.child i (s.proc ⟨k, hlt⟩) = true
      · have hzombie : (s.proc ⟨k, hlt⟩).state ≠ .zombie := fun hz =>
          hmiss ⟨k, hlt⟩ (Nat.lt_succ_self k) ⟨hchild, hz⟩
        rw [if_pos hchild, if_neg hzombie]
        rw [decide_eq_true (p := ∃ j : Fin nproc, j.val < k + 1 ∧ call.child i (s.proc j) = true)
          ⟨⟨k, hlt⟩, Nat.lt_succ_self k, hchild⟩]
      · rw [if_neg hchild]
        have hsame : (∃ j : Fin nproc, j.val < k ∧ call.child i (s.proc j) = true) ↔
            ∃ j : Fin nproc, j.val < k + 1 ∧ call.child i (s.proc j) = true := by
          constructor
          · rintro ⟨j, hj, hc⟩
            exact ⟨j, by omega, hc⟩
          · rintro ⟨j, hj, hc⟩
            have hne : j.val ≠ k := by
              rintro rfl
              exact hchild hc
            exact ⟨j, by omega, hc⟩
        rw [decide_eq_decide.mpr hsame]

/-- A round of `wait`, `waitx` or `join`, lock by lock. -/
theorem wait_run (hrun : (s.proc i).state = .running) {call : Call} (hcall : s.kpc i = .call call)
    (hwait : call.IsWait = true) :
    LRun (LState.quiet s)
      (LState.quiet (waitSection s i call (call.child i) (call.copied o) call.result)) := by
  have hstart : LRun (LState.quiet s) (LState.only s i (.scan 0 false)) := by
    cases call with
    | wait | waitx | join => exact LRun.start (l := .wait) hrun hcall (by simp) rfl
    | _ => cases hwait
  refine hstart.trans ?_
  rw [waitSection]
  cases hfind : (List.finRange nproc).find? fun j =>
      call.child i (s.proc j) && decide ((s.proc j).state = .zombie) with
  | none =>
      -- no zombie: the scan goes over all slots, and fails or sleeps
      have hmiss := List.find?_eq_none.mp hfind
      refine Lib.Steps.trans (wait_scan hrun hcall hwait nproc (Nat.le_refl _) ?_) ?_
      · intro j _ hj
        exact hmiss j (List.mem_finRange j) (by simp [hj.1, hj.2])
      · have hany : decide (∃ j : Fin nproc, j.val < nproc ∧ call.child i (s.proc j) = true) =
            (List.finRange nproc).any fun j => call.child i (s.proc j) := by
          rw [Bool.eq_iff_iff, decide_eq_true_iff, List.any_eq_true]
          constructor
          · rintro ⟨j, -, hc⟩
            exact ⟨j, List.mem_finRange j, hc⟩
          · rintro ⟨j, -, hc⟩
            exact ⟨j, j.isLt, hc⟩
        have hscan := scanStep_wait (s := s) (i := i) (o := o) hwait nproc
          ((List.finRange nproc).any fun j => call.child i (s.proc j))
        rw [dif_neg (Nat.lt_irrefl _)] at hscan
        rw [hany]
        refine Lib.Steps.trans (LRun.next o hrun ((placeStep_scan hcall).trans hscan)) ?_
        dsimp only
        split
        · exact LRun.leave hrun
        · exact LRun.sleep (l := .wait) hrun (by simp) hcall
  | some j =>
      -- the scan stops at the first zombie
      obtain ⟨hj, hbefore⟩ := find?_finRange_eq_some hfind
      obtain ⟨hchild, hzombie⟩ : call.child i (s.proc j) = true ∧ (s.proc j).state = .zombie := by
        simpa using hj
      refine Lib.Steps.trans (wait_scan hrun hcall hwait j (by omega) ?_) ?_
      · intro j' hj' hmatch
        have hno := hbefore j' hj'
        simp [hmatch.1, hmatch.2] at hno
      · have hne : i ≠ j := by
          rintro rfl
          rw [hrun] at hzombie
          cases hzombie
        have hscan := scanStep_wait (s := s) (i := i) (o := o) hwait j
          (decide (∃ j' : Fin nproc, j'.val < j.val ∧ call.child i (s.proc j') = true))
        rw [dif_pos j.isLt, if_pos hchild, if_pos hzombie] at hscan
        dsimp only
        -- the child is freed only if the copy succeeds
        by_cases hcopied : call.copied o = true
        · rw [if_pos hcopied] at hscan ⊢
          have hstate : ((s.setProc j (freeproc (s.proc j))).proc i).state = .running := by
            rw [setProc_proc, Function.update_of_ne hne]
            exact hrun
          exact (LRun.next o hrun ((placeStep_scan hcall).trans hscan)).trans (LRun.leave hstate)
        · rw [if_neg hcopied] at hscan ⊢
          exact (LRun.next o hrun ((placeStep_scan hcall).trans hscan)).trans (LRun.leave hrun)

/-! ### `kexit` -/

/-- A process is woken once. -/
theorem wakeupProc_idem (chan : Option Chan) (p : Proc) :
    wakeupProc chan (wakeupProc chan p) = wakeupProc chan p := by
  rcases wakeupProc_cases chan p with hsame | hrunnable
  · rw [hsame, hsame]
  · rw [wakeupProc]
    split
    · rw [wake, if_neg (by simp [hrunnable])]
    · rfl

/-- A slot handed over between two wakeups is woken by the second one as well. -/
theorem wakeupProc_reparentProc (chan : Option Chan) (r : Fin nproc) (p : Proc) :
    wakeupProc chan (reparentProc i r (wakeupProc chan p)) =
      wakeupProc chan (reparentProc i r p) := by
  by_cases hchan : p.chan = chan
  · by_cases hstate : p.state = .sleeping <;> by_cases hparent : p.parent = some i <;>
      simp [wakeupProc, reparentProc, wake, hchan, hstate, hparent]
  · rw [show wakeupProc chan p = p by rw [wakeupProc, if_neg hchan]]

/-- A wake-up does not see what a slot was before it was set, if both sleep alike.
    -/
theorem setProc_wakeup (chan : Option Chan) (j : Fin nproc) {p q : Proc}
    (h : wakeupProc chan p = wakeupProc chan q) :
    ((s.wakeup chan).setProc j p).wakeup chan = (s.setProc j q).wakeup chan := by
  unfold KState.wakeup KState.mapProc KState.setProc
  congr 1
  funext j'
  by_cases hj : j' = j
  · subst hj
    simp [h]
  · simp [hj, wakeupProc_idem]

/-- A child of `i` below slot `k`. -/
def ChildBelow (s : KState) (i : Fin nproc) (k : Nat) : Prop :=
  ∃ j : Fin nproc, j.val < k ∧ (s.proc j).parent = some i

instance (k : Nat) : Decidable (ChildBelow s i k) :=
  inferInstanceAs (Decidable (∃ _ : Fin nproc, _))

/-- `reparent` up to slot `k`. -/
def reparentBelow (s : KState) (i : Fin nproc) (k : Nat) : KState :=
  if ChildBelow s i k then
    (s.mapBelow k (reparentProc i s.initproc)).wakeup (some (.proc s.initproc))
  else
    s.mapBelow k (reparentProc i s.initproc)

theorem reparentBelow_initproc (k : Nat) : (reparentBelow s i k).initproc = s.initproc := by
  rw [reparentBelow]
  split <;> rfl

/-- The exiting process runs on while its children get another parent. -/
theorem reparentBelow_running (hrun : (s.proc i).state = .running) (k : Nat) :
    ((reparentBelow s i k).proc i).state = .running := by
  have hmapped : ((s.mapBelow k (reparentProc i s.initproc)).proc i).state = .running := by
    rw [KState.mapBelow]
    dsimp only
    split
    · rw [reparentProc_state]
      exact hrun
    · exact hrun
  rw [reparentBelow]
  split
  · rw [wakeup_proc]
    dsimp only
    rw [wakeupProc_of_running _ hmapped]
    exact hmapped
  · exact hmapped

theorem reparentBelow_zero : reparentBelow s i 0 = s := by
  have hnone : ¬ ChildBelow s i 0 := by
    rintro ⟨j, hj, -⟩
    exact Nat.not_lt_zero _ hj
  rw [reparentBelow, if_neg hnone, mapBelow_zero]

/-- All children have got another parent. -/
theorem reparentBelow_nproc : reparentBelow s i nproc = reparent s i := by
  have hany : ChildBelow s i nproc ↔
      (List.finRange nproc).any (fun j => decide ((s.proc j).parent = some i)) = true := by
    rw [List.any_eq_true]
    constructor
    · rintro ⟨j, -, hj⟩
      exact ⟨j, List.mem_finRange j, decide_eq_true hj⟩
    · rintro ⟨j, -, hj⟩
      exact ⟨j, j.isLt, of_decide_eq_true hj⟩
  rw [reparentBelow, reparent, mapBelow_nproc]
  simp only [hany]

/-- The slot that `reparent` comes to next. -/
theorem reparentBelow_proc (j : Fin nproc) : (reparentBelow s i j).proc j =
    if ChildBelow s i j then wakeupProc (some (.proc s.initproc)) (s.proc j) else s.proc j := by
  rw [reparentBelow]
  split
  · rw [wakeup_proc]
    dsimp only
    rw [mapBelow_proc]
  · exact mapBelow_proc j

/-- A slot of `reparent` that holds a child. -/
theorem reparentBelow_succ_of_child {j : Fin nproc} (hchild : (s.proc j).parent = some i) :
    ((reparentBelow s i j).setProc j
      (reparentProc i s.initproc ((reparentBelow s i j).proc j))).wakeup
      (some (.proc s.initproc)) = reparentBelow s i (j + 1) := by
  have hnext : ChildBelow s i (j + 1) := ⟨j, Nat.lt_succ_self _, hchild⟩
  rw [reparentBelow_proc]
  rw [reparentBelow, reparentBelow, if_pos hnext, mapBelow_succ]
  by_cases hbelow : ChildBelow s i j
  · rw [if_pos hbelow, if_pos hbelow]
    exact setProc_wakeup _ j (wakeupProc_reparentProc _ _ _)
  · rw [if_neg hbelow, if_neg hbelow]

/-- A slot that holds none. -/
theorem reparentBelow_succ_of_not_child {j : Fin nproc} (hchild : (s.proc j).parent ≠ some i) :
    reparentBelow s i (j + 1) = reparentBelow s i j := by
  have hsame : ChildBelow s i (j + 1) ↔ ChildBelow s i j := by
    constructor
    · rintro ⟨j', hj', hc⟩
      have hne : j'.val ≠ j.val := fun he => hchild (Fin.ext he ▸ hc)
      exact ⟨j', by omega, hc⟩
    · rintro ⟨j', hj', hc⟩
      exact ⟨j', by omega, hc⟩
  have hkeep : reparentProc i s.initproc (s.proc j) = s.proc j := by
    rw [reparentProc, if_neg hchild]
  rw [reparentBelow, reparentBelow, mapBelow_succ_of_eq hkeep]
  simp only [hsame]

/-- One slot of `reparent`, with the loop of `wakeup` if it holds a child. -/
theorem reparent_slot (hrun : (s.proc i).state = .running) (j : Fin nproc) :
    LRun (LState.only (reparentBelow s i j) i (.reparent j))
      (LState.only (reparentBelow s i (j + 1)) i (.reparent (j + 1))) := by
  have hrun' := reparentBelow_running hrun j
  have hparent : ((reparentBelow s i j).proc j).parent = (s.proc j).parent := by
    rw [reparentBelow_proc]
    split
    · exact (wakeupProc_samePlace _ _).parent
    · rfl
  have hplace : placeStep (LState.only (reparentBelow s i j) i (.reparent j)) i {} =
      some (reparentStep (LState.only (reparentBelow s i j) i (.reparent j)) i j) := by
    rw [placeStep, only_place]
  rw [reparentStep, dif_pos j.isLt] at hplace
  dsimp only at hplace
  rw [only_base, hparent] at hplace
  by_cases hchild : (s.proc j).parent = some i
  · rw [if_pos hchild, only_move, reparentBelow_initproc] at hplace
    refine Lib.Steps.trans (LRun.next {} hrun' hplace) ?_
    rw [← reparentBelow_succ_of_child hchild]
    refine LRun.waking (l := .wait) ?_ (by simp) _ (.reparent (j + 1))
    rw [setProc_proc]
    by_cases hij : i = j
    · subst hij
      rw [Function.update_self, reparentProc_state]
      exact hrun'
    · rw [Function.update_of_ne hij]
      exact hrun'
  · rw [if_neg hchild, only_goto] at hplace
    rw [reparentBelow_succ_of_not_child hchild]
    exact LRun.next {} hrun' hplace

/-- The section of `kexit`, lock by lock. -/
theorem kexit_run (hrun : (s.proc i).state = .running) {status : Int}
    (hcall : s.kpc i = .call (.exit status)) (hinit : i ≠ s.initproc) :
    LRun (LState.quiet s) (LState.quiet (kexit s i status)) := by
  -- `acquire(&wait_lock)` and `reparent`
  have hstart : LRun (LState.quiet s) (LState.only s i (.reparent 0)) := by
    rw [← only_idle (i := i)]
    apply LRun.next {} hrun
    rw [placeStep, only_place]
    dsimp only
    rw [idleStep, only_base, hcall]
    dsimp only
    rw [if_neg hinit, only_locking id, only_goto]
  let f (k : Nat) : LState := LState.only (reparentBelow s i k) i (.reparent k)
  have hloop : LRun (f 0) (f nproc) :=
    LRun.slots (fun k hk => reparent_slot hrun ⟨k, hk⟩) nproc (Nat.le_refl _)
  have hfirst : f 0 = LState.only s i (.reparent 0) := by
    show LState.only (reparentBelow s i 0) i _ = _
    rw [reparentBelow_zero]
  have hlast : f nproc = LState.only (reparent s i) i (.reparent nproc) := by
    show LState.only (reparentBelow s i nproc) i _ = _
    rw [reparentBelow_nproc]
  rw [hfirst, hlast] at hloop
  have hrun' : ((reparent s i).proc i).state = .running := by
    rw [← reparentBelow_nproc]
    exact reparentBelow_running hrun nproc
  -- `wakeup(p->parent)`
  have hwake : LRun (LState.only (reparent s i) i (.reparent nproc))
      (LState.only ((reparent s i).wakeup (((reparent s i).proc i).parent.map .proc)) i .exit) := by
    refine Lib.Steps.trans (LRun.next {} hrun' ?_) (LRun.waking (l := .wait) hrun' (by simp)
      _ .exit)
    rw [placeStep, only_place]
    dsimp only
    rw [reparentStep, dif_neg (Nat.lt_irrefl _), only_goto, only_base]
  -- `p->state = ZOMBIE`, and the switch to the scheduler
  rw [kexit]
  generalize hs : (reparent s i).wakeup (((reparent s i).proc i).parent.map .proc) = s'
  rw [hs] at hwake
  have hrun'' : (s'.proc i).state = .running := by
    rw [← hs, wakeup_proc]
    dsimp only
    rw [wakeupProc_of_running _ hrun']
    exact hrun'
  have hcall' : s'.kpc i = .call (.exit status) := by
    rw [← hs, wakeup_kpc, reparent_kpc]
    exact hcall
  have hexit : LRun (LState.only s' i .exit) (LState.only s' i .dying) := by
    apply LRun.next {} hrun''
    rw [placeStep, only_place]
    dsimp only
    rw [only_locking (by simp [Place.Holds]), only_goto]
  have hdying : LRun (LState.only s' i .dying)
      (LState.only (s'.setProc i (exitProc (s'.proc i) status)) i .dead) := by
    apply LRun.next {} hrun''
    rw [placeStep, only_place, only_base, hcall']
    dsimp only
    rw [only_move]
  have hdead : LRun (LState.only (s'.setProc i (exitProc (s'.proc i) status)) i .dead)
      (LState.quiet (s'.setProc i (exitProc (s'.proc i) status))) := by
    rw [← only_idle (i := i)]
    apply LRun.step (e := .run i {})
    rw [lstep, if_pos (.inr only_place), placeStep, only_place]
    dsimp only
    rw [only_goto]
  exact (((hstart.trans hloop).trans hwake).trans hexit).trans (hdying.trans hdead)

end

/-! ## Steps of the coarser model -/

section

variable {s t : KState} {i : Fin nproc} {o : Outcome}

/-- A step of the coarser model between two sections. -/
theorem quiet_coarse {e : Event} (h : step e s = some t) :
    (LState.quiet s).coarse e = some (LState.quiet t) := by
  rw [LState.coarse, LState.quiet]
  dsimp only
  rw [h]
  rfl

/-- A loop over the table outside the processes, slot by slot. -/
theorem LRun.mapProc {f : Proc → Proc} {e : Fin nproc → LEvent}
    (he : ∀ (j : Fin nproc) (u : LState), lstep (e j) u =
      u.locking (.proc j) { u with base := u.base.setProc j (f (u.base.proc j)) }) :
    LRun (LState.quiet s) (LState.quiet (s.mapProc f)) := by
  have hloop := LRun.slots (f := fun k => LState.quiet (s.mapBelow k f))
    (fun k hk => ?_) nproc (Nat.le_refl _)
  · rw [mapBelow_zero, mapBelow_nproc] at hloop
    exact hloop
  · have hslot : (s.mapBelow k f).proc ⟨k, hk⟩ = s.proc ⟨k, hk⟩ := mapBelow_proc ⟨k, hk⟩
    apply LRun.step (e := e ⟨k, hk⟩)
    rw [he, quiet_locking]
    show some (LState.quiet
      ((s.mapBelow k f).setProc ⟨k, hk⟩ (f ((s.mapBelow k f).proc ⟨k, hk⟩)))) = _
    rw [hslot, ← mapBelow_succ ⟨k, hk⟩]

/-- `wakeup` on a channel outside the processes. -/
theorem LRun.notify (number : Nat) :
    LRun (LState.quiet s) (LState.quiet (s.wakeup (some (.outside number)))) :=
  LRun.mapProc (e := .notify number) fun _ _ => rfl

/-- The first lock operation of a process that is between sections. -/
theorem LRun.idle (hrun : (s.proc i).state = .running) {u : LState}
    (h : idleStep (LState.quiet s) i o = some u) : LRun (LState.quiet s) u := by
  apply LRun.step (e := .run i o)
  rw [lstep, if_pos (.inl hrun)]
  exact h

@[simp] theorem quiet_base : (LState.quiet s).base = s := rfl

/-- A section that neither sleeps nor wakes is one lock operation. -/
theorem idleStep_direct (hstep : step (.run i o) s = some t)
    (hcall : ∀ call, s.kpc i = .call call →
      call.lock = none ∧ ((∃ status, call = .exit status) → o.sleepOn ≠ none)) :
    idleStep (LState.quiet s) i o = some (LState.quiet t) := by
  have hwhole := quiet_coarse hstep
  rw [idleStep, quiet_base, hwhole]
  cases hkpc : s.kpc i with
  | user | boot | ecall | asleep | trapExit | signal => rfl
  | scan scan k =>
      dsimp only
      split
      · exact quiet_locking
      · rfl
  | link child pid => exact quiet_locking
  | ready child pid => exact quiet_locking
  | call call =>
      obtain ⟨hlock, hexit⟩ := hcall call hkpc
      cases call with
      | exit status =>
          obtain ⟨number, hnumber⟩ := Option.ne_none_iff_exists'.mp (hexit ⟨status, rfl⟩)
          rw [hnumber]
      | _ =>
          dsimp only
          rw [hlock]

/-- The sections of the calls that sleep or wake. -/
theorem call_run (hrun : (s.proc i).state = .running) {call : Call} (hcall : s.kpc i = .call call)
    {l : Lock} (hl : call.lock = some l) (h : callSection s i o call = some t) :
    LRun (LState.quiet s) (LState.quiet t) := by
  cases call with
  | semInit semid value =>
      rw [Call.lock] at hl
      split at hl
      · cases hl
      · rename_i hvalue
        obtain ⟨k, hk, -⟩ := Option.map_eq_some_iff.mp hl
        cases h
        exact ksemInit_run hrun hcall hk hvalue
  | semWait semid =>
      obtain ⟨k, hk, -⟩ := Option.map_eq_some_iff.mp hl
      cases h
      exact ksemWait_run hrun hcall hk
  | semPost semid =>
      obtain ⟨k, hk, -⟩ := Option.map_eq_some_iff.mp hl
      cases h
      exact ksemPost_run hrun hcall hk
  | msgsend pid msg =>
      cases h
      exact msgsend_run hrun hcall
  | msgrecv buf =>
      cases h
      exact msgrecv_run hrun hcall
  | wait | waitx | join =>
      cases h
      exact wait_run (o := o) hrun hcall rfl
  | _ => cases hl

/-- A section of a process. -/
theorem run_of_runSection (hrun : (s.proc i).state = .running) (h : runSection s i o = some t) :
    LRun (LState.quiet s) (LState.quiet t) := by
  have hstep : step (.run i o) s = some t := by
    rw [step, if_pos hrun]
    exact h
  by_cases hcall : ∃ call, s.kpc i = .call call ∧
      (call.lock ≠ none ∨ ((∃ status, call = .exit status) ∧ o.sleepOn = none))
  · obtain ⟨call, hkpc, hlock | ⟨⟨status, rfl⟩, hsleep⟩⟩ := hcall
    · obtain ⟨l, hl⟩ := Option.ne_none_iff_exists'.mp hlock
      rw [runSection, hkpc] at h
      exact call_run hrun hkpc hl h
    · rw [runSection, hkpc] at h
      dsimp only at h
      rw [callSection] at h
      split at h
      · cases h
      · rename_i hinit
        rw [hsleep] at h
        cases h
        exact kexit_run hrun hkpc hinit
  · refine LRun.idle (o := o) hrun (idleStep_direct hstep ?_)
    intro call hkpc
    constructor
    · by_contra hlock
      exact hcall ⟨call, hkpc, .inl hlock⟩
    · intro hexit hsleep
      exact hcall ⟨call, hkpc, .inr ⟨hexit, hsleep⟩⟩

/-- Every step of the coarser model is a run of lock operations. -/
theorem run_of_step {e : Event} (h : step e s = some t) :
    LRun (LState.quiet s) (LState.quiet t) := by
  have hwhole := quiet_coarse h
  cases e with
  | schedule i =>
      apply LRun.step (e := .schedule i)
      rw [lstep, hwhole]
      exact quiet_locking
  | yield i =>
      apply LRun.step (e := .yield i)
      rw [lstep, hwhole]
      exact if_pos rfl
  | trap i regs cause =>
      apply LRun.step (e := .trap i regs cause)
      exact hwhole
  | run i o =>
      rw [step] at h
      split at h
      · rename_i hrun
        exact run_of_runSection hrun h
      · cases h
  | clock =>
      cases h
      exact (LRun.mapProc (e := .updateTime) fun _ _ => rfl).trans (LRun.notify 0)
  | notify number =>
      cases h
      exact LRun.notify number

/-- The coarser model's states are those of the finer model in which no process
    is inside a section. -/
theorem LReachable.of_reachable (h : Reachable s) : LReachable (LState.quiet s) := by
  induction h with
  | refl => exact .refl
  | tail _ _ hstep ih => exact Lib.Steps.trans ih (run_of_step hstep)

end

end G20OsLab.Kernel
