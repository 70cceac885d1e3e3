/-
  G20OsLab.Kernel.Reaping

  What `kwait`, `waitx` and `kjoin` report.

  They share one loop, which frees a `ZOMBIE` child of the caller exactly when
  it returns the pid of the child.  With the invariant of the process tree it
  follows that no run reports a child twice, and that a call that fails leaves
  every child to be reaped later.
-/

import G20OsLab.Kernel.InitReaps
import G20OsLab.Kernel.Tree

namespace G20OsLab.Kernel

/-- One of the calls that reap a child. -/
def Call.IsWait : Call → Bool
  | .wait _ | .waitx _ _ | .join _ => true
  | _ => false

/-- The history of a run: the values other than `-1` that the reaping calls
    have returned. -/
def reports (s : KState) (e : Event) (t : KState) (reported : List UInt64) : List UInt64 :=
  match returned s e t with
  | some (_, .call call, v) =>
      if call.IsWait = true ∧ v ≠ u64OfInt (-1) then v :: reported else reported
  | _ => reported

section

variable {s t : KState} {e : Event} {i j : Fin nproc} {o : Outcome} {call : Call}

/-! ## One round of the loop -/

/-- A wait reaps a zombie, fails, or sleeps. -/
theorem waitSection_cases {child : Proc → Bool} {copied : Bool} {result : Proc → Int} :
    (∃ j, child (s.proc j) = true ∧ (s.proc j).state = .zombie ∧
        waitSection s i call child copied result =
          s.setRet i j (freeproc (s.proc j), result (s.proc j))) ∨
      waitSection s i call child copied result = s.retInt i (-1) ∨
      waitSection s i call child copied result = s.sleep i (.proc i) call := by
  rw [waitSection]
  split
  · rename_i j hj
    have hfound := List.find?_some hj
    simp only [Bool.and_eq_true, decide_eq_true_eq] at hfound
    split
    · exact .inl ⟨j, hfound.1, hfound.2, rfl⟩
    · exact .inr (.inl rfl)
  · split
    · exact .inr (.inl rfl)
    · exact .inr (.inr rfl)

/-- A round frees a child and returns its pid, or fails, or sleeps. -/
theorem step_wait (hat : s.At e i (.call call)) (hwait : call.IsWait = true)
    (h : step e s = some t) :
    (∃ j, call.Reaps (s.proc j) ∧ (s.proc j).parent = some i ∧ (s.proc j).state = .zombie ∧
        t = s.setRet i j (freeproc (s.proc j), (s.proc j).pid)) ∨
      t = s.retInt i (-1) ∨ t = s.sleep i (.proc i) call := by
  obtain ⟨o, -, ho⟩ := hat.step h
  simp only [runSection, hat.2.2, callSection] at ho
  cases call with
  | wait addr =>
      obtain rfl := Option.some.inj ho
      refine waitSection_cases.imp_left ?_
      rintro ⟨j, hchild, hzombie, hret⟩
      simp only [Bool.and_eq_true, decide_eq_true_eq, Bool.not_eq_true'] at hchild
      exact ⟨j, hchild.2, hchild.1, hzombie, hret⟩
  | waitx rtime wtime =>
      obtain rfl := Option.some.inj ho
      refine waitSection_cases.imp_left ?_
      rintro ⟨j, hchild, hzombie, hret⟩
      simp only [Bool.and_eq_true, decide_eq_true_eq, Bool.not_eq_true'] at hchild
      exact ⟨j, hchild.2, hchild.1, hzombie, hret⟩
  | join tid =>
      obtain rfl := Option.some.inj ho
      refine waitSection_cases.imp_left ?_
      rintro ⟨j, hchild, hzombie, hret⟩
      simp only [Bool.and_eq_true, decide_eq_true_eq] at hchild
      -- `kjoin` returns the `tid` it looked for
      exact ⟨j, ⟨hchild.1.2, hchild.2⟩, hchild.1.1, hzombie, by rw [hchild.1.2]; exact hret⟩
  | _ => cases hwait

theorem Call.Reaps.isWait {p : Proc} (h : call.Reaps p) : call.IsWait = true := by
  cases call <;> first | rfl | exact h.elim

/-- A slot is freed by the call of its parent that returns its pid. -/
theorem reaped_of_step (hs : (s.proc j).state ≠ .unused) (h : step e s = some t)
    (ht : (t.proc j).state = .unused) :
    (s.proc j).state = .zombie ∧ ∃ i call, call.Reaps (s.proc j) ∧ (s.proc j).parent = some i ∧
      returned s e t = some (i, .call call, u64OfInt (s.proc j).pid) := by
  rcases kept_or_freed hs h with ⟨hused, -⟩ | ⟨-, hzombie, i, call, hat, hreaps, hparent⟩
  · exact absurd ht hused
  · refine ⟨hzombie, i, call, hreaps, hparent, ?_⟩
    rcases step_wait hat hreaps.isWait h with ⟨j', -, -, -, rfl⟩ | rfl | rfl
    · by_cases hj : j = j'
      · subst hj
        exact returned_retInt hat
      -- the round frees one slot
      · rw [KState.setRet, retInt_state, setProc_proc, Function.update_of_ne hj] at ht
        exact absurd ht hs
    · rw [retInt_state] at ht
      exact absurd ht hs
    · simp only [KState.sleep, setKpc_proc, setProc_proc] at ht
      by_cases hj : j = i
      · subst hj
        simp [sleepOn] at ht
      · rw [Function.update_of_ne hj] at ht
        exact absurd ht hs

/-- A child stays a `ZOMBIE` until it is reaped. -/
theorem zombie_of_step (hpending : s.Pending) (hs : (s.proc j).state = .zombie)
    (h : step e s = some t) : (t.proc j).state = .zombie ∨ (t.proc j).state = .unused := by
  refine step_tree (I := fun p => p.state = .zombie ∨ p.state = .unused) h (.inl hs)
    fun p q hp hm => ?_
  cases hm with
  | same hsame => exact hp.imp hsame.zombie.mpr hsame.unused.mpr
  | spawn _ _ hunused => simp [hs] at hunused
  | abort hunused => simp [hs] at hunused
  | link _ => exact hp
  | ready hat => simp [hpending.ready hat] at hs
  | reparent _ => simpa using hp
  | exit hat _ => simp [hat.running] at hs
  | free _ _ _ _ => exact .inr rfl

/-! ## Steps -/

/-- What a step does to the children of the processes. -/
structure KState.TreeStep (s : KState) (e : Event) (t : KState) : Prop where
  /-- a new process or thread has a pid of its own -/
  born : ∀ j, (s.proc j).state = .unused → (t.proc j).state ≠ .unused →
    ∃ i scan, s.At e i (.scan scan j) ∧ scan.pidArg = none ∧ (t.proc j).pid = s.nextpid ∧
      (t.proc j).isThread = scan.IsClone
  kept : ∀ j, (s.proc j).state ≠ .unused → (t.proc j).state ≠ .unused →
    (t.proc j).pid = (s.proc j).pid ∧ (t.proc j).isThread = (s.proc j).isThread ∧
      ((s.proc j).state = .zombie → (t.proc j).state = .zombie)
  /-- a slot is freed only as a `ZOMBIE`, by its parent, which returns its pid -/
  freed : ∀ j, (s.proc j).state ≠ .unused → (t.proc j).state = .unused →
    (s.proc j).state = .zombie ∧ ∃ i call, call.Reaps (s.proc j) ∧ (s.proc j).parent = some i ∧
      returned s e t = some (i, .call call, u64OfInt (s.proc j).pid)
  /-- a pid that is returned is that of a child freed by the call -/
  reported : ∀ i call v, call.IsWait = true → returned s e t = some (i, .call call, v) →
    v ≠ u64OfInt (-1) → ∃ j, call.Reaps (s.proc j) ∧ (s.proc j).parent = some i ∧
      (s.proc j).state = .zombie ∧ v = u64OfInt (s.proc j).pid ∧ (t.proc j).state = .unused
  /-- a call that returns `-1` changes registers only -/
  failed : ∀ i call, call.IsWait = true → returned s e t = some (i, .call call, u64OfInt (-1)) →
    ∀ j, ∃ tf, t.proc j = { s.proc j with trapframe := tf }

/-- A wait that reports a pid has reaped that child. -/
theorem reported_of_step {v : UInt64} (hwait : call.IsWait = true) (h : step e s = some t)
    (hret : returned s e t = some (i, .call call, v)) (hv : v ≠ u64OfInt (-1)) :
    ∃ j, call.Reaps (s.proc j) ∧ (s.proc j).parent = some i ∧ (s.proc j).state = .zombie ∧
      v = u64OfInt (s.proc j).pid ∧ (t.proc j).state = .unused := by
  obtain ⟨hat, hkpc, ha0⟩ := returned_eq_some h hret
  rcases step_wait hat hwait h with ⟨j, hreaps, hparent, hzombie, rfl⟩ | rfl | rfl
  · refine ⟨j, hreaps, hparent, hzombie, ?_, setRet_state ..⟩
    rw [← ha0, KState.setRet, retInt_a0]
  · exact absurd ((retInt_a0 ..).symm.trans ha0).symm hv
  · simp [KState.sleep] at hkpc

/-- A pid that is not negative as an `int` is not taken for a failure. -/
theorem u64OfInt_inj {v w : Int} (hv : -2 ^ 63 ≤ v ∧ v < 2 ^ 63) (hw : -2 ^ 63 ≤ w ∧ w < 2 ^ 63)
    (h : u64OfInt v = u64OfInt w) : v = w := by
  have hv' := u64OfInt_toNat v
  have hw' := u64OfInt_toNat w
  rw [h] at hv'
  omega

/-- A wait that fails changes no process. -/
theorem failed_of_step (hs : s.TreeInv) (hwrap : s.nextpid ≤ intMax) (hwait : call.IsWait = true)
    (h : step e s = some t) (hret : returned s e t = some (i, .call call, u64OfInt (-1)))
    (j : Fin nproc) : ∃ tf, t.proc j = { s.proc j with trapframe := tf } := by
  obtain ⟨hat, hkpc, ha0⟩ := returned_eq_some h hret
  rcases step_wait hat hwait h with ⟨j', -, -, hzombie, rfl⟩ | rfl | rfl
  · have hrange := hs.pid_range (j := j') (by simp [hzombie])
    rw [KState.setRet, retInt_a0] at ha0
    rw [intMax] at hwrap
    have hpid := u64OfInt_inj (by dsimp only; omega) (by omega) ha0
    dsimp only at hpid
    omega
  · exact exists_retInt_proc ..
  · simp [KState.sleep] at hkpc

/-- Every step keeps to what the process tree allows. -/
theorem step_treeStep (hpending : s.Pending) (hs : s.TreeInv) (hwrap : s.nextpid ≤ intMax)
    (h : step e s = some t) : s.TreeStep e t where
  born j hj hj' := by
    obtain ⟨i, scan, hat, hscan, hpid, hthread, -⟩ := born_of_step hpending hj h hj'
    exact ⟨i, scan, hat, hscan, hpid, hthread⟩
  kept j hj hj' := by
    rcases kept_or_freed hj h with ⟨-, hpid, hthread⟩ | ⟨hfreed, -⟩
    · refine ⟨hpid, hthread, ?_⟩
      intro hzombie
      rcases zombie_of_step hpending hzombie h with hstays | hfreed
      · exact hstays
      · exact absurd hfreed hj'
    · exact absurd hfreed hj'
  freed j hj hj' := reaped_of_step hj h hj'
  reported i call v hwait hret hv := reported_of_step hwait h hret hv
  failed i call hwait hret := failed_of_step hs hwrap hwait h hret

/-! ## Histories -/

/-- The pid was given out, and its process is gone. -/
structure KState.Gone (s : KState) (pid : Int) : Prop where
  pos : 0 < pid
  lt : pid < s.nextpid
  unused : ∀ j, (s.proc j).state ≠ .unused → (s.proc j).pid ≠ pid

/-- No pid was reported twice, and those reported are gone. -/
structure KState.ReportInv (s : KState) (reported : List UInt64) : Prop where
  nodup : reported.Nodup
  gone : ∀ v ∈ reported, ∃ pid, v = u64OfInt pid ∧ s.Gone pid

/-- A pid that is gone does not come back. -/
theorem KState.Gone.of_step {pid : Int} (hpending : s.Pending) (hs : s.Gone pid)
    (h : step e s = some t) : t.Gone pid where
  pos := hs.pos
  lt := Int.lt_of_lt_of_le hs.lt (step_effect h).nextpid
  unused j hj := by
    by_cases hunused : (s.proc j).state = .unused
    · obtain ⟨_, _, -, -, hpid, -⟩ := born_of_step hpending hunused h hj
      have hlt := hs.lt
      omega
    · rcases kept_or_freed hunused h with ⟨-, hpid, -⟩ | ⟨hfreed, -⟩
      · rw [hpid]
        exact hs.unused j hunused
      · exact absurd hfreed hj

/-- After the report of a child no slot has its pid. -/
theorem gone_of_reaped (hpending : s.Pending) (hs : s.TreeInv) (h : step e s = some t)
    (hj : (s.proc j).state ≠ .unused) (hj' : (t.proc j).state = .unused) :
    t.Gone (s.proc j).pid where
  pos := (hs.pid_range hj).1
  lt := Int.lt_of_lt_of_le (hs.pid_range hj).2 (step_effect h).nextpid
  unused k hk hpid := by
    by_cases hunused : (s.proc k).state = .unused
    · obtain ⟨_, _, -, -, hnew, -⟩ := born_of_step hpending hunused h hk
      have hlt := (hs.pid_range hj).2
      omega
    · rcases kept_or_freed hunused h with ⟨-, hkept, -⟩ | ⟨hfreed, -⟩
      · obtain rfl := hs.pid_inj hunused hj (hkept.symm.trans hpid)
        exact absurd hj' hk
      · exact absurd hfreed hk

/-- No pid is reported twice. -/
theorem reportInv_of_step {reported : List UInt64} (hpending : s.Pending) (hs : s.TreeInv)
    (hwrap : s.nextpid ≤ intMax) (hreported : s.ReportInv reported) (h : step e s = some t) :
    t.ReportInv (reports s e t reported) := by
  have hold : t.ReportInv reported :=
    ⟨hreported.nodup, fun v hv => by
      obtain ⟨pid, rfl, hgone⟩ := hreported.gone v hv
      exact ⟨pid, rfl, hgone.of_step hpending h⟩⟩
  rw [reports]
  split
  · rename_i i call v hret
    split
    · rename_i hnew
      obtain ⟨j, -, -, hzombie, rfl, hunused⟩ := reported_of_step hnew.1 h hret hnew.2
      have hused : (s.proc j).state ≠ .unused := by simp [hzombie]
      refine ⟨List.nodup_cons.mpr ⟨fun hmem => ?_, hold.nodup⟩, ?_⟩
      -- the pid of a slot in use is not that of a process that is gone
      · obtain ⟨pid, heq, hgone⟩ := hreported.gone _ hmem
        have hrange := hs.pid_range hused
        have hpos := hgone.pos
        have hlt := hgone.lt
        rw [intMax] at hwrap
        exact hgone.unused j hused (u64OfInt_inj (by omega) (by omega) heq)
      · intro v hv
        rcases List.mem_cons.mp hv with rfl | hv
        · exact ⟨_, rfl, gone_of_reaped hpending hs h hused hunused⟩
        · exact hold.gone v hv
    · exact hold
  · exact hold

/-! ## Runs -/

theorem bootState_used : (bootState.proc j).state ≠ .unused ↔ j = initSlot := by
  by_cases hj : j = initSlot
  · subst hj
    simp [bootState]
  · simp [bootState, hj, procinit]

theorem bootState_treeInv : bootState.TreeInv where
  parent_alive {j i} hj := by
    by_cases hinit : j = initSlot
    · simp [bootState, hinit, allocInit, procinit, Proc.bss] at hj
    · simp [bootState, hinit, procinit, Proc.bss] at hj
  init_alive := by simp [bootState, Proc.Alive]
  linked hj hinit := absurd (bootState_used.mp hj.1) hinit
  ready {i j pid} hi := by
    simp only [bootState, Function.update_apply] at hi
    split at hi <;> cases hi
  nextpid_pos := by decide
  pid_range hj := by
    obtain rfl := bootState_used.mp hj
    decide
  pid_inj hi hj _ := (bootState_used.mp hi).trans (bootState_used.mp hj).symm

/-- The tree invariant holds in every reachable state. -/
theorem ReachableBy.treeInv {P : KState → Event → Prop} (h : ReachableBy P s) : s.TreeInv := by
  have hinv : s.Pending ∧ s.TreeInv :=
    h.invariant (I := fun s => s.Pending ∧ s.TreeInv) ⟨bootState_pending, bootState_treeInv⟩
      fun ht _ hstep => ⟨step_pending ht.1 hstep, treeInv_of_step ht.1 ht.2 hstep⟩
  exact hinv.2

end

/-- The tree of the processes, between two steps. -/
structure KState.WellFormedTree (s : KState) : Prop where
  parent : ∀ j, (s.proc j).Started → j ≠ s.initproc →
    ∃ i, (s.proc j).parent = some i ∧ (s.proc i).Alive
  pid_inj : ∀ i j, (s.proc i).state ≠ .unused → (s.proc j).state ≠ .unused →
    (s.proc i).pid = (s.proc j).pid → i = j

/-- The invariant has what a well-formed tree asks for. -/
theorem KState.TreeInv.wellFormed {s : KState} (h : s.TreeInv) : s.WellFormedTree where
  parent j hj hinit := by
    obtain ⟨i, hi⟩ := Option.ne_none_iff_exists'.mp (h.linked hj hinit)
    exact ⟨i, hi, h.parent_alive hi⟩
  pid_inj _ _ hi hj hpid := h.pid_inj hi hj hpid

/-- As long as `nextpid` does not wrap, the process tree is well formed, no
    pid is reported twice, and slots are taken and freed as described. -/
theorem process_tree {s : KState} {reported : List UInt64} (hs : Recorded reports [] s reported)
    (hwrap : s.nextpid ≤ intMax) :
    s.WellFormedTree ∧ reported.Nodup ∧ ∀ e t, step e s = some t → s.TreeStep e t := by
  have hreports : s.nextpid ≤ intMax → s.ReportInv reported := by
    refine hs.invariant (I := fun s reported => s.nextpid ≤ intMax → s.ReportInv reported)
      (fun _ => ⟨.nil, nofun⟩) fun hreach hinv _ h hle => ?_
    have hle' := le_trans (step_effect h).nextpid hle
    exact reportInv_of_step hreach.pending hreach.treeInv hle' (hinv hle') h
  have htree := hs.reachable.treeInv
  exact ⟨htree.wellFormed, (hreports hwrap).nodup,
    fun e t h => step_treeStep hs.reachable.pending htree hwrap h⟩

/-- The child of the first process exits, and the first process waits for it. -/
def reapChildEvents : List Event := childExitEvents ++ syscallEvents initSlot 3 0 0 0

theorem process_tree_reapChild :
    (historyAfter reports [] reapChildEvents).2 = [2] ∧
      (historyAfter reports [] reapChildEvents).1.WellFormedTree :=
  ⟨by decide +kernel, (process_tree (Recorded.after (by decide +kernel)) (by decide +kernel)).1⟩

end G20OsLab.Kernel
