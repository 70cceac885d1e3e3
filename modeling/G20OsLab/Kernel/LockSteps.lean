/-
  G20OsLab.Kernel.LockSteps

  What a lock operation can do.

  A step of the finer model is a step of the coarser one outside the sections
  that are cut (`LState.Whole`), one slot of a loop of the rest of the kernel,
  or one of the operations of `Micro`, each with what it changes and the place
  behind it.
-/

import G20OsLab.Kernel.Locks

namespace G20OsLab.Kernel

/-- The process is where it was, but for being woken. -/
structure Proc.AtMostWoken (p q : Proc) : Prop extends p.SamePlace q where
  running : p.state = .running → q.state = .running
  sleeping : q.state = .sleeping → p.state = .sleeping
  chan : q.chan = p.chan

theorem Proc.SamePlace.atMostWoken {p q : Proc} (h : p.SamePlace q) (hstate : q.state = p.state)
    (hchan : q.chan = p.chan) : p.AtMostWoken q where
  toSamePlace := h
  running := hstate.trans
  sleeping := hstate.symm.trans
  chan := hchan

theorem Proc.AtMostWoken.refl (p : Proc) : p.AtMostWoken p :=
  (Proc.SameFamily.samePlace ⟨rfl, rfl, rfl, rfl⟩ rfl).atMostWoken rfl rfl

/-- Nothing else happens to a process than that it is woken. -/
theorem wakeupProc_atMostWoken (chan : Option Chan) (p : Proc) :
    p.AtMostWoken (wakeupProc chan p) where
  toSamePlace := wakeupProc_samePlace chan p
  running hrun := by simp [wakeupProc, wake, hrun]
  sleeping hsleep := by rwa [(wakeupProc_asleep hsleep).1] at hsleep
  chan := wakeupProc_chan chan p

/-- Where `wakeup` goes on. -/
def After.place (after : After) (lk : Lock) : Place :=
  match after with
  | .leave value => .leave lk value
  | .reparent k => .reparent k
  | .exit => .exit

/-- Process `i` holds the condition lock and is about to test or scan. -/
def LState.Testing (s : LState) (i : Fin nproc) (lk : Lock) : Prop :=
  s.place i = .held lk ∨ ∃ k found, s.place i = .scan k found ∧ lk = .wait

/-- The operations of a process `i` inside a section: the kernel state and the
    place after it. -/
inductive Micro (s : LState) (i : Fin nproc) : KState → Place → Prop
  | lock {call : Call} {lk : Lock} (hi : s.place i = .idle) (hpc : s.base.kpc i = .call call)
      (hlock : call.lock = some lk) (hfree : s.Free lk) : Micro s i s.base (call.start lk)
  | lockExit {status : Int} (hi : s.place i = .idle) (hpc : s.base.kpc i = .call (.exit status))
      (hinit : i ≠ s.base.initproc) (hfree : s.Free .wait) : Micro s i s.base (.reparent 0)
  | fail {lk : Lock} {value : Int} (hi : s.Testing i lk) : Micro s i s.base (.leave lk value)
  | init {k : Fin nsem} {semid value : Int} (hi : s.place i = .held (.sem k))
      (hpc : s.base.kpc i = .call (.semInit semid value)) :
      Micro s i (s.base.setSem k ⟨true, value⟩) (.waking (.sem k) (some (.sem k)) 0 (.leave 0))
  | take {k : Fin nsem} {sem : Ksem} (hi : s.place i = .held (.sem k))
      (hvalue : (s.base.semtable k).value ≠ 0) :
      Micro s i (s.base.setSem k sem) (.leave (.sem k) 0)
  | post {k : Fin nsem} {sem : Ksem} (hi : s.place i = .held (.sem k)) :
      Micro s i (s.base.setSem k sem) (.waking (.sem k) (some (.sem k)) 0 (.leave 0))
  | noUnit {k : Fin nsem} {semid : Int} (hi : s.place i = .held (.sem k))
      (hpc : s.base.kpc i = .call (.semWait semid)) (hvalue : (s.base.semtable k).value = 0) :
      Micro s i s.base (.sleep (.sem k) (.sem k))
  | receive {buf : UInt64} (copyOk : Bool) (hi : s.place i = .held .wait)
      (hpc : s.base.kpc i = .call (.msgrecv buf)) (hflag : (s.base.proc i).msgFlag = true) :
      Micro s i (s.base.setProc i (msgrecvProc (s.base.proc i) copyOk).1)
        (.leave .wait (msgrecvProc (s.base.proc i) copyOk).2)
  | noMail {buf : UInt64} (hi : s.place i = .held .wait)
      (hpc : s.base.kpc i = .call (.msgrecv buf)) (hflag : (s.base.proc i).msgFlag = false) :
      Micro s i s.base (.sleep .wait (.msgFlag i))
  | send {j : Fin nproc} {found : Bool} {p : Proc} (hi : s.place i = .scan j found)
      (hp : (s.base.proc j).AtMostWoken p) :
      Micro s i (s.base.setProc j p) (.waking .wait (some (.msgFlag j)) 0 (.leave 0))
  | noSend {j : Fin nproc} {found : Bool} {p : Proc} {value : Int}
      (hi : s.place i = .scan j found) (hp : (s.base.proc j).AtMostWoken p)
      (hflag : p.msgFlag = (s.base.proc j).msgFlag) :
      Micro s i (s.base.setProc j p) (.leave .wait value)
  | reap {j : Fin nproc} {found : Bool} {value : Int} (hi : s.place i = .scan j found)
      (hzombie : (s.base.proc j).state = .zombie) :
      Micro s i (s.base.setProc j (freeproc (s.base.proc j))) (.leave .wait value)
  | next {call : Call} {k : Nat} {found found' : Bool} (hi : s.place i = .scan k found)
      (hpc : s.base.kpc i = .call call) (hk : k < nproc)
      (hchild : (s.base.proc ⟨k, hk⟩).parent = some i → call.Reaps (s.base.proc ⟨k, hk⟩) →
        (s.base.proc ⟨k, hk⟩).state ≠ .zombie) : Micro s i s.base (.scan (k + 1) found')
  | noChild {call : Call} {k : Nat} {found : Bool} (hi : s.place i = .scan k found)
      (hpc : s.base.kpc i = .call call) (hk : nproc ≤ k)
      (hsend : ∀ pid msg, call ≠ .msgsend pid msg) : Micro s i s.base (.sleep .wait (.proc i))
  | adopt {j : Fin nproc} (hi : s.place i = .reparent j)
      (hparent : (s.base.proc j).parent = some i) :
      Micro s i (s.base.setProc j (reparentProc i s.base.initproc (s.base.proc j)))
        (.waking .wait (some (.proc s.base.initproc)) 0 (.reparent (j + 1)))
  | pass {k : Nat} (hi : s.place i = .reparent k) : Micro s i s.base (.reparent (k + 1))
  | wakeParent {k : Nat} (hi : s.place i = .reparent k) :
      Micro s i s.base (.waking .wait ((s.base.proc i).parent.map .proc) 0 .exit)
  | wake {lk : Lock} {chan : Option Chan} {j : Fin nproc} {after : After}
      (hi : s.place i = .waking lk chan j after) (hj : j ≠ i) (hfree : s.Free (.proc j)) :
      Micro s i (s.base.setProc j (wakeupProc chan (s.base.proc j))) (.waking lk chan (j + 1) after)
  | skip {lk : Lock} {chan : Option Chan} {after : After}
      (hi : s.place i = .waking lk chan i after) : Micro s i s.base (.waking lk chan (i + 1) after)
  | woken {lk : Lock} {chan : Option Chan} {k : Nat} {after : After}
      (hi : s.place i = .waking lk chan k after) (hk : nproc ≤ k) :
      Micro s i s.base (after.place lk)
  | ret {lk : Lock} {value : Int} (hi : s.place i = .leave lk value) :
      Micro s i (s.base.retInt i value) .idle
  | exitLock (hi : s.place i = .exit) (hfree : s.Free (.proc i)) : Micro s i s.base .dying
  | die {status : Int} (hi : s.place i = .dying) :
      Micro s i (s.base.setProc i (exitProc (s.base.proc i) status)) .dead
  | dead (hi : s.place i = .dead) : Micro s i s.base .idle
  | sleepLock {lk : Lock} {chan : Chan} (hi : s.place i = .sleep lk chan)
      (hfree : s.Free (.proc i)) : Micro s i s.base (.sleepLocked lk chan)
  | sleepRelease {lk : Lock} {chan : Chan} (hi : s.place i = .sleepLocked lk chan) :
      Micro s i s.base (.sleepReleased chan)
  | slept {call : Call} {chan : Chan} (hi : s.place i = .sleepReleased chan)
      (hpc : s.base.kpc i = .call call) : Micro s i (s.base.sleep i chan call) .idle

/-- The event is no section that is cut, nor one of a process inside such a
    section, and its locks are free. -/
structure LState.Whole (s : LState) (e : Event) : Prop where
  idle : ∀ i pc, s.base.At e i pc → s.place i = .idle
  yield : ∀ i, e = .yield i → s.place i = .idle
  call : ∀ i call, s.base.At e i (.call call) → call.lock = none
  exit : ∀ i status o, s.base.At e i (.call (.exit status)) → e = .run i o → o.sleepOn.isSome = true
  slot : ∀ i scan (j : Fin nproc), s.base.At e i (.scan scan j) → s.Free (.proc j)

section

variable {s t t' : LState} {i j : Fin nproc} {o : Outcome} {l : Lock} {e : Event}

/-- A lock is taken if it is free. -/
theorem locking_eq_some : s.locking l t = some t' ↔ s.Free l ∧ t = t' := by
  rw [LState.locking, Option.ite_none_right_eq_some, Option.some.injEq]

/-- A whole section at once. -/
theorem coarse_eq_some : s.coarse e = some t ↔ step e s.base = some t.base ∧ t.place = s.place := by
  rw [LState.coarse, Option.map_eq_some_iff]
  constructor
  · rintro ⟨base, hbase, rfl⟩
    exact ⟨hbase, rfl⟩
  · rintro ⟨hbase, hplace⟩
    refine ⟨t.base, hbase, ?_⟩
    rw [← hplace]

/-! ## The operations -/

/-- A section under its lock is a small step. -/
theorem heldStep_micro {lk : Lock} {call : Call} (hi : s.place i = .held lk)
    (hpc : s.base.kpc i = .call call) (h : heldStep s i o lk call = some t) :
    ∃ base place, Micro s i base place ∧ t = s.move i base place := by
  unfold heldStep at h
  split at h
  · rename_i k semid value
    exact ⟨_, _, .init hi hpc, (Option.some.inj h).symm⟩
  · rename_i k semid
    dsimp only at h
    split at h
    · exact ⟨_, _, .fail (.inl hi), (Option.some.inj h).symm⟩
    · split at h
      · rename_i hvalue
        exact ⟨_, _, .noUnit hi hpc hvalue, (Option.some.inj h).symm⟩
      · rename_i hvalue
        exact ⟨_, _, .take hi hvalue, (Option.some.inj h).symm⟩
  · rename_i k semid
    dsimp only at h
    split at h
    · exact ⟨_, _, .fail (.inl hi), (Option.some.inj h).symm⟩
    · exact ⟨_, _, .post hi, (Option.some.inj h).symm⟩
  · rename_i buf
    obtain ⟨-, h⟩ := locking_eq_some.mp h
    split at h
    · rename_i hflag
      exact ⟨_, _, .receive o.copyOk hi hpc hflag, h.symm⟩
    · rename_i hflag
      exact ⟨_, _, .noMail hi hpc (by simpa using hflag), h.symm⟩
  · cases h

/-- A child that the call can reap. -/
theorem child_reaps {call : Call} {pp : Proc} :
    call.child i pp = true ↔ pp.parent = some i ∧ call.Reaps pp := by
  cases call <;> simp [Call.child, Call.Reaps, and_assoc]

theorem msgsendProc_atMostWoken (p : Proc) (bytes : List UInt8) (copyOk : Bool) :
    p.AtMostWoken (msgsendProc p bytes copyOk).1 :=
  have hstate := msgsendProc_state p bytes copyOk
  ((msgsendProc_sameFamily p bytes copyOk).samePlace hstate).atMostWoken hstate
    (msgsendProc_chan p bytes copyOk)

/-- The loop of the calls that reap. -/
theorem scanStep_reap {k : Nat} {found : Bool} {call : Call}
    (hsend : ∀ pid msg, call ≠ .msgsend pid msg) :
    scanStep s i o k found call =
      if hk : k < nproc then
        if call.child i (s.base.proc ⟨k, hk⟩) then
          s.locking (.proc ⟨k, hk⟩)
            (if (s.base.proc ⟨k, hk⟩).state = .zombie then
              if call.copied o then
                s.move i (s.base.setProc ⟨k, hk⟩ (freeproc (s.base.proc ⟨k, hk⟩)))
                  (.leave .wait (call.result (s.base.proc ⟨k, hk⟩)))
              else s.goto i (.leave .wait (-1))
            else s.goto i (.scan (k + 1) true))
        else some (s.goto i (.scan (k + 1) found))
      else
        some (s.goto i (if !found || (s.base.proc i).killed then .leave .wait (-1)
          else .sleep .wait (.proc i))) := by
  cases call <;> first | rfl | exact absurd rfl (hsend _ _)

/-- A slot that `msgsend` looks at. -/
theorem msgsend_micro {k : Nat} {found : Bool} {pid : Int} {msg : UInt64}
    (hi : s.place i = .scan k found) (hpc : s.base.kpc i = .call (.msgsend pid msg))
    (h : scanStep s i o k found (.msgsend pid msg) = some t) :
    ∃ base place, Micro s i base place ∧ t = s.move i base place := by
  rw [scanStep] at h
  split at h
  · rename_i hk
    have hi' : s.place i = .scan (⟨k, hk⟩ : Fin nproc) found := hi
    have hp := msgsendProc_atMostWoken (s.base.proc ⟨k, hk⟩) o.bytes o.copyOk
    obtain ⟨-, h⟩ := locking_eq_some.mp h
    split at h
    · rw [← h]
      dsimp only
      by_cases hresult : (msgsendProc (s.base.proc ⟨k, hk⟩) o.bytes o.copyOk).2 = 0
      · refine ⟨_, _, .send hi' hp, ?_⟩
        rw [if_pos hresult]
      · refine ⟨_, .leave .wait (msgsendProc (s.base.proc ⟨k, hk⟩) o.bytes o.copyOk).2,
          .noSend hi' hp (msgsendProc_failed hresult), ?_⟩
        rw [if_neg hresult]
    · exact ⟨_, _, .next hi hpc hk fun _ hreaps => hreaps.elim, h.symm⟩
  · exact ⟨_, _, .fail (.inr ⟨k, found, hi, rfl⟩), (Option.some.inj h).symm⟩

/-- A slot that a scan looks at. -/
theorem scanStep_micro {k : Nat} {found : Bool} {call : Call} (hi : s.place i = .scan k found)
    (hpc : s.base.kpc i = .call call) (h : scanStep s i o k found call = some t) :
    ∃ base place, Micro s i base place ∧ t = s.move i base place := by
  by_cases hsend : ∃ pid msg, call = .msgsend pid msg
  · obtain ⟨pid, msg, rfl⟩ := hsend
    exact msgsend_micro hi hpc h
  simp only [not_exists] at hsend
  have htest : s.Testing i .wait := .inr ⟨k, found, hi, rfl⟩
  rw [scanStep_reap hsend] at h
  split at h
  · rename_i hk
    have hi' : s.place i = .scan (⟨k, hk⟩ : Fin nproc) found := hi
    split at h
    · obtain ⟨-, h⟩ := locking_eq_some.mp h
      split at h
      · rename_i hzombie
        split at h
        · exact ⟨_, _, .reap hi' hzombie, h.symm⟩
        · exact ⟨_, _, .fail htest, h.symm⟩
      · rename_i hzombie
        exact ⟨_, _, .next hi hpc hk fun _ _ => hzombie, h.symm⟩
    · rename_i hchild
      refine ⟨_, _, .next hi hpc hk fun hparent hreaps => ?_, (Option.some.inj h).symm⟩
      exact absurd (child_reaps.mpr ⟨hparent, hreaps⟩) hchild
  · rename_i hk
    rw [← Option.some.inj h]
    by_cases hfail : (!found || (s.base.proc i).killed) = true
    · refine ⟨_, .leave .wait (-1), .fail htest, ?_⟩
      rw [if_pos hfail]
      rfl
    · refine ⟨_, _, .noChild hi hpc (by omega) hsend, ?_⟩
      rw [if_neg hfail]
      rfl

/-- A slot that `reparent` looks at. -/
theorem reparentStep_micro {k : Nat} (hi : s.place i = .reparent k) :
    ∃ base place, Micro s i base place ∧ reparentStep s i k = s.move i base place := by
  rw [reparentStep]
  split
  · rename_i hk
    have hi' : s.place i = .reparent (⟨k, hk⟩ : Fin nproc) := hi
    dsimp only
    split
    · rename_i hparent
      exact ⟨_, _, .adopt hi' hparent, rfl⟩
    · exact ⟨_, _, .pass hi, rfl⟩
  · exact ⟨_, _, .wakeParent hi, rfl⟩

/-- A slot that `wakeup` looks at. -/
theorem wakingStep_micro {lk : Lock} {chan : Option Chan} {k : Nat} {after : After}
    (hi : s.place i = .waking lk chan k after) (h : wakingStep s i lk chan k after = some t) :
    ∃ base place, Micro s i base place ∧ t = s.move i base place := by
  unfold wakingStep at h
  split at h
  · rename_i hk
    have hi' : s.place i = .waking lk chan (⟨k, hk⟩ : Fin nproc) after := hi
    dsimp only at h
    split at h
    · rename_i hself
      subst hself
      exact ⟨_, _, .skip hi', (Option.some.inj h).symm⟩
    · rename_i hself
      obtain ⟨hfree, h⟩ := locking_eq_some.mp h
      exact ⟨_, _, .wake hi' hself hfree, h.symm⟩
  · rename_i hk
    refine ⟨_, _, .woken hi (by omega), ?_⟩
    rw [← Option.some.inj h]
    cases after <;> rfl

/-! ## Steps -/

/-- What a step can be. -/
inductive LStep (s : LState) (t : LState) : Prop
  | whole (ev : Event) (hwhole : s.Whole ev) (hstep : step ev s.base = some t.base)
      (hplace : t.place = s.place)
  | slot {j : Fin nproc} {p : Proc} (hp : (s.base.proc j).AtMostWoken p)
      (hmail : (s.base.proc j).SameMail p) (ht : t = { s with base := s.base.setProc j p })
  | micro {i : Fin nproc} {base : KState} {place : Place}
      (hrun : (s.base.proc i).state = .running ∨ base = s.base ∧ place = .idle)
      (hmicro : Micro s i base place) (ht : t = s.move i base place)

/-- A section that is not cut. -/
theorem LState.Whole.of_run {pc : Kpc} (hi : s.place i = .idle) (hpc : s.base.kpc i = pc)
    (hcall : ∀ call, pc = .call call → call.lock = none)
    (hexit : ∀ status, pc = .call (.exit status) → o.sleepOn.isSome = true)
    (hslot : ∀ scan (j : Fin nproc), pc = .scan scan j → s.Free (.proc j)) :
    s.Whole (.run i o) where
  idle i' pc' hat := by
    obtain ⟨⟨o', he⟩, -, -⟩ := hat
    obtain ⟨rfl, -⟩ := Event.run.inj he
    exact hi
  yield i' he := by cases he
  call i' call hat := by
    obtain ⟨⟨o', he⟩, -, hpc'⟩ := hat
    obtain ⟨rfl, -⟩ := Event.run.inj he
    exact hcall call (hpc.symm.trans hpc')
  exit i' status o' hat he := by
    obtain ⟨-, -, hpc'⟩ := hat
    obtain ⟨rfl, rfl⟩ := Event.run.inj he
    exact hexit status (hpc.symm.trans hpc')
  slot i' scan j hat := by
    obtain ⟨⟨o', he⟩, -, hpc'⟩ := hat
    obtain ⟨rfl, -⟩ := Event.run.inj he
    exact hslot scan j (hpc.symm.trans hpc')

/-- An event outside the processes. -/
theorem LState.Whole.of_outside (hrun : ∀ i o, e ≠ .run i o)
    (hyield : ∀ i, e = .yield i → s.place i = .idle) : s.Whole e where
  idle i _ hat := by
    obtain ⟨⟨o, he⟩, -⟩ := hat
    exact absurd he (hrun i o)
  yield := hyield
  call i _ hat := by
    obtain ⟨⟨o, he⟩, -⟩ := hat
    exact absurd he (hrun i o)
  exit i _ o _ he := absurd he (hrun i o)
  slot i _ _ hat := by
    obtain ⟨⟨o, he⟩, -⟩ := hat
    exact absurd he (hrun i o)

/-- A process begins a section at a lock, or does it at once. -/
theorem idleStep_cases (hi : s.place i = .idle) (h : idleStep s i o = some t) :
    (s.Whole (.run i o) ∧ s.coarse (.run i o) = some t) ∨
      ∃ place, Micro s i s.base place ∧ t = s.goto i place := by
  unfold idleStep at h
  dsimp only at h
  split at h
  · rename_i status hpc
    split at h
    · rename_i number hsleep
      refine .inl ⟨.of_run hi hpc (fun call hcall => ?_) (fun _ _ => by rw [hsleep]; rfl) nofun, h⟩
      obtain rfl := Kpc.call.inj hcall
      rfl
    · rw [Option.ite_none_left_eq_some] at h
      obtain ⟨hinit, h⟩ := h
      obtain ⟨hfree, h⟩ := locking_eq_some.mp h
      exact .inr ⟨_, .lockExit hi hpc hinit hfree, h.symm⟩
  · rename_i call hexit hpc
    split at h
    · rename_i lk hlock
      obtain ⟨hfree, h⟩ := locking_eq_some.mp h
      exact .inr ⟨_, .lock hi hpc hlock hfree, h.symm⟩
    · rename_i hlock
      refine .inl ⟨.of_run hi hpc ?_ ?_ nofun, h⟩
      · intro call' hcall
        obtain rfl := Kpc.call.inj hcall
        exact hlock
      · intro status hcall
        obtain rfl := Kpc.call.inj hcall
        exact absurd rfl (hexit status)
  · rename_i scan k hpc
    split at h
    · rename_i hk
      obtain ⟨t', ht', h⟩ := Option.bind_eq_some_iff.mp h
      obtain ⟨hfree, rfl⟩ := locking_eq_some.mp h
      refine .inl ⟨.of_run hi hpc nofun nofun fun scan' j hscan => ?_, ht'⟩
      obtain ⟨-, rfl⟩ := Kpc.scan.inj hscan
      exact hfree
    · rename_i hk
      refine .inl ⟨.of_run hi hpc nofun nofun fun scan' j hscan => ?_, h⟩
      obtain ⟨-, rfl⟩ := Kpc.scan.inj hscan
      exact absurd j.isLt hk
  · rename_i child pid hpc
    obtain ⟨t', ht', h⟩ := Option.bind_eq_some_iff.mp h
    obtain ⟨-, rfl⟩ := locking_eq_some.mp h
    exact .inl ⟨.of_run hi hpc nofun nofun nofun, ht'⟩
  · rename_i child pid hpc
    obtain ⟨t', ht', h⟩ := Option.bind_eq_some_iff.mp h
    obtain ⟨-, rfl⟩ := locking_eq_some.mp h
    exact .inl ⟨.of_run hi hpc nofun nofun nofun, ht'⟩
  · rename_i hcall hscan hlink hready
    refine .inl ⟨.of_run hi rfl (fun call hpc => ?_) (fun status hpc => ?_)
      (fun scan j hpc => ?_), h⟩
    · exact absurd hpc (hcall call)
    · exact absurd hpc (hcall _)
    · exact absurd hpc (hscan _ _)

/-- Every step of a process is a whole section or a small step. -/
theorem placeStep_cases (h : placeStep s i o = some t) :
    (s.Whole (.run i o) ∧ s.coarse (.run i o) = some t) ∨
      ∃ base place, Micro s i base place ∧ t = s.move i base place := by
  unfold placeStep at h
  split at h
  · rename_i hi
    exact (idleStep_cases hi h).imp_right fun ⟨place, hmicro, ht⟩ => ⟨_, place, hmicro, ht⟩
  · rename_i hi hpc
    exact .inr (heldStep_micro hi hpc h)
  · rename_i hi hpc
    exact .inr (scanStep_micro hi hpc h)
  · rename_i hi
    rw [← Option.some.inj h]
    exact .inr (reparentStep_micro hi)
  · rename_i hi
    exact .inr (wakingStep_micro hi h)
  · rename_i hi
    exact .inr ⟨_, _, .ret hi, (Option.some.inj h).symm⟩
  · rename_i hi
    obtain ⟨hfree, h⟩ := locking_eq_some.mp h
    exact .inr ⟨_, _, .exitLock hi hfree, h.symm⟩
  · rename_i hi _
    exact .inr ⟨_, _, .die hi, (Option.some.inj h).symm⟩
  · rename_i hi
    exact .inr ⟨_, _, .dead hi, (Option.some.inj h).symm⟩
  · rename_i hi
    obtain ⟨hfree, h⟩ := locking_eq_some.mp h
    exact .inr ⟨_, _, .sleepLock hi hfree, h.symm⟩
  · rename_i hi
    exact .inr ⟨_, _, .sleepRelease hi, (Option.some.inj h).symm⟩
  · rename_i hi hpc
    exact .inr ⟨_, _, .slept hi hpc, (Option.some.inj h).symm⟩
  · cases h

/-- The steps of the finer model. -/
theorem lstep_cases {e : LEvent} (h : lstep e s = some t) : LStep s t := by
  cases e with
  | schedule i =>
      obtain ⟨t', ht', h⟩ := Option.bind_eq_some_iff.mp h
      obtain ⟨-, rfl⟩ := locking_eq_some.mp h
      obtain ⟨hstep, hplace⟩ := coarse_eq_some.mp ht'
      exact .whole (.schedule i) (.of_outside nofun nofun) hstep hplace
  | yield i =>
      simp only [lstep, Option.ite_none_right_eq_some] at h
      obtain ⟨hi, h⟩ := h
      obtain ⟨hstep, hplace⟩ := coarse_eq_some.mp h
      refine .whole (.yield i) (.of_outside nofun fun i' he => ?_) hstep hplace
      obtain rfl := Event.yield.inj he
      exact hi
  | trap i regs cause =>
      obtain ⟨hstep, hplace⟩ := coarse_eq_some.mp h
      exact .whole (.trap i regs cause) (.of_outside nofun nofun) hstep hplace
  | run i o =>
      simp only [lstep, Option.ite_none_right_eq_some] at h
      obtain ⟨hrun | hdead, h⟩ := h
      · rcases placeStep_cases h with ⟨hwhole, hcoarse⟩ | ⟨base, place, hmicro, ht⟩
        · obtain ⟨hstep, hplace⟩ := coarse_eq_some.mp hcoarse
          exact .whole _ hwhole hstep hplace
        · exact .micro (.inl hrun) hmicro ht
      · simp only [placeStep, hdead, Option.some.injEq] at h
        exact .micro (.inr ⟨rfl, rfl⟩) (.dead hdead) h.symm
  | updateTime j =>
      obtain ⟨-, h⟩ := locking_eq_some.mp h
      have hstate := updateTime_state (s.base.proc j)
      have hp := ((updateTime_sameFamily _).samePlace hstate).atMostWoken hstate (updateTime_chan _)
      exact .slot hp (updateTime_sameMail _) h.symm
  | notify number j =>
      obtain ⟨-, h⟩ := locking_eq_some.mp h
      exact .slot (wakeupProc_atMostWoken _ _) (wakeupProc_sameMail _ _) h.symm

end

end G20OsLab.Kernel
