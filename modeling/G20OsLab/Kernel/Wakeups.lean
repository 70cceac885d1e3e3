/-
  G20OsLab.Kernel.Wakeups

  No wakeup is lost.

  A process that has tested its condition keeps the condition lock until it has
  its own `p->lock`, and this one until it is `SLEEPING`.  Whoever makes the
  condition true holds the condition lock from before the change to the end of
  `wakeup`, so while a process sleeps on a condition that holds, a waker is on
  its way to the slot (`LState.WakeInv`).
-/

import G20OsLab.Kernel.LockEffects
import G20OsLab.Kernel.Mailbox

namespace G20OsLab.Kernel

/-! ## Waiting and waking -/

/-- Process `p` sleeps in the call, or will without another test. -/
def LState.Waiting (s : LState) (p : Fin nproc) (call : Call) : Prop :=
  (s.base.proc p).state = .sleeping ∧ s.base.kpc p = .asleep call ∨
    (∃ chan, s.place p = .sleepReleased chan) ∧ s.base.kpc p = .call call

/-- Slot `j` is a child for which process `p` waits in the call, and it has
    exited or is about to. -/
def LState.Exited (s : LState) (p : Fin nproc) (call : Call) (j : Fin nproc) : Prop :=
  ((s.base.proc j).parent = some p ∧ call.Reaps (s.base.proc j)) ∧
    ((s.base.proc j).state = .zombie ∨ (s.place j).Exiting)

/-- What process `p` waits for in the call is there, or comes before
    `wait_lock` is released. -/
def LState.Ready (s : LState) (p : Fin nproc) (call : Call) : Prop :=
  s.base.Ready p call ∨ ∃ j, s.Exited p call j

/-- A loop of `wakeup` that will come by slot `p`, with the lock and the
    channel of the call. -/
def Place.Wakes (place : Place) (p : Fin nproc) (call : Call) : Prop :=
  ∃ lk chan k after, place = .waking lk (some chan) k after ∧ call.lock = some lk ∧
    call.chan p = some chan ∧ k ≤ p

/-- What process `i` has found out at a place, and what its lock keeps true. -/
def LState.Knows (s : LState) (i : Fin nproc) : Place → Prop
  | .held lk => ∃ call, s.base.kpc i = .call call ∧ call.lock = some lk
  | .scan k _ => ∃ call, s.base.kpc i = .call call ∧ call.lock = some .wait ∧
      (call.chan i = some (.proc i) ∨ ∃ pid msg, call = .msgsend pid msg) ∧
      ∀ j : Fin nproc, j < k → (s.base.proc j).parent = some i → call.Reaps (s.base.proc j) →
        (s.base.proc j).state ≠ .zombie
  | .sleep lk chan | .sleepLocked lk chan => ∃ call, s.base.kpc i = .call call ∧
      call.lock = some lk ∧ call.chan i = some chan ∧ ¬ s.Ready i call
  | .sleepReleased chan => ∃ call, s.base.kpc i = .call call ∧ call.chan i = some chan
  | .waking lk _ _ (.reparent _) | .waking lk _ _ .exit => lk = .wait
  | _ => True

/-- The invariant of the locks. -/
structure LState.WakeInv (s : LState) : Prop where
  pending : s.base.Pending
  running : ∀ {i}, s.place i ≠ .idle → s.place i ≠ .dead → (s.base.proc i).state = .running
  unique : ∀ {i i' l}, (s.place i).Holds i l → (s.place i').Holds i' l → i = i'
  knows : ∀ i, s.Knows i (s.place i)
  slept : ∀ {p}, (s.base.proc p).state = .sleeping → ∃ call chan, s.base.kpc p = .asleep call ∧
    (s.base.proc p).chan = some chan ∧ call.SleepsOn p chan
  woken : ∀ {p call}, s.Waiting p call → s.Ready p call → ∃ i, (s.place i).Wakes p call

/-- A step outside the sections that are cut. -/
structure LState.Quiet (s t : LState) : Prop where
  place : t.place = s.place
  pending : t.base.Pending
  running : ∀ {i}, s.place i ≠ .idle → (s.base.proc i).state = .running →
    (t.base.proc i).state = .running
  kpc : ∀ {i call}, s.place i ≠ .idle → (s.base.proc i).state = .running →
    s.base.kpc i = .call call → t.base.kpc i = .call call
  slot : ∀ j, (s.base.proc j).SamePlace (t.base.proc j) ∨
    (s.base.proc j).state ≠ .running ∧ (t.base.proc j).state ≠ .zombie
  flag : ∀ {j}, (t.base.proc j).msgFlag = true → (s.base.proc j).msgFlag = true
  value : ∀ k, (t.base.semtable k).value = (s.base.semtable k).value
  sleeping : ∀ {j}, (t.base.proc j).state = .sleeping →
    (s.base.proc j).state = .sleeping ∧ (t.base.proc j).chan = (s.base.proc j).chan ∧
        t.base.kpc j = s.base.kpc j ∨
      ∃ call chan, t.base.kpc j = .asleep call ∧ (t.base.proc j).chan = some chan ∧
        call.SleepsOn j chan ∧ call.lock = none

section

variable {s t : LState} {i i' j p : Fin nproc} {call : Call} {lk l : Lock} {base : KState}
variable {place : Place} {e : Event}

/-! ## Conditions -/

/-- What a wait reaps it also sleeps for. -/
theorem reaps_wait {pp : Proc} (h : call.Reaps pp) :
    call.lock = some .wait ∧ call.chan i = some (.proc i) := by
  cases call <;> first | exact h.elim | exact ⟨rfl, rfl⟩

/-- Only `ksem_wait` sleeps on a semaphore. -/
theorem chan_sem {k : Fin nsem} (h : call.chan p = some (.sem k)) :
    ∃ semid, call = .semWait semid ∧ semIndex semid = some k := by
  cases call with
  | semWait semid =>
      obtain ⟨k', hk', hk⟩ := Option.map_eq_some_iff.mp h
      obtain rfl := Chan.sem.inj hk
      exact ⟨semid, rfl, hk'⟩
  | _ => cases h

/-- Only `msgrecv` of its owner sleeps on a mailbox. -/
theorem chan_msgFlag (h : call.chan p = some (.msgFlag i)) :
    i = p ∧ ∃ buf, call = .msgrecv buf := by
  cases call with
  | msgrecv buf =>
      obtain rfl := Chan.msgFlag.inj (Option.some.inj h)
      exact ⟨rfl, buf, rfl⟩
  | semWait semid =>
      obtain ⟨k, -, hk⟩ := Option.map_eq_some_iff.mp h
      cases hk
  | _ => cases h

/-- Who waits for something has a lock and a channel for it. -/
theorem KState.Ready.lock {s : KState} (h : s.Ready p call) :
    ∃ lk chan, call.lock = some lk ∧ call.chan p = some chan := by
  cases call with
  | semWait semid =>
      obtain ⟨k, hk, -⟩ := h
      exact ⟨.sem k, .sem k, by simp [Call.lock, hk], by simp [Call.chan, hk]⟩
  | msgrecv buf => exact ⟨_, _, rfl, rfl⟩
  | wait addr => exact ⟨_, _, rfl, rfl⟩
  | waitx rtime wtime => exact ⟨_, _, rfl, rfl⟩
  | join tid => exact ⟨_, _, rfl, rfl⟩
  | _ =>
      obtain ⟨j, -, hreaps, -⟩ := h
      exact hreaps.elim

theorem LState.Ready.lock (h : s.Ready p call) :
    ∃ lk chan, call.lock = some lk ∧ call.chan p = some chan := by
  rcases h with h | ⟨j, ⟨-, hreaps⟩, -⟩
  · exact h.lock
  · exact ⟨_, _, reaps_wait hreaps⟩

/-- The condition is a unit of the semaphore, a message, or a child. -/
theorem LState.ready_iff : s.Ready p call ↔
    (∃ semid k, call = .semWait semid ∧ semIndex semid = some k ∧ (s.base.semtable k).value ≠ 0) ∨
      (∃ buf, call = .msgrecv buf ∧ (s.base.proc p).msgFlag = true) ∨ ∃ j, s.Exited p call j := by
  constructor
  · rintro (h | h)
    · cases call with
      | semWait semid =>
          obtain ⟨k, hk, hvalue⟩ := h
          exact .inl ⟨semid, k, rfl, hk, hvalue⟩
      | msgrecv buf => exact .inr (.inl ⟨buf, rfl, h⟩)
      | _ =>
          obtain ⟨j, hparent, hreaps, hzombie⟩ := h
          exact .inr (.inr ⟨j, ⟨hparent, hreaps⟩, .inl hzombie⟩)
    · exact .inr (.inr h)
  · rintro (⟨semid, k, rfl, hk, hvalue⟩ | ⟨buf, rfl, hflag⟩ | h)
    · exact .inl ⟨k, hk, hvalue⟩
    · exact .inl hflag
    · exact .inr h

/-! ## Steps outside the sections -/

/-- A process that is not cut exits with its files still open. -/
theorem LState.Whole.exit_sleeps (hwhole : s.Whole e) {status : Int} {t : KState}
    (hat : s.base.At e i (.call (.exit status))) (h : step e s.base = some t) :
    ∃ number, t = s.base.sleep i (.outside number) (.exit status) := by
  obtain ⟨o, he, ho⟩ := step_call hat h
  obtain ⟨number, hnumber⟩ := Option.isSome_iff_exists.mp (hwhole.exit i status o hat he)
  simp only [callSection, hnumber, Option.ite_none_left_eq_some, Option.some.injEq] at ho
  exact ⟨number, ho.2.symm⟩

theorem sleepOn_samePlace {q : Proc} {chan : Chan} (hrun : q.state = .running) :
    q.SamePlace (sleepOn chan q) :=
  Proc.SameFamily.samePlace_of_moved ⟨rfl, rfl, rfl, rfl⟩ (.inr (.inr hrun)) (.inl rfl)

/-- A slot keeps its place, or was not running and is no zombie after. -/
theorem LState.Whole.samePlace (hwhole : s.Whole e) (hpending : s.base.Pending) {t : KState}
    (h : step e s.base = some t) (j : Fin nproc) :
    (s.base.proc j).SamePlace (t.proc j) ∨
      (s.base.proc j).state ≠ .running ∧ (t.proc j).state ≠ .zombie := by
  by_cases hexit : ∃ i status, s.base.At e i (.call (.exit status))
  · obtain ⟨i, status, hat⟩ := hexit
    obtain ⟨number, rfl⟩ := hwhole.exit_sleeps hat h
    left
    by_cases hj : j = i
    · subst hj
      simpa [KState.sleep] using sleepOn_samePlace hat.running
    · simpa [KState.sleep, hj] using Proc.SamePlace.refl _
  · simp only [not_exists] at hexit
    exact samePlace_of_step hpending h hexit j

/-- A whole section changes no semaphore. -/
theorem LState.Whole.value (hwhole : s.Whole e) {t : KState} (h : step e s.base = some t)
    (k : Fin nsem) : (t.semtable k).value = (s.base.semtable k).value := by
  have hsem := (step_effect h).semtable k
  generalize t.semtable k = sem at hsem
  cases hsem with
  | stay => rfl
  | init hat hk hvalue =>
      have hlock := hwhole.call _ _ hat
      rw [Call.lock, if_neg (by omega), hk] at hlock
      cases hlock
  | wait hat hk _ _ =>
      have hlock := hwhole.call _ _ hat
      rw [Call.lock, hk] at hlock
      cases hlock
  | post hat hk _ =>
      have hlock := hwhole.call _ _ hat
      rw [Call.lock, hk] at hlock
      cases hlock

/-- A whole section is quiet. -/
theorem LState.Whole.quiet (hs : s.WakeInv) (hwhole : s.Whole e)
    (h : step e s.base = some t.base) (hplace : t.place = s.place) : s.Quiet t where
  place := hplace
  pending := step_pending hs.pending h
  running {i} hi hrun := by
    refine running_of_step hs.pending h hrun (fun pc hat => hi (hwhole.idle i pc hat)) ?_
    exact fun he => hi (hwhole.yield i he)
  kpc {i call} hi hrun hpc := by
    rw [← hpc]
    refine kpc_kept h (fun pc hat => hi (hwhole.idle i pc hat)) ?_ (by simp [hrun])
    rintro regs cause rfl
    simp [step, hpc] at h
  slot := hwhole.samePlace hs.pending h
  flag {j} hj := by
    refine mailKept_flag (mailKept_of_step h ?_ ?_) hj
    · intro i pid msg hat
      cases hwhole.call _ _ hat
    · intro buf hat
      cases hwhole.call _ _ hat
  value := hwhole.value h
  sleeping {j} hj := by
    refine (sleeping_of_step h hj).imp_right ?_
    rintro ⟨call, chan, hat, ht, hsleeps, -⟩
    refine ⟨call, chan, ?_, ?_, hsleeps, hwhole.call _ _ hat⟩
    · simp [ht, KState.sleep]
    · simp [ht, KState.sleep, sleepOn]

/-- A change of one slot that at most wakes it is quiet. -/
theorem LState.Quiet.of_slot (hs : s.WakeInv) {q : Proc} (hq : (s.base.proc j).AtMostWoken q)
    (hmail : (s.base.proc j).SameMail q) : s.Quiet { s with base := s.base.setProc j q } := by
  have hproc : ∀ j', (s.base.proc j').AtMostWoken ((s.base.setProc j q).proc j') ∧
      (s.base.proc j').SameMail ((s.base.setProc j q).proc j') := by
    intro j'
    rw [setProc_proc]
    by_cases hj : j' = j
    · subst hj
      rw [Function.update_self]
      exact ⟨hq, hmail⟩
    · rw [Function.update_of_ne hj]
      exact ⟨.refl _, ⟨rfl, rfl⟩⟩
  exact {
    place := rfl
    pending := ⟨fun hpc => (hproc _).1.used.mpr (hs.pending.used hpc), hs.pending.unique⟩
    running := fun _ hrun => (hproc _).1.running hrun
    kpc := fun _ _ hpc => hpc
    slot := fun j' => .inl (hproc j').1.toSamePlace
    flag := fun hflag => (hproc _).2.msgFlag.symm.trans hflag
    value := fun _ => rfl
    sleeping := fun hsleep => .inl ⟨(hproc _).1.sleeping hsleep, (hproc _).1.chan, rfl⟩ }

/-! ## They keep the invariant -/

theorem LState.WakeInv.exiting (hs : s.WakeInv) (h : (s.place i).Exiting) :
    (s.base.proc i).state = .running :=
  hs.running (fun hi => by simp [hi, Place.Exiting] at h) fun hi => by simp [hi, Place.Exiting] at h

/-- A quiet step makes no child exit. -/
theorem LState.Quiet.exited (hs : s.WakeInv) (hq : s.Quiet t) (h : t.Exited p call j) :
    s.Exited p call j := by
  obtain ⟨⟨hparent, hreaps⟩, hgone⟩ := h
  rw [hq.place] at hgone
  rcases hq.slot j with hsame | ⟨hrun, hzombie⟩
  · rw [hsame.zombie] at hgone
    exact ⟨⟨hsame.parent.symm.trans hparent, hsame.reaps.mp hreaps⟩, hgone⟩
  · rcases hgone with hgone | hexiting
    · exact absurd hgone hzombie
    · exact absurd (hs.exiting hexiting) hrun

/-- A quiet step makes no condition ready. -/
theorem LState.Quiet.ready (hs : s.WakeInv) (hq : s.Quiet t) (h : t.Ready p call) :
    s.Ready p call := by
  rw [LState.ready_iff] at h ⊢
  rcases h with ⟨semid, k, hcall, hk, hvalue⟩ | ⟨buf, hcall, hflag⟩ | ⟨j, hj⟩
  · rw [hq.value] at hvalue
    exact .inl ⟨semid, k, hcall, hk, hvalue⟩
  · exact .inr (.inl ⟨buf, hcall, hq.flag hflag⟩)
  · exact .inr (.inr ⟨j, hq.exited hs hj⟩)

/-- Who waits with a lock after a quiet step waited before. -/
theorem LState.Quiet.waiting (hs : s.WakeInv) (hq : s.Quiet t) (h : t.Waiting p call) :
    s.Waiting p call ∨ call.lock = none := by
  rcases h with ⟨hsleep, hpc⟩ | ⟨⟨chan, hplace⟩, hpc⟩
  · rcases hq.sleeping hsleep with ⟨hold, -, hkpc⟩ | ⟨call', -, hpc', -, -, hlock⟩
    · exact .inl (.inl ⟨hold, hkpc.symm.trans hpc⟩)
    · obtain rfl := Kpc.asleep.inj (hpc.symm.trans hpc')
      exact .inr hlock
  · rw [hq.place] at hplace
    have hknows := hs.knows p
    rw [hplace] at hknows
    obtain ⟨call', hpc', -⟩ := hknows
    have hi : s.place p ≠ .idle := by simp [hplace]
    have hkpc := hq.kpc hi (hs.running hi (by simp [hplace])) hpc'
    obtain rfl := Kpc.call.inj (hpc.symm.trans hkpc)
    exact .inl (.inr ⟨⟨chan, hplace⟩, hpc'⟩)

/-- What a process knows survives a quiet step. -/
theorem LState.Quiet.knows (hs : s.WakeInv) (hq : s.Quiet t) (i : Fin nproc) :
    t.Knows i (t.place i) := by
  have hknows := hs.knows i
  have hkpc : ∀ {call}, s.place i ≠ .idle → s.place i ≠ .dead → s.base.kpc i = .call call →
      t.base.kpc i = .call call := fun hi hdead => hq.kpc hi (hs.running hi hdead)
  rw [hq.place]
  cases hplace : s.place i with
  | held lk =>
      rw [hplace] at hknows hkpc
      obtain ⟨call, hpc, hlock⟩ := hknows
      exact ⟨call, hkpc nofun nofun hpc, hlock⟩
  | scan k found =>
      rw [hplace] at hknows hkpc
      obtain ⟨call, hpc, hlock, hchan, hnone⟩ := hknows
      refine ⟨call, hkpc nofun nofun hpc, hlock, hchan, ?_⟩
      intro j hj hparent hreaps hzombie
      rcases hq.slot j with hsame | ⟨-, hzombie'⟩
      · exact hnone j hj (hsame.parent.symm.trans hparent) (hsame.reaps.mp hreaps)
          (hsame.zombie.mp hzombie)
      · exact hzombie' hzombie
  | sleep lk chan =>
      rw [hplace] at hknows hkpc
      obtain ⟨call, hpc, hlock, hchan, hready⟩ := hknows
      exact ⟨call, hkpc nofun nofun hpc, hlock, hchan, mt (hq.ready hs) hready⟩
  | sleepLocked lk chan =>
      rw [hplace] at hknows hkpc
      obtain ⟨call, hpc, hlock, hchan, hready⟩ := hknows
      exact ⟨call, hkpc nofun nofun hpc, hlock, hchan, mt (hq.ready hs) hready⟩
  | sleepReleased chan =>
      rw [hplace] at hknows hkpc
      obtain ⟨call, hpc, hchan⟩ := hknows
      exact ⟨call, hkpc nofun nofun hpc, hchan⟩
  | waking lk chan k after =>
      rw [hplace] at hknows
      cases after <;> exact hknows
  | _ => trivial

/-- A quiet step keeps the invariant. -/
theorem LState.Quiet.wakeInv (hs : s.WakeInv) (hq : s.Quiet t) : t.WakeInv where
  pending := hq.pending
  running {i} hi hdead := by
    rw [hq.place] at hi hdead
    exact hq.running hi (hs.running hi hdead)
  unique hi hi' := by
    rw [hq.place] at hi hi'
    exact hs.unique hi hi'
  knows := hq.knows hs
  slept {p} hp := by
    rcases hq.sleeping hp with ⟨hold, hchan, hkpc⟩ | ⟨call, chan, hpc, hchan, hsleeps, -⟩
    · rw [hchan, hkpc]
      exact hs.slept hold
    · exact ⟨call, chan, hpc, hchan, hsleeps⟩
  woken {p call} hwaiting hready := by
    rw [hq.place]
    rcases hq.waiting hs hwaiting with hwaiting | hnone
    · exact hs.woken hwaiting (hq.ready hs hready)
    -- who sleeps elsewhere waits for none of these
    · obtain ⟨lk, chan, hlock, -⟩ := hready.lock
      simp [hnone] at hlock

end

end G20OsLab.Kernel
