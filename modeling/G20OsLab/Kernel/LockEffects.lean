/-
  G20OsLab.Kernel.LockEffects

  What a lock operation changes.

  Each operation of `Micro` changes at most one slot besides the place of its
  process (`Micro.slot`), and what it makes true for another process it makes
  true at the start of a `wakeup` (`Micro.flag`, `Micro.value`).
-/

import G20OsLab.Kernel.LockSteps

namespace G20OsLab.Kernel

/-- The process has begun to wake its parent, and will be a `ZOMBIE` before it
    releases `wait_lock`. -/
def Place.Exiting : Place → Prop
  | .waking _ _ _ .exit | .exit | .dying => True
  | _ => False

/-- What an operation of process `i` makes of slot `j`. -/
inductive MicroSlot (s : LState) (i j : Fin nproc) (base : KState) (place : Place) : Prop
  | kept (hp : (s.base.proc j).AtMostWoken (base.proc j))
  | freed (hzombie : (s.base.proc j).state = .zombie)
      (hj : base.proc j = freeproc (s.base.proc j))
  | adopted {k : Nat} (hi : s.place i = .reparent k)
      (hj : base.proc j = { s.base.proc j with parent := some s.base.initproc })
      (hplace : place = .waking .wait (some (.proc s.base.initproc)) 0 (.reparent (k + 1)))
  | died {status : Int} (hself : j = i) (hi : s.place i = .dying)
      (hj : base.proc j = exitProc (s.base.proc j) status) (hplace : place = .dead)
  | slept {call : Call} {chan : Chan} (hself : j = i) (hi : s.place i = .sleepReleased chan)
      (hpc : s.base.kpc i = .call call) (hbase : base = s.base.sleep i chan call)
      (hplace : place = .idle)

section

variable {s : LState} {i j : Fin nproc} {base : KState} {place : Place} {l : Lock}

theorem retInt_atMostWoken {s : KState} {v : Int} :
    (s.proc j).AtMostWoken ((s.retInt i v).proc j) := by
  obtain ⟨tf, htf⟩ := exists_retInt_proc s i j v
  have hfamily : (s.proc j).SameFamily ((s.retInt i v).proc j) := by
    rw [htf]
    exact ⟨rfl, rfl, rfl, rfl⟩
  refine (hfamily.samePlace ?_).atMostWoken ?_ ?_ <;> rw [htf]

/-- Slot `j` after a change of slot `k`. -/
theorem MicroSlot.of_setProc {k : Fin nproc} {p : Proc}
    (hk : MicroSlot s i k (s.base.setProc k p) place) :
    MicroSlot s i j (s.base.setProc k p) place := by
  by_cases hj : j = k
  · rwa [hj]
  · refine .kept ?_
    rw [setProc_proc, Function.update_of_ne hj]
    exact .refl _

/-- What a small step may do to a slot. -/
theorem Micro.slot (h : Micro s i base place) (j : Fin nproc) : MicroSlot s i j base place := by
  have hset : ∀ {k : Fin nproc} {p : Proc}, (s.base.proc k).AtMostWoken p →
      MicroSlot s i j (s.base.setProc k p) place := by
    intro k p hp
    apply MicroSlot.of_setProc
    exact .kept (by simpa using hp)
  cases h with
  | send _ hp => exact hset hp
  | noSend _ hp _ => exact hset hp
  | receive copyOk _ _ _ =>
      have hstate := msgrecvProc_state (s.base.proc i) copyOk
      refine hset (((msgrecvProc_sameFamily _ _).samePlace hstate).atMostWoken hstate ?_)
      rw [msgrecvProc]
      split <;> rfl
  | wake _ _ _ => exact hset (wakeupProc_atMostWoken _ _)
  | reap _ hzombie => exact .of_setProc (.freed hzombie (by simp))
  | adopt hi hparent => exact .of_setProc (.adopted hi (by simp [reparentProc, hparent]) rfl)
  | die hi => exact .of_setProc (.died rfl hi (Function.update_self ..) rfl)
  | ret _ => exact .kept retInt_atMostWoken
  | slept hi hpc =>
      by_cases hj : j = i
      · exact .slept hj hi hpc rfl rfl
      · refine .kept ?_
        simpa [KState.sleep, hj] using Proc.AtMostWoken.refl _
  | _ => exact .kept (.refl _)

/-- A process moves on at the end of its section. -/
theorem Micro.kpc (h : Micro s i base place) (j : Fin nproc) : base.kpc j = s.base.kpc j ∨
    j = i ∧ place = .idle ∧ s.place i ≠ .idle ∧ s.place i ≠ .dead ∧ (base.kpc j).child = none := by
  by_cases hj : j = i
  · subst hj
    cases h with
    | ret hi => exact .inr ⟨rfl, rfl, by simp [hi], by simp [hi], by simp [Kpc.child]⟩
    | slept hi _ =>
        exact .inr ⟨rfl, rfl, by simp [hi], by simp [hi], by simp [KState.sleep, Kpc.child]⟩
    | _ => exact .inl rfl
  · left
    cases h with
    | ret _ => exact Function.update_of_ne hj _ _
    | slept _ _ => exact Function.update_of_ne hj _ _
    | _ => rfl

/-- A message comes with a `wakeup`. -/
theorem Micro.flag (h : Micro s i base place) (hj : (base.proc j).msgFlag = true) :
    (s.base.proc j).msgFlag = true ∨
      place = .waking .wait (some (.msgFlag j)) 0 (.leave 0) := by
  have hset : ∀ {k : Fin nproc} {p : Proc}, (p.msgFlag = true → (s.base.proc k).msgFlag = true) →
      ((s.base.setProc k p).proc j).msgFlag = true → (s.base.proc j).msgFlag = true := by
    intro k p hp hflag
    by_cases hk : j = k
    · subst hk
      exact hp (by simpa using hflag)
    · simpa [hk] using hflag
  cases h with
  | @send k _ p _ _ =>
      by_cases hk : j = k
      · exact .inr (by rw [hk])
      · exact .inl (by simpa [hk] using hj)
  | noSend _ _ hflag => exact .inl (hset hflag.symm.trans hj)
  | receive copyOk _ _ hflag => exact .inl (hset (fun _ => hflag) hj)
  | reap _ _ => exact .inl (hset (fun hflag => by cases hflag) hj)
  | adopt _ _ => exact .inl (hset (reparentProc_sameMail _ _ _).msgFlag.symm.trans hj)
  | wake _ _ _ => exact .inl (hset (wakeupProc_sameMail _ _).msgFlag.symm.trans hj)
  | @die status _ => exact .inl (hset (p := exitProc _ status) id hj)
  | @ret _ value _ =>
      obtain ⟨tf, htf⟩ := exists_retInt_proc s.base i j value
      rw [htf] at hj
      exact .inl hj
  | @slept _ chan _ _ => exact .inl (hset (p := sleepOn chan _) id hj)
  | _ => exact .inl hj

/-- A unit comes with a `wakeup`. -/
theorem Micro.value (h : Micro s i base place) {k : Fin nsem}
    (hk : (base.semtable k).value ≠ 0) :
    (s.base.semtable k).value ≠ 0 ∨
      place = .waking (.sem k) (some (.sem k)) 0 (.leave 0) := by
  cases h with
  | @init k' _ _ _ _ =>
      by_cases hk' : k = k'
      · exact .inr (by rw [hk'])
      · exact .inl (by simpa [hk'] using hk)
  | @post k' _ _ =>
      by_cases hk' : k = k'
      · exact .inr (by rw [hk'])
      · exact .inl (by simpa [hk'] using hk)
  | @take k' _ _ hvalue =>
      by_cases hk' : k = k'
      · exact .inl (by rwa [hk'])
      · exact .inl (by simpa [hk'] using hk)
  | _ => exact .inl hk

/-- A process begins to exit with a `wakeup` of its parent. -/
theorem Micro.exiting (h : Micro s i base place) (hplace : place.Exiting) :
    (s.place i).Exiting ∨
      place = .waking .wait ((s.base.proc i).parent.map .proc) 0 .exit := by
  cases h with
  | wakeParent _ => exact .inr rfl
  | @wake _ _ _ after hi _ _ =>
      rw [hi]
      cases after <;> exact .inl hplace
  | @skip _ _ after hi =>
      rw [hi]
      cases after <;> exact .inl hplace
  | @woken _ _ _ after hi _ =>
      rw [hi]
      cases after <;> exact .inl hplace
  | exitLock hi => exact .inl (by simp [hi, Place.Exiting])
  | @lock call lk _ _ _ _ => cases call <;> exact hplace.elim
  | _ => exact hplace.elim

/-- The lock that `sleep` let go was the one it had been called with. -/
theorem Micro.of_released {chan : Chan} (h : Micro s i base place)
    (hplace : place = .sleepReleased chan) :
    ∃ lk, s.place i = .sleepLocked lk chan := by
  cases h with
  | @sleepRelease lk _ hi => exact ⟨lk, by rw [hi, (Place.sleepReleased.inj hplace)]⟩
  | @lock call lk _ _ _ _ => cases call <;> cases hplace
  | @woken lk _ _ after _ _ => cases after <;> cases hplace
  | _ => cases hplace

/-- `wakeup` goes on to the next slot, or is done. -/
theorem Micro.of_waking {lk : Lock} {chan : Option Chan} {k : Nat} {after : After}
    (h : Micro s i base place) (hi : s.place i = .waking lk chan k after) :
    nproc ≤ k ∨ place = .waking lk chan (k + 1) after ∧
      (k = i ∧ base = s.base ∨ ∃ j : Fin nproc, k = j ∧ j ≠ i ∧ s.Free (.proc j) ∧
        base = s.base.setProc j (wakeupProc chan (s.base.proc j))) := by
  cases h with
  | wake hi' hj hfree =>
      obtain ⟨rfl, rfl, rfl, rfl⟩ := Place.waking.inj (hi.symm.trans hi')
      exact .inr ⟨rfl, .inr ⟨_, rfl, hj, hfree, rfl⟩⟩
  | skip hi' =>
      obtain ⟨rfl, rfl, rfl, rfl⟩ := Place.waking.inj (hi.symm.trans hi')
      exact .inr ⟨rfl, .inl ⟨rfl, rfl⟩⟩
  | woken hi' hk =>
      obtain ⟨rfl, rfl, rfl, rfl⟩ := Place.waking.inj (hi.symm.trans hi')
      exact .inl hk
  -- all others are made at another place
  | fail htest => simp [LState.Testing, hi] at htest
  | _ => simp_all

end

end G20OsLab.Kernel
