/-
  G20OsLab.Kernel.Conditions

  What a sleeper waits for.

  A section that makes the condition of a call true wakes the process that
  sleeps in the call (`awake_of_ready`), so between two sections no process
  sleeps on a condition that holds (`KState.Asleep`).
-/

import G20OsLab.Kernel.Mailbox
import G20OsLab.Kernel.Sleeping

namespace G20OsLab.Kernel

/-- What holds of a process that sleeps. -/
structure KState.Asleep (s : KState) (p : Fin nproc) (call : Call) : Prop where
  kpc : s.kpc p = .asleep call
  chan : ∃ chan, (s.proc p).chan = some chan ∧ call.SleepsOn p chan
  not_ready : ¬ s.Ready p call
  /-- `ksem_wait` sleeps on a semaphore that has been initialised -/
  sem : ∀ semid, call = .semWait semid →
    ∃ k, semIndex semid = some k ∧ (s.semtable k).used = true

section

variable {s t : KState} {e : Event} {i j p : Fin nproc} {o : Outcome} {call : Call}

/-! ## Wakeups -/

/-- Who sleeps on the channel is awake after the wake-up. -/
theorem wakeupProc_awake {q : Proc} {chan : Option Chan} (hchan : q.chan = chan) :
    (wakeupProc chan q).state ≠ .sleeping :=
  fun hsleep => (wakeupProc_asleep hsleep).2 hchan

theorem retInt_wakeup_awake {chan : Option Chan} {v : Int} (hchan : (s.proc p).chan = chan) :
    (((s.wakeup chan).retInt i v).proc p).state ≠ .sleeping := by
  rw [retInt_state, wakeup_proc]
  exact wakeupProc_awake hchan

/-- A unit comes with a wakeup on the semaphore. -/
theorem value_of_step {k : Fin nsem} (h : step e s = some t) (hk : (t.semtable k).value ≠ 0) :
    (s.semtable k).value ≠ 0 ∨
      ∀ p, (s.proc p).chan = some (.sem k) → (t.proc p).state ≠ .sleeping := by
  have hsem := (step_effect h).semtable k
  generalize htk : t.semtable k = sem at hsem
  rw [htk] at hk
  cases hsem with
  | stay => exact .inl hk
  | init hat hk' hvalue =>
      right
      intro p hp
      obtain ⟨o, -, ho⟩ := step_call hat h
      obtain rfl := Option.some.inj ho
      simp only [ksemInit, hk', if_neg (not_lt.mpr hvalue)]
      exact retInt_wakeup_awake hp
  | wait _ _ _ hvalue => exact .inl hvalue
  | post hat hk' hused =>
      right
      intro p hp
      obtain ⟨o, -, ho⟩ := step_call hat h
      obtain rfl := Option.some.inj ho
      simp only [ksemPost, hk', hused, Bool.true_eq_false, if_false]
      exact retInt_wakeup_awake hp

/-- A message comes with a wakeup on the flag. -/
theorem flag_of_step (h : step e s = some t) (hsleep : (s.proc p).state = .sleeping)
    (hp : (t.proc p).msgFlag = true) : (s.proc p).msgFlag = true ∨
      ((s.proc p).chan = some (.msgFlag p) → (t.proc p).state ≠ .sleeping) := by
  have hself : ∀ pc, ¬ s.At e p pc := fun pc hat => by simp [hat.running] at hsleep
  by_cases hsend : ∃ i pid msg, s.At e i (.call (.msgsend pid msg))
  · obtain ⟨i, pid, msg, hat⟩ := hsend
    obtain ⟨o, -, ho⟩ := step_call hat h
    obtain rfl := Option.some.inj ho
    rw [msgsend] at hp ⊢
    split at hp
    · rename_i j _
      dsimp only at hp ⊢
      by_cases hresult : (msgsendProc (s.proc j) o.bytes o.copyOk).2 = 0
      · rw [if_pos hresult] at hp ⊢
        by_cases hj : p = j
        · subst hj
          right
          intro hchan
          apply retInt_wakeup_awake
          rw [setProc_proc, Function.update_self, msgsendProc_chan, hchan]
        · left
          obtain ⟨tf, htf⟩ := exists_retInt_proc
            ((s.setProc j (msgsendProc (s.proc j) o.bytes o.copyOk).1).wakeup (some (.msgFlag j)))
            i p (msgsendProc (s.proc j) o.bytes o.copyOk).2
          rw [htf] at hp
          dsimp only [wakeup_proc] at hp
          rw [(wakeupProc_sameMail _ _).msgFlag, setProc_proc, Function.update_of_ne hj] at hp
          exact hp
      · rw [if_neg hresult, flag_setProc (msgsendProc_failed hresult)] at hp
        exact .inl hp
    · obtain ⟨tf, htf⟩ := exists_retInt_proc s i p (-1)
      rw [htf] at hp
      exact .inl hp
  · simp only [not_exists] at hsend
    exact .inl (mailKept_flag (mailKept_of_step h hsend fun buf hat => hself _ hat) hp)

/-! ## Children -/

/-- A new parent does not wake a child. -/
theorem reparent_chan : ((reparent s i).proc p).chan = (s.proc p).chan := by
  rw [reparent]
  split
  · exact (wakeupProc_chan _ _).trans (reparentProc_chan _ _ _)
  · exact reparentProc_chan _ _ _

/-- What `kexit` does to another process: a new parent, and the wake-up of its own
    parent. -/
theorem kexit_proc {status : Int} (hj : j ≠ i) : (kexit s i status).proc j =
    wakeupProc (((reparent s i).proc i).parent.map .proc) ((reparent s i).proc j) := by
  simp only [kexit, setProc_proc]
  exact Function.update_of_ne hj _ _

/-- An exit wakes who sleeps in a wait for a child that has become a `ZOMBIE`
    or has been handed over. -/
theorem kexit_wakes {status : Int} (hp : p ≠ i) (hchan : (s.proc p).chan = some (.proc p))
    (hj : ((kexit s i status).proc j).parent = some p)
    (hzombie : ((kexit s i status).proc j).state = .zombie) :
    (s.proc j).parent = some p ∧ (s.proc j).state = .zombie ∨
      ((kexit s i status).proc p).state ≠ .sleeping := by
  have hwoken : (kexit s i status).proc p = _ := kexit_proc hp
  by_cases hself : j = i
  -- the process has woken its parent
  · subst hself
    right
    rw [kexit_parent, ← reparent_parent] at hj
    rw [hwoken, hj]
    exact wakeupProc_awake (reparent_chan.trans hchan)
  · have hstate : (s.proc j).state = .zombie := by
      rw [kexit_proc hself, (wakeupProc_samePlace _ _).zombie] at hzombie
      rw [reparent] at hzombie
      split at hzombie
      · have hmap := (wakeupProc_samePlace _ _).zombie.mp hzombie
        simpa [KState.mapProc] using hmap
      · simpa [KState.mapProc] using hzombie
    rw [kexit_parent, reparentProc] at hj
    split at hj
    -- `init` has a new child
    · rename_i hchild
      obtain rfl := Option.some.inj hj
      right
      have hany : (List.finRange nproc).any (fun j => decide ((s.proc j).parent = some i)) = true :=
        List.any_eq_true.mpr ⟨j, List.mem_finRange j, by simpa using hchild⟩
      have hinit : ((reparent s i).proc s.initproc).state ≠ .sleeping := by
        rw [reparent, if_pos hany]
        apply wakeupProc_awake
        exact (reparentProc_chan _ _ _).trans hchan
      intro hsleep
      rw [hwoken] at hsleep
      rw [(wakeupProc_asleep hsleep).1] at hsleep
      exact hinit hsleep
    · exact .inl ⟨hj, hstate⟩

/-- A child comes with a wakeup of the parent. -/
theorem child_of_exit (hpending : s.Pending) (h : step e s = some t)
    (hsleep : (s.proc p).state = .sleeping) (hchan : (s.proc p).chan = some (.proc p))
    (hparent : (t.proc j).parent = some p) (hreaps : call.Reaps (t.proc j))
    (hzombie : (t.proc j).state = .zombie) :
    ((s.proc j).parent = some p ∧ call.Reaps (s.proc j) ∧ (s.proc j).state = .zombie) ∨
      (t.proc p).state ≠ .sleeping := by
  by_cases hexit : ∃ i status, s.At e i (.call (.exit status))
  · obtain ⟨i, status, hat⟩ := hexit
    have hp : p ≠ i := by
      rintro rfl
      simp [hat.running] at hsleep
    obtain ⟨o, -, ho⟩ := step_call hat h
    simp only [callSection, Option.ite_none_left_eq_some] at ho
    obtain ⟨-, ho⟩ := ho
    split at ho
    · obtain rfl := Option.some.inj ho
      left
      by_cases hj : j = i
      · subst hj
        simp [KState.sleep, sleepOn] at hzombie
      · simp only [KState.sleep, setKpc_proc, setProc_proc, Function.update_of_ne hj]
          at hparent hreaps hzombie
        exact ⟨hparent, hreaps, hzombie⟩
    · obtain rfl := Option.some.inj ho
      rcases kexit_wakes hp hchan hparent hzombie with ⟨hold, hstate⟩ | hawake
      · have hused : (s.proc j).state ≠ .unused := by simp [hstate]
        rcases kept_or_freed hused h with ⟨-, hpid, hthread⟩ | ⟨hfreed, -⟩
        · exact .inl ⟨hold, (reaps_congr hpid hthread).mp hreaps, hstate⟩
        · simp [hzombie] at hfreed
      · exact .inr hawake
  · simp only [not_exists] at hexit
    rcases samePlace_of_step hpending h hexit j with hsame | ⟨-, hnot⟩
    · exact .inl ⟨hsame.parent.symm.trans hparent, hsame.reaps.mp hreaps, hsame.zombie.mp hzombie⟩
    · exact absurd hzombie hnot

/-! ## Steps -/

/-- What makes the condition of a call true wakes who sleeps in the call. -/
theorem awake_of_ready (hpending : s.Pending) (h : step e s = some t) (hp : s.Asleep p call)
    (hsleep : (s.proc p).state = .sleeping) (hready : t.Ready p call) :
    (t.proc p).state ≠ .sleeping := by
  obtain ⟨chan, hchan, hsleeps⟩ := hp.chan
  have hnot := hp.not_ready
  -- a call that waits for something sleeps on its own channel
  have hown : ∀ {chan'}, call.chan p = some chan' → (s.proc p).chan = some chan' := by
    intro chan' hchan'
    rcases hsleeps with hsleeps | ⟨hnone, -⟩
    · rw [hchan, ← hsleeps, hchan']
    · simp [hchan'] at hnone
  have hchild : ∀ {j}, (t.proc j).parent = some p → call.Reaps (t.proc j) →
      (t.proc j).state = .zombie → call.chan p = some (.proc p) →
      ((s.proc j).parent = some p ∧ call.Reaps (s.proc j) ∧ (s.proc j).state = .zombie) ∨
        (t.proc p).state ≠ .sleeping := fun hparent hreaps hzombie hchan' =>
    child_of_exit hpending h hsleep (hown hchan') hparent hreaps hzombie
  cases call with
  | semWait semid =>
      obtain ⟨k, hk, hvalue⟩ := hready
      rcases value_of_step h hvalue with hold | hawake
      · exact absurd ⟨k, hk, hold⟩ hnot
      · exact hawake p (hown (by rw [Call.chan, hk, Option.map_some]))
  | msgrecv buf =>
      rcases flag_of_step h hsleep hready with hold | hawake
      · exact absurd hold hnot
      · exact hawake (hown rfl)
  | wait addr =>
      obtain ⟨j, hparent, hreaps, hzombie⟩ := hready
      exact (hchild hparent hreaps hzombie rfl).resolve_left fun hold => hnot ⟨j, hold⟩
  | waitx rtime wtime =>
      obtain ⟨j, hparent, hreaps, hzombie⟩ := hready
      exact (hchild hparent hreaps hzombie rfl).resolve_left fun hold => hnot ⟨j, hold⟩
  | join tid =>
      obtain ⟨j, hparent, hreaps, hzombie⟩ := hready
      exact (hchild hparent hreaps hzombie rfl).resolve_left fun hold => hnot ⟨j, hold⟩
  | _ =>
      obtain ⟨j, -, hreaps, -⟩ := hready
      exact hreaps.elim

/-- A semaphore stays in use. -/
theorem used_sem_of_step {k : Fin nsem} (h : step e s = some t)
    (hk : (s.semtable k).used = true) : (t.semtable k).used = true := by
  have hsem := (step_effect h).semtable k
  generalize t.semtable k = sem at hsem
  cases hsem with
  | stay => exact hk
  | init _ _ _ => rfl
  | wait _ _ _ _ => exact hk
  | post _ _ _ => exact hk

/-- A process sleeps on semaphores in use only. -/
theorem semWait_used {semid : Int} (hat : s.At e i (.call (.semWait semid)))
    (h : step e s = some t) (ht : (t.proc i).state = .sleeping) :
    ∃ k, semIndex semid = some k ∧ (s.semtable k).used = true := by
  have hawake : (s.proc i).state ≠ .sleeping := by simp [hat.running]
  obtain ⟨o, -, ho⟩ := step_call hat h
  obtain rfl := Option.some.inj ho
  rw [ksemWait] at ht
  split at ht
  · exact absurd ht (awake_retInt hawake)
  · rename_i k hk
    split at ht
    · exact absurd ht (awake_retInt hawake)
    · rename_i hused
      exact ⟨k, hk, by simpa using hused⟩

/-- Going to sleep makes nothing ready that was not. -/
theorem sleep_ready {chan : Chan} {call' : Call} (h : (s.sleep p chan call').Ready p call) :
    s.Ready p call := by
  have hchild : ∀ {j : Fin nproc}, ((s.sleep p chan call').proc j).parent = some p →
      call.Reaps ((s.sleep p chan call').proc j) →
      ((s.sleep p chan call').proc j).state = .zombie →
      (s.proc j).parent = some p ∧ call.Reaps (s.proc j) ∧ (s.proc j).state = .zombie := by
    intro j hparent hreaps hzombie
    by_cases hj : j = p
    · subst hj
      simp [KState.sleep, sleepOn] at hzombie
    · simp only [KState.sleep, setKpc_proc, setProc_proc, Function.update_of_ne hj]
        at hparent hreaps hzombie
      exact ⟨hparent, hreaps, hzombie⟩
  cases call with
  | semWait semid => exact h
  | msgrecv buf => simpa [KState.Ready, KState.sleep, sleepOn] using h
  | _ =>
      obtain ⟨j, hparent, hreaps, hzombie⟩ := h
      exact ⟨j, hchild hparent hreaps hzombie⟩

/-- A process asleep stays asleep in its call, or a step has put it there. -/
theorem asleep_of_step (hpending : s.Pending)
    (hs : (s.proc p).state = .sleeping → ∃ call, s.Asleep p call) (h : step e s = some t)
    (hp : (t.proc p).state = .sleeping) : ∃ call, t.Asleep p call := by
  rcases sleeping_of_step h hp with ⟨hold, hchan, hkpc⟩ | ⟨call, chan, hat, ht, hsleeps, hnot⟩
  · obtain ⟨call, hasleep⟩ := hs hold
    refine ⟨call, hkpc.trans hasleep.kpc, ?_, ?_, ?_⟩
    · rw [hchan]
      exact hasleep.chan
    · intro hready
      exact awake_of_ready hpending h hasleep hold hready hp
    · intro semid hcall
      obtain ⟨k, hk, hused⟩ := hasleep.sem semid hcall
      exact ⟨k, hk, used_sem_of_step h hused⟩
  · refine ⟨call, ?_, ⟨chan, ?_, hsleeps⟩, ?_, ?_⟩
    · simp [ht, KState.sleep]
    · simp [ht, KState.sleep, sleepOn]
    · rw [ht]
      exact mt sleep_ready hnot
    · rintro semid rfl
      obtain ⟨k, hk, hused⟩ := semWait_used hat h hp
      exact ⟨k, hk, used_sem_of_step h hused⟩

/-- Between two sections, who sleeps waits for what is not there. -/
theorem ReachableBy.asleep {P : KState → Event → Prop} (hs : ReachableBy P s)
    (hp : (s.proc p).state = .sleeping) : ∃ call, s.Asleep p call := by
  have hinv : s.Pending ∧ ∀ p, (s.proc p).state = .sleeping → ∃ call, s.Asleep p call :=
    hs.invariant
      (I := fun s => s.Pending ∧ ∀ p, (s.proc p).state = .sleeping → ∃ call, s.Asleep p call)
      ⟨bootState_pending, fun p hp => absurd hp bootState_awake⟩
      fun ht _ hstep => ⟨step_pending ht.1 hstep, fun p hp =>
        asleep_of_step ht.1 (ht.2 p) hstep hp⟩
  exact hinv.2 p hp

end

end G20OsLab.Kernel
