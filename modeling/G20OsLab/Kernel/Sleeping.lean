/-
  G20OsLab.Kernel.Sleeping

  How processes go to sleep.

  A process sleeps in a round of the loop of a call, on the channel of that
  call, after it has found that what it waits for is not there
  (`call_sleeps`).
-/

import G20OsLab.Kernel.Reaping

namespace G20OsLab.Kernel

/-- The channel that process `i` sleeps on in a call of the process layer. -/
def Call.chan (call : Call) (i : Fin nproc) : Option Chan :=
  match call with
  | .semWait semid => (semIndex semid).map .sem
  | .msgrecv _ => some (.msgFlag i)
  | .wait _ | .waitx _ _ | .join _ => some (.proc i)
  | _ => none

/-- What process `i` waits for in the call is there. -/
def KState.Ready (s : KState) (i : Fin nproc) (call : Call) : Prop :=
  match call with
  | .semWait semid => ∃ k, semIndex semid = some k ∧ (s.semtable k).value ≠ 0
  | .msgrecv _ => (s.proc i).msgFlag = true
  | call => ∃ j, (s.proc j).parent = some i ∧ call.Reaps (s.proc j) ∧ (s.proc j).state = .zombie

/-- Process `i` sleeps in a call of the process layer, or elsewhere in the
    kernel. -/
def Call.SleepsOn (call : Call) (i : Fin nproc) (chan : Chan) : Prop :=
  call.chan i = some chan ∨ call.chan i = none ∧ ∃ number, chan = .outside number

section

variable {s t : KState} {e : Event} {i j : Fin nproc} {o : Outcome} {call : Call}

/-- A section that ends with the process awake. -/
theorem awake_retInt {v : Int} (h : (s.proc i).state ≠ .sleeping) :
    ((s.retInt i v).proc i).state ≠ .sleeping := by
  rwa [retInt_state]

theorem awake_setRet {result : Proc × Int} (h : result.1.state ≠ .sleeping) :
    ((s.setRet i i result).proc i).state ≠ .sleeping := by
  rwa [setRet_state]

theorem awake_wakeup {chan : Option Chan} (h : (s.proc i).state ≠ .sleeping) :
    ((s.wakeup chan).proc i).state ≠ .sleeping := by
  rw [wakeup_proc]
  dsimp only
  rcases wakeupProc_cases chan (s.proc i) with hsame | hwoken
  · rwa [hsame]
  · simp [hwoken]

theorem awake_msgsend {pid : Int} (h : (s.proc i).state ≠ .sleeping) :
    ((msgsend s i o pid).proc i).state ≠ .sleeping := by
  rw [msgsend]
  split
  · rename_i j _
    dsimp only
    have hset : ((s.setProc j (msgsendProc (s.proc j) o.bytes o.copyOk).1).proc i).state ≠
        .sleeping := by
      by_cases hj : i = j
      · subst hj
        simpa using h
      · simpa [hj] using h
    apply awake_retInt
    split
    · exact awake_wakeup hset
    · exact hset
  · exact awake_retInt h

theorem awake_ksemInit {semid value : Int} (h : (s.proc i).state ≠ .sleeping) :
    ((ksemInit s i semid value).proc i).state ≠ .sleeping := by
  rw [ksemInit]
  split
  · exact awake_retInt h
  · split
    · exact awake_retInt h
    · exact awake_retInt (awake_wakeup h)

theorem awake_ksemPost {semid : Int} (h : (s.proc i).state ≠ .sleeping) :
    ((ksemPost s i semid).proc i).state ≠ .sleeping := by
  rw [ksemPost]
  split
  · exact awake_retInt h
  · split
    · exact awake_retInt h
    · exact awake_retInt (awake_wakeup h)

/-- A wait sleeps only if it has children and no zombie. -/
theorem waitSection_sleeps {child : Proc → Bool} {copied : Bool} {result : Proc → Int}
    (hrun : (s.proc i).state = .running)
    (ht : ((waitSection s i call child copied result).proc i).state = .sleeping) :
    waitSection s i call child copied result = s.sleep i (.proc i) call ∧
      (∀ j, child (s.proc j) = true → (s.proc j).state ≠ .zombie) ∧ (s.proc i).killed = false := by
  have hawake : (s.proc i).state ≠ .sleeping := by simp [hrun]
  rw [waitSection] at ht ⊢
  split at ht
  · rename_i j hj
    have hfound := List.find?_some hj
    simp only [Bool.and_eq_true, decide_eq_true_eq] at hfound
    have hother : i ≠ j := by
      rintro rfl
      simp [hrun] at hfound
    split at ht
    · rw [KState.setRet, retInt_state, setProc_proc, Function.update_of_ne hother] at ht
      exact absurd ht hawake
    · exact absurd ht (awake_retInt hawake)
  · rename_i hnone
    have hnone := List.find?_eq_none.mp hnone
    split at ht
    · exact absurd ht (awake_retInt hawake)
    · rename_i hsleep
      simp only [Bool.or_eq_true, not_or, Bool.not_eq_true] at hsleep
      refine ⟨if_neg (by simp [hsleep]), fun j hj hzombie => ?_, hsleep.2⟩
      exact hnone j (List.mem_finRange j) (by simp [hj, hzombie])

/-- A call that waits for children sleeps if there is none for it to reap. -/
theorem waitSection_sleepsOn {child : Proc → Bool} {copied : Bool} {result : Proc → Int}
    (hrun : (s.proc i).state = .running) (hchan : call.chan i = some (.proc i))
    (hchild : ∀ p : Proc, p.parent = some i → call.Reaps p → child p = true)
    (ht : ((waitSection s i call child copied result).proc i).state = .sleeping) :
    ∃ chan, waitSection s i call child copied result = s.sleep i chan call ∧
      call.SleepsOn i chan ∧
      ¬ ∃ j, (s.proc j).parent = some i ∧ call.Reaps (s.proc j) ∧
        (s.proc j).state = .zombie := by
  obtain ⟨hsleep, hnone, -⟩ := waitSection_sleeps hrun ht
  refine ⟨_, hsleep, .inl hchan, ?_⟩
  rintro ⟨j, hparent, hreaps, hzombie⟩
  exact hnone j (hchild _ hparent hreaps) hzombie

/-- `ksem_wait` sleeps only at 0. -/
theorem ksemWait_sleeps {semid : Int} (hawake : (s.proc i).state ≠ .sleeping)
    (ht : ((ksemWait s i semid).proc i).state = .sleeping) :
    ∃ k, semIndex semid = some k ∧ ksemWait s i semid = s.sleep i (.sem k) (.semWait semid) ∧
      (s.semtable k).value = 0 := by
  rw [ksemWait] at ht ⊢
  cases hk : semIndex semid with
  | none =>
      rw [hk] at ht
      exact absurd ht (awake_retInt hawake)
  | some k =>
      simp only [hk] at ht ⊢
      split at ht
      · exact absurd ht (awake_retInt hawake)
      · rename_i hused
        split at ht
        · rename_i hvalue
          exact ⟨k, rfl, by rw [if_neg hused, if_pos hvalue], hvalue⟩
        · exact absurd ht (awake_retInt hawake)

/-- The calls that can sleep. -/
def Call.Sleeper : Call → Prop
  | .wait _ | .waitx _ _ | .join _ | .semWait _ | .msgrecv _ | .exit _ | .exec | .other => True
  | _ => False

/-- After a section of any other call the process is awake. -/
theorem awake_callSection (hrun : (s.proc i).state = .running)
    (ho : callSection s i o call = some t) (hcall : ¬ call.Sleeper) :
    (t.proc i).state ≠ .sleeping := by
  have hawake : (s.proc i).state ≠ .sleeping := by simp [hrun]
  unfold callSection at ho
  cases call with
  | wait _ | waitx _ _ | join _ | semWait _ | msgrecv _ | exit _ | exec | other =>
      exact absurd trivial hcall
  | fork | kill _ | getpriority _ =>
      cases ho
      exact hawake
  | getpid =>
      cases ho
      exact awake_retInt hawake
  | forkprio priority | setpriority _ priority =>
      cases ho
      split
      · exact hawake
      · exact awake_retInt hawake
  | clone fn stack arg | sigsend _ signum =>
      cases ho
      split
      · exact awake_retInt hawake
      · exact hawake
  | sbrk n t' =>
      dsimp only at ho
      split at ho <;> cases ho
      · simp [ret_proc, hrun]
      · exact awake_retInt hawake
  | sigalarm _ _ | sigreturn =>
      cases ho
      exact awake_setRet (by simp [hrun])
  | msgsend pid msg =>
      cases ho
      exact awake_msgsend hawake
  | semInit semid value =>
      cases ho
      exact awake_ksemInit hawake
  | semPost semid =>
      cases ho
      exact awake_ksemPost hawake

/-- A call sleeps outside the process layer. -/
theorem sleepsOn_outside (number : Nat) (hchan : call.chan i = none)
    (hready : ¬ s.Ready i call) :
    ∃ chan, s.sleep i (.outside number) call = s.sleep i chan call ∧ call.SleepsOn i chan ∧
      ¬ s.Ready i call :=
  ⟨_, rfl, .inr ⟨hchan, number, rfl⟩, hready⟩

/-- `exit` sleeps where it closes the files. -/
theorem exit_sleeps {status : Int} (ho : callSection s i o (.exit status) = some t)
    (ht : (t.proc i).state = .sleeping) :
    ∃ chan, t = s.sleep i chan (.exit status) ∧ (Call.exit status).SleepsOn i chan ∧
      ¬ s.Ready i (.exit status) := by
  rw [callSection, Option.ite_none_left_eq_some] at ho
  obtain ⟨-, ho⟩ := ho
  cases hsleep : o.sleepOn with
  | some number =>
      simp only [hsleep, Option.some.injEq] at ho
      subst ho
      refine sleepsOn_outside number rfl ?_
      rintro ⟨_, _, hreaps, _⟩
      exact hreaps.elim
  | none =>
      simp only [hsleep, Option.some.injEq] at ho
      subst ho
      simp [kexit, exitProc] at ht

/-- `exec` sleeps where it reads the program. -/
theorem exec_sleeps (hawake : (s.proc i).state ≠ .sleeping)
    (ho : callSection s i o .exec = some t) (ht : (t.proc i).state = .sleeping) :
    ∃ chan, t = s.sleep i chan .exec ∧ Call.exec.SleepsOn i chan ∧ ¬ s.Ready i .exec := by
  rw [callSection] at ho
  cases hsleep : o.sleepOn with
  | some number =>
      simp only [hsleep, Option.some.injEq] at ho
      subst ho
      refine sleepsOn_outside number rfl ?_
      rintro ⟨_, _, hreaps, _⟩
      exact hreaps.elim
  | none =>
      simp only [hsleep] at ho
      split at ho <;> cases ho
      · contradiction
      · exact absurd ht (awake_setRet hawake)
      · exact absurd ht (awake_retInt hawake)

/-- The calls of the other layers sleep there. -/
theorem other_sleeps (hawake : (s.proc i).state ≠ .sleeping)
    (ho : callSection s i o .other = some t) (ht : (t.proc i).state = .sleeping) :
    ∃ chan, t = s.sleep i chan .other ∧ Call.other.SleepsOn i chan ∧ ¬ s.Ready i .other := by
  rw [callSection] at ho
  cases hsleep : o.sleepOn with
  | some number =>
      simp only [hsleep, Option.some.injEq] at ho
      subst ho
      refine sleepsOn_outside number rfl ?_
      rintro ⟨_, _, hreaps, _⟩
      exact hreaps.elim
  | none =>
      simp only [hsleep, Option.some.injEq] at ho
      subst ho
      exact absurd ht (by simpa [ret_proc] using hawake)

/-- A section of a call after which the process sleeps is a `sleep`. -/
theorem call_sleeps (hat : s.At e i (.call call)) (h : step e s = some t)
    (ht : (t.proc i).state = .sleeping) :
    ∃ chan, t = s.sleep i chan call ∧ call.SleepsOn i chan ∧ ¬ s.Ready i call := by
  have hrun := hat.running
  have hawake : (s.proc i).state ≠ .sleeping := by simp [hrun]
  obtain ⟨o, -, ho⟩ := step_call hat h
  cases call with
  | wait addr =>
      obtain rfl := Option.some.inj ho
      refine waitSection_sleepsOn hrun rfl (fun p hparent hreaps => ?_) ht
      simpa [hparent, Call.Reaps] using hreaps
  | waitx rtime wtime =>
      obtain rfl := Option.some.inj ho
      refine waitSection_sleepsOn hrun rfl (fun p hparent hreaps => ?_) ht
      simpa [hparent, Call.Reaps] using hreaps
  | join tid =>
      obtain rfl := Option.some.inj ho
      refine waitSection_sleepsOn hrun rfl (fun p hparent hreaps => ?_) ht
      simpa [hparent, Call.Reaps] using hreaps
  | semWait semid =>
      obtain rfl := Option.some.inj ho
      obtain ⟨k, hk, hsleep, hvalue⟩ := ksemWait_sleeps hawake ht
      refine ⟨.sem k, hsleep, .inl ?_, ?_⟩
      · rw [Call.chan, hk, Option.map_some]
      · rintro ⟨k', hk', hvalue'⟩
        obtain rfl := Option.some.inj (hk.symm.trans hk')
        exact hvalue' hvalue
  | msgrecv buf =>
      obtain rfl := Option.some.inj ho
      rw [msgrecv] at ht ⊢
      split at ht
      · exact absurd ht (awake_setRet (by simp [hrun]))
      · rename_i hempty
        exact ⟨_, if_neg hempty, .inl rfl, hempty⟩
  | exit status => exact exit_sleeps ho ht
  | exec => exact exec_sleeps hawake ho ht
  | other => exact other_sleeps hawake ho ht
  | fork | forkprio _ | clone _ _ _ | kill _ | setpriority _ _ | getpriority _ | sigsend _ _ |
    getpid | sbrk _ _ | sigalarm _ _ | sigreturn | msgsend _ _ | semInit _ _ | semPost _ =>
      exact absurd ht (awake_callSection hrun ho id)

/-- A process moves on in its own sections and traps only. -/
theorem kpc_kept (h : step e s = some t) (hself : ∀ pc, ¬ s.At e j pc)
    (htrap : ∀ regs cause, e ≠ .trap j regs cause) (hused : (s.proc j).state ≠ .unused) :
    t.kpc j = s.kpc j := by
  have hcontrol := (step_effect h).kpc j
  generalize t.kpc j = pc at hcontrol
  cases hcontrol with
  | stay => rfl
  | spawned hunused => exact absurd hunused hused
  | trapEcall he => exact absurd he (htrap _ _)
  | trapOther he => exact absurd he (htrap _ _)
  | leave hat => exact hat.elim (fun hat => absurd hat (hself _)) fun hat => absurd hat (hself _)
  | enter hat => exact absurd hat (hself _)
  | killed hat => exact absurd hat (hself _)
  | resume hat => exact absurd hat (hself _)
  | sleep hat => exact absurd hat (hself _)
  | scan hat _ => exact absurd hat (hself _)
  | next hat => exact absurd hat (hself _)
  | link hat _ => exact absurd hat (hself _)
  | ready hat => exact absurd hat (hself _)
  | ret hat => exact absurd hat (hself _)
  | signal hat => exact absurd hat (hself _)

/-- Only a running process moves on. -/
theorem kpc_of_step (h : step e s = some t) (hrun : (s.proc j).state ≠ .running)
    (hused : (s.proc j).state ≠ .unused) : t.kpc j = s.kpc j := by
  refine kpc_kept h (fun pc hat => hrun hat.running) ?_ hused
  rintro regs cause rfl
  simp [step, hrun] at h

/-- A running process runs until it stops by itself, or an interrupt makes it
    yield. -/
theorem running_of_step (hpending : s.Pending) (h : step e s = some t)
    (hrun : (s.proc j).state = .running) (hself : ∀ pc, ¬ s.At e j pc) (hyield : e ≠ .yield j) :
    (t.proc j).state = .running := by
  refine step_slot (I := fun p => p.state = .running) h hrun ?_
  intro p q hp hm
  cases hm with
  | yield _ hact => exact hact.elim (absurd · hyield) fun ⟨_, hat⟩ => absurd hat (hself _)
  -- made in another state only
  | abort _ _ _ hstate => simp [hrun] at hstate
  | fork _ hstate => simp [hrun] at hstate
  | clone _ hstate => simp [hrun] at hstate
  | free _ _ _ hstate => simp [hrun] at hstate
  | ready hat => simp [hpending.ready hat] at hrun
  -- made by a process to itself
  | exit hat => exact absurd hat (hself _)
  | sleep _ hat => exact absurd hat (hself _)
  | receive _ hat => exact absurd hat (hself _)
  | sigalarm hat => exact absurd hat (hself _)
  | sigreturn hat => exact absurd hat (hself _)
  | signalcheck hat => exact absurd hat (hself _)
  -- no change of the state
  | schedule _ => rfl
  | wakeup chan => simp [wakeupProc, wake, hp]
  | kill _ _ => simp [killProc, wake, hp]
  | sigsend _ _ _ =>
      simp only [sigsendProc, wake]
      split <;> simp [hp]
  | updateTime => simpa using hp
  | reparent _ => simpa using hp
  | deliver _ _ _ _ _ => simpa using hp
  | signaltick _ _ => simpa using hp
  | _ => exact hp

/-- A process that sleeps on after a wakeup was on another channel. -/
theorem wakeupProc_asleep {chan : Option Chan} {p : Proc}
    (h : (wakeupProc chan p).state = .sleeping) : wakeupProc chan p = p ∧ p.chan ≠ chan := by
  rw [wakeupProc, wake] at h ⊢
  split at h
  · split at h
    · cases h
    · rename_i hawake
      exact absurd h hawake
  · rename_i hchan
    exact ⟨if_neg hchan, hchan⟩

theorem wake_asleep {p : Proc} : (wake p).state ≠ .sleeping := by
  rw [wake]
  split
  · show ProcState.runnable ≠ .sleeping
    decide
  · assumption

/-- A signal that leaves a process asleep was refused. -/
theorem sigsendProc_asleep {p : Proc} {signum : Int}
    (h : (sigsendProc p signum).1.state = .sleeping) : (sigsendProc p signum).1 = p := by
  rw [sigsendProc] at h ⊢
  split at h
  · rename_i hfail
    rw [if_pos hfail]
  · exact absurd h wake_asleep

theorem wakeupProc_chan (chan : Option Chan) (p : Proc) : (wakeupProc chan p).chan = p.chan := by
  rw [wakeupProc, wake]
  repeat' split
  all_goals rfl

theorem msgsendProc_chan (p : Proc) (bytes : List UInt8) (copyOk : Bool) :
    (msgsendProc p bytes copyOk).1.chan = p.chan := by
  rw [msgsendProc]
  split
  · rfl
  · split <;> rfl

theorem updateTime_chan (p : Proc) : (updateTime p).chan = p.chan := by
  rw [updateTime]
  split <;> rfl

theorem reparentProc_chan (i initproc : Fin nproc) (p : Proc) :
    (reparentProc i initproc p).chan = p.chan := by
  rw [reparentProc]
  split <;> rfl

/-- What sleeps has slept before, or goes to sleep in this step. -/
theorem sleeping_of_step (h : step e s = some t) (ht : (t.proc j).state = .sleeping) :
    (s.proc j).state = .sleeping ∧ (t.proc j).chan = (s.proc j).chan ∧ t.kpc j = s.kpc j ∨
      ∃ call chan, s.At e j (.call call) ∧ t = s.sleep j chan call ∧ call.SleepsOn j chan ∧
        ¬ s.Ready j call := by
  by_cases hcall : ∃ call, s.At e j (.call call)
  · obtain ⟨call, hat⟩ := hcall
    obtain ⟨chan, hsleep⟩ := call_sleeps hat h ht
    exact .inr ⟨call, chan, hat, hsleep⟩
  · left
    simp only [not_exists] at hcall
    have hslot : (s.proc j).state = .sleeping ∧ (t.proc j).chan = (s.proc j).chan := by
      refine step_slot (I := fun p => p.state = .sleeping →
        (s.proc j).state = .sleeping ∧ p.chan = (s.proc j).chan) h (fun hs => ⟨hs, rfl⟩)
        (fun p q hp hm hq => ?_) ht
      have hrun : (s.proc j).state = .running → (s.proc j).state ≠ .sleeping := fun hj => by
        simp [hj]
      cases hm with
      | sleep _ hat => exact absurd hat (hcall _)
      -- who is woken does not sleep
      | wakeup chan =>
          have hsame := (wakeupProc_asleep hq).1
          rw [hsame] at hq ⊢
          exact hp hq
      | kill _ _ => exact absurd hq wake_asleep
      | sigsend _ _ _ =>
          have hsame := sigsendProc_asleep hq
          rw [hsame] at hq ⊢
          exact ⟨hq, rfl⟩
      -- the state and the channel are left alone
      | updateTime => exact ⟨by simpa using hq, updateTime_chan _⟩
      | reparent _ => exact ⟨by simpa using hq, reparentProc_chan _ _ _⟩
      | deliver _ _ _ _ _ => exact ⟨by simpa using hq, msgsendProc_chan _ _ _⟩
      | setpriority _ _ _ => exact ⟨hq, rfl⟩
      | link _ => exact ⟨hq, rfl⟩
      | regs _ hrunning => exact hp hq
      -- the process runs
      | fault hrunning => exact absurd hq (hrun hrunning)
      | tidy hat => exact absurd hq (hrun hat.running)
      | receive _ hat => exact absurd (by simpa using hq) (hrun hat.running)
      | sigalarm hat => exact absurd (by simpa using hq) (hrun hat.running)
      | sigreturn hat => exact absurd (by simpa using hq) (hrun hat.running)
      | signalcheck hat => exact absurd (by simpa using hq) (hrun hat.running)
      | signaltick _ hrunning => exact absurd (by simpa using hq) (hrun hrunning)
      | exec hcommit => exact absurd hq (hrun hcommit.running)
      | sbrk _ hat => exact absurd hq (hrun hat.running)
      | _ => cases hq
    refine ⟨hslot.1, hslot.2, kpc_of_step h ?_ ?_⟩ <;> simp [hslot.1]

/-! ## Places -/

theorem Proc.SamePlace.refl (q : Proc) : q.SamePlace q :=
  Proc.SameFamily.samePlace ⟨rfl, rfl, rfl, rfl⟩ rfl

theorem Proc.SamePlace.trans {q r r' : Proc} (h : q.SamePlace r) (h' : r.SamePlace r') :
    q.SamePlace r' where
  pid := h'.pid.trans h.pid
  parent := h'.parent.trans h.parent
  xstate := h'.xstate.trans h.xstate
  isThread := h'.isThread.trans h.isThread
  unused := h'.unused.trans h.unused
  used := h'.used.trans h.used
  zombie := h'.zombie.trans h.zombie

/-- What a wait may reap depends on the pid and the kind of the child. -/
theorem reaps_congr {q r : Proc} (hpid : r.pid = q.pid) (hthread : r.isThread = q.isThread) :
    call.Reaps r ↔ call.Reaps q := by
  cases call <;> simp [Call.Reaps, hpid, hthread]

theorem Proc.SameFamily.reaps {q r : Proc} (h : q.SameFamily r) :
    call.Reaps r ↔ call.Reaps q :=
  reaps_congr h.pid h.isThread

/-- A process is born, freed, or stays where it is, unless it exits. -/
theorem samePlace_of_step (hpending : s.Pending) (h : step e s = some t)
    (hexit : ∀ i status, ¬ s.At e i (.call (.exit status))) (j : Fin nproc) :
    (s.proc j).SamePlace (t.proc j) ∨
      (s.proc j).state ≠ .running ∧ (t.proc j).state ≠ .zombie := by
  refine step_tree (I := fun q => (s.proc j).SamePlace q ∨
    (s.proc j).state ≠ .running ∧ q.state ≠ .zombie) h (.inl (.refl _)) fun q r hq hm => ?_
  cases hm with
  | same hsame =>
      rcases hq with hq | ⟨hrun, hzombie⟩
      · exact .inl (hq.trans hsame)
      · exact .inr ⟨hrun, mt hsame.zombie.mp hzombie⟩
  | spawn _ _ hunused hused => exact .inr ⟨by simp [hunused], by simp [hused]⟩
  | abort hunused hunused' => exact .inr ⟨by simp [hunused], by simp [hunused']⟩
  | link hat =>
      have hused := hpending.link hat
      exact .inr ⟨by simp [hused], by simp [hused]⟩
  | ready hat => exact .inr ⟨by simp [hpending.ready hat], nofun⟩
  | reparent hat => exact absurd hat (hexit _ _)
  | exit hat _ => exact absurd hat (hexit _ _)
  | free _ _ _ hzombie => exact .inr ⟨by simp [hzombie], nofun⟩

theorem bootState_awake : (bootState.proc j).state ≠ .sleeping := by
  simp only [bootState, Function.update_apply]
  split
  · show ProcState.runnable ≠ .sleeping
    decide
  · show ProcState.unused ≠ .sleeping
    decide

end

end G20OsLab.Kernel
