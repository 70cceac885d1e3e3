/-
  G20OsLab.Kernel.NoLostWakeup

  The lock operations keep the invariant of the locks, and so no wakeup is
  lost in any run (`no_lost_wakeup`).
-/

import G20OsLab.Kernel.Wakeups

namespace G20OsLab.Kernel

section

variable {s : LState} {i j p : Fin nproc} {call : Call} {base : KState} {place : Place}
variable {l lk : Lock}

@[simp] theorem move_base : (s.move i base place).base = base := rfl

@[simp] theorem move_place_self : (s.move i base place).place i = place :=
  Function.update_self ..

theorem move_place (hj : j ≠ i) : (s.move i base place).place j = s.place j :=
  Function.update_of_ne hj ..

/-! ## Locks -/

/-- A section begins with the lock of its call, and with no other. -/
theorem start_holds (hlock : call.lock = some lk) (h : (call.start lk).Holds i l) : l = lk := by
  cases call with
  | msgsend pid msg => exact h.trans (Option.some.inj hlock)
  | wait addr => exact h.trans (Option.some.inj hlock)
  | waitx rtime wtime => exact h.trans (Option.some.inj hlock)
  | join tid => exact h.trans (Option.some.inj hlock)
  | _ => exact h

/-- A lock that is taken was free. -/
theorem Micro.holds (hs : s.WakeInv) (h : Micro s i base place) (hl : place.Holds i l) :
    (s.place i).Holds i l ∨ s.Free l := by
  have hknows := hs.knows i
  cases h with
  | lock _ _ hlock hfree =>
      rw [start_holds hlock hl]
      exact .inr hfree
  | lockExit _ _ _ hfree =>
      obtain rfl : l = .wait := hl
      exact .inr hfree
  | fail htest =>
      obtain hi | ⟨k, found, hi, rfl⟩ := htest
      · exact .inl (by rw [hi]; exact hl)
      · exact .inl (by rw [hi]; exact hl)
  | @woken _ _ _ after hi _ =>
      rw [hi] at hknows ⊢
      cases after with
      | leave value => exact .inl hl
      -- back in a loop that has `wait_lock`
      | reparent k => exact .inl (hl.trans (Eq.symm hknows))
      | exit => exact .inl (hl.trans (Eq.symm hknows))
  | exitLock hi hfree =>
      rw [hi]
      exact hl.imp_right fun hproc => by rwa [hproc]
  | sleepLock hi hfree =>
      rw [hi]
      exact hl.imp_right fun hproc => by rwa [hproc]
  | die hi => exact .inl (by rw [hi]; exact .inr hl)
  | sleepRelease hi => exact .inl (by rw [hi]; exact .inr hl)
  | ret _ => exact hl.elim
  | dead _ => exact hl.elim
  | slept _ _ => exact hl.elim
  | init hi _ => exact .inl (by rw [hi]; exact hl)
  | take hi _ => exact .inl (by rw [hi]; exact hl)
  | post hi => exact .inl (by rw [hi]; exact hl)
  | noUnit hi _ _ => exact .inl (by rw [hi]; exact hl)
  | receive _ hi _ _ => exact .inl (by rw [hi]; exact hl)
  | noMail hi _ _ => exact .inl (by rw [hi]; exact hl)
  | send hi _ => exact .inl (by rw [hi]; exact hl)
  | noSend hi _ _ => exact .inl (by rw [hi]; exact hl)
  | reap hi _ => exact .inl (by rw [hi]; exact hl)
  | next hi _ _ _ => exact .inl (by rw [hi]; exact hl)
  | noChild hi _ _ _ => exact .inl (by rw [hi]; exact hl)
  | adopt hi _ => exact .inl (by rw [hi]; exact hl)
  | pass hi => exact .inl (by rw [hi]; exact hl)
  | wakeParent hi => exact .inl (by rw [hi]; exact hl)
  | wake hi _ _ => exact .inl (by rw [hi]; exact hl)
  | skip hi => exact .inl (by rw [hi]; exact hl)

/-- A lock that a step takes or keeps is held by nobody else. -/
theorem Micro.unique (hs : s.WakeInv) (h : Micro s i base place) (hl : place.Holds i l)
    (hj : (s.place j).Holds j l) : i = j := by
  rcases h.holds hs hl with hold | hfree
  · exact hs.unique hold hj
  · exact absurd hj (hfree j)

/-! ## Conditions -/

/-- A child exits, or is handed over, with a `wakeup` of its parent. -/
theorem Micro.exited (h : Micro s i base place) (hj : (s.move i base place).Exited p call j) :
    s.Exited p call j ∨ place.Wakes p call := by
  obtain ⟨⟨hparent, hreaps⟩, hgone⟩ := hj
  obtain ⟨hlock, hchan⟩ := reaps_wait (i := p) hreaps
  rw [move_base] at hparent hreaps
  cases h.slot j with
  | kept hp =>
      have hparent := hp.parent.symm.trans hparent
      have hchild : (s.base.proc j).parent = some p ∧ call.Reaps (s.base.proc j) :=
        ⟨hparent, hp.reaps.mp hreaps⟩
      rcases hgone with hzombie | hexiting
      · exact .inl ⟨hchild, .inl (hp.zombie.mp hzombie)⟩
      · by_cases hj : j = i
        · subst hj
          rw [move_place_self] at hexiting
          rcases h.exiting hexiting with hold | hplace
          · exact .inl ⟨hchild, .inr hold⟩
          · rw [hparent] at hplace
            exact .inr ⟨_, _, _, _, hplace, hlock, hchan, by omega⟩
        · rw [move_place hj] at hexiting
          exact .inl ⟨hchild, .inr hexiting⟩
  | freed _ hfreed =>
      rw [hfreed] at hparent
      cases hparent
  | adopted _ hadopted hplace =>
      rw [hadopted] at hparent
      obtain rfl := Option.some.inj hparent
      exact .inr ⟨_, _, _, _, hplace, hlock, hchan, by omega⟩
  | died hself hi hdied _ =>
      subst hself
      rw [hdied] at hparent hreaps
      have hexiting : (s.place j).Exiting := by rw [hi]; trivial
      refine .inl ⟨⟨hparent, ?_⟩, .inr hexiting⟩
      cases call <;> exact hreaps
  | slept hself _ _ hbase hplace =>
      subst hself
      rcases hgone with hzombie | hexiting
      · simp [hbase, KState.sleep, sleepOn] at hzombie
      · rw [move_place_self, hplace] at hexiting
        exact hexiting.elim

/-- Whoever makes a condition true starts a `wakeup`. -/
theorem Micro.ready (h : Micro s i base place) (hready : (s.move i base place).Ready p call) :
    s.Ready p call ∨ place.Wakes p call := by
  rw [LState.ready_iff] at hready
  rcases hready with ⟨semid, k, rfl, hk, hvalue⟩ | ⟨buf, rfl, hflag⟩ | ⟨j, hj⟩
  · rcases h.value hvalue with hvalue | hplace
    · exact .inl (.inl ⟨k, hk, hvalue⟩)
    · refine .inr ⟨_, _, _, _, hplace, ?_, ?_, by omega⟩
      · rw [Call.lock, hk, Option.map_some]
      · rw [Call.chan, hk, Option.map_some]
  · rcases h.flag hflag with hflag | hplace
    · exact .inl (.inl hflag)
    · exact .inr ⟨_, _, _, _, hplace, rfl, rfl, by omega⟩
  · exact (h.exited hj).imp_left fun hold => .inr ⟨j, hold⟩

/-! ## Sleepers -/

/-- Who waits has waited before, or has just let go of the condition lock. -/
theorem Micro.waiting (hs : s.WakeInv) (h : Micro s i base place)
    (hp : (s.move i base place).Waiting p call) : s.Waiting p call ∨ ¬ s.Ready p call := by
  rcases hp with ⟨hsleep, hpc⟩ | ⟨⟨chan, hplace⟩, hpc⟩
  · left
    rw [move_base] at hsleep hpc
    -- a process in a section cannot be the one that sleeps
    cases h.slot p with
    | kept hkept =>
        have hsleep := hkept.sleeping hsleep
        rcases h.kpc p with hsame | ⟨rfl, -, hidle, hdead, -⟩
        · exact .inl ⟨hsleep, hsame.symm.trans hpc⟩
        · have hrun := hs.running hidle hdead
          simp [hsleep] at hrun
    | freed _ hfreed =>
        rw [hfreed] at hsleep
        cases hsleep
    | adopted hi hadopted _ =>
        rw [hadopted] at hsleep
        rcases h.kpc p with hsame | ⟨rfl, -, hidle, hdead, -⟩
        · exact .inl ⟨hsleep, hsame.symm.trans hpc⟩
        · have hrun := hs.running hidle hdead
          rw [hsleep] at hrun
          cases hrun
    | died _ _ hdied _ =>
        rw [hdied] at hsleep
        cases hsleep
    | slept hself hi hpc' hbase _ =>
        subst hself
        rw [hbase, KState.sleep, setKpc_kpc, Function.update_self] at hpc
        obtain rfl := Kpc.asleep.inj hpc
        exact .inr ⟨⟨_, hi⟩, hpc'⟩
  · by_cases hp : p = i
    · subst hp
      rw [move_place_self] at hplace
      -- it released its lock in this step, and knew the condition false
      obtain ⟨lk, hi⟩ := h.of_released hplace
      have hknows := hs.knows p
      rw [hi] at hknows
      obtain ⟨call', hpc', -, -, hready⟩ := hknows
      rcases h.kpc p with hsame | ⟨-, hidle, -⟩
      · obtain rfl := Kpc.call.inj (hpc'.symm.trans (hsame.symm.trans hpc))
        exact .inr hready
      · rw [hplace] at hidle
        cases hidle
    · rw [move_place hp] at hplace
      rcases h.kpc p with hsame | ⟨hself, -⟩
      · exact .inl (.inr ⟨⟨chan, hplace⟩, hsame.symm.trans hpc⟩)
      · exact absurd hself hp

/-- A `wakeup` comes by the slot of who waits. -/
theorem Micro.wakes (hs : s.WakeInv) (h : Micro s i base place) (hwaiting : s.Waiting p call)
    (hstill : (s.move i base place).Waiting p call) (hwakes : (s.place j).Wakes p call) :
    ((s.move i base place).place j).Wakes p call := by
  by_cases hj : j = i
  · subst hj
    obtain ⟨lk, chan, k, after, hwaking, hlock, hchan, hk⟩ := hwakes
    -- a process that wakes others does not wait
    have hother : p ≠ j := by
      rintro rfl
      rcases hwaiting with ⟨hsleep, -⟩ | ⟨⟨chan', hplace⟩, -⟩
      · have hrun := hs.running (i := p) (by simp [hwaking]) (by simp [hwaking])
        simp [hsleep] at hrun
      · cases hwaking.symm.trans hplace
    rw [move_place_self]
    rcases h.of_waking hwaking with hdone | ⟨rfl, hslot⟩
    · omega
    · refine ⟨lk, chan, k + 1, after, rfl, hlock, hchan, ?_⟩
      rcases hslot with ⟨rfl, -⟩ | ⟨j', rfl, -, hfree, hbase⟩
      · omega
      -- at the slot itself the process is woken
      · have hne : j' ≠ p := by
          rintro rfl
          rcases hstill with ⟨hsleep, -⟩ | ⟨⟨chan', hplace⟩, -⟩
          · rw [move_base, hbase, setProc_proc, Function.update_self] at hsleep
            obtain ⟨hsame, hother⟩ := wakeupProc_asleep hsleep
            rw [hsame] at hsleep
            obtain ⟨call', chan', hpc', hchan', hsleeps⟩ := hs.slept hsleep
            rcases hwaiting with ⟨-, hpc⟩ | ⟨⟨_, hplace⟩, -⟩
            · obtain rfl := Kpc.asleep.inj (hpc.symm.trans hpc')
              rcases hsleeps with hsleeps | ⟨hnone, -⟩
              · rw [hchan] at hsleeps
                exact hother (hchan'.trans hsleeps.symm)
              · simp [hchan] at hnone
            · exact hfree j' (by rw [hplace]; exact rfl)
          -- on the way to sleep it has its lock
          · rw [move_place hother] at hplace
            exact hfree j' (by rw [hplace]; exact rfl)
        have hne : (j' : Nat) ≠ p := fun heq => hne (Fin.ext heq)
        omega
  · rwa [move_place hj]

/-! ## Places -/

/-- Who is exiting holds `wait_lock`. -/
theorem LState.WakeInv.exiting_holds (hs : s.WakeInv) (h : (s.place j).Exiting) :
    (s.place j).Holds j .wait := by
  have hknows := hs.knows j
  cases hplace : s.place j with
  | waking lk chan k after =>
      rw [hplace] at h hknows
      cases after with
      | exit => exact Eq.symm hknows
      | _ => exact h.elim
  | exit => exact rfl
  | dying => exact .inl rfl
  | _ =>
      rw [hplace] at h
      exact h.elim

/-- No one else starts a `wakeup` on the condition whose lock `p` holds. -/
theorem Micro.not_wakes (hs : s.WakeInv) (h : Micro s i base place) (hp : p ≠ i)
    (hlock : call.lock = some lk) (hl : (s.place p).Holds p lk) : ¬ place.Wakes p call := by
  rintro ⟨lk', chan, k, after, hwaking, hlock', -, -⟩
  obtain rfl := Option.some.inj (hlock.symm.trans hlock')
  exact hp (h.unique hs (by rw [hwaking]; exact rfl) hl).symm

/-- A step of one process leaves what the others know. -/
theorem Micro.knows_other (hs : s.WakeInv) (h : Micro s i base place) (hp : p ≠ i) :
    (s.move i base place).Knows p (s.place p) := by
  have hknows := hs.knows p
  have hkpc : base.kpc p = s.base.kpc p := by
    rcases h.kpc p with hsame | ⟨hself, -⟩
    · exact hsame
    · exact absurd hself hp
  -- a condition comes true under its lock only, which `p` holds
  have hready : ∀ {call lk}, call.lock = some lk → (s.place p).Holds p lk →
      (s.move i base place).Ready p call → s.Ready p call := fun hlock hl hready =>
    (h.ready hready).resolve_right (h.not_wakes hs hp hlock hl)
  cases hplace : s.place p with
  | held lk =>
      rw [hplace] at hknows
      obtain ⟨call, hpc, hlock⟩ := hknows
      exact ⟨call, hkpc.trans hpc, hlock⟩
  | scan k found =>
      have hl : (s.place p).Holds p .wait := by rw [hplace]; exact rfl
      rw [hplace] at hknows
      obtain ⟨call, hpc, hlock, hchan, hnone⟩ := hknows
      refine ⟨call, hkpc.trans hpc, hlock, hchan, ?_⟩
      intro j hj hparent hreaps hzombie
      -- a child that exits holds `wait_lock`, as the scan does
      rcases h.exited ⟨⟨hparent, hreaps⟩, .inl hzombie⟩ with ⟨⟨hparent, hreaps⟩, hgone⟩ | hwakes
      · rcases hgone with hzombie | hexiting
        · exact hnone j hj hparent hreaps hzombie
        · obtain rfl := hs.unique (hs.exiting_holds hexiting) hl
          simp [hplace, Place.Exiting] at hexiting
      · exact h.not_wakes hs hp hlock hl hwakes
  | sleep lk chan =>
      rw [hplace] at hknows hready
      obtain ⟨call, hpc, hlock, hchan, hnot⟩ := hknows
      exact ⟨call, hkpc.trans hpc, hlock, hchan, mt (hready hlock rfl) hnot⟩
  | sleepLocked lk chan =>
      rw [hplace] at hknows hready
      obtain ⟨call, hpc, hlock, hchan, hnot⟩ := hknows
      exact ⟨call, hkpc.trans hpc, hlock, hchan, mt (hready hlock (.inl rfl)) hnot⟩
  | sleepReleased chan =>
      rw [hplace] at hknows
      obtain ⟨call, hpc, hchan⟩ := hknows
      exact ⟨call, hkpc.trans hpc, hchan⟩
  | waking lk chan k after =>
      rw [hplace] at hknows
      cases after <;> exact hknows
  | _ => trivial

/-- What a process knows when it begins a section. -/
theorem start_knows (hpc : s.base.kpc i = .call call) (hlock : call.lock = some lk) :
    (s.move i s.base (call.start lk)).Knows i (call.start lk) := by
  cases call with
  | msgsend pid msg => exact ⟨_, hpc, rfl, .inr ⟨pid, msg, rfl⟩, by omega⟩
  | wait addr => exact ⟨_, hpc, rfl, .inl rfl, by omega⟩
  | waitx rtime wtime => exact ⟨_, hpc, rfl, .inl rfl, by omega⟩
  | join tid => exact ⟨_, hpc, rfl, .inl rfl, by omega⟩
  | _ => exact ⟨_, hpc, hlock⟩

/-- A scan that has come to the end has found nothing. -/
theorem LState.WakeInv.not_ready (hs : s.WakeInv) {k : Nat} {found : Bool}
    (hi : s.place i = .scan k found) (hpc : s.base.kpc i = .call call) (hk : nproc ≤ k)
    (hsend : ∀ pid msg, call ≠ .msgsend pid msg) :
    call.lock = some .wait ∧ call.chan i = some (.proc i) ∧ ¬ s.Ready i call := by
  have hknows := hs.knows i
  rw [hi] at hknows
  obtain ⟨call', hpc', hlock, hchan, hnone⟩ := hknows
  obtain rfl := Kpc.call.inj (hpc.symm.trans hpc')
  have hchan : call.chan i = some (.proc i) :=
    hchan.resolve_right fun ⟨pid, msg, hcall⟩ => hsend pid msg hcall
  refine ⟨hlock, hchan, ?_⟩
  intro hready
  rw [LState.ready_iff] at hready
  rcases hready with ⟨semid, k, rfl, hk, -⟩ | ⟨buf, rfl, -⟩ | ⟨j, ⟨hparent, hreaps⟩, hgone⟩
  · simp [Call.chan, hk] at hchan
  · simp [Call.chan] at hchan
  · rcases hgone with hzombie | hexiting
    · exact hnone j (by omega) hparent hreaps hzombie
    · have hl : (s.place i).Holds i .wait := by
        rw [hi]
        exact rfl
      obtain rfl := hs.unique (hs.exiting_holds hexiting) hl
      simp [hi, Place.Exiting] at hexiting

/-- What the process that moves knows after its step. -/
theorem Micro.knows_self (hs : s.WakeInv) (h : Micro s i base place) :
    (s.move i base place).Knows i place := by
  have hknows := hs.knows i
  -- the condition is the same while the process goes to sleep
  have hready : ∀ {call lk chan place'}, place' = .sleep lk chan ∨ place' = .sleepLocked lk chan →
      Micro s i s.base place' → ¬ s.Ready i call → ¬ (s.move i s.base place').Ready i call := by
    intro call lk chan place' hplace h hnot hready
    rcases h.ready hready with hready | ⟨_, _, _, _, hwaking, -⟩
    · exact hnot hready
    · rcases hplace with hplace | hplace <;> cases hwaking.symm.trans hplace
  cases h with
  | lock _ hpc hlock _ => exact start_knows hpc hlock
  | noUnit hi hpc hvalue =>
      have hsleep := Micro.noUnit hi hpc hvalue
      rw [hi] at hknows
      obtain ⟨call, hpc', hlock⟩ := hknows
      obtain rfl := Kpc.call.inj (hpc.symm.trans hpc')
      obtain ⟨k, hk, hkeq⟩ := Option.map_eq_some_iff.mp hlock
      obtain rfl := Lock.sem.inj hkeq
      refine ⟨_, hpc, hlock, by simp [Call.chan, hk], hready (.inl rfl) hsleep ?_⟩
      rintro (⟨k', hk', hvalue'⟩ | ⟨j, ⟨-, hreaps⟩, -⟩)
      · obtain rfl := Option.some.inj (hk.symm.trans hk')
        exact hvalue' hvalue
      · exact hreaps
  | noMail hi hpc hflag =>
      have hsleep := Micro.noMail hi hpc hflag
      refine ⟨_, hpc, rfl, rfl, hready (.inl rfl) hsleep ?_⟩
      rintro (hmail | ⟨j, ⟨-, hreaps⟩, -⟩)
      · exact absurd (hflag.symm.trans hmail) Bool.false_ne_true
      · exact hreaps
  | noChild hi hpc hk hsend =>
      obtain ⟨hlock, hchan, hnot⟩ := hs.not_ready hi hpc hk hsend
      exact ⟨_, hpc, hlock, hchan, hready (.inl rfl) (.noChild hi hpc hk hsend) hnot⟩
  | sleepLock hi hfree =>
      rw [hi] at hknows
      obtain ⟨call, hpc, hlock, hchan, hnot⟩ := hknows
      exact ⟨call, hpc, hlock, hchan, hready (.inr rfl) (.sleepLock hi hfree) hnot⟩
  | sleepRelease hi =>
      rw [hi] at hknows
      obtain ⟨call, hpc, -, hchan, -⟩ := hknows
      exact ⟨call, hpc, hchan⟩
  | @next call k found _ hi hpc hk hchild =>
      rw [hi] at hknows
      obtain ⟨call', hpc', hlock, hchan, hnone⟩ := hknows
      obtain rfl := Kpc.call.inj (hpc.symm.trans hpc')
      refine ⟨_, hpc, hlock, hchan, ?_⟩
      intro j hj hparent hreaps
      by_cases hjk : (j : Nat) = k
      · subst hjk
        exact hchild hparent hreaps
      · exact hnone j (by omega) hparent hreaps
  | @wake _ _ _ after hi _ _ =>
      rw [hi] at hknows
      cases after <;> exact hknows
  | @skip _ _ after hi =>
      rw [hi] at hknows
      cases after <;> exact hknows
  | @woken _ _ _ after _ _ => cases after <;> trivial
  | adopt _ _ => exact rfl
  | wakeParent _ => exact rfl
  | _ => trivial

/-! ## The invariant -/

/-- Every step keeps the marks of the processes that are being made. -/
theorem Micro.pending (hs : s.WakeInv) (h : Micro s i base place) : base.Pending := by
  have hchild : ∀ {i' j}, (base.kpc i').child = some j → (s.base.kpc i').child = some j := by
    intro i' j hpc
    rcases h.kpc i' with hsame | ⟨-, -, -, -, hnone⟩
    · rwa [hsame] at hpc
    · simp [hnone] at hpc
  refine ⟨fun {i' j} hpc => ?_, fun hpc hpc' => hs.pending.unique (hchild hpc) (hchild hpc')⟩
  have hused := hs.pending.used (hchild hpc)
  cases h.slot j with
  | kept hp => exact hp.used.mpr hused
  | freed hzombie _ => simp [hused] at hzombie
  | adopted _ hadopted _ =>
      rw [hadopted]
      exact hused
  | died hself hi _ _ =>
      subst hself
      have hrun := hs.running (i := j) (by simp [hi]) (by simp [hi])
      simp [hused] at hrun
  | slept hself hi _ _ _ =>
      subst hself
      have hrun := hs.running (i := j) (by simp [hi]) (by simp [hi])
      simp [hused] at hrun

/-- A process in a section is `RUNNING`. -/
theorem Micro.running (hs : s.WakeInv) (h : Micro s i base place)
    (hrun : (s.base.proc i).state = .running ∨ base = s.base ∧ place = .idle)
    (hp : (s.move i base place).place p ≠ .idle) (hdead : (s.move i base place).place p ≠ .dead) :
    (base.proc p).state = .running := by
  have hold : (s.base.proc p).state = .running := by
    by_cases hpi : p = i
    · subst hpi
      rw [move_place_self] at hp
      exact hrun.resolve_right fun hidle => hp hidle.2
    · rw [move_place hpi] at hp hdead
      exact hs.running hp hdead
  cases h.slot p with
  | kept hkept => exact hkept.running hold
  | freed hzombie _ => simp [hold] at hzombie
  | adopted _ hadopted _ =>
      rw [hadopted]
      exact hold
  | died hself _ _ hplace =>
      subst hself
      exact absurd (move_place_self.trans hplace) hdead
  | slept hself _ _ _ hplace =>
      subst hself
      exact absurd (move_place_self.trans hplace) hp

/-- A process that sleeps does so on the channel of its call. -/
theorem Micro.slept_chan (hs : s.WakeInv) (h : Micro s i base place)
    (hp : (base.proc p).state = .sleeping) : ∃ call chan, base.kpc p = .asleep call ∧
      (base.proc p).chan = some chan ∧ call.SleepsOn p chan := by
  have hkpc : (s.base.proc p).state = .sleeping → base.kpc p = s.base.kpc p := by
    intro hsleep
    rcases h.kpc p with hsame | ⟨rfl, -, hidle, hdead, -⟩
    · exact hsame
    · simp [hs.running hidle hdead] at hsleep
  cases h.slot p with
  | kept hkept =>
      have hold := hkept.sleeping hp
      rw [hkpc hold, hkept.chan]
      exact hs.slept hold
  | freed _ hfreed =>
      rw [hfreed] at hp
      cases hp
  | adopted _ hadopted _ =>
      rw [hadopted] at hp ⊢
      rw [hkpc hp]
      exact hs.slept hp
  | died _ _ hdied _ =>
      rw [hdied] at hp
      cases hp
  | @slept call chan hself hi hpc hbase _ =>
      subst hself
      have hknows := hs.knows p
      rw [hi] at hknows
      obtain ⟨call', hpc', hchan⟩ := hknows
      obtain rfl := Kpc.call.inj (hpc.symm.trans hpc')
      refine ⟨call, chan, ?_, ?_, .inl hchan⟩
      · simp [hbase, KState.sleep]
      · simp [hbase, KState.sleep, sleepOn]

/-- Every step of a process keeps the invariant. -/
theorem Micro.wakeInv (hs : s.WakeInv) (h : Micro s i base place)
    (hrun : (s.base.proc i).state = .running ∨ base = s.base ∧ place = .idle) :
    (s.move i base place).WakeInv where
  pending := h.pending hs
  running := h.running hs hrun
  unique {j j' l} hj hj' := by
    by_cases hi : j = i
    · subst hi
      by_cases hi' : j' = j
      · exact hi'.symm
      · rw [move_place_self] at hj
        rw [move_place hi'] at hj'
        exact h.unique hs hj hj'
    · rw [move_place hi] at hj
      by_cases hi' : j' = i
      · subst hi'
        rw [move_place_self] at hj'
        exact (h.unique hs hj' hj).symm
      · rw [move_place hi'] at hj'
        exact hs.unique hj hj'
  knows p := by
    by_cases hp : p = i
    · subst hp
      rw [move_place_self]
      exact h.knows_self hs
    · rw [move_place hp]
      exact h.knows_other hs hp
  slept := h.slept_chan hs
  woken {p call} hwaiting hready := by
    rcases h.ready hready with hready | hwakes
    · rcases h.waiting hs hwaiting with hold | hnot
      · obtain ⟨j, hj⟩ := hs.woken hold hready
        exact ⟨j, h.wakes hs hold hwaiting hj⟩
      · exact absurd hready hnot
    · exact ⟨i, by rwa [move_place_self]⟩

/-- Every step of the system keeps it. -/
theorem wakeInv_of_lstep {t : LState} {e : LEvent} (hs : s.WakeInv) (h : lstep e s = some t) :
    t.WakeInv := by
  cases lstep_cases h with
  | whole ev hwhole hstep hplace => exact (hwhole.quiet hs hstep hplace).wakeInv hs
  | slot hp hmail ht =>
      rw [ht]
      exact (LState.Quiet.of_slot hs hp hmail).wakeInv hs
  | micro hrun hmicro ht =>
      rw [ht]
      exact hmicro.wakeInv hs hrun

theorem bootState_wakeInv : (LState.quiet bootState).WakeInv where
  pending := bootState_pending
  running hi := absurd rfl hi
  unique hl := hl.elim
  knows _ := trivial
  slept hp := absurd hp bootState_awake
  woken hwaiting _ := by
    rcases hwaiting with ⟨hsleep, -⟩ | ⟨⟨chan, hplace⟩, -⟩
    · exact absurd hsleep bootState_awake
    · cases hplace

/-- The invariant holds in every reachable state. -/
theorem LReachable.wakeInv (h : LReachable s) : s.WakeInv :=
  h.invariant bootState_wakeInv fun ht _ hstep => wakeInv_of_lstep ht hstep

/-! ## No lost wakeup -/

/-- Who sleeps while the condition lock is free waits for what is not there. -/
theorem LReachable.not_ready (h : LReachable s) (hlock : call.lock = some lk) (hfree : s.Free lk)
    (hsleep : (s.base.proc p).state = .sleeping) (hpc : s.base.kpc p = .asleep call) :
    ¬ s.Ready p call := by
  intro hready
  obtain ⟨i, lk', chan, k, after, hwaking, hlock', -⟩ := h.wakeInv.woken (.inl ⟨hsleep, hpc⟩) hready
  obtain rfl := Option.some.inj (hlock.symm.trans hlock')
  exact hfree i (by rw [hwaking]; exact rfl)

/-- No process sleeps on a semaphore with a unit, on its full mailbox or in
    `kjoin` on a thread that has exited, except while the lock that orders the
    change and the wakeup is held. -/
theorem no_lost_wakeup (h : LReachable s) :
    (∀ k p, s.Free (.sem k) → 0 < (s.base.semtable k).value →
      ¬ ((s.base.proc p).state = .sleeping ∧ (s.base.proc p).chan = some (.sem k))) ∧
    (∀ p, s.Free .wait → (s.base.proc p).msgFlag = true →
      ¬ ((s.base.proc p).state = .sleeping ∧ (s.base.proc p).chan = some (.msgFlag p))) ∧
    ∀ p j tid, s.Free .wait → (s.base.proc j).parent = some p → (s.base.proc j).pid = tid →
      (s.base.proc j).isThread = true → (s.base.proc j).state = .zombie →
      ¬ ((s.base.proc p).state = .sleeping ∧ s.base.kpc p = .asleep (.join tid)) := by
  refine ⟨?_, ?_, ?_⟩
  · rintro k p hfree hvalue ⟨hsleep, hchan⟩
    obtain ⟨call, chan, hpc, hchan', hsleeps⟩ := h.wakeInv.slept hsleep
    obtain rfl := Option.some.inj (hchan.symm.trans hchan')
    rcases hsleeps with hsleeps | ⟨-, number, hnumber⟩
    · obtain ⟨semid, rfl, hk⟩ := chan_sem hsleeps
      have hlock : (Call.semWait semid).lock = some (.sem k) := by
        rw [Call.lock, hk, Option.map_some]
      exact h.not_ready hlock hfree hsleep hpc (.inl ⟨k, hk, by omega⟩)
    · cases hnumber
  · rintro p hfree hflag ⟨hsleep, hchan⟩
    obtain ⟨call, chan, hpc, hchan', hsleeps⟩ := h.wakeInv.slept hsleep
    obtain rfl := Option.some.inj (hchan.symm.trans hchan')
    rcases hsleeps with hsleeps | ⟨-, number, hnumber⟩
    · obtain ⟨-, buf, rfl⟩ := chan_msgFlag hsleeps
      exact h.not_ready rfl hfree hsleep hpc (.inl hflag)
    · cases hnumber
  · rintro p j tid hfree hparent htid hthread hzombie ⟨hsleep, hpc⟩
    have hready : s.base.Ready p (.join tid) := ⟨j, hparent, ⟨htid, hthread⟩, hzombie⟩
    exact h.not_ready rfl hfree hsleep hpc (.inl hready)

end

/-! ## Traces -/

/-- The state that a list of lock operations leads to from boot. -/
def lstateAfter (es : List LEvent) : LState := Lib.endState lstep es (LState.quiet bootState)

theorem LReachable.lstateAfter {es : List LEvent}
    (h : (Lib.runEvents lstep (fun _ _ => true) es (LState.quiet bootState)).isSome = true) :
    LReachable (lstateAfter es) :=
  Lib.Steps.endState (fun _ _ _ => trivial) h

/-- The first process executes a program that calls `msgrecv`, and goes to
    sleep one lock operation at a time. -/
def recvSleepEvents : List LEvent :=
  [.schedule initSlot, .run initSlot { exec := some ⟨0, 0x4000, 0x4000, 1⟩ },
    .trap initSlot (ecallRegs 28 0x100 0 0) .ecall] ++ List.replicate 6 (.run initSlot {})

theorem no_lost_wakeup_recvSleep :
    ((lstateAfter recvSleepEvents).Free .wait ∧
      ((lstateAfter recvSleepEvents).base.proc initSlot).state = .sleeping ∧
      ((lstateAfter recvSleepEvents).base.proc initSlot).chan = some (.msgFlag initSlot)) ∧
      ((lstateAfter recvSleepEvents).base.proc initSlot).msgFlag ≠ true := by
  have hsleep : (lstateAfter recvSleepEvents).Free .wait ∧
      ((lstateAfter recvSleepEvents).base.proc initSlot).state = .sleeping ∧
      ((lstateAfter recvSleepEvents).base.proc initSlot).chan = some (.msgFlag initSlot) := by
    decide +kernel
  have hreach : LReachable (lstateAfter recvSleepEvents) := .lstateAfter (by decide +kernel)
  have h := (no_lost_wakeup hreach).2.1
  exact ⟨hsleep, fun hflag => h initSlot hsleep.1 hflag hsleep.2⟩

end G20OsLab.Kernel
