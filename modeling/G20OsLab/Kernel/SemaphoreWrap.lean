/-
  G20OsLab.Kernel.SemaphoreWrap

  The value of a semaphore at `INT_MAX`.

  `ksem_init` turns a negative value away and `ksem_wait` blocks at 0 only, but
  `ksem_post` adds one without a look at the value.  A semaphore counts like an
  `int` that never wraps precisely as long as nobody posts at `INT_MAX`.
-/

import G20OsLab.Kernel.Semaphores

namespace G20OsLab.Kernel

/-! ## Values that fit -/

/-- A process that stands in a call of `sem_init` has fetched an `int`. -/
def Call.InitFits : Call → Prop
  | .semInit _ value => value ≤ intMax
  | _ => True

/-- What is between boot and a wrapped semaphore `k`: its value is that of an
    `int` counter, and so is the value of any `sem_init` under way. -/
structure SemFits (k : Fin nsem) (s : KState) : Prop where
  nonneg : 0 ≤ (s.semtable k).value
  le_max : (s.semtable k).value ≤ intMax
  init : ∀ {i call}, s.kpc i = .call call ∨ s.kpc i = .asleep call → call.InitFits

section

variable {s t : KState} {e : Event} {k : Fin nsem} {i : Fin nproc} {call : Call} {tf : Trapframe}

/-- An argument is an `int`. -/
theorem argint_le (tf : Trapframe) (n : Fin 3) : argint tf n ≤ intMax := by
  show intOfU64 _ ≤ intMax
  rw [intOfU64_eq, intMax]
  exact Int.le_sub_one_of_lt (Int.bmod_lt (by decide))

theorem forall_mem_ite {P : Call → Prop} {c : Prop} [Decidable c] {x : Option Call} (hcall : P call)
    (hx : ∀ a ∈ x, P a) : ∀ a ∈ (if c then some call else x), P a := by
  intro a ha
  split at ha
  · obtain rfl := Option.some.inj ha
    exact hcall
  · exact hx a ha

/-- `ksem_init` gets an `int` from every trap. -/
theorem decode_initFits : ∀ a ∈ decode tf, a.InitFits := by
  unfold decode
  -- one number after the other
  repeat' refine forall_mem_ite ?_ ?_
  all_goals
    first
      | trivial
      | exact argint_le tf 1
      | nofun

/-- `syscall` fetches the arguments. -/
theorem enter_initFits (hat : s.At e i .ecall) (h : step e s = some t)
    (hcall : t.kpc i = .call call) : call.InitFits := by
  obtain ⟨o, -, ho⟩ := hat.step h
  simp only [runSection, hat.2.2] at ho
  split at ho
  · obtain rfl := Option.some.inj ho
    rw [setKpc_kpc, Function.update_self] at hcall
    obtain rfl := Kpc.call.inj hcall
    trivial
  · obtain rfl := Option.some.inj ho
    rw [syscall] at hcall
    split at hcall
    · rename_i call' hdecode
      rw [setKpc_kpc, Function.update_self] at hcall
      obtain rfl := Kpc.call.inj hcall
      exact decode_initFits _ hdecode
    · rw [retInt_kpc_self] at hcall
      cases hcall

/-- So it does at every place a process comes to. -/
theorem initFits_of_step (hs : SemFits k s) (h : step e s = some t)
    (hcall : t.kpc i = .call call ∨ t.kpc i = .asleep call) : call.InitFits := by
  have hmove := (step_effect h).kpc i
  generalize hpc : t.kpc i = pc at hmove
  cases hmove with
  | stay => exact hs.init (hpc ▸ hcall)
  | enter hat => exact enter_initFits hat h (hcall.resolve_right (by simp [hpc]))
  | killed hat =>
      rw [hpc] at hcall
      obtain rfl := Kpc.call.inj (hcall.resolve_right nofun)
      trivial
  | resume hat =>
      rw [hpc] at hcall
      obtain rfl := Kpc.call.inj (hcall.resolve_right nofun)
      exact hs.init (.inr hat.2.2)
  | sleep hat =>
      rw [hpc] at hcall
      obtain rfl := Kpc.asleep.inj (hcall.resolve_left nofun)
      exact hs.init (.inl hat.2.2)
  | _ =>
      rw [hpc] at hcall
      obtain hcall | hcall := hcall <;> cases hcall

end

/-! ## Steps -/

/-- Event `e` treats semaphore `k` as a counter of `int`s that never wraps. -/
structure SemKept (k : Fin nsem) (s : KState) (e : Event) (t : KState) : Prop where
  nonneg : 0 ≤ (t.semtable k).value
  posted : ∀ {i semid}, returned s e t = some (i, .call (.semPost semid), 0) →
    semIndex semid = some k → (t.semtable k).value = (s.semtable k).value + 1
  waited : ∀ {i semid}, returned s e t = some (i, .call (.semWait semid), 0) →
    semIndex semid = some k → 0 < (s.semtable k).value
  full : ∀ {i semid}, s.At e i (.call (.semPost semid)) → semIndex semid = some k →
    (s.semtable k).used = true → (s.semtable k).value = intMax →
      returned s e t = some (i, .call (.semPost semid), u64OfInt (-1)) ∧
        t.semtable k = s.semtable k

/-- Event `e` keeps semaphore `k`, if it can happen. -/
def KeepsSem (k : Fin nsem) (s : KState) (e : Event) : Prop :=
  ∀ t, step e s = some t → SemKept k s e t

/-- Event `e` is not a post on semaphore `k` while its value is `INT_MAX`. -/
def NoPostAtMax (k : Fin nsem) (s : KState) (e : Event) : Prop :=
  ∀ i semid, s.At e i (.call (.semPost semid)) → semIndex semid = some k →
    (s.semtable k).used = true → (s.semtable k).value ≠ intMax

section

variable {s t : KState} {e : Event} {k : Fin nsem} {i : Fin nproc}

/-- A post at `INT_MAX` leaves a negative value. -/
theorem post_at_max {semid : Int} (hat : s.At e i (.call (.semPost semid)))
    (hk : semIndex semid = some k) (hused : (s.semtable k).used = true)
    (hmax : (s.semtable k).value = intMax) (h : step e s = some t) :
    (t.semtable k).value < 0 := by
  obtain ⟨o, -, ho⟩ := step_call hat h
  obtain rfl := Option.some.inj ho
  simp only [ksemPost, hk, hused, Bool.true_eq_false, if_false, hmax]
  rw [retInt_semtable, wakeup_semtable, setSem_semtable, Function.update_self]
  decide

/-- Below `INT_MAX` a post adds one. -/
theorem SemFits.wrapInt_post (hs : SemFits k s) (hmax : (s.semtable k).value ≠ intMax) :
    wrapInt ((s.semtable k).value + 1) = (s.semtable k).value + 1 := by
  have hnonneg := hs.nonneg
  have hle := hs.le_max
  exact wrapInt_eq (by rw [intMax]; omega) (by omega)

/-- Above 0 a wait takes one. -/
theorem SemFits.wrapInt_wait (hs : SemFits k s) :
    wrapInt ((s.semtable k).value - 1) = (s.semtable k).value - 1 := by
  have hnonneg := hs.nonneg
  have hle := hs.le_max
  exact wrapInt_eq (by rw [intMax]; omega) (by omega)

/-- Short of a post at `INT_MAX` the value stays one of an `int` counter. -/
theorem SemFits.tail (hs : SemFits k s) (hpost : NoPostAtMax k s e) (h : step e s = some t) :
    SemFits k t := by
  have hinit : ∀ {i call}, t.kpc i = .call call ∨ t.kpc i = .asleep call → call.InitFits :=
    initFits_of_step hs h
  have hnonneg := hs.nonneg
  have hle := hs.le_max
  have hchange := (step_effect h).semtable k
  generalize hsem : t.semtable k = sem at hchange
  cases hchange with
  | stay => exact ⟨hsem ▸ hnonneg, hsem ▸ hle, hinit⟩
  | init hat hk hvalue =>
      have hfits : Call.InitFits _ := hs.init (.inl hat.2.2)
      exact ⟨hsem ▸ hvalue, hsem ▸ hfits, hinit⟩
  | wait hat hk hused hvalue =>
      rw [hs.wrapInt_wait] at hsem
      refine ⟨?_, ?_, hinit⟩ <;> rw [hsem] <;> dsimp only <;> omega
  | post hat hk hused =>
      have hmax := hpost _ _ hat hk hused
      rw [hs.wrapInt_post hmax] at hsem
      refine ⟨?_, ?_, hinit⟩ <;> rw [hsem] <;> dsimp only <;> omega

/-- Any other step keeps the semaphore. -/
theorem SemFits.kept (hs : SemFits k s) (hpost : NoPostAtMax k s e) (h : step e s = some t) :
    SemKept k s e t where
  nonneg := (hs.tail hpost h).nonneg
  posted {i semid} hret hk := by
    have hat := (returned_eq_some h hret).1
    have hstep := step_semStep k h
    rw [semAction_returned hret, Call.semAction, if_pos hk] at hstep
    cases hstep with
    | post hused ht =>
        rw [ht]
        exact hs.wrapInt_post (hpost i semid hat hk hused)
  waited {i semid} hret hk := by
    have hstep := step_semStep k h
    rw [semAction_returned hret, Call.semAction, if_pos hk] at hstep
    cases hstep with
    | wait hused hvalue ht => exact lt_of_le_of_ne hs.nonneg hvalue.symm
  full {i semid} hat hk hused hmax := absurd hmax (hpost i semid hat hk hused)

theorem bootState_semFits : SemFits k bootState where
  nonneg := le_refl 0
  le_max := by
    show (0 : Int) ≤ intMax
    decide
  init {i call} hcall := by
    have hpc : bootState.kpc i = .user ∨ bootState.kpc i = .boot := by
      by_cases hi : i = initSlot
      · subst hi
        exact .inr rfl
      · left
        simp [bootState, hi]
    rcases hpc with hpc | hpc <;> rw [hpc] at hcall <;> rcases hcall with hcall | hcall <;>
      cases hcall

end

/-! ## Runs -/

/-- **The value never wraps.**  In every run, each step keeps semaphore `k` (a
    value never negative, one more after a post that returns 0, positive
    before a wait that returns 0, and a refused post at `INT_MAX`) precisely if
    there is no post at `INT_MAX`. -/
theorem semaphore_keeps_iff (k : Fin nsem) (es : List Event) :
    Lib.AllSteps step (KeepsSem k) es bootState ↔
      Lib.AllSteps step (NoPostAtMax k) es bootState := by
  refine Lib.allSteps_iff (I := SemFits k) ?_ (fun hs hpost h => hs.tail hpost h) bootState_semFits
  intro s e t hs h
  constructor
  · intro hkept i semid hat hk hused hmax
    have hnonneg := (hkept t h).nonneg
    have hneg := post_at_max hat hk hused hmax h
    omega
  · intro hpost t' h'
    exact hs.kept hpost h'

/-- The first process initialises semaphore 3 with `INT_MAX` and is about to
    post on it. -/
def fullEvents : List Event :=
  bootEvents ++ syscallEvents initSlot 29 3 2147483647 0 ++ returnEvents initSlot ++
    (syscallEvents initSlot 31 3 0 0).take 2

/-- The post returns 0 and the value is `INT_MIN`. -/
theorem semaphore_wraps :
    ¬ ∀ (k : Fin nsem) (es : List Event), Lib.AllSteps step (KeepsSem k) es bootState := by
  intro h
  have hrun := @Lib.runEvents_endState _ _ step bootState fullEvents (by decide +kernel)
  have hkeeps := (h ⟨3, by decide⟩ (fullEvents ++ [.run initSlot {}])).last hrun
    (Lib.step_endState (by decide +kernel))
  have hnonneg := (hkeeps _ (Lib.step_endState (by decide +kernel))).nonneg
  revert hnonneg
  decide +kernel

end G20OsLab.Kernel
