/-
  G20OsLab.Kernel.Semaphores

  The semaphores count exactly.

  Every section that a `ksem_` call returns 0 from is an action of an abstract
  semaphore (`Lib.semStep`), and no other section touches one: a waiter that
  was woken for whatever reason looks at the value again.
-/

import G20OsLab.Lib.Semaphore
import G20OsLab.Kernel.InitReaps
import G20OsLab.Kernel.Observe

namespace G20OsLab.Kernel

open Lib (SemAction SemHistory semStep)

/-! ## Actions -/

/-- What a call on semaphore `k` that has returned 0 has done; processes are
    named by pid. -/
def Call.semAction (call : Call) (k : Fin nsem) (pid : Int) : Option (SemAction Int) :=
  match call with
  | .semInit semid value => if semIndex semid = some k then some (.init value) else none
  | .semWait semid => if semIndex semid = some k then some (.wait pid) else none
  | .semPost semid => if semIndex semid = some k then some (.post pid) else none
  | _ => none

/-- The action on semaphore `k` that a step completes. -/
def semAction (k : Fin nsem) (s : KState) (e : Event) (t : KState) : Option (SemAction Int) :=
  match returned s e t with
  | some (i, .call call, v) => if v = 0 then call.semAction k (s.proc i).pid else none
  | _ => none

/-- The history of semaphore `k`. -/
def semNote (k : Fin nsem) (s : KState) (e : Event) (t : KState) (h : SemHistory Int) :
    SemHistory Int :=
  match semAction k s e t with
  | some a => h.add a
  | none => h

/-- The abstract semaphore. -/
def Ksem.counter (sem : Ksem) : Option Int := if sem.used then some sem.value else none

section

variable {s t : KState} {e : Event} {i : Fin nproc} {k : Fin nsem} {o : Outcome} {call : Call}

/-- A section that fails completes no action. -/
theorem semAction_failed (hat : s.At e i (.call call)) :
    semAction k s e (t.retInt i (-1)) = none := by
  rw [semAction, returned_retInt hat]
  exact if_neg (by decide)

/-- The call that returns 0 has done its action. -/
theorem semAction_returned (hret : returned s e t = some (i, .call call, 0)) :
    semAction k s e t = call.semAction k (s.proc i).pid := by
  rw [semAction, hret]
  exact if_pos rfl

/-- A call that returns 0 has done what it is for. -/
theorem semAction_done (hat : s.At e i (.call call)) :
    semAction k s e (t.retInt i 0) = call.semAction k (s.proc i).pid :=
  semAction_returned (returned_retInt hat)

/-- What a step does to semaphore `k`: the action it completes, if any. -/
inductive SemStep (s : KState) (k : Fin nsem) (t : KState) : Option (SemAction Int) → Prop
  | stay (hsame : t.semtable k = s.semtable k) : SemStep s k t none
  | init {value : Int} (hvalue : 0 ≤ value) (ht : t.semtable k = ⟨true, value⟩) :
      SemStep s k t (some (.init value))
  | wait {pid : Int} (hused : (s.semtable k).used = true) (hvalue : (s.semtable k).value ≠ 0)
      (ht : t.semtable k = { s.semtable k with value := wrapInt ((s.semtable k).value - 1) }) :
      SemStep s k t (some (.wait pid))
  | post {pid : Int} (hused : (s.semtable k).used = true)
      (ht : t.semtable k = { s.semtable k with value := wrapInt ((s.semtable k).value + 1) }) :
      SemStep s k t (some (.post pid))

/-- `ksem_init` sets the value, and nothing else does. -/
theorem ksemInit_semStep {semid value : Int} (hat : s.At e i (.call (.semInit semid value)))
    (ht : t = ksemInit s i semid value) : SemStep s k t (semAction k s e t) := by
  subst ht
  rw [ksemInit]
  split
  · rw [semAction_failed hat]
    exact .stay rfl
  · rename_i k' hk'
    split
    · rw [semAction_failed hat]
      exact .stay rfl
    · rename_i hvalue
      rw [semAction_done hat, Call.semAction, hk']
      by_cases hk : k = k'
      · subst hk
        rw [if_pos rfl]
        exact .init (by omega) (by simp)
      · rw [if_neg (by simpa using Ne.symm hk)]
        exact .stay (by simp [hk])

/-- `ksem_wait` takes one unit or none. -/
theorem ksemWait_semStep {semid : Int} (hat : s.At e i (.call (.semWait semid)))
    (ht : t = ksemWait s i semid) : SemStep s k t (semAction k s e t) := by
  subst ht
  rw [ksemWait]
  split
  · rw [semAction_failed hat]
    exact .stay rfl
  · rename_i k' hk'
    split
    · rw [semAction_failed hat]
      exact .stay rfl
    · rename_i hused
      split
      · rw [semAction, returned_none hat (by simp [KState.sleep])]
        exact .stay rfl
      · rename_i hvalue
        rw [semAction_done hat, Call.semAction, hk']
        by_cases hk : k = k'
        · subst hk
          rw [if_pos rfl]
          exact .wait (by simpa using hused) hvalue (by simp)
        · rw [if_neg (by simpa using Ne.symm hk)]
          exact .stay (by simp [hk])

/-- `ksem_post` gives one unit or none. -/
theorem ksemPost_semStep {semid : Int} (hat : s.At e i (.call (.semPost semid)))
    (ht : t = ksemPost s i semid) : SemStep s k t (semAction k s e t) := by
  subst ht
  rw [ksemPost]
  split
  · rw [semAction_failed hat]
    exact .stay rfl
  · rename_i k' hk'
    split
    · rw [semAction_failed hat]
      exact .stay rfl
    · rename_i hused
      rw [semAction_done hat, Call.semAction, hk']
      by_cases hk : k = k'
      · subst hk
        rw [if_pos rfl]
        exact .post (by simpa using hused) (by simp)
      · rw [if_neg (by simpa using Ne.symm hk)]
        exact .stay (by simp [hk])

/-- Every step is a step of the semaphore. -/
theorem step_semStep (k : Fin nsem) (h : step e s = some t) :
    SemStep s k t (semAction k s e t) := by
  by_cases hsem : ∃ i call, s.At e i (.call call) ∧ (call.semAction k (s.proc i).pid).isSome = true
  · obtain ⟨i, call, hat, hcall⟩ := hsem
    obtain ⟨o, -, ho⟩ := step_call hat h
    cases call with
    | semInit semid value => exact ksemInit_semStep hat (Option.some.inj ho).symm
    | semWait semid => exact ksemWait_semStep hat (Option.some.inj ho).symm
    | semPost semid => exact ksemPost_semStep hat (Option.some.inj ho).symm
    | _ => cases hcall
  · have hnone : semAction k s e t = none := by
      rw [semAction]
      split
      · rename_i i call v hret
        have hat := (returned_eq_some h hret).1
        split
        · cases haction : call.semAction k (s.proc i).pid with
          | none => rfl
          | some a => exact absurd ⟨i, call, hat, by rw [haction]; rfl⟩ hsem
        · rfl
      · rfl
    rw [hnone]
    -- the three calls are the only ones that change it
    have hchange := (step_effect h).semtable k
    generalize hsem' : t.semtable k = sem at hchange
    cases hchange with
    | stay => exact .stay hsem'
    | init hat hk _ => exact absurd ⟨_, _, hat, by simp [Call.semAction, hk]⟩ hsem
    | wait hat hk _ _ => exact absurd ⟨_, _, hat, by simp [Call.semAction, hk]⟩ hsem
    | post hat hk _ => exact absurd ⟨_, _, hat, by simp [Call.semAction, hk]⟩ hsem

/-! ## The abstract semaphore -/

/-- A wait that takes a unit counts it down. -/
theorem semStep_wait {pid : Int} (hused : (s.semtable k).used = true)
    (hpos : 0 < (s.semtable k).value) (hmax : (s.semtable k).value ≤ intMax)
    (ht : t.semtable k = { s.semtable k with value := wrapInt ((s.semtable k).value - 1) }) :
    semStep (.wait pid) (s.semtable k).counter = some (t.semtable k).counter := by
  have hwrap : wrapInt ((s.semtable k).value - 1) = (s.semtable k).value - 1 :=
    wrapInt_eq (by rw [intMax]; omega) (by omega)
  simp [ht, Ksem.counter, hused, semStep, hpos, hwrap]

/-- A post that fits counts it up. -/
theorem semStep_post {pid : Int} (hused : (s.semtable k).used = true)
    (hnonneg : 0 ≤ (s.semtable k).value) (hmax : (s.semtable k).value + 1 ≤ intMax)
    (ht : t.semtable k = { s.semtable k with value := wrapInt ((s.semtable k).value + 1) }) :
    semStep (.post pid) (s.semtable k).counter = some (t.semtable k).counter := by
  have hwrap : wrapInt ((s.semtable k).value + 1) = (s.semtable k).value + 1 :=
    wrapInt_eq (by rw [intMax]; omega) hmax
  simp [ht, Ksem.counter, hused, semStep, hwrap]

theorem Ksem.counter_of_used {sem : Ksem} (h : sem.used = true) : sem.counter = some sem.value := by
  rw [Ksem.counter, if_pos h]

/-- Initial value and posts together fit an `int`. -/
def PostsFit (h : SemHistory Int) : Prop := ∀ i, h.init = some i → i + h.posts ≤ intMax

variable {h : SemHistory Int} {a : Option (SemAction Int)}

/-- As long as the posts fit, the history counts the semaphore. -/
theorem counts_of_step (hs : PostsFit h → h.Counts (s.semtable k).counter) (hstep : SemStep s k t a)
    (hfit : PostsFit (a.elim h h.add)) : (a.elim h h.add).Counts (t.semtable k).counter := by
  cases hstep with
  | stay hsame =>
      rw [hsame]
      exact hs hfit
  | init hvalue ht =>
      rw [ht]
      exact SemHistory.Counts.init (h := h) hvalue
  | wait hused hvalue ht =>
      have hcounts := hs hfit
      have hcounter := Ksem.counter_of_used hused
      obtain ⟨i, hinit, heq, hnonneg⟩ := (hcounter ▸ hcounts).of_some
      have hmax := hfit i hinit
      simp only [Option.elim_some, SemHistory.add] at hmax
      exact hcounts.step (semStep_wait hused (by omega) (by omega) ht)
  | post hused ht =>
      have hcounts : h.Counts (s.semtable k).counter := hs fun i hinit => by
        have hmax := hfit i hinit
        simp only [Option.elim_some, SemHistory.add] at hmax
        push_cast at hmax
        omega
      have hcounter := Ksem.counter_of_used hused
      obtain ⟨i, hinit, heq, hnonneg⟩ := (hcounter ▸ hcounts).of_some
      have hmax := hfit i hinit
      simp only [Option.elim_some, SemHistory.add] at hmax
      push_cast at hmax
      exact hcounts.step (semStep_post hused hnonneg (by omega) ht)

/-- As long as nobody posts who is not inside, the semaphore guards its
    inside. -/
theorem guards_of_step (hmax : ∀ i, (a.elim h h.add).init = some i → i ≤ intMax)
    (hs : (∀ i, h.init = some i → i ≤ intMax) → h.Guards (s.semtable k).counter)
    (hpost : ∀ p, a = some (.post p) → p ∈ h.inside) (hstep : SemStep s k t a) :
    (a.elim h h.add).Guards (t.semtable k).counter := by
  cases hstep with
  | stay hsame =>
      rw [hsame]
      exact hs hmax
  | init hvalue ht =>
      rw [ht]
      exact SemHistory.Guards.init (h := h) hvalue
  | wait hused hvalue ht =>
      have hguards := hs hmax
      have hcounter := Ksem.counter_of_used hused
      obtain ⟨i, hinit, heq, hnonneg⟩ := (hcounter ▸ hguards).of_some
      have hi := hmax i hinit
      exact hguards.step (semStep_wait hused (by omega) (by omega) ht) nofun
  | @post pid hused ht =>
      have hguards := hs hmax
      have hcounter := Ksem.counter_of_used hused
      obtain ⟨i, hinit, heq, hnonneg⟩ := (hcounter ▸ hguards).of_some
      have hi := hmax i hinit
      have hinside := List.length_pos_of_mem (hpost pid rfl)
      refine hguards.step (semStep_post hused hnonneg (by omega) ht) ?_
      intro p hp
      exact hpost p (by rw [hp])

end

/-! ## Runs -/

/-- Whoever posts on semaphore `k` is inside. -/
def PostsInside (k : Fin nsem) (s : KState) (h : SemHistory Int) (e : Event) : Prop :=
  ∀ i semid, s.At e i (.call (.semPost semid)) → semIndex semid = some k →
    (s.semtable k).used = true → (s.proc i).pid ∈ h.inside

section

variable {s t : KState} {e : Event} {k : Fin nsem} {h : SemHistory Int}

theorem semNote_eq : semNote k s e t h = (semAction k s e t).elim h h.add := by
  rw [semNote]
  cases semAction k s e t <;> rfl

/-- A completed action is that of a call. -/
theorem semAction_call {a : SemAction Int} (hstep : step e s = some t)
    (ha : semAction k s e t = some a) :
    ∃ i call, s.At e i (.call call) ∧ call.semAction k (s.proc i).pid = some a := by
  rw [semAction] at ha
  split at ha
  · rename_i i call v hret
    rw [Option.ite_none_right_eq_some] at ha
    exact ⟨i, call, (returned_eq_some hstep hret).1, ha.2⟩
  · cases ha

/-- A process that posts has been inside. -/
theorem post_inside {pid : Int} (hP : PostsInside k s h e) (hstep : step e s = some t)
    (ha : semAction k s e t = some (.post pid)) : pid ∈ h.inside := by
  obtain ⟨i, call, hat, haction⟩ := semAction_call hstep ha
  have hsem := step_semStep k hstep
  rw [ha] at hsem
  cases hsem with
  | post hused _ =>
      cases call with
      | semPost semid =>
          simp only [Call.semAction, Option.ite_none_right_eq_some, Option.some.injEq,
            SemAction.post.injEq] at haction
          obtain ⟨hk, rfl⟩ := haction
          exact hP i semid hat hk hused
      | semInit semid value => simp [Call.semAction] at haction
      | semWait semid => simp [Call.semAction] at haction
      | _ => cases haction

/-- The count is exact in every recorded run in which it fits. -/
theorem recorded_counts (hs : Recorded (semNote k) .start s h) (hfit : PostsFit h) :
    h.Counts (s.semtable k).counter := by
  refine hs.invariant (I := fun s h => PostsFit h → h.Counts (s.semtable k).counter)
    (fun _ => .start) (fun _ hinv _ hstep hfit => ?_) hfit
  rw [semNote_eq] at hfit ⊢
  exact counts_of_step hinv (step_semStep k hstep) hfit

/-- At most as many are inside as the first value allows. -/
theorem recorded_guards (hs : RecordedBy (PostsInside k) (semNote k) .start s h)
    (hmax : ∀ i, h.init = some i → i ≤ intMax) : h.Guards (s.semtable k).counter := by
  refine hs.invariant (I := fun s h => (∀ i, h.init = some i → i ≤ intMax) →
    h.Guards (s.semtable k).counter) (fun _ => .start) (fun _ hinv hP hstep hmax => ?_) hmax
  rw [semNote_eq] at hmax ⊢
  exact guards_of_step hmax hinv (fun p hp => post_inside hP hstep hp) (step_semStep k hstep)

/-- As long as the posts fit, the value of an initialised semaphore is exactly
    the initial value with the posts and without the waits that have returned
    0, a wait returns 0 only where it takes one from a positive value, and a
    semaphore that starts at 1 lets one process inside. -/
theorem semaphore_counts (hs : Recorded (semNote k) .start s h) {i : Int} (hinit : h.init = some i)
    (hmax : i + h.posts ≤ intMax) :
    s.semtable k = ⟨true, i + h.posts - h.waits⟩ ∧ 0 ≤ i + h.posts - h.waits ∧
      (∀ e t p semid, step e s = some t →
        returned s e t = some (p, .call (.semWait semid), 0) → semIndex semid = some k →
          0 < (s.semtable k).value ∧ (t.semtable k).value = (s.semtable k).value - 1) ∧
      (i = 1 → RecordedBy (PostsInside k) (semNote k) .start s h → h.inside.length ≤ 1) := by
  have hcounts := recorded_counts hs fun j hj => by
    obtain rfl := Option.some.inj (hinit.symm.trans hj)
    exact hmax
  obtain ⟨hcounter, hnonneg⟩ := hcounts.value_eq hinit
  have hsem : s.semtable k = ⟨true, i + h.posts - h.waits⟩ := by
    simp only [Ksem.counter, Option.ite_none_right_eq_some, Option.some.injEq] at hcounter
    rw [← hcounter.1, ← hcounter.2]
  refine ⟨hsem, hnonneg, ?_, ?_⟩
  · intro e t p semid hstep hret hk
    have haction : semAction k s e t = some (.wait (s.proc p).pid) :=
      (semAction_returned hret).trans (if_pos hk)
    have hstep' := step_semStep k hstep
    rw [haction] at hstep'
    cases hstep' with
    | wait hused hvalue ht =>
        rw [hsem] at ht hvalue ⊢
        dsimp only at ht hvalue ⊢
        refine ⟨by omega, ?_⟩
        rw [ht]
        exact wrapInt_eq (by rw [intMax]; omega) (by omega)
  · intro hi hguarded
    subst hi
    have hguards := recorded_guards hguarded fun j hj => by
      obtain rfl := Option.some.inj (hinit.symm.trans hj)
      decide
    have hinside := hguards.inside_le hinit
    omega

end

/-- The first process initialises semaphore 3 with 1 and enters, its child waits
    until it posts, and then enters. -/
def handoverEvents : List Event :=
  forkChildEvents ++ syscallEvents initSlot 29 3 1 0 ++ returnEvents initSlot ++
    syscallEvents initSlot 30 3 0 0 ++ returnEvents initSlot ++ syscallEvents childSlot 30 3 0 0 ++
    syscallEvents initSlot 31 3 0 0 ++ returnEvents initSlot ++
    [.schedule childSlot, .run childSlot {}, .run childSlot {}]

/-- The semaphore after these events, and its history. -/
def handoverHistory : KState × SemHistory Int :=
  historyAfter (semNote ⟨3, by decide⟩) .start handoverEvents

theorem semaphore_counts_handover :
    handoverHistory.2.inside = [2] ∧ handoverHistory.1.semtable ⟨3, by decide⟩ = ⟨true, 0⟩ := by
  have hs : Recorded (semNote ⟨3, by decide⟩) .start handoverHistory.1 handoverHistory.2 :=
    Recorded.after (by decide +kernel)
  have hposts : handoverHistory.2.posts = 1 := by decide +kernel
  have hwaits : handoverHistory.2.waits = 2 := by decide +kernel
  have hvalue := (semaphore_counts hs (i := 1) (by decide +kernel) (by rw [hposts]; decide)).1
  rw [hposts, hwaits] at hvalue
  exact ⟨by decide +kernel, hvalue⟩

end G20OsLab.Kernel
