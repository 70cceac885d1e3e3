/-
  G20OsLab.Kernel.Pending

  Children between allocation and their first `RUNNABLE`.

  `fork_with_priority` and `kclone` release the lock of the new process before
  they set its parent and its state.  In between the slot stays `USED` and
  belongs to one creator: no other call takes it for free, runs it or frees it.
-/

import G20OsLab.Kernel.Effect

namespace G20OsLab.Kernel

/-- The new process a creator has still to link or to make `RUNNABLE`. -/
def Kpc.child : Kpc → Option (Fin nproc)
  | .link child _ => some child
  | .ready child _ => some child
  | _ => none

/-- Every unfinished child is `USED` and has one creator. -/
structure KState.Pending (s : KState) : Prop where
  used : ∀ {i j}, (s.kpc i).child = some j → (s.proc j).state = .used
  unique : ∀ {i i' j}, (s.kpc i).child = some j → (s.kpc i').child = some j → i = i'

section

variable {s t : KState} {e : Event} {i i' j : Fin nproc} {o : Outcome} {pid : Int}

/-! ## The sections of a creator -/

/-- A section is taken by one process, at the place where it stands. -/
theorem KState.At.unique {pc pc' : Kpc} (h : s.At e i pc) (h' : s.At e i' pc') :
    i = i' ∧ pc = pc' := by
  obtain ⟨⟨o, rfl⟩, -, hpc⟩ := h
  obtain ⟨⟨o', ho'⟩, -, hpc'⟩ := h'
  obtain ⟨rfl, rfl⟩ := Event.run.inj ho'
  exact ⟨rfl, hpc.symm.trans hpc'⟩

/-- The step of a process at `pc` is its section. -/
theorem KState.At.step {pc : Kpc} (hat : s.At e i pc) (h : step e s = some t) :
    ∃ o, e = .run i o ∧ runSection s i o = some t := by
  obtain ⟨⟨o, rfl⟩, hrun, -⟩ := hat
  exact ⟨o, rfl, by simpa [Kernel.step, hrun] using h⟩

/-- The last step of `kfork` and `kclone` makes the child `RUNNABLE`. -/
theorem step_ready (hat : s.At e i (.ready j pid)) (h : step e s = some t) :
    t = (s.setProc j { s.proc j with state := .runnable }).retInt i pid := by
  obtain ⟨o, -, ho⟩ := hat.step h
  simpa [runSection, hat.2.2] using ho.symm

/-- A scan runs one slot at a time. -/
theorem step_scan {scan : Scan} {k : Nat} (hat : s.At e i (.scan scan k))
    (h : step e s = some t) : ∃ o, e = .run i o ∧ t = scanSection s i o scan k := by
  obtain ⟨o, he, ho⟩ := hat.step h
  exact ⟨o, he, by simpa [runSection, hat.2.2] using ho.symm⟩

/-- A call runs its section. -/
theorem step_call {call : Call} (hat : s.At e i (.call call)) (h : step e s = some t) :
    ∃ o, e = .run i o ∧ callSection s i o call = some t := by
  obtain ⟨o, he, ho⟩ := hat.step h
  exact ⟨o, he, by simpa [runSection, hat.2.2] using ho⟩

theorem scanSection_eq {scan : Scan} :
    scanSection s i o scan j = (scanAt s i j o scan).getD (s.setKpc i (.scan scan (j + 1))) := by
  rw [scanSection, dif_pos j.isLt]

/-- Where a scan stops it returns, or makes a child of an `UNUSED` slot. -/
theorem scanAt_cases {scan : Scan} (h : scanAt s i j o scan = some t) :
    (∃ result, t = s.setRet i j result) ∨
      ∃ child, (∀ p np : Proc, (child p np).state = np.state) ∧ t = spawn s i j o child := by
  unfold scanAt at h
  cases scan <;> simp only [Option.ite_none_right_eq_some, Option.some.injEq] at h
  case fork => refine .inr ⟨_, ?_, h.2.symm⟩; exact fun _ _ => rfl
  case clone => refine .inr ⟨_, ?_, h.2.symm⟩; exact fun _ _ => rfl
  all_goals exact .inl ⟨_, h.2.symm⟩

/-- A call that goes on to link a child has just allocated it. -/
theorem spawn_link {child : Proc → Proc → Proc} {j' : Fin nproc}
    (hchild : ∀ p np, (child p np).state = np.state)
    (h : (spawn s i j o child).kpc i = .link j' pid) :
    j' = j ∧ ((spawn s i j o child).proc j).state = .used := by
  simp only [spawn, allocproc] at h ⊢
  cases hpages : o.pagesOk with
  | false => simp [hpages] at h
  | true =>
      by_cases hcopy : o.copyOk = true
      · simp [hpages, hcopy, KState.setKpc] at h
        simp [hcopy, KState.setKpc, KState.setProc, hchild, allocInit, h.1]
      · simp [hpages, hcopy] at h

/-- A scan that comes to a link has a `USED` slot. -/
theorem scan_link {scan : Scan} {k : Nat} {j' : Fin nproc}
    (h : (scanSection s i o scan k).kpc i = .link j' pid) :
    ((scanSection s i o scan k).proc j').state = .used := by
  rw [scanSection] at h ⊢
  split at h
  · rename_i hk
    rw [dif_pos hk]
    cases hscan : scanAt s i ⟨k, hk⟩ o scan with
    | none => simp [hscan, KState.setKpc] at h
    | some t =>
        simp only [hscan, Option.getD_some] at h ⊢
        obtain ⟨result, rfl⟩ | ⟨child, hchild, rfl⟩ := scanAt_cases hscan
        · simp [KState.setRet] at h
        · obtain ⟨rfl, hused⟩ := spawn_link hchild h
          exact hused
  · simp at h

/-! ## The invariant -/

/-- A child of the next state is one of this state, or newly allocated. -/
theorem child_of_step (h : step e s = some t) (hj : (t.kpc i).child = some j) :
    (s.kpc i).child = some j ∨
      (∃ scan, s.At e i (.scan scan j)) ∧ (s.proc j).state = .unused ∧
        (t.proc j).state = .used := by
  have hcontrol := (step_effect h).kpc i
  generalize hpc : t.kpc i = pc at hcontrol hj
  cases hcontrol with
  | stay => exact .inl hj
  | link hat hunused =>
      cases hj
      obtain ⟨o, -, rfl⟩ := step_scan hat h
      exact .inr ⟨⟨_, hat⟩, hunused, scan_link hpc⟩
  | ready hat =>
      cases hj
      exact .inl (by simp [hat.2.2, Kpc.child])
  | _ => simp [Kpc.child] at hj

/-- A `USED` slot stays `USED` until its creator makes it `RUNNABLE`. -/
theorem used_of_step (h : step e s = some t) (hj : (s.proc j).state = .used)
    (hready : ∀ i pid, ¬ s.At e i (.ready j pid)) : (t.proc j).state = .used := by
  have hrun : ∀ pc, ¬ s.At e j pc := fun pc hat => by simp [hat.running] at hj
  refine step_slot (I := fun p => p.state = .used) h hj ?_
  intro p q hp hm
  cases hm with
  -- made in another state only
  | schedule hstate => simp [hp] at hstate
  | yield hstate => simp [hp] at hstate
  | abort _ _ _ hstate => simp [hp] at hstate
  | fork _ hstate => simp [hp] at hstate
  | clone _ hstate => simp [hp] at hstate
  | free _ _ _ hstate => simp [hp] at hstate
  | ready hat => exact absurd hat (hready _ _)
  -- made by a process to itself, when it runs
  | exit hat => exact absurd hat (hrun _)
  | sleep _ hat => exact absurd hat (hrun _)
  | receive _ hat => exact absurd hat (hrun _)
  | sigalarm hat => exact absurd hat (hrun _)
  | sigreturn hat => exact absurd hat (hrun _)
  | signalcheck hat => exact absurd hat (hrun _)
  | signaltick _ hstate => simp [hj] at hstate
  -- made by others, and no change of the state unless it is `SLEEPING`
  | wakeup chan =>
      simp [wakeupProc, wake, hp]
  | kill _ _ =>
      simp [killProc, wake, hp]
  | sigsend _ _ _ =>
      simp only [sigsendProc, wake]
      split <;> simp [hp]
  | updateTime => simpa using hp
  | reparent _ => simpa using hp
  | deliver _ _ _ _ _ => simpa using hp
  | _ => exact hp

/-- Every step keeps the marks of the slots that are being filled. -/
theorem step_pending (hs : s.Pending) (h : step e s = some t) : t.Pending where
  used {i j} hj := by
    rcases child_of_step h hj with hold | ⟨-, -, hused⟩
    · refine used_of_step h (hs.used hold) ?_
      intro i' pid hat
      -- the step that makes the child `RUNNABLE` is its creator's, which then has no child
      have hchild : (s.kpc i').child = some j := by simp [hat.2.2, Kpc.child]
      obtain rfl := hs.unique hold hchild
      rw [step_ready hat h] at hj
      simp [Kpc.child] at hj
    · exact hused
  unique {i i' j} hj hj' := by
    rcases child_of_step h hj with hold | ⟨⟨scan, hat⟩, hunused, -⟩
    · rcases child_of_step h hj' with hold' | ⟨-, hunused, -⟩
      · exact hs.unique hold hold'
      -- a slot that is someone's child is not free for another
      · simp [hs.used hold] at hunused
    · rcases child_of_step h hj' with hold' | ⟨⟨scan', hat'⟩, -, -⟩
      · simp [hs.used hold'] at hunused
      · exact (hat.unique hat').1

theorem KState.Pending.link (hs : s.Pending) (hat : s.At e i (.link j pid)) :
    (s.proc j).state = .used :=
  hs.used (i := i) (by rw [hat.2.2]; rfl)

theorem KState.Pending.ready (hs : s.Pending) (hat : s.At e i (.ready j pid)) :
    (s.proc j).state = .used :=
  hs.used (i := i) (by rw [hat.2.2]; rfl)

theorem bootState_pending : bootState.Pending where
  used {i j} hj := by
    simp only [bootState, Function.update_apply] at hj
    split at hj <;> simp [Kpc.child] at hj
  unique {i i' j} hj := by
    simp only [bootState, Function.update_apply] at hj
    split at hj <;> simp [Kpc.child] at hj

/-- The marks hold in every reachable state. -/
theorem ReachableBy.pending {P : KState → Event → Prop} (h : ReachableBy P s) : s.Pending :=
  h.invariant bootState_pending fun ht _ hstep => step_pending ht hstep

end

end G20OsLab.Kernel
