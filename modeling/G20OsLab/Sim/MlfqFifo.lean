/-
  G20OsLab.Sim.MlfqFifo

  The queues of MLFQ under every loop body of a tick.

  A dispatch takes the front of the first queue that has one
  (`mlfqPickNext_first`), the boost appends the lower queues to the top one
  (`mlfqTick_boosts`), everything else pushes one process that is in no queue.
  So no loop body takes an entry from behind another one or puts one before it
  (`FifoStep`).
-/

import G20OsLab.Lib.Fifo
import G20OsLab.Sim.MlfqWait

namespace G20OsLab.Sim

open Lib (FifoStep)

variable {n c : Nat}

/-! ## The boost -/

/-- `m'` is `m` with the two lower queues put behind the top one. -/
structure BoostMerges (m m' : MlfqState n) : Prop where
  top : (m'.queues 0).items = (m.queues 0).items ++ (m.queues 1).items ++ (m.queues 2).items
  level1 : (m'.queues 1).items = []
  level2 : (m'.queues 2).items = []

/-- The head of a lower queue goes to the end of the top one. -/
theorem mlfqBoostStep_moves (hn : n ≤ maxProcesses) {level : Nat} (hlevel : level ≠ 0)
    {sp : MlfqState n × ProcTable n} (h : BoostInv sp) {pid : Fin n} {rest : List (Fin n)}
    (hitems : (sp.1.queues level).items = pid :: rest) :
    ((mlfqBoostStep level sp.1 sp.2).1.queues 0).items = (sp.1.queues 0).items ++ [pid] ∧
      ((mlfqBoostStep level sp.1 sp.2).1.queues level).items = rest := by
  have hhome := ((h.family.mem_iff level pid).mp (by simp [hitems])).2
  have hroom : (sp.1.queues 0).items.length < maxProcesses := by
    apply length_lt_of_not_mem hn (h.family.nodup 0)
    intro hmem
    have hzero := ((h.family.mem_iff 0 pid).mp hmem).2
    omega
  rw [mlfqBoostStep, queuePop, hitems]
  dsimp only
  rw [Function.update_self, Function.update_of_ne hlevel, Function.update_self,
    Function.update_of_ne hlevel.symm, queuePush_of_lt hroom]
  exact ⟨rfl, rfl⟩

/-- Draining a lower queue appends it to the top one. -/
theorem mlfqDrain_appends (hn : n ≤ maxProcesses) {level : Nat} (hlevel : level ≠ 0) (fuel : Nat)
    {sp : MlfqState n × ProcTable n} (h : BoostInv sp)
    (hfuel : (sp.1.queues level).items.length ≤ fuel) :
    ((mlfqDrain level fuel sp).1.queues 0).items =
      (sp.1.queues 0).items ++ (sp.1.queues level).items := by
  induction fuel generalizing sp with
  | zero =>
      rw [List.eq_nil_of_length_eq_zero (Nat.le_zero.mp hfuel), List.append_nil]
      rfl
  | succ fuel ih =>
      rw [mlfqDrain]
      cases hitems : (sp.1.queues level).items with
      | nil => rw [if_neg (by simp), List.append_nil]
      | cons pid rest =>
          obtain ⟨htop, hrest⟩ := mlfqBoostStep_moves hn hlevel h hitems
          rw [hitems, List.length_cons] at hfuel
          rw [if_pos (by simp), ih (mlfqBoostStep_inv hn h level) (by rw [hrest]; omega), htop,
            hrest, List.append_assoc, List.singleton_append]

/-- The periodic tick, when a boost is due. -/
theorem mlfqTick_boosts (hn : n ≤ maxProcesses) {m : MlfqState n} {procs : ProcTable n}
    (h : BoostInv (m, procs)) {now : Int}
    (hdue : ¬ (now = 0 ∨ now - m.lastBoostTick < m.boostInterval)) :
    BoostMerges m (mlfqTick m procs now).1 ∧ (mlfqTick m procs now).1.lastBoostTick = now ∧
      ∀ l, 2 < l → (mlfqTick m procs now).1.queues l = m.queues l := by
  have h1 : BoostInv (mlfqBoostLevel 1 (m, procs)) := mlfqDrain_inv hn 1 _ h
  have htop1 : ((mlfqBoostLevel 1 (m, procs)).1.queues 0).items =
      (m.queues 0).items ++ (m.queues 1).items :=
    mlfqDrain_appends hn (by decide) _ h (Nat.le_refl _)
  have hlow1 : (mlfqBoostLevel 1 (m, procs)).1.queues 2 = m.queues 2 :=
    mlfqDrain_other (by decide) (by decide) _ _
  rw [mlfqTick, if_neg hdue]
  refine ⟨⟨?_, ?_, ?_⟩, rfl, ?_⟩
  · show ((mlfqBoostLevel 2 (mlfqBoostLevel 1 (m, procs))).1.queues 0).items = _
    rw [mlfqBoostLevel, mlfqDrain_appends hn (by decide) _ h1 (Nat.le_refl _), htop1, hlow1]
  · show ((mlfqBoostLevel 2 (mlfqBoostLevel 1 (m, procs))).1.queues 1).items = []
    rw [mlfqBoostLevel, mlfqDrain_other (by decide) (by decide)]
    exact mlfqDrain_empty (by decide) _ _ (Nat.le_refl _)
  · exact mlfqDrain_empty (by decide) _ _ (Nat.le_refl _)
  · intro l hl
    show (mlfqBoostLevel 2 (mlfqBoostLevel 1 (m, procs))).1.queues l = m.queues l
    rw [mlfqBoostLevel, mlfqDrain_other (by omega) (by omega), mlfqBoostLevel,
      mlfqDrain_other (by omega) (by omega)]

/-! ## The pick -/

/-- A pick takes the front of the first of the queues that has one. -/
theorem mlfqPickFrom_first {m m' : MlfqState n} {pid : Fin n} {levels : List Nat}
    (hlevels : levels.Pairwise (· < ·)) (h : mlfqPickFrom m levels = (some pid, m')) :
    ∃ l ∈ levels, ∃ rest, (m.queues l).items = pid :: rest ∧
      (∀ k ∈ levels, k < l → (m.queues k).items = []) ∧
      m'.queues = Function.update m.queues l { m.queues l with items := rest } := by
  induction levels with
  | nil => cases h
  | cons level levels ih =>
      obtain ⟨hfirst, hrest⟩ := List.pairwise_cons.mp hlevels
      rw [mlfqPickFrom] at h
      split at h
      · cases hitems : (m.queues level).items with
        | nil =>
            rw [queuePop, hitems] at h
            cases h
        | cons head rest =>
            rw [queuePop, hitems] at h
            obtain ⟨hhead, rfl⟩ := Prod.mk.inj h
            obtain rfl := Option.some.inj hhead
            refine ⟨level, List.mem_cons_self, rest, hitems, ?_, rfl⟩
            intro k hk hlt
            rcases List.mem_cons.mp hk with rfl | hk
            · omega
            · have := hfirst k hk
              omega
      · rename_i hempty
        obtain ⟨l, hl, rest, hitems, hlower, hqueues⟩ := ih hrest h
        refine ⟨l, List.mem_cons_of_mem _ hl, rest, hitems, ?_, hqueues⟩
        intro k hk hlt
        rcases List.mem_cons.mp hk with rfl | hk
        · exact List.eq_nil_of_length_eq_zero (by omega)
        · exact hlower k hk hlt

theorem mlfqPickNext_first {m m' : MlfqState n} {pid : Fin n}
    (h : mlfqPickNext m = (some pid, m')) :
    ∃ l rest, (m.queues l).items = pid :: rest ∧ (∀ k < l, (m.queues k).items = []) ∧
      m'.queues = Function.update m.queues l { m.queues l with items := rest } := by
  obtain ⟨l, hl, rest, hitems, hlower, hqueues⟩ := mlfqPickFrom_first (by decide) h
  refine ⟨l, rest, hitems, ?_, hqueues⟩
  intro k hk
  simp only [List.mem_cons, List.not_mem_nil, or_false] at hl
  exact hlower k (by simp only [List.mem_cons, List.not_mem_nil, or_false]; omega) hk

/-! ## First come, first served -/

/-- The entries of the ready queues. -/
def queueItems (s : SimState n c) (l : Nat) : List (Fin n) := (s.scheduler.queueAt l).items

theorem SimInv.not_queued {s : SimState n c} (h : SimInv s) {pid : Fin n}
    (hpid : (s.procs pid).state ≠ .ready) (l : Nat) : pid ∉ queueItems s l := by
  intro hmem
  exact hpid ((h.queues.mem_iff l pid).mp hmem).1

theorem enqueue_fifo {s : SimState n c} {pid : Fin n} (h : ∀ l, pid ∉ queueItems s l)
    (cpuHint now : Int) (reason : EnqueueReason) (l : Nat) :
    FifoStep (queueItems s l) (queueItems (s.enqueue pid cpuHint now reason) l) := by
  obtain ⟨home, -, hqueue⟩ := enqueueProcess_queueAt s.scheduler s.procs pid cpuHint now reason
  have hqueue' : (s.enqueue pid cpuHint now reason).scheduler.queueAt =
      Function.update s.scheduler.queueAt home (queuePush (s.scheduler.queueAt home) pid) := hqueue
  have hnew : queueItems (s.enqueue pid cpuHint now reason) l =
      (Function.update s.scheduler.queueAt home
        (queuePush (s.scheduler.queueAt home) pid) l).items := by
    rw [queueItems, hqueue']
  rw [hnew]
  by_cases hl : l = home
  · subst hl
    rw [Function.update_self, queuePush]
    split
    · exact .push (h l)
    · exact .refl _
  · rw [Function.update_of_ne hl]
    exact .refl _

theorem arrivalBody_fifo {s : SimState n c} (h : SimInv s) (tick : Nat) (i : Fin n) (l : Nat) :
    FifoStep (queueItems s l) (queueItems (arrivalBody tick i s) l) := by
  rw [arrivalBody]
  split
  · rename_i hnew
    apply enqueue_fifo
    exact h.not_queued (by simp [hnew.1])
  · exact .refl _

theorem ioBody_fifo {s : SimState n c} (h : SimInv s) (tick : Nat) (i : Fin n) (l : Nat) :
    FifoStep (queueItems s l) (queueItems (ioBody tick i s) l) := by
  rw [ioBody]
  dsimp only
  split
  · rename_i hblocked
    have hout : ∀ l, i ∉ queueItems s l := h.not_queued (by simp [hblocked])
    split
    · split
      · exact .refl _
      · exact enqueue_fifo (s := s.setProc i _) hout _ _ _ l
    · exact .refl _
  · exact .refl _

theorem executeBody_fifo {s : SimState n c} (h : SimInv s) (tick : Nat) (cpu : Fin c) (l : Nat) :
    FifoStep (queueItems s l) (queueItems (executeBody tick cpu s) l) := by
  rw [executeBody]
  split
  · exact .refl _
  · rename_i pid hcpu
    have hout : ∀ l, pid ∉ queueItems s l := h.not_queued (by simp [h.cpus.running hcpu])
    dsimp only
    split
    · exact .refl _
    · split
      · exact enqueue_fifo (s := SimState.setProc _ pid _) hout _ _ _ l
      · exact .refl _

/-- CPU `cpu` got the front of the first queue that has one. -/
structure Popped (tick : Nat) (cpu : Fin c) (s s' : SimState n c) (level : Nat) (pid : Fin n)
    (rest : List (Fin n)) : Prop where
  front : queueItems s level = pid :: rest
  lower : ∀ k < level, queueItems s k = []
  cpus : s'.cpus = Function.update s.cpus cpu ⟨some pid, 0⟩
  procs : s'.procs = Function.update s.procs pid (dispatchProc cpu tick (s.procs pid))
  queues : ∀ l, queueItems s' l = if l = level then rest else queueItems s l

/-- A dispatch under MLFQ. -/
theorem dispatchBody_mlfq {s : SimState n c} (ha : s.scheduler.algorithm = .mlfq) (tick : Nat)
    (cpu : Fin c) :
    ((dispatchBody tick cpu s).cpus = s.cpus ∧ (dispatchBody tick cpu s).procs = s.procs ∧
        queueItems (dispatchBody tick cpu s) = queueItems s) ∨
      ∃ level pid rest, Popped tick cpu s (dispatchBody tick cpu s) level pid rest := by
  have hitems : ∀ l, queueItems s l = (s.scheduler.mlfq.queues l).items := fun l => by
    rw [queueItems, queueAt_mlfq ha]
  rw [dispatchBody]
  split
  · exact .inl ⟨rfl, rfl, rfl⟩
  · have hpick : pickNextProcess s.scheduler s.procs cpu tick =
        ((mlfqPickNext s.scheduler.mlfq).1,
          { s.scheduler with mlfq := (mlfqPickNext s.scheduler.mlfq).2 }) := by
      simp [pickNextProcess, ha]
    rw [hpick]
    cases hnext : mlfqPickNext s.scheduler.mlfq with
    | mk picked m' =>
        cases picked with
        | none =>
            obtain rfl := (mlfqPickFrom_none hnext).1
            exact .inl ⟨rfl, rfl, rfl⟩
        | some pid =>
            obtain ⟨level, rest, hfront, hlower, hqueues⟩ := mlfqPickNext_first hnext
            refine .inr ⟨level, pid, rest, (hitems level).trans hfront, ?_, rfl, rfl, ?_⟩
            · intro k hk
              rw [hitems]
              exact hlower k hk
            · intro l
              rw [hitems, queueItems, setCpu_scheduler, setProc_scheduler,
                queueAt_mlfq (by exact ha)]
              dsimp only
              rw [hqueues, Function.update_apply]
              split <;> rfl

theorem dispatchBody_fifo {s : SimState n c} (ha : s.scheduler.algorithm = .mlfq) (tick : Nat)
    (cpu : Fin c) (l : Nat) :
    FifoStep (queueItems s l) (queueItems (dispatchBody tick cpu s) l) := by
  rcases dispatchBody_mlfq ha tick cpu with ⟨-, -, hsame⟩ | ⟨level, pid, rest, hpopped⟩
  · rw [hsame]
    exact .refl _
  · rw [hpopped.queues]
    split
    · rename_i hl
      rw [hl, hpopped.front]
      exact .pop pid rest
    · exact .refl _

/-- Under MLFQ the periodic tick is `mlfq_tick`. -/
theorem tickBody_mlfq {s : SimState n c} (ha : s.scheduler.algorithm = .mlfq) (tick : Nat) :
    (tickBody tick s).scheduler.mlfq = (mlfqTick s.scheduler.mlfq s.procs tick).1 := by
  rw [tickBody, schedulerTick, ha]

theorem tickBody_fifo (hn : n ≤ maxProcesses) {s : SimState n c} (h : SimInv s)
    (ha : s.scheduler.algorithm = .mlfq) (tick : Nat) (l : Nat) :
    FifoStep (queueItems s l) (queueItems (tickBody tick s) l) := by
  have hboost : BoostInv (s.scheduler.mlfq, s.procs) := (queueInv_iff_boostInv ha).mp h.queues
  have ha' : (tickBody tick s).scheduler.algorithm = .mlfq :=
    (schedulerTick_algorithm s.scheduler s.procs tick).trans ha
  rw [queueItems, queueItems, queueAt_mlfq ha, queueAt_mlfq ha', tickBody_mlfq ha]
  by_cases hdue : (tick : Int) = 0 ∨
      tick - s.scheduler.mlfq.lastBoostTick < s.scheduler.mlfq.boostInterval
  · rw [mlfqTick, if_pos hdue]
    exact .refl _
  · obtain ⟨hmerges, -, hother⟩ := mlfqTick_boosts hn hboost hdue
    rcases l with _ | _ | _ | l
    · rw [hmerges.top, List.append_assoc]
      apply FifoStep.of_append []
      -- no process is in two queues
      intro x hx hmem
      have hzero := ((hboost.family.mem_iff 0 x).mp hmem).2
      rcases List.mem_append.mp hx with hx | hx
      · have hone := ((hboost.family.mem_iff 1 x).mp hx).2
        omega
      · have htwo := ((hboost.family.mem_iff 2 x).mp hx).2
        omega
    · rw [hmerges.level1]
      exact .clear _
    · rw [hmerges.level2]
      exact .clear _
    · rw [hother (l + 3) (by omega)]
      exact .refl _

end G20OsLab.Sim
