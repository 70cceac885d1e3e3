/-
  G20OsLab.Sim.WorkConserving

  No CPU idles while a queue it serves holds a process.

  A pick returns nothing only where every queue the CPU serves is empty; for
  the lottery this needs the ticket sums to stay in the `int` range.  Queues
  only shrink during the dispatch loop, so what was empty then is empty in the
  row.
-/

import Mathlib.Algebra.Order.BigOperators.Group.Finset
import Mathlib.Algebra.Order.BigOperators.Group.List
import G20OsLab.Sim.Trajectory

namespace G20OsLab.Sim

variable {n c : Nat}

/-- `pick_next_process` looks at queue `l` on behalf of CPU `cpuId`. -/
def Serves (algorithm : AlgorithmKind) (cpuId l : Nat) : Prop :=
  match algorithm with
  | .mlfq | .lottery | .edf => True
  | .custom | .all => l = cpuId

/-- Under the lottery every process holds a ticket, and all tickets together
    fit an `int`. -/
def Drawable (algorithm : AlgorithmKind) (specs : Fin n → ProcessSpec) : Prop :=
  algorithm = .lottery → (∀ i, 1 ≤ (specs i).tickets) ∧ ∑ i, (specs i).tickets ≤ intMax

/-! ## The lottery -/

theorem wrap32_of_le {x : Int} (h0 : 0 ≤ x) (h : x ≤ intMax) : wrap32 x = x := by
  unfold wrap32
  rw [intMax] at h
  rw [Int.bmod_eq_of_le] <;> omega

theorem totalTickets_append (procs : ProcTable n) (items : List (Fin n)) (pid : Fin n) :
    totalTickets procs (items ++ [pid]) =
      wrap32 (totalTickets procs items + (procs pid).spec.tickets) := by
  simp [totalTickets]

/-- Below `INT_MAX` the ticket sum of a queue is the plain sum. -/
theorem totalTickets_eq {procs : ProcTable n} {items : List (Fin n)}
    (hpos : ∀ i ∈ items, 1 ≤ (procs i).spec.tickets)
    (hsum : (items.map fun i => (procs i).spec.tickets).sum ≤ intMax) :
    totalTickets procs items = (items.map fun i => (procs i).spec.tickets).sum := by
  -- no partial sum exceeds the whole, so none wraps
  induction items using List.reverseRecOn with
  | nil => rfl
  | append_singleton items pid ih =>
      rw [List.map_append, List.sum_append, List.map_singleton, List.sum_singleton] at hsum ⊢
      have hnonneg : 0 ≤ (items.map fun i => (procs i).spec.tickets).sum :=
        List.sum_nonneg fun t ht => by
          obtain ⟨i, hi, rfl⟩ := List.mem_map.mp ht
          exact (Int.zero_le_ofNat 1).trans (hpos i (List.mem_append_left _ hi))
      have hticket := hpos pid (List.mem_append_right _ (List.mem_singleton_self pid))
      have hrest := ih (fun i hi => hpos i (List.mem_append_left _ hi)) (by omega)
      rw [totalTickets_append, hrest, wrap32_of_le (by omega) hsum]

theorem tickets_le_total {specs : Fin n → ProcessSpec} {items : List (Fin n)}
    (hnodup : items.Nodup) (hpos : ∀ i, 1 ≤ (specs i).tickets) :
    (items.map fun i => (specs i).tickets).sum ≤ ∑ i, (specs i).tickets := by
  rw [← List.sum_toFinset _ hnodup]
  exact Finset.sum_le_sum_of_subset_of_nonneg (Finset.subset_univ _)
    fun i _ _ => (Int.zero_le_ofNat 1).trans (hpos i)

theorem lotteryFind_lt {procs : ProcTable n} {target running : Int} {i k : Nat}
    {items : List (Fin n)} (h : lotteryFind procs target i running items = some k) :
    k < i + items.length := by
  induction items generalizing i running with
  | nil => cases h
  | cons pid rest ih =>
      unfold lotteryFind at h
      dsimp only at h
      rw [List.length_cons]
      split at h
      · obtain rfl := Option.some.inj h
        omega
      · have hrest := ih h
        omega

/-- A drawable lottery refuses only an empty queue. -/
theorem lotteryPickNext_none {s s' : LotteryState n} {procs : ProcTable n}
    (hnodup : s.ready.items.Nodup) (hpos : ∀ i, 1 ≤ (procs i).spec.tickets)
    (hsum : ∑ i, (procs i).spec.tickets ≤ intMax)
    (h : lotteryPickNext s procs = (none, s')) : s.ready.items = [] := by
  have htotal : totalTickets procs s.ready.items =
      (s.ready.items.map fun i => (procs i).spec.tickets).sum :=
    totalTickets_eq (fun i _ => hpos i) ((tickets_le_total hnodup hpos).trans hsum)
  by_contra hne
  have hlength := List.length_pos_of_ne_nil hne
  -- with a ticket each, the total is positive
  have hge : (s.ready.items.length : Int) ≤ totalTickets procs s.ready.items := by
    have hcard := List.card_nsmul_le_sum (s.ready.items.map fun i => (procs i).spec.tickets) 1
      fun t ht => by
        obtain ⟨i, -, rfl⟩ := List.mem_map.mp ht
        exact hpos i
    rw [htotal]
    simpa using hcard
  rw [lotteryPickNext] at h
  dsimp only at h
  rw [if_neg (by omega)] at h
  simp only [Prod.mk.injEq] at h
  have hout := (queueRemoveAt_none (Prod.ext h.1 rfl)).2
  split at hout
  · rename_i k hfind
    have hk := lotteryFind_lt hfind
    omega
  · omega

/-! ## A pick without result -/

theorem pick_none_empty {s s' : SchedulerState n} {procs : ProcTable n} {cpuId : Nat} {now : Int}
    (hnodup : ∀ l, (s.queueAt l).items.Nodup)
    (hdraw : Drawable s.algorithm fun i => (procs i).spec)
    (h : pickNextProcess s procs cpuId now = (none, s')) {l : Nat}
    (hl : l < queueCount s.algorithm s.cpuCount) (hserves : Serves s.algorithm cpuId l) :
    (s.queueAt l).items = [] := by
  rw [pickNextProcess] at h
  unfold SchedulerState.queueAt at hnodup ⊢
  unfold Serves queueCount at *
  cases ha : s.algorithm with
  | mlfq =>
      simp only [ha, Prod.mk.injEq] at h hl
      -- all levels were tried
      have hempty := (mlfqPickFrom_none (Prod.ext h.1 rfl)).2 l
      exact hempty (by simp; omega)
  | lottery =>
      simp only [ha, Prod.mk.injEq] at h hl hnodup
      obtain rfl : l = 0 := Nat.lt_one_iff.mp hl
      -- the tickets are positive and do not wrap, so a draw finds a winner
      obtain ⟨hpos, hsum⟩ := hdraw ha
      have hempty := lotteryPickNext_none (by simpa using hnodup 0) hpos hsum (Prod.ext h.1 rfl)
      simpa using hempty
  | edf =>
      simp only [ha, Prod.mk.injEq] at h hl
      obtain rfl : l = 0 := Nat.lt_one_iff.mp hl
      -- an index that was found is inside the queue
      have hout := (queueRemoveAt_none (Prod.ext h.1 rfl)).2
      rw [edfBestIndex] at hout
      split at hout
      · rename_i k pid hscan
        have hget := (Lib.scanMin_spec hscan).1
        have hk := (List.getElem?_eq_some_iff.mp hget).1
        omega
      · rename_i hscan
        simpa using Lib.scanMin_eq_none_iff.mp hscan
  | custom | all =>
      simp only [ha, Prod.mk.injEq] at h hserves
      subst hserves
      have hpid := h.1
      rw [customPickNext] at hpid
      split at hpid
      · rename_i hscan
        simpa using Lib.scanMin_eq_none_iff.mp hscan
      · rename_i k pid hscan
        have hget := (Lib.scanMin_spec hscan).1
        have hk := (List.getElem?_eq_some_iff.mp hget).1
        have hout := (queueRemoveAt_none (Prod.ext hpid rfl)).2
        omega

/-! ## The dispatch loop -/

/-- The CPUs below `k` idle only over empty queues. -/
def ConservesBelow (k : Nat) (s : SimState n c) : Prop :=
  ∀ cpu : Fin c, cpu.val < k → (s.cpus cpu).runningPid = none →
    ∀ l < queueCount s.scheduler.algorithm s.scheduler.cpuCount,
      Serves s.scheduler.algorithm cpu l → (s.scheduler.queueAt l).items = []

theorem Picked.items_eq_nil {s s' : SchedulerState n} {pid : Fin n} (h : Picked s pid s') {l : Nat}
    (hempty : (s.queueAt l).items = []) : (s'.queueAt l).items = [] := by
  obtain ⟨k, rest, htaken, hqueue⟩ := h.taken
  rw [hqueue]
  by_cases hl : l = k
  · subst hl
    rw [Function.update_self, htaken.items, hempty]
    rfl
  · rw [Function.update_of_ne hl]
    exact hempty

theorem dispatchBody_conserves {tick : Nat} {s : SimState n c} (hinv : SimInv s)
    (hdraw : Drawable s.scheduler.algorithm fun i => (s.procs i).spec) (cpu : Fin c)
    (h : ConservesBelow cpu s) : ConservesBelow (cpu + 1) (dispatchBody tick cpu s) := by
  have hbelow : ∀ k : Fin c, k.val < cpu.val + 1 → k ≠ cpu → k.val < cpu.val := by
    intro k hk hne
    have hval : k.val ≠ cpu.val := fun he => hne (Fin.ext he)
    omega
  rw [dispatchBody]
  split
  · rename_i i hbusy
    intro k hk hidle
    refine h k (hbelow k hk ?_) hidle
    rintro rfl
    have hnone := hbusy.symm.trans hidle
    cases hnone
  · split
    -- the policy found nothing, so the queues it serves are empty
    · rename_i scheduler hpick
      have hnone := pick_none hpick
      intro k hk hidle l hl hserves
      dsimp only at hidle hl hserves ⊢
      rw [hnone.algorithm, hnone.cpuCount] at hl
      rw [hnone.algorithm] at hserves
      rw [hnone.queueAt]
      by_cases hkc : k = cpu
      · subst hkc
        exact pick_none_empty hinv.queues.family.nodup hdraw hpick hl hserves
      · exact h k (hbelow k hk hkc) hidle l hl hserves
    -- a pick only takes entries out, and its CPU is busy now
    · rename_i pid scheduler hpick
      have hsome := pick_some hinv.queues.family.nodup hpick
      intro k hk hidle l hl hserves
      have hkc : k ≠ cpu := by
        rintro rfl
        simp at hidle
      rw [setCpu_cpus, Function.update_of_ne hkc] at hidle
      rw [setCpu_scheduler, setProc_scheduler] at hl hserves ⊢
      dsimp only at hl hserves ⊢
      rw [hsome.algorithm, hsome.cpuCount] at hl
      rw [hsome.algorithm] at hserves
      exact hsome.items_eq_nil (h k (hbelow k hk hkc) hidle l hl hserves)

theorem dispatchBody_spec_eq (tick : Nat) (cpu : Fin c) (s : SimState n c) (i : Fin n) :
    ((dispatchBody tick cpu s).procs i).spec = (s.procs i).spec := by
  rw [dispatchBody]
  split
  · rfl
  · split
    · rfl
    · rename_i pid _ _
      rw [setCpu_procs, setProc_procs]
      by_cases hi : i = pid
      · subst hi
        rw [Function.update_self]
        rfl
      · rw [Function.update_of_ne hi]

/-- After the dispatch loop every CPU idles over empty queues only. -/
theorem preRecord_conserves {tick : Nat} {s : SimState n c} (hinv : SimInv (preDispatch tick s))
    (hdraw : Drawable (preDispatch tick s).scheduler.algorithm
      fun i => ((preDispatch tick s).procs i).spec) :
    ConservesBelow c (preRecord tick s) := by
  let I (k : Nat) (s' : SimState n c) : Prop :=
    (∀ i, (s'.procs i).spec = ((preDispatch tick s).procs i).spec) ∧ ConservesBelow k s'
  have hstart : I 0 (preDispatch tick s) :=
    ⟨fun _ => rfl, fun cpu hcpu => absurd hcpu (Nat.not_lt_zero _)⟩
  refine (preRecord_loop hinv I hstart ?_).2.2
  rintro cpu s' hs' ⟨hspecs, hconserves⟩
  have hdraw' : Drawable s'.scheduler.algorithm fun i => (s'.procs i).spec := by
    rw [hs'.spec.algorithm, funext hspecs]
    exact hdraw
  refine ⟨fun i => ?_, dispatchBody_conserves hs'.inv hdraw' cpu hconserves⟩
  rw [dispatchBody_spec_eq]
  exact hspecs i

/-! ## The rows of a run -/

section Run

variable {w : Workload} (config : SimulationConfig) (algorithm : AlgorithmKind)

theorem stateAt_algorithm (hn : w.processCount ≤ maxProcesses) (tick : Nat) :
    (stateAt w config algorithm tick).scheduler.algorithm = algorithm := by
  induction tick with
  | zero => exact schedulerInit_algorithm ..
  | succ tick ih =>
      rw [stateAt_succ, (tickStep_spec (recordAt_inv config algorithm hn tick)).algorithm]
      exact ((preRecord_spec (preDispatch_stateAt_inv config algorithm hn tick)).algorithm).trans
        ((preDispatch_outside ..).algorithm.trans ih)

theorem recordAt_algorithm (hn : w.processCount ≤ maxProcesses) (tick : Nat) :
    (recordAt w config algorithm tick).scheduler.algorithm = algorithm :=
  ((preRecord_spec (preDispatch_stateAt_inv config algorithm hn tick)).algorithm).trans
    ((preDispatch_outside ..).algorithm.trans (stateAt_algorithm config algorithm hn tick))

/-- In the row of a tick a CPU is idle only if every queue it serves is
    empty. -/
theorem recordAt_conserves (hn : w.processCount ≤ maxProcesses)
    (hdraw : Drawable algorithm w.processes) (tick : Nat) :
    ConservesBelow config.cpuCount (recordAt w config algorithm tick) := by
  apply preRecord_conserves (preDispatch_stateAt_inv config algorithm hn tick)
  have halg :
      (preDispatch tick (stateAt w config algorithm tick)).scheduler.algorithm = algorithm :=
    (preDispatch_outside ..).algorithm.trans (stateAt_algorithm config algorithm hn tick)
  have hspec : (fun i => ((preDispatch tick (stateAt w config algorithm tick)).procs i).spec) =
      w.processes := by
    funext i
    have hpre : (procBefore w config algorithm i tick).spec = w.processes i := by
      rw [(procAt_tick config algorithm hn i tick).before_spec, procAt_spec config algorithm hn]
    exact hpre
  rw [halg, hspec]
  exact hdraw

/-- While some process is `READY` in the row, some CPU is busy. -/
theorem exists_busy_of_ready (hn : w.processCount ≤ maxProcesses)
    (hdraw : Drawable algorithm w.processes) {tick : Nat} {i : Fin w.processCount}
    (hready : ((recordAt w config algorithm tick).procs i).state = .ready) :
    ∃ cpu j, ((recordAt w config algorithm tick).cpus cpu).runningPid = some j := by
  have hinv := recordAt_inv config algorithm hn tick
  obtain ⟨l, hl, -, hmem⟩ := hinv.queues.mem_queue hready
  have hserved : ∃ cpu : Fin config.cpuCount,
      Serves (recordAt w config algorithm tick).scheduler.algorithm cpu l := by
    unfold Serves
    rw [hinv.cpuCount] at hl
    unfold queueCount at hl
    cases ha : (recordAt w config algorithm tick).scheduler.algorithm with
    | mlfq | lottery | edf => exact ⟨⟨0, config.cpu_pos⟩, trivial⟩
    | custom | all =>
        rw [ha] at hl
        exact ⟨⟨l, hl⟩, rfl⟩
  obtain ⟨cpu, hcpu⟩ := hserved
  cases hidle : ((recordAt w config algorithm tick).cpus cpu).runningPid with
  | some j => exact ⟨cpu, j, hidle⟩
  | none =>
      have hempty := recordAt_conserves config algorithm hn hdraw tick cpu cpu.isLt hidle l hl hcpu
      rw [hempty] at hmem
      cases hmem

end Run

/-! ## The shared queues -/

/-- Under a policy all of whose queues serve every CPU, no CPU is idle in a
    row in which a process is `READY`. -/
theorem shared_queues_conserve (w : WfWorkload) (config : SimulationConfig)
    (algorithm : AlgorithmKind)
    (hshared : algorithm = .mlfq ∨ algorithm = .lottery ∨ algorithm = .edf)
    (htickets : ∀ i, 1 ≤ (w.processes i).tickets)
    (htotal : algorithm = .lottery → ∑ i, (w.processes i).tickets ≤ intMax) (tick : Nat)
    (hready : ∃ i, ((recordAt w.toWorkload config algorithm tick).procs i).state = .ready)
    (cpu : Fin config.cpuCount) :
    ∃ j, ((recordAt w.toWorkload config algorithm tick).cpus cpu).runningPid = some j := by
  obtain ⟨i, hi⟩ := hready
  obtain ⟨l, hl, -, hmem⟩ := (recordAt_inv config algorithm w.count_le tick).queues.mem_queue hi
  have hserves :
      Serves (recordAt w.toWorkload config algorithm tick).scheduler.algorithm cpu l := by
    rw [recordAt_algorithm config algorithm w.count_le]
    rcases hshared with rfl | rfl | rfl <;> trivial
  cases hidle : ((recordAt w.toWorkload config algorithm tick).cpus cpu).runningPid with
  | some j => exact ⟨j, rfl⟩
  | none =>
      -- an idle CPU has found the queue of the process empty
      have hconserves := recordAt_conserves config algorithm w.count_le
        (fun hlottery => ⟨htickets, htotal hlottery⟩) tick
      rw [hconserves cpu cpu.isLt hidle l hl hserves] at hmem
      cases hmem

/-- Two short processes on one CPU: the second is `READY` in the first row. -/
theorem shared_queues_conserve_shortJobs :
    ∃ j, ((recordAt (shortJobs 2 (by decide) (by decide)).toWorkload (oneCpu 5) .lottery 0).cpus
      ⟨0, by decide⟩).runningPid = some j :=
  shared_queues_conserve (shortJobs 2 (by decide) (by decide)) (oneCpu 5) .lottery
    (.inr (.inl rfl)) (fun _ => Int.le_refl 1) (fun _ => by decide) 0 (by decide +kernel)
    ⟨0, by decide⟩

end G20OsLab.Sim
