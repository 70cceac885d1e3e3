/-
  G20OsLab.Sim.Slices

  From one row of the timeline to the next.

  A process left `READY` in two rows in a row has waited in between, in the
  place where it was queued (`Waits`, `QueuedAt`): nothing but the periodic
  tick of the policy and a dispatch takes an entry out of a queue.  A busy CPU
  has the same process one tick further into its slice, or it is idle when the
  dispatch loop gets to it (`sliceLeft`).
-/

import G20OsLab.Sim.WorkConserving

namespace G20OsLab.Sim

open Lib (forLoop forLoop_inv forLoop_preserves)

variable {n c : Nat}

/-! ## Entries of the ready queues -/

/-- `q` is entry `k` of queue `l`. -/
def QueuedAt (s : SchedulerState n) (l k : Nat) (q : Fin n) : Prop :=
  (s.queueAt l).items[k]? = some q

theorem QueuedAt.mem {s : SchedulerState n} {l k : Nat} {q : Fin n} (h : QueuedAt s l k q) :
    q ∈ (s.queueAt l).items := List.mem_of_getElem? h

theorem exists_queuedAt {s : SchedulerState n} {l : Nat} {q : Fin n}
    (h : q ∈ (s.queueAt l).items) : ∃ k, QueuedAt s l k q := List.getElem?_of_mem h

/-- A queue without repetitions is no longer than the table. -/
theorem QueueInv.entry_lt {s : SchedulerState n} {procs : ProcTable n} (h : QueueInv s procs)
    {l k : Nat} {q : Fin n} (hq : QueuedAt s l k q) : k < n := by
  have hk : k < (s.queueAt l).items.length := (List.getElem?_eq_some_iff.mp hq).1
  have hcard := (h.family.nodup l).length_le_card
  rw [Fintype.card_fin] at hcard
  omega

/-- A push keeps the entries. -/
theorem queuePush_entry {queue : ReadyQueue n} {pid q : Fin n} {k : Nat}
    (h : queue.items[k]? = some q) : (queuePush queue pid).items[k]? = some q := by
  rw [queuePush]
  split
  · rw [List.getElem?_append_left (List.getElem?_eq_some_iff.mp h).1]
    exact h
  · exact h

/-- An enqueue moves no entry. -/
theorem enqueue_queuedAt {s : SimState n c} {l k : Nat} {q : Fin n}
    (h : QueuedAt s.scheduler l k q) (pid : Fin n) (cpuHint now : Int) (reason : EnqueueReason) :
    QueuedAt (s.enqueue pid cpuHint now reason).scheduler l k q := by
  obtain ⟨home, -, hqueue⟩ := enqueueProcess_queueAt s.scheduler s.procs pid cpuHint now reason
  have hqueue' : (s.enqueue pid cpuHint now reason).scheduler.queueAt =
      Function.update s.scheduler.queueAt home (queuePush (s.scheduler.queueAt home) pid) := hqueue
  rw [QueuedAt, hqueue']
  by_cases hl : l = home
  · subst hl
    rw [Function.update_self]
    exact queuePush_entry h
  · rw [Function.update_of_ne hl]
    exact h

/-- An arrival keeps the entries. -/
theorem arrivalBody_queuedAt (tick : Nat) (i : Fin n) {s : SimState n c} {l k : Nat} {q : Fin n}
    (h : QueuedAt s.scheduler l k q) : QueuedAt (arrivalBody tick i s).scheduler l k q := by
  rw [arrivalBody]
  split
  · exact enqueue_queuedAt h ..
  · exact h

/-- The end of an I/O burst keeps them. -/
theorem ioBody_queuedAt (tick : Nat) (i : Fin n) {s : SimState n c} {l k : Nat} {q : Fin n}
    (h : QueuedAt s.scheduler l k q) : QueuedAt (ioBody tick i s).scheduler l k q := by
  rw [ioBody]
  dsimp only
  split
  · split
    · split
      · exact h
      · apply enqueue_queuedAt
        exact h
    · exact h
  · exact h

/-- An execution keeps them. -/
theorem executeBody_queuedAt (tick : Nat) (cpu : Fin c) {s : SimState n c} {l k : Nat} {q : Fin n}
    (h : QueuedAt s.scheduler l k q) : QueuedAt (executeBody tick cpu s).scheduler l k q := by
  rw [executeBody]
  split
  · exact h
  · dsimp only
    split
    · exact h
    · split
      · rw [setCpu_scheduler]
        apply enqueue_queuedAt
        exact h
      · exact h

/-! ## The counters of the periodic ticks -/

/-- When the periodic ticks last acted, and how often they may. -/
structure Clocks where
  boostInterval : Int
  lastBoostTick : Int
  stealInterval : Int
  lastStealTick : Int
  imbalanceThreshold : Int

def SchedulerState.clocks (s : SchedulerState n) : Clocks :=
  ⟨s.mlfq.boostInterval, s.mlfq.lastBoostTick, s.custom.stealInterval, s.custom.lastStealTick,
    s.custom.imbalanceThreshold⟩

theorem enqueueProcess_clocks (s : SchedulerState n) (procs : ProcTable n) (pid : Fin n)
    (cpuHint now : Int) (reason : EnqueueReason) :
    (enqueueProcess s procs pid cpuHint now reason).1.clocks = s.clocks := by
  rw [enqueueProcess]
  cases s.algorithm <;> rfl

@[simp] theorem enqueue_clocks (s : SimState n c) (pid : Fin n) (cpuHint now : Int)
    (reason : EnqueueReason) :
    (s.enqueue pid cpuHint now reason).scheduler.clocks = s.scheduler.clocks :=
  enqueueProcess_clocks ..

theorem mlfqPickFrom_clocks (m : MlfqState n) (levels : List Nat) :
    (mlfqPickFrom m levels).2.boostInterval = m.boostInterval ∧
      (mlfqPickFrom m levels).2.lastBoostTick = m.lastBoostTick := by
  induction levels with
  | nil => exact ⟨rfl, rfl⟩
  | cons level levels ih =>
      rw [mlfqPickFrom]
      split
      · exact ⟨rfl, rfl⟩
      · exact ih

/-- A pick leaves the clocks. -/
theorem pickNextProcess_clocks (s : SchedulerState n) (procs : ProcTable n) (cpuId : Nat)
    (now : Int) : (pickNextProcess s procs cpuId now).2.clocks = s.clocks := by
  rw [pickNextProcess]
  cases s.algorithm with
  | mlfq =>
      obtain ⟨hinterval, hlast⟩ := mlfqPickFrom_clocks s.mlfq [0, 1, 2]
      simp only [SchedulerState.clocks, mlfqPickNext, hinterval, hlast]
  | lottery | edf => rfl
  | custom | all =>
      dsimp only
      rw [customPickNext]
      split <;> rfl

theorem arrivalBody_clocks (tick : Nat) (i : Fin n) (s : SimState n c) :
    (arrivalBody tick i s).scheduler.clocks = s.scheduler.clocks := by
  rw [arrivalBody]
  split
  · exact enqueue_clocks ..
  · rfl

theorem ioBody_clocks (tick : Nat) (i : Fin n) (s : SimState n c) :
    (ioBody tick i s).scheduler.clocks = s.scheduler.clocks := by
  rw [ioBody]
  dsimp only
  split
  · split
    · split
      · rfl
      · rw [enqueue_clocks]
        rfl
    · rfl
  · rfl

theorem dispatchBody_clocks (tick : Nat) (cpu : Fin c) (s : SimState n c) :
    (dispatchBody tick cpu s).scheduler.clocks = s.scheduler.clocks := by
  have hpick := pickNextProcess_clocks s.scheduler s.procs cpu tick
  rw [dispatchBody]
  split
  · rfl
  · split
    · rename_i scheduler hnone
      rw [hnone] at hpick
      exact hpick
    · rename_i pid scheduler hsome
      rw [hsome] at hpick
      exact hpick

theorem executeBody_clocks (tick : Nat) (cpu : Fin c) (s : SimState n c) :
    (executeBody tick cpu s).scheduler.clocks = s.scheduler.clocks := by
  rw [executeBody]
  split
  · rfl
  · dsimp only
    split
    · rfl
    · split
      · rw [setCpu_scheduler, enqueue_clocks]
        rfl
      · rfl

/-! ## The call of `scheduler_tick` -/

/-- The state in which `scheduler_tick` is called. -/
def beforeTick (tick : Nat) (s : SimState n c) : SimState n c :=
  forLoop n (ioBody tick) (forLoop n (arrivalBody tick) s)

/-- What every iteration of the arrival phase and of the IO phase keeps. -/
theorem beforeTick_preserves {tick : Nat} {s : SimState n c} (P : SimState n c → Prop) (h : P s)
    (harrive : ∀ i s', P s' → P (arrivalBody tick i s'))
    (hio : ∀ i s', P s' → P (ioBody tick i s')) : P (beforeTick tick s) :=
  forLoop_preserves P (forLoop_preserves P h harrive) hio

theorem beforeTick_inv {s : SimState n c} (hn : n ≤ maxProcesses) (hc : 0 < c) (h : SimInv s)
    (tick : Nat) : SimInv (beforeTick tick s) := by
  apply beforeTick_preserves SimInv h
  · intro i s' h'
    exact arrivalBody_inv hn hc h' tick i
  · intro i s' h'
    exact ioBody_inv hn hc h' tick i

/-- The phases before the tick of the scheduler keep the entries. -/
theorem beforeTick_queuedAt (tick : Nat) {s : SimState n c} {l k : Nat} {q : Fin n}
    (h : QueuedAt s.scheduler l k q) : QueuedAt (beforeTick tick s).scheduler l k q := by
  apply beforeTick_preserves (fun s' => QueuedAt s'.scheduler l k q) h
  · intro i s' h'
    exact arrivalBody_queuedAt tick i h'
  · intro i s' h'
    exact ioBody_queuedAt tick i h'

theorem beforeTick_clocks (tick : Nat) (s : SimState n c) :
    (beforeTick tick s).scheduler.clocks = s.scheduler.clocks := by
  apply beforeTick_preserves (fun s' => s'.scheduler.clocks = s.scheduler.clocks) rfl
  · intro i s' h'
    exact (arrivalBody_clocks tick i s').trans h'
  · intro i s' h'
    exact (ioBody_clocks tick i s').trans h'

theorem beforeTick_outside (tick : Nat) (s : SimState n c) :
    SameOutside s (beforeTick tick s) :=
  ((arrivalBody_actsOn tick).loop_outside s).trans
    ((ioBody_actsOn tick).loop_outside (forLoop n (arrivalBody tick) s))

/-- A process that is neither `NEW` nor `BLOCKED` takes no part in it. -/
theorem beforeTick_procs {tick : Nat} {s : SimState n c} {i : Fin n}
    (hnew : (s.procs i).state ≠ .new) (hblocked : (s.procs i).state ≠ .blocked) :
    (beforeTick tick s).procs i = s.procs i := by
  have harrive : (forLoop n (arrivalBody tick) s).procs i = s.procs i := by
    apply (arrivalBody_actsOn tick).loop_same
    intro s' h'
    rw [arrivalBody, if_neg fun hc => hnew (h' ▸ hc.1)]
    exact h'
  have hio : (beforeTick tick s).procs i = (forLoop n (arrivalBody tick) s).procs i := by
    apply (ioBody_actsOn tick).loop_same
    intro s' h'
    rw [ioBody]
    dsimp only
    rw [if_neg fun hc => hblocked (h'.trans harrive ▸ hc)]
    exact h'
  exact hio.trans harrive

/-- The waiting phase comes after it and counts only. -/
theorem waitingLoop_scheduler (s : SimState n c) :
    (forLoop n waitingBody s).scheduler = s.scheduler := by
  let P (s' : SimState n c) : Prop := s'.scheduler = s.scheduler
  refine forLoop_preserves P rfl ?_
  intro i s' h'
  show (waitingBody i s').scheduler = s.scheduler
  rw [waitingBody]
  split
  · exact h'
  · exact h'

theorem preDispatch_scheduler (tick : Nat) (s : SimState n c) :
    (preDispatch tick s).scheduler =
      (schedulerTick (beforeTick tick s).scheduler (beforeTick tick s).procs tick).1 :=
  waitingLoop_scheduler (tickBody tick (beforeTick tick s))

/-! ## Processes on a CPU -/

/-- The boost touches ready processes only. -/
theorem mlfqDrain_of_not_ready (hn : n ≤ maxProcesses) (level fuel : Nat)
    {sp : MlfqState n × ProcTable n} (h : BoostInv sp) {i : Fin n}
    (hi : (sp.2 i).state ≠ .ready) : (mlfqDrain level fuel sp).2 i = sp.2 i := by
  induction fuel generalizing sp with
  | zero => rfl
  | succ fuel ih =>
      rw [mlfqDrain]
      split
      · have hstep : (mlfqBoostStep level sp.1 sp.2).2 i = sp.2 i := by
          rw [mlfqBoostStep]
          split
          · rfl
          · rename_i pid queue hpop
            have hpid : (sp.2 pid).state = .ready :=
              ((h.family.mem_iff level pid).mp (queuePop_some hpop).mem).1
            have hne : i ≠ pid := fun he => hi (he ▸ hpid)
            exact Function.update_of_ne hne ..
        rw [ih (mlfqBoostStep_inv hn h level) (by rw [hstep]; exact hi), hstep]
      · rfl

/-- The periodic tick of a policy moves `READY` processes only. -/
theorem schedulerTick_of_not_ready (hn : n ≤ maxProcesses) {s : SchedulerState n}
    {procs : ProcTable n} (h : QueueInv s procs) (now : Int) {i : Fin n}
    (hi : (procs i).state ≠ .ready) : (schedulerTick s procs now).2 i = procs i := by
  rw [schedulerTick]
  cases ha : s.algorithm with
  | mlfq =>
      have hboost : BoostInv (s.mlfq, procs) := (queueInv_iff_boostInv ha).mp h
      show (mlfqTick s.mlfq procs now).2 i = procs i
      rw [mlfqTick]
      split
      · rfl
      · have h1 : (mlfqBoostLevel 1 (s.mlfq, procs)).2 i = procs i :=
          mlfqDrain_of_not_ready hn 1 _ hboost hi
        have hboost1 : BoostInv (mlfqBoostLevel 1 (s.mlfq, procs)) := mlfqDrain_inv hn 1 _ hboost
        exact (mlfqDrain_of_not_ready hn 2 _ hboost1 (by rw [h1]; exact hi)).trans h1
  | custom =>
      have hsteal : StealInv s.cpuCount (s.custom, procs) := (queueInv_iff_stealInv ha).mp h
      show (customTick s.custom s.cpuCount procs now).2 i = procs i
      rw [customTick]
      split
      · rfl
      · dsimp only
        split
        · rfl
        · split
          · rfl
          · rename_i pid queue hremove
            have hmem := (queueRemoveAt_some (hsteal.family.nodup _) hremove).mem
            have hpid : (procs pid).state = .ready := ((hsteal.family.mem_iff _ pid).mp hmem).1
            have hne : i ≠ pid := fun he => hi (he ▸ hpid)
            exact Function.update_of_ne hne ..
  | lottery | edf | all => rfl

/-- Before dispatch nothing happens to a process on a CPU. -/
theorem preDispatch_of_running (hn : n ≤ maxProcesses) (hc : 0 < c) {s : SimState n c}
    (hinv : SimInv s) (tick : Nat) {i : Fin n} (hi : (s.procs i).state = .running) :
    (preDispatch tick s).procs i = s.procs i := by
  have hbefore : (beforeTick tick s).procs i = s.procs i :=
    beforeTick_procs (by simp [hi]) (by simp [hi])
  have htick : (tickBody tick (beforeTick tick s)).procs i = s.procs i := by
    have hqueues := (beforeTick_inv hn hc hinv tick).queues
    have hstate : ((beforeTick tick s).procs i).state ≠ .ready := by simp [hbefore, hi]
    exact (schedulerTick_of_not_ready hn hqueues tick hstate).trans hbefore
  have hwaiting : (preDispatch tick s).procs i = (tickBody tick (beforeTick tick s)).procs i := by
    apply waitingBody_actsOn.loop_same
    intro s' h'
    have hsame : s'.procs i = s.procs i := h'.trans htick
    rw [waitingBody, if_neg (by rw [hsame, hi]; simp)]
    exact h'
  exact hwaiting.trans htick

/-- Execution changes the level of the processes it preempts only. -/
theorem executeLoop_level {tick : Nat} {s : SimState n c} (hinv : SimInv (preRecord tick s))
    {i : Fin n} (hi : ((tickStep tick s).procs i).state ≠ .ready) :
    ((tickStep tick s).procs i).queueLevel = ((preRecord tick s).procs i).queueLevel := by
  let r := recordTimeline tick (preRecord tick s)
  have hcpus : CpuInv r.procs r.cpus := hinv.cpus
  let I (k : Nat) (s' : SimState n c) : Prop :=
    ExecuteSpec tick k r s' ∧
      ((s'.procs i).state ≠ .ready → (s'.procs i).queueLevel = (r.procs i).queueLevel)
  have hloop : I c (tickStep tick s) := by
    refine forLoop_inv I ⟨.start tick r, fun _ => rfl⟩ ?_
    rintro cpu s' ⟨hspec, hlevel⟩
    refine ⟨executeBody_spec hcpus cpu hspec, ?_⟩
    have hcpu : s'.cpus cpu = r.cpus cpu := hspec.cpu_other cpu (.inl (Nat.le_refl _))
    rw [executeBody, hcpu]
    cases hpid : (r.cpus cpu).runningPid with
    | none => exact hlevel
    | some pid =>
        dsimp only
        by_cases hne : i = pid
        · subst hne
          -- it runs on no CPU below, so it is still as recorded
          have hsame : s'.procs i = r.procs i :=
            hspec.other i fun k hk => hcpus.not_below hpid hk
          split
          · intro _
            rw [setCpu_procs, setProc_procs, Function.update_self, finishBurst_queueLevel, hsame]
            rfl
          · split
            · intro hready
              rw [setCpu_procs, enqueue_procs, Function.update_self] at hready
              exact absurd rfl hready
            · intro _
              rw [setCpu_procs, setProc_procs, Function.update_self, hsame]
              rfl
        · have hother : (s'.procs i).state ≠ .ready →
              (s'.procs i).queueLevel = (r.procs i).queueLevel := hlevel
          split
          · rw [setCpu_procs, setProc_procs, Function.update_of_ne hne]
            exact hother
          · split
            · rw [setCpu_procs, enqueue_procs, Function.update_of_ne hne, setProc_procs,
                Function.update_of_ne hne]
              exact hother
            · rw [setCpu_procs, setProc_procs, Function.update_of_ne hne]
              exact hother
  exact hloop.2 hi

/-- Dispatch changes the process it places only. -/
theorem ready_of_dispatchBody {tick : Nat} {cpu : Fin c} {s : SimState n c} {q : Fin n}
    (h : ((dispatchBody tick cpu s).procs q).state = .ready) :
    (dispatchBody tick cpu s).procs q = s.procs q := by
  rw [dispatchBody] at h ⊢
  split
  · rfl
  · rename_i hidle
    rw [hidle] at h
    split
    · rfl
    · rename_i pid scheduler hpick
      rw [hpick] at h
      rw [setCpu_procs, setProc_procs] at h ⊢
      have hne : q ≠ pid := by
        rintro rfl
        rw [Function.update_self] at h
        cases h
      rw [Function.update_of_ne hne]

/-! ## Time slices -/

/-- A time slice is positive. -/
theorem timeSliceFor_pos (algorithm : AlgorithmKind) (proc : ProcessRuntime) :
    1 ≤ timeSliceFor algorithm proc := by
  unfold timeSliceFor
  cases algorithm with
  | mlfq =>
      dsimp only
      split <;> decide
  | lottery | edf | custom | all =>
      dsimp only
      decide

/-- A time slice has at most 8 ticks. -/
theorem timeSliceFor_le (algorithm : AlgorithmKind) (proc : ProcessRuntime) :
    timeSliceFor algorithm proc ≤ 8 := by
  unfold timeSliceFor
  cases algorithm with
  | mlfq =>
      dsimp only
      split <;> decide
  | lottery | edf | custom | all =>
      dsimp only
      decide

theorem timeSliceFor_congr (algorithm : AlgorithmKind) {p q : ProcessRuntime}
    (h : p.queueLevel = q.queueLevel) : timeSliceFor algorithm p = timeSliceFor algorithm q := by
  cases algorithm with
  | mlfq =>
      unfold timeSliceFor
      rw [h]
  | lottery | edf | custom | all => rfl

/-- The ticks left of the slice on a CPU, none on an idle one. -/
def sliceLeft (s : SimState n c) (cpu : Fin c) : Int :=
  match (s.cpus cpu).runningPid with
  | none => 0
  | some i => timeSliceFor s.scheduler.algorithm (s.procs i) - (s.cpus cpu).sliceUsed

theorem sliceLeft_of_running {s : SimState n c} {cpu : Fin c} {i : Fin n}
    (h : (s.cpus cpu).runningPid = some i) : sliceLeft s cpu =
      timeSliceFor s.scheduler.algorithm (s.procs i) - (s.cpus cpu).sliceUsed := by
  rw [sliceLeft, h]

/-- No process is on a CPU whose slice is used up. -/
def SliceInv (s : SimState n c) : Prop :=
  ∀ cpu i, (s.cpus cpu).runningPid = some i → 0 ≤ (s.cpus cpu).sliceUsed ∧
    (s.cpus cpu).sliceUsed < timeSliceFor s.scheduler.algorithm (s.procs i)

/-- A process on a CPU has something left of its slice. -/
theorem SliceInv.sliceLeft_pos {s : SimState n c} (h : SliceInv s) {cpu : Fin c} {i : Fin n}
    (hi : (s.cpus cpu).runningPid = some i) : 1 ≤ sliceLeft s cpu := by
  rw [sliceLeft_of_running hi]
  have hused := (h cpu i hi).2
  omega

/-- No slice is longer than the longest the policy gives. -/
theorem SliceInv.sliceLeft_le {s : SimState n c} (h : SliceInv s) {bound : Int} (h0 : 0 ≤ bound)
    (hbound : ∀ proc, timeSliceFor s.scheduler.algorithm proc ≤ bound) (cpu : Fin c) :
    sliceLeft s cpu ≤ bound := by
  cases hi : (s.cpus cpu).runningPid with
  | none =>
      rw [sliceLeft, hi]
      exact h0
  | some i =>
      rw [sliceLeft_of_running hi]
      have hused := (h cpu i hi).1
      have hle := hbound (s.procs i)
      omega

section Rows

variable {w : Workload} (config : SimulationConfig) (algorithm : AlgorithmKind)

/-- A process on a CPU at the start of a tick is there in the row, unchanged. -/
theorem recordAt_of_running (hn : w.processCount ≤ maxProcesses) {tick : Nat}
    {cpu : Fin config.cpuCount} {i : Fin w.processCount}
    (hi : ((stateAt w config algorithm tick).cpus cpu).runningPid = some i) :
    (recordAt w config algorithm tick).cpus cpu = (stateAt w config algorithm tick).cpus cpu ∧
      (recordAt w config algorithm tick).procs i = (stateAt w config algorithm tick).procs i := by
  have hinv := stateAt_inv config algorithm hn tick
  have hpre := preDispatch_stateAt_inv config algorithm hn tick
  have hspec := preRecord_spec hpre
  have hcpus := (preDispatch_outside tick (stateAt w config algorithm tick)).cpus
  have hbusy : ((preDispatch tick (stateAt w config algorithm tick)).cpus cpu).runningPid =
      some i := by
    rw [hcpus]
    exact hi
  have hsame := preDispatch_of_running hn config.cpu_pos hinv tick (hinv.cpus.running hi)
  refine ⟨(hspec.kept cpu i hbusy).trans (congrFun hcpus cpu), ?_⟩
  refine Eq.trans (hspec.other i fun k hk => ?_) hsame
  have hready := (hspec.fresh k i hk).1
  rw [hpre.cpus.running hbusy] at hready
  cases hready

/-- A process on a CPU after a tick was there in the row, with more than one
    tick of its slice to go. -/
theorem stateAt_succ_running (hn : w.processCount ≤ maxProcesses) {tick : Nat}
    {cpu : Fin config.cpuCount} {i : Fin w.processCount}
    (hi : ((stateAt w config algorithm (tick + 1)).cpus cpu).runningPid = some i) :
    ((recordAt w config algorithm tick).cpus cpu).runningPid = some i ∧
      ((stateAt w config algorithm (tick + 1)).cpus cpu).sliceUsed =
        ((recordAt w config algorithm tick).cpus cpu).sliceUsed + 1 ∧
      ((recordAt w config algorithm tick).cpus cpu).sliceUsed + 1 <
        timeSliceFor algorithm ((recordAt w config algorithm tick).procs i) ∧
      ((stateAt w config algorithm (tick + 1)).procs i).queueLevel =
        ((recordAt w config algorithm tick).procs i).queueLevel := by
  have hspec := tickStep_spec (recordAt_inv config algorithm hn tick)
  have hrunning := (stateAt_inv config algorithm hn (tick + 1)).cpus.running hi
  have hlevel := executeLoop_level (recordAt_inv config algorithm hn tick)
    (show ((stateAt w config algorithm (tick + 1)).procs i).state ≠ .ready by simp [hrunning])
  cases hrow : ((recordAt w config algorithm tick).cpus cpu).runningPid with
  | none =>
      have hcpu : (stateAt w config algorithm (tick + 1)).cpus cpu =
          (recordAt w config algorithm tick).cpus cpu := hspec.cpu_other cpu (.inr hrow)
      rw [hcpu, hrow] at hi
      cases hi
  | some j =>
      have hran : (stateAt w config algorithm (tick + 1)).cpus cpu =
          executeCpu (recordAt w config algorithm tick).scheduler.algorithm
            ((recordAt w config algorithm tick).procs j)
            ((recordAt w config algorithm tick).cpus cpu) :=
        (hspec.ran cpu j cpu.isLt hrow).1
      rw [recordAt_algorithm config algorithm hn] at hran
      unfold executeCpu at hran
      dsimp only at hran
      -- the burst is over, the slice is over, or the process stays
      split at hran
      · rw [hran] at hi
        cases hi
      · split at hran
        · rw [hran] at hi
          cases hi
        · rename_i hslice
          rw [hran, hrow] at hi
          obtain rfl := Option.some.inj hi
          have hsame :
              timeSliceFor algorithm (runProc ((recordAt w config algorithm tick).procs j)) =
              timeSliceFor algorithm ((recordAt w config algorithm tick).procs j) :=
            timeSliceFor_congr algorithm rfl
          rw [hsame] at hslice
          exact ⟨rfl, congrArg CpuState.sliceUsed hran, not_le.mp hslice, hlevel⟩

/-- The slices are kept in every row. -/
theorem recordAt_sliceInv (hn : w.processCount ≤ maxProcesses) (tick : Nat) :
    SliceInv (recordAt w config algorithm tick) := by
  induction tick with
  | zero =>
      intro cpu i hi
      have hspec := preRecord_spec (preDispatch_stateAt_inv config algorithm hn 0)
      have hidle : ((preDispatch 0 (stateAt w config algorithm 0)).cpus cpu).runningPid = none := by
        rw [(preDispatch_outside ..).cpus]
        rfl
      have hfresh := (hspec.fresh cpu i ⟨hidle, hi⟩).2.1
      have hused : ((recordAt w config algorithm 0).cpus cpu).sliceUsed = 0 :=
        congrArg CpuState.sliceUsed hfresh
      rw [hused]
      exact ⟨Int.le_refl 0, timeSliceFor_pos ..⟩
  | succ tick ih =>
      intro cpu i hi
      have hspec := preRecord_spec (preDispatch_stateAt_inv config algorithm hn (tick + 1))
      have hcpus := (preDispatch_outside (tick + 1) (stateAt w config algorithm (tick + 1))).cpus
      cases hidle : ((stateAt w config algorithm (tick + 1)).cpus cpu).runningPid with
      | none =>
          have hfresh := (hspec.fresh cpu i ⟨by rw [hcpus]; exact hidle, hi⟩).2.1
          have hused : ((recordAt w config algorithm (tick + 1)).cpus cpu).sliceUsed = 0 :=
            congrArg CpuState.sliceUsed hfresh
          rw [hused]
          exact ⟨Int.le_refl 0, timeSliceFor_pos ..⟩
      | some j =>
          obtain ⟨hcpu, hproc⟩ := recordAt_of_running config algorithm hn hidle
          rw [hcpu] at hi ⊢
          obtain rfl := Option.some.inj (hidle.symm.trans hi)
          obtain ⟨hrow, hused, hslice, hlevel⟩ := stateAt_succ_running config algorithm hn hidle
          have hnonneg := (ih cpu j hrow).1
          rw [hproc, hused, recordAt_algorithm config algorithm hn,
            timeSliceFor_congr algorithm hlevel]
          exact ⟨by omega, hslice⟩

/-- What a CPU that is busy in the row of `tick` is in the next row: it goes on
    with its slice, or it was idle when the dispatch loop got to it. -/
theorem busy_next (hn : w.processCount ≤ maxProcesses) (tick : Nat)
    (cpu : Fin config.cpuCount) :
    ((preDispatch (tick + 1) (stateAt w config algorithm (tick + 1))).cpus cpu).runningPid = none ∨
      sliceLeft (recordAt w config algorithm (tick + 1)) cpu =
        sliceLeft (recordAt w config algorithm tick) cpu - 1 := by
  rw [(preDispatch_outside ..).cpus]
  cases hidle : ((stateAt w config algorithm (tick + 1)).cpus cpu).runningPid with
  | none => exact .inl rfl
  | some i =>
      obtain ⟨hcpu, hproc⟩ := recordAt_of_running config algorithm hn hidle
      obtain ⟨hrow, hused, -, hlevel⟩ := stateAt_succ_running config algorithm hn hidle
      right
      rw [sliceLeft_of_running hrow, sliceLeft_of_running (hcpu ▸ hidle), hproc, hcpu, hused,
        recordAt_algorithm config algorithm hn, recordAt_algorithm config algorithm hn,
        timeSliceFor_congr algorithm hlevel]
      omega

end Rows

/-! ## Waiting -/

/-- A process `READY` when dispatch starts got there in this tick, or it was
    `READY` when the tick began. -/
theorem TickOf.ready_before {tick : Nat} {on : Fin c → Prop}
    {start before record after : ProcessRuntime} (h : TickOf tick on start before record after)
    (hready : before.state = .ready) : before.readySince = tick ∨
      (start.state = .ready ∧ before.readySince = start.readySince ∧
        before.remainingInBurst = start.remainingInBurst) := by
  have hpre : PreTick tick start before := by
    cases h with
    | off hpre => exact hpre
    | placed hpre => exact hpre
    | stayed hrunning => exact .running hrunning
  cases hpre with
  | notYet hnew => exact absurd (hnew.symm.trans hready) nofun
  | arrived | ioNext => exact .inl rfl
  | waited hstart => exact .inr ⟨hstart, rfl, rfl⟩
  | running hrunning => exact absurd (hrunning.symm.trans hready) nofun
  | counted hblocked => exact absurd (hblocked.symm.trans hready) nofun
  | ioEnded => cases hready
  | done hdone => exact absurd (hdone.symm.trans hready) nofun

/-- A process `READY` after a tick was preempted in it, or it was `READY` in
    the row. -/
theorem TickOf.ready_after {tick : Nat} {on : Fin c → Prop}
    {start before record after : ProcessRuntime} (h : TickOf tick on start before record after)
    (hready : after.state = .ready) : after.readySince = tick + 1 ∨ after = record := by
  have hran : ∀ {proc : ProcessRuntime}, Ran tick proc after → proc.state = .running →
      after.readySince = tick + 1 := by
    intro proc hran hrunning
    cases hran with
    | completed | blocked => cases hready
    | preempted => rfl
    | kept => exact absurd (hrunning.symm.trans hready) nofun
  cases h with
  | off => exact .inr rfl
  | placed _ _ _ hran' => exact .inl (hran hran' rfl)
  | stayed hrunning _ _ hran' => exact .inl (hran hran' hrunning)

section Waits

variable {w : Workload} (config : SimulationConfig) (algorithm : AlgorithmKind)

/-- `q` is `READY` in the row of `tick` and waits until the next dispatch. -/
structure Waits (q : Fin w.processCount) (tick : Nat) : Prop where
  ready : ((recordAt w config algorithm tick).procs q).state = .ready
  after : (stateAt w config algorithm (tick + 1)).procs q =
    (recordAt w config algorithm tick).procs q
  since : ((preDispatch (tick + 1) (stateAt w config algorithm (tick + 1))).procs q).readySince =
    ((recordAt w config algorithm tick).procs q).readySince
  remaining :
    ((preDispatch (tick + 1) (stateAt w config algorithm (tick + 1))).procs q).remainingInBurst =
      ((recordAt w config algorithm tick).procs q).remainingInBurst

/-- Execution leaves a process alone that is `READY` in the row. -/
theorem stateAt_succ_of_ready (hn : w.processCount ≤ maxProcesses) {q : Fin w.processCount}
    {tick : Nat} (hq : ((recordAt w config algorithm tick).procs q).state = .ready) :
    (stateAt w config algorithm (tick + 1)).procs q =
      (recordAt w config algorithm tick).procs q := by
  have hinv := recordAt_inv config algorithm hn tick
  exact (tickStep_spec hinv).other q fun cpu _ hcpu => hinv.cpus.ne_of_ready hq hcpu rfl

/-- A process left `READY` in a row is as it was before dispatch. -/
theorem procs_of_ready_row (hn : w.processCount ≤ maxProcesses) {q : Fin w.processCount}
    {tick : Nat} (hq : ((recordAt w config algorithm tick).procs q).state = .ready) :
    (recordAt w config algorithm tick).procs q =
      (preDispatch tick (stateAt w config algorithm tick)).procs q := by
  have hinv := recordAt_inv config algorithm hn tick
  have hspec := preRecord_spec (preDispatch_stateAt_inv config algorithm hn tick)
  exact hspec.other q fun cpu hcpu => hinv.cpus.ne_of_ready hq hcpu.2 rfl

/-- Who is ready in the first row is so since tick 0. -/
theorem ready_first_row (hn : w.processCount ≤ maxProcesses) {q : Fin w.processCount}
    (hq : ((recordAt w config algorithm 0).procs q).state = .ready) :
    ((recordAt w config algorithm 0).procs q).readySince = 0 := by
  have hsame := procs_of_ready_row config algorithm hn hq
  rw [hsame] at hq ⊢
  rcases (procAt_tick config algorithm hn q 0).ready_before hq with hsince | ⟨hstart, -⟩
  · exact hsince
  · cases hstart

/-- A process that is `READY` when dispatch starts came to a queue since the
    row before, or it waits since then. -/
theorem ready_since_or_waits (hn : w.processCount ≤ maxProcesses) {q : Fin w.processCount}
    {tick : Nat}
    (hq : ((preDispatch (tick + 1)
      (stateAt w config algorithm (tick + 1))).procs q).state = .ready) :
    ((preDispatch (tick + 1)
        (stateAt w config algorithm (tick + 1))).procs q).readySince = tick + 1 ∨
      Waits config algorithm q tick := by
  rcases (procAt_tick config algorithm hn q (tick + 1)).ready_before hq with
    hsince | ⟨hstart, hsince, hremaining⟩
  · left
    exact hsince
  · rcases (procAt_tick config algorithm hn q tick).ready_after hstart with hpreempted | hsame
    · left
      exact hsince.trans hpreempted
    · right
      have hready : ((recordAt w config algorithm tick).procs q).state = .ready := by
        rw [hsame] at hstart
        exact hstart
      refine ⟨hready, stateAt_succ_of_ready config algorithm hn hready, ?_, ?_⟩
      · rw [hsame] at hsince
        exact hsince
      · rw [hsame] at hremaining
        exact hremaining

/-- Until the next periodic tick an entry of a queue keeps its place. -/
theorem queuedAt_beforeTick {q : Fin w.processCount} {tick l k : Nat}
    (h : QueuedAt (recordAt w config algorithm tick).scheduler l k q) :
    QueuedAt (beforeTick (tick + 1) (stateAt w config algorithm (tick + 1))).scheduler l k q := by
  let P (s : SimState w.processCount config.cpuCount) : Prop := QueuedAt s.scheduler l k q
  have hexecute : P (stateAt w config algorithm (tick + 1)) :=
    forLoop_preserves P h fun cpu _ h' => executeBody_queuedAt tick cpu h'
  exact beforeTick_queuedAt (tick + 1) hexecute

theorem preRecord_clocks (tick : Nat) (s : SimState n c) :
    (preRecord tick s).scheduler.clocks = (preDispatch tick s).scheduler.clocks := by
  let P (s' : SimState n c) : Prop :=
    s'.scheduler.clocks = (preDispatch tick s).scheduler.clocks
  exact forLoop_preserves P rfl fun cpu s' h' => (dispatchBody_clocks tick cpu s').trans h'

/-- Execution leaves the counters alone. -/
theorem stateAt_succ_clocks (tick : Nat) :
    (stateAt w config algorithm (tick + 1)).scheduler.clocks =
      (recordAt w config algorithm tick).scheduler.clocks := by
  let P (s : SimState w.processCount config.cpuCount) : Prop :=
    s.scheduler.clocks = (recordAt w config algorithm tick).scheduler.clocks
  have hexecute : P (stateAt w config algorithm (tick + 1)) :=
    forLoop_preserves P rfl fun cpu s' h' => (executeBody_clocks tick cpu s').trans h'
  exact hexecute

end Waits

end G20OsLab.Sim
