/-
  G20OsLab.Sim.Tick

  What one tick does to each process and each CPU, said once.

  The phases before dispatch treat every process on its own: up to its
  placement, process `i` becomes `preDispatchProc` of itself
  (`preDispatch_core`).  Dispatch fills idle CPUs with `READY` processes
  (`DispatchSpec`), execution runs the process of every busy CPU for a tick
  (`ExecuteSpec`).  No statement here mentions a policy: whatever follows from
  these three holds of all of them.
-/

import G20OsLab.Sim.Run

namespace G20OsLab.Sim

open Lib (forLoop forLoop_inv forLoop_preserves forLoop_pointwise)

variable {n c : Nat}

/-! ## Before dispatch -/

/-- The arrival phase, for one process. -/
def arriveProc (tick : Nat) (proc : ProcessRuntime) : ProcessRuntime :=
  if proc.state = .new ∧ proc.spec.arrival ≤ tick then
    { proc with state := .ready, readySince := tick }
  else
    proc

/-- The IO phase, for one process. -/
def ioProc (tick : Nat) (proc : ProcessRuntime) : ProcessRuntime :=
  if proc.state = .blocked then
    if proc.remainingInBurst - 1 ≤ 0 then
      if proc.spec.bursts.length ≤ proc.burstIndex + 1 then
        { proc with
          remainingInBurst := proc.remainingInBurst - 1
          burstIndex := proc.burstIndex + 1
          state := .done
          completionTick := tick }
      else
        { proc with
          burstIndex := proc.burstIndex + 1
          remainingInBurst := proc.spec.durationAt (proc.burstIndex + 1)
          state := .ready
          readySince := tick }
    else
      { proc with remainingInBurst := proc.remainingInBurst - 1 }
  else
    proc

/-- The waiting phase, for one process. -/
def waitProc (proc : ProcessRuntime) : ProcessRuntime :=
  if proc.state = .ready then { proc with totalWaiting := proc.totalWaiting + 1 } else proc

/-- The phases before dispatch, for one process. -/
def preDispatchProc (tick : Nat) (proc : ProcessRuntime) : ProcessRuntime :=
  waitProc (ioProc tick (arriveProc tick proc))

theorem arriveProc_core (tick : Nat) (proc : ProcessRuntime) :
    (arriveProc tick proc).core = arriveProc tick proc.core := by
  unfold arriveProc ProcessRuntime.core
  split <;> rfl

theorem ioProc_core (tick : Nat) (proc : ProcessRuntime) :
    (ioProc tick proc).core = ioProc tick proc.core := by
  unfold ioProc ProcessRuntime.core
  dsimp only
  split
  · split
    · split <;> rfl
    · rfl
  · rfl

theorem waitProc_core (proc : ProcessRuntime) :
    (waitProc proc).core = waitProc proc.core := by
  unfold waitProc ProcessRuntime.core
  split <;> rfl

@[simp] theorem enqueuedProc_core (s : SchedulerState n) (proc : ProcessRuntime)
    (cpuHint now : Int) (reason : EnqueueReason) :
    (enqueuedProc s proc cpuHint now reason).core =
      { proc.core with state := .ready, readySince := now } := rfl

/-- What the phases before dispatch leave alone. -/
structure SameOutside (s s' : SimState n c) : Prop where
  cpus : s'.cpus = s.cpus
  timeline : s'.timeline = s.timeline
  busyTicks : s'.busyTicks = s.busyTicks
  algorithm : s'.scheduler.algorithm = s.scheduler.algorithm

theorem SameOutside.refl (s : SimState n c) : SameOutside s s := ⟨rfl, rfl, rfl, rfl⟩

theorem SameOutside.trans {s s' s'' : SimState n c} (h : SameOutside s s')
    (h' : SameOutside s' s'') : SameOutside s s'' :=
  ⟨h'.cpus.trans h.cpus, h'.timeline.trans h.timeline, h'.busyTicks.trans h.busyTicks,
    h'.algorithm.trans h.algorithm⟩

theorem sameOutside_setProc (s : SimState n c) (i : Fin n) (proc : ProcessRuntime) :
    SameOutside s (s.setProc i proc) := ⟨rfl, rfl, rfl, rfl⟩

theorem sameOutside_enqueue (s : SimState n c) (pid : Fin n) (cpuHint now : Int)
    (reason : EnqueueReason) : SameOutside s (s.enqueue pid cpuHint now reason) :=
  ⟨rfl, rfl, rfl, enqueue_algorithm ..⟩

/-- A loop body that acts on process `i` alone, up to placement, by `f`. -/
structure ActsOn (f : ProcessRuntime → ProcessRuntime)
    (body : Fin n → SimState n c → SimState n c) : Prop where
  self : ∀ i s, ((body i s).procs i).core = f (s.procs i).core
  other : ∀ i j s, j ≠ i → (body i s).procs j = s.procs j
  outside : ∀ i s, SameOutside s (body i s)

theorem ActsOn.loop {f : ProcessRuntime → ProcessRuntime}
    {body : Fin n → SimState n c → SimState n c} (h : ActsOn f body) (s : SimState n c)
    (i : Fin n) : ((forLoop n body s).procs i).core = f (s.procs i).core :=
  forLoop_pointwise (fun _ => True) (fun s j => (s.procs j).core) (fun _ => f) trivial
    (fun _ _ _ => trivial) (fun j s' _ => h.self j s')
    (fun j k s' _ hk => by rw [h.other j k s' hk]) i

/-- The loop leaves a process alone that its own iteration leaves alone. -/
theorem ActsOn.loop_same {f : ProcessRuntime → ProcessRuntime}
    {body : Fin n → SimState n c → SimState n c} (h : ActsOn f body) {s : SimState n c} {i : Fin n}
    (hself : ∀ s', s'.procs i = s.procs i → (body i s').procs i = s.procs i) :
    (forLoop n body s).procs i = s.procs i := by
  refine forLoop_preserves (fun s' : SimState n c => s'.procs i = s.procs i) rfl ?_
  intro j s' h'
  by_cases hj : i = j
  · subst hj
    exact hself s' h'
  · exact (h.other j i s' hj).trans h'

theorem ActsOn.loop_outside {f : ProcessRuntime → ProcessRuntime}
    {body : Fin n → SimState n c → SimState n c} (h : ActsOn f body) (s : SimState n c) :
    SameOutside s (forLoop n body s) :=
  forLoop_preserves (SameOutside s) (SameOutside.refl s) fun i s' hs =>
    hs.trans (h.outside i s')

theorem arrivalBody_actsOn (tick : Nat) :
    ActsOn (arriveProc tick) (arrivalBody tick : Fin n → SimState n c → SimState n c) where
  self i s := by
    rw [arrivalBody, ← arriveProc_core]
    rw [arriveProc]
    split
    · rw [enqueue_procs, Function.update_self, enqueuedProc_core]
      rfl
    · rfl
  other i j s hj := by
    rw [arrivalBody]
    split
    · rw [enqueue_procs, Function.update_of_ne hj]
    · rfl
  outside i s := by
    rw [arrivalBody]
    split
    · exact sameOutside_enqueue ..
    · exact SameOutside.refl s

theorem ioBody_actsOn (tick : Nat) :
    ActsOn (ioProc tick) (ioBody tick : Fin n → SimState n c → SimState n c) where
  self i s := by
    rw [ioBody, ← ioProc_core]
    rw [ioProc]
    dsimp only
    split
    · split
      · split
        · rw [setProc_procs, Function.update_self]
        · rw [enqueue_procs, Function.update_self, enqueuedProc_core, setProc_procs,
            Function.update_self]
          rfl
      · rw [setProc_procs, Function.update_self]
    · rfl
  other i j s hj := by
    rw [ioBody]
    dsimp only
    split
    · split
      · split
        · rw [setProc_procs, Function.update_of_ne hj]
        · rw [enqueue_procs, Function.update_of_ne hj, setProc_procs, Function.update_of_ne hj]
      · rw [setProc_procs, Function.update_of_ne hj]
    · rfl
  outside i s := by
    rw [ioBody]
    dsimp only
    split
    · split
      · split
        · exact sameOutside_setProc ..
        · exact (sameOutside_setProc ..).trans (sameOutside_enqueue ..)
      · exact sameOutside_setProc ..
    · exact SameOutside.refl s

theorem waitingBody_actsOn :
    ActsOn waitProc (waitingBody : Fin n → SimState n c → SimState n c) where
  self i s := by
    rw [waitingBody, ← waitProc_core]
    rw [waitProc]
    split
    · rw [setProc_procs, Function.update_self]
    · rfl
  other i j s hj := by
    rw [waitingBody]
    split
    · rw [setProc_procs, Function.update_of_ne hj]
    · rfl
  outside i s := by
    rw [waitingBody]
    split
    · exact sameOutside_setProc ..
    · exact SameOutside.refl s

/-- Up to placement the phases before dispatch map each process by
    `preDispatchProc`. -/
theorem preDispatch_core (tick : Nat) (s : SimState n c) (i : Fin n) :
    ((preDispatch tick s).procs i).core = preDispatchProc tick (s.procs i).core := by
  rw [preDispatch, preDispatchProc]
  rw [waitingBody_actsOn.loop, ← (arrivalBody_actsOn (c := c) tick).loop,
    ← (ioBody_actsOn tick).loop]
  exact congrArg waitProc (schedulerTick_core ..)

theorem preDispatch_outside (tick : Nat) (s : SimState n c) :
    SameOutside s (preDispatch tick s) := by
  have harrive := (arrivalBody_actsOn tick).loop_outside s
  have hio := (ioBody_actsOn tick).loop_outside (forLoop n (arrivalBody tick) s)
  have htick : ∀ s' : SimState n c, SameOutside s' (tickBody tick s') := fun s' =>
    ⟨rfl, rfl, rfl, schedulerTick_algorithm ..⟩
  exact ((harrive.trans hio).trans (htick _)).trans (waitingBody_actsOn.loop_outside _)

/-! ## Dispatch -/

/-- CPU `cpu` was idle in `p` and holds process `i` in `r`. -/
def Dispatched (p r : SimState n c) (cpu : Fin c) (i : Fin n) : Prop :=
  (p.cpus cpu).runningPid = none ∧ (r.cpus cpu).runningPid = some i

/-- What dispatch does: busy CPUs keep their process, an idle CPU stays as it
    is or gets a `READY` process, and a process not put on a CPU stays as it is. -/
structure DispatchSpec (tick : Nat) (p r : SimState n c) : Prop where
  kept : ∀ cpu i, (p.cpus cpu).runningPid = some i → r.cpus cpu = p.cpus cpu
  idle : ∀ cpu, (p.cpus cpu).runningPid = none → (r.cpus cpu).runningPid = none →
    r.cpus cpu = p.cpus cpu
  fresh : ∀ cpu i, Dispatched p r cpu i →
    (p.procs i).state = .ready ∧ r.cpus cpu = ⟨some i, 0⟩ ∧
      r.procs i = dispatchProc cpu tick (p.procs i)
  other : ∀ i, (∀ cpu, ¬ Dispatched p r cpu i) → r.procs i = p.procs i
  timeline : r.timeline = p.timeline
  busyTicks : r.busyTicks = p.busyTicks
  algorithm : r.scheduler.algorithm = p.scheduler.algorithm

/-- A `READY` process is on no CPU. -/
theorem CpuInv.ne_of_ready {procs : Fin n → ProcessRuntime} {cpus : Fin c → CpuState n}
    (h : CpuInv procs cpus) {k : Fin c} {i pid : Fin n} (hready : (procs pid).state = .ready)
    (hk : (cpus k).runningPid = some i) : i ≠ pid := by
  rintro rfl
  have hrunning := h.running hk
  rw [hready] at hrunning
  cases hrunning

/-- Placing a `READY` process on an idle CPU. -/
theorem DispatchSpec.place {tick : Nat} {p s : SimState n c} {cpu : Fin c} {pid : Fin n}
    {scheduler : SchedulerState n} (hcpus : CpuInv s.procs s.cpus) (h : DispatchSpec tick p s)
    (hcpu : s.cpus cpu = p.cpus cpu) (hidle : (s.cpus cpu).runningPid = none)
    (hready : (s.procs pid).state = .ready)
    (halg : scheduler.algorithm = s.scheduler.algorithm) :
    DispatchSpec tick p (((SimState.mk scheduler s.procs s.cpus s.timeline s.busyTicks).setProc
      pid (dispatchProc cpu tick (s.procs pid))).setCpu cpu ⟨some pid, 0⟩) := by
  have hidle' : (p.cpus cpu).runningPid = none := by rw [← hcpu]; exact hidle
  -- `pid` was not dispatched before
  have hsame : s.procs pid = p.procs pid :=
    h.other pid fun k hk => hcpus.ne_of_ready hready hk.2 rfl
  have hne : ∀ k i, k ≠ cpu → Dispatched p s k i → i ≠ pid := fun k i _ hk =>
    hcpus.ne_of_ready hready hk.2
  have hold : ∀ k i, k ≠ cpu →
      Dispatched p (((SimState.mk scheduler s.procs s.cpus s.timeline s.busyTicks).setProc
        pid (dispatchProc cpu tick (s.procs pid))).setCpu cpu ⟨some pid, 0⟩) k i →
      Dispatched p s k i := by
    rintro k i hk ⟨hpk, hrk⟩
    rw [setCpu_cpus, Function.update_of_ne hk] at hrk
    exact ⟨hpk, hrk⟩
  refine ⟨fun k i hk => ?_, fun k hpk hrk => ?_, fun k i hk => ?_, fun i hi => ?_,
    h.timeline, h.busyTicks, halg.trans h.algorithm⟩
  · have hkc : k ≠ cpu := by
      rintro rfl
      rw [hidle'] at hk
      cases hk
    rw [setCpu_cpus, Function.update_of_ne hkc]
    exact h.kept k i hk
  · have hkc : k ≠ cpu := by
      rintro rfl
      simp at hrk
    rw [setCpu_cpus, Function.update_of_ne hkc] at hrk ⊢
    exact h.idle k hpk hrk
  · by_cases hkc : k = cpu
    · subst hkc
      have hi : i = pid := by
        have hrk := hk.2
        rw [setCpu_cpus, Function.update_self, Option.some.injEq] at hrk
        exact hrk.symm
      subst hi
      refine ⟨by rw [← hsame]; exact hready, by rw [setCpu_cpus, Function.update_self], ?_⟩
      rw [setCpu_procs, setProc_procs, Function.update_self, hsame]
    · have hk' := hold k i hkc hk
      obtain ⟨h1, h2, h3⟩ := h.fresh k i hk'
      refine ⟨h1, by rw [setCpu_cpus, Function.update_of_ne hkc]; exact h2, ?_⟩
      rw [setCpu_procs, setProc_procs, Function.update_of_ne (hne k i hkc hk')]
      exact h3
  · have hip : i ≠ pid := by
      rintro rfl
      exact hi cpu ⟨hidle', by rw [setCpu_cpus, Function.update_self]⟩
    rw [setCpu_procs, setProc_procs, Function.update_of_ne hip]
    refine h.other i ?_
    intro k hk
    by_cases hkc : k = cpu
    · subst hkc
      have hrk := hk.2
      rw [hidle] at hrk
      cases hrk
    · exact hi k ⟨hk.1, by rw [setCpu_cpus, Function.update_of_ne hkc]; exact hk.2⟩

/-- One iteration of the dispatch loop, on a CPU no iteration has touched. -/
theorem dispatchBody_spec {tick : Nat} {p s : SimState n c} (hinv : SimInv s)
    (h : DispatchSpec tick p s) (cpu : Fin c) (hcpu : s.cpus cpu = p.cpus cpu) :
    DispatchSpec tick p (dispatchBody tick cpu s) := by
  rw [dispatchBody]
  split
  · exact h
  · rename_i hidle
    split
    · rename_i scheduler hpick
      exact ⟨h.kept, h.idle, h.fresh, h.other, h.timeline, h.busyTicks,
        (pick_none hpick).algorithm.trans h.algorithm⟩
    · rename_i pid scheduler hpick
      have hsome := pick_some hinv.queues.family.nodup hpick
      have hready := (hinv.queues.picked hsome).1
      exact h.place hinv.cpus hcpu hidle hready hsome.algorithm

theorem dispatchBody_cpus_of_ne (tick : Nat) {s : SimState n c} {cpu k : Fin c} (h : k ≠ cpu) :
    (dispatchBody tick cpu s).cpus k = s.cpus k := by
  rw [dispatchBody]
  split
  · rfl
  · split
    · rfl
    · rw [setCpu_cpus, Function.update_of_ne h]
      rfl

/-- The dispatch loop from `p`, with the CPUs from `k` on still to come. -/
structure Dispatching (tick : Nat) (p : SimState n c) (k : Nat) (s : SimState n c) : Prop where
  inv : SimInv s
  spec : DispatchSpec tick p s
  untouched : ∀ cpu : Fin c, k ≤ cpu.val → s.cpus cpu = p.cpus cpu

theorem Dispatching.start {tick : Nat} {p : SimState n c} (hinv : SimInv p) :
    Dispatching tick p 0 p where
  inv := hinv
  spec := ⟨fun _ _ _ => rfl, fun _ _ _ => rfl, fun _ _ hi => absurd (hi.1.symm.trans hi.2) nofun,
    fun _ _ => rfl, rfl, rfl, rfl⟩
  untouched _ _ := rfl

theorem Dispatching.next {tick : Nat} {p s : SimState n c} {cpu : Fin c}
    (h : Dispatching tick p cpu s) : Dispatching tick p (cpu + 1) (dispatchBody tick cpu s) where
  inv := dispatchBody_inv h.inv tick cpu
  spec := dispatchBody_spec h.inv h.spec cpu (h.untouched cpu (Nat.le_refl _))
  untouched k hk := by
    have hne : k ≠ cpu := by
      rintro rfl
      omega
    rw [dispatchBody_cpus_of_ne tick hne]
    exact h.untouched k (by omega)

/-- The rule of the dispatch loop: an iteration that keeps `I` may use what
    holds of every iteration. -/
theorem preRecord_loop {tick : Nat} {s : SimState n c} (hinv : SimInv (preDispatch tick s))
    (I : Nat → SimState n c → Prop) (hstart : I 0 (preDispatch tick s))
    (hstep : ∀ (cpu : Fin c) s', Dispatching tick (preDispatch tick s) cpu s' → I cpu s' →
      I (cpu + 1) (dispatchBody tick cpu s')) :
    Dispatching tick (preDispatch tick s) c (preRecord tick s) ∧ I c (preRecord tick s) := by
  let J (k : Nat) (s' : SimState n c) : Prop :=
    Dispatching tick (preDispatch tick s) k s' ∧ I k s'
  refine forLoop_inv J ⟨.start hinv, hstart⟩ ?_
  rintro cpu s' ⟨hdispatching, hI⟩
  exact ⟨hdispatching.next, hstep cpu s' hdispatching hI⟩

/-- The dispatch loop. -/
theorem preRecord_spec {tick : Nat} {s : SimState n c} (hinv : SimInv (preDispatch tick s)) :
    DispatchSpec tick (preDispatch tick s) (preRecord tick s) :=
  (preRecord_loop hinv (fun _ _ => True) trivial fun _ _ _ _ => trivial).1.spec

/-! ## Execution -/

/-- The execution phase, for the process on a CPU with `used` ticks of its
    slice behind it. -/
def executeProc (algorithm : AlgorithmKind) (tick : Nat) (used : Int) (proc : ProcessRuntime) :
    ProcessRuntime :=
  let proc := runProc proc
  if proc.remainingInBurst ≤ 0 then
    finishBurst tick proc
  else if used + 1 ≥ timeSliceFor algorithm proc then
    { proc with state := .ready, readySince := tick + 1 }
  else
    proc

/-- The execution phase, for a CPU and the process on it. -/
def executeCpu (algorithm : AlgorithmKind) (proc : ProcessRuntime) (cpu : CpuState n) :
    CpuState n :=
  let proc := runProc proc
  if proc.remainingInBurst ≤ 0 then
    ⟨none, 0⟩
  else if cpu.sliceUsed + 1 ≥ timeSliceFor algorithm proc then
    ⟨none, 0⟩
  else
    ⟨cpu.runningPid, cpu.sliceUsed + 1⟩

/-- The busy CPUs below `k`. -/
def busyBelow (k : Nat) (s : SimState n c) : Finset (Fin c) :=
  Finset.univ.filter fun cpu => cpu.val < k ∧ (s.cpus cpu).runningPid.isSome

theorem busyBelow_succ_of_none {s : SimState n c} {cpu : Fin c}
    (h : (s.cpus cpu).runningPid = none) : busyBelow (cpu + 1) s = busyBelow cpu s := by
  ext k
  simp only [busyBelow, Finset.mem_filter, Finset.mem_univ, true_and, and_congr_left_iff]
  intro hk
  have hne : k.val ≠ cpu.val := by
    intro he
    rw [Fin.ext he, h] at hk
    cases hk
  omega

theorem busyBelow_succ_of_some {s : SimState n c} {cpu : Fin c} {i : Fin n}
    (h : (s.cpus cpu).runningPid = some i) :
    (busyBelow (cpu + 1) s).card = (busyBelow cpu s).card + 1 := by
  have hinsert : busyBelow (cpu + 1) s = insert cpu (busyBelow cpu s) := by
    ext k
    simp only [busyBelow, Finset.mem_filter, Finset.mem_univ, true_and, Finset.mem_insert]
    by_cases hk : k = cpu
    · subst hk
      simp [h]
    · have hne : k.val ≠ cpu.val := fun he => hk (Fin.ext he)
      simp only [hk, false_or, and_congr_left_iff]
      intro _
      omega
  rw [hinsert, Finset.card_insert_of_notMem]
  simp [busyBelow]

/-- What execution does to the CPUs below `k` and to the processes on them. -/
structure ExecuteSpec (tick k : Nat) (r s : SimState n c) : Prop where
  ran : ∀ (cpu : Fin c) i, cpu.val < k → (r.cpus cpu).runningPid = some i →
    s.cpus cpu = executeCpu r.scheduler.algorithm (r.procs i) (r.cpus cpu) ∧
      (s.procs i).core =
        (executeProc r.scheduler.algorithm tick (r.cpus cpu).sliceUsed (r.procs i)).core
  cpu_other : ∀ cpu : Fin c, k ≤ cpu.val ∨ (r.cpus cpu).runningPid = none →
    s.cpus cpu = r.cpus cpu
  other : ∀ i, (∀ cpu : Fin c, cpu.val < k → (r.cpus cpu).runningPid ≠ some i) →
    s.procs i = r.procs i
  busyTicks : s.busyTicks = r.busyTicks + (busyBelow k r).card
  timeline : s.timeline = r.timeline
  algorithm : s.scheduler.algorithm = r.scheduler.algorithm

theorem ExecuteSpec.start (tick : Nat) (r : SimState n c) : ExecuteSpec tick 0 r r where
  ran _ _ hk := absurd hk (Nat.not_lt_zero _)
  cpu_other _ _ := rfl
  other _ _ := rfl
  busyTicks := by simp [busyBelow]
  timeline := rfl
  algorithm := rfl

/-- An idle CPU is passed over. -/
theorem ExecuteSpec.idle {tick : Nat} {r s : SimState n c} {cpu : Fin c}
    (h : ExecuteSpec tick cpu r s) (hpid : (r.cpus cpu).runningPid = none) :
    ExecuteSpec tick (cpu + 1) r s := by
  refine ⟨?_, ?_, ?_, ?_, h.timeline, h.algorithm⟩
  · intro k i hk hki
    have hne : k.val ≠ cpu.val := by
      intro he
      rw [Fin.ext he, hpid] at hki
      cases hki
    exact h.ran k i (by omega) hki
  · intro k hk
    rcases hk with hk | hk
    · exact h.cpu_other k (.inl (by omega))
    · exact h.cpu_other k (.inr hk)
  · intro i hi
    exact h.other i fun k hk => hi k (by omega)
  · rw [busyBelow_succ_of_none hpid]
    exact h.busyTicks

/-- A process runs on one CPU only. -/
theorem CpuInv.not_below {procs : Fin n → ProcessRuntime} {cpus : Fin c → CpuState n}
    (hr : CpuInv procs cpus) {cpu k : Fin c} {pid : Fin n}
    (hpid : (cpus cpu).runningPid = some pid) (hk : k.val < cpu.val) :
    (cpus k).runningPid ≠ some pid := by
  intro hkp
  have he := hr.inj k cpu pid hkp hpid
  rw [he] at hk
  exact Nat.lt_irrefl _ hk

/-- The three outcomes of execution agree on everything but the state they
    leave. -/
theorem ExecuteSpec.run {tick : Nat} {r s s' : SimState n c} {cpu : Fin c} {pid : Fin n}
    (hr : CpuInv r.procs r.cpus) (h : ExecuteSpec tick cpu r s)
    (hpid : (r.cpus cpu).runningPid = some pid)
    (hself : (s'.procs pid).core = (executeProc r.scheduler.algorithm tick
      (r.cpus cpu).sliceUsed (r.procs pid)).core)
    (hrest : ∀ i, i ≠ pid → s'.procs i = s.procs i)
    (hcpus : s'.cpus = Function.update s.cpus cpu
      (executeCpu r.scheduler.algorithm (r.procs pid) (r.cpus cpu)))
    (hbusy : s'.busyTicks = s.busyTicks + 1) (htime : s'.timeline = s.timeline)
    (halg : s'.scheduler.algorithm = s.scheduler.algorithm) :
    ExecuteSpec tick (cpu + 1) r s' := by
  refine ⟨fun k i hk hki => ?_, fun k hk => ?_, fun i hi => ?_, ?_,
    htime.trans h.timeline, halg.trans h.algorithm⟩
  · by_cases hkc : k = cpu
    · subst hkc
      rw [hpid, Option.some.injEq] at hki
      subst hki
      exact ⟨by rw [hcpus, Function.update_self], hself⟩
    · have hlt : k.val < cpu.val := by
        have hne : k.val ≠ cpu.val := fun he => hkc (Fin.ext he)
        omega
      have hip : i ≠ pid := fun he => hr.not_below hpid hlt (he ▸ hki)
      rw [hcpus, Function.update_of_ne hkc, hrest i hip]
      exact h.ran k i hlt hki
  · have hkc : k ≠ cpu := by
      rintro rfl
      rcases hk with hk | hk
      · omega
      · rw [hpid] at hk
        cases hk
    rw [hcpus, Function.update_of_ne hkc]
    rcases hk with hk | hk
    · exact h.cpu_other k (.inl (by omega))
    · exact h.cpu_other k (.inr hk)
  · have hip : i ≠ pid := by
      rintro rfl
      exact hi cpu (Nat.lt_succ_self _) hpid
    rw [hrest i hip]
    exact h.other i fun k hk => hi k (by omega)
  · rw [hbusy, h.busyTicks, busyBelow_succ_of_some hpid]
    omega

theorem executeBody_spec {tick : Nat} {r s : SimState n c} (hr : CpuInv r.procs r.cpus)
    (cpu : Fin c) (h : ExecuteSpec tick cpu r s) :
    ExecuteSpec tick (cpu + 1) r (executeBody tick cpu s) := by
  have hcpu : s.cpus cpu = r.cpus cpu := h.cpu_other cpu (.inl (Nat.le_refl _))
  rw [executeBody, hcpu]
  cases hpid : (r.cpus cpu).runningPid with
  | none => exact h.idle hpid
  | some pid =>
      -- `pid` runs on no CPU below, so it is still as recorded
      have hsame : s.procs pid = r.procs pid := h.other pid fun k hk => hr.not_below hpid hk
      dsimp only
      rw [hsame]
      split
      · rename_i hrem
        exact ExecuteSpec.run hr h hpid (by simp [executeProc, hrem]) (fun i hi => by simp [hi])
          (by simp [executeCpu, hrem]) rfl rfl rfl
      · rename_i hrem
        rw [h.algorithm]
        split
        · rename_i hslice
          refine ExecuteSpec.run hr h hpid ?_ ?_ ?_ rfl rfl ?_
          · rw [setCpu_procs, enqueue_procs, Function.update_self, enqueuedProc_core,
              setProc_procs, Function.update_self]
            simp only [executeProc, hrem, hslice, if_true, if_false]
            rfl
          · intro i hi
            rw [setCpu_procs, enqueue_procs, Function.update_of_ne hi, setProc_procs,
              Function.update_of_ne hi]
          · simp only [executeCpu, hrem, hslice, if_true, if_false]
            rfl
          · rw [setCpu_scheduler, enqueue_algorithm]
            rfl
        · rename_i hslice
          exact ExecuteSpec.run hr h hpid (by simp [executeProc, hrem, hslice])
            (fun i hi => by simp [hi])
            (by simp [executeCpu, hrem, hslice, hpid]) rfl rfl rfl

/-- The execution loop, from the state recorded in the timeline. -/
theorem tickStep_spec {tick : Nat} {s : SimState n c} (hinv : SimInv (preRecord tick s)) :
    ExecuteSpec tick c (recordTimeline tick (preRecord tick s)) (tickStep tick s) := by
  refine forLoop_inv (fun k s' => ExecuteSpec tick k (recordTimeline tick (preRecord tick s)) s')
    (.start tick _) ?_
  intro cpu s' hs'
  have hcpus : CpuInv (recordTimeline tick (preRecord tick s)).procs
      (recordTimeline tick (preRecord tick s)).cpus := hinv.cpus
  exact executeBody_spec hcpus cpu hs'

end G20OsLab.Sim
