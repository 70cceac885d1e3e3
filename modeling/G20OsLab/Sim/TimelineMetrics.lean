/-
  G20OsLab.Sim.TimelineMetrics

  The exported timeline and the exported metrics describe the same run.

  `TraceInv` relates the counters of a process to the slots its pid holds in
  the rows so far: their number, the first one, the last one, and the changes
  of CPU between neighbours.  A tick extends the slots by at most one and the
  counters by exactly that.
-/

import Mathlib.Algebra.Order.Ring.Nat
import G20OsLab.Sim.Accounting
import G20OsLab.Sim.Bursts
import G20OsLab.Sim.Rows

namespace G20OsLab.Sim

open Lib (forLoop_add)

/-! ## Changes of CPU -/

/-- How many neighbours in a list differ. -/
def changes : List Nat → Nat
  | [] => 0
  | [_] => 0
  | a :: b :: l => (if a = b then 0 else 1) + changes (b :: l)

theorem changes_append_singleton {l : List Nat} {last : Nat} (x : Nat)
    (hlast : l.getLast? = some last) :
    changes (l ++ [x]) = changes l + if last = x then 0 else 1 := by
  induction l with
  | nil => cases hlast
  | cons a l ih =>
      cases l with
      | nil =>
          obtain rfl : a = last := by simpa using hlast
          simp [changes]
      | cons b l =>
          have hrest := ih (by simpa using hlast)
          simp only [List.cons_append, changes] at hrest ⊢
          rw [hrest, Nat.add_assoc]

/-! ## The slots of one process -/

/-- The counters of a process agree with the slots it has held. -/
structure TraceInv (trace : List (Nat × Nat)) (proc : ProcessRuntime) : Prop where
  runtime : proc.runtimeTicks = trace.length
  first : proc.firstRunTick = (trace.head?.elim (-1) fun slot => (slot.1 : Int))
  last : proc.lastCpu = (trace.getLast?.elim (-1) fun slot => (slot.2 : Int))
  migrations : proc.migrations = changes (trace.map Prod.snd)
  completion : proc.state = .done → proc.spec.bursts.length % 2 = 1 →
    ∃ slot, trace.getLast? = some slot ∧ proc.completionTick = slot.1 + 1

theorem initRuntime_traceInv (spec : ProcessSpec) : TraceInv [] (initRuntime spec).core where
  runtime := rfl
  first := rfl
  last := rfl
  migrations := rfl
  completion hdone := nomatch hdone

theorem TraceInv.preTick {tick : Nat} {trace : List (Nat × Nat)} {start proc : ProcessRuntime}
    (h : TraceInv trace start) (hburst : BurstInv start) (hpre : PreTick tick start proc) :
    TraceInv trace proc := by
  cases hpre with
  | notYet | running | done => exact h
  | arrived | ioNext => exact ⟨h.runtime, h.first, h.last, h.migrations, nofun⟩
  | waited | counted => exact ⟨h.runtime, h.first, h.last, h.migrations, h.completion⟩
  | ioEnded hblocked _ hlast =>
      -- a process that ends in IO has an even number of bursts
      have hodd := h.runtime
      have hindex := hburst.ioBurst hblocked
      have hlt := (hburst.pending (by simp [hblocked])).1
      exact ⟨h.runtime, h.first, h.last, h.migrations, fun _ hlen => by dsimp only at hlen; omega⟩

/-- A process on a CPU for tick `tick`: `first`, `last` and `migrations` are
    up to date, the executed tick is not counted yet. -/
structure Occupies (trace : List (Nat × Nat)) (tick cpu : Nat) (proc : ProcessRuntime) :
    Prop where
  runtime : proc.runtimeTicks = trace.length
  first : proc.firstRunTick = ((trace ++ [(tick, cpu)]).head?.elim (-1) fun slot => (slot.1 : Int))
  last : proc.lastCpu = cpu
  migrations : proc.migrations = changes ((trace ++ [(tick, cpu)]).map Prod.snd)

theorem TraceInv.dispatch {tick cpu : Nat} {trace : List (Nat × Nat)} {proc : ProcessRuntime}
    (h : TraceInv trace proc) : Occupies trace tick cpu (dispatchProc cpu tick proc) := by
  have hfirst := h.first
  have hlast := h.last
  have hmigrations := h.migrations
  refine ⟨h.runtime, ?_, rfl, ?_⟩
  · cases trace with
    | nil => simp [dispatchProc, hfirst]
    | cons slot trace =>
        simp [dispatchProc, hfirst]
  · cases hgetLast : trace.getLast? with
    | none =>
        obtain rfl := List.getLast?_eq_none_iff.mp hgetLast
        simpa [dispatchProc, hlast, changes] using hmigrations
    | some slot =>
        have hmap : (trace.map Prod.snd).getLast? = some slot.2 := by simp [hgetLast]
        rw [List.map_append, List.map_singleton, changes_append_singleton cpu hmap]
        simp only [dispatchProc, hlast, hgetLast, Option.elim_some, hmigrations]
        by_cases hsame : slot.2 = cpu
        · simp [hsame]
        · have hne : (slot.2 : Int) ≠ cpu := by omega
          simp [hsame, hne]

theorem TraceInv.stay {tick cpu : Nat} {trace : List (Nat × Nat)} {proc : ProcessRuntime}
    (h : TraceInv trace proc) (hcpu : proc.lastCpu = cpu) : Occupies trace tick cpu proc := by
  have hlast := h.last
  rw [hcpu] at hlast
  cases hgetLast : trace.getLast? with
  | none =>
      rw [hgetLast] at hlast
      simp only [Option.elim_none] at hlast
      omega
  | some slot =>
      have hmap : (trace.map Prod.snd).getLast? = some slot.2 := by simp [hgetLast]
      rw [hgetLast] at hlast
      simp only [Option.elim_some] at hlast
      refine ⟨h.runtime, ?_, hcpu, ?_⟩
      · rw [h.first]
        cases trace with
        | nil => cases hgetLast
        | cons => rfl
      · rw [List.map_append, List.map_singleton, changes_append_singleton cpu hmap,
          if_pos (by omega), Nat.add_zero]
        exact h.migrations

theorem Occupies.ran {tick cpu : Nat} {trace : List (Nat × Nat)} {proc after : ProcessRuntime}
    (h : Occupies trace tick cpu proc) (hstate : proc.state = .running)
    (hran : Ran tick proc after) : TraceInv (trace ++ [(tick, cpu)]) after := by
  have hruntime : (runProc proc).runtimeTicks = ((trace ++ [(tick, cpu)]).length : Nat) := by
    simp [runProc, h.runtime]
  have hlast : proc.lastCpu =
      ((trace ++ [(tick, cpu)]).getLast?.elim (-1) fun slot => (slot.2 : Int)) := by
    simp [h.last]
  cases hran with
  | completed =>
      exact ⟨hruntime, h.first, hlast, h.migrations, fun _ _ => ⟨(tick, cpu), by simp, rfl⟩⟩
  | blocked | preempted =>
      exact ⟨hruntime, h.first, hlast, h.migrations, fun hdone => absurd hdone (by simp)⟩
  | kept =>
      exact ⟨hruntime, h.first, hlast, h.migrations,
        fun hdone => absurd (hstate.symm.trans hdone) (by simp)⟩

/-- A tick off every CPU leaves the slots alone, a tick on one appends it. -/
theorem TraceInv.tick {c tick : Nat} {on : Fin c → Prop} {trace : List (Nat × Nat)}
    {start before record after : ProcessRuntime} (h : TraceInv trace start)
    (hburst : BurstInv start) (htick : TickOf tick on start before record after) :
    ((∀ cpu, ¬ on cpu) ∧ TraceInv trace after) ∨
      ∃ cpu, on cpu ∧ TraceInv (trace ++ [(tick, cpu.val)]) after := by
  cases htick with
  | off hpre _ hoff => exact .inl ⟨hoff, h.preTick hburst hpre⟩
  | @placed _ _ cpu hpre _ hon hran =>
      exact .inr ⟨cpu, hon, (h.preTick hburst hpre).dispatch.ran rfl hran⟩
  | @stayed _ cpu hrunning hcpu hon hran =>
      exact .inr ⟨cpu, hon, (h.stay hcpu).ran hrunning hran⟩

/-- A process has arrived by every tick it is on a CPU. -/
theorem Balance.arrival_le {c tick ready running blocked placed : Nat} {on : Fin c → Prop}
    {start before record after : ProcessRuntime}
    (h : Balance tick ready running blocked placed start)
    (htick : TickOf tick on start before record after) {cpu : Fin c} (hon : on cpu) :
    start.spec.arrival ≤ tick := by
  cases htick with
  | off _ _ hoff => exact absurd hon (hoff cpu)
  | placed hpre hready _ _ =>
      have helapsed := (h.preTick hpre).active (by simp [hready]) (by simp [hready])
      rw [hpre.spec] at helapsed
      omega
  | stayed hrunning _ _ _ =>
      have helapsed := h.active (by simp [hrunning]) (by simp [hrunning])
      omega

/-! ## Along a run -/

section Run

variable {w : WfWorkload} {config : SimulationConfig} {algorithm : AlgorithmKind}

theorem onCpu_arrival_le {i : Fin w.processCount} {tick : Nat} {cpu : Fin config.cpuCount}
    (hon : OnCpu w.toWorkload config algorithm i tick cpu) : (w.processes i).arrival ≤ tick := by
  have hbalance := procAt_balance config algorithm w.count_le i
    (w.wellFormed i).arrival_nonneg tick
  have harrival := hbalance.arrival_le (procAt_tick config algorithm w.count_le i tick) hon
  rw [procAt_spec config algorithm w.count_le] at harrival
  exact harrival

theorem procAt_traceInv (hpids : Function.Injective fun i => (w.processes i).pid) {T : Nat}
    {t : Timeline} (ht : HoldsRows w.toWorkload config algorithm T t) (i : Fin w.processCount)
    {k : Nat} (hk : k ≤ T) :
    TraceInv (t.slotsBelow (w.processes i).pid k) (procAt w.toWorkload config algorithm i k) := by
  have hpos : ∀ i, 0 < (w.processes i).pid := fun i => (w.wellFormed i).pid_pos
  induction k with
  | zero => exact initRuntime_traceInv (w.processes i)
  | succ k ih =>
      rw [Timeline.slotsBelow_succ]
      have hprev := ih (by omega)
      rcases hprev.tick (procAt_burstInv config algorithm i k)
          (procAt_tick config algorithm w.count_le i k) with
        ⟨hoff, hafter⟩ | ⟨cpu, hon, hafter⟩
      · rw [ht.rowOf_off w.count_le hpids hpos (by omega) hoff, List.append_nil]
        exact hafter
      · rw [ht.rowOf_on w.count_le hpids hpos (by omega) hon]
        exact hafter

/-- `busy_ticks` counts the busy slots of the rows so far. -/
theorem stateAt_busyTicks {T : Nat} {t : Timeline}
    (ht : HoldsRows w.toWorkload config algorithm T t) {k : Nat} (hk : k ≤ T) :
    (stateAt w.toWorkload config algorithm k).busyTicks =
      (((List.range k).map t.busyInRow).sum : Nat) := by
  have hpos : ∀ i, 0 < (w.processes i).pid := fun i => (w.wellFormed i).pid_pos
  induction k with
  | zero => rfl
  | succ k ih =>
      have hprev := ih (by omega)
      have hbefore : (recordTimeline k (recordAt w.toWorkload config algorithm k)).busyTicks =
          (stateAt w.toWorkload config algorithm k).busyTicks :=
        (preRecord_spec (preDispatch_stateAt_inv config algorithm w.count_le k)).busyTicks.trans
          (preDispatch_outside ..).busyTicks
      have hafter := (tickStep_spec (recordAt_inv config algorithm w.count_le k)).busyTicks
      have hrow : t.busyInRow k = (busyBelow config.cpuCount
          (recordTimeline k (recordAt w.toWorkload config algorithm k))).card :=
        ht.busyInRow_eq w.count_le hpos (by omega)
      rw [stateAt_succ, List.range_succ, List.map_append, List.sum_append, List.map_singleton,
        List.sum_singleton, hrow]
      rw [Nat.cast_add, ← hprev, ← hbefore]
      exact hafter

theorem procAt_cpuTime {i : Fin w.processCount} {T : Nat}
    (hdone : (procAt w.toWorkload config algorithm i T).state = .done) :
    (procAt w.toWorkload config algorithm i T).runtimeTicks =
      (((w.processes i).bursts.filter fun b => decide (b.type = .cpu)).map Burst.duration).sum := by
  have hindex := (procAt_burstInv config algorithm i T).finished hdone
  rw [← procAt_served, served, if_pos (.inr hdone), hindex, procAt_spec config algorithm w.count_le,
    ProcessSpec.cpuTime, List.take_length, Int.add_zero]

end Run

/-! ## The exported result -/

/-- The timeline of a result and its metrics describe the same run, which left
    the table `procs`. -/
structure TimelineAgrees (w : Workload) (procs : ProcTable w.processCount)
    (result : SimulationResult) : Prop where
  rows : result.timeline.tickCount = result.metrics.totalTicks
  /-- A pid is at most once in a row. -/
  once : ∀ i, ∀ tick : Nat, tick < result.timeline.tickCount →
    (result.timeline.rowOf (w.processes i).pid tick).length ≤ 1
  /-- A pid is in no row before its arrival. -/
  arrived : ∀ i, ∀ slot ∈ result.timeline.slotsOf (w.processes i).pid,
    (w.processes i).arrival ≤ slot.1
  busy : result.metrics.busyTicks = result.timeline.busySlots
  busy_le : result.metrics.busyTicks ≤ result.metrics.totalTicks * result.metrics.cpuCount
  runtime : ∀ i,
    ((result.timeline.slotsOf (w.processes i).pid).length : Int) = (procs i).runtimeTicks
  served : ∀ i, (procs i).state = .done →
    ((result.timeline.slotsOf (w.processes i).pid).length : Int) =
      (((w.processes i).bursts.filter fun b => decide (b.type = .cpu)).map Burst.duration).sum
  migrations : result.metrics.migrations =
    ∑ i, (changes ((result.timeline.slotsOf (w.processes i).pid).map Prod.snd) : Int)
  first_run : ∀ i, (procs i).firstRunTick =
    (result.timeline.slotsOf (w.processes i).pid).head?.elim (-1) fun slot => (slot.1 : Int)
  completion : ∀ i, (procs i).state = .done →
    (∀ b ∈ (w.processes i).bursts.getLast?, b.type = .cpu) →
    ∃ slot, (result.timeline.slotsOf (w.processes i).pid).getLast? = some slot ∧
      (procs i).completionTick = slot.1 + 1

/-- A burst list that ends with a CPU burst has odd length. -/
theorem ProcessSpec.WellFormed.length_odd {spec : ProcessSpec} (hwf : spec.WellFormed)
    (hlast : ∀ b ∈ spec.bursts.getLast?, b.type = .cpu) : spec.bursts.length % 2 = 1 := by
  have hpos := hwf.bursts_pos
  have hget : spec.bursts.getLast? = some (spec.bursts.get ⟨spec.bursts.length - 1, by omega⟩) := by
    rw [List.getLast?_eq_getElem?]
    exact List.getElem?_eq_getElem _
  have hcpu := hlast _ hget
  rw [hwf.alternates (spec.bursts.length - 1) (by omega)] at hcpu
  by_contra hodd
  rw [if_neg (by omega)] at hcpu
  cases hcpu

theorem Timeline.mem_slotsBelow {t : Timeline} {pid : Int} {rows : Nat} {slot : Nat × Nat} :
    slot ∈ t.slotsBelow pid rows ↔ ∃ tick < rows, slot ∈ t.rowOf pid tick := by
  simp [slotsBelow, List.mem_flatMap]

theorem Timeline.sum_busyInRow_le (t : Timeline) (rows : Nat) :
    ((List.range rows).map t.busyInRow).sum ≤ rows * t.cpuCount := by
  have hrow : ∀ k ∈ (List.range rows).map t.busyInRow, k ≤ t.cpuCount := by
    intro k hk
    obtain ⟨tick, -, rfl⟩ := List.mem_map.mp hk
    have hle : t.busyInRow tick ≤ (List.range t.cpuCount).length := List.countP_le_length
    rwa [List.length_range] at hle
  have hsum := List.sum_le_card_nsmul _ _ hrow
  simpa using hsum

section Export

variable {w : WfWorkload} {config : SimulationConfig} {algorithm : AlgorithmKind} {T : Nat}
  {t : Timeline}

/-- In a row the pid of a process stands nowhere, or once, after its arrival. -/
theorem HoldsRows.rowOf_cases (ht : HoldsRows w.toWorkload config algorithm T t)
    (hpids : Function.Injective fun i => (w.processes i).pid) (i : Fin w.processCount)
    {tick : Nat} (htick : tick < T) :
    t.rowOf (w.processes i).pid tick = [] ∨
      ∃ cpu, t.rowOf (w.processes i).pid tick = [(tick, cpu)] ∧
        (w.processes i).arrival ≤ tick := by
  have hpos : ∀ i, 0 < (w.processes i).pid := fun i => (w.wellFormed i).pid_pos
  by_cases hon : ∃ cpu, OnCpu w.toWorkload config algorithm i tick cpu
  · obtain ⟨cpu, hcpu⟩ := hon
    exact .inr ⟨cpu, ht.rowOf_on w.count_le hpids hpos htick hcpu, onCpu_arrival_le hcpu⟩
  · exact .inl (ht.rowOf_off w.count_le hpids hpos htick fun cpu hcpu => hon ⟨cpu, hcpu⟩)

/-- A timeline that holds the rows below `T` agrees with the metrics collected
    after `T` ticks. -/
theorem HoldsRows.agrees (ht : HoldsRows w.toWorkload config algorithm T t)
    (hpids : Function.Injective fun i => (w.processes i).pid) (hcount : t.tickCount = T) :
    TimelineAgrees w.toWorkload (stateAt w.toWorkload config algorithm T).procs
      { metrics := collectMetrics config algorithm (stateAt w.toWorkload config algorithm T).procs T
          (stateAt w.toWorkload config algorithm T).busyTicks
        timeline := t } := by
  have hslots : ∀ pid, t.slotsOf pid = t.slotsBelow pid T := by
    intro pid
    rw [Timeline.slotsOf, hcount, Int.toNat_natCast]
  have htrace : ∀ i, TraceInv (t.slotsOf (w.processes i).pid)
      (procAt w.toWorkload config algorithm i T) := by
    intro i
    rw [hslots]
    exact procAt_traceInv hpids ht i (Nat.le_refl T)
  have hbusy : (stateAt w.toWorkload config algorithm T).busyTicks = t.busySlots := by
    rw [stateAt_busyTicks ht (Nat.le_refl T), Timeline.busySlots, hcount, Int.toNat_natCast]
  refine
    { rows := hcount
      once := fun i tick htick => ?_
      arrived := fun i slot hslot => ?_
      busy := hbusy
      busy_le := ?_
      runtime := fun i => (htrace i).runtime.symm
      served := fun i hdone => (htrace i).runtime.symm.trans (procAt_cpuTime hdone)
      migrations := ?_
      first_run := fun i => (htrace i).first
      completion := fun i hdone hlast => ?_ }
  -- a process has at most one slot in a row
  · have hlt : tick < T := by
      dsimp only at htick
      omega
    rcases ht.rowOf_cases hpids i hlt with hrow | ⟨cpu, hrow, -⟩
    · simp [hrow]
    · simp [hrow]
  · dsimp only at hslot
    rw [hslots, Timeline.mem_slotsBelow] at hslot
    obtain ⟨tick, hlt, hmem⟩ := hslot
    rcases ht.rowOf_cases hpids i hlt with hrow | ⟨cpu, hrow, harrival⟩
    · rw [hrow] at hmem
      cases hmem
    · rw [hrow, List.mem_singleton] at hmem
      rw [hmem]
      exact harrival
  -- a row has at most one busy slot for each CPU
  · have hle := t.sum_busyInRow_le T
    rw [ht.cpuCount] at hle
    have hbusy' := stateAt_busyTicks ht (Nat.le_refl T)
    dsimp only [collectMetrics]
    rw [hbusy']
    exact_mod_cast hle
  · have hsum := forLoop_add (fun i : Fin w.processCount =>
      ((stateAt w.toWorkload config algorithm T).procs i).migrations) 0
    dsimp only [collectMetrics]
    rw [hsum, Int.zero_add]
    exact Finset.sum_congr rfl fun i _ => (htrace i).migrations
  · apply (htrace i).completion hdone
    rw [procAt_spec config algorithm w.count_le]
    exact (w.wellFormed i).length_odd hlast

end Export

/-- What `run_simulation` returns: the table after the executed ticks, and the
    number of these on both exits. -/
theorem runSimulation_eq {w : Workload} {config : SimulationConfig} {algorithm : AlgorithmKind}
    (hmax : 0 ≤ config.maxTicks) {mallocOk : Bool} {result : SimulationResult}
    (hresult : runSimulation w config algorithm mallocOk = some result) :
    result =
      { metrics := collectMetrics config algorithm (runLoop w config algorithm).state.procs
          (runLoop w config algorithm).ticks (runLoop w config algorithm).state.busyTicks
        timeline := { (runLoop w config algorithm).state.timeline with
          tickCount := (runLoop w config algorithm).ticks } } := by
  have hends := runLoop_spec w config algorithm
  have htotal : (if (runLoop w config algorithm).exitedDone then
      ((runLoop w config algorithm).ticks : Int) else config.maxTicks) =
        (runLoop w config algorithm).ticks := by
    split
    · rfl
    · rename_i hexit
      have hfull := hends.full (by simpa using hexit)
      omega
  rw [runSimulation] at hresult
  split at hresult
  · simp only [htotal, Option.some.injEq] at hresult
    exact hresult.symm
  · cases hresult

/-- **The timeline and the metrics agree.**  For distinct pids every number
    `run_simulation` reports can be read off the timeline it exports. -/
theorem timeline_agrees (w : WfWorkload)
    (hpids : Function.Injective fun i => (w.processes i).pid) (config : SimulationConfig)
    (algorithm : AlgorithmKind) (hmax : 1 ≤ config.maxTicks) (mallocOk : Bool)
    (result : SimulationResult)
    (hresult : runSimulation w.toWorkload config algorithm mallocOk = some result) :
    TimelineAgrees w.toWorkload (runLoop w.toWorkload config algorithm).state.procs result := by
  have hends := runLoop_spec w.toWorkload config algorithm
  rw [runSimulation_eq (by omega) hresult, hends.state]
  have hle := hends.ticks_le
  have hrows : HoldsRows w.toWorkload config algorithm (runLoop w.toWorkload config algorithm).ticks
      (stateAt w.toWorkload config algorithm
        (runLoop w.toWorkload config algorithm).ticks).timeline :=
    stateAt_holdsRows w.count_le (by omega)
  exact HoldsRows.agrees ⟨hrows.cpuCount, hrows.length, hrows.row⟩ hpids rfl

/-- Three processes under MLFQ, cut off after five ticks. -/
theorem timeline_agrees_mixedJobs :
    TimelineAgrees mixedJobs.toWorkload (runLoop mixedJobs.toWorkload (oneCpu 5) .mlfq).state.procs
      ((runSimulation mixedJobs.toWorkload (oneCpu 5) .mlfq true).get rfl) :=
  timeline_agrees mixedJobs (by decide) (oneCpu 5) .mlfq (by decide) true _
    (Option.some_get _).symm

end G20OsLab.Sim
