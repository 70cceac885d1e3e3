/-
  G20OsLab.Sim.Rows

  What the flat array of the timeline holds.

  `record_timeline` writes one row of `cpu_count` slots in every tick and no
  other row, so after the run slot `tick * cpu_count + cpu` still holds the
  pid that was on that CPU in that tick (`slot_eq_rowEntry`).  `slotsOf` reads
  the slots of one pid back, in tick order.
-/

import G20OsLab.Sim.Trajectory

namespace G20OsLab.Sim

open Lib (forLoop_inv)

variable {n c : Nat}

/-! ## Reading a timeline -/

/-- The slot of CPU `cpu` in row `tick`. -/
def Timeline.slot (t : Timeline) (tick cpu : Nat) : Int :=
  t.slots.getD (tick * t.cpuCount + cpu) (-1)

/-- The slots of row `tick` that hold `pid`, as pairs of tick and CPU. -/
def Timeline.rowOf (t : Timeline) (pid : Int) (tick : Nat) : List (Nat × Nat) :=
  ((List.range t.cpuCount).filter fun cpu => decide (t.slot tick cpu = pid)).map
    fun cpu => (tick, cpu)

/-- The slots of the first `rows` rows that hold `pid`, in tick order. -/
def Timeline.slotsBelow (t : Timeline) (pid : Int) (rows : Nat) : List (Nat × Nat) :=
  (List.range rows).flatMap (t.rowOf pid)

/-- The slots of the first `tick_count` rows that hold `pid`. -/
def Timeline.slotsOf (t : Timeline) (pid : Int) : List (Nat × Nat) :=
  t.slotsBelow pid t.tickCount.toNat

/-- How many slots of row `tick` are not idle. -/
def Timeline.busyInRow (t : Timeline) (tick : Nat) : Nat :=
  (List.range t.cpuCount).countP fun cpu => decide (t.slot tick cpu ≠ -1)

/-- How many slots of the first `tick_count` rows are not idle. -/
def Timeline.busySlots (t : Timeline) : Nat :=
  ((List.range t.tickCount.toNat).map t.busyInRow).sum

theorem Timeline.slotsBelow_succ (t : Timeline) (pid : Int) (rows : Nat) :
    t.slotsBelow pid (rows + 1) = t.slotsBelow pid rows ++ t.rowOf pid rows := by
  simp [slotsBelow, List.range_succ, List.flatMap_append]

/-- A filter that one entry passes leaves that entry. -/
theorem filter_range_eq_singleton {p : Nat → Bool} {a : Nat} (ha : a < c)
    (hp : ∀ b < c, p b = true ↔ b = a) : (List.range c).filter p = [a] := by
  have hcongr : (List.range c).filter p = (List.range c).filter fun b => b == a :=
    List.filter_congr fun b hb => by
      rw [Bool.eq_iff_iff, hp b (List.mem_range.mp hb), beq_iff_eq]
  rw [hcongr, List.filter_beq, List.count_eq_one_of_mem List.nodup_range (List.mem_range.mpr ha)]
  rfl

/-! ## Writing a row -/

/-- What `record_timeline` writes for one CPU. -/
def rowEntry (s : SimState n c) (cpu : Fin c) : Int :=
  match (s.cpus cpu).runningPid with
  | some i => (s.procs i).spec.pid
  | none => -1

/-- `slots'` is `slots` with the first `k` entries of row `tick` written. -/
structure RowWritten (tick k : Nat) (s : SimState n c) (slots slots' : List Int) : Prop where
  length : slots'.length = slots.length
  row : ∀ cpu : Fin c, cpu.val < k → tick * c + cpu < slots.length →
    slots'[tick * c + cpu]? = some (rowEntry s cpu)
  above : ∀ index < tick * c, slots'[index]? = slots[index]?

theorem recordBody_written {tick : Nat} {s : SimState n c} {slots slots' : List Int} (cpu : Fin c)
    (h : RowWritten tick cpu s slots slots') :
    RowWritten tick (cpu + 1) s slots (recordBody tick s.procs s.cpus cpu slots') := by
  rw [recordBody]
  refine ⟨by rw [List.length_set, h.length], ?_, ?_⟩
  · intro k hk hlt
    by_cases hkc : k = cpu
    · subst hkc
      rw [List.getElem?_set_self (by rw [h.length]; exact hlt)]
      rfl
    · have hne : k.val ≠ cpu.val := fun he => hkc (Fin.ext he)
      rw [List.getElem?_set_ne (by omega)]
      exact h.row k (by omega) hlt
  · intro index hindex
    rw [List.getElem?_set_ne (by omega)]
    exact h.above index hindex

theorem recordTimeline_written (tick : Nat) (s : SimState n c) :
    RowWritten tick c s s.timeline.slots (recordTimeline tick s).timeline.slots :=
  forLoop_inv (fun k slots => RowWritten tick k s s.timeline.slots slots)
    ⟨rfl, fun _ hk _ => absurd hk (Nat.not_lt_zero _), fun _ _ => rfl⟩
    fun cpu _ h => recordBody_written cpu h

/-! ## The rows of a run -/

section Run

variable {w : Workload} {config : SimulationConfig} {algorithm : AlgorithmKind}

/-- The array of `t` holds the rows of the ticks below `T`. -/
structure HoldsRows (w : Workload) (config : SimulationConfig) (algorithm : AlgorithmKind)
    (T : Nat) (t : Timeline) : Prop where
  cpuCount : t.cpuCount = config.cpuCount
  length : t.slots.length = config.maxTicks.toNat * config.cpuCount
  row : ∀ tick < T, ∀ cpu : Fin config.cpuCount,
    t.slots[tick * config.cpuCount + cpu]? = some (rowEntry (recordAt w config algorithm tick) cpu)

/-- Slot indices of earlier rows come before later rows. -/
theorem slotIndex_lt {tick T cpu : Nat} (htick : tick < T) (hcpu : cpu < c) :
    tick * c + cpu < T * c := by
  have hrow : (tick + 1) * c ≤ T * c := Nat.mul_le_mul_right c htick
  rw [Nat.succ_mul] at hrow
  omega

theorem stateAt_holdsRows (hn : w.processCount ≤ maxProcesses) {T : Nat}
    (hT : T ≤ config.maxTicks.toNat) :
    HoldsRows w config algorithm T (stateAt w config algorithm T).timeline := by
  induction T with
  | zero =>
      refine ⟨rfl, ?_, fun _ htick => absurd htick (Nat.not_lt_zero _)⟩
      have hmul : (config.cpuCount * config.maxTicks).toNat =
          config.maxTicks.toNat * config.cpuCount := by
        rcases Int.le_total 0 config.maxTicks with hmax | hmax
        · rw [Int.toNat_mul (Int.natCast_nonneg _) hmax, Int.toNat_natCast, Nat.mul_comm]
        · rw [Int.toNat_of_nonpos hmax, Nat.zero_mul, Int.toNat_of_nonpos]
          exact Int.mul_nonpos_of_nonneg_of_nonpos (Int.natCast_nonneg _) hmax
      simp [initialState, hmul]
  | succ T ih =>
      have hrows := ih (by omega)
      have hbefore : (recordAt w config algorithm T).timeline =
          (stateAt w config algorithm T).timeline :=
        (preRecord_spec (preDispatch_stateAt_inv config algorithm hn T)).timeline.trans
          (preDispatch_outside ..).timeline
      have hwritten := recordTimeline_written T (recordAt w config algorithm T)
      rw [hbefore] at hwritten
      have hafter : (stateAt w config algorithm (T + 1)).timeline =
          (recordTimeline T (recordAt w config algorithm T)).timeline :=
        (tickStep_spec (recordAt_inv config algorithm hn T)).timeline
      rw [hafter]
      refine ⟨?_, hwritten.length.trans hrows.length, ?_⟩
      · have hcount : (recordTimeline T (recordAt w config algorithm T)).timeline.cpuCount =
            (recordAt w config algorithm T).timeline.cpuCount := rfl
        rw [hcount, hbefore, hrows.cpuCount]
      -- the tick writes its own row and no earlier one
      · intro tick htick cpu
        by_cases hlast : tick = T
        · subst hlast
          apply hwritten.row cpu cpu.isLt
          rw [hrows.length]
          exact slotIndex_lt (by omega) cpu.isLt
        · rw [hwritten.above _ (slotIndex_lt (by omega) cpu.isLt)]
          exact hrows.row tick (by omega) cpu

theorem HoldsRows.slot_eq {T : Nat} {t : Timeline} (h : HoldsRows w config algorithm T t)
    {tick : Nat} (htick : tick < T) (cpu : Fin config.cpuCount) :
    t.slot tick cpu = rowEntry (recordAt w config algorithm tick) cpu := by
  rw [Timeline.slot, h.cpuCount, List.getD_eq_getElem?_getD, h.row tick htick cpu]
  rfl

/-- A slot holds the pid of a process exactly where the process is on that
    CPU. -/
theorem HoldsRows.slot_eq_pid_iff (hn : w.processCount ≤ maxProcesses)
    (hpids : Function.Injective fun i => (w.processes i).pid)
    (hpos : ∀ i, 0 < (w.processes i).pid) {T : Nat} {t : Timeline}
    (h : HoldsRows w config algorithm T t) {tick : Nat} (htick : tick < T)
    (cpu : Fin config.cpuCount) (i : Fin w.processCount) :
    t.slot tick cpu = (w.processes i).pid ↔ OnCpu w config algorithm i tick cpu := by
  have hspec : ∀ j, ((recordAt w config algorithm tick).procs j).spec = w.processes j := fun j =>
    procInRow_spec config algorithm hn j tick
  rw [h.slot_eq htick, rowEntry, OnCpu]
  cases ((recordAt w config algorithm tick).cpus cpu).runningPid with
  | none =>
      have hne := hpos i
      simp only [reduceCtorEq, iff_false]
      omega
  | some j =>
      simp only [hspec, Option.some.injEq]
      exact ⟨fun he => hpids he, fun he => he ▸ rfl⟩

theorem HoldsRows.slot_ne_idle_iff (hn : w.processCount ≤ maxProcesses)
    (hpos : ∀ i, 0 < (w.processes i).pid) {T : Nat} {t : Timeline}
    (h : HoldsRows w config algorithm T t) {tick : Nat} (htick : tick < T)
    (cpu : Fin config.cpuCount) :
    t.slot tick cpu ≠ -1 ↔
      (((recordAt w config algorithm tick).cpus cpu).runningPid).isSome = true := by
  have hspec : ∀ j, ((recordAt w config algorithm tick).procs j).spec = w.processes j := fun j =>
    procInRow_spec config algorithm hn j tick
  rw [h.slot_eq htick, rowEntry]
  cases ((recordAt w config algorithm tick).cpus cpu).runningPid with
  | none => simp
  | some j =>
      have hne := hpos j
      simp only [hspec, Option.isSome_some, iff_true]
      omega

/-- The row of a process on no CPU. -/
theorem HoldsRows.rowOf_off (hn : w.processCount ≤ maxProcesses)
    (hpids : Function.Injective fun i => (w.processes i).pid)
    (hpos : ∀ i, 0 < (w.processes i).pid) {T : Nat} {t : Timeline}
    (h : HoldsRows w config algorithm T t) {tick : Nat} (htick : tick < T)
    {i : Fin w.processCount} (hoff : ∀ cpu, ¬ OnCpu w config algorithm i tick cpu) :
    t.rowOf (w.processes i).pid tick = [] := by
  rw [Timeline.rowOf, List.map_eq_nil_iff, List.filter_eq_nil_iff]
  intro cpu hcpu
  rw [h.cpuCount, List.mem_range] at hcpu
  rw [decide_eq_true_iff, h.slot_eq_pid_iff hn hpids hpos htick ⟨cpu, hcpu⟩]
  exact hoff _

/-- The row of a process on a CPU: that CPU, once. -/
theorem HoldsRows.rowOf_on (hn : w.processCount ≤ maxProcesses)
    (hpids : Function.Injective fun i => (w.processes i).pid)
    (hpos : ∀ i, 0 < (w.processes i).pid) {T : Nat} {t : Timeline}
    (h : HoldsRows w config algorithm T t) {tick : Nat} (htick : tick < T)
    {i : Fin w.processCount} {cpu : Fin config.cpuCount}
    (hon : OnCpu w config algorithm i tick cpu) :
    t.rowOf (w.processes i).pid tick = [(tick, cpu.val)] := by
  have hfilter : (List.range t.cpuCount).filter
      (fun k => decide (t.slot tick k = (w.processes i).pid)) = [cpu.val] := by
    rw [h.cpuCount]
    refine filter_range_eq_singleton cpu.isLt ?_
    intro k hk
    rw [decide_eq_true_iff, h.slot_eq_pid_iff hn hpids hpos htick ⟨k, hk⟩]
    constructor
    · intro hk'
      exact congrArg Fin.val ((recordAt_inv config algorithm hn tick).cpus.inj _ _ i hk' hon)
    · rintro rfl
      exact hon
  rw [Timeline.rowOf, hfilter]
  rfl

/-- The busy slots of a row are the busy CPUs. -/
theorem HoldsRows.busyInRow_eq (hn : w.processCount ≤ maxProcesses)
    (hpos : ∀ i, 0 < (w.processes i).pid) {T : Nat} {t : Timeline}
    (h : HoldsRows w config algorithm T t) {tick : Nat} (htick : tick < T) :
    t.busyInRow tick = (busyBelow config.cpuCount (recordAt w config algorithm tick)).card := by
  have hcard : (busyBelow config.cpuCount (recordAt w config algorithm tick)).card =
      (List.finRange config.cpuCount).countP fun cpu =>
        (((recordAt w config algorithm tick).cpus cpu).runningPid).isSome := by
    rw [List.countP_eq_length_filter, busyBelow, Finset.card_def, Finset.filter_val, Fin.univ_def]
    simp
  rw [hcard, Timeline.busyInRow, h.cpuCount, ← List.map_coe_finRange_eq_range, List.countP_map]
  refine List.countP_congr ?_
  intro cpu _
  rw [Function.comp_apply, decide_eq_true_iff, h.slot_ne_idle_iff hn hpos htick cpu]

end Run

end G20OsLab.Sim
