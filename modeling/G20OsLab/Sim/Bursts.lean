/-
  G20OsLab.Sim.Bursts

  How far a process is through its bursts.

  `BurstInv` ties the state of a process to its place in the burst list,
  `workLeft` is the time its bursts still take, `served` the CPU time it has
  had.  A tick takes one off `workLeft` for a `BLOCKED` process and one for a
  process on a CPU, and adds one to `served` for the latter.
-/

import Mathlib.Algebra.Order.BigOperators.Group.List
import G20OsLab.Sim.Trajectory

namespace G20OsLab.Sim

/-! ## Sums over the burst list -/

theorem ProcessSpec.durationAt_of_lt {spec : ProcessSpec} {k : Nat} (h : k < spec.bursts.length) :
    spec.durationAt k = (spec.bursts.get ⟨k, h⟩).duration := by
  simp [ProcessSpec.durationAt, h]

theorem ProcessSpec.WellFormed.one_le_durationAt {spec : ProcessSpec} (hwf : spec.WellFormed)
    {k : Nat} (h : k < spec.bursts.length) : 1 ≤ spec.durationAt k := by
  rw [spec.durationAt_of_lt h]
  exact hwf.duration_pos _ (List.get_mem ..)

/-- The time the bursts from index `k` on take. -/
def ProcessSpec.workFrom (spec : ProcessSpec) (k : Nat) : Int :=
  ((spec.bursts.drop k).map Burst.duration).sum

theorem ProcessSpec.workFrom_of_lt {spec : ProcessSpec} {k : Nat} (h : k < spec.bursts.length) :
    spec.workFrom k = spec.durationAt k + spec.workFrom (k + 1) := by
  rw [workFrom, List.drop_eq_getElem_cons h, List.map_cons, List.sum_cons, durationAt_of_lt h]
  rfl

theorem ProcessSpec.workFrom_of_le {spec : ProcessSpec} {k : Nat} (h : spec.bursts.length ≤ k) :
    spec.workFrom k = 0 := by
  rw [workFrom, List.drop_eq_nil_of_le h]
  rfl

theorem ProcessSpec.WellFormed.workFrom_nonneg {spec : ProcessSpec} (hwf : spec.WellFormed)
    (k : Nat) : 0 ≤ spec.workFrom k := by
  refine List.sum_nonneg ?_
  intro d hd
  obtain ⟨b, hb, rfl⟩ := List.mem_map.mp hd
  have hpos := hwf.duration_pos b (List.mem_of_mem_drop hb)
  omega

/-- The CPU time of the first `k` bursts. -/
def ProcessSpec.cpuTime (spec : ProcessSpec) (k : Nat) : Int :=
  (((spec.bursts.take k).filter fun b => decide (b.type = .cpu)).map Burst.duration).sum

@[simp] theorem ProcessSpec.cpuTime_zero (spec : ProcessSpec) : spec.cpuTime 0 = 0 := rfl

theorem ProcessSpec.cpuTime_succ {spec : ProcessSpec} (halt : spec.Alternates) {k : Nat}
    (h : k < spec.bursts.length) :
    spec.cpuTime (k + 1) = spec.cpuTime k + if k % 2 = 0 then spec.durationAt k else 0 := by
  have htype := halt k h
  rw [cpuTime, List.take_succ_eq_append_getElem h, List.filter_append, List.map_append,
    List.sum_append, durationAt_of_lt h]
  simp only [List.get_eq_getElem] at htype ⊢
  by_cases hk : k % 2 = 0
  · simp [cpuTime, htype, hk]
  · simp [cpuTime, htype, hk]

/-! ## The place in the burst list -/

/-- The state of a process agrees with its place in the burst list. -/
structure BurstInv (proc : ProcessRuntime) : Prop where
  pending : proc.state ≠ .done →
    proc.burstIndex < proc.spec.bursts.length ∧ 1 ≤ proc.remainingInBurst
  finished : proc.state = .done → proc.burstIndex = proc.spec.bursts.length
  ioBurst : proc.state = .blocked → proc.burstIndex % 2 = 1
  cpuBurst : proc.state ≠ .blocked → proc.state ≠ .done → proc.burstIndex % 2 = 0

/-- A process begins before its first burst. -/
theorem initRuntime_burstInv {spec : ProcessSpec} (hwf : spec.WellFormed) :
    BurstInv (initRuntime spec).core where
  pending _ := ⟨hwf.bursts_pos, hwf.one_le_durationAt hwf.bursts_pos⟩
  finished hdone := nomatch hdone
  ioBurst hblocked := nomatch hblocked
  cpuBurst _ _ := rfl

/-- Until the dispatch phase the bursts are kept. -/
theorem BurstInv.preTick {tick : Nat} {start proc : ProcessRuntime} (h : BurstInv start)
    (hwf : start.spec.WellFormed) (hpre : PreTick tick start proc) : BurstInv proc := by
  cases hpre with
  | notYet | running | done => exact h
  | arrived hnew _ =>
      exact ⟨fun _ => h.pending (by simp [hnew]), nofun, nofun,
        fun _ _ => h.cpuBurst (by simp [hnew]) (by simp [hnew])⟩
  | waited => exact ⟨h.pending, h.finished, h.ioBurst, h.cpuBurst⟩
  | counted hblocked hrem =>
      refine ⟨fun hdone => ⟨(h.pending hdone).1, ?_⟩, h.finished, h.ioBurst, h.cpuBurst⟩
      dsimp only
      omega
  | ioEnded hblocked _ hlast =>
      have hlt := (h.pending (by simp [hblocked])).1
      exact ⟨fun hdone => absurd rfl hdone, fun _ => by dsimp only; omega, nofun,
        fun _ hdone => absurd rfl hdone⟩
  | ioNext hblocked _ hnext =>
      have hodd := h.ioBurst hblocked
      exact ⟨fun _ => ⟨hnext, hwf.one_le_durationAt hnext⟩, nofun, nofun,
        fun _ _ => by dsimp only; omega⟩

/-- A dispatch keeps the bursts. -/
theorem BurstInv.dispatch {cpu tick : Nat} {proc : ProcessRuntime} (h : BurstInv proc)
    (hready : proc.state = .ready) : BurstInv (dispatchProc cpu tick proc) where
  pending _ := h.pending (by simp [hready])
  finished hdone := nomatch hdone
  ioBurst hblocked := nomatch hblocked
  cpuBurst _ _ := h.cpuBurst (by simp [hready]) (by simp [hready])

/-- A tick of execution keeps the bursts. -/
theorem BurstInv.ran {tick : Nat} {proc after : ProcessRuntime} (h : BurstInv proc)
    (hwf : proc.spec.WellFormed) (hstate : proc.state = .running) (hran : Ran tick proc after) :
    BurstInv after := by
  have hpending := h.pending (by simp [hstate])
  have heven := h.cpuBurst (by simp [hstate]) (by simp [hstate])
  cases hran with
  | completed _ hlast =>
      exact ⟨fun hdone => absurd rfl hdone, fun _ => by dsimp only [runProc]; omega, nofun,
        fun _ hdone => absurd rfl hdone⟩
  | blocked _ hnext =>
      exact ⟨fun _ => ⟨hnext, hwf.one_le_durationAt hnext⟩, nofun,
        fun _ => by dsimp only; omega, fun hblocked => absurd rfl hblocked⟩
  | preempted hrem =>
      exact ⟨fun _ => ⟨hpending.1, by dsimp only [runProc]; omega⟩, nofun, nofun,
        fun _ _ => heven⟩
  | kept hrem =>
      exact ⟨fun _ => ⟨hpending.1, by dsimp only [runProc]; omega⟩,
        fun hdone => absurd (hstate.symm.trans hdone) nofun,
        fun hblocked => absurd (hstate.symm.trans hblocked) nofun, fun _ _ => heven⟩

/-! ## Work left -/

/-- The time the bursts of a process still take, its current one included. -/
def workLeft (proc : ProcessRuntime) : Int :=
  if proc.state = .done then 0 else proc.remainingInBurst + proc.spec.workFrom (proc.burstIndex + 1)

/-- No work is left below zero. -/
theorem BurstInv.workLeft_nonneg {proc : ProcessRuntime} (h : BurstInv proc)
    (hwf : proc.spec.WellFormed) : 0 ≤ workLeft proc := by
  rw [workLeft]
  split
  · exact le_refl 0
  · rename_i hdone
    have hrem := (h.pending hdone).2
    have hrest := hwf.workFrom_nonneg (proc.burstIndex + 1)
    omega

/-- At the beginning all the work is left. -/
theorem initRuntime_workLeft {spec : ProcessSpec} (hwf : spec.WellFormed) :
    workLeft (initRuntime spec).core = spec.workFrom 0 :=
  (ProcessSpec.workFrom_of_lt hwf.bursts_pos).symm

/-- Before dispatch a `BLOCKED` process works one tick off. -/
theorem PreTick.workLeft {tick : Nat} {start proc : ProcessRuntime} (hpre : PreTick tick start proc)
    (h : BurstInv start) :
    workLeft proc = workLeft start - if start.state = .blocked then 1 else 0 := by
  unfold Sim.workLeft
  cases hpre with
  | notYet hnew _ => simp [hnew]
  | arrived hnew _ => simp [hnew]
  | waited hready => simp [hready]
  | running hrunning => simp [hrunning]
  | counted hblocked _ =>
      simp only [hblocked, if_true, if_false, reduceCtorEq]
      omega
  | ioEnded hblocked hrem hlast =>
      have hpending := h.pending (by simp [hblocked])
      simp only [hblocked, if_true, if_false, reduceCtorEq]
      rw [ProcessSpec.workFrom_of_le hlast]
      omega
  | ioNext hblocked hrem hnext =>
      have hpending := h.pending (by simp [hblocked])
      simp only [hblocked, if_true, if_false, reduceCtorEq]
      rw [ProcessSpec.workFrom_of_lt hnext]
      omega
  | done hdone => simp [hdone]

/-- A CPU works one tick off. -/
theorem Ran.workLeft {tick : Nat} {proc after : ProcessRuntime} (hran : Ran tick proc after)
    (h : BurstInv proc) (hstate : proc.state = .running) :
    workLeft after = workLeft proc - 1 := by
  have hpending := h.pending (by simp [hstate])
  unfold Sim.workLeft
  cases hran with
  | completed hrem hlast =>
      simp only [hstate, if_true, if_false, reduceCtorEq]
      rw [ProcessSpec.workFrom_of_le hlast]
      omega
  | blocked hrem hnext =>
      simp only [hstate, if_false, reduceCtorEq, runProc]
      rw [ProcessSpec.workFrom_of_lt hnext]
      omega
  | preempted _ | kept _ =>
      simp only [hstate, if_false, reduceCtorEq, runProc]
      omega

/-! ## CPU time served -/

/-- The CPU time a process has had, read off its place in the burst list. -/
def served (proc : ProcessRuntime) : Int :=
  proc.spec.cpuTime proc.burstIndex +
    if proc.state = .blocked ∨ proc.state = .done then 0
    else proc.spec.durationAt proc.burstIndex - proc.remainingInBurst

/-- Until the dispatch phase nobody is served. -/
theorem PreTick.served {tick : Nat} {start proc : ProcessRuntime} (hpre : PreTick tick start proc)
    (h : BurstInv start) (hwf : start.spec.WellFormed) : served proc = served start := by
  unfold Sim.served
  cases hpre with
  | notYet hnew _ => rfl
  | arrived hnew _ => simp [hnew]
  | waited hready => simp [hready]
  | running hrunning => rfl
  | counted hblocked _ => simp [hblocked]
  | ioEnded hblocked hrem hlast =>
      have hodd := h.ioBurst hblocked
      have hlt := (h.pending (by simp [hblocked])).1
      rw [ProcessSpec.cpuTime_succ hwf.alternates hlt]
      simp [hblocked, hodd]
  | ioNext hblocked hrem hnext =>
      have hodd := h.ioBurst hblocked
      have hlt := (h.pending (by simp [hblocked])).1
      dsimp only
      rw [ProcessSpec.cpuTime_succ hwf.alternates hlt]
      simp [hblocked, hodd]
  | done hdone => rfl

/-- A tick of execution serves one tick. -/
theorem Ran.served {tick : Nat} {proc after : ProcessRuntime} (hran : Ran tick proc after)
    (h : BurstInv proc) (hwf : proc.spec.WellFormed) (hstate : proc.state = .running) :
    served after = served proc + 1 := by
  have hpending := h.pending (by simp [hstate])
  have heven := h.cpuBurst (by simp [hstate]) (by simp [hstate])
  unfold Sim.served
  cases hran with
  | completed hrem _ | blocked hrem _ =>
      dsimp only [runProc]
      rw [ProcessSpec.cpuTime_succ hwf.alternates hpending.1]
      simp only [hstate, heven, if_true, or_true, true_or, reduceCtorEq, or_self, if_false]
      omega
  | preempted _ | kept _ =>
      simp only [hstate, reduceCtorEq, or_self, if_false, runProc]
      omega

/-! ## One tick -/

section Tick

variable {c tick : Nat} {on : Fin c → Prop} {start before record after : ProcessRuntime}

/-- The bursts are kept over a tick. -/
theorem BurstInv.tickOf (h : BurstInv start) (hwf : start.spec.WellFormed)
    (htick : TickOf tick on start before record after) : BurstInv record ∧ BurstInv after := by
  cases htick with
  | off hpre => exact ⟨h.preTick hwf hpre, h.preTick hwf hpre⟩
  | @placed _ _ cpu hpre hready _ hran =>
      have hplaced : BurstInv (dispatchProc cpu tick before) := (h.preTick hwf hpre).dispatch hready
      exact ⟨hplaced, hplaced.ran (hpre.spec ▸ hwf) rfl hran⟩
  | stayed hrunning _ _ hran => exact ⟨h, h.ran hwf hrunning hran⟩

/-- No tick adds work, and one that finds the process `BLOCKED` or on a CPU
    takes some off. -/
theorem TickOf.workLeft (htick : TickOf tick on start before record after) (h : BurstInv start)
    (hwf : start.spec.WellFormed) :
    workLeft after ≤ workLeft start ∧
      (start.state = .blocked ∨ (∃ cpu, on cpu) → workLeft after + 1 ≤ workLeft start) := by
  cases htick with
  | off hpre _ hoff =>
      have hwork := hpre.workLeft h
      refine ⟨by split at hwork <;> omega, ?_⟩
      intro hbusy
      rcases hbusy with hblocked | ⟨cpu, hon⟩
      · rw [if_pos hblocked] at hwork
        omega
      · exact absurd hon (hoff cpu)
  | @placed _ _ cpu hpre hready _ hran =>
      have hwork := hpre.workLeft h
      have hran' := hran.workLeft ((h.preTick hwf hpre).dispatch hready) rfl
      have hsame : Sim.workLeft (dispatchProc cpu tick before) = Sim.workLeft before := by
        simp [Sim.workLeft, dispatchProc, hready]
      rw [hsame] at hran'
      refine ⟨?_, fun _ => ?_⟩ <;> split at hwork <;> omega
  | stayed hrunning _ _ hran =>
      have hran' := hran.workLeft h hrunning
      exact ⟨by omega, fun _ => by omega⟩

/-- Every tick keeps the CPU time served and the count of executed ticks in
    step. -/
theorem TickOf.served (htick : TickOf tick on start before record after) (h : BurstInv start)
    (hwf : start.spec.WellFormed) :
    served after - after.runtimeTicks = served start - start.runtimeTicks := by
  cases htick with
  | off hpre => rw [hpre.served h hwf, hpre.runtimeTicks]
  | @placed _ _ cpu hpre hready _ hran =>
      have hplaced : BurstInv (dispatchProc cpu tick before) := (h.preTick hwf hpre).dispatch hready
      have hsame : Sim.served (dispatchProc cpu tick before) = Sim.served before := by
        simp [Sim.served, dispatchProc, hready]
      have hticks : (dispatchProc cpu tick before).runtimeTicks = before.runtimeTicks := rfl
      rw [hran.served hplaced (hpre.spec ▸ hwf) rfl, hran.runtimeTicks, hsame, hticks,
        hpre.served h hwf, hpre.runtimeTicks]
      omega
  | stayed hrunning _ _ hran =>
      rw [hran.served h hwf hrunning, hran.runtimeTicks]
      omega

end Tick

/-! ## Along a run -/

section Run

variable {w : WfWorkload} (config : SimulationConfig) (algorithm : AlgorithmKind)

theorem procAt_wellFormed (i : Fin w.processCount) (tick : Nat) :
    (procAt w.toWorkload config algorithm i tick).spec.WellFormed := by
  rw [procAt_spec config algorithm w.count_le]
  exact w.wellFormed i

/-- At every tick the bursts are in order. -/
theorem procAt_burstInv (i : Fin w.processCount) (tick : Nat) :
    BurstInv (procAt w.toWorkload config algorithm i tick) := by
  induction tick with
  | zero => exact initRuntime_burstInv (w.wellFormed i)
  | succ tick ih =>
      exact (ih.tickOf (procAt_wellFormed config algorithm i tick)
        (procAt_tick config algorithm w.count_le i tick)).2

/-- The executed ticks of a process are the CPU time its place in the burst
    list accounts for. -/
theorem procAt_served (i : Fin w.processCount) (tick : Nat) :
    served (procAt w.toWorkload config algorithm i tick) =
      (procAt w.toWorkload config algorithm i tick).runtimeTicks := by
  induction tick with
  | zero => simp [procAt, served, initialState, initRuntime, ProcessRuntime.core]
  | succ tick ih =>
      have htick := procAt_tick config algorithm w.count_le i tick
      have hserved := htick.served (procAt_burstInv config algorithm i tick)
        (procAt_wellFormed config algorithm i tick)
      omega

end Run

end G20OsLab.Sim
