/-
  G20OsLab.Sim.CustomPick

  The pick of the custom policy, and the `int`s it computes with.

  The scan takes the entry with the least score, on equal scores the one with
  the smaller pid, on equal pids the first (`customPickNext_least`).  In the
  dispatch phase of a tick no process is `READY` since a later tick
  (`SinceInv`) or has more left of its burst than the burst takes
  (`TickOf.remaining_le`), so ages and scores stay in the range of an `int`.
-/

import G20OsLab.Sim.CustomWait
import G20OsLab.Sim.ParsedNumbers
import G20OsLab.Sim.Reached

namespace G20OsLab.Sim

open Lib (LexLt forLoop_inv)

variable {n c : Nat}

/-! ## The scan -/

/-- The scan prefers the entry `p` at index `i` to the entry `q` at index `j`. -/
def CustomAhead (procs : ProcTable n) (cpuId : Nat) (now : Int) (p q : Fin n) (i j : Nat) :
    Prop :=
  customScore procs cpuId now p < customScore procs cpuId now q ∨
    customScore procs cpuId now p = customScore procs cpuId now q ∧
      ((procs p).spec.pid < (procs q).spec.pid ∨ (procs p).spec.pid = (procs q).spec.pid ∧ i < j)

/-- The pick takes `pid`, preferred to all others, out of its place `k` in the
    queue of the CPU, and does nothing else. -/
structure PicksLeast (s : CustomState n) (procs : ProcTable n) (cpuId : Nat) (now : Int)
    (k : Nat) (pid : Fin n) : Prop where
  entry : (s.queues cpuId).items[k]? = some pid
  ahead : ∀ j q, (s.queues cpuId).items[j]? = some q → j ≠ k →
    CustomAhead procs cpuId now pid q k j
  picked : (customPickNext s procs cpuId now).1 = some pid
  removed : ((customPickNext s procs cpuId now).2.queues cpuId).items =
    (s.queues cpuId).items.eraseIdx k
  other : ∀ l, l ≠ cpuId → (customPickNext s procs cpuId now).2.queues l = s.queues l

theorem customPickNext_least (s : CustomState n) (procs : ProcTable n) (cpuId : Nat) (now : Int)
    (hne : (s.queues cpuId).items ≠ []) : ∃ k pid, PicksLeast s procs cpuId now k pid := by
  cases hscan : Lib.scanMin (customScore procs cpuId now) (fun pid => (procs pid).spec.pid)
      (s.queues cpuId).items with
  | none => exact absurd (Lib.scanMin_eq_none_iff.mp hscan) hne
  | some best =>
      obtain ⟨k, pid⟩ := best
      obtain ⟨hget, hmin, hfirst⟩ := Lib.scanMin_spec hscan
      have hpick : customPickNext s procs cpuId now = (some pid, { s with
          queues := Function.update s.queues cpuId
            { s.queues cpuId with items := (s.queues cpuId).items.eraseIdx k } }) := by
        rw [customPickNext, hscan]
        dsimp only
        rw [queueRemoveAt_of_getElem? hget]
      refine ⟨k, pid, hget, ?_, ?_, ?_, ?_⟩
      · intro j q hq hjk
        unfold LexLt at hmin hfirst
        dsimp only at hmin hfirst
        rw [CustomAhead]
        rcases Nat.lt_or_gt_of_ne hjk with hlt | hgt
        · have hbefore := hfirst j hlt q hq
          omega
        · have hbehind := hmin q (List.mem_of_getElem? hq)
          omega
      · rw [hpick]
      · rw [hpick]
        dsimp only
        rw [Function.update_self]
      · intro l hl
        rw [hpick]
        dsimp only
        rw [Function.update_of_ne hl]

/-! ## Bounds along a tick -/

section Tick

variable {tick : Nat} {on : Fin c → Prop} {start before record after : ProcessRuntime}
  {bound : Int}

theorem PreTick.remaining_le (h : PreTick tick start before)
    (hbursts : ∀ b ∈ start.spec.bursts, b.duration ≤ bound)
    (hstart : start.remainingInBurst ≤ bound) : before.remainingInBurst ≤ bound := by
  cases h with
  | notYet | arrived | waited | running | done => exact hstart
  | counted | ioEnded =>
      dsimp only
      omega
  | ioNext _ _ hnext =>
      dsimp only
      rw [ProcessSpec.durationAt_of_lt hnext]
      exact hbursts _ (List.get_mem ..)

theorem Ran.remaining_le (h : Ran tick record after)
    (hbursts : ∀ b ∈ record.spec.bursts, b.duration ≤ bound)
    (hrecord : record.remainingInBurst ≤ bound) : after.remainingInBurst ≤ bound := by
  have hran : (runProc record).remainingInBurst ≤ bound := by
    show record.remainingInBurst - 1 ≤ bound
    omega
  cases h with
  | completed | preempted | kept => exact hran
  | blocked _ hnext =>
      dsimp only
      rw [ProcessSpec.durationAt_of_lt hnext]
      exact hbursts _ (List.get_mem ..)

/-- No burst gets longer than the workload has it. -/
theorem TickOf.remaining_le (h : TickOf tick on start before record after)
    (hbursts : ∀ b ∈ start.spec.bursts, b.duration ≤ bound)
    (hstart : start.remainingInBurst ≤ bound) :
    before.remainingInBurst ≤ bound ∧ after.remainingInBurst ≤ bound := by
  cases h with
  | off hpre =>
      have hbefore := hpre.remaining_le hbursts hstart
      exact ⟨hbefore, hbefore⟩
  | placed hpre _ _ hran =>
      have hbefore := hpre.remaining_le hbursts hstart
      refine ⟨hbefore, hran.remaining_le ?_ hbefore⟩
      intro b hb
      exact hbursts b (hpre.spec ▸ hb)
  | stayed _ _ _ hran => exact ⟨hstart, hran.remaining_le hbursts hstart⟩

/-- A process that is `READY` became so at a tick up to `tick`. -/
def SinceInv (tick : Nat) (proc : ProcessRuntime) : Prop :=
  proc.state = .ready → 0 ≤ proc.readySince ∧ proc.readySince ≤ tick

theorem TickOf.sinceInv (h : TickOf tick on start before record after)
    (hstart : SinceInv tick start) : SinceInv tick before ∧ SinceInv (tick + 1) after := by
  have hbefore : SinceInv tick before := by
    intro hready
    rcases h.ready_before hready with hnow | ⟨hwas, hsince, -⟩
    · omega
    · rw [hsince]
      exact hstart hwas
  refine ⟨hbefore, ?_⟩
  intro hready
  push_cast
  rcases h.ready_after hready with hnow | hsame
  · omega
  · rw [hsame] at hready ⊢
    cases h with
    | off =>
        have hsince := hbefore hready
        omega
    | placed => cases hready
    | stayed hrunning => exact absurd (hrunning.symm.trans hready) nofun

end Tick

/-! ## In the dispatch phase -/

/-- The first iterations of the dispatch loop. -/
theorem loopTo_dispatching {tick k : Nat} {p : SimState n c} (hinv : SimInv p) :
    Dispatching tick p c (loopTo k c (dispatchBody tick) p) := by
  refine forLoop_inv (Dispatching tick p) (.start hinv) ?_
  intro cpu s hs
  split
  · exact hs.next
  · exact ⟨hs.inv, hs.spec, fun cpu' hcpu' => hs.untouched cpu' (by omega)⟩

/-- What the scan computes for an entry is in the range of an `int`. -/
structure ScoreFits (procs : ProcTable n) (cpuId : Nat) (now : Int) (pid : Fin n) : Prop where
  age_nonneg : 0 ≤ now - (procs pid).readySince
  age : InInt (now - (procs pid).readySince)
  aged : InInt ((procs pid).remainingInBurst - (now - (procs pid).readySince))
  score : InInt (customScore procs cpuId now pid)

section Run

variable {w : WfWorkload} (config : SimulationConfig)

theorem procAt_sinceInv (i : Fin w.processCount) (tick : Nat) :
    SinceInv tick (procAt w.toWorkload config .custom i tick) := by
  induction tick with
  | zero => exact nofun
  | succ tick ih => exact ((procAt_tick config .custom w.count_le i tick).sinceInv ih).2

theorem procAt_remaining_le {bound : Int}
    (hbursts : ∀ i, ∀ b ∈ (w.processes i).bursts, b.duration ≤ bound) (i : Fin w.processCount)
    (tick : Nat) : (procAt w.toWorkload config .custom i tick).remainingInBurst ≤ bound := by
  induction tick with
  | zero =>
      show (w.processes i).durationAt 0 ≤ bound
      rw [ProcessSpec.durationAt_of_lt (w.wellFormed i).bursts_pos]
      exact hbursts i _ (List.get_mem ..)
  | succ tick ih =>
      refine ((procAt_tick config .custom w.count_le i tick).remaining_le ?_ ih).2
      rw [procAt_spec config .custom w.count_le]
      exact hbursts i

/-- What is known of a process that waits for dispatch. -/
theorem scoreFits_of_ready (hbursts : ∀ i, ∀ b ∈ (w.processes i).bursts, b.duration ≤ intMax)
    {tick : Nat} (htick : (tick : Int) < intMax) {i : Fin w.processCount}
    (hi : ((preDispatch tick (stateAt w.toWorkload config .custom tick)).procs i).state = .ready)
    (cpuId : Nat) :
    ScoreFits (preDispatch tick (stateAt w.toWorkload config .custom tick)).procs cpuId tick i := by
  have hticks := procAt_tick config .custom w.count_le i tick
  have hsince := (hticks.sinceInv (procAt_sinceInv config i tick)).1 hi
  have hbefore : (procBefore w.toWorkload config .custom i tick).remainingInBurst ≤ intMax := by
    refine (hticks.remaining_le ?_ (procAt_remaining_le config hbursts i tick)).1
    rw [procAt_spec config .custom w.count_le]
    exact hbursts i
  have hone := one_le_remaining config hi
  have hsince' :
      0 ≤ ((preDispatch tick (stateAt w.toWorkload config .custom tick)).procs i).readySince ∧
      ((preDispatch tick (stateAt w.toWorkload config .custom tick)).procs i).readySince ≤ tick :=
    hsince
  have hmost : ((preDispatch tick
      (stateAt w.toWorkload config .custom tick)).procs i).remainingInBurst ≤ intMax := hbefore
  rw [intMax] at hmost htick
  refine ⟨by omega, ?_, ?_, ?_⟩
  · rw [InInt, intMax]
    omega
  · rw [InInt, intMax]
    omega
  · rw [InInt, intMax, customScore]
    split <;> omega

end Run

/-- **`custom_pick_next` finds the least entry, and no `int` overflows.**  In
    every state of the dispatch loop, the ages in every queue are not negative,
    ages and scores are in the range of an `int`, and a pick from a queue with an
    entry takes the first of the least in score and pid out, and nothing else. -/
theorem custom_pick_least (w : WfWorkload) (config : SimulationConfig) (tick k : Nat)
    (hbursts : ∀ i, ∀ b ∈ (w.processes i).bursts, b.duration ≤ intMax)
    (htick : (tick : Int) < intMax) (cpu : Fin config.cpuCount) :
    let s := loopTo k config.cpuCount (dispatchBody tick)
      (preDispatch tick (stateAt w.toWorkload config .custom tick))
    (∀ pid ∈ (s.scheduler.custom.queues cpu).items, ScoreFits s.procs cpu tick pid) ∧
      ((s.scheduler.custom.queues cpu).items ≠ [] →
        ∃ index pid, PicksLeast s.scheduler.custom s.procs cpu tick index pid) := by
  intro s
  have hpre := preDispatch_stateAt_inv (w := w.toWorkload) config .custom w.count_le tick
  have hloop : Dispatching tick (preDispatch tick (stateAt w.toWorkload config .custom tick))
    config.cpuCount s := loopTo_dispatching hpre
  have ha : s.scheduler.algorithm = .custom := hloop.spec.algorithm.trans
    ((preDispatch_outside ..).algorithm.trans
      (stateAt_algorithm config .custom w.count_le tick))
  refine ⟨?_, customPickNext_least s.scheduler.custom s.procs cpu tick⟩
  intro pid hpid
  have hready : (s.procs pid).state = .ready := by
    apply ((hloop.inv.queues.mem_iff cpu pid).mp _).1
    rw [queueAt_custom ha]
    exact hpid
  -- a process `READY` here was given to no CPU before
  have hsame := hloop.spec.other pid fun cpu' hcpu' =>
    hloop.inv.cpus.ne_of_ready hready hcpu'.2 rfl
  have hfits := scoreFits_of_ready config hbursts htick (hsame ▸ hready) cpu
  refine ⟨?_, ?_, ?_, ?_⟩
  · rw [hsame]
    exact hfits.age_nonneg
  · rw [hsame]
    exact hfits.age
  · rw [hsame]
    exact hfits.aged
  · rw [customScore_congr hsame]
    exact hfits.score

/-- Three short processes on one CPU: the pick of tick 0. -/
theorem custom_pick_least_shortJobs :
    let s := loopTo 0 1 (dispatchBody 0) (preDispatch 0
      (stateAt (shortJobs 3 (by decide) (by decide)).toWorkload (oneCpu 5) .custom 0))
    (∀ pid ∈ (s.scheduler.custom.queues 0).items, ScoreFits s.procs 0 0 pid) ∧
      ∃ index pid, PicksLeast s.scheduler.custom s.procs 0 0 index pid := by
  have hleast := custom_pick_least (shortJobs 3 (by decide) (by decide)) (oneCpu 5) 0 0
    (by decide) (by decide) ⟨0, by decide⟩
  exact ⟨hleast.1, hleast.2 (by decide +kernel)⟩

end G20OsLab.Sim
