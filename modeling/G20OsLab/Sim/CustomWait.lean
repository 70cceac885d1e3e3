/-
  G20OsLab.Sim.CustomWait

  Aging bounds every wait of a run of the custom policy.

  The order of two processes in a queue does not depend on the time: it is
  that of remaining burst plus the tick they came in, up to the affinity
  bonus.  So only processes that came in by the tick `waitLimit` of a waiting
  one can overtake it (`rivals`).  From then on each tick that does not use up
  the slice on its CPU gives that CPU to a rival; a steal moves it to a CPU
  whose slice ends before the next steal is due.
-/

import G20OsLab.Sim.Bursts
import G20OsLab.Sim.Stealing

namespace G20OsLab.Sim

variable {n c : Nat}

/-! ## Rivals -/

/-- The last tick in which a process can come in that may overtake `q`. -/
def waitLimit (s : SimState n c) (q : Fin n) : Int :=
  (s.procs q).remainingInBurst + (s.procs q).readySince + 1

/-- The other `READY` processes that came in by tick `limit`. -/
def rivals (s : SimState n c) (q : Fin n) (limit : Int) : Finset (Fin n) :=
  Finset.univ.filter fun p =>
    p ≠ q ∧ (s.procs p).state = .ready ∧ (s.procs p).readySince ≤ limit

theorem mem_rivals {s : SimState n c} {p q : Fin n} {limit : Int} : p ∈ rivals s q limit ↔
    p ≠ q ∧ (s.procs p).state = .ready ∧ (s.procs p).readySince ≤ limit := by
  simp [rivals]

/-- There are fewer rivals than processes. -/
theorem card_rivals_lt (s : SimState n c) (q : Fin n) (limit : Int) :
    (rivals s q limit).card < n := by
  have hsub : rivals s q limit ⊆ Finset.univ.erase q := fun p hp =>
    Finset.mem_erase.mpr ⟨(mem_rivals.mp hp).1, Finset.mem_univ p⟩
  have hle := Finset.card_le_card hsub
  rw [Finset.card_erase_of_mem (Finset.mem_univ q), Finset.card_univ, Fintype.card_fin] at hle
  have hpos : 0 < n := q.pos
  omega

/-- The score falls with the time waited, and the affinity is worth 2. -/
theorem customScore_le (procs : ProcTable n) (cpuId : Nat) (now : Int) (i : Fin n) :
    customScore procs cpuId now i ≤
        (procs i).remainingInBurst + (procs i).readySince - now ∧
      (procs i).remainingInBurst + (procs i).readySince - now - 2 ≤
        customScore procs cpuId now i := by
  unfold customScore
  dsimp only
  split <;> omega

/-- The ticks until the CPU of a waiting process is dispatched again: the slice
    left on it, and the slice left on the CPU it may be stolen to. -/
def untilDispatch (s : SimState n c) (tick : Nat) (cpu : Fin c) : Int :=
  if tick + sliceLeft s cpu < s.scheduler.custom.lastStealTick + 5 then sliceLeft s cpu
  else sliceLeft s cpu + 3

/-- A process that may be stolen waits up to three ticks more. -/
theorem untilDispatch_bounds {s : SimState n c} {tick : Nat} {cpu : Fin c} :
    sliceLeft s cpu ≤ untilDispatch s tick cpu ∧
      untilDispatch s tick cpu ≤ sliceLeft s cpu + 3 := by
  rw [untilDispatch]
  split <;> omega

section Run

variable {w : WfWorkload} (config : SimulationConfig)

/-- A time slice has at most 4 ticks left. -/
theorem sliceLeft_custom_le (tick : Nat) (cpu : Fin config.cpuCount) :
    sliceLeft (recordAt w.toWorkload config .custom tick) cpu ≤ 4 := by
  apply (recordAt_sliceInv config .custom w.count_le tick).sliceLeft_le (by decide)
  rw [recordAt_algorithm config .custom w.count_le]
  exact fun _ => Int.le_refl 4

/-- A process that waits for dispatch is not done with its burst. -/
theorem one_le_remaining {tick : Nat} {i : Fin w.processCount}
    (hi : ((preDispatch tick (stateAt w.toWorkload config .custom tick)).procs i).state = .ready) :
    1 ≤ ((preDispatch tick
      (stateAt w.toWorkload config .custom tick)).procs i).remainingInBurst := by
  have hburst : BurstInv (procBefore w.toWorkload config .custom i tick) := by
    rw [procBefore, preDispatch_core]
    exact (procAt_burstInv config .custom i tick).preTick (procAt_wellFormed config .custom i tick)
      (preTick_preDispatchProc ..)
  apply (hburst.pending ?_).2
  show ((preDispatch tick (stateAt w.toWorkload config .custom tick)).procs i).state ≠ .done
  rw [hi]
  simp

/-- A ready process has something left of its burst. -/
theorem one_le_remaining_row {tick : Nat} {i : Fin w.processCount}
    (hi : ((recordAt w.toWorkload config .custom tick).procs i).state = .ready) :
    1 ≤ ((recordAt w.toWorkload config .custom tick).procs i).remainingInBurst := by
  have hsame := procs_of_ready_row config .custom w.count_le hi
  rw [hsame] at hi ⊢
  exact one_le_remaining config hi

/-- After `limit` no new rivals come in. -/
theorem rivals_subset {q : Fin w.processCount} {tick : Nat} {limit : Int} (hlimit : limit ≤ tick) :
    rivals (recordAt w.toWorkload config .custom (tick + 1)) q limit ⊆
      rivals (recordAt w.toWorkload config .custom tick) q limit := by
  intro p hp
  obtain ⟨hne, hready, hsince⟩ := mem_rivals.mp hp
  have hsame := procs_of_ready_row config .custom w.count_le hready
  rw [hsame] at hready hsince
  rcases ready_since_or_waits config .custom w.count_le hready with hnew | hwaits
  · omega
  · refine mem_rivals.mpr ⟨hne, hwaits.ready, ?_⟩
    rw [← hwaits.since]
    exact hsince

/-- The CPU of a process left `READY` is busy. -/
theorem exists_running_of_assignedCpu {q : Fin w.processCount} {tick : Nat}
    {cpu : Fin config.cpuCount}
    (hready : ((recordAt w.toWorkload config .custom tick).procs q).state = .ready)
    (hcpu : ((recordAt w.toWorkload config .custom tick).procs q).assignedCpu = (cpu.val : Int)) :
    ∃ i, ((recordAt w.toWorkload config .custom tick).cpus cpu).runningPid = some i := by
  have hinv := recordAt_inv config .custom w.count_le tick
  have halg := recordAt_algorithm config .custom w.count_le tick
  have hmem : q ∈ ((recordAt w.toWorkload config .custom tick).scheduler.queueAt cpu).items := by
    rw [hinv.queues.mem_iff, halg]
    exact ⟨hready, hcpu⟩
  cases hidle : ((recordAt w.toWorkload config .custom tick).cpus cpu).runningPid with
  | some i => exact ⟨i, rfl⟩
  | none =>
      have hempty := recordAt_conserves config .custom w.count_le nofun tick cpu cpu.isLt hidle cpu
        (by rw [halg, hinv.cpuCount]; exact cpu.isLt) (by rw [halg]; rfl)
      rw [hempty] at hmem
      cases hmem

/-- A dispatch on the CPU of a waiting process takes a rival away. -/
theorem rivals_card_lt {q : Fin w.processCount} {tick : Nat} {cpu : Fin config.cpuCount}
    (hwaits : Waits config .custom q tick)
    (hready : ((recordAt w.toWorkload config .custom (tick + 1)).procs q).state = .ready)
    (hcpu : ((recordAt w.toWorkload config .custom (tick + 1)).procs q).assignedCpu =
      (cpu.val : Int))
    (hidle : ((preDispatch (tick + 1) (stateAt w.toWorkload config .custom (tick + 1))).cpus
      cpu).runningPid = none) {limit : Int}
    (hlimit : waitLimit (recordAt w.toWorkload config .custom tick) q = limit)
    (hle : limit ≤ tick) :
    (rivals (recordAt w.toWorkload config .custom (tick + 1)) q limit).card + 1 ≤
      (rivals (recordAt w.toWorkload config .custom tick) q limit).card := by
  have hpre := preDispatch_stateAt_inv config .custom w.count_le (tick + 1)
  have hrow := recordAt_inv config .custom w.count_le (tick + 1)
  have halg : (preDispatch (tick + 1) (stateAt w.toWorkload config .custom
      (tick + 1))).scheduler.algorithm = .custom :=
    (preDispatch_outside ..).algorithm.trans (stateAt_algorithm config .custom w.count_le _)
  obtain ⟨i, hi⟩ := exists_running_of_assignedCpu config hready hcpu
  have hplaced : Dispatched
      (preDispatch (tick + 1) (stateAt w.toWorkload config .custom (tick + 1)))
      (recordAt w.toWorkload config .custom (tick + 1)) cpu i := ⟨hidle, hi⟩
  have hiready := ((preRecord_spec hpre).fresh cpu i hplaced).1
  -- it had no greater score than `q`, so it came in by `limit`
  have hscore := (preRecord_customRow hpre halg cpu i hplaced).2 q hready hcpu
  have hi' := (customScore_le (preDispatch (tick + 1) (stateAt w.toWorkload config .custom
    (tick + 1))).procs cpu (tick + 1 : Nat) i).2
  have hq' := (customScore_le (preDispatch (tick + 1) (stateAt w.toWorkload config .custom
    (tick + 1))).procs cpu (tick + 1 : Nat) q).1
  have hrem := one_le_remaining config hiready
  rw [hwaits.since, hwaits.remaining] at hq'
  rw [waitLimit] at hlimit
  have hne : i ≠ q := hrow.cpus.ne_of_ready hready hi
  have hrival : i ∈ rivals (recordAt w.toWorkload config .custom tick) q limit := by
    rcases ready_since_or_waits config .custom w.count_le hiready with hnew | hiwaits
    · omega
    · refine mem_rivals.mpr ⟨hne, hiwaits.ready, ?_⟩
      rw [← hiwaits.since]
      omega
  have hgone : i ∉ rivals (recordAt w.toWorkload config .custom (tick + 1)) q limit := by
    intro hmem
    have hrunning := hrow.cpus.running hi
    rw [(mem_rivals.mp hmem).2.1] at hrunning
    cases hrunning
  apply Finset.card_lt_card
  exact ⟨rivals_subset config hle, fun hsub => hgone (hsub hrival)⟩

/-! ## The bound -/

/-- From its limit on, what a process has waited is paid for by the rivals that
    are gone and the slice used up on its CPU. -/
def CustomWait (q : Fin w.processCount) (tick : Nat) : Prop :=
  let r := recordAt w.toWorkload config .custom tick
  waitLimit r q ≤ tick → ∃ cpu : Fin config.cpuCount, (r.procs q).assignedCpu = (cpu.val : Int) ∧
    tick - waitLimit r q + 7 * (rivals r q (waitLimit r q)).card + untilDispatch r tick cpu ≤
      7 * w.processCount

/-- A ready process is assigned to a CPU. -/
theorem exists_assignedCpu {q : Fin w.processCount} {tick : Nat}
    (hready : ((recordAt w.toWorkload config .custom tick).procs q).state = .ready) :
    ∃ cpu : Fin config.cpuCount,
      ((recordAt w.toWorkload config .custom tick).procs q).assignedCpu = (cpu.val : Int) := by
  have hinv := recordAt_inv config .custom w.count_le tick
  obtain ⟨l, hl, hhome, -⟩ := hinv.queues.mem_queue hready
  rw [recordAt_algorithm config .custom w.count_le] at hl hhome
  rw [hinv.cpuCount] at hl
  exact ⟨⟨l, hl⟩, hhome⟩

/-- One tick of waiting past the limit. -/
theorem waits_custom {q : Fin w.processCount} {tick : Nat}
    (hwaits : Waits config .custom q tick)
    (hready : ((recordAt w.toWorkload config .custom (tick + 1)).procs q).state = .ready)
    {limit : Int} (hlimit : waitLimit (recordAt w.toWorkload config .custom tick) q = limit)
    (hle : limit ≤ tick) {cpu cpu' : Fin config.cpuCount}
    (hcpu : ((recordAt w.toWorkload config .custom tick).procs q).assignedCpu = (cpu.val : Int))
    (hcpu' : ((recordAt w.toWorkload config .custom (tick + 1)).procs q).assignedCpu =
      (cpu'.val : Int)) :
    7 * ((rivals (recordAt w.toWorkload config .custom (tick + 1)) q limit).card : Int) +
        untilDispatch (recordAt w.toWorkload config .custom (tick + 1)) (tick + 1) cpu' + 1 ≤
      7 * ((rivals (recordAt w.toWorkload config .custom tick) q limit).card : Int) +
        untilDispatch (recordAt w.toWorkload config .custom tick) tick cpu := by
  obtain ⟨i, hi⟩ := exists_running_of_assignedCpu config hwaits.ready hcpu
  have hpos := (recordAt_sliceInv config .custom w.count_le tick).sliceLeft_pos hi
  have hslice := sliceLeft_custom_le (w := w) config tick cpu'
  have hslice' := sliceLeft_custom_le (w := w) config (tick + 1) cpu'
  have hbounds := @untilDispatch_bounds _ _ (recordAt w.toWorkload config .custom tick) tick cpu
  have hbounds' := @untilDispatch_bounds _ _ (recordAt w.toWorkload config .custom (tick + 1))
    (tick + 1) cpu'
  have hsub := Finset.card_le_card (rivals_subset config hle (q := q))
  rcases busy_next config .custom w.count_le tick cpu' with hidle | hbusy
  -- a dispatch on its CPU
  · have hless := rivals_card_lt config hwaits hready hcpu' hidle hlimit hle
    omega
  · have hsame := procs_of_ready_row config .custom w.count_le hready
    rw [hsame] at hcpu'
    rcases waits_assignedCpu config w.count_le hwaits with ⟨hstay, hlast⟩ | ⟨hlast, hdue⟩
    -- it stays in its queue
    · have hcc : cpu' = cpu := by
        rw [hstay, hcpu] at hcpu'
        exact Fin.ext (Int.ofNat.inj hcpu').symm
      subst hcc
      unfold untilDispatch
      rcases hlast with hlast | hlast <;> rw [hlast] <;> push_cast <;> split <;> split <;> omega
    -- it is stolen, and no steal is due before the slice on its new CPU ends
    · have hnow : untilDispatch (recordAt w.toWorkload config .custom (tick + 1)) (tick + 1) cpu' =
          sliceLeft (recordAt w.toWorkload config .custom (tick + 1)) cpu' := by
        rw [untilDispatch, if_pos]
        push_cast
        omega
      have hwas : untilDispatch (recordAt w.toWorkload config .custom tick) tick cpu =
          sliceLeft (recordAt w.toWorkload config .custom tick) cpu + 3 := by
        rw [untilDispatch, if_neg]
        omega
      omega

/-- Every process that is `READY` in a row waits within its bound. -/
theorem recordAt_customWait (tick : Nat) {q : Fin w.processCount}
    (hready : ((recordAt w.toWorkload config .custom tick).procs q).state = .ready) :
    CustomWait config q tick := by
  induction tick with
  | zero =>
      intro hlimit
      have hrem := one_le_remaining_row config hready
      rw [waitLimit, ready_first_row config .custom w.count_le hready] at hlimit
      omega
  | succ tick ih =>
      intro hlimit
      obtain ⟨cpu', hcpu'⟩ := exists_assignedCpu config hready
      refine ⟨cpu', hcpu', ?_⟩
      have hrem := one_le_remaining_row config hready
      have hsame := procs_of_ready_row config .custom w.count_le hready
      rcases ready_since_or_waits config .custom w.count_le (hsame ▸ hready) with hnew | hwaits
      · rw [waitLimit, hsame, hnew] at hlimit
        rw [hsame] at hrem
        omega
      · have hkeep : waitLimit (recordAt w.toWorkload config .custom (tick + 1)) q =
            waitLimit (recordAt w.toWorkload config .custom tick) q := by
          rw [waitLimit, waitLimit, hsame, hwaits.since, hwaits.remaining]
        rw [hkeep] at hlimit ⊢
        by_cases hle : waitLimit (recordAt w.toWorkload config .custom tick) q ≤ tick
        · obtain ⟨cpu, hcpu, hbound⟩ := ih hwaits.ready hle
          have hless := waits_custom config hwaits hready rfl hle hcpu hcpu'
          push_cast
          omega
        -- the first row after its limit
        · have hcard := card_rivals_lt (recordAt w.toWorkload config .custom (tick + 1)) q
            (waitLimit (recordAt w.toWorkload config .custom tick) q)
          have huntil := (@untilDispatch_bounds _ _
            (recordAt w.toWorkload config .custom (tick + 1)) (tick + 1) cpu').2
          have hslice := sliceLeft_custom_le (w := w) config (tick + 1) cpu'
          push_cast at hlimit ⊢
          omega

end Run

/-- **Aging prevents starvation.**  A process left `READY` in a row of the custom
    policy has waited for at most the rest of its burst, 8 ticks for each process
    of the workload, and 10 more. -/
theorem custom_wait_bounded (w : WfWorkload) (config : SimulationConfig) (tick : Nat)
    (q : Fin w.processCount)
    (hready : ((recordAt w.toWorkload config .custom tick).procs q).state = .ready) :
    tick - ((recordAt w.toWorkload config .custom tick).procs q).readySince ≤
      ((recordAt w.toWorkload config .custom tick).procs q).remainingInBurst +
        8 * w.processCount + 10 := by
  have hwait := recordAt_customWait config tick hready
  by_cases hlimit : waitLimit (recordAt w.toWorkload config .custom tick) q ≤ tick
  · obtain ⟨cpu, hcpu, hbound⟩ := hwait hlimit
    obtain ⟨i, hi⟩ := exists_running_of_assignedCpu config hready hcpu
    have hpos := (recordAt_sliceInv config .custom w.count_le tick).sliceLeft_pos hi
    have huntil :=
      (@untilDispatch_bounds _ _ (recordAt w.toWorkload config .custom tick) tick cpu).1
    rw [waitLimit] at hbound
    omega
  · rw [waitLimit] at hlimit
    omega

/-- Three short processes on one CPU: the last one still waits in tick 1. -/
theorem custom_wait_bounded_shortJobs :
    ((1 : Nat) : Int) - ((recordAt (shortJobs 3 (by decide) (by decide)).toWorkload (oneCpu 5)
        .custom 1).procs ⟨2, by decide⟩).readySince ≤
      ((recordAt (shortJobs 3 (by decide) (by decide)).toWorkload (oneCpu 5)
        .custom 1).procs ⟨2, by decide⟩).remainingInBurst + 8 * (3 : Nat) + 10 :=
  custom_wait_bounded (shortJobs 3 (by decide) (by decide)) (oneCpu 5) 1 ⟨2, by decide⟩
    (by decide +kernel)

end G20OsLab.Sim
