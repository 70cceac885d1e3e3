/-
  G20OsLab.Sim.IoBursts

  How long an IO burst lasts.

  Execution blocks a process at the end of a tick, and the IO phase of the
  next tick already counts one off before the row is recorded.  A process that
  ends a CPU burst in tick `t` is therefore `BLOCKED` in the rows between `t`
  and `t + d` for an IO burst of duration `d`: one row short of `d`.
-/

import G20OsLab.Sim.Bursts

namespace G20OsLab.Sim

/-! ## One tick -/

section Tick

variable {c tick : Nat} {on : Fin c → Prop} {start before record after : ProcessRuntime}

theorem PreTick.burstIndex_le {proc : ProcessRuntime} (h : PreTick tick start proc) :
    start.burstIndex ≤ proc.burstIndex := by
  cases h <;> simp

theorem Ran.burstIndex_le {proc : ProcessRuntime} (h : Ran tick proc after) :
    proc.burstIndex ≤ after.burstIndex := by
  cases h <;> simp [runProc]

/-- No phase goes back in the burst list. -/
theorem TickOf.burstIndex_mono (htick : TickOf tick on start before record after) :
    start.burstIndex ≤ record.burstIndex ∧ record.burstIndex ≤ after.burstIndex := by
  cases htick with
  | off hpre => exact ⟨hpre.burstIndex_le, Nat.le_refl _⟩
  | placed hpre _ _ hran =>
      have hrecord := hpre.burstIndex_le
      exact ⟨hrecord, hran.burstIndex_le⟩
  | stayed _ _ _ hran => exact ⟨Nat.le_refl _, hran.burstIndex_le⟩

/-- A process that starts a tick `BLOCKED` with more than one tick of IO left
    spends the tick so. -/
theorem TickOf.counts (htick : TickOf tick on start before record after)
    (hblocked : start.state = .blocked) (hleft : 1 < start.remainingInBurst) :
    record = { start with remainingInBurst := start.remainingInBurst - 1 } ∧ after = record := by
  cases htick with
  | off hpre =>
      cases hpre with
      | counted => exact ⟨rfl, rfl⟩
      | notYet h | arrived h | waited h | running h | done h =>
          exact absurd (hblocked.symm.trans h) nofun
      | ioEnded _ hover | ioNext _ hover => exact absurd hleft (not_lt.mpr hover)
  | placed hpre hready =>
      cases hpre with
      | counted => exact absurd (hblocked.symm.trans hready) nofun
      | notYet h | arrived h | waited h | running h | done h =>
          exact absurd (hblocked.symm.trans h) nofun
      | ioEnded _ hover | ioNext _ hover => exact absurd hleft (not_lt.mpr hover)
  | stayed hrunning => exact absurd (hblocked.symm.trans hrunning) nofun

theorem PreTick.endsIo {proc : ProcessRuntime} (h : PreTick tick start proc)
    (hblocked : start.state = .blocked) (hleft : start.remainingInBurst ≤ 1) :
    proc.burstIndex = start.burstIndex + 1 := by
  cases h with
  | ioEnded | ioNext => rfl
  | counted _ hmore => exact absurd hmore (not_lt.mpr hleft)
  | notYet h | arrived h | waited h | running h | done h =>
      exact absurd (hblocked.symm.trans h) nofun

/-- With its last tick of IO the process is past the burst in the row. -/
theorem TickOf.endsIo (htick : TickOf tick on start before record after)
    (hblocked : start.state = .blocked) (hleft : start.remainingInBurst ≤ 1) :
    record.burstIndex = start.burstIndex + 1 := by
  cases htick with
  | off hpre => exact hpre.endsIo hblocked hleft
  | placed hpre =>
      have hrecord := hpre.endsIo hblocked hleft
      exact hrecord
  | stayed hrunning => exact absurd (hblocked.symm.trans hrunning) nofun

/-- A process that runs the last tick of a burst with another one to come ends
    the tick `BLOCKED`, at the start of that one. -/
theorem TickOf.blocks (htick : TickOf tick on start before record after)
    (hrunning : record.state = .running) (hlast : record.remainingInBurst = 1)
    (hnext : record.burstIndex + 1 < record.spec.bursts.length) :
    after.state = .blocked ∧ after.burstIndex = record.burstIndex + 1 ∧
      after.remainingInBurst = record.spec.durationAt (record.burstIndex + 1) := by
  have hrun : Ran tick record after → after.state = .blocked ∧
      after.burstIndex = record.burstIndex + 1 ∧
      after.remainingInBurst = record.spec.durationAt (record.burstIndex + 1) := by
    intro hran
    cases hran with
    | blocked => exact ⟨rfl, rfl, rfl⟩
    | completed _ hdone => exact absurd hnext (not_lt.mpr hdone)
    | preempted hmore | kept hmore => exact absurd hlast (ne_of_gt hmore)
  cases htick with
  | off _ hnot => exact absurd hrunning hnot
  | placed _ _ _ hran => exact hrun hran
  | stayed _ _ _ hran => exact hrun hran

end Tick

/-! ## Along a run -/

section Run

variable (w : Workload) (config : SimulationConfig) (algorithm : AlgorithmKind)

/-- In tick `tick` process `i` executes the last tick of its burst `k`. -/
def EndsBurstIn (i : Fin w.processCount) (k tick : Nat) : Prop :=
  let proc := (recordAt w config algorithm tick).procs i
  proc.state = .running ∧ proc.burstIndex = k ∧ proc.remainingInBurst = 1

instance (i : Fin w.processCount) (k tick : Nat) :
    Decidable (EndsBurstIn w config algorithm i k tick) :=
  inferInstanceAs (Decidable (_ ∧ _))

/-- In the row of tick `tick` process `i` is `BLOCKED` in its burst `k`. -/
def BlockedIn (i : Fin w.processCount) (k tick : Nat) : Prop :=
  let proc := (recordAt w config algorithm tick).procs i
  proc.state = .blocked ∧ proc.burstIndex = k

instance (i : Fin w.processCount) (k tick : Nat) :
    Decidable (BlockedIn w config algorithm i k tick) :=
  inferInstanceAs (Decidable (_ ∧ _))

/-- In the rows of the run process `i` is `BLOCKED` in its burst `k` in exactly
    the `duration` ticks after `tick`, and is neither queued nor on a CPU
    before they are over. -/
structure BlockedFor (i : Fin w.processCount) (k tick : Nat) (duration : Int) : Prop where
  rows : ∀ row < (runLoop w config algorithm).ticks,
    (BlockedIn w config algorithm i k row ↔ tick < row ∧ row ≤ tick + duration)
  away : ∀ row < (runLoop w config algorithm).ticks, tick < row → row ≤ tick + duration →
    ((recordAt w config algorithm row).procs i).state ≠ .ready ∧
      ((recordAt w config algorithm row).procs i).state ≠ .running

variable {w} (hn : w.processCount ≤ maxProcesses)
include hn

theorem procAt_burstIndex_mono (i : Fin w.processCount) {a b : Nat} (h : a ≤ b) :
    (procAt w config algorithm i a).burstIndex ≤ (procAt w config algorithm i b).burstIndex := by
  induction b, h using Nat.le_induction with
  | base => exact Nat.le_refl _
  | succ b _ ih =>
      have hmono := (procAt_tick config algorithm hn i b).burstIndex_mono
      omega

variable {config algorithm}

/-- `elapsed` ticks into an IO burst, with more to come. -/
theorem procAt_inIo {i : Fin w.processCount} {k tick : Nat}
    (hends : EndsBurstIn w config algorithm i k tick)
    (hnext : k + 1 < (w.processes i).bursts.length) {elapsed : Nat}
    (helapsed : (elapsed : Int) < (w.processes i).durationAt (k + 1)) :
    (procAt w config algorithm i (tick + 1 + elapsed)).state = .blocked ∧
      (procAt w config algorithm i (tick + 1 + elapsed)).burstIndex = k + 1 ∧
      (procAt w config algorithm i (tick + 1 + elapsed)).remainingInBurst =
        (w.processes i).durationAt (k + 1) - elapsed := by
  induction elapsed with
  | zero =>
      obtain ⟨hrunning, hindex, hlast⟩ := hends
      have hspec : (procInRow w config algorithm i tick).spec = w.processes i :=
        procInRow_spec config algorithm hn i tick
      have hindex' : (procInRow w config algorithm i tick).burstIndex = k := hindex
      have hblocks := (procAt_tick config algorithm hn i tick).blocks hrunning hlast
        (by rw [hindex', hspec]; exact hnext)
      rw [hindex', hspec] at hblocks
      simpa using hblocks
  | succ elapsed ih =>
      obtain ⟨hstate, hindex, hleft⟩ := ih (by omega)
      obtain ⟨hrecord, hafter⟩ :=
        (procAt_tick config algorithm hn i (tick + 1 + elapsed)).counts hstate (by omega)
      rw [hrecord] at hafter
      rw [← Nat.add_assoc, hafter]
      refine ⟨hstate, hindex, ?_⟩
      dsimp only
      omega

/-- The rows in which a process is `BLOCKED` in an IO burst: those strictly
    between the tick that ends the burst before and the one `duration` later. -/
theorem blockedIn_iff {i : Fin w.processCount} {k tick : Nat}
    (hends : EndsBurstIn w config algorithm i k tick)
    (hnext : k + 1 < (w.processes i).bursts.length)
    (hduration : 1 ≤ (w.processes i).durationAt (k + 1)) (row : Nat) :
    BlockedIn w config algorithm i (k + 1) row ↔
      tick < row ∧ row < tick + (w.processes i).durationAt (k + 1) := by
  have hrow : BlockedIn w config algorithm i (k + 1) row ↔
      (procInRow w config algorithm i row).state = .blocked ∧
        (procInRow w config algorithm i row).burstIndex = k + 1 := Iff.rfl
  have htick := procAt_tick config algorithm hn i row
  rw [hrow]
  rcases Nat.lt_or_ge tick row with hafter | hbefore
  · obtain ⟨elapsed, rfl⟩ : ∃ elapsed, row = tick + 1 + elapsed :=
      ⟨row - (tick + 1), by omega⟩
    rcases lt_or_ge (elapsed : Int) ((w.processes i).durationAt (k + 1)) with hin | hout
    · obtain ⟨hstate, hindex, hleft⟩ := procAt_inIo hn hends hnext hin
      rcases lt_or_ge ((elapsed : Int) + 1) ((w.processes i).durationAt (k + 1)) with hmore | hover
      · obtain ⟨hrecord, -⟩ := htick.counts hstate (by omega)
        rw [hrecord]
        refine iff_of_true ⟨hstate, hindex⟩ ⟨hafter, ?_⟩
        omega
      · have hpast := htick.endsIo hstate (by omega)
        refine iff_of_false ?_ ?_
        · intro h
          omega
        · intro h
          omega
    · -- later rows find the process further on in its burst list
      refine iff_of_false (fun h => ?_) fun h => by omega
      obtain ⟨last, hlast⟩ : ∃ last : Nat,
          (last : Int) + 1 = (w.processes i).durationAt (k + 1) :=
        ⟨((w.processes i).durationAt (k + 1) - 1).toNat, by omega⟩
      have hin : (last : Int) < (w.processes i).durationAt (k + 1) := by omega
      obtain ⟨hstate, hindex, hleft⟩ := procAt_inIo hn hends hnext hin
      have htickLast := procAt_tick config algorithm hn i (tick + 1 + last)
      have hpast := htickLast.endsIo hstate (by omega)
      have hstep := htickLast.burstIndex_mono.2
      have hmono := procAt_burstIndex_mono config algorithm hn i
        (show tick + 1 + last + 1 ≤ tick + 1 + elapsed by omega)
      have hrecord := htick.burstIndex_mono.1
      omega
  -- earlier rows find it at most in the CPU burst before
  · refine iff_of_false (fun h => ?_) fun h => by omega
    have hindex : (procInRow w config algorithm i tick).burstIndex = k := hends.2.1
    rcases Nat.lt_or_eq_of_le hbefore with hlt | rfl
    · have hstep := htick.burstIndex_mono.2
      have hmono := procAt_burstIndex_mono config algorithm hn i
        (show row + 1 ≤ tick by omega)
      have hrecord := (procAt_tick config algorithm hn i tick).burstIndex_mono.1
      omega
    · omega

end Run

/-- A run that ends inside an IO burst ends at the tick limit. -/
theorem ticks_eq_of_inIo {w : WfWorkload} {config : SimulationConfig} {algorithm : AlgorithmKind}
    {i : Fin w.processCount} {k tick : Nat}
    (hends : EndsBurstIn w.toWorkload config algorithm i k tick)
    (hnext : k + 1 < (w.processes i).bursts.length)
    (hrun : tick < (runLoop w.toWorkload config algorithm).ticks)
    (hinside : (runLoop w.toWorkload config algorithm).ticks ≤
      tick + (w.processes i).durationAt (k + 1)) :
    (runLoop w.toWorkload config algorithm).ticks = config.maxTicks.toNat := by
  have hloop := runLoop_spec w.toWorkload config algorithm
  cases hexit : (runLoop w.toWorkload config algorithm).exitedDone with
  | false =>
      have hfull := hloop.full hexit
      omega
  | true =>
      have hdone := allDone_iff.mp (hloop.exit hexit).2 i
      rw [hloop.state] at hdone
      obtain ⟨elapsed, helapsed⟩ :
          ∃ elapsed, (runLoop w.toWorkload config algorithm).ticks = tick + 1 + elapsed :=
        ⟨(runLoop w.toWorkload config algorithm).ticks - (tick + 1), by omega⟩
      have hin : (elapsed : Int) < (w.processes i).durationAt (k + 1) := by omega
      have hblocked := (procAt_inIo w.count_le hends hnext hin).1
      rw [← helapsed] at hblocked
      exact absurd (hblocked.symm.trans hdone) nofun

/-- An IO burst blocks its process for its duration only where the tick limit
    ends the run first; otherwise it is one row short. -/
theorem io_burst_lasts_iff (w : WfWorkload) (config : SimulationConfig)
    (algorithm : AlgorithmKind) (i : Fin w.processCount) (k tick : Nat)
    (hends : EndsBurstIn w.toWorkload config algorithm i k tick)
    (hrun : tick < (runLoop w.toWorkload config algorithm).ticks)
    (hnext : k + 1 < (w.processes i).bursts.length) :
    BlockedFor w.toWorkload config algorithm i (k + 1) tick ((w.processes i).durationAt (k + 1)) ↔
      config.maxTicks ≤ tick + (w.processes i).durationAt (k + 1) := by
  have hduration := (w.wellFormed i).one_le_durationAt hnext
  have hrows := blockedIn_iff w.count_le hends hnext hduration
  have hle := (runLoop_spec w.toWorkload config algorithm).ticks_le
  constructor
  · intro hfor
    by_contra hlimit
    -- the row `duration` ticks later is in the run and not `BLOCKED`
    obtain ⟨row, hrow⟩ : ∃ row : Nat, (row : Int) = tick + (w.processes i).durationAt (k + 1) :=
      ⟨(tick + (w.processes i).durationAt (k + 1)).toNat, by omega⟩
    have hreached : row < (runLoop w.toWorkload config algorithm).ticks := by
      by_contra hout
      have hticks := ticks_eq_of_inIo hends hnext hrun (by omega)
      omega
    have hblocked := (hfor.rows row hreached).mpr ⟨by omega, by omega⟩
    have hshort := (hrows row).mp hblocked
    omega
  · intro hlimit
    refine ⟨?_, ?_⟩
    · intro row hrow
      rw [hrows row]
      omega
    · intro row hrow hafter hwithin
      have hblocked := ((hrows row).mpr ⟨hafter, by omega⟩).1
      rw [hblocked]
      exact ⟨nofun, nofun⟩

/-- One process with one tick of CPU, one tick of IO and another tick of CPU. -/
def oneIo : WfWorkload where
  processCount := 1
  processes := fun _ => ⟨1, 0, 0, 1, -1, -1, [⟨.cpu, 1⟩, ⟨.io, 1⟩, ⟨.cpu, 1⟩]⟩
  count_pos := Nat.one_pos
  count_le := one_le_maxProcesses
  wellFormed _ :=
    { pid_pos := by decide
      arrival_nonneg := by decide
      bursts_pos := by decide
      bursts_le := by decide
      alternates := by
        intro k hk
        match k, hk with
        | 0, _ | 1, _ | 2, _ => rfl
      duration_pos := by decide }

/-- The IO burst of two ticks of the first of three processes, cut off while the
    process waits. -/
theorem io_burst_lasts_iff_mixedJobs :
    BlockedFor mixedJobs.toWorkload (oneCpu 5) .edf ⟨0, by decide⟩ 1 3 2 ↔ (5 : Int) ≤ 3 + 2 :=
  io_burst_lasts_iff mixedJobs (oneCpu 5) .edf ⟨0, by decide⟩ 0 3 (by decide +kernel)
    (by decide +kernel) (by decide)

/-- With one tick of IO the process is never `BLOCKED` in a row. -/
theorem oneIo_not_blocked :
    ¬ ∀ (w : WfWorkload) (config : SimulationConfig) (algorithm : AlgorithmKind)
        (i : Fin w.processCount) (k tick : Nat), (∀ i, 1 ≤ (w.processes i).tickets) →
        EndsBurstIn w.toWorkload config algorithm i k tick →
        tick < (runLoop w.toWorkload config algorithm).ticks →
        k + 1 < (w.processes i).bursts.length →
        BlockedFor w.toWorkload config algorithm i (k + 1) tick
          ((w.processes i).durationAt (k + 1)) := by
  intro h
  have hfor := h oneIo (oneCpu 5) .edf ⟨0, by decide⟩ 0 0 (fun _ => Int.le_refl 1)
    (by decide +kernel) (by decide +kernel) (by decide)
  have hblocked := (hfor.rows 1 (by decide +kernel)).mpr (by decide)
  revert hblocked
  decide +kernel

end G20OsLab.Sim
