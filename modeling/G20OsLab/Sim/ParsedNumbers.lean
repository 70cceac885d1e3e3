/-
  G20OsLab.Sim.ParsedNumbers

  The numbers of an accepted workload.

  Every number is read by `strtol` and cast to `int`, and the limits are
  checked partly before and partly after the cast, so a number outside the
  `int` range can be replaced by another one that passes.
-/

import G20OsLab.Sim.WorkloadFormat

namespace G20OsLab.Sim

open Lib (clampLong longMin longMax Numeral)

/-! ## The `int` range -/

def InInt (x : Int) : Prop := -intMax - 1 ≤ x ∧ x ≤ intMax

instance (x : Int) : Decidable (InInt x) := inferInstanceAs (Decidable (_ ∧ _))

theorem asInt_eq {x : Int} (h : InInt x) : asInt x = x := by
  unfold InInt at h
  rw [intMax] at h
  have hclamp : clampLong x = x := by
    rw [clampLong, longMin, longMax]
    omega
  rw [asInt, hclamp, wrap32, Int.bmod_eq_of_le] <;> omega

theorem inInt_wrap32 (x : Int) : InInt (wrap32 x) := by
  have hlow := @Int.le_bmod x (2 ^ 32) (by decide)
  have hhigh := @Int.bmod_lt x (2 ^ 32) (by decide)
  rw [InInt, wrap32, intMax]
  omega

/-! ## What was written and what is stored -/

/-- Every number of the row is in the `int` range. -/
structure Row.InIntRange (row : Row) : Prop where
  pid : InInt row.pid.value
  arrival : InInt row.arrival.value
  basePriority : InInt row.basePriority.value
  tickets : InInt row.tickets.value
  deadline : InInt row.deadline.value
  affinity : InInt row.affinity.value
  durations : ∀ b ∈ row.bursts, InInt b.value

/-- The process holds the numbers of the row. -/
structure Row.StoredAs (row : Row) (spec : ProcessSpec) : Prop where
  pid : spec.pid = row.pid.value
  arrival : spec.arrival = row.arrival.value
  basePriority : spec.basePriority = row.basePriority.value
  tickets : 0 < row.tickets.value → spec.tickets = row.tickets.value
  deadline : spec.deadline = row.deadline.value
  affinity : spec.affinity = row.affinity.value
  bursts : spec.bursts = row.bursts.map fun b => ⟨b.type, b.value⟩
  pid_pos : 1 ≤ spec.pid
  arrival_nonneg : 0 ≤ spec.arrival
  duration_pos : ∀ b ∈ spec.bursts, 1 ≤ b.duration

/-- Every number of the file is in the `int` range. -/
def WorkloadFile.InIntRange (f : WorkloadFile) : Prop := ∀ row ∈ f.rows, row.InIntRange

/-- The workload holds a process for each row, with the numbers of the row. -/
def WorkloadFile.StoredAs (f : WorkloadFile) (w : Workload) : Prop :=
  List.Forall₂ Row.StoredAs f.rows (List.ofFn w.processes)

/-- A row in range is stored as it was written. -/
theorem Row.InIntRange.storedAs {row : Row} (h : row.InIntRange) (hgood : ¬ row.Refused) :
    row.StoredAs row.spec := by
  simp only [Row.Refused, Row.BurstsRefused, not_or, not_exists, not_and, asInt_eq h.pid,
    asInt_eq h.arrival] at hgood
  obtain ⟨hpid, harrival, -, -, -, hvalues⟩ := hgood
  have hbursts : row.bursts.map BurstText.burst = row.bursts.map fun b => ⟨b.type, b.value⟩ := by
    apply List.map_congr_left
    intro b hb
    rw [BurstText.burst, asInt_eq (h.durations b hb)]
  refine ⟨asInt_eq h.pid, asInt_eq h.arrival, asInt_eq h.basePriority, fun hpos => ?_,
    asInt_eq h.deadline, asInt_eq h.affinity, hbursts, ?_, ?_, fun b hb => ?_⟩
  · rw [Row.spec]
    dsimp only
    rw [asInt_eq h.tickets, if_neg (by omega)]
  · rw [Row.spec]
    dsimp only
    rw [asInt_eq h.pid]
    omega
  · rw [Row.spec]
    dsimp only
    rw [asInt_eq h.arrival]
    omega
  · rw [Row.spec] at hb
    dsimp only at hb
    rw [hbursts] at hb
    obtain ⟨text, htext, rfl⟩ := List.mem_map.mp hb
    have hzero := hvalues text htext
    dsimp only
    omega

theorem ofFn_ofList (specs : List ProcessSpec) :
    List.ofFn (Workload.ofList specs).processes = specs := List.ofFn_get specs

/-- **Numbers mean what was written** in a file of the format exactly if they
    are all in the `int` range, or a limit refuses the file anyway. -/
theorem numbers_stored_iff (f : WorkloadFile) :
    (∀ w, parseWorkload (some f.text) = some w → f.StoredAs w ∧ f.InIntRange) ↔
      f.InIntRange ∨ f.Refused := by
  constructor
  · intro h
    by_cases hrefused : f.Refused
    · exact .inr hrefused
    · have haccepted := (parseWorkload_text f _).mpr ⟨hrefused, rfl⟩
      exact .inl (h _ haccepted).2
  · intro h w hw
    obtain ⟨hgood, rfl⟩ := (parseWorkload_text f w).mp hw
    have hrange : f.InIntRange := h.resolve_right hgood
    refine ⟨?_, hrange⟩
    rw [WorkloadFile.StoredAs, ofFn_ofList, List.forall₂_map_right_iff, List.forall₂_same]
    intro row hrow
    apply (hrange row hrow).storedAs
    intro hbad
    exact hgood (.inr (.inr (.inr ⟨row, hrow, hbad⟩)))

/-! ## Accepted workloads -/

theorem parseLine_tickets {line : Lib.Bytes} {spec : ProcessSpec}
    (h : parseLine line = some spec) : 1 ≤ spec.tickets ∧ spec.tickets ≤ intMax := by
  rw [parseLine] at h
  split at h
  · rename_i tickets _ _ _
    split at h
    · cases h
    · split at h
      · cases h
      · obtain rfl := Option.some.inj h
        have hrange : InInt (fieldInt tickets) := inInt_wrap32 _
        rw [InInt, intMax] at hrange
        rw [intMax]
        dsimp only
        split <;> omega
  · cases h

/-- An accepted workload has at most 128 processes, each with 1 to `INT_MAX`
    tickets. -/
theorem parseWorkload_tickets {file : Lib.Bytes} {w : Workload}
    (h : parseWorkload (some file) = some w) :
    w.processCount ≤ maxProcesses ∧
      ∀ i, 1 ≤ (w.processes i).tickets ∧ (w.processes i).tickets ≤ intMax := by
  obtain ⟨specs, hspecs, -, hcount, rfl⟩ := parseWorkload_eq_some_iff.mp h
  refine ⟨hcount, ?_⟩
  intro i
  have hline := hspecs.get (hspecs.length_eq ▸ i.isLt) i.isLt
  exact parseLine_tickets hline

/-! ## A number out of range -/

/-- A file with the single row `<pid>,0,C1,0,1,-1,-1`. -/
def oneRow (pid : Numeral) : WorkloadFile where
  header := false
  rows := [.short pid (.digit .none 1) (.digit .minus 1)]
  finalNewline := true

/-- The pid 4294967297 is accepted, and stored as 1. -/
theorem pid_wraps :
    ¬ ∀ (f : WorkloadFile) (w : Workload), parseWorkload (some f.text) = some w →
        f.StoredAs w ∧ f.InIntRange := by
  intro h
  have hgood : ¬ (oneRow ⟨.none, [4, 2, 9, 4, 9, 6, 7, 2, 9, 7], by decide⟩).Refused := by
    decide +kernel
  have hstored := (h _ _ ((parseWorkload_text _ _).mpr ⟨hgood, rfl⟩)).1
  have hpid := (List.forall₂_cons.mp hstored).1.pid
  revert hpid
  decide +kernel

end G20OsLab.Sim
