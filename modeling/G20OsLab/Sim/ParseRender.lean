/-
  G20OsLab.Sim.ParseRender

  Parsing undoes rendering: a workload written in the format of the README,
  with canonical decimals, is read back as it was.
-/

import Mathlib.Tactic.FinCases
import G20OsLab.Sim.ParsedNumbers

namespace G20OsLab.Sim

open Lib (Numeral digitsOf)

/-! ## Rendering -/

/-- The numbers of a process fit an `int`, and it holds a ticket. -/
structure ProcessSpec.Writable (spec : ProcessSpec) : Prop where
  pid_le : spec.pid ≤ intMax
  arrival_le : spec.arrival ≤ intMax
  basePriority : InInt spec.basePriority
  tickets_pos : 1 ≤ spec.tickets
  tickets_le : spec.tickets ≤ intMax
  deadline : InInt spec.deadline
  affinity : InInt spec.affinity
  duration_le : ∀ b ∈ spec.bursts, b.duration ≤ intMax

def Burst.written (b : Burst) : BurstText :=
  ⟨b.type, digitsOf b.duration.toNat, Lib.digitsOf_ne_nil _⟩

/-- The line of a process. -/
def ProcessSpec.row (spec : ProcessSpec) (h : 0 < spec.bursts.length) : Row where
  pid := .ofInt spec.pid
  arrival := .ofInt spec.arrival
  bursts := spec.bursts.map Burst.written
  basePriority := .ofInt spec.basePriority
  tickets := .ofInt spec.tickets
  deadline := .ofInt spec.deadline
  affinity := .ofInt spec.affinity
  bursts_ne_nil := by
    rw [Ne, List.map_eq_nil_iff]
    exact List.length_pos_iff.mp h

/-- The file of a workload, a line for each process. -/
def WfWorkload.file (w : WfWorkload) (header finalNewline : Bool) : WorkloadFile where
  header := header
  rows := List.ofFn fun i => (w.processes i).row (w.wellFormed i).bursts_pos
  finalNewline := finalNewline

/-! ## Lengths -/

theorem length_intercalate_le {sep : UInt8} {parts : List Lib.Bytes} {k : Nat} (hne : parts ≠ [])
    (h : ∀ part ∈ parts, part.length ≤ k) :
    ([sep].intercalate parts).length + 1 ≤ parts.length * (k + 1) := by
  induction parts with
  | nil => exact absurd rfl hne
  | cons part rest ih =>
      have hpart := h part List.mem_cons_self
      cases rest with
      | nil =>
          rw [List.intercalate_singleton, List.length_singleton]
          omega
      | cons next rest =>
          have hrest := ih nofun fun x hx => h x (List.mem_cons_of_mem _ hx)
          rw [List.intercalate_cons_cons, List.length_append, List.length_append,
            List.length_singleton, List.length_cons, Nat.add_mul]
          omega

theorem intMax_lt : intMax < 10 ^ 10 := by decide

theorem Burst.length_written {b : Burst} (h : b.duration ≤ intMax) :
    b.written.text.length ≤ 11 := by
  have hmax := intMax_lt
  have hdigits := Lib.length_digitsOf_le (x := b.duration.toNat) (k := 10) (by decide) (by omega)
  rw [BurstText.text, List.length_cons, List.length_map]
  exact Nat.succ_le_succ hdigits

theorem InInt.length_text {x : Int} (h : InInt x) : (Numeral.ofInt x).text.length ≤ 11 := by
  unfold InInt intMax at h
  exact Numeral.length_text_ofInt (by decide) (by omega)

theorem ProcessSpec.Writable.inInt_tickets {spec : ProcessSpec} (h : spec.Writable) :
    InInt spec.tickets := by
  have hpos := h.tickets_pos
  have hle := h.tickets_le
  unfold InInt intMax at *
  omega

theorem Burst.value_written {b : Burst} (h : 1 ≤ b.duration) :
    (b.written.value : Int) = b.duration := by
  have hvalue : b.written.value = b.duration.toNat := Lib.valueOf_digitsOf _
  omega

section Row

variable {spec : ProcessSpec} (hwf : spec.WellFormed) (hwritable : spec.Writable)
include hwf hwritable

/-- The burst field fits its buffer: 32 bursts of 10 digits take 383 bytes. -/
theorem length_burstText : (spec.row hwf.bursts_pos).burstText.length < burstSize := by
  have hne := (spec.row hwf.bursts_pos).bursts_ne_nil
  have hparts : ∀ part ∈ (spec.row hwf.bursts_pos).bursts.map BurstText.text,
      part.length ≤ 11 := by
    intro part hpart
    obtain ⟨text, htext, rfl⟩ := List.mem_map.mp hpart
    obtain ⟨b, hb, rfl⟩ := List.mem_map.mp htext
    exact Burst.length_written (hwritable.duration_le b hb)
  have hlength := @length_intercalate_le colon _ _ (by rwa [Ne, List.map_eq_nil_iff]) hparts
  have hcount : ((spec.row hwf.bursts_pos).bursts.map BurstText.text).length ≤ maxBursts := by
    rw [List.length_map, ProcessSpec.row]
    dsimp only
    rw [List.length_map]
    exact hwf.bursts_le
  rw [maxBursts] at hcount
  rw [Row.burstText, burstSize]
  omega

theorem inInt_pid : InInt spec.pid := by
  have hpos := hwf.pid_pos
  have hle := hwritable.pid_le
  unfold InInt intMax at *
  omega

theorem inInt_arrival : InInt spec.arrival := by
  have hpos := hwf.arrival_nonneg
  have hle := hwritable.arrival_le
  unfold InInt intMax at *
  omega

/-- A line fits its buffer. -/
theorem length_row : (spec.row hwf.bursts_pos).text.length + 1 < lineSize := by
  have hbursts := length_burstText hwf hwritable
  have hpid := (inInt_pid hwf hwritable).length_text
  have harrival := (inInt_arrival hwf hwritable).length_text
  have hbase := hwritable.basePriority.length_text
  have htickets := hwritable.inInt_tickets.length_text
  have hdeadline := hwritable.deadline.length_text
  have haffinity := hwritable.affinity.length_text
  rw [burstSize] at hbursts
  rw [Row.text, Row.fields, lineSize]
  simp only [List.intercalate_cons_cons, List.intercalate_singleton, List.length_append,
    List.length_singleton]
  simp only [ProcessSpec.row] at hbursts ⊢
  omega

theorem row_inIntRange : (spec.row hwf.bursts_pos).InIntRange where
  pid := (Numeral.value_ofInt spec.pid).symm ▸ inInt_pid hwf hwritable
  arrival := (Numeral.value_ofInt spec.arrival).symm ▸ inInt_arrival hwf hwritable
  basePriority := (Numeral.value_ofInt spec.basePriority).symm ▸ hwritable.basePriority
  tickets := (Numeral.value_ofInt spec.tickets).symm ▸ hwritable.inInt_tickets
  deadline := (Numeral.value_ofInt spec.deadline).symm ▸ hwritable.deadline
  affinity := (Numeral.value_ofInt spec.affinity).symm ▸ hwritable.affinity
  durations text htext := by
    obtain ⟨b, hb, rfl⟩ := List.mem_map.mp htext
    rw [Burst.value_written (hwf.duration_pos b hb)]
    have hpos := hwf.duration_pos b hb
    have hle := hwritable.duration_le b hb
    unfold InInt intMax at *
    omega

/-- The line of a process is read back as the process. -/
theorem row_spec : (spec.row hwf.bursts_pos).spec = spec := by
  have hrange := row_inIntRange hwf hwritable
  have htickets := hwritable.tickets_pos
  have hbursts : (spec.row hwf.bursts_pos).bursts.map BurstText.burst = spec.bursts := by
    rw [ProcessSpec.row, List.map_map]
    rw [List.map_congr_left (g := id), List.map_id]
    intro b hb
    have hvalue := Burst.value_written (hwf.duration_pos b hb)
    have hduration := asInt_eq (hrange.durations b.written (List.mem_map_of_mem hb))
    rw [Function.comp_apply, BurstText.burst, hduration, hvalue]
    rfl
  rw [Row.spec, hbursts, asInt_eq hrange.pid, asInt_eq hrange.arrival, asInt_eq hrange.basePriority,
    asInt_eq hrange.tickets, asInt_eq hrange.deadline, asInt_eq hrange.affinity]
  simp only [ProcessSpec.row, Numeral.value_ofInt]
  rw [if_neg (by omega)]

/-- No limit refuses the line of a process. -/
theorem row_not_refused : ¬ (spec.row hwf.bursts_pos).Refused := by
  have hrange := row_inIntRange hwf hwritable
  have hbuffer := length_burstText hwf hwritable
  rintro (hpid | harrival | hlong | hcount | horder | ⟨text, htext, hzero⟩)
  · have hpos := hwf.pid_pos
    rw [asInt_eq hrange.pid, ProcessSpec.row, Numeral.value_ofInt] at hpid
    omega
  · have hpos := hwf.arrival_nonneg
    rw [asInt_eq hrange.arrival, ProcessSpec.row, Numeral.value_ofInt] at harrival
    omega
  · omega
  · have hle := hwf.bursts_le
    rw [ProcessSpec.row, List.length_map] at hcount
    omega
  · apply horder
    have htypes : (spec.row hwf.bursts_pos).bursts.map (·.type) = spec.bursts.map (·.type) := by
      rw [ProcessSpec.row, List.map_map]
      rfl
    rw [htypes, alternating_iff]
    intro k hk
    rw [BurstType.after_cpu, List.getElem_map]
    exact hwf.alternates k (by simpa using hk)
  · obtain ⟨b, hb, rfl⟩ := List.mem_map.mp htext
    have hpos := hwf.duration_pos b hb
    have hvalue := Burst.value_written (hwf.duration_pos b hb)
    omega

end Row

/-! ## The file -/

theorem Workload.ofList_ofFn (w : Workload) : Workload.ofList (List.ofFn w.processes) = w := by
  obtain ⟨count, processes⟩ := w
  have hsigma := List.equivSigmaTuple.right_inv ⟨count, processes⟩
  exact congrArg (fun t : (k : Nat) × (Fin k → ProcessSpec) => Workload.mk t.1 t.2) hsigma

/-- **Parsing undoes rendering.**  The file of a workload is read back as the
    workload, and none of its lines comes near a buffer. -/
theorem parse_file (w : WfWorkload) (hw : ∀ i, (w.processes i).Writable)
    (header finalNewline : Bool) :
    parseWorkload (some (w.file header finalNewline).text) = some w.toWorkload ∧
      ∀ row ∈ (w.file header finalNewline).rows,
        row.text.length + 1 < lineSize ∧ row.burstText.length < burstSize := by
  have hlengths : ∀ row ∈ (w.file header finalNewline).rows,
      row.text.length + 1 < lineSize ∧ row.burstText.length < burstSize := by
    intro row hrow
    obtain ⟨i, rfl⟩ := List.mem_ofFn.mp hrow
    exact ⟨length_row (w.wellFormed i) (hw i), length_burstText (w.wellFormed i) (hw i)⟩
  refine ⟨?_, hlengths⟩
  rw [parseWorkload_text]
  constructor
  · have hcount : (w.file header finalNewline).rows.length = w.processCount := List.length_ofFn
    rintro (hnil | hmany | ⟨line, hline, hlong⟩ | ⟨row, hrow, hbad⟩)
    · have hpos := w.count_pos
      rw [hnil, List.length_nil] at hcount
      omega
    · have hle := w.count_le
      omega
    · rw [lines_rowsText] at hline
      obtain ⟨row, hrow, hlength⟩ := length_of_mem_rowLines hline
      have hfits := (hlengths row hrow).1
      omega
    · obtain ⟨i, rfl⟩ := List.mem_ofFn.mp hrow
      exact row_not_refused (w.wellFormed i) (hw i) hbad
  · have hspecs : (w.file header finalNewline).rows.map Row.spec = List.ofFn w.processes := by
      rw [WfWorkload.file, List.map_ofFn]
      congr 1
      funext i
      exact row_spec (w.wellFormed i) (hw i)
    rw [hspecs, Workload.ofList_ofFn]

theorem mixedJobs_writable (i : Fin 3) : (mixedJobs.processes i).Writable := by
  fin_cases i
  all_goals constructor <;> decide

/-- The file with three processes, an IO burst and negative fields. -/
theorem parse_file_mixedJobs :
    parseWorkload (some (mixedJobs.file true true).text) = some mixedJobs.toWorkload ∧
      ∀ row ∈ (mixedJobs.file true true).rows,
        row.text.length + 1 < lineSize ∧ row.burstText.length < burstSize :=
  parse_file mixedJobs mixedJobs_writable true true

end G20OsLab.Sim
