/-
  G20OsLab.Sim.WorkloadFormat

  Files in the workload format of the README.

  A `Row` is a line as it is written, with decimal integers of any size.  The
  parser makes `Row.spec` of it, every number taken through `strtol` and the
  cast to `int`, unless one of its limits refuses the row (`Row.Refused`), and
  of a file the workload of its rows, unless the file breaks one of its limits
  (`WorkloadFile.Refused`).
-/

import G20OsLab.Sim.Parser

namespace G20OsLab.Sim

open Lib (Bytes bytes isspace isdigit toupper cstring tokens pieces strtol clampLong fgetsLines
  newline Numeral digitByte valueOf)

/-! ## Rows -/

/-- A burst as it is written: a letter and one digit or more. -/
structure BurstText where
  type : BurstType
  digits : List (Fin 10)
  digits_ne_nil : digits ≠ []

/-- A burst of one digit. -/
def BurstText.digit (type : BurstType) (d : Fin 10) : BurstText := ⟨type, [d], Lib.digit_ne_nil d⟩

def BurstText.text (b : BurstText) : Bytes := b.type.letter :: b.digits.map digitByte

def BurstText.value (b : BurstText) : Nat := valueOf b.digits

/-- A line of the format, without its newline. -/
structure Row where
  pid : Numeral
  arrival : Numeral
  bursts : List BurstText
  basePriority : Numeral
  tickets : Numeral
  deadline : Numeral
  affinity : Numeral
  bursts_ne_nil : bursts ≠ []

/-- The line of a process that arrives at 0 with one CPU burst of 1, no
    priority and no affinity. -/
def Row.short (pid tickets deadline : Numeral) : Row where
  pid := pid
  arrival := .digit .none 0
  bursts := [.digit .cpu 1]
  basePriority := .digit .none 0
  tickets := tickets
  deadline := deadline
  affinity := .digit .minus 1
  bursts_ne_nil := List.cons_ne_nil _ _

/-- `INT_MAX` as it is written. -/
def greatestInt : Numeral := ⟨.none, [2, 1, 4, 7, 4, 8, 3, 6, 4, 7], by decide⟩

/-- The burst field, `C<n>:I<n>:...`. -/
def Row.burstText (row : Row) : Bytes := [colon].intercalate (row.bursts.map BurstText.text)

def Row.fields (row : Row) : List Bytes :=
  [row.pid.text, row.arrival.text, row.burstText, row.basePriority.text, row.tickets.text,
    row.deadline.text, row.affinity.text]

def Row.text (row : Row) : Bytes := [comma].intercalate row.fields

/-- The lines of a file, each with its newline; the last one only if the file
    ends in one. -/
def rowsText (finalNewline : Bool) : List Row → Bytes
  | [] => []
  | [row] => row.text ++ if finalNewline then [newline] else []
  | row :: next :: rest => row.text ++ newline :: rowsText finalNewline (next :: rest)

/-- The header line of the format. -/
def headerText : Bytes := bytes "pid,arrival,bursts,base_priority,tickets,deadline,affinity"

structure WorkloadFile where
  header : Bool
  rows : List Row
  finalNewline : Bool

def WorkloadFile.text (f : WorkloadFile) : Bytes :=
  if f.header then headerText ++ newline :: rowsText f.finalNewline f.rows
  else rowsText f.finalNewline f.rows

/-! ## What the parser makes of a row -/

/-- An integer after `(int)strtol`. -/
def asInt (x : Int) : Int := wrap32 (clampLong x)

def BurstText.burst (b : BurstText) : Burst := ⟨b.type, asInt b.value⟩

def Row.spec (row : Row) : ProcessSpec where
  pid := asInt row.pid.value
  arrival := asInt row.arrival.value
  basePriority := asInt row.basePriority.value
  tickets := if asInt row.tickets.value ≤ 0 then 1 else asInt row.tickets.value
  deadline := asInt row.deadline.value
  affinity := asInt row.affinity.value
  bursts := row.bursts.map BurstText.burst

/-- The types alternate from `expected` on. -/
def Alternating : (expected : BurstType) → List BurstType → Prop
  | _, [] => True
  | expected, type :: rest => type = expected ∧ Alternating expected.other rest

instance decidableAlternating : (expected : BurstType) → (types : List BurstType) →
    Decidable (Alternating expected types)
  | _, [] => isTrue trivial
  | expected, type :: rest =>
      have := decidableAlternating expected.other rest
      inferInstanceAs (Decidable (type = expected ∧ Alternating expected.other rest))

theorem alternating_iff {expected : BurstType} {types : List BurstType} :
    Alternating expected types ↔ ∀ k, (hk : k < types.length) → types[k] = expected.after k := by
  induction types generalizing expected with
  | nil => exact iff_of_true trivial fun k hk => absurd hk (Nat.not_lt_zero k)
  | cons type rest ih =>
      rw [Alternating, ih]
      constructor
      · rintro ⟨hhead, hrest⟩ k hk
        cases k with
        | zero => exact hhead
        | succ k => exact hrest k (Nat.lt_of_succ_lt_succ hk)
      · intro h
        exact ⟨h 0 (Nat.succ_pos _), fun k hk => h (k + 1) (Nat.succ_lt_succ hk)⟩

/-- What `parse_bursts` refuses: a field that does not fit its buffer, more
    than 32 bursts, a wrong order of types, a duration of zero. -/
def Row.BurstsRefused (row : Row) : Prop :=
  burstSize ≤ row.burstText.length ∨ maxBursts < row.bursts.length ∨
    ¬ Alternating .cpu (row.bursts.map (·.type)) ∨ ∃ b ∈ row.bursts, b.value = 0

instance (row : Row) : Decidable row.BurstsRefused :=
  inferInstanceAs (Decidable (_ ∨ _))

/-- What `parse_workload` refuses in a line: a converted pid that is not
    positive, a negative converted arrival, or its bursts. -/
def Row.Refused (row : Row) : Prop :=
  asInt row.pid.value ≤ 0 ∨ asInt row.arrival.value < 0 ∨ row.BurstsRefused

instance (row : Row) : Decidable row.Refused :=
  inferInstanceAs (Decidable (_ ∨ _))

/-- What `parse_workload` refuses in a file: no rows or more than 128, a line
    that does not fit its buffer, or a row. -/
def WorkloadFile.Refused (f : WorkloadFile) : Prop :=
  f.rows = [] ∨ maxProcesses < f.rows.length ∨
    (∃ line ∈ Lib.lines (rowsText f.finalNewline f.rows), lineSize ≤ line.length) ∨
    ∃ row ∈ f.rows, row.Refused

instance (f : WorkloadFile) : Decidable f.Refused :=
  have : Decidable (f.rows = []) := decidable_of_iff (f.rows.isEmpty = true) List.isEmpty_iff
  inferInstanceAs (Decidable (_ ∨ _))

/-! ## The bytes of a row -/

theorem letter_ne (type : BurstType) : isspace type.letter = false ∧
    isFieldDelim type.letter = false ∧ type.letter ≠ colon ∧ type.letter ≠ 0 := by
  cases type <;> decide

theorem digit_ne {b : UInt8} (h : isdigit b = true) :
    isFieldDelim b = false ∧ b ≠ colon ∧ b ≠ 0 := by
  refine ⟨?_, ?_, ?_⟩
  · rw [isFieldDelim, Bool.or_eq_false_iff, beq_eq_false_iff_ne, beq_eq_false_iff_ne]
    constructor <;> rintro rfl <;> exact absurd h (by decide)
  · rintro rfl
    exact absurd h (by decide)
  · rintro rfl
    exact absurd h (by decide)

/-- A byte of a burst is neither a blank nor a delimiter nor a NUL. -/
theorem BurstText.mem_text {b : BurstText} {x : UInt8} (h : x ∈ b.text) :
    isspace x = false ∧ isFieldDelim x = false ∧ x ≠ colon ∧ x ≠ 0 := by
  rcases List.mem_cons.mp h with rfl | hdigit
  · exact letter_ne b.type
  · obtain ⟨d, -, rfl⟩ := List.mem_map.mp hdigit
    have hd := Lib.isdigit_digitByte d
    exact ⟨Lib.isspace_of_isdigit hd, digit_ne hd⟩

theorem numeral_mem_text {num : Numeral} {x : UInt8} (h : x ∈ num.text) :
    isspace x = false ∧ isFieldDelim x = false ∧ x ≠ 0 := by
  refine ⟨num.not_isspace h, ?_⟩
  rcases num.mem_text h with hdigit | rfl | rfl
  · exact ⟨(digit_ne hdigit).1, (digit_ne hdigit).2.2⟩
  · decide
  · decide

theorem mem_intercalate {sep : UInt8} {parts : List Bytes} {x : UInt8}
    (h : x ∈ [sep].intercalate parts) : x = sep ∨ ∃ part ∈ parts, x ∈ part := by
  induction parts with
  | nil => cases h
  | cons part rest ih =>
      cases rest with
      | nil =>
          rw [List.intercalate_singleton] at h
          exact .inr ⟨part, List.mem_singleton_self part, h⟩
      | cons next rest =>
          rw [List.intercalate_cons_cons, List.append_assoc, List.mem_append] at h
          rcases h with hpart | h
          · exact .inr ⟨part, List.mem_cons_self, hpart⟩
          · rw [List.singleton_append, List.mem_cons] at h
            rcases h with hsep | hrest
            · exact .inl hsep
            · rcases ih hrest with hsep | ⟨p, hp, hx⟩
              · exact .inl hsep
              · exact .inr ⟨p, List.mem_cons_of_mem _ hp, hx⟩

/-- A byte of the burst field is neither a blank nor a field delimiter nor a
    NUL. -/
theorem Row.mem_burstText {row : Row} {x : UInt8} (h : x ∈ row.burstText) :
    isspace x = false ∧ isFieldDelim x = false ∧ x ≠ 0 := by
  rcases mem_intercalate h with rfl | ⟨part, hpart, hx⟩
  · decide
  · obtain ⟨b, -, rfl⟩ := List.mem_map.mp hpart
    obtain ⟨hspace, hdelim, -, hzero⟩ := b.mem_text hx
    exact ⟨hspace, hdelim, hzero⟩

theorem Row.burstText_ne_nil (row : Row) : row.burstText ≠ [] := by
  obtain ⟨b, rest, hbursts⟩ := List.exists_cons_of_ne_nil row.bursts_ne_nil
  rw [burstText, hbursts, List.map_cons]
  cases rest with
  | nil =>
      rw [List.map_nil, List.intercalate_singleton]
      nofun
  | cons next rest =>
      rw [List.map_cons, List.intercalate_cons_cons]
      nofun

theorem Row.mem_fields {row : Row} {field : Bytes} (h : field ∈ row.fields) :
    field ≠ [] ∧ ∀ x ∈ field, isspace x = false ∧ isFieldDelim x = false ∧ x ≠ 0 := by
  simp only [fields, List.mem_cons, List.not_mem_nil, or_false] at h
  rcases h with rfl | rfl | rfl | rfl | rfl | rfl | rfl
  case inr.inr.inl => exact ⟨row.burstText_ne_nil, fun x hx => row.mem_burstText hx⟩
  all_goals exact ⟨Numeral.text_ne_nil _, fun x hx => numeral_mem_text hx⟩

theorem Row.not_mem_text (row : Row) : newline ∉ row.text ∧ 0 ∉ row.text := by
  constructor
  · intro h
    rcases mem_intercalate h with heq | ⟨field, hfield, hx⟩
    · exact absurd heq (by decide)
    · have hdelim := ((row.mem_fields hfield).2 _ hx).2.1
      exact absurd hdelim (by decide)
  · intro h
    rcases mem_intercalate h with heq | ⟨field, hfield, hx⟩
    · exact absurd heq (by decide)
    · exact ((row.mem_fields hfield).2 _ hx).2.2 rfl

/-! ## The parser on a row -/

theorem clampLong_natCast_le_zero {x : Nat} : clampLong x ≤ 0 ↔ x = 0 := by
  rw [clampLong, Lib.longMin, Lib.longMax]
  omega

theorem BurstText.strtol_digits (b : BurstText) :
    strtol (b.digits.map digitByte) = clampLong b.value :=
  Numeral.strtol_text ⟨.none, b.digits, b.digits_ne_nil⟩

/-- One burst of a row. -/
theorem parseBurst_text (count : Nat) (expected : BurstType) (b : BurstText) :
    parseBurst count expected b.text =
      if b.value = 0 ∨ maxBursts ≤ count ∨ b.type ≠ expected then none else some b.burst := by
  have htrim : trim b.text = b.text := trim_eq_self fun x hx => (b.mem_text hx).1
  have hletter : toupper b.type.letter = b.type.letter := by
    cases b.type <;> decide
  obtain ⟨d, digits, hdigits⟩ := List.exists_cons_of_ne_nil b.digits_ne_nil
  have hnumber := b.strtol_digits
  rw [hdigits, List.map_cons] at hnumber
  rw [parseBurst, htrim, BurstText.text, hdigits, List.map_cons]
  dsimp only
  rw [hnumber, hletter]
  by_cases hzero : b.value = 0 ∨ maxBursts ≤ count
  · rw [if_pos (by rwa [clampLong_natCast_le_zero]), if_pos (by tauto)]
  · rw [if_neg (by rwa [clampLong_natCast_le_zero])]
    by_cases htype : b.type = expected
    · have hletters : ¬ (expected = .cpu ∧ b.type.letter ≠ letterC ∨
          expected = .io ∧ b.type.letter ≠ letterI) := by
        subst htype
        cases b.type <;> decide
      have hgood : ¬ (b.value = 0 ∨ maxBursts ≤ count ∨ b.type ≠ expected) := by tauto
      rw [if_neg hletters, if_neg hgood, BurstText.burst, asInt]
      cases b.type <;> rfl
    · have hletters : expected = .cpu ∧ b.type.letter ≠ letterC ∨
          expected = .io ∧ b.type.letter ≠ letterI := by
        revert htype
        cases b.type <;> cases expected <;> decide
      rw [if_pos hletters, if_pos (by tauto)]

/-- The bursts of a row. -/
theorem parseBurstTokens_text {count : Nat} {expected : BurstType} {bs : List BurstText}
    {bursts : List Burst} :
    parseBurstTokens count expected (bs.map BurstText.text) = some bursts ↔
      (bs = [] ∨ count + bs.length ≤ maxBursts) ∧ Alternating expected (bs.map (·.type)) ∧
        (∀ b ∈ bs, b.value ≠ 0) ∧ bursts = bs.map BurstText.burst := by
  induction bs generalizing count expected bursts with
  | nil => simp [parseBurstTokens, Alternating, eq_comm]
  | cons b rest ih =>
      rw [List.map_cons, parseBurstTokens, parseBurst_text]
      split
      · rename_i hnone
        refine iff_of_false (by simp) ?_
        rintro ⟨hcount, ⟨htype, -⟩, hvalues, -⟩
        split at hnone
        · rename_i hbad
          have hvalue := hvalues b List.mem_cons_self
          rw [List.length_cons] at hcount
          rcases hbad with hzero | hfull | hother
          · exact hvalue hzero
          · rcases hcount with hnil | hcount
            · cases hnil
            · omega
          · exact hother htype
        · cases hnone
      · rename_i burst hsome
        split at hsome
        · cases hsome
        · rename_i hgood
          obtain rfl := Option.some.inj hsome
          rw [not_or, not_or, not_not] at hgood
          obtain ⟨hvalue, hcount, htype⟩ := hgood
          rw [Option.map_eq_some_iff]
          simp only [ih, List.length_cons, List.map_cons, Alternating, List.forall_mem_cons]
          constructor
          · rintro ⟨bursts, ⟨hroom, halt, hvalues, rfl⟩, rfl⟩
            refine ⟨.inr ?_, ⟨htype, halt⟩, ⟨hvalue, hvalues⟩, rfl⟩
            rcases hroom with rfl | hroom
            · rw [List.length_nil]
              omega
            · omega
          · rintro ⟨hroom, ⟨-, halt⟩, ⟨-, hvalues⟩, rfl⟩
            refine ⟨rest.map BurstText.burst, ⟨.inr ?_, halt, hvalues, rfl⟩, rfl⟩
            rcases hroom with hnil | hroom
            · cases hnil
            · omega

/-- The burst field of a row. -/
theorem parseBursts_text (row : Row) (bursts : List Burst) :
    parseBursts row.burstText = some bursts ↔
      ¬ row.BurstsRefused ∧ bursts = row.bursts.map BurstText.burst := by
  have htokens : tokens (· == colon) row.burstText = row.bursts.map BurstText.text := by
    rw [Lib.tokens_eq]
    refine Lib.pieces_intercalate (b := colon) rfl ?_
    intro part hpart
    obtain ⟨b, -, rfl⟩ := List.mem_map.mp hpart
    refine ⟨List.cons_ne_nil _ _, ?_⟩
    intro x hx
    rw [beq_eq_false_iff_ne]
    exact (b.mem_text hx).2.2.1
  have hparse := @parseBurstTokens_text 0 .cpu row.bursts
  rw [← htokens] at hparse
  rw [parseBursts]
  unfold Row.BurstsRefused
  by_cases hlong : burstSize ≤ row.burstText.length
  · rw [if_pos hlong]
    exact iff_of_false nofun fun h => h.1 (.inl hlong)
  · rw [if_neg hlong]
    have hne := row.bursts_ne_nil
    cases hresult : parseBurstTokens 0 .cpu (tokens (· == colon) row.burstText) with
    | none =>
        refine iff_of_false (by simp) ?_
        rintro ⟨hgood, -⟩
        simp only [not_or, not_not, not_exists, not_and] at hgood
        obtain ⟨-, hcount, halt, hvalues⟩ := hgood
        have hsome := hparse.mpr ⟨.inr (by omega), halt, hvalues, rfl⟩
        rw [hresult] at hsome
        cases hsome
    | some result =>
        obtain ⟨hcount, halt, hvalues, rfl⟩ := hparse.mp hresult
        obtain ⟨b, rest, hbursts⟩ := List.exists_cons_of_ne_nil hne
        have hgood : ¬ (burstSize ≤ row.burstText.length ∨ maxBursts < row.bursts.length ∨
            ¬ Alternating .cpu (row.bursts.map (·.type)) ∨ ∃ b ∈ row.bursts, b.value = 0) := by
          simp only [not_or, not_not, not_exists, not_and]
          refine ⟨hlong, ?_, halt, hvalues⟩
          rcases hcount with hnil | hcount
          · exact absurd hnil hne
          · omega
        rw [hbursts, List.map_cons]
        dsimp only
        rw [← List.map_cons, ← hbursts, Option.some.injEq]
        exact ⟨fun h => ⟨hgood, h.symm⟩, fun h => h.2.symm⟩

theorem fieldInt_text (num : Numeral) : fieldInt num.text = asInt num.value := by
  rw [fieldInt, num.strtol_text, asInt]

/-- A line of the format, with its newline or without. -/
theorem parseLine_text (row : Row) {tail : Bytes} (htail : tail = [] ∨ tail = [newline])
    (spec : ProcessSpec) :
    parseLine (row.text ++ tail) = some spec ↔ ¬ row.Refused ∧ spec = row.spec := by
  have hcstring : cstring (row.text ++ tail) = row.text ++ tail := by
    apply Lib.cstring_of_not_mem
    rw [List.mem_append, not_or]
    refine ⟨row.not_mem_text.2, ?_⟩
    rcases htail with rfl | rfl
    · nofun
    · decide
  have hpieces : pieces isFieldDelim row.text = row.fields := by
    refine Lib.pieces_intercalate rfl ?_
    intro field hfield
    obtain ⟨hne, hbytes⟩ := row.mem_fields hfield
    exact ⟨hne, fun x hx => (hbytes x hx).2.1⟩
  -- no field is empty, so `strtok_r` merges none
  have htokens : tokens isFieldDelim (row.text ++ tail) = row.fields := by
    rw [Lib.tokens_eq]
    rcases htail with rfl | rfl
    · rw [List.append_nil, hpieces]
    · rw [Lib.pieces_append _ _ (by decide), hpieces]
      rfl
  have htrim : row.fields.map trim = row.fields := by
    rw [List.map_congr_left (g := id), List.map_id]
    intro field hfield
    exact trim_eq_self fun x hx => ((row.mem_fields hfield).2 x hx).1
  have htake : row.fields.take 7 = row.fields := List.take_of_length_le (Nat.le_refl 7)
  rw [parseLine, hcstring, htokens, htake, htrim]
  unfold Row.Refused
  simp only [Row.fields, fieldInt_text]
  -- `parser.c` looks at the pid and the arrival first
  by_cases hrange : asInt row.pid.value ≤ 0 ∨ asInt row.arrival.value < 0
  · rw [if_pos hrange]
    exact iff_of_false nofun fun h => h.1 (by tauto)
  · rw [if_neg hrange]
    have hbursts := parseBursts_text row
    cases hresult : parseBursts row.burstText with
    | none =>
        have hrefused : row.BurstsRefused := by
          by_contra hgood
          have hsome := (hbursts _).mpr ⟨hgood, rfl⟩
          rw [hresult] at hsome
          cases hsome
        exact iff_of_false nofun fun h => h.1 (.inr (.inr hrefused))
    | some bursts =>
        obtain ⟨hgood, rfl⟩ := (hbursts bursts).mp hresult
        dsimp only
        rw [Option.some.injEq]
        refine ⟨fun h => ⟨by tauto, h.symm⟩, fun h => h.2.symm⟩

/-! ## The lines of a file -/

/-- The lines of `rowsText`. -/
def rowLines (finalNewline : Bool) : List Row → List Bytes
  | [] => []
  | [row] => [row.text ++ if finalNewline then [newline] else []]
  | row :: next :: rest => (row.text ++ [newline]) :: rowLines finalNewline (next :: rest)

/-- A line starts with a digit or a sign. -/
theorem Row.text_eq_cons (row : Row) : ∃ b rest, row.text = b :: rest ∧ b ∈ row.pid.text := by
  obtain ⟨b, rest, hpid⟩ := List.exists_cons_of_ne_nil row.pid.text_ne_nil
  refine ⟨b, rest ++ [comma] ++ [comma].intercalate row.fields.tail, ?_, ?_⟩
  · rw [text, fields, List.intercalate_cons_cons, hpid]
    rfl
  · rw [hpid]
    exact List.mem_cons_self

theorem lines_rowsText (finalNewline : Bool) (rows : List Row) :
    Lib.lines (rowsText finalNewline rows) = rowLines finalNewline rows := by
  induction rows with
  | nil => rfl
  | cons row rest ih =>
      have hline := row.not_mem_text.1
      cases rest with
      | nil =>
          obtain ⟨b, text, htext, -⟩ := row.text_eq_cons
          cases finalNewline with
          | true => exact Lib.lines_append [] hline
          | false =>
              rw [rowsText, rowLines]
              simp only [Bool.false_eq_true, if_false, List.append_nil]
              exact Lib.lines_single (htext ▸ nofun) hline
      | cons next rest =>
          rw [rowsText, Lib.lines_append _ hline, ih]
          rfl

theorem length_of_mem_rowLines {finalNewline : Bool} {rows : List Row} {line : Bytes}
    (h : line ∈ rowLines finalNewline rows) :
    ∃ row ∈ rows, line.length ≤ row.text.length + 1 := by
  induction rows with
  | nil => cases h
  | cons row rest ih =>
      cases rest with
      | nil =>
          obtain rfl := List.mem_singleton.mp h
          refine ⟨row, List.mem_singleton_self row, ?_⟩
          cases finalNewline <;> simp
      | cons next rest =>
          rw [rowLines, List.mem_cons] at h
          rcases h with rfl | hrest
          · exact ⟨row, List.mem_cons_self, by simp⟩
          · obtain ⟨r, hr, hlength⟩ := ih hrest
            exact ⟨r, List.mem_cons_of_mem _ hr, hlength⟩

/-- Read line by line, the rows are accepted if none is refused. -/
theorem parse_rowLines (finalNewline : Bool) {rows : List Row} {specs : List ProcessSpec} :
    List.Forall₂ (fun line spec => parseLine line = some spec) (rowLines finalNewline rows) specs ↔
      (∀ row ∈ rows, ¬ row.Refused) ∧ specs = rows.map Row.spec := by
  induction rows generalizing specs with
  | nil =>
      rw [rowLines, List.forall₂_nil_left_iff]
      exact ⟨fun h => ⟨List.forall_mem_nil _, h⟩, fun h => h.2⟩
  | cons row rest ih =>
      have hhead : ∃ tail, (tail = [] ∨ tail = [newline]) ∧ rowLines finalNewline (row :: rest) =
          (row.text ++ tail) :: rowLines finalNewline rest := by
        cases rest with
        | nil =>
            cases finalNewline with
            | true => exact ⟨[newline], .inr rfl, rfl⟩
            | false => exact ⟨[], .inl rfl, rfl⟩
        | cons next rest => exact ⟨[newline], .inr rfl, rfl⟩
      obtain ⟨tail, htail, hlines⟩ := hhead
      rw [hlines, List.forall₂_cons_left_iff]
      simp only [parseLine_text row htail, ih, List.forall_mem_cons, List.map_cons]
      constructor
      · rintro ⟨spec, specs, ⟨hgood, rfl⟩, ⟨hrest, rfl⟩, rfl⟩
        exact ⟨⟨hgood, hrest⟩, rfl⟩
      · rintro ⟨⟨hgood, hrest⟩, rfl⟩
        exact ⟨row.spec, rest.map Row.spec, ⟨hgood, rfl⟩, ⟨hrest, rfl⟩, rfl⟩

/-! ## Lines that do not fit the buffer -/

/-- With fewer than six delimiters there are fewer than seven fields. -/
theorem parseLine_of_few {line : Bytes} (h : line.countP isFieldDelim < 6) :
    parseLine line = none := by
  have hcount : (cstring line).countP isFieldDelim ≤ line.countP isFieldDelim :=
    (List.takeWhile_sublist _).countP_le
  have hpieces := Lib.length_pieces_le isFieldDelim (cstring line)
  rw [← Lib.tokens_eq] at hpieces
  rw [parseLine]
  split
  · rename_i hfields
    have hlength := congrArg List.length hfields
    rw [List.length_map, List.length_take] at hlength
    simp only [List.length_cons, List.length_nil] at hlength
    omega
  · rfl

theorem Row.countP_text (row : Row) : row.text.countP isFieldDelim = 6 := by
  have hzero : ∀ field ∈ row.fields, field.countP isFieldDelim = 0 := by
    intro field hfield
    rw [List.countP_eq_zero]
    intro x hx
    rw [((row.mem_fields hfield).2 x hx).2.1]
    exact Bool.false_ne_true
  have hcomma : [comma].countP isFieldDelim = 1 := rfl
  rw [text]
  unfold fields at hzero ⊢
  simp only [List.forall_mem_cons] at hzero
  simp only [List.intercalate_cons_cons, List.intercalate_singleton, List.countP_append, hcomma,
    hzero]

/-- What is left of a line without a comma is read as a chunk with too few
    fields. -/
theorem exists_few_chunk {rest tail : Bytes} (hrest : rest.countP isFieldDelim = 0)
    (hne : rest ++ tail ≠ []) (htail : tail = [] ∨ ∃ more, tail = newline :: more) :
    ∃ chunk ∈ fgetsLines lineSize (rest ++ tail), chunk.countP isFieldDelim < 6 := by
  have hsize : 2 ≤ lineSize := by decide
  have hline : newline ∉ rest := by
    intro hmem
    exact absurd (List.countP_eq_zero.mp hrest newline hmem) (by decide)
  by_cases hfits : rest.length + 1 < lineSize
  · rcases htail with rfl | ⟨more, rfl⟩
    · rw [List.append_nil] at hne ⊢
      rw [Lib.fgetsLines_single hsize hne hline (by omega)]
      exact ⟨rest, List.mem_singleton_self rest, by omega⟩
    · rw [Lib.fgetsLines_append hsize more hline hfits]
      refine ⟨_, List.mem_cons_self, ?_⟩
      rw [List.countP_append, hrest]
      decide
  · by_cases hlong : lineSize ≤ (rest ++ tail).length
    · have htake : (rest ++ tail).take (lineSize - 1) = rest.take (lineSize - 1) :=
        List.take_append_of_le_length (by omega)
      rw [Lib.fgetsLines_cut hsize (fun h => hline (List.mem_of_mem_take (htake ▸ h))) hlong, htake]
      refine ⟨_, List.mem_cons_self, ?_⟩
      have hcount := (List.take_sublist (lineSize - 1) rest).countP_le (p := isFieldDelim)
      omega
    · rcases htail with rfl | ⟨more, rfl⟩
      · rw [List.append_nil] at hne hlong ⊢
        rw [Lib.fgetsLines_single hsize hne hline (by omega)]
        exact ⟨rest, List.mem_singleton_self rest, by omega⟩
      · rw [List.length_append, List.length_cons] at hlong
        omega

/-- A row that does not fit the buffer has a chunk that is refused. -/
theorem exists_refused_chunk (row : Row) {tail : Bytes}
    (htail : tail = [] ∨ ∃ more, tail = newline :: more)
    (hlong : lineSize ≤ (row.text ++ tail).length) (hfull : lineSize ≤ row.text.length + 1) :
    ∃ chunk ∈ fgetsLines lineSize (row.text ++ tail), parseLine chunk = none := by
  have hsize : 2 ≤ lineSize := by decide
  have htake : (row.text ++ tail).take (lineSize - 1) = row.text.take (lineSize - 1) :=
    List.take_append_of_le_length (by omega)
  have hdrop : (row.text ++ tail).drop (lineSize - 1) = row.text.drop (lineSize - 1) ++ tail :=
    List.drop_append_of_le_length (by omega)
  have hline := row.not_mem_text.1
  rw [Lib.fgetsLines_cut hsize (fun h => hline (List.mem_of_mem_take (htake ▸ h))) hlong, htake,
    hdrop]
  have hcount := row.countP_text
  rw [← List.take_append_drop (lineSize - 1) row.text, List.countP_append] at hcount
  by_cases hfew : (row.text.take (lineSize - 1)).countP isFieldDelim < 6
  · exact ⟨_, List.mem_cons_self, parseLine_of_few hfew⟩
  -- all commas are in the first chunk
  · have hne : row.text.drop (lineSize - 1) ++ tail ≠ [] := by
      rw [← hdrop]
      intro hnil
      rw [List.drop_eq_nil_iff] at hnil
      have hpos : lineSize = 1024 := rfl
      omega
    obtain ⟨chunk, hchunk, hbad⟩ := exists_few_chunk (by omega) hne htail
    exact ⟨chunk, List.mem_cons_of_mem _ hchunk, parseLine_of_few hbad⟩

/-- So has a file with a line that does not fit. -/
theorem exists_refused_chunk_of_long {finalNewline : Bool} {rows : List Row}
    (h : ∃ line ∈ rowLines finalNewline rows, lineSize ≤ line.length) :
    ∃ chunk ∈ fgetsLines lineSize (rowsText finalNewline rows), parseLine chunk = none := by
  induction rows with
  | nil =>
      obtain ⟨line, hline, -⟩ := h
      cases hline
  | cons row rest ih =>
      cases rest with
      | nil =>
          obtain ⟨line, hline, hlong⟩ := h
          obtain rfl := List.mem_singleton.mp hline
          cases finalNewline with
          | true =>
              apply exists_refused_chunk row (.inr ⟨[], rfl⟩) hlong
              rw [if_pos rfl, List.length_append, List.length_singleton] at hlong
              exact hlong
          | false =>
              apply exists_refused_chunk row (.inl rfl) hlong
              rw [if_neg Bool.false_ne_true, List.append_nil] at hlong
              omega
      | cons next rest =>
          rw [rowsText]
          by_cases hfits : row.text.length + 1 < lineSize
          · rw [Lib.fgetsLines_append (by decide) _ row.not_mem_text.1 hfits]
            have hrest : ∃ line ∈ rowLines finalNewline (next :: rest),
                lineSize ≤ line.length := by
              obtain ⟨line, hline, hlong⟩ := h
              rw [rowLines, List.mem_cons] at hline
              rcases hline with rfl | hline
              · rw [List.length_append, List.length_singleton] at hlong
                omega
              · exact ⟨line, hline, hlong⟩
            obtain ⟨chunk, hchunk, hbad⟩ := ih hrest
            exact ⟨chunk, List.mem_cons_of_mem _ hchunk, hbad⟩
          · refine exists_refused_chunk row (.inr ⟨_, rfl⟩) ?_ (by omega)
            rw [List.length_append, List.length_cons]
            omega

/-! ## The parser on a file -/

theorem rowsText_eq_cons (finalNewline : Bool) (row : Row) (rest : List Row) :
    ∃ b more, rowsText finalNewline (row :: rest) = b :: more ∧ b ∈ row.pid.text := by
  obtain ⟨b, text, htext, hb⟩ := row.text_eq_cons
  cases rest with
  | nil => exact ⟨b, text ++ _, by rw [rowsText, htext]; rfl, hb⟩
  | cons next rest => exact ⟨b, text ++ _, by rw [rowsText, htext]; rfl, hb⟩

/-- The first chunk of the rows is no header. -/
theorem dataLines_rowsText (finalNewline : Bool) (rows : List Row) :
    dataLines (fgetsLines lineSize (rowsText finalNewline rows)) =
      fgetsLines lineSize (rowsText finalNewline rows) := by
  cases rows with
  | nil => rfl
  | cons row rest =>
      obtain ⟨b, more, htext, hb⟩ := rowsText_eq_cons finalNewline row rest
      have hdelim := (numeral_mem_text hb).2.1
      have hline : b ≠ newline := by
        rintro rfl
        exact absurd hdelim (by decide)
      have hp : b ≠ 112 := by
        rintro rfl
        rcases row.pid.mem_text hb with hdigit | heq | heq
        · exact absurd hdigit (by decide)
        · exact absurd heq (by decide)
        · exact absurd heq (by decide)
      have hchunk : ∃ chunk, Lib.firstLine ((b :: more).take (lineSize - 1)) = b :: chunk := by
        have htake : (b :: more).take (lineSize - 1) = b :: more.take (lineSize - 2) := rfl
        rw [htake, Lib.firstLine, List.takeWhile_cons, if_pos (bne_iff_ne.mpr hline)]
        exact ⟨_, rfl⟩
      obtain ⟨chunk, hchunk⟩ := hchunk
      rw [htext, Lib.fgetsLines_cons (by decide) (List.cons_ne_nil b more), hchunk, dataLines]
      have hnot : isHeader (b :: chunk) = false := by
        have hbytes : bytes "pid," = [112, 105, 100, 44] := by decide
        rw [isHeader, hbytes, beq_eq_false_iff_ne]
        intro heq
        exact hp (List.cons.inj heq).1
      rw [if_neg (by rw [hnot]; exact Bool.false_ne_true)]

/-- The data lines of a file are the chunks of its rows. -/
theorem dataLines_text (f : WorkloadFile) :
    dataLines (fgetsLines lineSize f.text) =
      fgetsLines lineSize (rowsText f.finalNewline f.rows) := by
  rw [WorkloadFile.text]
  split
  · have hline : newline ∉ headerText := by decide
    rw [Lib.fgetsLines_append (by decide) _ hline (by decide), dataLines, if_pos (by decide)]
  · exact dataLines_rowsText ..

/-- **A file of the format.**  It is accepted if no limit refuses it, as the
    workload of its rows. -/
theorem parseWorkload_text (f : WorkloadFile) (w : Workload) :
    parseWorkload (some f.text) = some w ↔ ¬ f.Refused ∧ w = .ofList (f.rows.map Row.spec) := by
  rw [parseWorkload_eq_some_iff, dataLines_text]
  unfold WorkloadFile.Refused
  rw [lines_rowsText]
  by_cases hlong : ∃ line ∈ rowLines f.finalNewline f.rows, lineSize ≤ line.length
  · refine iff_of_false ?_ fun h => h.1 (.inr (.inr (.inl hlong)))
    rintro ⟨specs, hspecs, -⟩
    obtain ⟨chunk, hchunk, hbad⟩ := exists_refused_chunk_of_long hlong
    obtain ⟨k, hk, rfl⟩ := List.getElem_of_mem hchunk
    have hspec := hspecs.get hk (hspecs.length_eq ▸ hk)
    exact absurd (hbad.symm.trans hspec) nofun
  · have hfits : ∀ line ∈ Lib.lines (rowsText f.finalNewline f.rows), line.length < lineSize := by
      intro line hline
      rw [lines_rowsText] at hline
      by_contra hover
      exact hlong ⟨line, hline, not_lt.mp hover⟩
    rw [Lib.fgetsLines_eq_lines (by decide) hfits, lines_rowsText]
    simp only [parse_rowLines]
    constructor
    · rintro ⟨specs, ⟨hgood, rfl⟩, hne, hcount, rfl⟩
      rw [List.length_map] at hcount
      refine ⟨?_, rfl⟩
      rintro (hnil | hmany | hline | ⟨row, hrow, hbad⟩)
      · exact hne (by rw [hnil]; rfl)
      · omega
      · exact hlong hline
      · exact hgood row hrow hbad
    · rintro ⟨hgood, rfl⟩
      simp only [not_or, not_exists, not_and] at hgood
      obtain ⟨hne, hcount, -, hrows⟩ := hgood
      refine ⟨_, ⟨hrows, rfl⟩, ?_, ?_, rfl⟩
      · rw [Ne, List.map_eq_nil_iff]
        exact hne
      · rw [List.length_map]
        omega

end G20OsLab.Sim
