/-
  G20OsLab.Sim.ParserGrammar

  What an accepted line looks like.

  Lines that fit the buffer give one process each.  `strtok_r` sees the fields
  of a line in their positions if none is empty; an accepted line then has the
  seven columns, and each is read from the front of its field
  (`accepted_lines_read`).  What stands behind a number, an eighth field, and the
  case of a letter make no difference, so a line may be accepted that is not
  strictly of the format (`malformed_accepted`).
-/

import G20OsLab.Sim.ParsedNumbers

namespace G20OsLab.Sim

open Lib (Bytes bytes isdigit toupper cstring tokens pieces strtol clampLong newline Numeral
  digitByte valueOf decimalValue StartsWith)

/-! ## The grammar -/

/-- The line without its newline. -/
def lineBody (line : Bytes) : Bytes := line.takeWhile (· != newline)

/-- The comma-separated fields of a line. -/
def lineFields (line : Bytes) : List Bytes := (lineBody line).splitOn comma

/-- The field is the decimal integer `x`, up to blanks around it. -/
def DecimalField (field : Bytes) (x : Int) : Prop :=
  ∃ num : Numeral, trim field = num.text ∧ num.value = x

/-- The token is the letter of the burst and its duration, with nothing
    around them. -/
def StrictToken (token : Bytes) (b : Burst) : Prop :=
  ∃ digits, token = b.type.letter :: digits.map digitByte ∧ digits ≠ [] ∧
    (valueOf digits : Int) = b.duration

/-- Seven fields in the order of the columns: six decimal integers, and in the
    third place the bursts, separated by colons. -/
def FieldsRead : (fields : List Bytes) → (spec : ProcessSpec) → Prop
  | [pid, arrival, bursts, basePriority, tickets, deadline, affinity], spec =>
      DecimalField pid spec.pid ∧ DecimalField arrival spec.arrival ∧
        List.Forall₂ StrictToken ((trim bursts).splitOn colon) spec.bursts ∧
        DecimalField basePriority spec.basePriority ∧
        (∃ x, DecimalField tickets x ∧ spec.tickets = if x ≤ 0 then 1 else x) ∧
        DecimalField deadline spec.deadline ∧ DecimalField affinity spec.affinity ∧
        spec.WellFormed
  | _, _ => False

/-! ## What the parser goes by -/

/-- The text is read as `x`: the number it starts with, if that is an `int`, and
    zero without one. -/
structure IntRead (text : Bytes) (x : Int) : Prop where
  number : ∀ num, StartsWith text num → InInt num.value → x = num.value
  none : (∀ num, ¬ StartsWith text num) → x = 0

/-- The token is the letter of the burst, in either case, and starts with a
    positive number behind it, its duration if that is an `int`. -/
def BurstRead (token : Bytes) (b : Burst) : Prop :=
  ∃ letter number num, trim token = letter :: number ∧ toupper letter = b.type.letter ∧
    StartsWith number num ∧ 0 < num.value ∧ (InInt num.value → b.duration = num.value)

/-- The columns are read from the first seven fields, in their order, and the
    bursts from the tokens between colons if none of these is empty. -/
def ColumnsRead : (fields : List Bytes) → (spec : ProcessSpec) → Prop
  | pid :: arrival :: bursts :: basePriority :: tickets :: deadline :: affinity :: _, spec =>
      IntRead (trim pid) spec.pid ∧ IntRead (trim arrival) spec.arrival ∧
        ([] ∉ (trim bursts).splitOn colon →
          List.Forall₂ BurstRead ((trim bursts).splitOn colon) spec.bursts) ∧
        IntRead (trim basePriority) spec.basePriority ∧
        (∃ x, IntRead (trim tickets) x ∧ spec.tickets = if x ≤ 0 then 1 else x) ∧
        IntRead (trim deadline) spec.deadline ∧ IntRead (trim affinity) spec.affinity
  | _, _ => False

/-- What an accepted line has given. -/
structure LineRead (line : Bytes) (spec : ProcessSpec) : Prop where
  pid_pos : 0 < spec.pid
  arrival_nonneg : 0 ≤ spec.arrival
  tickets_pos : 1 ≤ spec.tickets
  bursts_pos : 0 < spec.bursts.length
  bursts_le : spec.bursts.length ≤ maxBursts
  alternates : spec.Alternates
  columns : 0 ∉ line → [] ∉ lineFields line → ColumnsRead (lineFields line) spec

/-! ## Splitting -/

theorem splitOnP_congr {p q : UInt8 → Bool} {s : Bytes} (h : ∀ b ∈ s, p b = q b) :
    s.splitOnP p = s.splitOnP q := by
  induction s with
  | nil => rfl
  | cons b s ih =>
      rw [List.splitOnP_cons_eq_if_modifyHead, List.splitOnP_cons_eq_if_modifyHead,
        h b List.mem_cons_self, ih fun x hx => h x (List.mem_cons_of_mem _ hx)]

/-- Without empty pieces the filter keeps all of them. -/
theorem filter_eq_self_of_nonempty {parts : List Bytes} (h : [] ∉ parts) :
    parts.filter (fun piece => !piece.isEmpty) = parts := by
  rw [List.filter_eq_self]
  intro piece hpiece
  have hne : piece ≠ [] := fun heq => h (heq ▸ hpiece)
  simpa using hne

/-- Without empty pieces the tokens are all the pieces. -/
theorem tokens_eq_splitOn {sep : UInt8} {s : Bytes} (h : [] ∉ s.splitOn sep) :
    tokens (· == sep) s = s.splitOn sep := by
  rw [Lib.tokens_eq, pieces, ← List.splitOn_eq_splitOnP, filter_eq_self_of_nonempty h]

/-- A line of a file is its body, with a newline or without. -/
theorem lineBody_cases {file line : Bytes} (h : line ∈ Lib.lines file) :
    newline ∉ lineBody line ∧ (line = lineBody line ∨ line = lineBody line ++ [newline]) := by
  induction hlen : file.length using Nat.strongRecOn generalizing file with
  | _ len ih =>
      subst hlen
      have hbody : ∀ {text : Bytes}, newline ∉ text → ∀ b ∈ text, (b != newline) = true :=
        fun htext b hb => bne_iff_ne.mpr fun heq => htext (heq ▸ hb)
      rcases Lib.lines_cases file with rfl | ⟨hne, hmem⟩ | ⟨text, rest, htext, rfl⟩
      · cases h
      · rw [Lib.lines_single hne hmem, List.mem_singleton] at h
        subst h
        have hself : lineBody line = line := List.takeWhile_eq_self_iff.mpr (hbody hmem)
        rw [hself]
        exact ⟨hmem, .inl rfl⟩
      · rw [Lib.lines_append rest htext, List.mem_cons] at h
        rcases h with rfl | h
        · have hself : lineBody (text ++ [newline]) = text := by
            rw [lineBody, List.takeWhile_append_of_pos (hbody htext)]
            simp
          rw [hself]
          exact ⟨htext, .inr rfl⟩
        · refine ih rest.length ?_ h rfl
          rw [List.length_append, List.length_cons]
          omega

/-- The tokens of a line without a NUL and an empty field are its fields. -/
theorem tokens_line {file line : Bytes} (hline : line ∈ Lib.lines file) (hnul : 0 ∉ line)
    (hempty : [] ∉ lineFields line) : tokens isFieldDelim (cstring line) = lineFields line := by
  obtain ⟨hbody, hcases⟩ := lineBody_cases hline
  have hfields : pieces isFieldDelim (lineBody line) = lineFields line := by
    have hsame : (lineBody line).splitOnP isFieldDelim = lineFields line := by
      rw [lineFields, List.splitOn_eq_splitOnP]
      refine splitOnP_congr ?_
      intro b hb
      have hne : b ≠ newline := fun heq => hbody (heq ▸ hb)
      rw [isFieldDelim, beq_eq_false_iff_ne.mpr hne, Bool.or_false]
    rw [pieces, hsame, filter_eq_self_of_nonempty hempty]
  rw [Lib.cstring_of_not_mem hnul, Lib.tokens_eq]
  rcases hcases with heq | heq
  · rw [← hfields, ← heq]
  · have hnewline : isFieldDelim newline = true := rfl
    have hpieces := Lib.pieces_append (lineBody line) [] hnewline
    rw [← heq, hfields] at hpieces
    rw [hpieces]
    exact List.append_nil _

/-! ## Reading -/

/-- `(int)strtol` of a text. -/
theorem intRead_fieldInt (text : Bytes) : IntRead text (fieldInt text) where
  number := by
    intro num hnum hrange
    rw [fieldInt, hnum.strtol]
    exact asInt_eq hrange
  none := by
    intro hnone
    rw [fieldInt, Lib.strtol_eq_zero hnone]
    rfl

/-- A text that `strtol` reads as a positive number starts with one. -/
theorem startsWith_of_pos {text : Bytes} (h : ¬ strtol text ≤ 0) :
    ∃ num, StartsWith text num ∧ 0 < num.value := by
  by_contra hnone
  refine h ?_
  by_cases hnum : ∃ num, StartsWith text num
  · obtain ⟨num, hnum⟩ := hnum
    have hle : num.value ≤ 0 := Int.not_lt.mp fun hpos => hnone ⟨num, hnum, hpos⟩
    rw [hnum.strtol, clampLong]
    exact max_le (by decide) (min_le_of_right_le hle)
  · rw [Lib.strtol_eq_zero fun num hstarts => hnum ⟨num, hstarts⟩]

/-- The letter that the loop of `parse_bursts` accepts is the one it expects. -/
theorem toupper_of_accepted {expected : BurstType} {letter : UInt8}
    (h : ¬ (expected = .cpu ∧ toupper letter ≠ letterC ∨
      expected = .io ∧ toupper letter ≠ letterI)) : toupper letter = expected.letter := by
  by_contra hother
  cases expected
  · exact h (.inl ⟨rfl, hother⟩)
  · exact h (.inr ⟨rfl, hother⟩)

/-- An accepted token is the burst it is read as, at its place in the
    alternation. -/
theorem parseBurst_read {count : Nat} {expected : BurstType} {token : Bytes} {burst : Burst}
    (h : parseBurst count expected token = some burst) :
    BurstRead token burst ∧ burst.type = expected ∧ count < maxBursts := by
  rw [parseBurst] at h
  split at h
  · cases h
  · cases h
  · rename_i letter number hshort htrim
    dsimp only at h
    split at h
    · cases h
    · rename_i hpos
      split at h
      · cases h
      · rename_i hletter
        obtain rfl := Option.some.inj h
        rw [not_or] at hpos
        have htype := toupper_of_accepted hletter
        have hsame : (if toupper letter = letterC then BurstType.cpu else .io) = expected := by
          rw [htype]
          cases expected <;> rfl
        obtain ⟨num, hnum, hvalue⟩ := startsWith_of_pos hpos.1
        rw [hsame]
        refine ⟨⟨letter, number, num, htrim, htype, hnum, hvalue, fun hrange => ?_⟩, rfl,
          Nat.not_le.mp hpos.2⟩
        exact (intRead_fieldInt number).number num hnum hrange

/-- Accepted bursts: each token is read as the burst in its position. -/
theorem parseBursts_read {field : Bytes} {bursts : List Burst}
    (h : parseBursts field = some bursts) :
    List.Forall₂ BurstRead (tokens (· == colon) field) bursts ∧ 0 < bursts.length ∧
      bursts.length ≤ maxBursts ∧
      ∀ k, (hk : k < bursts.length) → bursts[k].type = if k % 2 = 0 then .cpu else .io := by
  rw [parseBursts] at h
  split at h
  · cases h
  · split at h
    · rename_i burst rest hloop
      obtain rfl := Option.some.inj h
      obtain ⟨hlength, hplaces⟩ := parseBurstTokens_spec hloop
      have hread : ∀ k, (hk : k < (tokens (· == colon) field).length) →
          (hk' : k < (burst :: rest).length) →
          BurstRead (tokens (· == colon) field)[k] (burst :: rest)[k] ∧
            (burst :: rest)[k].type = BurstType.after k .cpu ∧ 0 + k < maxBursts :=
        fun k hk hk' => parseBurst_read (hplaces k hk hk')
      refine ⟨?_, Nat.succ_pos _, ?_, ?_⟩
      · rw [List.forall₂_iff_get]
        exact ⟨hlength, fun k hk hk' => (hread k hk hk').1⟩
      · have hlast := (hread rest.length (by rw [hlength]; exact Nat.lt_succ_self _)
          (Nat.lt_succ_self _)).2.2
        rw [List.length_cons]
        omega
      · intro k hk
        rw [← BurstType.after_cpu]
        exact (hread k (hlength ▸ hk) hk).2.1
    · cases h

/-- Fields of which the first seven are known. -/
theorem exists_of_take_map {fields : List Bytes} {f : Bytes → Bytes} {texts : List Bytes}
    (h : (fields.take 7).map f = texts) :
    ∃ front rest, fields = front ++ rest ∧ front.map f = texts :=
  ⟨fields.take 7, fields.drop 7, (List.take_append_drop 7 fields).symm, h⟩

/-- An accepted line, read column by column. -/
theorem parseLine_read {file line : Bytes} (hline : line ∈ Lib.lines file) {spec : ProcessSpec}
    (h : parseLine line = some spec) : LineRead line spec := by
  rw [parseLine] at h
  split at h
  · rename_i pid arrival bursts basePriority tickets deadline affinity hfields
    split at h
    · cases h
    · rename_i hlimits
      split at h
      · cases h
      · rename_i parsed hparsed
        obtain rfl := Option.some.inj h
        rw [not_or] at hlimits
        obtain ⟨htokens, hpos, hle, halternates⟩ := parseBursts_read hparsed
        refine ⟨Int.not_le.mp hlimits.1, Int.not_lt.mp hlimits.2, ?_, hpos, hle, halternates, ?_⟩
        · dsimp only
          split <;> omega
        · intro hnul hempty
          rw [tokens_line hline hnul hempty] at hfields
          obtain ⟨front, rest, hsplit, hfront⟩ := exists_of_take_map hfields
          rw [hsplit]
          simp only [List.map_eq_cons_iff, List.map_eq_nil_iff] at hfront
          obtain ⟨f0, _, rfl, rfl, f1, _, rfl, rfl, f2, _, rfl, rfl, f3, _, rfl, rfl, f4, _, rfl,
            rfl, f5, _, rfl, rfl, f6, _, rfl, rfl, rfl⟩ := hfront
          refine ⟨intRead_fieldInt _, intRead_fieldInt _, fun hcolon => ?_, intRead_fieldInt _,
            ⟨_, intRead_fieldInt _, rfl⟩, intRead_fieldInt _, intRead_fieldInt _⟩
          rwa [tokens_eq_splitOn hcolon] at htokens
  · cases h

/-- In an accepted file whose lines fit the buffer, each data line is one
    process, and is read column by column unless it has a NUL or an empty
    field. -/
theorem accepted_lines_read (file : Bytes) (w : Workload)
    (hfits : ∀ line ∈ Lib.lines file, line.length < lineSize)
    (h : parseWorkload (some file) = some w) :
    List.Forall₂ LineRead (dataLines (Lib.lines file)) (List.ofFn w.processes) := by
  obtain ⟨specs, hspecs, -, -, rfl⟩ := parseWorkload_eq_some_iff.mp h
  rw [Lib.fgetsLines_eq_lines (by decide) hfits] at hspecs
  rw [ofFn_ofList, List.forall₂_iff_get]
  refine ⟨hspecs.length_eq, ?_⟩
  intro k hk hk'
  have hmem : ∀ {line}, line ∈ dataLines (Lib.lines file) → line ∈ Lib.lines file := by
    intro line hline
    cases hlines : Lib.lines file with
    | nil =>
        rw [hlines] at hline
        cases hline
    | cons first rest =>
        rw [hlines, dataLines] at hline
        split at hline
        · exact List.mem_cons_of_mem _ hline
        · exact hline
  have hline := List.get_mem (dataLines (Lib.lines file)) ⟨k, hk⟩
  exact parseLine_read (hmem hline) (hspecs.get hk hk')

/-- A header and three processes; the second line has blanks and a lower-case
    letter, the third negative numbers and bytes behind a number. -/
def sampleFile : Bytes :=
  bytes "pid,arrival,bursts,base_priority,tickets,deadline,affinity\n" ++
    bytes "1,0,C3:I2:C1,1,5,-1,-1\n" ++ bytes "2, 4 ,c2,0,0,30,1\n" ++
    bytes "3,1,C1:I4:C2,-2,7x,40,0\n"

theorem accepted_lines_read_sample :
    ∃ w, parseWorkload (some sampleFile) = some w ∧
      List.Forall₂ LineRead (dataLines (Lib.lines sampleFile)) (List.ofFn w.processes) := by
  have haccepted : (parseWorkload (some sampleFile)).isSome = true := by decide +kernel
  obtain ⟨w, hw⟩ := Option.isSome_iff_exists.mp haccepted
  exact ⟨w, hw, accepted_lines_read sampleFile w (by decide +kernel) hw⟩

/-! ## Accepted lines that are not of the format -/

/-- Every number in the file is in the `int` range. -/
def NumbersInRange (file : Bytes) : Prop :=
  ∀ run ∈ pieces (fun b => !isdigit b) file, (decimalValue run : Int) ≤ intMax

instance (file : Bytes) : Decidable (NumbersInRange file) :=
  inferInstanceAs (Decidable (∀ run ∈ _, _))

/-- What can be seen of strictly formed fields without reading them: their
    number, the bytes they are made of, and that no burst is empty. -/
def FieldsShaped (fields : List Bytes) : Prop :=
  fields.length = 7 ∧ (∀ token ∈ (trim (fields.getD 2 [])).splitOn colon, token ≠ []) ∧
    ∀ k : Fin 7, ∀ b ∈ trim (fields.getD k []),
      isdigit b ∨ if k = 2 then b = letterC ∨ b = letterI ∨ b = colon else b = 43 ∨ b = 45

instance (fields : List Bytes) : Decidable (FieldsShaped fields) :=
  inferInstanceAs (Decidable (_ ∧ _ ∧ _))

theorem DecimalField.mem_trim {field : Bytes} {x : Int} (h : DecimalField field x) {b : UInt8}
    (hb : b ∈ trim field) : isdigit b = true ∨ b = 43 ∨ b = 45 := by
  obtain ⟨num, htext, -⟩ := h
  rw [htext] at hb
  exact num.mem_text hb

theorem StrictToken.mem {token : Bytes} {burst : Burst} (h : StrictToken token burst) {b : UInt8}
    (hb : b ∈ token) : isdigit b = true ∨ b = letterC ∨ b = letterI := by
  obtain ⟨digits, rfl, -⟩ := h
  rcases List.mem_cons.mp hb with rfl | hdigit
  · cases burst.type
    · exact .inr (.inl rfl)
    · exact .inr (.inr rfl)
  · obtain ⟨d, -, rfl⟩ := List.mem_map.mp hdigit
    exact .inl (Lib.isdigit_digitByte d)

theorem FieldsRead.shaped {fields : List Bytes} {spec : ProcessSpec}
    (h : FieldsRead fields spec) : FieldsShaped fields := by
  match fields, h with
  | [_, _, bursts, _, _, _, _], ⟨hpid, harrival, htokens, hbase, ⟨_, htickets, _⟩, hdeadline,
      haffinity, _⟩ =>
    have hbursts : ∀ b ∈ trim bursts,
        isdigit b = true ∨ b = letterC ∨ b = letterI ∨ b = colon := by
      intro b hb
      have hjoin : [colon].intercalate ((trim bursts).splitOn colon) = trim bursts :=
        List.intercalate_splitOn colon
      rw [← hjoin] at hb
      rcases mem_intercalate hb with heq | ⟨token, htoken, hmem⟩
      · exact .inr (.inr (.inr heq))
      · obtain ⟨k, hk, rfl⟩ := List.getElem_of_mem htoken
        have hstrict := htokens.get hk (htokens.length_eq ▸ hk)
        rcases hstrict.mem hmem with hdigit | hletter | hletter
        · exact .inl hdigit
        · exact .inr (.inl hletter)
        · exact .inr (.inr (.inl hletter))
    have hnonempty : ∀ token ∈ (trim bursts).splitOn colon, token ≠ [] := by
      intro token htoken
      obtain ⟨k, hk, rfl⟩ := List.getElem_of_mem htoken
      obtain ⟨digits, heq, -⟩ := htokens.get hk (htokens.length_eq ▸ hk)
      exact ne_of_eq_of_ne heq (List.cons_ne_nil _ _)
    refine ⟨rfl, hnonempty, ?_⟩
    intro k b hb
    match k with
    | 0 => exact hpid.mem_trim hb
    | 1 => exact harrival.mem_trim hb
    | 2 => exact hbursts b hb
    | 3 => exact hbase.mem_trim hb
    | 4 => exact htickets.mem_trim hb
    | 5 => exact hdeadline.mem_trim hb
    | 6 => exact haffinity.mem_trim hb

/-- The file is accepted, with its numbers in range, but its lines are not
    strictly of the format. -/
def AcceptedMalformed (file : Bytes) : Prop :=
  NumbersInRange file ∧ ∃ w, parseWorkload (some file) = some w ∧
    ¬ List.Forall₂ (fun line spec => FieldsRead (lineFields line) spec)
      (dataLines (Lib.lines file)) (List.ofFn w.processes)

/-- A file that is accepted with `count` processes is malformed if it has
    another number of lines or a line of another shape. -/
theorem acceptedMalformed_of {file : Bytes} (count : Nat) (hrange : NumbersInRange file)
    (hcount : (parseWorkload (some file)).map (·.processCount) = some count)
    (hshape : ¬ ((dataLines (Lib.lines file)).length = count ∧
      ∀ line ∈ dataLines (Lib.lines file), FieldsShaped (lineFields line))) :
    AcceptedMalformed file := by
  obtain ⟨w, hw, rfl⟩ := Option.map_eq_some_iff.mp hcount
  refine ⟨hrange, w, hw, fun hread => hshape ⟨?_, ?_⟩⟩
  · rw [hread.length_eq, List.length_ofFn]
  · intro line hline
    obtain ⟨k, hk, rfl⟩ := List.getElem_of_mem hline
    have hfields := hread.get hk (hread.length_eq ▸ hk)
    exact hfields.shaped

/-- Accepted files whose lines are not of the format have, in turn, a
    lower-case letter, blanks inside the burst field, an empty field, an eighth
    field, bytes after a number, bytes after a duration, an empty burst, a NUL,
    and a line that does not fit the buffer. -/
theorem malformed_accepted :
    (¬ ∀ (file : Bytes) (w : Workload), NumbersInRange file → parseWorkload (some file) = some w →
        List.Forall₂ (fun line spec => FieldsRead (lineFields line) spec)
          (dataLines (Lib.lines file)) (List.ofFn w.processes)) ∧
      AcceptedMalformed (bytes "1,0,c1,0,1,-1,-1\n") ∧
      AcceptedMalformed (bytes "1,0,C1 : I1,0,1,-1,-1\n") ∧
      AcceptedMalformed (bytes "1,,0,C1,0,1,-1,-1\n") ∧
      AcceptedMalformed (bytes "1,0,C1,0,1,-1,-1,5\n") ∧
      AcceptedMalformed (bytes "1,0,C1,x,1,-1,-1\n") ∧
      AcceptedMalformed (bytes "1,0,C1x,0,1,-1,-1\n") ∧
      AcceptedMalformed (bytes "1,0,C1::I1,0,1,-1,-1\n") ∧
      AcceptedMalformed (bytes "1,0,C1,0,1,-1,-1" ++ [0] ++ bytes "5\n") ∧
      AcceptedMalformed (bytes "1,0,C1,0,1,-1,-1" ++ List.replicate 1007 32 ++
        bytes "2,0,C1,0,1,-1,-1\n") := by
  have hlower : AcceptedMalformed (bytes "1,0,c1,0,1,-1,-1\n") := by
    refine acceptedMalformed_of 1 ?_ ?_ ?_
    all_goals decide +kernel
  refine ⟨fun h => ?_, hlower, acceptedMalformed_of 1 ?_ ?_ ?_, acceptedMalformed_of 1 ?_ ?_ ?_,
    acceptedMalformed_of 1 ?_ ?_ ?_, acceptedMalformed_of 1 ?_ ?_ ?_,
    acceptedMalformed_of 1 ?_ ?_ ?_, acceptedMalformed_of 1 ?_ ?_ ?_,
    acceptedMalformed_of 1 ?_ ?_ ?_, acceptedMalformed_of 2 ?_ ?_ ?_⟩
  · obtain ⟨hrange, w, hw, hnot⟩ := hlower
    exact hnot (h _ w hrange hw)
  all_goals decide +kernel

end G20OsLab.Sim
