/-
  G20OsLab.Sim.Parser

  The workload parser (`src/core/parser.c`).

  A file is read in chunks of at most 1023 bytes, a chunk is cut into fields
  by `strtok_r`, and the third field into bursts by a second `strtok_r`.  The
  loop over the fields of a chunk and the one over its bursts stop at the
  first error; the model returns `none` for the source's `-1`.

  `strtok_r` is taken as POSIX declares it.  With the `-std=c11` of the
  Makefile the headers of glibc do not declare it, and its result is then an
  `int`.
-/

import G20OsLab.Lib.CString
import G20OsLab.Lib.Decimal
import G20OsLab.Sim.Types

namespace G20OsLab.Sim

open Lib (Bytes bytes isspace toupper cstring tokens strtol fgetsLines newline)

/-! ## Constants -/

/-- `sizeof(line)` in `parse_workload`. -/
def lineSize : Nat := 1024

/-- `sizeof(buffer)` in `parse_bursts`. -/
def burstSize : Nat := 512

def comma : UInt8 := 44

def colon : UInt8 := 58

def letterC : UInt8 := 67

def letterI : UInt8 := 73

/-! ## Bursts -/

/-- `trim`: without the blanks at both ends. -/
def trim (value : Bytes) : Bytes :=
  ((value.dropWhile isspace).reverse.dropWhile isspace).reverse

/-- Nothing to trim off a string without blanks. -/
theorem trim_eq_self {value : Bytes} (h : ∀ b ∈ value, isspace b = false) : trim value = value := by
  rw [trim, Lib.dropWhile_eq_self h, Lib.dropWhile_eq_self, List.reverse_reverse]
  intro b hb
  exact h b (List.mem_reverse.mp hb)

/-- The type that follows in the alternation. -/
def BurstType.other : BurstType → BurstType
  | cpu => io
  | io => cpu

/-- The letter `parse_bursts` asks for. -/
def BurstType.letter : BurstType → UInt8
  | cpu => letterC
  | io => letterI

/-- The body of the loop of `parse_bursts`, after `count` bursts. -/
def parseBurst (count : Nat) (expected : BurstType) (token : Bytes) : Option Burst :=
  match trim token with
  | [] | [_] => none
  | letter :: number =>
      let typeChar := toupper letter
      let duration := strtol number
      if duration ≤ 0 ∨ maxBursts ≤ count then none
      else if expected = .cpu ∧ typeChar ≠ letterC ∨ expected = .io ∧ typeChar ≠ letterI then none
      -- the check above was on the `long`
      else some ⟨if typeChar = letterC then .cpu else .io, wrap32 duration⟩

/-- The loop of `parse_bursts` over its tokens. -/
def parseBurstTokens : (count : Nat) → (expected : BurstType) → List Bytes → Option (List Burst)
  | _, _, [] => some []
  | count, expected, token :: rest =>
      match parseBurst count expected token with
      | none => none
      | some burst => (parseBurstTokens (count + 1) expected.other rest).map (burst :: ·)

def parseBursts (text : Bytes) : Option (List Burst) :=
  if burstSize ≤ text.length then none
  else
    match parseBurstTokens 0 .cpu (tokens (· == colon) text) with
    | some (burst :: rest) => some (burst :: rest)
    | _ => none

/-! ## Lines -/

/-- The delimiters between the fields of a line. -/
def isFieldDelim (b : UInt8) : Bool := b == comma || b == newline

/-- `(int)strtol(field, NULL, 10)`. -/
def fieldInt (field : Bytes) : Int := wrap32 (strtol field)

/-- The body of the loop of `parse_workload` for a line that is no header. -/
def parseLine (line : Bytes) : Option ProcessSpec :=
  match ((tokens isFieldDelim (cstring line)).take 7).map trim with
  | [pid, arrival, bursts, basePriority, tickets, deadline, affinity] =>
      if fieldInt pid ≤ 0 ∨ fieldInt arrival < 0 then none
      else
        match parseBursts bursts with
        | none => none
        | some bursts =>
            some
              { pid := fieldInt pid
                arrival := fieldInt arrival
                basePriority := fieldInt basePriority
                tickets := if fieldInt tickets ≤ 0 then 1 else fieldInt tickets
                deadline := fieldInt deadline
                affinity := fieldInt affinity
                bursts := bursts }
  | _ => none

/-- `strncmp(line, "pid,", 4) == 0`. -/
def isHeader (line : Bytes) : Bool := line.take 4 == bytes "pid,"

/-- The loop of `parse_workload`, from line `lineNumber` on. -/
def parseLines : (lineNumber : Nat) → (processes : List ProcessSpec) → List Bytes →
    Option (List ProcessSpec)
  | _, processes, [] => some processes
  | lineNumber, processes, line :: rest =>
      if lineNumber = 1 ∧ isHeader line then parseLines (lineNumber + 1) processes rest
      else if maxProcesses ≤ processes.length then none
      else
        match parseLine line with
        | none => none
        | some spec => parseLines (lineNumber + 1) (processes ++ [spec]) rest

/-- The workload with the given processes, in their order. -/
def Workload.ofList (processes : List ProcessSpec) : Workload where
  processCount := processes.length
  processes := processes.get

/-- `parse_workload` on the contents of the file; no contents where `fopen`
    fails. -/
def parseWorkload : (file : Option Bytes) → Option Workload
  | none => none
  | some file =>
      match parseLines 1 [] (fgetsLines lineSize file) with
      | some (spec :: rest) => some (.ofList (spec :: rest))
      | _ => none

/-! ## The loop over the lines -/

/-- The lines that hold a process each: all but a header in front. -/
def dataLines : List Bytes → List Bytes
  | [] => []
  | line :: rest => if isHeader line then rest else line :: rest

/-- Past the first line no line is a header. -/
theorem parseLines_eq_some_iff {lineNumber : Nat} (hnumber : 1 < lineNumber)
    {processes result : List ProcessSpec} {lines : List Bytes} :
    parseLines lineNumber processes lines = some result ↔
      ∃ specs, List.Forall₂ (fun line spec => parseLine line = some spec) lines specs ∧
        (lines = [] ∨ processes.length + lines.length ≤ maxProcesses) ∧
        result = processes ++ specs := by
  induction lines generalizing lineNumber processes with
  | nil =>
      rw [parseLines, Option.some.injEq]
      constructor
      · rintro rfl
        exact ⟨[], .nil, .inl rfl, (List.append_nil _).symm⟩
      · rintro ⟨specs, hspecs, -, rfl⟩
        cases hspecs
        exact (List.append_nil _).symm
  | cons line rest ih =>
      rw [parseLines, if_neg fun h => Nat.ne_of_gt hnumber h.1]
      split
      -- the table is full, and the line is not looked at
      · rename_i hfull
        refine iff_of_false nofun ?_
        rintro ⟨specs, -, hcount, -⟩
        rcases hcount with hnil | hcount
        · cases hnil
        · rw [List.length_cons] at hcount
          omega
      -- a line that is refused ends the parse
      · rename_i hroom
        cases hline : parseLine line with
        | none =>
            refine iff_of_false nofun ?_
            rintro ⟨specs, hspecs, -, -⟩
            cases hspecs with
            | cons hhead _ => exact absurd (hline.symm.trans hhead) nofun
        | some spec =>
            dsimp only
            rw [ih (Nat.lt_succ_of_lt hnumber)]
            constructor
            · rintro ⟨specs, hspecs, hcount, rfl⟩
              refine ⟨spec :: specs, .cons hline hspecs, .inr ?_, List.append_assoc ..⟩
              rw [List.length_append, List.length_singleton] at hcount
              rw [List.length_cons]
              rcases hcount with rfl | hcount
              · rw [List.length_nil]
                omega
              · omega
            · rintro ⟨specs, hspecs, hcount, rfl⟩
              cases hspecs with
              | @cons _ spec' _ specs hhead htail =>
                  obtain rfl := Option.some.inj (hline.symm.trans hhead)
                  refine ⟨specs, htail, ?_, List.append_cons processes spec specs⟩
                  rcases hcount with hnil | hcount
                  · cases hnil
                  · rw [List.length_cons] at hcount
                    rw [List.length_append, List.length_singleton]
                    exact .inr (by omega)

/-- Past the first line the number of a line does not matter. -/
theorem parseLines_number {a b : Nat} (ha : 1 < a) (hb : 1 < b) (processes : List ProcessSpec)
    (lines : List Bytes) : parseLines a processes lines = parseLines b processes lines := by
  apply Option.ext
  intro result
  rw [parseLines_eq_some_iff ha, parseLines_eq_some_iff hb]

/-- The first line is skipped if it is a header. -/
theorem parseLines_one (lines : List Bytes) :
    parseLines 1 [] lines = parseLines 2 [] (dataLines lines) := by
  cases lines with
  | nil => rfl
  | cons line rest =>
      rw [dataLines]
      by_cases hheader : isHeader line = true
      · rw [if_pos hheader, parseLines, if_pos ⟨rfl, hheader⟩]
      · have hnot : ∀ number : Nat, ¬ (number = 1 ∧ isHeader line) := fun _ h => hheader h.2
        rw [if_neg hheader, parseLines, if_neg (hnot 1)]
        rw [parseLines, if_neg (hnot 2)]
        cases parseLine line with
        | none => rfl
        | some spec =>
            dsimp only
            rw [parseLines_number (a := 1 + 1) (b := 2 + 1) (by decide) (by decide)]

/-- The loop over a file accepts every data line, up to 128 of them. -/
theorem parseLines_file_eq_some_iff {lines : List Bytes} {result : List ProcessSpec} :
    parseLines 1 [] lines = some result ↔
      List.Forall₂ (fun line spec => parseLine line = some spec) (dataLines lines) result ∧
        result.length ≤ maxProcesses := by
  rw [parseLines_one, parseLines_eq_some_iff (by decide)]
  simp only [List.length_nil, Nat.zero_add, List.nil_append]
  constructor
  · rintro ⟨specs, hspecs, hcount, rfl⟩
    refine ⟨hspecs, ?_⟩
    have hlength := hspecs.length_eq
    rcases hcount with hnil | hcount
    · rw [hnil, List.length_nil] at hlength
      omega
    · omega
  · rintro ⟨hspecs, hcount⟩
    exact ⟨result, hspecs, .inr (hspecs.length_eq ▸ hcount), rfl⟩

/-- A file is accepted if every data line is, and there are 1 to 128 of
    them. -/
theorem parseWorkload_eq_some_iff {file : Bytes} {w : Workload} :
    parseWorkload (some file) = some w ↔
      ∃ specs, List.Forall₂ (fun line spec => parseLine line = some spec)
          (dataLines (fgetsLines lineSize file)) specs ∧
        specs ≠ [] ∧ specs.length ≤ maxProcesses ∧ w = .ofList specs := by
  rw [parseWorkload]
  cases hresult : parseLines 1 [] (fgetsLines lineSize file) with
  | none =>
      refine iff_of_false nofun ?_
      rintro ⟨specs, hspecs, -, hcount, -⟩
      have hsome := parseLines_file_eq_some_iff.mpr ⟨hspecs, hcount⟩
      rw [hresult] at hsome
      cases hsome
  | some result =>
      obtain ⟨hspecs, hcount⟩ := parseLines_file_eq_some_iff.mp hresult
      have hunique : ∀ specs, List.Forall₂ (fun line spec => parseLine line = some spec)
          (dataLines (fgetsLines lineSize file)) specs → specs.length ≤ maxProcesses →
          specs = result := by
        intro specs hspecs' hcount'
        have hsome := parseLines_file_eq_some_iff.mpr ⟨hspecs', hcount'⟩
        exact Option.some.inj (hsome.symm.trans hresult)
      cases result with
      | nil =>
          refine iff_of_false nofun ?_
          rintro ⟨specs, hspecs', hne, hcount', -⟩
          exact hne (hunique specs hspecs' hcount')
      | cons spec rest =>
          dsimp only
          rw [Option.some.injEq]
          constructor
          · rintro rfl
            exact ⟨spec :: rest, hspecs, nofun, hcount, rfl⟩
          · rintro ⟨specs, hspecs', -, hcount', rfl⟩
            rw [hunique specs hspecs' hcount']

/-! ## The loop over the bursts -/

/-- The type the loop expects after `count` bursts more. -/
def BurstType.after : (count : Nat) → BurstType → BurstType
  | 0, expected => expected
  | count + 1, expected => BurstType.after count expected.other

@[simp] theorem BurstType.other_other (type : BurstType) : type.other.other = type := by
  cases type <;> rfl

theorem BurstType.after_cpu (count : Nat) :
    BurstType.after count .cpu = if count % 2 = 0 then .cpu else .io := by
  induction count using Nat.twoStepInduction with
  | zero => rfl
  | one => rfl
  | more count ih _ =>
      have hparity : (count + 2) % 2 = count % 2 := by omega
      rw [BurstType.after, BurstType.after, BurstType.other_other, ih, hparity]

/-- The loop makes a burst of every token, at its place in the alternation. -/
theorem parseBurstTokens_spec {count : Nat} {expected : BurstType} {toks : List Bytes}
    {bursts : List Burst} (h : parseBurstTokens count expected toks = some bursts) :
    toks.length = bursts.length ∧
      ∀ k, (hk : k < toks.length) → (hk' : k < bursts.length) →
        parseBurst (count + k) (expected.after k) toks[k] = some bursts[k] := by
  induction toks generalizing count expected bursts with
  | nil =>
      obtain rfl := Option.some.inj h
      exact ⟨rfl, fun k hk => absurd hk (Nat.not_lt_zero k)⟩
  | cons token rest ih =>
      rw [parseBurstTokens] at h
      cases hburst : parseBurst count expected token with
      | none =>
          rw [hburst] at h
          cases h
      | some burst =>
          rw [hburst] at h
          obtain ⟨bursts, hrest, rfl⟩ := Option.map_eq_some_iff.mp h
          obtain ⟨hlength, hplaces⟩ := ih hrest
          refine ⟨congrArg (· + 1) hlength, ?_⟩
          intro k hk hk'
          cases k with
          | zero => exact hburst
          | succ k =>
              have hplace := hplaces k (Nat.lt_of_succ_lt_succ hk) (Nat.lt_of_succ_lt_succ hk')
              rw [Nat.add_right_comm] at hplace
              exact hplace

end G20OsLab.Sim
