/-
  G20OsLab.Lib.CString

  Byte strings as the C library reads them: the character classes of the C
  locale, `strtok_r` and `fgets`.

  The lemmas read the two loops declaratively: the tokens of a string are its
  nonempty pieces between delimiters (`tokens_eq`), and a file whose lines fit
  the buffer is read line by line (`fgetsLines_eq_lines`).
-/

import Mathlib.Data.List.TakeWhile

namespace G20OsLab.Lib

abbrev Bytes := List UInt8

/-- The bytes of an ASCII text. -/
def bytes (text : String) : Bytes := text.toList.map Char.toUInt8

/-! ## Characters -/

def newline : UInt8 := 10

/-- `isspace` in the C locale. -/
def isspace (b : UInt8) : Bool := b == 32 || (9 ≤ b && b ≤ 13)

def isdigit (b : UInt8) : Bool := 48 ≤ b && b ≤ 57

def toupper (b : UInt8) : UInt8 := if 97 ≤ b && b ≤ 122 then b - 32 else b

/-- The string in a `char` array: the bytes before the first NUL. -/
def cstring (s : Bytes) : Bytes := s.takeWhile (· != 0)

theorem cstring_of_not_mem {s : Bytes} (h : 0 ∉ s) : cstring s = s := by
  apply List.takeWhile_eq_self_iff.mpr
  intro b hb
  rw [bne_iff_ne]
  rintro rfl
  exact h hb

/-! ## Tokens -/

/-- `strtok_r`: skip delimiters, take the token, skip the one after it. -/
def strtokR (delim : UInt8 → Bool) (s : Bytes) : Option (Bytes × Bytes) :=
  match s.dropWhile delim with
  | [] => none
  | b :: rest =>
      some ((b :: rest).takeWhile fun b => !delim b,
        ((b :: rest).dropWhile fun b => !delim b).drop 1)

/-- The tokens a loop over `strtok_r` sees, `fuel` calls at most. -/
def tokensFrom (delim : UInt8 → Bool) : (fuel : Nat) → Bytes → List Bytes
  | 0, _ => []
  | fuel + 1, s =>
      match strtokR delim s with
      | none => []
      | some (token, rest) => token :: tokensFrom delim fuel rest

/-- The tokens of a string; each call takes a byte at least. -/
def tokens (delim : UInt8 → Bool) (s : Bytes) : List Bytes := tokensFrom delim s.length s

/-- The pieces of a string between delimiters that are not empty. -/
def pieces (delim : UInt8 → Bool) (s : Bytes) : List Bytes :=
  (s.splitOnP delim).filter fun piece => !piece.isEmpty

theorem pieces_cons {delim : UInt8 → Bool} {b : UInt8} (s : Bytes) (h : delim b = true) :
    pieces delim (b :: s) = pieces delim s := by
  unfold pieces
  rw [List.splitOnP_cons_eq_if_modifyHead, if_pos h]
  rfl

theorem pieces_dropWhile (delim : UInt8 → Bool) (s : Bytes) :
    pieces delim (s.dropWhile delim) = pieces delim s := by
  induction s with
  | nil => rfl
  | cons b s ih =>
      rw [List.dropWhile_cons]
      split
      · rename_i hb
        rw [ih, pieces_cons s hb]
      · rfl

/-- The pieces before and after a delimiter. -/
theorem pieces_append {delim : UInt8 → Bool} (before after : Bytes) {b : UInt8}
    (hb : delim b = true) :
    pieces delim (before ++ b :: after) = pieces delim before ++ pieces delim after := by
  unfold pieces
  rw [List.splitOnP_append_cons before after hb, List.filter_append]

theorem pieces_single {delim : UInt8 → Bool} {piece : Bytes} (hne : piece ≠ [])
    (hpiece : ∀ x ∈ piece, delim x = false) : pieces delim piece = [piece] := by
  unfold pieces
  rw [List.splitOnP_eq_singleton hpiece]
  exact List.filter_cons_of_pos (by simpa using hne)

theorem tokensFrom_eq {delim : UInt8 → Bool} {fuel : Nat} {s : Bytes} (h : s.length ≤ fuel) :
    tokensFrom delim fuel s = pieces delim s := by
  induction fuel generalizing s with
  | zero =>
      obtain rfl := List.length_eq_zero_iff.mp (Nat.le_zero.mp h)
      rfl
  | succ fuel ih =>
      rw [tokensFrom, strtokR, ← pieces_dropWhile]
      have hlen := (List.dropWhile_suffix delim (l := s)).length_le
      cases hdrop : s.dropWhile delim with
      | nil => rfl
      | cons b rest =>
          rw [hdrop] at hlen
          have hhead : delim b = false := by
            have hnot := List.head?_dropWhile_not delim s
            rw [hdrop] at hnot
            simpa using hnot
          dsimp only
          -- the token ends before the next delimiter, or with the string
          have htoken : ∀ x ∈ (b :: rest).takeWhile (fun x => !delim x), delim x = false := by
            intro x hx
            simpa using List.mem_takeWhile_imp hx
          have hne : (b :: rest).takeWhile (fun x => !delim x) ≠ [] := by
            simp [hhead]
          have hsplit := List.takeWhile_append_dropWhile
            (p := fun x => !delim x) (l := b :: rest)
          cases hafter : (b :: rest).dropWhile (fun x => !delim x) with
          | nil =>
              rw [hafter, List.append_nil] at hsplit
              rw [hsplit] at htoken hne ⊢
              rw [pieces_single hne htoken, List.drop_nil, ih (Nat.zero_le _)]
              rfl
          | cons d after =>
              have hd : delim d = true := by
                have hnot := List.head?_dropWhile_not (fun x => !delim x) (b :: rest)
                rw [hafter] at hnot
                simpa using hnot
              have hlength := congrArg List.length hsplit
              rw [hafter, List.length_append, List.length_cons] at hlength
              have hpos := List.length_pos_iff.mpr hne
              rw [hafter] at hsplit
              rw [← hsplit, pieces_append _ _ hd, pieces_single hne htoken, hsplit, List.drop_one,
                List.tail_cons, ih (by omega)]
              rfl

/-- The loop over `strtok_r` sees the nonempty pieces between delimiters. -/
theorem tokens_eq (delim : UInt8 → Bool) (s : Bytes) : tokens delim s = pieces delim s :=
  tokensFrom_eq (Nat.le_refl _)

/-- Pieces joined by a delimiter. -/
theorem pieces_intercalate {delim : UInt8 → Bool} {b : UInt8} (hb : delim b = true)
    {parts : List Bytes} (hparts : ∀ part ∈ parts, part ≠ [] ∧ ∀ x ∈ part, delim x = false) :
    pieces delim ([b].intercalate parts) = parts := by
  induction parts with
  | nil => rfl
  | cons part rest ih =>
      obtain ⟨hne, hpart⟩ := hparts part List.mem_cons_self
      cases rest with
      | nil =>
          rw [List.intercalate_singleton]
          exact pieces_single hne hpart
      | cons next rest =>
          rw [List.intercalate_cons_cons, List.append_assoc, List.singleton_append,
            pieces_append _ _ hb, pieces_single hne hpart,
            ih fun x hx => hparts x (List.mem_cons_of_mem _ hx)]
          rfl

/-- A string has at most one piece more than delimiters. -/
theorem length_pieces_le (delim : UInt8 → Bool) (s : Bytes) :
    (pieces delim s).length ≤ s.countP delim + 1 := by
  refine (List.length_filter_le ..).trans ?_
  induction s with
  | nil => exact Nat.le_refl _
  | cons b s ih =>
      rw [List.splitOnP_cons_eq_if_modifyHead, List.countP_cons]
      split
      · rw [List.length_cons]
        omega
      · rw [List.length_modifyHead]
        omega

/-! ## Lines -/

/-- The line at the start of a file: up to its newline, that included. -/
def firstLine (file : Bytes) : Bytes :=
  file.takeWhile (· != newline) ++ (file.dropWhile (· != newline)).take 1

/-- `fgets` with a buffer of `size` bytes: the line read, or as much of it as
    leaves room for a NUL, and the rest of the file. -/
def fgets (size : Nat) (file : Bytes) : Option (Bytes × Bytes) :=
  if file = [] then none
  else
    let line := firstLine (file.take (size - 1))
    some (line, file.drop line.length)

/-- What a loop over `fgets` reads, `fuel` calls at most. -/
def fgetsFrom (size : Nat) : (fuel : Nat) → Bytes → List Bytes
  | 0, _ => []
  | fuel + 1, file =>
      match fgets size file with
      | none => []
      | some (line, rest) => line :: fgetsFrom size fuel rest

/-- What a loop over `fgets` reads; each call reads a byte at least. -/
def fgetsLines (size : Nat) (file : Bytes) : List Bytes := fgetsFrom size file.length file

/-- The lines of a file, each with its newline; the last may lack one. -/
def lines : Bytes → List Bytes
  | [] => []
  | b :: rest =>
      if b = newline then [b] :: lines rest
      else
        match lines rest with
        | [] => [[b]]
        | line :: more => (b :: line) :: more

theorem firstLine_append {line : Bytes} (rest : Bytes) (h : newline ∉ line) :
    firstLine (line ++ newline :: rest) = line ++ [newline] := by
  have hline : ∀ b ∈ line, (b != newline) = true := fun b hb =>
    bne_iff_ne.mpr fun heq => h (heq ▸ hb)
  rw [firstLine, List.takeWhile_append_of_pos hline, List.dropWhile_append_of_pos hline]
  simp

theorem firstLine_of_not_mem {line : Bytes} (h : newline ∉ line) : firstLine line = line := by
  have hline : ∀ b ∈ line, (b != newline) = true := fun b hb =>
    bne_iff_ne.mpr fun heq => h (heq ▸ hb)
  rw [firstLine, List.takeWhile_eq_self_iff.mpr hline, List.dropWhile_eq_nil_iff.mpr hline]
  simp

theorem lines_append {line : Bytes} (rest : Bytes) (h : newline ∉ line) :
    lines (line ++ newline :: rest) = (line ++ [newline]) :: lines rest := by
  induction line with
  | nil => rw [List.nil_append, lines, if_pos rfl, List.nil_append]
  | cons b line ih =>
      rw [List.mem_cons, not_or] at h
      rw [List.cons_append, lines, if_neg (Ne.symm h.1), ih h.2]
      rfl

theorem lines_single {line : Bytes} (hne : line ≠ []) (h : newline ∉ line) :
    lines line = [line] := by
  induction line with
  | nil => exact absurd rfl hne
  | cons b line ih =>
      rw [List.mem_cons, not_or] at h
      rw [lines, if_neg (Ne.symm h.1)]
      cases line with
      | nil => rfl
      | cons c line => rw [ih nofun h.2]

/-- A file is empty, a single line without newline, or a line and the rest. -/
theorem lines_cases (file : Bytes) :
    file = [] ∨ file ≠ [] ∧ newline ∉ file ∨
      ∃ line rest, newline ∉ line ∧ file = line ++ newline :: rest := by
  by_cases hmem : newline ∈ file
  · obtain ⟨line, rest, hfile, hline⟩ := List.eq_append_cons_of_mem hmem
    exact .inr (.inr ⟨line, rest, hline, hfile⟩)
  · by_cases hne : file = []
    · exact .inl hne
    · exact .inr (.inl ⟨hne, hmem⟩)

section Fgets

variable {size : Nat} (hsize : 2 ≤ size)
include hsize

theorem firstLine_take_pos {file : Bytes} (hne : file ≠ []) :
    0 < (firstLine (file.take (size - 1))).length := by
  obtain ⟨b, rest, rfl⟩ := List.exists_cons_of_ne_nil hne
  obtain ⟨k, hk⟩ : ∃ k, size - 1 = k + 1 := ⟨size - 2, by omega⟩
  rw [hk, List.take_succ_cons, firstLine, List.takeWhile_cons, List.dropWhile_cons]
  split <;> simp

/-- Fuel beyond the length of the file is not used. -/
theorem fgetsFrom_eq {fuel : Nat} {file : Bytes} (h : file.length ≤ fuel) :
    fgetsFrom size fuel file = fgetsLines size file := by
  unfold fgetsLines
  induction hlen : file.length using Nat.strongRecOn generalizing fuel file with
  | _ len ih =>
      subst hlen
      by_cases hne : file = []
      · subst hne
        cases fuel <;> rfl
      · have hread := firstLine_take_pos hsize hne
        have hpos := List.length_pos_iff.mpr hne
        obtain ⟨k, rfl⟩ : ∃ k, fuel = k + 1 := ⟨fuel - 1, by omega⟩
        obtain ⟨j, hj⟩ : ∃ j, file.length = j + 1 := ⟨file.length - 1, by omega⟩
        rw [hj, fgetsFrom, fgetsFrom, fgets, if_neg hne]
        dsimp only
        have hdrop : (file.drop (firstLine (file.take (size - 1))).length).length ≤ j := by
          rw [List.length_drop]
          omega
        rw [ih _ (by omega) (by omega) rfl, ← ih _ (by omega) hdrop rfl]

theorem fgetsLines_cons {file : Bytes} (hne : file ≠ []) :
    fgetsLines size file = firstLine (file.take (size - 1)) ::
      fgetsLines size (file.drop (firstLine (file.take (size - 1))).length) := by
  have hread := firstLine_take_pos hsize hne
  have hpos := List.length_pos_iff.mpr hne
  obtain ⟨j, hj⟩ : ∃ j, file.length = j + 1 := ⟨file.length - 1, by omega⟩
  have hdrop : (file.drop (firstLine (file.take (size - 1))).length).length ≤ j := by
    rw [List.length_drop]
    omega
  rw [fgetsLines, hj, fgetsFrom, fgets, if_neg hne]
  dsimp only
  rw [fgetsFrom_eq hsize hdrop]

/-- A line that fits is read whole. -/
theorem fgetsLines_append {line : Bytes} (rest : Bytes) (h : newline ∉ line)
    (hfits : line.length + 1 < size) :
    fgetsLines size (line ++ newline :: rest) = (line ++ [newline]) :: fgetsLines size rest := by
  have htake : (line ++ newline :: rest).take (size - 1) =
      line ++ newline :: rest.take (size - 1 - line.length - 1) := by
    obtain ⟨k, hk⟩ : ∃ k, size - 1 - line.length = k + 1 := ⟨size - 1 - line.length - 1, by omega⟩
    rw [List.take_append, List.take_of_length_le (by omega), hk, List.take_succ_cons,
      Nat.add_sub_cancel]
  rw [fgetsLines_cons hsize (by simp), htake, firstLine_append _ h]
  have hrest : (line ++ newline :: rest).drop (line ++ [newline]).length = rest := by
    have hsplit : line ++ newline :: rest = line ++ [newline] ++ rest := List.append_cons ..
    rw [hsplit, List.drop_left]
  rw [hrest]

theorem fgetsLines_single {line : Bytes} (hne : line ≠ []) (h : newline ∉ line)
    (hfits : line.length < size) : fgetsLines size line = [line] := by
  rw [fgetsLines_cons hsize hne, List.take_of_length_le (by omega), firstLine_of_not_mem h,
    List.drop_length]
  rfl

/-- A line that does not fit is cut. -/
theorem fgetsLines_cut {file : Bytes} (h : newline ∉ file.take (size - 1))
    (hlong : size ≤ file.length) :
    fgetsLines size file = file.take (size - 1) :: fgetsLines size (file.drop (size - 1)) := by
  have hne : file ≠ [] := List.length_pos_iff.mp (by omega)
  rw [fgetsLines_cons hsize hne, firstLine_of_not_mem h, List.length_take,
    Nat.min_eq_left (by omega)]

/-- A file whose lines all fit is read line by line. -/
theorem fgetsLines_eq_lines {file : Bytes} (h : ∀ line ∈ lines file, line.length < size) :
    fgetsLines size file = lines file := by
  induction hlen : file.length using Nat.strongRecOn generalizing file with
  | _ len ih =>
      subst hlen
      rcases lines_cases file with rfl | ⟨hne, hmem⟩ | ⟨line, rest, hline, rfl⟩
      · rfl
      · rw [lines_single hne hmem] at h ⊢
        exact fgetsLines_single hsize hne hmem (h file (List.mem_singleton_self file))
      · rw [lines_append rest hline] at h ⊢
        have hfits := h _ List.mem_cons_self
        rw [List.length_append, List.length_singleton] at hfits
        rw [fgetsLines_append hsize rest hline hfits]
        congr 1
        refine ih rest.length ?_ (fun l hl => h l (List.mem_cons_of_mem _ hl)) rfl
        rw [List.length_append, List.length_cons]
        omega

end Fgets

end G20OsLab.Lib
