/-
  G20OsLab.Lib.Decimal

  Decimal integers and `strtol` in base 10 with a 64-bit `long`.

  A `Numeral` is an integer as it is written, of any size; `strtol` reads the
  one a text starts with as its value, saturated at the ends of the range
  (`StartsWith.strtol`), whatever follows it.
-/

import Mathlib.Data.Nat.Digits.Lemmas
import G20OsLab.Lib.CString

namespace G20OsLab.Lib

/-! ## Numbers -/

def digitValue (b : UInt8) : Nat := b.toNat - 48

/-- The value of a run of digits. -/
def decimalValue (digits : Bytes) : Nat :=
  digits.foldl (fun value b => 10 * value + digitValue b) 0

def longMax : Int := 9223372036854775807

def longMin : Int := -9223372036854775808

/-- `strtol` saturates at the ends of a 64-bit `long`. -/
def clampLong (x : Int) : Int := max longMin (min longMax x)

/-- `strtol(s, NULL, 10)`: blanks, a sign, and the digits up to the first other
    byte; zero if there are none. -/
def strtol (s : Bytes) : Int :=
  match s.dropWhile isspace with
  | [] => 0
  | b :: rest =>
      -- `-`
      if b = 45 then clampLong (-(decimalValue (rest.takeWhile isdigit) : Int))
      -- `+`
      else if b = 43 then clampLong (decimalValue (rest.takeWhile isdigit))
      else clampLong (decimalValue ((b :: rest).takeWhile isdigit))

inductive Sign
  | none | plus | minus
  deriving DecidableEq, Repr

def Sign.text : Sign → Bytes
  | none => []
  | plus => [43]
  | minus => [45]

def Sign.apply : Sign → Nat → Int
  | none, x => x
  | plus, x => x
  | minus, x => -x

def digitByte (d : Fin 10) : UInt8 := UInt8.ofNat (48 + d)

/-- For the numerals of `Fin 10`. -/
instance instNeZeroTen : NeZero 10 := ⟨by decide⟩

/-- A decimal integer as it is written: a sign or none, and one digit or more. -/
structure Numeral where
  sign : Sign
  digits : List (Fin 10)
  digits_ne_nil : digits ≠ []

theorem digit_ne_nil (d : Fin 10) : [d] ≠ [] := List.cons_ne_nil d []

/-- A numeral of one digit. -/
def Numeral.digit (sign : Sign) (d : Fin 10) : Numeral := ⟨sign, [d], digit_ne_nil d⟩

/-- The digits, most significant first, as a number. -/
def valueOf (digits : List (Fin 10)) : Nat := digits.foldl (fun value d => 10 * value + d.val) 0

def Numeral.text (num : Numeral) : Bytes := num.sign.text ++ num.digits.map digitByte

def Numeral.value (num : Numeral) : Int := num.sign.apply (valueOf num.digits)

theorem isdigit_digitByte (d : Fin 10) : isdigit (digitByte d) = true := by
  revert d
  decide

theorem digitValue_digitByte (d : Fin 10) : digitValue (digitByte d) = d := by
  revert d
  decide

theorem isspace_of_isdigit {b : UInt8} (h : isdigit b = true) : isspace b = false := by
  simp only [isdigit, isspace, Bool.and_eq_true, decide_eq_true_eq, Bool.or_eq_false_iff,
    beq_eq_false_iff_ne, Bool.and_eq_false_iff, decide_eq_false_iff_not] at h ⊢
  obtain ⟨hlow, hhigh⟩ := h
  rw [UInt8.le_iff_toNat_le] at hlow hhigh
  refine ⟨?_, .inr ?_⟩
  · rintro rfl
    exact absurd hlow (by decide)
  · rw [UInt8.le_iff_toNat_le]
    have hlow' : 48 ≤ b.toNat := hlow
    change ¬ b.toNat ≤ 13
    omega

/-- The bytes of digits have the value of the digits. -/
theorem decimalValue_map (digits : List (Fin 10)) :
    decimalValue (digits.map digitByte) = valueOf digits := by
  unfold decimalValue valueOf
  rw [List.foldl_map]
  simp only [digitValue_digitByte]

/-- A byte of a numeral is a digit or a sign. -/
theorem Numeral.mem_text {num : Numeral} {b : UInt8} (h : b ∈ num.text) :
    isdigit b = true ∨ b = 43 ∨ b = 45 := by
  rcases List.mem_append.mp h with hsign | hdigit
  · cases hnum : num.sign with
    | none =>
        rw [hnum] at hsign
        cases hsign
    | plus =>
        rw [hnum] at hsign
        exact .inr (.inl (List.mem_singleton.mp hsign))
    | minus =>
        rw [hnum] at hsign
        exact .inr (.inr (List.mem_singleton.mp hsign))
  · obtain ⟨d, -, rfl⟩ := List.mem_map.mp hdigit
    exact .inl (isdigit_digitByte d)

/-- A numeral has no space in it. -/
theorem Numeral.not_isspace {num : Numeral} {b : UInt8} (h : b ∈ num.text) :
    isspace b = false := by
  rcases num.mem_text h with hdigit | rfl | rfl
  · exact isspace_of_isdigit hdigit
  · rfl
  · rfl

theorem Numeral.text_ne_nil (num : Numeral) : num.text ≠ [] := by
  intro h
  have hdigits := (List.append_eq_nil_iff.mp h).2
  exact num.digits_ne_nil (List.map_eq_nil_iff.mp hdigits)

theorem dropWhile_eq_self {p : UInt8 → Bool} {s : Bytes} (h : ∀ b ∈ s, p b = false) :
    s.dropWhile p = s := by
  cases s with
  | nil => rfl
  | cons b rest => rw [List.dropWhile_cons, if_neg (by simp [h b List.mem_cons_self])]

/-- `num` stands at the front of the text, after blanks, with all its digits. -/
def StartsWith (text : Bytes) (num : Numeral) : Prop :=
  ∃ rest, text.dropWhile isspace = num.text ++ rest ∧ ∀ b ∈ rest.head?, isdigit b = false

/-- A text of digits is one. -/
theorem exists_digits {s : Bytes} (h : ∀ b ∈ s, isdigit b = true) :
    ∃ digits : List (Fin 10), s = digits.map digitByte := by
  have hdigit : ∀ b : UInt8, isdigit b = true → ∃ d : Fin 10, b = digitByte d := by
    intro b hb
    simp only [isdigit, Bool.and_eq_true, decide_eq_true_eq, UInt8.le_iff_toNat_le] at hb
    have hlow : 48 ≤ b.toNat := hb.1
    have hhigh : b.toNat ≤ 57 := hb.2
    refine ⟨⟨b.toNat - 48, by omega⟩, ?_⟩
    rw [digitByte, Nat.add_sub_cancel' hlow, UInt8.ofNat_toNat]
  induction s with
  | nil => exact ⟨[], rfl⟩
  | cons b s ih =>
      obtain ⟨d, rfl⟩ := hdigit b (h b List.mem_cons_self)
      obtain ⟨digits, rfl⟩ := ih fun x hx => h x (List.mem_cons_of_mem _ hx)
      exact ⟨d :: digits, rfl⟩

/-- The digits at the front of a text are all of a run that ends there. -/
theorem takeWhile_run {digits : List (Fin 10)} {rest : Bytes}
    (h : ∀ b ∈ rest.head?, isdigit b = false) :
    (digits.map digitByte ++ rest).takeWhile isdigit = digits.map digitByte := by
  have hall : ∀ b ∈ digits.map digitByte, isdigit b = true := by
    intro b hb
    obtain ⟨d, -, rfl⟩ := List.mem_map.mp hb
    exact isdigit_digitByte d
  rw [List.takeWhile_append_of_pos hall]
  cases rest with
  | nil => rw [List.takeWhile_nil, List.append_nil]
  | cons b rest => rw [List.takeWhile_cons_of_neg (by simp [h b rfl]), List.append_nil]

/-- `strtol` reads the number that the text starts with. -/
theorem StartsWith.strtol {text : Bytes} {num : Numeral} (h : StartsWith text num) :
    strtol text = clampLong num.value := by
  obtain ⟨rest, htext, hrest⟩ := h
  have hrun : decimalValue ((num.digits.map digitByte ++ rest).takeWhile isdigit) =
      valueOf num.digits := by
    rw [takeWhile_run hrest, decimalValue_map]
  rw [Lib.strtol, htext, Numeral.text, Numeral.value]
  cases hsign : num.sign with
  | none =>
      cases hdigits : num.digits with
      | nil => exact absurd hdigits num.digits_ne_nil
      | cons d digits =>
          rw [hdigits, List.map_cons, List.cons_append] at hrun
          have hbyte := isdigit_digitByte d
          simp only [Sign.text, List.nil_append, List.map_cons, List.cons_append]
          rw [if_neg, if_neg, hrun]
          · rfl
          · intro heq
            rw [heq] at hbyte
            exact absurd hbyte (by decide)
          · intro heq
            rw [heq] at hbyte
            exact absurd hbyte (by decide)
  | plus =>
      simp only [Sign.text, List.cons_append, List.nil_append]
      rw [if_neg (by decide), if_pos trivial, hrun]
      rfl
  | minus =>
      simp only [Sign.text, List.cons_append, List.nil_append]
      rw [if_pos trivial, hrun]
      rfl

/-- A sign and a run of digits behind it are a number. -/
theorem startsWith_of_run {text after : Bytes} {sign : Sign}
    (htext : text.dropWhile isspace = sign.text ++ after) (hrun : after.takeWhile isdigit ≠ []) :
    ∃ num, StartsWith text num := by
  obtain ⟨digits, hdigits⟩ := exists_digits (s := after.takeWhile isdigit) fun b hb =>
    List.mem_takeWhile_imp hb
  have hne : digits ≠ [] := by
    rintro rfl
    exact hrun hdigits
  refine ⟨⟨sign, digits, hne⟩, after.dropWhile isdigit, ?_, ?_⟩
  · rw [htext, Numeral.text, ← hdigits, List.append_assoc, List.takeWhile_append_dropWhile]
  · intro b hb
    have hnot := List.head?_dropWhile_not isdigit after
    rw [Option.mem_def] at hb
    rw [hb] at hnot
    simpa using hnot

/-- `strtol` of a text without a number at the front is zero. -/
theorem strtol_eq_zero {text : Bytes} (h : ∀ num, ¬ StartsWith text num) : strtol text = 0 := by
  have hempty : ∀ (sign : Sign) {after : Bytes},
      text.dropWhile isspace = sign.text ++ after → after.takeWhile isdigit = [] := by
    intro sign after htext
    by_contra hrun
    obtain ⟨num, hnum⟩ := startsWith_of_run htext hrun
    exact h num hnum
  rw [Lib.strtol]
  cases htext : text.dropWhile isspace with
  | nil => rfl
  | cons b rest =>
      dsimp only
      split
      · rename_i hb
        subst hb
        rw [hempty .minus htext]
        rfl
      · split
        · rename_i hb
          subst hb
          rw [hempty .plus htext]
          rfl
        · rw [hempty .none htext]
          rfl

/-- `strtol` reads a numeral as its value, as far as a `long` goes. -/
theorem Numeral.strtol_text (num : Numeral) : strtol num.text = clampLong num.value := by
  refine StartsWith.strtol ⟨[], ?_, by simp⟩
  rw [dropWhile_eq_self fun b hb => num.not_isspace hb, List.append_nil]

/-! ## Canonical numerals -/

/-- The digits of a number, without leading zeros. -/
def digitsOf (x : Nat) : List (Fin 10) :=
  if x = 0 then [0] else (Nat.digits 10 x).reverse.map (Fin.ofNat 10)

theorem digitsOf_ne_nil (x : Nat) : digitsOf x ≠ [] := by
  unfold digitsOf
  split
  · nofun
  · rename_i hx
    simpa [Nat.digits_eq_nil_iff_eq_zero] using hx

/-- The digits of a number have its value. -/
theorem valueOf_digitsOf (x : Nat) : valueOf (digitsOf x) = x := by
  unfold digitsOf
  split
  · rename_i hx
    exact hx.symm
  · have hval : ∀ d ∈ Nat.digits 10 x, (Fin.ofNat 10 d).val = d := fun d hd =>
      Nat.mod_eq_of_lt (Nat.digits_lt_base (by decide) hd)
    rw [valueOf, List.foldl_map, List.foldl_reverse]
    calc List.foldr (fun d value => 10 * value + (Fin.ofNat 10 d).val) 0 (Nat.digits 10 x)
        = List.foldr (fun d value => d + 10 * value) 0 (Nat.digits 10 x) := by
          apply List.foldr_ext
          intro d hd value
          rw [hval d hd, Nat.add_comm]
      _ = Nat.ofDigits 10 (Nat.digits 10 x) := (Nat.ofDigits_eq_foldr ..).symm
      _ = x := Nat.ofDigits_digits 10 x

/-- A number below `10 ^ k` has at most `k` digits. -/
theorem length_digitsOf_le {x k : Nat} (hk : 0 < k) (h : x < 10 ^ k) :
    (digitsOf x).length ≤ k := by
  unfold digitsOf
  split
  · exact hk
  · rw [List.length_map, List.length_reverse]
    exact (Nat.digits_length_le_iff (by decide) x).mpr h

/-- An integer in decimal. -/
def Numeral.ofInt (x : Int) : Numeral where
  sign := if x < 0 then .minus else .none
  digits := digitsOf x.natAbs
  digits_ne_nil := digitsOf_ne_nil _

/-- The numeral of an integer has its value. -/
theorem Numeral.value_ofInt (x : Int) : (Numeral.ofInt x).value = x := by
  rw [value, ofInt]
  dsimp only
  rw [valueOf_digitsOf]
  split
  · simp only [Sign.apply]
    omega
  · simp only [Sign.apply]
    omega

theorem Numeral.length_text_ofInt {x : Int} {k : Nat} (hk : 0 < k) (h : x.natAbs < 10 ^ k) :
    (Numeral.ofInt x).text.length ≤ k + 1 := by
  have hdigits := length_digitsOf_le hk h
  rw [text, List.length_append, List.length_map, ofInt]
  dsimp only
  split
  · simp only [Sign.text, List.length_singleton]
    omega
  · simp only [Sign.text, List.length_nil]
    omega

end G20OsLab.Lib
