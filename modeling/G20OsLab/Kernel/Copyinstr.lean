/-
  G20OsLab.Kernel.Copyinstr

  `copyinstr` of `kernel/vm.c`: a string out of user memory, page by page.

  Seen byte by byte the pages do not matter (`copyinstr_eq`): what is written
  is the string at the address, with its NUL if it ends within the limit, and
  otherwise the part of it that could be read.
-/

import Mathlib.Algebra.Group.Nat.Defs
import Mathlib.Data.List.Basic

namespace G20OsLab.Kernel

def pgsize : Nat := 4096

/-- `MAXVA`, one beyond the highest possible virtual address. -/
def maxva : Nat := 2 ^ 38

/-- `PGROUNDDOWN`. -/
def pgrounddown (va : Nat) : Nat := va - va % pgsize

/-- The user memory behind a page table: the numbers of the mapped user pages,
    and the bytes in them. -/
structure UserMem where
  mapped : Nat → Bool
  byte : Nat → UInt8

namespace UserMem

variable (mem : UserMem)

/-- `walkaddr` finds a page. -/
def walkaddr (va : Nat) : Bool := decide (va < maxva) && mem.mapped (va / pgsize)

/-- The inner loop of `copyinstr`, over `n` bytes of one page: the bytes it
    writes, and `got_null`. -/
def copyPage : (n va : Nat) → List UInt8 × Bool
  | 0, _ => ([], false)
  | n + 1, va =>
      if mem.byte va = 0 then ([0], true)
      else
        let (bytes, gotNull) := copyPage n (va + 1)
        (mem.byte va :: bytes, gotNull)

/-- `copyinstr`: the bytes it writes, and whether it returns 0. -/
def copyinstr (max srcva : Nat) : List UInt8 × Bool :=
  if 0 < max then
    let va0 := pgrounddown srcva
    if mem.walkaddr va0 then
      let n := min (pgsize - (srcva - va0)) max
      let (bytes, gotNull) := mem.copyPage n srcva
      if gotNull then (bytes, true)
      else
        let (rest, ok) := copyinstr (max - n) (va0 + pgsize)
        (bytes ++ rest, ok)
    else ([], false)
  else ([], false)
termination_by max
decreasing_by
  have hoffset : srcva - pgrounddown srcva < pgsize := by
    have hmod : srcva % pgsize < pgsize := Nat.mod_lt _ (by decide)
    rw [pgrounddown]
    omega
  omega

/-! ## Byte by byte -/

/-- The byte at a virtual address, if its page is mapped. -/
def byteAt (va : Nat) : Option UInt8 :=
  if mem.walkaddr (pgrounddown va) then some (mem.byte va) else none

/-- The string at `va`, as far as it can be read and at most `max` bytes of
    it. -/
def string : (max va : Nat) → List UInt8
  | 0, _ => []
  | max + 1, va =>
      match mem.byteAt va with
      | some b => if b = 0 then [] else b :: string max (va + 1)
      | none => []

/-- The string at `va` has its NUL within the first `max` bytes. -/
def Terminated (max va : Nat) : Prop :=
  (mem.string max va).length < max ∧ mem.byteAt (va + (mem.string max va).length) = some 0

instance (max va : Nat) : Decidable (mem.Terminated max va) := inferInstanceAs (Decidable (_ ∧ _))

variable {mem} {max n va : Nat}

/-- A string ends before a page that is not there. -/
theorem string_none (h : mem.byteAt va = none) : mem.string max va = [] := by
  cases max with
  | zero => rfl
  | succ max => rw [string, h]

/-- It ends at the first zero. -/
theorem string_nul (h : mem.byteAt va = some 0) : mem.string max va = [] := by
  cases max with
  | zero => rfl
  | succ max =>
      rw [string, h]
      rfl

/-- It goes on past any other byte. -/
theorem string_succ {b : UInt8} (h : mem.byteAt va = some b) (hb : b ≠ 0) :
    mem.string (max + 1) va = b :: mem.string max (va + 1) := by
  rw [string, h]
  exact if_neg hb

/-- There is no zero in a string. -/
theorem string_nonzero {b : UInt8} (h : b ∈ mem.string max va) : b ≠ 0 := by
  induction max generalizing va with
  | zero => cases h
  | succ max ih =>
      rw [string] at h
      split at h
      · split at h
        · cases h
        · rename_i hb
          rcases List.mem_cons.mp h with rfl | h
          · exact hb
          · exact ih h
      · cases h

theorem not_terminated_zero : ¬ mem.Terminated 0 va := fun h => absurd h.1 (Nat.not_lt_zero _)

/-- No zero is found where no page is. -/
theorem not_terminated_none (h : mem.byteAt va = none) : ¬ mem.Terminated max va := by
  rintro ⟨-, hnul⟩
  rw [string_none h, List.length_nil, Nat.add_zero, h] at hnul
  cases hnul

theorem terminated_nul (hmax : 0 < max) (h : mem.byteAt va = some 0) : mem.Terminated max va := by
  rw [Terminated, string_nul h]
  exact ⟨hmax, h⟩

/-- A byte other than zero does not end the string. -/
theorem terminated_succ {b : UInt8} (h : mem.byteAt va = some b) (hb : b ≠ 0) :
    mem.Terminated (max + 1) va ↔ mem.Terminated max (va + 1) := by
  rw [Terminated, Terminated, string_succ h hb, List.length_cons, Nat.succ_lt_succ_iff,
    Nat.add_right_comm va 1, Nat.add_assoc va]

/-- A string that does not end within the limit and of which nothing can be
    read is one on an unmapped page. -/
theorem string_eq_nil_iff (hmax : 0 < max) (h : ¬ mem.Terminated max va) :
    mem.string max va = [] ↔ mem.byteAt va = none := by
  refine ⟨fun hnil => ?_, string_none⟩
  cases hbyte : mem.byteAt va with
  | none => rfl
  | some b =>
      have hb : b ≠ 0 := by
        rintro rfl
        exact h (terminated_nul hmax hbyte)
      obtain ⟨k, rfl⟩ := Nat.exists_eq_succ_of_ne_zero (Nat.ne_of_gt hmax)
      rw [string_succ hbyte hb] at hnil
      cases hnil

/-! ## Page by page -/

/-- What `copyinstr` writes and returns, byte by byte. -/
def copied (mem : UserMem) (max va : Nat) : List UInt8 × Bool :=
  if mem.Terminated max va then (mem.string max va ++ [0], true) else (mem.string max va, false)

theorem copied_zero : mem.copied 0 va = ([], false) := if_neg not_terminated_zero

theorem copied_none (h : mem.byteAt va = none) : mem.copied max va = ([], false) := by
  rw [copied, if_neg (not_terminated_none h), string_none h]

theorem copied_nul (hmax : 0 < max) (h : mem.byteAt va = some 0) :
    mem.copied max va = ([0], true) := by
  rw [copied, if_pos (terminated_nul hmax h), string_nul h]
  rfl

/-- One byte is copied, and then the rest. -/
theorem copied_succ {b : UInt8} (h : mem.byteAt va = some b) (hb : b ≠ 0) :
    mem.copied (max + 1) va = (b :: (mem.copied max (va + 1)).1, (mem.copied max (va + 1)).2) := by
  simp only [copied, terminated_succ h hb, string_succ h hb]
  split <;> rfl

/-- `n` bytes of a mapped page, and then the rest. -/
theorem copied_page (hmapped : ∀ k < n, mem.byteAt (va + k) = some (mem.byte (va + k))) :
    mem.copied (n + max) va =
      if (mem.copyPage n va).2 then mem.copyPage n va
      else ((mem.copyPage n va).1 ++ (mem.copied max (va + n)).1,
        (mem.copied max (va + n)).2) := by
  induction n generalizing va with
  | zero => simp [copyPage]
  | succ n ih =>
      have hfirst : mem.byteAt va = some (mem.byte va) := hmapped 0 (Nat.succ_pos n)
      have hrest : ∀ k < n, mem.byteAt (va + 1 + k) = some (mem.byte (va + 1 + k)) := by
        intro k hk
        rw [Nat.add_assoc, Nat.add_comm 1 k]
        exact hmapped (k + 1) (Nat.succ_lt_succ hk)
      rw [copyPage]
      by_cases hnul : mem.byte va = 0
      · rw [if_pos hnul, copied_nul (by omega) (by rw [hfirst, hnul])]
        rfl
      · have hadd : n + 1 + max = n + max + 1 := by omega
        have haddress : va + (n + 1) = va + 1 + n := by omega
        rw [if_neg hnul, hadd, copied_succ hfirst hnul, ih hrest, haddress]
        dsimp only
        split <;> rfl

/-- A page that is there has all of its bytes. -/
theorem byteAt_page {k : Nat} (hmapped : mem.walkaddr (pgrounddown va) = true)
    (hk : k < pgsize - (va - pgrounddown va)) :
    mem.byteAt (va + k) = some (mem.byte (va + k)) := by
  have hsame : pgrounddown (va + k) = pgrounddown va := by
    have hmod : va % pgsize < pgsize := Nat.mod_lt _ (by decide)
    have hle := Nat.mod_le va pgsize
    unfold pgrounddown at hk ⊢
    have hsum : (va + k) % pgsize = va % pgsize + k := by
      rw [Nat.add_mod, Nat.mod_eq_of_lt (by omega : k < pgsize)]
      exact Nat.mod_eq_of_lt (by omega)
    omega
  rw [byteAt, hsame, if_pos hmapped]

/-- The pages do not matter. -/
theorem copyinstr_eq (mem : UserMem) (max va : Nat) : mem.copyinstr max va = mem.copied max va := by
  induction max using Nat.strongRecOn generalizing va with
  | _ max ih =>
      rw [copyinstr]
      by_cases hmax : 0 < max
      · rw [if_pos hmax]
        dsimp only
        have hle : va % pgsize ≤ va := Nat.mod_le va pgsize
        have hmod : va % pgsize < pgsize := Nat.mod_lt _ (by decide)
        cases hmapped : mem.walkaddr (pgrounddown va) with
        | false =>
            have hnone : mem.byteAt va = none := by
              rw [byteAt, hmapped]
              rfl
            rw [copied_none hnone]
            rfl
        | true =>
            generalize hn : min (pgsize - (va - pgrounddown va)) max = n
            have hroom : n ≤ pgsize - (va - pgrounddown va) := by omega
            have hpos : 0 < n := by
              unfold pgrounddown at hn
              omega
            have hbytes : ∀ k < n, mem.byteAt (va + k) = some (mem.byte (va + k)) :=
              fun k hk => byteAt_page hmapped (Nat.lt_of_lt_of_le hk hroom)
            have hpage : mem.copied (n + (max - n)) va = _ := copied_page hbytes
            rw [Nat.add_sub_of_le (by omega : n ≤ max)] at hpage
            rw [hpage, if_pos rfl]
            split
            · rename_i hnul
              exact Prod.ext rfl hnul.symm
            · -- the page is used up, or the limit
              rw [ih (max - n) (by omega)]
              have hnext : n = max ∨ va + n = pgrounddown va + pgsize := by
                unfold pgrounddown at hn ⊢
                omega
              rcases hnext with rfl | haddress
              · rw [Nat.sub_self, copied_zero, copied_zero]
              · rw [haddress]
      · rw [if_neg hmax, Nat.eq_zero_of_not_pos hmax, copied_zero]

end UserMem

end G20OsLab.Kernel
