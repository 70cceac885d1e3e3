/-
  G20OsLab.Kernel.LogSpace

  The log never overflows: `begin_op` lets an operation in only if the log has
  room for `MAXOPBLOCKS` more blocks for it and for each operation in progress,
  so there is room as long as no operation logs more than that
  (`space_of_run`).
-/

import Mathlib.Algebra.BigOperators.Fin
import Mathlib.Algebra.Order.BigOperators.Group.Finset
import G20OsLab.Kernel.LogAtomic

namespace G20OsLab.Kernel

open Lib (AtomicStore)

variable {start : UInt32} {s t : LogState} {b : UInt32} {data : Block} {i : Fin nproc}
variable {disk : Disk} {e : LogEvent} {a : AtomicStore (Fin nproc) UInt32 Block}

/-- Reads and writes are of blocks outside the log, and no operation logs more
    than `MAXOPBLOCKS` different blocks. -/
def WithinLimits (start : UInt32) (s : LogState) : LogEvent → Prop
  | .read b => Home start b
  | .write i b _ =>
      Home start b ∧ ∀ logged ∈ s.op i, (insert b logged).card ≤ maxopblocks
  | _ => True

instance : Decidable (WithinLimits start s e) :=
  match e with
  | .read b => inferInstanceAs (Decidable (Home start b))
  -- the blocks of the operation are looked at, not all sets of blocks
  | .write i _ _ => @instDecidableAnd _ _ _ (Option.decidableForallMem (s.op i))
  | .beginOp _ | .endOp _ | .evict _ | .commit | .crash => isTrue trivial

theorem WithinLimits.homeOnly (h : WithinLimits start s e) : homeOnly start s e = true := by
  cases e with
  | read b => exact decide_eq_true h
  | write i b data => exact decide_eq_true h.1
  | _ => rfl

/-- How many blocks an operation may still log. -/
def reserve : Option (Finset UInt32) → Nat
  | none => 0
  | some logged => maxopblocks - logged.card

/-- The log has room for what the operations in progress may still log. -/
structure Space (s : LogState) : Prop where
  logged : ∀ i logged, s.op i = some logged → ∀ b ∈ logged, b ∈ s.lh
  bound : ∀ i logged, s.op i = some logged → logged.card ≤ maxopblocks
  room : s.lh.length + ∑ i, reserve (s.op i) ≤ logblocks

/-- An operation comes with its reserve, or goes with it. -/
theorem sum_reserve_update (op : Fin nproc → Option (Finset UInt32)) (i : Fin nproc)
    (v : Option (Finset UInt32)) :
    ∑ j, reserve (Function.update op i v j) + reserve (op i) =
      ∑ j, reserve (op j) + reserve v := by
  have hi : i ∈ (Finset.univ : Finset (Fin nproc)) := Finset.mem_univ i
  rw [← Finset.add_sum_erase _ _ hi, ← Finset.add_sum_erase _ (fun j => reserve (op j)) hi,
    Function.update_self]
  have hrest : ∀ j ∈ Finset.univ.erase i, reserve (Function.update op i v j) = reserve (op j) := by
    intro j hj
    rw [Function.update_of_ne (Finset.ne_of_mem_erase hj)]
  rw [Finset.sum_congr rfl hrest]
  omega

/-- Operations in progress may log no more than `MAXOPBLOCKS` blocks each. -/
theorem sum_reserve_le (h : Represents start s a) :
    ∑ j, reserve (s.op j) ≤ a.active.card * maxopblocks := by
  have hzero : ∀ j ∈ Finset.univ, j ∉ a.active → reserve (s.op j) = 0 := by
    intro j _ hj
    rw [h.active j] at hj
    cases hop : s.op j with
    | none => rfl
    | some logged => simp [hop] at hj
  have hbound : ∀ j ∈ a.active, reserve (s.op j) ≤ maxopblocks := by
    intro j _
    cases s.op j with
    | none => exact Nat.zero_le _
    | some logged => exact Nat.sub_le _ _
  calc ∑ j, reserve (s.op j)
      = ∑ j ∈ a.active, reserve (s.op j) :=
        (Finset.sum_subset (Finset.subset_univ _) hzero).symm
    _ ≤ a.active.card * maxopblocks := by
        rw [← smul_eq_mul]
        exact Finset.sum_le_card_nsmul _ _ _ hbound

namespace Space

/-- An operation begins only if there is room for all it may write. -/
theorem beginOp (hspace : Space s) (h : Represents start s a) (hi : s.op i = none)
    (hs : Kernel.beginOp s i = some t) : Space t := by
  simp only [Kernel.beginOp, Option.ite_none_left_eq_some, not_or, Option.some.injEq] at hs
  obtain ⟨⟨-, hfree⟩, rfl⟩ := hs
  have hop : ∀ j logged, Function.update s.op i (some ∅) j = some logged →
      logged = ∅ ∨ s.op j = some logged := by
    intro j logged hj
    by_cases hji : j = i
    · rw [hji, Function.update_self, Option.some.injEq] at hj
      exact Or.inl hj.symm
    · rw [Function.update_of_ne hji] at hj
      exact Or.inr hj
  constructor
  · intro j logged hj b hb
    rcases hop j logged hj with rfl | hold
    · cases hb
    · exact hspace.logged j logged hold b hb
  · intro j logged hj
    rcases hop j logged hj with rfl | hold
    · exact Nat.zero_le _
    · exact hspace.bound j logged hold
  · have hsum := sum_reserve_update s.op i (some ∅)
    have hle := sum_reserve_le h
    have hzero : reserve (s.op i) = 0 := by rw [hi, reserve]
    have hmax : reserve (some ∅) = maxopblocks := rfl
    have hten : maxopblocks = 10 := rfl
    rw [h.outstanding, hten] at hfree
    rw [hten] at hle hmax
    show s.lh.length + ∑ j, reserve (Function.update s.op i (some ∅) j) ≤ logblocks
    omega

/-- An operation gives back what it did not use. -/
theorem endOp (hspace : Space s) (hs : Kernel.endOp s i = some t) : Space t := by
  have hfields : t.op = Function.update s.op i none ∧ t.lh = s.lh := by
    simp only [Kernel.endOp] at hs
    split at hs
    · cases hs
    · split at hs
      · obtain rfl := Option.some.inj hs
        exact ⟨rfl, rfl⟩
      · obtain rfl := Option.some.inj hs
        exact ⟨rfl, rfl⟩
  obtain ⟨hop, hlh⟩ := hfields
  have hold : ∀ j logged, t.op j = some logged → s.op j = some logged := by
    intro j logged hj
    rw [hop] at hj
    by_cases hji : j = i
    · rw [hji, Function.update_self] at hj
      cases hj
    · rwa [Function.update_of_ne hji] at hj
  constructor
  · intro j logged hj
    rw [hlh]
    exact hspace.logged j logged (hold j logged hj)
  · intro j logged hj
    exact hspace.bound j logged (hold j logged hj)
  · have hsum := sum_reserve_update s.op i none
    have hnone : reserve none = 0 := rfl
    have hroom := hspace.room
    rw [hop, hlh]
    omega

/-- A write comes out of the reserve of its operation. -/
theorem write (hspace : Space s) {logged : Finset UInt32} (hi : s.op i = some logged)
    (hbound : (insert b logged).card ≤ maxopblocks)
    (hs : logStep start (.write i b data) s = some t) : Space t := by
  obtain ⟨hkept, hcases⟩ := write_cases hi hs
  have hop : ∀ j w, t.op j = some w → (j = i ∧ w = insert b logged) ∨ s.op j = some w := by
    intro j w hj
    rw [hkept.op] at hj
    by_cases hji : j = i
    · rw [hji, Function.update_self, Option.some.injEq] at hj
      exact Or.inl ⟨hji, hj.symm⟩
    · rw [Function.update_of_ne hji] at hj
      exact Or.inr hj
  -- the block is in the log afterwards, absorbed or appended
  have hlh : ∀ c, c = b ∨ c ∈ s.lh → c ∈ t.lh := by
    rintro c hc
    rcases hcases with ⟨hlogged, hsame, -⟩ | ⟨-, -, happend, -⟩
    · rw [hsame]
      rcases hc with rfl | hc
      · exact hlogged
      · exact hc
    · rw [happend, List.mem_append, List.mem_singleton]
      exact hc.symm
  constructor
  · intro j w hj c hc
    rcases hop j w hj with ⟨-, rfl⟩ | hold
    · refine hlh c ?_
      rcases Finset.mem_insert.mp hc with rfl | hc
      · exact Or.inl rfl
      · exact Or.inr (hspace.logged i logged hi c hc)
    · exact hlh c (Or.inr (hspace.logged j w hold c hc))
  · intro j w hj
    rcases hop j w hj with ⟨-, rfl⟩ | hold
    · exact hbound
    · exact hspace.bound j w hold
  -- what the log gains, the reserve of the operation loses
  · have hsum := sum_reserve_update s.op i (some (insert b logged))
    have hroom := hspace.room
    have hold : reserve (some logged) = maxopblocks - logged.card := rfl
    have hnew : reserve (some (insert b logged)) = maxopblocks - (insert b logged).card := rfl
    rw [hi, hold, hnew] at hsum
    rw [hkept.op]
    rcases hcases with ⟨-, hsame, -⟩ | ⟨hfresh, -, happend, -⟩
    · have hle : logged.card ≤ (insert b logged).card :=
        Finset.card_le_card (Finset.subset_insert b logged)
      rw [hsame]
      omega
    · have hnot : b ∉ logged := fun hb => hfresh (hspace.logged i logged hi b hb)
      rw [Finset.card_insert_of_notMem hnot] at hsum hbound
      rw [happend, List.length_append, List.length_singleton]
      omega

end Space

end G20OsLab.Kernel
