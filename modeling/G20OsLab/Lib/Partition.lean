/-
  G20OsLab.Lib.Partition

  A family of lists that partitions a set of items by a home index: every
  member sits exactly once in the list of its home and in no other.  The
  rules say how the family moves when an item is appended to one list, taken
  out of one, or moved between two.
-/

import Mathlib.Data.List.Nodup
import Mathlib.Logic.Function.Basic

namespace G20OsLab.Lib

variable {ι : Type _} [DecidableEq ι]

/-- The lists `q l` hold the items satisfying `member`, each once, at the
    index `home` names. -/
structure Partitioned (q : Nat → List ι) (member : ι → Prop) (home : ι → Int) : Prop where
  nodup : ∀ l, (q l).Nodup
  mem_iff : ∀ l i, i ∈ q l ↔ member i ∧ home i = l

variable {q q' : Nat → List ι} {member member' : ι → Prop} {home home' : ι → Int}
variable {l : Nat} {x : ι}

omit [DecidableEq ι] in
/-- No item sits in two lists. -/
theorem Partitioned.unique (h : Partitioned q member home) {k : Nat}
    (hl : x ∈ q l) (hk : x ∈ q k) : l = k := by
  have h1 := ((h.mem_iff l x).mp hl).2
  have h2 := ((h.mem_iff k x).mp hk).2
  omega

omit [DecidableEq ι] in
theorem Partitioned.not_mem (h : Partitioned q member home) (hx : ¬ member x) : x ∉ q l :=
  fun hmem => hx ((h.mem_iff l x).mp hmem).1

omit [DecidableEq ι] in
/-- An item with the same membership and home is in the same list. -/
theorem Partitioned.mem_iff_of_same (h : Partitioned q member home) {i : ι} (k : Nat)
    (hm : member' i ↔ member i) (hh : member i → home' i = home i) :
    i ∈ q k ↔ member' i ∧ home' i = k := by
  rw [h.mem_iff k i, hm]
  constructor
  · rintro ⟨hi, hk⟩
    exact ⟨hi, by rw [hh hi]; exact hk⟩
  · rintro ⟨hi, hk⟩
    exact ⟨hi, by rw [← hh hi]; exact hk⟩

omit [DecidableEq ι] in
theorem Partitioned.congr (h : Partitioned q member home) (hm : ∀ i, member' i ↔ member i)
    (hh : ∀ i, member i → home' i = home i) : Partitioned q member' home' where
  nodup := h.nodup
  mem_iff k i := h.mem_iff_of_same k (hm i) (hh i)

omit [DecidableEq ι] in
/-- Appending a new item to the list of its home. -/
theorem Partitioned.push (h : Partitioned q member home) (hx : ¬ member x)
    (hx' : member' x) (hl : home' x = l) (hm : ∀ i, i ≠ x → (member' i ↔ member i))
    (hh : ∀ i, i ≠ x → member i → home' i = home i) :
    Partitioned (Function.update q l (q l ++ [x])) member' home' where
  nodup k := by
    by_cases hk : k = l
    · subst hk
      rw [Function.update_self]
      exact (h.nodup k).append (List.nodup_singleton x) (by
        simpa using h.not_mem hx)
    · rw [Function.update_of_ne hk]
      exact h.nodup k
  mem_iff k i := by
    by_cases hi : i = x
    · subst hi
      by_cases hk : k = l
      · subst hk
        simp [hx', hl]
      · have hne : (l : Int) ≠ k := by omega
        rw [Function.update_of_ne hk, hl]
        exact ⟨fun hmem => absurd hmem (h.not_mem hx), fun hmem => absurd hmem.2 hne⟩
    · rw [← h.mem_iff_of_same k (hm i hi) (hh i hi)]
      by_cases hk : k = l
      · subst hk
        simp [hi]
      · rw [Function.update_of_ne hk]

/-- Taking an item out. -/
theorem Partitioned.erase (h : Partitioned q member home) (hx : x ∈ q l)
    (hx' : ¬ member' x) (hm : ∀ i, i ≠ x → (member' i ↔ member i))
    (hh : ∀ i, i ≠ x → member i → home' i = home i) :
    Partitioned (Function.update q l ((q l).erase x)) member' home' where
  nodup k := by
    by_cases hk : k = l
    · subst hk
      rw [Function.update_self]
      exact (h.nodup k).erase x
    · rw [Function.update_of_ne hk]
      exact h.nodup k
  mem_iff k i := by
    by_cases hi : i = x
    · subst hi
      refine ⟨fun hmem => ?_, fun hmem => absurd hmem.1 hx'⟩
      by_cases hk : k = l
      · subst hk
        rw [Function.update_self, (h.nodup k).mem_erase_iff] at hmem
        exact absurd rfl hmem.1
      · rw [Function.update_of_ne hk] at hmem
        exact absurd (h.unique hmem hx) hk
    · rw [← h.mem_iff_of_same k (hm i hi) (hh i hi)]
      by_cases hk : k = l
      · subst hk
        rw [Function.update_self, (h.nodup k).mem_erase_iff]
        exact ⟨fun hmem => hmem.2, fun hmem => ⟨hi, hmem⟩⟩
      · rw [Function.update_of_ne hk]

end G20OsLab.Lib
