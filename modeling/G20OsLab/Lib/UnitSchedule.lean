/-
  G20OsLab.Lib.UnitSchedule

  Schedules of unit ticks on one machine, and the optimality of earliest
  deadline first.

  A job has a release, a deadline and a cost in ticks; a schedule assigns to
  every tick at most one job.  If some schedule gives every job its cost
  between release and deadline, a schedule that never idles over pending work
  and always runs a pending job of least deadline does so too
  (`EdfSchedule.meets_deadlines`).  The argument counts demand: a job that
  misses its deadline `T` ends a busy window whose jobs all lie inside it and
  together cost more than its length.
-/

import Mathlib.Algebra.BigOperators.Group.Finset.Sigma
import Mathlib.Algebra.Order.BigOperators.Group.Finset
import Mathlib.Algebra.Order.Ring.Nat
import Mathlib.Data.Fintype.BigOperators
import Mathlib.Order.Interval.Finset.Nat

namespace G20OsLab.Lib

variable {J : Type _} [DecidableEq J]

/-- The ticks of `window` that `schedule` gives to job `j`. -/
def ticksFor (schedule : Nat → Option J) (window : Finset Nat) (j : J) : Finset Nat :=
  window.filter fun t => schedule t = some j

/-- The jobs of a set share the ticks of a window. -/
theorem sum_ticksFor_le (schedule : Nat → Option J) (window : Finset Nat) (jobs : Finset J) :
    ∑ j ∈ jobs, (ticksFor schedule window j).card ≤ window.card := by
  have hdisjoint : (jobs : Set J).PairwiseDisjoint (ticksFor schedule window) := by
    intro j _ k _ hjk
    refine Finset.disjoint_left.mpr fun t hj hk => hjk ?_
    have hj' := (Finset.mem_filter.mp hj).2
    have hk' := (Finset.mem_filter.mp hk).2
    exact Option.some.inj (hj'.symm.trans hk')
  rw [← Finset.card_biUnion hdisjoint]
  refine Finset.card_le_card ?_
  intro t ht
  obtain ⟨j, -, hj⟩ := Finset.mem_biUnion.mp ht
  exact (Finset.mem_filter.mp hj).1

/-- A window in which only jobs of a set run is covered by their ticks. -/
theorem card_le_sum_ticksFor {schedule : Nat → Option J} {window : Finset Nat} {jobs : Finset J}
    (h : ∀ t ∈ window, ∃ j ∈ jobs, schedule t = some j) :
    window.card ≤ ∑ j ∈ jobs, (ticksFor schedule window j).card := by
  refine le_trans (Finset.card_le_card fun t ht => ?_) Finset.card_biUnion_le
  obtain ⟨j, hj, hschedule⟩ := h t ht
  exact Finset.mem_biUnion.mpr ⟨j, hj, Finset.mem_filter.mpr ⟨ht, hschedule⟩⟩

/-- The ticks a job has had before tick `t`. -/
def doneBy (schedule : Nat → Option J) (t : Nat) (j : J) : Nat :=
  (ticksFor schedule (Finset.range t) j).card

theorem doneBy_mono (schedule : Nat → Option J) {t t' : Nat} (h : t ≤ t') (j : J) :
    doneBy schedule t j ≤ doneBy schedule t' j :=
  Finset.card_le_card (Finset.filter_subset_filter _ (Finset.range_mono h))

theorem doneBy_succ (schedule : Nat → Option J) (t : Nat) (j : J) :
    doneBy schedule (t + 1) j = doneBy schedule t j + if schedule t = some j then 1 else 0 := by
  unfold doneBy ticksFor
  rw [Finset.range_add_one, Finset.filter_insert]
  split
  · rw [Finset.card_insert_of_notMem (by simp)]
  · rfl

/-- Before any tick there is a last run of ticks that all satisfy `P`. -/
theorem exists_window_start (P : Nat → Prop) (T : Nat) :
    ∃ s ≤ T, (∀ t, s ≤ t → t < T → P t) ∧ (s = 0 ∨ ∃ t, s = t + 1 ∧ ¬ P t) := by
  induction T with
  | zero => exact ⟨0, Nat.le_refl 0, fun t _ ht => absurd ht (Nat.not_lt_zero t), .inl rfl⟩
  | succ T ih =>
      by_cases hP : P T
      · obtain ⟨s, hs, hwindow, hstart⟩ := ih
        refine ⟨s, Nat.le_succ_of_le hs, fun t hst htT => ?_, hstart⟩
        rcases Nat.lt_succ_iff_lt_or_eq.mp htT with hlt | rfl
        · exact hwindow t hst hlt
        · exact hP
      · exact ⟨T + 1, Nat.le_refl _, fun t hst htT => absurd htT (Nat.not_lt.mpr hst),
          .inr ⟨T, rfl, hP⟩⟩

/-! ## Job sets -/

/-- A set of jobs to be scheduled. -/
structure JobSet (J : Type _) where
  release : J → Nat
  deadline : J → Nat
  cost : J → Nat

variable (jobs : JobSet J)

/-- `schedule` gives every job its cost in ticks between its release and its
    deadline. -/
def JobSet.Feasible (schedule : Nat → Option J) : Prop :=
  ∀ j, (ticksFor schedule (Finset.Ico (jobs.release j) (jobs.deadline j)) j).card = jobs.cost j

instance [Fintype J] (schedule : Nat → Option J) : Decidable (jobs.Feasible schedule) :=
  inferInstanceAs (Decidable (∀ j, _ = jobs.cost j))

/-- Job `j` is released by tick `t` and not finished. -/
def JobSet.Pending (schedule : Nat → Option J) (t : Nat) (j : J) : Prop :=
  jobs.release j ≤ t ∧ doneBy schedule t j < jobs.cost j

/-- Earliest deadline first: every tick runs a pending job of least deadline,
    and idles only if no job is pending. -/
structure EdfSchedule (schedule : Nat → Option J) : Prop where
  pending : ∀ t j, schedule t = some j → jobs.Pending schedule t j
  least : ∀ t j, schedule t = some j →
    ∀ k, jobs.Pending schedule t k → jobs.deadline j ≤ jobs.deadline k
  busy : ∀ t, schedule t = none → ∀ j, ¬ jobs.Pending schedule t j

variable {jobs} {schedule : Nat → Option J}

/-- No job runs for longer than its cost. -/
theorem EdfSchedule.doneBy_le (h : EdfSchedule jobs schedule) (t : Nat) (j : J) :
    doneBy schedule t j ≤ jobs.cost j := by
  induction t with
  | zero => exact Nat.zero_le _
  | succ t ih =>
      rw [doneBy_succ]
      split
      · rename_i hrun
        exact (h.pending t j hrun).2
      · exact ih

/-- A tick that idles or runs a job due after `T` leaves no pending job due by
    `T`. -/
theorem EdfSchedule.not_pending (h : EdfSchedule jobs schedule) {t T : Nat}
    (hlate : ¬ ∃ j, schedule t = some j ∧ jobs.deadline j ≤ T) {k : J}
    (hk : jobs.deadline k ≤ T) : ¬ jobs.Pending schedule t k := by
  intro hpending
  cases hrun : schedule t with
  | none => exact h.busy t hrun k hpending
  | some j => exact hlate ⟨j, hrun, (h.least t j hrun k hpending).trans hk⟩

/-! ## Demand -/

variable [Fintype J]

/-- The jobs that must run entirely between the ticks `s` and `T`. -/
def JobSet.within (jobs : JobSet J) (s T : Nat) : Finset J :=
  Finset.univ.filter fun j => s ≤ jobs.release j ∧ jobs.deadline j ≤ T

/-- The demand of a window is at most its length. -/
theorem JobSet.Feasible.demand_le (h : jobs.Feasible schedule)
    (s T : Nat) : ∑ j ∈ jobs.within s T, jobs.cost j ≤ T - s := by
  calc ∑ j ∈ jobs.within s T, jobs.cost j
      ≤ ∑ j ∈ jobs.within s T, (ticksFor schedule (Finset.Ico s T) j).card := by
        refine Finset.sum_le_sum ?_
        intro j hj
        obtain ⟨hrelease, hdeadline⟩ := (Finset.mem_filter.mp hj).2
        rw [← h j]
        exact Finset.card_le_card
          (Finset.filter_subset_filter _ (Finset.Ico_subset_Ico hrelease hdeadline))
    _ ≤ (Finset.Ico s T).card := sum_ticksFor_le ..
    _ = T - s := Nat.card_Ico s T

/-- **Earliest deadline first is optimal.**  If any schedule meets all
    deadlines, an EDF schedule finishes every job by its deadline. -/
theorem EdfSchedule.meets_deadlines (h : EdfSchedule jobs schedule) {other : Nat → Option J}
    (hfeasible : jobs.Feasible other) (j : J) :
    doneBy schedule (jobs.deadline j) j = jobs.cost j := by
  by_contra hmissed
  have hlt : doneBy schedule (jobs.deadline j) j < jobs.cost j :=
    lt_of_le_of_ne (h.doneBy_le _ j) hmissed
  -- the window before the deadline that runs jobs due by it without a break
  obtain ⟨s, hs, hwindow, hstart⟩ := exists_window_start
    (fun t => ∃ k, schedule t = some k ∧ jobs.deadline k ≤ jobs.deadline j) (jobs.deadline j)
  -- a job due by then and unfinished in the window is released in the window
  have hreleased : ∀ k t, s ≤ t → jobs.deadline k ≤ jobs.deadline j →
      doneBy schedule t k < jobs.cost k → s ≤ jobs.release k := by
    intro k t ht hk hunfinished
    rcases hstart with rfl | ⟨u, rfl, hlate⟩
    · exact Nat.zero_le _
    · by_contra hrelease
      refine h.not_pending hlate hk ⟨by omega, lt_of_le_of_lt ?_ hunfinished⟩
      exact doneBy_mono schedule (by omega) k
  have hcovered : jobs.deadline j - s ≤ ∑ k ∈ jobs.within s (jobs.deadline j),
      (ticksFor schedule (Finset.Ico s (jobs.deadline j)) k).card := by
    rw [← Nat.card_Ico]
    refine card_le_sum_ticksFor ?_
    intro t ht
    obtain ⟨hst, htT⟩ := Finset.mem_Ico.mp ht
    obtain ⟨k, hrun, hk⟩ := hwindow t hst htT
    refine ⟨k, Finset.mem_filter.mpr ⟨Finset.mem_univ k, ?_, hk⟩, hrun⟩
    exact hreleased k t hst hk (h.pending t k hrun).2
  have hran : ∑ k ∈ jobs.within s (jobs.deadline j),
      (ticksFor schedule (Finset.Ico s (jobs.deadline j)) k).card <
        ∑ k ∈ jobs.within s (jobs.deadline j), jobs.cost k := by
    have hle : ∀ k, (ticksFor schedule (Finset.Ico s (jobs.deadline j)) k).card ≤
        doneBy schedule (jobs.deadline j) k := fun k =>
      Finset.card_le_card (Finset.filter_subset_filter _ fun t ht =>
        Finset.mem_range.mpr (Finset.mem_Ico.mp ht).2)
    have hj : j ∈ jobs.within s (jobs.deadline j) :=
      Finset.mem_filter.mpr ⟨Finset.mem_univ j, hreleased j _ hs le_rfl hlt, le_rfl⟩
    exact Finset.sum_lt_sum (fun k _ => (hle k).trans (h.doneBy_le _ k))
      ⟨j, hj, lt_of_le_of_lt (hle j) hlt⟩
  have hdemand := hfeasible.demand_le s (jobs.deadline j)
  omega

end G20OsLab.Lib
