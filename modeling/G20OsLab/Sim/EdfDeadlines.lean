/-
  G20OsLab.Sim.EdfDeadlines

  Processes without a deadline under EDF.

  The scan places a process without a deadline at `INT_MAX - pid`, inside the
  range of real deadlines.  It stays behind the earliest deadline in the queue
  exactly if that place is later, or equal and the tie goes to a process with
  that deadline.
-/

import G20OsLab.Sim.Edf
import G20OsLab.Sim.Simulator
import G20OsLab.Sim.WorkloadFormat

namespace G20OsLab.Sim

open Lib (LexLt Numeral)

variable {n : Nat}

/-- The entry at `i` has a deadline, and none in the queue is earlier. -/
def EarliestDeadline (procs : ProcTable n) (items : List (Fin n)) (i : Nat)
    (hi : i < items.length) : Prop :=
  0 ≤ (procs items[i]).spec.deadline ∧
    ∀ pid ∈ items, 0 ≤ (procs pid).spec.deadline →
      (procs items[i]).spec.deadline ≤ (procs pid).spec.deadline

/-- The scan, with the entry `p` at index `i`, prefers it to the entry `q`
    without a deadline at index `j`. -/
def AheadOfNoDeadline (p q : ProcessSpec) (i j : Nat) : Prop :=
  p.deadline < intMax - q.pid ∨
    p.deadline = intMax - q.pid ∧ (p.arrival < q.arrival ∨ p.arrival = q.arrival ∧ i < j)

/-- The place of every queued process without a deadline is behind an entry
    with the earliest deadline. -/
def DeadlinesAhead (procs : ProcTable n) (items : List (Fin n)) : Prop :=
  ∀ j, (hj : j < items.length) → (procs items[j]).spec.deadline < 0 →
    ∃ i, ∃ hi : i < items.length, EarliestDeadline procs items i hi ∧
      AheadOfNoDeadline (procs items[i]).spec (procs items[j]).spec i j

theorem edfKey_of_deadline {spec : ProcessSpec} (h : 0 ≤ spec.deadline) :
    edfKey spec = spec.deadline := if_neg (by omega)

theorem edfKey_of_none {spec : ProcessSpec} (h : spec.deadline < 0) :
    edfKey spec = intMax - spec.pid := if_pos h

/-- The scan prefers the entry `p` at index `i` to the entry `q` at index `j`. -/
def EdfAhead (p q : ProcessSpec) (i j : Nat) : Prop :=
  edfKey p < edfKey q ∨
    edfKey p = edfKey q ∧ (p.arrival < q.arrival ∨ p.arrival = q.arrival ∧ i < j)

theorem EdfAhead.asymm {p q : ProcessSpec} {i j : Nat} (h : EdfAhead p q i j) :
    ¬ EdfAhead q p j i := by
  unfold EdfAhead at *
  omega

theorem edfAhead_noDeadline_iff {p q : ProcessSpec} {i j : Nat} (hp : 0 ≤ p.deadline)
    (hq : q.deadline < 0) : EdfAhead p q i j ↔ AheadOfNoDeadline p q i j := by
  rw [EdfAhead, edfKey_of_deadline hp, edfKey_of_none hq, AheadOfNoDeadline]

/-- The scan of a nonempty queue takes an entry that it prefers to all others. -/
theorem edfPickNext_spec {s : EdfState n} {procs : ProcTable n} (hne : s.ready.items ≠ []) :
    ∃ k, ∃ hk : k < s.ready.items.length,
      (edfPickNext s procs).1 = some s.ready.items[k] ∧
      ∀ j, (hj : j < s.ready.items.length) → j ≠ k →
        EdfAhead (procs s.ready.items[k]).spec (procs s.ready.items[j]).spec k j := by
  cases hscan : Lib.scanMin (fun pid => edfKey (procs pid).spec)
      (fun pid => (procs pid).spec.arrival) s.ready.items with
  | none => exact absurd (Lib.scanMin_eq_none_iff.mp hscan) hne
  | some best =>
      obtain ⟨k, pid⟩ := best
      obtain ⟨hget, hmin, hfirst⟩ := Lib.scanMin_spec hscan
      obtain ⟨hk, rfl⟩ := List.getElem?_eq_some_iff.mp hget
      refine ⟨k, hk, ?_, ?_⟩
      · rw [edfPickNext, edfBestIndex, hscan]
        dsimp only
        rw [queueRemoveAt_of_getElem? hget]
      · intro j hj hjk
        unfold LexLt at hmin hfirst
        dsimp only at hmin hfirst
        rw [EdfAhead]
        rcases Nat.lt_or_gt_of_ne hjk with hlt | hgt
        · have hbefore := hfirst j hlt s.ready.items[j] (List.getElem?_eq_getElem hj)
          omega
        · have hbehind := hmin s.ready.items[j] (List.getElem_mem hj)
          omega

/-- With a deadline in the queue, EDF picks a process with the earliest of them
    exactly if the entries without one have their places behind it. -/
theorem edfPickNext_deadline_iff (s : EdfState n) (procs : ProcTable n)
    (hdeadline : ∃ pid ∈ s.ready.items, 0 ≤ (procs pid).spec.deadline) :
    (∃ pid ∈ s.ready.items, (edfPickNext s procs).1 = some pid ∧
      0 ≤ (procs pid).spec.deadline ∧
      ∀ q ∈ s.ready.items, 0 ≤ (procs q).spec.deadline →
        (procs pid).spec.deadline ≤ (procs q).spec.deadline) ↔
      DeadlinesAhead procs s.ready.items := by
  obtain ⟨due, hdue, -⟩ := hdeadline
  obtain ⟨k, hk, hpick, hahead⟩ := @edfPickNext_spec n s procs (List.ne_nil_of_mem hdue)
  rw [hpick]
  constructor
  · rintro ⟨pid, -, heq, hpos, hleast⟩ j hj hnone
    obtain rfl := Option.some.inj heq
    have hjk : j ≠ k := by
      rintro rfl
      omega
    exact ⟨k, hk, ⟨hpos, hleast⟩, (edfAhead_noDeadline_iff hpos hnone).mp (hahead j hj hjk)⟩
  · intro hdeadlines
    have hpos : 0 ≤ (procs s.ready.items[k]).spec.deadline := by
      by_contra hneg
      have hnone : (procs s.ready.items[k]).spec.deadline < 0 := Int.not_le.mp hneg
      obtain ⟨i, hi, ⟨hipos, -⟩, hbehind⟩ := hdeadlines k hk hnone
      have hik : i ≠ k := by
        rintro rfl
        omega
      exact (hahead i hi hik).asymm ((edfAhead_noDeadline_iff hipos hnone).mpr hbehind)
    refine ⟨s.ready.items[k], List.getElem_mem hk, rfl, hpos, ?_⟩
    intro q hq hqpos
    obtain ⟨j, hj, rfl⟩ := List.getElem_of_mem hq
    by_cases hjk : j = k
    · subst hjk
      exact le_refl _
    · have hbefore := hahead j hj hjk
      rw [EdfAhead, edfKey_of_deadline hpos, edfKey_of_deadline hqpos] at hbefore
      omega

/-! ## A pid near the end of the range -/

/-- A file with the rows `<pid>,0,C1,0,1,-1,-1` and `1,0,C1,0,1,5,-1`: a
    process without a deadline, and one due at 5. -/
def dueRows (pid : Numeral) : WorkloadFile where
  header := false
  rows := [.short pid (.digit .none 1) (.digit .minus 1),
    .short (.digit .none 1) (.digit .none 1) (.digit .none 5)]
  finalNewline := true

def dueRows.workload (pid : Numeral) : Workload := .ofList ((dueRows pid).rows.map Row.spec)

/-- The table `run_simulation` starts with. -/
def dueRows.procs (pid : Numeral) : ProcTable (dueRows.workload pid).processCount :=
  fun i => initRuntime ((dueRows.workload pid).processes i)

def dueRows.queue (pid : Numeral) : EdfState (dueRows.workload pid).processCount :=
  ⟨⟨[⟨0, Nat.zero_lt_two⟩, ⟨1, Nat.one_lt_two⟩], 0⟩⟩

def smallPid : Numeral := .digit .none 2

def greatestPid : Numeral := greatestInt

theorem edfPickNext_deadline_iff_smallPid :
    (∃ pid ∈ (dueRows.queue smallPid).ready.items,
      (edfPickNext (dueRows.queue smallPid) (dueRows.procs smallPid)).1 = some pid ∧
      0 ≤ (dueRows.procs smallPid pid).spec.deadline ∧
      ∀ q ∈ (dueRows.queue smallPid).ready.items, 0 ≤ (dueRows.procs smallPid q).spec.deadline →
        (dueRows.procs smallPid pid).spec.deadline ≤
          (dueRows.procs smallPid q).spec.deadline) ↔
      DeadlinesAhead (dueRows.procs smallPid) (dueRows.queue smallPid).ready.items :=
  edfPickNext_deadline_iff (dueRows.queue smallPid) (dueRows.procs smallPid) (by decide +kernel)

/-- The pid `INT_MAX` without a deadline is placed at 0, ahead of the deadline
    5. -/
theorem noDeadline_runs_first :
    ¬ ∀ (file : Lib.Bytes) (w : Workload), parseWorkload (some file) = some w →
        ∀ (procs : ProcTable w.processCount) (s : EdfState w.processCount),
          (∀ i, (procs i).spec = w.processes i) →
          (∃ pid ∈ s.ready.items, 0 ≤ (procs pid).spec.deadline) →
          ∃ pid ∈ s.ready.items, (edfPickNext s procs).1 = some pid ∧
            0 ≤ (procs pid).spec.deadline ∧
            ∀ q ∈ s.ready.items, 0 ≤ (procs q).spec.deadline →
              (procs pid).spec.deadline ≤ (procs q).spec.deadline := by
  intro h
  have hgood : ¬ (dueRows greatestPid).Refused := by decide +kernel
  have hpick := h _ _ ((parseWorkload_text _ _).mpr ⟨hgood, rfl⟩)
    (dueRows.procs greatestPid) (dueRows.queue greatestPid) (fun _ => rfl) (by decide +kernel)
  revert hpick
  decide +kernel

end G20OsLab.Sim
