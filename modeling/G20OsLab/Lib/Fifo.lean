/-
  G20OsLab.Lib.Fifo

  First come, first served.

  A family of queues is read off a state.  `logged` runs a step of a system
  together with a log for each queue, to which it adds whatever the step
  brings to that queue.  Where every step takes from the front of a queue and
  adds at its end (`FifoStep`), each queue is a suffix of its log
  (`Suffixed.logged`), and an entry at its front came before the rest of it
  (`enteredBefore_of_suffix`).
-/

import G20OsLab.Lib.Loop

namespace G20OsLab.Lib

variable {α σ ι : Type _} [DecidableEq α]

/-! ## Steps of a queue -/

/-- What is in `new` and was not in `old`, in the order of `new`. -/
def entered (old new : List α) : List α := new.filter fun x => decide (x ∉ old)

/-- What is added at the end has entered. -/
theorem entered_append {old kept added : List α} (hkept : kept ⊆ old)
    (hadded : ∀ x ∈ added, x ∉ old) : entered old (kept ++ added) = added := by
  have hfront : kept.filter (fun x => decide (x ∉ old)) = [] := by
    rw [List.filter_eq_nil_iff]
    intro x hx
    simpa using hkept hx
  have hback : added.filter (fun x => decide (x ∉ old)) = added := by
    rw [List.filter_eq_self]
    intro x hx
    simpa using hadded x hx
  rw [entered, List.filter_append, hfront, hback, List.nil_append]

/-- Nothing has entered a queue that only loses elements. -/
theorem entered_of_subset {old new : List α} (h : new ⊆ old) : entered old new = [] := by
  simpa using @entered_append α _ old new [] h (by simp)

/-- A step that takes from the front of a queue and adds at its end. -/
def FifoStep (old new : List α) : Prop :=
  ∃ left kept, old = left ++ kept ∧ new = kept ++ entered old new

/-- Elements leave in front and enter at the end. -/
theorem FifoStep.of_append (left kept : List α) {added : List α}
    (hadded : ∀ x ∈ added, x ∉ left ++ kept) : FifoStep (left ++ kept) (kept ++ added) := by
  refine ⟨left, kept, rfl, ?_⟩
  rw [entered_append (List.subset_append_right left kept) hadded]

theorem FifoStep.refl (queue : List α) : FifoStep queue queue := by
  simpa using @FifoStep.of_append α _ [] queue [] (by simp)

theorem FifoStep.push {queue : List α} {x : α} (hx : x ∉ queue) :
    FifoStep queue (queue ++ [x]) := by
  simpa using @FifoStep.of_append α _ [] queue [x] (by simpa using hx)

theorem FifoStep.pop (x : α) (rest : List α) : FifoStep (x :: rest) rest := by
  simpa using @FifoStep.of_append α _ [x] rest [] (by simp)

theorem FifoStep.clear (queue : List α) : FifoStep queue [] := by
  simpa using @FifoStep.of_append α _ queue [] [] (by simp)

/-- The queue stays the last part of the log. -/
theorem FifoStep.suffix {old new log : List α} (h : FifoStep old new) (hlog : old <:+ log) :
    new <:+ log ++ entered old new := by
  obtain ⟨left, kept, hold, hnew⟩ := h
  obtain ⟨front, rfl⟩ := hlog
  refine ⟨front ++ left, ?_⟩
  calc front ++ left ++ new
      = front ++ left ++ (kept ++ entered old new) := by rw [← hnew]
    _ = front ++ (left ++ kept) ++ entered old new := by simp only [List.append_assoc]
    _ = front ++ old ++ entered old new := by rw [← hold]

/-! ## Logs -/

/-- The last entry of `x` in the log is followed by one of `y`. -/
def EnteredBefore (log : List α) (x y : α) : Prop :=
  ∃ before after, log = before ++ x :: after ∧ x ∉ after ∧ y ∈ after

omit [DecidableEq α] in
/-- The front of a queue came to it before the rest. -/
theorem enteredBefore_of_suffix {log rest : List α} {x y : α} (h : x :: rest <:+ log)
    (hx : x ∉ rest) (hy : y ∈ rest) : EnteredBefore log x y := by
  obtain ⟨before, hlog⟩ := h
  exact ⟨before, rest, hlog.symm, hx, hy⟩

/-- The step `f` with a log for each queue. -/
def logged (queues : σ → ι → List α) (f : σ → σ) (p : σ × (ι → List α)) :
    σ × (ι → List α) :=
  (f p.1, fun l => p.2 l ++ entered (queues p.1 l) (queues (f p.1) l))

/-- Every queue is the end of its log. -/
def Suffixed (queues : σ → ι → List α) (p : σ × (ι → List α)) : Prop :=
  ∀ l, queues p.1 l <:+ p.2 l

variable {queues : σ → ι → List α} {f : σ → σ} {p : σ × (ι → List α)}

@[simp] theorem logged_fst (queues : σ → ι → List α) (f : σ → σ) (p : σ × (ι → List α)) :
    (logged queues f p).1 = f p.1 := rfl

theorem Suffixed.logged (h : Suffixed queues p)
    (hstep : ∀ l, FifoStep (queues p.1 l) (queues (f p.1) l)) :
    Suffixed queues (logged queues f p) := fun l => (hstep l).suffix (h l)

variable {n : Nat} {body : Fin n → σ → σ}

/-- The log of a loop changes nothing in its run. -/
theorem forLoop_logged_fst (queues : σ → ι → List α) (body : Fin n → σ → σ)
    (p : σ × (ι → List α)) :
    (forLoop n (fun i => Lib.logged queues (body i)) p).1 = forLoop n body p.1 := by
  induction n with
  | zero => rfl
  | succ n ih => rw [forLoop_succ, forLoop_succ, logged_fst, ih fun i => body i.castSucc]

/-- A loop of first come, first served steps, all of them from states that meet
    the invariant `P`. -/
theorem Suffixed.loop (h : Suffixed queues p) (P : σ → Prop) (h0 : P p.1)
    (hP : ∀ i s, P s → P (body i s))
    (hstep : ∀ i s, P s → ∀ l, FifoStep (queues s l) (queues (body i s) l)) :
    Suffixed queues (forLoop n (fun i => Lib.logged queues (body i)) p) := by
  let J (p : σ × (ι → List α)) : Prop := P p.1 ∧ Suffixed queues p
  have hloop : J (forLoop n (fun i => Lib.logged queues (body i)) p) := by
    refine forLoop_preserves J ⟨h0, h⟩ ?_
    rintro i p' ⟨hP', h'⟩
    exact ⟨hP i p'.1 hP', h'.logged (hstep i p'.1 hP')⟩
  exact hloop.2

end G20OsLab.Lib
