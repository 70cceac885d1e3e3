/-
  G20OsLab.Sim.Queue

  The array queue every policy file carries its own copy of (`queue_push`,
  `queue_remove_at`, `queue_pop`, `queue_clear`).

  The lemmas below read a queue as the list of its entries: a push on a queue
  with room appends, a pop or a removal takes one entry out and keeps the
  order of the rest (`Taken`).
-/

import G20OsLab.Sim.Types
import Mathlib.Data.Fintype.Card
import Mathlib.Data.List.Nodup

namespace G20OsLab.Sim

variable {n : Nat}

/-- `queue_push`: append, or drop the entry when the array is full. -/
def queuePush (queue : ReadyQueue n) (pid : Fin n) : ReadyQueue n :=
  if queue.items.length < maxProcesses then
    { queue with items := queue.items ++ [pid] }
  else
    { queue with dropped := queue.dropped + 1 }

/-- `queue_remove_at`: take the entry at `index` out and close the gap. -/
def queueRemoveAt (queue : ReadyQueue n) (index : Int) : Option (Fin n) × ReadyQueue n :=
  if index < 0 ∨ (queue.items.length : Int) ≤ index then
    (none, queue)
  else
    (queue.items[index.toNat]?, { queue with items := queue.items.eraseIdx index.toNat })

/-- `queue_pop`: take the first entry out. -/
def queuePop (queue : ReadyQueue n) : Option (Fin n) × ReadyQueue n :=
  match queue.items with
  | [] => (none, queue)
  | pid :: rest => (some pid, { queue with items := rest })

/-- `queue_clear`. -/
def queueClear (n : Nat) : ReadyQueue n := ReadyQueue.empty n

@[simp] theorem empty_items : (ReadyQueue.empty n).items = [] := rfl

@[simp] theorem empty_dropped : (ReadyQueue.empty n).dropped = 0 := rfl

@[simp] theorem queueClear_eq : queueClear n = ReadyQueue.empty n := rfl

/-! ## Push -/

/-- A queue without repetitions that misses some process has room. -/
theorem length_lt_of_not_mem {items : List (Fin n)} {pid : Fin n} (hn : n ≤ maxProcesses)
    (hnodup : items.Nodup) (hpid : pid ∉ items) : items.length < maxProcesses := by
  have hcons : (pid :: items).Nodup := List.nodup_cons.mpr ⟨hpid, hnodup⟩
  have hcard := hcons.length_le_card
  rw [Fintype.card_fin, List.length_cons] at hcard
  omega

theorem queuePush_of_lt {queue : ReadyQueue n} {pid : Fin n}
    (h : queue.items.length < maxProcesses) :
    queuePush queue pid = { queue with items := queue.items ++ [pid] } := if_pos h

/-! ## Taking an entry out -/

/-- `rest` is `queue` with its entry `pid` taken out. -/
structure Taken (queue : ReadyQueue n) (pid : Fin n) (rest : ReadyQueue n) : Prop where
  mem : pid ∈ queue.items
  items : rest.items = queue.items.erase pid
  dropped : rest.dropped = queue.dropped

theorem queuePop_some {queue rest : ReadyQueue n} {pid : Fin n}
    (h : queuePop queue = (some pid, rest)) : Taken queue pid rest := by
  rw [queuePop] at h
  split at h
  · simp at h
  · rename_i x xs hitems
    simp only [Prod.mk.injEq, Option.some.injEq] at h
    obtain ⟨rfl, rfl⟩ := h
    exact ⟨by simp [hitems], by simp [hitems], rfl⟩

theorem queuePop_none {queue rest : ReadyQueue n} (h : queuePop queue = (none, rest)) :
    queue.items = [] ∧ rest = queue := by
  rw [queuePop] at h
  split at h
  · rename_i hitems
    simp only [Prod.mk.injEq, true_and] at h
    exact ⟨hitems, h.symm⟩
  · simp at h

/-- In a list without repetitions the entry at `k` is erased at `k`. -/
theorem eraseIdx_eq_erase {items : List (Fin n)} {k : Nat} {pid : Fin n}
    (hnodup : items.Nodup) (hget : items[k]? = some pid) :
    items.eraseIdx k = items.erase pid := by
  obtain ⟨hk, rfl⟩ := List.getElem?_eq_some_iff.mp hget
  exact (hnodup.erase_getElem k hk).symm

theorem queueRemoveAt_of_getElem? {queue : ReadyQueue n} {k : Nat} {pid : Fin n}
    (hget : queue.items[k]? = some pid) :
    queueRemoveAt queue (k : Int) =
      (some pid, { queue with items := queue.items.eraseIdx k }) := by
  have hk : k < queue.items.length := (List.getElem?_eq_some_iff.mp hget).1
  rw [queueRemoveAt, if_neg (by omega)]
  simp [hget]

theorem queueRemoveAt_some {queue rest : ReadyQueue n} {index : Int} {pid : Fin n}
    (hnodup : queue.items.Nodup) (h : queueRemoveAt queue index = (some pid, rest)) :
    Taken queue pid rest := by
  rw [queueRemoveAt] at h
  split at h
  · simp at h
  · simp only [Prod.mk.injEq] at h
    obtain ⟨hget, rfl⟩ := h
    exact ⟨List.mem_of_getElem? hget, eraseIdx_eq_erase hnodup hget, rfl⟩

theorem queueRemoveAt_none {queue rest : ReadyQueue n} {index : Int}
    (h : queueRemoveAt queue index = (none, rest)) :
    rest = queue ∧ (index < 0 ∨ (queue.items.length : Int) ≤ index) := by
  rw [queueRemoveAt] at h
  split at h
  · rename_i hout
    simp only [Prod.mk.injEq, true_and] at h
    exact ⟨h.symm, hout⟩
  · rename_i hout
    simp only [Prod.mk.injEq, List.getElem?_eq_none_iff] at h
    omega

end G20OsLab.Sim
