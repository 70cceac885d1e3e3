/-
  G20OsLab.Sim.LotteryDraw

  What the lottery draws.

  While the tickets of the queue fit an `int`, the pick is a draw of an index
  with the tickets as weights, so each position is picked by its share of the
  generator states.  Once they do not fit, the process at which the sum first
  wraps is never picked.
-/

import G20OsLab.Lib.WeightedDraw
import G20OsLab.Sim.WorkConserving

namespace G20OsLab.Sim

variable {n : Nat}

/-- The tickets of the queued processes, as weights of a draw. -/
def ticketWeights (procs : ProcTable n) (items : List (Fin n)) : List Nat :=
  items.map fun pid => (procs pid).spec.tickets.toNat

/-- The tickets of the queued processes taken together, without wrapping. -/
def ticketSum (procs : ProcTable n) (items : List (Fin n)) : Int :=
  (items.map fun pid => (procs pid).spec.tickets).sum

@[simp] theorem ticketSum_nil (procs : ProcTable n) : ticketSum procs [] = 0 := rfl

@[simp] theorem ticketSum_cons (procs : ProcTable n) (pid : Fin n) (items : List (Fin n)) :
    ticketSum procs (pid :: items) = (procs pid).spec.tickets + ticketSum procs items := by
  simp [ticketSum]

theorem ticketSum_append (procs : ProcTable n) (xs ys : List (Fin n)) :
    ticketSum procs (xs ++ ys) = ticketSum procs xs + ticketSum procs ys := by
  simp [ticketSum]

/-- Every queued process holds a ticket. -/
def Ticketed (procs : ProcTable n) (items : List (Fin n)) : Prop :=
  ∀ pid ∈ items, 1 ≤ (procs pid).spec.tickets

theorem Ticketed.tail {procs : ProcTable n} {pid : Fin n} {items : List (Fin n)}
    (h : Ticketed procs (pid :: items)) : Ticketed procs items :=
  fun x hx => h x (List.mem_cons_of_mem _ hx)

theorem Ticketed.head {procs : ProcTable n} {pid : Fin n} {items : List (Fin n)}
    (h : Ticketed procs (pid :: items)) : 1 ≤ (procs pid).spec.tickets :=
  h pid List.mem_cons_self

theorem Ticketed.length_le {procs : ProcTable n} {items : List (Fin n)}
    (h : Ticketed procs items) : (items.length : Int) ≤ ticketSum procs items := by
  induction items with
  | nil => exact Int.le_refl 0
  | cons pid rest ih =>
      have hrest := ih h.tail
      have hpid := h.head
      rw [List.length_cons, ticketSum_cons]
      omega

theorem sum_ticketWeights {procs : ProcTable n} {items : List (Fin n)}
    (h : Ticketed procs items) :
    ((ticketWeights procs items).sum : Int) = ticketSum procs items := by
  induction items with
  | nil => rfl
  | cons pid rest ih =>
      have hpid := h.head
      have hrest := ih h.tail
      rw [ticketSum_cons, ticketWeights, List.map_cons, List.sum_cons]
      rw [ticketWeights] at hrest
      omega

/-! ## The walk over the queue -/

/-- While nothing wraps, the walk over the queue draws the index of the
    remaining target. -/
theorem lotteryFind_eq {procs : ProcTable n} {items : List (Fin n)} (i : Nat)
    {running target : Nat} (hpos : Ticketed procs items)
    (hsum : running + ticketSum procs items ≤ intMax)
    (htarget : running ≤ target) :
    lotteryFind procs target i running items =
      (Lib.drawIndex (ticketWeights procs items) (target - running)).map (· + i) := by
  induction items generalizing i running with
  | nil => rfl
  | cons pid rest ih =>
      have hpid := hpos.head
      have hrest := hpos.tail.length_le
      rw [ticketSum_cons] at hsum
      have hnext : wrap32 (running + (procs pid).spec.tickets) =
          ((running + (procs pid).spec.tickets.toNat : Nat) : Int) := by
        rw [wrap32_of_le (by omega) (by omega)]
        omega
      unfold lotteryFind
      dsimp only
      rw [hnext, ticketWeights, List.map_cons, Lib.drawIndex]
      by_cases hstop : target < running + (procs pid).spec.tickets.toNat
      · rw [if_pos (by omega), if_pos (by omega)]
        simp
      · rw [if_neg (by omega), if_neg (by omega)]
        rw [ih (i + 1) hpos.tail (by omega) (by omega), ticketWeights, Nat.sub_add_eq,
          Option.map_map]
        congr 1
        funext k
        simp only [Function.comp_apply]
        omega

/-! ## The pick -/

/-- The queue with the process at index `i` picked, from generator state
    `rng`. -/
def LotteryState.picked (s : LotteryState n) (i : Nat) (rng : UInt32) : LotteryState n where
  ready := { s.ready with items := s.ready.items.eraseIdx i }
  rngState := nextRandom rng

/-- While the tickets fit an `int`, the total is positive, the walk stops, and
    the pick takes out the process it stops at. -/
theorem lotteryPickNext_draw {s : LotteryState n} {procs : ProcTable n}
    (hne : s.ready.items ≠ []) (hpos : Ticketed procs s.ready.items)
    (hsum : ticketSum procs s.ready.items ≤ intMax) :
    0 < totalTickets procs s.ready.items ∧
      ∃ i, ∃ hi : i < s.ready.items.length,
        Lib.drawIndex (ticketWeights procs s.ready.items)
            ((nextRandom s.rngState).toNat % (ticketWeights procs s.ready.items).sum) = some i ∧
          lotteryFind procs ((nextRandom s.rngState).toNat %
            (totalTickets procs s.ready.items).toNat : Nat) 0 0 s.ready.items = some i ∧
          lotteryPickNext s procs = (some s.ready.items[i], s.picked i s.rngState) := by
  have htotal : totalTickets procs s.ready.items = ticketSum procs s.ready.items :=
    totalTickets_eq hpos hsum
  have hweights := sum_ticketWeights hpos
  have hlength := List.length_pos_of_ne_nil hne
  have hge := hpos.length_le
  have htoNat : (totalTickets procs s.ready.items).toNat =
      (ticketWeights procs s.ready.items).sum := by omega
  have hlt : (nextRandom s.rngState).toNat % (ticketWeights procs s.ready.items).sum <
      (ticketWeights procs s.ready.items).sum := Nat.mod_lt _ (by omega)
  obtain ⟨i, hi, hdraw⟩ := Lib.exists_drawIndex hlt
  rw [ticketWeights, List.length_map] at hi
  have hfind : lotteryFind procs ((nextRandom s.rngState).toNat %
      (totalTickets procs s.ready.items).toNat : Nat) 0 0 s.ready.items = some i := by
    have hstart : (0 : Nat) + ticketSum procs s.ready.items ≤ intMax := by omega
    have hwalk := lotteryFind_eq 0 hpos hstart (Nat.zero_le
      ((nextRandom s.rngState).toNat % (totalTickets procs s.ready.items).toNat))
    rw [htoNat, Nat.sub_zero, hdraw] at hwalk
    rw [htoNat]
    exact hwalk
  refine ⟨by omega, i, hi, hdraw, hfind, ?_⟩
  rw [lotteryPickNext]
  dsimp only
  rw [if_neg (by omega), hfind]
  dsimp only
  rw [queueRemoveAt_of_getElem? (List.getElem?_eq_getElem hi)]
  rfl

/-! ## The share of a position -/

/-- One step of the generator on a state below `2 ^ 32`. -/
theorem nextRandom_ofNat (x : Nat) :
    (nextRandom (UInt32.ofNat x)).toNat = (1103515245 * x + 12345) % 2 ^ 32 := by
  rw [nextRandom, UInt32.toNat_add, UInt32.toNat_mul, UInt32.toNat_ofNat']
  simp only [UInt32.reduceToNat]
  omega

/-- The generator states that pick the process at position `i`, counted by the
    residues of the value drawn. -/
theorem count_picks {s : LotteryState n} {procs : ProcTable n}
    (hnodup : s.ready.items.Nodup) (hpos : Ticketed procs s.ready.items)
    (hsum : ticketSum procs s.ready.items ≤ intMax) {i : Nat} (hi : i < s.ready.items.length) :
    Nat.count (fun x => (lotteryPickNext { s with rngState := UInt32.ofNat x } procs).1 =
        some s.ready.items[i]) (2 ^ 32) =
      Nat.count (fun x => Lib.drawIndex (ticketWeights procs s.ready.items)
        (x % (ticketWeights procs s.ready.items).sum) = some i) (2 ^ 32) := by
  have hne : s.ready.items ≠ [] := List.ne_nil_of_length_pos (Nat.zero_lt_of_lt hi)
  have hcop : Nat.Coprime (2 ^ 32) 1103515245 := Nat.Coprime.pow_left 32 (by decide)
  rw [← Lib.count_affine 12345 hcop fun x => Lib.drawIndex (ticketWeights procs s.ready.items)
    (x % (ticketWeights procs s.ready.items).sum) = some i]
  congr 1
  funext x
  obtain ⟨-, k, hk, hdraw, -, hpick⟩ :=
    lotteryPickNext_draw (s := { s with rngState := UInt32.ofNat x }) hne hpos hsum
  dsimp only at hk hdraw hpick
  rw [nextRandom_ofNat] at hdraw
  rw [hpick, hdraw, Option.some.injEq, Option.some.injEq, hnodup.getElem_inj_iff]

/-- Every position of the queue is picked by its share of the generator states,
    up to one for each of its tickets; and every state picks exactly one queued
    process, which leaves the others in their order.  The total is positive
    and the walk stops inside the queue. -/
theorem lottery_proportional (s : LotteryState n) (procs : ProcTable n)
    (hne : s.ready.items ≠ []) (hnodup : s.ready.items.Nodup)
    (hpos : Ticketed procs s.ready.items) (hsum : ticketSum procs s.ready.items ≤ intMax) :
    (∀ i, (hi : i < s.ready.items.length) →
      (procs s.ready.items[i]).spec.tickets *
          (2 ^ 32 / (ticketSum procs s.ready.items).toNat : Nat) ≤
          Nat.count (fun x => (lotteryPickNext { s with rngState := UInt32.ofNat x } procs).1 =
            some s.ready.items[i]) (2 ^ 32) ∧
        Nat.count (fun x => (lotteryPickNext { s with rngState := UInt32.ofNat x } procs).1 =
            some s.ready.items[i]) (2 ^ 32) ≤
          (procs s.ready.items[i]).spec.tickets *
            (2 ^ 32 ⌈/⌉ (ticketSum procs s.ready.items).toNat : Nat)) ∧
      ∀ rng, 0 < totalTickets procs s.ready.items ∧
        ∃ i, ∃ hi : i < s.ready.items.length,
          lotteryFind procs ((nextRandom rng).toNat %
            (totalTickets procs s.ready.items).toNat : Nat) 0 0 s.ready.items = some i ∧
          lotteryPickNext { s with rngState := rng } procs =
            (some s.ready.items[i], s.picked i rng) := by
  constructor
  · intro i hi
    have hweights := sum_ticketWeights hpos
    have hge := hpos.length_le
    have hlen : i < (ticketWeights procs s.ready.items).length := by
      rw [ticketWeights, List.length_map]
      exact hi
    have hticket : ((ticketWeights procs s.ready.items)[i] : Int) =
        (procs s.ready.items[i]).spec.tickets := by
      have hone := hpos s.ready.items[i] (List.getElem_mem hi)
      simp only [ticketWeights, List.getElem_map]
      omega
    -- the draw is a residue of all the states of the generator
    have hbounds := Lib.count_drawIndex_bounds (2 ^ 32) hlen (by omega)
    rw [← count_picks hnodup hpos hsum hi] at hbounds
    have htoNat : (ticketSum procs s.ready.items).toNat =
        (ticketWeights procs s.ready.items).sum := by omega
    rw [htoNat, ← hticket]
    exact ⟨mod_cast hbounds.1, mod_cast hbounds.2⟩
  · intro rng
    obtain ⟨htotal, i, hi, -, hfind, hpick⟩ :=
      lotteryPickNext_draw (s := { s with rngState := rng }) hne hpos hsum
    exact ⟨htotal, i, hi, hfind, hpick⟩

/-- Two processes with one ticket and two. -/
def threeTickets : ProcTable 2 := fun i =>
  initRuntime { ProcessSpec.short (i + 1) (-1) with tickets := i + 1 }

/-- Of two processes with one ticket and two, the second is picked by two of
    three generator states, as far as three divides their number. -/
theorem lottery_proportional_three :
    (threeTickets 1).spec.tickets * (2 ^ 32 / (ticketSum threeTickets [0, 1]).toNat : Nat) ≤
        Nat.count (fun x =>
          (lotteryPickNext ⟨⟨[0, 1], 0⟩, UInt32.ofNat x⟩ threeTickets).1 = some 1) (2 ^ 32) ∧
      Nat.count (fun x =>
          (lotteryPickNext ⟨⟨[0, 1], 0⟩, UInt32.ofNat x⟩ threeTickets).1 = some 1) (2 ^ 32) ≤
        (threeTickets 1).spec.tickets *
          (2 ^ 32 ⌈/⌉ (ticketSum threeTickets [0, 1]).toNat : Nat) :=
  (lottery_proportional ⟨⟨[0, 1], 0⟩, 42⟩ threeTickets nofun (by decide)
    (fun i _ => Int.le_add_of_nonneg_left (Int.natCast_nonneg i)) (by decide)).1 1 (by decide)

/-! ## Overflow -/

theorem wrap32_add_wrap32 (x y : Int) : wrap32 (wrap32 x + y) = wrap32 (x + y) := by
  unfold wrap32
  exact Int.bmod_add_bmod

/-- The `int` total is the wrapped sum of the tickets. -/
theorem totalTickets_wrap (procs : ProcTable n) (items : List (Fin n)) :
    totalTickets procs items = wrap32 (ticketSum procs items) := by
  induction items using List.reverseRecOn with
  | nil => rfl
  | append_singleton items pid ih =>
      rw [totalTickets_append, ih, wrap32_add_wrap32, ticketSum_append]
      simp

/-- Where the walk stops, the wrapped sum up to there passes the target. -/
theorem lotteryFind_some {procs : ProcTable n} {target running : Int} {items : List (Fin n)}
    {i m : Nat} (h : lotteryFind procs target i running items = some m) :
    ∃ k < items.length, m = i + k ∧
      target < wrap32 (running + ticketSum procs (items.take (k + 1))) := by
  induction items generalizing i running with
  | nil => cases h
  | cons pid rest ih =>
      unfold lotteryFind at h
      dsimp only at h
      split at h
      · rename_i hstop
        obtain rfl := Option.some.inj h
        refine ⟨0, Nat.succ_pos _, rfl, ?_⟩
        simpa using hstop
      · obtain ⟨k, hk, rfl, hpass⟩ := ih h
        rw [wrap32_add_wrap32, Int.add_assoc] at hpass
        refine ⟨k + 1, Nat.succ_lt_succ hk, by omega, ?_⟩
        rw [List.take_succ_cons, ticketSum_cons]
        exact hpass

/-- Where the tickets do not fit an `int`, the sum wraps at some process. -/
theorem exists_overflow {procs : ProcTable n} {items : List (Fin n)}
    (hsum : intMax < ticketSum procs items) :
    ∃ k < items.length, ticketSum procs (items.take k) ≤ intMax ∧
      intMax < ticketSum procs (items.take (k + 1)) := by
  induction items using List.reverseRecOn with
  | nil => exact absurd hsum (Int.not_lt.mpr (Int.zero_le_ofNat _))
  | append_singleton items pid ih =>
      by_cases hfirst : intMax < ticketSum procs items
      · obtain ⟨k, hk, hbelow, habove⟩ := ih hfirst
        rw [← List.take_append_of_le_length hk.le] at hbelow
        rw [← List.take_append_of_le_length (Nat.succ_le_of_lt hk)] at habove
        refine ⟨k, ?_, hbelow, habove⟩
        rw [List.length_append]
        omega
      · refine ⟨items.length, by simp, ?_, ?_⟩
        · rw [List.take_left]
          omega
        · rw [List.take_of_length_le (by simp)]
          exact hsum

theorem wrap32_neg {x : Int} (hlow : intMax < x) (hhigh : x ≤ 2 * intMax) : wrap32 x < 0 := by
  unfold wrap32 Int.bmod
  rw [intMax] at hlow hhigh
  dsimp only
  split <;> omega

/-- A process at which the sum wraps to a negative number is not picked. -/
theorem lotteryPickNext_ne {s : LotteryState n} {procs : ProcTable n}
    (hnodup : s.ready.items.Nodup) {k : Nat} (hk : k < s.ready.items.length)
    (hneg : wrap32 (ticketSum procs (s.ready.items.take (k + 1))) < 0) :
    (lotteryPickNext s procs).1 ≠ some s.ready.items[k] := by
  intro hpick
  have hother : ∀ j, (hj : j < s.ready.items.length) →
      (queueRemoveAt s.ready (j : Int)).1 = some s.ready.items[k] → j = k := by
    intro j hj hremove
    rw [queueRemoveAt_of_getElem? (List.getElem?_eq_getElem hj), Option.some.injEq] at hremove
    exact hnodup.getElem_inj_iff.mp hremove
  rw [lotteryPickNext] at hpick
  dsimp only at hpick
  split at hpick
  · cases hpick
  · rename_i htotal
    split at hpick
    -- the walk has stopped at another process
    · rename_i m hfind
      obtain ⟨j, hj, hmj, hpass⟩ := lotteryFind_some hfind
      obtain rfl : m = j := by omega
      obtain rfl := hother m hj hpick
      rw [Int.zero_add] at hpass
      omega
    -- the last entry is the one at which it wraps only if the total is negative
    · obtain ⟨last, hlast⟩ : ∃ last, s.ready.items.length = last + 1 :=
        Nat.exists_eq_succ_of_ne_zero (by omega)
      have hindex : (s.ready.items.length : Int) - 1 = (last : Int) := by omega
      rw [hindex] at hpick
      obtain rfl := hother last (by omega) hpick
      rw [← hlast, List.take_length, ← totalTickets_wrap] at hneg
      omega

/-- The lottery can pick every queued process, and picks one from every
    generator state, exactly if the queued tickets fit an `int`. -/
theorem lotteryPickNext_selects_iff {s : LotteryState n} {procs : ProcTable n}
    (hne : s.ready.items ≠ []) (hnodup : s.ready.items.Nodup)
    (hpos : Ticketed procs s.ready.items)
    (hint : ∀ pid ∈ s.ready.items, (procs pid).spec.tickets ≤ intMax) :
    ((∀ rng, ∃ pid ∈ s.ready.items,
        (lotteryPickNext { s with rngState := rng } procs).1 = some pid) ∧
      ∀ pid ∈ s.ready.items, ∃ rng,
        (lotteryPickNext { s with rngState := rng } procs).1 = some pid) ↔
      ticketSum procs s.ready.items ≤ intMax := by
  constructor
  · rintro ⟨-, hevery⟩
    by_contra hsum
    obtain ⟨k, hk, hbelow, habove⟩ := exists_overflow (Int.not_le.mp hsum)
    obtain ⟨rng, hpick⟩ := hevery s.ready.items[k] (List.getElem_mem hk)
    have hticket := hint s.ready.items[k] (List.getElem_mem hk)
    have hsplit : ticketSum procs (s.ready.items.take (k + 1)) =
        ticketSum procs (s.ready.items.take k) + (procs s.ready.items[k]).spec.tickets := by
      rw [List.take_succ_eq_append_getElem hk, ticketSum_append]
      simp
    have hneg := wrap32_neg habove (by omega)
    exact lotteryPickNext_ne (s := { s with rngState := rng }) hnodup hk hneg hpick
  · intro hsum
    constructor
    · intro rng
      obtain ⟨-, i, hi, -, -, hpick⟩ :=
        lotteryPickNext_draw (s := { s with rngState := rng }) hne hpos hsum
      exact ⟨s.ready.items[i], List.getElem_mem hi, by rw [hpick]⟩
    · intro pid hpid
      obtain ⟨i, hi, rfl⟩ := List.getElem_of_mem hpid
      -- its share of the generator states is not empty
      have hweights := sum_ticketWeights hpos
      have hge := hpos.length_le
      have hone := hpos s.ready.items[i] hpid
      have hlen : i < (ticketWeights procs s.ready.items).length := by
        rw [ticketWeights, List.length_map]
        exact hi
      have hshare := (Lib.count_drawIndex_bounds (2 ^ 32) hlen (by omega)).1
      rw [← count_picks hnodup hpos hsum hi] at hshare
      have hquotient : 1 ≤ 2 ^ 32 / (ticketWeights procs s.ready.items).sum := by
        rw [Nat.le_div_iff_mul_le (by omega)]
        rw [intMax] at hsum
        omega
      have hticket : 1 ≤ (ticketWeights procs s.ready.items)[i] := by
        simp only [ticketWeights, List.getElem_map]
        omega
      have hcount := (Nat.mul_le_mul hticket hquotient).trans hshare
      obtain ⟨x, -, hx⟩ := Nat.count_ne_iff_exists.mp (Nat.ne_of_gt hcount)
      exact ⟨UInt32.ofNat x, hx⟩

end G20OsLab.Sim
