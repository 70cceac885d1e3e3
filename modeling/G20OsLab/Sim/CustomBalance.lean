/-
  G20OsLab.Sim.CustomBalance

  Placement and stealing in the custom policy and the balance of its queues.

  The loads are the lengths of the queues of the CPUs.  An enqueue adds one to
  a load that is at most one above the least (`customTarget_spec`), a steal is
  a transfer from a greatest load to a least one (`customTick_moves`), and what
  that means for the spread and for the squares is said in `Lib.LoadBalance`.
-/

import Mathlib.Data.Multiset.Basic
import G20OsLab.Lib.LoadBalance
import G20OsLab.Sim.Stealing

namespace G20OsLab.Sim

open Lib (spread squares Transfer spread_place_le sum_exchange)

variable {n : Nat}

/-- The custom policy with the queues `queues` and the last steal at
    `lastStealTick`; the other fields are as `custom_init` sets them for good. -/
def customWith (queues : Nat → ReadyQueue n) (lastStealTick : Int) : CustomState n :=
  { customInit n with queues := queues, lastStealTick := lastStealTick }

/-- The lengths of the queues of the CPUs. -/
def CustomState.loads (s : CustomState n) (cpuCount : Nat) : Fin cpuCount → Nat :=
  fun cpu => s.count cpu

/-- The processes in the queues of the CPUs, each as often as it is queued. -/
def CustomState.queued (s : CustomState n) (cpuCount : Nat) : Multiset (Fin n) :=
  ∑ cpu : Fin cpuCount, ((s.queues cpu).items : Multiset (Fin n))

/-- The queue of `cpu` is at most one longer than any other. -/
def CustomState.Shortish (s : CustomState n) (cpuCount cpu : Nat) : Prop :=
  ∀ k < cpuCount, s.count cpu ≤ s.count k + 1

/-! ## Placement -/

/-- `s'` is `s` with `pid` put at the end of one queue that is at most one
    longer than the shortest, the one of the affinity CPU if that will do. -/
structure PlacedOn (s s' : CustomState n) (cpuCount : Nat) (pid : Fin n) (affinity : Int)
    (cpu : Nat) : Prop where
  lt : cpu < cpuCount
  short : s.Shortish cpuCount cpu
  affine : ∀ k < cpuCount, affinity = k → s.Shortish cpuCount k → cpu = k
  appended : (s'.queues cpu).items = (s.queues cpu).items ++ [pid]
  other : ∀ k, k ≠ cpu → s'.queues k = s.queues k

theorem leastLoadedCpu_lt (s : CustomState n) {cpuCount : Nat} (h : 0 < cpuCount) :
    leastLoadedCpu s cpuCount < cpuCount := loadScan_lt _ _ h

theorem mostLoadedCpu_lt (s : CustomState n) {cpuCount : Nat} (h : 0 < cpuCount) :
    mostLoadedCpu s cpuCount < cpuCount := loadScan_lt _ _ h

/-- The target is the preferred CPU where its queue is short enough, else the
    least loaded one. -/
theorem customTarget_shortish (s : CustomState n) {cpuCount : Nat} (h : 0 < cpuCount)
    (affinity cpuHint : Int) :
    s.Shortish cpuCount (customTarget s cpuCount affinity cpuHint) := by
  have hleast := (leastLoadedCpu_spec s h).1
  intro k hk
  have hmin := hleast k hk
  unfold customTarget
  dsimp only
  split
  · omega
  · omega

theorem customTarget_affinity (s : CustomState n) {cpuCount : Nat} (h : 0 < cpuCount) {k : Nat}
    (hk : k < cpuCount) (hshort : s.Shortish cpuCount k) (cpuHint : Int) :
    customTarget s cpuCount k cpuHint = k := by
  have hpreferred : customPreferred s cpuCount k cpuHint = k := by
    rw [customPreferred, if_pos ⟨Int.natCast_nonneg k, Int.ofNat_lt.mpr hk⟩, Int.toNat_natCast]
  have hmin := hshort _ (leastLoadedCpu_lt s h)
  unfold customTarget
  dsimp only
  rw [hpreferred, if_neg (by omega)]

theorem customEnqueue_placed (s : CustomState n) {cpuCount : Nat} (h : 0 < cpuCount)
    (hroom : ∀ cpu < cpuCount, s.count cpu < maxProcesses) (procs : ProcTable n) (pid : Fin n)
    (cpuHint : Int) :
    ∃ cpu, PlacedOn s (customEnqueue s cpuCount procs pid cpuHint).1 cpuCount pid
      (procs pid).spec.affinity cpu := by
  have hlt := customTarget_lt s h (procs pid).spec.affinity cpuHint
  refine ⟨customTarget s cpuCount (procs pid).spec.affinity cpuHint, hlt,
    customTarget_shortish s h _ _, ?_, ?_, ?_⟩
  · intro k hk haffinity hshort
    rw [haffinity]
    exact customTarget_affinity s h hk hshort cpuHint
  · rw [customEnqueue]
    dsimp only
    rw [Function.update_self, queuePush_of_lt (hroom _ hlt)]
  · intro k hk
    rw [customEnqueue]
    dsimp only
    rw [Function.update_of_ne hk]

theorem PlacedOn.spread_le {s s' : CustomState n} {cpuCount cpu : Nat} {pid : Fin n}
    {affinity : Int} (h : PlacedOn s s' cpuCount pid affinity cpu) :
    spread (s'.loads cpuCount) ≤ max (spread (s.loads cpuCount)) 2 := by
  have hloads : s'.loads cpuCount =
      Function.update (s.loads cpuCount) ⟨cpu, h.lt⟩ (s.loads cpuCount ⟨cpu, h.lt⟩ + 1) := by
    funext k
    by_cases hk : k = ⟨cpu, h.lt⟩
    · subst hk
      show (s'.queues cpu).items.length = _
      rw [Function.update_self, h.appended, List.length_append]
      rfl
    · have hne : k.val ≠ cpu := fun he => hk (Fin.ext he)
      show (s'.queues k).items.length = _
      rw [Function.update_of_ne hk, h.other k hne]
      rfl
  rw [hloads]
  apply spread_place_le
  intro k
  exact h.short k k.isLt

/-! ## Stealing -/

/-- `s'` is `s` with the last entry of a longest queue moved to the end of a
    shortest one. -/
structure MovedTo (s s' : CustomState n) (cpuCount heavy light : Nat) (pid : Fin n) : Prop where
  heavy_lt : heavy < cpuCount
  light_lt : light < cpuCount
  longest : ∀ k < cpuCount, s.count k ≤ s.count heavy
  shortest : ∀ k < cpuCount, s.count light ≤ s.count k
  apart : s.count light + 2 ≤ s.count heavy
  taken : (s.queues heavy).items = (s'.queues heavy).items ++ [pid]
  given : (s'.queues light).items = (s.queues light).items ++ [pid]
  other : ∀ k, k ≠ heavy → k ≠ light → s'.queues k = s.queues k

/-- Removing at the last index takes the last entry. -/
theorem queueRemoveAt_last {queue : ReadyQueue n} {front : List (Fin n)} {pid : Fin n}
    (h : queue.items = front ++ [pid]) :
    queueRemoveAt queue ((queue.items.length : Int) - 1) =
      (some pid, { queue with items := front }) := by
  have hlast : (queue.items.length : Int) - 1 = (front.length : Int) := by
    rw [h, List.length_append, List.length_singleton]
    omega
  have hget : queue.items[front.length]? = some pid := by
    rw [h, List.getElem?_append_right (Nat.le_refl _), Nat.sub_self]
    rfl
  have hfront : queue.items.eraseIdx front.length = front := by
    rw [h, List.eraseIdx_append_of_length_le (Nat.le_refl _), Nat.sub_self, List.eraseIdx_cons_zero,
      List.append_nil]
  rw [hlast, queueRemoveAt_of_getElem? hget, hfront]

/-- The periodic tick steals, when it may, from the end of a longest queue. -/
theorem customTick_moves (queues : Nat → ReadyQueue n) (lastStealTick : Int) {cpuCount : Nat}
    (h : 0 < cpuCount) (hroom : ∀ cpu < cpuCount, (queues cpu).items.length < maxProcesses)
    (procs : ProcTable n) (now : Int) :
    (customTick (customWith queues lastStealTick) cpuCount procs now).1.queues = queues ∨
      (5 ≤ now - lastStealTick ∧ ∃ heavy light pid, MovedTo (customWith queues lastStealTick)
        (customTick (customWith queues lastStealTick) cpuCount procs now).1 cpuCount
        heavy light pid) := by
  generalize hs : customWith queues lastStealTick = s
  have hqueues : s.queues = queues := hs ▸ rfl
  have hinterval : s.stealInterval = 5 := hs ▸ rfl
  have hlast : s.lastStealTick = lastStealTick := hs ▸ rfl
  have hthreshold : s.imbalanceThreshold = 2 := hs ▸ rfl
  have hlt := leastLoadedCpu_lt s h
  rw [customTick]
  split
  · exact .inl hqueues
  -- `steal_interval` has passed
  · rename_i hearly
    dsimp only
    split
    · exact .inl hqueues
    -- the loads differ by `imbalance_threshold` or more
    · rename_i hbalanced
      have hapart : s.count (leastLoadedCpu s cpuCount) + 2 ≤
          s.count (mostLoadedCpu s cpuCount) := by omega
      have hne : leastLoadedCpu s cpuCount ≠ mostLoadedCpu s cpuCount := by
        intro he
        rw [he] at hapart
        omega
      obtain hnil | ⟨front, pid, hitems⟩ :=
        List.eq_nil_or_concat (s.queues (mostLoadedCpu s cpuCount)).items
      · have hzero : s.count (mostLoadedCpu s cpuCount) = 0 := by
          rw [CustomState.count, hnil, List.length_nil]
        omega
      · rw [List.concat_eq_append] at hitems
        have hremove := queueRemoveAt_last hitems
        rw [CustomState.count, hremove]
        refine .inr ⟨by omega, mostLoadedCpu s cpuCount, leastLoadedCpu s cpuCount, pid,
          mostLoadedCpu_lt s h, hlt, fun k hk => le_mostLoadedCpu s hk,
          (leastLoadedCpu_spec s h).1, hapart, ?_, ?_, ?_⟩
        · dsimp only
          rw [Function.update_of_ne hne.symm, Function.update_self, hitems]
        · have hroom' := hroom _ hlt
          rw [← hqueues] at hroom'
          dsimp only
          rw [Function.update_self, Function.update_of_ne hne, queuePush_of_lt hroom']
        · intro k hheavy hlight
          dsimp only
          rw [Function.update_of_ne hlight, Function.update_of_ne hheavy]

section Moved

variable {s s' : CustomState n} {cpuCount heavy light : Nat} {pid : Fin n}

/-- A steal is a transfer of load. -/
theorem MovedTo.transfer (h : MovedTo s s' cpuCount heavy light pid) :
    Transfer (s.loads cpuCount) (s'.loads cpuCount) ⟨heavy, h.heavy_lt⟩ ⟨light, h.light_lt⟩ where
  greatest k := h.longest k k.isLt
  least k := h.shortest k k.isLt
  apart := h.apart
  taken := by
    show (s'.queues heavy).items.length + 1 = (s.queues heavy).items.length
    rw [h.taken, List.length_append, List.length_singleton]
  given := by
    show (s'.queues light).items.length = (s.queues light).items.length + 1
    rw [h.given, List.length_append, List.length_singleton]
  other := by
    intro k hheavy hlight
    show (s'.queues k).items.length = (s.queues k).items.length
    rw [h.other k (fun he => hheavy (Fin.ext he)) fun he => hlight (Fin.ext he)]

/-- A steal loses and adds nothing. -/
theorem MovedTo.queued (h : MovedTo s s' cpuCount heavy light pid) :
    s'.queued cpuCount = s.queued cpuCount := by
  refine sum_exchange h.transfer.ne ?_ ?_
  · show ((s'.queues heavy).items : Multiset (Fin n)) + (s'.queues light).items =
      (s.queues heavy).items + (s.queues light).items
    rw [h.given, h.taken, ← Multiset.coe_add, ← Multiset.coe_add, add_assoc,
      add_comm ((s.queues light).items : Multiset (Fin n))]
  · intro k hheavy hlight
    rw [h.other k (fun he => hheavy (Fin.ext he)) fun he => hlight (Fin.ext he)]

end Moved

/-- What a periodic tick may do to the queues: nothing, or one move when they
    are uneven and the last steal is 5 ticks old. -/
structure Rebalanced (s s' : CustomState n) (cpuCount : Nat) (now : Int) : Prop where
  moved : s'.queues = s.queues ∨
    (2 ≤ spread (s.loads cpuCount) ∧ 5 ≤ now - s.lastStealTick ∧
      (∃ heavy light pid, MovedTo s s' cpuCount heavy light pid) ∧
      squares (s'.loads cpuCount) < squares (s.loads cpuCount))
  spread_le : spread (s'.loads cpuCount) ≤ spread (s.loads cpuCount)
  queued : s'.queued cpuCount = s.queued cpuCount

/-- **Placement and stealing keep the queues balanced.**  An enqueue puts the
    process at the end of one queue that is at most one longer than the
    shortest, on the affinity CPU if that will do, and takes the spread at most
    to 2; a periodic tick evens the queues out or leaves them alone. -/
theorem custom_keeps_balance (queues : Nat → ReadyQueue n) (lastStealTick : Int) (cpuCount : Nat)
    (h : 0 < cpuCount) (hroom : ∀ cpu < cpuCount, (queues cpu).items.length < maxProcesses)
    (procs : ProcTable n) :
    (∀ pid cpuHint,
        let s' := (customEnqueue (customWith queues lastStealTick) cpuCount procs pid cpuHint).1
        (∃ cpu, PlacedOn (customWith queues lastStealTick) s' cpuCount pid
          (procs pid).spec.affinity cpu) ∧
        spread (s'.loads cpuCount) ≤
          max (spread ((customWith queues lastStealTick).loads cpuCount)) 2) ∧
      ∀ now, Rebalanced (customWith queues lastStealTick)
        (customTick (customWith queues lastStealTick) cpuCount procs now).1 cpuCount now := by
  refine ⟨?_, ?_⟩
  · intro pid cpuHint
    obtain ⟨cpu, hplaced⟩ := customEnqueue_placed (customWith queues lastStealTick) h hroom procs
      pid cpuHint
    exact ⟨⟨cpu, hplaced⟩, hplaced.spread_le⟩
  · intro now
    rcases customTick_moves queues lastStealTick h hroom procs now with
      hsame | ⟨hdue, heavy, light, pid, hmoved⟩
    · refine ⟨.inl hsame, ?_, ?_⟩
      · have hloads : (customTick (customWith queues lastStealTick) cpuCount procs now).1.loads
            cpuCount = (customWith queues lastStealTick).loads cpuCount := by
          funext k
          show ((customTick (customWith queues lastStealTick) cpuCount procs
            now).1.queues k).items.length = (queues k).items.length
          rw [hsame]
        rw [hloads]
      · rw [CustomState.queued, CustomState.queued, hsame]
        rfl
    · have htransfer := hmoved.transfer
      refine ⟨.inr ⟨?_, hdue, ⟨heavy, light, pid, hmoved⟩, htransfer.squares_lt⟩,
        htransfer.spread_le, hmoved.queued⟩
      have hspread := Lib.le_add_spread ((customWith queues lastStealTick).loads cpuCount)
        ⟨heavy, hmoved.heavy_lt⟩ ⟨light, hmoved.light_lt⟩
      have hapart := htransfer.apart
      omega

/-- Three of four processes wait on CPU 0 and none on CPU 1. -/
def unevenQueues (cpu : Nat) : ReadyQueue 4 :=
  if cpu = 0 then ⟨[0, 1, 2], 0⟩ else .empty 4

/-- The fourth is put on CPU 1, or a tick moves one of the three there. -/
theorem custom_keeps_balance_unevenQueues :
    (∀ pid cpuHint,
        let s' := (customEnqueue (customWith unevenQueues 0) 2
          (fun _ => initRuntime (.short 1 1)) pid cpuHint).1
        (∃ cpu, PlacedOn (customWith unevenQueues 0) s' 2 pid (-1) cpu) ∧
        spread (s'.loads 2) ≤ max (spread ((customWith unevenQueues 0).loads 2)) 2) ∧
      ∀ now, Rebalanced (customWith unevenQueues 0)
        (customTick (customWith unevenQueues 0) 2 (fun _ => initRuntime (.short 1 1)) now).1
        2 now :=
  custom_keeps_balance unevenQueues 0 2 (by decide) (by decide)
    (fun _ => initRuntime (.short 1 1))

end G20OsLab.Sim
