/-
  G20OsLab.Lib.LockMachine

  Programs with locks as threads on several CPUs.

  Each CPU runs its scheduler or a thread; `sched` and `dispatch` switch
  between the two, with the locks the CPU holds staying held, and an interrupt
  can run its handler on a CPU that holds no lock.  A context is taken up
  wherever a `dispatch` asks for it: what tells a scheduler that a thread can
  run is data, too.

  If all programs keep to the discipline (`System.Disciplined`), no reachable
  configuration has a cycle of CPUs each waiting for the next one's lock
  (`Config.Inv.not_waits_cycle`).
-/

import Mathlib.Data.Fintype.Basic
import Mathlib.Logic.Function.Basic
import Mathlib.Logic.Relation
import G20OsLab.Lib.LockProg
import G20OsLab.Lib.Transition

namespace G20OsLab.Lib

/-! ## Configurations -/

/-- A CPU: the thread it runs (`none` in its scheduler), what it still has to
    do, and the locks it holds, the last one first. -/
structure Cpu (L T : Type) where
  thread : Option T
  code : Prog L T Unit
  held : List L

/-- The CPUs, with the schedulers' saved contexts, which resume when the thread
    of the CPU calls `sched`, and those of the threads. -/
structure Config (C L T : Type) where
  cpu : C → Cpu L T
  scheduler : C → Prog L T Unit
  saved : T → Option (Prog L T Unit)

/-- The code the CPUs run: where a spawned thread starts, and the handler of an
    interrupt. -/
structure System (L T : Type) where
  entry : T → Prog L T Unit
  interrupt : Prog L T Unit

section Inv

variable {C L T : Type} [DecidableEq L]

/-- CPU `c` waits for a lock that CPU `c'` holds. -/
def Config.Waits (s : Config C L T) (c c' : C) : Prop :=
  ∃ l next, (s.cpu c).code = .acquire l next ∧ l ∈ (s.cpu c').held

/-- What runs or is saved keeps to the discipline, and no two CPUs hold the
    same lock. -/
structure Config.Inv (s : Config C L T) (D : Discipline L T) : Prop where
  code : ∀ c, (s.cpu c).code.wp D (s.cpu c).thread (s.cpu c).held fun _ held => held = []
  scheduler : ∀ c t, (s.cpu c).thread = some t →
    (s.scheduler c).wp D none [D.own t] fun _ held => held = []
  saved : ∀ t context, s.saved t = some context →
    context.wp D (some t) [D.own t] fun _ held => held = []
  rising : ∀ c, (s.cpu c).held.Pairwise fun l l' => D.rank l' < D.rank l
  disjoint : ∀ c c' l, l ∈ (s.cpu c).held → l ∈ (s.cpu c').held → c = c'

variable {D : Discipline L T} {s t : Config C L T} {c c' : C}

/-- What CPU `c` holds no other CPU does. -/
theorem Config.Inv.held_own (h : s.Inv D) {l : L} (hl : l ∈ (s.cpu c).held) (c' : C)
    (hl' : l ∈ (s.cpu c').held) : c' = c :=
  h.disjoint c' c l hl' hl

/-! ## What it rules out -/

/-- A CPU acquires a lock of higher rank than all it holds. -/
theorem Config.Inv.rank_lt (h : s.Inv D) {l l' : L} {next : Prog L T Unit}
    (hcode : (s.cpu c).code = .acquire l next) (hl' : l' ∈ (s.cpu c).held) :
    D.rank l' < D.rank l := by
  have hsafe := h.code c
  rw [hcode] at hsafe
  exact hsafe.1 l' hl'

/-- It never acquires a lock that it holds. -/
theorem Config.Inv.not_held (h : s.Inv D) {l : L} {next : Prog L T Unit}
    (hcode : (s.cpu c).code = .acquire l next) : l ∉ (s.cpu c).held :=
  fun hl => Nat.lt_irrefl _ (h.rank_lt hcode hl)

/-- A CPU switches to its scheduler with the lock of its thread, and no
    other. -/
theorem Config.Inv.sched_held (h : s.Inv D) {next : Prog L T Unit}
    (hcode : (s.cpu c).code = .sched next) :
    ∃ t, (s.cpu c).thread = some t ∧ (s.cpu c).held = [D.own t] := by
  have hsafe := h.code c
  rw [hcode] at hsafe
  exact hsafe.1

/-- No CPU holds two locks of one rank. -/
theorem Config.Inv.eq_of_rank (h : s.Inv D) {l l' : L} (hl : l ∈ (s.cpu c).held)
    (hl' : l' ∈ (s.cpu c).held) (hrank : D.rank l = D.rank l') : l = l' := by
  have hdown : (s.cpu c).held.Pairwise fun l l' => D.rank l = D.rank l' → l = l' :=
    (h.rising c).imp fun hlt heq => absurd heq (Nat.ne_of_gt hlt)
  have hup : (s.cpu c).held.Pairwise fun l l' => D.rank l' = D.rank l → l' = l :=
    (h.rising c).imp fun hlt heq => absurd heq (Nat.ne_of_lt hlt)
  exact List.Pairwise.forall_of_forall_of_flip (fun _ _ _ => rfl) hdown hup hl hl' hrank

/-- Along a chain of waiting CPUs the rank rises. -/
theorem Config.Inv.waits_rank (h : s.Inv D) (hwaits : Relation.TransGen s.Waits c c') {l l' : L}
    {next next' : Prog L T Unit} (hcode : (s.cpu c).code = .acquire l next)
    (hcode' : (s.cpu c').code = .acquire l' next') : D.rank l < D.rank l' := by
  induction hwaits generalizing l' next' with
  | single hwait =>
      obtain ⟨l₀, next₀, hcode₀, hheld⟩ := hwait
      obtain ⟨rfl, -⟩ := Prog.acquire.inj (hcode.symm.trans hcode₀)
      exact h.rank_lt hcode' hheld
  | tail _ hwait ih =>
      obtain ⟨l₀, next₀, hcode₀, hheld⟩ := hwait
      exact Nat.lt_trans (ih hcode₀) (h.rank_lt hcode' hheld)

/-- No CPUs wait for each other in a cycle. -/
theorem Config.Inv.not_waits_cycle (h : s.Inv D) (c : C) : ¬ Relation.TransGen s.Waits c c := by
  intro hcycle
  obtain ⟨c', hwait, -⟩ := Relation.TransGen.head'_iff.mp hcycle
  obtain ⟨l, next, hcode, -⟩ := hwait
  exact Nat.lt_irrefl _ (h.waits_rank hcycle hcode hcode)

end Inv

/-! ## Changes of a configuration -/

section Steps

variable {C L T : Type} [DecidableEq C] [DecidableEq L]

def Config.setCpu (s : Config C L T) (c : C) (cpu : Cpu L T) : Config C L T :=
  { s with cpu := Function.update s.cpu c cpu }

/-- The code of the system keeps to the discipline: a thread starts with its
    own lock held, and an interrupt handler with none. -/
structure System.Disciplined (sys : System L T) (D : Discipline L T) : Prop where
  entry : ∀ t, (sys.entry t).wp D (some t) [D.own t] fun _ held => held = []
  interrupt : ∀ me, sys.interrupt.wp D me [] fun _ held => held = []

variable {D : Discipline L T} {sys : System L T} {s t : Config C L T} {c : C}

/-- A change of one CPU and of the saved contexts. -/
theorem Config.Inv.update (h : s.Inv D) {cpu : Cpu L T} {scheduler : C → Prog L T Unit}
    {saved : T → Option (Prog L T Unit)}
    (hcode : cpu.code.wp D cpu.thread cpu.held fun _ held => held = [])
    (hrising : cpu.held.Pairwise fun l l' => D.rank l' < D.rank l)
    (hheld : ∀ l ∈ cpu.held, ∀ c', l ∈ (s.cpu c').held → c' = c)
    (hscheduler : ∀ c' t, (Function.update s.cpu c cpu c').thread = some t →
      (scheduler c').wp D none [D.own t] fun _ held => held = [])
    (hsaved : ∀ t context, saved t = some context →
      context.wp D (some t) [D.own t] fun _ held => held = []) :
    Config.Inv ⟨Function.update s.cpu c cpu, scheduler, saved⟩ D where
  code c' := by
    by_cases hc : c' = c
    · subst hc
      simpa using hcode
    · simpa [hc] using h.code c'
  scheduler := hscheduler
  saved := hsaved
  rising c' := by
    by_cases hc : c' = c
    · subst hc
      simpa using hrising
    · simpa [hc] using h.rising c'
  disjoint c₁ c₂ l h₁ h₂ := by
    by_cases hc₁ : c₁ = c
    · subst hc₁
      by_cases hc₂ : c₂ = c₁
      · exact hc₂.symm
      · simp only [Function.update_self, Function.update_of_ne hc₂] at h₁ h₂
        exact (hheld l h₁ c₂ h₂).symm
    · by_cases hc₂ : c₂ = c
      · subst hc₂
        simp only [Function.update_self, Function.update_of_ne hc₁] at h₁ h₂
        exact hheld l h₂ c₁ h₁
      · simp only [Function.update_of_ne hc₁, Function.update_of_ne hc₂] at h₁ h₂
        exact h.disjoint c₁ c₂ l h₁ h₂

/-- A change of one CPU's code and locks. -/
theorem Config.Inv.setCpu (h : s.Inv D) {cpu : Cpu L T} (hthread : cpu.thread = (s.cpu c).thread)
    (hcode : cpu.code.wp D cpu.thread cpu.held fun _ held => held = [])
    (hrising : cpu.held.Pairwise fun l l' => D.rank l' < D.rank l)
    (hheld : ∀ l ∈ cpu.held, ∀ c', l ∈ (s.cpu c').held → c' = c) : (s.setCpu c cpu).Inv D := by
  refine h.update hcode hrising hheld (fun c' t ht => h.scheduler c' t ?_) h.saved
  by_cases hc : c' = c
  · subst hc
    rw [Function.update_self] at ht
    rw [← hthread, ht]
  · rwa [Function.update_of_ne hc] at ht

/-- A thread expects that its own lock is held. -/
theorem Config.Inv.switchIn (h : s.Inv D) {thread : T} {next context : Prog L T Unit}
    (hcode : (s.cpu c).code = .dispatch thread next) (hsaved : s.saved thread = some context) :
    Config.Inv ⟨Function.update s.cpu c ⟨some thread, context, (s.cpu c).held⟩,
      Function.update s.scheduler c next, s.saved⟩ D := by
  have hsafe := h.code c
  rw [hcode] at hsafe
  obtain ⟨⟨hthread, hheld⟩, hnext⟩ := hsafe
  refine h.update ?_ (h.rising c) (fun l hl => h.held_own hl) ?_ h.saved
  · dsimp only
    rw [hheld]
    exact h.saved thread context hsaved
  · intro c' t ht
    by_cases hc : c' = c
    · subst hc
      rw [Function.update_self] at ht ⊢
      obtain rfl := Option.some.inj ht
      rwa [hthread, hheld] at hnext
    · rw [Function.update_of_ne hc] at ht ⊢
      exact h.scheduler c' t ht

variable [DecidableEq T]

/-- The scheduler expects the lock of the thread it dispatched. -/
theorem Config.Inv.switchOut (h : s.Inv D) {thread : T} {next : Prog L T Unit}
    (hcode : (s.cpu c).code = .sched next) (hthread : (s.cpu c).thread = some thread) :
    Config.Inv ⟨Function.update s.cpu c ⟨none, s.scheduler c, (s.cpu c).held⟩, s.scheduler,
      Function.update s.saved thread (some next)⟩ D := by
  have hsafe := h.code c
  rw [hcode] at hsafe
  obtain ⟨⟨thread', hthread', hheld⟩, hnext⟩ := hsafe
  obtain rfl := Option.some.inj (hthread.symm.trans hthread')
  refine h.update ?_ (h.rising c) (fun l hl => h.held_own hl) (fun c' t ht => ?_)
    fun t context hcontext => ?_
  · dsimp only
    rw [hheld]
    exact h.scheduler c thread hthread
  · by_cases hc : c' = c
    · subst hc
      simp at ht
    · rw [Function.update_of_ne hc] at ht
      exact h.scheduler c' t ht
  · by_cases ht : t = thread
    · subst ht
      rw [Function.update_self] at hcontext
      obtain rfl := Option.some.inj hcontext
      rwa [hthread, hheld] at hnext
    · rw [Function.update_of_ne ht] at hcontext
      exact h.saved t context hcontext

theorem Config.Inv.spawned (hsys : sys.Disciplined D) (h : s.Inv D) {thread : T}
    {next : Prog L T Unit} (hcode : (s.cpu c).code = .spawn thread next) :
    Config.Inv ⟨Function.update s.cpu c ⟨(s.cpu c).thread, next, (s.cpu c).held⟩, s.scheduler,
      Function.update s.saved thread (some (sys.entry thread))⟩ D := by
  have hsafe := h.code c
  rw [hcode] at hsafe
  refine h.update hsafe (h.rising c) (fun l hl => h.held_own hl) ?_ ?_
  · intro c' t ht
    refine h.scheduler c' t ?_
    by_cases hc : c' = c
    · subst hc
      rwa [Function.update_self] at ht
    · rwa [Function.update_of_ne hc] at ht
  · intro t context hcontext
    by_cases ht : t = thread
    · subst ht
      rw [Function.update_self] at hcontext
      obtain rfl := Option.some.inj hcontext
      exact hsys.entry t
    · rw [Function.update_of_ne ht] at hcontext
      exact h.saved t context hcontext

/-! ## Steps -/

inductive CpuEvent (C : Type)
  /-- CPU `c` takes its next operation; a free choice yields `n` -/
  | run (c : C) (n : Nat)
  /-- an interrupt on CPU `c` -/
  | interrupt (c : C)

variable [Fintype C]

/-- The next operation of CPU `c`, if it can take it. -/
def Config.run (sys : System L T) (s : Config C L T) (c : C) (n : Nat) : Option (Config C L T) :=
  let cpu := s.cpu c
  match cpu.code with
  | .ret _ => none
  | .acquire l next =>
      if ∀ c', l ∉ (s.cpu c').held then
        some (s.setCpu c ⟨cpu.thread, next, l :: cpu.held⟩)
      else none
  | .release l next =>
      if l ∈ cpu.held then some (s.setCpu c ⟨cpu.thread, next, cpu.held.erase l⟩) else none
  | .sched next =>
      cpu.thread.map fun t =>
        { s with
          cpu := Function.update s.cpu c ⟨none, s.scheduler c, cpu.held⟩
          saved := Function.update s.saved t (some next) }
  | .dispatch t next =>
      (s.saved t).map fun context =>
        { s with
          cpu := Function.update s.cpu c ⟨some t, context, cpu.held⟩
          scheduler := Function.update s.scheduler c next }
  | .spawn t next =>
      some { s with
        cpu := Function.update s.cpu c ⟨cpu.thread, next, cpu.held⟩
        saved := Function.update s.saved t (some (sys.entry t)) }
  | .myproc next => some (s.setCpu c ⟨cpu.thread, next cpu.thread, cpu.held⟩)
  | .choose next => some (s.setCpu c ⟨cpu.thread, next n, cpu.held⟩)
  | .loop body next =>
      some (s.setCpu c ⟨cpu.thread,
        body.bind fun again => if again = true then .loop body next else next, cpu.held⟩)
  | .panic => none

/-- The configuration after an event.  Interrupts are off while a lock is
    held. -/
def lockStep (sys : System L T) (e : CpuEvent C) (s : Config C L T) : Option (Config C L T) :=
  match e with
  | .run c n => s.run sys c n
  | .interrupt c =>
      let cpu := s.cpu c
      if cpu.held = [] then
        some (s.setCpu c ⟨cpu.thread, sys.interrupt.bind fun _ => cpu.code, cpu.held⟩)
      else none

/-- The configurations of all runs from `s`. -/
def ReachedFrom (sys : System L T) (s t : Config C L T) : Prop :=
  Steps (lockStep sys) (fun _ _ => True) s t

/-- Every operation keeps the invariant. -/
theorem Config.Inv.run (hsys : sys.Disciplined D) (h : s.Inv D) {n : Nat}
    (hrun : s.run sys c n = some t) : t.Inv D := by
  have hsafe := h.code c
  have hheld : ∀ l ∈ (s.cpu c).held, ∀ c', l ∈ (s.cpu c').held → c' = c := fun l hl => h.held_own hl
  rw [Config.run] at hrun
  cases hcode : (s.cpu c).code with
  | ret a =>
      rw [hcode] at hrun
      cases hrun
  | acquire l next =>
      rw [hcode] at hsafe hrun
      obtain ⟨hfree, hrun⟩ := Option.ite_none_right_eq_some.mp hrun
      obtain rfl := Option.some.inj hrun
      refine h.setCpu rfl hsafe.2 (List.pairwise_cons.mpr ⟨hsafe.1, h.rising c⟩)
        fun l' hl' c' hc' => ?_
      rcases List.mem_cons.mp hl' with rfl | hl'
      · exact absurd hc' (hfree c')
      · exact hheld l' hl' c' hc'
  | release l next =>
      rw [hcode] at hsafe hrun
      obtain ⟨-, hrun⟩ := Option.ite_none_right_eq_some.mp hrun
      obtain rfl := Option.some.inj hrun
      refine h.setCpu rfl hsafe.2 ((h.rising c).sublist List.erase_sublist) ?_
      intro l' hl'
      exact hheld l' (List.mem_of_mem_erase hl')
  | sched next =>
      rw [hcode] at hrun
      obtain ⟨thread, hthread, rfl⟩ := Option.map_eq_some_iff.mp hrun
      exact h.switchOut hcode hthread
  | dispatch thread next =>
      rw [hcode] at hrun
      obtain ⟨context, hsaved, rfl⟩ := Option.map_eq_some_iff.mp hrun
      exact h.switchIn hcode hsaved
  | spawn thread next =>
      rw [hcode] at hrun
      obtain rfl := Option.some.inj hrun
      exact h.spawned hsys hcode
  | myproc next =>
      rw [hcode] at hsafe hrun
      obtain rfl := Option.some.inj hrun
      exact h.setCpu rfl hsafe (h.rising c) hheld
  | choose next =>
      rw [hcode] at hsafe hrun
      obtain rfl := Option.some.inj hrun
      exact h.setCpu rfl (hsafe n) (h.rising c) hheld
  | loop body next =>
      rw [hcode] at hsafe hrun
      obtain rfl := Option.some.inj hrun
      refine h.setCpu rfl ?_ (h.rising c) hheld
      -- one more round, from the same locks
      refine Prog.wp_bind.mpr (Prog.wp_mono hsafe ?_)
      intro again held' hround
      cases again with
      | true =>
          obtain rfl : held' = (s.cpu c).held := hround
          exact hsafe
      | false => exact hround
  | panic =>
      rw [hcode] at hrun
      cases hrun

theorem Config.Inv.step (hsys : sys.Disciplined D) (h : s.Inv D) {e : CpuEvent C}
    (hstep : lockStep sys e s = some t) : t.Inv D := by
  cases e with
  | run c n => exact h.run hsys hstep
  | interrupt c =>
      have hsafe := h.code c
      simp only [lockStep, Option.ite_none_right_eq_some, Option.some.injEq] at hstep
      obtain ⟨hheld, rfl⟩ := hstep
      refine h.setCpu rfl ?_ (h.rising c) fun l hl => h.held_own hl
      dsimp only
      rw [hheld] at hsafe ⊢
      refine Prog.wp_bind.mpr (Prog.wp_mono (hsys.interrupt _) ?_)
      intro _ held' hback
      subst hback
      exact hsafe

theorem Config.Inv.reached (hsys : sys.Disciplined D) (h : s.Inv D) (hrun : ReachedFrom sys s t) :
    t.Inv D :=
  Steps.invariant (I := fun s => s.Inv D) hrun h fun h _ hstep => h.step hsys hstep

end Steps

end G20OsLab.Lib
