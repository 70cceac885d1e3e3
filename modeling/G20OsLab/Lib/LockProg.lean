/-
  G20OsLab.Lib.LockProg

  Programs that take and release locks.

  A `Prog` is what a kernel path does with locks; every test of data in it is
  a free choice.  A `Discipline` ranks the locks and gives each thread a lock
  of its own, and `Prog.wp` says that a program takes locks in rising rank
  only, and switches between thread and scheduler with exactly the thread's
  own lock held.
-/

import Mathlib.Logic.Basic

namespace G20OsLab.Lib

/-! ## Programs -/

/-- A program over locks `L` and threads `T`. -/
inductive Prog (L T : Type) : Type → Type 1
  | ret {α : Type} (a : α) : Prog L T α
  | acquire {α : Type} (l : L) (next : Prog L T α) : Prog L T α
  | release {α : Type} (l : L) (next : Prog L T α) : Prog L T α
  /-- switch to the scheduler of the CPU -/
  | sched {α : Type} (next : Prog L T α) : Prog L T α
  /-- switch from the scheduler to thread `t` -/
  | dispatch {α : Type} (t : T) (next : Prog L T α) : Prog L T α
  /-- make thread `t` start at its entry when it is next dispatched -/
  | spawn {α : Type} (t : T) (next : Prog L T α) : Prog L T α
  /-- the thread the CPU runs, if any -/
  | myproc {α : Type} (next : Option T → Prog L T α) : Prog L T α
  /-- a free choice -/
  | choose {α : Type} (next : Nat → Prog L T α) : Prog L T α
  /-- repeat `body` as long as it returns `true` -/
  | loop {α : Type} (body : Prog L T Bool) (next : Prog L T α) : Prog L T α
  /-- the CPU stops -/
  | panic {α : Type} : Prog L T α

namespace Prog

variable {L T α β : Type}

def bind {α : Type} : Prog L T α → (α → Prog L T β) → Prog L T β
  | .ret a, f => f a
  | .acquire l next, f => .acquire l (next.bind f)
  | .release l next, f => .release l (next.bind f)
  | .sched next, f => .sched (next.bind f)
  | .dispatch t next, f => .dispatch t (next.bind f)
  | .spawn t next, f => .spawn t (next.bind f)
  | .myproc next, f => .myproc fun me => (next me).bind f
  | .choose next, f => .choose fun n => (next n).bind f
  | .loop body next, f => .loop body (next.bind f)
  | .panic, _ => .panic

instance : Monad (Prog L T) where
  pure := .ret
  bind := .bind

/-- A number that the data decide. -/
def any : Prog L T Nat := .choose .ret

/-- A test of data. -/
def flip : Prog L T Bool := .choose fun n => .ret (n == 0)

/-- One of the programs, or none of them. -/
def oneOf (ps : List (Prog L T Unit)) : Prog L T Unit := .choose fun n => ps.getD n (.ret ())

/-- The thread, where its record is used. -/
def self : Prog L T T :=
  .myproc fun me =>
    match me with
    | some t => .ret t
    | none => .panic

end Prog

/-! ## The discipline -/

/-- A rank for every lock, and a lock for every thread. -/
structure Discipline (L T : Type) where
  rank : L → Nat
  own : T → L

namespace Prog

variable {L T α β : Type} [DecidableEq L] (D : Discipline L T) (me : Option T)

/-- Run by thread `me`, or by the scheduler, with the locks `held`, the program
    keeps to the discipline, and where it ends `Q` holds of its result and the
    locks held then.  A loop starts each round with the same locks. -/
def wp {α : Type} : Prog L T α → List L → (α → List L → Prop) → Prop
  | .ret a, held, Q => Q a held
  | .acquire l next, held, Q => (∀ h ∈ held, D.rank h < D.rank l) ∧ next.wp (l :: held) Q
  | .release l next, held, Q => l ∈ held ∧ next.wp (held.erase l) Q
  | .sched next, held, Q => (∃ t, me = some t ∧ held = [D.own t]) ∧ next.wp held Q
  | .dispatch t next, held, Q => (me = none ∧ held = [D.own t]) ∧ next.wp held Q
  | .spawn _ next, held, Q => next.wp held Q
  | .myproc next, held, Q => (next me).wp held Q
  | .choose next, held, Q => ∀ n, (next n).wp held Q
  | .loop body next, held, Q =>
      body.wp held fun again held' => if again = true then held' = held else next.wp held' Q
  | .panic, _, _ => True

variable {D me} {held : List L} {Q Q' : α → List L → Prop}

theorem wp_mono {α : Type} {p : Prog L T α} {held : List L} {Q Q' : α → List L → Prop}
    (h : p.wp D me held Q) (hQ : ∀ a held', Q a held' → Q' a held') : p.wp D me held Q' := by
  induction p generalizing held with
  | ret a => exact hQ _ _ h
  | acquire l next ih => exact ⟨h.1, ih h.2 hQ⟩
  | release l next ih => exact ⟨h.1, ih h.2 hQ⟩
  | sched next ih => exact ⟨h.1, ih h.2 hQ⟩
  | dispatch t next ih => exact ⟨h.1, ih h.2 hQ⟩
  | spawn t next ih => exact ih h hQ
  | myproc next ih => exact ih me h hQ
  | choose next ih => exact fun n => ih n (h n) hQ
  | loop body next ihbody ihnext =>
      refine ihbody h ?_
      intro again held' h'
      cases again with
      | true => exact h'
      | false => exact ihnext h' hQ
  | panic => trivial

/-- A sequence keeps to the discipline if the second part does from where the
    first one ends. -/
theorem wp_bind {α β : Type} {p : Prog L T α} {f : α → Prog L T β} {held : List L}
    {Q : β → List L → Prop} :
    (p.bind f).wp D me held Q ↔ p.wp D me held fun a held' => (f a).wp D me held' Q := by
  induction p generalizing held with
  | ret a => exact Iff.rfl
  | acquire l next ih => exact and_congr_right' ih
  | release l next ih => exact and_congr_right' ih
  | sched next ih => exact and_congr_right' ih
  | dispatch t next ih => exact and_congr_right' ih
  | spawn t next ih => exact ih
  | myproc next ih => exact ih me
  | choose next ih => exact forall_congr' fun n => ih n
  | loop body next ihbody ihnext =>
      -- only what follows the last round differs
      constructor
      · intro h
        refine @wp_mono _ _ _ D me _ body _ _ _ h ?_
        intro again held' h'
        cases again with
        | true => exact h'
        | false => exact ihnext.mp h'
      · intro h
        refine @wp_mono _ _ _ D me _ body _ _ _ h ?_
        intro again held' h'
        cases again with
        | true => exact h'
        | false => exact ihnext.mpr h'
  | panic => exact Iff.rfl

/-! ### Rules -/

section Rules

variable {α β : Type} {held : List L} {Q : α → List L → Prop}

@[simp] theorem wp_pure {a : α} : (pure a : Prog L T α).wp D me held Q ↔ Q a held := Iff.rfl

@[simp] theorem wp_bind_iff {p : Prog L T α} {f : α → Prog L T β} {Q : β → List L → Prop} :
    (p >>= f).wp D me held Q ↔ p.wp D me held fun a held' => (f a).wp D me held' Q :=
  wp_bind

@[simp] theorem wp_any {Q : Nat → List L → Prop} :
    (any : Prog L T Nat).wp D me held Q ↔ ∀ n, Q n held := Iff.rfl

@[simp] theorem wp_panic : (panic : Prog L T α).wp D me held Q ↔ True := Iff.rfl

theorem wp_seq {p : Prog L T α} {f : α → Prog L T β} {Q : β → List L → Prop}
    (h : p.wp D me held fun a held' => (f a).wp D me held' Q) : (p >>= f).wp D me held Q :=
  wp_bind.mpr h

@[simp] theorem wp_flip {Q : Bool → List L → Prop} :
    (flip : Prog L T Bool).wp D me held Q ↔ Q true held ∧ Q false held := by
  constructor
  · intro h
    exact ⟨h 0, h 1⟩
  · rintro ⟨htrue, hfalse⟩ n
    show Q (n == 0) held
    cases n == 0 with
    | true => exact htrue
    | false => exact hfalse

theorem wp_flip_seq {f : Bool → Prog L T α} (htrue : (f true).wp D me held Q)
    (hfalse : (f false).wp D me held Q) : (flip >>= f).wp D me held Q :=
  wp_seq (wp_flip.mpr ⟨htrue, hfalse⟩)

theorem wp_oneOf {ps : List (Prog L T Unit)} {Q : Unit → List L → Prop}
    (hps : ∀ p ∈ ps, p.wp D me held Q) (hnone : Q () held) : (oneOf ps).wp D me held Q := by
  intro n
  show (ps.getD n (ret ())).wp D me held Q
  rw [List.getD_eq_getElem?_getD]
  cases hn : ps[n]? with
  | none => exact hnone
  | some p => exact hps p (List.mem_of_getElem? hn)

theorem wp_self {t : T} {Q : T → List L → Prop} (hme : me = some t) (h : Q t held) :
    (self : Prog L T T).wp D me held Q := by
  subst hme
  exact h

/-- A loop whose rounds leave the locks as they are. -/
theorem wp_forM {ι : Type _} {xs : List ι} {body : ι → Prog L T Unit} {Q : Unit → List L → Prop}
    (hbody : ∀ x ∈ xs, (body x).wp D me held fun _ held' => held' = held) (h : Q () held) :
    (xs.forM body).wp D me held Q := by
  induction xs with
  | nil => exact h
  | cons x xs ih =>
      show (body x >>= fun _ => xs.forM body).wp D me held Q
      refine wp_seq (wp_mono (hbody x List.mem_cons_self) ?_)
      intro _ held' hheld
      subst hheld
      exact ih (fun y hy => hbody y (List.mem_cons_of_mem _ hy))

/-- A loop whose rounds leave the locks as they are, until one of them leaves
    it. -/
theorem wp_anyM {ι : Type _} {xs : List ι} {body : ι → Prog L T Bool} {Q : Bool → List L → Prop}
    (hbody : ∀ x ∈ xs, (body x).wp D me held fun stop held' =>
      if stop = true then Q true held' else held' = held) (h : Q false held) :
    (xs.anyM body).wp D me held Q := by
  induction xs with
  | nil => exact h
  | cons x xs ih =>
      rw [List.anyM]
      refine wp_seq (wp_mono (hbody x List.mem_cons_self) ?_)
      intro stop held' hstop
      cases stop with
      | true => exact hstop
      | false =>
          obtain rfl : held' = held := hstop
          exact ih fun y hy => hbody y (List.mem_cons_of_mem _ hy)

/-- A search whose rounds leave the locks as they are, until one of them finds
    what it looks for. -/
theorem wp_findM {ι : Type} {xs : List ι} {body : ι → Prog L T Bool} {Q : Option ι → List L → Prop}
    (hbody : ∀ x ∈ xs, (body x).wp D me held fun found held' =>
      if found = true then Q (some x) held' else held' = held) (h : Q none held) :
    (xs.findM? body).wp D me held Q := by
  induction xs with
  | nil => exact h
  | cons x xs ih =>
      rw [List.findM?]
      refine wp_seq (wp_mono (hbody x List.mem_cons_self) ?_)
      intro found held' hfound
      cases found with
      | true => exact hfound
      | false =>
          obtain rfl : held' = held := hfound
          exact ih fun y hy => hbody y (List.mem_cons_of_mem _ hy)

end Rules

end Prog

end G20OsLab.Lib
