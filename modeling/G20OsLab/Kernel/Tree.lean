/-
  G20OsLab.Kernel.Tree

  The process tree.

  Every process but `init` has a living parent: an exiting process hands its
  children over before it becomes a `ZOMBIE`, and a creator does not exit
  between `np->parent = p` and `np->state = RUNNABLE`.  Pids are never given
  out twice, so a child that a wait has reported is not reported again.
-/

import G20OsLab.Kernel.Frame
import G20OsLab.Kernel.FreeSlots
import G20OsLab.Kernel.Observe

namespace G20OsLab.Kernel

/-! ## Living processes -/

/-- Neither `UNUSED` nor `ZOMBIE`. -/
def Proc.Alive (p : Proc) : Prop := p.state ≠ .unused ∧ p.state ≠ .zombie

/-- The process has been `RUNNABLE`. -/
def Proc.Started (p : Proc) : Prop := p.state ≠ .unused ∧ p.state ≠ .used

theorem alive_of_running {p : Proc} (h : p.state = .running) : p.Alive :=
  ⟨by simp [h], by simp [h]⟩

/-- The scan is that of `kclone`. -/
def Scan.IsClone : Scan → Bool
  | .clone _ _ _ => true
  | _ => false

/-! ## Changes of the tree -/

/-- The process stays where it is in the tree and in its life: `UNUSED`,
    `USED`, `ZOMBIE`, or one of the states in between. -/
structure Proc.SamePlace (p q : Proc) : Prop extends p.SameFamily q where
  unused : q.state = .unused ↔ p.state = .unused
  used : q.state = .used ↔ p.state = .used
  zombie : q.state = .zombie ↔ p.state = .zombie

/-- What a change of slot `j` does to the process tree. -/
inductive TreeChange (s : KState) (e : Event) (j : Fin nproc) : Proc → Proc → Prop
  | same {p q : Proc} (h : p.SamePlace q) : TreeChange s e j p q
  | spawn {i : Fin nproc} {scan : Scan} {q : Proc} (hat : s.At e i (.scan scan j))
      (hscan : scan.pidArg = none) (hp : (s.proc j).state = .unused) (hq : q.state = .used)
      (hpid : q.pid = s.nextpid) (hparent : q.parent = (s.proc j).parent)
      (hthread : q.isThread = scan.IsClone) : TreeChange s e j (s.proc j) q
  | abort {q : Proc} (hp : (s.proc j).state = .unused) (hq : q.state = .unused)
      (hparent : q.parent = none) : TreeChange s e j (s.proc j) q
  | link {i : Fin nproc} {pid : Int} (hat : s.At e i (.link j pid)) :
      TreeChange s e j (s.proc j) { s.proc j with parent := some i }
  | ready {i : Fin nproc} {pid : Int} (hat : s.At e i (.ready j pid)) :
      TreeChange s e j (s.proc j) { s.proc j with state := .runnable }
  | reparent {i : Fin nproc} {status : Int} (hat : s.At e i (.call (.exit status))) :
      TreeChange s e j (s.proc j) (reparentProc i s.initproc (s.proc j))
  | exit {p : Proc} {status : Int} (hat : s.At e j (.call (.exit status)))
      (hj : j ≠ s.initproc) : TreeChange s e j p (exitProc p status)
  | free {i : Fin nproc} {call : Call} (hat : s.At e i (.call call))
      (hreaps : call.Reaps (s.proc j)) (hparent : (s.proc j).parent = some i)
      (hp : (s.proc j).state = .zombie) : TreeChange s e j (s.proc j) (freeproc (s.proc j))

section

variable {s t : KState} {e : Event} {i i' j : Fin nproc} {o : Outcome} {p q : Proc}

/-- A process with the same family and state has the same place. -/
theorem Proc.SameFamily.samePlace (h : p.SameFamily q) (hstate : q.state = p.state) :
    p.SamePlace q where
  toSameFamily := h
  unused := by rw [hstate]
  used := by rw [hstate]
  zombie := by rw [hstate]

theorem Proc.SamePlace.started (h : p.SamePlace q) : q.Started ↔ p.Started :=
  and_congr (not_congr h.unused) (not_congr h.used)

/-- A move between `SLEEPING`, `RUNNABLE` and `RUNNING`. -/
theorem Proc.SameFamily.samePlace_of_moved (h : p.SameFamily q)
    (hp : p.state = .sleeping ∨ p.state = .runnable ∨ p.state = .running)
    (hq : q.state = .sleeping ∨ q.state = .runnable ∨ q.state = .running) : p.SamePlace q where
  toSameFamily := h
  unused := by rcases hp with hp | hp | hp <;> rcases hq with hq | hq | hq <;> simp [hp, hq]
  used := by rcases hp with hp | hp | hp <;> rcases hq with hq | hq | hq <;> simp [hp, hq]
  zombie := by rcases hp with hp | hp | hp <;> rcases hq with hq | hq | hq <;> simp [hp, hq]

theorem wake_samePlace (p : Proc) : p.SamePlace (wake p) := by
  by_cases hp : p.state = .sleeping
  · apply (wake_sameFamily p).samePlace_of_moved (.inl hp)
    rw [wake, if_pos hp]
    exact .inr (.inl rfl)
  · apply (wake_sameFamily p).samePlace
    rw [wake, if_neg hp]

theorem wakeupProc_samePlace (chan : Option Chan) (p : Proc) :
    p.SamePlace (wakeupProc chan p) := by
  rw [wakeupProc]
  split
  · exact wake_samePlace p
  · exact Proc.SameFamily.samePlace ⟨rfl, rfl, rfl, rfl⟩ rfl

theorem killProc_samePlace (p : Proc) : p.SamePlace (killProc p) := by
  have h := wake_samePlace { p with killed := true }
  exact ⟨killProc_sameFamily p, h.unused, h.used, h.zombie⟩

theorem sigsendProc_samePlace (p : Proc) (signum : Int) :
    p.SamePlace (sigsendProc p signum).1 := by
  by_cases hfail : p.signalRegistered = false ∨ p.pendingSignal ≠ 0
  · apply (sigsendProc_sameFamily p signum).samePlace
    rw [sigsendProc, if_pos hfail]
  · have h := wake_samePlace { p with pendingSignal := signum }
    have hset : (sigsendProc p signum).1 = wake { p with pendingSignal := signum } := by
      rw [sigsendProc, if_neg hfail]
    rw [hset]
    exact ⟨hset ▸ sigsendProc_sameFamily p signum, h.unused, h.used, h.zombie⟩

/-- All other changes leave the tree alone. -/
theorem Mutation.treeChange (hm : Mutation s e j p q) : TreeChange s e j p q := by
  -- a change that writes neither the tree fields nor the state
  have hsame : ∀ {p q : Proc}, p.SameFamily q → q.state = p.state → TreeChange s e j p q :=
    fun h hstate => .same (h.samePlace hstate)
  cases hm with
  | schedule hp =>
      exact .same (Proc.SameFamily.samePlace_of_moved ⟨rfl, rfl, rfl, rfl⟩ (.inr (.inl hp))
        (.inr (.inr rfl)))
  | yield hp =>
      exact .same (Proc.SameFamily.samePlace_of_moved ⟨rfl, rfl, rfl, rfl⟩ (.inr (.inr hp))
        (.inr (.inl rfl)))
  | sleep _ hat =>
      exact .same (Proc.SameFamily.samePlace_of_moved ⟨rfl, rfl, rfl, rfl⟩
        (.inr (.inr hat.running)) (.inl rfl))
  | wakeup chan => exact .same (wakeupProc_samePlace chan p)
  | kill _ _ => exact .same (killProc_samePlace _)
  | sigsend _ _ _ => exact .same (sigsendProc_samePlace _ _)
  | updateTime => exact hsame (updateTime_sameFamily _) (updateTime_state _)
  | deliver _ _ _ _ _ => exact hsame (msgsendProc_sameFamily _ _ _) (msgsendProc_state _ _ _)
  | receive _ _ _ => exact hsame (msgrecvProc_sameFamily _ _) (msgrecvProc_state _ _)
  | sigalarm _ => exact hsame (sigalarm_sameFamily _ _ _) (sigalarm_state _ _ _)
  | sigreturn _ => exact hsame (sigreturn_sameFamily _) (sigreturn_state _)
  | signalcheck _ => exact hsame (signalcheck_sameFamily _) (signalcheck_state _)
  | @signaltick regs _ _ =>
      have h := signaltick_sameFamily { s.proc j with trapframe := regs }
      exact hsame ⟨h.pid, h.parent, h.xstate, h.isThread⟩ (signaltick_state _)
  | abort _ _ _ hunused => exact .abort hunused rfl rfl
  | fork hat hunused => exact .spawn hat rfl hunused rfl rfl rfl rfl
  | clone hat hunused => exact .spawn hat rfl hunused rfl rfl rfl rfl
  | link hat => exact .link hat
  | ready hat => exact .ready hat
  | reparent hat => exact .reparent hat
  | exit hat hj => exact .exit hat hj
  | free hat hreaps hparent hp => exact .free hat hreaps hparent hp
  | _ => exact hsame ⟨rfl, rfl, rfl, rfl⟩ rfl

/-- A property of a slot that no change of the tree destroys is kept by the step. -/
theorem step_tree {I : Proc → Prop} (h : step e s = some t) (h0 : I (s.proc j))
    (hI : ∀ p q, I p → TreeChange s e j p q → I q) : I (t.proc j) :=
  step_slot h h0 fun p q hp hm => hI p q hp hm.treeChange

/-! ## Life and death -/

/-- A living process dies only by its own `exit`. -/
theorem alive_of_step (hs : (s.proc j).Alive) (h : step e s = some t)
    (hexit : ∀ status, ¬ s.At e j (.call (.exit status))) : (t.proc j).Alive := by
  refine step_tree (I := Proc.Alive) h hs ?_
  intro p q hp hm
  cases hm with
  | same hsame => exact ⟨mt hsame.unused.mp hp.1, mt hsame.zombie.mp hp.2⟩
  | spawn _ _ hunused => exact absurd hunused hs.1
  | abort hunused => exact absurd hunused hs.1
  | link _ => exact hp
  | ready _ => exact ⟨nofun, nofun⟩
  | reparent _ => exact ⟨by simpa using hp.1, by simpa using hp.2⟩
  | exit hat _ => exact absurd hat (hexit _)
  | free _ _ _ hzombie => exact absurd hzombie hs.2

theorem wakeup_parent (chan : Option Chan) :
    ((s.wakeup chan).proc j).parent = (s.proc j).parent :=
  (wakeupProc_sameFamily (s.proc j) chan).parent

theorem reparent_parent :
    ((reparent s i).proc j).parent = (reparentProc i s.initproc (s.proc j)).parent := by
  rw [reparent]
  split
  · exact wakeup_parent ..
  · rfl

theorem kexit_parent {status : Int} :
    ((kexit s i status).proc j).parent = (reparentProc i s.initproc (s.proc j)).parent := by
  simp only [kexit, setProc_proc]
  by_cases hj : j = i
  · subst hj
    rw [Function.update_self]
    exact (wakeup_parent ..).trans reparent_parent
  · rw [Function.update_of_ne hj]
    exact (wakeup_parent ..).trans reparent_parent

/-- A process that exits leaves no child. -/
theorem kexit_orphans {status : Int} (hi : i ≠ s.initproc) :
    ((kexit s i status).proc j).parent ≠ some i := by
  rw [kexit_parent, reparentProc]
  split
  · simpa using hi.symm
  · rename_i hchild
    exact hchild

/-- A live process lives on, or leaves no children; the first one lives on. -/
theorem alive_or_orphans (hs : (s.proc i).Alive) (h : step e s = some t) :
    (t.proc i).Alive ∨ i ≠ s.initproc ∧ ∀ j, (t.proc j).parent ≠ some i := by
  by_cases hexit : ∃ status, s.At e i (.call (.exit status))
  · obtain ⟨status, hat⟩ := hexit
    obtain ⟨o, -, ho⟩ := hat.step h
    simp only [runSection, hat.2.2, callSection, Option.ite_none_left_eq_some] at ho
    obtain ⟨hi, ho⟩ := ho
    cases hsleep : o.sleepOn with
    -- it still closes its files
    | some number =>
        simp only [hsleep, Option.some.injEq] at ho
        subst ho
        left
        simp [KState.sleep, sleepOn, Proc.Alive]
    | none =>
        simp only [hsleep, Option.some.injEq] at ho
        subst ho
        exact .inr ⟨hi, fun j => kexit_orphans hi⟩
  · exact .inl (alive_of_step hs h fun status hat => hexit ⟨status, hat⟩)

/-! ## Parents -/

/-- A child of a process is an old one, a new one, or an orphan. -/
theorem parent_of_step (h : step e s = some t) (hj : (t.proc j).parent = some i) :
    (s.proc j).parent = some i ∨ (∃ pid, s.At e i (.link j pid)) ∨ i = s.initproc := by
  refine step_tree (I := fun p => p.parent = some i → (s.proc j).parent = some i ∨
    (∃ pid, s.At e i (.link j pid)) ∨ i = s.initproc) h .inl (fun p q hp hm hq => ?_) hj
  cases hm with
  | same hsame => exact hp (hsame.parent.symm.trans hq)
  | spawn _ _ _ _ _ hparent _ => exact hp (hparent.symm.trans hq)
  | abort _ _ hparent => exact absurd (hparent.symm.trans hq) nofun
  | link hat =>
      obtain rfl := Option.some.inj hq
      exact .inr (.inl ⟨_, hat⟩)
  | ready _ => exact hp hq
  | reparent _ =>
      rw [reparentProc] at hq
      split at hq
      · exact .inr (.inr (Option.some.inj hq).symm)
      · exact hp hq
  | exit _ _ => exact hp hq
  | free _ _ _ _ => cases hq

/-- The step that links a child sets its parent only. -/
theorem step_link {pid : Int} (hat : s.At e i (.link j pid)) (h : step e s = some t) :
    t = (s.setProc j { s.proc j with parent := some i }).setKpc i (.ready j pid) := by
  obtain ⟨o, -, ho⟩ := hat.step h
  simpa [runSection, hat.2.2] using ho.symm

/-! ## Births -/

/-- A pid that a new process gets is used up. -/
theorem nextpid_of_spawn {scan : Scan} (hat : s.At e i (.scan scan j))
    (hscan : scan.pidArg = none) (hj : (s.proc j).state = .unused) (h : step e s = some t) :
    t.nextpid = s.nextpid + 1 := by
  have hspawn : ∀ o child, (spawn s i j o child).nextpid = s.nextpid + 1 := by
    intro o child
    simp only [spawn, allocproc]
    cases o.pagesOk with
    | false => rfl
    | true =>
        simp only [if_true]
        split <;> rfl
  obtain ⟨o, -, rfl⟩ := step_scan hat h
  rw [scanSection_eq]
  cases scan with
  | fork priority => simpa [scanAt, hj] using hspawn ..
  | clone fn stack arg => simpa [scanAt, hj] using hspawn ..
  | _ => cases hscan

/-- A slot in use is kept for one process until its parent frees it. -/
theorem kept_or_freed (hs : (s.proc j).state ≠ .unused) (h : step e s = some t) :
    (t.proc j).state ≠ .unused ∧ (t.proc j).pid = (s.proc j).pid ∧
        (t.proc j).isThread = (s.proc j).isThread ∨
      (t.proc j).state = .unused ∧ (s.proc j).state = .zombie ∧
        ∃ i call, s.At e i (.call call) ∧ call.Reaps (s.proc j) ∧ (s.proc j).parent = some i := by
  refine step_tree (I := fun p => p.state ≠ .unused ∧ p.pid = (s.proc j).pid ∧
      p.isThread = (s.proc j).isThread ∨ p.state = .unused ∧ (s.proc j).state = .zombie ∧
        ∃ i call, s.At e i (.call call) ∧ call.Reaps (s.proc j) ∧ (s.proc j).parent = some i)
    h (.inl ⟨hs, rfl, rfl⟩) fun p q hp hm => ?_
  cases hm with
  | same hsame =>
      rw [hsame.pid, hsame.isThread, ne_eq, hsame.unused]
      exact hp
  | spawn _ _ hunused => exact absurd hunused hs
  | abort hunused => exact absurd hunused hs
  | reparent _ =>
      rw [reparentProc]
      split <;> exact .inl ⟨hs, rfl, rfl⟩
  | exit hat _ =>
      rcases hp with ⟨-, hkept⟩ | ⟨-, hzombie, -⟩
      · exact .inl ⟨by simp [exitProc], hkept⟩
      · simp [hat.running] at hzombie
  | free hat hreaps hparent hzombie => exact .inr ⟨rfl, hzombie, _, _, hat, hreaps, hparent⟩
  | ready _ => exact .inl ⟨by simp, rfl, rfl⟩
  | link _ => exact .inl ⟨hs, rfl, rfl⟩

/-- A slot comes into use by a scan of `fork_with_priority` or `kclone`, which
    gives it the next pid. -/
theorem born_of_step (hpending : s.Pending) (hs : (s.proc j).state = .unused)
    (h : step e s = some t) (ht : (t.proc j).state ≠ .unused) :
    ∃ i scan, s.At e i (.scan scan j) ∧ scan.pidArg = none ∧ (t.proc j).pid = s.nextpid ∧
      (t.proc j).isThread = scan.IsClone ∧ t.nextpid = s.nextpid + 1 := by
  refine step_tree (I := fun p => p.state ≠ .unused → ∃ i scan, s.At e i (.scan scan j) ∧
    scan.pidArg = none ∧ p.pid = s.nextpid ∧ p.isThread = scan.IsClone ∧
      t.nextpid = s.nextpid + 1) h (fun hused => absurd hs hused) (fun p q hp hm hq => ?_) ht
  cases hm with
  | same hsame =>
      rw [hsame.pid, hsame.isThread]
      exact hp (mt hsame.unused.mpr hq)
  | spawn hat hscan hunused _ hpid _ hthread =>
      exact ⟨_, _, hat, hscan, hpid, hthread, nextpid_of_spawn hat hscan hunused h⟩
  | abort _ hunused => exact absurd hunused hq
  | link _ => exact absurd hs hq
  | ready hat => simp [hpending.ready hat] at hs
  | reparent _ => exact absurd hs (by simpa using hq)
  | exit hat _ => simp [hat.running] at hs
  | free _ _ _ _ => exact absurd rfl hq

/-! ## The invariant -/

/-- The invariant of the process tree. -/
structure KState.TreeInv (s : KState) : Prop where
  parent_alive : ∀ {j i}, (s.proc j).parent = some i → (s.proc i).Alive
  init_alive : (s.proc s.initproc).Alive
  /-- set before the process is `RUNNABLE` -/
  linked : ∀ {j}, (s.proc j).Started → j ≠ s.initproc → (s.proc j).parent ≠ none
  ready : ∀ {i j pid}, s.kpc i = .ready j pid → (s.proc j).parent = some i
  nextpid_pos : 0 < s.nextpid
  pid_range : ∀ {j}, (s.proc j).state ≠ .unused → 0 < (s.proc j).pid ∧ (s.proc j).pid < s.nextpid
  pid_inj : ∀ {i j}, (s.proc i).state ≠ .unused → (s.proc j).state ≠ .unused →
    (s.proc i).pid = (s.proc j).pid → i = j

/-- A process that has started has a parent, the first one apart. -/
theorem linked_of_step (hs : s.TreeInv) (h : step e s = some t) (hj : j ≠ s.initproc)
    (ht : (t.proc j).Started) : (t.proc j).parent ≠ none := by
  have hkept : (t.proc j).parent ≠ none ∨
      ¬ (t.proc j).Started ∧ ∀ status, ¬ s.At e j (.call (.exit status)) := by
    refine step_tree (I := fun p => p.parent ≠ none ∨
      ¬ p.Started ∧ ∀ status, ¬ s.At e j (.call (.exit status))) h ?_ fun p q hp hm => ?_
    · by_cases hstarted : (s.proc j).Started
      · exact .inl (hs.linked hstarted hj)
      · refine .inr ⟨hstarted, fun status hat => hstarted ?_⟩
        exact ⟨by simp [hat.running], by simp [hat.running]⟩
    · cases hm with
      | same hsame =>
          rw [hsame.parent, hsame.started]
          exact hp
      | spawn _ _ hunused hused =>
          exact .inr ⟨fun hq => hq.2 hused, fun status hat => by simp [hat.running] at hunused⟩
      | abort hunused hunused' =>
          exact .inr ⟨fun hq => hq.1 hunused', fun status hat => by simp [hat.running] at hunused⟩
      | link _ => exact .inl (by simp)
      | ready hat => exact .inl (by simp [hs.ready hat.2.2])
      | reparent _ =>
          rw [reparentProc]
          split
          · exact .inl (by simp)
          · exact hp
      | exit hat _ =>
          rcases hp with hparent | ⟨-, hexit⟩
          · exact .inl hparent
          · exact absurd hat (hexit _)
      | free _ _ _ hzombie =>
          exact .inr ⟨fun hq => hq.1 rfl, fun status hat => by simp [hat.running] at hzombie⟩
  rcases hkept with hparent | ⟨hstarted, -⟩
  · exact hparent
  · exact absurd ht hstarted

/-- A child that is made ready is linked. -/
theorem ready_of_step {pid : Int} (hpending : s.Pending) (hs : s.TreeInv)
    (h : step e s = some t) (hi : t.kpc i = .ready j pid) : (t.proc j).parent = some i := by
  have hcontrol := (step_effect h).kpc i
  rw [hi] at hcontrol
  generalize hpc : Kpc.ready j pid = pc at hcontrol
  cases hcontrol with
  | ready hat =>
      obtain ⟨rfl, rfl⟩ := Kpc.ready.inj hpc
      rw [step_link hat h]
      simp
  | stay =>
      have hused : (s.proc j).state = .used := hpending.used (i := i) (by rw [← hpc]; rfl)
      refine step_tree (I := fun p => p.parent = some i) h (hs.ready hpc.symm) ?_
      intro p q hp hm
      cases hm with
      | same hsame => rw [hsame.parent, hp]
      | spawn _ _ hunused => simp [hused] at hunused
      | abort hunused => simp [hused] at hunused
      | link hat =>
          -- the child has one creator
          have hunique := hpending.unique (i := i) (j := j) (by rw [← hpc]; rfl)
            (by rw [hat.2.2]; rfl)
          rw [hunique]
      | ready _ => exact hp
      | reparent hat =>
          -- and this one does not exit
          rw [reparentProc]
          split
          · rename_i hexit
            obtain rfl := Option.some.inj (hp.symm.trans hexit)
            have hsame := hpc.trans hat.2.2
            cases hsame
          · exact hp
      | exit hat _ => simp [hat.running] at hused
      | free _ _ _ hzombie => simp [hused] at hzombie
  | _ => cases hpc

/-- Every step keeps the process tree. -/
theorem treeInv_of_step (hpending : s.Pending) (hs : s.TreeInv) (h : step e s = some t) :
    t.TreeInv where
  parent_alive {j i} hj := by
    rcases parent_of_step h hj with hold | ⟨pid, hat⟩ | rfl
    · rcases alive_or_orphans (hs.parent_alive hold) h with halive | ⟨-, horphans⟩
      · exact halive
      · exact absurd hj (horphans j)
    · rcases alive_or_orphans (alive_of_running hat.running) h with halive | ⟨-, horphans⟩
      · exact halive
      · exact absurd hj (horphans j)
    · rcases alive_or_orphans hs.init_alive h with halive | ⟨hinit, -⟩
      · exact halive
      · exact absurd rfl hinit
  init_alive := by
    rw [(step_effect h).initproc]
    rcases alive_or_orphans hs.init_alive h with halive | ⟨hinit, -⟩
    · exact halive
    · exact absurd rfl hinit
  linked hj hinit := by
    rw [(step_effect h).initproc] at hinit
    exact linked_of_step hs h hinit hj
  ready hi := ready_of_step hpending hs h hi
  nextpid_pos := by
    have hle := (step_effect h).nextpid
    have hpos := hs.nextpid_pos
    omega
  pid_range {j} hj := by
    have hle := (step_effect h).nextpid
    by_cases hunused : (s.proc j).state = .unused
    · obtain ⟨i, scan, -, -, hpid, -, hnext⟩ := born_of_step hpending hunused h hj
      have hpos := hs.nextpid_pos
      omega
    · have hrange := hs.pid_range hunused
      rcases kept_or_freed hunused h with ⟨-, hpid, -⟩ | ⟨hfreed, -⟩
      · omega
      · exact absurd hfreed hj
  pid_inj {i j} hi hj hpid := by
    by_cases hi' : (s.proc i).state = .unused
    · obtain ⟨_, scan, hat, -, hpidi, -⟩ := born_of_step hpending hi' h hi
      by_cases hj' : (s.proc j).state = .unused
      -- one section takes one slot
      · obtain ⟨_, scan', hat', -⟩ := born_of_step hpending hj' h hj
        obtain ⟨-, hpc⟩ := hat.unique hat'
        exact Fin.ext (Kpc.scan.inj hpc).2
      · have hrange := (hs.pid_range hj').2
        rcases kept_or_freed hj' h with ⟨-, hpidj, -⟩ | ⟨hfreed, -⟩
        · omega
        · exact absurd hfreed hj
    · rcases kept_or_freed hi' h with ⟨-, hpidi, -⟩ | ⟨hfreed, -⟩
      · by_cases hj' : (s.proc j).state = .unused
        · obtain ⟨_, scan, hat, -, hpidj, -⟩ := born_of_step hpending hj' h hj
          have hrange := (hs.pid_range hi').2
          omega
        · rcases kept_or_freed hj' h with ⟨-, hpidj, -⟩ | ⟨hfreed, -⟩
          · exact hs.pid_inj hi' hj' (by omega)
          · exact absurd hfreed hj
      · exact absurd hfreed hi

end

end G20OsLab.Kernel
