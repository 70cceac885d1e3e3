/-
  G20OsLab.Kernel.FreeSlots

  Free slots and the calls addressed by pid.

  `allocproc` sets most fields of the slot it takes, but not `killed`, `chan`,
  `parent`, `xstate` and `sz`: it relies on `freeproc`, and on every other
  function to leave an `UNUSED` slot alone.  All of them do, except `kkill`,
  which has no test of the state and finds the pid 0 in an `UNUSED` slot.
-/

import G20OsLab.Kernel.Pending

namespace G20OsLab.Kernel

/-! ## Clean slots -/

/-- What an `UNUSED` slot keeps for the next `allocproc`; of `killed` only if
    `k` holds. -/
structure Proc.Clean (k : Prop) (p : Proc) : Prop where
  killed : k → p.killed = false
  pid : p.pid = 0
  chan : p.chan = none
  parent : p.parent = none
  xstate : p.xstate = 0
  sz : p.sz = 0

/-- A process as `allocproc` should return it. -/
structure Proc.Fresh (p : Proc) (pid : Int) : Prop where
  pid : p.pid = pid
  state : p.state = .used
  killed : p.killed = false
  chan : p.chan = none
  parent : p.parent = none
  xstate : p.xstate = 0
  sz : p.sz = 0
  times : p.rtime = 0 ∧ p.stime = 0 ∧ p.retime = 0
  priority : p.priority = defaultPriority
  mailbox : p.msgFlag = false ∧ p.msgBuf = .zero
  handler : p.signalHandler = 0 ∧ p.signalRegistered = false
  alarm : p.alarmInterval = 0 ∧ p.alarmElapsed = 0
  pending : p.pendingSignal = 0
  inflight : p.signalInflight = false ∧ p.activeSignal = 0 ∧ p.signalTf = .zero
  thread : p.isThread = false ∧ p.threadStack = 0

/-- Every `UNUSED` slot is clean. -/
def KState.FreeClean (k : Prop) (s : KState) : Prop :=
  ∀ j, (s.proc j).state = .unused → (s.proc j).Clean k

/-- A freed slot is clean, whatever it kept before. -/
theorem freeproc_clean (k : Prop) (p : Proc) : (freeproc p).Clean k :=
  ⟨fun _ => rfl, rfl, rfl, rfl, rfl, rfl⟩

/-- A clean slot makes a fresh process. -/
theorem allocproc_fresh {p np : Proc} {pid : Int} {pagesOk : Bool} (hp : p.Clean True)
    (h : allocproc p pid pagesOk = some np) : np.Fresh pid := by
  simp only [allocproc, Option.ite_none_right_eq_some, Option.some.injEq] at h
  obtain ⟨-, rfl⟩ := h
  constructor <;> simp [allocInit, hp.killed trivial, hp.chan, hp.parent, hp.xstate, hp.sz]

/-! ## The calls addressed by pid -/

/-- The pid argument of a process in `kkill`, `setpriority`, `getpriority`,
    `sigsend` or `msgsend`. -/
def Kpc.pidArg : Kpc → Option Int
  | .scan sc _ => sc.pidArg
  | .call (.msgsend pid _) => some pid
  | _ => none

/-- The section at `pc` looks at slot `j`: one slot in a scan, all of them
    under `wait_lock`. -/
def Kpc.LooksAt (pc : Kpc) (j : Fin nproc) : Prop :=
  match pc with
  | .scan _ k => (j : Nat) = k
  | _ => True

/-- The section of process `i` from `s` to `t` respects the free slots: it
    returns success (a value other than `-1`) only for a slot that is not
    `UNUSED`, and leaves the `UNUSED` ones unchanged. -/
structure RespectsFree (s : KState) (i : Fin nproc) (pid : Int) (t : KState) : Prop where
  success : t.kpc i = .trapExit false → (t.proc i).trapframe.a0 ≠ u64OfInt (-1) →
    ∃ j, (s.kpc i).LooksAt j ∧ (s.proc j).pid = pid ∧ (s.proc j).state ≠ .unused
  unchanged : ∀ j, (s.proc j).state = .unused → t.proc j = s.proc j

/-- The event is not a section of `kkill(0)` at an `UNUSED` slot. -/
def KState.SparesFree (s : KState) (e : Event) : Prop :=
  ∀ i (j : Fin nproc), s.At e i (.scan (.kill 0) j) → (s.proc j).state ≠ .unused

/-! ## The invariant -/

section

variable {s t : KState} {e : Event} {i j : Fin nproc} {o : Outcome}

/-- `UNUSED` slots stay clean, `killed` as long as `kkill(0)` does not reach one. -/
theorem clean_of_step {k : Prop} (hs : s.Pending) (hfree : k → s.SparesFree e)
    (hclean : s.FreeClean k) (h : step e s = some t) : t.FreeClean k := by
  intro j
  refine step_slot (I := fun p => p.state = .unused → p.Clean k) h (hclean j) ?_
  intro p q hp hm hq
  -- a slot that a process changes for itself is `RUNNING`
  have hrun : (s.proc j).state = .running → (s.proc j).state ≠ .unused := fun hj => by simp [hj]
  cases hm with
  -- the change leaves the slot in another state
  | schedule _ => simp at hq
  | yield _ => simp at hq
  | ready _ => simp at hq
  | sleep _ _ => simp [sleepOn] at hq
  | exit _ _ => simp [exitProc] at hq
  | fork _ _ => simp [forkChild, allocInit] at hq
  | clone _ _ => simp [cloneChild, allocInit] at hq
  -- the change frees the slot
  | abort _ _ _ _ => exact freeproc_clean k _
  | free _ _ _ _ => exact freeproc_clean k _
  -- the slot was `UNUSED` before
  | wakeup chan =>
      rcases wakeupProc_cases chan p with hsame | hwoken
      · rw [hsame] at hq ⊢
        exact hp hq
      · simp [hwoken] at hq
  | updateTime =>
      simp only [updateTime_state] at hq
      simpa [updateTime, hq] using hp hq
  | kill hat hpid =>
      rcases wake_cases { s.proc j with killed := true } with hsame | hwoken
      · have hunused : (s.proc j).state = .unused := by
          rwa [killProc, hsame] at hq
        have hold := hp hunused
        rw [hold.pid] at hpid
        subst hpid
        rw [killProc, hsame]
        exact { hold with killed := fun hk => absurd hunused (hfree hk _ _ hat) }
      · simp [killProc, hwoken] at hq
  | setpriority _ _ hused => exact absurd hq hused
  | sigsend _ _ hused =>
      rcases sigsendProc_state (s.proc j) _ with hsame | hwoken
      · exact absurd (hsame.symm.trans hq) hused
      · simp [hwoken] at hq
  | deliver _ _ _ _ hused => exact absurd (by simpa using hq) hused
  | link hat => simp [hs.link hat] at hq
  | reparent _ =>
      have hparent := (hp (by simpa using hq)).parent
      simpa [reparentProc, hparent] using hp (by simpa using hq)
  | regs tf _ => exact { hp hq with }
  -- the change is made for a slot in use
  | fault hrunning => exact absurd hq (hrun hrunning)
  | signaltick _ hrunning => exact absurd (by simpa using hq) (hrun hrunning)
  | exec hcommit => exact absurd hq (hrun hcommit.running)
  | tidy hat => exact absurd hq (hrun hat.running)
  | receive _ hat => exact absurd (by simpa using hq) (hrun hat.running)
  | sigalarm hat => exact absurd (by simpa using hq) (hrun hat.running)
  | sigreturn hat => exact absurd (by simpa using hq) (hrun hat.running)
  | signalcheck hat => exact absurd (by simpa using hq) (hrun hat.running)
  | sbrk _ hat => exact absurd hq (hrun hat.running)

/-- A call addressed by pid leaves an `UNUSED` slot as it is, unless it is
    `kkill(0)`. -/
theorem unused_unchanged {pc : Kpc} {pid : Int} (hs : s.Pending) (hfree : s.SparesFree e)
    (hclean : (s.proc j).Clean True) (hj : (s.proc j).state = .unused) (hat : s.At e i pc)
    (hpc : pc.pidArg = some pid) (h : step e s = some t) : t.proc j = s.proc j := by
  have hrun : (s.proc j).state ≠ .running := by simp [hj]
  have hself : ∀ {pc}, ¬ s.At e j pc := fun hat => hrun hat.running
  -- the section is the one at `pc`
  have hother : ∀ {i' pc'}, s.At e i' pc' → pc'.pidArg = some pid := fun hat' => by
    rw [(hat'.unique hat).2, hpc]
  refine step_slot (I := fun p => p = s.proc j) h rfl ?_
  intro p q hp hm
  cases hm with
  -- changes of all slots, or of those with a pid, pass an `UNUSED` one by
  | wakeup chan =>
      rcases wakeupProc_cases chan p with hsame | hwoken
      · rw [hsame, hp]
      · simp [hp, wakeupProc, wake, hj] at hwoken
  | updateTime => simp [updateTime, hj]
  | kill hat' hpid =>
      rw [hclean.pid] at hpid
      subst hpid
      exact absurd hj (hfree _ _ hat')
  | reparent hat' => simp [reparentProc, hclean.parent]
  -- the event is no `fork` or `clone`
  | abort _ hat' hscan _ => simpa [Kpc.pidArg, hscan] using hother hat'
  | fork hat' _ => simpa [Kpc.pidArg, Scan.pidArg] using hother hat'
  | clone hat' _ => simpa [Kpc.pidArg, Scan.pidArg] using hother hat'
  -- the slot is in use
  | link hat' => simp [hs.link hat'] at hj
  | ready hat' => simp [hs.ready hat'] at hj
  | schedule hstate => simp [hj] at hstate
  | free _ _ _ hstate => simp [hj] at hstate
  | setpriority _ _ hused => exact absurd hj hused
  | sigsend _ _ hused => exact absurd hj hused
  | deliver _ _ _ _ hused => exact absurd hj hused
  -- the process would have to run
  | yield hrunning => exact absurd hrunning hrun
  | fault hrunning => exact absurd hrunning hrun
  | regs _ hrunning => exact absurd hrunning hrun
  | signaltick _ hrunning => exact absurd hrunning hrun
  | exec hcommit => exact absurd hcommit.running hrun
  | sleep _ hat' => exact absurd hat' hself
  | tidy hat' => exact absurd hat' hself
  | exit hat' _ => exact absurd hat' hself
  | receive _ hat' => exact absurd hat' hself
  | sigalarm hat' => exact absurd hat' hself
  | sigreturn hat' => exact absurd hat' hself
  | signalcheck hat' => exact absurd hat' hself
  | sbrk _ hat' => exact absurd hat' hself

/-! ## Success -/

/-- Where a scan for a pid stops, it has found it. -/
theorem scanAt_pid {scan : Scan} {pid : Int} (hpid : scan.pidArg = some pid)
    (h : scanAt s i j o scan = some t) :
    (s.proc j).pid = pid ∧ ((s.proc j).state = .unused → scan = .kill pid) := by
  cases scan <;> simp only [Scan.pidArg, Option.some.injEq, reduceCtorEq] at hpid <;>
    simp only [scanAt, Option.ite_none_right_eq_some] at h <;> subst hpid
  case kill => exact ⟨h.1, fun _ => rfl⟩
  all_goals exact ⟨h.1.1, fun hunused => absurd hunused h.1.2⟩

/-- A scan for a pid succeeds at a slot that has it; only `kill` takes an `UNUSED`
    one. -/
theorem scan_success {scan : Scan} {k : Nat} {pid : Int} (hpid : scan.pidArg = some pid)
    (hpc : (scanSection s i o scan k).kpc i = .trapExit false)
    (ha0 : ((scanSection s i o scan k).proc i).trapframe.a0 ≠ u64OfInt (-1)) :
    ∃ j : Fin nproc, (j : Nat) = k ∧ (s.proc j).pid = pid ∧
      ((s.proc j).state = .unused → scan = .kill pid) := by
  rw [scanSection] at hpc ha0
  split at hpc
  · rename_i hk
    cases hscan : scanAt s i ⟨k, hk⟩ o scan with
    | none => simp [hscan, KState.setKpc] at hpc
    | some t => exact ⟨⟨k, hk⟩, rfl, scanAt_pid hpid hscan⟩
  · rename_i hk
    rw [dif_neg hk, retInt_a0] at ha0
    exact absurd rfl ha0

/-- A message gets to a process. -/
theorem msgsend_success {pid : Int}
    (ha0 : ((msgsend s i o pid).proc i).trapframe.a0 ≠ u64OfInt (-1)) :
    ∃ j : Fin nproc, (s.proc j).pid = pid ∧ (s.proc j).state ≠ .unused := by
  rw [msgsend] at ha0
  split at ha0
  · rename_i j hj
    have hfound := List.find?_some hj
    simp only [Bool.and_eq_true, decide_eq_true_eq] at hfound
    exact ⟨j, hfound.2, hfound.1⟩
  · exact absurd (retInt_a0 ..) ha0

/-- `kkill` at the slot with its pid marks it, whatever its state. -/
theorem kill_found {pid : Int} (hat : s.At e i (.scan (.kill pid) j))
    (hpid : (s.proc j).pid = pid) (h : step e s = some t) :
    t = s.setRet i j (killProc (s.proc j), 0) := by
  obtain ⟨o, -, rfl⟩ := step_scan hat h
  simp [scanSection, scanAt, hpid]

end

/-! ## Runs -/

section

variable {s t : KState} {i j : Fin nproc} {o : Outcome}

theorem bootState_clean (k : Prop) : bootState.FreeClean k := by
  intro j hj
  by_cases hinit : j = initSlot
  · simp [bootState, hinit] at hj
  · simp only [bootState, Function.update_of_ne hinit]
    exact ⟨fun _ => rfl, rfl, rfl, rfl, rfl, rfl⟩

theorem ReachableBy.freeClean {P : KState → Event → Prop} {k : Prop} (h : ReachableBy P s)
    (hP : k → ∀ s e, P s e → s.SparesFree e) : s.FreeClean k := by
  have hinv : s.Pending ∧ s.FreeClean k :=
    h.invariant (I := fun s => s.Pending ∧ s.FreeClean k) ⟨bootState_pending, bootState_clean k⟩
      fun ht hPt hstep =>
        ⟨step_pending ht.1 hstep, clean_of_step ht.1 (fun hk => hP hk _ _ hPt) ht.2 hstep⟩
  exact hinv.2

/-- In runs that spare free slots all of them are clean. -/
theorem ReachableBy.clean (h : ReachableBy KState.SparesFree s) : s.FreeClean True :=
  h.freeClean fun _ _ _ hspares => hspares

/-- A section that respects the free slots is no `kkill(0)` at one of them,
    which would mark it. -/
theorem RespectsFree.sparesFree {pid : Int} (hclean : s.FreeClean True)
    (hrespects : RespectsFree s i pid t) (h : step (.run i o) s = some t) :
    s.SparesFree (.run i o) := by
  intro i' j hat hj
  have hmarked : (t.proc j).killed = true := by
    rw [kill_found hat (hclean j hj).pid h]
    have hij : j ≠ i' := fun hij => by
      have hrunning := hat.running
      simp [← hij, hj] at hrunning
    rw [setRet_proc _ _ _ _ hij]
    exact killProc_killed _
  rw [hrespects.unchanged j hj, (hclean j hj).killed trivial] at hmarked
  cases hmarked

/-- A call addressed by pid returns success only for a slot in use. -/
theorem success_used {pid : Int} (hclean : s.FreeClean True) (hfree : s.SparesFree (.run i o))
    (hrun : (s.proc i).state = .running) (hpid : (s.kpc i).pidArg = some pid)
    (h : step (.run i o) s = some t) (hret : t.kpc i = .trapExit false)
    (ha0 : (t.proc i).trapframe.a0 ≠ u64OfInt (-1)) :
    ∃ j, (s.kpc i).LooksAt j ∧ (s.proc j).pid = pid ∧ (s.proc j).state ≠ .unused := by
  have hat : s.At (.run i o) i (s.kpc i) := ⟨⟨o, rfl⟩, hrun, rfl⟩
  cases hpc : s.kpc i with
  | scan scan k =>
      rw [hpc] at hat hpid
      obtain ⟨o', -, rfl⟩ := step_scan hat h
      obtain ⟨j, hj, hfound, hkill⟩ := scan_success hpid hret ha0
      refine ⟨j, hj, hfound, ?_⟩
      intro hunused
      -- only `kkill` finds an `UNUSED` slot, and it does so for pid 0
      obtain rfl := hkill hunused
      rw [(hclean j hunused).pid] at hfound
      subst hj hfound
      exact hfree i j hat hunused
  | call call =>
      rw [hpc] at hat hpid
      cases call <;> simp only [Kpc.pidArg, Option.some.injEq, reduceCtorEq] at hpid
      case msgsend pid' msg =>
        subst hpid
        obtain ⟨o', -, hsend⟩ := hat.step h
        simp only [runSection, hat.2.2, callSection, Option.some.injEq] at hsend
        subst hsend
        obtain ⟨j, hfound, hused⟩ := msgsend_success ha0
        exact ⟨j, trivial, hfound, hused⟩
  | _ => simp [hpc, Kpc.pidArg] at hpid

/-- In every run in which no `kkill(0)` reaches an `UNUSED` slot, `allocproc`
    returns fresh processes, and a call addressed by pid respects the free
    slots exactly if it is not such a `kkill` itself. -/
theorem free_slots_respected (hs : ReachableBy KState.SparesFree s) :
    (∀ j pid pagesOk np, (s.proc j).state = .unused →
      allocproc (s.proc j) pid pagesOk = some np → np.Fresh pid) ∧
    ∀ i o pid t, (s.kpc i).pidArg = some pid → step (.run i o) s = some t →
      (RespectsFree s i pid t ↔ s.SparesFree (.run i o)) := by
  refine ⟨fun j pid pagesOk np hj h => allocproc_fresh (hs.clean j hj) h, ?_⟩
  intro i o pid t hpid h
  have hrun : (s.proc i).state = .running := by
    simp only [step, Option.ite_none_right_eq_some] at h
    exact h.1
  refine ⟨fun hrespects => hrespects.sparesFree hs.clean h, fun hfree => ⟨?_, ?_⟩⟩
  · intro hret ha0
    exact success_used hs.clean hfree hrun hpid h hret ha0
  · intro j hj
    exact unused_unchanged hs.pending hfree (hs.clean j hj) hj ⟨⟨o, rfl⟩, hrun, rfl⟩ hpid h

end

/-- The first process kills itself: up to the section of `kkill(1)` at slot 0. -/
def killSelfEvents : List Event := bootEvents ++ syscallEvents initSlot 6 1 0 0

/-- No process is in `kkill(0)`. -/
def noKillZero (s : KState) (e : Event) : Bool :=
  match e with
  | .run i _ => match s.kpc i with
    | .scan (.kill pid) _ => decide (pid ≠ 0)
    | _ => true
  | _ => true

theorem noKillZero_sparesFree {s : KState} {e : Event} (h : noKillZero s e = true) :
    s.SparesFree e := by
  rintro i j ⟨⟨o, rfl⟩, -, hpc⟩
  simp [noKillZero, hpc] at h

theorem free_slots_respected_killSelf :
    ∃ t, step (.run initSlot {}) (stateAfter killSelfEvents) = some t ∧
      RespectsFree (stateAfter killSelfEvents) initSlot 1 t := by
  have hs : ReachableBy KState.SparesFree (stateAfter killSelfEvents) :=
    ReachableBy.stateAfter (fun _ _ => noKillZero_sparesFree) (by decide +kernel)
  obtain ⟨t, ht⟩ := Option.isSome_iff_exists.mp
    (by decide +kernel : (step (.run initSlot {}) (stateAfter killSelfEvents)).isSome = true)
  refine ⟨t, ht, ((free_slots_respected hs).2 _ _ _ _ (by decide +kernel) ht).mpr ?_⟩
  exact noKillZero_sparesFree (by decide +kernel)

/-- The first process calls `kill(0)`: up to the section at slot 1. -/
def killZeroEvents : List Event :=
  bootEvents ++ syscallEvents initSlot 6 0 0 0 ++ [.run initSlot {}]

/-- `kill(0)` returns 0 for the `UNUSED` slot 1 and marks it killed; the next
    process allocated there starts out killed. -/
theorem killZero_marks_free_slot :
    ∃ s t, Reachable s ∧ (s.kpc initSlot).pidArg = some 0 ∧ step (.run initSlot {}) s = some t ∧
      ¬ RespectsFree s initSlot 0 t ∧
      (t.proc ⟨1, by decide⟩).state = .unused ∧
      (allocproc (t.proc ⟨1, by decide⟩) t.nextpid true).map (·.killed) = some true := by
  obtain ⟨t, ht⟩ := Option.isSome_iff_exists.mp
    (by decide +kernel : (step (.run initSlot {}) (stateAfter killZeroEvents)).isSome = true)
  have hmarked : (step (.run initSlot {}) (stateAfter killZeroEvents)).map
      (fun t => ((t.proc ⟨1, by decide⟩).killed, (t.proc ⟨1, by decide⟩).state)) =
        some (true, .unused) := by decide +kernel
  rw [ht, Option.map_some, Option.some.injEq, Prod.mk.injEq] at hmarked
  refine ⟨_, t, Reachable.stateAfter (by decide +kernel), by decide +kernel, ht, fun h => ?_,
    hmarked.2, ?_⟩
  · have hsame := h.unchanged ⟨1, by decide⟩ (by decide +kernel)
    have hfree : ((stateAfter killZeroEvents).proc ⟨1, by decide⟩).killed = false := by
      decide +kernel
    rw [← hsame, hmarked.1] at hfree
    cases hfree
  · simpa [allocproc, allocInit] using hmarked.1

end G20OsLab.Kernel
