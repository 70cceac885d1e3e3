/-
  G20OsLab.Kernel.AlarmTicks

  The ticks of an alarm.

  `alarm_elapsed` is meant to hold the ticks since the last alarm
  (`kernel/proc.h`).  A history counts the ticks and the alarms of a slot from
  `sigalarm` on; the field is what the alarms leave over of the ticks precisely
  as long as no interval ends while another signal is pending: `signaltick`
  then raises no `SIGALRM` and starts over all the same.
-/

import G20OsLab.Kernel.InitReaps
import G20OsLab.Kernel.Signals

namespace G20OsLab.Kernel

/-! ## The history of an alarm -/

/-- What has become of an alarm since `sigalarm(interval, _)`: the calls of
    `signaltick` that found no handler in flight, and the ends of an interval
    that queued a `SIGALRM` or found one pending. -/
structure AlarmCount where
  interval : Int
  ticks : Nat
  alarms : Nat
  deriving DecidableEq, Repr

/-- The tests of `signaltick` for the end of an interval. -/
def expires (p : Proc) : Bool :=
  decide (p.alarmInterval > 0) && p.signalRegistered && !p.signalInflight &&
    decide (p.alarmElapsed + 1 ≥ p.alarmInterval)

/-- A `SIGALRM` is pending or can be queued. -/
def takesAlarm (p : Proc) : Bool :=
  decide (p.pendingSignal = 0) || decide (p.pendingSignal = sigalrm)

/-- A call of `signaltick` on `p`. -/
def AlarmCount.tick (p : Proc) (c : AlarmCount) : AlarmCount :=
  if p.signalInflight then c
  else
    { c with
      ticks := c.ticks + 1
      alarms := if expires p && takesAlarm p then c.alarms + 1 else c.alarms }

/-- What a call that returns makes of the history of slot `j`: `sigalarm`
    ends it and starts another one, `exec` ends it. -/
def alarmCall (j : Fin nproc) (ret : Option (Fin nproc × Kpc × UInt64)) (x : Option AlarmCount) :
    Option AlarmCount :=
  match ret with
  | some (i, .call (.sigalarm ticks _), v) =>
      if i = j ∧ v = 0 then (if 0 < ticks then some ⟨ticks, 0, 0⟩ else none) else x
  | some (i, .call .exec, v) => if i = j ∧ v ≠ u64OfInt (-1) then none else x
  | _ => x

/-- The history of the alarm of slot `j`; it ends with the process. -/
def alarmNote (j : Fin nproc) (s : KState) (e : Event) (t : KState) (x : Option AlarmCount) :
    Option AlarmCount :=
  if (t.proc j).state = .unused then none
  else
    match e with
    | .trap i _ .timer => if i = j then x.map (AlarmCount.tick (s.proc j)) else x
    | _ => alarmCall j (returned s e t) x

/-- The alarm of a process counts: all ticks but `alarm_elapsed` of them are
    in alarms. -/
def AlarmCount.Counts (c : AlarmCount) (p : Proc) : Prop :=
  (c.ticks : Int) = c.interval * c.alarms + p.alarmElapsed

/-- The history belongs to the alarm of a process, and counts it. -/
structure AlarmCount.Kept (c : AlarmCount) (p : Proc) : Prop where
  used : p.state ≠ .unused
  pos : 0 < c.interval
  interval : p.alarmInterval = c.interval
  counts : c.Counts p

/-- Event `e` does not end an interval of the alarm of slot `j` while a signal
    other than `SIGALRM` is pending. -/
def NoEndWhilePending (j : Fin nproc) (x : KState × Option AlarmCount) (e : Event) : Prop :=
  ∀ c ∈ x.2, ∀ regs, e = .trap j regs .timer → expires (x.1.proc j) = true →
    (x.1.proc j).pendingSignal = 0 ∨ (x.1.proc j).pendingSignal = sigalrm

/-- After event `e` the alarm of slot `j` counts. -/
def AlarmExact (j : Fin nproc) (x : KState × Option AlarmCount) (e : Event) : Prop :=
  ∀ y, Lib.observe step (alarmNote j) e x = some y → ∀ c ∈ y.2, c.Counts (y.1.proc j)

/-! ## Ticks -/

section

variable {p : Proc} {c : AlarmCount}

theorem signaltick_interval : (signaltick p).alarmInterval = p.alarmInterval := by
  rw [signaltick]
  repeat' split
  all_goals rfl

/-- A process in a handler is not charged for the tick. -/
theorem signaltick_inflight (h : p.signalInflight = true) : signaltick p = p := by
  rw [signaltick, if_neg]
  rintro ⟨-, -, hfree⟩
  rw [h] at hfree
  cases hfree

/-- The end of an interval. -/
theorem signaltick_expires (h : expires p = true) : (signaltick p).alarmElapsed = 0 := by
  simp only [expires, Bool.and_eq_true, decide_eq_true_eq, Bool.not_eq_true'] at h
  obtain ⟨⟨⟨hinterval, hreg⟩, hfree⟩, hover⟩ := h
  rw [signaltick, if_pos ⟨hinterval, hreg, hfree⟩, if_pos hover]

/-- Any other tick that is counted. -/
theorem signaltick_elapsed (hp : p.SignalInv) (hinterval : 0 < p.alarmInterval)
    (hfree : p.signalInflight = false) (h : expires p = false) :
    (signaltick p).alarmElapsed = p.alarmElapsed + 1 := by
  have hreg := (hp.alarm hinterval).1
  have hover : ¬ p.alarmElapsed + 1 ≥ p.alarmInterval := by
    simpa [expires, hinterval, hreg, hfree] using h
  rw [signaltick, if_pos ⟨hinterval, hreg, hfree⟩, if_neg hover]

/-- An alarm is taken if it does not hide behind another signal. -/
theorem takesAlarm_iff :
    takesAlarm p = true ↔ p.pendingSignal = 0 ∨ p.pendingSignal = sigalrm := by
  simp [takesAlarm]

theorem AlarmCount.Kept.withRegs (hc : c.Kept p) (regs : Trapframe) :
    c.Kept { p with trapframe := regs } :=
  ⟨hc.used, hc.pos, hc.interval, hc.counts⟩

/-- A tick is counted. -/
theorem AlarmCount.Kept.tick (hc : c.Kept p) (hp : p.SignalInv)
    (htakes : expires p = true → takesAlarm p = true) : (c.tick p).Kept (signaltick p) := by
  have hused : (signaltick p).state ≠ .unused := by
    rw [signaltick_state]
    exact hc.used
  have hcounts := hc.counts
  have hinterval := signaltick_interval.trans hc.interval
  rw [AlarmCount.Counts] at hcounts
  rw [AlarmCount.tick]
  cases hfree : p.signalInflight with
  | true =>
      rw [if_pos rfl, signaltick_inflight hfree]
      exact hc
  | false =>
      rw [if_neg Bool.false_ne_true]
      refine ⟨hused, hc.pos, hinterval, ?_⟩
      rw [AlarmCount.Counts]
      obtain ⟨-, hnonneg, hlt⟩ := hp.alarm (hc.interval ▸ hc.pos)
      cases hexpires : expires p with
      | true =>
          have hover : p.alarmElapsed + 1 = c.interval := by
            simp only [expires, Bool.and_eq_true, decide_eq_true_eq] at hexpires
            have hge := hexpires.2
            rw [hc.interval] at hge hlt
            omega
          rw [signaltick_expires hexpires, htakes hexpires]
          simp only [Bool.and_self, if_true]
          push_cast
          calc (c.ticks : Int) + 1 = c.interval * c.alarms + (p.alarmElapsed + 1) := by omega
            _ = c.interval * (c.alarms + 1) + 0 := by
              rw [hover, Int.mul_add, Int.mul_one, Int.add_zero]
      | false =>
          rw [signaltick_elapsed hp (hc.interval ▸ hc.pos) hfree hexpires]
          simp only [Bool.false_and, Bool.false_eq_true, if_false]
          push_cast
          omega

/-- The end of an interval that raises no alarm leaves a whole interval of
    ticks behind. -/
theorem AlarmCount.Kept.not_counts (hc : c.Kept p) (hp : p.SignalInv)
    (hexpires : expires p = true) (htakes : takesAlarm p = false) :
    ¬ (c.tick p).Counts (signaltick p) := by
  have hcounts := hc.counts
  have hpos := hc.pos
  obtain ⟨-, hnonneg, hlt⟩ := hp.alarm (hc.interval ▸ hc.pos)
  have hfree : p.signalInflight = false := by
    simp only [expires, Bool.and_eq_true, Bool.not_eq_true'] at hexpires
    exact hexpires.1.2
  rw [AlarmCount.Counts] at hcounts
  rw [AlarmCount.tick, if_neg (by simp [hfree]), AlarmCount.Counts, signaltick_expires hexpires,
    htakes]
  simp only [Bool.and_false, Bool.false_eq_true, if_false]
  push_cast
  omega

end

/-! ## Steps -/

section

variable {s t : KState} {e : Event} {j : Fin nproc} {x : Option AlarmCount}

/-- `sigalarm` fails and changes nothing, or sets the interval and starts the count.
    -/
theorem sigalarm_cases (p : Proc) (ticks : Int) (handler : UInt64) :
    sigalarm p ticks handler = (p, -1) ∨ (sigalarm p ticks handler).2 = 0 ∧
      (sigalarm p ticks handler).1.alarmInterval = ticks ∧
        (sigalarm p ticks handler).1.alarmElapsed = 0 := by
  simp only [sigalarm]
  split
  · exact .inl rfl
  · split
    · exact .inl rfl
    · right
      repeat' split
      all_goals exact ⟨rfl, rfl, rfl⟩

/-- The section of `sigalarm` does what the function does. -/
theorem step_alarm {ticks : Int} {handler : UInt64}
    (hat : s.At e j (.call (.sigalarm ticks handler))) (h : step e s = some t) :
    t = s.setRet j j (sigalarm (s.proc j) ticks handler) := by
  obtain ⟨o, -, ho⟩ := step_call hat h
  exact (Option.some.inj ho).symm

/-- What `sigalarm` returns. -/
theorem returned_alarm {ticks : Int} {handler : UInt64}
    (hat : s.At e j (.call (.sigalarm ticks handler))) (h : step e s = some t) :
    returned s e t = some (j, .call (.sigalarm ticks handler),
      u64OfInt (sigalarm (s.proc j) ticks handler).2) := by
  rw [step_alarm hat h]
  exact returned_retInt hat

/-- Where `sigalarm` returns 0 it has set the alarm. -/
theorem armed_of_step {ticks : Int} {handler : UInt64} (h : step e s = some t)
    (hret : returned s e t = some (j, .call (.sigalarm ticks handler), 0)) :
    (t.proc j).alarmInterval = ticks ∧ (t.proc j).alarmElapsed = 0 := by
  obtain ⟨hat, -, ha0⟩ := returned_eq_some h hret
  rw [step_alarm hat h] at ha0 ⊢
  rw [KState.setRet] at ha0 ⊢
  obtain ⟨tf, htf⟩ := exists_retInt_proc
    (s.setProc j (sigalarm (s.proc j) ticks handler).1) j j (sigalarm (s.proc j) ticks handler).2
  rw [htf, setProc_proc, Function.update_self]
  rcases sigalarm_cases (s.proc j) ticks handler with hfail | ⟨-, harmed⟩
  · rw [hfail, retInt_a0] at ha0
    exact absurd ha0 (by show u64OfInt (-1) ≠ 0; decide)
  · exact harmed

/-- The alarm is the same. -/
def Proc.SameAlarm (p q : Proc) : Prop :=
  q.alarmInterval = p.alarmInterval ∧ q.alarmElapsed = p.alarmElapsed

theorem Proc.SameSignals.alarm {p q : Proc} (h : p.SameSignals q) : p.SameAlarm q :=
  ⟨h.alarmInterval, h.alarmElapsed⟩

theorem sigreturn_sameAlarm (p : Proc) : p.SameAlarm (sigreturn p).1 := by
  rw [sigreturn]
  split <;> exact ⟨rfl, rfl⟩

theorem sigsendProc_sameAlarm (p : Proc) (signum : Int) : p.SameAlarm (sigsendProc p signum).1 := by
  rw [sigsendProc]
  split
  · exact ⟨rfl, rfl⟩
  · have hwake := wake_sameSignals { p with pendingSignal := signum }
    exact ⟨hwake.alarmInterval, hwake.alarmElapsed⟩

/-- `signalcheck` delivers a signal and leaves the alarm alone. -/
theorem signalcheck_sameAlarm (p : Proc) : p.SameAlarm (signalcheck p) := by
  rw [signalcheck]
  split
  · split
    · rename_i hsetup
      simp only [setupsignal, Option.ite_none_left_eq_some, Option.some.injEq] at hsetup
      obtain ⟨-, rfl⟩ := hsetup
      exact ⟨rfl, rfl⟩
    · exact ⟨rfl, rfl⟩
  · exact ⟨rfl, rfl⟩

/-- Any step but a timer tick or `sigalarm` leaves the alarm as it is. -/
theorem alarm_of_step (hused : (s.proc j).state ≠ .unused) (ht : (t.proc j).state ≠ .unused)
    (h : step e s = some t) (htimer : ∀ regs, e ≠ .trap j regs .timer)
    (harm : ∀ ticks handler, returned s e t ≠ some (j, .call (.sigalarm ticks handler), 0)) :
    (s.proc j).SameAlarm (t.proc j) := by
  -- only a timer tick and `sigalarm` write the two fields of a live slot
  have hstep : (s.proc j).SameAlarm (t.proc j) ∨
      (s.proc j).state = .zombie ∧ (t.proc j).state = .unused := by
    refine step_slot (I := fun p => (s.proc j).SameAlarm p ∨
      (s.proc j).state = .zombie ∧ p.state = .unused) h (.inl ⟨rfl, rfl⟩) fun p q hp hm => ?_
    cases hm with
    | fork _ hunused => exact absurd hunused hused
    | clone _ hunused => exact absurd hunused hused
    | abort _ _ _ hunused => exact absurd hunused hused
    | free _ _ _ hzombie => exact .inr ⟨hzombie, rfl⟩
    | @sigalarm ticks handler hat =>
        rcases sigalarm_cases (s.proc j) ticks handler with hfail | ⟨hzero, -⟩
        · rw [hfail]
          exact .inl ⟨rfl, rfl⟩
        · have hret := returned_alarm hat h
          rw [hzero] at hret
          exact absurd hret (harm ticks handler)
    | signaltick he _ => exact absurd he (htimer _)
    | sigreturn _ => exact .inl (sigreturn_sameAlarm _)
    | sigsend _ _ _ => exact .inl (sigsendProc_sameAlarm _ _)
    | signalcheck _ => exact .inl (signalcheck_sameAlarm _)
    | wakeup chan =>
        have hwake := wakeupProc_sameSignals p chan
        refine hp.imp (fun hsame => ?_) (And.imp_right fun hunused => ?_)
        · exact ⟨hwake.alarmInterval.trans hsame.1, hwake.alarmElapsed.trans hsame.2⟩
        · simp [wakeupProc, wake, hunused]
    | updateTime => exact .inl (updateTime_sameSignals _).alarm
    | kill _ _ => exact .inl (killProc_sameSignals _).alarm
    | reparent _ => exact .inl (reparentProc_sameSignals _ _ _).alarm
    | deliver _ _ _ _ _ => exact .inl (msgsendProc_sameSignals _ _ _).alarm
    | receive _ _ _ => exact .inl (msgrecvProc_sameSignals _ _).alarm
    | exit hat _ =>
        refine hp.imp_right fun hfreed => ?_
        simp [hat.running] at hfreed
    | regs _ _ => exact hp
    | _ => exact .inl ⟨rfl, rfl⟩
  exact hstep.resolve_right fun hfreed => ht hfreed.2

/-- A timer tick. -/
theorem step_timer {regs : Trapframe} (he : e = .trap j regs .timer) (h : step e s = some t) :
    t.proc j = signaltick { s.proc j with trapframe := regs } := by
  subst he
  simp only [step, Option.ite_none_right_eq_some, Option.some.injEq] at h
  obtain ⟨-, rfl⟩ := h
  simp [trapSection]

/-- A timer tick that the process takes keeps the count right. -/
theorem kept_of_timer {regs : Trapframe} {c : AlarmCount} (hs : (s.proc j).SignalInv)
    (hkept : c.Kept (s.proc j)) (he : e = .trap j regs .timer) (h : step e s = some t)
    (htakes : expires (s.proc j) = true → takesAlarm (s.proc j) = true) :
    (c.tick (s.proc j)).Kept (t.proc j) := by
  rw [step_timer he h]
  exact (hkept.withRegs regs).tick (hs.withRegs regs) htakes

/-- A history after a call has just started or is the one before. -/
theorem mem_alarmCall {ret : Option (Fin nproc × Kpc × UInt64)} {c : AlarmCount}
    (h : c ∈ alarmCall j ret x) :
    (∃ ticks handler, ret = some (j, .call (.sigalarm ticks handler), 0) ∧ 0 < ticks ∧
        c = ⟨ticks, 0, 0⟩) ∨
      (∀ ticks handler, ret ≠ some (j, .call (.sigalarm ticks handler), 0)) ∧ c ∈ x := by
  unfold alarmCall at h
  split at h
  · rename_i i ticks handler v
    split at h
    · rename_i hi
      obtain ⟨rfl, rfl⟩ := hi
      split at h
      · rename_i hpos
        exact .inl ⟨ticks, handler, rfl, hpos, (Option.some.inj h).symm⟩
      · cases h
    · rename_i hi
      refine .inr ⟨fun ticks' handler' hret => hi ?_, h⟩
      simp only [Option.some.injEq, Prod.mk.injEq] at hret
      exact ⟨hret.1, hret.2.2⟩
  · split at h
    · cases h
    · exact .inr ⟨fun _ _ hret => by simp at hret, h⟩
  · rename_i hother _
    exact .inr ⟨fun ticks handler hret => hother _ _ _ _ hret, h⟩

/-- In a timer tick of the process the history counts it, in any other step it
    can only start or end. -/
theorem mem_alarmNote {c : AlarmCount} (h : c ∈ alarmNote j s e t x) :
    (t.proc j).state ≠ .unused ∧
      ((∃ regs, ∃ c' ∈ x, e = .trap j regs .timer ∧ c = c'.tick (s.proc j)) ∨
        (∀ regs, e ≠ .trap j regs .timer) ∧ c ∈ alarmCall j (returned s e t) x) := by
  unfold alarmNote at h
  split at h
  · cases h
  · rename_i ht
    refine ⟨ht, ?_⟩
    split at h
    · rename_i i regs
      split at h
      · rename_i hi
        subst hi
        obtain ⟨c', hc', rfl⟩ := Option.mem_map.mp h
        exact .inl ⟨regs, c', hc', rfl, rfl⟩
      · rename_i hi
        exact .inr ⟨fun _ he => hi (Event.trap.inj he).1, h⟩
    · rename_i htimer
      exact .inr ⟨fun regs he => htimer _ _ he, h⟩

/-- The note of a timer tick counts it. -/
theorem alarmNote_timer {regs : Trapframe} {c : AlarmCount} (hc : c ∈ x)
    (he : e = .trap j regs .timer) (ht : (t.proc j).state ≠ .unused) :
    c.tick (s.proc j) ∈ alarmNote j s e t x := by
  subst he
  rw [alarmNote, if_neg ht, if_pos rfl]
  exact Option.mem_map_of_mem _ hc

/-- The history of the alarm after a step. -/
theorem kept_of_step (hs : (s.proc j).SignalInv) (hkept : ∀ c ∈ x, c.Kept (s.proc j))
    (hend : NoEndWhilePending j (s, x) e) (h : step e s = some t) :
    ∀ c ∈ alarmNote j s e t x, c.Kept (t.proc j) := by
  intro c hc
  obtain ⟨ht, ⟨regs, c', hc', he, rfl⟩ | ⟨htimer, hcall⟩⟩ := mem_alarmNote hc
  · exact kept_of_timer hs (hkept c' hc') he h fun hexpires =>
      takesAlarm_iff.mpr (hend c' hc' regs he hexpires)
  · obtain ⟨ticks, handler, hret, hpos, rfl⟩ | ⟨harm, hold⟩ := mem_alarmCall hcall
    · obtain ⟨hinterval, helapsed⟩ := armed_of_step h hret
      refine ⟨ht, hpos, hinterval, ?_⟩
      rw [AlarmCount.Counts, helapsed]
      simp
    · have hkept' := hkept c hold
      obtain ⟨hinterval, helapsed⟩ := alarm_of_step hkept'.used ht h htimer harm
      refine ⟨ht, hkept'.pos, hinterval.trans hkept'.interval, ?_⟩
      rw [AlarmCount.Counts, helapsed]
      exact hkept'.counts

/-- Where the alarm counts after the end of an interval it was raised. -/
theorem takesAlarm_of_counts {regs : Trapframe} {c : AlarmCount} (hs : (s.proc j).SignalInv)
    (hkept : c.Kept (s.proc j)) (he : e = .trap j regs .timer) (h : step e s = some t)
    (hexpires : expires (s.proc j) = true) (hcounts : (c.tick (s.proc j)).Counts (t.proc j)) :
    takesAlarm (s.proc j) = true := by
  rw [step_timer he h] at hcounts
  by_contra htakes
  rw [Bool.not_eq_true] at htakes
  exact (hkept.withRegs regs).not_counts (hs.withRegs regs) hexpires htakes hcounts

end

/-! ## Runs -/

/-- **The ticks of an alarm.**  In every run, from `sigalarm(n, _)` with
    positive `n` to the next `sigalarm`, `exec` or the end of the process, the
    ticks that found no handler in flight are `n` times the alarms plus
    `alarm_elapsed`, after every step, precisely if no interval ends while a
    signal other than `SIGALRM` is pending. -/
theorem alarm_exact_iff (j : Fin nproc) (es : List Event) :
    Lib.AllSteps (Lib.observe step (alarmNote j)) (AlarmExact j) es (bootState, none) ↔
      Lib.AllSteps (Lib.observe step (alarmNote j)) (NoEndWhilePending j) es (bootState, none) := by
  have hboot : Reachable bootState := Lib.Steps.refl
  refine Lib.allSteps_iff (I := fun x => Reachable x.1 ∧ ∀ c ∈ x.2, c.Kept (x.1.proc j)) ?_ ?_
    ⟨hboot, nofun⟩
  · rintro ⟨s, x⟩ e y ⟨hreach, hkept⟩ hy
    constructor
    · intro hexact c hc regs he hexpires
      obtain ⟨ht, hnote⟩ := Lib.observe_eq_some.mp hy
      have hused : (y.1.proc j).state ≠ .unused := by
        rw [step_timer he ht, signaltick_state]
        exact (hkept c hc).used
      have hcounts := hexact y hy _ (hnote ▸ alarmNote_timer hc he hused)
      exact takesAlarm_iff.mp
        (takesAlarm_of_counts (hreach.signalInv j) (hkept c hc) he ht hexpires hcounts)
    · intro hend y hy c hc
      obtain ⟨ht, hnote⟩ := Lib.observe_eq_some.mp hy
      rw [hnote] at hc
      exact (kept_of_step (hreach.signalInv j) hkept hend ht c hc).counts
  · rintro ⟨s, x⟩ e ⟨t, x'⟩ ⟨hreach, hkept⟩ hend hy
    obtain ⟨ht, hnote⟩ := Lib.observe_eq_some.mp hy
    dsimp only at ht hnote ⊢
    rw [hnote]
    exact ⟨hreach.tail trivial ht, kept_of_step (hreach.signalInv j) hkept hend ht⟩

/-- The first process sets an alarm of one tick with its handler at 0x100 and
    runs on; on another CPU its child sends it signal 7. -/
def sentAlarmEvents : List Event :=
  forkChildEvents ++ syscallEvents initSlot 22 1 0x100 0 ++ returnEvents initSlot ++
    syscallEvents childSlot 24 1 7 0 ++ [.run childSlot {}]

/-- The state and the history after these events. -/
def sentAlarmState : KState × Option AlarmCount :=
  historyAfter (alarmNote initSlot) none sentAlarmEvents

/-- The tick that ends the interval raises no alarm, and none comes for it
    later. -/
theorem alarm_dropped :
    ¬ ∀ (j : Fin nproc) (es : List Event),
        Lib.AllSteps (Lib.observe step (alarmNote j)) (AlarmExact j) es (bootState, none) := by
  intro h
  have hrun := @Lib.runEvents_endState _ _ (Lib.observe step (alarmNote initSlot))
    (bootState, none) sentAlarmEvents (by decide +kernel)
  have htick := @Lib.step_endState _ _ (Lib.observe step (alarmNote initSlot)) sentAlarmState
    (.trap initSlot .zero .timer) (by decide +kernel)
  have hexact := (h initSlot (sentAlarmEvents ++ [.trap initSlot .zero .timer])).last hrun htick
  have hcounts := hexact _ htick ⟨1, 1, 0⟩ (by decide +kernel)
  revert hcounts
  rw [AlarmCount.Counts]
  decide +kernel

end G20OsLab.Kernel
