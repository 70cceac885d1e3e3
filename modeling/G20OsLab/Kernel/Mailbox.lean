/-
  G20OsLab.Kernel.Mailbox

  The mailboxes deliver every message once.

  A slot's mailbox is a one-place mailbox (`Lib.mailStep`) as long as one
  process has the slot: the sections that return 0 from `msgsend` to it and
  from its own `msgrecv` are its actions, and no other section changes it.
-/

import G20OsLab.Lib.Mailbox
import G20OsLab.Kernel.Reaping

namespace G20OsLab.Kernel

open Lib (MailAction mailStep unread Alternates)

/-! ## Actions -/

/-- The message that waits in the mailbox. -/
def Proc.mail (p : Proc) : Option MsgBuf := if p.msgFlag then some p.msgBuf else none

/-- What a section that returns 0 has done to the mailbox of slot `j`: `i` is
    the process that runs it. -/
def Call.mailAction (call : Call) (s : KState) (i j : Fin nproc) (o : Outcome) :
    Option (MailAction MsgBuf) :=
  match call with
  | .msgsend pid _ =>
      if (s.proc j).state ≠ .unused ∧ (s.proc j).pid = pid then
        some (.send (copyinstr (s.proc j).msgBuf o.bytes))
      else
        none
  | .msgrecv _ => if i = j then some (.receive (s.proc j).msgBuf) else none
  | _ => none

/-- The action on the mailbox of slot `j` that a step completes. -/
def mailAction (j : Fin nproc) (s : KState) (e : Event) (t : KState) :
    Option (MailAction MsgBuf) :=
  match e, returned s e t with
  | .run _ o, some (i, .call call, v) => if v = 0 then call.mailAction s i j o else none
  | _, _ => none

/-- The history of the mailbox of slot `j`, for the process that has the slot. -/
def mailNote (j : Fin nproc) (s : KState) (e : Event) (t : KState)
    (h : List (MailAction MsgBuf)) : List (MailAction MsgBuf) :=
  if (t.proc j).state = .unused then []
  else (mailAction j s e t).elim h (· :: h)

/-- What a step does to the mailbox of slot `j`: the action it completes, if
    any. -/
inductive MailStep (s : KState) (j : Fin nproc) (t : KState) :
    Option (MailAction MsgBuf) → Prop
  | stay (hsame : (t.proc j).mail = (s.proc j).mail)
      (hslot : (t.proc j).state = .unused → (s.proc j).state = .unused) : MailStep s j t none
  /-- the slot is taken or freed -/
  | clear (hslot : (s.proc j).state = .unused ∨ (t.proc j).state = .unused)
      (ht : (t.proc j).mail = none) : MailStep s j t none
  | send {m : MsgBuf} (hused : (s.proc j).state ≠ .unused) (hs : (s.proc j).mail = none)
      (hused' : (t.proc j).state ≠ .unused) (ht : (t.proc j).mail = some m) :
      MailStep s j t (some (.send m))
  | receive {m : MsgBuf} (hused : (s.proc j).state ≠ .unused) (hs : (s.proc j).mail = some m)
      (ht : (t.proc j).mail = none) : MailStep s j t (some (.receive m))

section

variable {s t : KState} {e : Event} {i j j' : Fin nproc} {o : Outcome} {call : Call} {pid : Int}

/-- Only the mailbox matters. -/
theorem Proc.SameMail.mail {p q : Proc} (h : p.SameMail q) : q.mail = p.mail := by
  rw [Proc.mail, Proc.mail, h.msgFlag, h.msgBuf]

theorem Proc.SameMail.trans {p q r : Proc} (h : p.SameMail q) (h' : q.SameMail r) :
    p.SameMail r :=
  ⟨h'.msgFlag.trans h.msgFlag, h'.msgBuf.trans h.msgBuf⟩

/-- A return and a wakeup change neither a mailbox nor who has the slot. -/
theorem retInt_sameMail {v : Int} : (s.proc j).SameMail ((s.retInt i v).proc j) := by
  obtain ⟨tf, htf⟩ := exists_retInt_proc s i j v
  rw [htf]
  exact ⟨rfl, rfl⟩

theorem retInt_mail {v : Int} : ((s.retInt i v).proc j).mail = (s.proc j).mail :=
  retInt_sameMail.mail

theorem wakeup_sameMail {chan : Option Chan} :
    (s.proc j).SameMail ((s.wakeup chan).proc j) :=
  wakeupProc_sameMail (s.proc j) chan

/-- A call that returns 0 has done its part. -/
theorem mailAction_retInt (hat : s.At (.run i o) i (.call call)) {v : Int} :
    mailAction j s (.run i o) (t.retInt i v) =
      if u64OfInt v = 0 then call.mailAction s i j o else none := by
  simp only [mailAction, returned_retInt hat]

/-- A call that fails has done nothing. -/
theorem mailAction_failed (hat : s.At (.run i o) i (.call call)) :
    mailAction j s (.run i o) (t.retInt i (-1)) = none := by
  rw [mailAction_retInt hat]
  exact if_neg (by decide)

theorem mailAction_done (hat : s.At (.run i o) i (.call call)) :
    mailAction j s (.run i o) (t.retInt i 0) = call.mailAction s i j o := by
  rw [mailAction_retInt hat]
  exact if_pos (by decide)

/-- Other calls do nothing to a mailbox. -/
theorem mailAction_of_call (hat : s.At e i (.call call))
    (hnone : ∀ o, call.mailAction s i j o = none) : mailAction j s e t = none := by
  obtain ⟨⟨o, rfl⟩, -, hkpc⟩ := hat
  unfold mailAction
  split
  · rename_i o' i' call' v heq hret
    obtain ⟨-, rfl⟩ := Event.run.inj heq
    simp only [returned, hkpc, Option.ite_none_right_eq_some, Option.some.injEq,
      Prod.mk.injEq, Kpc.call.injEq] at hret
    obtain ⟨-, rfl, rfl, -⟩ := hret
    rw [hnone]
    exact ite_self _
  · rfl

/-! ## Sending and receiving -/

/-- A return changes the mailbox of slot `j` no more than what precedes it. -/
theorem mailStep_failed {v : Int} (hmail : (t.proc j).mail = (s.proc j).mail)
    (hstate : (t.proc j).state = (s.proc j).state) : MailStep s j (t.retInt i v) none := by
  refine .stay (retInt_mail.trans hmail) ?_
  intro hunused
  rwa [retInt_state, hstate] at hunused

/-- A `msgsend` at the slot `j'` that it finds. -/
def msgsendAt (s : KState) (i : Fin nproc) (o : Outcome) (j' : Fin nproc) : KState :=
  let (p, result) := msgsendProc (s.proc j') o.bytes o.copyOk
  let s := s.setProc j' p
  (if result = 0 then s.wakeup (some (.msgFlag j')) else s).retInt i result

/-- The slot has the pid. -/
theorem msgsend_eq (hs : s.TreeInv) (hused : (s.proc j).state ≠ .unused)
    (hpid : (s.proc j).pid = pid) : msgsend s i o pid = msgsendAt s i o j := by
  rw [msgsend]
  split
  · rename_i j' hj'
    have hfound := List.find?_some hj'
    simp only [Bool.and_eq_true, decide_eq_true_eq] at hfound
    obtain rfl := hs.pid_inj hfound.1 hused (hfound.2.trans hpid.symm)
    rfl
  · rename_i hnone
    have hj := List.find?_eq_none.mp hnone j (List.mem_finRange j)
    simp [hused, hpid] at hj

/-- `msgsend` to another process leaves the mailbox, and every slot in its use. -/
theorem msgsendAt_kept {j' : Fin nproc} :
    ((s.setProc j' (msgsendProc (s.proc j') o.bytes o.copyOk).1).proc j).SameMail
        ((msgsendAt s i o j').proc j) ∧
      (((msgsendAt s i o j').proc j).state = .unused ↔ (s.proc j).state = .unused) := by
  have hset : ((s.setProc j' (msgsendProc (s.proc j') o.bytes o.copyOk).1).proc j).state =
      (s.proc j).state := by
    by_cases hj : j = j'
    · subst hj
      rw [setProc_proc, Function.update_self, msgsendProc_state]
    · rw [setProc_proc, Function.update_of_ne hj]
  rw [msgsendAt]
  dsimp only
  split
  · refine ⟨wakeup_sameMail.trans retInt_sameMail, ?_⟩
    rw [retInt_state, ← hset]
    exact (wakeupProc_samePlace _ _).unused
  · refine ⟨retInt_sameMail, ?_⟩
    rw [retInt_state, hset]

/-- It leaves there what `msgsendProc` makes of the slot. -/
theorem msgsend_target (hs : s.TreeInv) (hused : (s.proc j).state ≠ .unused)
    (hpid : (s.proc j).pid = pid) :
    (msgsendProc (s.proc j) o.bytes o.copyOk).1.SameMail ((msgsend s i o pid).proc j) ∧
      ((msgsend s i o pid).proc j).state ≠ .unused := by
  rw [msgsend_eq hs hused hpid]
  obtain ⟨hmail, hstate⟩ := @msgsendAt_kept s i j o j
  rw [setProc_proc, Function.update_self] at hmail
  exact ⟨hmail, fun h => hused (hstate.mp h)⟩

/-- It is a send if the mailbox is empty and the copy succeeds. -/
theorem msgsend_action {msg : UInt64} (hs : s.TreeInv)
    (hat : s.At (.run i o) i (.call (.msgsend pid msg))) (hused : (s.proc j).state ≠ .unused)
    (hpid : (s.proc j).pid = pid) :
    mailAction j s (.run i o) (msgsend s i o pid) =
      if (s.proc j).msgFlag = false ∧ o.copyOk = true then
        some (.send (copyinstr (s.proc j).msgBuf o.bytes))
      else
        none := by
  have hsend : Call.mailAction (.msgsend pid msg) s i j o =
      some (.send (copyinstr (s.proc j).msgBuf o.bytes)) := if_pos ⟨hused, hpid⟩
  rw [msgsend_eq hs hused hpid, msgsendAt, mailAction_retInt hat, hsend, msgsendProc_result]
  split
  · exact if_pos (by decide)
  · exact if_neg (by decide)

/-- All other mailboxes it leaves alone. -/
theorem msgsend_other (hother : (s.proc j).state ≠ .unused → (s.proc j).pid ≠ pid) :
    (s.proc j).SameMail ((msgsend s i o pid).proc j) ∧
      (((msgsend s i o pid).proc j).state = .unused → (s.proc j).state = .unused) := by
  rw [msgsend]
  split
  · rename_i j' hj'
    have hfound := List.find?_some hj'
    simp only [Bool.and_eq_true, decide_eq_true_eq] at hfound
    have hne : j ≠ j' := by
      rintro rfl
      exact hother hfound.1 hfound.2
    obtain ⟨hmail, hstate⟩ := @msgsendAt_kept s i j o j'
    rw [setProc_proc, Function.update_of_ne hne] at hmail
    exact ⟨hmail, hstate.mp⟩
  · exact ⟨retInt_sameMail, fun h => by rwa [retInt_state] at h⟩

/-- A send fills an empty mailbox. -/
theorem msgsend_mailStep {msg : UInt64} (hs : s.TreeInv)
    (hat : s.At (.run i o) i (.call (.msgsend pid msg))) :
    MailStep s j (msgsend s i o pid) (mailAction j s (.run i o) (msgsend s i o pid)) := by
  by_cases htarget : (s.proc j).state ≠ .unused ∧ (s.proc j).pid = pid
  · obtain ⟨hused, hpid⟩ := htarget
    obtain ⟨hmail, hused'⟩ := @msgsend_target s i j o pid hs hused hpid
    rw [msgsend_action hs hat hused hpid]
    cases hfull : (s.proc j).msgFlag with
    | true =>
        rw [msgsendProc_full hfull] at hmail
        exact .stay hmail.mail fun hunused => absurd hunused hused'
    | false =>
        have hempty : (s.proc j).mail = none := if_neg (by simp [hfull])
        cases hcopy : o.copyOk with
        | true =>
            rw [hcopy, msgsendProc_copied hfull] at hmail
            exact .send hused hempty hused' hmail.mail
        | false =>
            rw [hcopy, msgsendProc_notCopied hfull] at hmail
            refine .stay ?_ fun hunused => absurd hunused hused'
            rw [hempty, hmail.mail]
            exact if_neg (by simp [hfull])
  · -- the mailbox of another slot
    rw [mailAction_of_call hat fun o => if_neg htarget]
    obtain ⟨hmail, hslot⟩ := @msgsend_other s i j o pid fun hused hpid => htarget ⟨hused, hpid⟩
    exact .stay hmail.mail hslot

/-- A receive empties a full one. -/
theorem msgrecv_mailStep {buf : UInt64} (hat : s.At (.run i o) i (.call (.msgrecv buf))) :
    MailStep s j (msgrecv s i o buf) (mailAction j s (.run i o) (msgrecv s i o buf)) := by
  have hused : (s.proc i).state ≠ .unused := by simp [hat.running]
  rw [msgrecv]
  split
  · rename_i hfull
    cases hcopy : o.copyOk with
    | true =>
        simp only [msgrecvProc, if_true, KState.setRet]
        rw [mailAction_done hat, Call.mailAction]
        by_cases hj : j = i
        · subst hj
          rw [if_pos rfl]
          refine .receive hused (by simp [Proc.mail, hfull]) ?_
          rw [retInt_mail]
          simp [Proc.mail]
        · rw [if_neg (Ne.symm hj)]
          apply mailStep_failed <;> simp [hj]
    | false =>
        simp only [msgrecvProc, Bool.false_eq_true, if_false, KState.setRet]
        rw [mailAction_failed hat]
        apply mailStep_failed <;> by_cases hj : j = i <;> simp [hj]
  · have hnone : returned s (.run i o) (s.sleep i (.msgFlag i) (.msgrecv buf)) = none :=
      returned_none hat (by simp [KState.sleep])
    simp only [mailAction, hnone]
    by_cases hj : j = i
    · subst hj
      refine .stay ?_ ?_ <;> simp [KState.sleep, sleepOn, Proc.mail]
    · refine .stay ?_ ?_ <;> simp [KState.sleep, hj]

/-! ## Steps -/

/-- The mailbox of slot `j` is the same, or cleared while the slot is taken or
    freed. -/
def BufKept (s : KState) (j : Fin nproc) (p : Proc) : Prop :=
  (s.proc j).SameMail p ∧ (p.state = .unused → (s.proc j).state = .unused) ∨
    (p.msgFlag = false ∧ p.msgBuf = .zero) ∧
      ((s.proc j).state = .unused ∨ (s.proc j).state = .zombie ∧ p.state = .unused)

/-- Changes of other fields keep that. -/
theorem BufKept.change {p q : Proc} (h : BufKept s j p) (hmail : p.SameMail q)
    (hstate : q.state = .unused ↔ p.state = .unused) : BufKept s j q := by
  rcases h with ⟨hsame, hslot⟩ | ⟨⟨hflag, hbuf⟩, hslot⟩
  · exact .inl ⟨⟨hmail.msgFlag.trans hsame.msgFlag, hmail.msgBuf.trans hsame.msgBuf⟩,
      fun hunused => hslot (hstate.mp hunused)⟩
  · exact .inr ⟨⟨hmail.msgFlag.trans hflag, hmail.msgBuf.trans hbuf⟩,
      hslot.imp_right fun h => ⟨h.1, hstate.mpr h.2⟩⟩

/-- No other section changes a mailbox. -/
theorem bufKept_of_step (h : step e s = some t)
    (hsend : ∀ i pid msg, ¬ s.At e i (.call (.msgsend pid msg)))
    (hrecv : ∀ buf, ¬ s.At e j (.call (.msgrecv buf))) : BufKept s j (t.proc j) := by
  refine step_slot (I := BufKept s j) h (.inl ⟨⟨rfl, rfl⟩, id⟩) ?_
  intro p q hp hm
  -- what changes the slot as the step found it
  have hsame : ∀ {q : Proc}, (s.proc j).SameMail q →
      (q.state = .unused → (s.proc j).state = .unused) → BufKept s j q :=
    fun hmail hslot => .inl ⟨hmail, hslot⟩
  cases hm with
  | deliver _ _ hat _ _ => exact absurd hat (hsend _ _ _)
  | receive _ hat _ => exact absurd hat (hrecv _)
  | fork _ hunused => exact .inr ⟨⟨rfl, rfl⟩, .inl hunused⟩
  | clone _ hunused => exact .inr ⟨⟨rfl, rfl⟩, .inl hunused⟩
  | abort _ _ _ hunused => exact .inr ⟨⟨rfl, rfl⟩, .inl hunused⟩
  | free _ _ _ hzombie => exact .inr ⟨⟨rfl, rfl⟩, .inr ⟨hzombie, rfl⟩⟩
  | wakeup chan =>
      exact hp.change (wakeupProc_sameMail p chan) (wakeupProc_samePlace chan p).unused
  | exit hat _ =>
      rcases hp with hp | ⟨-, hslot⟩
      · exact .inl ⟨⟨hp.1.msgFlag, hp.1.msgBuf⟩, nofun⟩
      · simp [hat.running] at hslot
  | regs _ _ => exact hp.change ⟨rfl, rfl⟩ Iff.rfl
  | kill _ _ => exact hsame (killProc_sameMail _) (killProc_samePlace _).unused.mp
  | sigsend _ _ _ => exact hsame (sigsendProc_sameMail _ _) (sigsendProc_samePlace _ _).unused.mp
  | updateTime => exact hsame (updateTime_sameMail _) (updateTime_state _).symm.trans
  | reparent _ => exact hsame (reparentProc_sameMail _ _ _) (reparentProc_state _ _ _).symm.trans
  | sigalarm _ => exact hsame (sigalarm_sameMail _ _ _) (sigalarm_state _ _ _).symm.trans
  | sigreturn _ => exact hsame (sigreturn_sameMail _) (sigreturn_state _).symm.trans
  | signalcheck _ => exact hsame (signalcheck_sameMail _) (signalcheck_state _).symm.trans
  | @signaltick regs _ _ =>
      have hmail := signaltick_sameMail { s.proc j with trapframe := regs }
      exact hsame ⟨hmail.msgFlag, hmail.msgBuf⟩
        (signaltick_state { s.proc j with trapframe := regs }).symm.trans
  | schedule _ => exact hsame ⟨rfl, rfl⟩ nofun
  | yield _ => exact hsame ⟨rfl, rfl⟩ nofun
  | ready _ => exact hsame ⟨rfl, rfl⟩ nofun
  | sleep _ _ => exact hsame ⟨rfl, rfl⟩ nofun
  | _ => exact hsame ⟨rfl, rfl⟩ id

/-- The mailbox of slot `j` is the same, or empty while the slot is taken or
    freed. -/
def MailKept (s : KState) (j : Fin nproc) (p : Proc) : Prop :=
  p.mail = (s.proc j).mail ∧ (p.state = .unused → (s.proc j).state = .unused) ∨
    p.mail = none ∧ ((s.proc j).state = .unused ∨ (s.proc j).state = .zombie ∧ p.state = .unused)

theorem BufKept.mailKept {p : Proc} (h : BufKept s j p) : MailKept s j p := by
  rcases h with ⟨hsame, hslot⟩ | ⟨⟨hflag, -⟩, hslot⟩
  · exact .inl ⟨hsame.mail, hslot⟩
  · exact .inr ⟨by simp [Proc.mail, hflag], hslot⟩

/-- A mailbox does not fill by itself. -/
theorem mailKept_flag {q : Proc} (h : MailKept s j q) (hq : q.msgFlag = true) :
    (s.proc j).msgFlag = true := by
  have hmail : q.mail = (s.proc j).mail := by
    rcases h with h | ⟨hnone, -⟩
    · exact h.1
    · simp [Proc.mail, hq] at hnone
  by_contra hflag
  simp [Proc.mail, hq, hflag] at hmail

/-- Steps other than a send or a receive keep the mailbox. -/
theorem mailKept_of_step (h : step e s = some t)
    (hsend : ∀ i pid msg, ¬ s.At e i (.call (.msgsend pid msg)))
    (hrecv : ∀ buf, ¬ s.At e j (.call (.msgrecv buf))) : MailKept s j (t.proc j) :=
  (bufKept_of_step h hsend hrecv).mailKept

/-- They are neither. -/
theorem mailAction_none (h : step e s = some t)
    (hsend : ∀ i pid msg, ¬ s.At e i (.call (.msgsend pid msg)))
    (hrecv : ∀ buf, ¬ s.At e j (.call (.msgrecv buf))) : mailAction j s e t = none := by
  unfold mailAction
  split
  · rename_i o i call v hret
    have hat := (returned_eq_some h hret).1
    cases call with
    | msgsend pid msg => exact absurd hat (hsend _ _ _)
    | msgrecv buf =>
        by_cases hi : i = j
        · subst hi
          exact absurd hat (hrecv _)
        · simp [Call.mailAction, hi]
    | _ => exact ite_self _
  · rfl

/-- Every step is a step of the mailbox. -/
theorem step_mailStep (hs : s.TreeInv) (j : Fin nproc) (h : step e s = some t) :
    MailStep s j t (mailAction j s e t) := by
  by_cases hsend : ∃ i pid msg, s.At e i (.call (.msgsend pid msg))
  · obtain ⟨i, pid, msg, hat⟩ := hsend
    obtain ⟨o, rfl, ho⟩ := step_call hat h
    obtain rfl := Option.some.inj ho
    exact msgsend_mailStep hs hat
  by_cases hrecv : ∃ buf, s.At e j (.call (.msgrecv buf))
  · obtain ⟨buf, hat⟩ := hrecv
    obtain ⟨o, rfl, ho⟩ := step_call hat h
    obtain rfl := Option.some.inj ho
    exact msgrecv_mailStep hat
  · simp only [not_exists] at hsend hrecv
    rw [mailAction_none h hsend hrecv]
    rcases mailKept_of_step h hsend hrecv with ⟨hsame, hslot⟩ | ⟨hnone, hslot⟩
    · exact .stay hsame hslot
    · exact .clear (hslot.imp_right And.right) hnone

theorem flag_setProc {p : Proc} {v : Int} (h : p.msgFlag = (s.proc j').msgFlag) :
    (((s.setProc j' p).retInt i v).proc j).msgFlag = (s.proc j).msgFlag := by
  obtain ⟨tf, htf⟩ := exists_retInt_proc (s.setProc j' p) i j v
  rw [htf, setProc_proc]
  by_cases hj : j = j'
  · subst hj
    rw [Function.update_self]
    exact h
  · rw [Function.update_of_ne hj]

/-- A `msgsend` or `msgrecv` that returns `-1` leaves the flags unchanged. -/
theorem flag_of_failed (hcall : (∃ pid msg, call = .msgsend pid msg) ∨ ∃ buf, call = .msgrecv buf)
    (h : step e s = some t) (hret : returned s e t = some (i, .call call, u64OfInt (-1))) :
    (t.proc j).msgFlag = (s.proc j).msgFlag := by
  obtain ⟨hat, hkpc, ha0⟩ := returned_eq_some h hret
  obtain ⟨o, -, ho⟩ := step_call hat h
  have hfailed : ∀ {s' : KState} {v : Int},
      ((s'.retInt i v).proc i).trapframe.a0 = u64OfInt (-1) → v ≠ 0 := by
    rintro s' v hv rfl
    rw [retInt_a0] at hv
    exact absurd hv (by decide)
  rcases hcall with ⟨pid, msg, rfl⟩ | ⟨buf, rfl⟩
  · obtain rfl := Option.some.inj ho
    rw [msgsend] at ha0 ⊢
    split at ha0
    · rename_i j' _
      dsimp only at ha0 ⊢
      have hresult := hfailed ha0
      rw [if_neg hresult]
      exact flag_setProc (msgsendProc_failed hresult)
    · obtain ⟨tf, htf⟩ := exists_retInt_proc s i j (-1)
      rw [htf]
  · obtain rfl := Option.some.inj ho
    rw [msgrecv] at ha0 hkpc ⊢
    split at ha0
    · rename_i hfull
      rw [if_pos hfull]
      exact flag_setProc (msgrecvProc_failed (hfailed ha0))
    · rename_i hempty
      rw [if_neg hempty] at hkpc
      simp [KState.sleep] at hkpc

/-! ## Runs -/

/-- The history of a mailbox alternates and ends with what is unread; a free
    slot has none. -/
structure MailInv (s : KState) (j : Fin nproc) (h : List (MailAction MsgBuf)) : Prop where
  alternates : Alternates h
  unread : unread h = (s.proc j).mail
  free : (s.proc j).state = .unused → h = []

/-- In a slot in use every action is one of a one-place mailbox. -/
theorem mailInv_of_step {h : List (MailAction MsgBuf)} (hs : s.TreeInv) (hinv : MailInv s j h)
    (hstep : step e s = some t) : MailInv t j (mailNote j s e t h) := by
  have hmail := step_mailStep hs j hstep
  rw [mailNote]
  generalize mailAction j s e t = a at hmail
  have hfree : (s.proc j).state = .unused → (s.proc j).mail = none := fun hunused => by
    rw [← hinv.unread, hinv.free hunused, Lib.unread_nil]
  by_cases hunused : (t.proc j).state = .unused
  · rw [if_pos hunused]
    refine ⟨trivial, Eq.symm ?_, fun _ => rfl⟩
    cases hmail with
    | stay hsame hslot => exact hsame.trans (hfree (hslot hunused))
    | clear _ ht => exact ht
    | send _ _ hused' _ => exact absurd hunused hused'
    | receive _ _ ht => exact ht
  · rw [if_neg hunused]
    -- a mail step of the abstract mailbox
    have hstep' : ∀ {a : MailAction MsgBuf} {v : Option MsgBuf},
        mailStep a (s.proc j).mail = some v → (t.proc j).mail = v → MailInv t j (a :: h) := by
      intro a v ha hv
      obtain ⟨halternates, hunread⟩ := hinv.alternates.step (by rw [hinv.unread]; exact ha)
      exact ⟨halternates, hunread.trans hv.symm, fun hfreed => absurd hfreed hunused⟩
    cases hmail with
    | stay hsame _ =>
        exact ⟨hinv.alternates, hinv.unread.trans hsame.symm, fun hfreed => absurd hfreed hunused⟩
    | clear hslot ht =>
        refine ⟨hinv.alternates, ?_, fun hfreed => absurd hfreed hunused⟩
        rcases hslot with hslot | hslot
        · exact (hinv.unread.trans (hfree hslot)).trans ht.symm
        · exact absurd hslot hunused
    | send _ hempty _ ht => exact hstep' (by rw [hempty]; rfl) ht
    | receive _ hfull ht => exact hstep' (by rw [hfull, mailStep, if_pos rfl]) ht

theorem bootState_mail : (bootState.proc j).mail = none := by
  by_cases hj : j = initSlot
  · subst hj
    rfl
  · simp [bootState, hj, procinit, Proc.mail]

/-- While one process has slot `j`, the calls of `msgsend` to it and its calls
    of `msgrecv` that return 0 alternate, each `msgrecv` with the message of
    the `msgsend` before it, and the flag says whether one is unread.  A call
    that returns `-1` changes no flag. -/
theorem mailbox_delivers {h : List (MailAction MsgBuf)} (hs : Recorded (mailNote j) [] s h) :
    Alternates h ∧ unread h = (s.proc j).mail ∧ ((s.proc j).state = .unused → h = []) ∧
      ∀ e t i call, ((∃ pid msg, call = .msgsend pid msg) ∨ ∃ buf, call = .msgrecv buf) →
        step e s = some t → returned s e t = some (i, .call call, u64OfInt (-1)) →
          ∀ k, (t.proc k).msgFlag = (s.proc k).msgFlag := by
  have hinv : MailInv s j h := by
    refine hs.invariant (I := fun s h => MailInv s j h) ⟨trivial, bootState_mail.symm, fun _ => rfl⟩
      fun hreach hinv _ hstep => mailInv_of_step hreach.treeInv hinv hstep
  exact ⟨hinv.alternates, hinv.unread, hinv.free,
    fun e t i call hcall hstep hret k => flag_of_failed hcall hstep hret⟩

end

/-- The first process calls `msgsend`, up to its return. -/
def sendEvents (pid : UInt64) (bytes : List UInt8) : List Event :=
  [.trap initSlot (ecallRegs 27 pid 0x100 0) .ecall, .run initSlot {}, .run initSlot { bytes }]

/-- The first process sends its child a message. -/
def firstSendEvents : List Event :=
  forkChildEvents ++ sendEvents 2 [72, 0] ++ returnEvents initSlot

/-- Then it tries to send another, and the child receives the first. -/
def exchangeEvents : List Event :=
  firstSendEvents ++ sendEvents 2 [73, 0] ++ returnEvents initSlot ++
    syscallEvents childSlot 28 0x200 0 0 ++ returnEvents childSlot

/-- Then the child exits and is waited for, and a second child in its slot is
    sent a message. -/
def reuseEvents : List Event :=
  exchangeEvents ++ syscallEvents childSlot 2 0 0 0 ++ syscallEvents initSlot 3 0 0 0 ++
    returnEvents initSlot ++ syscallEvents initSlot 1 0 0 0 ++
    [.run initSlot {}, .run initSlot {}, .run initSlot {}, .run initSlot {}] ++
    returnEvents initSlot ++ sendEvents 3 [74, 0]

/-- The mailbox of the child's slot after some events, and its history. -/
def mailHistory (es : List Event) : KState × List (MailAction MsgBuf) :=
  historyAfter (mailNote childSlot) [] es

/-- The second `msgsend` of the first process, at its only section. -/
def secondSendEvents : List Event := firstSendEvents ++ (sendEvents 2 [73, 0]).take 2

theorem mailbox_delivers_reuse :
    ((mailHistory exchangeEvents).2.length = 2 ∧ Alternates (mailHistory exchangeEvents).2) ∧
      ((mailHistory reuseEvents).2.length = 1 ∧
        unread (mailHistory reuseEvents).2 = ((mailHistory reuseEvents).1.proc childSlot).mail) ∧
      ∀ k, ((msgsend (mailHistory secondSendEvents).1 initSlot { bytes := [73, 0] } 2).proc
        k).msgFlag = ((mailHistory secondSendEvents).1.proc k).msgFlag := by
  refine ⟨⟨by decide +kernel, (mailbox_delivers (Recorded.after (by decide +kernel))).1⟩,
    ⟨by decide +kernel, (mailbox_delivers (Recorded.after (by decide +kernel))).2.1⟩, ?_⟩
  have hsecond : Recorded (mailNote childSlot) [] (mailHistory secondSendEvents).1
      (mailHistory secondSendEvents).2 := Recorded.after (by decide +kernel)
  exact (mailbox_delivers hsecond).2.2.2 (.run initSlot { bytes := [73, 0] }) _ initSlot
    (.msgsend 2 0x100) (.inl ⟨2, 0x100, rfl⟩) (by rfl) (by decide +kernel)

end G20OsLab.Kernel
