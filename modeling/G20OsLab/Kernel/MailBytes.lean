/-
  G20OsLab.Kernel.MailBytes

  The bytes of a mailbox.

  In a run over user memories what `copyinstr` writes for a `msgsend` comes
  from the memory of the sender (`memStep`).  A receiver gets exactly the
  strings that were accepted, and a refused message changes nothing, as long
  as every refused string lies on an unmapped page from its first byte on.
-/

import G20OsLab.Kernel.Copyinstr
import G20OsLab.Kernel.Mailbox

namespace G20OsLab.Kernel

open Lib (MailAction)

/-! ## Buffers -/

/-- The bytes of `str`, and then zeros. -/
def MsgBuf.ofString (str : List UInt8) : MsgBuf := Vector.ofFn fun k => str.getD k 0

section

variable {k : Nat} (hk : k < 64)

theorem zero_getElem : MsgBuf.zero[k] = 0 := Vector.getElem_replicate hk

theorem ofString_getElem (str : List UInt8) : (MsgBuf.ofString str)[k] = str.getD k 0 :=
  Vector.getElem_ofFn hk

/-- What `copyinstr` writes, and what stays. -/
theorem copyinstr_getElem (buf : MsgBuf) (bytes : List UInt8) :
    (copyinstr buf bytes)[k] = bytes.getD k buf[k] :=
  Vector.getElem_ofFn hk

end

/-- A string that fits is all that is in the buffer. -/
theorem copyinstr_accepted (str : List UInt8) :
    copyinstr .zero (str ++ [0]) = .ofString str := by
  apply Vector.ext
  intro k hk
  rw [copyinstr_getElem hk, zero_getElem hk, ofString_getElem hk, List.getD_eq_getElem?_getD,
    List.getD_eq_getElem?_getD]
  rcases Nat.lt_or_ge k str.length with hlt | hge
  · rw [List.getElem?_append_left hlt]
  · rw [List.getElem?_append_right hge, List.getElem?_eq_none_iff.mpr hge]
    cases k - str.length <;> rfl

theorem copyinstr_nil (buf : MsgBuf) : copyinstr buf [] = buf := by
  apply Vector.ext
  intro k hk
  rw [copyinstr_getElem hk]
  rfl

/-- A byte that is not zero shows. -/
theorem copyinstr_zero_ne {b : UInt8} {bytes : List UInt8} (hb : b ≠ 0) :
    copyinstr .zero (b :: bytes) ≠ .zero := by
  intro heq
  have hfirst := congrArg (fun buf : MsgBuf => buf[0]) heq
  simp only [copyinstr_getElem, zero_getElem, List.getD_cons_zero] at hfirst
  exact hb hfirst

/-! ## Runs over user memories -/

/-- An event, with the memory of the process that takes a section in it. -/
structure UserEvent where
  event : Event
  mem : UserMem

/-- `sizeof(p->msg_buf)`. -/
def msgSize : Nat := 64

/-- The event, with the outcome of `copyinstr` taken from the memory. -/
def UserEvent.inMemory (e : UserEvent) (s : KState) : Event :=
  match e.event with
  | .run i o =>
      match s.kpc i with
      | .call (.msgsend _ msg) =>
          let (bytes, ok) := e.mem.copyinstr msgSize msg.toNat
          .run i { o with bytes := bytes, copyOk := ok }
      | _ => .run i o
  | event => event

/-- The string that a `msgsend` of the event is called with. -/
def UserEvent.string (e : UserEvent) (s : KState) : List UInt8 :=
  match e.event with
  | .run i _ =>
      match s.kpc i with
      | .call (.msgsend _ msg) => e.mem.string msgSize msg.toNat
      | _ => []
  | _ => []

def memStep (e : UserEvent) (s : KState) : Option KState := step (e.inMemory s) s

/-- The string of the last `msgsend` to slot `j` that returned 0, since the
    slot was taken. -/
def sentNote (j : Fin nproc) (s : KState) (e : UserEvent) (t : KState)
    (last : Option (List UInt8)) : Option (List UInt8) :=
  if (t.proc j).state = .unused then none
  else
    match mailAction j s (e.inMemory s) t with
    | some (.send _) => some (e.string s)
    | _ => last

/-- The state after a step and the string last sent to slot `j`. -/
def sentStep (j : Fin nproc) : UserEvent → KState × Option (List UInt8) →
    Option (KState × Option (List UInt8)) :=
  Lib.observe memStep (sentNote j)

/-- The step treats mailbox `j` exactly: a `msgsend` that returns `-1` leaves
    its bytes as they are, and a `msgrecv` that returns 0 copies out the string
    last sent, followed by zeros. -/
structure ExactStep (j : Fin nproc) (x : KState × Option (List UInt8)) (e : UserEvent) : Prop where
  refused : ∀ t i pid msg, memStep e x.1 = some t →
    returned x.1 (e.inMemory x.1) t = some (i, .call (.msgsend pid msg), u64OfInt (-1)) →
    (t.proc j).msgBuf = (x.1.proc j).msgBuf
  received : ∀ t m, memStep e x.1 = some t →
    mailAction j x.1 (e.inMemory x.1) t = some (.receive m) →
    ∃ str, x.2 = some str ∧ m = .ofString str

/-- A string that a `msgsend` to the empty mailbox `j` is called with, and that
    does not end within 64 bytes, cannot be read at all. -/
def NoPartialCopy (j : Fin nproc) (s : KState) (e : UserEvent) : Prop :=
  ∀ i o pid msg, e.event = .run i o → s.kpc i = .call (.msgsend pid msg) →
    (s.proc j).state ≠ .unused → (s.proc j).pid = pid → (s.proc j).msgFlag = false →
    ¬ e.mem.Terminated msgSize msg.toNat → e.mem.byteAt msg.toNat = none

/-- The flag says whether the string last sent is in the buffer; otherwise it
    is zero. -/
structure BufInv (s : KState) (j : Fin nproc) (last : Option (List UInt8)) : Prop where
  empty : (s.proc j).msgFlag = false → (s.proc j).msgBuf = .zero
  full : (s.proc j).msgFlag = true → ∃ str, last = some str ∧ (s.proc j).msgBuf = .ofString str
  free : (s.proc j).state = .unused → (s.proc j).msgFlag = false

section

variable {s t : KState} {e : UserEvent} {i j : Fin nproc} {o : Outcome} {pid : Int}
  {msg : UInt64} {last : Option (List UInt8)}

/-! ## Sending -/

/-- The section of a `msgsend` over a user memory. -/
theorem memStep_msgsend (hat : s.At (e.inMemory s) i (.call (.msgsend pid msg)))
    (h : memStep e s = some t) : ∃ o, e.event = .run i o ∧
      e.inMemory s = .run i { o with
        bytes := (e.mem.copied msgSize msg.toNat).1
        copyOk := (e.mem.copied msgSize msg.toNat).2 } ∧
      e.string s = e.mem.string msgSize msg.toNat ∧
      t = msgsend s i { o with
        bytes := (e.mem.copied msgSize msg.toNat).1
        copyOk := (e.mem.copied msgSize msg.toNat).2 } pid := by
  obtain ⟨o', ho', hsection⟩ := step_call hat h
  obtain ⟨event, mem⟩ := e
  cases event with
  | run i' o =>
      have hi : i' = i := by
        simp only [UserEvent.inMemory] at ho'
        split at ho' <;> exact (Event.run.inj ho').1
      subst hi
      have hmem : UserEvent.inMemory ⟨.run i' o, mem⟩ s = .run i' { o with
          bytes := (mem.copied msgSize msg.toNat).1
          copyOk := (mem.copied msgSize msg.toNat).2 } := by
        simp only [UserEvent.inMemory, hat.2.2, UserMem.copyinstr_eq]
      have hstring : UserEvent.string ⟨.run i' o, mem⟩ s = mem.string msgSize msg.toNat := by
        simp only [UserEvent.string, hat.2.2]
      obtain rfl := (Event.run.inj (ho'.symm.trans hmem)).2
      exact ⟨o, rfl, hmem, hstring, (Option.some.inj hsection).symm⟩
  | _ => cases ho'

/-! ## Steps -/

/-- What a step does to the flag and the bytes of slot `j`. -/
inductive BufStep (s : KState) (e : UserEvent) (t : KState) (j : Fin nproc) :
    Option (MailAction MsgBuf) → Prop
  | stay (hsame : (s.proc j).SameMail (t.proc j))
      (hslot : (t.proc j).state = .unused → (s.proc j).state = .unused) : BufStep s e t j none
  /-- the slot is taken or freed -/
  | clear (hflag : (t.proc j).msgFlag = false) (hbuf : (t.proc j).msgBuf = .zero)
      (hcall : ∀ i pid msg, ¬ s.At (e.inMemory s) i (.call (.msgsend pid msg))) :
      BufStep s e t j none
  | accept {m : MsgBuf} (hempty : (s.proc j).msgFlag = false) (hflag : (t.proc j).msgFlag = true)
      (hbuf : (t.proc j).msgBuf = copyinstr (s.proc j).msgBuf (e.string s ++ [0]))
      (hused : (t.proc j).state ≠ .unused) : BufStep s e t j (some (.send m))
  /-- a `msgsend` fails in its copy -/
  | refuse {i : Fin nproc} {o : Outcome} {pid : Int} {msg : UInt64} (hevent : e.event = .run i o)
      (hkpc : s.kpc i = .call (.msgsend pid msg)) (hused : (s.proc j).state ≠ .unused)
      (hpid : (s.proc j).pid = pid) (hempty : (s.proc j).msgFlag = false)
      (hpart : ¬ e.mem.Terminated msgSize msg.toNat) (hflag : (t.proc j).msgFlag = false)
      (hbuf : (t.proc j).msgBuf =
        copyinstr (s.proc j).msgBuf (e.mem.string msgSize msg.toNat)) : BufStep s e t j none
  | receive (hfull : (s.proc j).msgFlag = true) (hflag : (t.proc j).msgFlag = false)
      (hbuf : (t.proc j).msgBuf = .zero) : BufStep s e t j (some (.receive (s.proc j).msgBuf))

/-- A send or a receive that fails is none. -/
theorem mailAction_returned {e : Event} {call : Call} {v : UInt64}
    (hret : returned s e t = some (i, .call call, v)) (hv : v ≠ 0) :
    mailAction j s e t = none := by
  unfold mailAction
  split
  · rename_i i' call' v' heq
    rw [hret, Option.some.injEq, Prod.mk.injEq, Prod.mk.injEq] at heq
    obtain ⟨-, -, rfl⟩ := heq
    exact if_neg hv
  · rfl

section

variable (hs : s.TreeInv) (hat : s.At (e.inMemory s) i (.call (.msgsend pid msg)))
  (h : memStep e s = some t) (hused : (s.proc j).state ≠ .unused) (hpid : (s.proc j).pid = pid)
include hs hat h hused hpid

/-- A `msgsend` to a full mailbox leaves it as it is. -/
theorem msgsend_full (hfull : (s.proc j).msgFlag = true) :
    BufStep s e t j (mailAction j s (e.inMemory s) t) := by
  obtain ⟨o, -, hmem, -, rfl⟩ := memStep_msgsend hat h
  rw [hmem] at hat ⊢
  generalize e.mem.copied msgSize msg.toNat = c at hat ⊢
  obtain ⟨hmail, hstate⟩ := msgsend_target hs hused hpid
  rw [msgsendProc_full hfull] at hmail
  rw [msgsend_action hs hat hused hpid, if_neg (by simp [hfull])]
  exact .stay hmail fun hunused => absurd hunused hstate

/-- A string that ends in time is accepted. -/
theorem msgsend_accepted (hempty : (s.proc j).msgFlag = false)
    (hends : e.mem.Terminated msgSize msg.toNat) :
    BufStep s e t j (mailAction j s (e.inMemory s) t) := by
  obtain ⟨o, -, hmem, hstring, rfl⟩ := memStep_msgsend hat h
  have hcopied : e.mem.copied msgSize msg.toNat =
      (e.mem.string msgSize msg.toNat ++ [0], true) := if_pos hends
  rw [← hstring] at hcopied
  rw [hcopied] at hmem ⊢
  rw [hmem] at hat ⊢
  obtain ⟨hmail, hstate⟩ := @msgsend_target s i j
    { o with bytes := e.string s ++ [0], copyOk := true } pid hs hused hpid
  rw [msgsendProc_copied hempty] at hmail
  rw [msgsend_action hs hat hused hpid, if_pos ⟨hempty, rfl⟩]
  exact .accept hempty hmail.msgFlag hmail.msgBuf hstate

/-- A copy that fails leaves what it got to write, and the call returns `-1`. -/
theorem msgsend_refused (hempty : (s.proc j).msgFlag = false)
    (hpart : ¬ e.mem.Terminated msgSize msg.toNat) :
    (t.proc j).msgFlag = false ∧
      (t.proc j).msgBuf = copyinstr (s.proc j).msgBuf (e.mem.string msgSize msg.toNat) ∧
      returned s (e.inMemory s) t = some (i, .call (.msgsend pid msg), u64OfInt (-1)) := by
  obtain ⟨o, -, hmem, -, rfl⟩ := memStep_msgsend hat h
  have hcopied : e.mem.copied msgSize msg.toNat = (e.mem.string msgSize msg.toNat, false) :=
    if_neg hpart
  rw [hcopied] at hmem ⊢
  rw [hmem] at hat ⊢
  obtain ⟨hmail, -⟩ := @msgsend_target s i j { o with
    bytes := e.mem.string msgSize msg.toNat
    copyOk := false } pid hs hused hpid
  rw [msgsendProc_notCopied hempty] at hmail
  refine ⟨hmail.msgFlag.trans hempty, hmail.msgBuf, ?_⟩
  rw [msgsend_eq hs hused hpid, msgsendAt, msgsendProc_notCopied hempty]
  exact returned_retInt hat

end

/-- What a send does to the buffer of a process. -/
theorem msgsend_bufStep (hs : s.TreeInv)
    (hat : s.At (e.inMemory s) i (.call (.msgsend pid msg))) (h : memStep e s = some t) :
    BufStep s e t j (mailAction j s (e.inMemory s) t) := by
  by_cases htarget : (s.proc j).state ≠ .unused ∧ (s.proc j).pid = pid
  · obtain ⟨hused, hpid⟩ := htarget
    cases hempty : (s.proc j).msgFlag with
    | true => exact msgsend_full hs hat h hused hpid hempty
    | false =>
        by_cases hends : e.mem.Terminated msgSize msg.toNat
        · exact msgsend_accepted hs hat h hused hpid hempty hends
        · obtain ⟨hflag, hbuf, hret⟩ := msgsend_refused hs hat h hused hpid hempty hends
          obtain ⟨o, hevent, -⟩ := memStep_msgsend hat h
          rw [mailAction_returned hret (by decide)]
          exact .refuse hevent hat.2.2 hused hpid hempty hends hflag hbuf
  · -- the mailbox of another slot
    rw [mailAction_of_call hat fun o => if_neg htarget]
    obtain ⟨o, -, -, -, rfl⟩ := memStep_msgsend hat h
    have hother : (s.proc j).state ≠ .unused → (s.proc j).pid ≠ pid :=
      fun hused hpid => htarget ⟨hused, hpid⟩
    obtain ⟨hmail, hslot⟩ := msgsend_other hother
    exact .stay hmail hslot

/-- A `msgrecv` of a full mailbox empties it, or fails and leaves it. -/
theorem msgrecv_bufStep {buf : UInt64}
    (hat : s.At (e.inMemory s) i (.call (.msgrecv buf))) (h : memStep e s = some t) :
    BufStep s e t i (mailAction i s (e.inMemory s) t) := by
  obtain ⟨o, ho, hsection⟩ := step_call hat h
  obtain rfl := Option.some.inj hsection
  have hused : (s.proc i).state ≠ .unused := by simp [hat.running]
  rw [ho] at hat ⊢
  rw [msgrecv]
  split
  · rename_i hfull
    rw [KState.setRet]
    cases hcopy : o.copyOk with
    | true =>
        have hmail := @retInt_sameMail (s.setProc i (msgrecvProc (s.proc i) true).1) i i 0
        rw [setProc_proc, Function.update_self] at hmail
        have haction : mailAction i s (.run i o)
            ((s.setProc i (msgrecvProc (s.proc i) true).1).retInt i 0) =
              some (.receive (s.proc i).msgBuf) := by
          rw [mailAction_done hat]
          exact if_pos rfl
        rw [show (msgrecvProc (s.proc i) true).2 = 0 from rfl, haction]
        exact .receive hfull hmail.msgFlag hmail.msgBuf
    | false =>
        have hmail := @retInt_sameMail (s.setProc i (msgrecvProc (s.proc i) false).1) i i (-1)
        rw [setProc_proc, Function.update_self] at hmail
        rw [show (msgrecvProc (s.proc i) false).2 = -1 from rfl, mailAction_failed hat]
        refine .stay hmail ?_
        intro hunused
        rwa [retInt_state, setProc_proc, Function.update_self] at hunused
  · have hnone : returned s (.run i o) (s.sleep i (.msgFlag i) (.msgrecv buf)) = none :=
      returned_none hat (by simp [KState.sleep])
    have haction : mailAction i s (.run i o) (s.sleep i (.msgFlag i) (.msgrecv buf)) = none := by
      simp only [mailAction, hnone]
    rw [haction]
    refine .stay ?_ ?_
    · simp only [KState.sleep, setKpc_proc, setProc_proc, Function.update_self]
      exact ⟨rfl, rfl⟩
    · intro hunused
      simp [KState.sleep, sleepOn] at hunused

/-- Every step over a user memory is one of these. -/
theorem memStep_bufStep (hs : s.TreeInv) (j : Fin nproc) (h : memStep e s = some t) :
    BufStep s e t j (mailAction j s (e.inMemory s) t) := by
  by_cases hsend : ∃ i pid msg, s.At (e.inMemory s) i (.call (.msgsend pid msg))
  · obtain ⟨i, pid, msg, hat⟩ := hsend
    exact msgsend_bufStep hs hat h
  by_cases hrecv : ∃ buf, s.At (e.inMemory s) j (.call (.msgrecv buf))
  · obtain ⟨buf, hat⟩ := hrecv
    exact msgrecv_bufStep hat h
  · simp only [not_exists] at hsend hrecv
    rw [mailAction_none h hsend hrecv]
    rcases bufKept_of_step h hsend hrecv with ⟨hsame, hslot⟩ | ⟨⟨hflag, hbuf⟩, -⟩
    · exact .stay hsame hslot
    · exact .clear hflag hbuf hsend

/-! ## Runs -/

/-- Every step keeps the last message in the buffer, if no copy is cut short. -/
theorem bufInv_of_memStep (hs : s.TreeInv) (hinv : BufInv s j last) (hclean : NoPartialCopy j s e)
    (h : memStep e s = some t) : BufInv t j (sentNote j s e t last) := by
  have hstep := memStep_bufStep hs j h
  rw [sentNote]
  generalize mailAction j s (e.inMemory s) t = a at hstep
  cases hstep with
  | stay hsame hslot =>
      refine ⟨?_, ?_, ?_⟩
      · intro hflag
        rw [hsame.msgBuf]
        exact hinv.empty (hsame.msgFlag.symm.trans hflag)
      · intro hflag
        have hused : (t.proc j).state ≠ .unused := fun hunused => by
          have hfree := hsame.msgFlag.trans (hinv.free (hslot hunused))
          simp [hflag] at hfree
        rw [if_neg hused, hsame.msgBuf]
        exact hinv.full (hsame.msgFlag.symm.trans hflag)
      · intro hunused
        exact hsame.msgFlag.trans (hinv.free (hslot hunused))
  | clear hflag hbuf _ => exact ⟨fun _ => hbuf, by simp [hflag], fun _ => hflag⟩
  | accept hempty hflag hbuf hused =>
      refine ⟨by simp [hflag], fun _ => ⟨e.string s, if_neg hused, ?_⟩, ?_⟩
      · rw [hbuf, hinv.empty hempty, copyinstr_accepted]
      · intro hunused
        exact absurd hunused hused
  | refuse hevent hkpc hused hpid hempty hpart hflag hbuf =>
      refine ⟨fun _ => ?_, by simp [hflag], fun _ => hflag⟩
      have hnone := hclean _ _ _ _ hevent hkpc hused hpid hempty hpart
      rw [hbuf, UserMem.string_none hnone, copyinstr_nil]
      exact hinv.empty hempty
  | receive hfull hflag hbuf => exact ⟨fun _ => hbuf, by simp [hflag], fun _ => hflag⟩

/-- So every step is exact. -/
theorem exactStep_of_bufInv (hs : s.TreeInv) (hinv : BufInv s j last)
    (hclean : NoPartialCopy j s e) : ExactStep j (s, last) e where
  refused t i pid msg h hret := by
    obtain ⟨hat, -, -⟩ := returned_eq_some h hret
    have hstep := memStep_bufStep hs j h
    rw [mailAction_returned hret (by decide)] at hstep
    generalize haction : (none : Option (MailAction MsgBuf)) = a at hstep
    cases hstep with
    | stay hsame _ => exact hsame.msgBuf
    | clear _ _ hcall => exact absurd hat (hcall _ _ _)
    | accept _ _ _ _ => cases haction
    | refuse hevent hkpc hused hpid hempty hpart _ hbuf =>
        have hnone := hclean _ _ _ _ hevent hkpc hused hpid hempty hpart
        rw [hbuf, UserMem.string_none hnone, copyinstr_nil]
    | receive _ _ _ => cases haction
  received t m h haction := by
    have hstep := memStep_bufStep hs j h
    rw [haction] at hstep
    cases hstep with
    | receive hfull _ _ => exact hinv.full hfull

/-- A process that is in `msgsend` runs it. -/
theorem memStep_at (hevent : e.event = .run i o) (hkpc : s.kpc i = .call (.msgsend pid msg))
    (h : memStep e s = some t) : s.At (e.inMemory s) i (.call (.msgsend pid msg)) := by
  have hmem : e.inMemory s = .run i { o with
      bytes := (e.mem.copyinstr msgSize msg.toNat).1
      copyOk := (e.mem.copyinstr msgSize msg.toNat).2 } := by
    simp only [UserEvent.inMemory, hevent, hkpc]
  rw [memStep, hmem] at h
  rw [hmem]
  simp only [step, Option.ite_none_right_eq_some] at h
  exact ⟨⟨_, rfl⟩, h.1, hkpc⟩

/-- A partial copy into a zero buffer shows. -/
theorem noPartialCopy_of_exactStep (hs : s.TreeInv) (hinv : BufInv s j last)
    (hexact : ExactStep j (s, last) e) (h : memStep e s = some t) : NoPartialCopy j s e := by
  intro i o pid msg hevent hkpc hused hpid hempty hpart
  have hat := memStep_at hevent hkpc h
  obtain ⟨-, hbuf, hret⟩ := msgsend_refused hs hat h hused hpid hempty hpart
  have hsame := hexact.refused t i pid msg h hret
  by_contra hreadable
  cases hstring : e.mem.string msgSize msg.toNat with
  | nil => exact hreadable ((UserMem.string_eq_nil_iff (by decide) hpart).mp hstring)
  | cons b rest =>
      have hb : b ≠ 0 := UserMem.string_nonzero (hstring ▸ List.mem_cons_self)
      rw [hbuf, hstring, hinv.empty hempty] at hsame
      exact copyinstr_zero_ne hb hsame

theorem bootState_bufInv : BufInv bootState j none where
  empty _ := by
    by_cases hj : j = initSlot
    · subst hj
      rfl
    · simp [bootState, hj, procinit]
  full hflag := by
    have hmail := bootState_mail (j := j)
    simp [Proc.mail, hflag] at hmail
  free _ := by
    have hmail := bootState_mail (j := j)
    by_contra hflag
    simp [Proc.mail, hflag] at hmail

/-- **Messages are exact.**  In every run over user memories, each step treats
    mailbox `j` exactly (a refused message changes nothing, a received one is
    the string last accepted, followed by zeros) precisely if no refused
    string for it could be read in part. -/
theorem mailbox_exact_iff (j : Fin nproc) (es : List UserEvent) :
    Lib.AllSteps (sentStep j) (ExactStep j) es (bootState, none) ↔
      Lib.AllSteps (sentStep j) (fun x e => NoPartialCopy j x.1 e) es (bootState, none) := by
  have hboot : Reachable bootState := Lib.Steps.refl
  refine Lib.allSteps_iff (I := fun x => Reachable x.1 ∧ BufInv x.1 j x.2) ?_ ?_
    ⟨hboot, bootState_bufInv⟩
  · rintro ⟨s, last⟩ e y ⟨hreach, hinv⟩ hy
    obtain ⟨ht, -⟩ := Lib.observe_eq_some.mp hy
    exact ⟨fun hexact => noPartialCopy_of_exactStep hreach.treeInv hinv hexact ht,
      fun hclean => exactStep_of_bufInv hreach.treeInv hinv hclean⟩
  · rintro ⟨s, last⟩ e ⟨t, last'⟩ ⟨hreach, hinv⟩ hclean hy
    obtain ⟨ht, hlast⟩ := Lib.observe_eq_some.mp hy
    dsimp only at hlast ⊢
    rw [hlast]
    exact ⟨hreach.tail trivial ht, bufInv_of_memStep hreach.treeInv hinv hclean ht⟩

end

/-! ## A stale message -/

/-- A page of the letter `A`. -/
def pageOfA : UserMem := ⟨fun _ => true, fun _ => 65⟩

/-- The string `Hi` at address 0. -/
def hiMem : UserMem := ⟨fun _ => true, fun va => [72, 105].getD va 0⟩

/-- A system call of the first process to itself, up to the section of its
    function. -/
def selfCall (num a0 a1 : UInt64) (mem : UserMem) : List UserEvent :=
  [⟨.trap initSlot (ecallRegs num a0 a1 0) .ecall, mem⟩, ⟨.run initSlot {}, mem⟩,
    ⟨.run initSlot {}, mem⟩]

/-- The first process sends itself a string that does not end within 64
    bytes, and then `Hi`, and makes a call of `msgrecv`. -/
def staleEvents : List UserEvent :=
  bootEvents.map (⟨·, pageOfA⟩) ++ selfCall 27 1 0 pageOfA ++
    (returnEvents initSlot).map (⟨·, pageOfA⟩) ++ selfCall 27 1 0 hiMem ++
    (returnEvents initSlot).map (⟨·, hiMem⟩) ++ (selfCall 28 0 0 hiMem).take 2

def staleState : KState × Option (List UInt8) :=
  Lib.endState (sentStep initSlot) staleEvents (bootState, none)

/-- The receiver gets `Hi` with the letters of the refused string after its
    NUL. -/
theorem stale_bytes_received :
    ¬ ∀ (j : Fin nproc) (es : List UserEvent),
        Lib.AllSteps (sentStep j) (ExactStep j) es (bootState, none) := by
  intro h
  have hrun := @Lib.runEvents_endState _ _ (sentStep initSlot) (bootState, none) staleEvents
    (by decide +kernel)
  have hexact := (h initSlot (staleEvents ++ [⟨.run initSlot {}, hiMem⟩])).last hrun
    (Lib.step_endState (by decide +kernel))
  obtain ⟨str, hstr, hreceived⟩ := hexact.received _ (staleState.1.proc initSlot).msgBuf
    (Lib.step_endState (by decide +kernel)) (by decide +kernel)
  have hsent : staleState.2 = some [72, 105] := by decide +kernel
  obtain rfl := Option.some.inj (hsent.symm.trans hstr)
  revert hreceived
  decide +kernel

end G20OsLab.Kernel
