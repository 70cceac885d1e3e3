/-
  G20OsLab.Lib.Mailbox

  One-place mailboxes.

  A mailbox is empty or holds one message; `send` fills it and `receive`
  empties it.  In the history of its actions, newest first, sends and receives
  alternate, and each receive takes the message sent just before it.
-/

import Mathlib.Data.Option.Basic

namespace G20OsLab.Lib

variable {α : Type _}

inductive MailAction (α : Type _)
  | send (m : α)
  | receive (m : α)
  deriving DecidableEq, Repr

/-- The content after an action, if the action is possible. -/
def mailStep [DecidableEq α] : MailAction α → Option α → Option (Option α)
  | .send m, none => some (some m)
  | .receive m, some m' => if m = m' then some none else none
  | _, _ => none

/-- The message sent and not received yet. -/
def unread : List (MailAction α) → Option α
  | .send m :: _ => some m
  | _ => none

@[simp] theorem unread_nil : unread ([] : List (MailAction α)) = none := rfl

/-- Sends and receives alternate, starting with a send, and every receive is
    that of the last message sent. -/
def Alternates : List (MailAction α) → Prop
  | [] => True
  | .send _ :: h => unread h = none ∧ Alternates h
  | .receive m :: h => unread h = some m ∧ Alternates h

/-- Every possible action continues an alternating history. -/
theorem Alternates.step [DecidableEq α] {h : List (MailAction α)} {a : MailAction α}
    {v : Option α} (hh : Alternates h) (ha : mailStep a (unread h) = some v) :
    Alternates (a :: h) ∧ unread (a :: h) = v := by
  cases a with
  | send m =>
      cases hv : unread h with
      | none =>
          rw [hv] at ha
          exact ⟨⟨hv, hh⟩, Option.some.inj ha⟩
      | some m' => simp [hv, mailStep] at ha
  | receive m =>
      cases hv : unread h with
      | none => simp [hv, mailStep] at ha
      | some m' =>
          simp only [hv, mailStep, Option.ite_none_right_eq_some, Option.some.injEq] at ha
          obtain ⟨rfl, rfl⟩ := ha
          exact ⟨⟨hv, hh⟩, rfl⟩

end G20OsLab.Lib
