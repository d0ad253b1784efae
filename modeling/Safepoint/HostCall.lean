import Safepoint.Mailbox
import Safepoint.Notice
import Safepoint.Syncpoint

/-!
# Calls of host threads

What a host does through a handle. A call is a short sequence of atomic accesses to the mailbox, and
a `HostPhase` is what is left of it, so a call can be stopped between any two and other threads come
in. A call first makes sure that the mailbox is kept and keeps it until it is over. To interject is
to queue the action and then arm the hook; to cancel is to store the message, to raise the flag, and
to arm the hook; to revert is to lower the flag and to take the message away.
-/

namespace Safepoint

variable {κ : Type}

/-- What a host asks through a handle. -/
inductive HostCall (κ : Type) where
  /-- Run an action at the next safepoint. -/
  | interject (action : κ)
  /-- Raise a cancellation with this message at every safepoint from now on. -/
  | cancel (text : String) (encoding : Encoding)
  /-- Withdraw a cancellation. -/
  | revert
  | isCancelPending
  | pendingActions
  | invocations
  | hookSlot

/-- What a host is answered. -/
inductive HostAnswer where
  | done
  | flag (b : Bool)
  | count (n : Nat)
  | slot (s : HookSlot)
deriving DecidableEq, Repr

/-- What is left of a host's call: the next access, or how it ended. -/
inductive HostPhase (κ : Type) where
  /-- Nothing has been done yet. -/
  | reach (call : HostCall κ)
  | enqueue (action : κ)
  | armForAction
  | storeMessage (text : String) (encoding : Encoding)
  | raiseFlag (text : String)
  | armForCancel (text : String)
  | lowerFlag
  | clearMessage
  | readFlag
  | readMessage
  | readLength
  | readInvocations
  | readSlot
  /-- Nothing is left but to let go of the mailbox. -/
  | letGo (answer : HostAnswer)
  | finished (ending : Except Error HostAnswer)

namespace HostPhase

/-- The first access that a call is made for. -/
def first : HostCall κ → HostPhase κ
  | .interject action => enqueue action
  | .cancel text encoding => storeMessage text encoding
  | .revert => lowerFlag
  | .isCancelPending => readFlag
  | .pendingActions => readLength
  | .invocations => readInvocations
  | .hookSlot => readSlot

/-- The next access of a call: the mailbox after it, what is left of the call, and what an observer
is told. -/
def step (m : Mailbox κ) : HostPhase κ → Mailbox κ × HostPhase κ × List Notice
  | reach call =>
    if m.isKept then (m.keep, first call, []) else (m, finished (.error .invalidHandle), [])
  | enqueue action => (m.enqueue action, armForAction, [])
  | armForAction => (m.arm, letGo .done, [.actionInterjected])
  | storeMessage text encoding =>
    (m.storeMessage (some (.ofText text encoding)), raiseFlag text, [])
  | raiseFlag text => (m.storeFlag true, armForCancel text, [])
  | armForCancel text => (m.arm, letGo .done, [.cancellationRequested text])
  -- a flag that is raised before the message is cleared has none behind it, until it is read
  | lowerFlag => (m.storeFlag false, clearMessage, [])
  | clearMessage => (m.storeMessage none, letGo .done, [.cancellationReverted])
  | readFlag => (m, if m.cancelFlag then readMessage else letGo (.flag false), [])
  | readMessage =>
    let (m', message) := m.readMessage
    (m', letGo (.flag message.isSome), [])
  | readLength => (m, letGo (.count m.queue.length), [])
  | readInvocations => (m, letGo (.count m.invocations), [])
  | readSlot => (m, letGo (.slot m.slot), [])
  | letGo answer => (m.abandon, finished (.ok answer), [])
  | finished ending => (m, finished ending, [])

/-- The syncpoint that stands before the next access. -/
def gate? : HostPhase κ → Option TestPoint
  | armForAction => some .interjectAfterEnqueue
  | raiseFlag _ => some .cancelAfterStoringMessage
  | _ => none

/-- How a call ended, if it is over. -/
def ending? : HostPhase κ → Option (Except Error HostAnswer)
  | finished ending => some ending
  | _ => none

/-- Accesses that are left at most. -/
def remaining : HostPhase κ → Nat
  | reach _ => 5
  | storeMessage .. => 4
  | enqueue _ | raiseFlag _ | lowerFlag | readFlag => 3
  | letGo _ => 1
  | finished _ => 0
  | _ => 2

/-- Each access brings a call nearer to its end, so that no call goes on for ever. -/
theorem remaining_step (m : Mailbox κ) (p : HostPhase κ) (h : p.ending? = none) :
    (p.step m).2.1.remaining < p.remaining := by
  cases p with
  | reach call =>
    cases call <;> cases hk : m.isKept <;> simp [step, remaining, first, hk]
  | readFlag => cases hf : m.cancelFlag <;> simp [step, remaining, hf]
  | _ => simp_all [step, remaining, ending?]

end HostPhase

end Safepoint
