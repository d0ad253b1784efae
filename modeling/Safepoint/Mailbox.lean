import Safepoint.Error
import Safepoint.Hook

/-!
# Mailboxes

What host threads share with one interpreter: the hook slot, the queue of actions that wait to run,
and the cancellation that may be pending. Every operation here is one atomic access: a load or a
store of one word, or one section under a lock. What hosts and the safepoint handler do are
sequences of them, and other threads may come in between any two.

A mailbox lasts as long as something keeps it: the hook of its interpreter, until that is closed,
and every call that is being made through a handle. A handle itself keeps nothing, so once the last
keeper is gone its calls fail.

A pending cancellation is kept twice. The message decides; the flag is a hint that spares the lock
when nothing is pending. `readMessage` lowers a flag that has no message behind it, and answers the
message whatever the flag says (`readMessage_snd`).
-/

namespace Safepoint

variable {κ : Type}

/-- The state that an interpreter shares with its handles. The type `κ` is the code of actions. -/
structure Mailbox (κ : Type) where
  /-- The hook and the calls that keep the mailbox. -/
  keepers : Nat
  slot : HookSlot
  /-- Actions that wait, the oldest first. -/
  queue : List κ
  cancelFlag : Bool
  cancelMessage : Option Message
  /-- Whether a drain pass is under way. -/
  draining : Bool
  /-- How often the handler was entered. -/
  invocations : Nat

namespace Mailbox

/-- A mailbox with nothing in it, which nothing keeps. -/
def empty : Mailbox κ :=
  { keepers := 0
    slot := .initial
    queue := []
    cancelFlag := false
    cancelMessage := none
    draining := false
    invocations := 0 }

/-- Whether handles of this mailbox are valid. -/
def isKept (m : Mailbox κ) : Bool :=
  0 < m.keepers

/-- One more keeper. -/
def keep (m : Mailbox κ) : Mailbox κ :=
  { m with keepers := m.keepers + 1 }

/-- One keeper fewer. -/
def abandon (m : Mailbox κ) : Mailbox κ :=
  { m with keepers := m.keepers - 1 }

/-- Arms the hook for every event. -/
def arm (m : Mailbox κ) : Mailbox κ :=
  { m with slot := { m.slot with mask := .armed } }

/-- Disarms the hook. -/
def disarm (m : Mailbox κ) : Mailbox κ :=
  { m with slot := { m.slot with mask := .empty } }

/-- Puts an action at the end of the queue. -/
def enqueue (m : Mailbox κ) (action : κ) : Mailbox κ :=
  { m with queue := m.queue ++ [action] }

/-- Takes the oldest action off the queue. -/
def pop? (m : Mailbox κ) : Option (κ × Mailbox κ) :=
  match m.queue with
  | [] => none
  | action :: rest => some (action, { m with queue := rest })

/-- Stores the message of a cancellation, or takes it away. -/
def storeMessage (m : Mailbox κ) (message : Option Message) : Mailbox κ :=
  { m with cancelMessage := message }

/-- Raises or lowers the flag. -/
def storeFlag (m : Mailbox κ) (flag : Bool) : Mailbox κ :=
  { m with cancelFlag := flag }

/-- Reads the message under its lock, and lowers the flag if there is none. -/
def readMessage (m : Mailbox κ) : Mailbox κ × Option Message :=
  match m.cancelMessage with
  | some message => (m, some message)
  -- under the lock, so no message can have come between
  | none => (m.storeFlag false, none)

/-- Counts one more entry of the handler. -/
def countInvocation (m : Mailbox κ) : Mailbox κ :=
  { m with invocations := m.invocations + 1 }

/-- Marks that a drain pass is under way, or that it is over. -/
def storeDraining (m : Mailbox κ) (draining : Bool) : Mailbox κ :=
  { m with draining }

@[simp] theorem mask_arm (m : Mailbox κ) : m.arm.slot.mask = .armed := rfl

@[simp] theorem mask_disarm (m : Mailbox κ) : m.disarm.slot.mask = .empty := rfl

@[simp] theorem queue_enqueue (m : Mailbox κ) (action : κ) :
    (m.enqueue action).queue = m.queue ++ [action] := rfl

/-- There is nothing to pop where nothing waits. -/
theorem pop?_of_nil {m : Mailbox κ} (h : m.queue = []) : m.pop? = none := by
  rw [pop?, h]

/-- What is popped was the front of the queue, and nothing else changes. -/
theorem pop?_of_cons {m : Mailbox κ} {action : κ} {rest : List κ} (h : m.queue = action :: rest) :
    m.pop? = some (action, { m with queue := rest }) := by
  rw [pop?, h]

/-- Reading answers the message that is stored, whatever the flag says. -/
@[simp] theorem readMessage_snd (m : Mailbox κ) : m.readMessage.2 = m.cancelMessage := by
  unfold readMessage
  split <;> simp_all

/-- To read a message that is there writes nothing. -/
theorem readMessage_of_some {m : Mailbox κ} {message : Message}
    (h : m.cancelMessage = some message) : m.readMessage = (m, some message) := by
  rw [readMessage, h]

/-- A missing message costs the flag. -/
theorem readMessage_of_none {m : Mailbox κ} (h : m.cancelMessage = none) :
    m.readMessage = (m.storeFlag false, none) := by
  rw [readMessage, h]

/-- Reading writes the flag at most, which stays up where there is a message. -/
@[simp] theorem readMessage_fst (m : Mailbox κ) :
    m.readMessage.1 = { m with cancelFlag := m.cancelFlag && m.cancelMessage.isSome } := by
  cases h : m.cancelMessage with
  | none => rw [readMessage_of_none h, Option.isSome_none, Bool.and_false, storeFlag, h]
  | some message => rw [readMessage_of_some h, Option.isSome_some, Bool.and_true, ← h]

/-- Whoever keeps a mailbox keeps it reachable. -/
@[simp] theorem isKept_keep (m : Mailbox κ) : m.keep.isKept = true := by
  simp [keep, isKept]

@[simp] theorem abandon_keep (m : Mailbox κ) : m.keep.abandon = m := rfl

end Mailbox

end Safepoint
