import Safepoint.HostCall

/-!
# What the accesses of a call do

Each access of a call through a handle touches one part of the mailbox. There is one lemma for each
part, which says what an access makes of it.
-/

namespace Safepoint.HostPhase

variable {κ : Type}

/-- The action that an access puts in the queue. -/
def enqueued? : HostPhase κ → Option κ
  | enqueue action => some action
  | _ => none

/-- Whether an access arms the hook. -/
def arms : HostPhase κ → Bool
  | armForAction | armForCancel _ => true
  | _ => false

/-- Whether an access takes part in withdrawing a cancellation. -/
def reverts : HostPhase κ → Bool
  | lowerFlag | clearMessage => true
  | _ => false

/-- A call puts into the queue the action it was made with, at one access, and takes nothing out. -/
theorem queue_step (m : Mailbox κ) (p : HostPhase κ) :
    (p.step m).1.queue = m.queue ++ p.enqueued?.toList := by
  cases p with
  -- the access that queues, and those that touch other parts of the mailbox, differ by what is in
  -- the phase only
  | reach call => cases hk : m.isKept <;> simp [step, enqueued?, hk, Mailbox.keep]
  | _ =>
    simp [step, enqueued?, Mailbox.arm, Mailbox.storeMessage, Mailbox.storeFlag, Mailbox.abandon]

/-- A call arms the hook at the access that is for it, and never disarms it. -/
theorem mask_step (m : Mailbox κ) (p : HostPhase κ) :
    (p.step m).1.slot.mask = if p.arms then .armed else m.slot.mask := by
  cases p with
  | reach call => cases hk : m.isKept <;> simp [step, arms, hk, Mailbox.keep]
  | _ =>
    simp [step, arms, Mailbox.enqueue, Mailbox.storeMessage, Mailbox.storeFlag, Mailbox.abandon]

/-- What a call may write: who keeps the mailbox, the mask, the queue, the flag and the message. -/
theorem step_eq (m : Mailbox κ) (p : HostPhase κ) : ∃ keepers mask queue cancelFlag cancelMessage,
    (p.step m).1 =
      { m with keepers, slot := { m.slot with mask }, queue, cancelFlag, cancelMessage } := by
  cases p with
  | reach call =>
    simp only [step]
    split <;> exact ⟨_, _, _, _, _, rfl⟩
  | readMessage => exact ⟨_, _, _, _, _, m.readMessage_fst⟩
  | _ => exact ⟨_, _, _, _, _, rfl⟩

/-- No call touches the threshold of count events. -/
theorem threshold_step (m : Mailbox κ) (p : HostPhase κ) :
    (p.step m).1.slot.threshold = m.slot.threshold := by
  obtain ⟨_, _, _, _, _, hstep⟩ := step_eq m p
  rw [hstep]

/-- No call marks the queue as being drained, nor takes the mark away. -/
theorem draining_step (m : Mailbox κ) (p : HostPhase κ) :
    (p.step m).1.draining = m.draining := by
  obtain ⟨_, _, _, _, _, hstep⟩ := step_eq m p
  rw [hstep]

/-- No call counts as an entry of the handler. -/
theorem invocations_step (m : Mailbox κ) (p : HostPhase κ) :
    (p.step m).1.invocations = m.invocations := by
  obtain ⟨_, _, _, _, _, hstep⟩ := step_eq m p
  rw [hstep]

/-- The message is written by two kinds of access only: one stores it and one clears it. -/
theorem cancelMessage_step (m : Mailbox κ) (p : HostPhase κ) :
    (p.step m).1.cancelMessage = match p with
      | storeMessage text encoding => some (.ofText text encoding)
      | clearMessage => none
      | _ => m.cancelMessage := by
  cases p with
  | reach call => cases hk : m.isKept <;> simp [step, hk, Mailbox.keep]
  | _ =>
    simp [step, Mailbox.enqueue, Mailbox.arm, Mailbox.storeMessage, Mailbox.storeFlag,
      Mailbox.abandon]

/-- The flag is raised by a cancellation, and lowered by its withdrawal or where no message is found
behind it. -/
theorem cancelFlag_step (m : Mailbox κ) (p : HostPhase κ) :
    (p.step m).1.cancelFlag = match p with
      | raiseFlag _ => true
      | lowerFlag => false
      | readMessage => m.cancelFlag && m.cancelMessage.isSome
      | _ => m.cancelFlag := by
  cases p with
  | reach call => cases hk : m.isKept <;> simp [step, hk, Mailbox.keep]
  -- among the others is the reader, which lowers the flag if it finds no message
  | _ =>
    simp [step, Mailbox.enqueue, Mailbox.arm, Mailbox.storeMessage, Mailbox.storeFlag,
      Mailbox.abandon]

end Safepoint.HostPhase
