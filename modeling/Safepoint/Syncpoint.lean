/-!
# Syncpoints

Places where a thread can be stopped by another, so that a test can force one interleaving. A
syncpoint is three flags. The side that stops it arms it, may wait until a check has arrived, and
later resumes it; a thread that reaches it checks it. The first check after an arming takes the
armed flag away, tells that it has arrived, and polls until it is released; every other check goes
straight through. Each access below is one atomic load, store or swap.
-/

namespace Safepoint

/-- The flags of one syncpoint. -/
structure Syncpoint where
  /-- The next check is to stop. -/
  armed : Bool
  /-- A check has stopped. -/
  arrived : Bool
  /-- The check that has stopped may go on. -/
  released : Bool
deriving DecidableEq, Repr

namespace Syncpoint

/-- A syncpoint that stops nobody. -/
def idle : Syncpoint := ⟨false, false, false⟩

/-- What is left to do of an arming: three stores. -/
inductive Arming where
  | clearArrived
  | clearReleased
  | raiseArmed
  | finished
deriving DecidableEq, Repr

/-- One store of an arming. -/
def Arming.step (s : Syncpoint) : Arming → Syncpoint × Arming
  | clearArrived => ({ s with arrived := false }, clearReleased)
  | clearReleased => ({ s with released := false }, raiseArmed)
  | raiseArmed => ({ s with armed := true }, finished)
  | finished => (s, finished)

/-- What is left to do of a check: a swap, and if it found the syncpoint armed a store and the polls
for the release. -/
inductive Checking where
  | swapArmed
  | raiseArrived
  | poll
  | passed
deriving DecidableEq, Repr

/-- One access of a check. A poll that finds no release is made again. -/
def Checking.step (s : Syncpoint) : Checking → Syncpoint × Checking
  | swapArmed => ({ s with armed := false }, if s.armed then raiseArrived else passed)
  | raiseArrived => ({ s with arrived := true }, poll)
  | poll => (s, if s.released then passed else poll)
  | passed => (s, passed)

/-- What is left to do of a wait for an arrival: the polls. -/
inductive Pausing where
  | poll
  | finished
deriving DecidableEq, Repr

/-- One access of a wait. A poll that finds no arrival is made again. -/
def Pausing.step (s : Syncpoint) : Pausing → Syncpoint × Pausing
  | poll => (s, if s.arrived then finished else poll)
  | finished => (s, finished)

/-- What is left to do of a resumption: two stores. -/
inductive Resuming where
  | clearArmed
  | raiseReleased
  | finished
deriving DecidableEq, Repr

/-- One store of a resumption. -/
def Resuming.step (s : Syncpoint) : Resuming → Syncpoint × Resuming
  | clearArmed => ({ s with armed := false }, raiseReleased)
  | raiseReleased => ({ s with released := true }, finished)
  | finished => (s, finished)

/-- A whole arming, with nobody in between. -/
def arm (s : Syncpoint) : Syncpoint :=
  let s := (Arming.clearArrived.step s).1
  let s := (Arming.clearReleased.step s).1
  (Arming.raiseArmed.step s).1

/-- A whole resumption, with nobody in between. A resumption before any arrival disarms. -/
def resume (s : Syncpoint) : Syncpoint :=
  let s := (Resuming.clearArmed.step s).1
  (Resuming.raiseReleased.step s).1

/-- A check of an armed syncpoint up to its first poll, with nobody in between. -/
def halt (s : Syncpoint) : Syncpoint :=
  let s := (Checking.swapArmed.step s).1
  (Checking.raiseArrived.step s).1

/-- To arm a syncpoint forgets all that was before. -/
theorem arm_eq (s : Syncpoint) : s.arm = ⟨true, false, false⟩ := rfl

/-- To resume a syncpoint lets the check go on and disarms it, so that the next one passes. -/
theorem resume_eq (s : Syncpoint) : s.resume = ⟨false, s.arrived, true⟩ := rfl

end Syncpoint

/-- The places of the interjection paths that have a syncpoint. -/
inductive TestPoint where
  /-- A host has stored the message of a cancellation and not yet raised the flag. -/
  | cancelAfterStoringMessage
  /-- An action of a drain pass has returned and its error was not yet looked at. -/
  | drainAfterAction
  /-- The handler has disarmed the hook and not yet begun to drain. -/
  | hookAfterDisarm
  /-- The handler has been entered and has not yet looked for a cancellation. -/
  | hookBeforeCancelCheck
  /-- A host has queued an action and not yet armed the hook. -/
  | interjectAfterEnqueue
deriving DecidableEq, Repr

namespace TestPoint

/-- The name of a place. -/
def name : TestPoint → String
  | cancelAfterStoringMessage => "cancel_after_storing_message"
  | drainAfterAction => "drain_after_action"
  | hookAfterDisarm => "hook_after_disarm"
  | hookBeforeCancelCheck => "hook_before_cancel_check"
  | interjectAfterEnqueue => "interject_after_enqueue"

/-- All places, in the order of their names. -/
def all : List TestPoint :=
  [cancelAfterStoringMessage, drainAfterAction, hookAfterDisarm, hookBeforeCancelCheck,
    interjectAfterEnqueue]

/-- The place of a name. -/
def ofName? (name : String) : Option TestPoint :=
  all.find? fun p => p.name == name

end TestPoint

/-- The syncpoints of one interpreter, one for each place. -/
structure Syncpoints where
  cancelAfterStoringMessage : Syncpoint
  drainAfterAction : Syncpoint
  hookAfterDisarm : Syncpoint
  hookBeforeCancelCheck : Syncpoint
  interjectAfterEnqueue : Syncpoint
deriving DecidableEq, Repr

namespace Syncpoints

/-- Syncpoints that stop nobody. -/
def idle : Syncpoints := ⟨.idle, .idle, .idle, .idle, .idle⟩

/-- The syncpoint of a place. -/
def get (s : Syncpoints) : TestPoint → Syncpoint
  | .cancelAfterStoringMessage => s.cancelAfterStoringMessage
  | .drainAfterAction => s.drainAfterAction
  | .hookAfterDisarm => s.hookAfterDisarm
  | .hookBeforeCancelCheck => s.hookBeforeCancelCheck
  | .interjectAfterEnqueue => s.interjectAfterEnqueue

/-- Puts another state of a place's syncpoint. -/
def set (s : Syncpoints) (p : TestPoint) (f : Syncpoint) : Syncpoints :=
  match p with
  | .cancelAfterStoringMessage => { s with cancelAfterStoringMessage := f }
  | .drainAfterAction => { s with drainAfterAction := f }
  | .hookAfterDisarm => { s with hookAfterDisarm := f }
  | .hookBeforeCancelCheck => { s with hookBeforeCancelCheck := f }
  | .interjectAfterEnqueue => { s with interjectAfterEnqueue := f }

@[simp] theorem get_idle (p : TestPoint) : idle.get p = .idle := by
  cases p <;> rfl

/-- Syncpoints of different names have nothing to do with one another. -/
theorem get_set (s : Syncpoints) (p q : TestPoint) (f : Syncpoint) :
    (s.set p f).get q = if q = p then f else s.get q := by
  cases p <;> cases q <;> rfl

end Syncpoints

end Safepoint
