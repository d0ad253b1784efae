/-!
# Hook slots

An interpreter has one hook slot: the mask of the events at which its hook is to be entered, and how
many instructions make a count event. The mask is the one thing other threads store to directly, and
the one thing a safepoint reads when there is nothing to do.
-/

namespace Safepoint

/-- The occasions at which an interpreter polls its hook slot. -/
inductive HookEvent where
  /-- A function is entered. -/
  | call
  /-- A function is left. -/
  | ret
  /-- Instructions have been executed. -/
  | count
deriving DecidableEq, Repr

/-- The name an event is shown by. -/
def HookEvent.name : HookEvent → String
  | call => "Call"
  | ret => "Return"
  | count => "Count"

/-- A set of events. Line events have a place in it, although an interpreter has none. -/
structure HookMask where
  call : Bool
  ret : Bool
  line : Bool
  count : Bool
deriving DecidableEq, Repr

namespace HookMask

/-- No event. -/
def empty : HookMask := ⟨false, false, false, false⟩

/-- Every event that an interpreter has. -/
def armed : HookMask := ⟨true, true, false, true⟩

/-- Whether an event is in the set. -/
def contains (m : HookMask) : HookEvent → Bool
  | .call => m.call
  | .ret => m.ret
  | .count => m.count

/-- Whether no event is in the set. -/
def isEmpty (m : HookMask) : Bool :=
  m == empty

/-- The set as bits, calls lowest. -/
def bits (m : HookMask) : Nat :=
  m.call.toNat + 2 * m.ret.toNat + 4 * m.line.toNat + 8 * m.count.toNat

@[simp] theorem isEmpty_empty : empty.isEmpty = true := rfl

/-- The mask of an armed hook has events in it, which is how the machine tells that it is armed. -/
@[simp] theorem isEmpty_armed : armed.isEmpty = false := rfl

/-- An armed hook is entered at every kind of safepoint. -/
@[simp] theorem contains_armed (e : HookEvent) : armed.contains e = true := by
  cases e <;> rfl

end HookMask

/-- The hook slot of one interpreter. -/
structure HookSlot where
  mask : HookMask
  /-- Instructions to a count event, at least 1. -/
  threshold : Nat
deriving DecidableEq, Repr

/-- A slot with nothing armed, which counts every instruction. -/
def HookSlot.initial : HookSlot := ⟨.empty, 1⟩

/-- What a hook is told about the safepoint it was entered at. -/
structure HookInfo where
  event : HookEvent
  /-- Calls in progress. -/
  depth : Nat
deriving DecidableEq, Repr

end Safepoint
