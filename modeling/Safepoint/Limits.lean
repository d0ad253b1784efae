import Safepoint.Error

/-!
# Limits

How deep calls of one interpreter may nest and how many values its stack may hold.
-/

namespace Safepoint

/-- The limits of one interpreter. -/
structure Limits where
  /-- Calls in progress at once, native and protected ones included. -/
  maxCallDepth : Nat
  /-- Values on the stack at once. -/
  maxStackSize : Nat
deriving DecidableEq, Repr

/-- Why limits are refused. -/
inductive LimitFault where
  | noCalls
  | smallStack
deriving DecidableEq, Repr

/-- The text of a refusal. -/
def LimitFault.text : LimitFault → String
  | noCalls => "max call depth must be greater than 0"
  | smallStack => "max stack size must be at least 16 values"

namespace Limits

/-- The limits of an interpreter that is made without any. -/
def standard : Limits := ⟨200, 1000000⟩

/-- The smallest stack an interpreter is made with. -/
def leastStackSize : Nat := 16

/-- Call depths above this one are accepted, but worth a notice. -/
def deepCalls : Nat := 10000

/-- What is wrong with these limits; the call depth is looked at first. -/
def fault? (l : Limits) : Option LimitFault :=
  if l.maxCallDepth = 0 then some .noCalls
  else if l.maxStackSize < leastStackSize then some .smallStack
  else none

/-- Limits an interpreter can be made with. -/
def Valid (l : Limits) : Prop := l.fault? = none

instance (l : Limits) : Decidable l.Valid := inferInstanceAs (Decidable (_ = _))

/-- Checks limits; a fault is an invalid argument. -/
def validate (l : Limits) : Except Error Unit :=
  match l.fault? with
  | some fault => .error (.invalidArgument fault.text)
  | none => .ok ()

/-- Whether valid limits deserve a notice about their call depth. -/
def isDeep (l : Limits) : Bool :=
  l.fault?.isNone && deepCalls < l.maxCallDepth

end Limits

end Safepoint
