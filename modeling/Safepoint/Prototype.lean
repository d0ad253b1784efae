import Safepoint.Error
import Safepoint.Instruction

/-!
# Prototypes

A prototype is the code of a script function that has been checked: `Draft.build` accepts a draft
only if every jump stays within the code or goes to its end, every local slot exists, and every
return is of at most one value. The check is kept in the type, so code that runs has passed it.
-/

namespace Safepoint

/-- Why a draft is refused. -/
inductive BuildFault where
  | jumpPastEnd (pc target size : Nat)
  | localOutOfRange (slot pc locals : Nat)
  | returnCount (count pc : Nat)
deriving DecidableEq, Repr

namespace BuildFault

/-- The text of a fault in the draft of a given name. -/
def text (name : String) : BuildFault → String
  | jumpPastEnd pc target size =>
    name ++ ": jump at " ++ toString pc ++ " targets " ++ toString target ++
      ", past the end of " ++ toString size ++ " instructions"
  | localOutOfRange slot pc locals =>
    name ++ ": local " ++ toString slot ++ " at " ++ toString pc ++ " out of range (" ++
      toString locals ++ " locals)"
  | returnCount count pc =>
    name ++ ": return of " ++ toString count ++ " values at " ++ toString pc

end BuildFault

/-- What is wrong with an instruction at `pc` in code of `size` instructions over `locals` slots. -/
def Instruction.fault? (locals size pc : Nat) : Instruction → Option BuildFault
  | .jump t | .jumpIfFalse t => if t ≤ size then none else some (.jumpPastEnd pc t size)
  | .getLocal slot | .setLocal slot =>
    if slot < locals then none else some (.localOutOfRange slot pc locals)
  | .ret count => if count ≤ 1 then none else some (.returnCount count pc)
  | _ => none

/-- The first fault of code, whose first instruction stands at `pc`. -/
def firstFault? (locals size : Nat) : Nat → List Instruction → Option BuildFault
  | _, [] => none
  | pc, i :: rest => (i.fault? locals size pc).or (firstFault? locals size (pc + 1) rest)

/-- A function's code before it is checked. -/
structure Draft where
  name : String
  params : Nat
  locals : Nat
  code : List Instruction
deriving DecidableEq, Repr

/-- The checked code of a function. -/
structure Prototype where
  name : String
  params : Nat
  /-- Local slots, those of the parameters included. -/
  locals : Nat
  code : Array Instruction
  params_le : params ≤ locals
  faultless : firstFault? locals code.size 0 code.toList = none

/-- Checks a draft, and lays its locals out over its parameters. -/
def Draft.build (d : Draft) : Except BuildFault Prototype :=
  let locals := max d.locals d.params
  match h : firstFault? locals d.code.length 0 d.code with
  | some fault => .error fault
  | none =>
    .ok
      { name := d.name
        params := d.params
        locals := locals
        code := d.code.toArray
        params_le := Nat.le_max_right ..
        faultless := by simpa using h }

/-- Checks a draft; a fault is an internal error. -/
def Draft.prototype (d : Draft) : Except Error Prototype :=
  match d.build with
  | .ok p => .ok p
  | .error fault => .error (.internal (fault.text d.name))

end Safepoint
