import Safepoint.Encoding.Utf8
import Safepoint.Text.Quoted

/-!
# Instructions

The instruction set of the stack machine. Operands come from the value stack and results go onto it;
a jump names an index of the code it stands in.
-/

namespace Safepoint

/-- One instruction. -/
inductive Instruction where
  | nil
  | true
  | false
  | int (i : Int64)
  /-- Pushes a new string, allocated each time. -/
  | str (bytes : Bytes)
  | pop
  | dup
  | getLocal (slot : Nat)
  | setLocal (slot : Nat)
  | getGlobal (name : String)
  | setGlobal (name : String)
  | add
  | sub
  | lt
  | eq
  | not
  | concat
  | jump (target : Nat)
  | jumpIfFalse (target : Nat)
  /-- Calls the function below `argc` arguments and pushes its first result, or nil. -/
  | call (argc : Nat)
  /-- Calls likewise, and pushes true and the result, or false and the error's message. -/
  | pcall (argc : Nat)
  /-- Leaves with the top value if `count` is not 0, with nothing otherwise. -/
  | ret (count : Nat)
deriving DecidableEq, Repr

namespace Instruction

/-- An instruction as listings show it. -/
def text : Instruction → String
  | nil => "Nil"
  | true => "True"
  | false => "False"
  | int i => "Int(" ++ toString i.toInt ++ ")"
  | str bytes => "Str([" ++ ", ".intercalate (bytes.map fun b => toString b.toNat) ++ "])"
  | pop => "Pop"
  | dup => "Dup"
  | getLocal slot => "GetLocal(" ++ toString slot ++ ")"
  | setLocal slot => "SetLocal(" ++ toString slot ++ ")"
  | getGlobal name => "GetGlobal(" ++ Text.quote name ++ ")"
  | setGlobal name => "SetGlobal(" ++ Text.quote name ++ ")"
  | add => "Add"
  | sub => "Sub"
  | lt => "Lt"
  | eq => "Eq"
  | not => "Not"
  | concat => "Concat"
  | jump t => "Jump(" ++ toString t ++ ")"
  | jumpIfFalse t => "JumpIfFalse(" ++ toString t ++ ")"
  | call argc => "Call(" ++ toString argc ++ ")"
  | pcall argc => "PCall(" ++ toString argc ++ ")"
  | ret count => "Return(" ++ toString count ++ ")"

end Instruction

end Safepoint
