import Safepoint.Globals
import Safepoint.Program

/-!
# Interpreters

The state of one interpreter: its value stack, its globals, how deep its calls nest, and the
bookkeeping of its hook. A running script owns the stack from its base on; it may pop down to
`floor`, its base and its locals, and no further.
-/

namespace Safepoint

variable {κ : Type}

/-- What a script did wrong, or ran out of. -/
inductive ScriptFault where
  | stackOverflow
  | called (type : String)
  | arithmetic (type : String)
  | compared (left right : String)
  | concatenated (type : String)
deriving DecidableEq, Repr

/-- The text of a script's fault. -/
def ScriptFault.text : ScriptFault → String
  | stackOverflow => "stack overflow"
  | called type => "attempt to call a " ++ type ++ " value"
  | arithmetic type => "attempt to perform arithmetic on a " ++ type ++ " value"
  | compared left right => "attempt to compare " ++ left ++ " with " ++ right
  | concatenated type => "attempt to concatenate a " ++ type ++ " value"

/-- How a script misused its stack. -/
inductive Underflow where
  | popped
  | called (argc : Nat)
deriving DecidableEq, Repr

/-- The error of a misused stack. -/
def Underflow.error : Underflow → Error
  | popped => .internal "value stack underflow"
  | called argc =>
    .internal ("value stack underflow calling with " ++ toString argc ++ " arguments")

/-- The state of one interpreter. -/
structure Interpreter (κ : Type) where
  /-- The heap its strings come from. -/
  heap : Nat
  /-- The block it keeps for itself. -/
  block : Nat
  /-- Values, the top last. -/
  stack : Array (Value κ)
  globals : Globals κ
  /-- Calls in progress. -/
  depth : Nat
  limits : Limits
  encoding : Encoding
  /-- Whether the interjection handler sits in the hook slot; it is taken out while it runs. -/
  hookInstalled : Bool
  /-- Whether safepoints may enter the hook; not while it runs. -/
  hookAllowed : Bool
  /-- Instructions to the next count event. -/
  countdown : Nat
  /-- Instructions executed so far. -/
  instructions : Nat
  /-- The stack height below which the running script may not pop. -/
  floor : Nat

namespace Interpreter

/-- The size of the block an interpreter keeps for itself. -/
def ownBlockSize : Nat := 512

/-- An interpreter that has run nothing, over a heap from which it has its own block. -/
def initial (heap block : Nat) (limits : Limits) : Interpreter κ :=
  { heap, block
    stack := #[]
    globals := .empty
    depth := 0
    limits
    encoding := .windows1252
    hookInstalled := false
    hookAllowed := true
    -- the first instruction comes to a count event
    countdown := 1
    instructions := 0
    floor := 0 }

/-- A fault as a runtime error, its text in the interpreter's encoding. -/
def runtimeError (i : Interpreter κ) (fault : ScriptFault) : Error :=
  .runtime (.ofText fault.text i.encoding)

/-- Whether the stack may hold one more value. -/
def hasRoom (i : Interpreter κ) : Bool :=
  i.stack.size < i.limits.maxStackSize

/-- The interpreter with one more value on its stack. -/
def push (i : Interpreter κ) (v : Value κ) : Interpreter κ :=
  { i with stack := i.stack.push v }

/-- The interpreter without the top `n` values of its stack. -/
def pop (i : Interpreter κ) (n : Nat) : Interpreter κ :=
  { i with stack := i.stack.shrink (i.stack.size - n) }

/-- The top value, if the running script owns it. -/
def top (i : Interpreter κ) : Except Error (Value κ) :=
  if i.stack.size ≤ i.floor then .error Underflow.popped.error
  else
    match i.stack.back? with
    | some v => .ok v
    | none => .error Underflow.popped.error

/-- The two top values, the upper one second, if the running script owns them. -/
def topTwo (i : Interpreter κ) : Except Error (Value κ × Value κ) :=
  if i.stack.size < i.floor + 2 then .error Underflow.popped.error
  else
    match i.stack[i.stack.size - 2]?, i.stack.back? with
    | some a, some b => .ok (a, b)
    | _, _ => .error Underflow.popped.error

/-- A function and the `argc` arguments above it, if the running script owns them all. -/
def topCall (i : Interpreter κ) (argc : Nat) : Except Error (Value κ × List (Value κ)) :=
  -- the one shortage whose error says how many values were wanted
  if i.stack.size < i.floor + argc + 1 then .error (Underflow.called argc).error
  else
    match i.stack[i.stack.size - argc - 1]? with
    | some f => .ok (f, (i.stack.extract (i.stack.size - argc) i.stack.size).toList)
    | none => .error Underflow.popped.error

/-- The octets of an operand of a concatenation: strings and integers have them. -/
def concatOperand (i : Interpreter κ) : Value κ → Except Error Bytes
  | .str s => .ok s.bytes
  | .int n => .ok (Utf8.encode (toString n.toInt).toList)
  | v => .error (i.runtimeError (.concatenated v.typeName))

/-- The sum or difference of two values: integers have one, modulo 2^64. The first operand that is
no integer is blamed. -/
def arithmetic (i : Interpreter κ) (op : Int64 → Int64 → Int64) (a b : Value κ) :
    Except Error (Value κ) :=
  match a, b with
  | .int x, .int y => .ok (.int (op x y))
  | .int _, v => .error (i.runtimeError (.arithmetic v.typeName))
  | v, _ => .error (i.runtimeError (.arithmetic v.typeName))

/-- Whether one value is below another: two integers or two strings can be compared. -/
def below (i : Interpreter κ) (a b : Value κ) : Except Error (Value κ) :=
  match a, b with
  | .int x, .int y => .ok (.bool (decide (x < y)))
  | .str s, .str t => .ok (.bool (decide (s.bytes < t.bytes)))
  | v, w => .error (i.runtimeError (.compared v.typeName w.typeName))

/-- The octets that stand for an error in a script: those of its message, or else its text in the
interpreter's encoding. -/
def errorBytes (i : Interpreter κ) (e : Error) : Bytes :=
  match e.message? with
  | some m => m.bytes
  | none => i.encoding.encode e.text

/-- What an interpreter tells about itself, its hook slot being as given. -/
def facts (i : Interpreter κ) (slot : HookSlot) : Facts :=
  { encoding := i.encoding
    limits := i.limits
    instructions := i.instructions
    depth := i.depth
    slot }

end Interpreter

end Safepoint
