import Safepoint.Memory.Store
import Safepoint.Prototype

/-!
# Values

The values of the interpreter. A string is held through the store; everything else is plain data.
Functions are told apart by identity: a script function each time a prototype is loaded, a native
one each time it is registered. The type `κ` is the code of native functions, which the interpreter
carries and does not look into.
-/

namespace Safepoint

variable {κ : Type}

/-- A function value. -/
inductive Func (κ : Type) where
  | script (id : Nat) (proto : Prototype)
  | native (id : Nat) (name : String) (code : κ)

namespace Func

/-- The name a function was given. -/
def name : Func κ → String
  | script _ proto => proto.name
  | native _ name _ => name

/-- Whether two functions are the same one. -/
def same : Func κ → Func κ → Bool
  | script a _, script b _ => a == b
  | native a _ _, native b _ _ => a == b
  | _, _ => false

end Func

/-- A value of the interpreter. -/
inductive Value (κ : Type) where
  | nil
  | bool (b : Bool)
  | int (i : Int64)
  | str (s : Str)
  | fn (f : Func κ)

namespace Value

/-- The name of a value's type. -/
def typeName : Value κ → String
  | nil => "nil"
  | bool _ => "boolean"
  | int _ => "integer"
  | str _ => "string"
  | fn _ => "function"

/-- Everything but nil and false is true. -/
def isTruthy : Value κ → Bool
  | nil => false
  | bool b => b
  | _ => true

/-- Whether a value is nil. -/
def isNil : Value κ → Bool
  | nil => true
  | _ => false

/-- The integer of a value. -/
def int? : Value κ → Option Int64
  | int i => some i
  | _ => none

/-- The truth value of a value. -/
def bool? : Value κ → Option Bool
  | bool b => some b
  | _ => none

/-- The octets of a string. -/
def bytes? : Value κ → Option Bytes
  | str s => some s.bytes
  | _ => none

/-- The string a value holds. -/
def str? : Value κ → Option Str
  | str s => some s
  | _ => none

/-- Equality as scripts see it: strings by their octets, functions by identity. -/
def equal : Value κ → Value κ → Bool
  | nil, nil => true
  | bool a, bool b => a == b
  | int a, int b => a == b
  | str a, str b => a.bytes == b.bytes
  | fn f, fn g => f.same g
  | _, _ => false

/-- A value as diagnostics show it. -/
def text : Value κ → String
  | nil => "nil"
  | bool b => if b then "true" else "false"
  | int i => toString i.toInt
  | str s => Text.quote (Encoding.utf8.decode s.bytes)
  | fn f => "function: " ++ f.name

end Value

namespace Store

/-- One more place holds a value. -/
def retainValue (s : Store) : Value κ → Store
  | .str str => s.retain str
  | _ => s

/-- One place fewer holds a value. -/
def releaseValue (s : Store) : Value κ → Store
  | .str str => s.release str
  | _ => s

/-- One place fewer holds each of some values. -/
def releaseAll (s : Store) (vs : List (Value κ)) : Store :=
  vs.foldl releaseValue s

/-- Makes a string value. -/
def newValue (s : Store) (heap : Nat) (bytes : Bytes) : Store × Option (Value κ) :=
  match s.newString heap bytes with
  | (s, some str) => (s, some (.str str))
  | (s, none) => (s, none)

end Store

end Safepoint
