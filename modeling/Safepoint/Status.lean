/-!
# Status codes

The small numbers by which a protected call reports to its caller how it ended.
-/

namespace Safepoint

/-- How a protected call ended. -/
inductive Status where
  | ok
  | yield
  | runtimeError
  | syntaxError
  | memoryError
  | gcError
  | errorHandlerError
  | configurationError
deriving DecidableEq, Repr

namespace Status

/-- The number of a status. -/
def code : Status → Nat
  | ok => 0
  | yield => 1
  | runtimeError => 2
  | syntaxError => 3
  | memoryError => 4
  | gcError => 5
  | errorHandlerError => 6
  | configurationError => 7

/-- The status with a given number. -/
def ofCode? (n : Int) : Option Status :=
  match n with
  | 0 => some ok
  | 1 => some yield
  | 2 => some runtimeError
  | 3 => some syntaxError
  | 4 => some memoryError
  | 5 => some gcError
  | 6 => some errorHandlerError
  | 7 => some configurationError
  | _ => none

/-- The name a status is shown by. -/
def name : Status → String
  | ok => "Ok"
  | yield => "Yield"
  | runtimeError => "RuntimeError"
  | syntaxError => "SyntaxError"
  | memoryError => "MemoryError"
  | gcError => "GcError"
  | errorHandlerError => "ErrorHandlerError"
  | configurationError => "ConfigurationError"

/-- Whether a status is a success. -/
def isOk (s : Status) : Bool :=
  s == ok

/-- No two statuses have the same code, and each is known by its own. -/
theorem ofCode?_code (s : Status) : ofCode? s.code = some s := by
  cases s <;> rfl

end Status

end Safepoint
