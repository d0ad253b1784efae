import Safepoint.Message
import Safepoint.Status

/-!
# Errors

The errors that end a call. Two kinds carry a `Message`, octets that a script may see as a string:
a runtime error and a cancellation. `status` sorts the kinds into status codes, and a script can
intercept exactly the errors whose status is not `configurationError`.
-/

namespace Safepoint

/-- Why a call failed. -/
inductive Error where
  /-- An argument of the embedder's is out of range. -/
  | invalidArgument (what : String)
  /-- The interpreter of a handle has been closed. -/
  | invalidHandle
  /-- The facilities of an interpreter are misused. -/
  | configuration (what : String)
  /-- A host asked for the running script to stop. -/
  | cancelled (message : Message)
  /-- Raised by a script, by a native function or by an interjected action. -/
  | runtime (message : Message)
  /-- The allocator refused a block. -/
  | memory
  /-- A facility was asked of an interpreter that was made without it. -/
  | unsupported (what : String)
  /-- A failure the embedder can hardly recover from. -/
  | internal (what : String)
deriving DecidableEq, Repr

namespace Error

/-- A runtime error of UTF-8 text. -/
def ofText (text : String) : Error :=
  runtime (.ofText text .utf8)

/-- The status a protected call reports. -/
def status : Error → Status
  | cancelled _ | runtime _ => .runtimeError
  | memory => .memoryError
  | invalidHandle | configuration _ | invalidArgument _ | unsupported _ => .configurationError
  | internal _ => .errorHandlerError

/-- The message an error carries into strings of the interpreter, if it has one. -/
def message? : Error → Option Message
  | cancelled m | runtime m => some m
  | _ => none

/-- Whether a protected call inside a script intercepts this error. -/
def isCatchable (e : Error) : Bool :=
  e.status != .configurationError

/-- The name of an error's kind. -/
def kind : Error → String
  | invalidArgument _ => "InvalidArgument"
  | invalidHandle => "InvalidHandle"
  | configuration _ => "Configuration"
  | cancelled _ => "Cancelled"
  | runtime _ => "Runtime"
  | memory => "Memory"
  | unsupported _ => "Unsupported"
  | internal _ => "InternalError"

/-- The text an error is shown by. -/
def text : Error → String
  | invalidArgument what => "Invalid argument: " ++ what
  | invalidHandle => "Invalid handle: interpreter is closed"
  | configuration what => "Configuration error: " ++ what
  | cancelled m => "Cancelled: " ++ m.text
  | runtime m => "Runtime error: " ++ m.text
  | memory => "Not enough memory"
  | unsupported what => "Unsupported: " ++ what
  | internal what => "Internal error: " ++ what

end Error

end Safepoint
