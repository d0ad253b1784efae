import Safepoint.Error
import Safepoint.Hook
import Safepoint.Instrumentation

/-!
# Notices

What the library tells an observer while it works. A notice is what happened; its level, its text
and its fields are read off it.
-/

namespace Safepoint

/-- How much a notice matters. -/
inductive Level where
  | trace
  | debug
  | info
  | warn
  | error
deriving DecidableEq, Repr

/-- The name of a level. -/
def Level.name : Level → String
  | trace => "TRACE"
  | debug => "DEBUG"
  | info => "INFO"
  | warn => "WARN"
  | error => "ERROR"

/-- The value of a field of a notice. -/
inductive FieldValue where
  | number (n : Nat)
  | text (s : String)
deriving DecidableEq, Repr

/-- Something that happened. -/
inductive Notice where
  /-- Limits allow so deep a call chain that the thread's own stack may end first. -/
  | deepCallLimit (depth : Nat)
  /-- An allocation through a tracker was refused. -/
  | allocationFailed (size live : Nat)
  /-- A protected call at the embedding boundary failed. -/
  | protectedCallFailed (error : Error)
  /-- The interjection hook was installed. -/
  | interjectorBound
  /-- An action was queued and the hook armed. -/
  | actionInterjected
  /-- A cancellation was stored and the hook armed. -/
  | cancellationRequested (reason : String)
  /-- A cancellation was withdrawn. -/
  | cancellationReverted
  /-- A safepoint raises the pending cancellation. -/
  | raisingCancellation (info : HookInfo)
  /-- A safepoint ran the queue empty. -/
  | drained (event : HookEvent) (actions : Nat)
  /-- An interjected action failed, with so many still queued. -/
  | actionFailed (error : Error) (remaining : Nat)
  /-- An instrumented interpreter was made. -/
  | created (instrumentations : Instrumentations)
  /-- Strings were still held when their interpreter was closed. -/
  | valuesOutlive (outstanding escaped : Nat)
  /-- Bytes were still counted when their interpreter was closed with no string left. -/
  | stillAllocated (outstanding : Nat)
deriving DecidableEq, Repr

namespace Notice

/-- How much a notice matters. -/
def level : Notice → Level
  | allocationFailed .. => .error
  | actionFailed .. | stillAllocated .. => .warn
  | actionInterjected | drained .. => .trace
  | _ => .debug

/-- The text of a notice. -/
def text : Notice → String
  | deepCallLimit depth =>
    "max call depth of " ++ toString depth ++
      " may exhaust the native stack before the limit is reached"
  | allocationFailed size live =>
    "allocation of " ++ toString size ++ " bytes failed (" ++ toString live ++ " live)"
  | protectedCallFailed error => "protected call failed: " ++ error.text
  | interjectorBound => "interjector bound"
  | actionInterjected => "action interjected"
  | cancellationRequested _ => "cancellation requested"
  | cancellationReverted => "cancellation reverted"
  | raisingCancellation _ => "raising cancellation"
  | drained .. => "drained interjections"
  | actionFailed error _ => "interjected action failed: " ++ error.text
  | created _ => "instrumented state created"
  | valuesOutlive .. => "values outlive their state"
  | stillAllocated _ => "memory still allocated after state teardown"

/-- The fields of a notice. -/
def fields : Notice → List (String × FieldValue)
  | protectedCallFailed error => [("status", .text error.status.name)]
  | cancellationRequested reason => [("reason", .text reason)]
  | raisingCancellation info => [("event", .text info.event.name), ("depth", .number info.depth)]
  | drained event actions => [("event", .text event.name), ("actions", .number actions)]
  | actionFailed _ remaining => [("remaining", .number remaining)]
  | created i => [("instrumentations", .text i.text)]
  | valuesOutlive outstanding escaped =>
    [("outstanding", .number outstanding), ("escaped", .number escaped)]
  | stillAllocated outstanding => [("outstanding", .number outstanding)]
  | _ => []

end Notice

end Safepoint
