import Safepoint.Lifecycle

/-!
# Commands

A scenario is a list of commands on named interpreters, handles, counters, queues and variables. The
bodies of native functions and of interjected actions are lists of commands too, and so are the
things that happen while a host's call or a running interpreter is held at a syncpoint.
-/

namespace Safepoint.Scenario

/-- The name of an interpreter, a handle and a counter if none is given. -/
def mainName : String := "main"

/-- An expression for a value. -/
inductive Expr where
  | nil
  | bool (b : Bool)
  | int (i : Int64)
  /-- A new string of octets. -/
  | bytes (bytes : Bytes)
  /-- A new string of text in the interpreter's encoding. -/
  | text (text : String)
  /-- A new string of repeated text. -/
  | repeated (text : String) (count : Nat)
  /-- The value of a variable. -/
  | var (name : String)
  | global (name : String)
  /-- A new script function. -/
  | function (draft : Draft)
  /-- An argument of the native function that runs, nil if there is none. -/
  | arg (n : Nat)
deriving DecidableEq

/-- An expression for an error. -/
inductive ErrorExpr where
  | given (e : Error)
  /-- A runtime error of text in the interpreter's encoding. -/
  | encoded (text : String)
deriving DecidableEq

/-- How an interpreter is to be opened. -/
inductive Opening where
  | instrumented (facilities : Instrumentations)
  /-- Over an allocator that refuses what is larger than the cap, what would exceed the budget, and
  the growing requests of the given numbers. -/
  | rationed (cap budget : Option Nat) (failAt : List Nat)
  /-- Counted by a named tracker, which is made if there is none. -/
  | tracked (tracker : String)
  | plain
deriving DecidableEq

/-- A command of a body, `C` being the commands. -/
structure Step (C : Type) where
  command : C
  /-- The command is skipped unless this argument is this integer. -/
  guard : Option (Nat × Int64)
  /-- An error of the command ends the body. -/
  isStrict : Bool

/-- The body of a native function or of an action, `C` being the commands. -/
structure Body (C : Type) where
  /-- What its commands are logged under. -/
  label : String
  steps : List (Step C)
  results : List Expr
  failure : Option ErrorExpr

/-- What a host does through a handle, `C` being the commands. -/
inductive HandleOp (C : Type) where
  | interject (action : Body C)
  | cancel (text : String) (encoding : Encoding)
  | revert
  | isCancelPending
  | pendingActions
  | invocations
  | hookSlot

/-- What is done with one interpreter, `C` being the commands. Calls may come with commands that
happen while the interpreter is held at a syncpoint, which needs an interpreter that has syncpoints
even if no commands are given. -/
inductive StateOp (C : Type) where
  | setEncoding (encoding : Encoding)
  | encoding
  | limits
  | instructions
  | depth
  | hook
  | setGlobal (name : String) (value : Expr)
  | getGlobal (name : String)
  | holdVar (var : String) (value : Expr)
  | toText (value : Expr)
  | valueEq (a b : Expr)
  | inspect (value : Expr)
  | register (name : String) (body : Body C)
  | run (draft : Draft) (stops : Option (List (TestPoint × List C)))
  | call (f : Expr) (args : List Expr) (stops : Option (List (TestPoint × List C)))
  | pcall (f : Expr) (args : List Expr) (stops : Option (List (TestPoint × List C)))
  | error (e : ErrorExpr)
  | fail (e : ErrorExpr)
  | drain (queue : String)

/-- What the owner of an interpreter does with it from outside, while it has nothing to do. All but
to close it needs an instrumented one. -/
inductive OwnerOp where
  | close
  | instrumentations
  /-- Another handle, under the interpreter's name if none is given. -/
  | interjector (newName : Option String)
  /-- A cancellation with this message, in the interpreter's encoding. -/
  | cancel (text : String)
  | memorySize
  /-- The counter, under the interpreter's name if none is given. -/
  | memoryStats (newName : Option String)
deriving DecidableEq, Repr

/-- A command. Of an interpreter that is named by an option, none stands for the one that runs, or
else for `mainName`. -/
inductive Command where
  /-- A command that could not be read. -/
  | malformed
  | onState (state : Option String) (op : StateOp Command)
  | asOwner (state : Option String) (op : OwnerOp)
  | onHandle (handle : String) (op : HandleOp Command)
  /-- A call of another thread that is held at its syncpoint while commands are performed. -/
  | held (handle : String) (op : HandleOp Command) (meanwhile : List Command)
  | isValid (handle : String)
  | cloneHandle (handle newName : String)
  | openState (state : String) (opening : Opening) (limits : Limits)
  | armAndResume (state : Option String) (point : TestPoint)
  | stats (tracker : String)
  | releaseVar (var : String)
  | varValue (var : String)
  | newQueue (queue : String)
  /-- Puts an action into a queue of the host's own. Whichever interpreter drains the queue, the
  action knows it by this name. -/
  | enqueue (queue home : String) (action : Body Command)
  | queueLength (queue : String)

/-- A command as another thread performs it: calls through handles, which are not held, and what it
can do with handles and counters alone. Interpreters, values and queues stay with the scenario's own
thread. -/
def Command.ofOtherThread : Command → Command
  | .onHandle handle op | .held handle op _ => .onHandle handle op
  | .isValid handle => .isValid handle
  | .cloneHandle handle newName => .cloneHandle handle newName
  | .stats tracker => .stats tracker
  | _ => .malformed

/-- The code of native functions and actions in a scenario: a body, and the name that its commands
know the interpreter by that runs it. The name is settled when the code is handed over, so it stays
the same if a function is moved to another interpreter, or an action is drained by another one. -/
structure Code where
  body : Body Command
  home : String

/-- The value of a scenario. -/
abbrev Val := Value Code

/-- What a command answers. -/
inductive Answer where
  | nothing
  | bool (b : Bool)
  | count (n : Nat)
  | text (s : String)
  | textOrNil (s : Option String)
  | value (v : Val)
  | values (vs : List Val)
  | hook (slot : HookSlot)
  | limits (l : Limits)
  | error (e : Error)
  | length (n : Nat)
  | facilities (i : Instrumentations)
  | inspection (v : Val)

/-- How a command ends: with an answer, with an error of the interpreter's, or refused because it
makes no sense where it stands. -/
inductive Result where
  | ok (a : Answer)
  | failed (e : Error)
  | refused

/-- A command of a body or of a held thread that has ended. -/
structure LogEntry where
  label : String
  index : Nat
  result : Result

end Safepoint.Scenario
