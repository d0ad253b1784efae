import Safepoint.Interpreter

/-!
# The machine

One interpreter in the middle of its work: its state, its mailbox and syncpoints, what it shares
with other interpreters, what it is about to do (`Control`), and what waits for that to end
(`Frame`). The machine moves in small steps, each with at most one access to the mailbox, so that
what other threads do may come between any two. It stops when it reaches outside itself, when it is
held at a syncpoint, and when it has finished.
-/

namespace Safepoint

variable {κ τ ρ : Type}

/-- A script function in progress. -/
structure Activation (κ : Type) where
  proto : Prototype
  /-- The stack height at which its locals start. -/
  base : Nat
  /-- The next instruction. -/
  pc : Nat
  /-- The floor to go back to. -/
  callerFloor : Nat
  /-- Arguments beyond the parameters, held until the function is left. -/
  spare : List (Value κ)

/-- What a script function waits for. -/
inductive Await (κ : Type) where
  /-- Nothing: it is about to fetch an instruction, or executes one. -/
  | ready
  /-- The count safepoint of an instruction. -/
  | safepoint (i : Instruction)
  /-- A call of this function. -/
  | call (f : Value κ)
  /-- A protected call of this function, made at this stack height. -/
  | pcall (f : Value κ) (top : Nat)

/-- How far a call has come. -/
inductive Stage (κ : Type) where
  /-- At the call safepoint, before the function is entered. -/
  | entering (f : Func κ) (args : List (Value κ))
  /-- In the function. -/
  | body
  /-- At the return safepoint, with the results. -/
  | leaving (results : List (Value κ))

/-- Where the actions of a drain pass come from. -/
inductive Source where
  /-- The mailbox, at a safepoint. -/
  | mailbox (event : HookEvent)
  /-- A queue of the host's own. It was made with syncpoints of its own, which are never armed. -/
  | queue (id : Nat)
deriving DecidableEq, Repr

/-- What waits for the current work to end. -/
inductive Frame (κ τ ρ : Type) where
  | call (stage : Stage κ)
  | script (a : Activation κ) (await : Await κ)
  /-- Host code that waits for a reply. -/
  | host (held : Held) (next : Reply κ → Program κ τ ρ)
  /-- A protected call at the embedding boundary, made at this stack height and call depth. -/
  | boundary (top depth : Nat)
  /-- A safepoint that has entered the hook. -/
  | dispatch
  /-- A drain pass, with the actions that returned before the one that runs. -/
  | pass (source : Source) (ran : Nat)

/-- The safepoint handler up to its drain pass. -/
inductive HandlerPhase where
  | enter
  | readFlag
  | readMessage
  | disarm
  | acquire
deriving DecidableEq, Repr

/-- What cannot happen to an interpreter that is used as it should be. -/
inductive Fault where
  /-- A local slot lies outside the stack. -/
  | localOutside
  /-- More calls end than began. -/
  | depthUnderflow
  /-- A protected call ends at another call depth than it began. -/
  | depthChanged
  /-- Something ended that nothing waited for. -/
  | stray
deriving DecidableEq, Repr

/-- What a machine is about to do. -/
inductive Control (κ τ ρ : Type) where
  /-- Call a value. -/
  | invoke (f : Value κ) (args : List (Value κ))
  /-- Poll the hook slot. -/
  | poll (event : HookEvent)
  /-- Do the next part of the safepoint handler. -/
  | handle (phase : HandlerPhase) (info : HookInfo)
  /-- Run the next action of a drain pass, if there is one. -/
  | drain (source : Source) (ran : Nat)
  /-- Look at the outcome of an action of a drain pass. -/
  | settle (source : Source) (ran : Nat) (outcome : Outcome κ)
  /-- A pass over the mailbox has failed: see what is left in the queue. -/
  | measure (e : Error)
  /-- Arm the hook again for what is left. -/
  | rearm (e : Error) (remaining : Nat)
  /-- Tell of the failure. -/
  | tell (e : Error) (remaining : Nat)
  /-- Mark a pass over the mailbox as over. -/
  | unmark (outcome : Outcome κ)
  /-- Fetch the next instruction of the script on top. -/
  | fetch
  /-- Execute an instruction of the script on top. -/
  | execute (i : Instruction)
  /-- Run host code. -/
  | run (held : Held) (p : Program κ τ ρ)
  /-- Make the next access of a call that host code makes through a handle of its own interpreter.
  -/
  | post (phase : HostPhase κ)
  /-- Reply to the host code on top. -/
  | reply (r : Reply κ)
  /-- Hand an outcome to what is on top. -/
  | deliver (outcome : Outcome κ)
  /-- Check a syncpoint. -/
  | check (point : TestPoint) (next : Control κ τ ρ)
  /-- Tell that a syncpoint has stopped this thread. -/
  | arrive (point : TestPoint) (next : Control κ τ ρ)
  /-- Poll a syncpoint for its release. -/
  | paused (point : TestPoint) (next : Control κ τ ρ)
  /-- Wait for the outside. -/
  | waiting (x : τ) (given : List (Value κ)) (held : Held)
      (next : ρ → List (Value κ) → Program κ τ ρ)
  /-- Nothing is left to do. -/
  | finished (outcome : Outcome κ)
  /-- Something happened that cannot happen. -/
  | fault (f : Fault)

/-- What interpreters share: the store, the queues that hosts made for themselves, and how many
functions there have been. -/
structure Ground (κ : Type) where
  store : Store
  queues : Array (List κ)
  functions : Nat

/-- A ground on which nothing has happened. -/
def Ground.empty : Ground κ := ⟨.empty, #[], 0⟩

/-- An interpreter in the middle of its work. -/
structure Machine (κ τ ρ : Type) where
  interp : Interpreter κ
  mailbox : Mailbox κ
  points : Syncpoints
  frames : List (Frame κ τ ρ)
  control : Control κ τ ρ
  ground : Ground κ

namespace Machine

/-- Sets out to do something. -/
def goto (m : Machine κ τ ρ) (c : Control κ τ ρ) : Machine κ τ ρ :=
  { m with control := c }

/-- Waits for what is to be done now. -/
def await (m : Machine κ τ ρ) (f : Frame κ τ ρ) (c : Control κ τ ρ) : Machine κ τ ρ :=
  { m with frames := f :: m.frames, control := c }

/-- Fails with an error. -/
def raise (m : Machine κ τ ρ) (e : Error) : Machine κ τ ρ :=
  m.goto (.deliver (.error e))

/-- Goes on past a safepoint. -/
def proceed (m : Machine κ τ ρ) : Machine κ τ ρ :=
  m.goto (.deliver (.ok []))

/-- Changes the store. -/
def mapStore (m : Machine κ τ ρ) (f : Store → Store) : Machine κ τ ρ :=
  { m with ground := { m.ground with store := f m.ground.store } }

/-- Enters a notice in the journal. -/
def note (m : Machine κ τ ρ) (n : Notice) : Machine κ τ ρ :=
  m.mapStore fun s => s.note n

/-- One more place holds a value. -/
def retain (m : Machine κ τ ρ) (v : Value κ) : Machine κ τ ρ :=
  m.mapStore fun s => s.retainValue v

/-- One place fewer holds a value. -/
def release (m : Machine κ τ ρ) (v : Value κ) : Machine κ τ ρ :=
  m.mapStore fun s => s.releaseValue v

/-- One place fewer holds each of some values. -/
def releaseAll (m : Machine κ τ ρ) (vs : List (Value κ)) : Machine κ τ ρ :=
  m.mapStore fun s => s.releaseAll vs

/-- Host code lets go of all it holds. -/
def letGo (m : Machine κ τ ρ) (held : Held) : Machine κ τ ρ :=
  m.mapStore fun s => held.foldl Store.release s

/-- Asks something of the store. -/
def askStore {α : Type} (m : Machine κ τ ρ) (f : Store → Store × α) : Machine κ τ ρ × α :=
  -- the machine is taken apart, so that the store has one owner while it is asked
  let ⟨interp, mailbox, points, frames, control, ⟨store, queues, functions⟩⟩ := m
  let (store, answer) := f store
  (⟨interp, mailbox, points, frames, control, ⟨store, queues, functions⟩⟩, answer)

/-- Makes a string value. -/
def newValue (m : Machine κ τ ρ) (bytes : Bytes) : Machine κ τ ρ × Option (Value κ) :=
  let heap := m.interp.heap
  m.askStore fun s => s.newValue heap bytes

/-- Cuts the stack down to a height, letting go of what was above. -/
def truncate (m : Machine κ τ ρ) (height : Nat) : Machine κ τ ρ :=
  let dropped := (m.interp.stack.extract height m.interp.stack.size).toList
  let m := { m with interp := { m.interp with stack := m.interp.stack.shrink height } }
  m.releaseAll dropped

/-- Whether the machine cannot move by itself. -/
def isStopped (m : Machine κ τ ρ) : Bool :=
  match m.control with
  | .paused point _ => !(m.points.get point).released
  | .waiting .. | .finished _ | .fault _ => true
  | _ => false

end Machine

end Safepoint
