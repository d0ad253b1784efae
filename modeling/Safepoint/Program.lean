import Safepoint.HostCall
import Safepoint.Limits
import Safepoint.Value

/-!
# Host code

Native functions and interjected actions are host code that runs on an interpreter's own thread. A
`Program` is what such code does: it asks its interpreter for something and goes on with the reply,
it reaches outside the interpreter and goes on with what comes back, or it ends. A program is a
well-founded tree, so host code makes finitely many requests, but what it asks next may depend on
every reply so far.

Strings have owners. Host code holds the strings it was given as arguments and in replies, and lets
go of all it still holds when it ends; a request that takes a value takes it out of what the code
holds. Code names a string by the place it lies in, and what it gets is the string it holds there.
-/

namespace Safepoint

variable {κ τ ρ : Type}

/-- The result of a call. -/
abbrev Outcome (κ : Type) := Except Error (List (Value κ))

/-- What host code may ask the interpreter it runs on. -/
inductive Query (κ : Type) where
  /-- A string of octets. -/
  | newBytes (bytes : Bytes)
  /-- A string of text in the interpreter's encoding. -/
  | newText (text : String)
  /-- Another hold on a value that the code holds. -/
  | copy (v : Value κ)
  /-- The end of one hold. -/
  | release (v : Value κ)
  | getGlobal (name : String)
  /-- Takes the value. -/
  | setGlobal (name : String) (v : Value κ)
  /-- A new script function. -/
  | load (proto : Prototype)
  /-- Sets a global to a new native function. -/
  | register (name : String) (code : κ)
  /-- A call whose error goes on to the next protected call. Takes the arguments. -/
  | call (f : Value κ) (args : List (Value κ))
  /-- A call at the embedding boundary, which leaves the stack as it was. Takes the arguments. -/
  | pcall (f : Value κ) (args : List (Value κ))
  | setEncoding (encoding : Encoding)
  | facts
  /-- A call through a handle of this interpreter. -/
  | post (call : HostCall κ)
  /-- Runs a queue of the host's own until it is empty or an action fails. -/
  | drain (queue : Nat)

/-- What an interpreter tells about itself. -/
structure Facts where
  encoding : Encoding
  limits : Limits
  instructions : Nat
  depth : Nat
  slot : HookSlot
deriving DecidableEq, Repr

/-- How an interpreter replies. -/
inductive Reply (κ : Type) where
  | done
  /-- A value that the code now holds. -/
  | value (v : Value κ)
  /-- The results of a call, which the code now holds. -/
  | values (vs : List (Value κ))
  | failed (e : Error)
  | facts (f : Facts)
  | answer (a : HostAnswer)
  | count (n : Nat)

/-- Host code. Requests to the outside are of type `τ` and are answered in type `ρ`; values go out
and come back beside them. -/
inductive Program (κ τ ρ : Type) where
  | finish (outcome : Outcome κ)
  | ask (q : Query κ) (next : Reply κ → Program κ τ ρ)
  | outside (x : τ) (given : List (Value κ)) (next : ρ → List (Value κ) → Program κ τ ρ)

/-- The meaning of code: what it does with its arguments. -/
abbrev Meaning (κ τ ρ : Type) := κ → List (Value κ) → Program κ τ ρ

/-- The strings that host code holds, one entry for each hold. -/
abbrev Held := List Str

namespace Held

/-- Whether two strings lie in the same place. -/
def samePlace (s t : Str) : Bool :=
  s.heap == t.heap && s.block == t.block

/-- The string that is held where `s` lies, if there is one. -/
def lookup (held : Held) (s : Str) : Option Str :=
  held.find? (samePlace s)

/-- Ends one hold on a string. -/
def drop (held : Held) (s : Str) : Held :=
  held.eraseP (samePlace s)

/-- Adds a hold on a value. -/
def add (held : Held) : Value κ → Held
  | .str s => held ++ [s]
  | _ => held

/-- Adds a hold on each of some values. -/
def addAll (held : Held) (vs : List (Value κ)) : Held :=
  vs.foldl add held

/-- Takes a value out of what is held. A string that is not held is not to be had: nil stands in. -/
def take (held : Held) : Value κ → Value κ × Held
  | .str s =>
    match held.lookup s with
    | some t => (.str t, held.drop s)
    | none => (.nil, held)
  | v => (v, held)

/-- Takes several values out, in order. -/
def takeAll (held : Held) : List (Value κ) → List (Value κ) × Held
  | [] => ([], held)
  | v :: vs =>
    -- of a string that is listed twice, the second is found only if it is held twice
    let (v', held) := held.take v
    let (vs', held) := takeAll held vs
    (v' :: vs', held)

end Held

namespace Reply

/-- The values that come with a reply. -/
def holds : Reply κ → List (Value κ)
  | value v => [v]
  | values vs => vs
  | _ => []

end Reply

end Safepoint
