import Safepoint.Machine.Step

/-!
# Runs of the machine

A machine runs until it stops: finished, waiting for the outside, or held at a syncpoint. `start`
sets an idle interpreter to work, and `answer` lets one that waits go on.
-/

namespace Safepoint.Machine

variable {κ τ ρ : Type}

/-- An interpreter with nothing to do. -/
def idle (interp : Interpreter κ) (mailbox : Mailbox κ) (ground : Ground κ) : Machine κ τ ρ :=
  { interp, mailbox
    points := .idle
    frames := []
    control := .finished (.ok [])
    ground }

/-- Sets an interpreter to run host code, which is given values to hold. -/
def start (m : Machine κ τ ρ) (p : Program κ τ ρ) (given : List (Value κ)) : Machine κ τ ρ :=
  { m with frames := [], control := .run (Held.addAll [] given) p }

/-- Answers a machine that waits for the outside, with values that its host code then holds. -/
def answer (m : Machine κ τ ρ) (r : ρ) (vs : List (Value κ)) : Machine κ τ ρ :=
  match m.control with
  | .waiting _ _ held next => m.goto (.run (held.addAll vs) (next r vs))
  | _ => m

/-- Gives a machine the ground it works on. -/
def onGround (m : Machine κ τ ρ) (ground : Ground κ) : Machine κ τ ρ :=
  { m with ground }

/-- Takes the ground from a machine that is put aside. -/
def park (m : Machine κ τ ρ) : Ground κ × Machine κ τ ρ :=
  (m.ground, { m with ground := .empty })

/-- Runs until the machine stops, for so many steps at most. -/
def run (code : Meaning κ τ ρ) : Nat → Machine κ τ ρ → Machine κ τ ρ
  | 0, m => m
  | n + 1, m => if m.isStopped then m else run code n (m.step code)

end Safepoint.Machine
