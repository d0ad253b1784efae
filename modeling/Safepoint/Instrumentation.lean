/-!
# Instrumentations

The facilities an interpreter is made with besides running scripts.
-/

namespace Safepoint

/-- A set of facilities. -/
structure Instrumentations where
  /-- Handles by which other threads interject actions and cancel. -/
  interruption : Bool
  /-- A live count of the bytes the interpreter has allocated. -/
  memoryMonitoring : Bool
deriving DecidableEq, Repr

namespace Instrumentations

/-- No facility. -/
def none : Instrumentations := ⟨false, false⟩

/-- Every facility. -/
def all : Instrumentations := ⟨true, true⟩

/-- Facilities of either set. -/
def union (a b : Instrumentations) : Instrumentations :=
  ⟨a.interruption || b.interruption, a.memoryMonitoring || b.memoryMonitoring⟩

/-- The set as bits. -/
def bits (i : Instrumentations) : Nat :=
  i.interruption.toNat + 2 * i.memoryMonitoring.toNat

/-- The set as diagnostics show it. -/
def text (i : Instrumentations) : String :=
  match i.interruption, i.memoryMonitoring with
  | true, true => "INTERRUPTION | MEMORY_MONITORING"
  | true, false => "INTERRUPTION"
  | false, true => "MEMORY_MONITORING"
  | false, false => "(empty)"

end Instrumentations

end Safepoint
