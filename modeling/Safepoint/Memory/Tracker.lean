import Safepoint.Notice

/-!
# Live-byte counters

A tracker is one machine word that any thread may read: the bytes live in the blocks that were
obtained through it. `Tracker.request` is the allocator callback that keeps it current. Growth is
counted only once the system has granted it, so a refusal changes nothing.
-/

namespace Safepoint

/-- A live-byte counter, one 64-bit word. -/
structure Tracker where
  allocated : UInt64
deriving DecidableEq, Repr

/-- Whether the system can give so many bytes. A quarter of the words' range is never to be had. -/
def systemGrants (size : Nat) : Bool :=
  size < 0x4000000000000000

/-- How an allocator answers a request. -/
inductive Verdict where
  /-- The block now has the size asked for. -/
  | granted
  /-- The block is as it was. -/
  | refused
  /-- The block is gone. -/
  | freed
deriving DecidableEq, Repr

namespace Tracker

/-- A counter of nothing. -/
def zero : Tracker := ⟨0⟩

/-- Replaces a block of `old` bytes by one of `new`: the difference is added or subtracted as an
unsigned word. -/
def account (t : Tracker) (old new : Nat) : Tracker :=
  if old ≤ new then ⟨t.allocated + UInt64.ofNat (new - old)⟩
  else ⟨t.allocated - UInt64.ofNat (old - new)⟩

/-- Bytes in the block that a call acts on. Behind a null pointer there are none: what such a call
passes for a size says at most what the new block is for. -/
def held (null : Bool) (osize : Nat) : Nat :=
  if null then 0 else osize

/-- One call of the counting allocator, with a pointer that is null or not, the size that it passes
for the block behind it, and the size that it asks for, which the system would grant or not. -/
def request (t : Tracker) (null : Bool) (osize nsize : Nat) (grants : Bool) :
    Tracker × Verdict × List Notice :=
  let old := held null osize
  if nsize = 0 then (t.account old 0, .freed, [])
  else if grants then (t.account old nsize, .granted, [])
  -- a refusal is told, and the counter is as it was
  else (t, .refused, [.allocationFailed nsize t.allocated.toNat])

end Tracker

end Safepoint
