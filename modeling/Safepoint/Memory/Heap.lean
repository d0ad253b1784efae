import Safepoint.Memory.Tracker

/-!
# Heaps

The memory of one interpreter: blocks obtained from an allocator callback that was registered when
the interpreter was made. A block has holders, the values that share it, and goes back to the
allocator when its last holder lets go. The heap itself has `owners` that keep it: the interpreter
while it is open, each string, and the copies that grew into another string. The `ledger` lists
every call of the callback, in order.
-/

namespace Safepoint

/-- Which growing requests an allocator grants: by their number, counted from 1 and refused ones
included, by the bytes asked for, and by the bytes that would be live. -/
structure Policy where
  grants : (attempt size live : Nat) → Bool

/-- The policy of the system's own allocator. -/
def Policy.system : Policy := ⟨fun _ size _ => systemGrants size⟩

/-- One call of an allocator callback. -/
inductive HeapCall where
  /-- A fresh block, with its place in the heap if it was granted. -/
  | alloc (size : Nat) (block : Option Nat)
  /-- A block grows or shrinks from the size the caller names. -/
  | resize (block old new : Nat) (granted : Bool)
  /-- A block of the size the caller names goes back. -/
  | free (block size : Nat)
deriving DecidableEq, Repr

/-- A block that was granted. -/
structure Block where
  size : Nat
  /-- Values that share the block; none once it has gone back. -/
  holders : Nat
deriving DecidableEq, Repr

/-- The memory of one interpreter. -/
structure Heap where
  policy : Policy
  /-- The counter of a counting callback. -/
  tracker : Option Nat
  blocks : Array Block
  /-- Bytes in blocks that have not gone back. -/
  live : Nat
  /-- Growing requests so far. -/
  attempts : Nat
  /-- Owners that keep the heap. -/
  owners : Nat
  ledger : Array HeapCall

namespace Heap

/-- A heap from which nothing has been asked. -/
def fresh (policy : Policy) (tracker : Option Nat) : Heap :=
  { policy, tracker, blocks := #[], live := 0, attempts := 0, owners := 0, ledger := #[] }

/-- Asks for a fresh block, with one holder. -/
def allocate (h : Heap) (size : Nat) : Heap × Option Nat :=
  let attempts := h.attempts + 1
  if h.policy.grants attempts size (h.live + size) then
    let block := h.blocks.size
    ({ h with
        blocks := h.blocks.push ⟨size, 1⟩
        live := h.live + size
        attempts
        ledger := h.ledger.push (.alloc size (some block)) }, some block)
  else
    -- a refusal counts as an attempt, and nothing else is changed
    ({ h with attempts, ledger := h.ledger.push (.alloc size none) }, none)

/-- Asks for another size of a block that the caller says is of `old` bytes. -/
def resize (h : Heap) (block old new : Nat) : Heap × Bool :=
  let attempts := h.attempts + 1
  -- the sizes are those that the caller names; nothing here compares them with the block
  let live := h.live - old + new
  if h.policy.grants attempts new live then
    ({ h with
        blocks := h.blocks.modify block fun b => { b with size := new }
        live
        attempts
        ledger := h.ledger.push (.resize block old new true) }, true)
  else
    ({ h with attempts, ledger := h.ledger.push (.resize block old new false) }, false)

/-- Gives a block back that the caller says is of `size` bytes. -/
def free (h : Heap) (block size : Nat) : Heap :=
  { h with
    blocks := h.blocks.modify block fun b => { b with holders := 0 }
    live := h.live - size
    ledger := h.ledger.push (.free block size) }

/-- One more value shares a block. -/
def hold (h : Heap) (block : Nat) : Heap :=
  { h with blocks := h.blocks.modify block fun b => { b with holders := b.holders + 1 } }

/-- Values that share a block. -/
def holders (h : Heap) (block : Nat) : Nat :=
  match h.blocks[block]? with
  | some b => b.holders
  | none => 0

/-- One value fewer shares a block that still has others. -/
def letGo (h : Heap) (block : Nat) : Heap :=
  { h with blocks := h.blocks.modify block fun b => { b with holders := b.holders - 1 } }

/-- One more owner keeps the heap. -/
def addOwner (h : Heap) : Heap :=
  { h with owners := h.owners + 1 }

/-- One owner fewer keeps the heap. -/
def dropOwner (h : Heap) : Heap :=
  { h with owners := h.owners - 1 }

end Heap

end Safepoint
