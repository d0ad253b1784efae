import Safepoint.Memory.Heap

/-!
# The store

What outlives any one interpreter: the heaps, the counters, and the journal of notices. A string
value points to a block of one heap; it may be held after its interpreter was closed and be handed
to another. `Store.newString` and `Store.concat` make strings with one holder, `Store.retain` adds a
holder, and `Store.release` takes one away and frees the block after the last.
-/

namespace Safepoint

/-- An immutable string of octets in a block of a heap, one octet longer than the string. -/
structure Str where
  heap : Nat
  block : Nat
  bytes : Bytes
deriving DecidableEq, Repr

/-- The size of the block that a string of so many octets needs. -/
def blockSize (bytes : Bytes) : Nat :=
  bytes.length + 1

/-- The heaps, the counters and the journal. -/
structure Store where
  heaps : Array Heap
  trackers : Array Tracker
  journal : Array Notice

namespace Store

/-- A store in which nothing has happened. -/
def empty : Store := ⟨#[], #[], #[]⟩

/-- Enters a notice in the journal. -/
def note (s : Store) (n : Notice) : Store :=
  { s with journal := s.journal.push n }

/-- Adds a heap, with its place. -/
def addHeap (s : Store) (h : Heap) : Store × Nat :=
  ({ s with heaps := s.heaps.push h }, s.heaps.size)

/-- Adds a counter, with its place. -/
def addTracker (s : Store) : Store × Nat :=
  ({ s with trackers := s.trackers.push .zero }, s.trackers.size)

/-- The reading of a counter. -/
def reading (s : Store) (tracker : Nat) : Nat :=
  match s.trackers[tracker]? with
  | some t => t.allocated.toNat
  | none => 0

/-- Changes a heap. -/
def mapHeap (s : Store) (heap : Nat) (f : Heap → Heap) : Store :=
  { s with heaps := s.heaps.modify heap f }

/-- Asks something of a heap that may fail; a heap that is not there refuses. -/
def ask {α : Type} (s : Store) (heap : Nat) (f : Heap → Heap × α) (refusal : α) : Store × α :=
  let ⟨heaps, trackers, journal⟩ := s
  match heaps[heap]? with
  | none => (⟨heaps, trackers, journal⟩, refusal)
  | some h =>
    -- the heap is taken out of the array while it is asked, so that it is changed in place
    let heaps := heaps.setIfInBounds heap (.fresh .system none)
    let (h', answer) := f h
    (⟨heaps.setIfInBounds heap h', trackers, journal⟩, answer)

/-- The counter of a heap's callback. -/
def trackerOf (s : Store) (heap : Nat) : Option Nat :=
  match s.heaps[heap]? with
  | some h => h.tracker
  | none => none

/-- Owners that keep a heap. -/
def owners (s : Store) (heap : Nat) : Nat :=
  match s.heaps[heap]? with
  | some h => h.owners
  | none => 0

/-- Calls the counting callback of a heap, if it has one, on a pointer that is null or on a block of
some size; the system granted the new size or not. -/
def settle (s : Store) (heap : Nat) (null : Bool) (osize nsize : Nat) (granted : Bool) : Store :=
  match s.trackerOf heap with
  | none => s
  | some t =>
    match s.trackers[t]? with
    | none => s
    | some tracker =>
      let (tracker', _, notices) := tracker.request null osize nsize granted
      { s with trackers := s.trackers.setIfInBounds t tracker', journal := s.journal ++ notices }

/-- Asks for a fresh block. -/
def allocate (s : Store) (heap size : Nat) : Store × Option Nat :=
  match s.ask heap (fun h => h.allocate size) none with
  | (s, some block) => (s.settle heap true 0 size true, some block)
  | (s, none) => (s.settle heap true 0 size false, none)

/-- Asks for another size of a block. -/
def resize (s : Store) (heap block old new : Nat) : Store × Bool :=
  match s.ask heap (fun h => h.resize block old new) false with
  | (s, true) => (s.settle heap false old new true, true)
  | (s, false) => (s.settle heap false old new false, false)

/-- Gives a block back. -/
def free (s : Store) (heap block size : Nat) : Store :=
  (s.mapHeap heap fun h => h.free block size).settle heap false size 0 true

/-- Makes a string of given octets. -/
def newString (s : Store) (heap : Nat) (bytes : Bytes) : Store × Option Str :=
  match s.allocate heap (blockSize bytes) with
  | (s, some block) => (s.mapHeap heap Heap.addOwner, some ⟨heap, block, bytes⟩)
  | (s, none) => (s, none)

/-- One more value holds a string. -/
def retain (s : Store) (str : Str) : Store :=
  s.mapHeap str.heap fun h => h.hold str.block

/-- Values that hold a string. -/
def holders (s : Store) (str : Str) : Nat :=
  match s.heaps[str.heap]? with
  | some h => h.holders str.block
  | none => 0

/-- One value fewer holds a string; the last one frees its block and the string owns the
heap no more. -/
def release (s : Store) (str : Str) : Store :=
  if 1 < s.holders str then
    s.mapHeap str.heap fun h => h.letGo str.block
  else
    (s.free str.heap str.block (blockSize str.bytes)).mapHeap str.heap Heap.dropOwner

/-- Makes the string `a` followed by `b`, growing the block of a copy of `a`. The copy is used up
without being released, so it goes on being an owner of the heap beside the result. -/
def concat (s : Store) (heap : Nat) (a b : Bytes) : Store × Option Str :=
  match s.newString heap a with
  | (s, none) => (s, none)
  | (s, some head) =>
    match s.resize heap head.block (blockSize a) (blockSize (a ++ b)) with
    -- the block is that of the copy, which has an owner already; the result adds its own
    | (s, true) => (s.mapHeap heap Heap.addOwner, some ⟨heap, head.block, a ++ b⟩)
    | (s, false) => (s.release head, none)

end Store

end Safepoint
