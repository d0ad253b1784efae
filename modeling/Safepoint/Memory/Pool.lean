import Safepoint.Memory.Tracker

/-!
# Pools of blocks

A caller of an allocator callback, as the callback sees it: the blocks it has been given, each with
the size it would name, and the counter of a counting callback. A block that was freed or never
granted is null.
-/

namespace Safepoint

/-- A block in a caller's hands: null, or of a size. -/
abbrev BlockRef := Option Nat

/-- The blocks of one caller, and the counter if the callback keeps one. -/
structure Pool where
  tracker : Option Tracker
  blocks : List BlockRef
deriving DecidableEq, Repr

/-- One call of the callback. The tag of a fresh request says what the block is for; it is passed
where the size of a block would be and must not be taken for one. -/
inductive PoolCall where
  | fresh (tag size : Nat)
  | resize (index size : Nat)
deriving DecidableEq, Repr

/-- The size that a call asks for. -/
def PoolCall.size : PoolCall → Nat
  | fresh _ size | resize _ size => size

/-- What a call showed. -/
structure PoolStep where
  verdict : Verdict
  notices : List Notice
deriving DecidableEq, Repr

namespace Pool

/-- A caller that has no blocks yet, of the counting callback or of the plain one. -/
def empty (counting : Bool) : Pool :=
  ⟨if counting then some .zero else none, []⟩

/-- Calls the callback on a pointer that is null or not, with a size for the block behind it. -/
def request (p : Pool) (null : Bool) (osize size : Nat) (grants : Bool) : Pool × PoolStep :=
  match p.tracker with
  | some t =>
    let (t', verdict, notices) := t.request null osize size grants
    ({ p with tracker := some t' }, ⟨verdict, notices⟩)
  | none =>
    -- the plain callback counts nothing, and answers alike
    (p, ⟨if size = 0 then .freed else if grants then .granted else .refused, []⟩)

/-- The block in some place, null where there never was one. -/
def block (p : Pool) (place : Nat) : BlockRef :=
  (p.blocks[place]?).join

/-- What a call passes for the block it acts on: whether the pointer is null, and a size, which is
the tag if the block is to be a fresh one. -/
def operand (p : Pool) : PoolCall → Bool × Nat
  | .fresh tag _ => (true, tag)
  | .resize index _ => ((p.block index).isNone, (p.block index).getD 0)

/-- Whether a call names a block of this caller's, or asks for a fresh one. -/
def knows (p : Pool) : PoolCall → Bool
  | .fresh .. => true
  | .resize index _ => index < p.blocks.length

/-- What a block has become after a call that asked for `size` bytes. -/
def after (held : BlockRef) (size : Nat) : Verdict → BlockRef
  | .granted => some size
  | .refused => held
  | .freed => none

/-- Makes one call, which the system grants or not. -/
def call (p : Pool) (c : PoolCall) (grants : Bool) : Pool × PoolStep :=
  let (null, osize) := p.operand c
  let (p', step) := p.request null osize c.size grants
  match c with
  | .fresh _ size =>
    -- a request that is refused leaves an empty place, so that later calls keep their numbers
    ({ p' with blocks := p'.blocks ++ [after none size step.verdict] }, step)
  | .resize index size =>
    ({ p' with blocks := p'.blocks.set index (after (p.block index) size step.verdict) }, step)

/-- Bytes in the blocks of this caller. -/
def liveBytes (p : Pool) : Nat :=
  p.blocks.foldr (fun b total => b.getD 0 + total) 0

/-- Frees every block that is left, in order. -/
def freeAll (p : Pool) : Pool :=
  (List.range p.blocks.length).foldl
    (fun q index => if (q.block index).isSome then (q.call (.resize index 0) true).1 else q) p

/-- The counter's reading, if there is one. -/
def live? (p : Pool) : Option Nat :=
  p.tracker.map fun t => t.allocated.toNat

end Pool

end Safepoint
