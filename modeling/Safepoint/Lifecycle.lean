import Safepoint.Machine.Run

/-!
# Opening and closing

An interpreter is opened over a heap of its own. It takes one block for itself, and gives it back
when it is closed, after its stack and its globals. An instrumented interpreter is opened with the
facilities it was asked for, and when it is closed it looks at what is still allocated: strings that
are held elsewhere keep their blocks, and anything else that is still counted is amiss.
-/

namespace Safepoint

variable {κ τ ρ : Type}

/-- Where the memory of an interpreter comes from. -/
inductive MemorySource where
  /-- The system's allocator. -/
  | system
  /-- The system's allocator, counted by a tracker. -/
  | tracked (tracker : Nat)
  /-- An allocator of the embedder's. -/
  | custom (policy : Policy)

/-- A heap that nothing has been asked of. -/
def MemorySource.heap : MemorySource → Heap
  | system => .fresh .system none
  | tracked t => .fresh .system (some t)
  | custom policy => .fresh policy none

/-- What is told of limits when they are checked. -/
def Limits.notices (l : Limits) : List Notice :=
  if l.isDeep then [.deepCallLimit l.maxCallDepth] else []

namespace Interpreter

/-- Opens an interpreter over a heap. -/
def openOn (s : Store) (heap : Nat) (limits : Limits) : Store × Except Error (Interpreter κ) :=
  match limits.validate with
  | .error e => (s, .error e)
  | .ok () =>
    -- what the check has to tell is told even if there is no memory in the end
    let s := limits.notices.foldl Store.note s
    match s.allocate heap ownBlockSize with
    | (s, some block) => (s.mapHeap heap Heap.addOwner, .ok (initial heap block limits))
    | (s, none) => (s, .error .memory)

/-- Opens an interpreter over a new heap, whose place is answered too. -/
def openNew (s : Store) (source : MemorySource) (limits : Limits) :
    Store × Nat × Except Error (Interpreter κ) :=
  let (s, heap) := s.addHeap source.heap
  let (s, interp) := openOn s heap limits
  (s, heap, interp)

/-- Gives back the memory of an interpreter: what its stack and its globals hold, then its own
block. -/
def discard (i : Interpreter κ) (s : Store) : Store :=
  -- strings that lie here too may be freed by this, those that are held elsewhere are not
  let s := (s.releaseAll i.stack.toList).releaseAll i.globals.values
  (s.free i.heap i.block ownBlockSize).mapHeap i.heap Heap.dropOwner

end Interpreter

namespace Machine

/-- Installs the interjection hook, disarmed, which keeps the mailbox. An interpreter has room for
one hook. -/
def bind (m : Machine κ τ ρ) : Except Error (Machine κ τ ρ) :=
  if m.interp.hookInstalled || !m.interp.hookAllowed then
    .error (.configuration "state already has a hook installed")
  else
    let m := { m with
      mailbox := Mailbox.empty.keep
      interp := { m.interp with hookInstalled := true, countdown := 1 } }
    .ok (m.note .interjectorBound)

/-- Closes an interpreter: its hook goes first, and its memory after. -/
def close (m : Machine κ τ ρ) : Machine κ τ ρ :=
  let m :=
    if m.interp.hookInstalled then
      { m with mailbox := m.mailbox.abandon, interp := { m.interp with hookInstalled := false } }
    else m
  { m with interp := { m.interp with stack := #[], globals := .empty } }.mapStore m.interp.discard

end Machine

/-- What an instrumented interpreter was made with. -/
structure Instruments where
  facilities : Instrumentations
  /-- The counter, if memory is monitored. -/
  tracker : Option Nat
deriving DecidableEq, Repr

namespace Instruments

/-- Why an interpreter has no handles. -/
def noInterruption : Error := .unsupported "state was created without interruption"

/-- Why an interpreter has no counter. -/
def noMonitoring : Error := .unsupported "state was created without memory monitoring"

/-- Whether there are handles. -/
def interruption (i : Instruments) : Except Error Unit :=
  if i.facilities.interruption then .ok () else .error noInterruption

/-- The counter. -/
def monitoring (i : Instruments) : Except Error Nat :=
  match i.tracker with
  | some t => .ok t
  | none => .error noMonitoring

/-- Opens an interpreter with facilities. The machine is answered apart from its ground. -/
def openWith (g : Ground κ) (facilities : Instrumentations) (limits : Limits) :
    Ground κ × Except Error (Machine κ τ ρ × Instruments) :=
  let (store, tracker) :=
    if facilities.memoryMonitoring then
      let (store, t) := g.store.addTracker
      (store, some t)
    else (g.store, none)
  let source := match tracker with
    | some t => MemorySource.tracked t
    | none => .system
  match Interpreter.openNew store source limits with
  | (store, _, .error e) => ({ g with store }, .error e)
  | (store, _, .ok interp) =>
    -- a new interpreter has no hook yet, so the one that is installed finds the slot free
    let m : Machine κ τ ρ := .idle interp .empty { g with store }
    match if facilities.interruption then m.bind else .ok m with
    | .error e => (m.ground, .error e)
    | .ok m =>
      let (ground, m) := (m.note (.created facilities)).park
      (ground, .ok (m, ⟨facilities, tracker⟩))

/-- Closes an instrumented interpreter and looks at what is left. -/
def close (i : Instruments) (m : Machine κ τ ρ) : Machine κ τ ρ :=
  let m := m.close
  match i.tracker with
  | none => m
  | some t =>
    -- both are read once the interpreter is gone, so what is left is held by somebody else
    let outstanding := m.ground.store.reading t
    let escaped := m.ground.store.owners m.interp.heap
    if 0 < escaped then m.note (.valuesOutlive outstanding escaped)
    else if outstanding ≠ 0 then m.note (.stillAllocated outstanding)
    else m

end Instruments

end Safepoint
