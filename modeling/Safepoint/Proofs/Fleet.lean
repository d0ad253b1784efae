import Safepoint.Proofs.System.Steady

/-!
# Fleets

Interpreters on common ground. A `Fleet` is all that an embedder has: the store, any number of
interpreters, each among the threads that hold handles of it, and the strings that the embedder has
in its hands. What comes out of an interpreter goes into the embedder's hands, the results of what
it was set to do as well as the values that host code gives to the outside, and what goes into an
interpreter is taken out of them; so a string may pass from one interpreter to another, and be held
after its own was dropped. What the code of a native function has captured counts as being in the
embedder's hands.

A `Fleet.Event` is one atomic thing that can happen, to one interpreter or to what they share, and
events come in any order.

## Key results

- `Member.steady_turn`: whatever happens to an interpreter of a fleet, it stays steady
- `Member.turn_keeps`: an interpreter keeps its heap and its instruments all its life
-/

namespace Safepoint

variable {κ τ ρ : Type}

/-- An interpreter of a fleet, with its instruments if it was made with any. -/
structure Member (κ τ ρ : Type) where
  system : System κ τ ρ
  instruments : Option Instruments

/-- What comes out of an interpreter when it stops. -/
def Control.offers : Control κ τ ρ → List (Value κ)
  | .finished (.ok vs) => vs
  | .waiting _ given _ _ => given
  | _ => []

/-- Whether the outside is waited for. -/
def Control.isWaiting : Control κ τ ρ → Bool
  | .waiting .. => true
  | _ => false

namespace Member

/-- Whether the embedder may set an interpreter to work, or drop it. -/
def isIdle (m : Member κ τ ρ) : Bool :=
  m.system.isOpen && m.system.machine.control.isFinished

/-- The heap that an interpreter has its memory from. -/
def heap (m : Member κ τ ρ) : Nat :=
  m.system.machine.interp.heap

/-- An interpreter on the common ground. -/
def onGround (m : Member κ τ ρ) (ground : Ground κ) : Member κ τ ρ :=
  { m with system := { m.system with machine := m.system.machine.onGround ground } }

/-- An interpreter that was dropped. An instrumented one looks at what is left. -/
def closed (m : Member κ τ ρ) : Machine κ τ ρ :=
  match m.instruments with
  | some instruments => instruments.close m.system.machine
  | none => m.system.machine.close

/-- What becomes of an interpreter by an event, and of what the embedder has in its hands. -/
def turn (code : Meaning κ τ ρ) (m : Member κ τ ρ) (hands : Held) :
    Event κ τ ρ → Member κ τ ρ × Held
  | .advance =>
    if m.system.machine.isStopped then (m, hands)
    else
      let system := m.system.step code .advance
      ({ m with system }, hands.addAll system.machine.control.offers)
  | .start p given =>
    if m.isIdle then
      let (given, hands) := hands.takeAll given
      ({ m with system := m.system.step code (.start p given) }, hands)
    else (m, hands)
  | .answer r vs =>
    if m.system.machine.control.isWaiting then
      let (vs, hands) := hands.takeAll vs
      ({ m with system := m.system.step code (.answer r vs) }, hands)
    else (m, hands)
  | .close =>
    if m.isIdle then
      ({ m with system := { m.system with machine := m.closed, isOpen := false } }, hands)
    else (m, hands)
  | .ground _ => (m, hands)
  | e => ({ m with system := m.system.step code e }, hands)

end Member

/-- Interpreters on common ground, and the strings that their embedder holds, one entry for each
hold. -/
structure Fleet (κ τ ρ : Type) where
  ground : Ground κ
  members : List (Member κ τ ρ)
  hands : Held

/-- Whether there is the counter that memory is to be counted by. -/
def MemorySource.isKnown (s : Store) : MemorySource → Bool
  | tracked t => t < s.trackers.size
  | _ => true

namespace Fleet

/-- What can happen to a fleet. -/
inductive Event (κ τ ρ : Type) where
  /-- The embedder makes a counter. -/
  | count
  /-- The allocator of a heap has something else to give from now on. -/
  | ration (heap : Nat) (policy : Policy)
  /-- The embedder opens an interpreter. -/
  | opens (source : MemorySource) (limits : Limits)
  /-- The embedder opens an instrumented interpreter. -/
  | instruments (facilities : Instrumentations) (limits : Limits)
  /-- Something happens to an interpreter. The ground is the common one, whatever the event says. -/
  | on (i : Nat) (e : Safepoint.Event κ τ ρ)
  /-- The queues of hosts are filled. -/
  | queues (queues : Array (List κ))
  /-- The embedder makes a copy of a string that it has in its hands. -/
  | copy (s : Str)
  /-- The embedder lets go of a string. -/
  | drop (s : Str)

/-- A fleet without interpreters. -/
def empty : Fleet κ τ ρ :=
  ⟨.empty, [], []⟩

/-- Changes the store. -/
def mapStore (f : Fleet κ τ ρ) (change : Store → Store) : Fleet κ τ ρ :=
  { f with ground := { f.ground with store := change f.ground.store } }

/-- What comes of an event. What cannot happen yet changes nothing. -/
def step (code : Meaning κ τ ρ) (f : Fleet κ τ ρ) : Event κ τ ρ → Fleet κ τ ρ
  | .count => f.mapStore fun s => s.addTracker.1
  | .ration heap policy => f.mapStore fun s => s.mapHeap heap fun h => { h with policy }
  | .opens source limits =>
    if source.isKnown f.ground.store then
      match Interpreter.openNew f.ground.store source limits with
      | (store, _, .ok interp) =>
        let m := Member.mk (.opening (.idle interp .empty .empty)) none
        { f.mapStore fun _ => store with members := f.members ++ [m] }
      | (store, _, .error _) => f.mapStore fun _ => store
    else f
  | .instruments facilities limits =>
    match Instruments.openWith f.ground facilities limits with
    | (ground, .ok (machine, instruments)) =>
      { f with ground, members := f.members ++ [⟨.opening machine, some instruments⟩] }
    | (ground, .error _) => { f with ground }
  | .on i e =>
    match f.members[i]? with
    | some m =>
      let (m, hands) := (m.onGround f.ground).turn code f.hands e
      { ground := m.system.machine.ground, members := f.members.set i m, hands }
    | none => f
  | .queues queues => { f with ground := { f.ground with queues } }
  | .copy s =>
    match f.hands.lookup s with
    | some t => { f.mapStore fun store => store.retain t with hands := f.hands ++ [t] }
    | none => f
  | .drop s =>
    match f.hands.lookup s with
    | some t => { f.mapStore fun store => store.release t with hands := f.hands.drop s }
    | none => f

/-- A run of a fleet, from the empty one on: one event after another, in any order whatever. -/
structure Run (code : Meaning κ τ ρ) where
  state : Nat → Fleet κ τ ρ
  event : Nat → Event κ τ ρ
  begins : state 0 = empty
  next : ∀ n, state (n + 1) = (state n).step code (event n)

/-- What becomes of the empty fleet through the first events of a schedule. -/
def after (code : Meaning κ τ ρ) (event : Nat → Event κ τ ρ) : Nat → Fleet κ τ ρ
  | 0 => empty
  | n + 1 => (after code event n).step code (event n)

/-- The run of a fleet through some events, after which its first interpreter goes on alone. -/
def Run.ofEvents (code : Meaning κ τ ρ) (events : List (Event κ τ ρ)) : Run code where
  state := after code fun n => events.getD n (.on 0 .advance)
  event n := events.getD n (.on 0 .advance)
  begins := rfl
  next _ := rfl

end Fleet

/-! ## Heaps -/

/-- Frames that are taken off leave an interpreter with its heap. -/
private theorem heap_unwound (fs : List (Frame κ τ ρ)) (i : Interpreter κ) :
    (unwound fs i).heap = i.heap := by
  induction fs generalizing i with
  | nil => rfl
  | cons f fs ih =>
    have hunwind : (f.unwind i).heap = i.heap := by cases f <;> rfl
    exact (ih (f.unwind i)).trans hunwind

/-- An interpreter keeps its heap. -/
theorem Machine.Steady.heap_step (code : Meaning κ τ ρ) {m : Machine κ τ ρ} (h : m.Steady) :
    (m.step code).interp.heap = m.interp.heap := by
  obtain ⟨-, above, -, -, howed⟩ := Machine.owes_step code h.counting h.fitting h.order h.laid
  have hheap := congrArg Interpreter.heap howed
  exact (heap_unwound _ _).symm.trans (hheap.trans (heap_unwound _ _))

/-! ## Members -/

/-- What an instrumented interpreter tells that was dropped, by what is left in the store. -/
def Instruments.report (i : Instruments) (heap : Nat) (s : Store) : List Notice :=
  match i.tracker with
  | none => []
  | some t =>
    if 0 < s.owners heap then [.valuesOutlive (s.reading t) (s.owners heap)]
    else if s.reading t ≠ 0 then [.stillAllocated (s.reading t)]
    else []

/-- To close instruments is to drop the interpreter and then to tell of what is left. -/
theorem Instruments.close_eq (i : Instruments) (m : Machine κ τ ρ) :
    i.close m = (i.report m.interp.heap m.close.ground.store).foldl Machine.note m.close := by
  have hheap : m.close.interp.heap = m.interp.heap := by
    simp only [Machine.close]
    split <;> rfl
  unfold close report
  cases i.tracker with
  | none => rfl
  | some t =>
    simp only [hheap]
    split
    · rfl
    · split <;> rfl

namespace Member

variable {m m' : Member κ τ ρ} {hands hands' : Held}

/-- On another ground, an interpreter is as steady as before. -/
theorem steady_onGround (h : m.system.Steady) (ground : Ground κ) :
    (m.onGround ground).system.Steady :=
  System.steady_step (fun _ _ => .finish (.ok [])) (e := .ground ground) h

/-- An interpreter that was dropped has told of what is left. -/
theorem closed_eq (m : Member κ τ ρ) :
    ∃ notices : List Notice, m.closed = notices.foldl Machine.note m.system.machine.close := by
  unfold closed
  split
  next instruments _ => exact ⟨_, instruments.close_eq _⟩
  next => exact ⟨[], rfl⟩

/-- Apart from its ground, it is like one that has told of nothing. -/
theorem closed_eq_onGround (m : Member κ τ ρ) :
    ∃ g, m.closed = m.system.machine.close.onGround g := by
  obtain ⟨notices, hclosed⟩ := m.closed_eq
  rw [hclosed]
  exact Machine.notes_eq_onGround _ notices

/-- Whatever happens to a steady interpreter, it stays steady. -/
theorem steady_turn (code : Meaning κ τ ρ) (h : m.system.Steady) (hands : Held)
    (e : Event κ τ ρ) : (m.turn code hands e).1.system.Steady := by
  -- the member's own events are gated by whether it may go on, is idle, or waits
  cases e with
  | advance =>
    simp only [turn]
    split
    · exact h
    · exact System.steady_step code (e := .advance) h
  | start p given =>
    simp only [turn]
    split
    · exact System.steady_step code (e := .start p (hands.takeAll given).1) h
    · exact h
  | answer r vs =>
    simp only [turn]
    split
    · exact System.steady_step code (e := .answer r (hands.takeAll vs).1) h
    · exact h
  | close =>
    simp only [turn]
    split
    next hidle =>
      obtain ⟨-, hfin⟩ : m.system.isOpen = true ∧ m.system.machine.control.isFinished = true := by
        simpa [isIdle] using hidle
      obtain ⟨g, hg⟩ := m.closed_eq_onGround
      have hclosed := h.machine.close hfin
      -- a member that was dropped is at rest
      refine ⟨?_, fun _ => ?_⟩
      · show m.closed.Steady
        rw [hg]
        exact hclosed.congr rfl rfl rfl rfl rfl
      · show m.closed.control.isFinished = true
        rw [hg]
        simp only [Machine.close]
        split <;> exact hfin
    next => exact h
  | ground g => exact h
  | call thread c => exact System.steady_step code (e := .call thread c) h
  | host thread => exact System.steady_step code (e := .host thread) h
  | syncpoints points => exact System.steady_step code (e := .syncpoints points) h

/-- An interpreter keeps its heap and its instruments. -/
theorem turn_keeps (code : Meaning κ τ ρ) (h : m.system.Steady) (hands : Held)
    (e : Event κ τ ρ) :
    (m.turn code hands e).1.heap = m.heap ∧
      (m.turn code hands e).1.instruments = m.instruments := by
  -- an interpreter keeps its heap, whatever happens to it
  cases e with
  | advance =>
    simp only [turn]
    split
    · exact ⟨rfl, rfl⟩
    · exact ⟨h.machine.heap_step code, rfl⟩
  | start p given =>
    simp only [turn]
    split
    next hidle => exact ⟨by simp only [heap, System.step]; split <;> rfl, rfl⟩
    next => exact ⟨rfl, rfl⟩
  | answer r vs =>
    simp only [turn]
    split
    next => exact ⟨by simp only [heap, System.step, Machine.answer]; split <;> rfl, rfl⟩
    next => exact ⟨rfl, rfl⟩
  | close =>
    simp only [turn]
    split
    next =>
      obtain ⟨g, hg⟩ := m.closed_eq_onGround
      refine ⟨?_, rfl⟩
      show m.closed.interp.heap = _
      rw [hg]
      simp only [Machine.close]
      split <;> rfl
    next => exact ⟨rfl, rfl⟩
  | ground g => exact ⟨rfl, rfl⟩
  | call thread c => exact ⟨by simp only [heap, turn, System.step]; split <;> rfl, rfl⟩
  | host thread =>
    obtain ⟨g, hg⟩ := m.system.access_eq thread
    exact ⟨by simp only [heap, turn, System.step, hg], rfl⟩
  | syncpoints points => exact ⟨rfl, rfl⟩

end Member

end Safepoint
