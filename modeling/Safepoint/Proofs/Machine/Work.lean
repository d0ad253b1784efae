import Safepoint.Machine.Run

/-!
# Ordinary work

Most of what a machine does concerns its own stack, its own globals and the store: calls, the
instructions of scripts, host code and protected calls. None of it touches the mailbox or the
bookkeeping of the hook, and none of it pushes a frame of the safepoint handler. `Ordinary w m m'`
says so of the way from `m` to `m'`, and there is one lemma for each kind of work.

The frames also keep count of the calls in progress: `Nested depth frames` says that `depth` is the
number of calls that `frames` are in the middle of, and that every protected call at the embedding
boundary remembers the depth at which it was made. And they fit what the machine is about to do:
`Waits w frames` says what the frame on top waits for, and that each frame below waits for the work
that the frame above it is part of.

## Key results

- `Goes.ordinary`: whatever a script function does on its own is ordinary work
- `ordinary_invoke`, `ordinary_enter`, `ordinary_serve` and others: so are calls and host code
-/

namespace Safepoint

variable {κ τ ρ : Type}

/-! ## Frames and controls that are not the handler's -/

/-- Whether a frame belongs to ordinary work, not to the safepoint handler. -/
def Frame.isOrdinary : Frame κ τ ρ → Bool
  | .dispatch | .pass (.mailbox _) _ => false
  | _ => true

/-- Whether a machine is at ordinary work: neither in the safepoint handler nor finished. -/
def Control.isOrdinary : Control κ τ ρ → Bool
  | .handle .. | .measure _ | .rearm .. | .tell .. | .unmark _ | .finished _ => false
  | .drain (.mailbox _) _ | .settle (.mailbox _) .. => false
  | .check _ c | .arrive _ c | .paused _ c => c.isOrdinary
  | _ => true

/-- What is done next, once the syncpoint at hand has been passed. -/
def Control.past : Control κ τ ρ → Control κ τ ρ
  | .check _ c | .arrive _ c | .paused _ c => c.past
  | c => c

/-- As many calls are in progress as the depth says, and each protected call at the embedding
boundary remembers the depth it was made at. -/
def Nested : Nat → List (Frame κ τ ρ) → Prop
  | depth, [] => depth = 0
  | depth, .call _ :: fs => ∃ below, depth = below + 1 ∧ Nested below fs
  | depth, .boundary _ made :: fs => made = depth ∧ Nested depth fs
  | depth, _ :: fs => Nested depth fs

/-- The hook's bookkeeping in an interpreter: whether the hook is in its slot, whether it may be
entered, and the instructions to the next count event. -/
def Interpreter.hook (i : Interpreter κ) : Bool × Bool × Nat :=
  (i.hookInstalled, i.hookAllowed, i.countdown)

/-! ## What frames wait for -/

/-- What has to end before the frames of a machine go on. -/
inductive Awaited where
  /-- A call. -/
  | call
  /-- The body of a function. -/
  | body
  | safepoint
  /-- The safepoint handler. -/
  | handler
  /-- Host code. -/
  | program
  /-- A request of host code. -/
  | reply
  /-- Nothing has to: the script function on top is at work. -/
  | script
deriving DecidableEq, Repr

/-- Whether a frame on top waits for this. -/
def Frame.waitsFor : Frame κ τ ρ → Awaited → Bool
  | .call (.entering ..), .safepoint | .call (.leaving _), .safepoint => true
  | .call .body, .body | .call .body, .program => true
  | .script _ .ready, .script | .script _ (.safepoint _), .safepoint => true
  | .script _ (.call _), .call | .script _ (.pcall ..), .call => true
  | .host .., .call | .host .., .reply => true
  | .boundary .., .call => true
  | .dispatch, .handler => true
  | .pass .., .program => true
  | _, _ => false

/-- What a frame is part of, and so what the frames below it wait for. -/
def Frame.partOf : Frame κ τ ρ → Awaited
  | .call _ => .call
  | .script .. => .body
  | .host .. => .program
  | .boundary .. => .reply
  | .dispatch => .safepoint
  | .pass (.mailbox _) _ => .handler
  | .pass (.queue _) _ => .reply

/-- Each frame waits for what the frame above it is part of, and the one on top for `w`. Below all
frames waits the embedder, for its host code to end. -/
def Waits : Awaited → List (Frame κ τ ρ) → Prop
  | w, [] => w = .program
  | w, f :: fs => f.waitsFor w = true ∧ Waits f.partOf fs

/-- Where the body of a function is waited for, host code may run for it. -/
theorem Waits.program_of_body {fs : List (Frame κ τ ρ)} (h : Waits .body fs) :
    Waits .program fs := by
  match fs, h with
  | [], h => exact nomatch h
  | .call .body :: fs, h => exact ⟨rfl, h.2⟩

/-- Whether syncpoints may be met where this is awaited: the safepoint handler has some, and so have
the requests of host code. -/
def Awaited.meetsSyncpoints (w : Awaited) : Bool :=
  w == .handler || w == .reply

/-- Whether what is done next is done for those who wait for this. -/
def Control.isFor : Control κ τ ρ → Awaited → Bool
  | .invoke .., w => w == .call
  | .poll _, w => w == .safepoint
  | .handle .., w | .measure _, w | .rearm .., w | .tell .., w | .unmark _, w => w == .handler
  | .drain (.mailbox _) _, w | .settle (.mailbox _) .., w => w == .handler
  | .drain (.queue _) _, w | .settle (.queue _) .., w => w == .reply
  | .post _, w | .reply _, w => w == .reply
  | .fetch, w | .execute _, w => w == .script
  | .run .., w | .waiting .., w | .finished _, w => w == .program
  | .deliver _, w => w != .script
  | .check _ c, w | .arrive _ c, w | .paused _ c, w => w.meetsSyncpoints && c.isFor w
  | .fault f, _ => f != .stray

/-- Work that may meet syncpoints is for the same frame while it is held at one. -/
theorem Control.isFor_past (c : Control κ τ ρ) {w : Awaited} (hw : w.meetsSyncpoints = true) :
    c.past.isFor w = c.isFor w := by
  induction c with
  | check _ c ih | arrive _ c ih | paused _ c ih => simpa [past, isFor, hw] using ih
  | _ => rfl

/-- The frames wait for what the machine is about to do. In particular nothing ends that nothing
waited for. -/
def Machine.Fitting (m : Machine κ τ ρ) : Prop :=
  ∃ w, m.control.isFor w = true ∧ Waits w m.frames

namespace Machine

/-! ## What stays as it was -/

/-- From `m` to `m'`, only the stack, the globals, the counts of an interpreter and the ground have
changed. -/
structure Silent (m m' : Machine κ τ ρ) : Prop where
  mailbox : m'.mailbox = m.mailbox
  hook : m'.interp.hook = m.interp.hook
  depth : m'.interp.depth = m.interp.depth
  frames : m'.frames = m.frames

/-- From `m` to `m'`, ordinary work was set out for, for those who wait for `w`: frames of its own
were pushed, and the mailbox and the hook are as they were. -/
structure Ordinary (w : Awaited) (m m' : Machine κ τ ρ) : Prop where
  mailbox : m'.mailbox = m.mailbox
  hook : m'.interp.hook = m.interp.hook
  frames : ∃ pushed, (∀ f ∈ pushed, f.isOrdinary) ∧ m'.frames = pushed ++ m.frames
  nested : Nested m.interp.depth m.frames → Nested m'.interp.depth m'.frames
  fitting : Waits w m.frames → m'.Fitting
  control : m'.control.isOrdinary

variable {m m' m₁ m₂ : Machine κ τ ρ} {w : Awaited}

/-- Silent changes one after the other are silent. -/
theorem Silent.trans (h : Silent m m₁) (h' : Silent m₁ m₂) : Silent m m₂ where
  mailbox := h'.mailbox.trans h.mailbox
  hook := h'.hook.trans h.hook
  depth := h'.depth.trans h.depth
  frames := h'.frames.trans h.frames

/-- Silent changes before ordinary work make no difference. -/
theorem Silent.ordinary (h : Silent m m₁) (h' : Ordinary w m₁ m₂) : Ordinary w m m₂ where
  mailbox := h'.mailbox.trans h.mailbox
  hook := h'.hook.trans h.hook
  frames := by simpa only [h.frames] using h'.frames
  nested hn := h'.nested (by rwa [h.depth, h.frames])
  fitting hw := h'.fitting (by rwa [h.frames])
  control := h'.control

/-- An interpreter may change in all that is neither its hook's bookkeeping nor its depth. -/
theorem silent_interp (m : Machine κ τ ρ) (i : Interpreter κ) (hhook : i.hook = m.interp.hook)
    (hdepth : i.depth = m.interp.depth) : Silent m { m with interp := i } :=
  ⟨rfl, hhook, hdepth, rfl⟩

/-- What is done to the store is silent. -/
theorem silent_mapStore (m : Machine κ τ ρ) (f : Store → Store) : Silent m (m.mapStore f) :=
  ⟨rfl, rfl, rfl, rfl⟩

/-- What interpreters share may change silently. -/
theorem silent_onGround (m : Machine κ τ ρ) (g : Ground κ) : Silent m (m.onGround g) :=
  ⟨rfl, rfl, rfl, rfl⟩

/-- What an observer is told goes no further than the ground. -/
theorem notes_eq_onGround (m : Machine κ τ ρ) (notices : List Notice) :
    ∃ g, notices.foldl note m = m.onGround g := by
  induction notices generalizing m with
  | nil => exact ⟨m.ground, rfl⟩
  | cons n rest ih => exact ih (m.note n)

/-- Notices are written silently. -/
theorem silent_notes (m : Machine κ τ ρ) (notices : List Notice) :
    Silent m (notices.foldl note m) := by
  obtain ⟨g, hg⟩ := notes_eq_onGround m notices
  rw [hg]
  exact silent_onGround m g

/-- A stack is cut off silently. -/
theorem silent_truncate (m : Machine κ τ ρ) (height : Nat) : Silent m (m.truncate height) :=
  ⟨rfl, rfl, rfl, rfl⟩

/-- Values are taken off a stack silently. -/
theorem silent_popped (m : Machine κ τ ρ) (n : Nat) : Silent m (m.popped n) :=
  ⟨rfl, rfl, rfl, rfl⟩

/-- A global is set silently. -/
theorem silent_setGlobal (m : Machine κ τ ρ) (name : String) (v : Value κ) :
    Silent m (m.setGlobal name v) :=
  ⟨rfl, rfl, rfl, rfl⟩

/-- A function is made silently. -/
theorem silent_newFunction (m : Machine κ τ ρ) : Silent m m.newFunction.1 :=
  ⟨rfl, rfl, rfl, rfl⟩

/-- The store is asked silently. -/
theorem silent_askStore {α : Type} {f : Store → Store × α} {a : α}
    (h : m.askStore f = (m₁, a)) : Silent m m₁ := by
  obtain rfl : (m.askStore f).1 = m₁ := by rw [h]
  exact ⟨rfl, rfl, rfl, rfl⟩

/-- A value is made silently. -/
theorem silent_newValue {bytes : Bytes} {v : Option (Value κ)}
    (h : m.newValue bytes = (m₁, v)) : Silent m m₁ := by
  unfold newValue at h
  exact silent_askStore h

/-- What is asked of the store leaves frames and interpreter as they are. -/
theorem askStore_eq {α : Type} {f : Store → Store × α} {answer : α}
    (h : m.askStore f = (m₁, answer)) : m₁.frames = m.frames ∧ m₁.interp = m.interp := by
  obtain rfl : (m.askStore f).1 = m₁ := by rw [h]
  exact ⟨rfl, rfl⟩

/-- To make a value leaves the frames and the interpreter as they are. -/
theorem newValue_keeps {bytes : Bytes} {v : Option (Value κ)}
    (h : m.newValue bytes = (m₁, v)) : m₁.frames = m.frames ∧ m₁.interp = m.interp := by
  unfold newValue at h
  exact askStore_eq h

/-- A new string changes the store. -/
theorem newValue_eq (m : Machine κ τ ρ) (bytes : Bytes) :
    m.newValue bytes =
      (m.mapStore fun s => (s.newValue m.interp.heap bytes : _ × Option (Value κ)).1,
      (m.ground.store.newValue m.interp.heap bytes).2) :=
  rfl

/-- A stack that is not above some height stays as it is when it is cut down to it. -/
theorem truncate_size (m : Machine κ τ ρ) : m.truncate m.interp.stack.size = m := by
  have hshrink : m.interp.stack.shrink m.interp.stack.size = m.interp.stack := by simp
  have hdropped : (m.interp.stack.extract m.interp.stack.size m.interp.stack.size).toList = [] := by
    simp
  unfold truncate
  rw [hshrink, hdropped]
  rfl

/-- A new string is that of the store, if there is memory for it. -/
theorem snd_newValue (m : Machine κ τ ρ) (bytes : Bytes) :
    (m.newValue bytes).2 = (m.ground.store.newString m.interp.heap bytes).2.map .str := by
  show (m.ground.store.newValue m.interp.heap bytes).2 = _
  unfold Store.newValue
  split
  next made => rw [made]; rfl
  next made => rw [made]; rfl

/-! ## Ways to set out -/

/-- To go on with ordinary work that the frame on top waits for. -/
theorem ordinary_goto (m : Machine κ τ ρ) {c : Control κ τ ρ} (hc : c.isOrdinary = true)
    (hw : c.isFor w = true) : Ordinary w m (m.goto c) :=
  ⟨rfl, rfl, ⟨[], by simp, rfl⟩, id, fun h => ⟨w, hw, h⟩, hc⟩

/-- To go on with an error, which any frame but one of a script may be waiting for. -/
theorem ordinary_raise (m : Machine κ τ ρ) (e : Error) (hw : w ≠ .script) :
    Ordinary w m (m.raise e) :=
  ordinary_goto m rfl (by simpa [Control.isFor] using hw)

/-- Waiting in a frame that is in the middle of no call changes no count. -/
theorem ordinary_await (m : Machine κ τ ρ) (w' : Awaited) {f : Frame κ τ ρ} {c : Control κ τ ρ}
    (hf : f.isOrdinary = true) (hc : c.isOrdinary = true)
    (hn : Nested m.interp.depth m.frames → Nested m.interp.depth (f :: m.frames))
    (hw : c.isFor w' = true ∧ f.waitsFor w' = true ∧ f.partOf = w) :
    Ordinary w m (m.await f c) := by
  obtain ⟨hfor, hwaits, rfl⟩ := hw
  exact ⟨rfl, rfl, ⟨[f], by simpa using hf, rfl⟩, hn, fun h => ⟨w', hfor, hwaits, h⟩, hc⟩

/-! ## Scripts -/

/-- The ways of a script function that has executed an instruction, or has been handed an outcome:
what is done next, and the frames after it. Its own frame has been taken off `fs`. -/
inductive Way (fs : List (Frame κ τ ρ)) : Control κ τ ρ → List (Frame κ τ ρ) → Prop where
  /-- It goes on to its next instruction. -/
  | on (a : Activation κ) : Way fs .fetch (.script a .ready :: fs)
  | calls {a : Activation κ} {await : Await κ} (f : Value κ) (args : List (Value κ))
      (waits : (Frame.script a await : Frame κ τ ρ).waitsFor .call = true) :
      Way fs (.invoke f args) (.script a await :: fs)
  /-- It is left. -/
  | leaves (outcome : Outcome κ) : Way fs (.deliver outcome) fs
  | faults : Way fs (.fault .localOutside) fs

/-- From `m`, with its frame taken off, a script function goes one of its ways to `m'`, and touches
neither the mailbox nor the hook, nor any count. -/
structure Goes (m m' : Machine κ τ ρ) : Prop where
  mailbox : m'.mailbox = m.mailbox
  hook : m'.interp.hook = m.interp.hook
  depth : m'.interp.depth = m.interp.depth
  way : Way m.frames m'.control m'.frames

/-- Whatever was changed silently before, a script goes on as it does. -/
theorem Silent.goes (h : Silent m m₁) (h' : Goes m₁ m₂) : Goes m m₂ where
  mailbox := h'.mailbox.trans h.mailbox
  hook := h'.hook.trans h.hook
  depth := h'.depth.trans h.depth
  way := h.frames ▸ h'.way

/-- Changing the store afterwards makes no difference. -/
theorem Goes.mapStore (h : Goes m m₁) (f : Store → Store) : Goes m (m₁.mapStore f) :=
  ⟨h.mailbox, h.hook, h.depth, h.way⟩

/-- Each way is one of ordinary work, for those who wait for the body of the function. -/
theorem Way.ordinary {fs fs' : List (Frame κ τ ρ)} {c : Control κ τ ρ} (h : Way fs c fs') :
    c.isOrdinary = true ∧ (∃ pushed, (∀ f ∈ pushed, f.isOrdinary) ∧ fs' = pushed ++ fs) ∧
      (∀ depth, Nested depth fs → Nested depth fs') ∧
      (Waits .body fs → ∃ w, c.isFor w = true ∧ Waits w fs') := by
  -- a script goes on, calls, leaves, or faults; its own frame is back or is gone
  cases h with
  | on a =>
    exact ⟨rfl, ⟨[.script a .ready], by simp [Frame.isOrdinary], rfl⟩, fun _ => id,
      fun hw => ⟨.script, rfl, rfl, hw⟩⟩
  | @calls a await f args hwaits =>
    exact ⟨rfl, ⟨[.script a await], by simp [Frame.isOrdinary], rfl⟩, fun _ => id,
      fun hw => ⟨.call, rfl, hwaits, hw⟩⟩
  | leaves outcome => exact ⟨rfl, ⟨[], by simp, rfl⟩, fun _ => id, fun hw => ⟨.body, rfl, hw⟩⟩
  | faults => exact ⟨rfl, ⟨[], by simp, rfl⟩, fun _ => id, fun hw => ⟨.body, rfl, hw⟩⟩

/-- A script that goes on is at ordinary work. -/
theorem Goes.ordinary (h : Goes m m') : Ordinary .body m m' := by
  obtain ⟨hord, hframes, hnested, hfitting⟩ := h.way.ordinary
  exact ⟨h.mailbox, h.hook, hframes, fun hn => h.depth ▸ hnested _ hn, hfitting, hord⟩

/-- A script function is left. -/
theorem goes_leave (m : Machine κ τ ρ) (a : Activation κ) (outcome : Outcome κ) :
    Goes m (m.leave a outcome) :=
  ⟨rfl, rfl, rfl, .leaves outcome⟩

/-- A script function goes on. -/
theorem goes_resumeScript (m : Machine κ τ ρ) (a : Activation κ) : Goes m (m.resumeScript a) :=
  ⟨rfl, rfl, rfl, .on a⟩

/-- A local that is not there is a fault. -/
theorem goes_fault (m : Machine κ τ ρ) : Goes m (m.goto (.fault .localOutside)) :=
  ⟨rfl, rfl, rfl, .faults⟩

/-- A value is pushed, or the stack is full. -/
theorem goes_pushAndGo (m : Machine κ τ ρ) (a : Activation κ) (v : Value κ) :
    Goes m (m.pushAndGo a v) := by
  unfold pushAndGo
  split
  · exact (silent_interp m (m.interp.push v) rfl rfl).goes (goes_resumeScript _ a)
  · -- no room for the value
    exact (silent_mapStore m _).goes (goes_leave _ a _)

/-- Two results take their places where there is room for both, -/
theorem pushTwoAndGo_of_room {m : Machine κ τ ρ} (a : Activation κ) (v w : Value κ)
    (h : m.interp.stack.size + 2 ≤ m.interp.limits.maxStackSize) :
    m.pushTwoAndGo a v w =
      { m with interp := { m.interp with stack := (m.interp.stack.push v).push w } }.resumeScript
        a := by
  -- there is room for both
  have hfirst : m.interp.hasRoom = true := by
    show decide (m.interp.stack.size < m.interp.limits.maxStackSize) = true
    exact decide_eq_true (by omega)
  have hsecond : (m.interp.push v).hasRoom = true := by
    show decide ((m.interp.stack.push v).size < m.interp.limits.maxStackSize) = true
    rw [Array.size_push]
    exact decide_eq_true (by omega)
  simp only [pushTwoAndGo, pushAndGo, hfirst, hsecond, if_true]
  rfl

/-- and otherwise the error of a full stack leaves the function. -/
theorem pushTwoAndGo_of_full {m : Machine κ τ ρ} (a : Activation κ) (v w : Value κ)
    (h : m.interp.limits.maxStackSize < m.interp.stack.size + 2) :
    (m.pushTwoAndGo a v w).control = .deliver (.error (m.interp.runtimeError .stackOverflow)) ∧
      (m.pushTwoAndGo a v w).frames = m.frames := by
  -- there is no room for the second
  have hsecond : (m.interp.push v).hasRoom = false := by
    show decide ((m.interp.stack.push v).size < m.interp.limits.maxStackSize) = false
    rw [Array.size_push]
    exact decide_eq_false (by omega)
  unfold pushTwoAndGo
  split
  · -- there is room for the first of the two only
    simp only [pushAndGo, hsecond]
    exact ⟨rfl, rfl⟩
  · exact ⟨rfl, rfl⟩

/-- Two values are pushed, or the stack is full. -/
theorem goes_pushTwoAndGo (m : Machine κ τ ρ) (a : Activation κ) (v w : Value κ) :
    Goes m (m.pushTwoAndGo a v w) := by
  unfold pushTwoAndGo
  split
  · exact (silent_interp m (m.interp.push v) rfl rfl).goes (goes_pushAndGo _ a w)
  · -- no room for the first of the two
    exact (silent_mapStore m _).goes (goes_leave _ a _)

/-- A local is set, or is not there. -/
theorem goes_setLocal (m : Machine κ τ ρ) (a : Activation κ) (slot : Nat) (v : Value κ) :
    Goes m (m.setLocal a slot v) := by
  unfold setLocal
  split
  · exact goes_fault m
  · have hs := silent_interp m { m.interp with
      stack := m.interp.stack.setIfInBounds (a.base + slot) v } rfl rfl
    exact (hs.trans (silent_mapStore _ _)).goes (goes_resumeScript _ a)

/-- Two operands make a value, or an error. -/
theorem goes_binary (m : Machine κ τ ρ) (a : Activation κ)
    (op : Interpreter κ → Value κ → Value κ → Except Error (Value κ)) :
    Goes m (m.binary a op) := by
  unfold binary
  split
  · exact goes_leave m a _
  · split
    · -- the operation is not one of such values
      exact goes_leave m a _
    · exact ((silent_popped m 2).trans (silent_mapStore _ _)).goes (goes_pushAndGo _ a _)

/-- Two operands make a string, or an error. -/
theorem goes_concat (m : Machine κ τ ρ) (a : Activation κ) : Goes m (m.concat a) := by
  unfold concat
  split
  · exact goes_leave m a _
  · split
    · exact goes_leave m a _
    · split
      · exact goes_leave m a _
      · dsimp only
        -- the store is asked for the string while both operands are still on the stack
        split
        next h => exact (silent_askStore h).goes (goes_leave _ a _)
        next h =>
          exact (((silent_askStore h).trans (silent_popped _ 2)).trans
            (silent_mapStore _ _)).goes (goes_pushAndGo _ a _)

/-- A script that calls waits for the call to end. -/
private theorem goes_awaitCall (m : Machine κ τ ρ) (argc : Nat) (a : Activation κ)
    (await : Await κ) (f : Value κ) (args : List (Value κ))
    (hwaits : (Frame.script a await : Frame κ τ ρ).waitsFor .call = true) :
    Goes m ((m.popped (argc + 1)).await (.script a await) (.invoke f args)) :=
  ⟨rfl, rfl, rfl, .calls f args hwaits⟩

/-- Each instruction goes on, calls, leaves or faults. -/
theorem goes_execute (m : Machine κ τ ρ) (a : Activation κ) (i : Instruction) :
    Goes m (m.execute a i) := by
  -- what pops one value and goes on, by what it does with the value
  have popped {k : Nat} {g : Machine κ τ ρ → Machine κ τ ρ} (hg : ∀ m, Goes m (g m)) :
      Goes m (g (m.popped k)) :=
    (silent_popped m k).goes (hg _)
  cases i with
  | nil | true | false | int n => exact goes_pushAndGo m a _
  | str bytes =>
    simp only [execute]
    split
    next h => exact (silent_newValue h).goes (goes_pushAndGo _ a _)
    next h => exact (silent_newValue h).goes (goes_leave _ a _)
  | pop =>
    simp only [execute]
    split
    · exact goes_leave m a _
    · exact popped fun m => (silent_mapStore m _).goes (goes_resumeScript _ a)
  | dup =>
    simp only [execute]
    split
    · exact goes_leave m a _
    · exact (silent_mapStore m _).goes (goes_pushAndGo _ a _)
  | getLocal slot =>
    simp only [execute]
    split
    · exact goes_fault m
    · exact (silent_mapStore m _).goes (goes_pushAndGo _ a _)
  | setLocal slot =>
    simp only [execute]
    split
    · exact goes_leave m a _
    · exact popped fun m => goes_setLocal m a slot _
  | getGlobal name => exact (silent_mapStore m _).goes (goes_pushAndGo _ a _)
  | setGlobal name =>
    simp only [execute]
    split
    · exact goes_leave m a _
    · exact popped fun m => (silent_setGlobal m name _).goes (goes_resumeScript _ a)
  | add | sub | lt | eq => simpa only [execute] using goes_binary m a _
  | not =>
    simp only [execute]
    split
    · exact goes_leave m a _
    · exact popped fun m => (silent_mapStore m _).goes (goes_pushAndGo _ a _)
  | concat => exact goes_concat m a
  | jump target => exact goes_resumeScript m _
  | jumpIfFalse target =>
    simp only [execute]
    split
    · exact goes_leave m a _
    · exact popped fun m => (silent_mapStore m _).goes (goes_resumeScript _ _)
  | call argc =>
    simp only [execute]
    split
    · -- fewer values than arguments
      exact goes_leave m a _
    · exact goes_awaitCall m argc a _ _ _ rfl
  | pcall argc =>
    simp only [execute]
    split
    · exact goes_leave m a _
    · exact goes_awaitCall m argc a _ _ _ rfl
  | ret count =>
    cases count with
    | zero => exact goes_leave m a _
    | succ n =>
      simp only [execute]
      split
      · exact goes_leave m a _
      · exact popped fun m => goes_leave m a _

/-- After a protected call the script goes on or is left. -/
theorem goes_afterPcall (m : Machine κ τ ρ) (a : Activation κ) (top : Nat)
    (outcome : Outcome κ) : Goes m (m.afterPcall a top outcome) := by
  unfold afterPcall
  split
  · exact (silent_mapStore m _).goes (goes_pushTwoAndGo _ a _ _)
  · split
    · -- the error is caught, if there is memory for its message
      dsimp only
      split
      next h =>
        exact ((silent_truncate m top).trans (silent_newValue h)).goes
          (goes_pushTwoAndGo _ a _ _)
      next h =>
        exact ((silent_truncate m top).trans (silent_newValue h)).goes (goes_leave _ a _)
    · exact goes_leave m a _

/-- Before an instruction comes its safepoint. -/
theorem ordinary_fetch (m : Machine κ τ ρ) (a : Activation κ) : Ordinary .body m (m.fetch a) := by
  unfold fetch
  split
  · -- past the last instruction
    exact (goes_leave m a _).ordinary
  · exact (silent_interp m { m.interp with instructions := m.interp.instructions + 1 } rfl
      rfl).ordinary (ordinary_await _ .safepoint rfl rfl id ⟨rfl, rfl, rfl⟩)

/-- What a script waited for has come, and it goes on or is left. -/
theorem ordinary_deliverScript (m : Machine κ τ ρ) (a : Activation κ) {await : Await κ}
    (outcome : Outcome κ) (hwaits : await ≠ .ready) :
    Ordinary .body m (m.deliverScript a await outcome) := by
  unfold deliverScript
  split
  · exact absurd rfl hwaits
  · -- the count safepoint has passed or failed
    exact ordinary_await m .script rfl rfl id ⟨rfl, rfl, rfl⟩
  · exact (goes_leave m a _).ordinary
  · -- a call has returned or failed
    exact (((silent_mapStore m _).trans (silent_mapStore _ _)).goes (goes_pushAndGo _ a _)).ordinary
  · exact ((silent_mapStore m _).goes (goes_leave _ a _)).ordinary
  · exact ((goes_afterPcall m a _ outcome).mapStore _).ordinary

/-! ## Calls -/

/-- A call that begins is counted as it is waited for. -/
theorem ordinary_invoke (m : Machine κ τ ρ) (f : Value κ) (args : List (Value κ)) :
    Ordinary .call m (m.invoke f args) := by
  unfold invoke
  split
  · split
    · -- too deep
      exact (silent_mapStore m _).ordinary (ordinary_raise _ _ (by decide))
    · exact ⟨rfl, rfl, ⟨[.call (.entering _ args)], by simp [Frame.isOrdinary], rfl⟩,
        fun hn => ⟨m.interp.depth, rfl, hn⟩, fun hw => ⟨.safepoint, rfl, rfl, hw⟩, rfl⟩
  · -- only functions can be called
    exact (silent_mapStore m _).ordinary (ordinary_raise _ _ (by decide))

/-- A function is entered: host code runs, or a script begins. -/
theorem ordinary_enter (code : Meaning κ τ ρ) (m : Machine κ τ ρ) (f : Func κ)
    (args : List (Value κ)) : Ordinary .body m (m.enter code f args) := by
  cases f with
  | native _ _ c =>
    -- host code runs for the body of the call
    exact ⟨rfl, rfl, ⟨[], by simp, rfl⟩, id, fun hw => ⟨.program, rfl, hw.program_of_body⟩, rfl⟩
  | script _ proto =>
    simp only [enter]
    split
    · -- no room for its locals
      exact (silent_mapStore m _).ordinary (ordinary_raise _ _ (by decide))
    · exact ⟨rfl, rfl, ⟨[.script _ .ready], by simp [Frame.isOrdinary], rfl⟩, id,
        fun hw => ⟨.script, rfl, rfl, hw⟩, rfl⟩

/-! ## Host code -/

/-- Host code goes on with its reply. -/
private theorem ordinary_answered (m : Machine κ τ ρ) (held : Held) (r : Reply κ)
    (next : Reply κ → Program κ τ ρ) : Ordinary .program m (serve.answered next m held r) :=
  ordinary_goto m rfl rfl

/-- Host code goes on with a new string, or without. -/
private theorem ordinary_string (m : Machine κ τ ρ) (held : Held) (bytes : Bytes)
    (next : Reply κ → Program κ τ ρ) : Ordinary .program m (serve.string m held next bytes) := by
  unfold serve.string
  split
  next h => exact (silent_newValue h).ordinary (ordinary_answered _ held _ next)
  next h => exact (silent_newValue h).ordinary (ordinary_answered _ held _ next)

/-- Every request of host code is answered, or begins a call, a pass or a post. -/
theorem ordinary_serve (m : Machine κ τ ρ) (held : Held) (q : Query κ)
    (next : Reply κ → Program κ τ ρ) : Ordinary .program m (m.serve held q next) := by
  cases q with
  | newBytes bytes => exact ordinary_string m held bytes next
  | newText text => exact ordinary_string m held _ next
  | copy v =>
    simp only [serve]
    split
    · split
      · exact (silent_mapStore m _).ordinary (ordinary_answered _ held _ next)
      · exact ordinary_answered m held _ next
    · exact ordinary_answered m held _ next
  | release v => exact (silent_mapStore m _).ordinary (ordinary_answered _ _ _ next)
  | getGlobal name => exact (silent_mapStore m _).ordinary (ordinary_answered _ held _ next)
  | setGlobal name v => exact (silent_setGlobal m name _).ordinary (ordinary_answered _ _ _ next)
  | load proto => exact (silent_newFunction m).ordinary (ordinary_answered _ held _ next)
  | register name c =>
    exact ((silent_newFunction m).trans (silent_setGlobal _ name _)).ordinary
      (ordinary_answered _ held _ next)
  | call f args => exact ordinary_await m .call rfl rfl id ⟨rfl, rfl, rfl⟩
  | pcall f args =>
    -- the boundary remembers the depth at which it is set up
    exact ⟨rfl, rfl, ⟨[.boundary m.interp.stack.size m.interp.depth, .host _ next],
      by simp [Frame.isOrdinary], rfl⟩, fun hn => ⟨rfl, hn⟩,
      fun hw => ⟨.call, rfl, rfl, rfl, hw⟩, rfl⟩
  | setEncoding encoding =>
    exact (silent_interp m { m.interp with encoding } rfl rfl).ordinary
      (ordinary_answered _ held _ next)
  | facts => exact ordinary_answered m held _ next
  | post call => exact ordinary_await m .reply rfl rfl id ⟨rfl, rfl, rfl⟩
  | drain queue => exact ordinary_await m .reply rfl rfl id ⟨rfl, rfl, rfl⟩

/-- Host code ends, asks, or reaches outside. -/
theorem ordinary_runProgram (m : Machine κ τ ρ) (held : Held) (p : Program κ τ ρ) :
    Ordinary .program m (m.runProgram held p) := by
  unfold runProgram
  split
  · exact (silent_mapStore m _).ordinary (ordinary_goto _ rfl rfl)
  · exact (silent_mapStore m _).ordinary (ordinary_raise _ _ (by decide))
  · exact ordinary_serve m held _ _
  · -- it reaches outside
    exact ordinary_goto m rfl rfl

/-! ## Passes over a queue of the host's own -/

/-- A pass over a host's own queue runs an action, or replies. -/
theorem ordinary_drain_queue (code : Meaning κ τ ρ) (m : Machine κ τ ρ) (queue ran : Nat) :
    Ordinary .reply m (m.drain code (.queue queue) ran) := by
  simp only [drain]
  split
  · exact (silent_onGround m _).ordinary (ordinary_await _ .program rfl rfl id ⟨rfl, rfl, rfl⟩)
  · exact ordinary_goto m rfl rfl

/-- A pass over a host's own queue goes on or replies with the failure. -/
theorem ordinary_settle_queue (m : Machine κ τ ρ) (queue ran : Nat) (outcome : Outcome κ) :
    Ordinary .reply m (m.settle (.queue queue) ran outcome) := by
  unfold settle
  split
  · exact ordinary_goto m rfl rfl
  · exact ordinary_goto m rfl rfl

end Machine

end Safepoint
