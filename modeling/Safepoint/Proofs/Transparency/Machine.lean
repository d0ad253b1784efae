import Safepoint.Proofs.System.Steady
import Safepoint.Proofs.Transparency.Store

/-!
# Machines without their instruments

A bare machine is one without anything that instruments it: no mailbox, no hook, no syncpoints, and
a bare store. Ordinary work does not depend on any of this, save that host code may look at the hook
slot or make calls through a handle. So a step of any other work does the same on the bare machine:
it makes no difference whether the instruments are taken off after the step or before it.

There is one lemma for each piece of work, `bare_` and its name.

## Key results

- `bare_step`: a step of work that asks nothing of the instruments descends to the bare machine
-/

namespace Safepoint

variable {κ τ ρ : Type}

/-- An interpreter without the bookkeeping of its hook. -/
def Interpreter.bare (i : Interpreter κ) : Interpreter κ :=
  { i with hookInstalled := false, hookAllowed := true, countdown := 1 }

/-- A ground with a bare store. -/
def Ground.bare (g : Ground κ) : Ground κ :=
  { g with store := g.store.bare }

/-- Whether what is done next is the interpreter's own work: not the safepoint handler's, and no
access to the mailbox nor to a syncpoint. -/
def Control.isOwn : Control κ τ ρ → Bool
  | .handle .. | .measure _ | .rearm .. | .tell .. | .unmark _ => false
  | .drain (.mailbox _) _ | .settle (.mailbox _) .. => false
  | .post _ | .check .. | .arrive .. | .paused .. => false
  | _ => true

/-- Host code that asks this learns nothing of the instruments: it makes no call through a handle,
and it does not look at the hook slot among the facts that it is told. -/
def Query.Unaware (q : Query κ) (next : Reply κ → Program κ τ ρ) : Prop :=
  match q with
  | .post _ => False
  | .facts => ∀ (f : Facts) (slot : HookSlot), next (.facts { f with slot }) = next (.facts f)
  | _ => True

namespace Machine

/-- A machine without its instruments. -/
def bare (m : Machine κ τ ρ) : Machine κ τ ρ :=
  { m with interp := m.interp.bare, mailbox := .empty, points := .idle, ground := m.ground.bare }

variable {m m₁ : Machine κ τ ρ} {a : Activation κ}

/-! ## The store -/

/-- What is done alike to bare stores is done alike to bare machines. -/
theorem bare_mapStore (m : Machine κ τ ρ) {f : Store → Store} (hf : ∀ s, (f s).bare = f s.bare) :
    (m.mapStore f).bare = m.bare.mapStore f := by
  simp only [bare, mapStore, Ground.bare, hf]

/-- A value is held once more. -/
theorem bare_retain (m : Machine κ τ ρ) (v : Value κ) : (m.retain v).bare = m.bare.retain v :=
  m.bare_mapStore fun s => s.bare_retainValue v

/-- A value is let go of. -/
theorem bare_release (m : Machine κ τ ρ) (v : Value κ) : (m.release v).bare = m.bare.release v :=
  m.bare_mapStore fun s => s.bare_releaseValue v

/-- Values are let go of. -/
theorem bare_releaseAll (m : Machine κ τ ρ) (vs : List (Value κ)) :
    (m.releaseAll vs).bare = m.bare.releaseAll vs :=
  m.bare_mapStore fun s => s.bare_releaseAll vs

/-- Host code lets go of what it holds. -/
theorem bare_letGo (m : Machine κ τ ρ) (held : Held) : (m.letGo held).bare = m.bare.letGo held :=
  m.bare_mapStore fun s => s.bare_releases held

/-- What is answered alike of bare stores is answered alike of bare machines. -/
theorem bare_askStore {α : Type} (m : Machine κ τ ρ) {f : Store → Store × α}
    (hf : ∀ s, f s.bare = Prod.map Store.bare id (f s)) :
    m.bare.askStore f = Prod.map bare id (m.askStore f) := by
  simp only [bare, askStore, Ground.bare, hf]
  rfl

/-- A value is made, or refused. -/
theorem bare_newValue (m : Machine κ τ ρ) (bytes : Bytes) :
    m.bare.newValue bytes = Prod.map bare id (m.newValue bytes) :=
  m.bare_askStore (f := fun s => s.newValue m.interp.heap bytes) fun s =>
    s.bare_newValue m.interp.heap bytes

/-- The stack is cut off. -/
theorem bare_truncate (m : Machine κ τ ρ) (height : Nat) :
    (m.truncate height).bare = m.bare.truncate height :=
  bare_releaseAll { m with interp := { m.interp with stack := m.interp.stack.shrink height } } _

/-! ## Scripts -/

/-- A script function is left. -/
theorem bare_leave (m : Machine κ τ ρ) (a : Activation κ) (outcome : Outcome κ) :
    (m.leave a outcome).bare = m.bare.leave a outcome := by
  have hcut := bare_truncate { m with interp := { m.interp with floor := a.callerFloor } } a.base
  have hspare := bare_releaseAll
    (truncate { m with interp := { m.interp with floor := a.callerFloor } } a.base) a.spare
  rw [hcut] at hspare
  exact congrArg (fun m => m.goto (.deliver outcome)) hspare

/-- A value is pushed, or there is no room. -/
theorem bare_pushAndGo (m : Machine κ τ ρ) (a : Activation κ) (v : Value κ) :
    (m.pushAndGo a v).bare = m.bare.pushAndGo a v := by
  have hroom : m.bare.interp.hasRoom = m.interp.hasRoom := rfl
  simp only [pushAndGo, hroom]
  split
  · rfl
  · rw [bare_leave, bare_release]
    rfl

/-- Two values are pushed, or there is no room. -/
theorem bare_pushTwoAndGo (m : Machine κ τ ρ) (a : Activation κ) (v w : Value κ) :
    (m.pushTwoAndGo a v w).bare = m.bare.pushTwoAndGo a v w := by
  have hroom : m.bare.interp.hasRoom = m.interp.hasRoom := rfl
  simp only [pushTwoAndGo, hroom]
  split
  · exact bare_pushAndGo { m with interp := m.interp.push v } a w
  · rw [bare_leave, bare_releaseAll]
    rfl

/-- A global is set. -/
theorem bare_setGlobal (m : Machine κ τ ρ) (name : String) (v : Value κ) :
    (m.setGlobal name v).bare = m.bare.setGlobal name v :=
  bare_release { m with interp := { m.interp with globals := m.interp.globals.set name v } } _

/-- A local is set. -/
theorem bare_setLocal (m : Machine κ τ ρ) (a : Activation κ) (slot : Nat) (v : Value κ) :
    (m.setLocal a slot v).bare = m.bare.setLocal a slot v := by
  have hstack : m.bare.interp.stack = m.interp.stack := rfl
  simp only [setLocal, hstack]
  split
  · rfl
  next old _ =>
    exact congrArg (fun m => m.resumeScript a) (bare_release { m with interp :=
      { m.interp with stack := m.interp.stack.setIfInBounds (a.base + slot) v } } old)

/-- An operation on two values that does not look at the hook. -/
theorem bare_binary (m : Machine κ τ ρ) (a : Activation κ)
    {op : Interpreter κ → Value κ → Value κ → Except Error (Value κ)}
    (hop : ∀ i x y, op (Interpreter.bare i) x y = op i x y) :
    (m.binary a op).bare = m.bare.binary a op := by
  -- the operands and what is made of them have nothing to do with the hook
  have htop : m.bare.interp.topTwo = m.interp.topTwo := rfl
  have hop : ∀ x y, op m.bare.interp x y = op m.interp x y := hop m.interp
  simp only [binary, htop, hop]
  split
  · exact bare_leave m a _
  next x y _ =>
    split
    · exact bare_leave m a _
    · rw [bare_pushAndGo, bare_releaseAll]
      rfl

/-- Two operands are joined. -/
theorem bare_concat (m : Machine κ τ ρ) (a : Activation κ) :
    (m.concat a).bare = m.bare.concat a := by
  have htop : m.bare.interp.topTwo = m.interp.topTwo := rfl
  have hoperand : ∀ v, m.bare.interp.concatOperand v = m.interp.concatOperand v := fun _ => rfl
  have hheap : m.bare.interp.heap = m.interp.heap := rfl
  simp only [concat, htop, hoperand, hheap]
  split
  · exact bare_leave m a _
  next x y _ =>
    split
    · exact bare_leave m a _
    next xs _ =>
      split
      · exact bare_leave m a _
      next ys _ =>
        -- the bare store joins them too, or has no memory either
        rw [m.bare_askStore fun s => s.bare_concat m.interp.heap xs ys]
        obtain ⟨m₁, str⟩ := m.askStore fun s => s.concat m.interp.heap xs ys
        cases str with
        | none => exact bare_leave m₁ a _
        | some str =>
          simp only [Prod.map, id_eq]
          rw [bare_pushAndGo, bare_releaseAll]
          rfl

/-- Every instruction is about the stack, the globals and the store, and not about the hook. -/
theorem bare_execute (m : Machine κ τ ρ) (a : Activation κ) (op : Instruction) :
    (m.execute a op).bare = m.bare.execute a op := by
  have htop : m.bare.interp.top = m.interp.top := rfl
  -- what pops some values and goes on
  have bare_popped (n : Nat) : (m.popped n).bare = m.bare.popped n := rfl
  cases op with
  | nil | true | false | int n => exact bare_pushAndGo m a _
  | str bytes =>
    simp only [execute, bare_newValue]
    obtain ⟨m₁, v⟩ := m.newValue bytes
    cases v with
    | none => exact bare_leave m₁ a _
    | some v => exact bare_pushAndGo m₁ a v
  | pop =>
    simp only [execute, htop]
    split
    · exact bare_leave m a _
    next v _ => exact congrArg (fun m => m.resumeScript a) (bare_release (m.popped 1) v)
  | dup =>
    simp only [execute, htop]
    split
    · exact bare_leave m a _
    · rw [bare_pushAndGo, bare_retain]
  | getLocal slot =>
    have hstack : m.bare.interp.stack = m.interp.stack := rfl
    simp only [execute, hstack]
    split
    · rfl
    · rw [bare_pushAndGo, bare_retain]
  | setLocal slot =>
    simp only [execute, htop]
    split
    · exact bare_leave m a _
    · rw [bare_setLocal, bare_popped]
  | getGlobal name =>
    have hglobals : m.bare.interp.globals = m.interp.globals := rfl
    simp only [execute, hglobals]
    rw [bare_pushAndGo, bare_retain]
  | setGlobal name =>
    simp only [execute, htop]
    split
    · exact bare_leave m a _
    next v _ => exact congrArg (fun m => m.resumeScript a) (bare_setGlobal (m.popped 1) name v)
  | add | sub | lt | eq => exact bare_binary m a fun _ _ _ => rfl
  | not =>
    simp only [execute, htop]
    split
    · exact bare_leave m a _
    · rw [bare_pushAndGo, bare_release, bare_popped]
  | concat => exact bare_concat m a
  | jump target => rfl
  | jumpIfFalse target =>
    simp only [execute, htop]
    split
    · exact bare_leave m a _
    next v _ =>
      exact congrArg (fun m => m.resumeScript (if v.isTruthy then a else { a with pc := target }))
        (bare_release (m.popped 1) v)
  | call argc | pcall argc =>
    have hcall : m.bare.interp.topCall argc = m.interp.topCall argc := rfl
    simp only [execute, hcall]
    split
    · exact bare_leave m a _
    · rfl
  | ret count =>
    cases count with
    | zero => exact bare_leave m a _
    | succ n =>
      simp only [execute, htop]
      split
      · exact bare_leave m a _
      · rw [bare_leave, bare_popped]

/-- A protected call has ended. -/
theorem bare_afterPcall (m : Machine κ τ ρ) (a : Activation κ) (top : Nat)
    (outcome : Outcome κ) :
    (m.afterPcall a top outcome).bare = m.bare.afterPcall a top outcome := by
  unfold afterPcall
  split
  · rw [bare_pushTwoAndGo, bare_releaseAll]
  next e =>
    split
    · have herror : (m.truncate top).bare.interp.errorBytes e =
          (m.truncate top).interp.errorBytes e := rfl
      -- the text of the error is made on the stack that was cut off
      simp only [← bare_truncate, herror, bare_newValue]
      obtain ⟨m₁, v⟩ := (m.truncate top).newValue ((m.truncate top).interp.errorBytes e)
      cases v with
      | none => exact bare_leave m₁ a _
      | some v => exact bare_pushTwoAndGo m₁ a _ v
    · exact bare_leave m a _

/-- An instruction is fetched. -/
theorem bare_fetch (m : Machine κ τ ρ) (a : Activation κ) :
    (m.fetch a).bare = m.bare.fetch a := by
  unfold fetch
  split
  · exact bare_leave m a _
  · rfl

/-- What a script waited for has come. -/
theorem bare_deliverScript (m : Machine κ τ ρ) (a : Activation κ) (await : Await κ)
    (outcome : Outcome κ) :
    (m.deliverScript a await outcome).bare = m.bare.deliverScript a await outcome := by
  unfold deliverScript
  split
  · rfl
  · rfl
  · exact bare_leave m a _
  · rw [bare_pushAndGo, bare_release, bare_releaseAll]
  · rw [bare_leave, bare_release]
  · rw [bare_release, bare_afterPcall]

/-! ## Calls -/

/-- A call begins. -/
theorem bare_invoke (m : Machine κ τ ρ) (f : Value κ) (args : List (Value κ)) :
    (m.invoke f args).bare = m.bare.invoke f args := by
  have hdepth : m.bare.interp.depth = m.interp.depth := rfl
  have hlimits : m.bare.interp.limits = m.interp.limits := rfl
  have raised (e : Error) : ((m.releaseAll args).raise e).bare = (m.bare.releaseAll args).raise e :=
    congrArg (fun m => m.raise e) (bare_releaseAll m args)
  cases f with
  | fn f =>
    simp only [invoke, hdepth, hlimits]
    split
    · exact raised _
    · rfl
  | _ => exact raised _

/-- A function is entered. -/
theorem bare_enter (code : Meaning κ τ ρ) (m : Machine κ τ ρ) (f : Func κ)
    (args : List (Value κ)) : (m.enter code f args).bare = m.bare.enter code f args := by
  have hstack : m.bare.interp.stack = m.interp.stack := rfl
  have hlimits : m.bare.interp.limits = m.interp.limits := rfl
  cases f with
  | native _ _ c => rfl
  | script id proto =>
    simp only [enter, hstack, hlimits]
    split
    · exact congrArg (fun m' => m'.raise (m.interp.runtimeError .stackOverflow))
        (bare_releaseAll m args)
    · rfl

/-- A call has ended. -/
theorem bare_exitCall (m : Machine κ τ ρ) (outcome : Outcome κ) :
    (m.exitCall outcome).bare = m.bare.exitCall outcome := by
  have hdepth : m.bare.interp.depth = m.interp.depth := rfl
  simp only [exitCall, hdepth]
  split <;> rfl

/-- A call goes on. -/
theorem bare_deliverCall (code : Meaning κ τ ρ) (m : Machine κ τ ρ) (stage : Stage κ)
    (outcome : Outcome κ) :
    (m.deliverCall code stage outcome).bare = m.bare.deliverCall code stage outcome := by
  unfold deliverCall
  split
  · exact bare_enter code { m with frames := .call .body :: m.frames } _ _
  · rw [bare_exitCall, bare_releaseAll]
  · rfl
  · exact bare_exitCall m _
  · exact bare_exitCall m _
  · rw [bare_exitCall, bare_releaseAll]

/-! ## Host code -/

/-- Host code has its reply. -/
theorem bare_reply (m : Machine κ τ ρ) (r : Reply κ) : (m.reply r).bare = m.bare.reply r := by
  have hframes : m.bare.frames = m.frames := rfl
  simp only [reply, hframes]
  split <;> rfl

/-- A request is served, if it asks nothing of the instruments. -/
theorem bare_serve (m : Machine κ τ ρ) (held : Held) {q : Query κ}
    {next : Reply κ → Program κ τ ρ} (hq : q.Unaware next) :
    (m.serve held q next).bare = m.bare.serve held q next := by
  have string (bytes : Bytes) :
      (serve.string m held next bytes).bare = serve.string m.bare held next bytes := by
    unfold serve.string
    rw [bare_newValue]
    obtain ⟨m₁, v⟩ := m.newValue bytes
    cases v <;> rfl
  -- what is answered goes on with the host code
  have answered {m₁ m₂ : Machine κ τ ρ} (h : m₁.bare = m₂) (held : Held) (r : Reply κ) :
      (serve.answered next m₁ held r).bare = serve.answered next m₂ held r :=
    congrArg (fun m => m.goto (.run (held.addAll r.holds) (next r))) h
  cases q with
  | newBytes bytes => exact string bytes
  | newText text => exact string _
  | copy v =>
    simp only [serve]
    split
    · split
      · exact answered (bare_retain m _) held _
      · rfl
    · rfl
  | release v => exact answered (bare_release m _) _ _
  | getGlobal name => exact answered (bare_retain m _) held _
  | setGlobal name v => exact answered (bare_setGlobal m name _) _ _
  | register name c => exact answered (bare_setGlobal m.newFunction.1 name _) held _
  | facts =>
    -- the slot of the bare machine is another one, and makes no difference
    have hsame := hq (m.interp.facts m.mailbox.slot) HookSlot.initial
    simp only [serve, serve.answered, goto, bare]
    congr 2
    exact hsame.symm
  | load | call | pcall | setEncoding | post | drain => rfl

/-- Host code goes on, if it asks nothing of the instruments. -/
theorem bare_runProgram (m : Machine κ τ ρ) (held : Held) {p : Program κ τ ρ}
    (hp : ∀ q next, p = .ask q next → q.Unaware next) :
    (m.runProgram held p).bare = m.bare.runProgram held p := by
  cases p with
  | finish outcome =>
    cases outcome with
    | ok vs =>
      exact congrArg (fun m => m.goto (.deliver (.ok (held.takeAll vs).1)))
        (bare_letGo m (held.takeAll vs).2)
    | error e => exact congrArg (fun m => m.raise e) (bare_letGo m held)
  | ask q next => exact bare_serve m held (hp q next rfl)
  | outside x given next => rfl

/-- A pass over a queue of the host's own. -/
theorem bare_drain_queue (code : Meaning κ τ ρ) (m : Machine κ τ ρ) (queue ran : Nat) :
    (m.drain code (.queue queue) ran).bare = m.bare.drain code (.queue queue) ran := by
  have hqueues : m.bare.ground.queues = m.ground.queues := rfl
  simp only [drain, hqueues]
  split <;> rfl

/-- A pass over a host's own queue goes on, or stops. -/
theorem bare_settle_queue (m : Machine κ τ ρ) (queue ran : Nat) (outcome : Outcome κ) :
    (m.settle (.queue queue) ran outcome).bare = m.bare.settle (.queue queue) ran outcome := by
  cases outcome <;> rfl

/-! ## One step -/

/-- What is taken off a machine is not there to be taken off again. -/
theorem bare_bare (m : Machine κ τ ρ) : m.bare.bare = m.bare := by
  simp only [bare, Interpreter.bare, Ground.bare, Store.bare_bare]

/-- What was made bare is bare. -/
private theorem bare_of_eq {m₂ : Machine κ τ ρ} (h : m₁.bare = m₂) : m₁.bare = m₂.bare := by
  rw [← h, bare_bare]

/-- An outcome that no safepoint waits for, nor a pass over the mailbox. -/
theorem bare_deliver (code : Meaning κ τ ρ) (m : Machine κ τ ρ) (outcome : Outcome κ)
    (htop : ∀ f rest, m.frames = f :: rest → f.isOrdinary = true) :
    (m.deliver code outcome).bare = (m.bare.deliver code outcome).bare := by
  have hframes : m.bare.frames = m.frames := rfl
  cases hf : m.frames with
  | nil =>
    simp only [deliver, hframes, hf]
    exact bare_of_eq rfl
  | cons f rest =>
    have hord := htop f rest hf
    simp only [deliver, hframes, hf]
    cases f with
    | call stage => exact bare_of_eq (bare_deliverCall code { m with frames := rest } stage outcome)
    | script a await =>
      exact bare_of_eq (bare_deliverScript { m with frames := rest } a await outcome)
    | host held next => cases outcome <;> exact bare_of_eq rfl
    | boundary top depth =>
      have hdepth : m.bare.interp.depth = m.interp.depth := rfl
      simp only [hdepth]
      split
      · exact bare_of_eq rfl
      · cases outcome with
        | ok vs => exact bare_of_eq rfl
        | error e =>
          -- an observer is told of the error
          have hcut := congrArg (fun m => m.raise e) (bare_truncate { m with frames := rest } top)
          exact (bare_of_eq hcut :
            ((truncate { m with frames := rest } top).raise e).bare = _)
    | dispatch => exact nomatch hord
    | pass source ran =>
      cases source with
      | mailbox event => exact nomatch hord
      | queue id =>
        cases outcome with
        | ok vs =>
          exact bare_of_eq (congrArg (fun m => m.goto (.settle (.queue id) ran (.ok vs)))
            (bare_releaseAll { m with frames := rest } vs))
        | error e => exact bare_of_eq rfl

/-- What is done next is an interpreter's own work: nobody waits for it that is part of the
safepoint handler, no safepoint is entered, and nothing is asked of the instruments. -/
structure Alone (m : Machine κ τ ρ) : Prop where
  own : m.control.isOwn = true
  ordinary : ∀ f rest, m.frames = f :: rest → f.isOrdinary = true
  passes : ∀ event, m.control = .poll event → m.poll event = m.proceed
  unaware : ∀ held q next, m.control = .run held (.ask q next) → q.Unaware next

/-- A step of an interpreter's own work descends to the bare machine. -/
theorem bare_step (code : Meaning κ τ ρ) (h : m.Alone) :
    (m.step code).bare = (m.bare.step code).bare := by
  have hcontrol : m.bare.control = m.control := rfl
  have hframes : m.bare.frames = m.frames := rfl
  cases hc : m.control <;> simp only [step, hcontrol, hc, hframes]
  case invoke f args => exact bare_of_eq (bare_invoke m f args)
  case poll event =>
    rw [h.passes event hc]
    -- nothing is armed at a bare machine
    exact bare_of_eq rfl
  case drain source ran =>
    cases source with
    | mailbox event => exact absurd h.own (by rw [hc]; exact Bool.false_ne_true)
    | queue id => exact bare_of_eq (bare_drain_queue code m id ran)
  case settle source ran outcome =>
    cases source with
    | mailbox event => exact absurd h.own (by rw [hc]; exact Bool.false_ne_true)
    | queue id => exact bare_of_eq (bare_settle_queue m id ran outcome)
  case fetch =>
    split
    next a rest hf => exact bare_of_eq (bare_fetch { m with frames := rest, control := .fetch } a)
    next => exact bare_of_eq rfl
  case execute op =>
    split
    next a rest hf =>
      exact bare_of_eq (bare_execute { m with frames := rest, control := .execute op } a op)
    next => exact bare_of_eq rfl
  case run held p =>
    exact bare_of_eq (bare_runProgram m held fun q next hp => h.unaware held q next
      (by rw [hc, hp]))
  case reply r => exact bare_of_eq (bare_reply m r)
  case deliver outcome => exact bare_deliver code m outcome h.ordinary
  case waiting | finished | fault => exact bare_of_eq rfl
  -- the rest is not the interpreter's own work
  all_goals exact absurd h.own (by rw [hc]; simp [Control.isOwn])

/-! ## Own work goes on -/

/-- A script that goes on is at its own work. -/
private theorem isOwn_of_way {fs fs' : List (Frame κ τ ρ)} {c : Control κ τ ρ} (h : Way fs c fs') :
    c.isOwn = true := by
  cases h <;> rfl

/-- The end of a call is the interpreter's own work. -/
private theorem isOwn_exitCall (m : Machine κ τ ρ) (outcome : Outcome κ) :
    (m.exitCall outcome).control.isOwn = true := by
  unfold exitCall
  split <;> rfl

/-- A function that is entered is the interpreter's own work. -/
private theorem isOwn_enter (code : Meaning κ τ ρ) (m : Machine κ τ ρ) (f : Func κ)
    (args : List (Value κ)) : (m.enter code f args).control.isOwn = true := by
  cases f with
  | native _ _ c => rfl
  | script id proto =>
    simp only [enter]
    split <;> rfl

/-- What is handed on outside of the handler is the interpreter's own work. -/
private theorem isOwn_deliver (code : Meaning κ τ ρ) (m : Machine κ τ ρ) (outcome : Outcome κ)
    (htop : ∀ f rest, m.frames = f :: rest → f.isOrdinary = true) :
    (m.deliver code outcome).control.isOwn = true := by
  unfold deliver
  split
  · rfl
  next frame rest hf =>
    -- outside of the handler the frame on top is one of ordinary work
    have hord := htop frame rest hf
    dsimp only
    split
    next stage =>
      unfold deliverCall
      split
      · exact isOwn_enter code _ _ _
      · exact isOwn_exitCall _ _
      · rfl
      · exact isOwn_exitCall _ _
      · exact isOwn_exitCall _ _
      · exact isOwn_exitCall _ _
    next a await =>
      unfold deliverScript
      split
      · rfl
      · rfl
      · rfl
      · exact isOwn_of_way (goes_pushAndGo _ a _).way
      · rfl
      · exact isOwn_of_way (goes_afterPcall _ a _ _).way
    · split <;> rfl
    · split
      · rfl
      · split <;> rfl
    · -- the frame of the handler is none
      exact nomatch hord
    next source ran =>
      cases source with
      | mailbox event => exact nomatch hord
      | queue id => cases outcome <;> rfl

/-- Requests that ask nothing of the instruments are the interpreter's own work. -/
private theorem isOwn_serve (m : Machine κ τ ρ) (held : Held) {q : Query κ}
    {next : Reply κ → Program κ τ ρ} (hq : q.Unaware next) :
    (m.serve held q next).control.isOwn = true := by
  have string (bytes : Bytes) : (serve.string m held next bytes).control.isOwn = true := by
    unfold serve.string
    split <;> rfl
  cases q with
  | newBytes bytes => exact string bytes
  | newText text => exact string _
  | copy v =>
    simp only [serve]
    split
    · split <;> rfl
    · rfl
  | post call => exact hq.elim
  | _ => rfl

/-- An interpreter's own work goes on to work of its own. -/
theorem isOwn_step (code : Meaning κ τ ρ) (h : m.Alone) :
    (m.step code).control.isOwn = true := by
  -- a step of the interpreter's own work makes more of it, kind by kind
  cases hc : m.control <;> simp only [step, hc]
  case invoke f args =>
    unfold invoke
    split
    · split <;> rfl
    · rfl
  case poll event =>
    rw [h.passes event hc]
    rfl
  case drain source ran =>
    cases source with
    | mailbox event => exact absurd h.own (by rw [hc]; exact Bool.false_ne_true)
    | queue id =>
      simp only [drain]
      split <;> rfl
  case settle source ran outcome =>
    cases source with
    | mailbox event => exact absurd h.own (by rw [hc]; exact Bool.false_ne_true)
    | queue id => cases outcome <;> rfl
  case fetch =>
    split
    · unfold fetch
      split <;> rfl
    · rfl
  case execute op =>
    split
    next a rest _ => exact isOwn_of_way (goes_execute _ a op).way
    · rfl
  case run held p =>
    unfold runProgram
    split
    · rfl
    · rfl
    next q next => exact isOwn_serve m held (h.unaware held q next hc)
    · rfl
  case reply r =>
    unfold reply
    split <;> rfl
  case deliver outcome => exact isOwn_deliver code m outcome h.ordinary
  case waiting | finished | fault => rfl
  -- the rest is not the interpreter's own work
  all_goals exact absurd h.own (by rw [hc]; simp [Control.isOwn])

/-! ## Opening and closing -/

/-- An interpreter is dropped alike, with its hook and without. -/
theorem bare_close (m : Machine κ τ ρ) : m.close.bare = m.bare.close := by
  have hinstalled : m.bare.interp.hookInstalled = false := rfl
  -- what its stack and globals hold goes first, then its own block
  have discarded (i : Interpreter κ) (s : Store) : (i.discard s).bare = i.discard s.bare := by
    simp only [Interpreter.discard]
    rw [Store.bare_mapHeap _ _ (f := Heap.dropOwner) fun _ => rfl, Store.bare_free,
      Store.bare_releaseAll, Store.bare_releaseAll]
  simp only [close, hinstalled]
  split
  · exact bare_mapStore { m with
      mailbox := m.mailbox.abandon
      interp := { m.interp with hookInstalled := false, stack := #[], globals := .empty } }
      (discarded _)
  · exact bare_mapStore { m with
      interp := { m.interp with stack := #[], globals := .empty } } (discarded _)

end Machine

namespace Interpreter

/-- What an interpreter is opened over may have counters and a journal or not. -/
theorem bare_openOn {s s' : Store} (hs : s.bare = s'.bare) (heap : Nat) (limits : Limits) :
    Prod.map Store.bare id (openOn s heap limits : Store × Except Error (Interpreter κ)) =
      Prod.map Store.bare id (openOn s' heap limits) := by
  -- both ask for a block, and are answered the same
  have hsame : Prod.map Store.bare id
        ((limits.notices.foldl Store.note s).allocate heap ownBlockSize) =
      Prod.map Store.bare id
        ((limits.notices.foldl Store.note s').allocate heap ownBlockSize) := by
    rw [← Store.bare_allocate, ← Store.bare_allocate, Store.bare_notes, Store.bare_notes, hs]
  unfold openOn
  cases limits.validate with
  | error e => simpa [Prod.map] using hs
  | ok _ =>
    dsimp only
    generalize (limits.notices.foldl Store.note s).allocate heap ownBlockSize = left at hsame ⊢
    generalize (limits.notices.foldl Store.note s').allocate heap ownBlockSize = right at hsame ⊢
    obtain ⟨t, block⟩ := left
    obtain ⟨t', block'⟩ := right
    obtain ⟨ht, rfl⟩ : t.bare = t'.bare ∧ block = block' := by simpa [Prod.map] using hsame
    cases block with
    | none => simpa [Prod.map] using ht
    | some block =>
      simp [Prod.map, Store.bare_mapHeap _ _ (f := Heap.addOwner) fun _ => rfl, ht]

/-- An interpreter is opened over a new heap in the same place, with a counter or without. -/
theorem bare_openNew {s s' : Store} (hs : s.bare = s'.bare) {source source' : MemorySource}
    (hsource : source.heap.bare = source'.heap.bare) (limits : Limits) :
    Prod.map Store.bare id (openNew s source limits : Store × Nat × Except Error (Interpreter κ)) =
      Prod.map Store.bare id (openNew s' source' limits) := by
  -- the heap that joins has the same number in both
  have hsize : s.heaps.size = s'.heaps.size := by
    have hmap := congrArg (fun s => s.heaps.size) hs
    simpa [Store.bare] using hmap
  have hadded : (s.addHeap source.heap).1.bare = (s'.addHeap source'.heap).1.bare := by
    have hleft := congrArg Prod.fst (s.bare_addHeap source.heap)
    have hright := congrArg Prod.fst (s'.bare_addHeap source'.heap)
    rw [hs, hsource] at hleft
    exact hleft.symm.trans hright
  have hopened := bare_openOn (κ := κ) hadded s.heaps.size limits
  simp only [openNew]
  rw [show (s.addHeap source.heap).2 = s.heaps.size from rfl,
    show (s'.addHeap source'.heap).2 = s.heaps.size from hsize.symm]
  simp only [Prod.map, Prod.mk.injEq, id_eq] at hopened ⊢
  exact ⟨hopened.1, trivial, hopened.2⟩

end Interpreter

/-- An instrumented interpreter is opened, or not, as a plain one is with the same limits: on the
same heap and with the same block of its own. -/
theorem Instruments.bare_openWith (g : Ground κ) (facilities : Instrumentations) (limits : Limits) :
    (openWith (τ := τ) (ρ := ρ) g facilities limits).1.bare =
        Ground.bare { g with store := (Interpreter.openNew (κ := κ) g.store .system limits).1 } ∧
      (openWith (τ := τ) (ρ := ρ) g facilities limits).2.map (fun opened => opened.1.bare) =
        (Interpreter.openNew (κ := κ) g.store .system limits).2.2.map fun i =>
          (Machine.idle i .empty .empty).bare := by
  -- whether a counter was added or not, the interpreter is opened in the same way
  obtain ⟨store, tracker, hopen, hstore⟩ : ∃ store tracker,
      (if facilities.memoryMonitoring then
        (g.store.addTracker.1, some g.store.addTracker.2) else (g.store, none)) = (store, tracker) ∧
      store.bare = g.store.bare := by
    split
    · exact ⟨_, _, rfl, rfl⟩
    · exact ⟨_, _, rfl, rfl⟩
  simp only [openWith, hopen]
  generalize hleft : Interpreter.openNew store _ limits = left
  have hnew : Prod.map Store.bare id left =
      Prod.map Store.bare id (Interpreter.openNew (κ := κ) g.store .system limits) := by
    rw [← hleft]
    cases tracker with
    | none => exact Interpreter.bare_openNew hstore rfl limits
    | some t =>
      have hsource : (MemorySource.tracked t).heap.bare = MemorySource.system.heap.bare := rfl
      exact Interpreter.bare_openNew hstore hsource limits
  -- the counter is out of the way, and what is left is whether there is a hook
  generalize hright : Interpreter.openNew g.store .system limits = right at hnew ⊢
  obtain ⟨s, heap, interp⟩ := left
  obtain ⟨s', heap', interp'⟩ := right
  obtain ⟨hs, rfl, rfl⟩ : s.bare = s'.bare ∧ heap = heap' ∧ interp = interp' := by
    simpa [Prod.map] using hnew
  cases interp with
  | error e => exact ⟨by simp [Ground.bare, hs], rfl⟩
  | ok i =>
    -- a fresh interpreter has room for the hook
    have hopened : (Interpreter.openOn (g.store.addHeap MemorySource.system.heap).1
        (g.store.addHeap MemorySource.system.heap).2 limits).2 = .ok i :=
      congrArg (fun opened => opened.2.2) hright
    obtain ⟨block, rfl⟩ := System.interp_of_openOn (Prod.ext rfl hopened)
    have hground (n : Notice) : Ground.bare { g with store := s.note n } =
        Ground.bare { g with store := s' } := by
      simp only [Ground.bare, Store.bare_note, hs]
    cases facilities.interruption with
    | true => exact ⟨hground .interjectorBound, rfl⟩
    | false => exact ⟨hground (.created facilities), rfl⟩

end Safepoint
