import Safepoint.Machine

/-!
# The steps of the machine

`Machine.step` does what the machine is about to do. One function below stands for each kind of
work: calls and their safepoints, the instructions of a script, the safepoint handler with its drain
pass, and the requests of host code.
-/

namespace Safepoint.Machine

variable {κ τ ρ : Type}

/-! ## Safepoints -/

/-- Enters the hook, if it may be entered: it is taken out of its slot, and no safepoint enters it
again until it has ended. -/
def dispatch (m : Machine κ τ ρ) (event : HookEvent) : Machine κ τ ρ :=
  if !m.interp.hookAllowed then m.proceed
  else if !m.interp.hookInstalled then m.proceed
  else
    let info : HookInfo := ⟨event, m.interp.depth⟩
    { m with interp := { m.interp with hookInstalled := false, hookAllowed := false } }.await
      .dispatch (.handle .enter info)

/-- Polls the hook slot. A count event counts down first, and comes when the count is out. -/
def poll (m : Machine κ τ ρ) (event : HookEvent) : Machine κ τ ρ :=
  let slot := m.mailbox.slot
  -- this one look decides; what is stored after it counts from the next safepoint on
  if slot.mask.isEmpty then m.proceed
  else if !slot.mask.contains event then m.proceed
  else
    match event with
    | .count =>
      let countdown := m.interp.countdown - 1
      if 0 < countdown then
        { m with interp := { m.interp with countdown } }.proceed
      else
        -- the countdown starts over even if the hook may not be entered
        { m with interp := { m.interp with countdown := slot.threshold } }.dispatch .count
    | event => m.dispatch event

/-- Does the next part of the safepoint handler. A pending cancellation is raised and the hook stays
armed for it; otherwise the hook is disarmed before the queue is looked at, so that whoever queues
an action from then on arms it again. -/
def handle (m : Machine κ τ ρ) (phase : HandlerPhase) (info : HookInfo) : Machine κ τ ρ :=
  match phase with
  | .enter =>
    { m with mailbox := m.mailbox.countInvocation }.goto
      (.check .hookBeforeCancelCheck (.handle .readFlag info))
  | .readFlag =>
    m.goto (.handle (if m.mailbox.cancelFlag then .readMessage else .disarm) info)
  | .readMessage =>
    -- the flag was only a hint; the message decides
    match m.mailbox.readMessage with
    | (mailbox, some message) =>
      ({ m with mailbox }.note (.raisingCancellation info)).raise (.cancelled message)
    | (mailbox, none) => { m with mailbox }.goto (.handle .disarm info)
  | .disarm =>
    { m with mailbox := m.mailbox.disarm }.goto
      (.check .hookAfterDisarm (.handle .acquire info))
  | .acquire =>
    -- a swap: the mark is set whatever it was before
    let m' := { m with mailbox := m.mailbox.storeDraining true }
    if m.mailbox.draining then
      m'.raise (.configuration "interjection drain re-entered from its own hook")
    else m'.goto (.drain (.mailbox info.event) 0)

/-! ## Drain passes -/

/-- Takes the next action of a pass and runs it, or ends the pass. -/
def drain (code : Meaning κ τ ρ) (m : Machine κ τ ρ) (source : Source) (ran : Nat) :
    Machine κ τ ρ :=
  match source with
  | .mailbox event =>
    match m.mailbox.pop? with
    | some (action, mailbox) =>
      -- the action is off the queue before it runs, so it runs once even if it fails
      { m with mailbox }.await (.pass source ran) (.run [] (code action []))
    | none => (m.note (.drained event ran)).goto (.unmark (.ok []))
  | .queue id =>
    match m.ground.queues[id]? with
    | some (action :: rest) =>
      { m with ground := { m.ground with queues := m.ground.queues.setIfInBounds id rest } }.await
        (.pass source ran) (.run [] (code action []))
    | _ => m.goto (.reply (.count ran))

/-- Looks at the outcome of an action: a pass goes on after a success and stops at a failure. -/
def settle (m : Machine κ τ ρ) (source : Source) (ran : Nat) (outcome : Outcome κ) :
    Machine κ τ ρ :=
  match outcome with
  | .ok _ => m.goto (.drain source (ran + 1))
  | .error e =>
    match source with
    | .mailbox _ => m.goto (.measure e)
    | .queue _ => m.goto (.reply (.failed e))

/-- Sees what a failed pass has left in the queue. -/
def measure (m : Machine κ τ ρ) (e : Error) : Machine κ τ ρ :=
  let remaining := m.mailbox.queue.length
  -- an empty queue needs no armed hook, but the failure is told all the same
  if 0 < remaining then m.goto (.rearm e remaining) else m.goto (.tell e remaining)

/-! ## Calls -/

/-- Calls a value: functions can be called, and only so deep. -/
def invoke (m : Machine κ τ ρ) (f : Value κ) (args : List (Value κ)) : Machine κ τ ρ :=
  match f with
  | .fn f =>
    -- a call that is too deep is refused before it comes to its safepoint
    if m.interp.limits.maxCallDepth ≤ m.interp.depth then
      (m.releaseAll args).raise (m.interp.runtimeError .stackOverflow)
    else
      { m with interp := { m.interp with depth := m.interp.depth + 1 } }.await
        (.call (.entering f args)) (.poll .call)
  | f => (m.releaseAll args).raise (m.interp.runtimeError (.called f.typeName))

/-- The arguments that fill the parameters of a function, nil where there are too few. -/
def fill (params : Nat) (args : List (Value κ)) : List (Value κ) :=
  (args ++ List.replicate (params - args.length) Value.nil).take params

/-- Enters a function past its call safepoint; the frame of the call is on top. -/
def enter (code : Meaning κ τ ρ) (m : Machine κ τ ρ) (f : Func κ) (args : List (Value κ)) :
    Machine κ τ ρ :=
  match f with
  | .native _ _ c => m.goto (.run (Held.addAll [] args) (code c args))
  | .script _ proto =>
    let base := m.interp.stack.size
    -- the locals are counted before any of them is pushed
    if m.interp.limits.maxStackSize < base + proto.locals then
      (m.releaseAll args).raise (m.interp.runtimeError .stackOverflow)
    else
      let slots := fill proto.params args ++ List.replicate (proto.locals - proto.params) Value.nil
      let callerFloor := m.interp.floor
      { m with interp := { m.interp with
          stack := m.interp.stack ++ slots
          floor := base + proto.locals } }.await
        (.script ⟨proto, base, 0, callerFloor, args.drop proto.params⟩ .ready) .fetch

/-- A call is over. -/
def exitCall (m : Machine κ τ ρ) (outcome : Outcome κ) : Machine κ τ ρ :=
  match m.interp.depth with
  | 0 => m.goto (.fault .depthUnderflow)
  | depth + 1 => { m with interp := { m.interp with depth } }.goto (.deliver outcome)

/-- Hands an outcome to a call, by its stage. The frame of the call has been taken off. -/
def deliverCall (code : Meaning κ τ ρ) (m : Machine κ τ ρ) (stage : Stage κ)
    (outcome : Outcome κ) : Machine κ τ ρ :=
  match stage, outcome with
  | .entering f args, .ok _ =>
    { m with frames := .call .body :: m.frames }.enter code f args
  -- the function was never entered, and its arguments go with the call
  | .entering _ args, .error e => (m.releaseAll args).exitCall (.error e)
  | .body, .ok results => m.await (.call (.leaving results)) (.poll .ret)
  | .body, .error e => m.exitCall (.error e)
  | .leaving results, .ok _ => m.exitCall (.ok results)
  -- an error at the return safepoint takes the place of the results
  | .leaving results, .error e => (m.releaseAll results).exitCall (.error e)

/-! ## Scripts -/

/-- Leaves a script function: the stack goes back to its base and the floor to the caller's. -/
def leave (m : Machine κ τ ρ) (a : Activation κ) (outcome : Outcome κ) : Machine κ τ ρ :=
  -- the floor goes back first, as the truncation may go below that of the callee
  let m := { m with interp := { m.interp with floor := a.callerFloor } }
  ((m.truncate a.base).releaseAll a.spare).goto (.deliver outcome)

/-- Goes on with the script function on top. -/
def resumeScript (m : Machine κ τ ρ) (a : Activation κ) : Machine κ τ ρ :=
  m.await (.script a .ready) .fetch

/-- Pushes the result of an instruction and goes on; a value that finds no room is let go of. -/
def pushAndGo (m : Machine κ τ ρ) (a : Activation κ) (v : Value κ) : Machine κ τ ρ :=
  if m.interp.hasRoom then { m with interp := m.interp.push v }.resumeScript a
  else (m.release v).leave a (.error (m.interp.runtimeError .stackOverflow))

/-- Pushes two results and goes on. -/
def pushTwoAndGo (m : Machine κ τ ρ) (a : Activation κ) (v w : Value κ) : Machine κ τ ρ :=
  if m.interp.hasRoom then { m with interp := m.interp.push v }.pushAndGo a w
  else (m.releaseAll [v, w]).leave a (.error (m.interp.runtimeError .stackOverflow))

/-- Takes the top `n` values off the stack; whoever looked at them holds them now. -/
def popped (m : Machine κ τ ρ) (n : Nat) : Machine κ τ ρ :=
  { m with interp := m.interp.pop n }

/-- Fetches the next instruction; past the last one the function is left. -/
def fetch (m : Machine κ τ ρ) (a : Activation κ) : Machine κ τ ρ :=
  match a.proto.code[a.pc]? with
  | none => m.leave a (.ok [])
  | some i =>
    { m with interp := { m.interp with instructions := m.interp.instructions + 1 } }.await
      (.script { a with pc := a.pc + 1 } (.safepoint i)) (.poll .count)

/-- Sets a global variable, letting go of what it held. -/
def setGlobal (m : Machine κ τ ρ) (name : String) (v : Value κ) : Machine κ τ ρ :=
  let old := m.interp.globals.get name
  let m := { m with interp := { m.interp with globals := m.interp.globals.set name v } }
  -- the new value is in its place before the old one is let go of
  m.release old

/-- Sets a local slot, letting go of what it held. -/
def setLocal (m : Machine κ τ ρ) (a : Activation κ) (slot : Nat) (v : Value κ) : Machine κ τ ρ :=
  match m.interp.stack[a.base + slot]? with
  | none => m.goto (.fault .localOutside)
  | some old =>
    let m := { m with interp :=
      { m.interp with stack := m.interp.stack.setIfInBounds (a.base + slot) v } }
    (m.release old).resumeScript a

/-- Pops two values and pushes what an operation makes of them. -/
def binary (m : Machine κ τ ρ) (a : Activation κ)
    (op : Interpreter κ → Value κ → Value κ → Except Error (Value κ)) : Machine κ τ ρ :=
  match m.interp.topTwo with
  | .error e => m.leave a (.error e)
  | .ok (x, y) =>
    match op m.interp x y with
    -- the operands stay on the stack when the operation fails; leaving the function drops them
    | .error e => m.leave a (.error e)
    | .ok v => ((m.popped 2).releaseAll [x, y]).pushAndGo a v

/-- Pops two values and pushes the string of the one followed by the other; both are held until
there is room for it. -/
def concat (m : Machine κ τ ρ) (a : Activation κ) : Machine κ τ ρ :=
  match m.interp.topTwo with
  | .error e => m.leave a (.error e)
  | .ok (x, y) =>
    match m.interp.concatOperand x with
    | .error e => m.leave a (.error e)
    | .ok xs =>
      match m.interp.concatOperand y with
      | .error e => m.leave a (.error e)
      | .ok ys =>
        let heap := m.interp.heap
        match m.askStore fun s => s.concat heap xs ys with
        | (m, none) => m.leave a (.error .memory)
        | (m, some s) => ((m.popped 2).releaseAll [x, y]).pushAndGo a (.str s)

/-- Executes an instruction. The script's frame has been taken off and comes back with what it does
next; an error leaves the function. -/
def execute (m : Machine κ τ ρ) (a : Activation κ) (i : Instruction) : Machine κ τ ρ :=
  match i with
  | .nil => m.pushAndGo a .nil
  | .true => m.pushAndGo a (.bool Bool.true)
  | .false => m.pushAndGo a (.bool Bool.false)
  | .int n => m.pushAndGo a (.int n)
  | .str bytes =>
    match m.newValue bytes with
    | (m, some v) => m.pushAndGo a v
    | (m, none) => m.leave a (.error .memory)
  | .pop =>
    match m.interp.top with
    | .error e => m.leave a (.error e)
    | .ok v => ((m.popped 1).release v).resumeScript a
  | .dup =>
    match m.interp.top with
    | .error e => m.leave a (.error e)
    | .ok v => (m.retain v).pushAndGo a v
  | .getLocal slot =>
    match m.interp.stack[a.base + slot]? with
    | none => m.goto (.fault .localOutside)
    | some v => (m.retain v).pushAndGo a v
  | .setLocal slot =>
    match m.interp.top with
    | .error e => m.leave a (.error e)
    | .ok v => (m.popped 1).setLocal a slot v
  | .getGlobal name =>
    let v := m.interp.globals.get name
    (m.retain v).pushAndGo a v
  | .setGlobal name =>
    match m.interp.top with
    | .error e => m.leave a (.error e)
    | .ok v => ((m.popped 1).setGlobal name v).resumeScript a
  | .add => m.binary a (fun i x y => i.arithmetic (· + ·) x y)
  | .sub => m.binary a (fun i x y => i.arithmetic (· - ·) x y)
  | .lt => m.binary a (fun i x y => i.below x y)
  | .eq => m.binary a (fun _ x y => .ok (.bool (x.equal y)))
  | .not =>
    match m.interp.top with
    | .error e => m.leave a (.error e)
    | .ok v => ((m.popped 1).release v).pushAndGo a (.bool (!v.isTruthy))
  | .concat => m.concat a
  | .jump target => m.resumeScript { a with pc := target }
  | .jumpIfFalse target =>
    match m.interp.top with
    | .error e => m.leave a (.error e)
    | .ok v =>
      ((m.popped 1).release v).resumeScript (if v.isTruthy then a else { a with pc := target })
  | .call argc =>
    match m.interp.topCall argc with
    | .error e => m.leave a (.error e)
    | .ok (f, args) => (m.popped (argc + 1)).await (.script a (.call f)) (.invoke f args)
  | .pcall argc =>
    match m.interp.topCall argc with
    | .error e => m.leave a (.error e)
    | .ok (f, args) =>
      let m := m.popped (argc + 1)
      -- what the stack comes back to if the call fails
      m.await (.script a (.pcall f m.interp.stack.size)) (.invoke f args)
  | .ret 0 => m.leave a (.ok [])
  | .ret _ =>
    match m.interp.top with
    | .error e => m.leave a (.error e)
    | .ok v => (m.popped 1).leave a (.ok [v])

/-- The first of some results, nil if there are none. -/
def firstOf (results : List (Value κ)) : Value κ :=
  results.headD .nil

/-- The end of a protected call in a script: true and the first result, or false and the error's
message as a string. An error that a script cannot catch leaves the function. -/
def afterPcall (m : Machine κ τ ρ) (a : Activation κ) (top : Nat) (outcome : Outcome κ) :
    Machine κ τ ρ :=
  match outcome with
  | .ok results =>
    (m.releaseAll results.tail).pushTwoAndGo a (.bool true) (firstOf results)
  | .error e =>
    if e.isCatchable then
      -- the stack is cut first, so that the message finds the room that the call has left
      let m := m.truncate top
      match m.newValue (m.interp.errorBytes e) with
      | (m, some v) => m.pushTwoAndGo a (.bool false) v
      | (m, none) => m.leave a (.error .memory)
    else m.leave a (.error e)

/-- Hands an outcome to a script function, by what it waits for. Its frame has been taken off. What
was called is held to the end, since it may be a string that could not be called. -/
def deliverScript (m : Machine κ τ ρ) (a : Activation κ) (await : Await κ)
    (outcome : Outcome κ) : Machine κ τ ρ :=
  match await, outcome with
  -- a function at work waits for nothing, and is never handed an outcome
  | .ready, _ => m.goto (.fault .stray)
  | .safepoint i, .ok _ => m.await (.script a .ready) (.execute i)
  | .safepoint _, .error e => m.leave a (.error e)
  | .call f, .ok results =>
    ((m.releaseAll results.tail).release f).pushAndGo a (firstOf results)
  | .call f, .error e => (m.release f).leave a (.error e)
  | .pcall f top, outcome => (m.afterPcall a top outcome).release f

/-! ## Outcomes -/

/-- Hands an outcome to what waits for it. After each action a pass checks a syncpoint, that of the
interpreter if it is a pass over the mailbox. The check of a pass over a host's own queue is left
out: its syncpoint is one that the queue was made with, is armed by nobody, and so lets every check
by. -/
def deliver (code : Meaning κ τ ρ) (m : Machine κ τ ρ) (outcome : Outcome κ) : Machine κ τ ρ :=
  match m.frames with
  | [] => m.goto (.finished outcome)
  | frame :: rest =>
    let m := { m with frames := rest }
    match frame with
    | .call stage => m.deliverCall code stage outcome
    | .script a await => m.deliverScript a await outcome
    | .host held next =>
      match outcome with
      | .ok vs => m.goto (.run (held.addAll vs) (next (.values vs)))
      | .error e => m.goto (.run held (next (.failed e)))
    | .boundary top depth =>
      if m.interp.depth ≠ depth then m.goto (.fault .depthChanged)
      else
        match outcome with
        | .ok vs => m.goto (.deliver (.ok vs))
        -- only a call that failed can have left anything on the stack
        | .error e => ((m.truncate top).note (.protectedCallFailed e)).raise e
    | .dispatch =>
      { m with interp := { m.interp with hookInstalled := true, hookAllowed := true } }.goto
        (.deliver outcome)
    | .pass source ran =>
      -- what an action returns nobody asked for
      let m := match outcome with
        | .ok vs => m.releaseAll vs
        | .error _ => m
      match source with
      | .mailbox _ => m.goto (.check .drainAfterAction (.settle source ran outcome))
      | .queue _ => m.goto (.settle source ran outcome)

/-! ## Host code -/

/-- Replies to the host code on top. -/
def reply (m : Machine κ τ ρ) (r : Reply κ) : Machine κ τ ρ :=
  match m.frames with
  | .host held next :: rest =>
    { m with frames := rest }.goto (.run (held.addAll r.holds) (next r))
  | _ => m.goto (.fault .stray)

/-- Gives the next function its identity. -/
def newFunction (m : Machine κ τ ρ) : Machine κ τ ρ × Nat :=
  ({ m with ground := { m.ground with functions := m.ground.functions + 1 } }, m.ground.functions)

/-- Serves a request of host code. -/
def serve (m : Machine κ τ ρ) (held : Held) (q : Query κ) (next : Reply κ → Program κ τ ρ) :
    Machine κ τ ρ :=
  match q with
  | .newBytes bytes => string bytes
  | .newText text => string (m.interp.encoding.encode text)
  | .copy v =>
    match v with
    -- host code can copy only a string that it holds
    | .str s =>
      match held.lookup s with
      | some t => answered (m.retain (.str t)) held (.value (.str t))
      | none => answered m held (.value .nil)
    | v => answered m held (.value v)
  | .release v =>
    let (v, held) := held.take v
    answered (m.release v) held .done
  | .getGlobal name =>
    let v := m.interp.globals.get name
    answered (m.retain v) held (.value v)
  | .setGlobal name v =>
    let (v, held) := held.take v
    answered (m.setGlobal name v) held .done
  | .load proto =>
    let (m, id) := m.newFunction
    answered m held (.value (.fn (.script id proto)))
  | .register name code =>
    let (m, id) := m.newFunction
    answered (m.setGlobal name (.fn (.native id name code))) held .done
  | .call f args =>
    let (args, held) := held.takeAll args
    m.await (.host held next) (.invoke f args)
  | .pcall f args =>
    -- the boundary is that of the stack without the arguments, which host code held
    let (args, held) := held.takeAll args
    let boundary := .boundary m.interp.stack.size m.interp.depth
    { m with frames := boundary :: .host held next :: m.frames }.goto (.invoke f args)
  | .setEncoding encoding =>
    answered { m with interp := { m.interp with encoding } } held .done
  | .facts => answered m held (.facts (m.interp.facts m.mailbox.slot))
  | .post call => m.await (.host held next) (.post (.reach call))
  | .drain queue => m.await (.host held next) (.drain (.queue queue) 0)
where
  /-- Goes on with host code that has its reply. -/
  answered (m : Machine κ τ ρ) (held : Held) (r : Reply κ) : Machine κ τ ρ :=
    m.goto (.run (held.addAll r.holds) (next r))
  /-- Replies with a new string. -/
  string (bytes : Bytes) : Machine κ τ ρ :=
    match m.newValue bytes with
    | (m, some v) => answered m held (.value v)
    | (m, none) => answered m held (.failed .memory)

/-- Runs host code up to its next request. -/
def runProgram (m : Machine κ τ ρ) (held : Held) (p : Program κ τ ρ) : Machine κ τ ρ :=
  match p with
  | .finish (.ok vs) =>
    let (vs, held) := held.takeAll vs
    (m.letGo held).goto (.deliver (.ok vs))
  | .finish (.error e) => (m.letGo held).raise e
  | .ask q next => m.serve held q next
  | .outside x given next =>
    let (given, held) := held.takeAll given
    m.goto (.waiting x given held next)

/-- Makes the next access of a call through a handle. -/
def post (m : Machine κ τ ρ) (phase : HostPhase κ) : Machine κ τ ρ :=
  match phase.ending? with
  | some (.ok answer) => m.goto (.reply (.answer answer))
  | some (.error e) => m.goto (.reply (.failed e))
  | none =>
    let (mailbox, phase, notices) := phase.step m.mailbox
    -- what an access has to tell is told before the syncpoint behind it
    let m := notices.foldl note { m with mailbox }
    match phase.gate? with
    | some point => m.goto (.check point (.post phase))
    | none => m.goto (.post phase)

/-! ## Syncpoints -/

/-- Makes an access of a check of a syncpoint, and goes on to what comes of it. -/
def checking (m : Machine κ τ ρ) (point : TestPoint) (phase : Syncpoint.Checking)
    (next : Control κ τ ρ) : Machine κ τ ρ :=
  let (s, phase) := phase.step (m.points.get point)
  let m := { m with points := m.points.set point s }
  match phase with
  | .swapArmed => m.goto (.check point next)
  | .raiseArrived => m.goto (.arrive point next)
  | .poll => m.goto (.paused point next)
  | .passed => m.goto next

/-! ## One step -/

/-- Does what the machine is about to do. -/
def step (code : Meaning κ τ ρ) (m : Machine κ τ ρ) : Machine κ τ ρ :=
  match m.control with
  | .invoke f args => m.invoke f args
  | .poll event => m.poll event
  | .handle phase info => m.handle phase info
  | .drain source ran => m.drain code source ran
  | .settle source ran outcome => m.settle source ran outcome
  | .measure e => m.measure e
  | .rearm e remaining => { m with mailbox := m.mailbox.arm }.goto (.tell e remaining)
  | .tell e remaining => (m.note (.actionFailed e remaining)).goto (.unmark (.error e))
  | .unmark outcome =>
    { m with mailbox := m.mailbox.storeDraining false }.goto (.deliver outcome)
  | .fetch =>
    match m.frames with
    | .script a .ready :: rest => { m with frames := rest }.fetch a
    | _ => m.goto (.fault .stray)
  | .execute i =>
    match m.frames with
    | .script a .ready :: rest => { m with frames := rest }.execute a i
    | _ => m.goto (.fault .stray)
  | .run held p => m.runProgram held p
  | .post phase => m.post phase
  | .reply r => m.reply r
  | .deliver outcome => m.deliver code outcome
  | .check point next => m.checking point .swapArmed next
  | .arrive point next => m.checking point .raiseArrived next
  | .paused point next => m.checking point .poll next
  | .waiting .. | .finished _ | .fault _ => m

end Safepoint.Machine
