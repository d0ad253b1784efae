import Safepoint.Scenario.Command

/-!
# Commands as host code

What a command does, as a program: it asks the interpreter it works on, and reaches outside for what
belongs to the scenario. `Command.program` is one command on its own, and `Body.program` is the code
of a native function or of an action, so `meaning` is what a machine runs scenarios with.
-/

namespace Safepoint.Scenario

/-- What a command may want from outside the interpreter it works on. -/
inductive Outside where
  /-- Log a command that has ended. -/
  | log (entry : LogEntry)
  /-- Take the result of a command. -/
  | answer (r : Result)
  /-- Where a named interpreter stands, for commands that know the one that runs as `home`; without
  a name it is that one. -/
  | target (home : String) (state : Option String)
  /-- Perform this on another interpreter that has nothing to do. -/
  | enter (state : String) (op : StateOp Command)
  /-- Do this with another interpreter that has nothing to do, as its owner. -/
  | asOwner (state : String) (op : OwnerOp)
  /-- Whose handle this is. -/
  | owner (handle : String)
  /-- Make a call through the handle of another interpreter. -/
  | through (handle : String) (call : HostCall Code)
  /-- Have another thread make a call, up to its syncpoint. -/
  | begin (handle : String) (call : HostCall Code)
  /-- Let the thread that was held last end its call. -/
  | complete
  /-- Keep a value in a variable. -/
  | keep (var : String)
  /-- Copy the value of a variable. -/
  | recall (var : String)
  /-- The place of a named queue. -/
  | queue (name : String)
  /-- Arm syncpoints of an interpreter, if it has any. -/
  | arm (state : String) (plan : List (TestPoint × List Command))
  /-- Disarm them and log what was done there. -/
  | disarm (state : String) (plan : List (TestPoint × List Command))
  /-- Anything that needs no interpreter, for commands that know the one that runs as `home`. -/
  | perform (home : String) (c : Command)

/-- What comes back from outside. -/
inductive Inside where
  | done
  | refused
  | result (r : Result)
  /-- The interpreter that runs, and a name for it. -/
  | own (name : String)
  /-- Another one. -/
  | other (name : String)
  | place (n : Nat)

/-- The host code of a scenario. -/
abbrev Play := Program Code Outside Inside

/-- A part of a program that ends with a value or with the result of its command. -/
def Attempt (α : Type) := (Except Result α → Play) → Play

namespace Attempt

instance : Monad Attempt where
  pure a := fun k => k (.ok a)
  bind x f := fun k => x fun
    | .ok a => f a k
    | .error r => k (.error r)

/-- Ends the command. -/
def stop {α : Type} (r : Result) : Attempt α := fun k => k (.error r)

/-- Asks the interpreter. -/
def ask (q : Query Code) : Attempt (Reply Code) := fun k => .ask q fun r => k (.ok r)

/-- Reaches outside. -/
def reach (x : Outside) (given : List Val) : Attempt (Inside × List Val) :=
  fun k => .outside x given fun r vs => k (.ok (r, vs))

/-- Goes on even if the command has ended. -/
def caught {α : Type} (x : Attempt α) : Attempt (Except Result α) := fun k => x fun r => k (.ok r)

/-- Lets go of a value. -/
def release (v : Val) : Attempt Unit := do
  let _ ← ask (.release v)

/-- Lets go of values. -/
def releaseAll : List Val → Attempt Unit
  | [] => pure ()
  | v :: vs => do
    release v
    releaseAll vs

/-- Does something that may end the command, and lets go of values if it does. -/
def orRelease {α : Type} (x : Attempt α) (vs : List Val) : Attempt α := do
  match ← x.caught with
  | .ok a => pure a
  | .error r => do
    releaseAll vs
    stop r

/-- A value that was asked for. -/
def value (q : Query Code) : Attempt Val := do
  match ← ask q with
  | .value v => pure v
  | .failed e => stop (.failed e)
  | _ => stop .refused

/-- What an interpreter tells about itself. -/
def facts : Attempt Facts := do
  match ← ask .facts with
  | .facts f => pure f
  | _ => stop .refused

/-- The answer that came back from outside. -/
def outsideAnswer (x : Outside) (given : List Val) : Attempt Answer := do
  match ← reach x given with
  | (.result (.ok a), _) => pure a
  | (.result r, _) => stop r
  | (.done, _) => pure .nothing
  | _ => stop .refused

end Attempt

open Attempt

/-- Where commands are performed: the arguments of the native function that performs them, and the
name that they know the interpreter by that runs. -/
structure Setting where
  args : List Val
  home : String

/-- Where commands are performed that are not part of a body. -/
def Setting.bare (home : String) : Setting := ⟨[], home⟩

/-- The result of a command that has ended. -/
def resultOf : Except Result Answer → Result
  | .ok a => .ok a
  | .error r => r

/-- The value of an expression, on the interpreter that is worked on. -/
def Expr.eval (here : Setting) : Expr → Attempt Val
  | .nil => pure .nil
  | .bool b => pure (.bool b)
  | .int i => pure (.int i)
  | .bytes octets => value (.newBytes octets)
  | .text t => value (.newText t)
  | .repeated t count => value (.newText (String.join (List.replicate count t)))
  | .var name => do
    match ← reach (.recall name) [] with
    | (.done, [v]) => pure v
    | _ => stop .refused
  | .global name => value (.getGlobal name)
  | .function draft =>
    match draft.prototype with
    | .ok proto => value (.load proto)
    | .error e => stop (.failed e)
  | .arg n =>
    match here.args[n]? with
    | some v => value (.copy v)
    | none => pure .nil

/-- The values of expressions, in order; none is kept if one fails. -/
def evalAll (here : Setting) : List Expr → Attempt (List Val)
  | [] => pure []
  | e :: es => do
    let v ← e.eval here
    let vs ← (evalAll here es).orRelease [v]
    pure (v :: vs)

/-- The error of an expression, on the interpreter that is worked on. -/
def ErrorExpr.eval : ErrorExpr → Attempt Error
  | .given e => pure e
  | .encoded text => do
    let f ← facts
    pure (.runtime (.ofText text f.encoding))

/-- The answer of a host's call. -/
def answerOf : HostAnswer → Answer
  | .done => .nothing
  | .flag b => .bool b
  | .count n => .count n
  | .slot s => .hook s

/-- What a host calls through a handle of an interpreter. An action knows that interpreter by its
name. -/
def HandleOp.call (state : String) : HandleOp Command → HostCall Code
  | .interject action => .interject ⟨action, state⟩
  | .cancel text encoding => .cancel text encoding
  | .revert => .revert
  | .isCancelPending => .isCancelPending
  | .pendingActions => .pendingActions
  | .invocations => .invocations
  | .hookSlot => .hookSlot

/-- Arms the syncpoints where commands are to happen. -/
def arming (here : Setting) : Option (List (TestPoint × List Command)) → Attempt Unit
  | none => pure ()
  | some plan => do
    match ← reach (.arm here.home plan) [] with
    | (.done, _) => pure ()
    | _ => stop .refused

/-- Disarms the syncpoints where commands were to happen. -/
def disarming (here : Setting) : Option (List (TestPoint × List Command)) → Attempt Unit
  | none => pure ()
  | some plan => do
    let _ ← reach (.disarm here.home plan) []

/-- Makes a call, with syncpoints armed while it runs, and answers its results. The values are those
that the call takes. -/
def calling (here : Setting) (q : Query Code) (taken : List Val)
    (plan : Option (List (TestPoint × List Command))) : Attempt Answer := do
  (arming here plan).orRelease taken
  let reply ← ask q
  disarming here plan
  match reply with
  | .values vs => do
    releaseAll vs
    pure (.values vs)
  | .failed e => stop (.failed e)
  | _ => stop .refused

/-- Makes a call of evaluated operands, made into a query. -/
def callingWith (here : Setting) (f : Expr) (operands : List Expr)
    (plan : Option (List (TestPoint × List Command))) (query : Val → List Val → Query Code) :
    Attempt Answer := do
  let f ← f.eval here
  let vs ← (evalAll here operands).orRelease [f]
  let a ← (calling here (query f vs) vs plan).orRelease [f]
  release f
  pure a

/-- What is done with the interpreter that is worked on. -/
def StateOp.perform (here : Setting) : StateOp Command → Attempt Answer
  | .setEncoding e => do
    let _ ← ask (.setEncoding e)
    pure .nothing
  | .encoding => do
    let f ← facts
    pure (.text f.encoding.name)
  | .limits => do
    let f ← facts
    pure (.limits f.limits)
  | .instructions => do
    let f ← facts
    pure (.count f.instructions)
  | .depth => do
    let f ← facts
    pure (.count f.depth)
  | .hook => do
    let f ← facts
    pure (.hook f.slot)
  | .setGlobal name e => do
    let v ← e.eval here
    let _ ← ask (.setGlobal name v)
    pure .nothing
  | .getGlobal name => do
    let v ← value (.getGlobal name)
    release v
    pure (.value v)
  | .holdVar var e => do
    let v ← e.eval here
    let _ ← reach (.keep var) [v]
    pure (.value v)
  | .toText e => do
    let v ← e.eval here
    let f ← facts
    release v
    pure (.textOrNil (v.bytes?.map f.encoding.decode))
  | .valueEq a b => do
    let v ← a.eval here
    let w ← (b.eval here).orRelease [v]
    releaseAll [v, w]
    pure (.bool (v.equal w))
  | .inspect e => do
    let v ← e.eval here
    release v
    pure (.inspection v)
  | .register name body => do
    let _ ← ask (.register name ⟨{ body with label := name }, here.home⟩)
    pure .nothing
  | .run draft plan =>
    match draft.prototype with
    | .error e => stop (.failed e)
    | .ok proto => do
      let f ← value (.load proto)
      calling here (.pcall f []) [] plan
  | .call f operands plan => callingWith here f operands plan .call
  | .pcall f operands plan => callingWith here f operands plan .pcall
  | .error e => do
    let e ← e.eval
    pure (.error e)
  | .fail e => do
    let e ← e.eval
    stop (.failed e)
  | .drain queue => do
    match ← reach (.queue queue) [] with
    | (.place id, _) =>
      match ← ask (.drain id) with
      | .count n => pure (.count n)
      | .failed e => stop (.failed e)
      | _ => stop .refused
    | _ => stop .refused

mutual

/-- What a command does. -/
def Command.perform (here : Setting) : Command → Attempt Answer
  | .onState state op => do
    match ← reach (.target here.home state) [] with
    | (.own _, _) => op.perform here
    | (.other name, _) => outsideAnswer (.enter name op) []
    | _ => stop .refused
  | .asOwner state op => do
    match ← reach (.target here.home state) [] with
    | (.other name, _) => outsideAnswer (.asOwner name op) []
    | _ => stop .refused
  | .onHandle handle op => do
    match ← reach (.owner handle) [] with
    | (.own name, _) =>
      match ← ask (.post (op.call name)) with
      | .answer a => pure (answerOf a)
      | .failed e => stop (.failed e)
      | _ => stop .refused
    | (.other name, _) => outsideAnswer (.through handle (op.call name)) []
    | _ => stop .refused
  | .held handle op meanwhile => do
    match ← reach (.owner handle) [] with
    | (.own name, _) | (.other name, _) =>
      let _ ← outsideAnswer (.begin handle (op.call name)) []
      performAll here "hold" 0 meanwhile
      outsideAnswer .complete []
    | _ => stop .refused
  | c => outsideAnswer (.perform here.home c) []

/-- Performs commands in order and logs the result of each. -/
def performAll (here : Setting) (label : String) : Nat → List Command → Attempt Unit
  | _, [] => pure ()
  | index, c :: rest => do
    let r ← (Command.perform here c).caught
    let _ ← reach (.log ⟨label, index, resultOf r⟩) []
    performAll here label (index + 1) rest

end

/-- A command on its own, where no interpreter runs: its result is handed outside. -/
def Command.program (c : Command) : Play :=
  c.perform (.bare mainName) fun r => .outside (.answer (resultOf r)) [] fun _ _ => .finish (.ok [])

/-- A command on one interpreter, on its own: its result is handed outside. No native function runs
on that interpreter, so there are no arguments. -/
def StateOp.program (state : String) (op : StateOp Command) : Play :=
  op.perform (.bare state) fun r => .outside (.answer (resultOf r)) [] fun _ _ => .finish (.ok [])

/-- Whether a step is to be done with these arguments. -/
def Step.isDue (here : Setting) (s : Step Command) : Bool :=
  match s.guard with
  | none => true
  | some (n, k) => (here.args[n]?.bind Value.int?) == some k

/-- The steps of a body, each logged under the body's label. -/
def performSteps (here : Setting) (label : String) : Nat → List (Step Command) → Attempt Unit
  | _, [] => pure ()
  | index, s :: rest => do
    if s.isDue here then
      let r := resultOf (← (s.command.perform here).caught)
      let _ ← reach (.log ⟨label, index, r⟩) []
      match r, s.isStrict with
      | .failed e, true => stop (.failed e)
      | _, _ => performSteps here label (index + 1) rest
    else performSteps here label (index + 1) rest

/-- What a body does: its steps, then its failure if it has one, then its
results. -/
def Body.perform (here : Setting) (b : Body Command) : Attempt (List Val) := do
  performSteps here b.label 0 b.steps
  match b.failure with
  | some e => do
    let e ← e.eval
    stop (.failed e)
  | none => evalAll here b.results

/-- What a machine runs code as. -/
def meaning : Meaning Code Outside Inside := fun c args =>
  c.body.perform ⟨args, c.home⟩ fun
    | .ok vs => .finish (.ok vs)
    | .error (.failed e) => .finish (.error e)
    | .error _ => .finish (.ok [])

end Safepoint.Scenario
