import Safepoint.Scenario.World

/-!
# Playing a scenario

Commands are performed one after the other. Performing one may run interpreters, whose host code
performs commands of its own, and may hold a thread at a syncpoint while other commands are
performed. All of it is given so many steps, counted along the deepest chain.
-/

namespace Safepoint.Scenario

open World

namespace World

/-- Makes the next access of a call through a handle: what is left of the call, and the syncpoint it
has come to if that one is armed. -/
def hostStep (w : World) (state : String) (phase : HostPhase Code) :
    World × HostPhase Code × Option TestPoint :=
  match w.resident? state with
  | none => (w, phase, none)
  | some r =>
    match r.machine with
    | none => (w, phase, none)
    | some m =>
      let (mailbox, phase, notices) := phase.step m.mailbox
      let w := w.setResident state { r with machine := some { m with mailbox } }
      let w := w.mapStore fun s => notices.foldl Store.note s
      -- a syncpoint that is not armed lets the call by, and is not told of
      (w, phase, phase.gate?.filter fun p => (m.points.get p).armed)

/-- Makes the accesses of a call up to its syncpoint, or to its end. -/
def hostBegin (state : String) : Nat → World → HostPhase Code → World × HostPhase Code
  | 0, w, phase => (w, phase)
  | n + 1, w, phase =>
    if phase.remaining = 0 || phase.gate?.isSome then (w, phase)
    else
      let (w, phase, _) := w.hostStep state phase
      hostBegin state n w phase

/-- Makes all accesses that are left of a call, with nobody in between. -/
def hostEnd (state : String) : Nat → World → HostPhase Code → World × HostPhase Code
  | 0, w, phase => (w, phase)
  | n + 1, w, phase =>
    if phase.remaining = 0 then (w, phase)
    else
      let (w, phase, _) := w.hostStep state phase
      hostEnd state n w phase

/-- The result of a call that is over. -/
def hostResult (phase : HostPhase Code) : Result :=
  match phase.ending? with
  | some (.ok a) => .ok (answerOf a)
  | some (.error e) => .failed e
  | none => .refused

/-- Has another thread begin a call and holds it at its syncpoint. A call that fails before is not
held. -/
def beginFlight (w : World) (handle : String) (call : HostCall Code) : World × Inside :=
  match w.owner? handle with
  | none => (w, .refused)
  | some (state, _) =>
    let start := HostPhase.reach call
    let (w, phase) := hostBegin state start.remaining w start
    match phase.ending? with
    | some _ => (w, .result (hostResult phase))
    | none => ({ w with flights := (state, phase) :: w.flights }, .result (.ok .nothing))

/-- Lets the thread that was held last end its call. -/
def endFlight (w : World) : World × Inside :=
  match w.flights with
  | [] => (w, .refused)
  | (state, phase) :: rest =>
    let (w, phase) := hostEnd state phase.remaining { w with flights := rest } phase
    (w, .result (hostResult phase))

/-- Whether an interpreter has syncpoints: the instrumented ones do. -/
def hasSyncpoints (w : World) (state : String) : Bool :=
  (w.instruments? state).isSome

/-- Arms syncpoints of an interpreter, if it has any. -/
def armAll (w : World) (state : String) (plan : List (TestPoint × List Command)) :
    World × Inside :=
  if w.hasSyncpoints state then
    (plan.foldl (fun w (point, commands) =>
      let w := w.mapMachine state fun m =>
        { m with points := m.points.set point (m.points.get point).arm }
      -- a place that is armed again hides its earlier plan until this one is done with
      { w with plans := ⟨state, point, commands, none⟩ :: w.plans }) w, .done)
  else (w, .refused)

/-- Logs the results of commands under a label. -/
def logAll (w : World) (label : String) : Nat → List Result → World
  | _, [] => w
  | index, r :: rest =>
    logAll { w with log := w.log.push ⟨label, index, r⟩ } label (index + 1) rest

/-- Disarms a syncpoint of an interpreter, and logs what was done there. -/
def disarmOne (w : World) (state : String) (point : TestPoint) : World :=
  let w := w.mapMachine state fun m =>
    { m with points := m.points.set point (m.points.get point).resume }
  match w.plans.find? fun p => p.state == state && p.point == point with
  | none => w
  | some plan =>
    let w := { w with plans := w.plans.eraseP fun p => p.state == state && p.point == point }
    match plan.results with
    | some results => w.logAll point.name 0 results
    | none => w.logAll point.name 0 [.ok (.text "not reached")]

/-- Disarms syncpoints in the order of their names, and logs what was done there. -/
def disarmAll (w : World) (state : String) (plan : List (TestPoint × List Command)) : World :=
  (TestPoint.all.filter fun point => plan.any fun e => e.1 == point).foldl
    (fun w point => w.disarmOne state point) w

/-- Marks commands as done at the syncpoint where they were to happen. -/
def markDone (w : World) (state : String) (point : TestPoint) (results : List Result) : World :=
  { w with plans := mark w.plans }
where
  /-- Marks the first plan for the place that has no results. -/
  mark : List Plan → List Plan
    | [] => []
    | p :: rest =>
      if p.state == state && p.point == point && p.results.isNone then
        { p with results := some results } :: rest
      else p :: mark rest

/-- Where a named interpreter stands, for commands that know the one that runs as `home`; without a
name it is that one. -/
def target (w : World) (home : String) (state : Option String) : Inside :=
  let name := state.getD home
  if w.running.isSome && name == home then .own name
  else
    match w.resident? name with
    | some r => if r.isFree then .other name else .refused
    | none => .refused

/-- Whose handle this is. -/
def whose (w : World) (handle : String) : Inside :=
  match w.owner? handle with
  | some (state, _) => if w.running == some state then .own state else .other state
  | none => .refused

end World

mutual

/-- Performs a command from outside any interpreter. -/
def execute (fuel : Nat) (w : World) (c : Command) : World × Result :=
  match fuel with
  | 0 => (w, .refused)
  | fuel + 1 =>
    let running := w.running
    -- a command that answers nothing was refused
    let w := playAlone fuel { w with running := none, result := .refused } c.program
    ({ w with running }, w.result)

/-- Performs commands in order from outside any interpreter. -/
def executeAll (fuel : Nat) (w : World) (cs : List Command) : World × List Result :=
  match fuel with
  | 0 => (w, [])
  | fuel + 1 =>
    match cs with
    | [] => (w, [])
    | c :: rest =>
      let (w, r) := execute fuel w c
      let (w, rs) := executeAll fuel w rest
      (w, r :: rs)

/-- Runs a program that works on no interpreter. -/
def playAlone (fuel : Nat) (w : World) (p : Play) : World :=
  match fuel with
  | 0 => w
  | fuel + 1 =>
    match p with
    | .finish _ => w
    | .ask _ next => playAlone fuel w (next .done)
    | .outside x given next =>
      let (w, r, vs) := serve fuel w x given
      playAlone fuel w (next r vs)

/-- Runs an interpreter that was taken out of the world until it has finished, and puts it back. -/
def playOn (fuel : Nat) (w : World) (name : String) (m : Machine Code Outside Inside) : World :=
  match fuel with
  | 0 => w.putMachine name m false
  | fuel + 1 =>
    match m.control with
    | .finished _ | .fault _ => w.putMachine name m false
    | .waiting x given _ _ =>
      -- the interpreter is back in the world while it waits, so that others reach its mailbox
      let (w, r, vs) := serve fuel (w.putMachine name m true) x given
      match w.takeMachine? name with
      | some (m, w) => playOn fuel w name (m.answer r vs)
      | none => w
    | .paused point _ =>
      if (m.points.get point).released then playOn fuel w name (m.step meaning)
      else
        -- nobody else would release it, so whoever is to act there acts now
        let w := visit fuel (w.putMachine name m true) name point
        match w.takeMachine? name with
        | some (m, w) => playOn fuel w name m
        | none => w
    | _ => playOn fuel w name (m.step meaning)

/-- Has another thread perform what is to happen at a syncpoint where a thread has stopped, and lets
that one go on. -/
def visit (fuel : Nat) (w : World) (state : String) (point : TestPoint) : World :=
  match fuel with
  | 0 => w
  | fuel + 1 =>
    let commands := match w.plans.find? fun p =>
        p.state == state && p.point == point && p.results.isNone with
      | some p => p.commands
      | none => []
    let (w, results) := executeAll fuel w (commands.map Command.ofOtherThread)
    let w := w.markDone state point results
    w.mapMachine state fun m =>
      { m with points := m.points.set point (m.points.get point).resume }

/-- Makes a call through a handle from outside its interpreter. -/
def callThrough (fuel : Nat) (w : World) (state : String) (phase : HostPhase Code) :
    World × Result :=
  match fuel with
  | 0 => (w, .refused)
  | fuel + 1 =>
    if phase.remaining = 0 then (w, hostResult phase)
    else
      match w.hostStep state phase with
      | (w, phase, none) => callThrough fuel w state phase
      | (w, phase, some point) =>
        let w := w.mapMachine state fun m =>
          { m with points := m.points.set point (m.points.get point).halt }
        -- the call goes on when the visitor has resumed the syncpoint
        callThrough fuel (visit fuel w state point) state phase

/-- Does something with an interpreter that has nothing to do, as its owner. -/
def manage (fuel : Nat) (w : World) (name : String) (op : OwnerOp) : World × Result :=
  match fuel with
  | 0 => (w, .refused)
  | fuel + 1 =>
    match op, w.instruments? name with
    | .close, _ => w.closeState name
    | _, none => (w, .refused)
    | .instrumentations, some i => (w, .ok (.facilities i.facilities))
    | .interjector newName, some i =>
      match i.interruption with
      | .ok () => ({ w with handles := assign (newName.getD name) name w.handles }, .ok .nothing)
      | .error e => (w, .failed e)
    | .cancel text, some i =>
      match i.interruption, (w.resident? name).bind (·.machine) with
      | .ok (), some m => callThrough fuel w name (.reach (.cancel text m.interp.encoding))
      | .error e, _ => (w, .failed e)
      | .ok (), none => (w, .refused)
    | .memorySize, some i =>
      match i.monitoring with
      | .ok t => (w, .ok (.count (w.ground.store.reading t)))
      | .error e => (w, .failed e)
    | .memoryStats newName, some i =>
      match i.monitoring with
      | .ok t => ({ w with trackers := assign (newName.getD name) t w.trackers }, .ok .nothing)
      | .error e => (w, .failed e)

/-- Serves a program that reaches outside. -/
def serve (fuel : Nat) (w : World) (x : Outside) (given : List Val) :
    World × Inside × List Val :=
  match fuel with
  | 0 => (w, .refused, given)
  | fuel + 1 =>
    match x with
    | .log entry => ({ w with log := w.log.push entry }, .done, given)
    | .answer result => ({ w with result }, .done, given)
    | .target home state => (w, w.target home state, given)
    | .owner handle => (w, w.whose handle, given)
    | .enter name op =>
      match w.takeMachine? name with
      | none => (w, .refused, given)
      | some (m, w) =>
        let running := w.running
        let w := { w with running := some name, result := .refused }
        let w := playOn fuel w name (m.start (op.program name) [])
        -- whoever ran before runs on
        ({ w with running }, .result w.result, given)
    | .asOwner name op =>
      let (w, result) := manage fuel w name op
      (w, .result result, given)
    | .through handle call =>
      match w.owner? handle with
      | none => (w, .refused, given)
      | some (state, _) =>
        let (w, result) := callThrough fuel w state (.reach call)
        (w, .result result, given)
    | .begin handle call =>
      let (w, r) := w.beginFlight handle call
      (w, r, given)
    | .complete =>
      let (w, r) := w.endFlight
      (w, r, given)
    | .keep var =>
      match given with
      | v :: rest => (w.keepVar var v, .done, rest)
      | [] => (w, .refused, [])
    | .recall var =>
      match w.vars.lookup var with
      -- the variable goes on holding the value
      | some v => (w.mapStore fun s => s.retainValue v, .done, v :: given)
      | none => (w, .refused, given)
    | .queue name =>
      match w.queues.lookup name with
      | some id => (w, .place id, given)
      | none => (w, .refused, given)
    | .arm state plan =>
      let (w, r) := w.armAll state plan
      (w, r, given)
    | .disarm state plan => (w.disarmAll state plan, .done, given)
    | .perform home c =>
      let (w, result) := w.perform home c
      (w, .result result, given)

end

/-- What a command of the scenario itself shows: its result, what ended meanwhile, what observers
were told, and a look at an interpreter afterwards. -/
structure Scene where
  result : Result
  log : List LogEntry
  notices : List Notice
  snapshot : Option World.Snapshot

/-- Performs a command of the scenario itself and looks at the interpreter of a name. -/
def stage (fuel : Nat) (w : World) (c : Command) (watched : String) : World × Scene :=
  let (w, result) := execute fuel w c
  let log := w.log.toList
  let notices := w.ground.store.journal.toList
  let w := { w with log := #[] }.mapStore fun s => { s with journal := #[] }
  let (w, snapshot) := w.look watched
  (w, ⟨result, log, notices, snapshot⟩)

/-- Plays a scenario: the scenes of its commands, each with the name of the interpreter to look at
afterwards. -/
def play (fuel : Nat) : World → List (Command × String) → List Scene
  | _, [] => []
  | w, (c, watched) :: rest =>
    let (w, scene) := stage fuel w c watched
    scene :: play fuel w rest

end Safepoint.Scenario
