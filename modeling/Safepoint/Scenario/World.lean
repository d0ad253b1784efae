import Safepoint.Scenario.Script

/-!
# The world of a scenario

Everything a scenario has named, and what an onlooker sees of an interpreter after each command. An
interpreter that was closed stays in the world, since handles and held values still refer to it.
-/

namespace Safepoint.Scenario

/-- An interpreter of a scenario. -/
structure Resident where
  /-- The interpreter, put aside; none if it could not be opened. -/
  machine : Option (Machine Code Outside Inside)
  isOpen : Bool
  /-- One of its calls is in progress. -/
  isBusy : Bool
  instruments : Option Instruments
  /-- The heap, if the scenario rations it and looks at its calls. -/
  rationed : Option Nat
  /-- Calls of the rationed allocator that were looked at already. -/
  seen : Nat

namespace Resident

/-- An interpreter that was just opened. -/
def opened (m : Machine Code Outside Inside) (instruments : Option Instruments)
    (rationed : Option Nat) : Resident :=
  { machine := some m
    isOpen := true
    isBusy := false
    instruments, rationed
    seen := 0 }

/-- What is left of an interpreter that could not be opened over a rationed heap. -/
def stillborn (heap : Nat) : Resident :=
  { machine := none
    isOpen := false
    isBusy := false
    instruments := none
    rationed := some heap
    seen := 0 }

/-- Whether commands may name this interpreter. -/
def isFree (r : Resident) : Bool :=
  r.isOpen && !r.isBusy

/-- The mailbox of the interpreter, if something keeps it. -/
def mailbox? (r : Resident) : Option (Mailbox Code) :=
  (r.machine.map (·.mailbox)).filter Mailbox.isKept

end Resident

/-- Commands that are to happen at a syncpoint, and their results once they have. -/
structure Plan where
  state : String
  point : TestPoint
  commands : List Command
  results : Option (List Result)

/-- Everything a scenario has named. -/
structure World where
  ground : Ground Code
  residents : List (String × Resident)
  /-- Handles, each with the interpreter it belongs to. -/
  handles : List (String × String)
  trackers : List (String × Nat)
  queues : List (String × Nat)
  vars : List (String × Val)
  /-- What ended since the last command of the scenario itself, the latest last. -/
  log : Array LogEntry
  /-- The result of the command that ended last. -/
  result : Result
  /-- The interpreter that reaches outside. -/
  running : Option String
  /-- Calls of other threads that are held, the latest first. -/
  flights : List (String × HostPhase Code)
  plans : List Plan

/-- Sets the entry of a name. -/
def assign {α : Type} (name : String) (a : α) : List (String × α) → List (String × α)
  | [] => [(name, a)]
  | e :: rest => if e.1 == name then (name, a) :: rest else e :: assign name a rest

/-- Removes the entry of a name. -/
def unassign {α : Type} (name : String) (entries : List (String × α)) : List (String × α) :=
  entries.filter fun e => e.1 != name

namespace World

/-- A world with nothing in it. -/
def empty : World :=
  { ground := .empty
    residents := []
    handles := []
    trackers := []
    queues := []
    vars := []
    log := #[]
    result := .refused
    running := none
    flights := []
    plans := [] }

/-- The interpreter of a name. -/
def resident? (w : World) (name : String) : Option Resident :=
  w.residents.lookup name

/-- Puts an interpreter under a name. -/
def setResident (w : World) (name : String) (r : Resident) : World :=
  { w with residents := assign name r w.residents }

/-- Changes an interpreter. -/
def mapResident (w : World) (name : String) (f : Resident → Resident) : World :=
  match w.resident? name with
  | some r => w.setResident name (f r)
  | none => w

/-- Changes the machine of an interpreter. -/
def mapMachine (w : World) (name : String)
    (f : Machine Code Outside Inside → Machine Code Outside Inside) : World :=
  w.mapResident name fun r => { r with machine := r.machine.map f }

/-- Changes the store. -/
def mapStore (w : World) (f : Store → Store) : World :=
  { w with ground := { w.ground with store := f w.ground.store } }

/-- Takes an interpreter out to work with it: its machine, on the world's ground. -/
def takeMachine? (w : World) (name : String) : Option (Machine Code Outside Inside × World) :=
  match w.resident? name with
  | some r =>
    r.machine.map fun m =>
      -- the ground goes with the machine, which is the only one to work on it meanwhile
      (m.onGround w.ground,
        { w.setResident name { r with machine := none, isBusy := true } with ground := .empty })
  | none => none

/-- Puts an interpreter back that was taken out. -/
def putMachine (w : World) (name : String) (m : Machine Code Outside Inside) (isBusy : Bool) :
    World :=
  let (ground, m) := m.park
  { w.mapResident name fun r => { r with machine := some m, isBusy } with ground }

/-- The interpreter of a handle. -/
def owner? (w : World) (handle : String) : Option (String × Resident) :=
  match w.handles.lookup handle with
  | some state => (w.resident? state).map fun r => (state, r)
  | none => none

/-- Lets go of the value of a variable. -/
def releaseVar (w : World) (var : String) : World × Bool :=
  match w.vars.lookup var with
  | some v =>
    ({ w with vars := unassign var w.vars }.mapStore fun s => s.releaseValue v, true)
  | none => (w, false)

/-- Keeps a value in a variable, and lets go of the one it had. -/
def keepVar (w : World) (var : String) (v : Val) : World :=
  let (w, _) := w.releaseVar var
  { w with vars := assign var v w.vars }

/-! ## Opening and closing -/

/-- The policy of a rationed heap. -/
def ration (cap budget : Option Nat) (failAt : List Nat) : Policy :=
  ⟨fun attempt size live =>
    cap.all (fun c => decide (size ≤ c)) && budget.all (fun b => decide (live ≤ b)) &&
      !failAt.contains attempt⟩

/-- Opens an interpreter that is not instrumented. Over a rationed heap, something is left of it
even if it cannot be opened. -/
def openPlain (w : World) (name : String) (source : MemorySource) (limits : Limits) :
    World × Result :=
  let isRationed := match source with
    | .custom _ => true
    | _ => false
  match Interpreter.openNew w.ground.store source limits with
  | (store, heap, opened) =>
    let w := w.mapStore fun _ => store
    let rationed := if isRationed then some heap else none
    match opened with
    | .ok interp =>
      let (_, m) := (Machine.idle interp .empty .empty : Machine Code Outside Inside).park
      (w.setResident name (.opened m none rationed), .ok .nothing)
    | .error e =>
      -- the calls that the allocator has refused are still to be looked at
      (if isRationed then w.setResident name (.stillborn heap) else w, .failed e)

/-- Opens an interpreter under a name that is free, and names its handle and its counter alike. -/
def openState (w : World) (name : String) (opening : Opening) (limits : Limits) : World × Result :=
  if (w.resident? name).isSome then (w, .refused)
  else
    match opening with
    | .plain => w.openPlain name .system limits
    | .rationed cap budget failAt => w.openPlain name (.custom (ration cap budget failAt)) limits
    | .tracked tracker =>
      match w.trackers.lookup tracker with
      | some t => w.openPlain name (.tracked t) limits
      | none =>
        -- the counter stays, and is shared by those that name it later
        let (store, t) := w.ground.store.addTracker
        let w := w.mapStore fun _ => store
        { w with trackers := assign tracker t w.trackers }.openPlain name (.tracked t) limits
    | .instrumented facilities =>
      match Instruments.openWith w.ground facilities limits with
      | (ground, .error e) => ({ w with ground }, .failed e)
      | (ground, .ok (m, instruments)) =>
        let w := { w with ground }.setResident name (.opened m (some instruments) none)
        let w := if facilities.interruption then
            { w with handles := assign name name w.handles }
          else w
        let w := match instruments.tracker with
          | some t => { w with trackers := assign name t w.trackers }
          | none => w
        (w, .ok .nothing)

/-- Closes an interpreter. -/
def closeState (w : World) (name : String) : World × Result :=
  match w.resident? name, w.takeMachine? name with
  | some r, some (m, w) =>
    let m := match r.instruments with
      | some i => i.close m
      | none => m.close
    let w := w.putMachine name m false
    -- the mailbox stays reachable, as a call that is held may keep it
    (w.mapResident name fun r => { r with isOpen := false }, .ok .nothing)
  | _, _ => (w, .refused)

/-- The instruments of an interpreter, if it is an instrumented one. -/
def instruments? (w : World) (name : String) : Option Instruments :=
  (w.resident? name).bind (·.instruments)

/-! ## Commands that need no interpreter -/

/-- Performs a command that neither runs an interpreter nor makes a call through a handle. -/
def perform (w : World) (home : String) (c : Command) : World × Result :=
  match c with
  | .isValid handle =>
    match w.owner? handle with
    | some (_, r) => (w, .ok (.bool r.mailbox?.isSome))
    | none => (w, .refused)
  | .cloneHandle handle newName =>
    match w.handles.lookup handle with
    | some state => ({ w with handles := assign newName state w.handles }, .ok .nothing)
    | none => (w, .refused)
  | .openState name opening limits => w.openState name opening limits
  | .armAndResume state point =>
    let name := state.getD home
    match (w.resident? name).filter fun r => r.isOpen && r.instruments.isSome with
    | some _ =>
      (w.mapMachine name fun m =>
        { m with points := m.points.set point (m.points.get point).arm.resume }, .ok .nothing)
    | none => (w, .refused)
  | .stats tracker =>
    match w.trackers.lookup tracker with
    | some t => (w, .ok (.count (w.ground.store.reading t)))
    | none => (w, .refused)
  | .releaseVar var =>
    let (w, existed) := w.releaseVar var
    (w, .ok (.bool existed))
  | .varValue var =>
    match w.vars.lookup var with
    | some v => (w, .ok (.value v))
    | none => (w, .refused)
  | .newQueue name =>
    let id := w.ground.queues.size
    ({ w with
        queues := assign name id w.queues
        ground := { w.ground with queues := w.ground.queues.push [] } }, .ok .nothing)
  | .enqueue name home action =>
    match w.queues.lookup name with
    | some id =>
      let queues := w.ground.queues.modify id fun q => q ++ [⟨action, home⟩]
      ({ w with ground := { w.ground with queues } }, .ok .nothing)
    | none => (w, .refused)
  | .queueLength name =>
    match w.queues.lookup name with
    | some id => (w, .ok (.length ((w.ground.queues[id]?.map List.length).getD 0)))
    | none => (w, .refused)
  | _ => (w, .refused)

/-! ## What an onlooker sees -/

/-- A look at an interpreter. -/
structure Snapshot where
  isOpen : Bool
  /-- Instructions, depth and hook mask, while it is open. -/
  facts : Option (Nat × Nat × HookMask)
  /-- Whether there is a handle of its name, and while that is valid the actions that wait and the
  entries of the handler. -/
  mailbox : Option (Option (Nat × Nat))
  /-- Live bytes, if they are counted. -/
  live : Option Nat
  /-- The calls of a rationed allocator since the last look. -/
  calls : Option (List HeapCall)

/-- Looks at an interpreter. -/
def look (w : World) (name : String) : World × Option Snapshot :=
  match w.resident? name with
  | none => (w, none)
  | some r =>
    let facts := match r.isOpen, r.machine with
      | true, some m =>
        some (m.interp.instructions, m.interp.depth, m.mailbox.slot.mask)
      | _, _ => none
    let mailbox := (w.owner? name).map fun (_, owner) =>
      owner.mailbox?.map fun mailbox => (mailbox.queue.length, mailbox.invocations)
    let counted := (w.trackers.lookup name).map w.ground.store.reading
    match r.rationed.bind fun heap => w.ground.store.heaps[heap]? with
    | some heap =>
      let calls := (heap.ledger.extract r.seen heap.ledger.size).toList
      (w.setResident name { r with seen := heap.ledger.size },
        some ⟨r.isOpen, facts, mailbox, some heap.live, some calls⟩)
    | none => (w, some ⟨r.isOpen, facts, mailbox, counted, none⟩)

end World

end Safepoint.Scenario
