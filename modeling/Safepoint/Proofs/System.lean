import Mathlib.Logic.Function.Basic
import Safepoint.Lifecycle
import Safepoint.Proofs.HostCall
import Safepoint.Proofs.Machine.Work

/-!
# Systems

An interpreter among the threads that hold handles of it. A `System` is a machine together with
what is left of each thread's call, and an `Event` is one atomic thing that can happen to it: an
access of a host thread, a step of the interpreter's own thread, something that the embedder does,
or something that is done elsewhere to what the interpreter shares. Events come in any order, so the
runs of a system are all the interleavings there are.

The interpreter's own host code makes calls through handles too. A `Caller` is whoever makes one,
and `System.access?` tells which caller an event makes an access for.

## Key results

- `System.mailbox_of_access`, `System.mailbox_of_aside`: only accesses and the machine's own steps
  touch the mailbox
- `System.aside_step`: what others do leaves an interpreter at work where it is, unless it waits for
  the outside
- `System.phase_step_of_access`, `System.phase_step_of_going`: a call goes on by its own accesses,
  and only by them
-/

namespace Safepoint

variable {κ τ ρ : Type}

/-- Whether a machine has nothing left to do. -/
def Control.isFinished : Control κ τ ρ → Bool
  | .finished _ => true
  | _ => false

/-- What is left of the call that host code of the interpreter makes through a handle. -/
def Control.posting : Control κ τ ρ → HostPhase κ
  | .check _ c | .arrive _ c | .paused _ c => c.posting
  | .post phase => phase
  | _ => .finished (.ok .done)

/-- An interpreter, and what is left of the calls that host threads make through its handles. A
thread whose call is over may begin another. -/
structure System (κ τ ρ : Type) where
  machine : Machine κ τ ρ
  hosts : Nat → HostPhase κ
  isOpen : Bool

/-- What can happen to a system. -/
inductive Event (κ τ ρ : Type) where
  /-- A host thread begins a call. -/
  | call (thread : Nat) (call : HostCall κ)
  /-- A host thread makes the next access of its call. -/
  | host (thread : Nat)
  /-- The interpreter's own thread makes a step. -/
  | advance
  /-- The embedder sets the interpreter to work. -/
  | start (p : Program κ τ ρ) (given : List (Value κ))
  /-- The outside answers. -/
  | answer (r : ρ) (vs : List (Value κ))
  /-- Other interpreters have worked on the ground they share. -/
  | ground (g : Ground κ)
  /-- Syncpoints were armed, checked or resumed elsewhere. -/
  | syncpoints (points : Syncpoints)
  /-- The embedder drops the interpreter. -/
  | close

/-- Who makes a call through a handle: a host thread, or the interpreter's own thread. -/
inductive Caller where
  | host (thread : Nat)
  | own
deriving DecidableEq, Repr

namespace System

/-- An interpreter that was just opened, with all host threads idle. -/
def opening (m : Machine κ τ ρ) : System κ τ ρ :=
  { machine := m
    hosts := fun _ => .finished (.ok .done)
    isOpen := true }

/-- A host thread makes the next access of its call, and an observer is told. -/
def access (s : System κ τ ρ) (thread : Nat) : System κ τ ρ :=
  let (mailbox, phase, notices) := (s.hosts thread).step s.machine.mailbox
  { s with
    machine := notices.foldl Machine.note { s.machine with mailbox }
    hosts := Function.update s.hosts thread phase }

/-- What comes of an event. What cannot happen yet changes nothing. -/
def step (code : Meaning κ τ ρ) (s : System κ τ ρ) : Event κ τ ρ → System κ τ ρ
  | .call thread call =>
    if (s.hosts thread).ending?.isSome then
      { s with hosts := Function.update s.hosts thread (.reach call) }
    else s
  | .host thread => s.access thread
  | .advance => { s with machine := s.machine.step code }
  | .start p given =>
    if s.isOpen && s.machine.control.isFinished then
      { s with machine := s.machine.start p given }
    else s
  | .answer r vs => { s with machine := s.machine.answer r vs }
  | .ground g => { s with machine := s.machine.onGround g }
  | .syncpoints points => { s with machine := { s.machine with points } }
  | .close =>
    if s.isOpen && s.machine.control.isFinished then
      { s with machine := s.machine.close, isOpen := false }
    else s

/-- What is left of a caller's call. -/
def phase (s : System κ τ ρ) : Caller → HostPhase κ
  | .host thread => s.hosts thread
  | .own => s.machine.control.posting

/-- The access to the mailbox that an event makes for a call, by the caller and what was left of its
call. -/
def access? (s : System κ τ ρ) : Event κ τ ρ → Option (Caller × HostPhase κ)
  | .host thread =>
    if (s.hosts thread).ending? = none then some (.host thread, s.hosts thread) else none
  | .advance =>
    match s.machine.control with
    | .post phase => if phase.ending? = none then some (.own, phase) else none
    | _ => none
  | _ => none

/-- An interpreter that was opened with handles, and to which nothing has happened yet. -/
def Opened (s : System κ τ ρ) : Prop :=
  ∃ (g : Ground κ) (facilities : Instrumentations) (limits : Limits) (ground : Ground κ)
    (m : Machine κ τ ρ) (instruments : Instruments), facilities.interruption = true ∧
      Instruments.openWith g facilities limits = (ground, .ok (m, instruments)) ∧ s = opening m

end System

/-- A run of a system, from the opening of its interpreter on: one event after another, in any order
whatever. -/
structure Run (code : Meaning κ τ ρ) where
  state : Nat → System κ τ ρ
  event : Nat → Event κ τ ρ
  opened : (state 0).Opened
  next : ∀ n, state (n + 1) = (state n).step code (event n)

/-! ## Schedules -/

namespace System

/-- An interpreter that was just opened with every facility and the standard limits. -/
def fresh : System κ τ ρ :=
  .opening
    { interp := { Interpreter.initial 0 0 .standard with hookInstalled := true }
      mailbox := Mailbox.empty.keep
      points := .idle
      frames := []
      control := .finished (.ok [])
      ground := .empty }

/-- A system that was just opened has nobody calling. -/
theorem fresh_opened : (fresh : System κ τ ρ).Opened :=
  ⟨.empty, .all, .standard, _, _, _, rfl, rfl, rfl⟩

/-- What becomes of a system through the first events of a schedule. -/
def after (code : Meaning κ τ ρ) (s : System κ τ ρ) (event : Nat → Event κ τ ρ) :
    Nat → System κ τ ρ
  | 0 => s
  | n + 1 => (s.after code event n).step code (event n)

end System

/-- The run of a fresh interpreter through some events, after which its own thread goes on alone. -/
def Run.ofEvents (code : Meaning κ τ ρ) (events : List (Event κ τ ρ)) : Run code where
  state := System.fresh.after code fun n => events.getD n .advance
  event n := events.getD n .advance
  opened := System.fresh_opened
  next _ := rfl

/-- A script function that has no locals but its parameters. -/
def Prototype.ofCode (name : String) (params : Nat) (code : Array Instruction)
    (faultless : firstFault? params code.size 0 code.toList = none) : Prototype where
  name
  params
  locals := params
  code
  params_le := Nat.le_refl params
  faultless

/-- Host code of which every piece succeeds and does nothing else. -/
def idleCode : Meaning κ τ ρ := fun _ _ => .finish (.ok [])

/-- Host code that calls a native function. -/
def callNative (code : κ) : Program κ τ ρ :=
  .ask (.call (.fn (.native 0 "native" code)) []) fun _ => .finish (.ok [])

/-! ## Accesses -/

namespace Machine

/-- Whether it is stopped at a syncpoint or not, what comes after it stays the same. -/
theorem posting_checking (m : Machine κ τ ρ) (point : TestPoint) (phase : Syncpoint.Checking)
    (next : Control κ τ ρ) : (m.checking point phase next).control.posting = next.posting := by
  unfold checking
  dsimp only
  split <;> rfl

/-- A call of the interpreter's own host code rests while its thread is stopped at a syncpoint. -/
theorem posting_step (code : Meaning κ τ ρ) (m : Machine κ τ ρ)
    (hgoing : m.control.posting.ending? = none) (hpost : ∀ phase, m.control ≠ .post phase) :
    (m.step code).control.posting = m.control.posting := by
  -- only a check of a syncpoint may have a call waiting behind it
  cases hc : m.control
  case check point next => simp only [step, hc, posting_checking, Control.posting]
  case arrive point next => simp only [step, hc, posting_checking, Control.posting]
  case paused point next => simp only [step, hc, posting_checking, Control.posting]
  case post phase => exact absurd hc (hpost phase)
  -- nowhere else is a call in flight
  all_goals
    rw [hc] at hgoing
    exact absurd hgoing (by simp [Control.posting, HostPhase.ending?])

/-- A call of the interpreter's own host code goes on by one access. -/
theorem posting_post (m : Machine κ τ ρ) {phase : HostPhase κ} (hgoing : phase.ending? = none) :
    (m.post phase).control.posting = (phase.step m.mailbox).2.1 := by
  simp only [post, hgoing]
  split <;> rfl

/-- A call of host code makes the access of its phase. -/
theorem mailbox_post (m : Machine κ τ ρ) {phase : HostPhase κ} (hgoing : phase.ending? = none) :
    (m.post phase).mailbox = (phase.step m.mailbox).1 := by
  simp only [post, hgoing]
  obtain ⟨g, hg⟩ := notes_eq_onGround { m with mailbox := (phase.step m.mailbox).1 }
    (phase.step m.mailbox).2.2
  split <;> rw [hg] <;> rfl

/-- A call of host code is made without frames of its own. -/
theorem frames_post (m : Machine κ τ ρ) {phase : HostPhase κ} (hgoing : phase.ending? = none) :
    (m.post phase).frames = m.frames := by
  simp only [post, hgoing]
  obtain ⟨g, hg⟩ := notes_eq_onGround { m with mailbox := (phase.step m.mailbox).1 }
    (phase.step m.mailbox).2.2
  split <;> rw [hg] <;> rfl

end Machine

namespace System

variable {s : System κ τ ρ} {e : Event κ τ ρ} {c : Caller} {p : HostPhase κ}

/-- An access of a host thread changes the mailbox and its own call, and an observer is told. -/
theorem access_eq (s : System κ τ ρ) (thread : Nat) : ∃ g, s.access thread = { s with
    machine := { s.machine with
      mailbox := ((s.hosts thread).step s.machine.mailbox).1, ground := g }
    hosts := Function.update s.hosts thread ((s.hosts thread).step s.machine.mailbox).2.1 } := by
  obtain ⟨g, hg⟩ := Machine.notes_eq_onGround
    { s.machine with mailbox := ((s.hosts thread).step s.machine.mailbox).1 }
    ((s.hosts thread).step s.machine.mailbox).2.2
  refine ⟨g, ?_⟩
  simp only [access, hg]
  rfl

/-- An access is one of a call that is not over, by a host thread or by the interpreter. -/
theorem access?_eq_some (h : s.access? e = some (c, p)) :
    p.ending? = none ∧
      ((∃ t, e = .host t ∧ c = .host t ∧ p = s.hosts t) ∨
        (e = .advance ∧ c = .own ∧ s.machine.control = .post p)) := by
  cases e with
  -- a thread makes an access when it is its turn and its call is not over
  | host t =>
    simp only [access?] at h
    split at h
    next hgoing =>
      obtain ⟨rfl, rfl⟩ : Caller.host t = c ∧ s.hosts t = p := by simpa using h
      exact ⟨hgoing, .inl ⟨t, rfl, rfl, rfl⟩⟩
    next => simp at h
  -- and host code does when its interpreter goes on
  | advance =>
    simp only [access?] at h
    split at h
    next phase hc =>
      split at h
      next hgoing =>
        obtain ⟨rfl, rfl⟩ : Caller.own = c ∧ phase = p := by simpa using h
        exact ⟨hgoing, .inr ⟨rfl, rfl, hc⟩⟩
      next => simp at h
    next => simp at h
  | _ => simp [access?] at h

/-- An access is made by the caller that is in that phase. -/
theorem phase_of_access (h : s.access? e = some (c, p)) : s.phase c = p := by
  obtain ⟨_, ⟨t, _, rfl, rfl⟩ | ⟨_, rfl, hc⟩⟩ := access?_eq_some h
  · rfl
  · simp [phase, hc, Control.posting]

/-- An access does to the mailbox what it stands for. -/
theorem mailbox_of_access (code : Meaning κ τ ρ) (h : s.access? e = some (c, p)) :
    (s.step code e).machine.mailbox = (p.step s.machine.mailbox).1 := by
  obtain ⟨hgoing, ⟨t, rfl, rfl, rfl⟩ | ⟨rfl, rfl, hc⟩⟩ := access?_eq_some h
  · obtain ⟨g, hg⟩ := s.access_eq t
    simp [step, hg]
  · simp only [step, Machine.step, hc]
    exact Machine.mailbox_post _ hgoing

/-- An access finds the interpreter's own thread making it, or leaves that thread where it was. -/
theorem machine_of_access (code : Meaning κ τ ρ) (h : s.access? e = some (c, p)) :
    (s.step code e).machine.frames = s.machine.frames ∧
      (s.machine.control = .post p ∨ (s.step code e).machine.control = s.machine.control) := by
  obtain ⟨hgoing, ⟨t, rfl, rfl, rfl⟩ | ⟨rfl, rfl, hc⟩⟩ := access?_eq_some h
  · obtain ⟨g, hg⟩ := s.access_eq t
    simp [step, hg]
  · simp only [step, Machine.step, hc]
    exact ⟨Machine.frames_post _ hgoing, .inl trivial⟩

/-- Apart from accesses and the machine's own steps, nothing touches the mailbox, save that a
dropped interpreter keeps it no longer. -/
theorem mailbox_of_aside (code : Meaning κ τ ρ) (h : s.access? e = none) (he : e ≠ .advance) :
    ∃ keepers, (s.step code e).machine.mailbox = { s.machine.mailbox with keepers } := by
  cases e with
  | advance => exact absurd rfl he
  | host t =>
    -- the thread has no call in flight, and makes no access
    have hended : (s.hosts t).ending? ≠ none := by simpa [access?] using h
    obtain ⟨g, hg⟩ := s.access_eq t
    refine ⟨s.machine.mailbox.keepers, ?_⟩
    cases hp : s.hosts t <;> simp_all [step, HostPhase.ending?, HostPhase.step]
  | call t call =>
    refine ⟨s.machine.mailbox.keepers, ?_⟩
    simp only [step]
    split <;> rfl
  | start p given =>
    refine ⟨s.machine.mailbox.keepers, ?_⟩
    simp only [step]
    split <;> rfl
  | answer r vs =>
    refine ⟨s.machine.mailbox.keepers, ?_⟩
    simp only [step, Machine.answer]
    split <;> rfl
  | ground g => exact ⟨s.machine.mailbox.keepers, rfl⟩
  | syncpoints points => exact ⟨s.machine.mailbox.keepers, rfl⟩
  | close =>
    simp only [step]
    split
    · -- only its mailbox knows that an interpreter was dropped
      simp only [Machine.close]
      split
      · exact ⟨s.machine.mailbox.keepers - 1, rfl⟩
      · exact ⟨s.machine.mailbox.keepers, rfl⟩
    · exact ⟨s.machine.mailbox.keepers, rfl⟩

/-- No other thread marks a drain pass. -/
theorem draining_of_aside (code : Meaning κ τ ρ) (he : e ≠ .advance) :
    (s.step code e).machine.mailbox.draining = s.machine.mailbox.draining := by
  -- either somebody made an access, which no call makes at the mark, or only the keepers changed
  cases hacc : s.access? e with
  | some cp =>
    obtain ⟨c, p⟩ := cp
    rw [mailbox_of_access code hacc]
    exact HostPhase.draining_step _ p
  | none =>
    obtain ⟨keepers, hk⟩ := mailbox_of_aside code hacc he
    rw [hk]

/-! ## What others do to an interpreter -/

/-- What becomes of an interpreter by an event that is no step of its own thread. -/
inductive Aside (s s' : System κ τ ρ) : Prop where
  | rested (control : s'.machine.control = s.machine.control)
      (frames : s'.machine.frames = s.machine.frames)
      (interp : s'.machine.interp = s.machine.interp) (isOpen : s'.isOpen = s.isOpen)
  /-- The outside has answered. -/
  | answered (waiting : ∃ x given held next, s.machine.control = .waiting x given held next)
      (control : ∃ held p, s'.machine.control = .run held p)
      (frames : s'.machine.frames = s.machine.frames)
      (interp : s'.machine.interp = s.machine.interp) (isOpen : s'.isOpen = s.isOpen)
  /-- The embedder has set it to work. -/
  | started (idle : s.isOpen = true ∧ s.machine.control.isFinished = true)
      (control : ∃ held p, s'.machine.control = .run held p) (frames : s'.machine.frames = [])
      (interp : s'.machine.interp = s.machine.interp) (isOpen : s'.isOpen = s.isOpen)
  /-- The embedder has dropped it. -/
  | dropped (idle : s.isOpen = true ∧ s.machine.control.isFinished = true)
      (control : s'.machine.control = s.machine.control)
      (frames : s'.machine.frames = s.machine.frames)
      (depth : s'.machine.interp.depth = s.machine.interp.depth) (isOpen : s'.isOpen = false)

/-- Whatever else happens leaves the machine alone, gives it work or an answer, or drops it. -/
theorem aside_step (code : Meaning κ τ ρ) (he : e ≠ .advance) : s.Aside (s.step code e) := by
  -- by the event; what does not apply to the state it finds leaves everything at rest
  cases e with
  | advance => exact absurd rfl he
  | host t =>
    obtain ⟨g, hg⟩ := s.access_eq t
    simp only [step, hg]
    exact .rested rfl rfl rfl rfl
  | call t call =>
    simp only [step]
    split <;> exact .rested rfl rfl rfl rfl
  | start p given =>
    simp only [step]
    split
    next hidle => exact .started (by simpa using hidle) ⟨_, p, rfl⟩ rfl rfl rfl
    next => exact .rested rfl rfl rfl rfl
  | answer r vs =>
    simp only [step, Machine.answer]
    split
    next hc => exact .answered ⟨_, _, _, _, hc⟩ ⟨_, _, rfl⟩ rfl rfl rfl
    next => exact .rested rfl rfl rfl rfl
  | ground g => exact .rested rfl rfl rfl rfl
  | syncpoints points => exact .rested rfl rfl rfl rfl
  | close =>
    simp only [step]
    split
    next hidle =>
      simp only [Machine.close]
      split <;> exact .dropped (by simpa using hidle) rfl rfl rfl rfl
    next => exact .rested rfl rfl rfl rfl

/-- What others do leaves an interpreter at work where it is, unless it waits for the outside. -/
theorem Aside.of_working {s s' : System κ τ ρ} (h : s.Aside s')
    (hfin : s.machine.control.isFinished = false)
    (hwait : ∀ x given held next, s.machine.control ≠ .waiting x given held next) :
    s'.machine.control = s.machine.control ∧ s'.machine.frames = s.machine.frames ∧
      s'.machine.interp = s.machine.interp := by
  cases h with
  | rested hcontrol hframes hinterp => exact ⟨hcontrol, hframes, hinterp⟩
  | answered hwaiting =>
    -- the machine has work, so it is not waiting, and cannot be given any
    obtain ⟨x, given, held, next, hc⟩ := hwaiting
    exact absurd hc (hwait x given held next)
  | started hidle | dropped hidle => simp [hidle.2] at hfin

/-- What others do sets an interpreter to run host code, or leaves what it is about to do. -/
theorem Aside.control_eq {s s' : System κ τ ρ} (h : s.Aside s') :
    s'.machine.control = s.machine.control ∨ ∃ held p, s'.machine.control = .run held p := by
  cases h with
  | rested hcontrol | dropped _ hcontrol => exact .inl hcontrol
  | answered _ hruns | started _ hruns => exact .inr hruns

/-! ## Calls in flight -/

/-- An access takes the call that it is made for one further. -/
theorem phase_step_of_access (code : Meaning κ τ ρ) (h : s.access? e = some (c, p)) :
    (s.step code e).phase c = (p.step s.machine.mailbox).2.1 := by
  obtain ⟨hgoing, ⟨t, rfl, rfl, rfl⟩ | ⟨rfl, rfl, hc⟩⟩ := access?_eq_some h
  · obtain ⟨g, hg⟩ := s.access_eq t
    simp [step, hg, phase]
  · simp only [step, Machine.step, hc, phase]
    exact Machine.posting_post _ hgoing

/-- What the interpreter's own host code has in flight, the embedder and the outside wait for. -/
private theorem posting_of_going (hgoing : (s.phase .own).ending? = none) :
    s.machine.control.isFinished = false ∧ ∀ r vs, s.machine.answer r vs = s.machine := by
  simp only [phase] at hgoing
  cases hc : s.machine.control <;>
    simp_all [Control.posting, HostPhase.ending?, Control.isFinished, Machine.answer]

/-- A call in flight rests until an access is made for it. -/
theorem phase_step_of_going (code : Meaning κ τ ρ) (hgoing : (s.phase c).ending? = none)
    (h : ∀ p, s.access? e ≠ some (c, p)) : (s.step code e).phase c = s.phase c := by
  cases c with
  | host t =>
    cases e with
    | call t' call =>
      simp only [step]
      split
      next hended =>
        -- a thread makes no other call while it has one in flight
        have hne : t ≠ t' := by
          rintro rfl
          simp only [phase] at hgoing
          simp [hgoing] at hended
        simp [phase, Function.update_of_ne hne]
      next => rfl
    | host t' =>
      obtain ⟨g, hg⟩ := s.access_eq t'
      simp only [step, hg, phase]
      -- the access is not one of this thread
      have hne : t ≠ t' := by
        rintro rfl
        simp only [phase] at hgoing
        exact h (s.hosts t) (by simp [access?, hgoing])
      exact Function.update_of_ne hne _ _
    | _ =>
      simp only [step]
      first
        | rfl
        | (split <;> rfl)
  -- host code's own call is told by what the machine does next
  | own =>
    obtain ⟨hfin, hanswer⟩ := posting_of_going hgoing
    cases e with
    | advance =>
      apply Machine.posting_step code _ hgoing
      -- if the machine is in that phase, it would be its access
      intro phase' hc
      apply h phase'
      have hgoing : phase'.ending? = none := by simpa [phase, hc, Control.posting] using hgoing
      simp [access?, hc, hgoing]
    | host t =>
      obtain ⟨g, hg⟩ := s.access_eq t
      simp only [step, hg, phase]
    | call t call =>
      simp only [step]
      split <;> rfl
    | answer r vs => simp only [step, hanswer]
    | start p given => simp [step, hfin]
    | close => simp [step, hfin]
    | ground g => rfl
    | syncpoints points => rfl

end System

end Safepoint
