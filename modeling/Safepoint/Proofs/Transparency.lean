import Safepoint.Proofs.Reentry
import Safepoint.Proofs.Transparency.Machine

/-!
# Instruments are not noticed

An instrumented interpreter runs beside a plain one that was opened with the same limits and is
given the same work. Hosts interject actions that ask nothing of the interpreter, and withdraw what
they cancel before a safepoint reads it. Then nothing that a script can observe tells the two apart:
outside of the safepoint handler they are about to do the same, with the same frames and the same
state, and while the instrumented one is in the handler of a safepoint, the plain one has just
passed it.

The steps of the plain interpreter are those of the instrumented one outside of its handler, so
`Life.shared n` of them have been made when the instrumented interpreter has come to step `n`.

## Key results

- `Machine.Follows`: how an instrumented machine stands beside a plain one
- `Life.exists_beside`: there is a plain interpreter beside each instrumented one
- `Life.follows`: an instrumented interpreter follows a plain one all its life
- `Life.instrumentation_transparent`: what comes of it
-/

namespace Safepoint

variable {κ τ ρ : Type}

/-- An event without the instruments of what it is about. -/
def Event.bare : Event κ τ ρ → Event κ τ ρ
  | .ground g => .ground g.bare
  | e => e

/-- What an event loses without instruments is lost once. -/
theorem Event.bare_bare (e : Event κ τ ρ) : e.bare.bare = e.bare := by
  cases e with
  | ground g => simp only [Event.bare, Ground.bare, Store.bare_bare]
  | _ => rfl

/-- Host code that ends well, or reaches outside with empty hands. -/
def Program.Inert : Program κ τ ρ → Prop
  | .finish (.ok []) => True
  | .outside _ [] _ => True
  | _ => False

/-! ## Outside of the handler -/

namespace Machine

variable {m m' q : Machine κ τ ρ} {code : Meaning κ τ ρ}

/-- Whether a safepoint of the machine is in its handler. -/
def inHandler (m : Machine κ τ ρ) : Bool :=
  m.frames.any Frame.isDispatch

/-- A machine is in the handler if a safepoint waits for it. -/
theorem inHandler_eq_true : m.inHandler = true ↔ .dispatch ∈ m.frames := by
  simp [inHandler, Frame.isDispatch_iff]

/-- A machine is outside the handler if no safepoint waits for it. -/
theorem inHandler_eq_false : m.inHandler = false ↔ .dispatch ∉ m.frames := by
  rw [← inHandler_eq_true, Bool.not_eq_true]

/-- Outside of the handler, no frame on top is the handler's. -/
private theorem ordinary_of_outside (hfit : m.Fitting) (hout : .dispatch ∉ m.frames) :
    ∀ f rest, m.frames = f :: rest → f.isOrdinary = true := by
  intro f rest hf
  rw [hf] at hout
  match f with
  | .dispatch => exact absurd List.mem_cons_self hout
  | .pass (.mailbox event) ran =>
    -- a pass is a part of the handler
    obtain ⟨below, rfl⟩ := (hfit.waits_below hf).of_handler
    exact absurd (List.mem_cons_of_mem _ List.mem_cons_self) hout
  | .pass (.queue _) _ | .call _ | .script .. | .host .. | .boundary .. => rfl

/-- Own work leaves the mailbox alone and enters no safepoint. -/
private theorem Alone.step (code : Meaning κ τ ρ) (h : m.Alone) (hm : m.Steady)
    (hout : .dispatch ∉ m.frames) :
    (m.step code).mailbox = m.mailbox ∧ .dispatch ∉ (m.step code).frames := by
  have hown := h.own
  have hmove := move_step code m hm.counting
  generalize hm' : m.step code = m' at hmove ⊢
  cases hmove with
  | works hw =>
    -- ordinary work pushes ordinary frames, and no safepoint is one
    obtain ⟨popped, pushed, rest, -, hpushed, hfrom, hto⟩ := hw.frames
    refine ⟨hw.mailbox, ?_⟩
    rw [hto, List.mem_append]
    rintro (hmem | hmem)
    · exact absurd (hpushed _ hmem) Bool.false_ne_true
    · exact hout (by rw [hfrom]; exact List.mem_append_right _ hmem)
  | synced hat =>
    cases hc : m.control <;> simp_all [Control.atSyncpoint, Control.isOwn]
  | @dispatched _ event hc _ _ _ _ _ _ hframes =>
    -- a safepoint that is entered does not pass
    simp only [Machine.step, hc, h.passes event hc] at hm'
    subst hm'
    have hlen := congrArg List.length hframes
    simp [proceed, goto] at hlen
  | ended _ hf => exact absurd (h.ordinary _ _ hf) Bool.false_ne_true
  | returned _ hf => exact absurd (h.ordinary _ _ hf) Bool.false_ne_true
  | rested => exact ⟨rfl, hout⟩
  -- all these are at a safepoint that was entered, or at a call through a handle
  | posted hc | entered hc | flagRead hc | raised hc | lowered hc | disarmed hc | acquired hc
  | reentered hc | popped hc | drained hc | succeeded hc | failed hc | measured hc | emptied hc
  | rearmed hc | told hc | unmarked hc =>
    -- the handler and the calls through a handle are not the machine's own work
    rw [hc] at hown
    exact absurd hown Bool.false_ne_true

/-! ## Inside of the handler -/

/-- Whether the handler has found nothing amiss so far. -/
private def isIdle : Control κ τ ρ → Bool
  | .handle .. | .drain (.mailbox _) _ | .settle (.mailbox _) _ (.ok _) => true
  | .unmark (.ok []) | .deliver (.ok []) => true
  | .check _ c | .arrive _ c | .paused _ c => isIdle c
  | _ => false

/-- An action has done nothing to the interpreter so far, and holds nothing. -/
inductive Inert : Control κ τ ρ → Prop where
  | runs (p : Program κ τ ρ) : Inert (.run [] p)
  | waits (x : τ) (next : ρ → List (Value κ) → Program κ τ ρ) : Inert (.waiting x [] [] next)
  | ended : Inert (.deliver (.ok []))

/-- A safepoint above the frames `rest` is in its handler, and nothing has come of it yet. -/
inductive Idles (rest : List (Frame κ τ ρ)) (m : Machine κ τ ρ) : Prop where
  | handling (frames : m.frames = .dispatch :: rest) (control : isIdle m.control = true)
  | acting {event ran} (frames : m.frames = .pass (.mailbox event) ran :: .dispatch :: rest)
      (control : Inert m.control)

/-- What a machine will be when a safepoint above the frames `rest` has passed. -/
def passed (m : Machine κ τ ρ) (rest : List (Frame κ τ ρ)) : Machine κ τ ρ :=
  { m with frames := rest, control := .deliver (.ok []) }

variable {rest : List (Frame κ τ ρ)}

/-- An idle handler is one that a safepoint waits for. -/
theorem Idles.inHandler (h : m.Idles rest) : .dispatch ∈ m.frames := by
  cases h with
  | handling hf => simp [hf]
  | acting hf => simp [hf]

/-- No safepoint below the one in the handler has entered it. -/
theorem Idles.rest_outside (h : m.Idles rest) (hm : m.Steady) : .dispatch ∉ rest := by
  -- what is below the safepoint has the hook in its slot, so no other safepoint waits there
  have hlaid := hm.laid
  cases h with
  | handling hf =>
    rw [hf] at hlaid
    exact hlaid.2.no_dispatch rfl
  | acting hf =>
    rw [hf] at hlaid
    exact hlaid.2.2.no_dispatch rfl

/-- An interpreter in its handler has something left to do. -/
theorem Idles.not_finished (h : m.Idles rest) : m.control.isFinished = false := by
  cases h with
  | handling _ hc => cases hcontrol : m.control <;> simp_all [isIdle, Control.isFinished]
  | acting _ hc =>
    generalize m.control = c at hc
    cases hc <;> rfl

/-- What has become of a machine in its handler: it is still in it, or the safepoint has passed. -/
structure StillIdle (rest : List (Frame κ τ ρ)) (m m' : Machine κ τ ρ) : Prop where
  stands : m'.Idles rest ∨ m'.frames = rest ∧ m'.control = .deliver (.ok [])
  same : (m'.passed rest).bare = (m.passed rest).bare

/-- An idle handler at a syncpoint stays idle. -/
private theorem stillIdle_checking (hf : m.frames = .dispatch :: rest) (point : TestPoint)
    (phase : Syncpoint.Checking) {next : Control κ τ ρ} (hnext : isIdle next = true) :
    StillIdle rest m (m.checking point phase next) := by
  unfold checking
  dsimp only
  split
  all_goals exact ⟨.inl (.handling hf hnext), rfl⟩

/-- The handler itself goes on idly, as long as it finds no cancellation. -/
private theorem handling_step (code : Meaning κ τ ρ) (hm : m.Steady)
    (hf : m.frames = .dispatch :: rest) (hidle : isIdle m.control = true)
    (hreverted : ∀ info, m.control = .handle .readMessage info → m.mailbox.cancelMessage = none) :
    StillIdle rest m (m.step code) := by
  cases hc : m.control <;> simp only [step, hc]
  case handle phase info =>
    cases phase with
    | enter | readFlag | disarm => exact ⟨.inl (.handling hf rfl), rfl⟩
    | readMessage =>
      simp only [handle, Mailbox.readMessage_of_none (hreverted info hc)]
      exact ⟨.inl (.handling hf rfl), rfl⟩
    | acquire =>
      simp only [handle, hm.unmarked_of_acquiring hc]
      exact ⟨.inl (.handling hf rfl), rfl⟩
  case drain source ran =>
    cases source with
    | queue id => exact absurd hidle (by rw [hc]; exact Bool.false_ne_true)
    | mailbox event =>
      simp only [drain]
      split
      · -- an action that does nothing is run
        exact ⟨.inl (.acting (by rw [← hf]; rfl) (.runs _)), rfl⟩
      · exact ⟨.inl (.handling hf rfl), rfl⟩
  case settle source ran outcome =>
    cases source with
    | queue id => exact absurd hidle (by rw [hc]; exact Bool.false_ne_true)
    | mailbox event =>
      cases outcome with
      | ok results => exact ⟨.inl (.handling hf rfl), rfl⟩
      | error e => exact absurd hidle (by rw [hc]; exact Bool.false_ne_true)
  -- only a pass without results or an error leaves the handler idle
  case unmark outcome =>
    rcases outcome with e | (_ | ⟨v, vs⟩)
    · exact absurd hidle (by rw [hc]; exact Bool.false_ne_true)
    · exact ⟨.inl (.handling hf rfl), rfl⟩
    · exact absurd hidle (by rw [hc]; exact Bool.false_ne_true)
  case deliver outcome =>
    rcases outcome with e | (_ | ⟨v, vs⟩)
    · exact absurd hidle (by rw [hc]; exact Bool.false_ne_true)
    · -- the safepoint has passed, and the hook is in its slot again
      simp only [deliver, hf]
      exact ⟨.inr ⟨rfl, rfl⟩, rfl⟩
    · exact absurd hidle (by rw [hc]; exact Bool.false_ne_true)
  case check point next | arrive point next | paused point next =>
    rw [hc] at hidle
    exact stillIdle_checking hf point _ hidle
  -- nothing else is the handler's
  all_goals exact absurd hidle (by rw [hc]; simp [isIdle])

/-- An action that does nothing to the interpreter goes on so, and ends well. -/
private theorem acting_step (code : Meaning κ τ ρ) {event : HookEvent} {ran : Nat}
    (hf : m.frames = .pass (.mailbox event) ran :: .dispatch :: rest)
    (hidle : Inert m.control) (hinert : ∀ held p, m.control = .run held p → p.Inert) :
    StillIdle rest m (m.step code) := by
  generalize hc : m.control = c at hidle hinert
  cases hidle with
  | runs p =>
    have hp := hinert [] p rfl
    simp only [step, hc]
    rcases p with (e | (_ | ⟨v, vs⟩)) | ⟨q, next⟩ | ⟨x, _ | ⟨v, vs⟩, next⟩
    case finish.ok.nil => exact ⟨.inl (.acting hf .ended), rfl⟩
    case outside.nil => exact ⟨.inl (.acting hf (.waits x next)), rfl⟩
    -- no other program is inert
    all_goals exact hp.elim
  | waits x next =>
    simp only [step, hc]
    exact ⟨.inl (.acting hf (by rw [hc]; exact .waits x next)), rfl⟩
  | ended =>
    simp only [step, hc, deliver, hf]
    exact ⟨.inl (.handling rfl rfl), rfl⟩

/-- An idle handler stays idle, or hands nothing over to its safepoint. -/
theorem Idles.step (code : Meaning κ τ ρ) (h : m.Idles rest) (hm : m.Steady)
    (hinert : ∀ held p, m.control = .run held p → p.Inert)
    (hreverted : ∀ info, m.control = .handle .readMessage info → m.mailbox.cancelMessage = none) :
    StillIdle rest m (m.step code) := by
  cases h with
  | handling hf hidle => exact handling_step code hm hf hidle hreverted
  | acting hf hidle => exact acting_step code hf hidle hinert

/-! ## Side by side -/

/-- How an instrumented machine `m` and a plain one stand to one another: outside of the handler
they are the same but for the instruments, and inside the plain one has passed the safepoint
already. -/
inductive Follows (m q : Machine κ τ ρ) : Prop where
  | outside (out : .dispatch ∉ m.frames) (own : m.control.isOwn = true) (same : q.bare = m.bare)
  | inside {rest : List (Frame κ τ ρ)} (idles : m.Idles rest)
      (same : q.bare = (m.passed rest).bare)

/-- What machines that are the same but for the instruments are about to do is the same. -/
private theorem control_of_bare (h : m'.bare = m.bare) : m'.control = m.control := by
  have hcontrol := congrArg Machine.control h
  exact hcontrol

/-- Machines that are the same without their instruments have the same frames. -/
private theorem frames_of_bare (h : m'.bare = m.bare) : m'.frames = m.frames := by
  have hframes := congrArg Machine.frames h
  exact hframes

/-- What only the instruments can see makes no difference. -/
theorem Follows.congr (h : m.Follows q) (hsame : m'.bare = m.bare) : m'.Follows q := by
  have hframes := frames_of_bare hsame
  have hcontrol := control_of_bare hsame
  -- the plain machine is where the instrumented one is, or behind the safepoint that it is in
  cases h with
  | outside hout hown hq =>
    exact .outside (by rw [hframes]; exact hout) (by rw [hcontrol]; exact hown)
      (hq.trans hsame.symm)
  | @inside rest hidles hq =>
    have hpassed : (m'.passed rest).bare = (m.passed rest).bare :=
      congrArg (fun m => m.passed rest) hsame
    have hstands : m'.Idles rest := by
      cases hidles with
      | handling hf hc => exact .handling (hframes.trans hf) (by rw [hcontrol]; exact hc)
      | acting hf hc => exact .acting (hframes.trans hf) (by rw [hcontrol]; exact hc)
    exact .inside hstands (hq.trans hpassed.symm)

/-- In the handler, the instrumented machine makes a step, and the plain one rests. -/
theorem Follows.step_inside (code : Meaning κ τ ρ) (h : m.Follows q) (hm : m.Steady)
    (hin : .dispatch ∈ m.frames)
    (hinert : ∀ held p, m.control = .run held p → p.Inert)
    (hreverted : ∀ info, m.control = .handle .readMessage info → m.mailbox.cancelMessage = none) :
    (m.step code).Follows q := by
  cases h with
  | outside hout => exact absurd hin hout
  | @inside rest hidles hq =>
    obtain ⟨hstands | ⟨hf, hc⟩, hsame⟩ := hidles.step code hm hinert hreverted
    · exact .inside hstands (hq.trans hsame.symm)
    · -- the safepoint has passed, and both are at the same place
      have hpassed : (m.step code).passed rest = m.step code := by
        rw [passed, ← hf, ← hc]
      rw [← hsame, hpassed] at hq
      exact .outside (by rw [hf]; exact hidles.rest_outside hm) (by rw [hc]; rfl) hq

/-- A poll passes where nothing is armed. -/
private theorem poll_of_unarmed (hmask : m.mailbox.slot.mask = .empty) (event : HookEvent) :
    m.poll event = m.proceed := by
  simp [poll, hmask]

/-- Outside of the handler, both make a step, at which the instrumented one may enter it. -/
theorem Follows.step_outside (code : Meaning κ τ ρ) (h : m.Follows q) (hm : m.Steady)
    (hq : q.Steady) (hunarmed : q.mailbox.slot.mask = .empty) (hout : .dispatch ∉ m.frames)
    (hunaware : ∀ held query next, m.control = .run held (.ask query next) → query.Unaware next) :
    (m.step code).Follows (q.step code) ∧ (q.step code).mailbox = q.mailbox := by
  cases h with
  | inside hidles => exact absurd hidles.inHandler hout
  | outside _ hown hsame =>
    have hframes := frames_of_bare hsame
    have hcontrol := control_of_bare hsame
    have hplain : q.Alone := {
      own := by rw [hcontrol]; exact hown
      ordinary := by rw [hframes]; exact ordinary_of_outside hm.fitting hout
      passes := fun event _ => poll_of_unarmed hunarmed event
      unaware := by rw [hcontrol]; exact hunaware }
    have hrests := (hplain.step code hq (by rw [hframes]; exact hout)).1
    refine ⟨?_, hrests⟩
    by_cases hpasses : ∀ event, m.control = .poll event → m.poll event = m.proceed
    · have halone : m.Alone :=
        ⟨hown, ordinary_of_outside hm.fitting hout, hpasses, hunaware⟩
      -- the step descends to the bare machines, and those are the same
      refine .outside (halone.step code hm hout).2 (isOwn_step code halone) ?_
      calc (q.step code).bare = (q.bare.step code).bare := bare_step code hplain
        _ = (m.bare.step code).bare := by rw [hsame]
        _ = (m.step code).bare := (bare_step code halone).symm
    · -- the hook is armed, and may be entered
      obtain ⟨event, hc, hnot⟩ : ∃ event, m.control = .poll event ∧ m.poll event ≠ m.proceed := by
        simpa using hpasses
      obtain hproceeds | ⟨-, henters⟩ := poll_cases hm.counting event
      · exact absurd hproceeds hnot
      · have hmstep : m.step code = m.entering event := by simp only [step, hc, henters]
        have hqstep : q.step code = q.proceed := by
          simp only [step, hcontrol, hc]
          exact poll_of_unarmed hunarmed event
        rw [hmstep, hqstep]
        have hproceed : q.proceed.bare = m.proceed.bare := congrArg Machine.proceed hsame
        exact .inside (.handling rfl rfl) hproceed

/-- But for the instruments, both have the same state. -/
theorem Follows.state_eq (h : m.Follows q) :
    q.interp.bare = m.interp.bare ∧ q.ground.bare = m.ground.bare := by
  cases h with
  | outside _ _ hsame | inside _ hsame =>
    exact ⟨congrArg Machine.interp hsame, congrArg Machine.ground hsame⟩

/-- Outside of the handler, both are about to do the same. -/
theorem Follows.work_eq (h : m.Follows q) (hout : .dispatch ∉ m.frames) :
    q.control = m.control ∧ q.frames = m.frames := by
  cases h with
  | outside _ _ hsame => exact ⟨control_of_bare hsame, frames_of_bare hsame⟩
  | inside hidles => exact absurd hidles.inHandler hout

/-- A machine beside a plain one is finished when that is, and with the same outcome. -/
theorem Follows.finished_iff (h : m.Follows q) (outcome : Outcome κ) :
    m.control = .finished outcome ↔ q.control = .finished outcome := by
  cases h with
  | outside _ _ hsame =>
    -- outside of the handler both are at the same work
    rw [control_of_bare hsame]
  | @inside rest hidles hsame =>
    have hcontrol : q.control = .deliver (.ok []) := control_of_bare hsame
    constructor
    -- in the handler, neither has finished
    · intro hfin
      have hnot := hidles.not_finished
      rw [hfin] at hnot
      exact nomatch hnot
    · intro hfin
      rw [hcontrol] at hfin
      exact nomatch hfin

/-! ## What others do -/

/-- Both are given the same ground, but for its instruments. -/
theorem Follows.onGround (h : m.Follows q) {g g' : Ground κ} (hg : g'.bare = g.bare) :
    (m.onGround g).Follows (q.onGround g') := by
  -- by where the instrumented one is: outside of its handler, or inside
  cases h with
  | outside hout hown hsame =>
    refine .outside hout hown ?_
    calc (q.onGround g').bare = q.bare.onGround g'.bare := rfl
      _ = m.bare.onGround g.bare := by rw [hsame, hg]
  | @inside rest hidles hsame =>
    have hstands : (m.onGround g).Idles rest := by
      cases hidles with
      | handling hf hc => exact .handling hf hc
      | acting hf hc => exact .acting hf hc
    refine .inside hstands ?_
    calc (q.onGround g').bare = q.bare.onGround g'.bare := rfl
      _ = (m.passed rest).bare.onGround g.bare := by rw [hsame, hg]

/-- An action that waits with empty hands is answered, and nothing else in the handler is. -/
private theorem Idles.answer (h : m.Idles rest) (r : ρ) :
    (m.answer r []).Idles rest ∧ (m.answer r []).passed rest = m.passed rest := by
  cases h with
  | handling hf hidle =>
    have hsame : m.answer r [] = m := by
      -- the handler's own work waits for no answer
      simp only [Machine.answer]
      split
      next hc => exact absurd hidle (by rw [hc]; exact Bool.false_ne_true)
      next => rfl
    rw [hsame]
    exact ⟨.handling hf hidle, rfl⟩
  | acting hf hidle =>
    generalize hc : m.control = c at hidle
    simp only [Machine.answer, hc]
    cases hidle with
    | runs p => exact ⟨.acting hf (by rw [hc]; exact .runs p), rfl⟩
    | waits x next => exact ⟨.acting hf (.runs (next r [])), rfl⟩
    | ended => exact ⟨.acting hf (by rw [hc]; exact .ended), rfl⟩

/-- The outside answers both; in the handler it answers an action, with empty hands. -/
theorem Follows.answer (h : m.Follows q) (r : ρ) {vs : List (Value κ)}
    (hempty : .dispatch ∈ m.frames → vs = []) : (m.answer r vs).Follows (q.answer r vs) := by
  -- outside of the handler both are answered, or neither waits
  cases h with
  | outside hout hown hsame =>
    have hq : (q.answer r vs).bare = (m.answer r vs).bare := by
      have answered (m : Machine κ τ ρ) : (m.answer r vs).bare = m.bare.answer r vs := by
        have hcontrol : m.bare.control = m.control := rfl
        simp only [Machine.answer, hcontrol]
        split <;> rfl
      rw [answered, answered, hsame]
    have hstands : (m.answer r vs).frames = m.frames ∧ (m.answer r vs).control.isOwn = true := by
      simp only [Machine.answer]
      split
      · exact ⟨rfl, rfl⟩
      · exact ⟨rfl, hown⟩
    exact .outside (by rw [hstands.1]; exact hout) hstands.2 hq
  | @inside rest hidles hsame =>
    have hcontrol : q.control = .deliver (.ok []) := control_of_bare hsame
    -- in the handler the plain machine does not wait, and rests
    have hrests : q.answer r vs = q := by simp only [Machine.answer, hcontrol]
    obtain ⟨hstands, hpassed⟩ := hidles.answer r
    rw [hrests, hempty hidles.inHandler]
    exact .inside hstands (by rw [hpassed]; exact hsame)

/-- Both are set to work, where the one is idle. -/
theorem Follows.start (h : m.Follows q) (hidle : m.control.isFinished = true) (p : Program κ τ ρ)
    (given : List (Value κ)) : (m.start p given).Follows (q.start p given) := by
  cases h with
  | outside _ _ hsame =>
    refine .outside List.not_mem_nil rfl ?_
    calc (q.start p given).bare = q.bare.start p given := rfl
      _ = m.bare.start p given := by rw [hsame]
  | inside hidles => exact absurd (hidles.not_finished.symm.trans hidle) Bool.false_ne_true

/-- Both are dropped, where the one is idle. -/
theorem Follows.close (h : m.Follows q) (hidle : m.control.isFinished = true) :
    m.close.Follows q.close := by
  cases h with
  -- what is dropped is outside of the handler, since it is idle
  | outside hout hown hsame =>
    have hstands : m.close.frames = m.frames ∧ m.close.control = m.control := by
      simp only [Machine.close]
      split <;> exact ⟨rfl, rfl⟩
    refine .outside (by rw [hstands.1]; exact hout) (by rw [hstands.2]; exact hown) ?_
    rw [bare_close, bare_close, hsame]
  | inside hidles => exact absurd (hidles.not_finished.symm.trans hidle) Bool.false_ne_true

/-- Both are idle at the same time. -/
theorem Follows.isFinished_eq (h : m.Follows q) :
    q.control.isFinished = m.control.isFinished := by
  cases h with
  | outside _ _ hsame => rw [control_of_bare hsame]
  | @inside rest hidles hsame =>
    have hcontrol : q.control = .deliver (.ok []) := control_of_bare hsame
    rw [hidles.not_finished, hcontrol]
    rfl

/-- What is told to observers is not seen without them. -/
theorem bare_notes (m : Machine κ τ ρ) (notices : List Notice) :
    (notices.foldl note m).bare = m.bare := by
  induction notices generalizing m with
  | nil => rfl
  | cons n rest ih => exact ih (m.note n)

end Machine

/-! ## Two interpreters -/

namespace System

variable {s q : System κ τ ρ} {code : Meaning κ τ ρ}

/-- How an instrumented interpreter stands beside a plain one, whose hook slot nobody arms. -/
structure Follows (s q : System κ τ ρ) : Prop where
  machine : s.machine.Follows q.machine
  isOpen : q.isOpen = s.isOpen
  unarmed : q.machine.mailbox.slot.mask = .empty

/-- Events that are the same but for the instruments are the same, or both change the ground. -/
private theorem event_of_bare {e e' : Event κ τ ρ} (h : e'.bare = e.bare) :
    e' = e ∨ ∃ g g', e = .ground g ∧ e' = .ground g' ∧ g'.bare = g.bare := by
  cases e with
  | ground g =>
    cases e' with
    | ground g' => exact .inr ⟨g, g', rfl, rfl, by simpa [Event.bare] using h⟩
    | _ => simp [Event.bare] at h
  | _ => cases e' <;> simp_all [Event.bare]

/-- What only hosts and syncpoints have to do with, a plain interpreter does not hear of. -/
theorem Follows.instrument (h : s.Follows q) {e : Event κ τ ρ}
    (he : (∃ t call, e = .call t call) ∨ (∃ t, e = .host t) ∨ ∃ points, e = .syncpoints points) :
    (s.step code e).Follows q := by
  obtain ⟨hmachine, hopen, hunarmed⟩ := h
  rcases he with ⟨t, call, rfl⟩ | ⟨t, rfl⟩ | ⟨points, rfl⟩
  -- a call begins or makes an access, or somebody uses a syncpoint: none of it touches the
  -- interpreter
  · simp only [step]
    split <;> exact ⟨hmachine, hopen, hunarmed⟩
  · refine ⟨hmachine.congr ?_, hopen, hunarmed⟩
    exact Machine.bare_notes { s.machine with mailbox := ((s.hosts t).step s.machine.mailbox).1 } _
  · exact ⟨hmachine.congr rfl, hopen, hunarmed⟩

/-- What the embedder, the outside and other interpreters do, they do to both. -/
theorem Follows.shared (h : s.Follows q) {e e' : Event κ τ ρ} (hsame : e'.bare = e.bare)
    (hembedder : (∃ p given, e = .start p given) ∨ (∃ r vs, e = .answer r vs) ∨
      (∃ g, e = .ground g) ∨ e = .close)
    (hempty : ∀ r vs, e = .answer r vs → .dispatch ∈ s.machine.frames → vs = []) :
    (s.step code e).Follows (q.step code e') := by
  obtain ⟨hmachine, hopen, hunarmed⟩ := h
  have hfinished := hmachine.isFinished_eq
  rcases event_of_bare hsame with rfl | ⟨g, g', rfl, rfl, hg⟩
  -- the embedder does the same to both, and both are idle, waiting or neither
  · rcases hembedder with ⟨p, given, rfl⟩ | ⟨r, vs, rfl⟩ | ⟨g, rfl⟩ | rfl
    · simp only [step, hopen, hfinished]
      split
      next hidle =>
        obtain ⟨-, hfin⟩ : s.isOpen = true ∧ s.machine.control.isFinished = true := by
          simpa using hidle
        exact ⟨hmachine.start hfin p given, rfl, hunarmed⟩
      next => exact ⟨hmachine, hopen, hunarmed⟩
    · refine ⟨hmachine.answer r (hempty r vs rfl), hopen, ?_⟩
      simp only [step, Machine.answer]
      split <;> exact hunarmed
    · exact ⟨hmachine.onGround rfl, hopen, hunarmed⟩
    · simp only [step, hopen, hfinished]
      split
      next hidle =>
        obtain ⟨-, hfin⟩ : s.isOpen = true ∧ s.machine.control.isFinished = true := by
          simpa using hidle
        refine ⟨hmachine.close hfin, rfl, ?_⟩
        simp only [Machine.close]
        split <;> exact hunarmed
      next => exact ⟨hmachine, hopen, hunarmed⟩
  · exact ⟨hmachine.onGround hg, hopen, hunarmed⟩

end System

namespace Life

variable {code : Meaning κ τ ρ}

/-- Whether a plain interpreter takes part in step `n` of an instrumented one: it makes the steps of
the thread outside of the handler, and is given what the embedder, the outside and other
interpreters do. -/
def isShared (l : Life code) (n : Nat) : Bool :=
  match l.event n with
  | .advance => !(l.state n).machine.inHandler
  | .call .. | .host _ | .syncpoints _ => false
  | _ => true

/-- How many of the first steps of an instrumented interpreter a plain one takes part in. -/
def shared (l : Life code) : Nat → Nat
  | 0 => 0
  | n + 1 => l.shared n + (l.isShared n).toNat

/-- Host code does not query the instruments, what hosts interject asks nothing of the interpreter
and ends well, and what they cancel is withdrawn before a safepoint reads it. -/
structure Undisturbed (l : Life code) : Prop where
  /-- Whatever else it asks, host code of the program learns nothing of the instruments. -/
  unaware : ∀ n held q next, (l.state n).machine.inHandler = false →
    (l.state n).machine.control = .run held (.ask q next) → q.Unaware next
  /-- An action ends well, or reaches outside, -/
  inert : ∀ n held p, (l.state n).machine.inHandler = true →
    (l.state n).machine.control = .run held p → p.Inert
  /-- and is given nothing there. -/
  answers : ∀ n r vs, (l.state n).machine.inHandler = true → l.event n = .answer r vs → vs = []
  /-- Where a safepoint reads the message of a cancellation, there is none. -/
  reverted : ∀ n info, (l.state n).machine.control = .handle .readMessage info →
    (l.state n).machine.mailbox.cancelMessage = none

/-- An instrumented interpreter and a plain one are opened over the same ground and with the same
limits, and the plain one goes through the events that it takes part in. The grounds that they are
given differ at most in their instruments, so the allocators of both grant the same requests. -/
structure Beside (l p : Life code) : Prop where
  opened : ∃ (g : Ground κ) (facilities : Instrumentations) (limits : Limits) (ground : Ground κ)
    (m : Machine κ τ ρ) (instruments : Instruments) (store : Store) (heap : Nat)
    (i : Interpreter κ),
    Instruments.openWith g facilities limits = (ground, .ok (m, instruments)) ∧
    l.state 0 = .opening m ∧
    Interpreter.openNew g.store .system limits = (store, heap, .ok i) ∧
    p.state 0 = .opening (.idle i .empty .empty)
  events : ∀ n, l.isShared n = true → (p.event (l.shared n)).bare = (l.event n).bare

variable {l p : Life code}

/-! ### There is a plain interpreter beside each -/

/-- As the one goes on, so does the other, or it rests. -/
private theorem shared_mono (l : Life code) : Monotone l.shared :=
  monotone_nat_of_le_succ fun _ => Nat.le_add_right _ _

/-- A step that both take takes the other one forward. -/
private theorem shared_lt {n k : Nat} (hn : l.isShared n = true) (hlt : n < k) :
    l.shared n < l.shared k :=
  calc l.shared n < l.shared n + 1 := Nat.lt_succ_self _
    _ = l.shared (n + 1) := by rw [shared, hn]; rfl
    _ ≤ l.shared k := l.shared_mono hlt

/-- In different steps, a plain interpreter makes different ones of its own. -/
private theorem shared_inj {n k : Nat} (hn : l.isShared n = true) (hk : l.isShared k = true)
    (h : l.shared n = l.shared k) : n = k := by
  rcases Nat.lt_trichotomy n k with hlt | heq | hlt
  · exact absurd h (Nat.ne_of_lt (shared_lt hn hlt))
  · exact heq
  · exact absurd h.symm (Nat.ne_of_lt (shared_lt hk hlt))

/-- What an instrumented interpreter goes through, a plain one can go through beside it. -/
theorem exists_beside (l : Life code) {g ground : Ground κ} {facilities : Instrumentations}
    {limits : Limits} {m : Machine κ τ ρ} {instruments : Instruments}
    (hopen : Instruments.openWith g facilities limits = (ground, .ok (m, instruments)))
    (hl : l.state 0 = .opening m) : ∃ p, l.Beside p := by
  obtain ⟨-, hsame⟩ := Instruments.bare_openWith (τ := τ) (ρ := ρ) g facilities limits
  rw [hopen] at hsame
  rcases hplain : Interpreter.openNew (κ := κ) g.store .system limits with ⟨store, heap, opened⟩
  rw [hplain] at hsame
  rcases opened with _ | i
  · exact nomatch hsame
  · -- the events of the steps that the plain interpreter takes part in, without their instruments
    have hevents : ∀ k, ∃ e : Event κ τ ρ,
        ∀ n, l.isShared n = true → l.shared n = k → e = (l.event n).bare := by
      intro k
      by_cases hstep : ∃ n, l.isShared n = true ∧ l.shared n = k
      · obtain ⟨n, hn, hk⟩ := hstep
        refine ⟨(l.event n).bare, fun n' hn' hk' => ?_⟩
        rw [shared_inj hn hn' (hk.trans hk'.symm)]
      · exact ⟨.advance, fun n hn hk => absurd ⟨n, hn, hk⟩ hstep⟩
    choose event hevent using hevents
    have hbegun : Interpreter.openOn (g.store.addHeap MemorySource.system.heap).1
        (g.store.addHeap MemorySource.system.heap).2 limits = (store, .ok i) := by
      simp only [Interpreter.openNew, Prod.mk.injEq] at hplain
      exact Prod.ext hplain.1 hplain.2.2
    -- the plain interpreter begins as it was opened, and goes through these events
    let p : Life code := {
      state := (System.opening (.idle i .empty .empty)).after code event
      event := event
      begun := .inl ⟨_, _, limits, store, i, .empty, hbegun, rfl⟩
      next _ := rfl }
    refine ⟨p, ⟨g, facilities, limits, ground, m, instruments, store, heap, i, hopen, hl, hplain,
      rfl⟩, fun n hn => ?_⟩
    show (event (l.shared n)).bare = (l.event n).bare
    rw [hevent (l.shared n) n hn rfl, Event.bare_bare]

/-! ### Step by step -/

/-- What is opened stands beside what is opened plainly. -/
private theorem Beside.follows_zero (h : l.Beside p) : (l.state 0).Follows (p.state 0) := by
  obtain ⟨g, facilities, limits, ground, m, instruments, store, heap, i, hopen, hl, hplain, hp⟩ :=
    h.opened
  obtain ⟨-, hsame⟩ := Instruments.bare_openWith (τ := τ) (ρ := ρ) g facilities limits
  rw [hopen, hplain] at hsame
  obtain ⟨hcontrol, hframes, -⟩ := System.machine_of_openWith hopen
  rw [hl, hp]
  -- neither is in a handler yet
  refine ⟨.outside ?_ ?_ (Except.ok.inj hsame).symm, rfl, rfl⟩
  · show .dispatch ∉ m.frames
    rw [hframes]
    exact List.not_mem_nil
  · show m.control.isOwn = true
    rw [hcontrol]
    rfl

/-- One step of an instrumented interpreter beside a plain one. -/
private theorem Beside.follows_succ (hbeside : l.Beside p) (h : l.Undisturbed) {n : Nat}
    (hfollows : (l.state n).Follows (p.state (l.shared n))) :
    (l.state (n + 1)).Follows (p.state (l.shared (n + 1))) := by
  have hm := (l.steady n).machine
  -- what the plain interpreter does in this step, if it takes part in it
  have shares (hshared : l.isShared n = true) :
      p.state (l.shared (n + 1)) = (p.state (l.shared n)).step code (p.event (l.shared n)) := by
    rw [shared, hshared]
    exact p.next (l.shared n)
  have rests (hshared : l.isShared n = false) :
      p.state (l.shared (n + 1)) = p.state (l.shared n) := by
    rw [shared, hshared]
    rfl
  have embedder (hshared : l.isShared n = true)
      (hembedder : (∃ p given, l.event n = .start p given) ∨ (∃ r vs, l.event n = .answer r vs) ∨
        (∃ g, l.event n = .ground g) ∨ l.event n = .close) :
      (l.state (n + 1)).Follows (p.state (l.shared (n + 1))) := by
    rw [l.next, shares hshared]
    exact hfollows.shared (hbeside.events n hshared) hembedder fun r vs he hin =>
      h.answers n r vs (Machine.inHandler_eq_true.mpr hin) he
  have instrument (hshared : l.isShared n = false) (he : (∃ t call, l.event n = .call t call) ∨
      (∃ t, l.event n = .host t) ∨ ∃ points, l.event n = .syncpoints points) :
      (l.state (n + 1)).Follows (p.state (l.shared (n + 1))) := by
    rw [l.next, rests hshared]
    exact hfollows.instrument he
  -- the instruments' events pass the plain interpreter by, and the embedder's are done to both
  cases he : l.event n with
  | call t call => exact instrument (by simp [isShared, he]) (.inl ⟨t, call, he⟩)
  | host t => exact instrument (by simp [isShared, he]) (.inr (.inl ⟨t, he⟩))
  | syncpoints points => exact instrument (by simp [isShared, he]) (.inr (.inr ⟨points, he⟩))
  | start prog given => exact embedder (by simp [isShared, he]) (.inl ⟨prog, given, he⟩)
  | answer r vs => exact embedder (by simp [isShared, he]) (.inr (.inl ⟨r, vs, he⟩))
  | ground g => exact embedder (by simp [isShared, he]) (.inr (.inr (.inl ⟨g, he⟩)))
  | close => exact embedder (by simp [isShared, he]) (.inr (.inr (.inr he)))
  | advance =>
    obtain ⟨hmachine, hopen, hunarmed⟩ := hfollows
    rw [l.next, he]
    cases hin : (l.state n).machine.inHandler with
    | true =>
      -- the plain interpreter rests
      rw [rests (by simp [isShared, he, hin])]
      refine ⟨hmachine.step_inside code hm (Machine.inHandler_eq_true.mp hin)
        (fun held prog => h.inert n held prog hin) (h.reverted n), hopen, hunarmed⟩
    | false =>
      have hshared : l.isShared n = true := by simp [isShared, he, hin]
      have hevent : p.event (l.shared n) = .advance := by
        have hsame := hbeside.events n hshared
        rw [he] at hsame
        cases hp : p.event (l.shared n) <;> simp_all [Event.bare]
      rw [shares hshared, hevent]
      obtain ⟨hnext, hmailbox⟩ := hmachine.step_outside code hm (p.steady (l.shared n)).machine
        hunarmed (Machine.inHandler_eq_false.mp hin) fun held query next =>
          h.unaware n held query next hin
      exact ⟨hnext, hopen, by simp only [System.step, hmailbox, hunarmed]⟩

/-- An instrumented interpreter stands beside a plain one all its life. -/
theorem follows (hbeside : l.Beside p) (h : l.Undisturbed) (n : Nat) :
    (l.state n).Follows (p.state (l.shared n)) := by
  induction n with
  | zero => exact hbeside.follows_zero
  | succ n ih => exact hbeside.follows_succ h ih

/-- Instruments are not noticed. An instrumented interpreter has at every step the stack, the
globals with the contents of their strings, the count of instructions and the depth that a plain one
has which was opened with the same limits and given the same work; so it has all of the state but
for the bookkeeping of its hook, and the same blocks are allocated. Outside of the handler it is
about to do the same, with the same frames; and it finishes just when the plain one does, with the
same results or the same error. -/
theorem instrumentation_transparent (hbeside : l.Beside p) (h : l.Undisturbed) (n : Nat) :
    (p.state (l.shared n)).machine.interp.stack = (l.state n).machine.interp.stack ∧
    (p.state (l.shared n)).machine.interp.globals = (l.state n).machine.interp.globals ∧
    (p.state (l.shared n)).machine.interp.instructions =
      (l.state n).machine.interp.instructions ∧
    (p.state (l.shared n)).machine.interp.depth = (l.state n).machine.interp.depth ∧
    (p.state (l.shared n)).machine.interp.bare = (l.state n).machine.interp.bare ∧
    (p.state (l.shared n)).machine.ground.bare = (l.state n).machine.ground.bare ∧
    ((l.state n).machine.inHandler = false →
      (p.state (l.shared n)).machine.control = (l.state n).machine.control ∧
      (p.state (l.shared n)).machine.frames = (l.state n).machine.frames) ∧
    ∀ outcome, (l.state n).machine.control = .finished outcome ↔
      (p.state (l.shared n)).machine.control = .finished outcome := by
  -- all that a script can observe is read off the two bare machines, which are the same
  have hfollows := (l.follows hbeside h n).machine
  obtain ⟨hinterp, hground⟩ := hfollows.state_eq
  have hstack := congrArg Interpreter.stack hinterp
  have hglobals := congrArg Interpreter.globals hinterp
  have hinstructions := congrArg Interpreter.instructions hinterp
  have hdepth := congrArg Interpreter.depth hinterp
  exact ⟨hstack, hglobals, hinstructions, hdepth, hinterp, hground,
    fun hout => hfollows.work_eq (Machine.inHandler_eq_false.mp hout), hfollows.finished_iff⟩

/-! ## A script among hosts -/

/-- A script function that makes a string global and returns a number. -/
private def greets : Prototype :=
  .ofCode "greets" 0 #[.str [104, 105], .setGlobal "greeting", .int 7, .ret 1] rfl

/-- Host code that calls the function and ends with its results. -/
private def callsGreets : Program Unit Unit Unit :=
  .ask (.call (.fn (.script 0 greets)) []) fun r => .finish (.ok r.holds)

/-- The ground on which an interpreter was opened with every facility. -/
private def instrumentedGround : Ground Unit :=
  (Instruments.openWith (τ := Unit) (ρ := Unit) .empty .all .standard).1

/-- While a script function runs, a host cancels and withdraws the cancellation, and another one
interjects an action. -/
private def amongHosts : List (Event Unit Unit Unit) :=
  [.ground instrumentedGround, .start callsGreets [], .advance, .advance, .advance, .advance,
    .call 0 (.cancel "stop" .utf8), .host 0, .host 0, .host 0, .host 0, .host 0,
    .call 0 .revert, .host 0, .host 0, .host 0, .host 0,
    .call 1 (.interject ()), .host 1, .host 1, .host 1, .host 1]

private def instrumented : Life (idleCode : Meaning Unit Unit Unit) :=
  .ofEvents idleCode amongHosts

private def isAnswer : Event Unit Unit Unit → Bool
  | .answer .. => true
  | _ => false

/-- After its last other event the run only goes on. -/
private theorem advance_of_late {n : Nat} (hn : 22 ≤ n) : instrumented.event n = .advance := by
  show amongHosts.getD n .advance = .advance
  rw [List.getD_eq_getElem?_getD, List.getElem?_eq_none hn]
  rfl

/-- Whether host code asks nothing but for calls, an action ends well and asks nothing, and a
safepoint reads no message. -/
private def isCalm (s : System Unit Unit Unit) : Bool :=
  match s.machine.control with
  | .run _ (.ask (.call ..) _) => !s.machine.inHandler
  | .run _ (.ask ..) => false
  | .run _ (.finish (.ok [])) => true
  | .run _ _ => !s.machine.inHandler
  | .handle .readMessage _ => s.machine.mailbox.cancelMessage.isNone
  | _ => true

/-- The script has ended by then. -/
private theorem instrumented_finished {n : Nat} (hn : 58 ≤ n) :
    (instrumented.state n).machine.control.isFinished = true := by
  induction n, hn using Nat.le_induction with
  | base => decide +kernel
  | succ n hn ih =>
    have hevent : instrumented.event n = .advance := advance_of_late (by omega)
    rw [instrumented.machine_succ hevent, System.step_of_finished _ ih]
    exact ih

/-- Nothing in the run asks for the instruments. -/
private theorem instrumented_calm (n : Nat) : isCalm (instrumented.state n) = true := by
  by_cases hearly : n < 58
  · have hcalm : ∀ n < 58, isCalm (instrumented.state n) = true := by decide +kernel
    exact hcalm n hearly
  · have hfin := instrumented_finished (Nat.le_of_not_lt hearly)
    unfold isCalm
    generalize (instrumented.state n).machine.control = c at hfin
    cases c <;> simp_all [Control.isFinished]

/-- The run fulfils what is asked of it. -/
private theorem instrumented_undisturbed : instrumented.Undisturbed where
  unaware n held q next _ hc := by
    have hcalm := instrumented_calm n
    rw [isCalm, hc] at hcalm
    cases q with
    | call => trivial
    | _ => exact absurd hcalm Bool.false_ne_true
  inert n held p hin hc := by
    have hcalm := instrumented_calm n
    rw [isCalm, hc] at hcalm
    match p, hcalm with
    | .finish (.ok []), _ => trivial
    | .finish (.ok (_ :: _)), h | .finish (.error _), h | .outside .., h | .ask (.call ..) _, h =>
      simp [hin] at h
  answers n r vs _ he := by
    by_cases hearly : n < 22
    · have hnone : ∀ n < 22, isAnswer (instrumented.event n) = false := by decide +kernel
      have hnot := hnone n hearly
      rw [he] at hnot
      exact absurd hnot.symm Bool.false_ne_true
    · rw [advance_of_late (Nat.le_of_not_lt hearly)] at he
      exact nomatch he
  reverted n info hc := by
    have hcalm := instrumented_calm n
    rw [isCalm, hc] at hcalm
    exact Option.isNone_iff_eq_none.mp hcalm

/-- A safepoint of the function was entered and an action has run there, and the script has still
come to the end that it comes to alone. -/
theorem instrumented_run_unnoticed :
    ∃ (l p : Life (idleCode : Meaning Unit Unit Unit)) (outcome : Outcome Unit),
      l.Beside p ∧ l.Undisturbed ∧
      (l.state 58).machine.mailbox.invocations = 1 ∧
      (l.state 58).machine.control = .finished outcome ∧
      (p.state (l.shared 58)).machine.control = .finished outcome ∧
      (p.state (l.shared 58)).machine.interp.globals = (l.state 58).machine.interp.globals ∧
      (p.state (l.shared 58)).machine.interp.instructions = 4 := by
  have hinvocations : (instrumented.state 58).machine.mailbox.invocations = 1 := by decide +kernel
  have hcount : (instrumented.state 58).machine.interp.instructions = 4 := by decide +kernel
  -- the same outcome comes of both
  obtain ⟨outcome, hends⟩ :
      ∃ outcome, (instrumented.state 58).machine.control = .finished outcome := by
    have hfin := instrumented_finished (Nat.le_refl 58)
    generalize (instrumented.state 58).machine.control = c at hfin
    cases c <;> simp_all [Control.isFinished]
  obtain ⟨g, facilities, limits, ground, m, instruments, -, hopen, hfresh⟩ :=
    System.fresh_opened (κ := Unit) (τ := Unit) (ρ := Unit)
  obtain ⟨p, hbeside⟩ := instrumented.exists_beside hopen hfresh
  have hsame := instrumentation_transparent hbeside instrumented_undisturbed 58
  have hfinished := hsame.2.2.2.2.2.2.2 outcome
  exact ⟨instrumented, p, outcome, hbeside, instrumented_undisturbed, hinvocations, hends,
    hfinished.mp hends, hsame.2.1, hsame.2.2.1.trans hcount⟩

end Life

end Safepoint
