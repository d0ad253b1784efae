import Safepoint.Proofs.Overflow
import Safepoint.Proofs.Protection.Uncaught
import Safepoint.Proofs.Termination.Forward

/-!
# Work that goes on

Whatever a machine is about to do takes it to something else that it is about to do, and this
happens whatever other threads do meanwhile, as long as the interpreter's own thread moves on.
`Life.LoopFree` collects what is asked of the threads around an interpreter and of the code that
runs on it, and there is one lemma for each kind of work, which says to what it comes and above
which frames: a safepoint passes, a syncpoint is passed, an instruction that was fetched is
executed, a call is entered or refused, host code goes on with what it has asked for.

## Key results

- `Life.LoopFree.exists_move`: what is about to be done is done
- `Life.LoopFree.exists_answer`: what is waited for comes
- `Life.LoopFree.called`: a call is entered, if there is room for it
-/

namespace Safepoint

variable {κ τ ρ : Type}

/-- Whether what is done next is done by a move of the machine. -/
def Control.isGoing : Control κ τ ρ → Bool
  | .finished _ | .waiting .. => false
  | _ => true

/-- Whether a frame is a call in progress. -/
def Frame.isCall : Frame κ τ ρ → Bool
  | .call _ => true
  | _ => false

/-- The depth is the number of calls in progress. -/
theorem Nested.depth_eq {depth : Nat} {fs : List (Frame κ τ ρ)} (h : Nested depth fs) :
    depth = fs.countP Frame.isCall := by
  -- a call adds one to the depth, and no other frame does
  induction fs generalizing depth with
  | nil => exact h
  | cons f fs ih =>
    cases f with
    | call stage =>
      obtain ⟨below, rfl, hbelow⟩ := h
      rw [List.countP_cons_of_pos rfl, ih hbelow]
    | boundary top made =>
      rw [List.countP_cons_of_neg (by exact Bool.false_ne_true)]
      exact ih h.2
    | _ =>
      rw [List.countP_cons_of_neg (by exact Bool.false_ne_true)]
      exact ih h

namespace Machine

variable {m : Machine κ τ ρ} {fs : List (Frame κ τ ρ)}

/-- The next action is taken off one of the host's own queues. -/
def Pops (m : Machine κ τ ρ) : Prop :=
  ∃ id ran action rest, m.control = .drain (.queue id) ran ∧
    m.ground.queues[id]? = some (action :: rest)

/-- What becomes of a request of host code above the frames `fs`. -/
inductive Served (next : Reply κ → Program κ τ ρ) (fs : List (Frame κ τ ρ)) (m : Machine κ τ ρ) :
    Prop where
  | answered {held r} (control : m.control = .run held (next r)) (frames : m.frames = fs)
  | calls {held f args} (control : m.control = .invoke f args)
      (frames : m.frames = .host held next :: fs)
  | protects {top depth held f args} (control : m.control = .invoke f args)
      (frames : m.frames = .boundary top depth :: .host held next :: fs)
  | posts {held phase} (control : m.control = .post phase)
      (frames : m.frames = .host held next :: fs)
  | drains {held id} (control : m.control = .drain (.queue id) 0)
      (frames : m.frames = .host held next :: fs)

/-- A request of host code is answered at once, or makes a call, a post or a drain. -/
theorem served_serve (m : Machine κ τ ρ) (held : Held) (q : Query κ)
    (next : Reply κ → Program κ τ ρ) : Served next m.frames (m.serve held q next) := by
  have string (bytes : Bytes) : Served next m.frames (serve.string m held next bytes) := by
    unfold serve.string
    split
    next hnew => exact .answered rfl (newValue_keeps hnew).1
    next hnew => exact .answered rfl (newValue_keeps hnew).1
  -- calls, posts and drains wait above the host code, and all else is answered at once
  cases q with
  | newBytes bytes => exact string bytes
  | newText text => exact string _
  | copy v =>
    simp only [serve]
    split
    · split <;> exact .answered rfl rfl
    · exact .answered rfl rfl
  | release | getGlobal | setGlobal | load | register | setEncoding | facts =>
    exact .answered rfl rfl
  | call f args => exact .calls rfl rfl
  | pcall f args => exact .protects rfl rfl
  | post call => exact .posts rfl rfl
  | drain queue => exact .drains rfl rfl

/-- A script function that is entered goes on to its code, unless its locals find no room. -/
theorem enter_script (code : Meaning κ τ ρ) (m : Machine κ τ ρ) (id : Nat) (proto : Prototype)
    (args : List (Value κ)) :
    (∃ a : Activation κ, a.proto = proto ∧ (m.enter code (.script id proto) args).control = .fetch ∧
        (m.enter code (.script id proto) args).frames = .script a .ready :: m.frames) ∨
      ∃ outcome, (m.enter code (.script id proto) args).control = .deliver outcome ∧
        (m.enter code (.script id proto) args).frames = m.frames := by
  simp only [enter]
  split
  · exact .inr ⟨_, rfl, rfl⟩
  · exact .inl ⟨_, rfl, rfl, rfl⟩

/-- A call whose function has returned ends. -/
theorem step_of_leaving (code : Meaning κ τ ρ) (hm : m.Steady) {outcome : Outcome κ}
    {results : List (Value κ)} (hc : m.control = .deliver outcome)
    (hf : m.frames = .call (.leaving results) :: fs) :
    ∃ outcome', (m.step code).control = .deliver outcome' ∧ (m.step code).frames = fs := by
  cases outcome with
  | ok vs =>
    have hnested := hm.nested
    rw [hf] at hnested
    obtain ⟨below, hdepth, -⟩ := hnested
    simp only [step, hc, deliver, hf, deliverCall, exitCall, hdepth]
    exact ⟨_, rfl, rfl⟩
  | error e =>
    obtain ⟨-, hcontrol, hframes⟩ := step_of_error_at_call code hc hf hm.nested
    exact ⟨_, hcontrol, hframes⟩

/-- A protected call of host code hands on what its call has come to. -/
theorem step_of_boundary (code : Meaning κ τ ρ) (hm : m.Steady) {outcome : Outcome κ}
    {top depth : Nat} (hc : m.control = .deliver outcome)
    (hf : m.frames = .boundary top depth :: fs) :
    ∃ outcome', (m.step code).control = .deliver outcome' ∧ (m.step code).frames = fs := by
  have hdepth : m.interp.depth = depth := by
    have hnested := hm.nested
    rw [hf] at hnested
    exact hnested.1.symm
  simp only [step, hc, deliver, hf, hdepth, ne_eq, not_true_eq_false, if_false]
  cases outcome with
  | ok vs => exact ⟨_, rfl, rfl⟩
  | error e => exact ⟨_, rfl, rfl⟩

/-- A call through a handle that is over is replied to. -/
theorem step_of_posted (code : Meaning κ τ ρ) {phase : HostPhase κ}
    {ending : Except Error HostAnswer} (hc : m.control = .post phase)
    (hend : phase.ending? = some ending) :
    ∃ r, (m.step code).control = .reply r ∧ (m.step code).frames = m.frames := by
  simp only [step, hc, post, hend]
  cases ending with
  | ok answer => exact ⟨_, rfl, rfl⟩
  | error e => exact ⟨_, rfl, rfl⟩

end Machine

namespace Life

variable {code : Meaning κ τ ρ}

/-- What begins at step `k` is not over by step `n`. -/
def Lasts (l : Life code) (k n : Nat) : Prop :=
  k ≤ n ∧ ∀ e, e ≤ n → ¬ l.Spans k e

/-- At step `n`, an interpreter is about to do `c` above the frames `fs`. -/
structure At (l : Life code) (n : Nat) (c : Control κ τ ρ) (fs : List (Frame κ τ ρ)) : Prop where
  control : (l.state n).machine.control = c
  frames : (l.state n).machine.frames = fs

/-- What can keep a call from ending, save its own recursion, does not come up during some steps. -/
structure LoopFree (l : Life code) (during : Nat → Prop) : Prop where
  /-- The hook is disarmed. -/
  disarmed : ∀ n, during n → (l.state n).machine.mailbox.slot.mask.isEmpty = true
  /-- Each script that is called jumps forward only. -/
  forward : ∀ n, during n → ∀ id proto args,
    (l.state n).machine.control = .invoke (.fn (.script id proto)) args → proto.IsForward
  /-- From some step on, no more actions are taken off the host's own queues. To run these is the
  one thing by which host code may go on for as long as others find work for it. -/
  drained : ∃ N, ∀ n, N ≤ n → during n → l.event n = .advance → ¬ (l.state n).machine.Pops
  /-- What host code waits for outside is answered, -/
  answered : ∀ n, during n → ∀ x given held next,
    (l.state n).machine.control = .waiting x given held next →
      ∃ j r vs, n ≤ j ∧ l.event j = .answer r vs
  /-- and the interpreter's own thread moves on. -/
  moves : ∀ n, during n → ∃ j, n ≤ j ∧ l.isMove j = true

variable {l : Life code} {k n : Nat} {c : Control κ τ ρ} {fs : List (Frame κ τ ρ)}

/-! ## Moves -/

/-- Where the interpreter's own thread does not move, it stays. -/
theorem At.stays (h : l.At n c fs) (hgoing : c.isGoing = true)
    (hmove : l.isMove n = false) : l.At (n + 1) c fs := by
  obtain ⟨rfl, rfl⟩ := h
  by_cases he : l.event n = .advance
  · -- it is held at a syncpoint
    rw [l.isMove_of_advance he] at hmove
    have hheld : (l.state n).machine.isHeld = true := by simpa using hmove
    unfold Machine.isHeld at hheld
    split at hheld
    next point next hc =>
      obtain ⟨points, control, hstep, rfl⟩ := Machine.step_of_paused code hc
      have hnot : ((l.state n).machine.points.get point).released ≠ true := by simpa using hheld
      rw [if_neg hnot] at hstep
      constructor
      · rw [l.machine_succ he, hstep, hc]
      · rw [l.machine_succ he, hstep]
    next => exact absurd hheld Bool.false_ne_true
  · -- what another thread does leaves the control and the frames alone
    obtain ⟨hcontrol, hframes, -⟩ := l.control_aside he
      (by cases hc : (l.state n).machine.control <;> simp_all [Control.isGoing, Control.isFinished])
      (by rintro x given held next hc; simp [hc, Control.isGoing] at hgoing)
    exact ⟨hcontrol, hframes⟩

/-- A step that is a move is a step of the interpreter's own thread. -/
theorem advance_of_isMove (h : l.isMove n = true) : l.event n = .advance := by
  rw [isMove, Bool.and_eq_true, Event.isAdvance_iff] at h
  exact h.1

/-- What is about to be done is done by a move of the interpreter's own thread. -/
theorem LoopFree.exists_move (h : l.LoopFree (k ≤ ·)) (hn : k ≤ n) (hat : l.At n c fs)
    (hgoing : c.isGoing = true) :
    ∃ j, n ≤ j ∧ l.At j c fs ∧ l.isMove j = true ∧
      (l.state (j + 1)).machine = (l.state j).machine.step code := by
  obtain ⟨j, hnj, hmove⟩ := h.moves n hn
  obtain ⟨d, rfl⟩ := Nat.exists_eq_add_of_le hnj
  -- the thread makes no move up to the first one
  induction d generalizing n with
  | zero => exact ⟨n, Nat.le_refl n, hat, hmove, l.machine_succ (advance_of_isMove hmove)⟩
  | succ d ih =>
    cases hnow : l.isMove n with
    | true => exact ⟨n, Nat.le_refl n, hat, hnow, l.machine_succ (advance_of_isMove hnow)⟩
    | false =>
      rw [← Nat.add_assoc, Nat.add_right_comm] at hmove
      obtain ⟨j, hlater, hj⟩ := ih (by omega) (hat.stays hgoing hnow) (by omega) hmove
      exact ⟨j, by omega, hj⟩

section

variable {x : τ} {given : List (Value κ)} {held : Held}
  {next : ρ → List (Value κ) → Program κ τ ρ}

/-- Host code that is answered goes on with the answer. -/
theorem At.of_answer (h : l.At n (.waiting x given held next) fs) {r : ρ}
    {vs : List (Value κ)} (he : l.event n = .answer r vs) :
    l.At (n + 1) (.run (held.addAll vs) (next r vs)) fs := by
  constructor
  · rw [l.next, he]
    simp only [System.step, Machine.answer, h.control]
    rfl
  · rw [l.next, he]
    simp only [System.step, Machine.answer, h.control]
    exact h.frames

/-- Host code that waits for the outside waits until it is answered. -/
theorem At.waits (h : l.At n (.waiting x given held next) fs)
    (hnone : ¬ ∃ r vs, l.event n = .answer r vs) :
    l.At (n + 1) (.waiting x given held next) fs := by
  obtain ⟨hc, hf⟩ := h
  have same (hmachine : (l.state (n + 1)).machine.control = (l.state n).machine.control ∧
      (l.state (n + 1)).machine.frames = (l.state n).machine.frames) :
      l.At (n + 1) (.waiting x given held next) fs :=
    ⟨hmachine.1.trans hc, hmachine.2.trans hf⟩
  -- none of the other events touches the control or the frames
  apply same
  rw [l.next]
  cases he : l.event n with
  | answer r vs => exact absurd ⟨r, vs, he⟩ hnone
  | advance => simp only [System.step, Machine.step, hc, and_self]
  | host t =>
    obtain ⟨g, hg⟩ := (l.state n).access_eq t
    simp only [System.step, hg, and_self]
  | call t call =>
    simp only [System.step]
    split <;> exact ⟨rfl, rfl⟩
  | start | close => simp [System.step, hc, Control.isFinished]
  | ground | syncpoints => exact ⟨rfl, rfl⟩

/-- Host code that waits for the outside goes on. -/
theorem LoopFree.exists_answer (h : l.LoopFree (k ≤ ·)) (hn : k ≤ n)
    (hat : l.At n (.waiting x given held next) fs) :
    ∃ e held' r vs, n ≤ e ∧ l.At e (.run held' (next r vs)) fs := by
  obtain ⟨j, r, vs, hnj, he⟩ := h.answered n hn x given held next hat.control
  obtain ⟨d, rfl⟩ := Nat.exists_eq_add_of_le hnj
  -- it waits up to the first answer
  induction d generalizing n with
  | zero => exact ⟨n + 1, _, r, vs, Nat.le_succ n, hat.of_answer he⟩
  | succ d ih =>
    by_cases hanswer : ∃ r vs, l.event n = .answer r vs
    · obtain ⟨r', vs', he'⟩ := hanswer
      exact ⟨n + 1, _, r', vs', Nat.le_succ n, hat.of_answer he'⟩
    · rw [← Nat.add_assoc, Nat.add_right_comm] at he
      obtain ⟨e, held', r', vs', hlater, hrun⟩ := ih (by omega) (hat.waits hanswer) (by omega) he
      exact ⟨e, held', r', vs', by omega, hrun⟩

end

/-- What a step of the machine comes to is what the next state is about to do. -/
theorem At.of_step {j : Nat} (hstep : (l.state (j + 1)).machine = (l.state j).machine.step code)
    (hc : ((l.state j).machine.step code).control = c)
    (hf : ((l.state j).machine.step code).frames = fs) : l.At (j + 1) c fs :=
  ⟨by rw [hstep, hc], by rw [hstep, hf]⟩

/-- Nothing that cannot happen happens. -/
theorem not_fault (l : Life code) (n : Nat) (fault : Fault) :
    (l.state n).machine.control ≠ .fault fault := by
  intro hc
  have horder := (l.steady n).machine.order
  unfold Machine.InOrder at horder
  rw [hc] at horder
  exact horder

/-! ## What ends -/

/-- What is done from step `n` on comes to an outcome above the frames `fs`. -/
def Ends (l : Life code) (n : Nat) (fs : List (Frame κ τ ρ)) : Prop :=
  ∃ e outcome, n ≤ e ∧ l.At e (.deliver outcome) fs

/-- What is done from step `n` on comes to a reply for the host code on top of the frames `fs`. -/
def Replies (l : Life code) (n : Nat) (fs : List (Frame κ τ ρ)) : Prop :=
  ∃ e r, n ≤ e ∧ l.At e (.reply r) fs

/-- What ends from a later step on ends from now on, too. -/
theorem Ends.of_later {j : Nat} (h : l.Ends j fs) (hnj : n ≤ j) : l.Ends n fs := by
  obtain ⟨e, outcome, hje, hat⟩ := h
  exact ⟨e, outcome, Nat.le_trans hnj hje, hat⟩

/-- What is replied to from a later step on is replied to from now on, too. -/
theorem Replies.of_later {j : Nat} (h : l.Replies j fs) (hnj : n ≤ j) : l.Replies n fs := by
  obtain ⟨e, r, hje, hat⟩ := h
  exact ⟨e, r, Nat.le_trans hnj hje, hat⟩

namespace LoopFree

variable {outcome : Outcome κ} {held : Held} {next : Reply κ → Program κ τ ρ}

/-- A safepoint passes. -/
theorem poll_passes (h : l.LoopFree (k ≤ ·)) (hn : k ≤ n) {event : HookEvent}
    (hat : l.At n (.poll event) fs) : ∃ e, n ≤ e ∧ l.At e (.deliver (.ok [])) fs := by
  obtain ⟨j, hnj, hat, -, hstep⟩ := h.exists_move hn hat rfl
  -- the hook is disarmed, so the safepoint does not enter the handler
  have hpasses : (l.state j).machine.step code = (l.state j).machine.proceed := by
    simp only [Machine.step, hat.control, Machine.poll, h.disarmed j (by omega), if_true]
  refine ⟨j + 1, by omega, .of_step hstep ?_ ?_⟩
  · rw [hpasses]
    rfl
  · rw [hpasses]
    exact hat.frames

/-- A call that is being left ends. -/
theorem leaving_ends (h : l.LoopFree (k ≤ ·)) (hn : k ≤ n) {results : List (Value κ)}
    (hat : l.At n (.deliver outcome) (.call (.leaving results) :: fs)) : l.Ends n fs := by
  obtain ⟨j, hnj, hat, -, hstep⟩ := h.exists_move hn hat rfl
  obtain ⟨outcome', hc, hf⟩ :=
    Machine.step_of_leaving code (l.steady j).machine hat.control hat.frames
  exact ⟨j + 1, outcome', by omega, .of_step hstep hc hf⟩

/-- A call of which the function has ended ends. -/
theorem body_ends (h : l.LoopFree (k ≤ ·)) (hn : k ≤ n)
    (hat : l.At n (.deliver outcome) (.call .body :: fs)) : l.Ends n fs := by
  obtain ⟨j, hnj, hat, -, hstep⟩ := h.exists_move hn hat rfl
  cases outcome with
  | ok results =>
    -- the values pass the return safepoint; an error leaves the call at once
    have hpoll : l.At (j + 1) (.poll .ret) (.call (.leaving results) :: fs) := by
      apply At.of_step hstep
      all_goals
        simp only [Machine.step, hat.control, Machine.deliver, hat.frames]
        rfl
    obtain ⟨e, hje, hat⟩ := h.poll_passes (by omega) hpoll
    exact (h.leaving_ends (by omega) hat).of_later (by omega)
  | error err =>
    obtain ⟨-, hc, hf⟩ :=
      Machine.step_of_error_at_call code hat.control hat.frames (l.steady j).machine.nested
    exact ⟨j + 1, _, by omega, .of_step hstep hc hf⟩

/-- A protected call ends. -/
theorem boundary_ends (h : l.LoopFree (k ≤ ·)) (hn : k ≤ n) {top depth : Nat}
    (hat : l.At n (.deliver outcome) (.boundary top depth :: fs)) : l.Ends n fs := by
  obtain ⟨j, hnj, hat, -, hstep⟩ := h.exists_move hn hat rfl
  obtain ⟨outcome', hc, hf⟩ :=
    Machine.step_of_boundary code (l.steady j).machine hat.control hat.frames
  exact ⟨j + 1, outcome', by omega, .of_step hstep hc hf⟩

/-- Host code goes on with the outcome of its call, -/
theorem host_goes_on (h : l.LoopFree (k ≤ ·)) (hn : k ≤ n)
    (hat : l.At n (.deliver outcome) (.host held next :: fs)) :
    ∃ e held' r, n < e ∧ l.At e (.run held' (next r)) fs := by
  obtain ⟨j, hnj, hat, -, hstep⟩ := h.exists_move hn hat rfl
  cases outcome with
  | ok vs =>
    refine ⟨j + 1, held.addAll vs, .values vs, by omega, .of_step hstep ?_ ?_⟩
    all_goals
      simp only [Machine.step, hat.control, Machine.deliver, hat.frames]
      rfl
  | error err =>
    refine ⟨j + 1, held, .failed err, by omega, .of_step hstep ?_ ?_⟩
    all_goals
      simp only [Machine.step, hat.control, Machine.deliver, hat.frames]
      rfl

/-- and with the reply to its request. -/
theorem replied (h : l.LoopFree (k ≤ ·)) (hn : k ≤ n) {r : Reply κ}
    (hat : l.At n (.reply r) (.host held next :: fs)) :
    ∃ e held', n ≤ e ∧ l.At e (.run held' (next r)) fs := by
  obtain ⟨j, hnj, hat, -, hstep⟩ := h.exists_move hn hat rfl
  refine ⟨j + 1, held.addAll r.holds, by omega, .of_step hstep ?_ ?_⟩
  all_goals
    simp only [Machine.step, hat.control, Machine.reply, hat.frames]
    rfl

/-- A syncpoint is passed. -/
theorem check_passes (h : l.LoopFree (k ≤ ·)) (hn : k ≤ n) {point : TestPoint}
    (hat : l.At n (.check point c) fs) : ∃ e, n ≤ e ∧ l.At e c fs := by
  obtain ⟨i, hni, hat, -, hstep⟩ := h.exists_move hn hat rfl
  obtain ⟨points, control, hchecks, hcontrol⟩ := Machine.step_of_check code hat.control
  have hcheck : l.At (i + 1) control fs := by
    apply At.of_step hstep
    all_goals rw [hchecks]
    exact hat.frames
  split at hcontrol
  next =>
    -- it is armed, and the thread is held until it is released
    subst hcontrol
    obtain ⟨j, hij, hat, -, hstep⟩ := h.exists_move (by omega) hcheck rfl
    obtain ⟨points, harrives⟩ := Machine.step_of_arrive code hat.control
    have harrive : l.At (j + 1) (.paused point c) fs := by
      apply At.of_step hstep
      all_goals rw [harrives]
      exact hat.frames
    obtain ⟨e, hje, hat, hmove, hstep⟩ := h.exists_move (by omega) harrive rfl
    have hreleased : ((l.state e).machine.points.get point).released = true := by
      rw [l.isMove_of_advance (advance_of_isMove hmove)] at hmove
      simpa [Machine.isHeld, hat.control] using hmove
    obtain ⟨points, control, hpaused, hcontrol⟩ := Machine.step_of_paused code hat.control
    rw [if_pos hreleased] at hcontrol
    subst hcontrol
    refine ⟨e + 1, by omega, .of_step hstep ?_ ?_⟩
    all_goals rw [hpaused]
    exact hat.frames
  next =>
    subst hcontrol
    exact ⟨i + 1, by omega, hcheck⟩

/-- A call through a handle comes to a reply. -/
theorem post_replies (h : l.LoopFree (k ≤ ·)) (hn : k ≤ n) {phase : HostPhase κ}
    (hat : l.At n (.post phase) fs) : l.Replies n fs := by
  -- the induction is on the accesses that the call has yet to make
  induction hleft : phase.remaining using Nat.strong_induction_on generalizing n phase with
  | h left ih =>
    obtain ⟨j, hnj, hat, -, hstep⟩ := h.exists_move hn hat rfl
    cases hend : phase.ending? with
    | some ending =>
      obtain ⟨r, hc, hf⟩ := Machine.step_of_posted code hat.control hend
      exact ⟨j + 1, r, by omega, .of_step hstep hc (hf.trans hat.frames)⟩
    | none =>
      -- the access that is made leaves fewer to make, behind a syncpoint or not
      have hless := HostPhase.remaining_step (l.state j).machine.mailbox phase hend
      have hframes : ((l.state j).machine.step code).frames = fs := by
        simp only [Machine.step, hat.control]
        exact (Machine.frames_post _ hend).trans hat.frames
      obtain ⟨e, hje, hgoes⟩ : ∃ e, j ≤ e ∧
          l.At e (.post (phase.step (l.state j).machine.mailbox).2.1) fs := by
        cases hgate : (phase.step (l.state j).machine.mailbox).2.1.gate? with
        | some point =>
          have hcheck : l.At (j + 1)
              (.check point (.post (phase.step (l.state j).machine.mailbox).2.1)) fs := by
            refine At.of_step hstep ?_ hframes
            simp only [Machine.step, hat.control, Machine.post, hend, hgate]
            rfl
          obtain ⟨e, hje, hpast⟩ := h.check_passes (by omega) hcheck
          exact ⟨e, by omega, hpast⟩
        | none =>
          refine ⟨j + 1, by omega, .of_step hstep ?_ hframes⟩
          simp only [Machine.step, hat.control, Machine.post, hend, hgate]
          rfl
      exact (ih _ (by omega) (by omega) hgoes rfl).of_later (by omega)

/-- An instruction that was fetched is executed. -/
theorem fetched_executes (h : l.LoopFree (k ≤ ·)) (hn : k ≤ n) {a : Activation κ}
    {i : Instruction} (hat : l.At n (.poll .count) (.script a (.safepoint i) :: fs)) :
    ∃ e, n ≤ e ∧ l.At e (.execute i) (.script a .ready :: fs) := by
  obtain ⟨j, hnj, hat⟩ := h.poll_passes hn hat
  obtain ⟨e, hje, hat, -, hstep⟩ := h.exists_move (by omega) hat rfl
  refine ⟨e + 1, by omega, .of_step hstep ?_ ?_⟩
  all_goals
    simp only [Machine.step, hat.control, Machine.deliver, hat.frames, Machine.deliverScript]
    rfl

/-- An instruction of forward code takes its function on, or it makes a call. -/
theorem executed_lands (h : l.LoopFree (k ≤ ·)) (hn : k ≤ n) {a : Activation κ}
    {i : Instruction} (hat : l.At n (.execute i) (.script a .ready :: fs))
    (hforward : ∀ target, i = .jump target ∨ i = .jumpIfFalse target → a.pc ≤ target) :
    ∃ e, n ≤ e ∧ ((l.state e).machine.Lands a fs ∨
      ∃ await, (l.state e).machine.Calling a await fs) := by
  obtain ⟨j, hnj, hat, -, hstep⟩ := h.exists_move hn hat rfl
  refine ⟨j + 1, by omega, ?_⟩
  rw [hstep]
  simp only [Machine.step, hat.control, hat.frames]
  exact Machine.lands_execute { (l.state j).machine with frames := fs, control := .execute i } a i
    hforward

/-- The outcome of a call takes the script function on that has made it. -/
theorem handed_lands (h : l.LoopFree (k ≤ ·)) (hn : k ≤ n) {a : Activation κ}
    {await : Await κ} {outcome : Outcome κ}
    (hwaits : (Frame.script a await : Frame κ τ ρ).waitsFor .call = true)
    (hat : l.At n (.deliver outcome) (.script a await :: fs)) :
    ∃ e, n ≤ e ∧ (l.state e).machine.Lands a fs := by
  obtain ⟨j, hnj, hat, -, hstep⟩ := h.exists_move hn hat rfl
  refine ⟨j + 1, by omega, ?_⟩
  rw [hstep]
  simp only [Machine.step, hat.control, Machine.deliver, hat.frames]
  exact Machine.lands_deliverScript
    { (l.state j).machine with frames := fs, control := .deliver outcome } a hwaits outcome

/-- A pass that finds its queue empty is over. -/
theorem drained_replies (h : l.LoopFree (k ≤ ·)) (hn : k ≤ n) {id ran : Nat}
    (hat : l.At n (.drain (.queue id) ran) fs) :
    l.Replies n fs ∨ ∃ j action, n ≤ j ∧ l.event j = .advance ∧ (l.state j).machine.Pops ∧
      l.At (j + 1) (.run [] (code action [])) (.pass (.queue id) ran :: fs) := by
  obtain ⟨j, hnj, hat, hmove, hstep⟩ := h.exists_move hn hat rfl
  have hf := hat.frames
  -- an empty or unknown queue ends the pass; otherwise its first action is taken off
  cases hqueue : (l.state j).machine.ground.queues[id]? with
  | none =>
    left
    refine ⟨j + 1, .count ran, by omega, .of_step hstep ?_ ?_⟩
    all_goals simp only [Machine.step, hat.control, Machine.drain, hqueue]
    · rfl
    · exact hf
  | some actions =>
    cases actions with
    | nil =>
      left
      refine ⟨j + 1, .count ran, by omega, .of_step hstep ?_ ?_⟩
      all_goals simp only [Machine.step, hat.control, Machine.drain, hqueue]
      · rfl
      · exact hf
    | cons action rest =>
      right
      refine ⟨j, action, hnj, advance_of_isMove hmove, ⟨id, ran, action, rest, hat.control, hqueue⟩,
        .of_step hstep ?_ ?_⟩
      all_goals simp only [Machine.step, hat.control, Machine.drain, hqueue]
      · rfl
      · rw [← hf]
        rfl

/-- A call is refused where no more may begin, and wherever what is called is no function; otherwise
it is in progress, past its safepoint. -/
theorem called (h : l.LoopFree (k ≤ ·)) (hn : k ≤ n) {f : Value κ} {args : List (Value κ)}
    (hat : l.At n (.invoke f args) fs) :
    l.Ends n fs ∨ ∃ e g, n ≤ e ∧ f = .fn g ∧
      fs.countP Frame.isCall < (l.state 0).machine.interp.limits.maxCallDepth ∧
      l.At e (.deliver (.ok [])) (.call (.entering g args) :: fs) := by
  obtain ⟨j, hnj, hat, -, hstep⟩ := h.exists_move hn hat rfl
  have hf := hat.frames
  -- a function is entered if there is room for one call more; what is no function is refused
  cases f with
  | fn g =>
    have hdepth := (l.steady j).machine.nested.depth_eq
    have hlimits := (l.rooted j).limits_eq
    rw [hf] at hdepth
    rw [← hdepth, ← hlimits]
    rcases Nat.lt_or_ge (l.state j).machine.interp.depth
      (l.state j).machine.interp.limits.maxCallDepth with hroom | hdeep
    · right
      obtain ⟨hc, hf', -⟩ := Machine.step_of_invoke code hat.control hroom
      obtain ⟨e, hje, hat⟩ := h.poll_passes (by omega) (.of_step hstep hc hf')
      exact ⟨e, g, by omega, rfl, hroom, hf ▸ hat⟩
    · left
      obtain ⟨hc, hf', -, -⟩ := Machine.step_of_invoke_deep code hat.control hdeep
      exact ⟨j + 1, _, by omega, .of_step hstep hc (hf'.trans hf)⟩
  | _ =>
    left
    refine ⟨j + 1, _, by omega, .of_step hstep
      (by simp only [Machine.step, hat.control, Machine.invoke]; rfl) ?_⟩
    simp only [Machine.step, hat.control, Machine.invoke]
    exact hf

end LoopFree

end Life

end Safepoint
