import Safepoint.Proofs.Termination.Steps

/-!
# Only backward jumps diverge

A protected call comes to an end if all scripts that are called meanwhile jump forward only, however
they call one another and whatever they catch. Three things bound it. A script function comes to
each of its instructions at most once. Host code asks finitely often, since a program is a
well-founded tree. And a call is refused once as many calls are in progress as may be, so that
whatever catches the refusal and calls again does so from within a call that ends by itself.

The proof follows the machine from what it is about to do to the outcome of that, above frames that
stay where they are. `Life.CallsEnd`, `Life.ScriptsEnd`, `Life.ProgramsEnd` and `Life.DrainsEnd` say
that such work ends for as many more calls in progress, and as many more actions taken off the
host's own queues, as are still to be had (`Life.Bounded`). Each follows from those of the work that
it sets out for: a call from the body of the function with one call less to be had, a script and
host code from the calls that they make, a pass over a queue from its actions with one action less
to be had.

## Key results

- `Life.LoopFree.scripts_end`: a script ends whose calls end
- `Life.LoopFree.calls_end`: every call ends
- `Life.forward_scripts_end`: a protected call ends with results or with an error
-/

namespace Safepoint

variable {κ τ ρ : Type}

namespace Life

variable {code : Meaning κ τ ρ} {l : Life code} {k n : Nat} {fs : List (Frame κ τ ρ)}

/-! ## What is left -/

/-- At step `n`, no more than `d` calls may begin one within the other above the frames `fs`, and no
more than `q` actions are taken off the host's own queues from then on. -/
structure Bounded (l : Life code) (k N q d n : Nat) (fs : List (Frame κ τ ρ)) : Prop where
  since : k ≤ n
  actions : N ≤ n + q
  room : (l.state 0).machine.interp.limits.maxCallDepth ≤ fs.countP Frame.isCall + d

section

variable {N q d : Nat}

/-- Bounds hold from any later step on. -/
theorem Bounded.later {j : Nat} (h : l.Bounded k N q d n fs) (hnj : n ≤ j) :
    l.Bounded k N q d j fs :=
  ⟨Nat.le_trans h.since hnj, by have := h.actions; omega, h.room⟩

/-- Frames that are no calls leave as much room for calls as there was. -/
theorem Bounded.push (h : l.Bounded k N q d n fs) {f : Frame κ τ ρ} (hf : f.isCall = false) :
    l.Bounded k N q d n (f :: fs) := by
  refine ⟨h.since, h.actions, ?_⟩
  rw [List.countP_cons_of_neg (by simp [hf])]
  exact h.room

/-- In a call that is in progress, one call fewer may begin. -/
theorem Bounded.call (h : l.Bounded k N q (d + 1) n fs) (stage : Stage κ) :
    l.Bounded k N q d n (.call stage :: fs) := by
  refine ⟨h.since, h.actions, ?_⟩
  rw [List.countP_cons_of_pos rfl]
  have hroom := h.room
  omega

/-- The action that is taken off a queue is one of those that were left. -/
theorem Bounded.pop (h : l.Bounded k N (q + 1) d n fs) : l.Bounded k N q d (n + 1) fs :=
  ⟨Nat.le_succ_of_le h.since, by have := h.actions; omega, h.room⟩

variable (l k N q d)

/-- Each call ends. -/
def CallsEnd : Prop :=
  ∀ n f args fs, l.Bounded k N q d n fs → l.At n (.invoke f args) fs → l.Ends n fs

/-- Each script function that jumps forward only ends. -/
def ScriptsEnd : Prop :=
  ∀ n a fs, l.Bounded k N q d n fs → a.proto.IsForward →
    l.At n .fetch (.script a .ready :: fs) → l.Ends n fs

/-- Host code ends. -/
def ProgramsEnd : Prop :=
  ∀ n held p fs, l.Bounded k N q d n fs → l.At n (.run held p) fs → l.Ends n fs

/-- Each pass over a queue of the host's own ends. -/
def DrainsEnd : Prop :=
  ∀ n id ran fs, l.Bounded k N q d n fs → l.At n (.drain (.queue id) ran) fs → l.Replies n fs

end

namespace LoopFree

variable {N q d : Nat}

/-- A script function ends that ends from wherever it goes on. -/
private theorem ends_of_lands {j : Nat} {a : Activation κ}
    (hlands : (l.state j).machine.Lands a fs)
    (hends : ∀ b : Activation κ, a.UpTo b → l.At j .fetch (.script b .ready :: fs) → l.Ends j fs) :
    l.Ends j fs := by
  cases hlands with
  | goes hc hf hb => exact hends _ hb ⟨hc, hf⟩
  | leaves hc hf => exact ⟨j, _, Nat.le_refl j, hc, hf⟩
  | faults hc => exact absurd hc (not_fault l j _)

/-- A script ends whose calls end: it is at a later place of its code at each fetch. -/
theorem scripts_end (h : l.LoopFree (k ≤ ·)) (hcalls : l.CallsEnd k N q d) :
    l.ScriptsEnd k N q d := by
  intro n a fs hbound hforward hat
  -- the induction is on how much of the code is left: a forward script never comes back to a place
  induction hleft : a.proto.code.size - a.pc using Nat.strong_induction_on generalizing n a with
  | h left ih =>
    have hn := hbound.since
    obtain ⟨j, hnj, hat, -, hstep⟩ := h.exists_move hn hat rfl
    cases hi : a.proto.code[a.pc]? with
    | none =>
      -- past its last instruction the function is left
      refine ⟨j + 1, .ok [], by omega, .of_step hstep ?_ ?_⟩
      all_goals
        simp only [Machine.step, hat.control, hat.frames, Machine.fetch, hi]
        rfl
    | some i =>
      obtain ⟨hlt, -⟩ := Array.getElem?_eq_some_iff.mp hi
      have hpoll : l.At (j + 1) (.poll .count)
          (.script { a with pc := a.pc + 1 } (.safepoint i) :: fs) := by
        apply At.of_step hstep
        all_goals
          simp only [Machine.step, hat.control, hat.frames, Machine.fetch, hi]
          rfl
      -- wherever it goes on, less of its code is left
      have hends : ∀ e, n ≤ e → ∀ b : Activation κ, { a with pc := a.pc + 1 }.UpTo b →
          l.At e .fetch (.script b .ready :: fs) → l.Ends e fs := by
        intro e hne b hb hat
        have hproto : b.proto = a.proto := hb.proto
        have hpc : a.pc + 1 ≤ b.pc := hb.pc_le
        apply ih (b.proto.code.size - b.pc) _ e b (hbound.later hne) (hproto ▸ hforward) hat rfl
        rw [hproto]
        omega
      -- the count safepoint is passed, and the instruction is executed
      obtain ⟨e, hje, hat⟩ := h.fetched_executes (by omega) hpoll
      obtain ⟨e', hee, hlands | ⟨await, ⟨f, args, hc⟩, hf, hwaits⟩⟩ :=
        h.executed_lands (by omega) hat fun target hjump => hforward.succ_le_target hi hjump
      · exact (ends_of_lands hlands (hends e' (by omega))).of_later (by omega)
      -- it begins a call, which ends by assumption, and its outcome is handed to the function
      · have hbound' := (hbound.later (show n ≤ e' by omega)).push
          (f := .script { a with pc := a.pc + 1 } await) rfl
        obtain ⟨r, outcome, her, hat⟩ := hcalls e' f args _ hbound' ⟨hc, hf⟩
        obtain ⟨r', hrr, hlands⟩ := h.handed_lands (by omega) hwaits hat
        exact (ends_of_lands hlands (hends r' (by omega))).of_later (by omega)

/-- Host code ends whose calls and passes end: it asks finitely often. -/
theorem programs_end (h : l.LoopFree (k ≤ ·)) (hcalls : l.CallsEnd k N q d)
    (hdrains : l.DrainsEnd k N q d) : l.ProgramsEnd k N q d := by
  intro n held p fs hbound hat
  -- by induction on the program: each reply is one branch further on
  induction p generalizing n held with
  | finish outcome =>
    have hn := hbound.since
    obtain ⟨j, hnj, hat, -, hstep⟩ := h.exists_move hn hat rfl
    have hf := hat.frames
    cases outcome with
    | ok vs | error err =>
      refine ⟨j + 1, _, by omega, .of_step hstep (by simp only [Machine.step, hat.control]; rfl) ?_⟩
      simp only [Machine.step, hat.control]
      exact hf
  | ask query next ih =>
    have hn := hbound.since
    obtain ⟨j, hnj, hat, -, hstep⟩ := h.exists_move hn hat rfl
    have hserved := Machine.served_serve (l.state j).machine held query next
    have hserve : (l.state (j + 1)).machine = (l.state j).machine.serve held query next := by
      rw [hstep, Machine.step, hat.control]
      rfl
    rw [← hserve, hat.frames] at hserved
    -- the code goes on with the reply
    have goes_on {e held' r} (hne : n ≤ e) (hat : l.At e (.run held' (next r)) fs) : l.Ends n fs :=
      (ih r e held' (hbound.later hne) hat).of_later hne
    have of_outcome {i held'} (hni : n ≤ i) (hends : l.Ends i (.host held' next :: fs)) :
        l.Ends n fs := by
      obtain ⟨e, outcome, hie, hat⟩ := hends
      obtain ⟨e', held', r, hee, hat⟩ := h.host_goes_on (by omega) hat
      exact goes_on (by omega) hat
    have of_reply {i held'} (hni : n ≤ i) (hreplies : l.Replies i (.host held' next :: fs)) :
        l.Ends n fs := by
      obtain ⟨e, r, hie, hat⟩ := hreplies
      obtain ⟨e', held', hee, hat⟩ := h.replied (by omega) hat
      exact goes_on (by omega) hat
    have hlater := hbound.later (show n ≤ j + 1 by omega)
    -- whatever the request begins is over some time, and its outcome becomes the reply
    cases hserved with
    | answered hc hf => exact goes_on (by omega) ⟨hc, hf⟩
    | calls hc hf =>
      exact of_outcome (by omega) (hcalls _ _ _ _ (hlater.push rfl) ⟨hc, hf⟩)
    | protects hc hf =>
      obtain ⟨e, outcome, hje, hat⟩ := hcalls _ _ _ _ ((hlater.push rfl).push rfl) ⟨hc, hf⟩
      exact of_outcome (by omega) (h.boundary_ends (by omega) hat)
    | posts hc hf => exact of_reply (by omega) (h.post_replies (by omega) ⟨hc, hf⟩)
    | drains hc hf => exact of_reply (by omega) (hdrains _ _ _ _ (hlater.push rfl) ⟨hc, hf⟩)
  | outside x given next ih =>
    have hn := hbound.since
    obtain ⟨j, hnj, hat, -, hstep⟩ := h.exists_move hn hat rfl
    have hwaits :
        l.At (j + 1) (.waiting x (held.takeAll given).1 (held.takeAll given).2 next) fs := by
      apply At.of_step hstep
      · simp only [Machine.step, hat.control]
        rfl
      · simp only [Machine.step, hat.control]
        exact hat.frames
    obtain ⟨e, held', r, vs, hje, hat⟩ := h.exists_answer (by omega) hwaits
    exact (ih r vs e held' (hbound.later (by omega)) hat).of_later (by omega)

/-- Once no more actions are taken off the queues, a pass is over at once. -/
theorem drains_end_zero (h : l.LoopFree (k ≤ ·))
    (hdry : ∀ n, N ≤ n → k ≤ n → l.event n = .advance → ¬ (l.state n).machine.Pops) :
    l.DrainsEnd k N 0 d := by
  intro n id ran fs hbound hat
  have hn := hbound.since
  have hN := hbound.actions
  rcases h.drained_replies hn hat with hreplies | ⟨j, action, hnj, he, hpops, -⟩
  · exact hreplies
  · exact absurd hpops (hdry j (by omega) (by omega) he)

/-- A pass goes on behind an action with one action less to be taken. -/
theorem drains_end_succ (h : l.LoopFree (k ≤ ·)) (hprograms : l.ProgramsEnd k N q d)
    (hdrains : l.DrainsEnd k N q d) : l.DrainsEnd k N (q + 1) d := by
  intro n id ran fs hbound hat
  have hn := hbound.since
  rcases h.drained_replies hn hat with hreplies | ⟨j, action, hnj, -, -, hat⟩
  · exact hreplies
  have hbound := (hbound.later hnj).pop
  obtain ⟨e, outcome, hje, hat⟩ := hprograms _ _ _ _ (hbound.push rfl) hat
  -- the action has returned, and its outcome is looked at
  obtain ⟨i, hei, hat, -, hstep⟩ := h.exists_move (by omega) hat rfl
  have hsettle : l.At (i + 1) (.settle (.queue id) ran outcome) fs := by
    apply At.of_step hstep
    all_goals
      simp only [Machine.step, hat.control, Machine.deliver, hat.frames]
      cases outcome <;> rfl
  obtain ⟨i', hii, hat, -, hstep⟩ := h.exists_move (by omega) hsettle rfl
  have hf := hat.frames
  cases outcome with
  | ok vs =>
    -- the next action has one fewer left behind it
    have hdrain : l.At (i' + 1) (.drain (.queue id) (ran + 1)) fs := by
      apply At.of_step hstep
      all_goals simp only [Machine.step, hat.control, Machine.settle]
      · rfl
      · exact hf
    exact (hdrains _ _ _ _ (hbound.later (by omega)) hdrain).of_later (by omega)
  | error err =>
    refine ⟨i' + 1, .failed err, by omega, .of_step hstep ?_ ?_⟩
    all_goals simp only [Machine.step, hat.control, Machine.settle]
    · rfl
    · exact hf

/-- Where no more calls may begin, a call ends at once. -/
theorem calls_end_zero (h : l.LoopFree (k ≤ ·)) : l.CallsEnd k N q 0 := by
  intro n f args fs hbound hat
  have hroom := hbound.room
  rcases h.called hbound.since hat with hends | ⟨e, g, -, -, hdepth, -⟩
  · exact hends
  · omega

/-- A call ends where the body of a function does, with one call less that may begin. -/
theorem calls_end_succ (h : l.LoopFree (k ≤ ·)) (hscripts : l.ScriptsEnd k N q d)
    (hprograms : l.ProgramsEnd k N q d) : l.CallsEnd k N q (d + 1) := by
  intro n f args fs hbound hcall
  have hn := hbound.since
  rcases h.called hn hcall with hends | ⟨e, g, hne, rfl, -, hat⟩
  · exact hends
  obtain ⟨j, hej, hat, -, hstep⟩ := h.exists_move (by omega) hat rfl
  have hbody := (hbound.later (show n ≤ j + 1 by omega)).call (.body : Stage κ)
  -- the body ends, and so does the call
  suffices hends : l.Ends (j + 1) (.call .body :: fs) by
    obtain ⟨i, outcome, hji, hat⟩ := hends
    exact (h.body_ends (by omega) hat).of_later (by omega)
  cases g with
  | native id name c =>
    apply hprograms _ (Held.addAll [] args) (code c args) _ hbody
    apply At.of_step hstep
    all_goals
      simp only [Machine.step, hat.control, Machine.deliver, hat.frames, Machine.deliverCall,
        Machine.enter]
      rfl
  | script id proto =>
    -- a script that goes forward is entered, unless there is no room for it
    have hforward := h.forward n hn id proto args hcall.control
    have henter : (l.state (j + 1)).machine = Machine.enter code { (l.state j).machine with
        frames := .call .body :: fs, control := .deliver (.ok []) } (.script id proto) args := by
      simp only [hstep, Machine.step, hat.control, Machine.deliver, hat.frames,
        Machine.deliverCall]
    rcases Machine.enter_script code { (l.state j).machine with
        frames := .call .body :: fs, control := .deliver (.ok []) } id proto args with
      ⟨a, rfl, hc, hf⟩ | ⟨outcome, hc, hf⟩
    · rw [← henter] at hc hf
      exact hscripts _ a _ hbody hforward ⟨hc, hf⟩
    · rw [← henter] at hc hf
      exact ⟨j + 1, outcome, Nat.le_refl _, hc, hf⟩

/-- Where passes end, every call ends, however many more may begin. -/
theorem calls_end_of_drains (h : l.LoopFree (k ≤ ·)) (hdrains : ∀ d, l.DrainsEnd k N q d)
    (d : Nat) :
    l.CallsEnd k N q d := by
  induction d with
  | zero => exact h.calls_end_zero
  | succ d ih => exact h.calls_end_succ (h.scripts_end ih) (h.programs_end ih (hdrains d))

/-- Every call ends, for any number of actions that are still to be taken off queues. -/
theorem calls_end (h : l.LoopFree (k ≤ ·))
    (hdry : ∀ n, N ≤ n → k ≤ n → l.event n = .advance → ¬ (l.state n).machine.Pops) (q d : Nat) :
    l.CallsEnd k N q d := by
  -- by induction on the actions, and for each number of these on the calls that may begin
  have hdrains : ∀ q d, l.DrainsEnd k N q d := by
    intro q
    induction q with
    | zero => exact fun d => h.drains_end_zero hdry
    | succ q ih =>
      intro d
      have hcalls := h.calls_end_of_drains ih d
      exact h.drains_end_succ (h.programs_end hcalls (ih d)) (ih d)
  exact h.calls_end_of_drains (hdrains q) d

end LoopFree

/-! ## Protected calls -/

/-- What lasts forever asks as much of all steps from there on. -/
private theorem LoopFree.of_lasts (h : l.LoopFree (l.Lasts k)) (hlasts : ∀ e, ¬ l.Spans k e) :
    l.LoopFree (k ≤ ·) := by
  -- a call that is never over lasts at every step
  have hon : ∀ n, k ≤ n → l.Lasts k n := fun n hn => ⟨hn, fun e _ => hlasts e⟩
  obtain ⟨N, hdry⟩ := h.drained
  exact {
    disarmed := fun n hn => h.disarmed n (hon n hn)
    forward := fun n hn => h.forward n (hon n hn)
    drained := ⟨N, fun n hN hn => hdry n hN (hon n hn)⟩
    answered := fun n hn => h.answered n (hon n hn)
    moves := fun n hn => h.moves n (hon n hn) }

variable {held : Held} {f : Value κ} {args : List (Value κ)} {next : Reply κ → Program κ τ ρ}

/-- A protected call of host code comes back to the frames that it was made above. -/
private theorem LoopFree.comes_back (h : l.LoopFree (k ≤ ·)) (hstep : l.event k = .advance)
    (hc : (l.state k).machine.control = .run held (.ask (.pcall f args) next)) :
    ∃ e, k < e ∧ (l.state e).machine.frames = (l.state k).machine.frames := by
  -- the call begins above the boundary and the host code that made it
  have hcall : l.At (k + 1) (.invoke f (held.takeAll args).1)
      (.boundary (l.state k).machine.interp.stack.size (l.state k).machine.interp.depth ::
        .host (held.takeAll args).2 next :: (l.state k).machine.frames) := by
    apply At.of_step (l.machine_succ hstep)
    all_goals
      rw [Machine.step, hc]
      rfl
  obtain ⟨N, hdry⟩ := h.drained
  -- no more calls can be in progress than the limit allows, whatever is in progress now
  obtain ⟨j, outcome, hkj, hat⟩ := h.calls_end hdry N
    (l.state 0).machine.interp.limits.maxCallDepth _ _ _ _
    ⟨Nat.le_succ k, Nat.le_add_left N _, Nat.le_add_left _ _⟩ hcall
  obtain ⟨i, outcome', hji, hat⟩ := h.boundary_ends (by omega) hat
  obtain ⟨e, held', r, hie, hat⟩ := h.host_goes_on (by omega) hat
  exact ⟨e, by omega, hat.frames⟩

/-- What begins and comes back is over at some step. -/
private theorem exists_spans (hstep : l.event k = .advance)
    (hbegins : (l.state k).machine.control.begins = true)
    (hback : ∃ e, k < e ∧ (l.state e).machine.frames = (l.state k).machine.frames) :
    ∃ e, l.Spans k e := by
  classical
  -- it is over at the first such step
  obtain ⟨hlater, hframes⟩ := Nat.find_spec hback
  exact ⟨Nat.find hback, hstep, hbegins, hlater, hframes,
    fun j hkj hje hj => Nat.find_min hback hje ⟨hkj, hj⟩⟩

/-- Only backward jumps can make a script diverge. Let host code make a protected call, of whatever
value and with whatever limits. As long as the call lasts, let the hook be disarmed, and let each
script function that is called jump forward only, by whomever it is called: scripts and host code
call one another, and catch what fails, as they like. Let the host's own queues, from which host
code may run actions, be run dry at some time, and whoever is waited for come. Then the call ends,
with results or with an error, and the host code goes on. For a script function that jumps forward
only is at a later place of its code each time that it fetches an instruction, until it is left. -/
theorem forward_scripts_end (l : Life code) {k : Nat} {held : Held} {f : Value κ}
    {args : List (Value κ)} {next : Reply κ → Program κ τ ρ} (hstep : l.event k = .advance)
    (hc : (l.state k).machine.control = .run held (.ask (.pcall f args) next))
    (h : l.LoopFree (l.Lasts k)) :
    (∃ e held' r, l.Spans k e ∧ (l.state e).machine.control = .run held' (next r) ∧
      ((∃ vs, r = .values vs) ∨ ∃ error, r = .failed error)) ∧
    ∀ i j (a b : Activation κ) fs, i < j → l.event i = .advance →
      l.At i .fetch (.script a .ready :: fs) → l.At j .fetch (.script b .ready :: fs) →
      a.proto.IsForward → (∀ n, i < n → n < j → (l.state n).machine.frames ≠ fs) → a.pc < b.pc := by
  constructor
  · obtain ⟨e, hspans⟩ : ∃ e, l.Spans k e := by
      -- if it never came back, the loop-free steps would go on for ever, and then it would come
      -- back
      by_contra hnone
      have hlasts : ∀ e, ¬ l.Spans k e := fun e hspans => hnone ⟨e, hspans⟩
      have hback := (h.of_lasts hlasts).comes_back hstep hc
      exact hnone (exists_spans hstep (by rw [hc]; rfl) hback)
    obtain ⟨held', r, hcontrol, hresult⟩ := hspans.reply hc
    exact ⟨e, held', r, hspans, hcontrol, hresult⟩
  · -- the second part needs no end: it is about any two fetches of one activation
    intro i j a b fs hij he hi hj hforward hstays
    exact l.pc_lt_of_fetches hij he hi.control hi.frames hforward hj.control hj.frames hstays

/-! ## A refusal that is caught, again and again -/

/-- A script function that calls its argument with itself, drops what came of that, and does so once
more. -/
private def retries : Prototype :=
  .ofCode "retries" 1 #[.getLocal 0, .getLocal 0, .pcall 1, .pop, .pop, .getLocal 0, .getLocal 0,
    .pcall 1, .ret 1] rfl

/-- The embedder calls the function with itself. -/
private def retryingEvent (n : Nat) : Event Unit Unit Unit :=
  [.start (.ask (.pcall (.fn (.script 0 retries)) [.fn (.script 0 retries)])
    fun _ => .finish (.ok [])) []].getD n .advance

/-- Two calls may be in progress. -/
private def retrying : Life (idleCode : Meaning Unit Unit Unit) where
  state := (System.opening (.idle (.initial 0 0 ⟨2, 16⟩) .empty ⟨shallowStore, #[], 0⟩)).after
    idleCode retryingEvent
  event := retryingEvent
  begun := .inl ⟨(Store.empty.addHeap MemorySource.system.heap).1, 0, ⟨2, 16⟩, shallowStore, _,
    ⟨shallowStore, #[], 0⟩, rfl, rfl⟩
  next _ := rfl

/-- Whether what is done next is no call of a script function that may jump back. -/
private def keepsForward : Control κ τ ρ → Bool
  | .invoke (.fn (.script _ proto)) _ => decide proto.IsForward
  | _ => true

/-- Whether an interpreter is disarmed, goes on by itself and calls no script that may jump back. -/
private def goesForward (l : Life code) (n : Nat) : Bool :=
  (l.state n).machine.mailbox.slot.mask.isEmpty && (l.state n).machine.control.isGoing &&
    keepsForward (l.state n).machine.control && l.isMove n

/-- What goes on by itself up to its end asks for nothing more. -/
private theorem LoopFree.of_goesForward {e : Nat} (hspans : l.Spans k e)
    (h : ∀ n < e, k ≤ n → l.goesForward n = true) : l.LoopFree (l.Lasts k) := by
  have hon (n : Nat) (hn : l.Lasts k n) : (l.state n).machine.mailbox.slot.mask.isEmpty = true ∧
      (l.state n).machine.control.isGoing = true ∧
      keepsForward (l.state n).machine.control = true ∧ l.isMove n = true := by
    -- a step at which the call still lasts is one before its end
    have hlt : n < e := Nat.lt_of_not_le fun hle => hn.2 e hle hspans
    simpa [goesForward, and_assoc] using h n hlt hn.1
  refine ⟨fun n hn => (hon n hn).1, fun n hn id proto args hc => ?_,
    ⟨e, fun n hen hn => absurd hspans (hn.2 e hen)⟩, fun n hn x given held next hc => ?_,
    fun n hn => ⟨n, Nat.le_refl n, (hon n hn).2.2.2⟩⟩
  · have hkeeps := (hon n hn).2.2.1
    rw [hc] at hkeeps
    exact of_decide_eq_true hkeeps
  · have hgoing := (hon n hn).2.1
    rw [hc] at hgoing
    exact absurd hgoing Bool.false_ne_true

/-- Whether a call is refused at the next step for want of depth, behind a protected call. -/
private def refuses (l : Life code) (n : Nat) : Bool :=
  match (l.state n).machine.control, (l.state n).machine.frames with
  | .invoke .., .script _ (.pcall ..) :: _ =>
    (l.state n).machine.interp.limits.maxCallDepth ≤ (l.state n).machine.interp.depth
  | _, _ => false

/-- The function calls itself twice at each depth; the innermost calls are refused, and each refusal
is caught. The call that began it all ends, and meanwhile the function goes through its code. -/
theorem overflow_caught_and_retried_ends :
    ∃ l : Life (idleCode : Meaning Unit Unit Unit), l.LoopFree (l.Lasts 1) ∧
      (∀ n ∈ [32, 54, 99, 121], l.refuses n = true) ∧
      (∃ e held, l.Spans 1 e ∧ (l.state e).machine.control = .run held (.finish (.ok []))) ∧
      ∃ a b fs, l.At 5 .fetch (.script a .ready :: fs) ∧ l.At 13 .fetch (.script b .ready :: fs) ∧
        a.pc < b.pc := by
  -- the call is over after so many steps, and all of them are loop-free
  have hspans : retrying.Spans 1 140 :=
    .of_length rfl (by decide +kernel) (by decide) (by decide +kernel) (by decide +kernel)
  have hfree : retrying.LoopFree (retrying.Lasts 1) := .of_goesForward hspans (by decide +kernel)
  obtain ⟨⟨e, held, -, hends, hcontrol, -⟩, honce⟩ :=
    forward_scripts_end retrying (k := 1) rfl rfl hfree
  have habove : ∀ n < 13, 5 < n → (retrying.state n).machine.frames.length ≠ 3 := by
    decide +kernel
  refine ⟨retrying, hfree, by decide +kernel, ⟨e, held, hends, hcontrol⟩, _, _, _, ⟨rfl, rfl⟩,
    ⟨rfl, rfl⟩, honce 5 13 _ _ _ (by decide) rfl ⟨rfl, rfl⟩ ⟨rfl, rfl⟩ (by decide +kernel) ?_⟩
  intro n hafter hbefore hframes
  exact habove n hbefore hafter (by rw [hframes]; rfl)

end Life

end Safepoint
