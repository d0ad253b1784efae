import Safepoint.Proofs.System.Invariant

/-!
# The order of interjected actions

Two histories go with a run: the actions that callers have put in the queue so far, each with its
caller, and the actions that drain passes have taken off the queue and set out to run. The queue is
what the one has beyond the other, whatever the actions do, however they end, and whatever becomes
of cancellations in between.

## Key results

- `Run.started_append_queue`: the actions started so far and the queue are the actions enqueued
- `Run.length_started`: what was started has returned, or runs
- `Run.started_in_order_once`: each action is started at most once, in the order of the queue, and
  never after its interpreter was dropped
-/

namespace Safepoint

variable {κ τ ρ : Type}

namespace System

/-- The action that an event puts in the queue, and its caller. -/
def enqueuing? (s : System κ τ ρ) (e : Event κ τ ρ) : Option (Caller × κ) :=
  match s.access? e with
  | some (c, p) => p.enqueued?.map fun action => (c, action)
  | none => none

/-- The action that an event takes off the queue to run it. -/
def starting? (s : System κ τ ρ) : Event κ τ ρ → Option κ
  | .advance =>
    match s.machine.control with
    | .drain (.mailbox _) _ => s.machine.mailbox.queue.head?
    | _ => none
  | _ => none

variable {s : System κ τ ρ} {e : Event κ τ ρ}

/-- Only a drain pass starts actions. -/
theorem starting?_eq_none
    (h : ∀ event ran, s.machine.control ≠ .drain (.mailbox event) ran) : s.starting? e = none := by
  unfold starting?
  split
  · split
    next event ran hc => exact absurd hc (h event ran)
    next => rfl
  · rfl

/-- Ordinary work starts no action. -/
private theorem starting?_of_isOrdinary (h : s.machine.control.isOrdinary = true) :
    s.starting? e = none := by
  apply starting?_eq_none
  intro event ran hc
  rw [hc] at h
  exact nomatch h

/-- A step at a syncpoint starts no action. -/
private theorem starting?_of_atSyncpoint (h : s.machine.control.atSyncpoint = true) :
    s.starting? e = none := by
  apply starting?_eq_none
  intro event ran hc
  rw [hc] at h
  exact nomatch h

/-- Only the interpreter's own thread starts actions. -/
private theorem starting?_of_aside (h : e ≠ .advance) : s.starting? e = none := by
  cases e with
  | advance => exact absurd rfl h
  | _ => rfl

/-- What moves other than accesses do to the queue: a drain pass takes the oldest action off. -/
private theorem queue_move {code : Meaning κ τ ρ} {m' : Machine κ τ ρ} (h : s.machine.Move code m')
    (hpost : s.machine.PostsNothing) :
    (s.starting? .advance).toList ++ m'.mailbox.queue = s.machine.mailbox.queue := by
  cases h with
  | works hw hord => simp [starting?_of_isOrdinary hord, hw.mailbox]
  | synced hat => simp [starting?_of_atSyncpoint hat]
  | posted hc hgoing => exact absurd hgoing (hpost.not_going hc)
  | dispatched hc _ _ _ hmail => simp [starting?, hc, hmail]
  | ended hc _ hmail => simp [starting?, hc, hmail]
  -- the one move that starts an action takes it off the queue
  | popped hc hq => simp [starting?, hc, hq, Machine.await]
  | drained hc hq => simp [starting?, hc, hq, Machine.goto, Machine.note, Machine.mapStore]
  | returned hc | rested hc => simp [starting?, hc]
  | flagRead hc | entered hc | raised hc | lowered hc | disarmed hc | acquired hc | reentered hc
  | succeeded hc | failed hc | measured hc | emptied hc | rearmed hc | told hc | unmarked hc =>
    simp only [starting?, hc, Option.toList_none, List.nil_append]
    rfl

/-- An event takes an action off the front of the queue, or puts one at its end, or leaves the queue
alone. -/
theorem queue_step (code : Meaning κ τ ρ) (h : s.Sound) :
    (s.starting? e).toList ++ (s.step code e).machine.mailbox.queue =
      s.machine.mailbox.queue ++ ((s.enqueuing? e).map Prod.snd).toList := by
  cases hacc : s.access? e with
  | some cp =>
    obtain ⟨c, p⟩ := cp
    -- who makes an access for a call is at no drain pass
    have hidle : s.starting? e = none := by
      obtain ⟨-, ⟨t, rfl, -⟩ | ⟨rfl, -, hc⟩⟩ := access?_eq_some hacc
      · rfl
      · simp [starting?, hc]
    rw [mailbox_of_access code hacc, HostPhase.queue_step]
    simp [hidle, enqueuing?, hacc, Function.comp_def]
  | none =>
    by_cases he : e = .advance
    · subst he
      have := queue_move (h.move code) (postsNothing_of_access?_eq_none hacc)
      simpa [enqueuing?, hacc, step] using this
    · obtain ⟨keepers, hk⟩ := mailbox_of_aside code hacc he
      simp [starting?_of_aside he, hk, enqueuing?, hacc]

/-- What is started was the oldest action in the queue, and a drain pass is under way. -/
private theorem starting?_eq_some {action : κ} (h : s.starting? e = some action) :
    e = .advance ∧ (∃ event ran, s.machine.control = .drain (.mailbox event) ran) ∧
      ∃ rest, s.machine.mailbox.queue = action :: rest := by
  cases e with
  | advance =>
    simp only [starting?] at h
    split at h
    next event ran hc =>
      refine ⟨rfl, ⟨event, ran, hc⟩, ?_⟩
      -- only a queue that is not empty gives an action
      cases hq : s.machine.mailbox.queue with
      | nil => simp [hq] at h
      | cons a rest => exact ⟨rest, by simpa [hq] using h⟩
    next => exact nomatch h
  | _ => exact nomatch h

/-- An action that is taken off the queue is run by its meaning, in a pass of its own safepoint. -/
theorem step_of_starting (code : Meaning κ τ ρ) {action : κ} (h : s.starting? e = some action) :
    (s.step code e).machine.control = .run [] (code action []) ∧
      ∃ event ran, (s.step code e).machine.frames =
        .pass (.mailbox event) ran :: s.machine.frames := by
  obtain ⟨rfl, ⟨event, ran, hc⟩, rest, hq⟩ := starting?_eq_some h
  simp only [step, Machine.step, hc, Machine.drain, Mailbox.pop?_of_cons hq]
  exact ⟨rfl, event, ran, rfl⟩

/-- The action that is started is the first of the queue. -/
theorem head_of_starting {action : κ} (h : s.starting? e = some action) :
    s.machine.mailbox.queue[0]? = some action := by
  obtain ⟨-, -, rest, hq⟩ := starting?_eq_some h
  simp [hq]

/-- Whether an event is the return of an action to the pass that runs it. -/
def ending (s : System κ τ ρ) : Event κ τ ρ → Bool
  | .advance =>
    match s.machine.control, s.machine.frames with
    | .deliver _, f :: _ => f.isPass
    | _, _ => false
  | _ => false

/-- Only the interpreter's own thread has an action end. -/
private theorem ending_of_aside (h : e ≠ .advance) : s.ending e = false := by
  cases e with
  | advance => exact absurd rfl h
  | _ => rfl

/-- The actions that run. -/
def running (s : System κ τ ρ) : Nat :=
  s.machine.frames.countP Frame.isPass

/-- An action that returns was running. -/
theorem running_of_ending (h : s.ending e = true) : 0 < s.running := by
  cases e with
  | advance =>
    simp only [ending] at h
    split at h
    next _ f rest _ hf => simp [running, hf, h]
    next => exact nomatch h
  | _ => exact nomatch h

/-- Among frames of ordinary work there is none of a pass. -/
private theorem countP_isPass_of_isOrdinary {fs : List (Frame κ τ ρ)}
    (h : ∀ f ∈ fs, f.isOrdinary) : fs.countP Frame.isPass = 0 := by
  rw [List.countP_eq_zero]
  intro f hf hpass
  simp [Frame.not_isPass_of_isOrdinary (h f hf)] at hpass

/-- Outside of the handler, no action runs. -/
theorem running_of_outside (h : s.machine.Posture none) : s.running = 0 := by
  cases h with
  | resting _ hf => simp [running, hf]
  | working _ hf => exact countP_isPass_of_isOrdinary hf

/-- Ordinary work runs as many actions as before. -/
private theorem countP_of_works {m m' : Machine κ τ ρ} (h : m.Works m') :
    m'.frames.countP Frame.isPass = m.frames.countP Frame.isPass := by
  obtain ⟨popped, pushed, rest, hpopped, hpushed, hfrom, hto⟩ := h.frames
  rw [hfrom, hto, List.countP_append, List.countP_append, countP_isPass_of_isOrdinary hpopped,
    countP_isPass_of_isOrdinary hpushed]

/-- An action runs from its start to its return: moves of the machine. -/
private theorem running_move {code : Meaning κ τ ρ} {m' : Machine κ τ ρ}
    (h : s.machine.Move code m') :
    m'.frames.countP Frame.isPass + (s.ending .advance).toNat =
      s.running + (s.starting? .advance).toList.length := by
  cases h with
  | works hw hord hdelivers =>
    -- what ordinary work delivers goes to a frame of ordinary work, and so to no pass
    have hend : s.ending .advance = false := by
      simp only [ending]
      split
      next outcome f rest hc hf => exact Frame.not_isPass_of_isOrdinary (hdelivers _ _ _ hc hf)
      next => rfl
    simp [hend, starting?_of_isOrdinary hord, running, countP_of_works hw]
  | synced hat =>
    have hend : s.ending .advance = false := by
      simp only [ending]
      split
      next hc _ => simp [hc, Control.atSyncpoint] at hat
      next => rfl
    simp [hend, starting?_of_atSyncpoint hat, running]
  | posted hc _ _ _ _ hframes => simp [ending, starting?, hc, running, hframes]
  | dispatched hc _ _ _ _ _ _ hframes =>
    simp [ending, starting?, hc, running, hframes, Frame.isPass]
  -- one action more waits for its end
  | popped hc hq =>
    simp [ending, starting?, hc, hq, running, Machine.await, List.countP_cons, Frame.isPass]
  | drained hc hq =>
    simp [ending, starting?, hc, hq, running, Machine.goto, Machine.note, Machine.mapStore]
  -- and one less
  | ended hc hf _ _ _ hframes =>
    simp [ending, starting?, hc, hf, running, hframes, List.countP_cons, Frame.isPass]
  | returned hc hf => simp [ending, starting?, hc, hf, running, Frame.isPass]
  | rested hc => simp [ending, starting?, hc, running]
  | flagRead hc | entered hc | raised hc | lowered hc | disarmed hc | acquired hc | reentered hc
  | succeeded hc | failed hc | measured hc | emptied hc | rearmed hc | told hc | unmarked hc =>
    simp only [ending, starting?, hc, running]
    rfl

/-- An action runs from its start to its return, whatever happens in between. -/
theorem running_step (code : Meaning κ τ ρ) (h : s.Sound) :
    (s.step code e).running + (s.ending e).toNat =
      s.running + (s.starting? e).toList.length := by
  by_cases he : e = .advance
  · subst he
    exact running_move (h.move code)
  · -- what others do neither starts an action nor lets one return
    have hsame : (s.step code e).machine.frames = s.machine.frames := by
      cases aside_step (s := s) code he with
      | rested _ hframes | answered _ _ hframes | dropped _ _ hframes => exact hframes
      | started hidle _ hframes => rw [hframes, h.idle hidle.2]
    simp [running, hsame, starting?_of_aside he, ending_of_aside he]

/-- A dropped interpreter starts no action. -/
theorem starting?_of_dropped (h : s.machine.control.isFinished = true) : s.starting? e = none := by
  apply starting?_eq_none
  intro event ran hc
  rw [hc] at h
  exact nomatch h

end System

namespace Run

variable {code : Meaning κ τ ρ}

/-- The actions enqueued so far, each with its caller, the oldest first. -/
def enqueued (r : Run code) : Nat → List (Caller × κ)
  | 0 => []
  | n + 1 => r.enqueued n ++ ((r.state n).enqueuing? (r.event n)).toList

/-- The actions started so far, the first first. -/
def started (r : Run code) : Nat → List κ
  | 0 => []
  | n + 1 => r.started n ++ ((r.state n).starting? (r.event n)).toList

/-- At step `n` an action is started, `p` others having been started before it. -/
def Starts (r : Run code) (n p : Nat) : Prop :=
  ((r.state n).starting? (r.event n)).isSome ∧ (r.started n).length = p

/-- How many actions have returned so far. -/
def ended (r : Run code) : Nat → Nat
  | 0 => 0
  | n + 1 => r.ended n + ((r.state n).ending (r.event n)).toNat

/-- At step `n` an action returns, `p` others having returned before it. -/
def Ends (r : Run code) (n p : Nat) : Prop :=
  (r.state n).ending (r.event n) = true ∧ r.ended n = p

/-- The actions started so far, followed by those that wait, are the actions enqueued so far. -/
theorem started_append_queue (r : Run code) (n : Nat) :
    r.started n ++ (r.state n).machine.mailbox.queue = (r.enqueued n).map Prod.snd := by
  induction n with
  | zero =>
    obtain ⟨-, -, hmail, -⟩ := System.opened_machine r.opened
    simp [started, enqueued, hmail, Mailbox.empty, Mailbox.keep]
  | succ n ih =>
    -- what is started leaves the front of the queue, and what is enqueued comes to its end
    have hstep := System.queue_step (e := r.event n) code (r.sound n)
    rw [started, enqueued, r.next, List.append_assoc, hstep, ← List.append_assoc, ih]
    cases (r.state n).enqueuing? (r.event n) <;> simp

/-- What was started stays started. -/
theorem started_prefix (r : Run code) {n m : Nat} (h : n ≤ m) : r.started n <+: r.started m := by
  induction m, h using Nat.le_induction with
  | base => exact List.prefix_refl _
  | succ m _ ih => exact ih.trans (List.prefix_append _ _)

/-- The actions that were started are never fewer. -/
theorem started_length_le (r : Run code) {n m : Nat} (h : n ≤ m) :
    (r.started n).length ≤ (r.started m).length :=
  (r.started_prefix h).length_le

/-- Each start has its own place. -/
theorem Starts.unique {r : Run code} {i j p : Nat} (hi : r.Starts i p) (hj : r.Starts j p) :
    i = j := by
  -- a start makes the history longer, so a later one has more before it
  have later {i j : Nat} (hi : r.Starts i p) (hj : r.Starts j p) : ¬ i < j := by
    intro hlt
    have hlen : (r.started (i + 1)).length = p + 1 := by
      obtain ⟨action, ha⟩ := Option.isSome_iff_exists.mp hi.1
      simp [started, ha, hi.2]
    have hle := r.started_length_le (show i + 1 ≤ j from hlt)
    have := hj.2
    omega
  have := later hi hj
  have := later hj hi
  omega

/-- Whatever is in the history was started at some step. -/
theorem exists_starts (r : Run code) {n p : Nat} (h : p < (r.started n).length) :
    ∃ i < n, r.Starts i p := by
  induction n with
  | zero => simp [started] at h
  | succ n ih =>
    by_cases hp : p < (r.started n).length
    · obtain ⟨i, hi, hs⟩ := ih hp
      exact ⟨i, by omega, hs⟩
    · -- it was not in the history before this step, and so this step started it
      cases hstart : (r.state n).starting? (r.event n) with
      | none => simp [started, hstart, hp] at h
      | some action =>
        have hlen : p < (r.started n).length + 1 := by simpa [started, hstart] using h
        refine ⟨n, by omega, ?_, by omega⟩
        simp [hstart]

/-- What is started is the action that was enqueued in that place, and it is run by its meaning. -/
theorem Starts.runs {r : Run code} {n p : Nat} (h : r.Starts n p) :
    ∃ c action, (r.enqueued n)[p]? = some (c, action) ∧
      (r.state (n + 1)).machine.control = .run [] (code action []) ∧
      ∃ event ran, (r.state (n + 1)).machine.frames =
        .pass (.mailbox event) ran :: (r.state n).machine.frames := by
  obtain ⟨action, ha⟩ := Option.isSome_iff_exists.mp h.1
  have hstep := System.step_of_starting code ha
  rw [← r.next] at hstep
  -- the queue begins with the action, so the history of enqueued actions has it in place `p`
  have hplace : ((r.enqueued n).map Prod.snd)[p]? = some action := by
    have hlen : (r.started n).length = p := h.2
    rw [← r.started_append_queue n, List.getElem?_append_right (by omega), hlen, Nat.sub_self]
    exact System.head_of_starting ha
  obtain ⟨⟨c, a⟩, hget, rfl⟩ : ∃ x, (r.enqueued n)[p]? = some x ∧ x.2 = action := by
    simpa [List.getElem?_map] using hplace
  exact ⟨c, a, hget, hstep⟩

/-- Nothing is started once the interpreter was dropped. -/
theorem started_of_dropped (r : Run code) {n m : Nat} (h : n ≤ m)
    (hn : (r.state n).isOpen = false) : r.started m = r.started n := by
  induction m, h using Nat.le_induction with
  | base => rfl
  | succ m hm ih =>
    have hfin := (r.sound m).dropped (r.dropped hm hn)
    simp [started, System.starting?_of_dropped hfin, ih]

/-- What was started has returned or runs. -/
theorem length_started (r : Run code) (n : Nat) :
    (r.started n).length = r.ended n + (r.state n).running := by
  -- what has been started has ended or is still running, and this is so after each step
  induction n with
  | zero =>
    obtain ⟨-, -, -, hframes, -⟩ := System.opened_machine r.opened
    simp [started, ended, System.running, hframes]
  | succ n ih =>
    have hstep := System.running_step (e := r.event n) code (r.sound n)
    rw [started, ended, List.length_append, r.next]
    omega

/-- Whatever has returned did so at some step. -/
theorem exists_ends (r : Run code) {n p : Nat} (h : p < r.ended n) : ∃ j < n, r.Ends j p := by
  induction n with
  | zero => simp [ended] at h
  | succ n ih =>
    by_cases hp : p < r.ended n
    · obtain ⟨j, hj, he⟩ := ih hp
      exact ⟨j, by omega, he⟩
    · -- it had not returned before this step
      cases hend : (r.state n).ending (r.event n) with
      | false => simp [ended, hend, hp] at h
      | true =>
        have hlt : p < r.ended n + 1 := by simpa [ended, hend] using h
        exact ⟨n, by omega, hend, by omega⟩

/-- What returns was started before. -/
theorem Ends.starts {r : Run code} {n p : Nat} (h : r.Ends n p) : ∃ i < n, r.Starts i p := by
  -- an action that returns was still running, so it is among those started
  have hrun := System.running_of_ending h.1
  have hlen := r.length_started n
  have hended := h.2
  exact r.exists_starts (by omega)

/-- In every state of a run, the actions started so far followed by those in the queue are the
actions enqueued so far. So each caller's actions are started in the order it enqueued them; what is
started in some place is started there at one step only, however it ends; it is the action enqueued
in that place, and it is run; and what is in the queue when the interpreter is dropped stays
there. -/
theorem started_in_order_once (r : Run code) (n : Nat) :
    r.started n ++ (r.state n).machine.mailbox.queue = (r.enqueued n).map Prod.snd ∧
      (∀ c, ((r.enqueued n).take (r.started n).length).filter (·.1 = c) <+:
        (r.enqueued n).filter (·.1 = c)) ∧
      (∀ p < (r.started n).length, ∃ i < n, r.Starts i p ∧ ∀ j, r.Starts j p → j = i) ∧
      (∀ p, r.Starts n p → ∃ c action, (r.enqueued n)[p]? = some (c, action) ∧
        (r.state (n + 1)).machine.control = .run [] (code action []) ∧
        ∃ event ran, (r.state (n + 1)).machine.frames =
          .pass (.mailbox event) ran :: (r.state n).machine.frames) ∧
      ((r.state n).isOpen = false → ∀ m ≥ n, r.started m = r.started n) := by
  refine ⟨r.started_append_queue n, ?_, ?_, ?_, ?_⟩
  · -- what was started is the beginning of what was enqueued, and so for each caller
    intro c
    exact (List.take_prefix _ _).filter _
  · intro p hp
    obtain ⟨i, hi, hs⟩ := r.exists_starts hp
    exact ⟨i, hi, hs, fun j hj => hj.unique hs⟩
  · intro p hp
    exact hp.runs
  · intro hn m hm
    exact r.started_of_dropped hm hn

end Run

end Safepoint
