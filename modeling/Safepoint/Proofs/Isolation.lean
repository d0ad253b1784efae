import Safepoint.Proofs.System.Steady

/-!
# Isolation of calls

A call, a safepoint and a request of host code begin on top of frames that wait, and end when those
frames are on top again. In between, scripts, native functions and interjected actions run to any
depth, and any of them may fail. None of this leaves a trace in the interpreter, save in its
globals, its encoding and its count of instructions: the stack is the same value by value, and so
are the floor, the depth, and the hook with its bookkeeping. Nor does what is underneath change for
a while: all the time the stack that was there at the beginning lies untouched at the bottom.

## Key results

- `Machine.kept_or_handed`: a frame that waits for an outcome is left alone until there is one
- `Life.call_isolated`: this, for every call, safepoint and request
- `Life.Spans.deliver`, `Life.Spans.reply`: a call ends with an outcome, and a protected call of
  host code with results or an error
-/

namespace Safepoint

variable {κ τ ρ : Type}

/-- Whether what is done next begins on top of the frames at hand: a call, a safepoint, or a request
of host code. -/
def Control.begins : Control κ τ ρ → Bool
  | .invoke .. | .poll _ | .run _ (.ask ..) => true
  | _ => false

/-- A call or a request that begins takes no frame off. -/
theorem Control.takes_of_begins {c : Control κ τ ρ} (h : c.begins = true) : c.takes = 0 := by
  cases c <;> first | rfl | exact nomatch h

/-- Two interpreters that last the same differ only in what work may change for good. -/
theorem Interpreter.eq_of_lasting {i j : Interpreter κ} (h : j.lasting = i.lasting) :
    j = { i with
      globals := j.globals, encoding := j.encoding, instructions := j.instructions } := by
  cases i
  cases j
  simp_all [lasting]

namespace Machine

variable {m : Machine κ τ ρ} {above fs : List (Frame κ τ ρ)} {i : Interpreter κ}

/-- Frames with others above them are not taken off, nor are any where nothing is taken off. -/
private theorem drop_takes {c : Control κ τ ρ} (h : above ≠ [] ∨ c.takes = 0) :
    ∃ kept, (above ++ fs).drop c.takes = kept ++ fs ∧
      above = (above ++ fs).take c.takes ++ kept := by
  -- what is done next takes off one frame at most
  cases above with
  | nil =>
    have hnone : c.takes = 0 := by simpa using h
    rw [hnone]
    exact ⟨[], rfl, rfl⟩
  | cons f above =>
    cases c <;>
      first
        | exact ⟨f :: above, rfl, rfl⟩
        | exact ⟨above, rfl, rfl⟩

/-- A step keeps the frames that have others above them, and what they are owed. -/
theorem above_step (code : Meaning κ τ ρ) (hm : m.Steady) (hframes : m.frames = above ++ fs)
    (hi : (unwound above m.interp).lasting = i.lasting)
    (htop : above ≠ [] ∨ m.control.takes = 0) :
    ∃ above', (m.step code).frames = above' ++ fs ∧
      (unwound above' (m.step code).interp).lasting = i.lasting := by
  obtain ⟨-, pushed, hpushed, -, howed⟩ := owes_step code hm.counting hm.fitting hm.order hm.laid
  obtain ⟨kept, hdrop, htake⟩ : ∃ kept, (above ++ fs).drop m.control.takes = kept ++ fs ∧
      above = (above ++ fs).take m.control.takes ++ kept := drop_takes htop
  rw [← hframes] at hdrop htake
  refine ⟨pushed ++ kept, ?_, ?_⟩
  · rw [hpushed, hdrop, List.append_assoc]
  · rw [unwound_append, unwound_congr kept howed, ← unwound_append, ← htake]
    exact hi

/-! ## Calls and protected calls -/

/-- Only an outcome takes off a frame that is neither a script function's nor host code's. -/
private theorem deliver_of_takes {f : Frame κ τ ρ} (hfit : m.Fitting) (hf : m.frames = f :: fs)
    (hscript : f.waitsFor .script = false) (hreply : f.waitsFor .reply = false)
    (htakes : m.control.takes ≠ 0) : ∃ outcome, m.control = .deliver outcome := by
  have not_waits {w : Awaited} (hw : Waits w m.frames) : f.waitsFor w = true := by
    rw [hf] at hw
    exact hw.1
  -- only work that waits for an outcome takes off a frame that waits for neither of the others
  cases hc : m.control with
  | deliver outcome => exact ⟨outcome, rfl⟩
  | fetch | execute _ =>
    have hw := not_waits (hfit.waits (w := .script) hc (by simp [Control.isFor]))
    simp [hscript] at hw
  | reply _ =>
    have hw := not_waits (hfit.waits (w := .reply) hc (by simp [Control.isFor]))
    simp [hreply] at hw
  | _ => exact absurd (by rw [hc]; rfl) htakes

/-- A frame that nothing but an outcome takes off is kept, and owed what it was owed, until an
outcome is handed to it. -/
theorem kept_or_handed (code : Meaning κ τ ρ) (hm : m.Steady) {f : Frame κ τ ρ}
    (hframes : m.frames = above ++ f :: fs) (hscript : f.waitsFor .script = false)
    (hreply : f.waitsFor .reply = false) :
    (∃ above', (m.step code).frames = above' ++ f :: fs ∧
        (unwound above' (m.step code).interp).lasting = (unwound above m.interp).lasting) ∨
      above = [] ∧ ∃ outcome, m.control = .deliver outcome := by
  -- either what is done next is done above the frame, or the frame itself gets an outcome
  by_cases htop : above ≠ [] ∨ m.control.takes = 0
  · exact .inl (above_step code hm hframes rfl htop)
  · obtain ⟨habove, htakes⟩ := not_or.mp htop
    obtain rfl : above = [] := not_not.mp habove
    exact .inr ⟨rfl, deliver_of_takes hm.fitting hframes hscript hreply htakes⟩

/-- A call goes on to its next stage, or ends with an outcome. -/
private theorem deliverCall_cases (code : Meaning κ τ ρ) (m : Machine κ τ ρ) (stage : Stage κ)
    (outcome : Outcome κ) (hdepth : 0 < m.interp.depth) :
    (∃ above stage', (m.deliverCall code stage outcome).frames =
        above ++ .call stage' :: m.frames) ∨
      (m.deliverCall code stage outcome).frames = m.frames ∧
        ∃ outcome', (m.deliverCall code stage outcome).control = .deliver outcome' := by
  have exits (m : Machine κ τ ρ) (hdepth : 0 < m.interp.depth) (outcome : Outcome κ) :
      (m.exitCall outcome).frames = m.frames ∧
        ∃ outcome', (m.exitCall outcome).control = .deliver outcome' := by
    unfold exitCall
    split
    next h => omega
    next => exact ⟨rfl, _, rfl⟩
  -- the stage decides whether the function is entered, the results are handed on or the call is
  -- left
  unfold deliverCall
  split
  next f args vs =>
    left
    obtain ⟨-, above, hframes, -⟩ :=
      owes_enter code { m with frames := .call .body :: m.frames } f args
    exact ⟨above, .body, hframes⟩
  next f args e => exact .inr (exits (m.releaseAll args) hdepth _)
  next results => exact .inl ⟨[], .leaving results, rfl⟩
  next e => exact .inr (exits m hdepth _)
  next results vs => exact .inr (exits m hdepth _)
  next results e => exact .inr (exits (m.releaseAll results) hdepth _)

/-- A call in progress goes on, or ends with an outcome. -/
theorem call_step (code : Meaning κ τ ρ) (hm : m.Steady) {stage : Stage κ}
    (hframes : m.frames = above ++ .call stage :: fs) :
    (∃ above' stage', (m.step code).frames = above' ++ .call stage' :: fs) ∨
      (m.step code).frames = fs ∧ ∃ outcome, (m.step code).control = .deliver outcome := by
  rcases kept_or_handed code hm hframes (by cases stage <;> rfl) (by cases stage <;> rfl) with
    ⟨above', hframes', -⟩ | ⟨rfl, outcome, hc⟩
  · exact .inl ⟨above', stage, hframes'⟩
  · have hdepth : 0 < m.interp.depth := by
      have hlaid := hm.laid
      rw [hframes] at hlaid
      exact hlaid.1
    simp only [step, hc, deliver, hframes, List.nil_append]
    exact deliverCall_cases code { m with frames := fs, control := .deliver outcome } stage outcome
      hdepth

/-- A protected call of host code goes on, or is over. -/
theorem boundary_step (code : Meaning κ τ ρ) (hm : m.Steady) {top depth : Nat}
    (hframes : m.frames = above ++ .boundary top depth :: fs) :
    (∃ above', (m.step code).frames = above' ++ .boundary top depth :: fs) ∨
      (m.step code).frames = fs ∧ ∃ outcome, (m.step code).control = .deliver outcome := by
  rcases kept_or_handed code hm hframes rfl rfl with ⟨above', hframes', -⟩ | ⟨rfl, outcome, hc⟩
  · exact .inl ⟨above', hframes'⟩
  · have hdepth : m.interp.depth = depth := by
      have hlaid := hm.laid
      rw [hframes] at hlaid
      exact hlaid.1.2.symm
    right
    -- the depth is the one at which the call was made, so the outcome goes on
    simp only [step, hc, deliver, hframes, List.nil_append, hdepth, ne_eq, not_true_eq_false,
      if_false]
    cases outcome with
    | ok vs => exact ⟨rfl, _, rfl⟩
    | error e => exact ⟨rfl, _, rfl⟩

end Machine

namespace System

variable {s : System κ τ ρ} {e : Event κ τ ρ} {above fs : List (Frame κ τ ρ)}

/-- An interpreter with frames that wait is at work, and what others do leaves its frames and its
state alone. -/
theorem Steady.aside (code : Meaning κ τ ρ) (h : s.Steady) (hframes : s.machine.frames ≠ [])
    (he : e ≠ .advance) :
    (s.step code e).machine.frames = s.machine.frames ∧
      (s.step code e).machine.interp = s.machine.interp := by
  have hfin : s.machine.control.isFinished ≠ true := fun hfin => hframes (h.machine.idle hfin)
  cases aside_step (s := s) code he with
  | rested _ hframes' hinterp | answered _ _ hframes' hinterp => exact ⟨hframes', hinterp⟩
  | started hidle | dropped hidle => exact absurd hidle.2 hfin

end System

namespace Life

variable {code : Meaning κ τ ρ}

/-- What begins at step `k` on top of the frames at hand is over by step `e`, and no earlier. -/
structure Spans (l : Life code) (k e : Nat) : Prop where
  step : l.event k = .advance
  begins : (l.state k).machine.control.begins = true
  later : k < e
  back : (l.state e).machine.frames = (l.state k).machine.frames
  first : ∀ j, k < j → j < e → (l.state j).machine.frames ≠ (l.state k).machine.frames

variable {l : Life code} {k e : Nat}

/-- A step of the interpreter's own thread is a step of its machine. -/
theorem machine_succ (l : Life code) {n : Nat} (h : l.event n = .advance) :
    (l.state (n + 1)).machine = (l.state n).machine.step code := by
  rw [l.next, h]
  rfl

/-- What others do leaves the frames and the state of an interpreter at work alone. -/
theorem frames_aside (l : Life code) {n : Nat} (he : l.event n ≠ .advance)
    (hframes : (l.state n).machine.frames ≠ []) :
    (l.state (n + 1)).machine.frames = (l.state n).machine.frames ∧
      (l.state (n + 1)).machine.interp = (l.state n).machine.interp := by
  rw [l.next]
  exact (l.steady n).aside code hframes he

/-- So it does what is done next, unless the outside is waited for. -/
theorem control_aside (l : Life code) {n : Nat} (he : l.event n ≠ .advance)
    (hfin : (l.state n).machine.control.isFinished = false)
    (hwait : ∀ x given held next, (l.state n).machine.control ≠ .waiting x given held next) :
    (l.state (n + 1)).machine.control = (l.state n).machine.control ∧
      (l.state (n + 1)).machine.frames = (l.state n).machine.frames ∧
      (l.state (n + 1)).machine.interp = (l.state n).machine.interp := by
  rw [l.next]
  exact (System.aside_step code he).of_working hfin hwait

/-- All the time that something takes, its own frames are above those that wait, and they are owed
the interpreter as it was. -/
private theorem above_of_first (l : Life code) (hstep : l.event k = .advance)
    (hbegins : (l.state k).machine.control.begins = true)
    (hfirst : ∀ j, k < j → j < e →
      (l.state j).machine.frames ≠ (l.state k).machine.frames) {j : Nat} (hkj : k ≤ j)
    (hje : j ≤ e) :
    ∃ above, (l.state j).machine.frames = above ++ (l.state k).machine.frames ∧
      (unwound above (l.state j).machine.interp).lasting =
        (l.state k).machine.interp.lasting := by
  -- the induction is on the steps up to the one that is back at these frames
  induction j, hkj using Nat.le_induction with
  | base => exact ⟨[], rfl, rfl⟩
  | succ j hkj ih =>
    obtain ⟨above, hframes, hi⟩ := ih (by omega)
    by_cases hj : j = k
    · subst hj
      rw [l.machine_succ hstep]
      obtain rfl : above = [] := by simpa using hframes
      exact Machine.above_step code (l.steady j).machine hframes hi
        (.inr (Control.takes_of_begins hbegins))
    · have hne : above ≠ [] := by
        rintro rfl
        exact hfirst j (by omega) (by omega) hframes
      by_cases he : l.event j = .advance
      · rw [l.machine_succ he]
        exact Machine.above_step code (l.steady j).machine hframes hi (.inl hne)
      · have hsome : (l.state j).machine.frames ≠ [] := by
          rw [hframes]
          simp [hne]
        obtain ⟨hframes', hinterp⟩ := l.frames_aside he hsome
        rw [hframes', hinterp]
        exact ⟨above, hframes, hi⟩

/-- What begins is over as soon as there are as many frames as there were. -/
theorem Spans.of_length (hstep : l.event k = .advance)
    (hbegins : (l.state k).machine.control.begins = true) (hlater : k < e)
    (hback : (l.state e).machine.frames.length = (l.state k).machine.frames.length)
    (hfirst : ∀ j < e, k < j →
      (l.state j).machine.frames.length ≠ (l.state k).machine.frames.length) : l.Spans k e := by
  have hne : ∀ j, k < j → j < e → (l.state j).machine.frames ≠ (l.state k).machine.frames :=
    fun j hkj hje hframes => hfirst j hje hkj (congrArg List.length hframes)
  -- a list of frames that ends in these and is no longer is these
  obtain ⟨above, hframes, -⟩ :=
    l.above_of_first hstep hbegins hne (Nat.le_of_lt hlater) (Nat.le_refl e)
  refine ⟨hstep, hbegins, hlater, ?_, hne⟩
  rw [hframes, List.length_append] at hback
  obtain rfl : above = [] := List.eq_nil_of_length_eq_zero (by omega)
  exact hframes

/-- What is over has left the interpreter as it was, save in what work may change for good. -/
theorem Spans.lasting (h : l.Spans k e) :
    (l.state e).machine.interp.lasting = (l.state k).machine.interp.lasting := by
  obtain ⟨above, hframes, hi⟩ :=
    l.above_of_first h.step h.begins h.first (Nat.le_of_lt h.later) (Nat.le_refl e)
  rw [h.back] at hframes
  obtain rfl : above = [] := by simpa using hframes.symm
  exact hi

/-- What begins, no safepoint handler waits for. -/
private theorem not_handler_of_begins {m : Machine κ τ ρ} (hfit : m.Fitting)
    (h : m.control.begins = true) : ¬ Waits .handler m.frames := by
  intro hhandler
  obtain ⟨rest, hf⟩ := hhandler.of_handler
  obtain ⟨w, hfor, hw⟩ := hfit
  rw [hf] at hw
  have htop : (Frame.dispatch : Frame κ τ ρ).waitsFor w = true := hw.1
  cases hc : m.control <;> cases w <;> simp_all [Control.begins, Control.isFor, Frame.waitsFor]

/-- All the time, the stack that was there lies untouched at the bottom. -/
theorem Spans.stack_prefix (h : l.Spans k e) {j : Nat} (hkj : k ≤ j) (hje : j ≤ e) :
    (l.state k).machine.interp.stack.toList <+: (l.state j).machine.interp.stack.toList := by
  obtain ⟨above, -, hi⟩ := l.above_of_first h.step h.begins h.first hkj hje
  have hstack : (unwound above (l.state j).machine.interp).lasting.stack =
      (l.state k).machine.interp.lasting.stack := by rw [hi]
  have hprefix := stack_prefix_unwound above (l.state j).machine.interp
  rwa [show (unwound above (l.state j).machine.interp).stack = _ from hstack] at hprefix

/-- A call that is not over is in progress. -/
private theorem Spans.calling (h : l.Spans k e) {f : Value κ} {args : List (Value κ)}
    (hc : (l.state k).machine.control = .invoke f args) {j : Nat} (hkj : k < j) (hje : j ≤ e) :
    (∃ above stage, (l.state j).machine.frames =
        above ++ .call stage :: (l.state k).machine.frames) ∨
      (l.state j).machine.frames = (l.state k).machine.frames ∧
        ∃ outcome, (l.state j).machine.control = .deliver outcome := by
  -- the induction is on the steps of the call; a call that has ended is back where it began
  induction j, hkj using Nat.le_induction with
  | base =>
    rw [l.machine_succ h.step, Machine.step, hc]
    simp only [Machine.invoke]
    split
    next f =>
      split
      · -- too deep
        exact .inr ⟨rfl, _, rfl⟩
      · exact .inl ⟨[], .entering f args, rfl⟩
    · exact .inr ⟨rfl, _, rfl⟩
  | succ j hkj ih =>
    rcases ih (by omega) with ⟨above, stage, hframes⟩ | ⟨hback, -⟩
    · by_cases he : l.event j = .advance
      · rw [l.machine_succ he]
        exact Machine.call_step code (l.steady j).machine hframes
      · exact .inl ⟨above, stage, (l.frames_aside he (by simp [hframes])).1.trans hframes⟩
    · exact absurd hback (h.first j (by omega) (by omega))

/-- What waits below a frame is not all there is. -/
theorem frames_ne {fs : List (Frame κ τ ρ)} (above : List (Frame κ τ ρ))
    (f : Frame κ τ ρ) : fs ≠ above ++ f :: fs := by
  intro h
  have hlen := congrArg List.length h
  simp only [List.length_append, List.length_cons] at hlen
  omega

/-- A call ends with an outcome. -/
theorem Spans.deliver (h : l.Spans k e) {f : Value κ} {args : List (Value κ)}
    (hc : (l.state k).machine.control = .invoke f args) :
    ∃ outcome, (l.state e).machine.control = .deliver outcome := by
  rcases h.calling hc h.later (Nat.le_refl e) with ⟨above, stage, hframes⟩ | ⟨-, hdeliver⟩
  · rw [h.back] at hframes
    exact absurd hframes (frames_ne _ _)
  · exact hdeliver

/-- How far a protected call has come that host code above the frames `fs` has made. -/
private inductive Protecting (next : Reply κ → Program κ τ ρ) (fs : List (Frame κ τ ρ))
    (m : Machine κ τ ρ) : Prop where
  | inside {above top depth held} (frames : m.frames = above ++ .boundary top depth ::
      .host held next :: fs)
  | ended {held outcome} (frames : m.frames = .host held next :: fs)
      (control : m.control = .deliver outcome)
  | replied {held r} (frames : m.frames = fs) (control : m.control = .run held (next r))
      (result : (∃ vs, r = .values vs) ∨ ∃ e, r = .failed e)

/-- A step of a protected call that is not over keeps it on its way. -/
private theorem protecting_step {next : Reply κ → Program κ τ ρ} {fs : List (Frame κ τ ρ)}
    {m : Machine κ τ ρ} (hm : m.Steady) (h : Protecting next fs m) (hfs : m.frames ≠ fs) :
    Protecting next fs (m.step code) := by
  cases h with
  | inside hframes =>
    rcases Machine.boundary_step code hm hframes with ⟨above', hframes'⟩ | ⟨hframes', _, hc⟩
    · exact .inside hframes'
    · exact .ended hframes' hc
  | ended hframes hc =>
    simp only [Machine.step, hc, Machine.deliver, hframes]
    split
    next vs => exact .replied rfl rfl (.inl ⟨vs, rfl⟩)
    next e => exact .replied rfl rfl (.inr ⟨e, rfl⟩)
  | replied hframes => exact absurd hframes hfs

/-- A protected call of host code has come somewhere until it is over. -/
private theorem Spans.protecting (h : l.Spans k e) {held : Held} {f : Value κ}
    {args : List (Value κ)} {next : Reply κ → Program κ τ ρ}
    (hc : (l.state k).machine.control = .run held (.ask (.pcall f args) next)) {j : Nat}
    (hkj : k < j) (hje : j ≤ e) :
    Protecting next (l.state k).machine.frames (l.state j).machine := by
  induction j, hkj using Nat.le_induction with
  | base =>
    have hframes : (l.state (k + 1)).machine.frames =
        [] ++ .boundary (l.state k).machine.interp.stack.size (l.state k).machine.interp.depth ::
          .host (held.takeAll args).2 next :: (l.state k).machine.frames := by
      rw [l.machine_succ h.step, Machine.step, hc]
      rfl
    exact .inside hframes
  | succ j hkj ih =>
    have hj := ih (by omega)
    by_cases he : l.event j = .advance
    · rw [l.machine_succ he]
      exact protecting_step (l.steady j).machine hj (h.first j (by omega) (by omega))
    · -- others leave the frames of the call alone, and an outcome that is at hand
      cases hj with
      | inside hframes =>
        exact .inside ((l.frames_aside he (by simp [hframes])).1.trans hframes)
      | ended hframes hdeliver =>
        obtain ⟨hcontrol, hframes', -⟩ :=
          l.control_aside he (by rw [hdeliver]; rfl) (by rw [hdeliver]; simp)
        exact .ended (hframes'.trans hframes) (hcontrol.trans hdeliver)
      | replied hframes => exact absurd hframes (h.first j (by omega) (by omega))

/-- A protected call of host code ends with results or with an error, and the code goes on. -/
theorem Spans.reply (h : l.Spans k e) {held : Held} {f : Value κ} {args : List (Value κ)}
    {next : Reply κ → Program κ τ ρ}
    (hc : (l.state k).machine.control = .run held (.ask (.pcall f args) next)) :
    ∃ held' r, (l.state e).machine.control = .run held' (next r) ∧
      ((∃ vs, r = .values vs) ∨ ∃ e, r = .failed e) := by
  have hback := h.back
  -- frames that are back where they were leave only the reply
  cases h.protecting hc h.later (Nat.le_refl e) with
  | @inside above top depth held' hframes =>
    rw [hback] at hframes
    have hframes' : (l.state k).machine.frames =
        (above ++ [.boundary top depth]) ++ .host held' next :: (l.state k).machine.frames := by
      simpa using hframes
    exact absurd hframes' (frames_ne _ _)
  | ended hframes =>
    rw [hback] at hframes
    exact absurd hframes (frames_ne [] _)
  | replied _ hcontrol hresult => exact ⟨_, _, hcontrol, hresult⟩

/-- Nothing that cannot happen to an interpreter ever does. And whatever is called, polled or asked
for, and however it ends, it leaves the interpreter as it was: the whole stack, the floor, the
depth, the hook and its suppression, and the mark of a drain pass. Only the globals, the encoding
and the count of instructions may have changed. Meanwhile the stack that was there lies untouched at
the bottom. A call ends with an outcome, and a protected call of host code with results or an error.
-/
theorem call_isolated (l : Life code) :
    (∀ n fault, (l.state n).machine.control ≠ .fault fault) ∧
    ∀ {k e : Nat}, l.Spans k e →
      (l.state e).machine.interp = { (l.state k).machine.interp with
        globals := (l.state e).machine.interp.globals
        encoding := (l.state e).machine.interp.encoding
        instructions := (l.state e).machine.interp.instructions } ∧
      (l.state e).machine.mailbox.draining = (l.state k).machine.mailbox.draining ∧
      (∀ j, k ≤ j → j ≤ e → (l.state k).machine.interp.stack.toList <+:
        (l.state j).machine.interp.stack.toList) ∧
      (∀ f args, (l.state k).machine.control = .invoke f args →
        ∃ outcome, (l.state e).machine.control = .deliver outcome) ∧
      ∀ held f args next, (l.state k).machine.control = .run held (.ask (.pcall f args) next) →
        ∃ held' r, (l.state e).machine.control = .run held' (next r) ∧
          ((∃ vs, r = .values vs) ∨ ∃ error, r = .failed error) := by
  refine ⟨fun n fault hc => ?_, fun {k e} h => ⟨Interpreter.eq_of_lasting h.lasting, ?_,
    fun j hkj hje => h.stack_prefix hkj hje, fun f args hc => h.deliver hc,
    fun held f args next hc => h.reply hc⟩⟩
  · have horder := (l.steady n).machine.order
    unfold Machine.InOrder at horder
    rw [hc] at horder
    exact horder
  · -- the frames tell, and they are the same
    have hnot := not_handler_of_begins (l.steady k).machine.fitting h.begins
    rw [(l.steady k).machine.draining_eq hnot, ← h.back]
    rw [← h.back] at hnot
    exact (l.steady e).machine.draining_eq hnot

/-! ## A protected call that fails below -/

/-- The life of a fresh interpreter through some events, after which its thread goes on alone. -/
def ofEvents (code : Meaning κ τ ρ) (events : List (Event κ τ ρ)) : Life code where
  state := (Run.ofEvents code events).state
  event := (Run.ofEvents code events).event
  begun := by
    obtain ⟨g, facilities, limits, ground, m, instruments, -, hopen⟩ :=
      System.fresh_opened (κ := κ) (τ := τ) (ρ := ρ)
    exact .inr ⟨g, facilities, limits, ground, m, instruments, hopen⟩
  next := (Run.ofEvents code events).next

/-- A script function that pops more than it has pushed. -/
private def popsTooMuch : Prototype :=
  .ofCode "pops too much" 0 #[.int 7, .pop, .pop] rfl

/-- A script function that calls its argument over a value of its own. -/
private def callsOverValue : Prototype :=
  .ofCode "calls" 1 #[.int 5, .getLocal 0, .call 0] rfl

/-- Host code that makes a protected call which fails, and goes on. -/
private def protects : Meaning Unit Unit Unit := fun _ _ =>
  .ask (.pcall (.fn (.script 1 popsTooMuch)) []) fun _ => .finish (.ok [])

/-- The embedder calls the one function with such host code, which is about to make its protected
call; a host interjects more of the same code, and this runs as an action inside of that call. -/
private def failsBelow : Life protects :=
  .ofEvents protects
    ([.start (.ask (.call (.fn (.script 0 callsOverValue)) [.fn (.native 0 "protects" ())])
        fun _ => .finish (.ok [])) []] ++ List.replicate 20 .advance ++
      [.call 0 (.interject ()), .host 0, .host 0, .host 0, .host 0])

/-- Both protected calls fail, and the caller's local and its other value are there as before. -/
theorem failed_call_left_nothing :
    ∃ l : Life protects, l.Spans 20 77 ∧ (l.state 20).machine.interp.stack.size = 2 ∧
      (l.state 77).machine.interp.stack = (l.state 20).machine.interp.stack ∧
      (l.state 20).machine.interp.instructions < (l.state 77).machine.interp.instructions := by
  have hspans : failsBelow.Spans 20 77 :=
    .of_length rfl (by decide +kernel) (by decide) (by decide +kernel) (by decide +kernel)
  obtain ⟨-, hisolated⟩ := call_isolated failsBelow
  obtain ⟨hinterp, -⟩ := hisolated hspans
  have hstack : (failsBelow.state 77).machine.interp.stack =
      (failsBelow.state 20).machine.interp.stack := by rw [hinterp]
  exact ⟨failsBelow, hspans, by decide +kernel, hstack, by decide +kernel⟩

end Life

end Safepoint
