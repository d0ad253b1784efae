import Safepoint.Proofs.Isolation

/-!
# The outcome of a call

A frame that makes a call waits until the call's outcome is handed to it. Between the two steps the
call is about to be made, in progress or over; whatever it does, and whatever other threads do, the
frame finds the interpreter as it left it, save in what work may change for good.

## Key results

- `Machine.called_step`: a call goes from stage to stage until its outcome is handed over
- `Life.Handed.called`: how far the call has come at each step of a life
- `Life.Handed.found`: what the caller finds
-/

namespace Safepoint

variable {κ τ ρ : Type}

namespace Machine

variable {m : Machine κ τ ρ} {f : Value κ} {args : List (Value κ)} {fs : List (Frame κ τ ρ)}
  {i : Interpreter κ}

/-- How far a call has come that the frames `fs` wait for and that found an interpreter like `i`. -/
inductive Called (f : Value κ) (args : List (Value κ)) (fs : List (Frame κ τ ρ))
    (i : Interpreter κ) (m : Machine κ τ ρ) : Prop where
  /-- It is about to be made. -/
  | calling (control : m.control = .invoke f args) (frames : m.frames = fs)
      (found : m.interp.lasting = i.lasting) : Called f args fs i m
  /-- It is in progress. -/
  | inside {above stage} (frames : m.frames = above ++ .call stage :: fs)
      (owed : (unwound (above ++ [.call stage]) m.interp).lasting = i.lasting) :
      Called f args fs i m
  /-- It has ended. -/
  | ended {outcome} (control : m.control = .deliver outcome) (frames : m.frames = fs)
      (found : m.interp.lasting = i.lasting) : Called f args fs i m

/-- A call that is made is in progress, unless it is refused. -/
private theorem called_of_calling (code : Meaning κ τ ρ) (hc : m.control = .invoke f args)
    (hf : m.frames = fs) (hi : m.interp.lasting = i.lasting) :
    (m.step code).Called f args fs i := by
  simp only [step, hc, invoke]
  split
  -- a function is entered, unless the calls are too deep; anything else is an error at once
  next f =>
    split
    next => exact .ended rfl hf hi
    next =>
      have hframes : (Frame.call (.entering f args) :: m.frames : List (Frame κ τ ρ)) =
          [] ++ .call (.entering f args) :: fs := congrArg _ hf
      exact .inside hframes hi
  next => exact .ended rfl hf hi

/-- A call goes on until its outcome is handed over. -/
theorem called_step (code : Meaning κ τ ρ) (hm : m.Steady) (h : m.Called f args fs i)
    (hgoing : m.frames = fs → ∀ outcome, m.control ≠ .deliver outcome) :
    (m.step code).Called f args fs i := by
  -- the call begins, is in progress, or has ended
  cases h with
  | calling hc hf hi => exact called_of_calling code hc hf hi
  | @inside above stage hf hi =>
    have hf' : m.frames = (above ++ [.call stage]) ++ fs := by simpa using hf
    -- above its own frame, the call leaves what waits below it alone
    obtain ⟨left, hleft, howed⟩ := above_step code hm hf' hi (.inl (by simp))
    rcases call_step code hm hf with ⟨above', stage', hframes⟩ | ⟨hframes, outcome, hc⟩
    · -- the frames above those that wait are the same ones
      have hsame : left ++ fs = (above' ++ [.call stage']) ++ fs := by
        rw [← hleft, hframes, List.append_assoc, List.singleton_append]
      have hsame := List.append_cancel_right hsame
      exact .inside hframes (hsame ▸ howed)
    · have hnone : left = [] := by simpa [hframes] using hleft
      subst hnone
      exact .ended hc hframes howed
  | ended hc hf => exact absurd hc (hgoing hf _)

end Machine

namespace Life

variable {code : Meaning κ τ ρ} {l : Life code} {k d : Nat} {outcome : Outcome κ}

/-- What waits from step `k + 1` on for an outcome is handed this one at step `d`, not before. -/
structure Handed (l : Life code) (k d : Nat) (outcome : Outcome κ) : Prop where
  later : k < d
  hands : l.event d = .advance
  control : (l.state d).machine.control = .deliver outcome
  frames : (l.state d).machine.frames = (l.state (k + 1)).machine.frames
  first : ∀ j, k < j → j < d → l.event j = .advance →
    (l.state j).machine.frames = (l.state (k + 1)).machine.frames →
      ∀ outcome', (l.state j).machine.control ≠ .deliver outcome'

/-- What is handed over at once when a call is over that was made without delay. -/
theorem Handed.of_spans (h : l.Spans (k + 1) d) (hhands : l.event d = .advance)
    (hcontrol : (l.state d).machine.control = .deliver outcome) : l.Handed k d outcome where
  later := by have := h.later; omega
  hands := hhands
  control := hcontrol
  frames := h.back
  first j hkj hjd _ hframes outcome' hdeliver := by
    rcases Nat.eq_or_lt_of_le (show k + 1 ≤ j from hkj) with rfl | hlater
    · -- there the call begins
      have hbegins := h.begins
      rw [hdeliver] at hbegins
      exact nomatch hbegins
    · exact h.first j hlater hjd hframes

/-- What others do takes a call no further. -/
private theorem called_of_aside (l : Life code) {n : Nat} {f : Value κ} {args : List (Value κ)}
    {fs : List (Frame κ τ ρ)} {i : Interpreter κ} (h : (l.state n).machine.Called f args fs i)
    (hne : fs ≠ []) (he : l.event n ≠ .advance) :
    (l.state (n + 1)).machine.Called f args fs i := by
  have hsome : (l.state n).machine.frames ≠ [] := by
    cases h with
    | calling _ hf | ended _ hf => rwa [hf]
    | inside hf => simp [hf]
  obtain ⟨hframes, hinterp⟩ := l.frames_aside he hsome
  -- what is done next may change, but only where the call is in progress
  cases h with
  | calling hc hf hi =>
    obtain ⟨hcontrol, -⟩ := l.control_aside he (by rw [hc]; rfl) (by simp [hc])
    exact .calling (hcontrol.trans hc) (hframes.trans hf) (hinterp ▸ hi)
  | inside hf hi => exact .inside (hframes.trans hf) (hinterp ▸ hi)
  | ended hc hf hi =>
    obtain ⟨hcontrol, -⟩ := l.control_aside he (by rw [hc]; rfl) (by simp [hc])
    exact .ended (hcontrol.trans hc) (hframes.trans hf) (hinterp ▸ hi)

/-- Until its outcome is handed over, a call has come somewhere. -/
theorem Handed.called (h : l.Handed k d outcome) {f : Value κ} {args : List (Value κ)}
    (hcall : (l.state (k + 1)).machine.control = .invoke f args)
    (hne : (l.state (k + 1)).machine.frames ≠ []) {j : Nat} (hkj : k < j) (hjd : j ≤ d) :
    (l.state j).machine.Called f args (l.state (k + 1)).machine.frames
      (l.state (k + 1)).machine.interp := by
  induction j, hkj using Nat.le_induction with
  | base => exact .calling hcall rfl rfl
  | succ j hkj ih =>
    have hj := ih (by omega)
    by_cases he : l.event j = .advance
    · rw [l.machine_succ he]
      exact Machine.called_step code (l.steady j).machine hj (h.first j hkj (by omega) he)
    · exact l.called_of_aside hj hne he

/-- Who has made a call finds the interpreter as it was left. -/
theorem Handed.found (h : l.Handed k d outcome) {f : Value κ} {args : List (Value κ)}
    (hcall : (l.state (k + 1)).machine.control = .invoke f args)
    (hne : (l.state (k + 1)).machine.frames ≠ []) :
    (l.state d).machine.interp.lasting = (l.state (k + 1)).machine.interp.lasting := by
  cases h.called hcall hne h.later (Nat.le_refl d) with
  | calling hc => exact absurd (h.control.symm.trans hc) (by simp)
  | @inside above stage hf => exact absurd (h.frames.symm.trans hf) (frames_ne above _)
  | ended _ _ hi => exact hi

end Life

end Safepoint
