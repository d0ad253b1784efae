import Safepoint.Proofs.Cancellation.Unwinding
import Safepoint.Proofs.Isolation

/-!
# Errors that no script catches

An error that scripts cannot catch leaves every frame of a script unchanged, one frame with each
move of the machine, until it comes to a protected call of host code. If an action has failed with
it, the pass of the action is brought to an end first. No script executes an instruction meanwhile.

`Machine.Escaping m e rest left` says that the error `e` is on this way to the frames `rest`, and
that at most `left` of the machine's own moves remain until it is handed to them.

## Key results

- `Machine.step_of_uncaught`: an error that scripts cannot catch leaves the frame on top
- `Machine.escaping_step`: each move of the machine brings it nearer to where it is handed over
- `Life.escapes`: so it comes there, and no instruction is executed on the way
-/

namespace Safepoint

variable {κ τ ρ : Type}

/-- The errors that scripts cannot catch are those of the configuration. -/
theorem Error.isCatchable_eq_false_iff {e : Error} :
    e.isCatchable = false ↔ e.status = .configurationError := by
  rw [isCatchable, bne_eq_false_iff_eq]

/-- Whether an error that scripts cannot catch leaves a frame as it came: one of a script, or a
protected call of host code, which hands it to the code. -/
def Frame.letsThrough : Frame κ τ ρ → Bool
  | .call _ | .script .. | .boundary .. => true
  | _ => false

/-- An error that scripts cannot catch leaves a frame of a script as it came. -/
theorem Frame.letsThrough_of_isScript {f : Frame κ τ ρ} (h : f.isScript = true) :
    f.letsThrough = true := by
  cases f with
  | call | script => rfl
  | _ => exact nomatch h

/-- The error that a failed pass is about to return with, and how many moves that takes. -/
def Control.failing? : Control κ τ ρ → Option (Error × Nat)
  | .settle (.mailbox _) _ (.error e) => some (e, 6)
  | .measure e => some (e, 5)
  | .rearm e _ => some (e, 4)
  | .tell e _ => some (e, 3)
  | .unmark (.error e) => some (e, 2)
  | .deliver (.error e) => some (e, 1)
  | .check _ c => c.failing?.map fun (e, left) => (e, left + 3)
  | .arrive _ c => c.failing?.map fun (e, left) => (e, left + 2)
  | .paused _ c => c.failing?.map fun (e, left) => (e, left + 1)
  | _ => none

namespace Machine

variable {m m' : Machine κ τ ρ} {e : Error} {left : Nat} {below fs rest : List (Frame κ τ ρ)}

/-- An error that scripts cannot catch leaves the frame on top as it came. -/
theorem step_of_uncaught (code : Meaning κ τ ρ) (hm : m.Steady) (he : e.isCatchable = false)
    {f : Frame κ τ ρ} (hc : m.control = .deliver (.error e)) (hf : m.frames = f :: fs)
    (hthrough : f.letsThrough = true) :
    (m.step code).control = .deliver (.error e) ∧ (m.step code).frames = fs ∧
      (m.step code).interp.instructions = m.interp.instructions := by
  cases f with
  | call stage =>
    obtain ⟨hinterp, hcontrol, hframes⟩ := step_of_error_at_call code hc hf hm.nested
    exact ⟨hcontrol, hframes, by rw [hinterp]⟩
  | script a await =>
    have hwaits := hm.fitting.await_ne_ready hc hf
    simp only [step, hc, deliver, hf]
    cases await with
    | ready => exact absurd rfl hwaits
    | safepoint i => exact ⟨rfl, rfl, rfl⟩
    | call g => exact ⟨rfl, rfl, rfl⟩
    | pcall g top =>
      -- a protected call of a script does not catch it
      simp only [deliverScript, afterPcall, he]
      exact ⟨rfl, rfl, rfl⟩
  | boundary top depth =>
    have hdepth : m.interp.depth = depth := by
      have hnested := hm.nested
      rw [hf] at hnested
      exact hnested.1.symm
    simp only [step, hc, deliver, hf, hdepth, ne_eq, not_true_eq_false, if_false]
    exact ⟨rfl, rfl, rfl⟩
  | _ => exact absurd hthrough Bool.false_ne_true

/-! ## A failed pass -/

/-- It is a pass over the mailbox that returns with the error of an action. -/
private theorem settling_of_failing? {source : Source} {ran : Nat} {outcome : Outcome κ}
    (h : (Control.settle source ran outcome : Control κ τ ρ).failing? = some (e, left)) :
    (∃ event, source = .mailbox event) ∧ outcome = .error e ∧ left = 6 := by
  -- only a pass over the mailbox that has failed is counted among these
  cases source with
  | mailbox event =>
    cases outcome with
    | ok vs => exact absurd h.symm (Option.some_ne_none _)
    | error e' =>
      obtain ⟨rfl, rfl⟩ := Prod.mk.inj (Option.some.inj h)
      exact ⟨⟨event, rfl⟩, rfl, rfl⟩
  | queue id => exact absurd h.symm (Option.some_ne_none _)

/-- With each move of its own a failed pass comes nearer to returning with the error. -/
private theorem failing?_step (code : Meaning κ τ ρ) (hc : m.control.failing? = some (e, left))
    (hf : m.frames = .dispatch :: below) :
    (m.step code).interp.instructions = m.interp.instructions ∧
      ((m.step code).control = .deliver (.error e) ∧ (m.step code).frames = below ∧ 0 < left ∨
        ∃ left', (m.step code).control.failing? = some (e, left') ∧
          (m.step code).frames = .dispatch :: below ∧ left' + (!m.isHeld).toNat ≤ left) := by
  -- the number of moves left is read off the control, and each case leads to a smaller one
  cases hcontrol : m.control with
  | settle source ran outcome =>
    rw [hcontrol] at hc
    obtain ⟨⟨event, rfl⟩, rfl, rfl⟩ := settling_of_failing? hc
    simp only [step, hcontrol, settle]
    exact ⟨rfl, .inr ⟨5, rfl, hf, by simp [isHeld, hcontrol]⟩⟩
  | measure e' =>
    obtain ⟨rfl, rfl⟩ := Prod.mk.inj (Option.some.inj (hcontrol ▸ hc))
    simp only [step, hcontrol, measure]
    split
    · exact ⟨rfl, .inr ⟨4, rfl, hf, by simp [isHeld, hcontrol]⟩⟩
    · -- nothing is left in the queue
      exact ⟨rfl, .inr ⟨3, rfl, hf, by simp [isHeld, hcontrol]⟩⟩
  | rearm e' remaining =>
    obtain ⟨rfl, rfl⟩ := Prod.mk.inj (Option.some.inj (hcontrol ▸ hc))
    simp only [step, hcontrol]
    exact ⟨rfl, .inr ⟨3, rfl, hf, by simp [isHeld, hcontrol]⟩⟩
  | tell e' remaining =>
    obtain ⟨rfl, rfl⟩ := Prod.mk.inj (Option.some.inj (hcontrol ▸ hc))
    simp only [step, hcontrol]
    exact ⟨rfl, .inr ⟨2, rfl, hf, by simp [isHeld, hcontrol]⟩⟩
  | unmark outcome =>
    rw [hcontrol] at hc
    cases outcome with
    | ok vs => exact absurd hc.symm (Option.some_ne_none _)
    | error e' =>
      obtain ⟨rfl, rfl⟩ := Prod.mk.inj (Option.some.inj hc)
      simp only [step, hcontrol]
      exact ⟨rfl, .inr ⟨1, rfl, hf, by simp [isHeld, hcontrol]⟩⟩
  | deliver outcome =>
    rw [hcontrol] at hc
    cases outcome with
    | ok vs => exact absurd hc.symm (Option.some_ne_none _)
    | error e' =>
      obtain ⟨rfl, rfl⟩ := Prod.mk.inj (Option.some.inj hc)
      simp only [step, hcontrol, deliver, hf]
      exact ⟨rfl, .inl ⟨rfl, rfl, Nat.one_pos⟩⟩
  | check point c =>
    rw [hcontrol] at hc
    obtain ⟨⟨e', left'⟩, hthen, heq⟩ := Option.map_eq_some_iff.mp hc
    obtain ⟨rfl, rfl⟩ := Prod.mk.inj heq
    obtain ⟨points, control, hstep, rfl⟩ := step_of_check code hcontrol
    rw [hstep]
    refine ⟨rfl, .inr ?_⟩
    split
    · exact ⟨left' + 2, by simp [Control.failing?, hthen], hf, by simp [isHeld, hcontrol]⟩
    · exact ⟨left', hthen, hf, by simp [isHeld, hcontrol]⟩
  | arrive point c =>
    rw [hcontrol] at hc
    obtain ⟨⟨e', left'⟩, hthen, heq⟩ := Option.map_eq_some_iff.mp hc
    obtain ⟨rfl, rfl⟩ := Prod.mk.inj heq
    obtain ⟨points, hstep⟩ := step_of_arrive code hcontrol
    rw [hstep]
    exact ⟨rfl, .inr ⟨left' + 1, by simp [Control.failing?, hthen], hf,
      by simp [isHeld, hcontrol]⟩⟩
  | paused point c =>
    rw [hcontrol] at hc
    obtain ⟨⟨e', left'⟩, hthen, heq⟩ := Option.map_eq_some_iff.mp hc
    obtain ⟨rfl, rfl⟩ := Prod.mk.inj heq
    obtain ⟨points, control, hstep, rfl⟩ := step_of_paused code hcontrol
    rw [hstep]
    refine ⟨rfl, .inr ?_⟩
    -- a step at which the thread stays held is no move
    split
    next hreleased => exact ⟨left', hthen, hf, by simp [isHeld, hcontrol, hreleased]⟩
    next hreleased =>
      exact ⟨left' + 1, by simp [Control.failing?, hthen], hf,
        by simp [isHeld, hcontrol, hreleased]⟩
  | _ =>
    rw [hcontrol] at hc
    exact absurd hc.symm (Option.some_ne_none _)

/-! ## The way out -/

/-- An error that scripts cannot catch is on its way to the frames `rest`, with so many moves left
at most. -/
inductive Escaping (m : Machine κ τ ρ) (e : Error) (rest : List (Frame κ τ ρ)) : Nat → Prop where
  /-- Host code fails with it that runs for a native function. -/
  | raising {held above} (control : m.control = .run held (.finish (.error e)))
      (frames : m.frames = above ++ rest) (through : ∀ f ∈ above, f.letsThrough = true) :
      Escaping m e rest (above.length + 1)
  /-- An action fails with it in a safepoint's pass. -/
  | acting {held event ran above} (control : m.control = .run held (.finish (.error e)))
      (frames : m.frames = .pass (.mailbox event) ran :: .dispatch :: (above ++ rest))
      (through : ∀ f ∈ above, f.letsThrough = true) : Escaping m e rest (above.length + 11)
  | returning {event ran above} (control : m.control = .deliver (.error e))
      (frames : m.frames = .pass (.mailbox event) ran :: .dispatch :: (above ++ rest))
      (through : ∀ f ∈ above, f.letsThrough = true) : Escaping m e rest (above.length + 10)
  | failing {left above} (control : m.control.failing? = some (e, left))
      (frames : m.frames = .dispatch :: (above ++ rest))
      (through : ∀ f ∈ above, f.letsThrough = true) : Escaping m e rest (above.length + left)
  /-- It leaves one frame after the other. -/
  | leaving {above} (control : m.control = .deliver (.error e)) (frames : m.frames = above ++ rest)
      (through : ∀ f ∈ above, f.letsThrough = true) : Escaping m e rest above.length

/-- A machine on whose way out an error is is at work, waits for nobody outside, and executes no
instruction. -/
theorem Escaping.at_work (h : m.Escaping e rest left) :
    m.control.isFinished = false ∧ (∀ x given held next, m.control ≠ .waiting x given held next) ∧
      ∀ i, m.control ≠ .execute i := by
  cases h with
  | raising hc | acting hc | returning hc | leaving hc =>
    rw [hc]
    exact ⟨rfl, by simp, by simp⟩
  | failing hc => cases hcontrol : m.control <;> simp_all [Control.failing?, Control.isFinished]

/-- Whether an error is on its way is told by the control and the frames. -/
theorem Escaping.congr (h : m.Escaping e rest left) (hcontrol : m'.control = m.control)
    (hframes : m'.frames = m.frames) : m'.Escaping e rest left := by
  cases h with
  | raising hc hf ht => exact .raising (hcontrol.trans hc) (hframes.trans hf) ht
  | acting hc hf ht => exact .acting (hcontrol.trans hc) (hframes.trans hf) ht
  | returning hc hf ht => exact .returning (hcontrol.trans hc) (hframes.trans hf) ht
  | failing hc hf ht => exact .failing (hcontrol ▸ hc) (hframes.trans hf) ht
  | leaving hc hf ht => exact .leaving (hcontrol.trans hc) (hframes.trans hf) ht

/-- With each move of the machine an error that scripts cannot catch comes nearer to the frames it
is on its way to, until it is handed to them. -/
theorem escaping_step (code : Meaning κ τ ρ) (hm : m.Steady) (he : e.isCatchable = false)
    (h : m.Escaping e rest left) :
    (m.control = .deliver (.error e) ∧ m.frames = rest) ∨
      (m.step code).interp.instructions = m.interp.instructions ∧
        ∃ left', (m.step code).Escaping e rest left' ∧ left' + (!m.isHeld).toNat ≤ left := by
  cases h with
  | @raising held above hc hf ht =>
    right
    simp only [step, hc, runProgram]
    exact ⟨rfl, above.length, .leaving rfl hf ht, by simp [isHeld, hc]⟩
  | @acting held event ran above hc hf ht =>
    right
    simp only [step, hc, runProgram]
    exact ⟨rfl, above.length + 10, .returning rfl hf ht, by simp [isHeld, hc]⟩
  | @returning event ran above hc hf ht =>
    right
    simp only [step, hc, deliver, hf]
    exact ⟨rfl, above.length + 9, .failing rfl rfl ht, by simp [isHeld, hc]⟩
  | @failing left above hc hf ht =>
    right
    obtain ⟨hcount, ⟨hcontrol, hframes, hleft⟩ | ⟨left', hfails, hframes, hless⟩⟩ :=
      failing?_step code hc hf
    · -- the pass has returned, and the frames above the protected call are all that is left
      have := Bool.toNat_le (!m.isHeld)
      exact ⟨hcount, above.length, .leaving hcontrol hframes ht, by omega⟩
    · exact ⟨hcount, above.length + left', .failing hfails hframes ht, by omega⟩
  | @leaving above hc hf ht =>
    cases above with
    | nil => exact .inl ⟨hc, hf⟩
    | cons f above =>
      right
      obtain ⟨hcontrol, hframes, hcount⟩ :=
        step_of_uncaught code hm he hc hf (ht f List.mem_cons_self)
      exact ⟨hcount, above.length,
        .leaving hcontrol hframes fun g hg => ht g (List.mem_cons_of_mem f hg),
        by simp [isHeld, hc]⟩

end Machine

namespace Life

variable {code : Meaning κ τ ρ}

/-- Whether the interpreter's own thread moves at step `n`. -/
def isMove (l : Life code) (n : Nat) : Bool :=
  (l.event n).isAdvance && !(l.state n).machine.isHeld

/-- The moves of the interpreter's own thread so far. -/
def moves (l : Life code) : Nat → Nat
  | 0 => 0
  | n + 1 => l.moves n + (l.isMove n).toNat

/-- The moves are counted by the steps that are moves. -/
theorem counts_moves (l : Life code) : Counts l.moves l.isMove := fun _ => rfl

/-- A step of the interpreter's own thread is a move unless the thread is held at a syncpoint. -/
theorem isMove_of_advance (l : Life code) {n : Nat} (h : l.event n = .advance) :
    l.isMove n = !(l.state n).machine.isHeld := by
  rw [isMove, h]
  exact Bool.true_and _

/-- A step of anybody else is no move. -/
theorem isMove_of_aside (l : Life code) {n : Nat} (h : l.event n ≠ .advance) :
    l.isMove n = false := by
  rw [isMove, Event.isAdvance_eq_false h]
  exact Bool.false_and _

/-- From step `k` to step `n` no script executes an instruction, or fetches one. -/
def Quiet (l : Life code) (k n : Nat) : Prop :=
  ∀ j, k ≤ j → j ≤ n → (∀ i, (l.state j).machine.control ≠ .execute i) ∧
    (l.state j).machine.interp.instructions = (l.state k).machine.interp.instructions

/-- At step `j` an error is on its way to the frames `rest`, and since step `k` no instruction was
fetched. -/
structure Escaping (l : Life code) (k : Nat) (e : Error) (rest : List (Frame κ τ ρ))
    (j left : Nat) :
    Prop where
  way : (l.state j).machine.Escaping e rest left
  count : (l.state j).machine.interp.instructions = (l.state k).machine.interp.instructions

/-- At step `j` the reply to a protected call of host code above the frames `fs` is an error, and
since step `k` no instruction was fetched. -/
structure Escaped (l : Life code) (k : Nat) (e : Error) (held : Held)
    (next : Reply κ → Program κ τ ρ) (fs : List (Frame κ τ ρ)) (j : Nat) : Prop where
  control : (l.state j).machine.control = .run held (next (.failed e))
  frames : (l.state j).machine.frames = fs
  count : (l.state j).machine.interp.instructions = (l.state k).machine.interp.instructions

variable {l : Life code} {k n left : Nat} {e : Error} {held : Held}
  {next : Reply κ → Program κ τ ρ} {fs : List (Frame κ τ ρ)}

/-- With each move of its thread an interpreter comes nearer to handing the error over, and nothing
that others do changes anything. -/
private theorem escaping_succ {j : Nat} (he : e.isCatchable = false)
    (h : l.Escaping k e (.host held next :: fs) j left) :
    l.Escaped k e held next fs (j + 1) ∨
      ∃ left', l.Escaping k e (.host held next :: fs) (j + 1) left' ∧
        left' + (l.isMove j).toNat ≤ left := by
  obtain ⟨hway, hcount⟩ := h
  by_cases hadvance : l.event j = .advance
  · have hnext := l.machine_succ hadvance
    rcases Machine.escaping_step code (l.steady j).machine he hway with
      ⟨hc, hf⟩ | ⟨hcount', left', hway', hless⟩
    · left
      -- the error has come to the protected call, which hands it to the code
      constructor <;>
      · rw [hnext]
        simp only [Machine.step, hc, Machine.deliver, hf]
        first | rfl | exact hcount
    · rw [← hnext] at hcount' hway'
      rw [l.isMove_of_advance hadvance]
      exact .inr ⟨left', ⟨hway', hcount'.trans hcount⟩, hless⟩
  · right
    obtain ⟨hfin, hwait, -⟩ := hway.at_work
    obtain ⟨hcontrol, hframes, hinterp⟩ := l.control_aside hadvance hfin hwait
    rw [l.isMove_of_aside hadvance]
    exact ⟨left, ⟨hway.congr hcontrol hframes, by rw [hinterp]; exact hcount⟩, Nat.le_refl left⟩

/-- While the error is on its way, no instruction is executed and none was fetched. -/
private theorem Escaping.quiet {rest : List (Frame κ τ ρ)} {j : Nat}
    (h : ∃ μ, l.Escaping k e rest j μ) :
    (∀ i, (l.state j).machine.control ≠ .execute i) ∧
      (l.state j).machine.interp.instructions = (l.state k).machine.interp.instructions := by
  obtain ⟨μ, hway, hcount⟩ := h
  exact ⟨hway.at_work.2.2, hcount⟩

/-- An error that scripts cannot catch comes to the host code that it is on its way to, within as
many moves of the interpreter's own thread as it takes, and no instruction is executed meanwhile. -/
theorem escapes (l : Life code) (he : e.isCatchable = false)
    (h : (l.state k).machine.Escaping e (.host held next :: fs) left) (hkn : k ≤ n) :
    (∃ d, k < d ∧ d ≤ n ∧ (l.state d).machine.control = .run held (next (.failed e)) ∧
        (l.state d).machine.frames = fs ∧ l.Quiet k d) ∨
      l.moves n ≤ l.moves k + left ∧ l.Quiet k n := by
  -- each move leaves fewer, and a step that is no move leaves the error where it is
  rcases l.counts_moves.progress (fun j μ _ _ hj => escaping_succ he hj) ⟨h, rfl⟩ hkn
    (Nat.le_refl n) with ⟨d, hkd, hdn, hescaped, -, hon⟩ | ⟨⟨μ, -, hless⟩, hon⟩
  · refine .inl ⟨d, hkd, hdn, hescaped.control, hescaped.frames, fun j hkj hjd => ?_⟩
    rcases Nat.lt_or_eq_of_le hjd with hjd | rfl
    · exact Escaping.quiet (hon j hkj hjd)
    · exact ⟨by simp [hescaped.control], hescaped.count⟩
  · exact .inr ⟨by omega, fun j hkj hjn => Escaping.quiet (hon j hkj hjn)⟩

end Life

end Safepoint
