import Safepoint.Proofs.HostCall
import Safepoint.Proofs.Machine.Moves

/-!
# Where a machine stands

A machine with a hook is outside of its safepoint handler, or in it exactly once. `Posture m none`
says that it is outside: no frame belongs to the handler, the hook is in its slot and may be
entered, and no drain pass is marked. `Posture m (some rest)` says that it is in the handler of a
safepoint whose own work goes on with the frames `rest`: looking for a cancellation or for actions,
running an action, or about to return. The mark of a drain pass goes with the posture.

## Key results

- `posture_move`: each move keeps a posture, enters the handler from a safepoint that may, or
  returns from it to where it came from
- `nested_move`: the frames keep count of the calls in progress
-/

namespace Safepoint

variable {κ τ ρ : Type}

/-- Whether the handler has marked a drain pass, if a machine is at work for the handler. -/
def Control.marked? : Control κ τ ρ → Option Bool
  | .handle .. => some false
  | .drain (.mailbox _) _ | .settle (.mailbox _) .. => some true
  | .measure _ | .rearm .. | .tell .. | .unmark _ => some true
  | .check _ c | .arrive _ c | .paused _ c => c.marked?
  | _ => none

/-- What is to be marked is told behind a syncpoint as before it. -/
theorem Control.marked?_past (c : Control κ τ ρ) : c.past.marked? = c.marked? := by
  induction c with
  | check _ c ih => exact ih
  | arrive _ c ih => exact ih
  | paused _ c ih => exact ih
  | _ => rfl

/-- Work is ordinary behind a syncpoint as before it. -/
theorem Control.isOrdinary_past (c : Control κ τ ρ) : c.past.isOrdinary = c.isOrdinary := by
  induction c with
  | check _ c ih => exact ih
  | arrive _ c ih => exact ih
  | paused _ c ih => exact ih
  | _ => rfl

/-- Whether a frame waits for an action of the mailbox. -/
def Frame.isPass : Frame κ τ ρ → Bool
  | .pass (.mailbox _) _ => true
  | _ => false

/-- A pass is no ordinary frame. -/
theorem Frame.not_isPass_of_isOrdinary {f : Frame κ τ ρ} (h : f.isOrdinary = true) :
    f.isPass = false := by
  cases f with
  | pass source ran => cases source <;> simp_all [isOrdinary, isPass]
  | _ => rfl

/-- Work for the handler is not ordinary work. -/
theorem Control.isOrdinary_of_marked? {c : Control κ τ ρ} {b : Bool} (h : c.marked? = some b) :
    c.isOrdinary = false := by
  induction c with
  | check _ c ih => exact ih h
  | arrive _ c ih => exact ih h
  | paused _ c ih => exact ih h
  | drain source ran => cases source <;> simp_all [marked?, isOrdinary]
  | settle source ran outcome => cases source <;> simp_all [marked?, isOrdinary]
  | _ => simp_all [marked?, isOrdinary]

namespace Machine

/-- Where a machine stands: outside of the safepoint handler, or in the handler of a safepoint whose
own work goes on with some frames. -/
inductive Posture (m : Machine κ τ ρ) : Option (List (Frame κ τ ρ)) → Prop where
  /-- Nothing is left to do. -/
  | resting {outcome} (control : m.control = .finished outcome) (frames : m.frames = [])
      (hook : m.interp.hook = (true, true, 1)) (draining : m.mailbox.draining = false) :
      Posture m none
  /-- Ordinary work, which safepoints may interrupt. -/
  | working (control : m.control.isOrdinary) (frames : ∀ f ∈ m.frames, f.isOrdinary)
      (hook : m.interp.hook = (true, true, 1)) (draining : m.mailbox.draining = false) :
      Posture m none
  /-- Work for the handler. -/
  | handling {rest} (control : m.control.marked? = some m.mailbox.draining)
      (frames : m.frames = .dispatch :: rest) (below : ∀ f ∈ rest, f.isOrdinary)
      (hook : m.interp.hook = (false, false, 1)) : Posture m (some rest)
  /-- An action runs, with the frames `above` of its own. -/
  | acting {above event ran rest} (control : m.control.isOrdinary)
      (frames : m.frames = above ++ .pass (.mailbox event) ran :: .dispatch :: rest)
      (above_ : ∀ f ∈ above, f.isOrdinary) (below : ∀ f ∈ rest, f.isOrdinary)
      (hook : m.interp.hook = (false, false, 1)) (draining : m.mailbox.draining = true) :
      Posture m (some rest)
  /-- The handler is done. -/
  | leaving {outcome rest} (control : m.control = .deliver outcome)
      (frames : m.frames = .dispatch :: rest) (below : ∀ f ∈ rest, f.isOrdinary)
      (hook : m.interp.hook = (false, false, 1)) (draining : m.mailbox.draining = false) :
      Posture m (some rest)

variable {m m' : Machine κ τ ρ}

/-- An action that has no frames of its own yet. -/
private theorem Posture.of_first_action {event : HookEvent} {ran : Nat} {rest : List (Frame κ τ ρ)}
    (hcontrol : m.control.isOrdinary)
    (hframes : m.frames = .pass (.mailbox event) ran :: .dispatch :: rest)
    (hbelow : ∀ f ∈ rest, f.isOrdinary) (hhook : m.interp.hook = (false, false, 1))
    (hdraining : m.mailbox.draining = true) : Posture m (some rest) := by
  have hframes' : m.frames = [] ++ .pass (.mailbox event) ran :: .dispatch :: rest := hframes
  exact .acting hcontrol hframes' (by simp) hbelow hhook hdraining

/-! ## Frames -/

/-- Where a list is cut after members of one kind, the first member of the other kind stays behind
the cut. -/
private theorem append_of_cut {α : Type} {p : α → Bool} {popped rest above below : List α} {f : α}
    (hpopped : ∀ g ∈ popped, p g = true) (hf : p f = false)
    (h : popped ++ rest = above ++ f :: below) :
    ∃ kept, above = popped ++ kept ∧ rest = kept ++ f :: below := by
  rw [List.append_eq_append_iff] at h
  obtain ⟨kept, habove, hrest⟩ | ⟨cut, hcut, hbelow⟩ := h
  · exact ⟨kept, habove, hrest⟩
  -- the frame would be among those that were taken off, and it is not one of them
  · cases cut with
    | nil => exact ⟨[], by simpa using hcut.symm, by simpa using hbelow.symm⟩
    | cons g cut =>
      obtain ⟨rfl, _⟩ : f = g ∧ _ := by simpa using hbelow
      have := hpopped f (by simp [hcut])
      simp [hf] at this

/-- Ordinary work leaves a frame of the handler where it is, and ordinary frames above it. -/
theorem Works.frames_of_not_ordinary {above below : List (Frame κ τ ρ)} {f : Frame κ τ ρ}
    (h : Works m m') (habove : ∀ g ∈ above, g.isOrdinary) (hf : f.isOrdinary = false)
    (hframes : m.frames = above ++ f :: below) :
    ∃ above', (∀ g ∈ above', g.isOrdinary) ∧ m'.frames = above' ++ f :: below := by
  obtain ⟨popped, pushed, rest, hpopped, hpushed, hfrom, hto⟩ := h.frames
  obtain ⟨kept, rfl, rfl⟩ := append_of_cut hpopped hf (hfrom.symm.trans hframes)
  refine ⟨pushed ++ kept, ?_, by simpa using hto⟩
  intro g hg
  rcases List.mem_append.mp hg with hg | hg
  · exact hpushed g hg
  · exact habove g (List.mem_append_right _ hg)

/-- Ordinary work pushes ordinary frames. -/
theorem Works.frames_ordinary (h : Works m m') (hframes : ∀ f ∈ m.frames, f.isOrdinary) :
    ∀ f ∈ m'.frames, f.isOrdinary := by
  obtain ⟨popped, pushed, rest, -, hpushed, hfrom, hto⟩ := h.frames
  intro f hf
  rw [hto] at hf
  rcases List.mem_append.mp hf with hf | hf
  · exact hpushed f hf
  · exact hframes f (by rw [hfrom]; exact List.mem_append_right _ hf)

/-- No frame of ordinary work is one of the handler's. -/
private theorem not_ordinary {f : Frame κ τ ρ} {frames rest : List (Frame κ τ ρ)}
    (h : ∀ g ∈ frames, g.isOrdinary) (hf : f.isOrdinary = false) (hframes : frames = f :: rest) :
    False := by
  have := h f (by simp [hframes])
  simp [hf] at this

/-- Where a frame of the handler is on top, no frames of an action are above. -/
private theorem top_of_handler {f g : Frame κ τ ρ} {above below rest : List (Frame κ τ ρ)}
    (habove : ∀ h ∈ above, h.isOrdinary) (hg : g.isOrdinary = false)
    (h : g :: rest = above ++ f :: below) : g = f ∧ rest = below := by
  cases above with
  | nil => simpa using h
  | cons a above =>
    obtain ⟨rfl, _⟩ : g = a ∧ _ := by simpa using h
    exact (not_ordinary habove hg rfl).elim

/-! ## Postures from move to move -/

/-- What a move does to a posture: nothing, or it enters the handler at an armed safepoint, or
returns from it. -/
inductive Turn (m m' : Machine κ τ ρ) :
    Option (List (Frame κ τ ρ)) → Option (List (Frame κ τ ρ)) → Prop where
  | same (o) : Turn m m' o o
  | entered {event} (control : m.control = .poll event)
      (armed : m.mailbox.slot.mask.isEmpty = false) : Turn m m' none (some m.frames)
  | returned {outcome} (before : m.control = .deliver outcome)
      (after : m'.control = .deliver outcome) (unmarked : m.mailbox.draining = false) :
      Turn m m' (some m'.frames) none

/-- Moves out of ordinary work, no action being run. -/
private theorem posture_working {code : Meaning κ τ ρ} (h : Move code m m')
    (hord : m.control.isOrdinary = true) (hframes : ∀ f ∈ m.frames, f.isOrdinary)
    (hhook : m.interp.hook = (true, true, 1)) (hdraining : m.mailbox.draining = false) :
    ∃ o, Posture m' o ∧ Turn m m' none o := by
  cases h with
  | works h =>
    refine ⟨none, ?_, .same none⟩
    -- ordinary work touches neither the hook nor the mark
    have hhook' := h.hook.trans hhook
    have hdraining' := (congrArg Mailbox.draining h.mailbox).trans hdraining
    rcases h.control with hc | ⟨hf, _, hc⟩
    · exact .working hc (h.frames_ordinary hframes) hhook' hdraining'
    · exact .resting hc hf hhook' hdraining'
  | synced _ _ hc => exact ⟨none, .working (hc.trans hord) hframes hhook hdraining, .same none⟩
  | posted _ _ hmail hhook' _ hframes' _ hord' =>
    refine ⟨none, .working hord' (hframes' ▸ hframes) (hhook'.trans hhook) ?_, .same none⟩
    rw [hmail, HostPhase.draining_step]
    exact hdraining
  | dispatched hc harmed _ _ hmail hhook' _ hframes' hhandles =>
    refine ⟨some m.frames, .handling ?_ hframes' hframes hhook', .entered hc harmed⟩
    rw [hhandles, hmail, hdraining]
    rfl
  -- outside of the handler, neither a pass nor a safepoint that entered it is on top
  | ended _ hf => exact (not_ordinary hframes rfl hf).elim
  | returned _ hf => exact (not_ordinary hframes rfl hf).elim
  | _ => simp_all [Control.isOrdinary]

/-- Moves of an action that runs. -/
private theorem posture_acting {code : Meaning κ τ ρ} {above rest : List (Frame κ τ ρ)}
    {event : HookEvent} {ran : Nat} (h : Move code m m') (hord : m.control.isOrdinary = true)
    (hframes : m.frames = above ++ .pass (.mailbox event) ran :: .dispatch :: rest)
    (habove : ∀ f ∈ above, f.isOrdinary) (hbelow : ∀ f ∈ rest, f.isOrdinary)
    (hhook : m.interp.hook = (false, false, 1)) (hdraining : m.mailbox.draining = true) :
    Posture m' (some rest) := by
  cases h with
  | works h =>
    have hhook' := h.hook.trans hhook
    have hdraining' := (congrArg Mailbox.draining h.mailbox).trans hdraining
    obtain ⟨above', habove', hframes'⟩ := h.frames_of_not_ordinary habove rfl hframes
    rcases h.control with hc | ⟨hf, _⟩
    · exact .acting hc hframes' habove' hbelow hhook' hdraining'
    · simp [hf] at hframes'
  | synced _ _ hc => exact .acting (hc.trans hord) hframes habove hbelow hhook hdraining
  | posted _ _ hmail hhook' _ hframes' _ hord' =>
    apply Posture.acting hord' (hframes'.trans hframes) habove hbelow (hhook'.trans hhook)
    rw [hmail, HostPhase.draining_step]
    exact hdraining
  -- the hook is suppressed, so no safepoint of the action enters it again
  | dispatched _ _ hallowed => simp_all [Interpreter.hook]
  | ended _ hf hmail hhook' _ hframes' hc =>
    -- the action was the one of the pass on top, so no frame of it is left
    obtain ⟨_, rfl⟩ := top_of_handler habove rfl (hf.symm.trans hframes)
    refine .handling ?_ hframes' hbelow (hhook'.trans hhook)
    rw [hc, hmail, hdraining]
    rfl
  | returned _ hf =>
    obtain ⟨hne, _⟩ := top_of_handler habove rfl (hf.symm.trans hframes)
    cases hne
  | _ => simp_all [Control.isOrdinary]

/-- Moves of the handler. -/
private theorem posture_handling {code : Meaning κ τ ρ} {rest : List (Frame κ τ ρ)}
    (h : Move code m m') (hmarked : m.control.marked? = some m.mailbox.draining)
    (hframes : m.frames = .dispatch :: rest) (hbelow : ∀ f ∈ rest, f.isOrdinary)
    (hhook : m.interp.hook = (false, false, 1)) : Posture m' (some rest) := by
  have hord := Control.isOrdinary_of_marked? hmarked
  cases h with
  | works _ hc => simp [hord] at hc
  | synced _ hpast =>
    -- the handler's work goes on past its syncpoints
    refine .handling ?_ hframes hbelow hhook
    rw [← Control.marked?_past, hpast, Control.marked?_past]
    exact hmarked
  | posted hc => simp [hc, Control.marked?] at hmarked
  | dispatched hc => simp [hc, Control.marked?] at hmarked
  | ended hc => simp [hc, Control.marked?] at hmarked
  | returned hc => simp [hc, Control.marked?] at hmarked
  | rested hc => simp [hc, Control.marked?] at hmarked
  -- no pass is marked where the handler is about to mark one
  | reentered hc hbusy => simp [hc, Control.marked?, hbusy] at hmarked
  | popped hc =>
    rw [hc] at hmarked
    have hdraining : some true = some m.mailbox.draining := hmarked
    exact .of_first_action rfl (congrArg (_ :: ·) hframes) hbelow hhook
      (Option.some.inj hdraining).symm
  | raised hc =>
    rw [hc] at hmarked
    have hdraining : some false = some m.mailbox.draining := hmarked
    exact .leaving rfl hframes hbelow hhook (Option.some.inj hdraining).symm
  | unmarked => exact .leaving rfl hframes hbelow hhook rfl
  | acquired => exact .handling rfl hframes hbelow hhook
  | flagRead hc | entered hc | lowered hc | disarmed hc | drained hc | succeeded hc | failed hc
  | measured hc | emptied hc | rearmed hc | told hc =>
    rw [hc] at hmarked
    exact .handling hmarked hframes hbelow hhook

/-- The handler's move back to the safepoint it was entered at. -/
private theorem posture_leaving {code : Meaning κ τ ρ} {rest : List (Frame κ τ ρ)}
    {outcome : Outcome κ} (h : Move code m m') (hc : m.control = .deliver outcome)
    (hframes : m.frames = .dispatch :: rest) (hbelow : ∀ f ∈ rest, f.isOrdinary)
    (hhook : m.interp.hook = (false, false, 1)) (hdraining : m.mailbox.draining = false) :
    Posture m' none ∧ m'.frames = rest ∧ m'.control = .deliver outcome := by
  cases h with
  | works _ _ hdelivers =>
    have := hdelivers _ _ _ hc hframes
    simp [Frame.isOrdinary] at this
  | synced hat => simp [hc, Control.atSyncpoint] at hat
  | ended _ hf => simp [hframes] at hf
  | returned hc' hf =>
    obtain rfl : _ = rest := by simpa using hf.symm.trans hframes
    obtain rfl : outcome = _ := by simpa using hc.symm.trans hc'
    -- the safepoint puts the hook back in its slot and lets it be entered again
    refine ⟨.working rfl hbelow ?_ hdraining, rfl, rfl⟩
    simp_all [Interpreter.hook]
  | _ => simp_all

/-- Each move keeps a posture, enters the handler from a safepoint that may, or returns from it to
where it came from. -/
theorem posture_move {code : Meaning κ τ ρ} {o : Option (List (Frame κ τ ρ))}
    (h : Move code m m') (ho : Posture m o) : ∃ o', Posture m' o' ∧ Turn m m' o o' := by
  cases ho with
  -- nothing but rest comes from rest
  | resting hc hf hhook hdraining =>
    cases h with
    | rested => exact ⟨none, .resting hc hf hhook hdraining, .same none⟩
    | works _ hord => simp [hc, Control.isOrdinary] at hord
    | synced hat => simp [hc, Control.atSyncpoint] at hat
    | _ => simp_all
  | working hc hf hhook hdraining => exact posture_working h hc hf hhook hdraining
  | handling hc hf hbelow hhook => exact ⟨_, posture_handling h hc hf hbelow hhook, .same _⟩
  | acting hc hf habove hbelow hhook hdraining =>
    exact ⟨_, posture_acting h hc hf habove hbelow hhook hdraining, .same _⟩
  | leaving hc hf hbelow hhook hdraining =>
    obtain ⟨ho', rfl, hc'⟩ := posture_leaving h hc hf hbelow hhook hdraining
    exact ⟨none, ho', .returned hc hc' hdraining⟩

/-- The frames keep count of the calls in progress. -/
theorem nested_move {code : Meaning κ τ ρ} (h : Move code m m')
    (hn : Nested m.interp.depth m.frames) : Nested m'.interp.depth m'.frames := by
  -- calls begin and end in ordinary work only
  cases h with
  | works h => exact h.nested hn
  | posted _ _ _ _ hdepth hframes => rwa [hdepth, hframes]
  | dispatched _ _ _ _ _ _ hdepth hframes =>
    rw [hdepth, hframes]
    exact hn
  | popped => exact hn
  | ended _ hf _ _ hdepth hframes =>
    rw [hf] at hn
    rw [hdepth, hframes]
    exact hn
  | returned _ hf =>
    rw [hf] at hn
    exact hn
  | _ => exact hn

end Machine

end Safepoint
