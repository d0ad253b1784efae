import Safepoint.Proofs.Interjection.Order
import Safepoint.Proofs.System.Safepoint

/-!
# The delivery of interjected actions

No action is left in the queue unnoticed. While the queue is not empty, the hook is armed, or some
caller has yet to arm it for an action it has queued, or the handler is at a drain pass and will
look at the queue again. So whatever was queued and armed for before a safepoint polls is run before
that safepoint returns a success.

## Key results

- `Run.armed_or_pending`: the invariant
- `Run.interjected_action_runs`: delivery
-/

namespace Safepoint

variable {κ τ ρ : Type}

/-- Whether the handler is between its disarm and the end of its pass, no action being run. -/
def Control.drains : Control κ τ ρ → Bool
  | .handle .acquire _ | .drain (.mailbox _) _ | .settle (.mailbox _) .. | .measure _
  | .rearm .. => true
  | .check _ c | .arrive _ c | .paused _ c => c.drains
  | _ => false

/-- A syncpoint on the way does not change whether a pass is on. -/
theorem Control.drains_past (c : Control κ τ ρ) : c.past.drains = c.drains := by
  induction c with
  | check _ c ih => exact ih
  | arrive _ c ih => exact ih
  | paused _ c ih => exact ih
  | _ => rfl

/-- What a pass does is no ordinary work. -/
theorem Control.isOrdinary_of_drains {c : Control κ τ ρ} (h : c.drains = true) :
    c.isOrdinary = false := by
  induction c with
  | check _ c ih => exact ih h
  | arrive _ c ih => exact ih h
  | paused _ c ih => exact ih h
  | drain source ran => cases source <;> simp_all [drains, isOrdinary]
  | settle source ran outcome => cases source <;> simp_all [drains, isOrdinary]
  | _ => simp_all [drains, isOrdinary]

namespace Machine

variable {m m' : Machine κ τ ρ} {code : Meaning κ τ ρ}

/-- The handler is between its disarm and the end of its pass: at work for the pass, or waiting for
an action of it. -/
def Draining (m : Machine κ τ ρ) : Prop :=
  m.control.drains = true ∨ ∃ f ∈ m.frames, f.isPass = true

/-- The hook is armed, or the handler will look at the queue again. -/
def Minded (m : Machine κ τ ρ) : Prop :=
  m.mailbox.slot.mask = .armed ∨ m.Draining

/-- Ordinary work keeps the frames that wait for actions. -/
private theorem Works.pass_mem (h : Works m m') {f : Frame κ τ ρ} (hf : f ∈ m.frames)
    (hpass : f.isPass = true) : f ∈ m'.frames := by
  obtain ⟨popped, pushed, rest, hpopped, -, hfrom, hto⟩ := h.frames
  rw [hfrom] at hf
  rw [hto]
  rcases List.mem_append.mp hf with hf | hf
  · simp [Frame.not_isPass_of_isOrdinary (hpopped f hf)] at hpass
  · exact List.mem_append_right _ hf

/-- Outside of a drain pass, no pass is marked. -/
private theorem Posture.not_busy {o : Option (List (Frame κ τ ρ))} {info : HookInfo}
    (h : Posture m o) (hc : m.control = .handle .acquire info) : m.mailbox.draining = false := by
  -- a handler that is about to mark its pass carries the mark that it found
  cases h with
  | handling hm =>
    rw [hc] at hm
    exact (Option.some.inj hm).symm
  | resting hc' => simp [hc] at hc'
  | leaving hc' => simp [hc] at hc'
  | working hord => simp [hc, Control.isOrdinary] at hord
  | acting hord => simp [hc, Control.isOrdinary] at hord

/-- While actions wait, a machine that has the hook armed or will look at the queue again goes on to
have it armed or to look again. The handler ends its pass on an empty queue, or arms the hook. -/
theorem minded_move (h : Move code m m') (hpost : m.PostsNothing)
    {o : Option (List (Frame κ τ ρ))} (ho : Posture m o)
    (hmask : m.mailbox.slot.mask = .empty ∨ m.mailbox.slot.mask = .armed) (hm : m.Minded)
    (hq : m'.mailbox.queue ≠ []) : m'.Minded := by
  -- moves that leave the mask alone and keep a pass that waits, from work that is not the pass's
  have kept (hmask' : m'.mailbox.slot.mask = m.mailbox.slot.mask) (hc : m.control.drains = false)
      (hf : ∀ f ∈ m.frames, f.isPass = true → f ∈ m'.frames) : m'.Minded := by
    rcases hm with hm | hm | ⟨f, hmem, hpass⟩
    · exact .inl (hmask'.trans hm)
    · simp [hc] at hm
    · exact .inr (.inr ⟨f, hf f hmem hpass, hpass⟩)
  cases h with
  | works h hord =>
    refine kept (by rw [h.mailbox]) ?_ fun f hf hpass => h.pass_mem hf hpass
    cases hd : m.control.drains with
    | false => rfl
    | true => simp [Control.isOrdinary_of_drains hd] at hord
  | synced _ hpast =>
    rcases hm with hm | hm | hm
    · exact .inl hm
    · refine .inr (.inl ?_)
      rw [← Control.drains_past, hpast, Control.drains_past]
      exact hm
    · exact .inr (.inr hm)
  | posted hc hgoing => exact absurd hgoing (hpost.not_going hc)
  | dispatched _ harmed _ _ hmail =>
    left
    rcases hmask with hmask | hmask
    · simp [hmask] at harmed
    · rw [hmail]
      exact hmask
  | entered hc => exact kept rfl (by rw [hc]; rfl) fun _ hf _ => hf
  | flagRead hc => exact kept rfl (by rw [hc]; rfl) fun _ hf _ => hf
  | raised hc => exact kept rfl (by rw [hc]; rfl) fun _ hf _ => hf
  | lowered hc => exact kept rfl (by rw [hc]; rfl) fun _ hf _ => hf
  | told hc => exact kept rfl (by rw [hc]; rfl) fun _ hf _ => hf
  | unmarked hc => exact kept rfl (by rw [hc]; rfl) fun _ hf _ => hf
  | rested hc => exact kept rfl (by rw [hc]; rfl) fun _ hf _ => hf
  | returned hc hf =>
    apply kept rfl (by rw [hc]; rfl)
    intro f hmem hpass
    rw [hf] at hmem
    rcases List.mem_cons.mp hmem with rfl | hmem
    · exact nomatch hpass
    · exact hmem
  -- from its disarm on, the handler is between that and the end of its pass
  | disarmed => exact .inr (.inl rfl)
  | acquired => exact .inr (.inl rfl)
  | reentered hc hbusy => simp [ho.not_busy hc] at hbusy
  | popped => exact .inr (.inr ⟨_, List.mem_cons_self, rfl⟩)
  -- it ends its pass where no action waits
  | drained _ hqueue => exact absurd hqueue hq
  | ended _ _ _ _ _ _ hc => exact .inr (.inl (by rw [hc]; rfl))
  | succeeded => exact .inr (.inl rfl)
  | failed => exact .inr (.inl rfl)
  | measured => exact .inr (.inl rfl)
  | emptied _ hqueue => exact absurd hqueue hq
  -- or, after a failure, arms the hook again for those that do
  | rearmed => exact .inl rfl

/-- The pass of a handler has ended on an empty queue, and the handler is about to return a
success. -/
def Closing (m : Machine κ τ ρ) : Prop :=
  ∃ results, m.control.past = .unmark (.ok results) ∨
    m.control.past = .deliver (.ok results) ∧ m.mailbox.draining = false

/-- Ordinary work inside a handler is the work of an action. -/
private theorem Posture.draining_of_isOrdinary {rest : List (Frame κ τ ρ)}
    (h : Posture m (some rest)) (hord : m.control.isOrdinary = true)
    (hdelivers : ∀ outcome f fs, m.control = .deliver outcome → m.frames = f :: fs →
      f.isOrdinary) : m.mailbox.draining = true := by
  -- the mark is set while an action runs, and only there is the machine at ordinary work
  cases h with
  | handling hm => simp [Control.isOrdinary_of_marked? hm] at hord
  | acting _ _ _ _ _ hd => exact hd
  | leaving hc hf =>
    have := hdelivers _ _ _ hc hf
    simp [Frame.isOrdinary] at this

/-- The work of an action does not end the pass. -/
private theorem not_closing_of_isOrdinary (hord : m.control.isOrdinary = true)
    (hdraining : m.mailbox.draining = true) : ¬ m.Closing := by
  rintro ⟨results, hc | ⟨-, hd⟩⟩
  · rw [← Control.isOrdinary_past, hc] at hord
    exact nomatch hord
  · simp [hdraining] at hd

/-- A handler comes to return a success only from a pass that finds the queue empty. -/
theorem closing_move (h : Move code m m') {rest : List (Frame κ τ ρ)} (ho : Posture m (some rest))
    (hc : m'.Closing) : m.Closing ∨ m.mailbox.queue = [] := by
  -- the pass comes to its end by finding the queue empty; every other move leads elsewhere
  cases h with
  | works hw hord hdelivers =>
    have hd := ho.draining_of_isOrdinary hord hdelivers
    rcases hw.control with hord' | ⟨-, outcome, hfin⟩
    · exact absurd hc (not_closing_of_isOrdinary hord' (by rw [hw.mailbox]; exact hd))
    · obtain ⟨results, hc | ⟨hc, -⟩⟩ := hc <;> simp [hfin, Control.past] at hc
  | synced _ hpast =>
    obtain ⟨results, hc⟩ := hc
    exact .inl ⟨results, by simpa only [hpast] using hc⟩
  | posted hpost _ hmail _ _ _ _ hord' =>
    have hord : m.control.isOrdinary = true := by rw [hpost]; rfl
    have hd := ho.draining_of_isOrdinary hord (by simp [hpost])
    refine absurd hc (not_closing_of_isOrdinary hord' ?_)
    rw [hmail, HostPhase.draining_step]
    exact hd
  | dispatched _ _ _ _ _ _ _ _ hhandles =>
    obtain ⟨results, hc | ⟨hc, -⟩⟩ := hc <;> simp [hhandles, Control.past] at hc
  | ended _ _ _ _ _ _ hsettles =>
    obtain ⟨results, hc | ⟨hc, -⟩⟩ := hc <;> simp [hsettles, Control.past] at hc
  | drained _ hqueue => exact .inr hqueue
  | unmarked hc' =>
    obtain ⟨results, hc | ⟨hc, -⟩⟩ := hc
    · cases hc
    · refine .inl ⟨results, .inl ?_⟩
      rw [hc']
      exact congrArg Control.unmark (Control.deliver.inj hc)
  | returned hc' hf =>
    obtain ⟨results, hc | ⟨hc, hd⟩⟩ := hc
    · cases hc
    · exact .inl ⟨results, .inr ⟨hc'.symm ▸ hc, hd⟩⟩
  | rested => exact .inl hc
  | entered | flagRead | raised | lowered | disarmed | acquired | reentered | popped | succeeded
  | failed | measured | emptied | rearmed | told =>
    obtain ⟨results, hc | ⟨hc, -⟩⟩ := hc <;> cases hc

end Machine

namespace System

variable {s : System κ τ ρ} {e : Event κ τ ρ}

/-- What happens beside accesses and the machine's own steps leaves an open interpreter minded. -/
private theorem minded_of_aside (code : Meaning κ τ ρ) (h : s.Sound)
    (hopen : (s.step code e).isOpen = true) (he : e ≠ .advance) (hacc : s.access? e = none)
    (hm : s.machine.Minded) : (s.step code e).machine.Minded := by
  obtain ⟨keepers, hk⟩ := mailbox_of_aside code hacc he
  rcases hm with hm | hm
  · left
    rw [hk]
    exact hm
  · right
    -- without an access, others can only answer, start or drop the interpreter
    cases aside_step (s := s) code he with
    | rested hcontrol hframes =>
      unfold Machine.Draining
      rw [hcontrol, hframes]
      exact hm
    | answered hwaiting _ hframes =>
      -- what waits for the outside is the code of an action, whose pass stays below
      obtain ⟨x, given, held, next, hc⟩ := hwaiting
      rcases hm with hm | hm
      · rw [hc] at hm
        cases hm
      · exact .inr (hframes ▸ hm)
    | started hidle =>
      -- with nothing left to do, an interpreter is at no drain pass
      rcases hm with hm | ⟨f, hf, -⟩
      · cases hc : s.machine.control <;> simp_all [Control.isFinished, Control.drains]
      · rw [h.idle hidle.2] at hf
        cases hf
    | dropped _ _ _ _ hclosed => exact absurd (hclosed.symm.trans hopen) (by decide)

/-- While actions wait in an open interpreter, whatever happens it has the hook armed or will look
at the queue again, if it did before. -/
theorem minded_step (code : Meaning κ τ ρ) (h : s.Sound) (hopen : (s.step code e).isOpen = true)
    (hm : s.machine.Minded) (hq : (s.step code e).machine.mailbox.queue ≠ []) :
    (s.step code e).machine.Minded := by
  cases hacc : s.access? e with
  | some cp =>
    obtain ⟨c, p⟩ := cp
    obtain ⟨hframes, hcontrol⟩ := machine_of_access code hacc
    rcases hm with hm | hm | ⟨f, hf, hpass⟩
    · -- an access may arm the hook, and never disarms it
      left
      rw [mailbox_of_access code hacc, HostPhase.mask_step]
      split
      · rfl
      · exact hm
    · rcases hcontrol with hc | hc
      · simp [hc, Control.drains] at hm
      · exact .inr (.inl (hc ▸ hm))
    · exact .inr (.inr ⟨f, hframes ▸ hf, hpass⟩)
  | none =>
    by_cases he : e = .advance
    · subst he
      obtain ⟨o, ho⟩ := h.standing (h.isOpen_of_step code hopen)
      exact Machine.minded_move (h.move code) (postsNothing_of_access?_eq_none hacc) ho h.mask hm hq
    · exact minded_of_aside code h hopen he hacc hm

/-- Only the interpreter's own thread ends a pass of the handler it is in. -/
theorem closing_of_aside (code : Meaning κ τ ρ) {rest : List (Frame κ τ ρ)} (he : e ≠ .advance)
    (ho : s.machine.Posture (some rest)) (hc : (s.step code e).machine.Closing) :
    s.machine.Closing := by
  have hfin := working_of_posture_some ho
  have hdraining := draining_of_aside (s := s) code he
  cases aside_step (s := s) code he with
  | rested hcontrol =>
    obtain ⟨results, hc⟩ := hc
    rw [hcontrol, hdraining] at hc
    exact ⟨results, hc⟩
  | answered _ hruns =>
    -- host code that goes on is not the handler
    obtain ⟨held, p, hruns⟩ := hruns
    obtain ⟨results, hc⟩ := hc
    simp [hruns, Control.past] at hc
  | started hidle | dropped hidle => simp [hidle.2] at hfin

end System

namespace Run

variable {code : Meaning κ τ ρ} {r : Run code}

/-- As long as an interpreter is open and its queue is not empty, the hook is armed, or some caller
is between its enqueue and its arm, or the handler is between its disarm and the end of its pass. -/
theorem armed_or_pending (r : Run code) (n : Nat) (hopen : (r.state n).isOpen = true)
    (hq : (r.state n).machine.mailbox.queue ≠ []) :
    (r.state n).machine.Minded ∨ ∃ c, (r.state n).phase c = .armForAction := by
  -- the induction is on the steps: whatever takes the minder away leaves another
  induction n with
  | zero =>
    obtain ⟨-, -, hmail, -⟩ := System.opened_machine r.opened
    simp [hmail, Mailbox.empty, Mailbox.keep] at hq
  | succ n ih =>
    have hsound := r.sound n
    rw [r.next] at hopen hq ⊢
    have hqueue := System.queue_step (e := r.event n) code hsound
    have ih := ih (hsound.isOpen_of_step code hopen)
    cases hacc : (r.state n).access? (r.event n) with
    | none =>
      -- nothing is enqueued now, so some action was in the queue before
      have hq' : (r.state n).machine.mailbox.queue ≠ [] := by
        intro hnil
        simp [hnil, System.enqueuing?, hacc, hq] at hqueue
      rcases ih hq' with hm | ⟨c, hc⟩
      · exact .inl (System.minded_step code hsound hopen hm hq)
      · refine .inr ⟨c, ?_⟩
        rw [System.phase_step_of_going code (by rw [hc]; rfl) (by simp [hacc]), hc]
    | some cp =>
      obtain ⟨c, p⟩ := cp
      cases harms : p.arms with
      | true =>
        refine .inl (.inl ?_)
        rw [System.mailbox_of_access code hacc, HostPhase.mask_step, if_pos harms]
      | false =>
        cases henq : p.enqueued? with
        | some action =>
          -- the caller of this very access is to arm the hook next
          refine .inr ⟨c, ?_⟩
          rw [System.phase_step_of_access code hacc]
          cases p <;> simp_all [HostPhase.enqueued?, HostPhase.step]
        | none =>
          have hq' : (r.state n).machine.mailbox.queue ≠ [] := by
            rw [System.mailbox_of_access code hacc, HostPhase.queue_step] at hq
            simpa [henq] using hq
          rcases ih hq' with hm | ⟨c', hc'⟩
          · exact .inl (System.minded_step code hsound hopen hm hq)
          · -- the caller that has yet to arm is not the one that makes this access
            have hne : c' ≠ c := by
              rintro rfl
              rw [System.phase_of_access hacc] at hc'
              simp [hc', HostPhase.arms] at harms
            refine .inr ⟨c', ?_⟩
            rw [System.phase_step_of_going code (by rw [hc']; rfl) ?_, hc']
            intro p' hp'
            rw [hacc] at hp'
            exact hne (Prod.mk.inj (Option.some.inj hp')).1.symm

/-! ## Delivery -/

/-- What was enqueued stays enqueued, and in its place. -/
theorem enqueued_prefix (r : Run code) {n m : Nat} (h : n ≤ m) : r.enqueued n <+: r.enqueued m := by
  induction m, h using Nat.le_induction with
  | base => exact List.prefix_refl _
  | succ m _ ih => exact ih.trans (List.prefix_append _ _)

/-- The actions that were enqueued are never fewer. -/
theorem enqueued_length_le (r : Run code) {n m : Nat} (h : n ≤ m) :
    (r.enqueued n).length ≤ (r.enqueued m).length :=
  (r.enqueued_prefix h).length_le

/-- What was enqueued keeps its place. -/
theorem enqueued_place (r : Run code) {n m p : Nat} {x y : Caller × κ}
    (hx : (r.enqueued n)[p]? = some x) (hy : (r.enqueued m)[p]? = some y) : x = y := by
  have later {n m : Nat} {x y : Caller × κ} (h : n ≤ m) (hx : (r.enqueued n)[p]? = some x)
      (hy : (r.enqueued m)[p]? = some y) : x = y := by
    obtain ⟨added, hadded⟩ := r.enqueued_prefix h
    obtain ⟨hlt, -⟩ := List.getElem?_eq_some_iff.mp hx
    rw [← hadded, List.getElem?_append_left hlt, hx] at hy
    exact Option.some.inj hy
  rcases Nat.le_total n m with h | h
  · exact later h hx hy
  · exact (later h hy hx).symm

/-- When the queue is empty, all that was enqueued has been started. -/
theorem started_of_queue_nil (r : Run code) {n p : Nat}
    (hq : (r.state n).machine.mailbox.queue = []) (hp : p < (r.enqueued n).length) :
    p < (r.started n).length := by
  have h := congrArg List.length (r.started_append_queue n)
  rw [hq, List.append_nil, List.length_map] at h
  omega

/-- What was in the queue when the hook was armed is started, or else the hook stays armed or the
handler will look at the queue again. -/
theorem started_or_minded (r : Run code) {b n p : Nat} (hbn : b ≤ n)
    (hopen : (r.state n).isOpen = true) (hp : p < (r.enqueued b).length)
    (hm : (r.state b).machine.Minded) : p < (r.started n).length ∨ (r.state n).machine.Minded := by
  -- the induction is on the steps since the action was minded
  induction n, hbn using Nat.le_induction with
  | base => exact .inr hm
  | succ n hbn ih =>
    have hsound := r.sound n
    have hopen' := hopen
    rw [r.next] at hopen'
    rcases ih (hsound.isOpen_of_step code hopen') with hlt | hm
    · -- what was started stays so
      exact .inl (Nat.lt_of_lt_of_le hlt (r.started_length_le (Nat.le_succ n)))
    · by_cases hq : (r.state (n + 1)).machine.mailbox.queue = []
      · have := r.enqueued_length_le (show b ≤ n + 1 by omega)
        exact .inl (r.started_of_queue_nil hq (by omega))
      · rw [r.next] at hq ⊢
        exact .inr (System.minded_step code hsound hopen' hm hq)

/-- A safepoint whose handler comes to return a success has started all that was enqueued before
it polled. -/
theorem started_of_closing {k e p : Nat} {outcome : Outcome κ} (h : r.Polls k)
    (hmask : (r.state k).machine.mailbox.slot.mask = .armed) (hret : r.Returns k e outcome)
    (hp : p < (r.enqueued k).length) {j : Nat} (hkj : k < j) (hje : j < e)
    (hc : (r.state j).machine.Closing) : p < (r.started j).length := by
  -- the induction is on the steps of the safepoint
  induction j, hkj using Nat.le_induction with
  | base =>
    -- a handler that was just entered is not about to return
    obtain ⟨event, hstep⟩ := h.step_of_armed hmask
    rw [hstep] at hc
    obtain ⟨results, hc | ⟨hc, -⟩⟩ := hc <;> exact nomatch hc
  | succ j hkj ih =>
    have hin := hret.inside h hmask hkj (by omega)
    have hle := r.started_length_le (show j ≤ j + 1 by omega)
    by_cases he : r.event j = .advance
    · rcases Machine.closing_move (r.move he) hin hc with hc | hq
      · have := ih (by omega) hc
        omega
      · -- the pass has found the queue empty
        have := r.enqueued_length_le (show k ≤ j by omega)
        have := r.started_of_queue_nil hq (show p < _ by omega)
        omega
    · rw [r.next] at hc
      have := ih (by omega) (System.closing_of_aside code he hin hc)
      omega

/-- A safepoint that may enter the handler is at no drain pass. -/
private theorem Polls.not_draining {k : Nat} (h : r.Polls k) :
    ¬ (r.state k).machine.Draining := by
  obtain ⟨event, hc⟩ := h.control
  rintro (hd | ⟨f, hf, hpass⟩)
  · simp [hc, Control.drains] at hd
  · have hidle := System.running_of_outside h.posture
    rw [System.running, List.countP_eq_zero] at hidle
    exact hidle f hf hpass

/-- A safepoint that returns a success has run, to its end, whatever was enqueued before it polled,
if that was started earlier or the hook was armed for it. -/
private theorem ended_of_returns {k e p : Nat} {results : List (Value κ)} (h : r.Polls k)
    (hret : r.Returns k e (.ok results)) (hp : p < (r.enqueued k).length)
    (hm : p < (r.started k).length ∨ (r.state k).machine.Minded) : p < r.ended e := by
  have hlater := hret.later
  rcases (r.sound k).mask with hmask | hmask
  · -- the hook is disarmed, so the action was started before the poll, and none runs at a poll
    obtain ⟨rfl, -⟩ := hret.of_disarmed h hmask
    have hstarted : p < (r.started k).length := by
      rcases hm with hlt | hm | hm
      · exact hlt
      · exact absurd (hmask.symm.trans hm) (by decide)
      · exact absurd hm h.not_draining
    have hlen := r.length_started k
    have hidle := System.running_of_outside h.posture
    simp only [ended]
    omega
  · -- the hook is armed, so the pass of this safepoint's own handler ends on an empty queue
    obtain ⟨d, hkd, rfl, hcontrol, hdraining, hout⟩ := hret.leaves h hmask
    have hclosing : (r.state d).machine.Closing := by
      refine ⟨results, .inr ⟨?_, hdraining⟩⟩
      rw [hcontrol]
      rfl
    have hstarted := started_of_closing h hmask hret hp hkd (by omega) hclosing
    have hle := r.started_length_le (show d ≤ d + 1 by omega)
    have hlen := r.length_started (d + 1)
    have hidle := System.running_of_outside hout
    omega

/-- What is enqueued takes the next place. -/
private theorem enqueued_of_accesses {b : Nat} {c : Caller} {action : κ}
    (h : r.Accesses b c (.enqueue action)) :
    r.enqueued (b + 1) = r.enqueued b ++ [(c, action)] := by
  have hacc : (r.state b).access? (r.event b) = some (c, .enqueue action) := h
  simp [enqueued, System.enqueuing?, hacc, HostPhase.enqueued?]

/-- No interjected action is stranded. As long as the interpreter is open and its queue is not
empty, the hook is armed, or some caller is between its enqueue and its arm, or the handler is
between its disarm and the end of its pass. And when a safepoint that may enter the handler returns
a success, each action that was enqueued and armed for before it polled has been run to its end. -/
theorem interjected_action_runs (r : Run code) :
    (∀ n, (r.state n).isOpen = true → (r.state n).machine.mailbox.queue ≠ [] →
      (r.state n).machine.mailbox.slot.mask = .armed ∨
        (∃ c, (r.state n).phase c = .armForAction) ∨ (r.state n).machine.Draining) ∧
      ∀ {c : Caller} {action : κ} {b a k e : Nat} {results : List (Value κ)},
        r.Accesses b c (.enqueue action) → b < a → r.Accesses a c .armForAction → a < k →
        r.Polls k → r.Returns k e (.ok results) →
        ∃ i j, i < j ∧ j < e ∧ r.Starts i (r.enqueued b).length ∧
          r.Ends j (r.enqueued b).length ∧
          (r.state (i + 1)).machine.control = .run [] (code action []) := by
  constructor
  · intro n hopen hq
    rcases r.armed_or_pending n hopen hq with (hm | hm) | hc
    · exact .inl hm
    · exact .inr (.inr hm)
    · exact .inr (.inl hc)
  · intro c action b a k e results henq hba harm hak hpolls hret
    have hnext := enqueued_of_accesses henq
    have hplace : ∀ n, b < n → (r.enqueued b).length < (r.enqueued n).length := by
      intro n hn
      have := r.enqueued_length_le (show b + 1 ≤ n from hn)
      rw [hnext, List.length_append] at this
      exact Nat.lt_of_lt_of_le (Nat.lt_succ_self _) this
    -- from the arming on, the action is started or the hook or the handler minds it
    have harmed : (r.state (a + 1)).machine.Minded := by
      left
      rw [r.next, System.mailbox_of_access code harm, HostPhase.mask_step]
      rfl
    have hm := r.started_or_minded (show a + 1 ≤ k from hak) hpolls.isOpen
      (hplace (a + 1) (by omega)) harmed
    -- so it has returned by the end of the safepoint, and was started before that
    have hended := ended_of_returns hpolls hret (hplace k (by omega)) hm
    obtain ⟨j, hj, hends⟩ := r.exists_ends hended
    obtain ⟨i, hi, hstarts⟩ := hends.starts
    refine ⟨i, j, hi, hj, hstarts, hends, ?_⟩
    obtain ⟨c', action', hget, hrun, -⟩ := hstarts.runs
    have hmine : (r.enqueued (b + 1))[(r.enqueued b).length]? = some (c, action) := by
      simp [hnext]
    obtain ⟨rfl, rfl⟩ := Prod.mk.inj (r.enqueued_place hget hmine)
    exact hrun

/-- A host interjects an action, and the embedder calls a native function afterwards. -/
private def earlyInterjection : Run (idleCode : Meaning Unit Unit Unit) :=
  .ofEvents idleCode
    [.call 0 (.interject ()), .host 0, .host 0, .host 0, .host 0, .start (callNative ()) []]

/-- The call safepoint of the native function runs the action. -/
theorem early_interjection_runs :
    ∃ (r : Run (idleCode : Meaning Unit Unit Unit)) (k e i j : Nat), r.Polls k ∧
      r.Returns k e (.ok []) ∧ i < j ∧ j < e ∧ r.Starts i 0 ∧ r.Ends j 0 := by
  have hpolls : earlyInterjection.Polls 8 := ⟨rfl, ⟨.call, rfl⟩, rfl⟩
  have hreturns : earlyInterjection.Returns 8 23 (.ok []) := by
    refine ⟨by decide, rfl, rfl, fun j hkj hje hframes => ?_⟩
    -- until then there are more frames than at the poll
    have hmore : ∀ j < 23, 8 < j → 2 < (earlyInterjection.state j).machine.frames.length := by
      decide +kernel
    have htwo : (earlyInterjection.state 8).machine.frames.length = 2 := rfl
    have := hmore j hje hkj
    rw [hframes, htwo] at this
    exact absurd this (by decide)
  obtain ⟨i, j, hij, hje, hstarts, hends, -⟩ := (interjected_action_runs earlyInterjection).2
    (show earlyInterjection.Accesses 2 (.host 0) (.enqueue ()) from rfl) (by decide)
    (show earlyInterjection.Accesses 3 (.host 0) .armForAction from rfl) (by decide) hpolls hreturns
  exact ⟨earlyInterjection, 8, 23, i, j, hpolls, hreturns, hij, hje, hstarts, hends⟩

end Run

end Safepoint
