import Safepoint.Proofs.Isolation
import Safepoint.Proofs.System.Safepoint

/-!
# One handler at a time

Three things keep the safepoint handler from being entered by the work that it does: the hook is
taken out of its slot while it runs, safepoints are told not to enter it, and a drain pass is marked
as long as it lasts. All three are kept by the frames. A safepoint that has entered the hook waits
in a frame of its own, and as long as there is such a frame the hook is neither in its slot nor
allowed; so there is never a second one, and every safepoint below an action passes. A drain pass is
a part of the handler, so the mark of one is free whenever the handler sets it.

## Key results

- `Laid.suppressed`: as long as a safepoint is in the hook, no other one can enter it
- `Life.draining_iff`: a drain pass is marked from the setting of the mark to its removal
- `Life.handler_not_reentered`: the handler is entered once at a time
-/

namespace Safepoint

variable {κ τ ρ : Type}

/-- Whether a frame is a safepoint that has entered the hook. -/
def Frame.isDispatch : Frame κ τ ρ → Bool
  | .dispatch => true
  | _ => false

/-- Of all frames, the dispatch frame alone marks that the handler is at work. -/
theorem Frame.isDispatch_iff (f : Frame κ τ ρ) : f.isDispatch = true ↔ f = .dispatch := by
  cases f <;> simp [isDispatch]

section

variable {i : Interpreter κ} {fs : List (Frame κ τ ρ)}

/-- As long as a safepoint is in the hook, the hook is out of its slot and may not be entered. -/
theorem Laid.suppressed (h : Laid fs i) (hmem : .dispatch ∈ fs) :
    i.hookInstalled = false ∧ i.hookAllowed = false := by
  induction fs generalizing i with
  | nil => exact nomatch hmem
  | cons f fs ih =>
    obtain ⟨hstands, hlaid⟩ := h
    cases f with
    | dispatch => exact hstands
    | _ =>
      -- no other frame has to do with the hook
      have hbelow : .dispatch ∈ fs := by simpa using hmem
      have hsuppressed := ih hlaid hbelow
      exact hsuppressed

/-- At most one safepoint is in the hook. -/
theorem Laid.countP_isDispatch_le (h : Laid fs i) : fs.countP Frame.isDispatch ≤ 1 := by
  induction fs generalizing i with
  | nil => exact Nat.zero_le 1
  | cons f fs ih =>
    obtain ⟨hstands, hlaid⟩ := h
    rw [List.countP_cons]
    cases f with
    | dispatch =>
      -- below it the hook is in its slot again, so no safepoint has entered it there
      have hnone : fs.countP Frame.isDispatch = 0 := by
        rw [List.countP_eq_zero]
        intro f hf hdispatch
        rw [f.isDispatch_iff] at hdispatch
        exact hlaid.no_dispatch rfl (hdispatch ▸ hf)
      rw [hnone]
      exact Nat.le_refl 1
    | _ => simpa [Frame.isDispatch] using ih hlaid

end

namespace Machine

variable {m m' : Machine κ τ ρ} {code : Meaning κ τ ρ}

/-- A poll that may not enter the hook passes, and leaves nothing behind. -/
theorem Steady.poll_suppressed (h : m.Steady) (hmem : .dispatch ∈ m.frames) (event : HookEvent) :
    m.poll event = m.proceed := by
  rcases poll_cases h.counting event with hpasses | ⟨hallowed, -⟩
  · exact hpasses
  · exact absurd (hallowed.symm.trans (h.laid.suppressed hmem).2) (by decide)

/-- Where what is done next is done for the handler, its safepoint is on top, and no pass is under
way below. -/
private theorem Steady.top_of_handler (h : m.Steady) (hw : Waits .handler m.frames) :
    ∃ rest, m.frames = .dispatch :: rest ∧ m.frames.any Frame.isPass = false := by
  obtain ⟨rest, hf⟩ := hw.of_handler
  refine ⟨rest, hf, ?_⟩
  have hlaid := h.laid
  rw [hf] at hw hlaid ⊢
  have hbelow := hw.2.no_pass (hlaid.2.no_dispatch rfl)
  simp [Frame.isPass, hbelow]

/-- A drain pass is marked only while a safepoint is in the hook. -/
theorem Steady.dispatch_mem_of_draining (h : m.Steady) (hdraining : m.mailbox.draining = true) :
    .dispatch ∈ m.frames := by
  -- the handler is either on top of the frames, or some action of its runs above its frame
  by_cases hhandler : Waits .handler m.frames
  · obtain ⟨rest, hf, -⟩ := h.top_of_handler hhandler
    rw [hf]
    exact List.mem_cons_self
  · by_contra hnot
    obtain ⟨w, -, hw⟩ := h.fitting
    rw [h.draining_eq hhandler, hw.no_pass hnot] at hdraining
    exact nomatch hdraining

/-- When the handler hands its outcome to the safepoint, no pass is marked. -/
theorem Steady.unmarked_of_leaving (h : m.Steady) {outcome : Outcome κ}
    {rest : List (Frame κ τ ρ)} (hc : m.control = .deliver outcome)
    (hf : m.frames = .dispatch :: rest) : m.mailbox.draining = false := by
  -- what is on top of the frames is what the handler waits on
  have hhandler : Waits .handler m.frames := by
    obtain ⟨w, -, hw⟩ := h.fitting
    rw [hf] at hw ⊢
    exact ⟨rfl, hw.2⟩
  obtain ⟨-, -, hnone⟩ := h.top_of_handler hhandler
  have hmarked := h.marked
  unfold Marked at hmarked
  rw [hmarked, hnone, hc]
  rfl

/-- When the handler is about to mark a pass, none is marked. -/
theorem Steady.unmarked_of_acquiring (h : m.Steady) {info : HookInfo}
    (hc : m.control = .handle .acquire info) : m.mailbox.draining = false := by
  obtain ⟨-, -, hnone⟩ := h.top_of_handler (h.fitting.waits hc (by simp [Control.isFor]))
  have hmarked := h.marked
  unfold Marked at hmarked
  rw [hmarked, hnone, hc]
  rfl

/-- A move sets the mark, or takes it away, or leaves it alone. -/
theorem draining_move (h : Move code m m') :
    ((∃ info, m.control = .handle .acquire info) ∧ m'.mailbox.draining = true) ∨
      ((∃ outcome, m.control = .unmark outcome) ∧ m'.mailbox.draining = false) ∨
      (∀ info, m.control ≠ .handle .acquire info) ∧ (∀ outcome, m.control ≠ .unmark outcome) ∧
        m'.mailbox.draining = m.mailbox.draining := by
  -- what is done next is neither, where it is something else
  have leaves {c : Control κ τ ρ} (hc : m.control = c)
      (hacquire : ∀ info, c ≠ .handle .acquire info)
      (hunmark : ∀ outcome, c ≠ .unmark outcome)
      (hsame : m'.mailbox.draining = m.mailbox.draining) :
      (∀ info, m.control ≠ .handle .acquire info) ∧ (∀ outcome, m.control ≠ .unmark outcome) ∧
        m'.mailbox.draining = m.mailbox.draining := by
    subst hc
    exact ⟨hacquire, hunmark, hsame⟩
  cases h with
  | acquired hc => exact .inl ⟨⟨_, hc⟩, rfl⟩
  | reentered hc => exact .inl ⟨⟨_, hc⟩, rfl⟩
  | unmarked hc => exact .inr (.inl ⟨⟨_, hc⟩, rfl⟩)
  | works hw hord =>
    refine .inr (.inr (leaves rfl ?_ ?_ (by rw [hw.mailbox])))
    · intro info hc
      rw [hc] at hord
      exact nomatch hord
    · intro outcome hc
      rw [hc] at hord
      exact nomatch hord
  | synced hat =>
    refine .inr (.inr (leaves rfl ?_ ?_ rfl))
    · intro info hc
      rw [hc] at hat
      exact nomatch hat
    · intro outcome hc
      rw [hc] at hat
      exact nomatch hat
  | posted hc _ hmail =>
    exact .inr (.inr (leaves hc nofun nofun (by rw [hmail, HostPhase.draining_step])))
  | dispatched hc _ _ _ hmail => exact .inr (.inr (leaves hc nofun nofun (by rw [hmail])))
  | ended hc _ hmail => exact .inr (.inr (leaves hc nofun nofun (by rw [hmail])))
  | entered hc | flagRead hc | raised hc | lowered hc | disarmed hc | popped hc | drained hc
  | succeeded hc | failed hc | measured hc | emptied hc | rearmed hc | told hc | returned hc
  | rested hc => exact .inr (.inr (leaves hc nofun nofun rfl))

/-- While an action runs, nothing is taken off the queue. -/
theorem queue_of_acting (h : Move code m m') (hm : m.Steady)
    (hacting : m.frames.any Frame.isPass = true) :
    m.mailbox.queue <+: m'.mailbox.queue := by
  have of_same (hmail : m'.mailbox = m.mailbox) : m.mailbox.queue <+: m'.mailbox.queue :=
    hmail ▸ List.prefix_refl _
  -- only a popped action leaves the queue, and the handler pops none while one runs
  cases h with
  | works hw => exact of_same hw.mailbox
  | posted _ _ hmail =>
    rw [hmail, HostPhase.queue_step]
    exact List.prefix_append _ _
  | dispatched _ _ _ _ hmail | ended _ _ hmail => exact of_same hmail
  | popped hc =>
    -- whoever takes the next action has no action running
    obtain ⟨-, -, hnone⟩ := hm.top_of_handler (hm.fitting.waits hc (by simp [Control.isFor]))
    rw [hnone] at hacting
    exact absurd hacting Bool.false_ne_true
  | _ => exact List.prefix_refl _

end Machine

namespace Life

variable {code : Meaning κ τ ρ} {l : Life code} {n : Nat}

/-- At step `n` the handler marks a drain pass. -/
def Marks (l : Life code) (n : Nat) : Prop :=
  l.event n = .advance ∧ ∃ info, (l.state n).machine.control = .handle .acquire info

/-- At step `n` the handler takes the mark of a drain pass away. -/
def Unmarks (l : Life code) (n : Nat) : Prop :=
  l.event n = .advance ∧ ∃ outcome, (l.state n).machine.control = .unmark outcome

/-- What one step makes of the mark. -/
theorem draining_step (l : Life code) (n : Nat) :
    (l.Marks n ∧ (l.state (n + 1)).machine.mailbox.draining = true) ∨
      (l.Unmarks n ∧ (l.state (n + 1)).machine.mailbox.draining = false) ∨
      ¬ l.Marks n ∧ ¬ l.Unmarks n ∧
        (l.state (n + 1)).machine.mailbox.draining = (l.state n).machine.mailbox.draining := by
  by_cases he : l.event n = .advance
  · rw [l.next, he]
    rcases Machine.draining_move (Machine.move_step code _ (l.steady n).machine.counting) with
      ⟨hmarks, hdraining⟩ | ⟨hunmarks, hdraining⟩ | ⟨hnomark, hnounmark, hdraining⟩
    · exact .inl ⟨⟨he, hmarks⟩, hdraining⟩
    · exact .inr (.inl ⟨⟨he, hunmarks⟩, hdraining⟩)
    · exact .inr (.inr ⟨fun h => h.2.elim hnomark, fun h => h.2.elim hnounmark, hdraining⟩)
  · -- no other thread marks a pass
    rw [l.next, System.draining_of_aside code he]
    exact .inr (.inr ⟨fun h => he h.1, fun h => he h.1, rfl⟩)

/-- No pass is marked when an interpreter is opened. -/
theorem draining_zero (l : Life code) : (l.state 0).machine.mailbox.draining = false := by
  rcases l.begun with ⟨store, heap, limits, store', interp, ground, -, hs⟩ |
    ⟨g, facilities, limits, ground, m, instruments, hopen, hs⟩
  · rw [hs]
    rfl
  · rw [hs]
    exact (System.machine_of_openWith hopen).2.2.2.1

/-- A drain pass is marked from when the handler sets the mark to when it takes it away. -/
theorem draining_iff (l : Life code) (n : Nat) :
    (l.state n).machine.mailbox.draining = true ↔
      ∃ j < n, l.Marks j ∧ ∀ i, j < i → i < n → ¬ l.Unmarks i := by
  -- the induction is on the steps: a mark or an unmarking last made is still there
  induction n with
  | zero => simp [l.draining_zero]
  | succ n ih =>
    rcases l.draining_step n with ⟨hmarks, hdraining⟩ | ⟨hunmarks, hdraining⟩ |
      ⟨hnomark, hnounmark, hdraining⟩
    · simp only [hdraining, true_iff]
      exact ⟨n, Nat.lt_succ_self n, hmarks, fun i hni hin => by omega⟩
    · simp only [hdraining, Bool.false_eq_true, false_iff]
      rintro ⟨j, hj, ⟨-, info, hacquire⟩, hnone⟩
      obtain ⟨outcome, hunmark⟩ := hunmarks.2
      -- the handler does not do both in one step
      have hne : j ≠ n := by
        rintro rfl
        rw [hunmark] at hacquire
        exact nomatch hacquire
      exact hnone n (by omega) (Nat.lt_succ_self n) hunmarks
    · rw [hdraining, ih]
      constructor
      · rintro ⟨j, hj, hmarks, hnone⟩
        refine ⟨j, Nat.lt_succ_of_lt hj, hmarks, fun i hji hin => ?_⟩
        by_cases hi : i = n
        · exact hi ▸ hnounmark
        · exact hnone i hji (by omega)
      · rintro ⟨j, hj, hmarks, hnone⟩
        have hne : j ≠ n := fun h => hnomark (h ▸ hmarks)
        exact ⟨j, by omega, hmarks, fun i hji hin => hnone i hji (by omega)⟩

/-- While an action runs, whatever is queued waits. -/
theorem queue_waits (l : Life code) {n : Nat}
    (hacting : (l.state n).machine.frames.any Frame.isPass = true) :
    (l.state n).machine.mailbox.queue <+: (l.state (n + 1)).machine.mailbox.queue := by
  rw [l.next]
  -- the own thread takes nothing off, and others only add
  by_cases he : l.event n = .advance
  · rw [he]
    exact Machine.queue_of_acting (Machine.move_step code _ (l.steady n).machine.counting)
      (l.steady n).machine hacting
  · cases hacc : (l.state n).access? (l.event n) with
    | some cp =>
      obtain ⟨c, p⟩ := cp
      rw [System.mailbox_of_access code hacc, HostPhase.queue_step]
      exact List.prefix_append _ _
    | none =>
      obtain ⟨keepers, hk⟩ := System.mailbox_of_aside code hacc he
      exact hk ▸ List.prefix_refl _

/-- The handler is entered once at a time, whatever the actions do and whoever comes in between. At
most one safepoint is in the hook, and as long as one is, the hook is out of its slot, no safepoint
may enter it, and each that polls passes and leaves nothing behind. While an action runs, what is
queued waits for its pass. A drain pass is marked from when the handler sets the mark to when it
takes it away, only while the handler runs, and no more when it is left, by results or by an error;
so the mark is free whenever the handler sets it, and the pass begins. -/
theorem handler_not_reentered (l : Life code) (n : Nat) :
    (l.state n).machine.frames.countP Frame.isDispatch ≤ 1 ∧
    (.dispatch ∈ (l.state n).machine.frames →
      (l.state n).machine.interp.hookInstalled = false ∧
      (l.state n).machine.interp.hookAllowed = false ∧
      ∀ event, l.event n = .advance → (l.state n).machine.control = .poll event →
        (l.state (n + 1)).machine = (l.state n).machine.proceed) ∧
    ((l.state n).machine.frames.any Frame.isPass = true →
      (l.state n).machine.mailbox.queue <+: (l.state (n + 1)).machine.mailbox.queue) ∧
    ((l.state n).machine.mailbox.draining = true ↔
      ∃ j < n, l.Marks j ∧ ∀ i, j < i → i < n → ¬ l.Unmarks i) ∧
    ((l.state n).machine.mailbox.draining = true → .dispatch ∈ (l.state n).machine.frames) ∧
    (∀ outcome rest, (l.state n).machine.control = .deliver outcome →
      (l.state n).machine.frames = .dispatch :: rest →
        (l.state n).machine.mailbox.draining = false) ∧
    ∀ info, (l.state n).machine.control = .handle .acquire info →
      (l.state n).machine.mailbox.draining = false ∧
      (l.event n = .advance →
        (l.state (n + 1)).machine.control = .drain (.mailbox info.event) 0) := by
  have hm := (l.steady n).machine
  refine ⟨hm.laid.countP_isDispatch_le, fun hmem => ?_, l.queue_waits, l.draining_iff n,
    hm.dispatch_mem_of_draining, fun outcome rest hc hf => hm.unmarked_of_leaving hc hf,
    fun info hc => ?_⟩
  · obtain ⟨hinstalled, hallowed⟩ := hm.laid.suppressed hmem
    refine ⟨hinstalled, hallowed, fun event he hc => ?_⟩
    rw [l.machine_succ he, Machine.step, hc]
    exact hm.poll_suppressed hmem event
  · -- the mark is free when the pass acquires it
    have hfree := hm.unmarked_of_acquiring hc
    refine ⟨hfree, fun he => ?_⟩
    rw [l.machine_succ he, Machine.step, hc]
    simp only [Machine.handle, hfree]
    rfl

/-! ## A script below an action -/

/-- A script function of one instruction. -/
private def briefScript : Prototype :=
  .ofCode "brief" 0 #[.nil] rfl

/-- Host code that runs a script behind a protected call. -/
private def runsScript : Meaning Unit Unit Unit := fun _ _ =>
  .ask (.pcall (.fn (.script 1 briefScript)) []) fun _ => .finish (.ok [])

/-- The accesses of a host that interjects such code. -/
private def interjects : List (Event Unit Unit Unit) :=
  [.call 0 (.interject ())] ++ List.replicate 4 (.host 0)

/-- A host interjects an action, and the embedder calls a script function. In the handler the action
runs a script of its own; there a host interjects another action, which arms the hook again. -/
private def interjectedWithin : Life runsScript :=
  .ofEvents runsScript
    (interjects ++
      [.start (.ask (.call (.fn (.script 0 briefScript)) []) fun _ => .finish (.ok [])) []] ++
      List.replicate 12 .advance ++ interjects)

/-- The script of the action finds the hook armed and passes, and the other action waits. -/
theorem safepoint_below_action_passed :
    ∃ (l : Life runsScript) (n : Nat) (event : HookEvent),
      (l.state n).machine.control = .poll event ∧
      (l.state n).machine.mailbox.slot.mask = .armed ∧
      (l.state n).machine.mailbox.queue.length = 1 ∧
      (l.state n).machine.mailbox.draining = true ∧
      (l.state (n + 1)).machine = (l.state n).machine.proceed ∧
      (l.state n).machine.mailbox.queue <+: (l.state (n + 1)).machine.mailbox.queue := by
  obtain ⟨-, hsuppressed, hwaits, -, hinside, -⟩ := handler_not_reentered interjectedWithin 23
  have hdraining : (interjectedWithin.state 23).machine.mailbox.draining = true := by
    decide +kernel
  obtain ⟨-, -, hpasses⟩ := hsuppressed (hinside hdraining)
  have hcontrol : (interjectedWithin.state 23).machine.control = .poll .call := by rfl
  exact ⟨interjectedWithin, 23, .call, hcontrol, by decide +kernel, by decide +kernel, hdraining,
    hpasses .call rfl hcontrol, hwaits (by decide +kernel)⟩

end Life

end Safepoint
