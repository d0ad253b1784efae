import Safepoint.Proofs.System.Invariant

/-!
# Safepoints in a run

A safepoint that may enter the handler polls the hook slot at some step of a run, and returns at the
first later step at which the frames are those it polled with. In between, if it found the hook
armed, the interpreter is in the handler of this safepoint; otherwise there is no in between.

## Key results

- `Run.inside_step`: an interpreter in its handler stays in it, or returns to the safepoint
- `Run.Returns.of_disarmed`: a safepoint that finds the hook disarmed returns at once
- `Run.Returns.inside`, `Run.Returns.leaves`: a safepoint that finds the hook armed is in the
  handler until the handler hands it an outcome
-/

namespace Safepoint

variable {κ τ ρ : Type}

namespace System

variable {s : System κ τ ρ} {e : Event κ τ ρ}

/-- An interpreter in its handler is at work. -/
theorem working_of_posture_some {rest : List (Frame κ τ ρ)}
    (h : s.machine.Posture (some rest)) : s.machine.control.isFinished = false := by
  cases hfin : s.machine.control.isFinished with
  | false => rfl
  | true => exact nomatch (h.of_finished hfin).1

/-- An interpreter with work to do is open. -/
theorem Sound.isOpen_of_working (h : s.Sound) (hfin : s.machine.control.isFinished = false) :
    s.isOpen = true := by
  cases hopen : s.isOpen with
  | true => rfl
  | false => simp [h.dropped hopen] at hfin

/-- An interpreter at work that may enter the handler is outside of it. -/
theorem Sound.posture_of_allowed (h : s.Sound) (hfin : s.machine.control.isFinished = false)
    (hallowed : s.machine.interp.hookAllowed = true) : s.machine.Posture none := by
  obtain ⟨o, ho⟩ := h.standing (h.isOpen_of_working hfin)
  -- inside the handler no safepoint may enter
  cases ho with
  | resting hc hf hh hd => exact .resting hc hf hh hd
  | working hc hf hh hd => exact .working hc hf hh hd
  | handling _ _ _ hh => simp_all [Interpreter.hook]
  | acting _ _ _ _ hh => simp_all [Interpreter.hook]
  | leaving _ _ _ hh => simp_all [Interpreter.hook]

end System

/-- Outside of the handler, the hook may be entered, no drain pass is marked, and no frame belongs
to the handler. -/
theorem Machine.Posture.outside {m : Machine κ τ ρ} (h : m.Posture none) :
    m.interp.hook = (true, true, 1) ∧ m.mailbox.draining = false ∧
      ∀ f ∈ m.frames, f.isOrdinary := by
  cases h with
  | resting _ hf hh hd => exact ⟨hh, hd, by simp [hf]⟩
  | working _ hf hh hd => exact ⟨hh, hd, hf⟩

/-- A machine that enters the handler at a safepoint. -/
def Machine.entering (m : Machine κ τ ρ) (event : HookEvent) : Machine κ τ ρ :=
  { m with interp := { m.interp with hookInstalled := false, hookAllowed := false } }.await
    .dispatch (.handle .enter ⟨event, m.interp.depth⟩)

/-- Where every instruction counts, an armed poll outside of the handler enters it, whatever its
event. -/
theorem Machine.poll_of_armed {m : Machine κ τ ρ} (event : HookEvent)
    (hhook : m.interp.hook = (true, true, 1)) (hthreshold : m.mailbox.slot.threshold = 1)
    (hmask : m.mailbox.slot.mask = .armed) : m.poll event = m.entering event := by
  simp only [Interpreter.hook, Prod.mk.injEq] at hhook
  obtain ⟨hinstalled, hallowed, hcountdown⟩ := hhook
  simp only [Machine.poll, hmask, HookMask.isEmpty_armed, HookMask.contains_armed]
  cases event with
  | count =>
    -- the count is one, and there is nothing left of it
    simp [Machine.dispatch, Machine.entering, hcountdown, hthreshold, hinstalled, hallowed]
  | call | ret =>
    simp [Machine.dispatch, Machine.entering, hinstalled, hallowed]

/-- Where every instruction counts, a poll passes and leaves nothing behind, or it enters the
handler. -/
theorem Machine.poll_cases {m : Machine κ τ ρ} (hcount : m.Counting) (event : HookEvent) :
    m.poll event = m.proceed ∨
      m.interp.hookAllowed = true ∧ m.poll event = m.entering event := by
  have entering (event : HookEvent) : m.dispatch event = m.proceed ∨
      m.interp.hookAllowed = true ∧ m.dispatch event = m.entering event := by
    -- it enters if that is allowed and the handler is in the slot
    unfold dispatch
    split
    · exact .inl rfl
    next hallowed =>
      split
      · exact .inl rfl
      · exact .inr ⟨by simpa using hallowed, rfl⟩
  unfold poll
  dsimp only
  split
  · exact .inl rfl
  · split
    · exact .inl rfl
    · cases event with
      | count =>
        -- the count is out, and starts again from what it was at
        have hsame : { m.interp with countdown := m.mailbox.slot.threshold } = m.interp := by
          rw [hcount.threshold, ← hcount.countdown]
        dsimp only
        rw [if_neg (by simp [hcount.countdown]), hsame]
        exact entering .count
      | call => exact entering .call
      | ret => exact entering .ret

/-- In the handler, there are frames above those of the safepoint. -/
theorem Machine.Posture.frames_ne {m : Machine κ τ ρ} {rest : List (Frame κ τ ρ)}
    (h : m.Posture (some rest)) : m.frames ≠ rest := by
  intro hframes
  have hlen := congrArg List.length hframes
  -- inside the handler there is at least one frame more
  cases h with
  | handling _ hf => simp [hf] at hlen
  | acting _ hf =>
    simp only [hf, List.length_append, List.length_cons] at hlen
    omega
  | leaving _ hf => simp [hf] at hlen

/-- From the handler, an interpreter returns to the frames of the safepoint. -/
theorem Machine.Turn.of_some {m m' : Machine κ τ ρ} {rest : List (Frame κ τ ρ)}
    {o : Option (List (Frame κ τ ρ))} (h : m.Turn m' (some rest) o) :
    o = some rest ∨ o = none ∧ rest = m'.frames ∧ m.mailbox.draining = false ∧
      ∃ outcome, m.control = .deliver outcome ∧ m'.control = .deliver outcome := by
  cases h with
  | same => exact .inl rfl
  | returned before after hunmarked => exact .inr ⟨rfl, rfl, hunmarked, _, before, after⟩

namespace Run

variable {code : Meaning κ τ ρ} {r : Run code} {k e : Nat} {outcome : Outcome κ}

/-- At step `n` a caller makes an access for its call. -/
def Accesses (r : Run code) (n : Nat) (c : Caller) (p : HostPhase κ) : Prop :=
  (r.state n).access? (r.event n) = some (c, p)

/-- At step `k` a safepoint that may enter the handler polls the hook slot. -/
structure Polls (r : Run code) (k : Nat) : Prop where
  step : r.event k = .advance
  control : ∃ event, (r.state k).machine.control = .poll event
  allowed : (r.state k).machine.interp.hookAllowed = true

/-- The safepoint that polls at step `k` has returned by step `e`, and no earlier. -/
structure Returns (r : Run code) (k e : Nat) (outcome : Outcome κ) : Prop where
  later : k < e
  control : (r.state e).machine.control = .deliver outcome
  frames : (r.state e).machine.frames = (r.state k).machine.frames
  first : ∀ j, k < j → j < e → (r.state j).machine.frames ≠ (r.state k).machine.frames

/-- A step of the interpreter's own thread is a move. -/
theorem move (r : Run code) {n : Nat} (h : r.event n = .advance) :
    (r.state n).machine.Move code (r.state (n + 1)).machine := by
  rw [r.next, h]
  exact (r.sound n).move code

/-- An interpreter in the handler of a safepoint stays in it, or returns to the frames of the
safepoint with the outcome of the handler. -/
theorem inside_step (r : Run code) {n : Nat} {rest : List (Frame κ τ ρ)}
    (hin : (r.state n).machine.Posture (some rest)) :
    (r.state (n + 1)).machine.Posture (some rest) ∨
      (r.state (n + 1)).machine.Posture none ∧ (r.state (n + 1)).machine.frames = rest ∧
        (r.state n).machine.mailbox.draining = false ∧
        ∃ outcome, (r.state n).machine.control = .deliver outcome ∧
          (r.state (n + 1)).machine.control = .deliver outcome := by
  -- an interpreter that is at work is open, and stays so
  have hfin := System.working_of_posture_some hin
  have hopen := (r.sound n).isOpen_of_working hfin
  obtain ⟨o, ho, hturn⟩ := System.posture_step (e := r.event n) code (r.sound n) hin
    (System.isOpen_step_of_working code hopen hfin)
  rw [← r.next] at ho hturn
  obtain rfl | ⟨-, hturn⟩ := hturn
  · exact .inl ho
  · obtain rfl | ⟨rfl, hframes, hunmarked, houtcome⟩ := hturn.of_some
    · exact .inl ho
    · exact .inr ⟨ho, hframes.symm, hunmarked, houtcome⟩

/-- A safepoint is work. -/
theorem Polls.working (h : r.Polls k) : (r.state k).machine.control.isFinished = false := by
  obtain ⟨event, hc⟩ := h.control
  rw [hc]
  rfl

/-- A safepoint is one of an open interpreter. -/
theorem Polls.isOpen (h : r.Polls k) : (r.state k).isOpen = true :=
  (r.sound k).isOpen_of_working h.working

/-- A safepoint that may enter the handler is outside of it. -/
theorem Polls.posture (h : r.Polls k) : (r.state k).machine.Posture none :=
  (r.sound k).posture_of_allowed h.working h.allowed

/-- At a safepoint that may enter, the hook is in its place. -/
theorem Polls.hook (h : r.Polls k) : (r.state k).machine.interp.hook = (true, true, 1) :=
  h.posture.outside.1

/-- At a safepoint that may enter, nothing is being drained. -/
theorem Polls.unmarked (h : r.Polls k) : (r.state k).machine.mailbox.draining = false :=
  h.posture.outside.2.1

/-- At a safepoint that may enter, no handler is in the middle of anything. -/
theorem Polls.ordinary (h : r.Polls k) : ∀ f ∈ (r.state k).machine.frames, f.isOrdinary :=
  h.posture.outside.2.2

/-- A poll that finds the hook disarmed passes. -/
theorem Polls.step_of_disarmed (h : r.Polls k)
    (hmask : (r.state k).machine.mailbox.slot.mask = .empty) :
    (r.state (k + 1)).machine = (r.state k).machine.proceed := by
  obtain ⟨event, hc⟩ := h.control
  rw [r.next, h.step]
  simp [System.step, Machine.step, hc, Machine.poll, hmask]

/-- A poll that finds the hook armed enters the handler. -/
theorem Polls.step_of_armed (h : r.Polls k)
    (hmask : (r.state k).machine.mailbox.slot.mask = .armed) :
    ∃ event, (r.state (k + 1)).machine = (r.state k).machine.entering event := by
  obtain ⟨event, hc⟩ := h.control
  refine ⟨event, ?_⟩
  rw [r.next, h.step]
  simp only [System.step, Machine.step, hc]
  exact Machine.poll_of_armed event h.hook (r.sound k).threshold hmask

/-- A safepoint that finds the hook armed is in its handler one step later. -/
theorem Polls.inside (h : r.Polls k) (hmask : (r.state k).machine.mailbox.slot.mask = .armed) :
    (r.state (k + 1)).machine.Posture (some (r.state k).machine.frames) := by
  obtain ⟨event, hstep⟩ := h.step_of_armed hmask
  have hhook := h.hook
  simp only [Interpreter.hook, Prod.mk.injEq] at hhook
  rw [hstep]
  refine .handling (congrArg some h.unmarked.symm) rfl h.ordinary ?_
  simp [Machine.entering, Machine.await, Interpreter.hook, hhook]

/-- A safepoint that finds the hook disarmed returns at once. -/
theorem Returns.of_disarmed (hret : r.Returns k e outcome) (h : r.Polls k)
    (hmask : (r.state k).machine.mailbox.slot.mask = .empty) : e = k + 1 ∧ outcome = .ok [] := by
  have hstep := h.step_of_disarmed hmask
  have hlater := hret.later
  -- it has returned one step later already
  have he : e = k + 1 := by
    by_contra hne
    exact hret.first (k + 1) (by omega) (by omega) (by rw [hstep]; rfl)
  subst he
  have hcontrol := hret.control
  rw [hstep] at hcontrol
  exact ⟨rfl, by simpa [Machine.proceed, Machine.goto] using hcontrol.symm⟩

/-- While a safepoint that found the hook armed has not returned, the interpreter is in its
handler. -/
theorem Returns.inside (hret : r.Returns k e outcome) (h : r.Polls k)
    (hmask : (r.state k).machine.mailbox.slot.mask = .armed) {j : Nat} (hkj : k < j) (hje : j < e) :
    (r.state j).machine.Posture (some (r.state k).machine.frames) := by
  induction j, hkj using Nat.le_induction with
  | base => exact h.inside hmask
  | succ j hkj ih =>
    rcases r.inside_step (ih (by omega)) with hin | ⟨-, hframes, -⟩
    · exact hin
    · -- back at the frames of the poll, it would have returned
      exact absurd hframes (hret.first _ (by omega) hje)

/-- A safepoint that found the hook armed returns with the outcome of the handler. -/
theorem Returns.leaves (hret : r.Returns k e outcome) (h : r.Polls k)
    (hmask : (r.state k).machine.mailbox.slot.mask = .armed) :
    ∃ d, k < d ∧ e = d + 1 ∧ (r.state d).machine.control = .deliver outcome ∧
      (r.state d).machine.mailbox.draining = false ∧ (r.state e).machine.Posture none := by
  have hlater := hret.later
  obtain ⟨d, rfl⟩ : ∃ d, e = d + 1 := ⟨e - 1, by omega⟩
  have hkd : k < d := by
    -- one step into the handler, the frames are not those of the poll
    by_contra hle
    obtain rfl : k = d := by omega
    exact (h.inside hmask).frames_ne hret.frames
  rcases r.inside_step (hret.inside h hmask hkd (Nat.lt_succ_self d)) with
    hin | ⟨hout, -, hunmarked, outcome', hbefore, hafter⟩
  · exact absurd hret.frames hin.frames_ne
  -- what leaves the handler is what the safepoint has returned
  · obtain rfl : outcome = outcome' := by simpa using hret.control.symm.trans hafter
    exact ⟨d, hkd, rfl, hbefore, hunmarked, hout⟩

end Run

end Safepoint
