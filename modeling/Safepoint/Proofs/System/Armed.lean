import Safepoint.Proofs.System.Safepoint

/-!
# Armed safepoints

Between a poll that reads an armed mask and the handler stand three guards: the countdown to a count
event, the permission to enter the hook, and the slot that the hook is taken from. The first never
stands in the way, since the countdown is at one whenever a safepoint polls: it is one at the
beginning, and a count event sets it to the threshold, whether or not it enters the hook. The other
two go together, and are down just as long as a safepoint waits for the hook that it has entered.

## Key results

- `Machine.Posture.guards`: the guards, told by where a machine stands
- `Machine.poll_of_suppressed`: a poll that may not enter the hook leaves the guards as they are
- `Run.armed_safepoint_enters`: outside of the handler, a poll that reads an armed mask enters it
-/

namespace Safepoint

variable {κ τ ρ : Type}

namespace Machine

/-- The three guards of the handler, where every instruction counts: the count is out at the next
count event, the hook is in its slot if safepoints may enter it, and they may unless one is in
it. -/
structure Guarded (m : Machine κ τ ρ) : Prop where
  countdown : m.interp.countdown = 1
  threshold : m.mailbox.slot.threshold = 1
  slot : m.interp.hookInstalled = m.interp.hookAllowed
  suppressed : m.interp.hookAllowed = false ↔ .dispatch ∈ m.frames

variable {m : Machine κ τ ρ} {o : Option (List (Frame κ τ ρ))}

/-- No frame of ordinary work is a safepoint that has entered the hook. -/
private theorem dispatch_not_mem {fs : List (Frame κ τ ρ)} (h : ∀ f ∈ fs, f.isOrdinary) :
    .dispatch ∉ fs := by
  intro hmem
  exact nomatch h .dispatch hmem

/-- Wherever a machine stands, its guards are as they should be. -/
theorem Posture.guards (h : m.Posture o) (hthreshold : m.mailbox.slot.threshold = 1) :
    m.Guarded := by
  -- the permission and the slot are told by the hook, the countdown is the same in all postures
  have of_hook {b : Bool} (hhook : m.interp.hook = (b, b, 1))
      (hframes : b = false ↔ .dispatch ∈ m.frames) : m.Guarded := by
    simp only [Interpreter.hook, Prod.mk.injEq] at hhook
    obtain ⟨hinstalled, hallowed, hcountdown⟩ := hhook
    exact ⟨hcountdown, hthreshold, hinstalled.trans hallowed.symm, by rw [hallowed]; exact hframes⟩
  cases h with
  | resting _ hf hhook _ => exact of_hook hhook (by simp [hf])
  | working _ hf hhook _ => exact of_hook hhook (by simp [dispatch_not_mem hf])
  | handling _ hf _ hhook | acting _ hf _ _ hhook | leaving _ hf _ hhook =>
    exact of_hook hhook (by simp [hf])

/-- Where every instruction counts, a safepoint that may not enter the hook passes, and leaves the
countdown as it was: it is at one again as soon as it is out. -/
theorem poll_of_suppressed (h : m.Guarded) (event : HookEvent)
    (hsuppressed : m.interp.hookAllowed = false) : m.poll event = m.proceed := by
  rcases poll_cases ⟨h.countdown, h.threshold⟩ event with hpasses | ⟨hallowed, -⟩
  · exact hpasses
  · exact absurd (hallowed.symm.trans hsuppressed) (by decide)

/-- An armed poll outside of the handler enters it, whatever its event. -/
theorem Guarded.poll_of_armed (h : m.Guarded) (event : HookEvent)
    (hmask : m.mailbox.slot.mask = .armed) (hallowed : m.interp.hookAllowed = true) :
    m.poll event = m.entering event := by
  apply Machine.poll_of_armed event _ h.threshold hmask
  simp [Interpreter.hook, h.slot, hallowed, h.countdown]

end Machine

namespace Run

variable {code : Meaning κ τ ρ}

/-- In every state of a run the guards of the handler are as they should be, until the interpreter
is dropped. -/
theorem guarded (r : Run code) {n : Nat} (hopen : (r.state n).isOpen = true) :
    (r.state n).machine.Guarded := by
  obtain ⟨o, ho⟩ := (r.sound n).standing hopen
  exact ho.guards (r.sound n).threshold

/-- A mask that is not empty has every event in it. -/
theorem mask_armed (r : Run code) {n : Nat}
    (h : (r.state n).machine.mailbox.slot.mask.isEmpty = false) :
    (r.state n).machine.mailbox.slot.mask = .armed := by
  rcases (r.sound n).mask with hempty | harmed
  · rw [hempty] at h
    exact nomatch h
  · exact harmed

/-- No armed safepoint is skipped. Take any state of any run, whatever was armed and disarmed on the
way, whichever safepoints were suppressed and whichever handlers failed. The countdown is at the
threshold, which is one; the hook is in its slot unless safepoints are suppressed, and they are just
as long as one of them is in the hook. A safepoint of any kind that polls and reads a mask that is
not empty enters the handler, if safepoints are not suppressed; the callback is found in its slot,
and is told of the safepoint's event. Any other poll passes and changes nothing, so a suppressed one
does not bring the next count event nearer or put it off. -/
theorem armed_safepoint_enters (r : Run code) (n : Nat) (hopen : (r.state n).isOpen = true) :
    (r.state n).machine.Guarded ∧
    ∀ event, (r.state n).machine.control = .poll event → r.event n = .advance →
      ((r.state n).machine.mailbox.slot.mask.isEmpty = false →
        (r.state n).machine.interp.hookAllowed = true →
          (r.state n).machine.interp.hookInstalled = true ∧
          (r.state (n + 1)).machine.control =
            .handle .enter ⟨event, (r.state n).machine.interp.depth⟩ ∧
          (r.state (n + 1)).machine.frames = .dispatch :: (r.state n).machine.frames ∧
          (r.state (n + 1)).machine.interp =
            { (r.state n).machine.interp with hookInstalled := false, hookAllowed := false }) ∧
      ((r.state n).machine.mailbox.slot.mask.isEmpty = true ∨
        (r.state n).machine.interp.hookAllowed = false →
          (r.state (n + 1)).machine = (r.state n).machine.proceed) := by
  have hguarded := r.guarded hopen
  refine ⟨hguarded, fun event hc he => ?_⟩
  have hstep : (r.state (n + 1)).machine = (r.state n).machine.poll event := by
    rw [r.step_of_advance he, Machine.step, hc]
  -- an armed and unsuppressed safepoint enters, and what stands against that is the other case
  constructor
  · intro hmask hallowed
    rw [hstep, hguarded.poll_of_armed event (r.mask_armed hmask) hallowed]
    exact ⟨hguarded.slot.trans hallowed, rfl, rfl, rfl⟩
  · rintro (hempty | hsuppressed)
    · rw [hstep]
      simp only [Machine.poll, hempty, if_true]
    · rw [hstep]
      exact Machine.poll_of_suppressed hguarded event hsuppressed

/-! ## An action that fails under an armed hook -/

/-- A script function of two instructions. -/
private def pairScript : Prototype :=
  .ofCode "pair" 0 #[.nil, .nil] rfl

/-- The action `0` runs a script behind a protected call and then fails, and any other succeeds. -/
private def failingCode : Meaning Nat Unit Unit := fun action _ =>
  match action with
  | 0 => .ask (.pcall (.fn (.script 1 pairScript)) []) fun _ => .finish (.error (.ofText "failed"))
  | _ => .finish (.ok [])

/-- An embedder that calls a script function twice, each time behind a protected call. -/
private def callsTwice : Program Nat Unit Unit :=
  .ask (.pcall (.fn (.script 0 pairScript)) []) fun _ =>
    .ask (.pcall (.fn (.script 0 pairScript)) []) fun _ => .finish (.ok [])

/-- The accesses of a host that interjects an action. -/
private def interjecting (action : Nat) : List (Event Nat Unit Unit) :=
  [.call 0 (.interject action)] ++ List.replicate 4 (.host 0)

/-- A host interjects the action `0` while a script runs, and another one while the script of that
action runs in the handler. -/
private def armedWithin : Run failingCode :=
  .ofEvents failingCode
    ([.start callsTwice []] ++ List.replicate 4 .advance ++ interjecting 0 ++
      List.replicate 15 .advance ++ interjecting 1)

/-- The script of the action polls with the hook armed, at a count event, and passes. When the
action has failed, the next call polls with the hook still armed, and enters the handler. -/
theorem armed_safepoint_after_failure_enters :
    ∃ (r : Run failingCode) (j n : Nat), j < n ∧
      (r.state j).machine.control = .poll .count ∧
      (r.state j).machine.mailbox.slot.mask.isEmpty = false ∧
      (r.state (j + 1)).machine = (r.state j).machine.proceed ∧
      (r.state n).machine.control = .poll .call ∧
      (r.state n).machine.mailbox.slot.mask.isEmpty = false ∧
      (r.state n).machine.mailbox.invocations = 1 ∧
      (r.state (n + 1)).machine.control = .handle .enter ⟨.call, 1⟩ := by
  -- a safepoint within the action, and one after it failed
  obtain ⟨-, hsuppressed⟩ := armed_safepoint_enters armedWithin 33 (by decide +kernel)
  obtain ⟨-, hpasses⟩ := hsuppressed .count (by rfl) (by rfl)
  obtain ⟨-, harmed⟩ := armed_safepoint_enters armedWithin 57 (by decide +kernel)
  obtain ⟨henters, -⟩ := harmed .call (by rfl) (by rfl)
  obtain ⟨-, hcontrol, -⟩ := henters (by decide +kernel) (by decide +kernel)
  have hdepth : (armedWithin.state 57).machine.interp.depth = 1 := by decide +kernel
  rw [hdepth] at hcontrol
  exact ⟨armedWithin, 33, 57, by decide, by rfl, by decide +kernel,
    hpasses (.inr (by decide +kernel)), by rfl, by decide +kernel, by decide +kernel, hcontrol⟩

end Run

end Safepoint
