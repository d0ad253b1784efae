import Safepoint.Proofs.System.Invariant

/-!
# Moves and progress

How far an interpreter gets depends on how often its own thread moves. `Run.moves` counts these
moves: the steps of the thread, save those at which it is held at a syncpoint. What is said to take
a number of steps takes that many moves, whatever other threads do in between.

## Key results

- `Counts.progress`: what moves bring nearer, and nothing else puts off, is reached or as many moves
  nearer as were made
- `Run.reaches_of_measure`, `Run.progress_of_measure`: the same of the moves of a run
-/

namespace Safepoint

variable {κ τ ρ : Type}

/-- Whether an event is a step of the interpreter's own thread. -/
def Event.isAdvance : Event κ τ ρ → Bool
  | .advance => true
  | _ => false

/-- The interpreter goes on in one kind of event only. -/
theorem Event.isAdvance_iff (e : Event κ τ ρ) : e.isAdvance = true ↔ e = .advance := by
  cases e <;> simp [isAdvance]

/-- In no other kind of event does the interpreter go on. -/
theorem Event.isAdvance_eq_false {e : Event κ τ ρ} (h : e ≠ .advance) : e.isAdvance = false := by
  rw [Bool.eq_false_iff, Ne, isAdvance_iff]
  exact h

/-- Whether a machine is held at a syncpoint. -/
def Machine.isHeld (m : Machine κ τ ρ) : Bool :=
  match m.control with
  | .paused point _ => !(m.points.get point).released
  | _ => false

/-! ## Counts of moves -/

/-- One count goes up by one at just the steps at which something moves. -/
def Counts (moves : Nat → Nat) (isMove : Nat → Bool) : Prop :=
  ∀ n, moves (n + 1) = moves n + (isMove n).toNat

/-- Suppose that, as long as a goal is not reached, some number of moves is left to it, that each
move makes that number smaller, and that nothing makes it greater. Then up to any step the goal was
reached, or as many moves fewer are left as were made. -/
theorem Counts.progress {moves : Nat → Nat} {isMove : Nat → Bool} (h : Counts moves isMove)
    {left : Nat → Nat → Prop} {goal : Nat → Prop} {k n bound : Nat}
    (hstep : ∀ j μ, k ≤ j → j < n → left j μ →
      goal (j + 1) ∨ ∃ μ', left (j + 1) μ' ∧ μ' + (isMove j).toNat ≤ μ)
    (hk : left k bound) {i : Nat} (hki : k ≤ i) (hin : i ≤ n) :
    (∃ e, k < e ∧ e ≤ i ∧ goal e ∧ moves e ≤ moves k + bound + 1 ∧
        ∀ j, k ≤ j → j < e → ∃ μ, left j μ) ∨
      (∃ μ, left i μ ∧ moves i + μ ≤ moves k + bound) ∧
        ∀ j, k ≤ j → j ≤ i → ∃ μ, left j μ := by
  -- the moves made and those left never exceed what there was at the beginning
  induction i, hki using Nat.le_induction with
  | base =>
    refine .inr ⟨⟨bound, hk, Nat.le_refl _⟩, fun j hkj hjk => ?_⟩
    obtain rfl : j = k := by omega
    exact ⟨bound, hk⟩
  | succ i hki ih =>
    rcases ih (by omega) with ⟨e, hke, hei, hgoal, hmoves, hleft⟩ | ⟨⟨μ, hμ, hle⟩, hleft⟩
    · exact .inl ⟨e, hke, by omega, hgoal, hmoves, hleft⟩
    · have hcount := h i
      have hmove : (isMove i).toNat ≤ 1 := Bool.toNat_le _
      -- this step reaches the goal, or leaves less than before by what it has moved
      rcases hstep i μ hki (by omega) hμ with hgoal | ⟨μ', hμ', hless⟩
      · exact .inl ⟨i + 1, by omega, Nat.le_refl _, hgoal, by omega, fun j hkj hji =>
          hleft j hkj (by omega)⟩
      · refine .inr ⟨⟨μ', hμ', by omega⟩, fun j hkj hji => ?_⟩
        by_cases hj : j = i + 1
        · subst hj
          exact ⟨μ', hμ'⟩
        · exact hleft j hkj (by omega)

namespace Run

variable {code : Meaning κ τ ρ}

/-- Whether the interpreter's own thread moves at step `n`. -/
def isMove (r : Run code) (n : Nat) : Bool :=
  (r.event n).isAdvance && !(r.state n).machine.isHeld

/-- The moves of the interpreter's own thread so far. -/
def moves (r : Run code) : Nat → Nat
  | 0 => 0
  | n + 1 => r.moves n + (r.isMove n).toNat

/-- What others do is no move. -/
theorem isMove_of_aside (r : Run code) {n : Nat} (h : r.event n ≠ .advance) :
    (r.isMove n).toNat = 0 := by
  rw [isMove, Event.isAdvance_eq_false h]
  rfl

/-- A step is one move at most. -/
theorem isMove_le_one (r : Run code) (n : Nat) : (r.isMove n).toNat ≤ 1 :=
  Bool.toNat_le _

/-- The moves go up by one at most. -/
theorem moves_succ_le (r : Run code) (n : Nat) : r.moves (n + 1) ≤ r.moves n + 1 := by
  have := r.isMove_le_one n
  rw [moves]
  omega

/-- The moves of a run are counted step by step. -/
theorem counts_moves (r : Run code) : Counts r.moves r.isMove := fun _ => rfl

/-- Up to any step of a run what its moves bring nearer was reached, or as many moves fewer are left
as were made. -/
theorem progress_of_measure (r : Run code) {left : Nat → Nat → Prop} {goal : Nat → Prop}
    {k n bound : Nat}
    (hstep : ∀ j μ, k ≤ j → j < n → left j μ →
      goal (j + 1) ∨ ∃ μ', left (j + 1) μ' ∧ μ' + (r.isMove j).toNat ≤ μ)
    (hk : left k bound)
    {i : Nat} (hki : k ≤ i) (hin : i ≤ n) :
    (∃ e, k < e ∧ e ≤ i ∧ goal e ∧ r.moves e ≤ r.moves k + bound + 1 ∧
        ∀ j, k ≤ j → j < e → ∃ μ, left j μ) ∨
      (∃ μ, left i μ ∧ r.moves i + μ ≤ r.moves k + bound) ∧
        ∀ j, k ≤ j → j ≤ i → ∃ μ, left j μ :=
  r.counts_moves.progress hstep hk hki hin

/-- What moves bring nearer, and nothing puts off, is reached once there have been more moves than
were left. -/
theorem reaches_of_measure (r : Run code) {left : Nat → Nat → Prop} {goal : Nat → Prop}
    {k n bound : Nat}
    (hstep : ∀ j μ, k ≤ j → j < n → left j μ →
      goal (j + 1) ∨ ∃ μ', left (j + 1) μ' ∧ μ' + (r.isMove j).toNat ≤ μ)
    (hk : left k bound)
    (hkn : k ≤ n) (hmoves : r.moves k + bound < r.moves n) :
    ∃ e, k < e ∧ e ≤ n ∧ goal e ∧ r.moves e ≤ r.moves k + bound + 1 ∧
      ∀ j, k ≤ j → j < e → ∃ μ, left j μ := by
  rcases r.progress_of_measure hstep hk hkn (Nat.le_refl n) with hreached | ⟨⟨μ, -, hle⟩, -⟩
  · exact hreached
  · -- more moves were made than there were to make
    omega

end Run

end Safepoint
