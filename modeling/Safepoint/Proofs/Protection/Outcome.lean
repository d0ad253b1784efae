import Safepoint.Proofs.Machine.Work

/-!
# What comes of a protected call

A protected call of a script that is handed the outcome of its call pushes two results: true and the
first result of the call, or false and a string that tells of the error. Either there is room for
both and its function goes on, or the error of a full stack leaves the function; and for want of
memory for the string, that error leaves it.

## Key results

- `Machine.step_of_results`: what comes of results
- `Machine.step_of_caught`: what comes of an error that scripts can catch
-/

namespace Safepoint

variable {κ τ ρ : Type}

namespace Machine

variable {m : Machine κ τ ρ} {a : Activation κ} {rest : List (Frame κ τ ρ)}

/-- An error has left a script function above the frames `rest`. -/
def LeftBy (m : Machine κ τ ρ) (e : Error) (rest : List (Frame κ τ ρ)) : Prop :=
  m.control = .deliver (.error e) ∧ m.frames = rest

/-- Two results have taken their places on the stack of an interpreter `i`, and their function goes
on; or there is no room for both, and the error of a full stack has left the function. -/
inductive Pushed (m : Machine κ τ ρ) (i : Interpreter κ) (a : Activation κ)
    (rest : List (Frame κ τ ρ)) (v w : Value κ) : Prop where
  | placed (room : i.stack.size + 2 ≤ i.limits.maxStackSize) (control : m.control = .fetch)
      (frames : m.frames = .script a .ready :: rest)
      (interp : m.interp = { i with stack := (i.stack.push v).push w }) : Pushed m i a rest v w
  | refused (full : i.limits.maxStackSize < i.stack.size + 2)
      (left : m.LeftBy (i.runtimeError .stackOverflow) rest) : Pushed m i a rest v w

/-- Where there is no room for both, the function is left. -/
theorem Pushed.leftBy {i : Interpreter κ} {v w : Value κ} (h : m.Pushed i a rest v w)
    (hfull : i.limits.maxStackSize < i.stack.size + 2) :
    m.LeftBy (i.runtimeError .stackOverflow) rest := by
  cases h with
  | placed hroom => omega
  | refused _ hleft => exact hleft

/-- To let go of the function leaves what was pushed. -/
private theorem pushed_release (m : Machine κ τ ρ) (a : Activation κ) (v w f : Value κ) :
    ((m.pushTwoAndGo a v w).release f).Pushed m.interp a m.frames v w := by
  rcases Nat.lt_or_ge m.interp.limits.maxStackSize (m.interp.stack.size + 2) with hfull | hroom
  · exact .refused hfull (pushTwoAndGo_of_full a v w hfull)
  · rw [pushTwoAndGo_of_room a v w hroom]
    exact .placed hroom rfl rfl rfl

variable {f : Value κ} {top : Nat}

/-- A call that has succeeded gives true and its first result. -/
theorem step_of_results (code : Meaning κ τ ρ) {vs : List (Value κ)}
    (hc : m.control = .deliver (.ok vs)) (hf : m.frames = .script a (.pcall f top) :: rest) :
    (m.step code).Pushed m.interp a rest (.bool true) (vs.headD .nil) := by
  simp only [step, hc, deliver, hf, deliverScript, afterPcall]
  exact pushed_release
    (releaseAll { m with frames := rest, control := .deliver (.ok vs) } vs.tail) a
    (.bool true) (firstOf vs) f

/-- An error that scripts can catch is made into a string, if there is memory for it. -/
private theorem afterPcall_caught (m : Machine κ τ ρ) (a : Activation κ) (f : Value κ) {e : Error}
    (he : e.isCatchable = true) :
    (∃ s, (m.ground.store.newString m.interp.heap (m.interp.errorBytes e)).2 = some s ∧
        ((m.afterPcall a m.interp.stack.size (.error e)).release f).Pushed m.interp a m.frames
          (.bool false) (.str s)) ∨
      (m.ground.store.newString m.interp.heap (m.interp.errorBytes e)).2 = none ∧
        ((m.afterPcall a m.interp.stack.size (.error e)).release f).LeftBy .memory m.frames := by
  have hmade := snd_newValue m (m.interp.errorBytes e)
  simp only [afterPcall, he, if_true, truncate_size]
  cases hnew : m.newValue (m.interp.errorBytes e) with
  | mk m₁ answer =>
    obtain ⟨hframes, hinterp⟩ := newValue_keeps hnew
    rw [hnew] at hmade
    -- the text of the error is the only thing that is asked for
    cases made : (m.ground.store.newString m.interp.heap (m.interp.errorBytes e)).2 with
    | some s =>
      obtain rfl : answer = some (.str s) := by simpa [made] using hmade
      rw [← hinterp, ← hframes]
      exact .inl ⟨s, rfl, pushed_release m₁ a (.bool false) (.str s) f⟩
    | none =>
      obtain rfl : answer = none := by simpa [made] using hmade
      exact .inr ⟨rfl, rfl, hframes⟩

/-- A call that has failed with an error that scripts can catch gives false and a new string that
tells of it, if there is memory for that. -/
theorem step_of_caught (code : Meaning κ τ ρ) {e : Error} (he : e.isCatchable = true)
    (hc : m.control = .deliver (.error e)) (hf : m.frames = .script a (.pcall f top) :: rest)
    (htop : top = m.interp.stack.size) :
    (∃ s, (m.ground.store.newString m.interp.heap (m.interp.errorBytes e)).2 = some s ∧
        (m.step code).Pushed m.interp a rest (.bool false) (.str s)) ∨
      (m.ground.store.newString m.interp.heap (m.interp.errorBytes e)).2 = none ∧
        (m.step code).LeftBy .memory rest := by
  subst htop
  -- the stack is as high as it was when the call began, so nothing is cut off
  simp only [step, hc, deliver, hf, deliverScript]
  exact afterPcall_caught { m with frames := rest, control := .deliver (.error e) } a f he

end Machine

end Safepoint
