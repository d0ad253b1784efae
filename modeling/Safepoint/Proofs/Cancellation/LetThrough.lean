import Safepoint.Proofs.Cancellation.Unwinding

/-!
# What a safepoint has let through

A safepoint that has passed lets one thing through: the instruction that it stands before, the
function that is called, or the results of one that has returned. A script that is in the middle of
that comes to another safepoint, or to its next instruction, within a few moves, unless it is left
before: `Machine.Underway m rest size left` says that the scripts above `rest`, with `size` frames
at most, are in the middle of such a thing, and that at most `left` moves remain.

## Key results

- `Machine.underway_step`: each move brings a script nearer to its next safepoint, and begins
  nothing but what was let through
-/

namespace Safepoint

variable {κ τ ρ : Type}

/-- Whether a script is between two pieces of work: about to fetch an instruction, at a safepoint,
or left by an error. -/
def Control.isBetween : Control κ τ ρ → Bool
  | .fetch | .poll _ | .deliver (.error _) => true
  | _ => false

/-- The moves from a frame that is handed results to the next safepoint. -/
def Frame.ahead : Frame κ τ ρ → Nat
  | .script _ (.safepoint _) | .call (.leaving _) => 3
  | .script .. => 2
  | _ => 1

namespace Machine

/-- The instruction or the function that was let through by its safepoint and is about to begin. -/
def letThrough (m : Machine κ τ ρ) : Option (Instruction ⊕ Func κ) :=
  match m.control, m.frames with
  | .execute i, _ => some (.inl i)
  | .deliver (.ok _), .script _ (.safepoint i) :: _ => some (.inl i)
  | .deliver (.ok _), .call (.entering f _) :: _ => some (.inr f)
  | _, _ => none

/-- The scripts above `rest` are in the middle of what a safepoint has let through. -/
inductive Underway (m : Machine κ τ ρ) (rest : List (Frame κ τ ρ)) (size : Nat) : Nat → Prop where
  | executing {above i} (control : m.control = .execute i) (frames : m.frames = above ++ rest)
      (ends : EndsAt above rest) (small : above.length ≤ size) : Underway m rest size 2
  | invoking {above f args} (control : m.control = .invoke f args)
      (frames : m.frames = above ++ rest) (ends : EndsAt above rest) (small : above.length ≤ size) :
      Underway m rest size 1
  | delivering {f above results} (control : m.control = .deliver (.ok results))
      (frames : m.frames = f :: above ++ rest) (ends : EndsAt (f :: above) rest)
      (small : above.length < size) : Underway m rest size f.ahead

/-- Where scripts have come to when what was let through is over. -/
inductive Settled (m : Machine κ τ ρ) (rest : List (Frame κ τ ρ)) (size : Nat) : Prop where
  /-- They are between two pieces of work. -/
  | between {above} (control : m.control.isBetween = true) (frames : m.frames = above ++ rest)
      (ends : EndsAt above rest) (small : above.length ≤ size + 1)
  /-- The outermost call has returned. -/
  | returned {results} (control : m.control = .deliver (.ok results)) (frames : m.frames = rest)
  /-- A native function runs. -/
  | native {held p above} (control : m.control = .run held p)
      (frames : m.frames = .call .body :: above ++ rest) (ends : EndsAt above rest)
  | faulted (control : m.control = .fault .localOutside)

variable {m m' : Machine κ τ ρ} {rest fs above : List (Frame κ τ ρ)} {size left : Nat}

/-- One move of a machine with a script in the middle of something. -/
def Proceeds (m m' : Machine κ τ ρ) (rest : List (Frame κ τ ρ)) (size left : Nat) : Prop :=
  m'.interp.hook = m.interp.hook ∧ (m'.letThrough = none ∨ m'.letThrough = m.letThrough) ∧
    (m'.Settled rest size ∨ ∃ left' < left, m'.Underway rest size left')

/-- What is between two pieces of work, or calls, has let nothing through. -/
theorem letThrough_of_isBetween (h : m.control.isBetween = true) : m.letThrough = none := by
  unfold letThrough
  split <;> simp_all [Control.isBetween]

/-- Below the frames of scripts, nothing waits at a safepoint. -/
private theorem letThrough_of_returned {results : List (Value κ)}
    (hc : m.control = .deliver (.ok results)) (hf : m.frames = rest) (hends : EndsAt fs rest) :
    m.letThrough = none := by
  unfold letThrough
  -- below the call there is no frame of a script that the results could go to
  rw [hc, hf]
  cases rest with
  | nil => rfl
  | cons f rest =>
    have hscript := hends.2 f (by simp)
    cases f with
    | call stage | script a await => exact nomatch hscript
    | _ => rfl

/-- A script function that was handed results, or has executed an instruction, goes on to its next
instruction, calls, or is left. -/
private theorem proceeds_of_goes {n : Machine κ τ ρ} (h : Goes n m')
    (hhook : n.interp.hook = m.interp.hook) (hf : n.frames = fs ++ rest) (hends : EndsAt fs rest)
    (hsize : fs.length < size) (hbody : Waits .body (fs ++ rest)) (hleft : 2 ≤ left) :
    m.Proceeds m' rest size left := by
  have hway := h.way
  rw [hf] at hway
  refine ⟨h.hook.trans hhook, ?_⟩
  generalize hc : m'.control = c at hway
  generalize hf' : m'.frames = fs' at hway
  cases hway with
  | on a =>
    -- the next instruction has a safepoint of its own
    have hf' : m'.frames = (.script a .ready :: fs) ++ rest := hf'
    refine ⟨.inl (letThrough_of_isBetween (by rw [hc]; rfl)), .inl (.between (by rw [hc]; rfl) hf'
      (hends.cons rfl) ?_)⟩
    simp only [List.length_cons]
    omega
  | @calls a await f args =>
    -- and so has the call of a function
    have hf' : m'.frames = (.script a await :: fs) ++ rest := hf'
    refine ⟨.inl (by simp [letThrough, hc]), .inr ⟨1, by omega, .invoking hc hf'
      (hends.cons rfl) ?_⟩⟩
    simp only [List.length_cons]
    omega
  | leaves outcome =>
    cases outcome with
    | error err =>
      exact ⟨.inl (letThrough_of_isBetween (by rw [hc]; rfl)), .inl (.between (by rw [hc]; rfl) hf'
        hends (by omega))⟩
    | ok results =>
      -- the body of the call is over, and the call comes to its return safepoint next
      obtain ⟨fs, rfl⟩ := hends.body_on_top hbody
      have hsize : fs.length < size := by
        simp only [List.length_cons] at hsize
        omega
      exact ⟨.inl (by simp [letThrough, hc, hf']),
        .inr ⟨1, by omega, .delivering hc hf' hends hsize⟩⟩
  | faults => exact ⟨.inl (by simp [letThrough, hc]), .inl (.faulted hc)⟩

/-- An instruction that was let through leaves one piece of work less. -/
private theorem proceeds_of_executing (code : Meaning κ τ ρ) {i : Instruction}
    (hc : m.control = .execute i) (hf : m.frames = above ++ rest) (hends : EndsAt above rest)
    (hsize : above.length ≤ size) (hfit : m.Fitting) : m.Proceeds (m.step code) rest size 2 := by
  have hw : Waits .script (above ++ rest) := by
    rw [← hf]
    exact hfit.waits hc (by simp [Control.isFor])
  obtain ⟨a, fs, rfl, hbody⟩ := hends.script_on_top hw
  have hstep : m.step code = execute { m with frames := fs ++ rest } a i := by
    simp only [step, hc, hf, List.cons_append]
  rw [hstep]
  have hsize : fs.length < size := by
    simp only [List.length_cons] at hsize
    omega
  exact proceeds_of_goes (goes_execute _ a i) rfl rfl hends.tail hsize hbody (Nat.le_refl 2)

/-- A call that was let through comes to its call safepoint, or fails. -/
private theorem proceeds_of_invoking (code : Meaning κ τ ρ) {f : Value κ} {args : List (Value κ)}
    (hc : m.control = .invoke f args) (hf : m.frames = above ++ rest) (hends : EndsAt above rest)
    (hsize : above.length ≤ size) : m.Proceeds (m.step code) rest size 1 := by
  have hstep : m.step code = m.invoke f args := by simp only [step, hc]
  rw [hstep]
  -- a call that cannot begin is an error of the instruction that makes it
  have failed (e : Error) : m.Proceeds ((m.releaseAll args).raise e) rest size 1 :=
    ⟨rfl, .inl rfl, .inl (.between rfl hf hends (by omega))⟩
  unfold invoke
  split
  next g =>
    split
    next => exact failed _
    next =>
      have hends' : EndsAt (.call (.entering g args) :: above) rest := hends.cons rfl
      have hsize' : (Frame.call (.entering g args) :: above).length ≤ size + 1 := by
        simpa using hsize
      exact ⟨rfl, .inl rfl, .inl (.between rfl (by exact congrArg (_ :: ·) hf) hends' hsize')⟩
  next => exact failed _

/-- Results that are handed to a call let its function begin, or go on to its caller. -/
private theorem proceeds_of_results_at_call (code : Meaning κ τ ρ) {stage : Stage κ}
    {results : List (Value κ)} (hc : m.control = .deliver (.ok results))
    (hf : m.frames = .call stage :: above ++ rest) (hends : EndsAt (.call stage :: above) rest)
    (hsize : above.length < size) (hfit : m.Fitting) (hn : Nested m.interp.depth m.frames) :
    m.Proceeds (m.step code) rest size (Frame.call stage : Frame κ τ ρ).ahead := by
  have hstep : m.step code =
      deliverCall code { m with frames := above ++ rest } stage (.ok results) := by
    simp only [step, hc, deliver, hf, List.cons_append]
  rw [hstep]
  have hcall (stage' : Stage κ) : EndsAt (.call stage' :: above) rest := hends.tail.cons rfl
  cases stage with
  | entering g args =>
    cases g with
    | native id name c => exact ⟨rfl, .inl rfl, .inl (.native rfl rfl hends.tail)⟩
    | script id proto =>
      simp only [deliverCall, enter]
      split
      next =>
        -- no room for its locals, and the call fails
        refine ⟨rfl, .inl rfl, .inl (.between rfl (by rfl) (hcall .body) ?_)⟩
        simp only [List.length_cons]
        omega
      next =>
        have hbody (a : Activation κ) : EndsAt (.script a .ready :: .call .body :: above) rest :=
          (hcall .body).cons rfl
        refine ⟨rfl, .inl rfl, .inl (.between rfl (by rfl) (hbody _) ?_)⟩
        simp only [List.length_cons]
        omega
  | body =>
    -- the function has returned, and comes to its return safepoint
    refine ⟨rfl, .inl rfl, .inl (.between rfl (by rfl) (hcall (.leaving results)) ?_)⟩
    simp only [List.length_cons]
    omega
  | leaving results' =>
    have hn : Nested m.interp.depth (.call (.leaving results') :: (above ++ rest)) := by
      rw [hf] at hn
      exact hn
    obtain ⟨below, hdepth, -⟩ := hn
    have hdepth : m.interp.depth = below + 1 := hdepth
    have hbelow : Waits .call (above ++ rest) := hfit.waits_below hf
    simp only [deliverCall, exitCall, hdepth]
    cases above with
    -- this was the outermost call of the scripts
    | nil => exact ⟨rfl, .inl (letThrough_of_returned rfl rfl hends.tail), .inl (.returned rfl rfl)⟩
    | cons f above =>
      have hscript := hends.tail.1 f (by simp)
      have hwaits : f.waitsFor .call = true := hbelow.1
      -- the caller is a script function
      obtain ⟨a, await, rfl⟩ : ∃ a await, f = .script a await := by
        cases f with
        | script a await => exact ⟨a, await, rfl⟩
        | call stage => cases stage <;> simp [Frame.waitsFor] at hwaits
        | _ => simp [Frame.isScript] at hscript
      have hsize' : above.length < size := by
        simp only [List.length_cons] at hsize
        omega
      cases await with
      | ready | safepoint i => simp [Frame.waitsFor] at hwaits
      | call g | pcall g top =>
        exact ⟨rfl, .inl rfl, .inr ⟨2, Nat.lt_succ_self 2, .delivering rfl rfl hends.tail hsize'⟩⟩

/-- Results that are handed to a script function let it go on. -/
private theorem proceeds_of_results_at_script (code : Meaning κ τ ρ) {a : Activation κ}
    {await : Await κ} {results : List (Value κ)} (hc : m.control = .deliver (.ok results))
    (hf : m.frames = .script a await :: above ++ rest)
    (hends : EndsAt (.script a await :: above) rest)
    (hsize : above.length < size) (hfit : m.Fitting) :
    m.Proceeds (m.step code) rest size (Frame.script a await : Frame κ τ ρ).ahead := by
  have hstep : m.step code =
      deliverScript { m with frames := above ++ rest } a await (.ok results) := by
    simp only [step, hc, deliver, hf, List.cons_append]
  have hbody : Waits .body (above ++ rest) := hfit.waits_below hf
  rw [hstep]
  cases await with
  | ready =>
    -- a script function at work waits for no outcome
    obtain ⟨w, hfor, hw⟩ := hfit
    rw [hf] at hw
    rw [hc] at hfor
    cases w <;> simp_all [Waits, Frame.waitsFor, Control.isFor]
  | safepoint i =>
    -- the instruction that was let through is executed next
    have hends' : EndsAt (.script a .ready :: above) rest := hends.tail.cons rfl
    have hthrough : m.letThrough = some (.inl i) := by simp [letThrough, hc, hf]
    refine ⟨rfl, .inr (by rw [hthrough]; rfl), .inr ⟨2, Nat.lt_succ_self 2, .executing rfl (by rfl)
      hends' ?_⟩⟩
    simp only [List.length_cons]
    omega
  | call g =>
    exact proceeds_of_goes (n := { m with frames := above ++ rest })
      (((silent_mapStore _ _).trans (silent_mapStore _ _)).goes (goes_pushAndGo _ a _)) rfl rfl
      hends.tail hsize hbody (Nat.le_refl 2)
  | pcall g top =>
    have hgoes := (goes_afterPcall { m with frames := above ++ rest } a top (.ok results)).mapStore
      fun s => s.releaseValue g
    exact proceeds_of_goes hgoes rfl rfl hends.tail hsize hbody (Nat.le_refl 2)

/-- Each move of a machine with a script in the middle of what was let through brings it nearer to
its next safepoint, and begins nothing else. -/
theorem underway_step (code : Meaning κ τ ρ) (h : m.Underway rest size left) (hfit : m.Fitting)
    (hn : Nested m.interp.depth m.frames) : m.Proceeds (m.step code) rest size left := by
  -- the instruction, its call and its results are each let through once
  cases h with
  | executing hc hf hends hsize => exact proceeds_of_executing code hc hf hends hsize hfit
  | invoking hc hf hends hsize => exact proceeds_of_invoking code hc hf hends hsize
  | @delivering f above results hc hf hends hsize =>
    cases f with
    | call stage => exact proceeds_of_results_at_call code hc hf hends hsize hfit hn
    | script a await => exact proceeds_of_results_at_script code hc hf hends hsize hfit
    | _ => exact nomatch hends.1 _ (List.mem_cons_self ..)

end Machine

end Safepoint
