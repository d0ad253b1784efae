import Safepoint.Proofs.Cancellation.Delivery
import Safepoint.Proofs.Cancellation.LetThrough

/-!
# A pending cancellation stops every script

Where a cancellation is pending, the hook is armed for it and not suppressed, and nobody withdraws
it or asks for another, scripts come to their end whatever they are in the middle of: no instruction
is begun, no function is entered, no global is set, and one frame after the other is left until only
those below the scripts remain. It takes no more moves than the frames allow, however long the
scripts would have run.

## Key results

- `Run.Unwinds.step`: nothing that happens puts the end off
- `Run.Continues.step`: what a safepoint has let through comes to its end, and nothing else begins
- `Run.pending_cancellation_stops_scripts`: scripts end, and how
-/

namespace Safepoint

variable {κ τ ρ : Type}

/-- Whether a script is in the middle of what a safepoint has let through. -/
def Control.isUnderway : Control κ τ ρ → Bool
  | .execute _ | .invoke .. | .deliver (.ok _) => true
  | _ => false

/-- Whether host code of the interpreter's own thread runs: that of a native function, where the
frames on top are those of a call. -/
def Control.isNative : Control κ τ ρ → Bool
  | .run .. | .waiting .. => true
  | _ => false

/-- Frames of scripts wait neither for the handler nor for a reply. -/
theorem Frame.meetsSyncpoints_of_isScript (f : Frame κ τ ρ) {w : Awaited}
    (hscript : f.isScript = true) (h : f.waitsFor w = true) : w.meetsSyncpoints = false := by
  cases f with
  | call stage => cases stage <;> cases w <;> simp_all [waitsFor, Awaited.meetsSyncpoints]
  | script a await => cases await <;> cases w <;> simp_all [waitsFor, Awaited.meetsSyncpoints]
  | _ => simp [isScript] at hscript

namespace Machine

variable {m m' : Machine κ τ ρ} {rest : List (Frame κ τ ρ)} {message : Message}
  {cause : Error → Prop} {left : Nat}

/-- The frames above `rest` are those of scripts, and there are some. -/
structure Scripts (m : Machine κ τ ρ) (above rest : List (Frame κ τ ρ)) : Prop where
  frames : m.frames = above ++ rest
  ends : EndsAt above rest
  active : above ≠ []

/-- Scripts on top are between two pieces of work, or in the middle of one, unless a native function
runs. -/
theorem Scripts.between_or_underway {above : List (Frame κ τ ρ)} (h : m.Scripts above rest)
    (hfit : m.Fitting) (hidle : m.control.isFinished = true → m.frames = []) :
    m.control.isBetween = true ∨ m.control.isUnderway = true ∨ m.control.isNative = true ∨
      ∃ f, m.control = .fault f := by
  obtain ⟨hf, hends, hactive⟩ := h
  obtain ⟨f, fs, rfl⟩ := List.exists_cons_of_ne_nil hactive
  obtain ⟨w, hfor, hw⟩ := hfit
  rw [hf] at hw
  have hmeets : w.meetsSyncpoints = false :=
    f.meetsSyncpoints_of_isScript (hends.1 f (by simp)) hw.1
  -- what the frame on top waits for tells what the machine can be about to do
  cases hc : m.control with
  | fetch | poll => exact .inl rfl
  | execute | invoke => exact .inr (.inl rfl)
  | run | waiting => exact .inr (.inr (.inl rfl))
  | fault g => exact .inr (.inr (.inr ⟨g, rfl⟩))
  | deliver outcome =>
    cases outcome with
    | ok results => exact .inr (.inl rfl)
    | error err => exact .inl rfl
  | finished outcome =>
    rw [hidle (by rw [hc]; rfl)] at hf
    exact nomatch hf
  | drain source | settle source =>
    rw [hc] at hfor
    cases source <;> simp_all [Control.isFor, Awaited.meetsSyncpoints]
  | _ =>
    rw [hc] at hfor
    simp_all [Control.isFor, Awaited.meetsSyncpoints]

/-- No instruction is about to begin, no function is about to be entered, and no host code runs. -/
structure BeginsNothing (m : Machine κ τ ρ) : Prop where
  letThrough : m.letThrough = none
  runs : ∀ held p, m.control ≠ .run held p

/-- An error on its way begins nothing. -/
theorem beginsNothing_of_error {err : Error} (hc : m.control = .deliver (.error err)) :
    m.BeginsNothing := by
  refine ⟨letThrough_of_isBetween ?_, ?_⟩ <;> rw [hc]
  · rfl
  · simp

/-- Scripts that unwind are between two pieces of work, or in the handler of a safepoint. -/
theorem Unwinding.beginsNothing (h : m.Unwinding rest message cause left) : m.BeginsNothing := by
  -- a function is left on its way to a safepoint, in its handler, or with an error
  cases h with
  | fetching hc | polling hc =>
    refine ⟨letThrough_of_isBetween ?_, ?_⟩ <;> rw [hc]
    · rfl
    · simp
  | raising h =>
    cases h with
    | entering hc | checking hc | arriving hc | held hc | looking hc | reading hc =>
      exact ⟨by simp [letThrough, hc], by simp [hc]⟩
  | raised h => exact beginsNothing_of_error h.control
  | failing hc => exact beginsNothing_of_error hc
  | ending hc hf => exact ⟨by simp [letThrough, hc, hf], by simp [hc]⟩

/-- Scripts that unwind are at work, wait for nobody outside, and do not disarm the hook. -/
theorem Unwinding.at_work (h : m.Unwinding rest message cause left) :
    m.control.isFinished = false ∧ (∀ x given held next, m.control ≠ .waiting x given held next) ∧
      ∀ info, m.control ≠ .handle .disarm info := by
  cases h with
  | fetching hc | polling hc | failing hc | ending hc =>
    rw [hc]
    exact ⟨rfl, by simp, by simp⟩
  | raising h =>
    cases h with
    | entering hc | checking hc | arriving hc | held hc | looking hc | reading hc =>
      rw [hc]
      exact ⟨rfl, by simp, by simp⟩
  | raised h =>
    rw [h.control]
    exact ⟨rfl, by simp, by simp⟩

/-- How far the scripts are from being left is told by the control, the frames and the
interpreter. -/
theorem Unwinding.congr (h : m.Unwinding rest message cause left)
    (hcontrol : m'.control = m.control) (hframes : m'.frames = m.frames)
    (hinterp : m'.interp = m.interp) : m'.Unwinding rest message cause left := by
  have hhook' := congrArg Interpreter.hook hinterp
  cases h with
  | fetching hc hf he hh =>
    exact .fetching (hcontrol.trans hc) (hframes.trans hf) he (hhook'.trans hh)
  | polling hc hf he hh =>
    exact .polling (hcontrol.trans hc) (hframes.trans hf) he (hhook'.trans hh)
  | raising h he hh => exact .raising (h.congr hcontrol hframes) he (hhook'.trans hh)
  | raised h he hh =>
    exact .raised ⟨hcontrol.trans h.control, hframes.trans h.frames⟩ he (hhook'.trans hh)
  | failing hc hf hcaused he hh =>
    exact .failing (hcontrol.trans hc) (hframes.trans hf) hcaused he (hhook'.trans hh)
  | ending hc hf he hh =>
    exact .ending (hcontrol.trans hc) (hframes.trans hf) he (hhook'.trans hh)

/-- Scripts between two pieces of work are on their way to the end. -/
theorem unwinding_of_isBetween {above : List (Frame κ τ ρ)} (hbetween : m.control.isBetween = true)
    (hframes : m.frames = above ++ rest) (hends : EndsAt above rest)
    (hhook : m.interp.hook = (true, true, 1))
    (hcause : ∀ err, m.control = .deliver (.error err) → cause err) :
    ∃ left, m.Unwinding rest message cause left ∧ left ≤ 8 + 11 * above.length := by
  have hload := load_le above
  -- the moves that are left go by the frames, and a poll has eight of its own
  cases hc : m.control with
  | fetch => exact ⟨_, .fetching hc hframes hends hhook, by omega⟩
  | poll event => exact ⟨_, .polling hc hframes hends hhook, by omega⟩
  | deliver outcome =>
    cases outcome with
    | ok results => simp [hc, Control.isBetween] at hbetween
    | error err => exact ⟨_, .failing hc hframes (hcause err hc) hends hhook, by omega⟩
  | _ => simp [hc, Control.isBetween] at hbetween

/-- When the frames of the scripts are all left, they have been left by an error. -/
theorem Unwinding.failed (h : m.Unwinding rest message cause left) (hfit : m.Fitting)
    (hframes : m.frames = rest) : ∃ err, m.control = .deliver (.error err) ∧ cause err := by
  have nil_of_append {above : List (Frame κ τ ρ)} (hf : m.frames = above ++ rest) : above = [] := by
    rw [hframes] at hf
    simpa using hf.symm
  cases h with
  | fetching hc hf hends =>
    -- a script function at work would be on top
    obtain rfl := nil_of_append hf
    obtain ⟨a, fs, hnil, -⟩ := hends.script_on_top (hf ▸ hfit.waits hc (by simp [Control.isFor]))
    exact absurd hnil.symm (List.cons_ne_nil _ _)
  | polling hc hf hends =>
    -- what waits for a safepoint would be on top
    obtain rfl := nil_of_append hf
    obtain ⟨f, fs, hnil, -⟩ := hends.safepoint_on_top (hf ▸ hfit.waits_safepoint hc)
    exact absurd hnil.symm (List.cons_ne_nil _ _)
  | @raising above _ h =>
    have hf : m.frames = (.dispatch :: above) ++ rest := h.frames
    exact absurd (nil_of_append hf) (List.cons_ne_nil _ _)
  | @raised above h =>
    have hf : m.frames = (.dispatch :: above) ++ rest := h.frames
    exact absurd (nil_of_append hf) (List.cons_ne_nil _ _)
  | failing hc _ hcaused => exact ⟨_, hc, hcaused⟩
  | ending _ hf => exact absurd (nil_of_append hf) (List.cons_ne_nil _ _)

/-! ## Scripts in the middle of something -/

/-- What is let through is told by the control and the frames. -/
theorem letThrough_congr (hcontrol : m'.control = m.control) (hframes : m'.frames = m.frames) :
    m'.letThrough = m.letThrough := by
  unfold letThrough
  rw [hcontrol, hframes]

/-- A machine in the middle of what was let through is neither idle nor waiting, and runs no host
code. -/
theorem Underway.at_work {size : Nat} (h : m.Underway rest size left) :
    m.control.isFinished = false ∧ (∀ x given held next, m.control ≠ .waiting x given held next) ∧
      (∀ info, m.control ≠ .handle .disarm info) ∧ ∀ held p, m.control ≠ .run held p := by
  cases h with
  | executing hc | invoking hc | delivering hc =>
    rw [hc]
    exact ⟨rfl, by simp, by simp, by simp⟩

/-- How far the machine is in what was let through is told by the control and the frames. -/
theorem Underway.congr {size : Nat} (h : m.Underway rest size left)
    (hcontrol : m'.control = m.control) (hframes : m'.frames = m.frames) :
    m'.Underway rest size left := by
  cases h with
  | executing hc hf he hs => exact .executing (hcontrol.trans hc) (hframes.trans hf) he hs
  | invoking hc hf he hs => exact .invoking (hcontrol.trans hc) (hframes.trans hf) he hs
  | delivering hc hf he hs => exact .delivering (hcontrol.trans hc) (hframes.trans hf) he hs

/-- A machine in the middle of a piece of work has three more to be let through at most. -/
theorem underway_of_isUnderway {above : List (Frame κ τ ρ)}
    (hunderway : m.control.isUnderway = true) (h : m.Scripts above rest) :
    ∃ left ≤ 3, m.Underway rest above.length left := by
  obtain ⟨hf, hends, hactive⟩ := h
  -- how many moves are left is read off the control and the frame on top
  cases hc : m.control with
  | execute i => exact ⟨2, by decide, .executing hc hf hends (Nat.le_refl _)⟩
  | invoke f args => exact ⟨1, by decide, .invoking hc hf hends (Nat.le_refl _)⟩
  | deliver outcome =>
    cases outcome with
    | error err => simp [hc, Control.isUnderway] at hunderway
    | ok results =>
      cases above with
      | nil => exact absurd rfl hactive
      | cons f above =>
        refine ⟨f.ahead, ?_, .delivering hc hf hends (Nat.lt_succ_self _)⟩
        unfold Frame.ahead
        split <;> decide
  | _ => simp [hc, Control.isUnderway] at hunderway

/-! ## The embedding boundary -/

/-- An error is about to become the reply of a protected call at the embedding boundary. -/
inductive Replying (m : Machine κ τ ρ) (held : Held) (next : Reply κ → Program κ τ ρ)
    (below : List (Frame κ τ ρ)) (err : Error) : Nat → Prop where
  | boundary {top depth} (control : m.control = .deliver (.error err))
      (frames : m.frames = .boundary top depth :: .host held next :: below) :
      Replying m held next below err 2
  | host (control : m.control = .deliver (.error err))
      (frames : m.frames = .host held next :: below) :
      Replying m held next below err 1

variable {held : Held} {next : Reply κ → Program κ τ ρ} {below : List (Frame κ τ ρ)} {err : Error}

/-- While a protected call goes on to reply, the error is on its way. -/
theorem Replying.control (h : m.Replying held next below err left) :
    m.control = .deliver (.error err) := by
  cases h with
  | boundary hc | host hc => exact hc

/-- How far a protected call is from its reply is told by the control and the frames. -/
theorem Replying.congr (h : m.Replying held next below err left) (hcontrol : m'.control = m.control)
    (hframes : m'.frames = m.frames) : m'.Replying held next below err left := by
  cases h with
  | boundary hc hf => exact .boundary (hcontrol.trans hc) (hframes.trans hf)
  | host hc hf => exact .host (hcontrol.trans hc) (hframes.trans hf)

/-- A protected call is one move nearer to its reply with each move, and changes no global on the
way. -/
theorem replying_step (code : Meaning κ τ ρ) (h : m.Replying held next below err left)
    (hn : Nested m.interp.depth m.frames) :
    (m.step code).interp.globals = m.interp.globals ∧
      ((m.step code).control = .run held (next (.failed err)) ∧ (m.step code).frames = below ∨
        ∃ left' < left, (m.step code).Replying held next below err left') := by
  -- the boundary cuts the stack off and raises the error again, and the host code gets it
  cases h with
  | @boundary top depth hc hf =>
    rw [hf] at hn
    obtain ⟨rfl, -⟩ := hn
    have hstep : m.step code =
        raise (note (truncate { m with frames := .host held next :: below } top)
          (.protectedCallFailed err)) err := by
      simp [step, hc, deliver, hf]
    rw [hstep]
    exact ⟨rfl, .inr ⟨1, Nat.lt_succ_self 1, .host rfl rfl⟩⟩
  | host hc hf =>
    have hstep : m.step code =
        { m with frames := below, control := .run held (next (.failed err)) } := by
      simp only [step, hc, deliver, hf]
      rfl
    rw [hstep]
    exact ⟨rfl, .inl ⟨rfl, rfl⟩⟩

end Machine

namespace System

variable {s : System κ τ ρ} {e : Event κ τ ρ}

/-- A cancellation stays pending unless it is withdrawn or another takes its place. -/
theorem pending_step (code : Meaning κ τ ρ) (h : s.Sound) {message : Message}
    (hpending : s.machine.mailbox.Pending message) (hkept : s.reverting e = false)
    (halone : ∀ c text encoding, s.access? e ≠ some (c, .storeMessage text encoding)) :
    (s.step code e).machine.mailbox.Pending message := by
  obtain ⟨hflag, hmessage⟩ := hpending
  have no_reverts {c : Caller} {p : HostPhase κ} (hacc : s.access? e = some (c, p))
      (hp : p.reverts = true) : False := by
    rw [reverting_of_access hacc hp] at hkept
    exact nomatch hkept
  constructor
  · -- what raises the flag once more does no harm
    rw [cancelFlag_step code h (by simp [hmessage])]
    split
    next => rfl
    next c hacc => exact (no_reverts hacc rfl).elim
    next => exact hflag
  · rw [cancelMessage_step code h]
    split
    next c text encoding hacc => exact absurd hacc (halone c text encoding)
    next c hacc => exact (no_reverts hacc rfl).elim
    next => exact hmessage

/-- An armed hook stays armed unless a handler disarms it. -/
theorem armed_step (code : Meaning κ τ ρ) (h : s.Sound)
    (hmask : s.machine.mailbox.slot.mask = .armed)
    (hkept : ∀ info, s.machine.control ≠ .handle .disarm info) :
    (s.step code e).machine.mailbox.slot.mask = .armed := by
  rw [mask_step code h]
  -- only the handler's disarm would take the mask away
  split
  · rfl
  · split
    next hdisarms =>
      obtain ⟨-, info, hc⟩ := disarming_eq_true hdisarms
      exact absurd hc (hkept info)
    next => exact hmask

end System

namespace Run

variable {code : Meaning κ τ ρ} {r : Run code} {k j n : Nat} {message : Message}
  {above rest : List (Frame κ τ ρ)} {size left : Nat}

/-- At step `n` a cancellation is pending, and the hook is armed for it. -/
structure Looms (r : Run code) (n : Nat) (message : Message) : Prop where
  pending : (r.state n).machine.mailbox.Pending message
  armed : (r.state n).machine.mailbox.slot.mask = .armed

/-- At step `k` a cancellation is pending, and the hook is armed for it and not suppressed. Up to
step `n` it is not withdrawn, and no other is asked for. -/
structure Cancelled (r : Run code) (k n : Nat) (message : Message) : Prop where
  looms : r.Looms k message
  allowed : (r.state k).machine.interp.hookAllowed = true
  kept : ∀ t, k ≤ t → t < n → ¬ r.Reverts t
  alone : ∀ t, k ≤ t → t < n → ∀ message', ¬ r.Stores t message'

/-- A cancellation that looms goes on to loom until it is withdrawn, replaced or disarmed. -/
theorem Looms.step (h : r.Looms j message) (hkept : ¬ r.Reverts j)
    (halone : ∀ message', ¬ r.Stores j message')
    (hdisarm : ∀ info, (r.state j).machine.control ≠ .handle .disarm info) :
    r.Looms (j + 1) message := by
  have hsound := r.sound j
  constructor
  · rw [r.next]
    apply System.pending_step code hsound h.pending (by simpa [Reverts] using hkept)
    intro c text encoding hacc
    exact halone _ ⟨c, text, encoding, hacc, rfl⟩
  · rw [r.next]
    exact System.armed_step code hsound h.armed hdisarm

/-! ## Scripts that unwind -/

/-- What an error that leaves scripts from step `k` on may be: the cancellation, or the error that
was on its way already, or what a protected call of theirs made of an error that it failed to
catch. -/
def Cause (r : Run code) (k j : Nat) (message : Message) (err : Error) : Prop :=
  err = .cancelled message ∨ (r.state k).machine.control = .deliver (.error err) ∨
    ∃ i, k ≤ i ∧ i < j ∧ (r.state i).machine.CatchFails err

/-- What causes an error may do so later, too. -/
theorem Cause.mono {i : Nat} {err : Error} (h : r.Cause k i message err) (hij : i ≤ j) :
    r.Cause k j message err := by
  rcases h with hcancelled | hbefore | ⟨t, hkt, hti, hfails⟩
  · exact .inl hcancelled
  · exact .inr (.inl hbefore)
  · exact .inr (.inr ⟨t, hkt, by omega, hfails⟩)

/-- From step `k` to step `j` the scripts above `rest` have come nearer to their end. -/
structure Unwinds (r : Run code) (k j : Nat) (rest : List (Frame κ τ ρ)) (message : Message)
    (left : Nat) : Prop where
  unwinding : (r.state j).machine.Unwinding rest message (r.Cause k j message) left
  looms : r.Looms j message
  globals : (r.state j).machine.interp.globals = (r.state k).machine.interp.globals

/-- As long as frames of scripts are left, each move of the interpreter's own thread brings their
end nearer, and nothing else puts it off. -/
theorem Unwinds.step (h : r.Unwinds k j rest message left) (hkj : k ≤ j)
    (hleft : (r.state j).machine.frames ≠ rest) (hkept : ¬ r.Reverts j)
    (halone : ∀ message', ¬ r.Stores j message') :
    ∃ left', r.Unwinds k (j + 1) rest message left' ∧ left' + (r.isMove j).toNat ≤ left := by
  obtain ⟨hfin, hwait, hdisarm⟩ := h.unwinding.at_work
  have hsound := r.sound j
  have hlooms := h.looms.step hkept halone hdisarm
  have hcauses (err : Error) (hcause : r.Cause k j message err) :
      r.Cause k (j + 1) message err :=
    hcause.mono (Nat.le_succ j)
  by_cases he : r.event j = .advance
  · obtain ⟨hglobals, left', hunwinding, hless⟩ :=
      Machine.unwinding_step code h.unwinding hleft hsound.fitting hsound.nested
        hsound.threshold h.looms.armed h.looms.pending (.inl rfl)
    rw [← r.step_of_advance he] at hglobals hunwinding
    -- an error that a protected call has made at this step is one of the causes from now on
    refine ⟨left', ⟨hunwinding.mono ?_, hlooms, hglobals.trans h.globals⟩, ?_⟩
    · rintro err (hcause | hfails)
      · exact hcauses err hcause
      · exact .inr (.inr ⟨j, hkj, by omega, hfails⟩)
    · simpa [isMove, he, Event.isAdvance] using hless
  · obtain ⟨hcontrol, hframes, hinterp⟩ := (System.aside_step code he).of_working hfin hwait
    rw [← r.next] at hcontrol hframes hinterp
    have hidle := r.isMove_of_aside he
    exact ⟨left, ⟨(h.unwinding.mono hcauses).congr hcontrol hframes hinterp, hlooms,
      by rw [hinterp, h.globals]⟩, by omega⟩

/-- Scripts between two pieces of work begin to unwind. -/
theorem Cancelled.unwinds (h : r.Cancelled k n message)
    (hscripts : (r.state k).machine.Scripts above rest)
    (hbetween : (r.state k).machine.control.isBetween = true) :
    ∃ left, r.Unwinds k k rest message left ∧ left ≤ 8 + 11 * above.length := by
  have hfin : (r.state k).machine.control.isFinished = false := by
    cases hc : (r.state k).machine.control <;>
      simp_all [Control.isBetween, Control.isFinished]
  have hhook := ((r.sound k).posture_of_allowed hfin h.allowed).outside.1
  have hcause (err : Error) (hc : (r.state k).machine.control = .deliver (.error err)) :
      r.Cause k k message err :=
    .inr (.inl hc)
  obtain ⟨left, hunwinding, hle⟩ := Machine.unwinding_of_isBetween hbetween hscripts.frames
    hscripts.ends hhook hcause
  exact ⟨left, ⟨hunwinding, h.looms, rfl⟩, hle⟩

/-- The frames above `rest` have been left by step `e`, and no earlier, with this error. -/
structure Unwound (r : Run code) (k e : Nat) (rest : List (Frame κ τ ρ)) (err : Error) : Prop where
  later : k < e
  control : (r.state e).machine.control = .deliver (.error err)
  frames : (r.state e).machine.frames = rest
  first : ∀ j, k ≤ j → j < e → (r.state j).machine.frames ≠ rest

/-- The scripts above `rest` unwind at step `j`, and some of their frames are left. -/
structure StillUnwinds (r : Run code) (k : Nat) (rest : List (Frame κ τ ρ)) (message : Message)
    (j left : Nat) : Prop where
  unwinds : r.Unwinds k j rest message left
  active : (r.state j).machine.frames ≠ rest

/-- The scripts above `rest` have unwound by step `j`, and none of their frames is left. -/
structure HasUnwound (r : Run code) (k : Nat) (rest : List (Frame κ τ ρ)) (message : Message)
    (j : Nat) : Prop where
  unwinds : ∃ left, r.Unwinds k j rest message left
  frames : (r.state j).machine.frames = rest

/-- Scripts between two pieces of work unwind, step by step, up to the step at which their frames
are all left. -/
private theorem Cancelled.unwinds_or_unwound (h : r.Cancelled k n message)
    (hscripts : (r.state k).machine.Scripts above rest)
    (hbetween : (r.state k).machine.control.isBetween = true) (hkj : k ≤ j) (hjn : j ≤ n) :
    (∃ e err, e ≤ j ∧ r.moves e ≤ r.moves k + (9 + 11 * above.length) ∧ r.Unwound k e rest err ∧
        r.Cause k e message err ∧ ∀ i, k ≤ i → i ≤ e → ∃ left, r.Unwinds k i rest message left) ∨
      r.moves j ≤ r.moves k + (8 + 11 * above.length) ∧
        ∀ i, k ≤ i → i ≤ j → ∃ left, r.StillUnwinds k rest message i left := by
  obtain ⟨bound, hfirst, hbound⟩ := h.unwinds hscripts hbetween
  have hactive : (r.state k).machine.frames ≠ rest := by
    rw [hscripts.frames]
    simpa using hscripts.active
  have hstep (i left : Nat) (hki : k ≤ i) (hin : i < n)
      (hi : r.StillUnwinds k rest message i left) :
      r.HasUnwound k rest message (i + 1) ∨
        ∃ left', r.StillUnwinds k rest message (i + 1) left' ∧
          left' + (r.isMove i).toNat ≤ left := by
    obtain ⟨left', hnext, hless⟩ :=
      hi.unwinds.step hki hi.active (h.kept i hki hin) (h.alone i hki hin)
    by_cases hframes : (r.state (i + 1)).machine.frames = rest
    · exact .inl ⟨⟨left', hnext⟩, hframes⟩
    · exact .inr ⟨left', ⟨hnext, hframes⟩, hless⟩
  rcases r.progress_of_measure hstep ⟨hfirst, hactive⟩ hkj hjn with
    ⟨e, hke, hej, ⟨⟨left, hlast⟩, hframes⟩, hmoves, hleft⟩ | ⟨⟨left, -, hle⟩, hleft⟩
  · -- none of the frames is left, so an error has left the outermost one
    obtain ⟨err, hc, hcause⟩ := hlast.unwinding.failed (r.sound e).fitting hframes
    have hfirst (i : Nat) (hki : k ≤ i) (hie : i < e) : (r.state i).machine.frames ≠ rest := by
      obtain ⟨left, hi⟩ := hleft i hki hie
      exact hi.active
    refine .inl ⟨e, err, hej, by omega, ⟨hke, hc, hframes, hfirst⟩, hcause, fun i hki hie => ?_⟩
    by_cases hi : i = e
    · subst hi
      exact ⟨left, hlast⟩
    · obtain ⟨left, hi⟩ := hleft i hki (by omega)
      exact ⟨left, hi.unwinds⟩
  · exact .inr ⟨by omega, hleft⟩

/-! ## Replies at the embedding boundary -/

/-- From step `e` to step `j` an error has come nearer to being a reply. -/
structure Replies (r : Run code) (e : Nat) (held : Held) (next : Reply κ → Program κ τ ρ)
    (below : List (Frame κ τ ρ)) (err : Error) (j left : Nat) : Prop where
  replying : (r.state j).machine.Replying held next below err left
  globals : (r.state j).machine.interp.globals = (r.state e).machine.interp.globals

/-- At step `d` host code goes on with an error that its protected call has returned. -/
structure HasReplied (r : Run code) (e : Nat) (held : Held) (next : Reply κ → Program κ τ ρ)
    (below : List (Frame κ τ ρ)) (err : Error) (d : Nat) : Prop where
  control : (r.state d).machine.control = .run held (next (.failed err))
  frames : (r.state d).machine.frames = below
  globals : (r.state d).machine.interp.globals = (r.state e).machine.interp.globals

/-- An error that reaches a protected call at the embedding boundary becomes its reply. -/
private theorem hasReplied {held : Held} {next : Reply κ → Program κ τ ρ} {top depth e : Nat}
    {below : List (Frame κ τ ρ)} {err : Error}
    (hc : (r.state e).machine.control = .deliver (.error err))
    (hf : (r.state e).machine.frames = .boundary top depth :: .host held next :: below)
    (hen : e ≤ n) (hmoves : r.moves e + 2 < r.moves n) :
    ∃ d, e < d ∧ d ≤ n ∧ r.HasReplied e held next below err d ∧
      ∀ j, e ≤ j → j < d → (r.state j).machine.control = .deliver (.error err) := by
  have hstep (j left : Nat) (_ : e ≤ j) (_ : j < n) (h : r.Replies e held next below err j left) :
      r.HasReplied e held next below err (j + 1) ∨
        ∃ left', r.Replies e held next below err (j + 1) left' ∧
          left' + (r.isMove j).toNat ≤ left := by
    obtain ⟨hj, hglobals⟩ := h
    by_cases he : r.event j = .advance
    · have hmove := r.isMove_le_one j
      obtain ⟨hsame, ⟨hc', hf'⟩ | ⟨left', hlt, hj'⟩⟩ :=
        Machine.replying_step code hj (r.sound j).nested
      · rw [← r.step_of_advance he] at hsame hc' hf'
        exact .inl ⟨hc', hf', hsame.trans hglobals⟩
      · rw [← r.step_of_advance he] at hsame hj'
        exact .inr ⟨left', ⟨hj', hsame.trans hglobals⟩, by omega⟩
    · -- nobody else touches an error on its way
      have hidle := r.isMove_of_aside he
      have hcontrol := hj.control
      obtain ⟨hc', hf', hinterp⟩ := (System.aside_step code he).of_working
        (by rw [hcontrol]; rfl) (by simp [hcontrol])
      rw [← r.next] at hc' hf' hinterp
      exact .inr ⟨left, ⟨hj.congr hc' hf', by rw [hinterp, hglobals]⟩, by omega⟩
  obtain ⟨d, hed, hdn, hreplied, -, hleft⟩ :=
    r.reaches_of_measure hstep ⟨.boundary hc hf, rfl⟩ hen hmoves
  refine ⟨d, hed, hdn, hreplied, fun j hej hjd => ?_⟩
  obtain ⟨left, hj⟩ := hleft j hej hjd
  exact hj.replying.control

/-! ## Scripts in the middle of something -/

/-- From step `k` to step `j` what a safepoint has let through has come nearer to its end, and
nothing else has begun. -/
structure Continues (r : Run code) (k : Nat) (rest : List (Frame κ τ ρ)) (size : Nat)
    (message : Message) (j left : Nat) : Prop where
  underway : (r.state j).machine.Underway rest size left
  looms : r.Looms j message
  hook : (r.state j).machine.interp.hook = (true, true, 1)
  begun : (r.state j).machine.letThrough = none ∨
    (r.state j).machine.letThrough = (r.state k).machine.letThrough

/-- What a safepoint has let through is over at step `e`, and the cancellation still pending. -/
structure HasSettled (r : Run code) (rest : List (Frame κ τ ρ)) (size : Nat) (message : Message)
    (e : Nat) : Prop where
  settled : (r.state e).machine.Settled rest size
  looms : r.Looms e message
  hook : (r.state e).machine.interp.hook = (true, true, 1)

/-- What was let through goes on or is over, and the cancellation looms on. -/
theorem Continues.step (h : r.Continues k rest size message j left) (hkept : ¬ r.Reverts j)
    (halone : ∀ message', ¬ r.Stores j message') :
    r.HasSettled rest size message (j + 1) ∨
      ∃ left', r.Continues k rest size message (j + 1) left' ∧
        left' + (r.isMove j).toNat ≤ left := by
  obtain ⟨hfin, hwait, hdisarm, -⟩ := h.underway.at_work
  have hsound := r.sound j
  have hlooms := h.looms.step hkept halone hdisarm
  by_cases he : r.event j = .advance
  · have hmove := r.isMove_le_one j
    obtain ⟨hhook, hbegun, hcases⟩ :=
      Machine.underway_step code h.underway hsound.fitting hsound.nested
    rw [← r.step_of_advance he] at hhook hbegun hcases
    rcases hcases with hsettled | ⟨left', hlt, hunderway⟩
    · exact .inl ⟨hsettled, hlooms, hhook.trans h.hook⟩
    · refine .inr ⟨left', ⟨hunderway, hlooms, hhook.trans h.hook, ?_⟩, by omega⟩
      -- what is let through now was so before the step, and so at the beginning
      rcases hbegun with hnone | hsame
      · exact .inl hnone
      · rw [hsame]
        exact h.begun
  · obtain ⟨hcontrol, hframes, hinterp⟩ := (System.aside_step code he).of_working hfin hwait
    rw [← r.next] at hcontrol hframes hinterp
    have hidle := r.isMove_of_aside he
    refine .inr ⟨left, ⟨h.underway.congr hcontrol hframes, hlooms, by rw [hinterp, h.hook], ?_⟩,
      by omega⟩
    rw [Machine.letThrough_congr hcontrol hframes]
    exact h.begun

/-- Scripts in the middle of what a safepoint has let through are done with it soon, and begin
nothing else before. -/
private theorem Cancelled.settles (h : r.Cancelled k n message)
    (hscripts : (r.state k).machine.Scripts above rest)
    (hunderway : (r.state k).machine.control.isUnderway = true) (hkn : k ≤ n)
    (hmoves : r.moves k + 3 < r.moves n) :
    ∃ e, k < e ∧ e ≤ n ∧ r.moves e ≤ r.moves k + 4 ∧ r.Cancelled e n message ∧
      (r.state e).machine.Settled rest above.length ∧
      ∀ j, k < j → j < e → (∀ held p, (r.state j).machine.control ≠ .run held p) ∧
        ((r.state j).machine.letThrough = none ∨
          (r.state j).machine.letThrough = (r.state k).machine.letThrough) := by
  obtain ⟨bound, hbound, hfirst⟩ := Machine.underway_of_isUnderway hunderway hscripts
  obtain ⟨hfin, -⟩ := hfirst.at_work
  have hhook := ((r.sound k).posture_of_allowed hfin h.allowed).outside.1
  have hstep (j left : Nat) (hkj : k ≤ j) (hjn : j < n)
      (hj : r.Continues k rest above.length message j left) :=
    hj.step (h.kept j hkj hjn) (h.alone j hkj hjn)
  obtain ⟨e, hke, hen, ⟨hsettled, hlooms, hhook'⟩, hmoves', hleft⟩ :=
    r.reaches_of_measure hstep ⟨hfirst, h.looms, hhook, .inr rfl⟩ hkn (by omega)
  -- the hook is as it was, and the cancellation still pending
  have hallowed : (r.state e).machine.interp.hookAllowed = true :=
    congrArg (fun hook => hook.2.1) hhook'
  refine ⟨e, hke, hen, by omega, ⟨hlooms, hallowed, fun t het htn => h.kept t (by omega) htn,
    fun t het htn => h.alone t (by omega) htn⟩, hsettled, fun j hkj hje => ?_⟩
  obtain ⟨left, hj⟩ := hleft j (by omega) hje
  exact ⟨hj.underway.at_work.2.2.2, hj.begun⟩

/-! ## Pending cancellations -/

/-- Scripts that are between two pieces of work at step `k` are stopped by a cancellation. -/
structure Stops (r : Run code) (k n : Nat) (message : Message) (above rest : List (Frame κ τ ρ)) :
    Prop where
  /-- Until all their frames are left, no instruction is begun, no function is entered, and no
  global changes. -/
  begins_nothing : ∀ j, k ≤ j → j ≤ n →
    (∀ i, k ≤ i → i < j → (r.state i).machine.frames ≠ rest) →
    (r.state j).machine.BeginsNothing ∧
      (r.state j).machine.interp.globals = (r.state k).machine.interp.globals
  /-- The frames are all left after a number of moves that depends on how many they are. -/
  unwinds : r.moves k + (8 + 11 * above.length) < r.moves n →
    ∃ e err, e ≤ n ∧ r.Unwound k e rest err ∧ r.Cause k e message err
  /-- Where the embedder made a protected call for them, its reply is the error that left them. -/
  replies : ∀ top depth held next below, rest = .boundary top depth :: .host held next :: below →
    r.moves k + (11 + 11 * above.length) < r.moves n →
    ∃ e d err, e < d ∧ d ≤ n ∧ r.Unwound k e rest err ∧ r.Cause k e message err ∧
      r.HasReplied k held next below err d ∧
      ∀ j, k ≤ j → j < d → (r.state j).machine.BeginsNothing

/-- Until the frames of the scripts are left, nothing begins and no global is changed. -/
private theorem Cancelled.begins_nothing (h : r.Cancelled k n message)
    (hscripts : (r.state k).machine.Scripts above rest)
    (hbetween : (r.state k).machine.control.isBetween = true) (hkj : k ≤ j) (hjn : j ≤ n)
    (hnotyet : ∀ i, k ≤ i → i < j → (r.state i).machine.frames ≠ rest) :
    (r.state j).machine.BeginsNothing ∧
      (r.state j).machine.interp.globals = (r.state k).machine.interp.globals := by
  -- at each step before that the scripts are being unwound
  obtain ⟨left, hj⟩ : ∃ left, r.Unwinds k j rest message left := by
    rcases h.unwinds_or_unwound hscripts hbetween hkj hjn with
      ⟨e, err, hej, -, hunwound, -, hleft⟩ | ⟨-, hleft⟩
    · -- the frames are left at step `j` at the earliest
      have he : e = j := by
        by_contra hne
        have hke := hunwound.later
        exact hnotyet e (by omega) (by omega) hunwound.frames
      exact hleft j hkj (by omega)
    · obtain ⟨left, hj⟩ := hleft j hkj (Nat.le_refl j)
      exact ⟨left, hj.unwinds⟩
  exact ⟨hj.unwinding.beginsNothing, hj.globals⟩

/-- If the scripts were called behind a protected call, the error that left them becomes its
reply. -/
private theorem Cancelled.replies {top depth : Nat} {held : Held}
    {next : Reply κ → Program κ τ ρ} {below : List (Frame κ τ ρ)} (h : r.Cancelled k n message)
    (hkn : k ≤ n)
    (hscripts : (r.state k).machine.Scripts above (.boundary top depth :: .host held next :: below))
    (hbetween : (r.state k).machine.control.isBetween = true)
    (hmoves : r.moves k + (11 + 11 * above.length) < r.moves n) :
    ∃ e d err, e < d ∧ d ≤ n ∧ r.Unwound k e (.boundary top depth :: .host held next :: below) err ∧
      r.Cause k e message err ∧ r.HasReplied k held next below err d ∧
      ∀ j, k ≤ j → j < d → (r.state j).machine.BeginsNothing := by
  rcases h.unwinds_or_unwound hscripts hbetween hkn (Nat.le_refl n) with
    ⟨e, err, hen, hmoves', hunwound, hcause, hleft⟩ | ⟨hle, -⟩
  · -- the error that left the scripts goes on to the boundary and becomes the reply
    obtain ⟨d, hed, hdn, hreplied, herror⟩ :=
      r.hasReplied hunwound.control hunwound.frames hen (by omega)
    have hke := hunwound.later
    obtain ⟨left, he⟩ := hleft e (by omega) (Nat.le_refl e)
    refine ⟨e, d, err, hed, hdn, hunwound, hcause,
      ⟨hreplied.control, hreplied.frames, hreplied.globals.trans he.globals⟩,
      fun j hkj hjd => ?_⟩
    by_cases hje : j ≤ e
    · obtain ⟨left, hj⟩ := hleft j hkj hje
      exact hj.unwinding.beginsNothing
    · exact Machine.beginsNothing_of_error (herror j (by omega) hjd)
  · omega

/-- A cancellation that looms between two pieces of work stops the scripts. -/
theorem Cancelled.stops (h : r.Cancelled k n message) (hkn : k ≤ n)
    (hscripts : (r.state k).machine.Scripts above rest)
    (hbetween : (r.state k).machine.control.isBetween = true) : r.Stops k n message above rest where
  begins_nothing j hkj hjn hnotyet := h.begins_nothing hscripts hbetween hkj hjn hnotyet
  unwinds hmoves := by
    rcases h.unwinds_or_unwound hscripts hbetween hkn (Nat.le_refl n) with
      ⟨e, err, hen, -, hunwound, hcause, -⟩ | ⟨hle, -⟩
    · exact ⟨e, err, hen, hunwound, hcause⟩
    · omega
  replies top depth held next below hrest hmoves := by
    subst hrest
    exact h.replies hkn hscripts hbetween hmoves

/-- A cancellation that is pending, with the hook armed for it and not suppressed, stops the scripts
on top, as long as it is not withdrawn and no other takes its place.

Unless a native function runs, the scripts are between two pieces of work or in the middle of what a
safepoint has let through. Scripts between two pieces of work begin nothing and unwind. An error
leaves them: the cancellation, unless another was on its way already, or a protected call of theirs
fails to catch one.

Scripts in the middle of what a safepoint has let through are done with it after at most four moves,
and nothing else begins before. Then they are stopped from there, or their outermost call has
returned, or it was a native function that was let through. -/
theorem pending_cancellation_stops_scripts (r : Run code) {k n : Nat} {message : Message}
    {above rest : List (Frame κ τ ρ)} (h : r.Cancelled k n message) (hkn : k ≤ n)
    (hscripts : (r.state k).machine.Scripts above rest) :
    ((r.state k).machine.control.isBetween = true ∨ (r.state k).machine.control.isUnderway = true ∨
      (r.state k).machine.control.isNative = true ∨ ∃ f, (r.state k).machine.control = .fault f) ∧
    ((r.state k).machine.control.isBetween = true → r.Stops k n message above rest) ∧
    ((r.state k).machine.control.isUnderway = true → r.moves k + 3 < r.moves n →
      ∃ e, k < e ∧ e ≤ n ∧ r.moves e ≤ r.moves k + 4 ∧
        (r.state e).machine.Settled rest above.length ∧
        (∀ above', (r.state e).machine.Scripts above' rest →
          (r.state e).machine.control.isBetween = true → r.Stops e n message above' rest) ∧
        ∀ j, k < j → j < e → (∀ held p, (r.state j).machine.control ≠ .run held p) ∧
          ((r.state j).machine.letThrough = none ∨
            (r.state j).machine.letThrough = (r.state k).machine.letThrough)) := by
  refine ⟨hscripts.between_or_underway (r.sound k).fitting (r.sound k).idle,
    h.stops hkn hscripts, fun hunderway hmoves => ?_⟩
  obtain ⟨e, hke, hen, hmoves', he, hsettled, hbegun⟩ := h.settles hscripts hunderway hkn hmoves
  exact ⟨e, hke, hen, hmoves', hsettled, fun above' hscripts' => he.stops hen hscripts', hbegun⟩

/-! ## A script that catches what it can -/

/-- A script function that calls its argument over and over, with the argument itself as an
argument, and catches what it fails with. -/
private def guardedCalls : Prototype where
  name := "guarded"
  params := 1
  locals := 1
  code := #[.getLocal 0, .getLocal 0, .pcall 1, .jump 0]
  params_le := Nat.le_refl 1
  faultless := rfl

/-- The embedder calls it under protection with itself as its argument, and returns the error. -/
private def callGuarded : Program Unit Unit Unit :=
  .ask (.load guardedCalls) fun
    | .value f => .ask (.pcall f [f]) fun
      | .failed e => .finish (.error e)
      | _ => .finish (.ok [])
    | _ => .finish (.ok [])

/-- Once the function has called itself, a host cancels. -/
private def cancelledInside : Run (idleCode : Meaning Unit Unit Unit) :=
  .ofEvents idleCode
    ([.ground (Instruments.openWith (τ := Unit) (ρ := Unit) .empty .all .standard).1,
        .start callGuarded []] ++ List.replicate 23 .advance ++
      [.call 0 (.cancel "stop" .utf8), .host 0, .host 0, .host 0, .host 0, .host 0])

/-- The frames of a protected call at the embedding boundary. -/
private def isBoundary : List (Frame κ τ ρ) → Bool
  | .boundary .. :: .host .. :: _ => true
  | _ => false

/-- Frames that are told to be a boundary have one on top, and host code below it. -/
private theorem exists_boundary (fs : List (Frame κ τ ρ)) (h : isBoundary fs = true) :
    ∃ top depth held next below, fs = .boundary top depth :: .host held next :: below := by
  match fs, h with
  | .boundary top depth :: .host held next :: below, _ => exact ⟨top, depth, held, next, below, rfl⟩

/-- The function that was called and the one that called it are both left, though the latter catches
the cancellation at first, and the embedder gets an error. -/
theorem guarded_calls_stopped :
    ∃ (r : Run (idleCode : Meaning Unit Unit Unit)) (message : Message)
      (above rest : List (Frame Unit Unit Unit)), r.Cancelled 32 100 message ∧
      (r.state 32).machine.Scripts above rest ∧ above.length = 4 ∧
      ∃ e d err held next below, e < d ∧ d ≤ 100 ∧ r.Unwound 32 e rest err ∧
        r.Cause 32 e message err ∧ r.HasReplied 32 held next below err d := by
  -- no call through a handle is under way any more
  have hnone : ∀ t < 100, 32 ≤ t →
      ((cancelledInside.state t).access? (cancelledInside.event t)).isNone = true := by
    decide +kernel
  have hcancelled : cancelledInside.Cancelled 32 100 (.ofText "stop" .utf8) := by
    refine ⟨⟨by unfold Mailbox.Pending; decide +kernel, by decide +kernel⟩, by decide +kernel,
      fun t hkt htn hrev => ?_, fun t hkt htn message hstores => ?_⟩
    · obtain ⟨c, hacc | hacc⟩ := System.reverting_eq_true hrev
      · simpa [hacc] using hnone t htn hkt
      · simpa [hacc] using hnone t htn hkt
    · obtain ⟨c, text, encoding, hacc, -⟩ := hstores
      have hacc : (cancelledInside.state t).access? (cancelledInside.event t) = some _ := hacc
      simpa [hacc] using hnone t htn hkt
  obtain ⟨top, depth, held, next, below, hrest⟩ :=
    exists_boundary ((cancelledInside.state 32).machine.frames.drop 4) (by decide +kernel)
  have hlength : ((cancelledInside.state 32).machine.frames.take 4).length = 4 := by decide +kernel
  have hscripts : (cancelledInside.state 32).machine.Scripts
      ((cancelledInside.state 32).machine.frames.take 4)
      (.boundary top depth :: .host held next :: below) := by
    refine ⟨?_, ⟨?_, by simp [Frame.isScript]⟩, ?_⟩
    · rw [← hrest, List.take_append_drop]
    · decide +kernel
    · exact List.ne_nil_of_length_pos (by omega)
  obtain ⟨-, hstops, -⟩ :=
    pending_cancellation_stops_scripts cancelledInside hcancelled (by decide) hscripts
  obtain ⟨e, d, err, hed, hdn, hunwound, hcause, hreplied, -⟩ :=
    (hstops (by decide +kernel)).replies top depth held next below rfl
      (by rw [hlength]; decide +kernel)
  exact ⟨cancelledInside, _, _, _, hcancelled, hscripts, hlength, e, d, err, held, next, below, hed,
    hdn, hunwound, hcause, hreplied⟩

end Run

end Safepoint
