import Safepoint.Proofs.Memory.Store
import Safepoint.Proofs.Protection.Call
import Safepoint.Proofs.Protection.Uncaught
import Safepoint.Proofs.Safety

/-!
# Protected calls of scripts

A protected call of a script takes a value and some arguments off the stack, calls the value, and
puts two results in their place: true and the first result of the call, or false and a string that
tells of its error. An error of which the status is a configuration error is not caught; it leaves
one frame of a script after the other, up to the next protected call of host code. Of its own, a
protected call fails only if there is no memory for the string or no room for two results.

## Key results

- `Machine.step_of_pcall`: what a protected call begins with
- `Life.protected_call_law`: the whole of a protected call, and the way of an error that it lets
  through
-/

namespace Safepoint

variable {κ τ ρ : Type}

namespace Machine

variable {m : Machine κ τ ρ}

/-- A protected call takes its function and its arguments off the stack, and calls the function. -/
theorem step_of_pcall (code : Meaning κ τ ρ) (hm : m.Steady) {argc : Nat}
    (hc : m.control = .execute (.pcall argc))
    (howned : m.interp.floor + (argc + 1) ≤ m.interp.stack.size) :
    ∃ a rest f args, m.frames = .script a .ready :: rest ∧ args.length = argc ∧
      m.interp.stack.toList = (m.interp.pop (argc + 1)).stack.toList ++ f :: args ∧
      (m.step code).control = .invoke f args ∧ (m.step code).interp = m.interp.pop (argc + 1) ∧
      (m.step code).frames =
        .script a (.pcall f (m.interp.pop (argc + 1)).stack.size) :: rest := by
  obtain ⟨f, args, htop, hlength, hsplit⟩ := Interpreter.exists_topCall howned
  obtain ⟨a, rest, hf, -⟩ := hm.executing hc
  simp only [step, hc, hf, execute, htop]
  exact ⟨a, rest, f, args, rfl, hlength, hsplit, rfl, rfl, rfl⟩

end Machine

/-- The octets that a script is told of an error: its own message, or else its text. -/
theorem Interpreter.errorBytes_eq (i : Interpreter κ) (e : Error) :
    (∀ message, e = .runtime message ∨ e = .cancelled message → i.errorBytes e = message.bytes) ∧
      ((∀ message, e ≠ .runtime message ∧ e ≠ .cancelled message) →
        i.errorBytes e = i.encoding.encode e.text) := by
  constructor
  · rintro message (rfl | rfl) <;> rfl
  · intro hother
    cases e with
    | runtime message => exact absurd rfl (hother message).1
    | cancelled message => exact absurd rfl (hother message).2
    | _ => rfl

namespace Life

variable {code : Meaning κ τ ρ} {l : Life code} {k : Nat} {e : Error} {below : List (Frame κ τ ρ)}

/-- At step `k` host code fails with an error: that of a native function on top of the frames
`below`, or that of an action in the pass of a safepoint above them. -/
def Raises (l : Life code) (k : Nat) (e : Error) (below : List (Frame κ τ ρ)) : Prop :=
  (∃ held, (l.state k).machine.control = .run held (.finish (.error e))) ∧
    ((l.state k).machine.frames = below ∨
      ∃ event ran, (l.state k).machine.frames = .pass (.mailbox event) ran :: .dispatch :: below)

/-- An error that host code raises above frames that let it through is on its way out. -/
private theorem Raises.escaping {above rest : List (Frame κ τ ρ)} (h : l.Raises k e (above ++ rest))
    (hthrough : ∀ f ∈ above, f.letsThrough = true) :
    ∃ left, left ≤ above.length + 11 ∧ (l.state k).machine.Escaping e rest left := by
  obtain ⟨⟨held, hc⟩, hf | ⟨event, ran, hf⟩⟩ := h
  · exact ⟨above.length + 1, by omega, .raising hc hf hthrough⟩
  · exact ⟨above.length + 11, Nat.le_refl _, .acting hc hf hthrough⟩

/-- The law of a protected call in a script. It calls the value below its arguments; and when it is
handed the outcome of the call, on a stack without either, it puts true and the first result in
their place, or false and a new string for an error of which the status is not a configuration
error; any other error leaves the function as it is. The string is the message of a runtime error or
a cancellation, octet by octet, and otherwise the text of the error in the encoding of the
interpreter. Of its own the call fails only if there is no memory for the string, or no room for
both results.

So an error with the status of a configuration error, which a native function or an action raises
above any frames of scripts, comes unchanged to the protected call of host code below them, within
one move for each frame and a few for the pass of the action; and no script executes an instruction
meanwhile. -/
theorem protected_call_law (l : Life code) :
    (∀ {k argc : Nat}, l.event k = .advance →
      (l.state k).machine.control = .execute (.pcall argc) →
      (l.state k).machine.interp.floor + (argc + 1) ≤ (l.state k).machine.interp.stack.size →
      ∃ a rest below f args,
        (l.state k).machine.frames = .script a .ready :: rest ∧ args.length = argc ∧
        (l.state k).machine.interp.stack.toList = below.toList ++ f :: args ∧
        (l.state (k + 1)).machine.control = .invoke f args ∧
        ∀ {d : Nat} {outcome : Outcome κ}, l.Handed k d outcome →
          let m := (l.state d).machine
          let m' := (l.state (d + 1)).machine
          m.interp = { (l.state k).machine.interp with
            stack := below
            globals := m.interp.globals
            encoding := m.interp.encoding
            instructions := m.interp.instructions } ∧
          (∀ vs, outcome = .ok vs → m'.Pushed m.interp a rest (.bool true) (vs.headD .nil)) ∧
          (∀ e, outcome = .error e → e.status ≠ .configurationError → ∃ bytes,
            (∀ message, e = .runtime message ∨ e = .cancelled message → bytes = message.bytes) ∧
            ((∀ message, e ≠ .runtime message ∧ e ≠ .cancelled message) →
              bytes = m.interp.encoding.encode e.text) ∧
            ((∃ s, (m.ground.store.newString m.interp.heap bytes).2 = some s ∧ s.bytes = bytes ∧
                m.ground.store.holders s = 0 ∧ m'.Pushed m.interp a rest (.bool false) (.str s)) ∨
              (m.ground.store.newString m.interp.heap bytes).2 = none ∧ m'.LeftBy .memory rest)) ∧
          ∀ e, outcome = .error e → e.status = .configurationError → m'.LeftBy e rest) ∧
    ∀ {k n : Nat} {e : Error} {above : List (Frame κ τ ρ)} {top depth : Nat} {held : Held}
      {next : Reply κ → Program κ τ ρ} {fs : List (Frame κ τ ρ)},
      e.status = .configurationError → (∀ f ∈ above, f.isScript = true) →
      l.Raises k e (above ++ .boundary top depth :: .host held next :: fs) → k ≤ n →
        (∃ d, k < d ∧ d ≤ n ∧ (l.state d).machine.control = .run held (next (.failed e)) ∧
          (l.state d).machine.frames = fs ∧ l.Quiet k d) ∨
        l.moves n ≤ l.moves k + (above.length + 12) ∧ l.Quiet k n := by
  constructor
  · intro k argc hadvance hc howned
    obtain ⟨a, rest, f, args, hf, hlength, hsplit, hcall, hinterp, hwaits⟩ :=
      Machine.step_of_pcall code (l.steady k).machine hc howned
    rw [← l.machine_succ hadvance] at hcall hinterp hwaits
    refine ⟨a, rest, _, f, args, hf, hlength, hsplit, hcall, fun {d outcome} hhanded => ?_⟩
    -- when the outcome is handed over, the interpreter is as the call has found it
    have hfound := hhanded.found hcall (by rw [hwaits]; exact List.cons_ne_nil _ _)
    have hframes := hhanded.frames.trans hwaits
    have hcontrol := hhanded.control
    have hsame := Interpreter.eq_of_lasting hfound
    rw [hinterp] at hsame
    have hstack : ((l.state k).machine.interp.pop (argc + 1)).stack.size =
        (l.state d).machine.interp.stack.size := by rw [hsame]
    dsimp only
    rw [l.machine_succ hhanded.hands]
    refine ⟨hsame, ?_, ?_, ?_⟩
    · rintro vs rfl
      -- the results are pushed behind a true
      exact Machine.step_of_results code hcontrol hframes
    · rintro e rfl hstatus
      -- an error that may be caught becomes a message behind a false
      obtain ⟨hmessage, htext⟩ := (l.state d).machine.interp.errorBytes_eq e
      refine ⟨_, hmessage, htext, ?_⟩
      have hcatch : e.isCatchable = true := bne_iff_ne.mpr hstatus
      rcases Machine.step_of_caught code hcatch hcontrol hframes hstack with
        ⟨s, made, hpushes⟩ | hrefused
      · exact .inl ⟨s, made, Store.bytes_of_newString made, Store.holders_of_newString made,
          hpushes⟩
      · exact .inr hrefused
    · rintro e rfl hstatus
      -- any other goes on as it is
      obtain ⟨hcontrol', hframes', -⟩ := Machine.step_of_uncaught code (l.steady d).machine
        (Error.isCatchable_eq_false_iff.mpr hstatus) hcontrol hframes rfl
      exact ⟨hcontrol', hframes'⟩
  · intro k n e above top depth held next fs hstatus hscripts hraises hkn
    -- the protected call of the host code is the last frame that the error has to leave
    have hframes : above ++ .boundary top depth :: .host held next :: fs =
        (above ++ [.boundary top depth]) ++ .host held next :: fs := by simp
    rw [hframes] at hraises
    obtain ⟨left, hleft, hway⟩ := hraises.escaping fun f hf => by
      rcases List.mem_append.mp hf with hf | hf
      · exact Frame.letsThrough_of_isScript (hscripts f hf)
      · rw [List.mem_singleton.mp hf]
        rfl
    rw [List.length_append, List.length_singleton] at hleft
    rcases l.escapes (Error.isCatchable_eq_false_iff.mpr hstatus) hway hkn with h | ⟨hmoves, hquiet⟩
    · exact .inl h
    · exact .inr ⟨by omega, hquiet⟩

/-! ## An error that is caught, and one that is not -/

/-- Native functions that fail with the error they are. -/
private def fails : Meaning Error Unit Unit := fun e _ => .finish (.error e)

/-- A script function that makes a protected call of its argument and returns what it is told. -/
private def tries : Prototype :=
  .ofCode "tries" 1 #[.getLocal 0, .pcall 0, .ret 1] rfl

/-- The embedder calls the function twice, behind protected calls of its own: with a native function
that raises a runtime error, and with one that raises a configuration error. -/
private def trying : Life fails :=
  .ofEvents fails
    [.ground ⟨(Store.empty.addHeap MemorySource.system.heap).1, #[], 0⟩,
      .start (.ask (.pcall (.fn (.script 0 tries))
        [.fn (.native 1 "fail" (.ofText "plain"))]) fun _ =>
        .ask (.pcall (.fn (.script 0 tries))
          [.fn (.native 2 "misuse" (.configuration "misuse"))]) fun _ => .finish (.ok [])) []]

/-- The error that is handed over next. -/
private def handedError? : Control κ τ ρ → Option Error
  | .deliver (.error e) => some e
  | _ => none

/-- The error that host code raises next. -/
private def raisedError? : Control κ τ ρ → Option Error
  | .run _ (.finish (.error e)) => some e
  | _ => none

/-- The control from which an error is read off hands it over. -/
private theorem control_of_handedError? {c : Control κ τ ρ} {e : Error}
    (h : handedError? c = some e) : c = .deliver (.error e) := by
  unfold handedError? at h
  split at h
  · rw [Option.some.inj h]
  · exact nomatch h

/-- The control from which a raised error is read off is host code that ends with it. -/
private theorem control_of_raisedError? {c : Control κ τ ρ} {e : Error}
    (h : raisedError? c = some e) : ∃ held, c = .run held (.finish (.error e)) := by
  unfold raisedError? at h
  split at h
  · rw [Option.some.inj h]
    exact ⟨_, rfl⟩
  · exact nomatch h

/-- Whether some frames are three of a script on a protected call of host code. -/
private def threeGuarded : List (Frame κ τ ρ) → Bool
  | [f, g, h, .boundary .., .host ..] => f.isScript && g.isScript && h.isScript
  | _ => false

/-- Frames that are told to be three of a script on a protected call are just those. -/
private theorem frames_of_threeGuarded {frames : List (Frame κ τ ρ)}
    (h : threeGuarded frames = true) :
    ∃ above top depth held next, frames = above ++ [.boundary top depth, .host held next] ∧
      above.length = 3 ∧ ∀ f ∈ above, f.isScript = true := by
  unfold threeGuarded at h
  split at h
  next f g h' top depth held next =>
    exact ⟨[f, g, h'], top, depth, held, next, rfl, rfl, by simpa [and_assoc] using h⟩
  next => exact nomatch h

/-- The script is told of the first error by a string, and the embedder of the second. -/
theorem plain_error_caught :
    ∃ l : Life fails,
      ((l.state 13).machine.control = .execute (.pcall 0) ∧
        l.Handed 13 19 (.error (.ofText "plain")) ∧
        ∃ s : Str, s.bytes = Utf8.encode "plain".toList ∧
          (l.state 20).machine.interp.stack =
            ((l.state 19).machine.interp.stack.push (.bool false)).push (.str s)) ∧
      ∃ (d : Nat) (held held' : Held) (next : Reply Error → Program Error Unit Unit), 44 < d ∧
        (l.state 44).machine.control = .run held (.finish (.error (.configuration "misuse"))) ∧
        (l.state d).machine.control = .run held' (next (.failed (.configuration "misuse"))) ∧
        (l.state d).machine.interp.instructions = (l.state 44).machine.interp.instructions := by
  obtain ⟨hlaw, hescape⟩ := protected_call_law trying
  have hexecute := control_of_executed? (c := (trying.state 13).machine.control) (i := .pcall 0)
    (by decide +kernel)
  have hspans : trying.Spans (13 + 1) 19 :=
    .of_length rfl (by decide +kernel) (by decide) (by decide +kernel) (by decide +kernel)
  have hhanded : trying.Handed 13 19 (.error (.ofText "plain")) :=
    .of_spans hspans rfl (control_of_handedError? (by decide +kernel))
  have hgoes : handedError? (trying.state 20).machine.control = none := by decide +kernel
  obtain ⟨a, rest, below, f, args, -, -, -, -, hends⟩ := hlaw rfl hexecute (by decide +kernel)
  obtain ⟨-, -, hcaught, -⟩ := hends hhanded
  obtain ⟨bytes, hmessage, -, hpushes⟩ := hcaught _ rfl (by decide)
  obtain rfl : bytes = Utf8.encode "plain".toList := hmessage _ (.inl rfl)
  obtain ⟨held, hraises⟩ := control_of_raisedError? (c := (trying.state 44).machine.control)
    (e := .configuration "misuse") (by decide +kernel)
  have hguarded : threeGuarded (trying.state 44).machine.frames = true := by decide +kernel
  obtain ⟨above, top, depth, held', next, hframes, hthree, hscripts⟩ :=
    frames_of_threeGuarded hguarded
  refine ⟨trying, ⟨hexecute, hhanded, ?_⟩, ?_⟩
  · rcases hpushes with ⟨s, -, hbytes, -, ⟨-, -, -, hinterp⟩ | ⟨-, hleft⟩⟩ | ⟨-, hleft⟩
    · exact ⟨s, hbytes, by rw [hinterp]⟩
    -- the script goes on, so no error has left it
    · exact absurd hgoes (by rw [hleft.1]; exact nofun)
    · exact absurd hgoes (by rw [hleft.1]; exact nofun)
  · have hmoves : trying.moves 44 + 15 < trying.moves 60 := by decide +kernel
    rcases hescape (n := 60) rfl hscripts ⟨⟨held, hraises⟩, .inl hframes⟩ (by decide) with
      ⟨d, hlater, -, hfailed, -, hquiet⟩ | ⟨hfew, -⟩
    · exact ⟨d, held, held', next, hlater, hraises, hfailed,
        (hquiet d (Nat.le_of_lt hlater) (Nat.le_refl d)).2⟩
    · rw [hthree] at hfew
      omega

end Life

end Safepoint
