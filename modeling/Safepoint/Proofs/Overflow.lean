import Safepoint.Proofs.Protection

/-!
# What passes a limit

An interpreter has the limits it was opened with, which are valid ones, and whatever runs in it
stays within them: there are never more calls in progress, nor more values on the stack, and the
floor of the function that runs is on the stack. So something must be refused at times. A call that
would be too deep is refused before its safepoint, and a function of which the locals find no room
after it. A value that finds no room is not pushed. Each of them ends with the error of a full
stack, which a protected call of a script catches like any other, and what called finds the
interpreter as it was.

## Key results

- `Machine.unwound_step`: what is left of an interpreter without its frames is always the same
- `Machine.control_of_passes`: what would pass a limit is refused
- `Life.Spans.refused`: how a call ends of which the locals find no room
- `Life.limits_hold`: all this, in every state of an interpreter
-/

namespace Safepoint

variable {κ τ ρ : Type}

/-! ## Valid limits -/

/-- Limits that pass their validation are valid. -/
theorem Limits.valid_of_validate {limits : Limits} (h : limits.validate = .ok ()) :
    limits.Valid := by
  unfold validate at h
  split at h
  next => exact nomatch h
  next hfault => exact hfault

/-- An interpreter is opened with valid limits only. -/
theorem Interpreter.valid_of_openOn {store store' : Store} {heap : Nat} {limits : Limits}
    {i : Interpreter κ} (h : Interpreter.openOn store heap limits = (store', .ok i)) :
    limits.Valid := by
  unfold openOn at h
  split at h
  next => simp at h
  next hvalid => exact Limits.valid_of_validate hvalid

/-- So is one with facilities. -/
theorem Instruments.valid_of_openWith {g ground : Ground κ} {facilities : Instrumentations}
    {limits : Limits} {m : Machine κ τ ρ} {instruments : Instruments}
    (h : Instruments.openWith g facilities limits = (ground, .ok (m, instruments))) :
    limits.Valid := by
  simp only [openWith, Interpreter.openNew] at h
  split at h
  next => simp at h
  next store heap interp hnew =>
    have hopen := congrArg Prod.snd (congrArg Prod.snd hnew)
    exact Interpreter.valid_of_openOn (Prod.ext rfl hopen)

/-! ## What is left without frames -/

/-- An interpreter has these limits, and a floor of zero once its frames have been taken off. -/
structure Rooted (limits : Limits) (fs : List (Frame κ τ ρ)) (i : Interpreter κ) : Prop where
  limits_eq : i.limits = limits
  bottom : (unwound fs i).floor = 0

namespace Machine

variable {m : Machine κ τ ρ} {limits : Limits}

/-- What will be left of an interpreter once all its frames have been taken off is the same after
each step as before, save in what work may change for good. -/
theorem unwound_step (code : Meaning κ τ ρ) (hm : m.Steady) :
    (unwound (m.step code).frames (m.step code).interp).lasting =
      (unwound m.frames m.interp).lasting := by
  -- only the top frames change, and the work owes them what it owed the ones that it took off
  obtain ⟨-, pushed, hframes, -, howed⟩ :=
    owes_step code hm.counting hm.fitting hm.order hm.laid
  calc (unwound (m.step code).frames (m.step code).interp).lasting
    _ = (unwound (m.frames.drop m.control.takes)
          (unwound pushed (m.step code).interp)).lasting := by rw [hframes, unwound_append]
    _ = (unwound (m.frames.drop m.control.takes)
          (unwound (m.frames.take m.control.takes) m.interp)).lasting := unwound_congr _ howed
    _ = (unwound m.frames m.interp).lasting := by rw [← unwound_append, List.take_append_drop]

/-- A step of the machine leaves what lies below all frames as it was. -/
theorem rooted_step (code : Meaning κ τ ρ) (hm : m.Steady) (h : Rooted limits m.frames m.interp) :
    Rooted limits (m.step code).frames (m.step code).interp := by
  have hsame := m.unwound_step code hm
  constructor
  · have hlimits : (unwound (m.step code).frames (m.step code).interp).limits =
        (unwound m.frames m.interp).limits := (congrArg Interpreter.limits hsame :)
    rw [limits_unwound, limits_unwound] at hlimits
    exact hlimits.trans h.limits_eq
  · have hfloor : (unwound (m.step code).frames (m.step code).interp).floor =
        (unwound m.frames m.interp).floor := (congrArg Interpreter.floor hsame :)
    exact hfloor.trans h.bottom

end Machine

namespace System

variable {s : System κ τ ρ} {limits : Limits}

/-- Whatever happens leaves what lies below all frames as it was. -/
theorem rooted_step (code : Meaning κ τ ρ) (hs : s.Steady)
    (h : Rooted limits s.machine.frames s.machine.interp) (e : Event κ τ ρ) :
    Rooted limits (s.step code e).machine.frames (s.step code e).machine.interp := by
  -- an interpreter that is set to work or dropped has no frames
  have idle (hidle : (s.isOpen && s.machine.control.isFinished) = true) :
      s.machine.frames = [] := by
    rw [Bool.and_eq_true] at hidle
    exact hs.machine.idle hidle.2
  cases e with
  | advance => exact Machine.rooted_step code hs.machine h
  | host t =>
    obtain ⟨g, hg⟩ := s.access_eq t
    simp only [step, hg]
    exact h
  | call t call =>
    simp only [step]
    split <;> exact h
  | start p given =>
    simp only [step]
    split
    next hidle =>
      rw [idle hidle] at h
      exact h
    next => exact h
  | answer r vs =>
    simp only [step, Machine.answer]
    split <;> exact h
  | ground g => exact h
  | syncpoints points => exact h
  | close =>
    simp only [step]
    split
    next hidle =>
      rw [idle hidle] at h
      simp only [Machine.close]
      split
      · exact ⟨h.limits_eq, by rw [← h.bottom, idle hidle]; rfl⟩
      · exact ⟨h.limits_eq, by rw [← h.bottom, idle hidle]; rfl⟩
    next => exact h

/-- An interpreter is opened with valid limits, and with nothing on its stack. -/
theorem rooted_of_begun (h : s.Begun) :
    s.machine.interp.limits.Valid ∧
      Rooted s.machine.interp.limits s.machine.frames s.machine.interp := by
  rcases h with ⟨store, heap, limits, store', interp, ground, hopen, rfl⟩ |
    ⟨g, facilities, limits, ground, m, instruments, hopen, rfl⟩
  · have hvalid := Interpreter.valid_of_openOn hopen
    obtain ⟨block, rfl⟩ := interp_of_openOn hopen
    exact ⟨hvalid, rfl, rfl⟩
  · have hvalid := Instruments.valid_of_openWith hopen
    obtain ⟨-, hframes, -, -, heap, block, hinterp⟩ := machine_of_openWith hopen
    show m.interp.limits.Valid ∧ Rooted m.interp.limits m.frames m.interp
    rw [hframes, hinterp]
    exact ⟨hvalid, rfl, rfl⟩

end System

/-! ## Refusals -/

namespace Machine

variable {m : Machine κ τ ρ} {fs : List (Frame κ τ ρ)} {args : List (Value κ)} {i : Interpreter κ}

/-- What is done next would pass a limit: it overflows, or the result of a call finds no room. All
other instructions take off the stack at least what they put there. -/
inductive Passes (m : Machine κ τ ρ) : Prop where
  | overflows (overflows : m.Overflows) : Passes m
  | returns {vs a f rest} (control : m.control = .deliver (.ok vs))
      (frames : m.frames = .script a (.call f) :: rest) (full : m.interp.hasRoom = false) : Passes m

/-- What would pass a limit ends with the error of a full stack, unless there is no memory for a
string that was to be pushed. -/
theorem control_of_passes (code : Meaning κ τ ρ) (hm : m.Steady) (hsafe : m.Safe)
    (h : m.Passes) :
    (m.step code).control = .deliver (.error (m.interp.runtimeError .stackOverflow)) ∨
      m.Starved ∧ (m.step code).control = .deliver (.error .memory) := by
  -- an overflow of what is about to be done, or a result that finds no room
  cases h with
  | overflows hover => exact control_of_overflows code hm hsafe hover
  | @returns vs a f rest hc hf hfull =>
    left
    simp only [step, hc, deliver, hf, deliverScript]
    exact pushAndGo_full (m := (releaseAll { m with frames := rest, control := .deliver (.ok vs) }
      vs.tail).release f) hfull _

/-- A protected call of a script is told of a runtime error by the octets of its text. -/
theorem step_of_told (code : Meaning κ τ ρ) (hm : m.Steady) {text : String} {encoding : Encoding}
    {a : Activation κ} {f : Value κ} {top : Nat} {rest : List (Frame κ τ ρ)}
    (hc : m.control = .deliver (.error (.runtime (.ofText text encoding))))
    (hf : m.frames = .script a (.pcall f top) :: rest) :
    (∃ s, (m.ground.store.newString m.interp.heap (encoding.encode text)).2 = some s ∧
        s.bytes = encoding.encode text ∧
        (m.step code).Pushed m.interp a rest (.bool false) (.str s)) ∨
      (m.ground.store.newString m.interp.heap (encoding.encode text)).2 = none ∧
        (m.step code).LeftBy .memory rest := by
  -- the text is caught, and the stack has what the frame asks of it
  have hlaid := hm.laid
  rw [hf] at hlaid
  rcases step_of_caught code rfl hc hf hlaid.1.2 with ⟨s, made, hpushed⟩ | hrefused
  · exact .inl ⟨s, made, Store.bytes_of_newString made, hpushed⟩
  · exact .inr hrefused

/-- A call that would be too deep is refused before its safepoint. -/
theorem step_of_invoke_deep (code : Meaning κ τ ρ) {f : Func κ}
    (hc : m.control = .invoke (.fn f) args)
    (hdeep : m.interp.limits.maxCallDepth ≤ m.interp.depth) :
    (m.step code).control = .deliver (.error (m.interp.runtimeError .stackOverflow)) ∧
      (m.step code).frames = m.frames ∧ (m.step code).interp = m.interp ∧
      (m.step code).mailbox = m.mailbox := by
  simp only [step, hc, invoke, if_pos hdeep]
  exact ⟨rfl, rfl, rfl, rfl⟩

/-- Any other call of a function is in progress from then on, and goes to its safepoint. -/
theorem step_of_invoke (code : Meaning κ τ ρ) {f : Func κ}
    (hc : m.control = .invoke (.fn f) args)
    (hdepth : m.interp.depth < m.interp.limits.maxCallDepth) :
    (m.step code).control = .poll .call ∧
      (m.step code).frames = .call (.entering f args) :: m.frames ∧
      (m.step code).interp = { m.interp with depth := m.interp.depth + 1 } := by
  simp only [step, hc, invoke, if_neg (Nat.not_le.mpr hdepth)]
  exact ⟨rfl, rfl, rfl⟩

/-- How far a call of a function has come that will find no room for its locals, where the frames
`fs` wait for it and an interpreter like `i` was found. -/
inductive Refusing (f : Func κ) (args : List (Value κ)) (fs : List (Frame κ τ ρ))
    (i : Interpreter κ) (m : Machine κ τ ρ) : Prop where
  /-- It is at its safepoint. -/
  | waiting {above} (frames : m.frames = above ++ .call (.entering f args) :: fs)
      (owed : (unwound (above ++ [.call (.entering f args)]) m.interp).lasting = i.lasting) :
      Refusing f args fs i m
  /-- Its locals have found no room. -/
  | refused (control : m.control = .deliver (.error (m.interp.runtimeError .stackOverflow)))
      (frames : m.frames = .call .body :: fs) : Refusing f args fs i m

/-- A call has ended with the error of a full stack, or with one of its safepoint that was at hand
before. -/
inductive Turned (f : Func κ) (args : List (Value κ)) (fs : List (Frame κ τ ρ))
    (before m : Machine κ τ ρ) : Prop where
  | full (control : m.control = .deliver (.error (m.interp.runtimeError .stackOverflow)))
  | failed {e} (frames : before.frames = .call (.entering f args) :: fs)
      (hands : before.control = .deliver (.error e)) (control : m.control = .deliver (.error e))

/-- A call that finds no room for its locals goes no further than its safepoint. -/
theorem refusing_step (code : Meaning κ τ ρ) (hm : m.Steady) {id : Nat} {proto : Prototype}
    (h : m.Refusing (.script id proto) args fs i)
    (hfull : i.limits.maxStackSize < i.stack.size + proto.locals) :
    (m.step code).Refusing (.script id proto) args fs i ∨
      (m.step code).frames = fs ∧ m.Turned (.script id proto) args fs (m.step code) := by
  -- either the call safepoint is still on its way, or the function was refused
  cases h with
  | @waiting above hf howed =>
    rcases kept_or_handed code hm hf rfl rfl with ⟨above', hframes, hsame⟩ | ⟨rfl, outcome, hc⟩
    · -- the safepoint goes on
      refine .inl (.waiting hframes ?_)
      rw [unwound_append, unwound_congr _ hsame, ← unwound_append]
      exact howed
    · cases outcome with
      | ok vs =>
        -- on its frame the call finds the stack as it was
        have hstack : m.interp.stack = i.stack := (congrArg Interpreter.stack howed :)
        have hlimits : m.interp.limits = i.limits := (congrArg Interpreter.limits howed :)
        rw [← hstack, ← hlimits] at hfull
        simp only [step, hc, deliver, hf, List.nil_append, deliverCall, enter, if_pos hfull]
        exact .inl (.refused rfl rfl)
      | error e =>
        obtain ⟨-, hcontrol, hframes⟩ := step_of_error_at_call code hc hf hm.nested
        exact .inr ⟨hframes, .failed hf hc hcontrol⟩
  | refused hc hf =>
    obtain ⟨hinterp, hcontrol, hframes⟩ := step_of_error_at_call code hc hf hm.nested
    refine .inr ⟨hframes, .full ?_⟩
    rw [hcontrol, hinterp]
    rfl

end Machine

namespace Life

variable {code : Meaning κ τ ρ} {l : Life code} {k e id : Nat} {proto : Prototype}
  {args : List (Value κ)}

/-- An interpreter keeps the limits it was opened with. -/
theorem rooted (l : Life code) (n : Nat) :
    Rooted (l.state 0).machine.interp.limits (l.state n).machine.frames
      (l.state n).machine.interp := by
  induction n with
  | zero => exact (System.rooted_of_begun l.begun).2
  | succ n ih =>
    rw [l.next]
    exact System.rooted_step code (l.steady n) ih (l.event n)

/-- What others do takes a call no further. -/
private theorem refusing_of_aside (l : Life code) {n : Nat} {f : Func κ} {fs : List (Frame κ τ ρ)}
    {i : Interpreter κ} (h : (l.state n).machine.Refusing f args fs i) (he : l.event n ≠ .advance) :
    (l.state (n + 1)).machine.Refusing f args fs i := by
  -- no other thread touches the frames of the interpreter
  cases h with
  | waiting hf howed =>
    obtain ⟨hframes, hinterp⟩ := l.frames_aside he (by simp [hf])
    exact .waiting (hframes.trans hf) (hinterp ▸ howed)
  | refused hc hf =>
    obtain ⟨hcontrol, hframes, hinterp⟩ := l.control_aside he (by rw [hc]; rfl) (by simp [hc])
    exact .refused (by rw [hcontrol, hinterp]; exact hc) (hframes.trans hf)

/-- Up to its end, a call of which the locals find no room is at its safepoint or was refused. -/
private theorem Spans.refusing (h : l.Spans k e)
    (hc : (l.state k).machine.control = .invoke (.fn (.script id proto)) args)
    (hfull : (l.state k).machine.interp.limits.maxStackSize <
      (l.state k).machine.interp.stack.size + proto.locals) {j : Nat} (hkj : k < j) (hje : j ≤ e) :
    (l.state j).machine.Refusing (.script id proto) args (l.state k).machine.frames
        (l.state k).machine.interp ∨
      (l.state j).machine.frames = (l.state k).machine.frames ∧
        (l.state (j - 1)).machine.Turned (.script id proto) args (l.state k).machine.frames
          (l.state j).machine := by
  -- the induction is on the steps of the call since it was made
  induction j, hkj using Nat.le_induction with
  | base =>
    rw [l.machine_succ h.step]
    rcases Nat.lt_or_ge (l.state k).machine.interp.depth
      (l.state k).machine.interp.limits.maxCallDepth with hdepth | hdeep
    · obtain ⟨-, hframes, hinterp⟩ := Machine.step_of_invoke code hc hdepth
      have hframes' : ((l.state k).machine.step code).frames =
          [] ++ .call (.entering (.script id proto) args) :: (l.state k).machine.frames := hframes
      exact .inl (.waiting hframes' (by rw [hinterp]; rfl))
    · obtain ⟨hcontrol, hframes, hinterp, -⟩ := Machine.step_of_invoke_deep code hc hdeep
      exact .inr ⟨hframes, .full (by rw [hcontrol, hinterp])⟩
  | succ j hkj ih =>
    rcases ih (by omega) with hrefusing | ⟨hback, -⟩
    · by_cases he : l.event j = .advance
      · rw [l.machine_succ he]
        exact Machine.refusing_step code (l.steady j).machine hrefusing hfull
      · exact .inl (l.refusing_of_aside hrefusing he)
    · exact absurd hback (h.first j (by omega) (by omega))

/-- A call of which the locals find no room ends with the error of a full stack, or with the error
of its own safepoint. -/
theorem Spans.refused (h : l.Spans k e)
    (hc : (l.state k).machine.control = .invoke (.fn (.script id proto)) args)
    (hfull : (l.state k).machine.interp.limits.maxStackSize <
      (l.state k).machine.interp.stack.size + proto.locals) :
    (l.state (e - 1)).machine.Turned (.script id proto) args (l.state k).machine.frames
      (l.state e).machine := by
  rcases h.refusing hc hfull h.later (Nat.le_refl e) with hrefusing | ⟨-, hturned⟩
  · -- a call in progress has a frame of its own
    have hback := h.back
    cases hrefusing with
    | @waiting above hf => exact absurd (hback.symm.trans hf) (frames_ne above _)
    | refused _ hf => exact absurd (hback.symm.trans hf) (frames_ne [] _)
  · exact hturned

/-- An interpreter is opened with valid limits, and whatever runs in it and however it fails keeps
to them: at each step there are no more calls in progress and no more values on the stack than they
grant, and the floor of the function that runs is on the stack.

What would pass a limit is refused with the error of a full stack, unless there was no memory for
the string that was to be pushed. That error, in whatever encoding its message is, becomes a string
for the protected call of a script that it is handed to, if there are memory for the string and room
for the results. A call that would be too deep is refused before its safepoint, and nothing but what
is done next has changed; any other call of a function goes to its safepoint, one call deeper. A
call of a script function of which the locals find no room is refused after its safepoint, unless
that has failed itself. When it is over, the depth, the stack and the floor are as they were. -/
theorem limits_hold (l : Life code) (n : Nat) :
    let limits := (l.state 0).machine.interp.limits
    let m := (l.state n).machine
    let m' := (l.state (n + 1)).machine
    (limits.Valid ∧ m.interp.limits = limits ∧ m.interp.depth ≤ limits.maxCallDepth ∧
      m.interp.stack.size ≤ limits.maxStackSize ∧ m.interp.floor ≤ m.interp.stack.size) ∧
    (l.event n = .advance →
      (m.Passes →
        m'.control = .deliver (.error (.runtime (.ofText "stack overflow" m.interp.encoding))) ∨
          m.Starved ∧ m'.control = .deliver (.error .memory)) ∧
      (∀ encoding a f top rest,
        m.control = .deliver (.error (.runtime (.ofText "stack overflow" encoding))) →
        m.frames = .script a (.pcall f top) :: rest →
        let bytes := encoding.encode "stack overflow"
        (∃ s, (m.ground.store.newString m.interp.heap bytes).2 = some s ∧ s.bytes = bytes ∧
            m'.Pushed m.interp a rest (.bool false) (.str s)) ∨
          (m.ground.store.newString m.interp.heap bytes).2 = none ∧ m'.LeftBy .memory rest) ∧
      ∀ f args, m.control = .invoke (.fn f) args →
        (limits.maxCallDepth ≤ m.interp.depth →
          m'.control = .deliver (.error (.runtime (.ofText "stack overflow" m.interp.encoding))) ∧
            m'.frames = m.frames ∧ m'.interp = m.interp ∧ m'.mailbox = m.mailbox) ∧
        (m.interp.depth < limits.maxCallDepth →
          m'.control = .poll .call ∧ m'.frames = .call (.entering f args) :: m.frames ∧
            m'.interp = { m.interp with depth := m.interp.depth + 1 })) ∧
    ∀ e id proto args, l.Spans n e → m.control = .invoke (.fn (.script id proto)) args →
      limits.maxStackSize < m.interp.stack.size + proto.locals →
      let found := (l.state e).machine
      found.interp.depth = m.interp.depth ∧ found.interp.stack = m.interp.stack ∧
        found.interp.floor = m.interp.floor ∧
        (found.control =
            .deliver (.error (.runtime (.ofText "stack overflow" found.interp.encoding))) ∨
          ∃ err, (l.state (e - 1)).machine.frames =
              .call (.entering (.script id proto) args) :: m.frames ∧
            (l.state (e - 1)).machine.control = .deliver (.error err) ∧
            found.control = .deliver (.error err)) := by
  have hm := (l.steady n).machine
  have hlimits := (l.rooted n).limits_eq
  have hin := l.inLimits n
  dsimp only
  rw [← hlimits]
  refine ⟨⟨?_, rfl, hin.depth_le, hin.stack_le, floor_le_of_laid hm.laid (l.rooted n).bottom⟩,
    fun hadvance => ?_, fun e id proto args hspans hc hfull => ?_⟩
  · rw [hlimits]
    exact (System.rooted_of_begun l.begun).1
  · rw [l.machine_succ hadvance]
    -- at each step of the own thread: what does not fit, what is caught, and what is called
    exact ⟨Machine.control_of_passes code hm (hm.safe hin),
      fun encoding a f top rest hc hf => Machine.step_of_told code hm hc hf,
      fun f args hc => ⟨Machine.step_of_invoke_deep code hc, Machine.step_of_invoke code hc⟩⟩
  · -- over the whole of a call that was refused for its locals
    have hsame := Interpreter.eq_of_lasting hspans.lasting
    refine ⟨by rw [hsame], by rw [hsame], by rw [hsame], ?_⟩
    cases hspans.refused hc hfull with
    | full hcontrol => exact .inl hcontrol
    | failed hframes hhands hcontrol => exact .inr ⟨_, hframes, hhands, hcontrol⟩

/-! ## Too wide, too deep and too full -/

/-- A function with more locals than fit on a small stack. -/
private def wide : Prototype :=
  .ofCode "wide" 17 #[] rfl

/-- A function that calls its argument behind a protected call and goes on to fill the stack up. -/
private def fills : Prototype :=
  .ofCode "fills" 13 #[.getLocal 0, .pcall 0, .nil, .nil] rfl

/-- The embedder calls the wide function, and then the other with the wide one for its argument. -/
private def fillingEvent (n : Nat) : Event Unit Unit Unit :=
  [.start (.ask (.pcall (.fn (.script 0 wide)) []) fun _ =>
    .ask (.pcall (.fn (.script 1 fills)) [.fn (.script 0 wide)]) fun _ => .finish (.ok []))
    []].getD n .advance

private def filling : Life (idleCode : Meaning Unit Unit Unit) where
  state := shallow.after idleCode fillingEvent
  event := fillingEvent
  begun := .inl ⟨(Store.empty.addHeap MemorySource.system.heap).1, 0, ⟨1, 16⟩, shallowStore, _,
    ⟨shallowStore, #[], 0⟩, rfl, rfl⟩
  next _ := rfl

/-- How many locals the script function has that is called next. -/
private def calledLocals? : Control κ τ ρ → Option Nat
  | .invoke (.fn (.script _ proto)) _ => some proto.locals
  | _ => none

/-- The control from which locals are read off calls a script function that has as many. -/
private theorem control_of_calledLocals? {c : Control κ τ ρ} {locals : Nat}
    (h : calledLocals? c = some locals) :
    ∃ id proto args, c = .invoke (.fn (.script id proto)) args ∧ proto.locals = locals := by
  unfold calledLocals? at h
  split at h
  next id proto args => exact ⟨id, proto, args, rfl, Option.some.inj h⟩
  next => exact nomatch h

/-- Whether a protected call of a script is on top. -/
private def isProtected : List (Frame κ τ ρ) → Bool
  | .script _ (.pcall ..) :: _ => true
  | _ => false

/-- The frames that are told to be protected have a protected call of a script on top. -/
private theorem frames_of_isProtected {fs : List (Frame κ τ ρ)} (h : isProtected fs = true) :
    ∃ a f top rest, fs = .script a (.pcall f top) :: rest := by
  unfold isProtected at h
  split at h
  next a f top rest => exact ⟨a, f, top, rest, rfl⟩
  next => exact nomatch h

/-- Whether a call at its safepoint is on top. -/
private def isEntering : List (Frame κ τ ρ) → Bool
  | .call (.entering ..) :: _ => true
  | _ => false

/-- Whether an error is handed over next. -/
private def failsNext : Control κ τ ρ → Bool
  | .deliver (.error _) => true
  | _ => false

/-- The embedder's first call is too wide; that of the script is too deep, of which it is told; and
then the stack is full. -/
theorem wide_and_deep_call_refused :
    ∃ l : Life (idleCode : Meaning Unit Unit Unit),
      let overflow : Control Unit Unit Unit :=
        .deliver (.error (.runtime (.ofText "stack overflow" .windows1252)))
      (l.Spans 2 6 ∧ (l.state 6).machine.control = overflow ∧
        (l.state 6).machine.interp.depth = 0) ∧
      ((l.state 20).machine.interp.depth = 1 ∧ (l.state 21).machine.control = overflow ∧
        ∃ s : Str, s.bytes = Encoding.windows1252.encode "stack overflow" ∧
          (l.state 22).machine.interp.stack =
            ((l.state 21).machine.interp.stack.push (.bool false)).push (.str s)) ∧
      (l.state 29).machine.interp.stack.size = 16 ∧ (l.state 30).machine.control = overflow := by
  obtain ⟨-, -, hwide⟩ := limits_hold filling 2
  obtain ⟨-, hdeep, -⟩ := limits_hold filling 20
  obtain ⟨-, hcaught, -⟩ := limits_hold filling 21
  obtain ⟨-, hpush, -⟩ := limits_hold filling 29
  -- the locals of the first call find no room
  have hspans : filling.Spans 2 6 :=
    .of_length rfl (by decide +kernel) (by decide) (by decide +kernel) (by decide +kernel)
  have hcalls : calledLocals? (filling.state 2).machine.control = some 17 := by decide +kernel
  obtain ⟨id, proto, args, hcall, hlocals⟩ := control_of_calledLocals? hcalls
  have hnarrow : (filling.state 0).machine.interp.limits.maxStackSize <
      (filling.state 2).machine.interp.stack.size + proto.locals := by
    rw [hlocals]
    decide +kernel
  obtain ⟨hdepth, -, -, hends⟩ := hwide 6 id proto args hspans hcall hnarrow
  have hencoding : (filling.state 6).machine.interp.encoding = .windows1252 := by decide +kernel
  have hpast : isEntering (filling.state 5).machine.frames = false := by decide +kernel
  rw [hencoding] at hends
  have hrefused := hends.resolve_right <| by
    rintro ⟨err, hframes, -⟩
    rw [hframes] at hpast
    exact absurd hpast.symm Bool.false_ne_true
  -- one call is in progress when the script makes the second
  obtain ⟨-, -, hinvoke⟩ := hdeep rfl
  have hcalls' : calledLocals? (filling.state 20).machine.control = some 17 := by decide +kernel
  obtain ⟨_, _, args', hcall', -⟩ := control_of_calledLocals? hcalls'
  obtain ⟨hfails, hframes, -, -⟩ := (hinvoke _ args' hcall').1 (by decide +kernel)
  have hencoding' : (filling.state 20).machine.interp.encoding = .windows1252 := by decide +kernel
  rw [hencoding'] at hfails
  have hguarded : isProtected (filling.state 20).machine.frames = true := by decide +kernel
  obtain ⟨a, f, top, rest, hprotected⟩ := frames_of_isProtected hguarded
  obtain ⟨-, htold, -⟩ := hcaught rfl
  have hgoes : failsNext (filling.state 22).machine.control = false := by decide +kernel
  -- the stack is full when the script pushes its last value
  obtain ⟨hpasses, -⟩ := hpush rfl
  have hexecute := control_of_executed? (c := (filling.state 29).machine.control) (i := .nil)
    (by decide +kernel)
  obtain ⟨a', rest', hf, -⟩ := (filling.steady 29).machine.executing hexecute
  have hover : (filling.state 29).machine.Overflows :=
    .pushes hexecute hf rfl (by decide +kernel) (by decide +kernel)
  have hencoding'' : (filling.state 29).machine.interp.encoding = .windows1252 := by decide +kernel
  rw [hencoding''] at hpasses
  have hfull := (hpasses (.overflows hover)).resolve_right <| by
    rintro ⟨hstarved, -⟩
    -- no string is to be pushed
    cases hstarved with
    | literal hc => simp [hexecute] at hc
    | message hc => simp [hexecute] at hc
  refine ⟨filling, ⟨hspans, hrefused, hdepth⟩, ⟨by decide +kernel, hfails, ?_⟩,
    by decide +kernel, hfull⟩
  rcases htold .windows1252 a f top rest hfails (hframes.trans hprotected) with
    ⟨s, -, hbytes, ⟨-, -, -, hinterp⟩ | ⟨-, hleft⟩⟩ | ⟨-, hleft⟩
  · exact ⟨s, hbytes, by rw [hinterp]⟩
  -- the script goes on, so no error has left it
  · exact absurd hgoes (by rw [hleft.1]; exact nofun)
  · exact absurd hgoes (by rw [hleft.1]; exact nofun)

end Life

end Safepoint
