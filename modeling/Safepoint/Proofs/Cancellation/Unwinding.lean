import Safepoint.Proofs.Cancellation.Raising

/-!
# How scripts unwind

While a cancellation is pending and the hook is armed, a script gets no further than its next
safepoint. The safepoint raises the cancellation, and the error leaves one frame after the other. A
protected call in a script does catch it, since scripts can intercept a cancellation; but then its
function goes on to the count safepoint of its next instruction, or to the return safepoint if there
is none, and that safepoint raises the cancellation again.

`Machine.Unwinding m rest message cause left` says that the frames of `m` above `rest` are on that
way, for a cancellation with `message`, and that at most `left` of its own moves remain until only
`rest` is left. Errors on the way satisfy `cause`.

## Key results

- `Machine.unwinding_step`: each move of the machine brings the end nearer, and begins nothing
- `Machine.step_of_error_at_script`: the one way in which an error changes on the way is that a
  protected call fails to catch it
-/

namespace Safepoint

variable {κ τ ρ : Type}

/-! ## Frames of scripts -/

/-- Whether a frame belongs to a script: to a script function, or to a call. -/
def Frame.isScript : Frame κ τ ρ → Bool
  | .call _ | .script .. => true
  | _ => false

/-- The moves that a frame may take to be left, where safepoints are counted with the frame that is
to go on to them. A protected call may catch an error and then has one instruction to go. -/
def Frame.load : Frame κ τ ρ → Nat
  | .script _ .ready => 10
  | .script _ (.pcall ..) => 11
  | _ => 1

/-- The moves that some frames may take to be left. -/
def load : List (Frame κ τ ρ) → Nat
  | [] => 0
  | f :: fs => f.load + load fs

/-- The load of some frames is that of the first and that of the others. -/
theorem load_cons (f : Frame κ τ ρ) (fs : List (Frame κ τ ρ)) : load (f :: fs) = f.load + load fs :=
  rfl

/-- No frame is left without a move. -/
theorem Frame.load_pos (f : Frame κ τ ρ) : 0 < f.load := by
  unfold load
  split <;> decide

/-- A frame takes eleven moves at most. -/
theorem load_le (fs : List (Frame κ τ ρ)) : load fs ≤ 11 * fs.length := by
  induction fs with
  | nil => exact Nat.le_refl 0
  | cons f fs ih =>
    have hf : f.load ≤ 11 := by
      unfold Frame.load
      split <;> decide
    rw [load_cons, List.length_cons]
    omega

namespace Machine

variable {m : Machine κ τ ρ} {rest fs : List (Frame κ τ ρ)}

/-! ## Errors on their way -/

/-- A protected call in a script fails to catch an error that is handed to it: there is no memory
for the string of its message, or no room on the stack for false and that string. Then it leaves its
function with another error. -/
inductive CatchFails (m : Machine κ τ ρ) : Error → Prop where
  | refused {e a f top fs} (control : m.control = .deliver (.error e))
      (frames : m.frames = .script a (.pcall f top) :: fs)
      (refused : ((m.truncate top).newValue (m.interp.errorBytes e)).2 = none) :
      CatchFails m .memory
  | full {e a f top fs v} (control : m.control = .deliver (.error e))
      (frames : m.frames = .script a (.pcall f top) :: fs)
      (granted : ((m.truncate top).newValue (m.interp.errorBytes e)).2 = some v)
      (full : m.interp.limits.maxStackSize < (m.truncate top).interp.stack.size + 2) :
      CatchFails m (m.interp.runtimeError .stackOverflow)

/-- From `m` to `m'`, neither the globals nor the bookkeeping of the hook have changed. -/
structure Unchanged (m m' : Machine κ τ ρ) : Prop where
  globals : m'.interp.globals = m.interp.globals
  hook : m'.interp.hook = m.interp.hook

/-- An error leaves a call at whatever stage, and the call is no longer counted. -/
theorem step_of_error_at_call (code : Meaning κ τ ρ) {e : Error} {stage : Stage κ}
    (hc : m.control = .deliver (.error e)) (hf : m.frames = .call stage :: fs)
    (hn : Nested m.interp.depth m.frames) :
    (m.step code).interp = { m.interp with depth := m.interp.depth - 1 } ∧
      (m.step code).control = .deliver (.error e) ∧ (m.step code).frames = fs := by
  -- the call is counted, so its end can be counted
  obtain ⟨below, hdepth, -⟩ : Nested m.interp.depth (.call stage :: fs) := hf ▸ hn
  have hdepth : m.interp.depth = below + 1 := hdepth
  simp only [step, hc, deliver, hf]
  cases stage with
  | entering f args | leaving results =>
    simp only [deliverCall, exitCall, releaseAll, mapStore, hdepth]
    exact ⟨rfl, rfl, rfl⟩
  | body =>
    simp only [deliverCall, exitCall, hdepth]
    exact ⟨rfl, rfl, rfl⟩

/-- Where there is no room on the stack for two more values, a function that is to push them is left
with an error. -/
private theorem pushTwoAndGo_cases (m : Machine κ τ ρ) (a : Activation κ) (v w : Value κ) :
    Unchanged m (m.pushTwoAndGo a v w) ∧
      ((m.pushTwoAndGo a v w).control = .fetch ∧
          (m.pushTwoAndGo a v w).frames = .script a .ready :: m.frames ∨
        m.interp.limits.maxStackSize < m.interp.stack.size + 2 ∧
          (m.pushTwoAndGo a v w).control =
            .deliver (.error (m.interp.runtimeError .stackOverflow)) ∧
          (m.pushTwoAndGo a v w).frames = m.frames) := by
  constructor
  · unfold pushTwoAndGo pushAndGo
    split
    · split <;> exact ⟨rfl, rfl⟩
    · exact ⟨rfl, rfl⟩
  · rcases Nat.lt_or_ge m.interp.limits.maxStackSize (m.interp.stack.size + 2) with hfull | hroom
    · exact .inr ⟨hfull, pushTwoAndGo_of_full a v w hfull⟩
    · rw [pushTwoAndGo_of_room a v w hroom]
      exact .inl ⟨rfl, rfl⟩

/-- What comes of an error that is handed to a script function: it leaves the function, or it is
caught, or a protected call fails to catch it and another error leaves the function. -/
theorem step_of_error_at_script (code : Meaning κ τ ρ) {e : Error} {a : Activation κ}
    {await : Await κ} (hc : m.control = .deliver (.error e))
    (hf : m.frames = .script a await :: fs) (hwaits : await ≠ .ready) :
    Unchanged m (m.step code) ∧
      ((m.step code).control = .deliver (.error e) ∧ (m.step code).frames = fs ∨
        (∃ err, m.CatchFails err ∧ (m.step code).control = .deliver (.error err) ∧
          (m.step code).frames = fs) ∨
        (∃ f top, await = .pcall f top) ∧ (m.step code).control = .fetch ∧
          (m.step code).frames = .script a .ready :: fs) := by
  have hstep : m.step code = deliverScript { m with frames := fs } a await (.error e) := by
    simp only [step, hc, deliver, hf]
  rw [hstep]
  -- only a protected call does anything with an error
  cases await with
  | ready => exact absurd rfl hwaits
  | safepoint i => exact ⟨⟨rfl, rfl⟩, .inl ⟨rfl, rfl⟩⟩
  | call f => exact ⟨⟨rfl, rfl⟩, .inl ⟨rfl, rfl⟩⟩
  | pcall f top =>
    simp only [deliverScript, afterPcall]
    split
    next hcatch =>
      -- the string of the message comes first, and then its place on the stack
      rw [newValue_eq]
      have hasked : ((m.truncate top).newValue (m.interp.errorBytes e)).2 =
          ((truncate { m with frames := fs } top).ground.store.newValue m.interp.heap
            (m.interp.errorBytes e)).2 := by
        rw [newValue_eq]
        rfl
      split
      next m₁ v hnew =>
        obtain ⟨rfl, hgranted⟩ := Prod.mk.inj hnew
        obtain ⟨⟨hglobals, hhook⟩, ⟨hcontrol, hframes⟩ | ⟨hfull, hcontrol, hframes⟩⟩ :=
          pushTwoAndGo_cases (mapStore (truncate { m with frames := fs } top) _) a (.bool false) v
        · exact ⟨⟨hglobals, hhook⟩, .inr (.inr ⟨⟨f, top, rfl⟩, hcontrol, hframes⟩)⟩
        · -- no room for the pair
          exact ⟨⟨hglobals, hhook⟩, .inr (.inl ⟨_, .full hc hf (hasked.trans hgranted) hfull,
            hcontrol, hframes⟩)⟩
      next m₁ hnew =>
        obtain ⟨rfl, hrefused⟩ := Prod.mk.inj hnew
        exact ⟨⟨rfl, rfl⟩, .inr (.inl ⟨_, .refused hc hf (hasked.trans hrefused), rfl, rfl⟩)⟩
    next =>
      -- scripts cannot catch every error
      exact ⟨⟨rfl, rfl⟩, .inl ⟨rfl, rfl⟩⟩

/-! ## Frames on top -/

/-- Below the frames of scripts, which are on top, waits something else. -/
def EndsAt (fs rest : List (Frame κ τ ρ)) : Prop :=
  (∀ f ∈ fs, f.isScript) ∧ ∀ f ∈ rest.head?, f.isScript = false

/-- The frames of scripts below the one on top end where they ended. -/
theorem EndsAt.tail {f : Frame κ τ ρ} (h : EndsAt (f :: fs) rest) : EndsAt fs rest :=
  ⟨fun g hg => h.1 g (List.mem_cons_of_mem f hg), h.2⟩

/-- A frame of a script on top of frames of scripts is one more of them. -/
theorem EndsAt.cons {f : Frame κ τ ρ} (h : EndsAt fs rest) (hf : f.isScript = true) :
    EndsAt (f :: fs) rest := by
  refine ⟨fun g hg => ?_, h.2⟩
  rcases List.mem_cons.mp hg with rfl | hg
  · exact hf
  · exact h.1 g hg

/-- What waits for something that only scripts wait for is one of their frames. -/
private theorem EndsAt.exists_top {w : Awaited} (h : EndsAt fs rest) (hw : Waits w (fs ++ rest))
    (hprogram : w ≠ .program)
    (hscript : ∀ f : Frame κ τ ρ, f.waitsFor w = true → f.isScript = true) :
    ∃ f fs', fs = f :: fs' ∧ f.waitsFor w = true ∧ Waits f.partOf (fs' ++ rest) := by
  -- what the machine is about to do tells which frame is on top
  cases fs with
  | cons f fs' => exact ⟨f, fs', rfl, hw.1, hw.2⟩
  | nil =>
    cases rest with
    | nil => exact absurd hw hprogram
    | cons f rest' =>
      -- what waits below is no frame of a script
      have hf := h.2 f (by simp)
      rw [hscript f hw.1] at hf
      exact nomatch hf

/-- The body of a script function is that of a call. -/
theorem EndsAt.body_on_top (h : EndsAt fs rest) (hw : Waits .body (fs ++ rest)) :
    ∃ fs', fs = .call .body :: fs' := by
  obtain ⟨f, fs', rfl, hf, -⟩ := h.exists_top hw (by decide) fun f hf => by
    cases f <;> simp_all [Frame.waitsFor, Frame.isScript]
  refine ⟨fs', ?_⟩
  cases f with
  | call stage => cases stage <;> simp_all [Frame.waitsFor]
  | _ => simp_all [Frame.waitsFor]

/-- A script function at work is on top of its frames. -/
theorem EndsAt.script_on_top (h : EndsAt fs rest) (hw : Waits .script (fs ++ rest)) :
    ∃ a fs', fs = .script a .ready :: fs' ∧ Waits .body (fs' ++ rest) := by
  obtain ⟨f, fs', rfl, hf, hbody⟩ := h.exists_top hw (by decide) fun f hf => by
    cases f <;> simp_all [Frame.waitsFor, Frame.isScript]
  cases f with
  | script a await =>
    cases await with
    | ready => exact ⟨a, fs', rfl, hbody⟩
    | _ => simp [Frame.waitsFor] at hf
  | call stage => cases stage <;> simp [Frame.waitsFor] at hf
  | _ => simp [Frame.waitsFor] at hf

/-- What polls a safepoint is on top. -/
theorem EndsAt.safepoint_on_top (h : EndsAt fs rest) (hw : Waits .safepoint (fs ++ rest)) :
    ∃ f fs', fs = f :: fs' ∧ f.isScript = true := by
  obtain ⟨f, fs', rfl, -⟩ := h.exists_top hw (by decide) fun f hf => by
    cases f <;> simp_all [Frame.waitsFor, Frame.isScript]
  exact ⟨f, fs', rfl, h.1 f (by simp)⟩

/-! ## The way to the end -/

/-- The frames of scripts above `rest` are left, for a cancellation with `message`, and so many
moves remain at most until only `rest` is left. -/
inductive Unwinding (m : Machine κ τ ρ) (rest : List (Frame κ τ ρ)) (message : Message)
    (cause : Error → Prop) : Nat → Prop where
  /-- A script function is about to fetch an instruction. -/
  | fetching {above} (control : m.control = .fetch) (frames : m.frames = above ++ rest)
      (ends : EndsAt above rest) (hook : m.interp.hook = (true, true, 1)) :
      Unwinding m rest message cause (load above)
  /-- A safepoint is about to poll. -/
  | polling {event above} (control : m.control = .poll event) (frames : m.frames = above ++ rest)
      (ends : EndsAt above rest) (hook : m.interp.hook = (true, true, 1)) :
      Unwinding m rest message cause (8 + load above)
  /-- The handler is on its way to the message. -/
  | raising {above left} (raising : m.Raising (above ++ rest) left) (ends : EndsAt above rest)
      (hook : m.interp.hook = (false, false, 1)) :
      Unwinding m rest message cause (left + 1 + load above)
  | raised {above} (raised : m.Raised (above ++ rest) message) (ends : EndsAt above rest)
      (hook : m.interp.hook = (false, false, 1)) : Unwinding m rest message cause (1 + load above)
  /-- An error leaves one frame after the other. -/
  | failing {above err} (control : m.control = .deliver (.error err))
      (frames : m.frames = above ++ rest)
      (caused : cause err) (ends : EndsAt above rest) (hook : m.interp.hook = (true, true, 1)) :
      Unwinding m rest message cause (load above)
  /-- A script function that caught an error had no instruction left. -/
  | ending {above} (control : m.control = .deliver (.ok []))
      (frames : m.frames = .call .body :: above ++ rest) (ends : EndsAt above rest)
      (hook : m.interp.hook = (true, true, 1)) : Unwinding m rest message cause (10 + load above)

variable {message : Message} {cause : Error → Prop} {left : Nat}

/-- Whatever an error was caused by before may have caused it. -/
theorem Unwinding.mono {cause' : Error → Prop} (h : m.Unwinding rest message cause left)
    (hcause : ∀ err, cause err → cause' err) : m.Unwinding rest message cause' left := by
  cases h with
  | fetching hc hf he hh => exact .fetching hc hf he hh
  | polling hc hf he hh => exact .polling hc hf he hh
  | raising hr he hh => exact .raising hr he hh
  | raised hr he hh => exact .raised hr he hh
  | failing hc hf hcaused he hh => exact .failing hc hf (hcause _ hcaused) he hh
  | ending hc hf he hh => exact .ending hc hf he hh

/-- One move of a machine whose scripts unwind: no global changes, and fewer moves are left. -/
def Nears (m m' : Machine κ τ ρ) (rest : List (Frame κ τ ρ)) (message : Message)
    (cause : Error → Prop) (left : Nat) : Prop :=
  m'.interp.globals = m.interp.globals ∧
    ∃ left', m'.Unwinding rest message cause left' ∧ left' + (!m.isHeld).toNat ≤ left

/-- A move to a state with fewer moves left. -/
private theorem Nears.of_lt {m' : Machine κ τ ρ} {left' : Nat}
    (hglobals : m'.interp.globals = m.interp.globals) (h : m'.Unwinding rest message cause left')
    (hlt : left' < left) : m.Nears m' rest message cause left := by
  have := Bool.toNat_le (!m.isHeld)
  exact ⟨hglobals, left', h, by omega⟩

/-- The next instruction has a safepoint of its own, and so has the end of a function. -/
private theorem nears_of_fetching (code : Meaning κ τ ρ) (hc : m.control = .fetch)
    (hf : m.frames = fs ++ rest) (hends : EndsAt fs rest)
    (hhook : m.interp.hook = (true, true, 1)) (hfit : m.Fitting) :
    m.Nears (m.step code) rest message cause (load fs) := by
  have hw : Waits .script (fs ++ rest) := by
    rw [← hf]
    exact hfit.waits hc (by simp [Control.isFor])
  obtain ⟨a, fs, rfl, hbody⟩ := hends.script_on_top hw
  have hstep : m.step code = fetch { m with frames := fs ++ rest } a := by
    simp only [step, hc, hf, List.cons_append]
  rw [hstep]
  unfold fetch
  split
  next =>
    -- past the last instruction, the function is left as if it had returned nothing
    obtain ⟨fs, rfl⟩ := hends.tail.body_on_top hbody
    refine .of_lt rfl (.ending rfl rfl hends.tail.tail hhook) ?_
    simp only [load_cons, Frame.load]
    omega
  next i _ =>
    -- the instruction is not executed before its count safepoint has passed
    have hends' : EndsAt (.script { a with pc := a.pc + 1 } (.safepoint i) :: fs) rest :=
      hends.tail.cons rfl
    refine .of_lt rfl (.polling rfl (by rfl) hends' hhook) ?_
    simp only [load_cons, Frame.load]
    omega

/-- A safepoint enters the handler, since the hook is armed and not suppressed. -/
private theorem nears_of_polling (code : Meaning κ τ ρ) {event : HookEvent}
    (hc : m.control = .poll event) (hf : m.frames = fs ++ rest) (hends : EndsAt fs rest)
    (hhook : m.interp.hook = (true, true, 1)) (hthreshold : m.mailbox.slot.threshold = 1)
    (hmask : m.mailbox.slot.mask = .armed) :
    m.Nears (m.step code) rest message cause (8 + load fs) := by
  have hstep : m.step code = m.entering event := by
    simp only [step, hc]
    exact poll_of_armed event hhook hthreshold hmask
  rw [hstep]
  have hraising : (m.entering event).Raising (fs ++ rest) 6 := hf ▸ raising_entering m event
  refine .of_lt rfl (.raising hraising hends ?_) (by omega)
  simp only [Interpreter.hook, Prod.mk.injEq] at hhook
  simp [entering, await, Interpreter.hook, hhook]

/-- In the handler, a move is one nearer to reading the message. -/
private theorem nears_of_raising (code : Meaning κ τ ρ) (h : m.Raising (fs ++ rest) left)
    (hends : EndsAt fs rest) (hhook : m.interp.hook = (false, false, 1))
    (hpending : m.mailbox.Pending message) :
    m.Nears (m.step code) rest message cause (left + 1 + load fs) := by
  obtain ⟨hsame, ⟨left', h', hless⟩ | ⟨rfl, hraised⟩⟩ := raising_step code h hpending
  · have hhook' : (m.step code).interp.hook = (false, false, 1) := by rw [hsame.interp, hhook]
    exact ⟨by rw [hsame.interp], _, .raising h' hends hhook', by omega⟩
  · -- the message has been read
    have hhook' : (m.step code).interp.hook = (false, false, 1) := by rw [hsame.interp, hhook]
    exact .of_lt (by rw [hsame.interp]) (.raised hraised hends hhook') (by omega)

/-- The handler hands its error to the safepoint it was entered at. -/
private theorem nears_of_raised (code : Meaning κ τ ρ) (h : m.Raised (fs ++ rest) message)
    (hends : EndsAt fs rest) (hhook : m.interp.hook = (false, false, 1))
    (hcause : cause (.cancelled message)) :
    m.Nears (m.step code) rest message cause (1 + load fs) := by
  have hstep : m.step code =
      { m with
        frames := fs ++ rest
        interp := { m.interp with hookInstalled := true, hookAllowed := true }
        control := .deliver (.error (.cancelled message)) } := by
    simp only [step, h.control, deliver, h.frames]
    rfl
  rw [hstep]
  refine .of_lt rfl (.failing rfl rfl hcause hends ?_) (by omega)
  simp only [Interpreter.hook, Prod.mk.injEq] at hhook
  simp [Interpreter.hook, hhook]

/-- An error leaves the frame on top. If that is a protected call that catches it, its function goes
on to its next instruction. -/
private theorem nears_of_failing (code : Meaning κ τ ρ) {f : Frame κ τ ρ} {err : Error}
    (hc : m.control = .deliver (.error err)) (hf : m.frames = f :: fs ++ rest)
    (hcaused : cause err) (hends : EndsAt (f :: fs) rest) (hhook : m.interp.hook = (true, true, 1))
    (hfit : m.Fitting) (hn : Nested m.interp.depth m.frames) :
    m.Nears (m.step code) rest message (fun e => cause e ∨ m.CatchFails e) (load (f :: fs)) := by
  have hless : load fs < load (f :: fs) := by
    have := f.load_pos
    rw [load_cons]
    omega
  have hscript := hends.1 f (by simp)
  -- a call passes the error on, and a script may catch it or fail to
  cases f with
  | call stage =>
    obtain ⟨hinterp, hc', hf'⟩ := step_of_error_at_call code hc hf hn
    refine .of_lt (by rw [hinterp]) (.failing hc' hf' (.inl hcaused) hends.tail ?_) hless
    rw [hinterp]
    exact hhook
  | script a await =>
    obtain ⟨⟨hglobals, hhook'⟩, hcases⟩ :=
      step_of_error_at_script code hc hf (hfit.await_ne_ready hc hf)
    rw [hhook] at hhook'
    obtain ⟨hc', hf'⟩ | ⟨err', hfails, hc', hf'⟩ | ⟨⟨g, top, rfl⟩, hc', hf'⟩ := hcases
    · exact .of_lt hglobals (.failing hc' hf' (.inl hcaused) hends.tail hhook') hless
    · exact .of_lt hglobals (.failing hc' hf' (.inr hfails) hends.tail hhook') hless
    · -- caught: the function has one more safepoint to come to
      have hends' : EndsAt (.script a .ready :: fs) rest := hends.tail.cons rfl
      refine .of_lt hglobals (.fetching hc' (by rw [hf']; rfl) hends' hhook') ?_
      simp only [load_cons, Frame.load]
      omega
  | _ => simp [Frame.isScript] at hscript

/-- The end of a function has a safepoint of its own. -/
private theorem nears_of_ending (code : Meaning κ τ ρ) (hc : m.control = .deliver (.ok []))
    (hf : m.frames = .call .body :: fs ++ rest) (hends : EndsAt fs rest)
    (hhook : m.interp.hook = (true, true, 1)) :
    m.Nears (m.step code) rest message cause (10 + load fs) := by
  have hstep : m.step code =
      { m with frames := .call (.leaving []) :: (fs ++ rest), control := .poll .ret } := by
    simp only [step, hc, deliver, hf]
    rfl
  rw [hstep]
  have hends' : EndsAt (.call (.leaving []) :: fs) rest := hends.cons rfl
  refine .of_lt rfl (.polling rfl (by rfl) hends' hhook) ?_
  simp only [load_cons, Frame.load]
  omega

/-- Each move of a machine whose scripts unwind brings the end nearer. An error on the way is one
that was there before, or that a protected call has made by failing to catch that one. -/
theorem unwinding_step (code : Meaning κ τ ρ) (h : m.Unwinding rest message cause left)
    (hleft : m.frames ≠ rest) (hfit : m.Fitting) (hn : Nested m.interp.depth m.frames)
    (hthreshold : m.mailbox.slot.threshold = 1) (hmask : m.mailbox.slot.mask = .armed)
    (hpending : m.mailbox.Pending message) (hcause : cause (.cancelled message)) :
    m.Nears (m.step code) rest message (fun e => cause e ∨ m.CatchFails e) left := by
  -- each stage has its own frames to go through, and the load of those that are left is less
  cases h with
  | fetching hc hf hends hhook => exact nears_of_fetching code hc hf hends hhook hfit
  | polling hc hf hends hhook =>
    exact nears_of_polling code hc hf hends hhook hthreshold hmask
  | raising h hends hhook => exact nears_of_raising code h hends hhook hpending
  | raised h hends hhook => exact nears_of_raised code h hends hhook (.inl hcause)
  | @failing above err hc hf hcaused hends hhook =>
    cases above with
    | nil => exact absurd hf hleft
    | cons f above => exact nears_of_failing code hc hf hcaused hends hhook hfit hn
  | ending hc hf hends hhook => exact nears_of_ending code hc hf hends hhook

end Machine

end Safepoint
