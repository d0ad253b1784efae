import Safepoint.Proofs.Machine.Work

/-!
# The moves of a machine

Everything that one step of a machine can do, as far as the mailbox, the hook and the frames of the
safepoint handler are concerned. `Move code m m'` lists the moves: a step of ordinary work, an
access to a syncpoint, an access to the mailbox by the interpreter's own host code, and the steps of
the handler one by one, from the poll that enters it to the return from the safepoint. `move_step`
says that each step is one of them, so that what a step keeps is shown move by move and no proof has
to open `Machine.step` again.

## Key results

- `move_step`: each step of a machine that counts every instruction is a move
- `fitting_move`: the frames go on to fit what is done next, so nothing ends that nothing waits for
-/

namespace Safepoint

variable {κ τ ρ : Type}

/-- Whether a machine is at a syncpoint. -/
def Control.atSyncpoint : Control κ τ ρ → Bool
  | .check .. | .arrive .. | .paused .. => true
  | _ => false

/-- Whoever waits for work that is held at a syncpoint may have it held there. -/
theorem Control.meetsSyncpoints_of_isFor {c : Control κ τ ρ} {w : Awaited}
    (hat : c.atSyncpoint = true) (h : c.isFor w = true) : w.meetsSyncpoints = true := by
  cases c <;> simp_all [atSyncpoint, isFor]

namespace Machine

/-- Every instruction makes a count event, and the next one is due. -/
structure Counting (m : Machine κ τ ρ) : Prop where
  countdown : m.interp.countdown = 1
  threshold : m.mailbox.slot.threshold = 1

/-- One step of ordinary work: it takes frames of its own off and pushes others, and leaves the
mailbox and the hook as they were. -/
structure Works (m m' : Machine κ τ ρ) : Prop where
  mailbox : m'.mailbox = m.mailbox
  hook : m'.interp.hook = m.interp.hook
  frames : ∃ popped pushed rest, (∀ f ∈ popped, f.isOrdinary) ∧ (∀ f ∈ pushed, f.isOrdinary) ∧
    m.frames = popped ++ rest ∧ m'.frames = pushed ++ rest
  nested : Nested m.interp.depth m.frames → Nested m'.interp.depth m'.frames
  fitting : m.Fitting → m'.Fitting
  control : m'.control.isOrdinary ∨ m'.frames = [] ∧ ∃ outcome, m'.control = .finished outcome

/-- What one step of a machine does. -/
inductive Move (code : Meaning κ τ ρ) : Machine κ τ ρ → Machine κ τ ρ → Prop where
  /-- Ordinary work goes on. -/
  | works {m m'} (h : Works m m') (control : m.control.isOrdinary)
      (delivers : ∀ outcome f rest, m.control = .deliver outcome → m.frames = f :: rest →
        f.isOrdinary)
      (posts : ∀ phase, m.control = .post phase → phase.ending?.isSome)
      (syncpoint : m.control.atSyncpoint = false) : Move code m m'
  /-- A syncpoint is checked. -/
  | synced {m points control} (at_ : m.control.atSyncpoint) (past : control.past = m.control.past)
      (ordinary : control.isOrdinary = m.control.isOrdinary) :
      Move code m { m with points, control }
  /-- The interpreter's own host code makes an access to the mailbox. -/
  | posted {m m' phase} (control : m.control = .post phase) (going : phase.ending? = none)
      (mailbox : m'.mailbox = (phase.step m.mailbox).1) (hook : m'.interp.hook = m.interp.hook)
      (depth : m'.interp.depth = m.interp.depth) (frames : m'.frames = m.frames)
      (past : m'.control.past = .post (phase.step m.mailbox).2.1)
      (ordinary : m'.control.isOrdinary) : Move code m m'
  /-- An armed safepoint enters the hook. -/
  | dispatched {m m' event} (control : m.control = .poll event)
      (armed : m.mailbox.slot.mask.isEmpty = false) (allowed : m.interp.hookAllowed = true)
      (installed : m.interp.hookInstalled = true) (mailbox : m'.mailbox = m.mailbox)
      (hook : m'.interp.hook = (false, false, 1)) (depth : m'.interp.depth = m.interp.depth)
      (frames : m'.frames = .dispatch :: m.frames)
      (handles : m'.control = .handle .enter ⟨event, m.interp.depth⟩) : Move code m m'
  | entered {m info} (control : m.control = .handle .enter info) :
      Move code m ({ m with mailbox := m.mailbox.countInvocation }.goto
        (.check .hookBeforeCancelCheck (.handle .readFlag info)))
  | flagRead {m info} (control : m.control = .handle .readFlag info) :
      Move code m (m.goto (.handle (if m.mailbox.cancelFlag then .readMessage else .disarm) info))
  /-- A cancellation is raised. -/
  | raised {m info message} (control : m.control = .handle .readMessage info)
      (stored : m.mailbox.cancelMessage = some message) :
      Move code m ((m.note (.raisingCancellation info)).raise (.cancelled message))
  /-- The flag was a false alarm, and is lowered. -/
  | lowered {m info} (control : m.control = .handle .readMessage info)
      (none_ : m.mailbox.cancelMessage = none) :
      Move code m ({ m with mailbox := m.mailbox.storeFlag false }.goto (.handle .disarm info))
  | disarmed {m info} (control : m.control = .handle .disarm info) :
      Move code m ({ m with mailbox := m.mailbox.disarm }.goto
        (.check .hookAfterDisarm (.handle .acquire info)))
  | acquired {m info} (control : m.control = .handle .acquire info)
      (free : m.mailbox.draining = false) :
      Move code m ({ m with mailbox := m.mailbox.storeDraining true }.goto
        (.drain (.mailbox info.event) 0))
  /-- A pass over the mailbox is already under way. -/
  | reentered {m info} (control : m.control = .handle .acquire info)
      (busy : m.mailbox.draining = true) :
      Move code m ({ m with mailbox := m.mailbox.storeDraining true }.raise
        (.configuration "interjection drain re-entered from its own hook"))
  /-- The next action of a pass begins. -/
  | popped {m event ran action rest} (control : m.control = .drain (.mailbox event) ran)
      (queue : m.mailbox.queue = action :: rest) :
      Move code m ({ m with mailbox := { m.mailbox with queue := rest } }.await
        (.pass (.mailbox event) ran) (.run [] (code action [])))
  /-- A pass finds the queue empty. -/
  | drained {m event ran} (control : m.control = .drain (.mailbox event) ran)
      (queue : m.mailbox.queue = []) :
      Move code m ((m.note (.drained event ran)).goto (.unmark (.ok [])))
  /-- An action of a pass has returned. -/
  | ended {m m' event ran outcome rest} (control : m.control = .deliver outcome)
      (frames : m.frames = .pass (.mailbox event) ran :: rest) (mailbox : m'.mailbox = m.mailbox)
      (hook : m'.interp.hook = m.interp.hook) (depth : m'.interp.depth = m.interp.depth)
      (frames' : m'.frames = rest)
      (settles : m'.control = .check .drainAfterAction (.settle (.mailbox event) ran outcome)) :
      Move code m m'
  | succeeded {m event ran results}
      (control : m.control = .settle (.mailbox event) ran (.ok results)) :
      Move code m (m.goto (.drain (.mailbox event) (ran + 1)))
  | failed {m event ran e} (control : m.control = .settle (.mailbox event) ran (.error e)) :
      Move code m (m.goto (.measure e))
  /-- A failed pass has left actions in the queue. -/
  | measured {m e} (control : m.control = .measure e) (queue : m.mailbox.queue ≠ []) :
      Move code m (m.goto (.rearm e m.mailbox.queue.length))
  /-- A failed pass has left no action in the queue. -/
  | emptied {m e} (control : m.control = .measure e) (queue : m.mailbox.queue = []) :
      Move code m (m.goto (.tell e 0))
  | rearmed {m e remaining} (control : m.control = .rearm e remaining) :
      Move code m ({ m with mailbox := m.mailbox.arm }.goto (.tell e remaining))
  | told {m e remaining} (control : m.control = .tell e remaining) :
      Move code m ((m.note (.actionFailed e remaining)).goto (.unmark (.error e)))
  | unmarked {m outcome} (control : m.control = .unmark outcome) :
      Move code m ({ m with mailbox := m.mailbox.storeDraining false }.goto (.deliver outcome))
  /-- The safepoint is over. -/
  | returned {m outcome rest} (control : m.control = .deliver outcome)
      (frames : m.frames = .dispatch :: rest) :
      Move code m
        { m with
          frames := rest
          interp := { m.interp with hookInstalled := true, hookAllowed := true }
          control := .deliver outcome }
  /-- Nothing is left to do. -/
  | rested {m outcome} (control : m.control = .finished outcome) : Move code m m

variable {m m' : Machine κ τ ρ} {w : Awaited}

/-- The interpreter's own host code has no call in flight of which the next access is to be made. -/
def PostsNothing (m : Machine κ τ ρ) : Prop :=
  ∀ p, m.control = .post p → p.ending?.isSome = true

/-- Whoever posts nothing has no call in flight. -/
theorem PostsNothing.not_going {p : HostPhase κ} (h : m.PostsNothing) (hc : m.control = .post p) :
    p.ending? ≠ none :=
  Option.isSome_iff_ne_none.mp (h p hc)

/-! ## Frames that fit -/

/-- The frames wait for what is done next, if it is for nobody else. -/
theorem Fitting.waits {c : Control κ τ ρ} (h : m.Fitting) (hc : m.control = c)
    (hw : ∀ w', c.isFor w' = true → w' = w) : Waits w m.frames := by
  obtain ⟨w', hfor, hwaits⟩ := h
  rw [hc] at hfor
  exact hw w' hfor ▸ hwaits

/-- Below the frame on top, the frames wait for what it is part of. -/
theorem Fitting.waits_below {f : Frame κ τ ρ} {rest : List (Frame κ τ ρ)} (h : m.Fitting)
    (hf : m.frames = f :: rest) : Waits f.partOf rest := by
  obtain ⟨w', -, hwaits⟩ := h
  rw [hf] at hwaits
  exact hwaits.2

/-- A script function at work waits for no outcome. -/
theorem Fitting.await_ne_ready (h : m.Fitting) {outcome : Outcome κ} {a : Activation κ}
    {await : Await κ} {rest : List (Frame κ τ ρ)} (hc : m.control = .deliver outcome)
    (hf : m.frames = .script a await :: rest) : await ≠ .ready := by
  rintro rfl
  obtain ⟨w, hfor, hw⟩ := h
  rw [hf] at hw
  rw [hc] at hfor
  cases w <;> simp_all [Waits, Frame.waitsFor, Control.isFor]

/-! ## Ordinary work as a step -/

/-- Work that leaves the frames that wait for it alone is ordinary work. -/
theorem Ordinary.works (h : Ordinary w m m') (hw : m.Fitting → Waits w m.frames) : Works m m' where
  mailbox := h.mailbox
  hook := h.hook
  frames := by
    obtain ⟨pushed, hpushed, hframes⟩ := h.frames
    exact ⟨[], pushed, m.frames, by simp, hpushed, rfl, hframes⟩
  nested := h.nested
  fitting hm := h.fitting (hw hm)
  control := .inl h.control

/-- Work that goes on in place of the frame on top. -/
theorem Ordinary.works_of_top {f : Frame κ τ ρ} {rest : List (Frame κ τ ρ)}
    (above : List (Frame κ τ ρ))
    (hf : m.frames = f :: rest) (hord : f.isOrdinary = true) (habove : ∀ g ∈ above, g.isOrdinary)
    (hn : Nested m.interp.depth m.frames → Nested m.interp.depth (above ++ rest))
    (hw : Waits f.partOf rest → Waits w (above ++ rest))
    (h : Ordinary w { m with frames := above ++ rest } m') : Works m m' where
  mailbox := h.mailbox
  hook := h.hook
  frames := by
    obtain ⟨pushed, hpushed, hframes⟩ := h.frames
    -- the frame on top is taken off, and what comes in its place stands below what is pushed
    refine ⟨[f], pushed ++ above, rest, by simpa using hord, ?_, by simpa using hf,
      by simpa using hframes⟩
    intro g hg
    rcases List.mem_append.mp hg with hg | hg
    · exact hpushed g hg
    · exact habove g hg
  nested hm := h.nested (hn hm)
  fitting hm := h.fitting (hw (hm.waits_below hf))
  control := .inl h.control

/-- To do nothing is ordinary work, where ordinary work is to be done. -/
theorem Works.refl (h : m.control.isOrdinary = true) : Works m m :=
  ⟨rfl, rfl, ⟨[], [], m.frames, by simp, by simp, rfl, rfl⟩, id, id, .inl h⟩

/-- What nothing waits for does not come up where the frames fit. -/
private theorem works_stray (hnot : ¬ m.Fitting) : Works m (m.goto (.fault .stray)) :=
  ⟨rfl, rfl, ⟨[], [], m.frames, by simp, by simp, rfl, rfl⟩, id, fun h => absurd h hnot, .inl rfl⟩

/-! ## Calls that end -/

/-- A call that ends is counted no more. -/
private theorem works_exitCall {stage : Stage κ} {rest : List (Frame κ τ ρ)} (outcome : Outcome κ)
    (hf : m.frames = .call stage :: rest) :
    Works m (exitCall { m with frames := rest } outcome) := by
  unfold exitCall
  split
  next h =>
    refine ⟨rfl, rfl, ⟨[.call stage], [], rest, by simp [Frame.isOrdinary], by simp,
      by simpa using hf, rfl⟩, ?_, fun hfit => ⟨.call, rfl, hfit.waits_below hf⟩, .inl rfl⟩
    -- the count of the calls in progress cannot be zero, as one has just ended
    intro hn
    obtain ⟨below, hdepth, _⟩ : Nested m.interp.depth (.call stage :: rest) := hf ▸ hn
    have h : m.interp.depth = 0 := h
    omega
  next depth h =>
    refine ⟨rfl, rfl, ⟨[.call stage], [], rest, by simp [Frame.isOrdinary], by simp,
      by simpa using hf, rfl⟩, ?_, fun hfit => ⟨.call, rfl, hfit.waits_below hf⟩, .inl rfl⟩
    intro hn
    obtain ⟨below, hdepth, hrest⟩ : Nested m.interp.depth (.call stage :: rest) := hf ▸ hn
    have h : m.interp.depth = depth + 1 := h
    obtain rfl : below = depth := by omega
    exact hrest

/-- A call lets go of values before it ends. -/
private theorem works_releaseAll_exitCall {stage : Stage κ} {rest : List (Frame κ τ ρ)}
    (vs : List (Value κ)) (outcome : Outcome κ) (hf : m.frames = .call stage :: rest) :
    Works m ((releaseAll { m with frames := rest } vs).exitCall outcome) := by
  have h : Works (m.releaseAll vs) _ := works_exitCall outcome hf
  exact ⟨h.mailbox, h.hook, h.frames, h.nested, h.fitting, h.control⟩

/-- Another stage of a call is as deep as the stage before. -/
private theorem nested_stage {stage stage' : Stage κ} {rest : List (Frame κ τ ρ)}
    (hf : m.frames = .call stage :: rest) (hn : Nested m.interp.depth m.frames) :
    Nested m.interp.depth ([.call stage'] ++ rest) := by
  rw [hf] at hn
  exact hn

/-- A call goes on from stage to stage, and ends. -/
private theorem works_deliverCall (code : Meaning κ τ ρ) {stage : Stage κ}
    {rest : List (Frame κ τ ρ)} (outcome : Outcome κ) (hf : m.frames = .call stage :: rest) :
    Works m (deliverCall code { m with frames := rest } stage outcome) := by
  unfold deliverCall
  split
  · -- past its call safepoint, the function is entered
    exact (ordinary_enter code _ _ _).works_of_top [.call .body] hf rfl
      (by simp [Frame.isOrdinary]) (nested_stage hf) fun hw => ⟨rfl, hw⟩
  · exact works_releaseAll_exitCall _ _ hf
  · -- the function has returned, and comes to its return safepoint
    exact (ordinary_goto (w := .safepoint) { m with frames := _ :: rest } rfl rfl).works_of_top
      [.call (.leaving _)] hf rfl (by simp [Frame.isOrdinary]) (nested_stage hf) fun hw => ⟨rfl, hw⟩
  · exact works_exitCall _ hf
  · exact works_exitCall _ hf
  · exact works_releaseAll_exitCall _ _ hf

/-! ## Outcomes -/

/-- An outcome is handed to ordinary work, unless the handler waits for it. -/
private theorem works_deliver (code : Meaning κ τ ρ) {outcome : Outcome κ}
    (hc : m.control = .deliver outcome) (htop : ∀ f rest, m.frames = f :: rest → f.isOrdinary) :
    Works m (m.deliver code outcome) := by
  unfold deliver
  split
  next hf =>
    -- the embedder's own host code has ended
    have hfit (h : m.Fitting) : Fitting { m with control := .finished outcome } := by
      obtain ⟨w, -, hw⟩ := h
      exact ⟨w, by rw [hf] at hw; rw [hw]; rfl, hw⟩
    exact ⟨rfl, rfl, ⟨[], [], m.frames, by simp, by simp, rfl, rfl⟩, id, hfit,
      .inr ⟨hf, outcome, rfl⟩⟩
  next frame rest hf =>
    have hord := htop _ _ hf
    dsimp only
    split
    next stage => exact works_deliverCall code outcome hf
    next a await =>
      by_cases hready : await = .ready
      · subst hready
        -- a script function at work waits for no outcome
        refine ⟨rfl, rfl, ⟨[_], [], rest, by simpa using hord, by simp, hf, rfl⟩,
          by rw [hf]; exact id, fun hfit => ?_, .inl rfl⟩
        exact absurd rfl (hfit.await_ne_ready hc hf)
      · exact (ordinary_deliverScript _ a outcome hready).works_of_top [] hf rfl (by simp)
          (by rw [hf]; exact id) id
    next held next =>
      have hn : Nested m.interp.depth m.frames → Nested m.interp.depth ([] ++ rest) := by
        rw [hf]; exact id
      split
      · exact (ordinary_goto _ rfl rfl).works_of_top [] hf rfl (by simp) hn id
      · exact (ordinary_goto _ rfl rfl).works_of_top [] hf rfl (by simp) hn id
    next top depth =>
      -- a protected call of the embedder ends: its error becomes a reply
      have hn : Nested m.interp.depth m.frames → Nested m.interp.depth ([] ++ rest) := by
        rw [hf]; exact fun h => h.2
      split
      · exact (ordinary_goto _ rfl rfl).works_of_top [] hf rfl (by simp) hn id
      · split
        · exact (ordinary_goto _ rfl rfl).works_of_top [] hf rfl (by simp) hn id
        · exact (((silent_truncate _ top).trans (silent_mapStore _ _)).ordinary
            (ordinary_raise (w := .reply) _ _ (by decide))).works_of_top [] hf rfl (by simp) hn id
    next => simp [Frame.isOrdinary] at hord
    next source ran =>
      cases source with
      | mailbox event => simp [Frame.isOrdinary] at hord
      | queue id =>
        have hn : Nested m.interp.depth m.frames → Nested m.interp.depth ([] ++ rest) := by
          rw [hf]; exact fun h => h
        cases outcome with
        | ok vs =>
          exact ((silent_mapStore _ _).ordinary (ordinary_goto _ rfl rfl)).works_of_top []
            hf rfl (by simp) hn fun hw => hw
        | error e =>
          exact (ordinary_goto _ rfl rfl).works_of_top [] hf rfl (by simp) hn fun hw => hw

/-- Where the frames fit, a reply finds host code that waits for it. -/
private theorem works_reply {r : Reply κ} (hc : m.control = .reply r) : Works m (m.reply r) := by
  unfold reply
  split
  next held next rest hf =>
    exact (ordinary_goto _ rfl rfl).works_of_top [] hf rfl (by simp)
      (by rw [hf]; exact id) id
  next hother =>
    apply works_stray
    -- no other frame waits for a reply
    intro hfit
    have hw := hfit.waits (w := .reply) hc (by simp [Control.isFor])
    cases hf : m.frames with
    | nil => simp [hf, Waits] at hw
    | cons f rest => cases f <;> simp_all [Waits, Frame.waitsFor]

/-- Where the frames fit, a script function that is to go on is on top. -/
private theorem not_fitting_of_script {c : Control κ τ ρ} (hc : m.control = c)
    (hfor : ∀ w, c.isFor w = true → w = .script)
    (hother : ∀ a rest, m.frames ≠ .script a .ready :: rest) : ¬ m.Fitting := by
  intro hfit
  have hw := hfit.waits hc hfor
  -- the frame on top waits for a script, but it is not that of a script at work
  match hf : m.frames with
  | [] => simp [hf, Waits] at hw
  | .script a await :: rest => cases await <;> simp_all [Waits, Frame.waitsFor]
  | .call stage :: rest => cases stage <;> simp_all [Waits, Frame.waitsFor]
  | .host .. :: rest | .boundary .. :: rest | .dispatch :: rest | .pass .. :: rest =>
    simp_all [Waits, Frame.waitsFor]

/-- The script on top goes on, in place of its own frame. -/
private theorem works_script {a : Activation κ} {await : Await κ} {rest : List (Frame κ τ ρ)}
    (hf : m.frames = .script a await :: rest) (h : Ordinary .body { m with frames := rest } m') :
    Works m m' :=
  h.works_of_top [] hf rfl (by simp) (by rw [hf]; exact id) id

/-! ## Polls and posts -/

/-- Where every instruction counts, counting down changes nothing. -/
private theorem hook_countdown (hcount : m.Counting) {n : Nat} (hn : n = 1) :
    ({ m.interp with countdown := n } : Interpreter κ).hook = m.interp.hook := by
  simp [Interpreter.hook, hcount.countdown, hn]

/-- A safepoint is polled for a frame that waits for it. -/
theorem Fitting.waits_safepoint {event : HookEvent} (h : m.Fitting) (hc : m.control = .poll event) :
    Waits .safepoint m.frames :=
  h.waits hc (by simp [Control.isFor])

/-- A safepoint passes, or enters the handler. -/
private theorem move_dispatch (code : Meaning κ τ ρ) {event : HookEvent}
    (hcount : m.Counting) (hc : m.control = .poll event)
    (hmask : m.mailbox.slot.mask.isEmpty = false) {n : Nat} (hn : n = 1) :
    Move code m (dispatch { m with interp := { m.interp with countdown := n } } event) := by
  have passed : Move code m (proceed { m with interp := { m.interp with countdown := n } }) :=
    .works ⟨rfl, hook_countdown hcount hn, ⟨[], [], m.frames, by simp, by simp, rfl, rfl⟩, id,
      fun hfit => ⟨.safepoint, rfl, hfit.waits_safepoint hc⟩, .inl rfl⟩
      (by simp [hc, Control.isOrdinary]) (by simp [hc]) (by simp [hc])
      (by simp [hc, Control.atSyncpoint])
  unfold dispatch
  split
  · exact passed
  next ha =>
    -- the hook may be entered, and is taken out of its slot
    split
    · exact passed
    next hi =>
      refine .dispatched hc hmask (by simpa using ha) (by simpa using hi) rfl ?_ rfl rfl rfl
      simp [Interpreter.hook, await, hn]

/-- A safepoint of an armed hook may enter it, and any other one passes. -/
private theorem move_poll (code : Meaning κ τ ρ) {event : HookEvent} (hcount : m.Counting)
    (hc : m.control = .poll event) : Move code m (m.poll event) := by
  have passed : Move code m m.proceed :=
    .works ((ordinary_goto m rfl rfl).works fun hfit => hfit.waits_safepoint hc)
      (by simp [hc, Control.isOrdinary]) (by simp [hc]) (by simp [hc])
      (by simp [hc, Control.atSyncpoint])
  unfold poll
  dsimp only
  split
  · exact passed
  next hmask =>
    split
    · exact passed
    · have hmask : m.mailbox.slot.mask.isEmpty = false := by simpa using hmask
      -- only a count event counts down, to nothing left, and starts again from the threshold
      have same := move_dispatch code hcount hc hmask hcount.countdown
      cases event with
      | count =>
        dsimp only
        rw [if_neg (by simp [hcount.countdown])]
        exact move_dispatch code hcount hc hmask hcount.threshold
      | call => exact same
      | ret => exact same

/-- A call of host code is over, or makes the access of its phase. -/
private theorem move_post (code : Meaning κ τ ρ) {phase : HostPhase κ}
    (hc : m.control = .post phase) : Move code m (m.post phase) := by
  have works {m'} (hm : Ordinary .reply m m') (hend : phase.ending?.isSome) : Move code m m' :=
    .works (hm.works fun hfit => hfit.waits hc (by simp [Control.isFor]))
      (by simp [hc, Control.isOrdinary]) (by simp [hc]) (by simpa [hc] using hend)
      (by simp [hc, Control.atSyncpoint])
  unfold post
  split
  next h => exact works (ordinary_goto m rfl rfl) (by simp [h])
  next h => exact works (ordinary_goto m rfl rfl) (by simp [h])
  next h =>
    -- the call goes on: it makes an access, and may come to a syncpoint
    have hs := silent_notes { m with mailbox := (phase.step m.mailbox).1 }
      (phase.step m.mailbox).2.2
    dsimp only
    split
    · exact .posted hc h hs.mailbox hs.hook hs.depth hs.frames rfl rfl
    · exact .posted hc h hs.mailbox hs.hook hs.depth hs.frames rfl rfl

/-! ## Syncpoints -/

/-- A check of a syncpoint touches the syncpoint only. -/
private theorem move_checking (code : Meaning κ τ ρ) (m : Machine κ τ ρ) (point : TestPoint)
    (phase : Syncpoint.Checking) (next : Control κ τ ρ) (hs : m.control.atSyncpoint = true)
    (hpast : m.control.past = next.past) (hord : m.control.isOrdinary = next.isOrdinary) :
    Move code m (m.checking point phase next) := by
  unfold checking
  dsimp only
  split
  all_goals exact .synced hs (by simp [hpast, Control.past]) (by simp [hord, Control.isOrdinary])

/-- A check goes on, or stops at a syncpoint that is armed. -/
theorem step_of_check (code : Meaning κ τ ρ) {point : TestPoint} {c : Control κ τ ρ}
    (hc : m.control = .check point c) :
    ∃ points control, m.step code = { m with points, control } ∧
      control = if (m.points.get point).armed then .arrive point c else c := by
  simp only [step, hc, checking, Syncpoint.Checking.step]
  cases (m.points.get point).armed <;> exact ⟨_, _, rfl, rfl⟩

/-- At an armed syncpoint the thread arrives, and stays. -/
theorem step_of_arrive (code : Meaning κ τ ρ) {point : TestPoint} {c : Control κ τ ρ}
    (hc : m.control = .arrive point c) :
    ∃ points, m.step code = { m with points, control := .paused point c } := by
  simp only [step, hc, checking, Syncpoint.Checking.step]
  exact ⟨_, rfl⟩

/-- A thread that is stopped at a syncpoint goes on once it is released. -/
theorem step_of_paused (code : Meaning κ τ ρ) {point : TestPoint} {c : Control κ τ ρ}
    (hc : m.control = .paused point c) :
    ∃ points control, m.step code = { m with points, control } ∧
      control = if (m.points.get point).released then c else .paused point c := by
  simp only [step, hc, checking, Syncpoint.Checking.step]
  cases (m.points.get point).released <;> exact ⟨_, _, rfl, rfl⟩

/-! ## The handler -/

/-- The handler goes on phase by phase. -/
private theorem move_handle (code : Meaning κ τ ρ) {phase : HandlerPhase} {info : HookInfo}
    (hc : m.control = .handle phase info) : Move code m (m.handle phase info) := by
  cases phase with
  | enter => exact .entered hc
  | readFlag => exact .flagRead hc
  | readMessage =>
    simp only [handle]
    cases hm : m.mailbox.cancelMessage with
    | none => simpa [Mailbox.readMessage_of_none hm] using Move.lowered hc hm
    | some message => simpa [Mailbox.readMessage_of_some hm] using Move.raised hc hm
  | disarm => exact .disarmed hc
  | acquire =>
    simp only [handle]
    cases hd : m.mailbox.draining with
    | false => exact .acquired hc hd
    | true => exact .reentered hc hd

/-- A pass over the mailbox runs its next action, or is over. -/
private theorem move_drain (code : Meaning κ τ ρ) {event : HookEvent} {ran : Nat}
    (hc : m.control = .drain (.mailbox event) ran) :
    Move code m (m.drain code (.mailbox event) ran) := by
  simp only [drain]
  cases hq : m.mailbox.queue with
  | nil => simpa [Mailbox.pop?_of_nil hq] using Move.drained hc hq
  | cons action rest => simpa [Mailbox.pop?_of_cons hq] using Move.popped hc hq

/-- A failed pass looks whether the hook is to be armed anew. -/
private theorem move_measure (code : Meaning κ τ ρ) {e : Error} (hc : m.control = .measure e) :
    Move code m (m.measure e) := by
  unfold measure
  cases hq : m.mailbox.queue with
  | nil => exact .emptied hc hq
  | cons action rest => simpa [hq] using Move.measured hc (by simp [hq])

/-- The return of an action is seen at its syncpoint, and what it returned is let go. -/
private theorem move_deliver_pass (code : Meaning κ τ ρ) {outcome : Outcome κ} {event : HookEvent}
    {ran : Nat} {rest : List (Frame κ τ ρ)} (hc : m.control = .deliver outcome)
    (hf : m.frames = .pass (.mailbox event) ran :: rest) :
    Move code m (m.deliver code outcome) := by
  unfold deliver
  rw [hf]
  cases outcome with
  | ok vs => exact .ended hc hf rfl rfl rfl rfl rfl
  | error e => exact .ended hc hf rfl rfl rfl rfl rfl

/-- An outcome is for ordinary work, for a pass, or for the safepoint. -/
private theorem move_deliver (code : Meaning κ τ ρ) {outcome : Outcome κ}
    (hc : m.control = .deliver outcome) : Move code m (m.deliver code outcome) := by
  -- where the frame on top is ordinary, so is the work
  have works (htop : ∀ f rest, m.frames = f :: rest → f.isOrdinary = true) :
      Move code m (m.deliver code outcome) :=
    .works (works_deliver code hc htop) (by simp [hc, Control.isOrdinary])
      (fun _ f rest _ => htop f rest) (by simp [hc]) (by simp [hc, Control.atSyncpoint])
  cases hf : m.frames with
  | nil => exact works (by simp [hf])
  | cons f rest =>
    cases hord : f.isOrdinary with
    | true =>
      apply works
      intro g above hg
      obtain ⟨rfl, _⟩ : f = g ∧ rest = above := by simpa [hf] using hg
      exact hord
    | false =>
      -- only the handler waits in frames that are not ordinary: the safepoint and its pass
      match f, hord with
      | .dispatch, _ =>
        unfold deliver
        rw [hf]
        exact .returned hc hf
      | .pass (.mailbox event) ran, _ => exact move_deliver_pass code hc hf

/-! ## One step -/

/-- Whether what is done next is ordinary work whatever the frames are, and no access to the mailbox
nor to a syncpoint. -/
private def isPlain : Control κ τ ρ → Bool
  | .invoke .. | .drain (.queue _) _ | .settle (.queue _) .. | .fetch | .execute _ | .run ..
  | .reply _ | .waiting .. | .fault _ => true
  | _ => false

/-- Work that is plain touches no mailbox, hands nothing to the handler, and is at no syncpoint. -/
private theorem move_of_plain (code : Meaning κ τ ρ) {c : Control κ τ ρ} (hc : m.control = c)
    (hplain : isPlain c = true) (h : Works m m') : Move code m m' := by
  -- each condition of ordinary work excludes a control that is not plain
  apply Move.works h
  · rw [hc]
    unfold isPlain at hplain
    split at hplain <;> first | rfl | exact absurd hplain (by simp)
  · intro outcome f rest hdeliver
    rw [← hc, hdeliver] at hplain
    exact absurd hplain (by simp [isPlain])
  · intro phase hpost
    rw [← hc, hpost] at hplain
    exact absurd hplain (by simp [isPlain])
  · rw [hc]
    unfold isPlain at hplain
    split at hplain <;> first | rfl | exact absurd hplain (by simp)

/-- Ordinary work that takes no frame off is done for those who wait for it. -/
private theorem move_of_ordinary (code : Meaning κ τ ρ) {c : Control κ τ ρ} (hc : m.control = c)
    (hplain : isPlain c = true) (h : Ordinary w m m') (hw : ∀ w', c.isFor w' = true → w' = w) :
    Move code m m' :=
  move_of_plain code hc hplain (h.works fun hfit => hfit.waits hc hw)

/-- Each step of a machine is a move. -/
theorem move_step (code : Meaning κ τ ρ) (m : Machine κ τ ρ) (hcount : m.Counting) :
    Move code m (m.step code) := by
  -- what is done next tells the move; only what is for the handler is more than ordinary work
  cases hc : m.control <;> simp only [step, hc]
  case invoke f args =>
    exact move_of_ordinary code hc rfl (ordinary_invoke m f args) (by simp [Control.isFor])
  case poll event => exact move_poll code hcount hc
  case handle phase info => exact move_handle code hc
  case drain source ran =>
    cases source with
    | mailbox event => exact move_drain code hc
    | queue id =>
      exact move_of_ordinary code hc rfl (ordinary_drain_queue code m id ran)
        (by simp [Control.isFor])
  case settle source ran outcome =>
    cases source with
    | mailbox event =>
      cases outcome with
      | ok results => exact .succeeded hc
      | error e => exact .failed hc
    | queue id =>
      exact move_of_ordinary code hc rfl (ordinary_settle_queue m id ran outcome)
        (by simp [Control.isFor])
  case measure e => exact move_measure code hc
  case rearm e remaining => exact .rearmed hc
  case tell e remaining => exact .told hc
  case unmark outcome => exact .unmarked hc
  case fetch =>
    apply move_of_plain code hc rfl
    split
    next a rest hf => exact works_script hf (ordinary_fetch _ a)
    next hother => exact works_stray (not_fitting_of_script hc (by simp [Control.isFor]) hother)
  case execute i =>
    apply move_of_plain code hc rfl
    split
    next a rest hf =>
      have h := goes_execute { m with frames := rest, control := .execute i } a i
      exact works_script hf (Goes.ordinary ⟨h.mailbox, h.hook, h.depth, h.way⟩)
    next hother => exact works_stray (not_fitting_of_script hc (by simp [Control.isFor]) hother)
  case run held p =>
    exact move_of_ordinary code hc rfl (ordinary_runProgram m held p) (by simp [Control.isFor])
  case post phase => exact move_post code hc
  case reply r => exact move_of_plain code hc rfl (works_reply hc)
  case deliver outcome => exact move_deliver code hc
  -- a thread at a syncpoint only looks at the syncpoint
  case check point next =>
    exact move_checking code m point .swapArmed next (by rw [hc]; rfl) (by rw [hc]; rfl)
      (by rw [hc]; rfl)
  case arrive point next =>
    exact move_checking code m point .raiseArrived next (by rw [hc]; rfl) (by rw [hc]; rfl)
      (by rw [hc]; rfl)
  case paused point next =>
    exact move_checking code m point .poll next (by rw [hc]; rfl) (by rw [hc]; rfl)
      (by rw [hc]; rfl)
  -- nothing moves by itself from here on
  case finished outcome => exact .rested hc
  case waiting x given held next => exact move_of_plain code hc rfl (.refl (by rw [hc]; rfl))
  case fault f => exact move_of_plain code hc rfl (.refl (by rw [hc]; rfl))

/-! ## Frames fit from move to move -/

/-- Where the frames fit what is done next, they go on to do so. -/
theorem fitting_move {code : Meaning κ τ ρ} (h : Move code m m') (hfit : m.Fitting) :
    m'.Fitting := by
  cases h with
  | works h => exact h.fitting hfit
  | @synced points control hat hpast =>
    -- what is awaited at a syncpoint is the same before and after
    obtain ⟨w, hfor, hw⟩ := hfit
    have hmeets := Control.meetsSyncpoints_of_isFor hat hfor
    refine ⟨w, ?_, hw⟩
    show control.isFor w = true
    rw [← Control.isFor_past _ hmeets, hpast, Control.isFor_past _ hmeets]
    exact hfor
  -- a call that is in flight is waited for by the host code that made it
  | posted hc _ _ _ _ hframes hpast =>
    have hw := hfit.waits (w := .reply) hc (by simp [Control.isFor])
    refine ⟨.reply, ?_, hframes ▸ hw⟩
    rw [← Control.isFor_past _ rfl, hpast]
    rfl
  | dispatched hc _ _ _ _ _ _ hframes hhandles =>
    refine ⟨.handler, by rw [hhandles]; rfl, ?_⟩
    rw [hframes]
    exact ⟨rfl, hfit.waits_safepoint hc⟩
  | popped hc =>
    exact ⟨.program, rfl, rfl, hfit.waits (w := .handler) hc (by simp [Control.isFor])⟩
  | ended _ hf _ _ _ hframes hsettles =>
    refine ⟨.handler, by rw [hsettles]; rfl, ?_⟩
    rw [hframes]
    exact hfit.waits_below hf
  | returned _ hf => exact ⟨.safepoint, rfl, hfit.waits_below hf⟩
  | rested => exact hfit
  -- the handler goes on at its own work
  | entered hc | flagRead hc | raised hc | lowered hc | disarmed hc | acquired hc | reentered hc
  | drained hc | succeeded hc | failed hc | measured hc | emptied hc | rearmed hc | told hc
  | unmarked hc =>
    exact ⟨.handler, rfl, hfit.waits (w := .handler) hc (by simp [Control.isFor])⟩

end Machine

end Safepoint
