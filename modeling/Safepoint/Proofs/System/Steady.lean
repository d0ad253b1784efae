import Safepoint.Proofs.Machine.Layout
import Safepoint.Proofs.System.Invariant

/-!
# What every machine keeps to

`Machine.Steady` collects what is true of an interpreter at work whether or not it has a hook: every
instruction makes a count event, the frames keep count of the calls in progress, fit what is done
next and find the interpreter as they left it, what comes out of a safepoint brings no values, and a
drain pass is marked exactly while it is under way. Nothing that cannot happen happens to a steady
machine, and a step leaves it steady.

## Key results

- `Machine.steady_step`: a steady machine stays steady
- `Machine.Steady.draining_eq`: whether a drain pass is marked can be read off the frames
- `Life.steady`: an interpreter is steady all its life, with handles or without
-/

namespace Safepoint

variable {κ τ ρ : Type}

/-- The values that are brought to what waits. -/
def Control.brings : Control κ τ ρ → List (Value κ)
  | .deliver (.ok vs) | .unmark (.ok vs) => vs
  | .check _ c | .arrive _ c | .paused _ c => c.brings
  | _ => []

/-- What the frame on top waits for is one thing, save that the body of a function may be host
code. -/
theorem Waits.safepoint_or_handler {w : Awaited} {fs : List (Frame κ τ ρ)} (hw : Waits w fs)
    (h : Waits .safepoint fs ∨ Waits .handler fs) : w = .safepoint ∨ w = .handler := by
  cases fs with
  | nil => simp [Waits] at h
  | cons f rest =>
    have htop : f.waitsFor w = true := hw.1
    have hf : f.waitsFor .safepoint = true ∨ f.waitsFor .handler = true := by
      rcases h with h | h
      · exact .inl h.1
      · exact .inr h.1
    -- the two kinds that wait for a safepoint, and the two of the handler, wait for nothing else
    cases f with
    | call stage => cases stage <;> cases w <;> simp_all [Frame.waitsFor]
    | script a wait => cases wait <;> cases w <;> simp_all [Frame.waitsFor]
    | _ => cases w <;> simp_all [Frame.waitsFor]

/-- What waits for the safepoint handler is a safepoint that has entered the hook. -/
theorem Waits.of_handler {fs : List (Frame κ τ ρ)} (h : Waits .handler fs) :
    ∃ rest, fs = .dispatch :: rest := by
  match fs, h with
  | [], h => exact nomatch h
  | .dispatch :: rest, _ => exact ⟨rest, rfl⟩

/-- Where no safepoint has entered the hook, there is no drain pass over the mailbox. -/
theorem Waits.no_pass {w : Awaited} {fs : List (Frame κ τ ρ)} (hw : Waits w fs)
    (h : .dispatch ∉ fs) : fs.any Frame.isPass = false := by
  induction fs generalizing w with
  | nil => rfl
  | cons f fs ih =>
    obtain ⟨-, hbelow⟩ := hw
    have hnot : .dispatch ∉ fs := fun hmem => h (List.mem_cons_of_mem _ hmem)
    have hf : f.isPass = false := by
      match f with
      | .pass (.mailbox _) _ =>
        -- a pass is part of the handler, which a safepoint below waits for
        obtain ⟨rest, rfl⟩ := hbelow.of_handler
        exact absurd List.mem_cons_self hnot
      | .pass (.queue _) _ | .call _ | .script .. | .host .. | .boundary .. | .dispatch => rfl
    rw [List.any_cons, hf, ih hbelow hnot]
    rfl

namespace Machine

/-- What comes to a safepoint, or out of its handler, brings no values. -/
def Quiet (m : Machine κ τ ρ) : Prop :=
  Waits .safepoint m.frames ∨ Waits .handler m.frames → m.control.brings = []

/-- A drain pass over the mailbox is marked exactly while it is under way. -/
def Marked (m : Machine κ τ ρ) : Prop :=
  m.mailbox.draining = (m.frames.any Frame.isPass || m.control.past.marked? == some true)

/-- What is true of every machine that is used as it should be. -/
structure Steady (m : Machine κ τ ρ) : Prop where
  counting : m.Counting
  nested : Nested m.interp.depth m.frames
  fitting : m.Fitting
  order : m.InOrder
  laid : Laid m.frames m.interp
  quiet : m.Quiet
  marked : m.Marked
  /-- What has nothing left to do is in the middle of nothing. -/
  idle : m.control.isFinished = true → m.frames = []

variable {m m' : Machine κ τ ρ} {code : Meaning κ τ ρ}

/-! ## Counting -/

/-- No move takes the countdown away from one: it is reloaded as soon as it is out. -/
theorem counting_move (h : Move code m m') (hcount : m.Counting) : m'.Counting := by
  obtain ⟨hcountdown, hthreshold⟩ := hcount
  have of_hook {b c : Bool} (hhook : m'.interp.hook = (b, c, 1)) : m'.interp.countdown = 1 := by
    simp only [Interpreter.hook, Prod.mk.injEq] at hhook
    exact hhook.2.2
  have of_same (hhook : m'.interp.hook = m.interp.hook) : m'.interp.countdown = 1 :=
    of_hook (hhook.trans (by rw [Interpreter.hook, hcountdown]))
  -- only ordinary work, a post, an entry and the end of an action are told by what they do to the
  -- hook
  cases h with
  | works h => exact ⟨of_same h.hook, by rw [h.mailbox, hthreshold]⟩
  | posted _ _ hmail hhook =>
    exact ⟨of_same hhook, by rw [hmail, HostPhase.threshold_step, hthreshold]⟩
  | dispatched _ _ _ _ hmail hhook => exact ⟨of_hook hhook, by rw [hmail, hthreshold]⟩
  | ended _ _ hmail hhook => exact ⟨of_same hhook, by rw [hmail, hthreshold]⟩
  | _ => exact ⟨hcountdown, hthreshold⟩

/-! ## Marks -/

/-- Ordinary frames that come and go are no drain passes over the mailbox. -/
private theorem any_isPass_works (h : Works m m') :
    m'.frames.any Frame.isPass = m.frames.any Frame.isPass := by
  obtain ⟨popped, pushed, rest, hpopped, hpushed, hfrom, hto⟩ := h.frames
  have none (fs : List (Frame κ τ ρ)) (hfs : ∀ f ∈ fs, f.isOrdinary) :
      fs.any Frame.isPass = false := by
    rw [List.any_eq_false]
    intro f hf
    simp [Frame.not_isPass_of_isOrdinary (hfs f hf)]
  rw [hfrom, hto, List.any_append, List.any_append, none popped hpopped, none pushed hpushed]

/-- Ordinary work is not about to mark a pass. -/
private theorem marked?_of_isOrdinary {c : Control κ τ ρ} (h : c.isOrdinary = true) :
    c.past.marked? = none := by
  rw [Control.marked?_past]
  cases hc : c.marked? with
  | none => rfl
  | some b => simp [Control.isOrdinary_of_marked? hc] at h

/-- A pass is marked from the time that it is acquired to the time that the mark is taken away. -/
theorem marked_move (h : Move code m m') (hw : m.Fitting) (hlaid : Laid m.frames m.interp)
    (hm : m.Marked) : m'.Marked := by
  unfold Marked at hm ⊢
  cases h with
  | works h hord =>
    rw [h.mailbox, hm, any_isPass_works h, marked?_of_isOrdinary hord]
    -- ordinary work goes on or comes to rest
    rcases h.control with hord' | ⟨-, outcome, hc⟩
    · rw [marked?_of_isOrdinary hord']
    · rw [hc]
      rfl
  | synced _ hpast => rw [hpast, hm]
  | posted hc _ hmail _ _ hframes hpast =>
    rw [hmail, HostPhase.draining_step, hm, hframes, hpast, hc]
    rfl
  | dispatched hc _ _ _ hmail _ _ hframes hhandles =>
    rw [hmail, hm, hframes, hhandles, hc]
    simp [Control.past, Control.marked?, Frame.isPass]
  | ended hc hf hmail _ _ hframes hsettles =>
    rw [hmail, hm, hf, hsettles]
    simp [Control.past, Control.marked?, Frame.isPass]
  | unmarked hc =>
    -- the pass that ends was the only one
    have hhandler := hw.waits (w := .handler) hc (by simp [Control.isFor])
    obtain ⟨rest, hf⟩ := hhandler.of_handler
    rw [hf] at hlaid hhandler
    have hnone := hhandler.2.no_pass (hlaid.2.no_dispatch rfl)
    simp [goto, Control.past, Control.marked?, Mailbox.storeDraining, hf, Frame.isPass, hnone]
  | returned hc hf =>
    rw [hc, hf] at hm
    simpa [Control.past, Control.marked?, Frame.isPass] using hm
  | popped hc =>
    rw [hc] at hm
    simpa [await, Control.past, Control.marked?, Frame.isPass] using hm
  | acquired hc =>
    rw [hc] at hm
    simp [goto, Control.past, Control.marked?, Mailbox.storeDraining]
  | reentered hc hbusy =>
    rw [hc] at hm
    simpa [raise, goto, Control.past, Control.marked?, Mailbox.storeDraining, hbusy] using hm
  | rested hc => exact hm
  | entered hc | flagRead hc | raised hc | lowered hc | disarmed hc
  | drained hc | succeeded hc | failed hc | measured hc | emptied hc | rearmed hc | told hc =>
    rw [hc] at hm
    simpa [goto, raise, note, mapStore, Control.past, Control.marked?, Mailbox.countInvocation,
      Mailbox.disarm, Mailbox.storeFlag, Mailbox.arm] using hm

/-! ## Values that are brought -/

/-- Nothing is brought to what waits for a safepoint, where something else is waited for. -/
private theorem quiet_of_waits {w : Awaited} (hw : Waits w m.frames) (hsafepoint : w ≠ .safepoint)
    (hhandler : w ≠ .handler) : m.Quiet := by
  intro h
  rcases hw.safepoint_or_handler h with rfl | rfl
  · exact absurd rfl hsafepoint
  · exact absurd rfl hhandler

/-- What a script does brings nothing to a safepoint. -/
private theorem quiet_of_way {fs : List (Frame κ τ ρ)} (h : Way fs m.control m.frames)
    (hbody : Waits .body fs) : m.Quiet := by
  unfold Quiet
  generalize m.control = c at h
  generalize m.frames = fs' at h
  intro hwaits
  cases h with
  | leaves outcome =>
    -- the body of a function is waited for, and no safepoint
    rcases hbody.safepoint_or_handler hwaits with h | h <;> exact nomatch h
  | on | calls | faults => rfl

/-- The end of a call is for whoever made the call. -/
private theorem quiet_exitCall (m : Machine κ τ ρ) (outcome : Outcome κ)
    (hcall : Waits .call m.frames) : (m.exitCall outcome).Quiet := by
  unfold exitCall
  split
  · exact fun _ => rfl
  · exact quiet_of_waits (w := .call) hcall (by decide) (by decide)

/-- A function that is entered has nothing to bring yet. -/
private theorem quiet_enter (code : Meaning κ τ ρ) (m : Machine κ τ ρ) (f : Func κ)
    (args : List (Value κ)) : (m.enter code f args).Quiet := by
  cases f with
  | native _ _ c => exact fun _ => rfl
  | script id proto =>
    simp only [enter]
    split <;> exact fun _ => rfl

/-- No stage of a call brings values to a safepoint. -/
private theorem quiet_deliverCall (code : Meaning κ τ ρ) (m : Machine κ τ ρ) (stage : Stage κ)
    (outcome : Outcome κ) (hcall : Waits .call m.frames) :
    (m.deliverCall code stage outcome).Quiet := by
  unfold deliverCall
  split
  · exact quiet_enter code _ _ _
  next args e => exact quiet_exitCall (m.releaseAll args) _ hcall
  · exact fun _ => rfl
  · exact quiet_exitCall m _ hcall
  · exact quiet_exitCall m _ hcall
  next results e => exact quiet_exitCall (m.releaseAll results) _ hcall

/-- A script that goes on brings nothing to a safepoint. -/
private theorem quiet_deliverScript (m : Machine κ τ ρ) (a : Activation κ) (await : Await κ)
    (outcome : Outcome κ) (hbody : Waits .body m.frames) :
    (m.deliverScript a await outcome).Quiet := by
  unfold deliverScript
  split
  · exact fun _ => rfl
  · exact fun _ => rfl
  · exact fun _ => rfl
  next f results =>
    exact quiet_of_way (goes_pushAndGo ((m.releaseAll results.tail).release f) a _).way hbody
  · exact fun _ => rfl
  next f top => exact quiet_of_way (goes_afterPcall m a top _).way hbody

/-- What is handed on was for the frame on top; only the handler hands on to a safepoint. -/
private theorem quiet_deliver (code : Meaning κ τ ρ) {outcome : Outcome κ} (hfit : m.Fitting)
    (hc : m.control = .deliver outcome) (hquiet : m.Quiet) : (m.deliver code outcome).Quiet := by
  unfold deliver
  split
  · exact fun _ => rfl
  next frame rest hf =>
    have hbelow := hfit.waits_below hf
    dsimp only
    split
    next stage => exact quiet_deliverCall code { m with frames := rest } stage outcome hbelow
    next a await => exact quiet_deliverScript { m with frames := rest } a await outcome hbelow
    · split <;> exact fun _ => rfl
    next top depth =>
      split
      · exact fun _ => rfl
      · split
        · exact quiet_of_waits (w := .reply) hbelow (by decide) (by decide)
        · exact fun _ => rfl
    · -- the handler has brought nothing to the safepoint
      have hhandler : Waits .handler m.frames := by
        obtain ⟨w, -, hw⟩ := hfit
        rw [hf] at hw ⊢
        exact ⟨rfl, hw.2⟩
      have hbrings := hquiet (.inr hhandler)
      rw [hc] at hbrings
      exact fun _ => hbrings
    next source ran => cases outcome <;> cases source <;> exact fun _ => rfl

/-- No request of host code brings anything to a safepoint. -/
private theorem quiet_serve (m : Machine κ τ ρ) (held : Held) (q : Query κ)
    (next : Reply κ → Program κ τ ρ) : (m.serve held q next).Quiet := by
  have string (bytes : Bytes) : (serve.string m held next bytes).Quiet := by
    unfold serve.string
    split <;> exact fun _ => rfl
  cases q with
  | newBytes bytes => exact string bytes
  | newText text => exact string _
  | copy v =>
    simp only [serve]
    split
    · split <;> exact fun _ => rfl
    · exact fun _ => rfl
  | _ => exact fun _ => rfl

/-- A check of a syncpoint brings what is behind it. -/
private theorem quiet_checking (hquiet : m.Quiet) (point : TestPoint) (phase : Syncpoint.Checking)
    {next : Control κ τ ρ} (hbrings : m.control.brings = next.brings) :
    (m.checking point phase next).Quiet := by
  have hquiet' (points : Syncpoints) {c : Control κ τ ρ} (hc : c.brings = next.brings) :
      Quiet { m with points, control := c } := by
    intro hwaits
    exact hc.trans (hbrings.symm.trans (hquiet hwaits))
  unfold checking
  dsimp only
  split
  all_goals exact hquiet' _ rfl

/-- No step brings values to a safepoint, nor to the handler. -/
theorem quiet_step (code : Meaning κ τ ρ) (hfit : m.Fitting) (hquiet : m.Quiet) :
    (m.step code).Quiet := by
  -- most work is not about to hand over anything, so there is nothing to say of it
  cases hc : m.control <;> simp only [step, hc]
  case invoke f args =>
    unfold invoke
    split
    · split <;> exact fun _ => rfl
    · exact fun _ => rfl
  case poll event =>
    have entering (m : Machine κ τ ρ) (event : HookEvent) : (m.dispatch event).Quiet := by
      unfold dispatch
      split
      · exact fun _ => rfl
      · split <;> exact fun _ => rfl
    unfold poll
    dsimp only
    split
    · exact fun _ => rfl
    · split
      · exact fun _ => rfl
      · split
        · split
          · exact fun _ => rfl
          · exact entering _ _
        · exact entering _ _
  case handle phase info =>
    cases phase with
    | enter | disarm | readFlag => exact fun _ => rfl
    | readMessage =>
      simp only [handle]
      split <;> exact fun _ => rfl
    | acquire =>
      simp only [handle]
      split <;> exact fun _ => rfl
  case drain source ran =>
    cases source with
    | mailbox event | queue id =>
      simp only [drain]
      split <;> exact fun _ => rfl
  case settle source ran outcome =>
    unfold settle
    split
    · exact fun _ => rfl
    · split <;> exact fun _ => rfl
  case measure e =>
    unfold measure
    dsimp only
    split <;> exact fun _ => rfl
  case rearm | tell => exact fun _ => rfl
  case unmark outcome =>
    -- a pass brings nothing out of the handler
    have hhandler : Waits .handler m.frames := hfit.waits hc (by simp [Control.isFor])
    have hbrings := hquiet (.inr hhandler)
    rw [hc] at hbrings
    cases outcome with
    | ok vs => exact fun _ => hbrings
    | error e => exact fun _ => rfl
  case fetch =>
    split
    · unfold fetch
      split <;> exact fun _ => rfl
    · exact fun _ => rfl
  -- an instruction is for the body of a function
  case execute op =>
    split
    next a rest hf =>
      exact quiet_of_way (goes_execute { m with frames := rest, control := .execute op } a op).way
        (hfit.waits_below hf)
    · exact fun _ => rfl
  case run held p =>
    have hprogram : Waits .program m.frames := hfit.waits hc (by simp [Control.isFor])
    unfold runProgram
    split
    · exact quiet_of_waits (w := .program) hprogram (by decide) (by decide)
    · exact fun _ => rfl
    · exact quiet_serve m held _ _
    · exact fun _ => rfl
  case post phase =>
    unfold post
    split
    · exact fun _ => rfl
    · exact fun _ => rfl
    · dsimp only
      split <;> exact fun _ => rfl
  case reply r =>
    unfold reply
    split <;> exact fun _ => rfl
  case deliver outcome => exact quiet_deliver code hfit hc hquiet
  case check | arrive | paused => exact quiet_checking hquiet _ _ (by rw [hc]; rfl)
  case finished | waiting | fault => exact hquiet

/-! ## One step -/

/-- Only an interpreter without frames comes to rest. -/
theorem idle_move (h : Move code m m') (hfit : m.Fitting)
    (hidle : m.control.isFinished = true → m.frames = []) (hfin : m'.control.isFinished = true) :
    m'.frames = [] := by
  have not_finished {c : Control κ τ ρ} (hc : c.isOrdinary = true) : c.isFinished = false := by
    cases c <;> simp_all [Control.isOrdinary, Control.isFinished]
  cases h with
  | works h =>
    rcases h.control with hord | ⟨hframes, -⟩
    · simp [not_finished hord] at hfin
    · exact hframes
  | @synced points control hat hpast =>
    -- nobody is held at a syncpoint with nothing left to do
    obtain ⟨w, hfor, -⟩ := hfit
    have hmeets := Control.meetsSyncpoints_of_isFor hat hfor
    rw [← Control.isFor_past _ hmeets, ← hpast] at hfor
    have hprogram : w = .program := by
      cases control with
      | finished outcome => simpa [Control.past, Control.isFor] using hfor
      | _ => exact absurd hfin Bool.false_ne_true
    rw [hprogram] at hmeets
    exact absurd hmeets Bool.false_ne_true
  | posted _ _ _ _ _ _ _ hord => simp [not_finished hord] at hfin
  | dispatched _ _ _ _ _ _ _ _ hhandles => simp [hhandles, Control.isFinished] at hfin
  | ended _ _ _ _ _ _ hsettles => simp [hsettles, Control.isFinished] at hfin
  | rested => exact hidle hfin
  | _ => exact absurd hfin Bool.false_ne_true

/-- A steady machine stays steady. -/
theorem steady_step (code : Meaning κ τ ρ) (h : m.Steady) : (m.step code).Steady := by
  have hmove := move_step code m h.counting
  obtain ⟨horder, hlaid⟩ := laid_step code h.counting h.fitting h.order h.laid
  exact {
    counting := counting_move hmove h.counting
    nested := nested_move hmove h.nested
    fitting := fitting_move hmove h.fitting
    order := horder
    laid := hlaid
    quiet := quiet_step code h.fitting h.quiet
    marked := marked_move hmove h.fitting h.laid h.marked
    idle := idle_move hmove h.fitting h.idle }

/-- Work for the handler is done for those who wait for the handler. -/
private theorem handler_of_marked? {c : Control κ τ ρ} {b : Bool} {w : Awaited}
    (h : c.marked? = some b) (hw : c.isFor w = true) : w = .handler := by
  induction c with
  | check _ c ih | arrive _ c ih | paused _ c ih =>
    simp only [Control.isFor, Bool.and_eq_true] at hw
    exact ih h hw.2
  | drain source ran => cases source <;> simp_all [Control.marked?, Control.isFor]
  | settle source ran outcome => cases source <;> simp_all [Control.marked?, Control.isFor]
  | _ => simp_all [Control.marked?, Control.isFor]

/-- Outside of the handler, whether a drain pass is marked can be read off the frames. -/
theorem Steady.draining_eq (h : m.Steady) (hnot : ¬ Waits .handler m.frames) :
    m.mailbox.draining = m.frames.any Frame.isPass := by
  have hnone : m.control.past.marked? = none := by
    rw [Control.marked?_past]
    cases hmarked : m.control.marked? with
    | none => rfl
    | some b =>
      obtain ⟨w, hfor, hw⟩ := h.fitting
      rw [handler_of_marked? hmarked hfor] at hw
      -- the frames would wait for the handler
      exact absurd hw hnot
  rw [h.marked, hnone]
  exact Bool.or_false _

/-- What neither the work at hand nor the frames can see leaves a machine steady. -/
theorem Steady.congr (h : m.Steady) (hcontrol : m'.control = m.control)
    (hframes : m'.frames = m.frames) (hinterp : m'.interp = m.interp)
    (hthreshold : m'.mailbox.slot.threshold = m.mailbox.slot.threshold)
    (hdraining : m'.mailbox.draining = m.mailbox.draining) : m'.Steady where
  counting := ⟨by rw [hinterp, h.counting.countdown], by rw [hthreshold, h.counting.threshold]⟩
  nested := by rw [hinterp, hframes]; exact h.nested
  fitting := by
    unfold Fitting
    rw [hcontrol, hframes]
    exact h.fitting
  order := by
    unfold InOrder
    rw [hcontrol, hframes]
    exact h.order
  laid := by rw [hinterp, hframes]; exact h.laid
  quiet := by
    unfold Quiet
    rw [hcontrol, hframes]
    exact h.quiet
  marked := by
    unfold Marked
    rw [hcontrol, hframes, hdraining]
    exact h.marked
  idle := by rw [hcontrol, hframes]; exact h.idle

/-- A steady machine may be set to run host code where host code is waited for. -/
theorem Steady.run (h : m.Steady) (hw : Waits .program m.frames)
    (hmarked : m.control.past.marked? = none) (held : Held) (p : Program κ τ ρ) :
    (m.goto (.run held p)).Steady where
  -- host code that is about to run marks nothing, and is what the frames wait for
  counting := ⟨h.counting.countdown, h.counting.threshold⟩
  nested := h.nested
  fitting := ⟨.program, rfl, hw⟩
  order := trivial
  laid := h.laid
  quiet := fun _ => rfl
  marked := by
    have hm := h.marked
    unfold Marked at hm ⊢
    rw [hmarked] at hm
    exact hm
  idle := nofun

/-- An interpreter with nothing to do is steady when it is opened. -/
theorem steady_of_initial {heap block : Nat} {limits : Limits} {installed : Bool}
    (hcontrol : m.control = .finished (.ok [])) (hframes : m.frames = [])
    (hinterp : m.interp =
      { Interpreter.initial heap block limits with hookInstalled := installed })
    (hthreshold : m.mailbox.slot.threshold = 1) (hdraining : m.mailbox.draining = false) :
    m.Steady where
  counting := ⟨by rw [hinterp]; rfl, hthreshold⟩
  nested := by
    rw [hframes, hinterp]
    rfl
  fitting := ⟨.program, by rw [hcontrol]; rfl, by rw [hframes]; rfl⟩
  order := by
    unfold InOrder
    rw [hcontrol]
    trivial
  laid := by rw [hframes]; trivial
  quiet := by
    intro _
    rw [hcontrol]
    rfl
  marked := by
    unfold Marked
    rw [hcontrol, hframes, hdraining]
    rfl
  idle := fun _ => hframes

/-- A machine that is dropped with nothing left to do stays steady. -/
theorem Steady.close (h : m.Steady) (hfin : m.control.isFinished = true) : m.close.Steady := by
  -- with nothing left to do there are no frames, so only what they do not see may change
  have hframes := h.idle hfin
  obtain ⟨hcontrol', hframes', hdepth, hcountdown, hthreshold, hdraining⟩ :
      m.close.control = m.control ∧ m.close.frames = m.frames ∧
        m.close.interp.depth = m.interp.depth ∧ m.close.interp.countdown = m.interp.countdown ∧
        m.close.mailbox.slot.threshold = m.mailbox.slot.threshold ∧
        m.close.mailbox.draining = m.mailbox.draining := by
    simp only [Machine.close]
    split <;> exact ⟨rfl, rfl, rfl, rfl, rfl, rfl⟩
  exact {
    counting := ⟨by rw [hcountdown, h.counting.countdown],
      by rw [hthreshold, h.counting.threshold]⟩
    nested := by rw [hdepth, hframes']; exact h.nested
    fitting := by
      unfold Fitting
      rw [hcontrol', hframes']
      exact h.fitting
    order := by
      unfold InOrder
      rw [hcontrol', hframes']
      exact h.order
    laid := by rw [hframes', hframes]; trivial
    quiet := by
      unfold Quiet
      rw [hcontrol', hframes']
      exact h.quiet
    marked := by
      unfold Marked
      rw [hcontrol', hframes', hdraining]
      exact h.marked
    idle := by rw [hcontrol', hframes']; exact h.idle }

end Machine

namespace System

variable {s : System κ τ ρ} {e : Event κ τ ρ}

/-- What is true of an interpreter in every state, with handles or without. -/
structure Steady (s : System κ τ ρ) : Prop where
  machine : s.machine.Steady
  /-- Only an idle interpreter is dropped, and it does nothing from then on. -/
  dropped : s.isOpen = false → s.machine.control.isFinished = true

/-- Whatever happens to a steady interpreter, it stays steady. -/
theorem steady_step (code : Meaning κ τ ρ) (h : s.Steady) : (s.step code e).Steady := by
  obtain ⟨hm, hdropped⟩ := h
  cases e with
  | call t call =>
    simp only [step]
    split <;> exact ⟨hm, hdropped⟩
  | host t =>
    obtain ⟨g, hg⟩ := s.access_eq t
    simp only [step, hg]
    exact ⟨hm.congr rfl rfl rfl (HostPhase.threshold_step _ _) (HostPhase.draining_step _ _),
      hdropped⟩
  | advance =>
    refine ⟨Machine.steady_step code hm, fun hclosed => ?_⟩
    -- an interpreter that was dropped does nothing
    have hfin := hdropped hclosed
    show (s.machine.step code).control.isFinished = true
    rw [step_of_finished code hfin]
    exact hfin
  | start p given =>
    simp only [step]
    split
    next hidle =>
      obtain ⟨hopen, hfin⟩ : s.isOpen = true ∧ s.machine.control.isFinished = true := by
        simpa using hidle
      have hframes := hm.idle hfin
      -- an idle interpreter is not about to mark anything
      have hmarked : s.machine.control.past.marked? = none := by
        cases hc : s.machine.control <;>
          simp_all [Control.isFinished, Control.past, Control.marked?]
      have hrun := hm.run (by rw [hframes]; rfl) hmarked (Held.addAll [] given) p
      refine ⟨hrun.congr rfl hframes.symm rfl rfl rfl, fun hclosed => ?_⟩
      exact absurd (hopen.symm.trans hclosed) (by decide)
    next => exact ⟨hm, hdropped⟩
  | answer r vs =>
    simp only [step, Machine.answer]
    split
    next x given held next hc =>
      have hw : Waits .program s.machine.frames :=
        hm.fitting.waits hc (by simp [Control.isFor])
      refine ⟨hm.run hw (by rw [hc]; rfl) _ _, fun hclosed => ?_⟩
      have hfin := hdropped hclosed
      rw [hc] at hfin
      exact absurd hfin Bool.false_ne_true
    next => exact ⟨hm, hdropped⟩
  | ground g => exact ⟨hm.congr rfl rfl rfl rfl rfl, hdropped⟩
  | syncpoints points => exact ⟨hm.congr rfl rfl rfl rfl rfl, hdropped⟩
  | close =>
    simp only [step]
    split
    next hidle =>
      obtain ⟨-, hfin⟩ : s.isOpen = true ∧ s.machine.control.isFinished = true := by
        simpa using hidle
      refine ⟨hm.close hfin, fun _ => ?_⟩
      simp only [Machine.close]
      split <;> exact hfin
    next => exact ⟨hm, hdropped⟩

/-! ## Any interpreter -/

/-- An interpreter that was opened over some heap, by itself or with facilities, and to which
nothing has happened yet. -/
def Begun (s : System κ τ ρ) : Prop :=
  (∃ store heap limits store' interp ground,
    Interpreter.openOn store heap limits = (store', .ok interp) ∧
      s = opening (.idle interp .empty ground)) ∨
  ∃ (g : Ground κ) (facilities : Instrumentations) (limits : Limits) (ground : Ground κ)
    (m : Machine κ τ ρ) (instruments : Instruments),
    Instruments.openWith g facilities limits = (ground, .ok (m, instruments)) ∧ s = opening m

/-- An interpreter is opened in its initial state, over its heap and with some block of its own. -/
theorem interp_of_openOn {store store' : Store} {heap : Nat} {limits : Limits}
    {i : Interpreter κ} (h : Interpreter.openOn store heap limits = (store', .ok i)) :
    ∃ block, i = Interpreter.initial heap block limits := by
  have hi : (Interpreter.openOn store heap limits).2 = .ok i := by rw [h]
  simp only [Interpreter.openOn] at hi
  split at hi
  · simp at hi
  · split at hi
    next block _ =>
      simp only [Except.ok.injEq] at hi
      exact ⟨block, hi.symm⟩
    next => simp at hi

/-- What is opened with facilities stands where it begins, with a hook or without. -/
theorem machine_of_openWith {g ground : Ground κ} {facilities : Instrumentations}
    {limits : Limits} {m : Machine κ τ ρ} {instruments : Instruments}
    (h : Instruments.openWith g facilities limits = (ground, .ok (m, instruments))) :
    m.control = .finished (.ok []) ∧ m.frames = [] ∧ m.mailbox.slot.threshold = 1 ∧
      m.mailbox.draining = false ∧ ∃ heap block, m.interp =
        { Interpreter.initial heap block limits with hookInstalled := facilities.interruption } := by
  simp only [Instruments.openWith, Interpreter.openNew] at h
  split at h
  · simp at h
  next store heap interp hnew =>
    have hopen := congrArg Prod.snd (congrArg Prod.snd hnew)
    obtain ⟨block, rfl⟩ := interp_of_openOn (Prod.ext rfl hopen)
    -- whether a hook is put in makes the only difference
    cases hint : facilities.interruption with
    | true =>
      simp only [hint, if_true, Machine.bind, Machine.idle, Interpreter.initial] at h
      obtain ⟨-, hm⟩ := Prod.mk.inj h
      obtain ⟨rfl, -⟩ := Prod.mk.inj (Except.ok.inj hm)
      exact ⟨rfl, rfl, rfl, rfl, _, block, rfl⟩
    | false =>
      simp only [hint] at h
      obtain ⟨-, hm⟩ := Prod.mk.inj h
      obtain ⟨rfl, -⟩ := Prod.mk.inj (Except.ok.inj hm)
      exact ⟨rfl, rfl, rfl, rfl, _, block, rfl⟩

/-- What was just opened is steady: it has no frames and nothing to do. -/
theorem steady_of_begun (h : s.Begun) : s.Steady := by
  rcases h with ⟨store, heap, limits, store', interp, ground, hopen, rfl⟩ |
    ⟨g, facilities, limits, ground, m, instruments, hopen, rfl⟩
  · obtain ⟨block, rfl⟩ := interp_of_openOn hopen
    have hinterp : (Interpreter.initial heap block limits : Interpreter κ) =
        { Interpreter.initial heap block limits with hookInstalled := false } := rfl
    exact ⟨Machine.steady_of_initial rfl rfl hinterp rfl rfl, nofun⟩
  · obtain ⟨hcontrol, hframes, hthreshold, hdraining, heap, block, hinterp⟩ :=
      machine_of_openWith hopen
    exact ⟨Machine.steady_of_initial hcontrol hframes hinterp hthreshold hdraining, nofun⟩

end System

/-- The life of an interpreter, with handles or without, from its opening on: one event after
another, in any order whatever. -/
structure Life (code : Meaning κ τ ρ) where
  state : Nat → System κ τ ρ
  event : Nat → Event κ τ ρ
  begun : (state 0).Begun
  next : ∀ n, state (n + 1) = (state n).step code (event n)

/-- An interpreter is steady all its life. -/
theorem Life.steady {code : Meaning κ τ ρ} (l : Life code) (n : Nat) : (l.state n).Steady := by
  induction n with
  | zero => exact System.steady_of_begun l.begun
  | succ n ih =>
    rw [l.next]
    exact System.steady_step code ih

end Safepoint
