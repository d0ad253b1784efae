import Mathlib.Data.Nat.Init
import Safepoint.Proofs.Machine.Posture
import Safepoint.Proofs.System

/-!
# What holds in every state of a run

`System.Sound` collects what is true of an interpreter with handles from its opening on, whatever
its host threads do: every instruction makes a count event, the hook is armed for all events or for
none, the frames keep count of the calls in progress and fit what is done next, and as long as the
interpreter is open it stands somewhere in the sense of `Machine.Posture`.

## Key results

- `Run.sound`: every state of a run is sound
- `System.Sound.move`: each step of the interpreter's own thread is a move
- `System.posture_step`: only the interpreter's own thread enters and leaves the handler
-/

namespace Safepoint

variable {κ τ ρ : Type}

namespace Machine

variable {m m' : Machine κ τ ρ}

/-- A posture goes by the frames, the bookkeeping of the hook, the mark and what is done next. -/
theorem Posture.congr {o : Option (List (Frame κ τ ρ))} (h : Posture m o)
    (hcontrol : m'.control = m.control) (hframes : m'.frames = m.frames)
    (hhook : m'.interp.hook = m.interp.hook)
    (hdraining : m'.mailbox.draining = m.mailbox.draining) : Posture m' o := by
  -- each posture is told by the control, the frames, the hook and the mark, and those are the same
  cases h with
  | resting hc hf hh hd =>
    exact .resting (hcontrol.trans hc) (hframes.trans hf) (hhook.trans hh) (hdraining.trans hd)
  | working hc hf hh hd =>
    exact .working (hcontrol ▸ hc) (hframes ▸ hf) (hhook.trans hh) (hdraining.trans hd)
  | handling hc hf hb hh =>
    exact .handling (by rw [hcontrol, hdraining, hc]) (hframes.trans hf) hb (hhook.trans hh)
  | acting hc hf ha hb hh hd =>
    exact .acting (hcontrol ▸ hc) (hframes.trans hf) ha hb (hhook.trans hh) (hdraining.trans hd)
  | leaving hc hf hb hh hd =>
    exact .leaving (hcontrol.trans hc) (hframes.trans hf) hb (hhook.trans hh) (hdraining.trans hd)

/-- Ordinary work that turns to other ordinary work stands where it stood. -/
theorem Posture.goto {o : Option (List (Frame κ τ ρ))} (h : Posture m o) {c : Control κ τ ρ}
    (hord : m.control.isOrdinary = true) (hdeliver : ∀ outcome, m.control ≠ .deliver outcome)
    (hc : c.isOrdinary = true) : Posture (m.goto c) o := by
  -- ordinary work gives way to ordinary work; of the postures only those two are at it
  cases h with
  | resting hc' => simp [hc', Control.isOrdinary] at hord
  | working _ hf hh hd => exact .working hc hf hh hd
  | handling hm => simp [Control.isOrdinary_of_marked? hm] at hord
  | acting _ hf ha hb hh hd => exact .acting hc hf ha hb hh hd
  | leaving hc' => exact absurd hc' (hdeliver _)

/-- A machine with nothing left to do is not in the handler. -/
theorem Posture.of_finished {o : Option (List (Frame κ τ ρ))} (h : Posture m o)
    (hfin : m.control.isFinished = true) :
    o = none ∧ m.interp.hook = (true, true, 1) ∧ m.mailbox.draining = false ∧ m.frames = [] := by
  cases hc : m.control <;> simp_all [Control.isFinished]
  cases h <;> simp_all [Control.isOrdinary, Control.marked?]

end Machine

namespace System

/-- What is true of an interpreter with handles in every state of a run. -/
structure Sound (s : System κ τ ρ) : Prop where
  threshold : s.machine.mailbox.slot.threshold = 1
  mask : s.machine.mailbox.slot.mask = .empty ∨ s.machine.mailbox.slot.mask = .armed
  nested : Nested s.machine.interp.depth s.machine.frames
  fitting : s.machine.Fitting
  /-- What has nothing left to do is in the middle of nothing. -/
  idle : s.machine.control.isFinished = true → s.machine.frames = []
  standing : s.isOpen = true → ∃ o, s.machine.Posture o
  /-- Only an idle interpreter is dropped, and it does nothing from then on. -/
  dropped : s.isOpen = false → s.machine.control.isFinished = true

variable {s : System κ τ ρ} {e : Event κ τ ρ}

/-! ## The opening -/

/-- An interpreter is opened in its initial state, over some heap and with some block of its own. -/
private theorem interp_of_openNew {store store' : Store} {source : MemorySource} {limits : Limits}
    {heap : Nat} {i : Interpreter κ}
    (h : Interpreter.openNew store source limits = (store', heap, .ok i)) :
    ∃ heap block, i = Interpreter.initial heap block limits := by
  have hi : (Interpreter.openNew store source limits).2.2 = .ok i := by rw [h]
  simp only [Interpreter.openNew, Interpreter.openOn] at hi
  -- limits that are not valid or a heap that refuses open no interpreter
  split at hi
  · exact nomatch hi
  · split at hi
    next block _ =>
      simp only [Except.ok.injEq] at hi
      exact ⟨_, block, hi.symm⟩
    next => exact nomatch hi

/-- An interpreter that was just opened has its hook, and nothing has happened to it. -/
theorem opened_machine (h : s.Opened) :
    s.isOpen = true ∧ (∀ t, s.hosts t = .finished (.ok .done)) ∧
      s.machine.mailbox = Mailbox.empty.keep ∧ s.machine.frames = [] ∧
      s.machine.control = .finished (.ok []) ∧ ∃ heap block limits, s.machine.interp =
        { Interpreter.initial heap block limits with hookInstalled := true } := by
  obtain ⟨g, facilities, limits, ground, m, instruments, hint, hopen, rfl⟩ := h
  suffices hm : m.mailbox = Mailbox.empty.keep ∧ m.frames = [] ∧ m.control = .finished (.ok []) ∧
      ∃ heap block limits, m.interp =
        { Interpreter.initial heap block limits with hookInstalled := true } from
    ⟨rfl, fun _ => rfl, hm⟩
  simp only [Instruments.openWith] at hopen
  split at hopen
  · exact nomatch hopen
  next store heap interp hnew =>
    obtain ⟨heap, block, rfl⟩ := interp_of_openNew hnew
    -- the hook is put in, and nothing else is done before somebody may call
    simp only [hint, if_true, Machine.bind, Machine.idle, Interpreter.initial] at hopen
    obtain ⟨-, hm⟩ := Prod.mk.inj hopen
    obtain ⟨rfl, -⟩ := Prod.mk.inj (Except.ok.inj hm)
    exact ⟨rfl, rfl, rfl, heap, block, limits, rfl⟩

/-- A system that was just opened is sound: idle, disarmed, and in the middle of nothing. -/
theorem sound_opened (h : s.Opened) : s.Sound := by
  obtain ⟨hopen, -, hmail, hframes, hcontrol, heap, block, limits, hinterp⟩ := opened_machine h
  have hhook : s.machine.interp.hook = (true, true, 1) := by rw [hinterp]; rfl
  have hdepth : s.machine.interp.depth = 0 := by rw [hinterp]; rfl
  -- every part is read off the fields of what was opened
  refine ⟨by rw [hmail]; rfl, .inl (by rw [hmail]; rfl), ?_, ⟨.program, ?_, ?_⟩, fun _ => hframes,
    fun _ => ?_, ?_⟩
  · rw [hframes]
    exact hdepth
  · rw [hcontrol]
    rfl
  · rw [hframes]
    rfl
  · exact ⟨none, .resting hcontrol hframes hhook (by rw [hmail]; rfl)⟩
  · intro hclosed
    simp [hopen] at hclosed

/-! ## Steps -/

/-- A machine with nothing left to do stays as it is. -/
theorem step_of_finished (code : Meaning κ τ ρ) {m : Machine κ τ ρ}
    (h : m.control.isFinished = true) : m.step code = m := by
  cases hc : m.control <;> simp_all [Control.isFinished, Machine.step]

/-- An open interpreter counts every instruction, whichever posture it is in. -/
theorem Sound.counting (h : s.Sound) (hopen : s.isOpen = true) : s.machine.Counting := by
  obtain ⟨o, ho⟩ := h.standing hopen
  refine ⟨?_, h.threshold⟩
  cases ho <;> simp_all [Interpreter.hook]

/-- Each step of the interpreter's own thread is a move. -/
theorem Sound.move (code : Meaning κ τ ρ) (h : s.Sound) :
    s.machine.Move code (s.machine.step code) := by
  cases hopen : s.isOpen with
  | true => exact Machine.move_step code _ (h.counting hopen)
  | false =>
    have hfin := h.dropped hopen
    rw [step_of_finished code hfin]
    -- nothing moves in an interpreter that is dropped
    cases hc : s.machine.control <;> simp_all [Control.isFinished]
    exact .rested hc

/-- Only the interpreter's own thread enters the handler and leaves it. -/
theorem posture_step (code : Meaning κ τ ρ) (h : s.Sound) {o : Option (List (Frame κ τ ρ))}
    (ho : s.machine.Posture o) (hopen : (s.step code e).isOpen = true) :
    ∃ o', (s.step code e).machine.Posture o' ∧
      (o' = o ∨ e = .advance ∧ s.machine.Turn (s.step code e).machine o o') := by
  by_cases he : e = .advance
  · subst he
    obtain ⟨o', ho', hturn⟩ := Machine.posture_move (h.move code) ho
    exact ⟨o', ho', .inr ⟨rfl, hturn⟩⟩
  · refine ⟨o, ?_, .inl rfl⟩
    -- no other thread marks a pass, enters the handler or returns from it
    have hdraining := draining_of_aside (s := s) code he
    cases aside_step (s := s) code he with
    | rested hcontrol hframes hinterp =>
      exact ho.congr hcontrol hframes (congrArg Interpreter.hook hinterp) hdraining
    | answered hwaiting hruns hframes hinterp =>
      obtain ⟨x, given, held, next, hc⟩ := hwaiting
      obtain ⟨held', p, hruns⟩ := hruns
      exact (ho.goto (by rw [hc]; rfl) (by simp [hc]) rfl).congr hruns hframes
        (congrArg Interpreter.hook hinterp) hdraining
    | started hidle hruns hframes hinterp =>
      obtain ⟨rfl, hhook, hunmarked, -⟩ := ho.of_finished hidle.2
      obtain ⟨held, p, hruns⟩ := hruns
      exact .working (by rw [hruns]; rfl) (by simp [hframes])
        ((congrArg Interpreter.hook hinterp).trans hhook) (hdraining.trans hunmarked)
    | dropped _ _ _ _ hclosed => simp [hclosed] at hopen

/-- A move of the machine that is no access leaves the threshold alone, and arms the hook or disarms
it as a whole. -/
private theorem slot_move {code : Meaning κ τ ρ} {m m' : Machine κ τ ρ} (h : m.Move code m')
    (hpost : m.PostsNothing)
    (hthreshold : m.mailbox.slot.threshold = 1)
    (hmask : m.mailbox.slot.mask = .empty ∨ m.mailbox.slot.mask = .armed) :
    m'.mailbox.slot.threshold = 1 ∧
      (m'.mailbox.slot.mask = .empty ∨ m'.mailbox.slot.mask = .armed) := by
  -- only to disarm and to arm anew writes the mask
  cases h with
  | works hw => rw [hw.mailbox]; exact ⟨hthreshold, hmask⟩
  | posted hc hgoing => exact absurd hgoing (hpost.not_going hc)
  | dispatched _ _ _ _ hmail => rw [hmail]; exact ⟨hthreshold, hmask⟩
  | ended _ _ hmail => rw [hmail]; exact ⟨hthreshold, hmask⟩
  | disarmed => exact ⟨hthreshold, .inl rfl⟩
  | rearmed => exact ⟨hthreshold, .inr rfl⟩
  | _ => exact ⟨hthreshold, hmask⟩

/-- Where the interpreter's own thread makes no access, its host code is at none. -/
theorem postsNothing_of_access?_eq_none (hacc : s.access? .advance = none) :
    s.machine.PostsNothing := by
  intro p hc
  simp only [access?, hc] at hacc
  rw [Option.isSome_iff_ne_none]
  intro hgoing
  simp [hgoing] at hacc

/-- The mask is written as a whole, and the threshold never. -/
private theorem slot_step (code : Meaning κ τ ρ) (h : s.Sound) :
    (s.step code e).machine.mailbox.slot.threshold = 1 ∧
      ((s.step code e).machine.mailbox.slot.mask = .empty ∨
        (s.step code e).machine.mailbox.slot.mask = .armed) := by
  cases hacc : s.access? e with
  | some cp =>
    obtain ⟨c, p⟩ := cp
    -- a caller arms the hook or leaves the mask alone
    rw [mailbox_of_access code hacc, HostPhase.threshold_step, HostPhase.mask_step]
    refine ⟨h.threshold, ?_⟩
    split
    · exact .inr rfl
    · exact h.mask
  | none =>
    by_cases he : e = .advance
    · subst he
      exact slot_move (h.move code) (postsNothing_of_access?_eq_none hacc) h.threshold h.mask
    · obtain ⟨keepers, hk⟩ := mailbox_of_aside code hacc he
      rw [hk]
      exact ⟨h.threshold, h.mask⟩

/-- The depth stays the number of the calls that are in progress. -/
private theorem nested_step (code : Meaning κ τ ρ) (h : s.Sound) :
    Nested (s.step code e).machine.interp.depth (s.step code e).machine.frames := by
  have hn := h.nested
  by_cases he : e = .advance
  · subst he
    -- frames come and go with the moves of the interpreter only
    exact Machine.nested_move (h.move code) hn
  · cases aside_step (s := s) code he with
    | rested _ hframes hinterp | answered _ _ hframes hinterp =>
      rw [hframes, hinterp]
      exact hn
    | dropped _ _ hframes hdepth =>
      rw [hframes, hdepth]
      exact hn
    | started hidle _ hframes hinterp =>
      -- an idle interpreter has no frames, and so is in the middle of no call
      rw [h.idle hidle.2] at hn
      rw [hframes, hinterp]
      exact hn

/-- What a system does next stays fit for the frame on top. -/
private theorem fitting_step (code : Meaning κ τ ρ) (h : s.Sound) :
    (s.step code e).machine.Fitting := by
  by_cases he : e = .advance
  · subst he
    exact Machine.fitting_move (h.move code) h.fitting
  · cases aside_step (s := s) code he with
    | rested hcontrol hframes | dropped _ hcontrol hframes =>
      obtain ⟨w, hfor, hw⟩ := h.fitting
      exact ⟨w, hcontrol ▸ hfor, hframes ▸ hw⟩
    | answered hwaiting hruns hframes =>
      obtain ⟨x, given, held, next, hc⟩ := hwaiting
      obtain ⟨held', p, hruns⟩ := hruns
      -- an answer is for host code, and it is host code that waited for it
      refine ⟨.program, by rw [hruns]; rfl, ?_⟩
      rw [hframes]
      exact h.fitting.waits hc (by simp [Control.isFor])
    | started _ hruns hframes =>
      obtain ⟨held, p, hruns⟩ := hruns
      exact ⟨.program, by rw [hruns]; rfl, by rw [hframes]; rfl⟩

/-- A system that comes to rest has no frames left. -/
private theorem idle_step (code : Meaning κ τ ρ) (h : s.Sound)
    (hfin : (s.step code e).machine.control.isFinished = true) :
    (s.step code e).machine.frames = [] := by
  by_cases he : e = .advance
  · subst he
    cases hopen : s.isOpen with
    | true =>
      obtain ⟨o, ho⟩ := h.standing hopen
      obtain ⟨o', ho', -⟩ := posture_step (e := .advance) code h ho hopen
      exact (ho'.of_finished hfin).2.2.2
    | false =>
      -- the thread of a dropped interpreter does nothing
      have hdone := h.dropped hopen
      show (s.machine.step code).frames = []
      rw [step_of_finished code hdone]
      exact h.idle hdone
  · cases aside_step (s := s) code he with
    | rested hcontrol hframes | dropped _ hcontrol hframes =>
      rw [hframes]
      exact h.idle (hcontrol ▸ hfin)
    -- whoever is given work is not at rest
    | answered _ hruns | started _ hruns =>
      obtain ⟨held, p, hruns⟩ := hruns
      rw [hruns] at hfin
      exact nomatch hfin

/-- A dropped interpreter stays dropped, and has nothing left to do. -/
theorem dropped_step (code : Meaning κ τ ρ) (h : s.isOpen = false)
    (hfin : s.machine.control.isFinished = true) :
    (s.step code e).isOpen = false ∧ (s.step code e).machine.control.isFinished = true := by
  by_cases he : e = .advance
  · subst he
    simpa [step, step_of_finished code hfin] using ⟨h, hfin⟩
  -- an interpreter that was dropped is neither started nor dropped again
  · cases aside_step (s := s) code he with
    | rested hcontrol _ _ hopen => exact ⟨hopen.trans h, hcontrol ▸ hfin⟩
    | answered hwaiting =>
      obtain ⟨x, given, held, next, hc⟩ := hwaiting
      simp [hc, Control.isFinished] at hfin
    | started hidle | dropped hidle => simp [hidle.1] at h

/-- An interpreter that is open was open before. -/
theorem Sound.isOpen_of_step (code : Meaning κ τ ρ) (h : s.Sound)
    (hopen : (s.step code e).isOpen = true) : s.isOpen = true := by
  cases hs : s.isOpen with
  | true => rfl
  | false =>
    have := (dropped_step (e := e) code hs (h.dropped hs)).1
    simp [hopen] at this

/-- An interpreter at work stays open. -/
theorem isOpen_step_of_working (code : Meaning κ τ ρ) (hopen : s.isOpen = true)
    (hfin : s.machine.control.isFinished = false) : (s.step code e).isOpen = true := by
  by_cases he : e = .advance
  · subst he
    exact hopen
  · cases aside_step (s := s) code he with
    | rested _ _ _ hsame | answered _ _ _ _ hsame | started _ _ _ _ hsame => exact hsame.trans hopen
    | dropped hidle => simp [hidle.2] at hfin

/-- Only dropping closes an interpreter. -/
private theorem isOpen_step (code : Meaning κ τ ρ) (hopen : s.isOpen = true)
    (h : (s.step code e).isOpen = false) : (s.step code e).machine.control.isFinished = true := by
  by_cases he : e = .advance
  · subst he
    exact absurd (hopen.symm.trans h) (by decide)
  -- to be dropped is the only way to be closed
  · cases aside_step (s := s) code he with
    | rested _ _ _ hsame | answered _ _ _ _ hsame | started _ _ _ _ hsame =>
      simp [hsame, hopen] at h
    | dropped hidle hcontrol => exact hcontrol ▸ hidle.2

/-- Whatever happens, a sound system stays sound. -/
theorem sound_step (code : Meaning κ τ ρ) (h : s.Sound) : (s.step code e).Sound := by
  -- each part of the invariant by its own lemma; what is left is which part is asked for
  obtain ⟨hthreshold, hmask⟩ := slot_step (e := e) code h
  refine ⟨hthreshold, hmask, nested_step code h, fitting_step code h, idle_step code h,
    fun hopen => ?_, fun hclosed => ?_⟩
  · cases hs : s.isOpen with
    | true =>
      obtain ⟨o, ho⟩ := h.standing hs
      obtain ⟨o', ho', -⟩ := posture_step code h ho hopen
      exact ⟨o', ho'⟩
    | false =>
      have := (dropped_step (e := e) code hs (h.dropped hs)).1
      simp [hopen] at this
  · cases hs : s.isOpen with
    | true => exact isOpen_step code hs hclosed
    | false => exact (dropped_step (e := e) code hs (h.dropped hs)).2

end System

namespace Run

variable {code : Meaning κ τ ρ}

/-- Every state of a run is sound. -/
theorem sound (r : Run code) (n : Nat) : (r.state n).Sound := by
  induction n with
  | zero => exact System.sound_opened r.opened
  | succ n ih => rw [r.next]; exact System.sound_step code ih

/-- A run goes on with a step of the interpreter. -/
theorem step_of_advance (r : Run code) {n : Nat} (h : r.event n = .advance) :
    (r.state (n + 1)).machine = (r.state n).machine.step code := by
  rw [r.next, h]
  rfl

/-- An interpreter that was dropped is not opened again. -/
theorem dropped (r : Run code) {n m : Nat} (h : n ≤ m) (hn : (r.state n).isOpen = false) :
    (r.state m).isOpen = false := by
  induction m, h using Nat.le_induction with
  | base => exact hn
  | succ m _ ih =>
    rw [r.next]
    exact (System.dropped_step code ih ((r.sound m).dropped ih)).1

end Run

end Safepoint
