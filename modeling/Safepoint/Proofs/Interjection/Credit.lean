import Safepoint.Proofs.Cancellation.Delivery
import Safepoint.Proofs.Handles

/-!
# Armings as credits

Each entry of the safepoint handler is paid for by an arming of the hook. An arming is a credit, of
which the mask holds one at most; an entry that raises no cancellation spends it as it disarms the
hook, and one that raises leaves it for the next. The hook is armed by calls that have made a
request before, and by passes that have failed; so without requests no handler is entered to begin
with.

## Key results

- `Run.invocations_eq`: the entries so far have raised, or disarmed, or are about to
- `Run.disarmings_le`: the hook is disarmed no more often than it is armed
- `Run.not_arming_of_unrequested`: calls that make no request do not arm the hook
- `Run.unentered`: where the hook is not armed and nobody makes a request, there is no entry
-/

namespace Safepoint

variable {κ τ ρ : Type}

/-- Whether a machine is in the handler of a safepoint, up to where the hook is disarmed. -/
def Control.isDeciding (c : Control κ τ ρ) : Bool :=
  match c.past with
  | .handle .enter _ | .handle .readFlag _ | .handle .readMessage _ | .handle .disarm _ => true
  | _ => false

/-- Whether a machine is where `isDeciding` says and its entry has been counted. -/
def Control.isCounted (c : Control κ τ ρ) : Bool :=
  match c.past with
  | .handle .readFlag _ | .handle .readMessage _ | .handle .disarm _ => true
  | _ => false

/-- Whether a pass over the mailbox has failed and may yet arm the hook again. -/
def Control.isFailing (c : Control κ τ ρ) : Bool :=
  match c.past with
  | .settle (.mailbox _) _ (.error _) | .measure _ | .rearm .. => true
  | _ => false

/-- A handler whose entry has been counted has yet to disarm the hook. -/
theorem Control.isDeciding_of_isCounted {c : Control κ τ ρ} (h : c.isCounted = true) :
    c.isDeciding = true := by
  unfold isCounted at h
  unfold isDeciding
  split <;> simp_all

/-- Neither the handler nor its pass is ordinary work. -/
theorem Control.elsewhere_of_isOrdinary {c : Control κ τ ρ} (h : c.isOrdinary = true) :
    c.isDeciding = false ∧ c.isCounted = false ∧ c.isFailing = false := by
  rw [← c.isOrdinary_past] at h
  unfold isDeciding isCounted isFailing
  cases hc : c.past with
  | settle source => cases source <;> simp_all [isOrdinary]
  | _ => simp_all [isOrdinary]

namespace HostPhase

variable {m : Mailbox κ} {p : HostPhase κ}

/-- A call that keeps the interpreter is not over. -/
theorem going_of_keeps (h : p.keeps = true) : p.ending? = none := by
  cases p <;> first | rfl | exact nomatch h

/-- A call arms the hook for an action when it has queued the action. -/
theorem enqueue_of_step (h : (p.step m).2.1 = .armForAction) : ∃ action, p = .enqueue action := by
  cases p with
  | enqueue action => exact ⟨action, rfl⟩
  | reach call => cases call <;> cases hk : m.isKept <;> simp [step, hk, first] at h
  | readFlag => cases hf : m.cancelFlag <;> simp [step, hf] at h
  | _ => cases h

/-- A call raises the flag when it has stored the message. -/
theorem storeMessage_of_step {text : String} (h : (p.step m).2.1 = .raiseFlag text) :
    ∃ encoding, p = .storeMessage text encoding := by
  cases p with
  | storeMessage text' encoding =>
    obtain rfl : text' = text := by simpa [step] using h
    exact ⟨encoding, rfl⟩
  | reach call => cases call <;> cases hk : m.isKept <;> simp [step, hk, first] at h
  | readFlag => cases hf : m.cancelFlag <;> simp [step, hf] at h
  | _ => cases h

/-- A call arms the hook for a cancellation when it has raised the flag. -/
theorem raiseFlag_of_step {text : String} (h : (p.step m).2.1 = .armForCancel text) :
    p = .raiseFlag text := by
  cases p with
  | raiseFlag text' => simpa [step] using h
  | reach call => cases call <;> cases hk : m.isKept <;> simp [step, hk, first] at h
  | readFlag => cases hf : m.cancelFlag <;> simp [step, hf] at h
  | _ => cases h

end HostPhase

/-! ## What counts -/

namespace System

variable {s : System κ τ ρ} {e : Event κ τ ρ}

/-- Whether an event is the handler's raising of a cancellation. -/
def raising (s : System κ τ ρ) : Event κ τ ρ → Bool
  | .advance =>
    match s.machine.control with
    | .handle .readMessage _ => s.machine.mailbox.cancelMessage.isSome
    | _ => false
  | _ => false

/-- Whether an event is the arming of the hook for an action. -/
def armingForAction (s : System κ τ ρ) (e : Event κ τ ρ) : Bool :=
  match s.access? e with
  | some (_, .armForAction) => true
  | _ => false

/-- Whether an event is the arming of the hook for a cancellation. -/
def armingForCancel (s : System κ τ ρ) (e : Event κ τ ρ) : Bool :=
  match s.access? e with
  | some (_, .armForCancel _) => true
  | _ => false

/-- Whether an event is the arming of the hook for what a failed pass has left in the queue. -/
def rearming (s : System κ τ ρ) : Event κ τ ρ → Bool
  | .advance =>
    match s.machine.control with
    | .rearm .. => true
    | _ => false
  | _ => false

/-- Whether an event is the access by which a call requests that an action be run. -/
def interjecting (s : System κ τ ρ) (e : Event κ τ ρ) : Bool :=
  match s.access? e with
  | some (_, .enqueue _) => true
  | _ => false

/-- Whether an event is the access by which a call requests a cancellation. -/
def cancelling (s : System κ τ ρ) (e : Event κ τ ρ) : Bool :=
  match s.access? e with
  | some (_, .storeMessage ..) => true
  | _ => false

/-- Only a handler whose entry has been counted raises a cancellation or disarms the hook. -/
theorem raising_eq_false (h : s.machine.control.isCounted = false) (e : Event κ τ ρ) :
    s.raising e = false ∧ s.disarming e = false := by
  cases e with
  | advance =>
    simp only [raising, disarming]
    cases hc : s.machine.control with
    | handle phase info => cases phase <;> simp_all [Control.isCounted, Control.past]
    | _ => exact ⟨rfl, rfl⟩
  | _ => exact ⟨rfl, rfl⟩

/-- Only a pass that has failed arms the hook again. -/
theorem rearming_eq_false (h : s.machine.control.isFailing = false) : s.rearming e = false := by
  cases e with
  | advance =>
    simp only [rearming]
    cases hc : s.machine.control <;> simp_all [Control.isFailing, Control.past]
  | _ => rfl

/-- There are three reasons to arm the hook, and an event has one at most. -/
theorem arming_eq (s : System κ τ ρ) (e : Event κ τ ρ) : (s.arming e).toNat =
    (s.armingForAction e).toNat + (s.armingForCancel e).toNat + (s.rearming e).toNat := by
  cases hacc : s.access? e with
  | some cp =>
    obtain ⟨c, p⟩ := cp
    -- who makes an access for a call is not in a pass that failed
    have hpass : s.rearming e = false := by
      obtain ⟨-, ⟨t, rfl, -⟩ | ⟨rfl, -, hc⟩⟩ := access?_eq_some hacc
      · rfl
      · simp [rearming, hc]
    simp only [arming, armingForAction, armingForCancel, hacc, hpass]
    cases p <;> rfl
  | none =>
    simp only [arming, armingForAction, armingForCancel, hacc]
    cases e with
    | advance =>
      simp only [rearming]
      split <;> simp_all
    | _ => rfl

/-- Only the interpreter's own thread counts, raises or disarms: moves of the machine. -/
private theorem invocations_move {code : Meaning κ τ ρ} {m' : Machine κ τ ρ}
    (h : s.machine.Move code m') :
    m'.mailbox.invocations + s.machine.control.isCounted.toNat =
      s.machine.mailbox.invocations + (s.raising .advance).toNat +
        (s.disarming .advance).toNat + m'.control.isCounted.toNat := by
  -- an entry is counted on its way in and accounted for where it raises or disarms
  cases h with
  | works hw hord =>
    have hfrom := (Control.elsewhere_of_isOrdinary hord).2.1
    have hto : m'.control.isCounted = false := by
      rcases hw.control with hord' | ⟨-, outcome, hfin⟩
      · exact (Control.elsewhere_of_isOrdinary hord').2.1
      · rw [hfin]
        rfl
    obtain ⟨hraising, hdisarming⟩ := raising_eq_false hfrom .advance
    rw [hw.mailbox, hfrom, hto, hraising, hdisarming]
    rfl
  | @synced points control hat hpast =>
    -- what comes after the syncpoint is the same, and a syncpoint is no part of the handler itself
    have hsame : control.isCounted = s.machine.control.isCounted := by
      simp only [Control.isCounted, hpast]
    have hraising : s.raising .advance = false ∧ s.disarming .advance = false := by
      simp only [raising, disarming]
      cases hs : s.machine.control <;> simp_all [Control.atSyncpoint]
    simp [hsame, hraising]
  | posted hc _ hmail _ _ _ _ hord =>
    have hto := (Control.elsewhere_of_isOrdinary hord).2.1
    rw [hmail, HostPhase.invocations_step, hto]
    simp [raising, disarming, hc, Control.isCounted, Control.past]
  | dispatched hc _ _ _ hmail _ _ _ hhandles =>
    simp [raising, disarming, hc, hmail, hhandles, Control.isCounted, Control.past]
  | entered hc =>
    simp [raising, disarming, hc, Control.isCounted, Control.past, Machine.goto,
      Mailbox.countInvocation]
  | flagRead hc =>
    simp only [raising, disarming, hc, Control.isCounted, Control.past, Machine.goto]
    cases s.machine.mailbox.cancelFlag <;> rfl
  | raised hc hstored =>
    simp [raising, disarming, hc, hstored, Control.isCounted, Control.past, Machine.raise,
      Machine.goto, Machine.note, Machine.mapStore]
  | lowered hc hnone =>
    simp [raising, disarming, hc, hnone, Control.isCounted, Control.past, Machine.goto,
      Mailbox.storeFlag]
  | disarmed hc =>
    simp [raising, disarming, hc, Control.isCounted, Control.past, Machine.goto, Mailbox.disarm]
  | ended hc _ hmail _ _ _ hsettles =>
    simp [raising, disarming, hc, hmail, hsettles, Control.isCounted, Control.past]
  | rested hc => simp [raising, disarming, hc, Control.isCounted, Control.past]
  | returned hc => simp [raising, disarming, hc, Control.isCounted, Control.past]
  | acquired hc | reentered hc | popped hc | drained hc | succeeded hc | failed hc | measured hc
  | emptied hc | rearmed hc | told hc | unmarked hc =>
    simp only [raising, disarming, hc, Control.isCounted, Control.past]
    rfl

/-- Only the interpreter's own thread enters the handler. -/
theorem invocations_aside (code : Meaning κ τ ρ) (he : e ≠ .advance) :
    (s.step code e).machine.mailbox.invocations = s.machine.mailbox.invocations := by
  cases hacc : s.access? e with
  | some cp => rw [mailbox_of_access code hacc, HostPhase.invocations_step]
  | none =>
    obtain ⟨keepers, hk⟩ := mailbox_of_aside code hacc he
    rw [hk]

/-- The entries of the handler, those that raised and those that disarmed, event by event. -/
private theorem invocations_step (code : Meaning κ τ ρ) (h : s.Sound) :
    (s.step code e).machine.mailbox.invocations + s.machine.control.isCounted.toNat =
      s.machine.mailbox.invocations + (s.raising e).toNat + (s.disarming e).toNat +
        (s.step code e).machine.control.isCounted.toNat := by
  by_cases he : e = .advance
  · subst he
    exact invocations_move (h.move code)
  · have hothers : s.raising e = false ∧ s.disarming e = false := by
      cases e <;> simp_all [raising, disarming]
    -- no other thread sets the interpreter to work in the handler
    have hsame : (s.step code e).machine.control.isCounted = s.machine.control.isCounted := by
      cases aside_step (s := s) code he with
      | rested hcontrol | dropped _ hcontrol => rw [hcontrol]
      | answered hwaiting hruns =>
        obtain ⟨x, given, held, next, hc⟩ := hwaiting
        obtain ⟨held', p, hruns⟩ := hruns
        rw [hc, hruns]
        rfl
      | started hidle hruns =>
        obtain ⟨held, p, hruns⟩ := hruns
        cases hc : s.machine.control <;> simp_all [Control.isFinished, Control.isCounted,
          Control.past]
    simp [invocations_aside code he, hothers, hsame]

/-- Between its poll and its disarm, the handler finds the hook armed: moves of the machine. -/
private theorem armed_of_deciding_move {code : Meaning κ τ ρ} {m m' : Machine κ τ ρ}
    (h : m.Move code m') (hm : m.control.isDeciding = true → m.mailbox.slot.mask.isEmpty = false)
    (hdeciding : m'.control.isDeciding = true) : m'.mailbox.slot.mask.isEmpty = false := by
  -- only a safepoint that found the mask armed enters the handler
  cases h with
  | works hw =>
    rcases hw.control with hord | ⟨-, outcome, hfin⟩
    · rw [(Control.elsewhere_of_isOrdinary hord).1] at hdeciding
      exact nomatch hdeciding
    · rw [hfin] at hdeciding
      exact nomatch hdeciding
  | synced _ hpast =>
    apply hm
    rw [Control.isDeciding, ← hpast]
    exact hdeciding
  | posted _ _ _ _ _ _ _ hord =>
    rw [(Control.elsewhere_of_isOrdinary hord).1] at hdeciding
    exact nomatch hdeciding
  | dispatched _ harmed _ _ hmail => rw [hmail]; exact harmed
  | entered hc | flagRead hc | lowered hc =>
    have harmed := hm (by rw [hc]; rfl)
    exact harmed
  | ended _ _ _ _ _ _ hsettles =>
    rw [hsettles] at hdeciding
    exact nomatch hdeciding
  | rested => exact hm hdeciding
  | _ => exact nomatch hdeciding

/-- Whatever arms the hook does not disarm it. -/
theorem arming_of_disarming (h : s.disarming e = true) : s.arming e = false := by
  obtain ⟨rfl, info, hc⟩ := disarming_eq_true h
  simp [arming, access?, hc]

/-- Between its poll and its disarm, the handler finds the hook armed, whatever others do. -/
private theorem armed_of_deciding_step (code : Meaning κ τ ρ) (h : s.Sound)
    (hs : s.machine.control.isDeciding = true → s.machine.mailbox.slot.mask.isEmpty = false)
    (hdeciding : (s.step code e).machine.control.isDeciding = true) :
    (s.step code e).machine.mailbox.slot.mask.isEmpty = false := by
  by_cases he : e = .advance
  · subst he
    exact armed_of_deciding_move (h.move code) hs hdeciding
  · rw [mask_step code h]
    split
    · rfl
    · -- no other thread disarms the hook, or sets the interpreter to work in the handler
      have hkeeps : s.disarming e = false := by
        cases e <;> simp_all [disarming]
      rw [hkeeps]
      rcases (aside_step (s := s) code he).control_eq with hcontrol | ⟨held, p, hruns⟩
      · exact hs (hcontrol ▸ hdeciding)
      · rw [hruns] at hdeciding
        cases hdeciding

end System

namespace Run

variable {code : Meaning κ τ ρ} {r : Run code}

/-- How many events of a kind there have been so far. -/
def tally (r : Run code) (what : System κ τ ρ → Event κ τ ρ → Bool) : Nat → Nat
  | 0 => 0
  | n + 1 => r.tally what n + (what (r.state n) (r.event n)).toNat

/-- Without an event of a kind there are as many as before. -/
theorem tally_eq {what : System κ τ ρ → Event κ τ ρ → Bool} {k n : Nat} (hkn : k ≤ n)
    (h : ∀ j, k ≤ j → j < n → what (r.state j) (r.event j) = false) :
    r.tally what n = r.tally what k := by
  -- the induction is on the steps, and none of them counts
  induction n, hkn using Nat.le_induction with
  | base => rfl
  | succ n hkn ih =>
    have hnone := h n hkn (Nat.lt_succ_self n)
    have hbefore := ih fun j hkj hjn => h j hkj (by omega)
    simp [tally, hnone, hbefore]

/-- The armings so far, by what the hook was armed for. -/
theorem tally_arming (r : Run code) (n : Nat) : r.tally System.arming n =
    r.tally System.armingForAction n + r.tally System.armingForCancel n +
      r.tally System.rearming n := by
  induction n with
  | zero => rfl
  | succ n ih =>
    have hstep := System.arming_eq (r.state n) (r.event n)
    simp only [tally]
    omega

/-- Each entry of the handler has raised a cancellation, or has disarmed the hook, or is about to do
one of the two. -/
theorem invocations_eq (r : Run code) (n : Nat) :
    (r.state n).machine.mailbox.invocations =
      r.tally System.raising n + r.tally System.disarming n +
        (r.state n).machine.control.isCounted.toNat := by
  induction n with
  | zero =>
    obtain ⟨-, -, hmail, -, hcontrol, -⟩ := System.opened_machine r.opened
    rw [hmail, hcontrol]
    rfl
  | succ n ih =>
    have hstep := System.invocations_step (e := r.event n) code (r.sound n)
    rw [← r.next] at hstep
    simp only [tally]
    omega

/-- Between its poll and its disarm, the handler finds the hook armed. -/
theorem armed_of_deciding (r : Run code) (n : Nat)
    (h : (r.state n).machine.control.isDeciding = true) :
    (r.state n).machine.mailbox.slot.mask.isEmpty = false := by
  induction n with
  | zero =>
    obtain ⟨-, -, -, -, hcontrol, -⟩ := System.opened_machine r.opened
    rw [hcontrol] at h
    exact nomatch h
  | succ n ih =>
    rw [r.next] at h ⊢
    exact System.armed_of_deciding_step code (r.sound n) ih h

/-- An entry that has been counted and has not yet disarmed the hook finds it armed. -/
theorem isCounted_le (r : Run code) (n : Nat) : (r.state n).machine.control.isCounted.toNat ≤
    (!(r.state n).machine.mailbox.slot.mask.isEmpty).toNat := by
  cases hcounted : (r.state n).machine.control.isCounted with
  | false => exact Nat.zero_le _
  | true =>
    rw [r.armed_of_deciding n (Control.isDeciding_of_isCounted hcounted)]
    exact Nat.le_refl 1

/-- Since any step, the hook has been disarmed no more often than it was armed, unless it was armed
then; and if it is armed now, one arming is left. -/
theorem disarmings_le (r : Run code) {k n : Nat} (hkn : k ≤ n) :
    r.tally System.disarming n + (!(r.state n).machine.mailbox.slot.mask.isEmpty).toNat +
        r.tally System.arming k ≤
      r.tally System.disarming k + (!(r.state k).machine.mailbox.slot.mask.isEmpty).toNat +
        r.tally System.arming n := by
  -- the mask holds a credit when it is armed: an arming puts it there, a disarming spends it
  induction n, hkn using Nat.le_induction with
  | base => exact Nat.le_refl _
  | succ n _ ih =>
    have hmask := System.mask_step (e := r.event n) code (r.sound n)
    rw [← r.next] at hmask
    simp only [tally]
    cases hdisarms : (r.state n).disarming (r.event n) with
    | true =>
      -- the credit that is spent is the one that the mask held
      obtain ⟨-, info, hc⟩ := System.disarming_eq_true hdisarms
      have harmed := r.armed_of_deciding n (by rw [hc]; rfl)
      have harms := System.arming_of_disarming hdisarms
      simp only [harms, hdisarms, Bool.false_eq_true, if_false, if_true] at hmask
      simp only [harmed, Bool.not_false, Bool.toNat_true] at ih
      simp only [hmask, harms, HookMask.isEmpty_empty, Bool.not_true, Bool.toNat_true,
        Bool.toNat_false]
      omega
    | false =>
      simp only [hdisarms, Bool.false_eq_true, if_false] at hmask
      cases harms : (r.state n).arming (r.event n) with
      | true =>
        simp only [harms, if_true] at hmask
        simp only [hmask, HookMask.isEmpty_armed, Bool.not_false, Bool.toNat_true,
          Bool.toNat_false]
        omega
      | false =>
        simp only [harms, Bool.false_eq_true, if_false] at hmask
        simp only [hmask, Bool.toNat_false]
        omega

/-! ## Requests -/

/-- A call in flight rests, or an access takes it where it is next. -/
private theorem phase_before (r : Run code) {n : Nat} {c : Caller} {q : HostPhase κ}
    (hq : (r.state (n + 1)).phase c = q) (hkeeps : q.keeps = true) :
    (r.state n).phase c = q ∨
      ∃ p, (r.state n).access? (r.event n) = some (c, p) ∧
        (p.step (r.state n).machine.mailbox).2.1 = q := by
  rw [r.next] at hq
  -- only an access of its own takes the caller from one phase to another
  by_cases hacc : ∃ p, (r.state n).access? (r.event n) = some (c, p)
  · obtain ⟨p, hacc⟩ := hacc
    rw [System.phase_step_of_access code hacc] at hq
    exact .inr ⟨p, hacc, hq⟩
  · have hnot : ∀ p, (r.state n).access? (r.event n) ≠ some (c, p) :=
      fun p h => hacc ⟨p, h⟩
    have hbefore := System.keeps_of_aside code hnot
    rw [hq, hkeeps] at hbefore
    rw [System.phase_step_of_going code ?_ hnot] at hq
    · exact .inl hq
    · exact HostPhase.going_of_keeps hbefore.symm

/-- A call that is about to arm the hook for an action has queued the action before. -/
private theorem exists_interjecting {c : Caller} {i n : Nat} (hin : i ≤ n)
    (hover : ((r.state i).phase c).keeps = false) (hc : (r.state n).phase c = .armForAction) :
    ∃ j, i ≤ j ∧ j < n ∧ (r.state j).interjecting (r.event j) = true := by
  -- the induction is on the steps back to the one at which the call queued its action
  induction n, hin using Nat.le_induction with
  | base =>
    rw [hc] at hover
    exact nomatch hover
  | succ n hin ih =>
    rcases r.phase_before hc rfl with hrests | ⟨p, hacc, hstep⟩
    · obtain ⟨j, hij, hjn, hj⟩ := ih hrests
      exact ⟨j, hij, by omega, hj⟩
    · obtain ⟨action, rfl⟩ := HostPhase.enqueue_of_step hstep
      exact ⟨n, hin, by omega, by simp [System.interjecting, hacc]⟩

/-- A call that is about to raise the flag has stored its message before. -/
private theorem exists_cancelling {c : Caller} {i n : Nat} {text : String} (hin : i ≤ n)
    (hover : ((r.state i).phase c).keeps = false)
    (hc : (r.state n).phase c = .raiseFlag text ∨ (r.state n).phase c = .armForCancel text) :
    ∃ j, i ≤ j ∧ j < n ∧ (r.state j).cancelling (r.event j) = true := by
  -- the hook is armed after the flag is raised, and the flag after the message is stored
  induction n, hin using Nat.le_induction with
  | base =>
    rcases hc with hc | hc <;>
    · rw [hc] at hover
      exact nomatch hover
  | succ n hin ih =>
    have earlier (h : (r.state n).phase c = .raiseFlag text ∨
        (r.state n).phase c = .armForCancel text) :
        ∃ j, i ≤ j ∧ j < n + 1 ∧ (r.state j).cancelling (r.event j) = true := by
      obtain ⟨j, hij, hjn, hj⟩ := ih h
      exact ⟨j, hij, by omega, hj⟩
    rcases hc with hc | hc
    · rcases r.phase_before hc rfl with hrests | ⟨p, hacc, hstep⟩
      · exact earlier (.inl hrests)
      · obtain ⟨encoding, rfl⟩ := HostPhase.storeMessage_of_step hstep
        exact ⟨n, hin, by omega, by simp [System.cancelling, hacc]⟩
    · rcases r.phase_before hc rfl with hrests | ⟨p, hacc, hstep⟩
      · exact earlier (.inr hrests)
      · -- the flag is raised before the hook is armed
        obtain rfl := HostPhase.raiseFlag_of_step hstep
        exact earlier (.inl (System.phase_of_access hacc))

/-- Where nobody has a call in flight and nobody makes a request from then on, no call arms the
hook. -/
theorem not_arming_of_unrequested {i n : Nat}
    (hover : ∀ c, ((r.state i).phase c).keeps = false) (hin : i ≤ n)
    (hnone : ∀ j, i ≤ j → j < n → (r.state j).interjecting (r.event j) = false ∧
      (r.state j).cancelling (r.event j) = false) :
    (r.state n).armingForAction (r.event n) = false ∧
      (r.state n).armingForCancel (r.event n) = false := by
  unfold System.armingForAction System.armingForCancel
  cases hacc : (r.state n).access? (r.event n) with
  | none => exact ⟨rfl, rfl⟩
  | some cp =>
    obtain ⟨c, p⟩ := cp
    have hphase := System.phase_of_access hacc
    -- who arms has made its request before, and since step `i`
    cases p with
    | armForAction =>
      obtain ⟨j, hij, hjn, hj⟩ := exists_interjecting hin (hover c) hphase
      rw [(hnone j hij hjn).1] at hj
      exact nomatch hj
    | armForCancel text =>
      obtain ⟨j, hij, hjn, hj⟩ := exists_cancelling hin (hover c) (.inr hphase)
      rw [(hnone j hij hjn).2] at hj
      exact nomatch hj
    | _ => exact ⟨rfl, rfl⟩

/-! ## No request -/

/-- As long as the hook is not armed, an interpreter outside of the handler stays outside. -/
theorem unentered_succ {n : Nat} (hmask : (r.state n).machine.mailbox.slot.mask = .empty)
    (hout : (r.state n).isOpen = true → (r.state n).machine.Posture none)
    (hopen : (r.state (n + 1)).isOpen = true) : (r.state (n + 1)).machine.Posture none := by
  have hbefore : (r.state n).isOpen = true := by
    rw [r.next] at hopen
    -- nobody is in the handler, and an empty mask lets nobody in
    exact (r.sound n).isOpen_of_step code hopen
  rw [r.next] at hopen ⊢
  obtain ⟨o, ho, rfl | ⟨-, hturn⟩⟩ := System.posture_step code (r.sound n) (hout hbefore) hopen
  · exact ho
  · cases hturn with
    | same => exact ho
    | entered _ harmed =>
      rw [hmask] at harmed
      exact nomatch harmed

/-- Outside of the handler, no entry is counted, and no pass arms the hook again. -/
theorem elsewhere_of_outside {n : Nat}
    (hout : (r.state n).isOpen = true → (r.state n).machine.Posture none) :
    (r.state n).machine.control.isDeciding = false ∧
      (r.state n).machine.control.isCounted = false ∧
      (r.state n).machine.control.isFailing = false := by
  have of_finished (h : (r.state n).machine.control.isFinished = true) :
      (r.state n).machine.control.isDeciding = false ∧
        (r.state n).machine.control.isCounted = false ∧
        (r.state n).machine.control.isFailing = false := by
    cases hc : (r.state n).machine.control <;> simp_all [Control.isFinished, Control.isDeciding,
      Control.isCounted, Control.isFailing, Control.past]
  -- a dropped interpreter rests, and an open one is at work of its own
  cases hopen : (r.state n).isOpen with
  | false => exact of_finished ((r.sound n).dropped hopen)
  | true =>
    cases hout hopen with
    | resting hc => exact of_finished (by rw [hc]; rfl)
    | working hc => exact Control.elsewhere_of_isOrdinary hc

/-- Where the hook is not armed, no call is in flight and nobody makes a request, the handler is not
entered. -/
theorem unentered {i n : Nat} (hin : i ≤ n) (hover : ∀ c, ((r.state i).phase c).keeps = false)
    (hmask : (r.state i).machine.mailbox.slot.mask = .empty)
    (hout : (r.state i).isOpen = true → (r.state i).machine.Posture none)
    (hnone : ∀ j, i ≤ j → j < n → (r.state j).interjecting (r.event j) = false ∧
      (r.state j).cancelling (r.event j) = false) :
    (r.state n).machine.mailbox.slot.mask = .empty ∧
      ((r.state n).isOpen = true → (r.state n).machine.Posture none) ∧
      (r.state n).machine.mailbox.invocations = (r.state i).machine.mailbox.invocations := by
  induction n, hin using Nat.le_induction with
  | base => exact ⟨hmask, hout, rfl⟩
  | succ n hin ih =>
    obtain ⟨hmaskn, houtn, hsame⟩ := ih fun j hij hjn => hnone j hij (by omega)
    have hunarmed := not_arming_of_unrequested hover hin fun j hij hjn => hnone j hij (by omega)
    obtain ⟨hdeciding, hcounted, hfailing⟩ := elsewhere_of_outside houtn
    have houtn' := unentered_succ hmaskn houtn
    have hstep := System.invocations_step (e := r.event n) code (r.sound n)
    have hmask' := System.mask_step (e := r.event n) code (r.sound n)
    rw [← r.next] at hstep hmask'
    -- no call arms the hook, and no pass is there to do so
    have harming : (r.state n).arming (r.event n) = false := by
      have hthree := System.arming_eq (r.state n) (r.event n)
      rw [hunarmed.1, hunarmed.2, System.rearming_eq_false hfailing] at hthree
      simpa using hthree
    have hquiet := System.raising_eq_false hcounted (r.event n)
    rw [harming, hquiet.2] at hmask'
    rw [hcounted, hquiet.1, hquiet.2, (elsewhere_of_outside houtn').2.1] at hstep
    refine ⟨hmask'.trans hmaskn, houtn', ?_⟩
    simp only [Bool.toNat_false] at hstep
    omega

end Run

end Safepoint
