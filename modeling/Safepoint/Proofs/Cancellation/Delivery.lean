import Safepoint.Proofs.Cancellation.Raising

/-!
# The delivery of cancellations

A cancellation is stored, its flag is raised, and the hook is armed, in this order. Nothing but a
withdrawal undoes the first two. The third can be undone by a handler that was entered for something
else: if it looked for a cancellation before this one was there to be seen, and disarms the hook
after the arming, then the hook stays disarmed although a cancellation is pending, until somebody
arms it for another reason. The arming was *overtaken* by the disarm, and the script runs on.

This is the only way in which a cancellation gets lost: unless its arming is overtaken, each
safepoint that may enter the handler and polls after it raises the message that was stored last.

## Key results

- `Run.armed_or_overtaken`: the hook stays armed for a cancellation, or its arming was overtaken
- `Run.cancellation_raised_unless_overtaken`: delivery, and its exact condition
- `Run.cancellation_lost`: a schedule that overtakes an arming
-/

namespace Safepoint

variable {κ τ ρ : Type}

namespace Machine

variable {m m' : Machine κ τ ρ} {code : Meaning κ τ ρ}

/-! ## What moves do to a cancellation and to the hook -/

/-- The interpreter's own thread stores no message and takes none away. -/
theorem cancelMessage_move (h : Move code m m') (hpost : m.PostsNothing) :
    m'.mailbox.cancelMessage = m.mailbox.cancelMessage := by
  cases h with
  | works hw => rw [hw.mailbox]
  | posted hc hgoing => exact absurd hgoing (hpost.not_going hc)
  | dispatched _ _ _ _ hmail => rw [hmail]
  | ended _ _ hmail => rw [hmail]
  | _ => rfl

/-- The interpreter's own thread lowers the flag only if there is no message behind it. -/
theorem cancelFlag_move (h : Move code m m') (hpost : m.PostsNothing)
    (hmessage : m.mailbox.cancelMessage ≠ none) : m'.mailbox.cancelFlag = m.mailbox.cancelFlag := by
  cases h with
  | works hw => rw [hw.mailbox]
  | posted hc hgoing => exact absurd hgoing (hpost.not_going hc)
  | dispatched _ _ _ _ hmail => rw [hmail]
  | ended _ _ hmail => rw [hmail]
  -- the handler looks at the message and lowers the flag under one lock
  | lowered _ hnone => exact absurd hnone hmessage
  | _ => rfl

/-- The interpreter's own thread changes the mask in two places only. -/
theorem mask_move (h : Move code m m') (hpost : m.PostsNothing) :
    m'.mailbox.slot.mask = match m.control with
      | .handle .disarm _ => .empty
      | .rearm .. => .armed
      | _ => m.mailbox.slot.mask := by
  -- the handler's disarm and a failed pass write the mask, and no other move does
  cases h with
  | works hw hord =>
    rw [hw.mailbox]
    split <;> simp_all [Control.isOrdinary]
  | synced hat => split <;> simp_all [Control.atSyncpoint]
  | posted hc hgoing => exact absurd hgoing (hpost.not_going hc)
  | dispatched hc _ _ _ hmail => rw [hmail, hc]
  | ended hc _ hmail => rw [hmail, hc]
  | entered hc | flagRead hc | raised hc | lowered hc | disarmed hc | acquired hc | reentered hc
  | popped hc | drained hc | succeeded hc | failed hc | measured hc | emptied hc | rearmed hc
  | told hc | unmarked hc =>
    rw [hc]
    rfl
  | returned hc | rested hc => rw [hc]

/-- The handler checks no syncpoint between its look for a cancellation and its disarm. -/
private theorem past_of_disarm_move (h : Move code m m') {info : HookInfo}
    (hchecked : m.control.past = .handle .disarm info → m.control = .handle .disarm info)
    (hc : m'.control.past = .handle .disarm info) : m'.control = .handle .disarm info := by
  -- of the moves of the handler, only two lead to the disarm, and to no syncpoint before it
  cases h with
  | works hw =>
    rcases hw.control with hord | ⟨-, outcome, hfin⟩
    · rw [← Control.isOrdinary_past, hc] at hord
      exact nomatch hord
    · rw [hfin] at hc
      exact nomatch hc
  | synced hat hpast =>
    rw [hchecked (hpast.symm.trans hc)] at hat
    exact nomatch hat
  | posted _ _ _ _ _ _ _ hord =>
    rw [← Control.isOrdinary_past, hc] at hord
    exact nomatch hord
  | dispatched _ _ _ _ _ _ _ _ hhandles =>
    rw [hhandles] at hc
    exact nomatch hc
  | ended _ _ _ _ _ _ hsettles =>
    rw [hsettles] at hc
    exact nomatch hc
  | flagRead | lowered => exact hc
  | rested => exact hchecked hc
  | _ => exact nomatch hc

/-- While a cancellation is pending, no handler sets out to disarm the hook. -/
private theorem disarm_of_move (h : Move code m m') {message : Message}
    (hpending : m.mailbox.Pending message) {info : HookInfo}
    (hchecked : m.control.past = .handle .disarm info → m.control = .handle .disarm info)
    (hc : m'.control = .handle .disarm info) : m.control = .handle .disarm info := by
  obtain ⟨hflag, hmessage⟩ := hpending
  cases h with
  | works hw =>
    rcases hw.control with hord | ⟨-, outcome, hfin⟩
    · rw [hc] at hord
      cases hord
    · exact absurd (hc.symm.trans hfin) (by simp)
  | @synced points control _ hpast =>
    have hc : control = .handle .disarm info := hc
    apply hchecked
    rw [← hpast, hc]
    rfl
  | posted _ _ _ _ _ _ _ hord =>
    rw [hc] at hord
    cases hord
  | dispatched _ _ _ _ _ _ _ _ hhandles => exact absurd (hc.symm.trans hhandles) (by simp)
  -- the flag is raised, and the message behind it is there
  | flagRead => simp [goto, hflag] at hc
  | lowered _ hnone => simp [hmessage] at hnone
  | ended _ _ _ _ _ _ hsettles => exact absurd (hc.symm.trans hsettles) (by simp)
  | rested => exact hc
  | _ => cases hc

end Machine

namespace System

variable {s : System κ τ ρ} {e : Event κ τ ρ} {c : Caller} {p : HostPhase κ}

/-- The message is stored and taken away by calls through handles only. -/
theorem cancelMessage_step (code : Meaning κ τ ρ) (h : s.Sound) :
    (s.step code e).machine.mailbox.cancelMessage = match s.access? e with
      | some (_, .storeMessage text encoding) => some (.ofText text encoding)
      | some (_, .clearMessage) => none
      | _ => s.machine.mailbox.cancelMessage := by
  -- an access of a call writes what it says, and nothing else touches the message
  cases hacc : s.access? e with
  | some cp =>
    obtain ⟨c, p⟩ := cp
    rw [mailbox_of_access code hacc, HostPhase.cancelMessage_step]
    cases p <;> rfl
  | none =>
    by_cases he : e = .advance
    · subst he
      exact Machine.cancelMessage_move (h.move code) (postsNothing_of_access?_eq_none hacc)
    · obtain ⟨keepers, hk⟩ := mailbox_of_aside code hacc he
      rw [hk]

/-- While a message is stored, the flag is raised and lowered by calls through handles only. -/
theorem cancelFlag_step (code : Meaning κ τ ρ) (h : s.Sound)
    (hmessage : s.machine.mailbox.cancelMessage ≠ none) :
    (s.step code e).machine.mailbox.cancelFlag = match s.access? e with
      | some (_, .raiseFlag _) => true
      | some (_, .lowerFlag) => false
      | _ => s.machine.mailbox.cancelFlag := by
  -- the handler lowers the flag only where there is no message, and here there is one
  cases hacc : s.access? e with
  | some cp =>
    obtain ⟨c, p⟩ := cp
    have hsome := Option.isSome_iff_ne_none.mpr hmessage
    rw [mailbox_of_access code hacc, HostPhase.cancelFlag_step]
    cases p <;> simp [hsome]
  | none =>
    by_cases he : e = .advance
    · subst he
      exact Machine.cancelFlag_move (h.move code) (postsNothing_of_access?_eq_none hacc) hmessage
    · obtain ⟨keepers, hk⟩ := mailbox_of_aside code hacc he
      rw [hk]

/-- Whether an event is an access to withdraw a cancellation. -/
def reverting (s : System κ τ ρ) (e : Event κ τ ρ) : Bool :=
  match s.access? e with
  | some (_, p) => p.reverts
  | none => false

/-- An access that lowers the flag or clears the message takes part in a withdrawal. -/
theorem reverting_of_access (hacc : s.access? e = some (c, p)) (h : p.reverts = true) :
    s.reverting e = true := by
  simp [reverting, hacc, h]

/-- What takes part in a withdrawal lowers the flag or clears the message. -/
theorem reverting_eq_true (h : s.reverting e = true) :
    ∃ c, s.access? e = some (c, .lowerFlag) ∨ s.access? e = some (c, .clearMessage) := by
  unfold reverting at h
  split at h
  next c p hacc => cases p <;> simp_all [HostPhase.reverts]
  next => exact nomatch h

/-- Whether an event arms the hook: the last access of a call that does, or the handler after a pass
that failed. -/
def arming (s : System κ τ ρ) (e : Event κ τ ρ) : Bool :=
  match s.access? e with
  | some (_, p) => p.arms
  | none =>
    match e, s.machine.control with
    | .advance, .rearm .. => true
    | _, _ => false

/-- Whether an event disarms the hook. -/
def disarming (s : System κ τ ρ) : Event κ τ ρ → Bool
  | .advance =>
    match s.machine.control with
    | .handle .disarm _ => true
    | _ => false
  | _ => false

/-- Only the interpreter's own thread disarms the hook, and in the handler. -/
theorem disarming_eq_true (h : s.disarming e = true) :
    e = .advance ∧ ∃ info, s.machine.control = .handle .disarm info := by
  cases e with
  | advance =>
    simp only [disarming] at h
    split at h
    next info hc => exact ⟨rfl, info, hc⟩
    next => exact nomatch h
  | _ => exact nomatch h

/-- Whatever neither arms the hook nor disarms it leaves it as it was. -/
theorem mask_step (code : Meaning κ τ ρ) (h : s.Sound) :
    (s.step code e).machine.mailbox.slot.mask =
      if s.arming e then .armed
      else if s.disarming e then .empty
      else s.machine.mailbox.slot.mask := by
  -- only the handler disarms, and it makes no access for a call
  cases hacc : s.access? e with
  | some cp =>
    obtain ⟨c, p⟩ := cp
    have hkeeps : s.disarming e = false := by
      obtain ⟨-, ⟨t, rfl, -⟩ | ⟨rfl, -, hc⟩⟩ := access?_eq_some hacc
      · rfl
      · simp [disarming, hc]
    rw [mailbox_of_access code hacc, HostPhase.mask_step]
    simp [arming, hacc, hkeeps]
  | none =>
    by_cases he : e = .advance
    · subst he
      have hmask := Machine.mask_move (h.move code) (postsNothing_of_access?_eq_none hacc)
      simp only [step, hmask, arming, disarming, hacc]
      split <;> simp_all
    · obtain ⟨keepers, hk⟩ := mailbox_of_aside code hacc he
      have hkeeps : s.arming e = false ∧ s.disarming e = false := by
        cases e <;> simp_all [arming, disarming]
      simp [hk, hkeeps]

end System

namespace Run

variable {code : Meaning κ τ ρ} {r : Run code}

/-- At step `n` a call makes an access to withdraw a cancellation. -/
def Reverts (r : Run code) (n : Nat) : Prop :=
  (r.state n).reverting (r.event n) = true

/-- At step `n` a call stores the message of a cancellation. -/
def Stores (r : Run code) (n : Nat) (message : Message) : Prop :=
  ∃ c text encoding, r.Accesses n c (.storeMessage text encoding) ∧
    message = .ofText text encoding

/-- Before step `n`, this is the message that was stored last. -/
def StoredLast (r : Run code) (n : Nat) (message : Message) : Prop :=
  ∃ i < n, r.Stores i message ∧ ∀ j, i < j → j < n → ∀ message', ¬ r.Stores j message'

/-- The accesses of a cancellation to the mailbox, at steps `b`, `f` and `a`. -/
structure Cancels (r : Run code) (c : Caller) (b f a : Nat) : Prop where
  stores : ∃ text encoding, r.Accesses b c (.storeMessage text encoding)
  raises : ∃ text, r.Accesses f c (.raiseFlag text)
  arms : ∃ text, r.Accesses a c (.armForCancel text)
  raises_later : b < f
  arms_later : f < a

/-! ## Pending cancellations -/

/-- A message that was stored stays until it is withdrawn, or another one takes its place. -/
theorem stored (r : Run code) {c : Caller} {text : String} {encoding : Encoding} {b n : Nat}
    (hb : r.Accesses b c (.storeMessage text encoding)) (hbn : b < n)
    (hkept : ∀ t, b ≤ t → t < n → ¬ r.Reverts t) :
    ∃ message, (r.state n).machine.mailbox.cancelMessage = some message ∧
      r.StoredLast n message := by
  -- the induction is on the steps since the message was stored
  induction n, hbn using Nat.le_induction with
  | base =>
    refine ⟨.ofText text encoding, ?_, b, by omega, ⟨c, text, encoding, hb, rfl⟩, by omega⟩
    have hacc : (r.state b).access? (r.event b) = some (c, .storeMessage text encoding) := hb
    rw [r.next, System.cancelMessage_step code (r.sound b), hacc]
  | succ n hbn ih =>
    obtain ⟨message, hmessage, i, hin, hi, hlast⟩ := ih fun t hbt htn => hkept t hbt (by omega)
    have hstep := System.cancelMessage_step (e := r.event n) code (r.sound n)
    rw [← r.next, hmessage] at hstep
    -- either this step stores a message of its own, or it leaves the one there is
    by_cases hstores : ∃ message', r.Stores n message'
    · obtain ⟨message', c', text', encoding', hacc, rfl⟩ := hstores
      have hacc' : (r.state n).access? (r.event n) = some (c', .storeMessage text' encoding') :=
        hacc
      rw [hacc'] at hstep
      exact ⟨_, hstep, n, by omega, ⟨c', text', encoding', hacc, rfl⟩, by omega⟩
    · refine ⟨message, ?_, i, by omega, hi, fun j hij hjn => ?_⟩
      · rw [hstep]
        split
        next c' text' encoding' hacc => exact absurd ⟨_, c', text', encoding', hacc, rfl⟩ hstores
        next c' hacc =>
          exact absurd (System.reverting_of_access hacc rfl) (hkept n (by omega) (by omega))
        next => rfl
      · by_cases hj : j = n
        · subst hj
          exact fun message' h => hstores ⟨message', h⟩
        · exact hlast j hij (by omega)

/-- From the raising of its flag on, a cancellation is pending until it is withdrawn. -/
theorem Cancels.pending {c : Caller} {b f a n : Nat} (h : r.Cancels c b f a) (hfn : f < n)
    (hkept : ∀ t, b ≤ t → t < n → ¬ r.Reverts t) :
    ∃ message, (r.state n).machine.mailbox.Pending message ∧ r.StoredLast n message := by
  have hbf := h.raises_later
  obtain ⟨text, encoding, hb⟩ := h.stores
  have hstored (t : Nat) (hft : f ≤ t) (htn : t ≤ n) :
      ∃ message, (r.state t).machine.mailbox.cancelMessage = some message ∧
        r.StoredLast t message :=
    r.stored hb (by omega) fun u hbu hut => hkept u hbu (by omega)
  obtain ⟨message, hmessage, hlast⟩ := hstored n (by omega) (Nat.le_refl n)
  refine ⟨message, ⟨?_, hmessage⟩, hlast⟩
  clear hmessage hlast
  induction n, hfn using Nat.le_induction with
  | base =>
    -- the access that raises it
    obtain ⟨text', hf⟩ := h.raises
    obtain ⟨message', hmessage, -⟩ := hstored f (Nat.le_refl f) (by omega)
    have hacc : (r.state f).access? (r.event f) = some (c, .raiseFlag text') := hf
    rw [r.next, System.cancelFlag_step code (r.sound f) (by simp [hmessage]), hacc]
  | succ n hfn ih =>
    have hflag := ih (fun t hbt htn => hkept t hbt (by omega))
      fun t hft htn => hstored t hft (by omega)
    obtain ⟨message', hmessage, -⟩ := hstored n (by omega) (by omega)
    rw [r.next, System.cancelFlag_step code (r.sound n) (by simp [hmessage])]
    -- another cancellation raises it again, and only a withdrawal lowers it
    split
    next => rfl
    next c' hacc =>
      exact absurd (System.reverting_of_access hacc rfl) (hkept n (by omega) (by omega))
    next => exact hflag

/-! ## Armed hooks -/

/-- The handler checks no syncpoint between its look for a cancellation and its disarm. -/
private theorem past_of_disarm (r : Run code) (n : Nat) {info : HookInfo}
    (h : (r.state n).machine.control.past = .handle .disarm info) :
    (r.state n).machine.control = .handle .disarm info := by
  -- no step puts a syncpoint before the disarm, and at first there is none
  induction n with
  | zero =>
    obtain ⟨-, -, -, -, hcontrol, -⟩ := System.opened_machine r.opened
    rw [hcontrol] at h
    exact nomatch h
  | succ n ih =>
    by_cases he : r.event n = .advance
    · exact Machine.past_of_disarm_move (r.move he) ih h
    · rw [r.next] at h ⊢
      rcases (System.aside_step code he).control_eq with hsame | ⟨held, p, hrun⟩
      · rw [hsame] at h ⊢
        exact ih h
      · rw [hrun] at h
        exact nomatch h

/-- A handler that disarms the hook while a cancellation is pending has been about to do so since
the flag of the cancellation was raised. -/
private theorem disarm_since (r : Run code) {f t n : Nat} {info : HookInfo}
    (hpending : ∀ t, f < t → t < n → ∃ message, (r.state t).machine.mailbox.Pending message)
    (hft : f < t) (htn : t ≤ n) (hc : (r.state n).machine.control = .handle .disarm info) :
    (r.state t).machine.control = .handle .disarm info := by
  induction n, htn using Nat.le_induction with
  | base => exact hc
  | succ n htn ih =>
    apply ih fun u hfu hun => hpending u hfu (by omega)
    by_cases he : r.event n = .advance
    · obtain ⟨message, hmessage⟩ := hpending n (by omega) (by omega)
      exact Machine.disarm_of_move (r.move he) hmessage (r.past_of_disarm n) hc
    · rw [r.next] at hc
      rcases (System.aside_step code he).control_eq with hsame | ⟨held, p, hrun⟩
      · exact hsame ▸ hc
      · exact nomatch hc.symm.trans hrun

/-- The arming at step `a` was overtaken before step `n`: a handler that was about to disarm the
hook already, having found no cancellation, did so after the arming, and nothing has armed the hook
since. -/
def Overtaken (r : Run code) (a n : Nat) : Prop :=
  ∃ d, a < d ∧ d < n ∧ r.event d = .advance ∧
    (∃ info, ∀ t, a ≤ t → t ≤ d → (r.state t).machine.control = .handle .disarm info) ∧
    ∀ t, d < t → t < n → (r.state t).arming (r.event t) = false

/-- The hook stays disarmed after an arming that was overtaken. -/
theorem Overtaken.mask {a n : Nat} (h : r.Overtaken a n) :
    (r.state n).machine.mailbox.slot.mask = .empty := by
  obtain ⟨d, had, hdn, he, ⟨info, hdisarm⟩, hquiet⟩ := h
  induction n, hdn using Nat.le_induction with
  | base =>
    -- the disarm that overtook it
    have hc := hdisarm d (by omega) (Nat.le_refl d)
    rw [r.next, System.mask_step code (r.sound d), he]
    simp [System.arming, System.disarming, System.access?, hc]
  | succ n hdn ih =>
    have ih := ih fun t hdt htn => hquiet t hdt (by omega)
    rw [r.next, System.mask_step code (r.sound n), hquiet n (by omega) (by omega), ih]
    simp

/-- From the arming of a cancellation on, the hook is armed until the cancellation is withdrawn, or
the arming was overtaken. -/
theorem armed_or_overtaken (r : Run code) {c : Caller} {b f a n : Nat} (h : r.Cancels c b f a)
    (han : a < n) (hkept : ∀ t, b ≤ t → t < n → ¬ r.Reverts t) :
    (r.state n).machine.mailbox.slot.mask = .armed ∨ r.Overtaken a n := by
  -- the induction is on the steps since the arming
  induction n, han using Nat.le_induction with
  | base =>
    -- the arming itself
    obtain ⟨text, ha⟩ := h.arms
    have hacc : (r.state a).access? (r.event a) = some (c, .armForCancel text) := ha
    rw [r.next, System.mask_step code (r.sound a)]
    simp [System.arming, hacc, HostPhase.arms]
  | succ n han ih =>
    have hstep := System.mask_step (e := r.event n) code (r.sound n)
    rw [← r.next] at hstep
    cases harm : (r.state n).arming (r.event n) with
    | true => exact .inl (by rw [hstep, harm]; rfl)
    | false =>
      rcases ih fun t hbt htn => hkept t hbt (by omega) with hmask | ⟨d, had, hdn, he, hd, hquiet⟩
      · cases hdis : (r.state n).disarming (r.event n) with
        | false => exact .inl (by rw [hstep, harm, hdis]; exact hmask)
        | true =>
          -- the handler that disarms now looked for a cancellation before this one was there
          obtain ⟨he, info, hc⟩ := System.disarming_eq_true hdis
          have hfa := h.arms_later
          refine .inr ⟨n, han, by omega, he, ⟨info, fun t hat htn => ?_⟩, by omega⟩
          refine r.disarm_since (fun u hfu hun => ?_) (show f < t by omega) htn hc
          obtain ⟨message, hmessage, -⟩ := h.pending hfu fun v hbv hvu => hkept v hbv (by omega)
          exact ⟨message, hmessage⟩
      · -- overtaken before, and not armed by this step either
        refine .inr ⟨d, had, by omega, he, hd, fun t hdt htn => ?_⟩
        by_cases ht : t = n
        · subst ht
          exact harm
        · exact hquiet t hdt (by omega)

/-! ## Safepoints while a cancellation is pending -/

/-- The handler of the safepoint that polls at step `k` has read the message that was stored last,
and hands it to the safepoint as an error. -/
def HandsOver (r : Run code) (k j : Nat) (outcome : Outcome κ) : Prop :=
  ∃ q message, k < q ∧ q < j ∧ r.StoredLast q message ∧ outcome = .error (.cancelled message)

/-- At step `e` the safepoint that polls at step `k` has the error of its handler. -/
def Back (r : Run code) (k e : Nat) : Prop :=
  ∃ outcome, (r.state e).machine.control = .deliver outcome ∧
    (r.state e).machine.frames = (r.state k).machine.frames ∧ r.HandsOver k e outcome

/-- The handler of the safepoint that polls at step `k` is at step `j` on its way to raise a
cancellation, with so many moves left at most until the safepoint returns. -/
inductive Raising (r : Run code) (k j : Nat) : Nat → Prop where
  | looking {left} (h : (r.state j).machine.Raising (r.state k).machine.frames left) :
      Raising r k j (left + 1)
  | leaving {message} (h : (r.state j).machine.Raised (r.state k).machine.frames message)
      (read : r.HandsOver k j (.error (.cancelled message))) : Raising r k j 1

/-- On its way to raise a cancellation, a safepoint waits for its handler. -/
theorem Raising.frames {k j left : Nat} (h : r.Raising k j left) :
    (r.state j).machine.frames = .dispatch :: (r.state k).machine.frames := by
  cases h with
  | looking h => exact h.frames
  | leaving h => exact h.frames

/-- While a cancellation is pending, a handler on its way to raise it comes nearer with each move of
its thread, and nothing puts it off. -/
theorem Raising.step {k j left : Nat} (h : r.Raising k j left) (hkj : k < j)
    (hpending : ∃ message, (r.state j).machine.mailbox.Pending message ∧
      r.StoredLast j message) :
    r.Back k (j + 1) ∨
      ∃ left', r.Raising k (j + 1) left' ∧ left' + (r.isMove j).toNat ≤ left := by
  obtain ⟨message, hmessage, hlast⟩ := hpending
  have handed {outcome : Outcome κ} (h : r.HandsOver k j outcome) :
      r.HandsOver k (j + 1) outcome := by
    obtain ⟨q, message, hkq, hqj, hq⟩ := h
    exact ⟨q, message, hkq, by omega, hq⟩
  by_cases he : r.event j = .advance
  · have hmove : (r.isMove j) = !(r.state j).machine.isHeld := by
      simp [isMove, he, Event.isAdvance]
    have hnext := r.step_of_advance he
    cases h with
    | @looking left h =>
      obtain ⟨-, ⟨left', hnear, hless⟩ | ⟨rfl, hraised⟩⟩ := Machine.raising_step code h hmessage
      · rw [← hnext] at hnear
        refine .inr ⟨left' + 1, .looking hnear, ?_⟩
        rw [hmove]
        omega
      · -- the message is read now, and it is the one that was stored last
        rw [← hnext] at hraised
        refine .inr ⟨1, .leaving hraised ⟨j, message, hkj, by omega, hlast, rfl⟩, ?_⟩
        have := Bool.toNat_le (r.isMove j)
        omega
    | leaving h hread =>
      -- the handler returns to the safepoint
      refine .inl ⟨_, ?_, ?_, handed hread⟩
      · rw [hnext]
        simp [Machine.step, h.control, Machine.deliver, h.frames, Machine.goto]
      · rw [hnext]
        simp [Machine.step, h.control, Machine.deliver, h.frames, Machine.goto]
  · have hidle := r.isMove_of_aside he
    cases h with
    | @looking left h =>
      obtain ⟨hfin, hwait⟩ := h.at_work
      obtain ⟨hcontrol, hframes, -⟩ := (System.aside_step code he).of_working hfin hwait
      rw [← r.next] at hcontrol hframes
      exact .inr ⟨left + 1, .looking (h.congr hcontrol hframes), by omega⟩
    | leaving h hread =>
      have hc := h.control
      obtain ⟨hcontrol, hframes, -⟩ := (System.aside_step code he).of_working
        (by rw [hc]; rfl) (by simp [hc])
      rw [← r.next] at hcontrol hframes
      exact .inr ⟨1, .leaving ⟨hcontrol.trans hc, hframes.trans h.frames⟩ (handed hread), by omega⟩

/-- A safepoint that polls an armed hook while a cancellation is pending raises the message that was
stored last, and does so within a few moves of its thread. -/
theorem raises_of_armed {k n : Nat} (hpolls : r.Polls k)
    (hmask : (r.state k).machine.mailbox.slot.mask = .armed)
    (hpending : ∀ j, k < j → j < n → ∃ message, (r.state j).machine.mailbox.Pending message ∧
      r.StoredLast j message) :
    (∀ e outcome, e ≤ n → r.Returns k e outcome → r.HandsOver k e outcome) ∧
      (k < n → r.moves k + 8 < r.moves n → ∃ e outcome, e ≤ n ∧ r.Returns k e outcome) := by
  obtain ⟨event, hstep⟩ := hpolls.step_of_armed hmask
  have hfirst : r.Raising k (k + 1) 7 := .looking (hstep ▸ Machine.raising_entering _ event)
  have not_returned {j left : Nat} (h : r.Raising k j left) :
      (r.state j).machine.frames ≠ (r.state k).machine.frames := by
    rw [h.frames]
    simp
  -- the poll is a move of its own, and seven are left at most after it
  have hstep (j left : Nat) (hkj : k + 1 ≤ j) (hjn : j < n) (h : r.Raising k j left) :
      r.Back k (j + 1) ∨ ∃ left', r.Raising k (j + 1) left' ∧ left' + (r.isMove j).toNat ≤ left :=
    h.step hkj (hpending j hkj hjn)
  constructor
  · intro e outcome hen hret
    rcases r.progress_of_measure hstep hfirst hret.later hen with
      ⟨e', hke', hee', ⟨outcome', hc, hframes, hread⟩, -⟩ | ⟨⟨left, h, -⟩, -⟩
    · -- a safepoint returns only once
      have he : e' = e := by
        by_contra hne
        exact hret.first e' (by omega) (by omega) hframes
      subst he
      obtain rfl : outcome = outcome' := by simpa using hret.control.symm.trans hc
      exact hread
    · exact absurd hret.frames (not_returned h)
  · intro hkn hmoves
    have hmove := r.moves_succ_le k
    obtain ⟨e, hke, hen, ⟨outcome, hc, hframes, -⟩, -, hraising⟩ :=
      r.reaches_of_measure hstep hfirst hkn (by omega)
    refine ⟨e, outcome, hen, by omega, hc, hframes, fun j hkj hje => ?_⟩
    obtain ⟨left, h⟩ := hraising j (by omega) hje
    exact not_returned h

/-! ## Idle hosts -/

/-- A message that is stored was stored by a call, and no call has taken it away since. -/
private theorem exists_stores (r : Run code) {n : Nat}
    (h : (r.state n).machine.mailbox.cancelMessage ≠ none) :
    ∃ c b text encoding, b < n ∧ r.Accesses b c (.storeMessage text encoding) ∧
      ∀ t, b < t → t < n → ∀ c', ¬ r.Accesses t c' .clearMessage := by
  -- the induction goes back to the step that stored what is there
  induction n with
  | zero =>
    obtain ⟨-, -, hmail, -⟩ := System.opened_machine r.opened
    simp [hmail, Mailbox.empty, Mailbox.keep] at h
  | succ n ih =>
    rw [r.next, System.cancelMessage_step code (r.sound n)] at h
    split at h
    next c text encoding hacc => exact ⟨c, n, text, encoding, by omega, hacc, by omega⟩
    next => exact absurd rfl h
    next hstores hclears =>
      -- the message is that of before, and this step has not cleared it
      obtain ⟨c, b, text, encoding, hbn, hb, hkept⟩ := ih h
      refine ⟨c, b, text, encoding, by omega, hb, fun t hbt htn c' hacc => ?_⟩
      by_cases ht : t = n
      · subst ht
        exact hclears c' hacc
      · exact hkept t hbt (by omega) c' hacc

/-- A call that is over has made all its accesses. -/
private theorem exists_access (r : Run code) {i n : Nat} {c : Caller} {p q : HostPhase κ}
    (hi : r.Accesses i c p) (hq : (p.step (r.state i).machine.mailbox).2.1 = q)
    (hgoing : q.ending? = none) (hin : i < n) (hover : ((r.state n).phase c).ending?.isSome) :
    ∃ j, i < j ∧ j < n ∧ r.Accesses j c q := by
  -- after its access the call rests at the next one until that is made
  have rests (t : Nat) (hit : i < t) :
      (r.state t).phase c = q ∨ ∃ j, i < j ∧ j < t ∧ r.Accesses j c q := by
    induction t, hit using Nat.le_induction with
    | base =>
      left
      rw [r.next, System.phase_step_of_access code hi, hq]
    | succ t hit ih =>
      rcases ih with hphase | ⟨j, hij, hjt, hj⟩
      · by_cases hacc : ∃ p', (r.state t).access? (r.event t) = some (c, p')
        · obtain ⟨p', hacc⟩ := hacc
          have hp' := System.phase_of_access hacc
          rw [hphase] at hp'
          exact .inr ⟨t, hit, by omega, hp' ▸ hacc⟩
        · left
          rw [r.next, System.phase_step_of_going code (by rw [hphase]; exact hgoing), hphase]
          exact fun p' h => hacc ⟨p', h⟩
      · exact .inr ⟨j, hij, by omega, hj⟩
  rcases rests n hin with hphase | hj
  · simp [hphase, hgoing] at hover
  · exact hj

/-- Where all calls are over and a message is stored, a cancellation has armed the hook, and was not
withdrawn. -/
private theorem exists_cancels (r : Run code) {n : Nat}
    (hover : ∀ c, ((r.state n).phase c).ending?.isSome)
    (hmessage : (r.state n).machine.mailbox.cancelMessage ≠ none) :
    ∃ c b f a, r.Cancels c b f a ∧ a < n ∧ ∀ t, b ≤ t → t < n → ¬ r.Reverts t := by
  obtain ⟨c, b, text, encoding, hbn, hb, hkept⟩ := r.exists_stores hmessage
  -- the call that stored the message is over, so it has made its other accesses
  obtain ⟨f, hbf, hfn, hf⟩ := r.exists_access hb rfl rfl hbn (hover c)
  obtain ⟨a, hfa, han, ha⟩ := r.exists_access hf rfl rfl hfn (hover c)
  refine ⟨c, b, f, a, ⟨⟨text, encoding, hb⟩, ⟨text, hf⟩, ⟨text, ha⟩, hbf, hfa⟩, han, ?_⟩
  intro t hbt htn hrev
  -- a withdrawal that lowered the flag is over too, and would have cleared the message
  obtain ⟨c', hlowers | hclears⟩ := System.reverting_eq_true hrev
  · obtain ⟨j, htj, hjn, hj⟩ := r.exists_access hlowers rfl rfl htn (hover c')
    exact hkept j (by omega) hjn c' hj
  · by_cases ht : t = b
    · subst ht
      exact nomatch hclears.symm.trans hb
    · exact hkept t (by omega) htn c' hclears

/-! ## Delivery -/

/-- A cancellation that armed the hook before a safepoint polls, and is not withdrawn before that
safepoint has returned, is raised by it with the message that was stored last, unless its arming was
overtaken; then the safepoint passes. And where all calls through handles are over and a message is
stored, the hook is armed, unless the arming of a cancellation was overtaken. -/
theorem cancellation_raised_unless_overtaken (r : Run code) :
    (∀ {c : Caller} {b f a k n : Nat}, r.Cancels c b f a → a < k → r.Polls k → k < n →
      (∀ t, b ≤ t → t < n → ¬ r.Reverts t) →
      (r.Overtaken a k → r.Returns k (k + 1) (.ok [])) ∧
        (¬ r.Overtaken a k →
          (∀ e outcome, e ≤ n → r.Returns k e outcome → r.HandsOver k e outcome) ∧
            (r.moves k + 8 < r.moves n → ∃ e outcome, e ≤ n ∧ r.Returns k e outcome))) ∧
      ∀ n, (∀ c, ((r.state n).phase c).ending?.isSome) →
        (r.state n).machine.mailbox.cancelMessage ≠ none →
        ((r.state n).machine.mailbox.slot.mask = .armed ↔
          ¬ ∃ c b f a, r.Cancels c b f a ∧ r.Overtaken a n) := by
  constructor
  · intro c b f a k n hcancels hak hpolls hkn hkept
    constructor
    · intro hover
      -- an overtaken cancellation has left the hook disarmed, and the poll passes
      have hstep := hpolls.step_of_disarmed hover.mask
      refine ⟨by omega, ?_, ?_, by omega⟩
      · rw [hstep]
        rfl
      · rw [hstep]
        rfl
    · intro hover
      have hmask : (r.state k).machine.mailbox.slot.mask = .armed :=
        (r.armed_or_overtaken hcancels hak fun t hbt htk => hkept t hbt (by omega)).resolve_right
          hover
      have hfa := hcancels.arms_later
      have hpending (j : Nat) (hkj : k < j) (hjn : j < n) :
          ∃ message, (r.state j).machine.mailbox.Pending message ∧ r.StoredLast j message :=
        hcancels.pending (by omega) fun t hbt htj => hkept t hbt (by omega)
      obtain ⟨hraises, hreturns⟩ := raises_of_armed hpolls hmask hpending
      exact ⟨hraises, hreturns hkn⟩
  · intro n hover hmessage
    constructor
    · rintro hmask ⟨c, b, f, a, -, hovertaken⟩
      exact absurd (hmask.symm.trans hovertaken.mask) (by decide)
    · intro hnone
      -- the message that is there was left by a cancellation that is over
      obtain ⟨c, b, f, a, hcancels, han, hkept⟩ := r.exists_cancels hover hmessage
      rcases r.armed_or_overtaken hcancels han hkept with hmask | hovertaken
      · exact hmask
      · exact absurd ⟨c, b, f, a, hcancels, hovertaken⟩ hnone

/-- A host cancels, and the embedder calls a native function afterwards. -/
private def earlyCancellation : Run (idleCode : Meaning Unit Unit Unit) :=
  .ofEvents idleCode
    [.call 0 (.cancel "stop" .utf8), .host 0, .host 0, .host 0, .host 0, .host 0,
      .start (callNative ()) []]

/-- The call safepoint of the native function raises the cancellation. -/
theorem early_cancellation_raised :
    ∃ (r : Run (idleCode : Meaning Unit Unit Unit)) (c : Caller) (b f a k e : Nat)
      (outcome : Outcome Unit), r.Cancels c b f a ∧ a < k ∧ r.Polls k ∧ r.Returns k e outcome ∧
        r.HandsOver k e outcome := by
  have hcancels : earlyCancellation.Cancels (.host 0) 2 3 4 :=
    ⟨⟨"stop", .utf8, rfl⟩, ⟨"stop", rfl⟩, ⟨"stop", rfl⟩, by decide, by decide⟩
  have hpolls : earlyCancellation.Polls 9 := ⟨rfl, ⟨.call, rfl⟩, rfl⟩
  have hkept : ∀ t, 2 ≤ t → t < 20 → ¬ earlyCancellation.Reverts t := by
    intro t _ ht
    unfold Reverts
    revert t
    decide +kernel
  have hover : ¬ earlyCancellation.Overtaken 4 9 := by
    intro hovertaken
    exact absurd hovertaken.mask (by decide +kernel)
  obtain ⟨hraises, hreturns⟩ := ((cancellation_raised_unless_overtaken earlyCancellation).1 hcancels
    (by decide) hpolls (by decide) hkept).2 hover
  obtain ⟨e, outcome, he, hreturned⟩ := hreturns (by decide +kernel)
  exact ⟨earlyCancellation, _, _, _, _, _, e, outcome, hcancels, by decide, hpolls, hreturned,
    hraises e outcome he hreturned⟩

/-! ## A cancellation that is lost -/

/-- An action is interjected, and the call safepoint of a native function enters the handler for it.
The handler has seen no cancellation and is about to disarm the hook when a host cancels. -/
private def lateCancellation : Run (idleCode : Meaning Unit Unit Unit) :=
  .ofEvents idleCode
    [.call 0 (.interject ()), .host 0, .host 0, .host 0, .host 0, .start (callNative ()) [],
      .advance, .advance, .advance, .advance, .advance, .advance,
      .call 1 (.cancel "stop" .utf8), .host 1, .host 1, .host 1, .host 1, .host 1]

/-- The safepoint at which the native function returns polls after the cancellation has returned,
and passes: the handler has disarmed the hook in between. When all is done the message is still
stored, and the hook disarmed. -/
theorem cancellation_lost :
    ∃ (r : Run (idleCode : Meaning Unit Unit Unit)) (c : Caller) (b f a k : Nat),
      r.Cancels c b f a ∧ a < k ∧ r.Polls k ∧ (∀ t < k + 1, ¬ r.Reverts t) ∧
      r.Returns k (k + 1) (.ok []) ∧
      ∃ n, (∀ c, ((r.state n).phase c).ending?.isSome) ∧ (r.state n).isOpen = true ∧
        (r.state n).machine.control = .finished (.ok []) ∧
        (r.state n).machine.mailbox.cancelMessage = some (.ofText "stop" .utf8) ∧
        (r.state n).machine.mailbox.slot.mask = .empty := by
  refine ⟨lateCancellation, .host 1, 14, 15, 16, 32, ?_, by decide, ?_, ?_, ?_, 37, ?_, rfl, rfl,
    rfl, rfl⟩
  · exact ⟨⟨"stop", .utf8, rfl⟩, ⟨"stop", rfl⟩, ⟨"stop", rfl⟩, by decide, by decide⟩
  · exact ⟨rfl, ⟨.ret, rfl⟩, rfl⟩
  · unfold Reverts
    decide +kernel
  · refine ⟨by decide, rfl, ?_, by omega⟩
    have hframes : (lateCancellation.state 32).machine.frames =
        [.call (.leaving []), .host [] fun _ => .finish (.ok [])] := rfl
    rw [hframes]
    rfl
  · rintro (t | _)
    · match t with
      | 0 => rfl
      | 1 => rfl
      | t + 2 => rfl
    · rfl

end Run

end Safepoint
