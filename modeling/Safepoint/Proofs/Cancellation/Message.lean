import Safepoint.Proofs.Cancellation.Delivery

/-!
# The message decides

A pending cancellation is kept twice: as a message behind a lock, and as a flag that spares the lock
where nothing is pending. To cancel is to store the message and then to raise the flag; to revert is
to lower the flag and then to take the message away; and a check that finds the flag raised with no
message behind it lowers the flag under the lock. So the two disagree at times. But a message that
is stored while the flag is down is always the business of a call that has made the first of its two
writes and not yet the other, and where there is no such call, the flag tells of every message.

## Key results

- `System.hinted_step`: a stored message has its flag raised, or some call is halfway
- `Run.cancelMessage_eq_written`: the message is what the last write under the lock has left
- `Run.message_decides`: what a check reports is what the last write under the lock has left
-/

namespace Safepoint

variable {κ τ ρ : Type}

/-- Whether a call has written one of flag and message, and is about to write the other. -/
def HostPhase.isHalfway : HostPhase κ → Bool
  | raiseFlag _ | clearMessage => true
  | _ => false

/-- A call that is halfway is not over. -/
theorem HostPhase.going_of_isHalfway {p : HostPhase κ} (h : p.isHalfway = true) :
    p.ending? = none := by
  cases p <;> first | rfl | exact nomatch h

namespace System

variable {s : System κ τ ρ} {e : Event κ τ ρ} {c : Caller}

/-- A message that is stored has its flag raised, or some call is halfway. -/
def Hinted (s : System κ τ ρ) : Prop :=
  s.machine.mailbox.cancelMessage ≠ none →
    s.machine.mailbox.cancelFlag = true ∨ ∃ c, (s.phase c).isHalfway = true

/-- No call is halfway. In particular this is so where no cancellation and no withdrawal is in
flight. -/
def Settled (s : System κ τ ρ) : Prop :=
  ∀ c, (s.phase c).isHalfway = false

/-- A call stays halfway until it makes its next access. -/
private theorem isHalfway_step (code : Meaning κ τ ρ) (hhalf : (s.phase c).isHalfway = true)
    (h : ∀ p, s.access? e ≠ some (c, p)) : ((s.step code e).phase c).isHalfway = true := by
  have hgoing := HostPhase.going_of_isHalfway hhalf
  rw [phase_step_of_going code hgoing h]
  exact hhalf

/-- An access that writes neither flag nor message leaves a hinted message hinted. -/
private theorem hinted_of_idle_access (code : Meaning κ τ ρ) {p : HostPhase κ} (h : s.Hinted)
    (hacc : s.access? e = some (c, p)) (hhalf : p.isHalfway = false)
    (hmessage : (s.step code e).machine.mailbox.cancelMessage = s.machine.mailbox.cancelMessage)
    (hflag : s.machine.mailbox.cancelMessage ≠ none →
      (s.step code e).machine.mailbox.cancelFlag = s.machine.mailbox.cancelFlag) :
    (s.step code e).Hinted := by
  intro hstored
  rw [hmessage] at hstored
  rcases h hstored with hraised | ⟨c', hc'⟩
  · left
    rw [hflag hstored]
    exact hraised
  · -- whoever is halfway does not make this access
    have hother : ∀ p', s.access? e ≠ some (c', p') := by
      intro p' hacc'
      have hp : (c, p) = (c', p') := Option.some.inj (hacc.symm.trans hacc')
      obtain ⟨rfl, rfl⟩ := Prod.mk.inj hp
      rw [phase_of_access hacc, hhalf] at hc'
      exact nomatch hc'
    exact .inr ⟨c', isHalfway_step code hc' hother⟩

/-- Whatever happens, a stored message has its flag raised or some call is halfway. -/
theorem hinted_step (code : Meaning κ τ ρ) (hsound : s.Sound) (h : s.Hinted) :
    (s.step code e).Hinted := by
  have hmessage := cancelMessage_step (e := e) code hsound
  have hflag := cancelFlag_step (e := e) code hsound
  -- without an access, no flag and no message is written, and who is halfway stays so
  cases hacc : s.access? e with
  | none =>
    rw [hacc] at hmessage hflag
    intro hstored
    rw [hmessage] at hstored
    rcases h hstored with hraised | ⟨c', hc'⟩
    · left
      rw [hflag hstored]
      exact hraised
    · exact .inr ⟨c', isHalfway_step code hc' (by simp [hacc])⟩
  | some cp =>
    obtain ⟨c, p⟩ := cp
    rw [hacc] at hmessage hflag
    have hphase := phase_step_of_access code hacc
    -- the four writes, by what they leave for the same call to write
    cases p with
    | storeMessage text encoding =>
      intro _
      refine .inr ⟨c, ?_⟩
      rw [hphase]
      rfl
    | raiseFlag text =>
      intro _
      left
      rw [mailbox_of_access code hacc]
      rfl
    | lowerFlag =>
      intro _
      refine .inr ⟨c, ?_⟩
      rw [hphase]
      rfl
    | clearMessage =>
      intro hstored
      exact absurd hmessage hstored
    | _ => exact hinted_of_idle_access code h hacc rfl hmessage hflag

end System

/-- Who looks whether a cancellation is pending: a caller that asks, or the safepoint handler. -/
inductive Checker where
  | caller (c : Caller)
  | handler
deriving DecidableEq, Repr

namespace Run

variable {code : Meaning κ τ ρ} {r : Run code}

/-- What the last write under the lock has left of the message before step `n`: the text of the
cancellation that stored it, or nothing after a withdrawal. -/
def written (r : Run code) : Nat → Option Message
  | 0 => none
  | n + 1 =>
    match (r.state n).access? (r.event n) with
    | some (_, .storeMessage text encoding) => some (.ofText text encoding)
    | some (_, .clearMessage) => none
    | _ => r.written n

/-- At step `n`, this checker reads the flag. -/
def ReadsFlag (r : Run code) (n : Nat) : Checker → Prop
  | .caller c => r.Accesses n c .readFlag
  | .handler => r.event n = .advance ∧
      ∃ info, (r.state n).machine.control = .handle .readFlag info

/-- At step `n`, this checker reads the message under the lock. -/
def ReadsMessage (r : Run code) (n : Nat) : Checker → Prop
  | .caller c => r.Accesses n c .readMessage
  | .handler => r.event n = .advance ∧
      ∃ info, (r.state n).machine.control = .handle .readMessage info

/-- A check reads the flag at step `k`. If the flag is down the check is over; otherwise it goes on
to read the message, at step `l`. -/
structure Checks (r : Run code) (who : Checker) (k l : Nat) : Prop where
  reads : r.ReadsFlag k who
  ends : (r.state k).machine.mailbox.cancelFlag = false ∧ l = k ∨
    (r.state k).machine.mailbox.cancelFlag = true ∧ k < l ∧ r.ReadsMessage l who ∧
      ∀ j, k < j → j < l → ¬ r.ReadsMessage j who

/-- At step `n`, a checker tells what it has found: a caller is answered whether a cancellation is
pending, and the handler raises the cancellation or goes on to disarm the hook. -/
def Reports (r : Run code) (n : Nat) : Checker → Option Message → Prop
  | .caller c, found => (r.state n).phase c = .letGo (.flag found.isSome)
  | .handler, some message =>
    (r.state n).machine.control = .deliver (.error (.cancelled message))
  | .handler, none => ∃ info, (r.state n).machine.control = .handle .disarm info

/-- The message is what the last write under the lock has left. -/
theorem cancelMessage_eq_written (r : Run code) (n : Nat) :
    (r.state n).machine.mailbox.cancelMessage = r.written n := by
  -- the message is written by the same accesses as the history
  induction n with
  | zero =>
    obtain ⟨-, -, hmail, -⟩ := System.opened_machine r.opened
    rw [hmail]
    rfl
  | succ n ih =>
    have hstep := System.cancelMessage_step (e := r.event n) code (r.sound n)
    rw [r.next, hstep, ih]
    rfl

/-- In every state of a run, a stored message has its flag raised or some call is halfway. -/
theorem hinted (r : Run code) (n : Nat) : (r.state n).Hinted := by
  induction n with
  | zero =>
    obtain ⟨-, -, hmail, -⟩ := System.opened_machine r.opened
    intro hstored
    rw [hmail] at hstored
    exact absurd rfl hstored
  | succ n ih =>
    rw [r.next]
    exact System.hinted_step code (r.sound n) ih

/-- Where no call is halfway, the flag tells of every message. -/
theorem cancelFlag_of_settled (r : Run code) {n : Nat} (h : (r.state n).Settled)
    (hstored : (r.state n).machine.mailbox.cancelMessage ≠ none) :
    (r.state n).machine.mailbox.cancelFlag = true := by
  rcases r.hinted n hstored with hraised | ⟨c, hc⟩
  · exact hraised
  · rw [h c] at hc
    exact nomatch hc

/-- A check that finds the flag down reports that nothing is pending. -/
private theorem reports_of_down {who : Checker} {k : Nat} (h : r.ReadsFlag k who)
    (hdown : (r.state k).machine.mailbox.cancelFlag = false) : r.Reports (k + 1) who none := by
  cases who with
  | caller c =>
    have hacc : (r.state k).access? (r.event k) = some (c, .readFlag) := h
    show (r.state (k + 1)).phase c = _
    rw [r.next, System.phase_step_of_access code hacc]
    simp [HostPhase.step, hdown]
  | handler =>
    obtain ⟨he, info, hc⟩ := h
    refine ⟨info, ?_⟩
    rw [r.step_of_advance he]
    simp [Machine.step, hc, Machine.handle, hdown, Machine.goto]

/-- A check that reads the message reports what is stored, whatever the flag is. -/
private theorem reports_of_read {who : Checker} {l : Nat} (h : r.ReadsMessage l who) :
    r.Reports (l + 1) who (r.state l).machine.mailbox.cancelMessage := by
  cases who with
  | caller c =>
    have hacc : (r.state l).access? (r.event l) = some (c, .readMessage) := h
    show (r.state (l + 1)).phase c = _
    rw [r.next, System.phase_step_of_access code hacc]
    simp [HostPhase.step]
  | handler =>
    obtain ⟨he, info, hc⟩ := h
    have hstep := r.step_of_advance he
    simp only [Machine.step, hc, Machine.handle] at hstep
    cases hm : (r.state l).machine.mailbox.cancelMessage with
    | none =>
      refine ⟨info, ?_⟩
      rw [hstep]
      simp [Mailbox.readMessage_of_none hm, Machine.goto]
    | some message =>
      show (r.state (l + 1)).machine.control = _
      rw [hstep]
      simp [Mailbox.readMessage_of_some hm, Machine.raise, Machine.goto]

/-- What a check reports was left by the last write under the lock; and a check that begins where no
call is halfway reports all that this write has left. -/
private theorem Checks.reports {who : Checker} {k l : Nat} (h : r.Checks who k l) :
    ∃ found, r.Reports (l + 1) who found ∧ (∀ message, found = some message →
      r.written l = some message) ∧ ((r.state k).Settled → found = r.written l) := by
  -- a check ends at the flag that is down, or reads the message under the lock
  rcases h.ends with ⟨hdown, rfl⟩ | ⟨-, -, hread, -⟩
  · refine ⟨none, reports_of_down h.reads hdown, by simp, fun hsettled => ?_⟩
    -- with the flag down and no call halfway, there is no message to be found
    by_contra hne
    rw [← r.cancelMessage_eq_written] at hne
    have hraised := r.cancelFlag_of_settled hsettled fun hnone => hne hnone.symm
    rw [hdown] at hraised
    exact nomatch hraised
  · refine ⟨_, reports_of_read hread, fun message hfound => ?_, fun _ => ?_⟩
    · rw [← r.cancelMessage_eq_written]
      exact hfound
    · exact r.cancelMessage_eq_written l

/-- From the raising of its flag on, a cancellation that is not withdrawn has its message stored and
its flag raised, whatever checks have lowered before or lower meanwhile. -/
private theorem pending_of_raised {c : Caller} {text text' : String} {encoding : Encoding}
    {b f n : Nat} (hb : r.Accesses b c (.storeMessage text encoding))
    (hf : r.Accesses f c (.raiseFlag text')) (hbf : b < f) (hfn : f < n)
    (hkept : ∀ t, b ≤ t → t < n → ¬ r.Reverts t) :
    ∃ message, (r.state n).machine.mailbox.Pending message := by
  have hstored : ∀ t, f ≤ t → t ≤ n → (r.state t).machine.mailbox.cancelMessage ≠ none := by
    intro t hft htn
    obtain ⟨message, hmessage, -⟩ := r.stored hb (show b < t by omega) fun u hbu hut =>
      hkept u hbu (by omega)
    rw [hmessage]
    exact nofun
  have hraised : (r.state n).machine.mailbox.cancelFlag = true := by
    clear hb
    -- the induction is on the steps since the flag was raised
    induction n, hfn using Nat.le_induction with
    | base =>
      have hacc : (r.state f).access? (r.event f) = some (c, .raiseFlag text') := hf
      rw [r.next, System.mailbox_of_access code hacc]
      rfl
    | succ n hfn ih =>
      have hflag := ih (fun t hbt htn => hkept t hbt (by omega))
        fun t hft htn => hstored t hft (by omega)
      have hstep := System.cancelFlag_step (e := r.event n) code (r.sound n)
        (hstored n (by omega) (by omega))
      rw [r.next, hstep]
      split
      next => rfl
      next c' hacc =>
        have hrev := System.reverting_of_access hacc rfl
        exact absurd hrev (hkept n (by omega) (by omega))
      next => exact hflag
  obtain ⟨message, hmessage⟩ := Option.ne_none_iff_exists'.mp (hstored n (by omega) (by omega))
  exact ⟨message, hraised, hmessage⟩

/-- The flag is only a hint, and the message decides. Where no call is between its two writes, a
stored message has its flag raised. A check reports nothing but what the last write under the lock
has left, and all of it if no call was between its two writes when the check began; so a withdrawn
cancellation that raises its flag late is never reported. And once a cancellation has made its two
writes it can be found until it is withdrawn, whatever a check has lowered. -/
theorem message_decides (r : Run code) :
    (∀ n, (r.state n).Settled → (r.state n).machine.mailbox.cancelMessage ≠ none →
      (r.state n).machine.mailbox.cancelFlag = true) ∧
    (∀ who k l, r.Checks who k l →
      ∃ found, r.Reports (l + 1) who found ∧
        (∀ message, found = some message → r.written l = some message) ∧
        ((r.state k).Settled → found = r.written l)) ∧
    ∀ {c : Caller} {text text' : String} {encoding : Encoding} {b f n : Nat},
      r.Accesses b c (.storeMessage text encoding) → r.Accesses f c (.raiseFlag text') → b < f →
      f < n → (∀ t, b ≤ t → t < n → ¬ r.Reverts t) →
      ∃ message, (r.state n).machine.mailbox.Pending message ∧ r.written n = some message := by
  refine ⟨fun n hsettled hstored => r.cancelFlag_of_settled hsettled hstored,
    fun who k l hchecks => hchecks.reports, ?_⟩
  intro c text text' encoding b f n hb hf hbf hfn hkept
  obtain ⟨message, hpending⟩ := pending_of_raised hb hf hbf hfn hkept
  refine ⟨message, hpending, ?_⟩
  rw [← r.cancelMessage_eq_written]
  exact hpending.2

/-- A withdrawal comes between the two writes of a cancellation, which then raises its flag late; a
host asks whether a cancellation is pending. Then a second cancellation is made, and the host asks
again. -/
private def lateFlag : Run (idleCode : Meaning Unit Unit Unit) :=
  .ofEvents idleCode
    [.call 0 (.cancel "stop" .utf8), .host 0, .host 0, .call 1 .revert, .host 1, .host 1, .host 1,
      .host 1, .host 0, .host 0, .host 0, .call 2 .isCancelPending, .host 2, .host 2, .host 2,
      .host 2, .call 0 (.cancel "again" .utf8), .host 0, .host 0, .host 0, .host 0, .host 0,
      .call 2 .isCancelPending, .host 2, .host 2, .host 2, .host 2]

/-- The late flag is not reported: the first check finds no message behind it and lowers it. The
second cancellation is reported all the same. -/
theorem late_flag_not_reported :
    ∃ r : Run (idleCode : Meaning Unit Unit Unit),
      (r.state 13).machine.mailbox.cancelFlag = true ∧ r.Checks (.caller (.host 2)) 13 14 ∧
        r.Reports 15 (.caller (.host 2)) none ∧ (r.state 15).machine.mailbox.cancelFlag = false ∧
        r.Checks (.caller (.host 2)) 24 25 ∧
        r.Reports 26 (.caller (.host 2)) (some (.ofText "again" .utf8)) := by
  have hnotRead : ∀ j k l : Nat, k + 1 = l → k < j → j < l → False := by omega
  have hfirst : lateFlag.Checks (.caller (.host 2)) 13 14 :=
    ⟨rfl, .inr ⟨rfl, by decide, rfl, fun j hk hl => (hnotRead j 13 14 rfl hk hl).elim⟩⟩
  have hsecond : lateFlag.Checks (.caller (.host 2)) 24 25 :=
    ⟨rfl, .inr ⟨rfl, by decide, rfl, fun j hk hl => (hnotRead j 24 25 rfl hk hl).elim⟩⟩
  -- nobody is between two writes when either check begins
  have hsettled : (lateFlag.state 13).Settled ∧ (lateFlag.state 24).Settled := by
    constructor <;> rintro ((_ | _ | _ | t) | _) <;> rfl
  obtain ⟨-, hchecks, -⟩ := message_decides lateFlag
  obtain ⟨found, hreports, -, hfound⟩ := hchecks _ _ _ hfirst
  obtain ⟨found', hreports', -, hfound'⟩ := hchecks _ _ _ hsecond
  have hnone : found = none := hfound hsettled.1
  have hsome : found' = some (.ofText "again" .utf8) := hfound' hsettled.2
  subst hnone hsome
  exact ⟨lateFlag, rfl, hfirst, hreports, rfl, hsecond, hreports'⟩

end Run

end Safepoint
