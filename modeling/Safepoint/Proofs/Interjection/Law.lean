import Safepoint.Proofs.Cancellation.Message
import Safepoint.Proofs.Interjection.Pass

/-!
# The law of one safepoint

What a safepoint does that finds the hook armed and may enter its handler, while no host has a call
in flight. If a cancellation is pending, it is raised, and nothing else happens. Otherwise the
actions are run from the front of the queue, those that are queued meanwhile included, until the
queue is empty or an action fails; and the safepoint returns a success, or that action's error.

## Key results

- `Run.stopping_step`: on its way to raise a cancellation a safepoint leaves everything as it was
- `Run.course_step`: without one it goes from stage to stage of its pass, and returns as the pass
  ends
- `Run.safepoint_law`: both together
-/

namespace Safepoint

variable {κ τ ρ : Type}

namespace System

variable {s : System κ τ ρ} {e : Event κ τ ρ}

/-- The outcome that an action returns to its pass by an event. -/
def returning? (s : System κ τ ρ) : Event κ τ ρ → Option (Outcome κ)
  | .advance => s.machine.returning?
  | _ => none

/-- An action returns with an outcome exactly when it ends. -/
theorem isSome_returning? (s : System κ τ ρ) (e : Event κ τ ρ) :
    (s.returning? e).isSome = s.ending e := by
  cases e with
  | advance =>
    simp only [returning?, Machine.returning?, ending]
    cases s.machine.control with
    | deliver outcome =>
      cases s.machine.frames with
      | nil => rfl
      | cons f rest =>
        show (if f.isPass then some outcome else none).isSome = f.isPass
        cases f.isPass <;> rfl
    | _ => rfl
  | _ => rfl

/-- Only the interpreter's own thread has an action return. -/
theorem returning?_of_aside (h : e ≠ .advance) : s.returning? e = none := by
  cases e with
  | advance => exact absurd rfl h
  | _ => rfl

/-- No host has a call in flight. -/
def HostsIdle (s : System κ τ ρ) : Prop :=
  ∀ t, (s.hosts t).ending?.isSome

/-- Where no host has a call in flight, an access is one of the interpreter's own host code. -/
theorem HostsIdle.access (h : s.HostsIdle) {c : Caller} {p : HostPhase κ}
    (hacc : s.access? e = some (c, p)) :
    e = .advance ∧ c = .own ∧ s.machine.control = .post p := by
  obtain ⟨hgoing, ⟨t, -, -, rfl⟩ | howns⟩ := access?_eq_some hacc
  · have := h t
    simp [hgoing] at this
  · exact howns

/-- With no host in the middle of a call, nobody makes an access but a script of the interpreter. -/
theorem HostsIdle.access?_eq_none (h : s.HostsIdle) (hpost : ∀ p, s.machine.control ≠ .post p) :
    s.access? e = none := by
  cases hacc : s.access? e with
  | none => rfl
  | some cp => exact absurd (h.access hacc).2.2 (hpost cp.2)

end System

namespace Run

variable {code : Meaning κ τ ρ} {r : Run code}

/-- The outcomes of the actions that have returned so far, the first first. -/
def outcomes (r : Run code) : Nat → List (Outcome κ)
  | 0 => []
  | n + 1 => r.outcomes n ++ ((r.state n).returning? (r.event n)).toList

/-- There is one outcome for each action that has ended. -/
theorem length_outcomes (r : Run code) (n : Nat) : (r.outcomes n).length = r.ended n := by
  induction n with
  | zero => rfl
  | succ n ih =>
    rw [outcomes, ended, List.length_append, ih, ← System.isSome_returning?]
    cases (r.state n).returning? (r.event n) <;> rfl

/-- From step `k` until step `e` no host has a call in flight. -/
def Alone (r : Run code) (k e : Nat) : Prop :=
  ∀ j, k ≤ j → j < e → (r.state j).HostsIdle

/-- A cancellation was pending at some step from `k` to `e`. -/
def CancelledWithin (r : Run code) (k e : Nat) : Prop :=
  ∃ j, k ≤ j ∧ j ≤ e ∧ (r.state j).machine.mailbox.cancelMessage ≠ none

/-- Nobody is halfway through a cancellation at a poll during which the hosts are idle. -/
theorem Polls.settled {k : Nat} (h : r.Polls k) (hidle : (r.state k).HostsIdle) :
    (r.state k).Settled := by
  -- no host is in the middle of a call, and a machine that polls is not either
  intro c
  cases hhalf : ((r.state k).phase c).isHalfway with
  | false => rfl
  | true =>
    have hgoing := HostPhase.going_of_isHalfway hhalf
    cases c with
    | host t =>
      have := hidle t
      simp only [System.phase] at hgoing
      simp [hgoing] at this
    | own =>
      obtain ⟨event, hc⟩ := h.control
      simp [System.phase, hc, Control.posting, HostPhase.ending?] at hgoing

/-! ## A pending cancellation -/

/-- From step `k` to step `j` no action was started, and the queue, the cancellation and the mask of
the hook stayed what they were. -/
structure Kept (r : Run code) (k j : Nat) : Prop where
  started : r.started j = r.started k
  queue : (r.state j).machine.mailbox.queue = (r.state k).machine.mailbox.queue
  message : (r.state j).machine.mailbox.cancelMessage = (r.state k).machine.mailbox.cancelMessage
  flag : (r.state j).machine.mailbox.cancelFlag = (r.state k).machine.mailbox.cancelFlag
  mask : (r.state j).machine.mailbox.slot.mask = (r.state k).machine.mailbox.slot.mask

/-- What is kept first over one stretch and then over the next is kept over both. -/
theorem Kept.trans {k j i : Nat} (h : r.Kept k j) (h' : r.Kept j i) : r.Kept k i where
  started := h'.started.trans h.started
  queue := h'.queue.trans h.queue
  message := h'.message.trans h.message
  flag := h'.flag.trans h.flag
  mask := h'.mask.trans h.mask

/-- A step at which nobody makes an access, and which neither starts an action nor arms or disarms
the hook, keeps what a pending cancellation is to leave as it was. -/
theorem kept_succ (r : Run code) {j : Nat} (hacc : (r.state j).access? (r.event j) = none)
    (hmessage : (r.state j).machine.mailbox.cancelMessage ≠ none)
    (hdrain : ∀ event ran, (r.state j).machine.control ≠ .drain (.mailbox event) ran)
    (hrearm : ∀ e remaining, (r.state j).machine.control ≠ .rearm e remaining)
    (hdisarm : ∀ info, (r.state j).machine.control ≠ .handle .disarm info) :
    r.Kept j (j + 1) := by
  -- every field is read off its own step law, in which none of the causes applies
  have hsound := r.sound j
  have hstart := System.starting?_eq_none (e := r.event j) hdrain
  have hqueue := System.queue_step (e := r.event j) code hsound
  have harming : (r.state j).arming (r.event j) = false := by
    simp only [System.arming, hacc]
    split
    next hc => exact absurd hc (hrearm _ _)
    next => rfl
  have hdisarming : (r.state j).disarming (r.event j) = false := by
    cases hd : (r.state j).disarming (r.event j) with
    | false => rfl
    | true =>
      obtain ⟨-, info, hc⟩ := System.disarming_eq_true hd
      exact absurd hc (hdisarm info)
  simp only [hstart, System.enqueuing?, hacc, Option.toList_none, Option.map_none,
    List.append_nil, List.nil_append] at hqueue
  constructor
  · simp only [started, hstart, Option.toList_none, List.append_nil]
  · rw [r.next, hqueue]
  · rw [r.next, System.cancelMessage_step code hsound]
    simp only [hacc]
  · rw [r.next, System.cancelFlag_step code hsound hmessage]
    simp only [hacc]
  · rw [r.next, System.mask_step code hsound]
    simp only [harming, hdisarming, Bool.false_eq_true, if_false]

/-- The handler of the safepoint that polls at step `k` is on its way to raise a cancellation, with
so many moves left at most until the safepoint returns. -/
inductive Stopping (r : Run code) (k : Nat) (message : Message) (j : Nat) : Nat → Prop where
  | looking {left} (h : (r.state j).machine.Raising (r.state k).machine.frames left)
      (kept : r.Kept k j) : Stopping r k message j (left + 1)
  | leaving (h : (r.state j).machine.Raised (r.state k).machine.frames message)
      (kept : r.Kept k j) : Stopping r k message j 1

/-- The safepoint that polls at step `k` has raised a cancellation, and left the rest as it was. -/
structure Stopped (r : Run code) (k : Nat) (message : Message) (j : Nat) : Prop where
  frames : (r.state j).machine.frames = (r.state k).machine.frames
  control : (r.state j).machine.control = .deliver (.error (.cancelled message))
  kept : r.Kept k j

section Stopping

variable {k j left : Nat} {message : Message}

/-- On its way to raising the cancellation, the handler has kept everything. -/
theorem Stopping.kept (h : r.Stopping k message j left) : r.Kept k j := by
  cases h with
  | looking _ hkept => exact hkept
  | leaving _ hkept => exact hkept

/-- On its way to raise a cancellation, a safepoint waits for its handler. -/
theorem Stopping.frames_ne (h : r.Stopping k message j left) :
    (r.state j).machine.frames ≠ (r.state k).machine.frames := by
  have hframes : (r.state j).machine.frames = .dispatch :: (r.state k).machine.frames := by
    cases h with
    | looking h => exact h.frames
    | leaving h => exact h.frames
  rw [hframes]
  exact List.cons_ne_self _ _

/-- On its way to raise a cancellation a safepoint makes no access, starts no action, and neither
arms the hook nor disarms it. -/
private theorem Stopping.kept_succ (h : r.Stopping k message j left)
    (hidle : (r.state j).HostsIdle)
    (hmessage : (r.state j).machine.mailbox.cancelMessage = some message) :
    r.Kept k (j + 1) := by
  refine h.kept.trans (r.kept_succ (hidle.access?_eq_none fun p hc => ?_) (by simp [hmessage])
    (fun event ran hc => ?_) (fun e remaining hc => ?_) (fun info hc => ?_)) <;>
  · cases h with
    | looking h => cases h <;> simp_all
    | leaving h => simp [h.control] at hc

/-- With each move of its thread a safepoint comes nearer to raising a pending cancellation, and
nothing puts it off. -/
theorem stopping_step (h : r.Stopping k message j left) (hidle : (r.state j).HostsIdle)
    (hpending : (r.state k).machine.mailbox.Pending message) :
    r.Stopped k message (j + 1) ∨
      ∃ left', r.Stopping k message (j + 1) left' ∧ left' + (r.isMove j).toNat ≤ left := by
  have hpending : (r.state j).machine.mailbox.Pending message :=
    ⟨h.kept.flag.trans hpending.1, h.kept.message.trans hpending.2⟩
  have hkept := h.kept_succ hidle hpending.2
  by_cases he : r.event j = .advance
  · have hmove : r.isMove j = !(r.state j).machine.isHeld := by
      simp [isMove, he, Event.isAdvance]
    have hnext := r.step_of_advance he
    -- the handler either goes on looking at the request, or has raised it and leaves
    cases h with
    | @looking left h =>
      right
      obtain ⟨-, ⟨left', hnear, hless⟩ | ⟨rfl, hraised⟩⟩ := Machine.raising_step code h hpending
      · rw [← hnext] at hnear
        exact ⟨left' + 1, .looking hnear hkept, by rw [hmove]; omega⟩
      · rw [← hnext] at hraised
        have := Bool.toNat_le (r.isMove j)
        exact ⟨1, .leaving hraised hkept, by omega⟩
    | leaving h =>
      -- the handler returns to the safepoint
      refine .inl ⟨?_, ?_, hkept⟩ <;>
      · rw [hnext]
        simp [Machine.step, h.control, Machine.deliver, h.frames, Machine.goto]
  · have hrests := r.isMove_of_aside he
    right
    cases h with
    | @looking left h =>
      obtain ⟨hfin, hwait⟩ := h.at_work
      obtain ⟨hcontrol, hframes, -⟩ := (System.aside_step code he).of_working hfin hwait
      rw [← r.next] at hcontrol hframes
      exact ⟨left + 1, .looking (h.congr hcontrol hframes) hkept, by omega⟩
    | leaving h =>
      have hc := h.control
      obtain ⟨hcontrol, hframes, -⟩ := (System.aside_step code he).of_working
        (by rw [hc]; rfl) (by simp [hc])
      rw [← r.next] at hcontrol hframes
      exact ⟨1, .leaving ⟨hcontrol.trans hc, hframes.trans h.frames⟩ hkept, by omega⟩

end Stopping

/-- A safepoint that polls an armed hook while a cancellation is pending, and no host has a call in
flight, raises it within a few moves of its thread, and that is all it does. -/
theorem raises_alone {k n : Nat} {message : Message} (hpolls : r.Polls k)
    (hmask : (r.state k).machine.mailbox.slot.mask = .armed)
    (hmessage : (r.state k).machine.mailbox.cancelMessage = some message) (hkn : k < n)
    (halone : r.Alone k n) :
    (∀ e outcome, e ≤ n → r.Returns k e outcome →
      outcome = .error (.cancelled message) ∧ r.Kept k e) ∧
      (r.moves k + 8 < r.moves n → ∃ e outcome, e ≤ n ∧ r.Returns k e outcome) := by
  have hidle := halone k (Nat.le_refl k) hkn
  have hpending : (r.state k).machine.mailbox.Pending message :=
    ⟨r.cancelFlag_of_settled (hpolls.settled hidle) (by simp [hmessage]), hmessage⟩
  have hfirst : r.Stopping k message (k + 1) 7 := by
    obtain ⟨event, hstep⟩ := hpolls.step_of_armed hmask
    obtain ⟨_, hc⟩ := hpolls.control
    exact .looking (hstep ▸ Machine.raising_entering _ event)
      (r.kept_succ (hidle.access?_eq_none (by simp [hc])) (by simp [hmessage]) (by simp [hc])
        (by simp [hc]) (by simp [hc]))
  have hstep (j left : Nat) (hkj : k + 1 ≤ j) (hjn : j < n) (h : r.Stopping k message j left) :
      r.Stopped k message (j + 1) ∨
        ∃ left', r.Stopping k message (j + 1) left' ∧ left' + (r.isMove j).toNat ≤ left :=
    stopping_step h (halone j (by omega) hjn) hpending
  constructor
  · intro e outcome hen hret
    rcases r.progress_of_measure hstep hfirst hret.later hen with
      ⟨e', hke', hee', hstopped, -⟩ | ⟨⟨left, h, -⟩, -⟩
    · -- a safepoint returns only once
      have he : e' = e := by
        by_contra hne
        exact hret.first e' (by omega) (by omega) hstopped.frames
      subst he
      exact ⟨by simpa using hret.control.symm.trans hstopped.control, hstopped.kept⟩
    · exact absurd hret.frames h.frames_ne
  · intro hmoves
    have hmove := r.moves_succ_le k
    obtain ⟨e, hke, hen, hstopped, -, hon⟩ := r.reaches_of_measure hstep hfirst hkn (by omega)
    refine ⟨e, _, hen, by omega, hstopped.control, hstopped.frames, fun j hkj hje => ?_⟩
    obtain ⟨left, h⟩ := hon j (by omega) hje
    exact h.frames_ne

/-! ## A pass -/

/-- A cancellation has armed the hook, or the host code that makes it has yet to. -/
def Rearmed (r : Run code) (j : Nat) : Prop :=
  (r.state j).machine.mailbox.slot.mask = .armed ∨
    ∃ text, (r.state j).phase .own = .raiseFlag text ∨ (r.state j).phase .own = .armForCancel text

/-- How far the safepoint that polls at step `k` is at step `j`, no cancellation being pending at
step `k`. -/
inductive Course (r : Run code) (k j : Nat) : Prop where
  | looking (h : (r.state j).machine.Looking (r.state k).machine.frames)
      (outcomes : r.outcomes j = r.outcomes k) (quiet : ¬ r.CancelledWithin k j) : Course r k j
  | passing {outs} (h : (r.state j).machine.Passing (r.state k).machine.frames outs)
      (outcomes : r.outcomes j = r.outcomes k ++ outs)
      (rearmed : r.CancelledWithin k j → r.Rearmed j) : Course r k j

/-- The safepoint that polls at step `k` has returned as its pass has ended. -/
structure Concluded (r : Run code) (k e : Nat) (outcome : Outcome κ) (outs : List (Outcome κ)) :
    Prop where
  frames : (r.state e).machine.frames = (r.state k).machine.frames
  control : (r.state e).machine.control = .deliver outcome
  outcomes : r.outcomes e = r.outcomes k ++ outs
  ends : Machine.Concludes (r.state e).machine.mailbox.queue outs outcome
  rearmed : r.CancelledWithin k e → (r.state e).machine.mailbox.slot.mask = .armed
  idle : (r.state e).HostsIdle

/-- A cancellation that was not yet pending becomes so by the access that stores its message. -/
theorem storing_of_cancelledWithin {k j : Nat} (h : r.CancelledWithin k (j + 1))
    (hnot : ¬ r.CancelledWithin k j) (hkj : k ≤ j) :
    ∃ c text encoding, (r.state j).access? (r.event j) = some (c, .storeMessage text encoding) := by
  obtain ⟨i, hki, hij, hi⟩ := h
  obtain rfl : i = j + 1 := by
    by_contra hne
    exact hnot ⟨i, hki, by omega, hi⟩
  have hnone : (r.state j).machine.mailbox.cancelMessage = none := by
    by_contra hsome
    exact hnot ⟨j, hkj, Nat.le_refl j, hsome⟩
  -- the message is there now and was not before, so this step has stored it
  rw [r.next, System.cancelMessage_step code (r.sound j)] at hi
  split at hi
  next c text encoding hacc => exact ⟨c, text, encoding, hacc⟩
  next => exact absurd rfl hi
  next => exact absurd hnone hi

/-- While the hook is not disarmed, a cancellation that has become pending has armed it, or is about
to. -/
theorem rearmed_succ {k j : Nat} (hkj : k ≤ j) (hidle : (r.state j).HostsIdle)
    (hdisarm : (r.state j).disarming (r.event j) = false)
    (h : r.CancelledWithin k j → r.Rearmed j) (hwithin : r.CancelledWithin k (j + 1)) :
    r.Rearmed (j + 1) := by
  have hmask := System.mask_step (e := r.event j) code (r.sound j)
  simp only [hdisarm, Bool.false_eq_true, if_false] at hmask
  rw [← r.next] at hmask
  -- the cancelling call had come to its arming before, or stores its message with this step
  by_cases hbefore : r.CancelledWithin k j
  · rcases h hbefore with harmed | ⟨text, hphase⟩
    · left
      rw [hmask, harmed, ite_self]
    · -- the call that makes it goes on, or rests
      have hgoing : ((r.state j).phase .own).ending? = none := by
        rcases hphase with hphase | hphase <;> rw [hphase] <;> rfl
      cases hacc : (r.state j).access? (r.event j) with
      | none =>
        right
        rw [r.next, System.phase_step_of_going code hgoing (by simp [hacc])]
        exact ⟨text, hphase⟩
      | some cp =>
        obtain ⟨c, p⟩ := cp
        obtain ⟨-, rfl, -⟩ := hidle.access hacc
        have hp := System.phase_of_access hacc
        have hstep := System.phase_step_of_access code hacc
        rw [← r.next] at hstep
        rcases hphase with hphase | hphase
        · obtain rfl := hp.symm.trans hphase
          exact .inr ⟨text, .inr hstep⟩
        · obtain rfl := hp.symm.trans hphase
          left
          rw [hmask]
          simp [System.arming, hacc, HostPhase.arms]
  · obtain ⟨c, text, encoding, hacc⟩ := storing_of_cancelledWithin hwithin hbefore hkj
    obtain ⟨-, rfl, -⟩ := hidle.access hacc
    have hstep := System.phase_step_of_access code hacc
    rw [← r.next] at hstep
    exact .inr ⟨text, .inl hstep⟩

/-- Where nobody makes an access no cancellation becomes pending. -/
theorem not_cancelledWithin_succ {k j : Nat} (hkj : k ≤ j)
    (hacc : (r.state j).access? (r.event j) = none) (hquiet : ¬ r.CancelledWithin k j) :
    ¬ r.CancelledWithin k (j + 1) := by
  intro hwithin
  obtain ⟨c, text, encoding, hstores⟩ := storing_of_cancelledWithin hwithin hquiet hkj
  rw [hacc] at hstores
  exact nomatch hstores

/-- While its hosts are idle, a safepoint goes from stage to stage of its pass, and returns as the
pass ends. -/
theorem course_step {k j : Nat} (h : r.Course k j) (hkj : k < j) (hidle : (r.state j).HostsIdle)
    (hpost : (r.state j).machine.Posture (some (r.state k).machine.frames)) :
    r.Course k (j + 1) ∨ ∃ outcome outs, r.Concluded k (j + 1) outcome outs := by
  have hfin := System.working_of_posture_some hpost
  have hout : r.outcomes (j + 1) =
      r.outcomes j ++ ((r.state j).returning? (r.event j)).toList := rfl
  -- the handler looks at the request first, and then passes over the queue
  cases h with
  | looking h outcomes quiet =>
    left
    obtain ⟨phase, info, hc, -⟩ := h.control
    have hquiet := not_cancelledWithin_succ (Nat.le_of_lt hkj)
      (hidle.access?_eq_none fun p hpost => by simp [hpost, Control.past] at hc) quiet
    have hmessage : (r.state j).machine.mailbox.cancelMessage = none := by
      by_contra hsome
      exact quiet ⟨j, Nat.le_of_lt hkj, Nat.le_refl j, hsome⟩
    by_cases he : r.event j = .advance
    · rw [he, System.returning?, Machine.returning?_of_handler h.frames, Option.toList_none,
        List.append_nil, outcomes] at hout
      rcases Machine.looking_step code h hmessage with h | h
      · rw [← r.step_of_advance he] at h
        exact .looking h hout hquiet
      · rw [← r.step_of_advance he] at h
        exact .passing h (hout.trans (List.append_nil _).symm) fun hwithin => absurd hwithin hquiet
    · rw [System.returning?_of_aside he, Option.toList_none, List.append_nil, outcomes] at hout
      have h := System.looking_of_aside code he hfin h
      rw [← r.next] at h
      exact .looking h hout hquiet
  | @passing outs h outcomes rearmed =>
    have hrearmed := rearmed_succ (Nat.le_of_lt hkj) hidle (by
      cases hd : (r.state j).disarming (r.event j) with
      | false => rfl
      | true =>
        obtain ⟨-, info, hc⟩ := System.disarming_eq_true hd
        exact absurd hc (h.not_disarming info)) rearmed
    rw [outcomes, List.append_assoc] at hout
    by_cases he : r.event j = .advance
    · rw [he, System.returning?] at hout
      rcases Machine.passing_step h hpost ((r.sound j).move code) with
        h | ⟨hidles, hframes, outcome, hc, hends⟩
      · rw [← r.step_of_advance he] at h
        exact .inl (.passing h hout hrearmed)
      · rw [← r.step_of_advance he] at hframes hc hends
        rw [hidles, Option.toList_none, List.append_nil] at hout
        refine .inr ⟨outcome, outs, hframes, hc, hout, hends, fun hwithin => ?_, ?_⟩
        · -- what returns is no call through a handle
          rcases hrearmed hwithin with harmed | ⟨text, hphase⟩
          · exact harmed
          · simp [System.phase, hc, Control.posting] at hphase
        · rw [r.next, he]
          exact hidle
    · have hacc : (r.state j).access? (r.event j) = none := by
        cases hacc : (r.state j).access? (r.event j) with
        | none => rfl
        | some cp => exact absurd (hidle.access hacc).1 he
      have h := System.passing_of_aside code he hacc hfin h
      rw [System.returning?_of_aside he, Option.toList_none, List.append_nil] at hout
      rw [← r.next] at h
      exact .inl (.passing h hout hrearmed)

/-- A safepoint that polls an armed hook while no cancellation is pending first looks for one. -/
theorem course_of_armed {k : Nat} (hpolls : r.Polls k)
    (hmask : (r.state k).machine.mailbox.slot.mask = .armed)
    (hmessage : (r.state k).machine.mailbox.cancelMessage = none)
    (hidle : (r.state k).HostsIdle) : r.Course k (k + 1) := by
  obtain ⟨event, hstep⟩ := hpolls.step_of_armed hmask
  obtain ⟨_, hc⟩ := hpolls.control
  have hquiet : ¬ r.CancelledWithin k k := by
    rintro ⟨j, hkj, hjk, hsome⟩
    obtain rfl : j = k := by omega
    exact hsome hmessage
  -- the poll has entered the handler, and nothing has returned
  refine .looking ?_ ?_
    (not_cancelledWithin_succ (Nat.le_refl k) (hidle.access?_eq_none (by simp [hc])) hquiet)
  · rw [hstep]
    exact ⟨⟨.enter, _, rfl, by decide⟩, rfl⟩
  · rw [outcomes, hpolls.step, System.returning?, Machine.returning?_of_control (by simp [hc])]
    exact List.append_nil _

/-- A safepoint that polls an armed hook while no cancellation is pending, and during which no host
has a call in flight, returns as its pass ends. -/
theorem concludes_alone {k e : Nat} {outcome : Outcome κ} (hpolls : r.Polls k)
    (hmask : (r.state k).machine.mailbox.slot.mask = .armed)
    (hmessage : (r.state k).machine.mailbox.cancelMessage = none) (hret : r.Returns k e outcome)
    (halone : r.Alone k e) : ∃ outs, r.Concluded k e outcome outs := by
  have hcourse : ∀ j, k < j → j < e → r.Course k j := by
    intro j hkj
    -- the induction is on the steps of the safepoint
    induction j, hkj using Nat.le_induction with
    | base =>
      intro he
      exact course_of_armed hpolls hmask hmessage (halone k (Nat.le_refl k) (by omega))
    | succ j hkj ih =>
      intro hje
      rcases course_step (ih (by omega)) hkj (halone j (by omega) (by omega))
        (hret.inside hpolls hmask hkj (by omega)) with h | ⟨_, _, h⟩
      · exact h
      · -- it would have returned already
        exact absurd h.frames (hret.first (j + 1) (by omega) hje)
  obtain ⟨d, hkd, rfl, -⟩ := hret.leaves hpolls hmask
  rcases course_step (hcourse d hkd (by omega)) hkd (halone d (by omega) (by omega))
    (hret.inside hpolls hmask hkd (by omega)) with h | ⟨outcome', outs, h⟩
  · cases h with
    | looking h => exact absurd hret.frames h.frames_ne
    | passing h => exact absurd hret.frames h.frames_ne
  · obtain rfl : outcome' = outcome := by simpa using h.control.symm.trans hret.control
    exact ⟨outs, h⟩

/-- What a pass that has ended leaves in the queue has the hook armed for it. -/
theorem Concluded.armed {k e : Nat} {outcome : Outcome κ} {outs : List (Outcome κ)}
    (h : r.Concluded k e outcome outs) (hpolls : r.Polls k)
    (hqueue : (r.state e).machine.mailbox.queue ≠ []) :
    (r.state e).machine.mailbox.slot.mask = .armed := by
  have hopen := (r.sound e).isOpen_of_working (by rw [h.control]; rfl)
  -- an action that waits is minded, and of those who might mind it only the mask is left
  rcases r.armed_or_pending e hopen hqueue with (harmed | hdrains | ⟨f, hf, hpass⟩) | ⟨c, hc⟩
  · exact harmed
  · simp [h.control, Control.drains] at hdrains
  · rw [h.frames] at hf
    simp [Frame.not_isPass_of_isOrdinary (hpolls.ordinary f hf)] at hpass
  · -- no host has anything in flight, and what returns is no call through a handle
    cases c with
    | host t =>
      have hover := h.idle t
      have hc : (r.state e).hosts t = .armForAction := hc
      simp [hc, HostPhase.ending?] at hover
    | own => simp [System.phase, h.control, Control.posting] at hc

/-- The law of one safepoint. Let it find the hook armed and be allowed to enter its handler, and
let no host have a call in flight from then until it returns. If a cancellation is pending, it
raises it within a few moves of its thread, starts no action, and leaves the queue, the message and
the armed mask as they were. Otherwise it runs actions from the front of the queue, those queued
meanwhile included, until the queue is empty or one fails. In the first case it returns a success;
in the second that action's error, with the actions not yet started left in the queue. The hook is
armed if any are left, or if a cancellation has become pending meanwhile. -/
theorem safepoint_law (r : Run code) {k : Nat} (h : r.Polls k)
    (armed : (r.state k).machine.mailbox.slot.mask = .armed) :
    (∀ message, (r.state k).machine.mailbox.cancelMessage = some message →
      (∀ n, k < n → r.Alone k n → r.moves k + 8 < r.moves n →
        ∃ e outcome, e ≤ n ∧ r.Returns k e outcome) ∧
      ∀ e outcome, r.Returns k e outcome → r.Alone k e →
        outcome = .error (.cancelled message) ∧ r.started e = r.started k ∧
        (r.state e).machine.mailbox.queue = (r.state k).machine.mailbox.queue ∧
        (r.state e).machine.mailbox.cancelMessage = some message ∧
        (r.state e).machine.mailbox.slot.mask = .armed) ∧
    ((r.state k).machine.mailbox.cancelMessage = none →
      ∀ e outcome, r.Returns k e outcome → r.Alone k e →
        ∃ ran added outs, r.started e = r.started k ++ ran ∧
          r.enqueued e = r.enqueued k ++ added ∧
          ran ++ (r.state e).machine.mailbox.queue =
            (r.state k).machine.mailbox.queue ++ added.map Prod.snd ∧
          r.outcomes e = r.outcomes k ++ outs ∧ outs.length = ran.length ∧
          ((outcome = .ok [] ∧ (r.state e).machine.mailbox.queue = [] ∧
              ∀ o ∈ outs, ∃ vs, o = .ok vs) ∨
            ∃ err before, outcome = .error err ∧ outs = before ++ [.error err] ∧
              ∀ o ∈ before, ∃ vs, o = .ok vs) ∧
          ((r.state e).machine.mailbox.queue ≠ [] ∨ r.CancelledWithin k e →
            (r.state e).machine.mailbox.slot.mask = .armed)) := by
  constructor
  · intro message hmessage
    refine ⟨fun n hkn halone => (raises_alone h armed hmessage hkn halone).2,
      fun e outcome hret halone => ?_⟩
    obtain ⟨houtcome, hkept⟩ :=
      (raises_alone h armed hmessage hret.later halone).1 e outcome (Nat.le_refl e) hret
    exact ⟨houtcome, hkept.started, hkept.queue, hkept.message.trans hmessage,
      hkept.mask.trans armed⟩
  · intro hmessage e outcome hret halone
    have hke := Nat.le_of_lt hret.later
    obtain ⟨outs, hconc⟩ := concludes_alone h armed hmessage hret halone
    obtain ⟨ran, hran⟩ := r.started_prefix hke
    obtain ⟨added, hadded⟩ := r.enqueued_prefix hke
    refine ⟨ran, added, outs, hran.symm, hadded.symm, ?_, hconc.outcomes, ?_, ?_, ?_⟩
    · -- what was started and what waits is what was enqueued, before and after
      have hbefore := r.started_append_queue k
      have hafter := r.started_append_queue e
      rw [← hran, ← hadded, List.map_append, ← hbefore, List.append_assoc, List.append_assoc]
        at hafter
      exact List.append_cancel_left hafter
    · -- no action runs at a safepoint that may enter the handler, or as it returns
      obtain ⟨d, -, -, -, -, hout⟩ := hret.leaves h armed
      have hrunning := System.running_of_outside h.posture
      have hrunning' := System.running_of_outside hout
      have hlength := r.length_started k
      have hlength' := r.length_started e
      rw [← r.length_outcomes] at hlength hlength'
      rw [← hran, hconc.outcomes, List.length_append, List.length_append] at hlength'
      omega
    · cases hends : hconc.ends with
      | succeeded hempty hall => exact .inl ⟨rfl, hempty, hall⟩
      | failed hlast hothers => exact .inr ⟨_, _, rfl, hlast, hothers⟩
    · rintro (hqueue | hwithin)
      · exact hconc.armed h hqueue
      · exact hconc.rearmed hwithin

/-- No host takes up a call while the interpreter's own thread goes on alone. -/
private theorem alone_of_advance {k e : Nat} (hidle : (r.state k).HostsIdle)
    (hadvance : ∀ j, k ≤ j → r.event j = .advance) : r.Alone k e := by
  intro j hkj _
  induction j, hkj using Nat.le_induction with
  | base => exact hidle
  | succ j hkj ih =>
    rw [r.next, hadvance j hkj]
    exact ih (by omega)

/-- The action `1` interjects the action `3`, the action `2` fails, and any other succeeds. -/
private def passCode : Meaning Nat Unit Unit := fun action _ =>
  match action with
  | 1 => .ask (.post (.interject 3)) fun _ => .finish (.ok [])
  | 2 => .finish (.error (.ofText "failed"))
  | _ => .finish (.ok [])

/-- A host interjects the actions `1`, `2` and `0`, and the embedder calls a native function
afterwards. -/
private def failingPass : Run passCode :=
  .ofEvents passCode
    [.call 0 (.interject 1), .host 0, .host 0, .host 0, .host 0, .call 0 (.interject 2), .host 0,
      .host 0, .host 0, .host 0, .call 0 (.interject 0), .host 0, .host 0, .host 0, .host 0,
      .start (callNative 0) []]

/-- The call safepoint of the native function runs two of the actions, and returns the error of the
second. The third waits, and behind it the one that the first has interjected. -/
theorem failing_pass_rearms :
    ∃ (r : Run passCode) (k e : Nat) (err : Error), r.Polls k ∧ r.Returns k e (.error err) ∧
      (r.state k).machine.mailbox.queue = [1, 2, 0] ∧ r.started e = r.started k ++ [1, 2] ∧
      (∃ vs, r.outcomes e = r.outcomes k ++ [.ok vs, .error err]) ∧
      (r.state e).machine.mailbox.queue = [0, 3] ∧
      (r.state e).machine.mailbox.slot.mask = .armed := by
  have hpolls : failingPass.Polls 18 := ⟨rfl, ⟨.call, rfl⟩, rfl⟩
  have hreturns : failingPass.Returns 18 48 (.error (.ofText "failed")) := by
    refine ⟨by decide, by rfl, by rfl, fun j hkj hje hframes => ?_⟩
    -- until then there are more frames than at the poll
    have hmore : ∀ j < 48, 18 < j → 2 < (failingPass.state j).machine.frames.length := by
      decide +kernel
    have htwo : (failingPass.state 18).machine.frames.length = 2 := rfl
    have := hmore j hje hkj
    rw [hframes, htwo] at this
    exact absurd this (by decide)
  have hidle : (failingPass.state 18).HostsIdle := by
    rintro (_ | t) <;> rfl
  have halone : failingPass.Alone 18 48 := alone_of_advance hidle fun j hj =>
    List.getD_eq_getElem?_getD.trans (by rw [List.getElem?_eq_none (show 16 ≤ j by omega)]; rfl)
  have hqueue : (failingPass.state 18).machine.mailbox.queue = [1, 2, 0] := by rfl
  have hleft : (failingPass.state 48).machine.mailbox.queue = [0, 3] := by decide +kernel
  obtain ⟨-, hpass⟩ := safepoint_law failingPass hpolls (by rfl)
  obtain ⟨ran, added, outs, hstarted, -, hconserved, houtcomes, hlength, hends, harmed⟩ :=
    hpass (by rfl) 48 _ hreturns halone
  have hran : ran = [1, 2] := by
    have hbefore : failingPass.started 18 = [] := by rfl
    have hafter : failingPass.started 48 = [1, 2] := by decide +kernel
    rw [← hafter, hstarted, hbefore, List.nil_append]
  subst hran
  rcases hends with ⟨hok, -⟩ | ⟨err, before, herr, houts, hbefore⟩
  · exact nomatch hok
  · obtain ⟨o, rfl⟩ : ∃ o, before = [o] := List.length_eq_one_iff.1 (by simpa [houts] using hlength)
    obtain ⟨vs, rfl⟩ := hbefore o (List.mem_singleton_self o)
    rw [herr] at hreturns
    exact ⟨failingPass, 18, 48, err, hpolls, hreturns, hqueue, hstarted,
      ⟨vs, houtcomes.trans (by rw [houts]; rfl)⟩, hleft, harmed (.inl (by simp [hleft]))⟩

end Run

end Safepoint
