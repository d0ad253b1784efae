import Safepoint.Proofs.Interjection.Credit
import Safepoint.Proofs.Interjection.Law
import Safepoint.Proofs.Overflow
import Safepoint.Proofs.System.Armed

/-!
# What the handler costs

The entries of the handler that raise no cancellation are no more than the armings of the hook so
far, however these fall together with polls, disarms and passes under way. Where nobody has asked
for anything there is no entry. And where some actions wait when the embedder runs a script, one
entry runs them all: the call safepoint of the script finds the hook armed, and after its pass
nothing arms the hook again.

## Key results

- `Run.entered_once`: without requests and failures the handler is entered at most once
- `Run.entered_of_armed`: a script that is run with the hook armed enters the handler
- `Run.entries_paid_for`: the entries of the handler, by the armings of the hook
-/

namespace Safepoint

variable {κ τ ρ : Type}

/-! ## A script that is run -/

/-- What an embedder does to run a script: it loads a prototype, makes a protected call of the
function, and goes on with the reply. -/
def runScript (proto : Prototype) (after : Reply κ → Program κ τ ρ) : Program κ τ ρ :=
  .ask (.load proto) fun
    | .value f => .ask (.pcall f []) after
    | reply => after reply

namespace Machine

variable {m m' : Machine κ τ ρ} {code : Meaning κ τ ρ}

/-- A pass fails when an action returns an error to it. -/
theorem failing_of_move (h : m.Move code m') (hfailing : m'.control.isFailing = true) :
    m.control.isFailing = true ∨ ∃ err, m.returning? = some (.error err) := by
  -- a pass fails when an action returns an error, and goes on failing up to where it returns
  cases h with
  | works hw =>
    rcases hw.control with hord | ⟨-, outcome, hfin⟩
    · rw [(Control.elsewhere_of_isOrdinary hord).2.2] at hfailing
      cases hfailing
    · rw [hfin] at hfailing
      cases hfailing
  | synced _ hpast =>
    left
    rw [Control.isFailing, ← hpast]
    exact hfailing
  | posted _ _ _ _ _ _ _ hord =>
    rw [(Control.elsewhere_of_isOrdinary hord).2.2] at hfailing
    cases hfailing
  | dispatched _ _ _ _ _ _ _ _ hhandles =>
    rw [hhandles] at hfailing
    cases hfailing
  | flagRead =>
    simp only [goto, Control.isFailing] at hfailing
    split at hfailing <;> simp_all [Control.past]
  | @ended _ event ran outcome rest hc hf _ _ _ _ hsettles =>
    rw [hsettles] at hfailing
    cases outcome with
    | ok => cases hfailing
    | error err => exact .inr ⟨err, by simp [returning?, hc, hf, Frame.isPass]⟩
  | failed hc | measured hc => exact .inl (by rw [hc]; rfl)
  | rested => exact .inl hfailing
  | _ => cases hfailing

/-- How far an embedder that runs a script is, before the first safepoint. -/
inductive Launching (m : Machine κ τ ρ) : Prop where
  | loading {held proto after} (control : m.control = .run held (runScript proto after))
      (room : m.interp.depth < m.interp.limits.maxCallDepth) : Launching m
  | calling {held f after} (control : m.control = .run held (.ask (.pcall (.fn f) []) after))
      (room : m.interp.depth < m.interp.limits.maxCallDepth) : Launching m
  | invoking {f} (control : m.control = .invoke (.fn f) [])
      (room : m.interp.depth < m.interp.limits.maxCallDepth) : Launching m
  | polling (control : m.control = .poll .call) : Launching m

/-- An embedder that launches a script is neither idle nor waiting, and not in the handler. -/
theorem Launching.at_work (h : m.Launching) : m.control.isFinished = false ∧
    (∀ x given held next, m.control ≠ .waiting x given held next) ∧
    (∀ info, m.control ≠ .handle .disarm info) := by
  cases h with
  | loading hc | calling hc | invoking hc | polling hc => simp [hc, Control.isFinished]

/-- What is about to be done before the first safepoint is told by the control and the calls in
progress. -/
theorem Launching.congr (h : m.Launching) (hcontrol : m'.control = m.control)
    (hinterp : m'.interp = m.interp) : m'.Launching := by
  cases h with
  | loading hc hroom => exact .loading (hcontrol.trans hc) (hinterp ▸ hroom)
  | calling hc hroom => exact .calling (hcontrol.trans hc) (hinterp ▸ hroom)
  | invoking hc hroom => exact .invoking (hcontrol.trans hc) (hinterp ▸ hroom)
  | polling hc => exact .polling (hcontrol.trans hc)

/-- The embedder's thread goes straight to the call safepoint of the script. -/
theorem launching_step (code : Meaning κ τ ρ) (h : m.Launching) :
    m.control = .poll .call ∨
      (m.step code).Launching ∧ (m.step code).interp.hookAllowed = m.interp.hookAllowed := by
  -- each stage leads to the next, up to the call safepoint
  cases h with
  | polling hc => exact .inl hc
  | @loading held proto after hc hroom =>
    right
    have hstep : m.step code = m.runProgram held (runScript proto after) := by simp only [step, hc]
    rw [hstep]
    exact ⟨.calling rfl hroom, rfl⟩
  | @calling held f after hc hroom =>
    right
    have hstep : m.step code = m.runProgram held (.ask (.pcall (.fn f) []) after) := by
      simp only [step, hc]
    rw [hstep]
    exact ⟨.invoking rfl hroom, rfl⟩
  | invoking hc hroom =>
    obtain ⟨hpolls, -, hinterp⟩ := step_of_invoke code hc hroom
    exact .inr ⟨.polling hpolls, by rw [hinterp]⟩

/-- The entries of the handler are only ever more. -/
private theorem invocations_le_move (h : m.Move code m') :
    m.mailbox.invocations ≤ m'.mailbox.invocations := by
  cases h with
  | works hw => rw [hw.mailbox]
  | posted _ _ hmail => rw [hmail, HostPhase.invocations_step]
  | dispatched _ _ _ _ hmail => rw [hmail]
  | ended _ _ hmail => rw [hmail]
  | entered => exact Nat.le_succ _
  | _ => exact Nat.le_refl _

end Machine

namespace Run

variable {code : Meaning κ τ ρ} {r : Run code}

/-- A run is the life of an interpreter that has handles. -/
def toLife (r : Run code) : Life code where
  state := r.state
  event := r.event
  begun := by
    obtain ⟨g, facilities, limits, ground, m, instruments, -, hopen, hs⟩ := r.opened
    exact .inr ⟨g, facilities, limits, ground, m, instruments, hopen, hs⟩
  next := r.next

/-- An interpreter in the middle of no call may make one. -/
theorem room_of_idle (r : Run code) {n : Nat}
    (hfin : (r.state n).machine.control.isFinished = true) :
    (r.state n).machine.interp.depth < (r.state n).machine.interp.limits.maxCallDepth := by
  have hdepth : (r.state n).machine.interp.depth = 0 := by
    have hnested := (r.sound n).nested
    rw [(r.sound n).idle hfin] at hnested
    exact hnested
  have hlimits := (r.toLife.rooted n).limits_eq
  have hvalid := (System.rooted_of_begun r.toLife.begun).1
  rw [hdepth]
  show 0 < (r.toLife.state n).machine.interp.limits.maxCallDepth
  rw [hlimits, Nat.pos_iff_ne_zero]
  -- a limit of no calls at all would not have been valid
  intro hzero
  simp [Limits.Valid, Limits.fault?, hzero] at hvalid

/-- The handler's entries are never counted down. -/
theorem invocations_le (r : Run code) (n : Nat) :
    (r.state n).machine.mailbox.invocations ≤ (r.state (n + 1)).machine.mailbox.invocations := by
  by_cases he : r.event n = .advance
  · exact Machine.invocations_le_move (r.move he)
  · rw [r.next, System.invocations_aside code he]

/-- Without a request for a cancellation none becomes pending, and as long as actions succeed no
pass fails. -/
theorem calm {k n : Nat} (hkn : k ≤ n)
    (hmessage : (r.state k).machine.mailbox.cancelMessage = none)
    (hfailing : (r.state k).machine.control.isFailing = false)
    (hnone : ∀ j, k ≤ j → j < n → (r.state j).cancelling (r.event j) = false)
    (hsucceed : ∀ j, k ≤ j → j < n → ∀ err,
      (r.state j).returning? (r.event j) ≠ some (.error err)) :
    (r.state n).machine.mailbox.cancelMessage = none ∧
      (r.state n).machine.control.isFailing = false := by
  -- the induction is on the steps: a cancellation or a failed action would be the first one
  induction n, hkn using Nat.le_induction with
  | base => exact ⟨hmessage, hfailing⟩
  | succ n hkn ih =>
    obtain ⟨hmessagen, hfailingn⟩ := ih (fun j hkj hjn => hnone j hkj (by omega))
      fun j hkj hjn => hsucceed j hkj (by omega)
    constructor
    · rw [r.next, System.cancelMessage_step code (r.sound n)]
      split
      next c text encoding hacc =>
        have hrequested := hnone n hkn (Nat.lt_succ_self n)
        simp [System.cancelling, hacc] at hrequested
      next => rfl
      next => exact hmessagen
    · by_contra hnow
      rw [Bool.not_eq_false] at hnow
      by_cases he : r.event n = .advance
      · rcases Machine.failing_of_move (r.move he) hnow with hbefore | ⟨err, hreturns⟩
        · rw [hfailingn] at hbefore
          cases hbefore
        · apply hsucceed n hkn (Nat.lt_succ_self n) err
          rw [he]
          exact hreturns
      · rw [r.next] at hnow
        rcases (System.aside_step (s := r.state n) code he).control_eq with
          hcontrol | ⟨held, p, hruns⟩
        · rw [hcontrol, hfailingn] at hnow
          cases hnow
        · rw [hruns] at hnow
          cases hnow

/-- From a step at which an interpreter is idle and no call is in flight, the handler is entered at
most once as long as nobody makes a request and actions succeed. -/
theorem entered_once {k n : Nat} (hkn : k ≤ n)
    (hover : ∀ c, ((r.state k).phase c).keeps = false)
    (hfin : (r.state k).machine.control.isFinished = true)
    (hmessage : (r.state k).machine.mailbox.cancelMessage = none)
    (hnone : ∀ j, k ≤ j → j < n → (r.state j).interjecting (r.event j) = false ∧
      (r.state j).cancelling (r.event j) = false)
    (hsucceed : ∀ j, k ≤ j → j < n → ∀ err,
      (r.state j).returning? (r.event j) ≠ some (.error err)) :
    (r.state n).machine.mailbox.invocations ≤ (r.state k).machine.mailbox.invocations + 1 := by
  have hidle : (r.state k).machine.control.isCounted = false ∧
      (r.state k).machine.control.isFailing = false := by
    cases hc : (r.state k).machine.control <;> simp_all [Control.isFinished, Control.isCounted,
      Control.isFailing, Control.past]
  have hcalm (j : Nat) (hkj : k ≤ j) (hjn : j < n) := calm hkj hmessage hidle.2
    (fun i hki hij => (hnone i hki (by omega)).2) fun i hki hij => hsucceed i hki (by omega)
  -- nothing is raised, and the hook is armed no more
  have hraised : r.tally System.raising n = r.tally System.raising k := by
    apply tally_eq hkn
    intro j hkj hjn
    unfold System.raising
    split
    · split
      · rw [(hcalm j hkj hjn).1]
        rfl
      · rfl
    · rfl
  have harmed : r.tally System.arming n = r.tally System.arming k := by
    apply tally_eq hkn
    intro j hkj hjn
    have hcalls := not_arming_of_unrequested hover hkj fun i hki hij => hnone i hki (by omega)
    have hthree := System.arming_eq (r.state j) (r.event j)
    rw [hcalls.1, hcalls.2, System.rearming_eq_false (hcalm j hkj hjn).2] at hthree
    simpa using hthree
  have hspent := r.disarmings_le hkn
  -- what was disarmed since is no more than what the mask was armed for at the start
  have hbefore := r.invocations_eq k
  have hafter := r.invocations_eq n
  rw [hidle.1] at hbefore
  have hcredit := r.isCounted_le n
  have hone := Bool.toNat_le (!(r.state k).machine.mailbox.slot.mask.isEmpty)
  simp only [Bool.toNat_false] at hbefore
  omega

/-- Where a script is run with the hook armed, the embedder's thread is at step `j` before its first
safepoint, or enters the handler there, or has entered it. -/
inductive Entering (r : Run code) (k j : Nat) : Prop where
  | launching (h : (r.state j).machine.Launching)
      (allowed : (r.state j).machine.interp.hookAllowed = true)
      (armed : (r.state j).machine.mailbox.slot.mask = .armed)
      (same : (r.state k).machine.mailbox.invocations ≤ (r.state j).machine.mailbox.invocations) :
      Entering r k j
  | entering {info} (control : (r.state j).machine.control = .handle .enter info)
      (same : (r.state k).machine.mailbox.invocations ≤ (r.state j).machine.mailbox.invocations) :
      Entering r k j
  | entered (more : (r.state k).machine.mailbox.invocations + 1 ≤
      (r.state j).machine.mailbox.invocations) : Entering r k j

/-- What does not disarm the hook leaves it armed. -/
theorem armed_succ (r : Run code) {j : Nat}
    (harmed : (r.state j).machine.mailbox.slot.mask = .armed)
    (hdisarm : ∀ info, (r.state j).machine.control ≠ .handle .disarm info) :
    (r.state (j + 1)).machine.mailbox.slot.mask = .armed := by
  have hkeeps : (r.state j).disarming (r.event j) = false := by
    cases hdisarms : (r.state j).disarming (r.event j) with
    | false => rfl
    | true =>
      obtain ⟨-, info, hc⟩ := System.disarming_eq_true hdisarms
      exact absurd hc (hdisarm info)
  rw [r.next, System.mask_step code (r.sound j), hkeeps]
  split
  · rfl
  · exact harmed

/-- A script that is run with the hook armed enters the handler at its call safepoint. -/
theorem entering_step {k j : Nat} (h : r.Entering k j) : r.Entering k (j + 1) := by
  have hle := r.invocations_le j
  cases h with
  | entered hmore => exact .entered (by omega)
  | entering hc hsame =>
    by_cases he : r.event j = .advance
    · apply Entering.entered
      rw [r.step_of_advance he, Machine.step, hc]
      show _ ≤ (r.state j).machine.mailbox.invocations + 1
      omega
    · obtain ⟨hcontrol, -⟩ := (System.aside_step (s := r.state j) code he).of_working
        (by rw [hc]; rfl) (by simp [hc])
      rw [← r.next] at hcontrol
      exact .entering (hcontrol.trans hc) (by omega)
  | launching hl hallowed harmed hsame =>
    obtain ⟨hfin, hwaits, hdisarm⟩ := hl.at_work
    have harmed' := r.armed_succ harmed hdisarm
    by_cases he : r.event j = .advance
    · have hstep := r.step_of_advance he
      rcases Machine.launching_step code hl with hpolls | ⟨hnext, hsame'⟩
      · -- the poll reads the armed mask
        have hopen := (r.sound j).isOpen_of_working hfin
        rw [Machine.step, hpolls] at hstep
        have henters := (r.guarded hopen).poll_of_armed .call harmed hallowed
        apply Entering.entering _ (by omega)
        · exact ⟨.call, (r.state j).machine.interp.depth⟩
        · rw [hstep]
          exact congrArg Machine.control henters
      · rw [← hstep] at hnext hsame'
        exact .launching hnext (hsame'.trans hallowed) harmed' (by omega)
    · obtain ⟨hcontrol, -, hinterp⟩ := (System.aside_step (s := r.state j) code he).of_working
        hfin hwaits
      rw [← r.next] at hcontrol hinterp
      exact .launching (hl.congr hcontrol hinterp) (by rw [hinterp]; exact hallowed) harmed'
        (by omega)

/-- An embedder that sets out to run a script with the hook armed has entered the handler when it
has nothing left to do. -/
theorem entered_of_armed {k e : Nat} {proto : Prototype} {after : Reply κ → Program κ τ ρ}
    {given : List (Value κ)} (hke : k < e) (hopen : (r.state k).isOpen = true)
    (hfin : (r.state k).machine.control.isFinished = true)
    (hstart : r.event k = .start (runScript proto after) given)
    (harmed : (r.state k).machine.mailbox.slot.mask = .armed)
    (hend : (r.state e).machine.control.isFinished = true) :
    (r.state k).machine.mailbox.invocations + 1 ≤ (r.state e).machine.mailbox.invocations := by
  have hallowed : (r.state k).machine.interp.hookAllowed = true := by
    obtain ⟨o, ho⟩ := (r.sound k).standing hopen
    have hhook := (ho.of_finished hfin).2.1
    simp only [Interpreter.hook, Prod.mk.injEq] at hhook
    exact hhook.2.1
  have hstep : (r.state (k + 1)).machine =
      (r.state k).machine.start (runScript proto after) given := by
    rw [r.next, hstart]
    simp [System.step, hopen, hfin]
  have hfirst : r.Entering k (k + 1) := by
    apply Entering.launching
    · rw [hstep]
      exact .loading rfl (r.room_of_idle hfin)
    · rw [hstep]
      exact hallowed
    · rw [hstep]
      exact harmed
    · exact r.invocations_le k
  -- from the call to the first safepoint each step leads nearer to the entry
  have hcourse (j : Nat) (hkj : k < j) : r.Entering k j := by
    induction j, hkj using Nat.le_induction with
    | base => exact hfirst
    | succ j _ ih => exact entering_step ih
  cases hcourse e hke with
  | launching hl =>
    rw [hl.at_work.1] at hend
    cases hend
  | entering hc =>
    rw [hc] at hend
    cases hend
  | entered hmore => exact hmore

/-- What was queued while an interpreter is idle waits. -/
theorem queue_of_interjecting {i k j : Nat} (hij : i ≤ j) (hjk : j < k)
    (hidle : ∀ n, i ≤ n → n < k → (r.state n).machine.control.isFinished = true)
    (hqueued : (r.state j).interjecting (r.event j) = true) :
    (r.state k).machine.mailbox.queue ≠ [] := by
  -- nothing is taken off the queue while the interpreter is idle
  have hgrows (n : Nat) (hin : i ≤ n) (hnk : n < k) := by
    have hqueue := System.queue_step (e := r.event n) code (r.sound n)
    rw [System.starting?_of_dropped (hidle n hin hnk), ← r.next] at hqueue
    exact hqueue
  induction k, hjk using Nat.le_induction with
  | base =>
    have hqueue := hgrows j hij (Nat.lt_succ_self j)
    simp only [System.interjecting] at hqueued
    split at hqueued
    next c action hacc =>
      intro hnil
      simp [hnil, System.enqueuing?, hacc, HostPhase.enqueued?] at hqueue
    next => cases hqueued
  | succ k hjk ih =>
    have hqueue := hgrows k (by omega) (Nat.lt_succ_self k)
    have hbefore := ih (fun n hin hnk => hidle n hin (by omega)) fun n hin hnk =>
      hgrows n hin (by omega)
    intro hnil
    simp [hnil, hbefore] at hqueue

/-- What waits in the queue of an idle interpreter, all calls being over, has the hook armed for
it. -/
theorem armed_of_queued {k : Nat} (hopen : (r.state k).isOpen = true)
    (hfin : (r.state k).machine.control.isFinished = true)
    (hover : ∀ c, ((r.state k).phase c).keeps = false)
    (hqueue : (r.state k).machine.mailbox.queue ≠ []) :
    (r.state k).machine.mailbox.slot.mask = .armed := by
  -- an idle interpreter runs no pass, and a call that is over does not leave the arming to do
  rcases r.armed_or_pending k hopen hqueue with (harmed | hdrains | ⟨f, hf, -⟩) | ⟨c, hc⟩
  · exact harmed
  · cases hc : (r.state k).machine.control <;> simp_all [Control.isFinished, Control.drains]
  · rw [(r.sound k).idle hfin] at hf
    cases hf
  · have hkeeps := hover c
    rw [hc] at hkeeps
    cases hkeeps

/-- Where the interpreter is idle and no host has a call in flight, nobody has. -/
theorem over_of_idle {k : Nat} (hfin : (r.state k).machine.control.isFinished = true)
    (hhosts : (r.state k).HostsIdle) (c : Caller) : ((r.state k).phase c).keeps = false := by
  cases c with
  | host t =>
    have hover := hhosts t
    show ((r.state k).hosts t).keeps = false
    cases hp : (r.state k).hosts t <;> simp_all [HostPhase.ending?, HostPhase.keeps]
  | own =>
    show (r.state k).machine.control.posting.keeps = false
    cases hc : (r.state k).machine.control <;> simp_all [Control.isFinished, Control.posting,
      HostPhase.keeps]

/-- Entries of the handler are paid for by requests. However the threads are interleaved, the
entries that raise no cancellation are no more than the times the hook was armed so far: once by
each interjection, once by each cancellation, and once for each failed pass that left actions in the
queue. Without an interjection or a cancellation there is no entry, whatever runs. And let some
actions be interjected while an interpreter is idle, all the calls be over when the embedder sets
out to run a script, no cancellation be pending then, and nobody make a request from then on; if no
action fails, the run costs one entry. -/
theorem entries_paid_for (r : Run code) :
    (∀ n, r.tally System.raising n ≤ (r.state n).machine.mailbox.invocations ∧
      (r.state n).machine.mailbox.invocations - r.tally System.raising n ≤
        r.tally System.armingForAction n + r.tally System.armingForCancel n +
          r.tally System.rearming n) ∧
    (∀ n, (∀ j < n, (r.state j).interjecting (r.event j) = false ∧
        (r.state j).cancelling (r.event j) = false) →
      (r.state n).machine.mailbox.invocations = 0) ∧
    ∀ i k e proto after given, i ≤ k → k < e →
      (∀ n, i ≤ n → n ≤ k → (r.state n).isOpen = true ∧
        (r.state n).machine.control.isFinished = true) →
      (∃ j, i ≤ j ∧ j < k ∧ (r.state j).interjecting (r.event j) = true) →
      (r.state k).HostsIdle → (r.state k).machine.mailbox.cancelMessage = none →
      r.event k = .start (runScript proto after) given →
      (∀ j, k ≤ j → j < e → (r.state j).interjecting (r.event j) = false ∧
        (r.state j).cancelling (r.event j) = false ∧
        ∀ err, (r.state j).returning? (r.event j) ≠ some (.error err)) →
      (r.state e).machine.control.isFinished = true →
      (r.state e).machine.mailbox.invocations = (r.state k).machine.mailbox.invocations + 1 := by
  refine ⟨fun n => ?_, fun n hnone => ?_, ?_⟩
  · -- an entry raises or disarms, and what is disarmed was armed
    have hentries := r.invocations_eq n
    have hspent := r.disarmings_le (Nat.zero_le n)
    have harmings := r.tally_arming n
    have hcredit := r.isCounted_le n
    obtain ⟨-, -, hmail, -⟩ := System.opened_machine r.opened
    have hzero : (!(r.state 0).machine.mailbox.slot.mask.isEmpty).toNat = 0 := by rw [hmail]; rfl
    have hnoarm : r.tally System.arming 0 = 0 := rfl
    have hnodisarm : r.tally System.disarming 0 = 0 := rfl
    omega
  · -- nothing is armed at the start, and nobody arms
    obtain ⟨-, hhosts, hmail, hframes, hcontrol, -⟩ := System.opened_machine r.opened
    have hfin : (r.state 0).machine.control.isFinished = true := by rw [hcontrol]; rfl
    have hout : (r.state 0).isOpen = true → (r.state 0).machine.Posture none := by
      intro hopen
      obtain ⟨o, ho⟩ := (r.sound 0).standing hopen
      obtain ⟨rfl, -⟩ := ho.of_finished hfin
      exact ho
    have hover := over_of_idle hfin fun t => by rw [hhosts t]; rfl
    obtain ⟨-, -, hsame⟩ := unentered (Nat.zero_le n) hover (by rw [hmail]; rfl) hout
      fun j _ hjn => hnone j hjn
    rw [hsame, hmail]
    rfl
  · -- the run enters the handler at least once, as the hook is armed, and once at most
    intro i k e proto after given hik hke hidle hqueued hhosts hmessage hstart hquiet hend
    obtain ⟨j, hij, hjk, hj⟩ := hqueued
    obtain ⟨hopen, hfin⟩ := hidle k hik (Nat.le_refl k)
    have hover := over_of_idle hfin hhosts
    have hqueue := queue_of_interjecting hij hjk
      (fun n hin hnk => (hidle n hin (Nat.le_of_lt hnk)).2) hj
    have harmed := armed_of_queued hopen hfin hover hqueue
    have hleast := entered_of_armed hke hopen hfin hstart harmed hend
    have hmost := entered_once (Nat.le_of_lt hke) hover hfin hmessage
      (fun j hkj hje => ⟨(hquiet j hkj hje).1, (hquiet j hkj hje).2.1⟩)
      fun j hkj hje => (hquiet j hkj hje).2.2
    omega

/-! ## Two actions and one entry -/

/-- An embedder that runs a script of one instruction. -/
private def runsBrief : List (Event Unit Unit Unit) :=
  [.start (runScript (.ofCode "one cell" 1 #[.nil] rfl) fun _ => .finish (.ok [])) []]

/-- Two hosts interject an action each, their accesses taking turns, and the embedder runs a script
afterwards. -/
private def twoInterjections : Run (idleCode (κ := Unit) (τ := Unit) (ρ := Unit)) :=
  .ofEvents idleCode
    ([.call 0 (.interject ()), .call 1 (.interject ()), .host 0, .host 1, .host 1, .host 0, .host 0,
      .host 1, .host 1, .host 0] ++ runsBrief)

/-- Without a request the script runs and the handler is never entered. With two, the call safepoint
of the script runs both actions in one entry. -/
theorem two_interjections_one_entry :
    (∃ (r : Run (idleCode (κ := Unit) (τ := Unit) (ρ := Unit))) (n : Nat),
      (r.state n).machine.interp.instructions = 1 ∧
      (r.state n).machine.mailbox.invocations = 0) ∧
    ∃ (r : Run (idleCode (κ := Unit) (τ := Unit) (ρ := Unit))) (k e : Nat),
      (r.state k).machine.mailbox.queue.length = 2 ∧ (r.started e).length = 2 ∧
      (r.state k).machine.mailbox.invocations = 0 ∧
      (r.state e).machine.control.isFinished = true ∧
      (r.state e).machine.mailbox.invocations = (r.state k).machine.mailbox.invocations + 1 := by
  constructor
  · obtain ⟨-, hunrequested, -⟩ := entries_paid_for (.ofEvents idleCode runsBrief)
    exact ⟨_, 20, by decide +kernel, hunrequested 20 (by decide +kernel)⟩
  · obtain ⟨-, -, hcosts⟩ := entries_paid_for twoInterjections
    have hhosts : (twoInterjections.state 10).HostsIdle := by
      rintro (_ | _ | t) <;> rfl
    have hidle : ∀ n ≤ 10, (twoInterjections.state n).isOpen = true ∧
        (twoInterjections.state n).machine.control.isFinished = true := by
      decide +kernel
    have hunrequested : ∀ j < 47, 10 ≤ j →
        (twoInterjections.state j).interjecting (twoInterjections.event j) = false ∧
        (twoInterjections.state j).cancelling (twoInterjections.event j) = false := by
      decide +kernel
    have hsucceed : ∀ j < 47,
        ((twoInterjections.state j).returning? (twoInterjections.event j)).all Except.isOk := by
      decide +kernel
    refine ⟨twoInterjections, 10, 47, by decide +kernel, by decide +kernel, by decide +kernel,
      by decide +kernel, ?_⟩
    apply hcosts 0 10 47 _ _ [] (by decide) (by decide) (fun n _ hn => hidle n hn)
      ⟨4, by decide, by decide, by decide +kernel⟩ hhosts (by rfl) rfl _ (by decide +kernel)
    intro j hkj hje
    obtain ⟨hinterjects, hcancels⟩ := hunrequested j hje hkj
    refine ⟨hinterjects, hcancels, fun err hreturns => ?_⟩
    have hok := hsucceed j hje
    rw [hreturns] at hok
    exact nomatch hok

end Run

end Safepoint
