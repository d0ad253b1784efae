import Safepoint.Proofs.System.Safepoint

/-!
# Validity of handles

A handle keeps nothing. What keeps the mailbox is the hook of its interpreter, until that is
dropped, and every call that is being made through a handle: it joins the keepers with its first
access and leaves them with its last. So a handle is valid as long as the interpreter is open or
some call has not let go yet, and a call that begins is refused exactly where neither is so.

## Key results

- `System.keeping_step`: the keepers of a mailbox are its open interpreter and the calls in flight
- `Run.handles_valid_while_kept`: a call that reaches the mailbox is answered, and a call is refused
  where the interpreter was dropped and no other call is in flight
- `Run.handle_outlives_interpreter`: a call in flight keeps handles valid that should be so no more
-/

namespace Safepoint

variable {κ τ ρ : Type}

namespace HostPhase

/-- Whether a call keeps the mailbox: it has reached it, and has not let go of it. -/
def keeps : HostPhase κ → Bool
  | reach _ | finished _ => false
  | _ => true

/-- Behind its first access, a call keeps the interpreter. -/
theorem keeps_first (call : HostCall κ) : (first call).keeps = true := by
  cases call <;> rfl

/-- A call joins the keepers with its first access and leaves them with its last. -/
theorem keepers_step (m : Mailbox κ) (p : HostPhase κ) :
    (p.step m).1.keepers = match p with
      | reach _ => m.keepers + m.isKept.toNat
      | letGo _ => m.keepers - 1
      | _ => m.keepers := by
  -- only the first access and the last one count; the others read or write something else
  cases p with
  | reach call => cases hk : m.isKept <;> simp [step, hk, Mailbox.keep]
  | _ =>
    simp [step, Mailbox.enqueue, Mailbox.arm, Mailbox.storeMessage, Mailbox.storeFlag,
      Mailbox.abandon]

/-- A call that keeps the mailbox goes on to keep it, or ends with an answer. -/
theorem keeps_or_answered (m : Mailbox κ) {p : HostPhase κ} (h : p.keeps = true) :
    (p.step m).2.1.keeps = true ∨ ∃ answer, (p.step m).2.1 = finished (.ok answer) := by
  cases p with
  | letGo answer => exact .inr ⟨answer, rfl⟩
  | reach | finished => exact nomatch h
  | readFlag => cases hf : m.cancelFlag <;> exact .inl (by simp [step, hf, keeps])
  | _ => exact .inl rfl

/-- Before its last access, a call that keeps the mailbox goes on to do so. -/
theorem keeps_step (m : Mailbox κ) {p : HostPhase κ} (h : p.keeps = true)
    (hlast : ∀ answer, p ≠ letGo answer) : (p.step m).2.1.keeps = true := by
  cases p with
  | letGo answer => exact absurd rfl (hlast answer)
  | reach | finished => exact nomatch h
  | readFlag => cases hf : m.cancelFlag <;> simp [step, hf, keeps]
  | _ => rfl

end HostPhase

/-! ## Calls of the interpreter's own host code -/

namespace Machine

variable {m : Machine κ τ ρ}

/-- What goes on with the work of a script has no call in flight. -/
private theorem keeps_posting_of_way {fs fs' : List (Frame κ τ ρ)} {c : Control κ τ ρ}
    (h : Way fs c fs') : c.posting.keeps = false := by
  cases h <;> rfl

/-- What a frame makes of an outcome has no call in flight. -/
private theorem keeps_posting_deliver (code : Meaning κ τ ρ) (m : Machine κ τ ρ)
    (outcome : Outcome κ) : (m.deliver code outcome).control.posting.keeps = false := by
  have exits (m : Machine κ τ ρ) (outcome : Outcome κ) :
      (m.exitCall outcome).control.posting.keeps = false := by
    unfold exitCall
    split <;> rfl
  have enters (m : Machine κ τ ρ) (f : Func κ) (args : List (Value κ)) :
      (m.enter code f args).control.posting.keeps = false := by
    cases f with
    | native => rfl
    | script id proto =>
      simp only [enter]
      split <;> rfl
  -- whatever the frame on top makes of the outcome, it does not post
  unfold deliver
  split
  · rfl
  next frame rest hf =>
    dsimp only
    split
    next stage =>
      unfold deliverCall
      split
      · exact enters _ _ _
      · exact exits _ _
      · rfl
      · exact exits _ _
      · exact exits _ _
      · exact exits _ _
    next a await =>
      unfold deliverScript
      split
      · rfl
      · rfl
      · rfl
      · exact keeps_posting_of_way (goes_pushAndGo _ a _).way
      · rfl
      next f top =>
        exact keeps_posting_of_way (goes_afterPcall { m with frames := rest } a top _).way
    · split <;> rfl
    · split
      · rfl
      · split <;> rfl
    · rfl
    next source ran => cases source <;> rfl

/-- A request that has just been made of the interpreter has no call in flight yet. -/
private theorem keeps_posting_serve (m : Machine κ τ ρ) (held : Held) (q : Query κ)
    (next : Reply κ → Program κ τ ρ) :
    (m.serve held q next).control.posting.keeps = false := by
  have string (bytes : Bytes) :
      (serve.string m held next bytes).control.posting.keeps = false := by
    unfold serve.string
    split <;> rfl
  cases q with
  | newBytes bytes => exact string bytes
  | newText text => exact string _
  | copy v =>
    simp only [serve]
    split
    · split <;> rfl
    · rfl
  | _ => rfl

/-- The interpreter's own host code has reached no mailbox where it has no call in flight. -/
theorem keeps_posting_step (code : Meaning κ τ ρ) (m : Machine κ τ ρ)
    (hover : m.control.posting.ending? ≠ none) :
    (m.step code).control.posting.keeps = false := by
  have keeps_of_over {p : HostPhase κ} (h : p.ending? ≠ none) : p.keeps = false := by
    cases p <;> first | rfl | exact absurd rfl h
  -- by what the machine is about to do; only a call in flight could have kept the interpreter
  cases hc : m.control <;> simp only [step, hc]
  case invoke f args =>
    unfold invoke
    split
    · split <;> rfl
    · rfl
  case poll event =>
    have entering (m : Machine κ τ ρ) (event : HookEvent) :
        (m.dispatch event).control.posting.keeps = false := by
      unfold dispatch
      split
      · rfl
      · split <;> rfl
    unfold poll
    dsimp only
    split
    · rfl
    · split
      · rfl
      · split
        · split
          · rfl
          · exact entering _ _
        · exact entering _ _
  case handle phase info =>
    cases phase with
    | enter | readFlag | disarm => rfl
    | readMessage | acquire =>
      simp only [handle]
      split <;> rfl
  case drain source ran =>
    cases source with
    | mailbox | queue =>
      simp only [drain]
      split <;> rfl
  case settle source ran outcome =>
    unfold settle
    split
    · rfl
    · split <;> rfl
  case measure e =>
    unfold measure
    dsimp only
    split <;> rfl
  case fetch =>
    split
    · unfold fetch
      split <;> rfl
    · rfl
  case execute op =>
    split
    · exact keeps_posting_of_way (goes_execute _ _ op).way
    · rfl
  case run held p =>
    unfold runProgram
    split
    · rfl
    · rfl
    · exact keeps_posting_serve m held _ _
    · rfl
  case post phase =>
    rw [hc] at hover
    cases hend : phase.ending? with
    | none => exact absurd hend hover
    | some ending => cases ending <;> simp only [post, hend] <;> rfl
  case reply r =>
    unfold reply
    split <;> rfl
  case deliver outcome => exact keeps_posting_deliver code m outcome
  case check point next | arrive point next | paused point next =>
    rw [posting_checking]
    rw [hc] at hover
    exact keeps_of_over hover
  case rearm | tell | unmark | waiting | finished | fault => rfl

end Machine

/-! ## Keepers -/

namespace System

variable {s : System κ τ ρ} {e : Event κ τ ρ} {c : Caller} {p : HostPhase κ}
  {callers : List Caller}

/-- The keepers of the mailbox are the interpreter, while it is open, and these callers, who are all
that have a call in flight. -/
structure Keeping (s : System κ τ ρ) (callers : List Caller) : Prop where
  nodup : callers.Nodup
  mem_iff : ∀ c, c ∈ callers ↔ (s.phase c).keeps = true
  keepers : s.machine.mailbox.keepers = s.isOpen.toNat + callers.length

/-- Whoever makes no access neither joins the keepers nor leaves them. -/
theorem keeps_of_aside (code : Meaning κ τ ρ) (h : ∀ p, s.access? e ≠ some (c, p)) :
    ((s.step code e).phase c).keeps = (s.phase c).keeps := by
  by_cases hgoing : (s.phase c).ending? = none
  · rw [phase_step_of_going code hgoing h]
  -- a call that is over may be followed by another, which has reached nothing yet
  have hkeeps : (s.phase c).keeps = false := by
    cases hp : s.phase c <;> simp_all [HostPhase.ending?, HostPhase.keeps]
  rw [hkeeps]
  -- another caller's event leaves this one alone, and its own can only begin a call
  cases c with
  | host t =>
    cases e with
    | call t' call =>
      simp only [step]
      split
      · by_cases ht : t = t'
        · simp [phase, ht, HostPhase.keeps]
        · simpa [phase, Function.update_of_ne ht] using hkeeps
      · exact hkeeps
    | host t' =>
      obtain ⟨g, hg⟩ := s.access_eq t'
      simp only [step, hg, phase]
      by_cases ht : t = t'
      · subst ht
        simp only [phase] at hgoing
        cases hp : s.hosts t <;> simp_all [HostPhase.ending?, HostPhase.step, HostPhase.keeps]
      · rw [Function.update_of_ne ht]
        exact hkeeps
    | _ =>
      simp only [step]
      first
        | exact hkeeps
        | (split <;> exact hkeeps)
  | own =>
    by_cases he : e = .advance
    · subst he
      exact Machine.keeps_posting_step code s.machine hgoing
    · simp only [phase] at hkeeps ⊢
      rcases (aside_step (s := s) code he).control_eq with hcontrol | ⟨held, p, hruns⟩
      · rw [hcontrol]
        exact hkeeps
      · rw [hruns]
        rfl

/-- An access changes the keepers as its call does, and nobody else's part in them. -/
private theorem keeping_of_access (code : Meaning κ τ ρ) (hs : s.Keeping callers)
    (hacc : s.access? e = some (c, p)) : ∃ callers', (s.step code e).Keeping callers' := by
  have hphase := phase_of_access hacc
  have hstep := phase_step_of_access code hacc
  have hkeepers := congrArg Mailbox.keepers (mailbox_of_access code hacc)
  rw [HostPhase.keepers_step, hs.keepers] at hkeepers
  have hopen : (s.step code e).isOpen = s.isOpen := by
    obtain ⟨-, ⟨t, rfl, -⟩ | ⟨rfl, -⟩⟩ := access?_eq_some hacc <;> rfl
  have hothers : ∀ c', c' ≠ c → ((s.step code e).phase c').keeps = (s.phase c').keeps := by
    intro c' hne
    apply keeps_of_aside code
    intro p' hacc'
    have := Option.some.inj (hacc'.symm.trans hacc)
    exact hne (Prod.mk.inj this).1
  -- who has a call in flight afterwards, by what becomes of the caller
  have stays (callers' : List Caller) (hnodup : callers'.Nodup)
      (hmem : ∀ c', c' ≠ c → (c' ∈ callers' ↔ c' ∈ callers))
      (hc : c ∈ callers' ↔ ((p.step s.machine.mailbox).2.1).keeps = true)
      (hlength : (s.step code e).machine.mailbox.keepers = s.isOpen.toNat + callers'.length) :
      ∃ callers', (s.step code e).Keeping callers' := by
    refine ⟨callers', hnodup, fun c' => ?_, by rw [hopen, hlength]⟩
    by_cases hne : c' = c
    · rw [hne, hstep, hc]
    · rw [hothers c' hne, hmem c' hne, hs.mem_iff]
  -- the first access adds the caller, the last takes it out, and any other leaves it
  cases hp : p with
  | reach call =>
    have hnot : c ∉ callers := by
      rw [hs.mem_iff, hphase, hp]
      simp [HostPhase.keeps]
    rw [hp] at hkeepers stays
    cases hkept : s.machine.mailbox.isKept with
    | true =>
      refine stays (c :: callers) (List.nodup_cons.mpr ⟨hnot, hs.nodup⟩)
        (fun c' hne => by simp [hne]) (by simp [HostPhase.step, hkept, HostPhase.keeps_first]) ?_
      simp only [hkept] at hkeepers
      rw [hkeepers, List.length_cons]
      exact Nat.add_assoc ..
    | false =>
      refine stays callers hs.nodup (fun c' _ => Iff.rfl)
        (by simp [HostPhase.step, hkept, HostPhase.keeps, hnot]) ?_
      simpa [hkept] using hkeepers
  | letGo answer =>
    have hmem : c ∈ callers := by
      rw [hs.mem_iff, hphase, hp]
      rfl
    rw [hp] at hkeepers stays
    refine stays (callers.erase c) (hs.nodup.erase c)
      (fun c' hne => List.mem_erase_of_ne hne)
      (by simp [HostPhase.step, HostPhase.keeps, hs.nodup.mem_erase_iff]) ?_
    have hpos := List.length_pos_of_mem hmem
    rw [hkeepers, List.length_erase_of_mem hmem]
    show s.isOpen.toNat + callers.length - 1 = _
    omega
  | finished ending =>
    have hgoing := (access?_eq_some hacc).1
    rw [hp] at hgoing
    exact absurd hgoing (Option.some_ne_none _)
  | _ =>
    have hkeeps : p.keeps = true := by rw [hp]; rfl
    refine stays callers hs.nodup (fun c' _ => Iff.rfl) ?_ (by rw [hkeepers, hp])
    rw [hs.mem_iff, hphase, HostPhase.keeps_step _ hkeeps (by simp [hp])]
    simp [hkeeps]

/-- The interpreter's own thread joins and leaves no keepers but by its calls. -/
private theorem keepers_move {code : Meaning κ τ ρ} {m m' : Machine κ τ ρ} (h : m.Move code m')
    (hpost : m.PostsNothing) : m'.mailbox.keepers = m.mailbox.keepers := by
  cases h with
  | works hw => rw [hw.mailbox]
  | posted hc hgoing => exact absurd hgoing (hpost.not_going hc)
  | dispatched _ _ _ _ hmail | ended _ _ hmail => rw [hmail]
  | _ => rfl

/-- Whatever happens, the keepers of a mailbox are its open interpreter and the calls in flight. -/
theorem keeping_step (code : Meaning κ τ ρ) (h : s.Sound) (hs : s.Keeping callers) :
    ∃ callers', (s.step code e).Keeping callers' := by
  -- an access is treated above; any other event leaves every caller where it is
  cases hacc : s.access? e with
  | some cp =>
    obtain ⟨c, p⟩ := cp
    exact keeping_of_access code hs hacc
  | none =>
    have hmem (c : Caller) : c ∈ callers ↔ ((s.step code e).phase c).keeps = true := by
      rw [keeps_of_aside code (by simp [hacc])]
      exact hs.mem_iff c
    refine ⟨callers, hs.nodup, hmem, ?_⟩
    by_cases he : e = .advance
    · subst he
      have hkeepers := keepers_move (h.move code) (postsNothing_of_access?_eq_none hacc)
      exact hkeepers.trans hs.keepers
    by_cases hclose : e = .close ∧ s.isOpen = true ∧ s.machine.control.isFinished = true
    · obtain ⟨rfl, hopen, hfin⟩ := hclose
      -- an idle interpreter has its hook in the slot, which goes with it
      obtain ⟨o, ho⟩ := h.standing hopen
      have hhook := (ho.of_finished hfin).2.1
      simp only [Interpreter.hook, Prod.mk.injEq] at hhook
      have hkeepers := hs.keepers
      simp only [hopen, Bool.toNat_true] at hkeepers
      simp only [step, hopen, hfin, Bool.and_self, if_true, Machine.close, hhook.1,
        Machine.mapStore, Mailbox.abandon, hkeepers, Bool.toNat_false]
      omega
    · cases e with
      | advance => exact absurd rfl he
      | close =>
        simp only [step]
        split
        next hidle => exact absurd ⟨rfl, by simpa using hidle⟩ hclose
        next => exact hs.keepers
      | host t =>
        have hended : (s.hosts t).ending? ≠ none := by simpa [access?] using hacc
        obtain ⟨g, hg⟩ := s.access_eq t
        have hmail : ((s.hosts t).step s.machine.mailbox).1 = s.machine.mailbox := by
          cases hp : s.hosts t <;> simp_all [HostPhase.ending?, HostPhase.step]
        simp only [step, hg, hmail]
        exact hs.keepers
      | call | start =>
        simp only [step]
        split <;> exact hs.keepers
      | answer =>
        simp only [step, Machine.answer]
        split <;> exact hs.keepers
      | ground | syncpoints => exact hs.keepers

end System

namespace Run

variable {code : Meaning κ τ ρ}

/-- In every state of a run, the keepers are the open interpreter and the calls in flight. -/
theorem keeping (r : Run code) (n : Nat) : ∃ callers, (r.state n).Keeping callers := by
  -- the induction is on the steps, from an interpreter that was opened with no call in flight
  induction n with
  | zero =>
    obtain ⟨hopen, hhosts, hmail, -, hcontrol, -⟩ := System.opened_machine r.opened
    refine ⟨[], List.nodup_nil, fun c => ?_, by rw [hmail, hopen]; rfl⟩
    have hphase : (r.state 0).phase c = .finished (.ok .done) := by
      cases c with
      | host t => exact hhosts t
      | own => simp [System.phase, hcontrol, Control.posting]
    simp [hphase, HostPhase.keeps]
  | succ n ih =>
    obtain ⟨callers, h⟩ := ih
    rw [r.next]
    exact System.keeping_step code (r.sound n) h

/-- A call that a caller begins at step `k` has ended by step `e`, and no earlier. -/
structure Answers (r : Run code) (k e : Nat) (c : Caller) (ending : Except Error HostAnswer) :
    Prop where
  begins : ∃ call, r.Accesses k c (.reach call)
  later : k < e
  ended : ((r.state e).phase c).ending? = some ending
  first : ∀ j, k < j → j < e → ((r.state j).phase c).ending? = none

variable {r : Run code} {k e : Nat} {c : Caller} {call : HostCall κ}
  {ending : Except Error HostAnswer}

/-- The mailbox is kept as long as the interpreter is open or a call is in flight. -/
theorem isKept_iff (r : Run code) (n : Nat) :
    (r.state n).machine.mailbox.isKept = true ↔
      (r.state n).isOpen = true ∨ ∃ c, ((r.state n).phase c).keeps = true := by
  obtain ⟨callers, hcallers⟩ := r.keeping n
  -- the count is that of the callers, with one more for an interpreter that is open
  have hflight : (∃ c, ((r.state n).phase c).keeps = true) ↔ 0 < callers.length := by
    rw [List.length_pos_iff_exists_mem]
    exact exists_congr fun c => (hcallers.mem_iff c).symm
  rw [hflight, Mailbox.isKept, decide_eq_true_iff, hcallers.keepers]
  cases (r.state n).isOpen with
  | true => simp [Nat.add_comm]
  | false => simp

/-- A call that has reached the mailbox keeps it until it ends with an answer. -/
private theorem keeps_of_reached (h : r.Accesses k c (.reach call))
    (hkept : (r.state k).machine.mailbox.isKept = true) {j : Nat} (hkj : k < j)
    (hgoing : ∀ i, k < i → i < j → ((r.state i).phase c).ending? = none) :
    ((r.state j).phase c).keeps = true ∨
      ∃ answer, (r.state j).phase c = .finished (.ok answer) := by
  -- the induction is on the steps since the caller reached the interpreter
  induction j, hkj using Nat.le_induction with
  | base =>
    left
    rw [r.next, System.phase_step_of_access code h, HostPhase.step, if_pos hkept]
    exact HostPhase.keeps_first call
  | succ j hkj ih =>
    rcases ih fun i hki hij => hgoing i hki (by omega) with hkeeps | ⟨answer, hdone⟩
    · by_cases hacc : ∃ p, r.Accesses j c p
      · obtain ⟨p, hacc⟩ := hacc
        rw [System.phase_of_access hacc] at hkeeps
        rw [r.next, System.phase_step_of_access code hacc]
        exact HostPhase.keeps_or_answered _ hkeeps
      · left
        rw [r.next, System.phase_step_of_going code (hgoing j hkj (by omega))
          fun p h => hacc ⟨p, h⟩]
        exact hkeeps
    · -- a call that is over at this step was not over before
      have hover := hgoing j hkj (by omega)
      rw [hdone] at hover
      exact absurd hover (Option.some_ne_none _)

/-- A call that finds the mailbox kept is answered. -/
private theorem Answers.ok (h : r.Answers k e c ending)
    (hkept : (r.state k).machine.mailbox.isKept = true) : ∃ answer, ending = .ok answer := by
  obtain ⟨call, hreach⟩ := h.begins
  have hended := h.ended
  rcases keeps_of_reached hreach hkept h.later h.first with hkeeps | ⟨answer, hdone⟩
  · cases hp : (r.state e).phase c <;> simp_all [HostPhase.keeps, HostPhase.ending?]
  · rw [hdone] at hended
    exact ⟨answer, (Option.some.inj hended).symm⟩

/-- A call that finds the mailbox kept by nobody is refused at once. -/
private theorem answers_of_abandoned (h : r.Accesses k c (.reach call))
    (hkept : (r.state k).machine.mailbox.isKept = false) :
    r.Answers k (k + 1) c (.error .invalidHandle) := by
  refine ⟨⟨call, h⟩, Nat.lt_succ_self k, ?_, by omega⟩
  rw [r.next, System.phase_step_of_access code h]
  simp [HostPhase.step, hkept, HostPhase.ending?]

/-- A handle is valid exactly as long as its interpreter is open or some call through a handle of it
is in flight. So a call whose first access comes before the interpreter is dropped is never refused,
however late it ends. A call whose first access comes after that is refused at once if no other call
is in flight, and it is not refused if one is. -/
theorem handles_valid_while_kept (r : Run code) :
    (∀ n, (r.state n).machine.mailbox.isKept = true ↔
      (r.state n).isOpen = true ∨ ∃ c, ((r.state n).phase c).keeps = true) ∧
    ∀ {k : Nat} {c : Caller} {call : HostCall κ}, r.Accesses k c (.reach call) →
      ((r.state k).isOpen = true →
        ∀ e ending, r.Answers k e c ending → ∃ answer, ending = .ok answer) ∧
      ((r.state k).isOpen = false → (∀ c', ((r.state k).phase c').keeps = false) →
        r.Answers k (k + 1) c (.error .invalidHandle)) ∧
      ((r.state k).isOpen = false → (∃ c', ((r.state k).phase c').keeps = true) →
        ∀ e ending, r.Answers k e c ending → ∃ answer, ending = .ok answer) := by
  refine ⟨r.isKept_iff, fun {k c call} hreach => ⟨fun hopen e ending h => ?_,
    fun hclosed hnone => ?_, fun _ hsome e ending h => ?_⟩⟩
  · exact h.ok ((r.isKept_iff k).mpr (.inl hopen))
  · refine answers_of_abandoned hreach (Bool.eq_false_iff.mpr fun hkept => ?_)
    rcases (r.isKept_iff k).mp hkept with hopen | ⟨c', hkeeps⟩
    · exact absurd (hopen.symm.trans hclosed) (by decide)
    · exact absurd (hkeeps.symm.trans (hnone c')) (by decide)
  · exact h.ok ((r.isKept_iff k).mpr (.inr hsome))

/-- A host interjects an action, and is stopped before it arms the hook. The interpreter is dropped,
and another host asks how many actions wait. Then the first call ends, and a third host asks. -/
private def stoppedHost : Run (idleCode : Meaning Unit Unit Unit) :=
  .ofEvents idleCode
    [.call 0 (.interject ()), .host 0, .host 0, .close, .call 1 .pendingActions, .host 1, .host 1,
      .host 1, .host 0, .host 0, .call 2 .pendingActions, .host 2]

/-- The call that was in flight when the interpreter was dropped is answered, and the call that
begins when none is left is refused. -/
theorem calls_around_drop :
    ∃ r : Run (idleCode : Meaning Unit Unit Unit),
      (r.state 1).isOpen = true ∧ r.Answers 1 10 (.host 0) (.ok .done) ∧
        r.event 3 = .close ∧ (r.state 4).isOpen = false ∧
        r.Answers 11 12 (.host 2) (.error .invalidHandle) := by
  obtain ⟨-, hcalls⟩ := handles_valid_while_kept stoppedHost
  have hgoing : ∀ j < 10, 1 < j → ((stoppedHost.state j).phase (.host 0)).ending? = none := by
    decide +kernel
  have hanswers : stoppedHost.Answers 1 10 (.host 0) (.ok .done) :=
    ⟨⟨_, rfl⟩, by decide, rfl, fun j hlater hbefore => hgoing j hbefore hlater⟩
  have hnone : ∀ c, ((stoppedHost.state 11).phase c).keeps = false := by
    rintro ((_ | _ | _ | t) | _) <;> rfl
  have hasks : stoppedHost.Accesses 11 (.host 2) (.reach .pendingActions) := rfl
  obtain ⟨-, hrefused, -⟩ := hcalls hasks
  exact ⟨stoppedHost, rfl, hanswers, rfl, rfl, hrefused rfl hnone⟩

/-- A call that begins after the interpreter was dropped is answered, and the handle is still valid,
because another call is in flight. -/
theorem handle_outlives_interpreter :
    ∃ (r : Run (idleCode : Meaning Unit Unit Unit)) (k e : Nat) (c : Caller),
      (r.state k).isOpen = false ∧ (r.state k).machine.mailbox.isKept = true ∧
        r.Accesses k c (.reach .pendingActions) ∧ r.Answers k e c (.ok (.count 1)) := by
  have hgoing : ∀ j < 8, 5 < j → ((stoppedHost.state j).phase (.host 1)).ending? = none := by
    decide +kernel
  exact ⟨stoppedHost, 5, 8, .host 1, rfl, rfl, rfl,
    ⟨⟨_, rfl⟩, by decide, rfl, fun j hlater hbefore => hgoing j hbefore hlater⟩⟩

end Run

end Safepoint
