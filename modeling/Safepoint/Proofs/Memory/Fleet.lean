import Safepoint.Proofs.Fleet
import Safepoint.Proofs.Memory.Machine

/-!
# What a fleet holds

All that is held of a store: what the embedder has in its hands, and what each interpreter holds
that is open. `Fleet.InOrder` says that the store is in order as far as that goes, and
`inOrder_step` that whatever happens keeps it so. No two interpreters have their memory from the
same heap, and the counter of an instrumented interpreter counts its heap.

## Key results

- `Member.covers_turn`: what comes out of an interpreter is in the embedder's hands from then on,
  and what goes in is not
- `Fleet.inOrder_step`: the store stays in order, whatever happens
- `Fleet.Run.inOrder`: the store of a fleet is in order in every state of a run
-/

namespace Safepoint

variable {κ τ ρ : Type}

/-- What is held by what is done next, without what comes out. -/
def Control.kept : Control κ τ ρ → Multiset Holding
  | .finished _ => 0
  | .waiting _ _ held _ => held.holdings
  | c => c.holdings

/-- What an interpreter does next holds what comes out of it and what it keeps. -/
theorem Control.holdings_eq (c : Control κ τ ρ) :
    c.holdings = holdingsOf c.offers + c.kept := by
  cases c with
  | finished outcome => cases outcome <;> simp [holdings, outcomeHoldings, offers, kept]
  | _ => simp [holdings, offers, kept]

/-- Nothing comes out of an interpreter that has not stopped. -/
theorem Machine.kept_of_not_isStopped {m : Machine κ τ ρ} (h : m.isStopped = false) :
    m.control.kept = m.control.holdings := by
  unfold isStopped at h
  split at h <;> simp_all [Control.kept, Control.holdings]

namespace Machine

variable {s₀ : Store} {m : Machine κ τ ρ} {G : Multiset Holding}

/-- An interpreter that is dropped in the middle of nothing gives back all it has. -/
theorem Covers.close (h : Covers s₀ m G) (hframes : m.frames = []) :
    s₀.Keeps m.close.ground.store G := by
  have hkeeps := h.keeps
  rw [hframes, frameHoldings_nil, add_zero] at hkeeps
  have hdiscard := hkeeps.discard
  simp only [Machine.close]
  split <;> exact hdiscard

/-- What an observer is told is entered in the journal. -/
theorem store_notes (m : Machine κ τ ρ) (notices : List Notice) :
    (notices.foldl note m).ground.store = notices.foldl Store.note m.ground.store := by
  induction notices generalizing m with
  | nil => rfl
  | cons n rest ih => exact ih (m.note n)

end Machine

namespace Member

/-- What an interpreter holds that is open. -/
def holdings (m : Member κ τ ρ) : Multiset Holding :=
  if m.system.isOpen then
    m.system.machine.interp.holdings + frameHoldings m.system.machine.frames +
      m.system.machine.control.kept
  else 0

/-- The store has come from `s₀` and is in order, as far as an interpreter and `G` hold it. -/
structure Covers (s₀ : Store) (m : Member κ τ ρ) (G : Multiset Holding) : Prop where
  distinct : m.system.machine.interp.globals.Distinct
  keeps : s₀.Keeps m.system.machine.ground.store (m.holdings + G)

variable {s₀ : Store} {m m' : Member κ τ ρ} {G R : Multiset Holding} {hands : Held}

/-- An open interpreter holds what its machine holds, but for what comes out. -/
private theorem holdings_add (hopen : m.system.isOpen = true) (G : Multiset Holding) :
    m.holdings + G = m.system.machine.interp.holdings + frameHoldings m.system.machine.frames +
      (m.system.machine.control.kept + G) := by
  unfold holdings
  rw [if_pos hopen, add_assoc]

/-- An open interpreter holds what its machine holds. -/
theorem Covers.machine (h : Covers s₀ m G) (hopen : m.system.isOpen = true) :
    m.system.machine.Covers s₀ (m.system.machine.control.kept + G) :=
  ⟨h.distinct, by rw [← holdings_add hopen]; exact h.keeps⟩

/-- What a machine covers, it covers for its member of the fleet, which has handed on what came
out. -/
theorem covers_of_machine (h : m.system.machine.Covers s₀ G) (hopen : m.system.isOpen = true)
    (hG : G = m.system.machine.control.kept + R) : Covers s₀ m R :=
  ⟨h.distinct, by rw [holdings_add hopen, ← hG]; exact h.keeps⟩

/-- An interpreter that was just opened holds what it was opened with. -/
theorem holdings_opening {m : Machine κ τ ρ} {instruments : Option Instruments}
    (hcontrol : m.control = .finished (.ok [])) (hframes : m.frames = []) :
    (Member.mk (.opening m) instruments).holdings = m.interp.holdings := by
  simp [holdings, System.opening, hcontrol, hframes, Control.kept]

/-- Where only the journal changes, an interpreter covers what it covered. -/
theorem Covers.note (h : Covers s₀ m G) (notices : List Notice)
    (hinterp : m'.system.machine.interp = m.system.machine.interp)
    (hframes : m'.system.machine.frames = m.system.machine.frames)
    (hcontrol : m'.system.machine.control = m.system.machine.control)
    (hopen : m'.system.isOpen = m.system.isOpen)
    (hstore : m'.system.machine.ground.store =
      notices.foldl Store.note m.system.machine.ground.store) : Covers s₀ m' G where
  distinct := by rw [hinterp]; exact h.distinct
  keeps := by
    -- notices are about nothing that is held
    have hholdings : m'.holdings = m.holdings := by
      unfold holdings
      rw [hinterp, hframes, hcontrol, hopen]
    rw [hholdings, hstore]
    exact h.keeps.notes notices

/-- An idle interpreter is open, and in the middle of nothing. -/
theorem of_isIdle (hm : m.system.Steady) (hidle : m.isIdle = true) :
    m.system.isOpen = true ∧ m.system.machine.control.isFinished = true ∧
      m.system.machine.control.kept = 0 ∧ m.system.machine.frames = [] := by
  obtain ⟨hopen, hfin⟩ : m.system.isOpen = true ∧ m.system.machine.control.isFinished = true := by
    simpa [isIdle] using hidle
  refine ⟨hopen, hfin, ?_, hm.machine.idle hfin⟩
  cases hc : m.system.machine.control <;> simp_all [Control.isFinished, Control.kept]

/-- An interpreter that has something left to do is open: only an idle one is dropped. -/
private theorem isOpen_of_busy (hm : m.system.Steady)
    (hbusy : m.system.machine.control.isFinished = false) : m.system.isOpen = true := by
  cases hopen : m.system.isOpen with
  | true => rfl
  | false =>
    have hfin := hm.dropped hopen
    rw [hbusy] at hfin
    exact absurd hfin Bool.false_ne_true

/-- What comes out of an interpreter goes into the embedder's hands. -/
private theorem covers_advance (code : Meaning κ τ ρ) (hm : m.system.Steady)
    (h : Covers s₀ m (hands.holdings + R)) :
    Covers s₀ (m.turn code hands .advance).1 ((m.turn code hands .advance).2.holdings + R) := by
  simp only [turn]
  split
  · exact h
  next hstopped =>
    -- a machine that goes on is open, and nothing comes out of it yet
    have hstopped : m.system.machine.isStopped = false := by simpa using hstopped
    have hbusy : m.system.machine.control.isFinished = false := by
      unfold Machine.isStopped at hstopped
      split at hstopped <;> simp_all [Control.isFinished]
    have hopen := isOpen_of_busy hm hbusy
    have hmachine := h.machine hopen
    rw [Machine.kept_of_not_isStopped hstopped] at hmachine
    have hstep := Machine.balances_step code hm.machine hmachine
    unfold Machine.Balances at hstep
    rw [Control.holdings_eq] at hstep
    -- what comes out of the step is in the embedder's hands from then on
    refine covers_of_machine hstep hopen ?_
    simp only [System.step, Held.holdings_addAll]
    abel

/-- What an interpreter is started with is taken out of the embedder's hands. -/
private theorem covers_start (code : Meaning κ τ ρ) (hm : m.system.Steady) (p : Program κ τ ρ)
    (given : List (Value κ)) (h : Covers s₀ m (hands.holdings + R)) :
    Covers s₀ (m.turn code hands (.start p given)).1
      ((m.turn code hands (.start p given)).2.holdings + R) := by
  simp only [turn]
  split
  next hidle =>
    obtain ⟨hopen, hfin, hkept, hframes⟩ := of_isIdle hm hidle
    have hstart : m.system.step code (.start p (hands.takeAll given).1) =
        { m.system with machine := m.system.machine.start p (hands.takeAll given).1 } := by
      simp [System.step, hopen, hfin]
    rw [hstart]
    have hmachine : Machine.Covers s₀ (m.system.machine.start p (hands.takeAll given).1) _ :=
      (h.machine hopen).congr ⟨rfl, rfl, rfl⟩ hframes.symm
    -- what is given goes over from the embedder's hands into those of the host code
    refine covers_of_machine hmachine hopen ?_
    rw [hkept, hands.holdings_takeAll given]
    simp only [Machine.start, Control.kept, Control.holdings, Held.holdings_addAll,
      Held.holdings_nil]
    abel
  next => exact h

/-- What an interpreter is answered with is taken out of the embedder's hands. -/
private theorem covers_answer (code : Meaning κ τ ρ) (hm : m.system.Steady) (r : ρ)
    (vs : List (Value κ)) (h : Covers s₀ m (hands.holdings + R)) :
    Covers s₀ (m.turn code hands (.answer r vs)).1
      ((m.turn code hands (.answer r vs)).2.holdings + R) := by
  simp only [turn]
  split
  next hwaits =>
    cases hc : m.system.machine.control <;> rw [hc] at hwaits <;>
      simp only [Control.isWaiting, Bool.false_eq_true] at hwaits
    case waiting x given held next =>
    have hopen := isOpen_of_busy hm (by rw [hc]; rfl)
    have hanswer : m.system.machine.answer r (hands.takeAll vs).1 = m.system.machine.goto
        (.run (held.addAll (hands.takeAll vs).1) (next r (hands.takeAll vs).1)) := by
      simp [Machine.answer, hc]
    simp only [System.step, hanswer]
    have hmachine : Machine.Covers s₀ (m.system.machine.goto
        (.run (held.addAll (hands.takeAll vs).1) (next r (hands.takeAll vs).1))) _ :=
      (h.machine hopen).congr ⟨rfl, rfl, rfl⟩ rfl
    -- the answer goes over from the embedder's hands into those of the host code
    refine covers_of_machine hmachine hopen ?_
    rw [hc, hands.holdings_takeAll vs]
    simp only [Machine.goto, Control.kept, Control.holdings, Held.holdings_addAll]
    abel
  next => exact h

/-- What an interpreter holds is given back when it is dropped. -/
private theorem covers_close (code : Meaning κ τ ρ) (hm : m.system.Steady)
    (h : Covers s₀ m (hands.holdings + R)) :
    Covers s₀ (m.turn code hands .close).1 ((m.turn code hands .close).2.holdings + R) := by
  simp only [turn]
  split
  next hidle =>
    obtain ⟨hopen, hfin, hkept, hframes⟩ := of_isIdle hm hidle
    have hmachine := h.machine hopen
    rw [hkept, zero_add] at hmachine
    obtain ⟨notices, hclosed⟩ := m.closed_eq
    have hinterp : m.closed.interp.globals = .empty := by
      obtain ⟨g, hg⟩ := m.closed_eq_onGround
      rw [hg]
      rfl
    -- a closed interpreter holds nothing, since its own block went with the rest
    constructor
    · show m.closed.interp.globals.Distinct
      rw [hinterp]
      exact Globals.distinct_empty
    · show s₀.Keeps m.closed.ground.store (0 + (hands.holdings + R))
      rw [hclosed, Machine.store_notes, zero_add]
      exact (hmachine.close hframes).notes notices
  next => exact h

/-- What comes out of an interpreter is in the embedder's hands from then on, and what goes in is
not. -/
theorem covers_turn (code : Meaning κ τ ρ) (hm : m.system.Steady) (e : Event κ τ ρ)
    (h : Covers s₀ m (hands.holdings + R)) :
    Covers s₀ (m.turn code hands e).1 ((m.turn code hands e).2.holdings + R) := by
  cases e with
  | advance => exact covers_advance code hm h
  | start p given => exact covers_start code hm p given h
  | answer r vs => exact covers_answer code hm r vs h
  | close => exact covers_close code hm h
  | ground g => exact h
  | call thread c =>
    have hmachine : (m.system.step code (.call thread c)).machine = m.system.machine ∧
        (m.system.step code (.call thread c)).isOpen = m.system.isOpen := by
      -- a call that begins makes no access yet
      simp only [System.step]
      split <;> exact ⟨rfl, rfl⟩
    obtain ⟨hmachine, hopen⟩ := hmachine
    refine h.note [] ?_ ?_ ?_ hopen ?_
    all_goals simp only [turn, hmachine, List.foldl_nil]
  | host thread =>
    -- an observer is told, and the rest is between the thread and the mailbox
    have hnotes := Machine.store_notes
      { m.system.machine with mailbox := ((m.system.hosts thread).step m.system.machine.mailbox).1 }
      ((m.system.hosts thread).step m.system.machine.mailbox).2.2
    obtain ⟨g, hg⟩ := m.system.access_eq thread
    refine h.note _ ?_ ?_ ?_ ?_ hnotes
    all_goals simp only [turn, System.step, hg]
  | syncpoints points => exact h.note [] rfl rfl rfl rfl rfl

end Member

namespace Fleet

/-- All that is held. -/
def holdings (f : Fleet κ τ ρ) : Multiset Holding :=
  f.hands.holdings + (f.members.map Member.holdings).sum

/-- The store of a fleet is in order, as far as the fleet holds it. -/
structure InOrder (f : Fleet κ τ ρ) : Prop where
  steady : ∀ m ∈ f.members, m.system.Steady
  distinct : ∀ m ∈ f.members, m.system.machine.interp.globals.Distinct
  books : f.ground.store.Books f.holdings
  /-- No two interpreters have their memory from the same heap. -/
  heaps : (f.members.map Member.heap).Nodup
  within : ∀ m ∈ f.members, m.heap < f.ground.store.heaps.size
  /-- An instrumented interpreter has its memory counted by its counter. -/
  counted : ∀ m ∈ f.members, ∀ i, m.instruments = some i →
    f.ground.store.trackerOf m.heap = i.tracker

/-- Where there are no interpreters, nothing is held. -/
theorem inOrder_empty : (empty : Fleet κ τ ρ).InOrder where
  steady := by simp [empty]
  distinct := by simp [empty]
  books := Store.books_empty
  heaps := by simp [empty]
  within := by simp [empty]
  counted := by simp [empty]

variable {f f' : Fleet κ τ ρ}

/-- Where the interpreters stay as they are, only the store has to be looked at. -/
theorem InOrder.of_members (h : f.InOrder) (hmembers : f'.members = f.members)
    (hkeeps : f.ground.store.Keeps f'.ground.store f'.holdings) : f'.InOrder where
  steady := by rw [hmembers]; exact h.steady
  distinct := by rw [hmembers]; exact h.distinct
  books := hkeeps.books
  heaps := by rw [hmembers]; exact h.heaps
  within m hm := by
    rw [hmembers] at hm
    exact Nat.lt_of_lt_of_le (h.within m hm) hkeeps.extended.size_le
  counted m hm i hi := by
    rw [hmembers] at hm
    rw [hkeeps.extended.trackerOf_eq (h.within m hm)]
    exact h.counted m hm i hi

end Fleet

/-- What is opened over a new heap is opened over the heap that is added last. -/
theorem openOn_of_openNew {s store : Store} {source : MemorySource} {limits : Limits} {heap : Nat}
    {opened : Except Error (Interpreter κ)}
    (h : Interpreter.openNew s source limits = (store, heap, opened)) :
    heap = s.heaps.size ∧
      Interpreter.openOn (s.addHeap source.heap).1 s.heaps.size limits = (store, opened) := by
  simp only [Interpreter.openNew] at h
  obtain ⟨rfl, hrest⟩ := Prod.mk.inj h
  obtain ⟨rfl, rfl⟩ := Prod.mk.inj hrest
  exact ⟨rfl, rfl⟩

namespace Store

variable {s s' s₀ : Store} {G : Multiset Holding} {source : MemorySource} {limits : Limits}
  {heap : Nat}

/-- A heap joins whose counter, if it is to have one, is there. -/
private theorem Keeps.addHeap_of_isKnown (hs : s₀.Keeps s G) (hknown : source.isKnown s = true) :
    s₀.Keeps (s.addHeap source.heap).1 G := by
  cases source with
  | system | custom policy => exact hs.addHeap nofun
  | tracked t =>
    apply hs.addHeap
    intro t' ht'
    obtain rfl := Option.some.inj ht'
    simpa [MemorySource.isKnown] using hknown

/-- An interpreter is opened over a heap that was not there before. -/
theorem Keeps.openNew (hs : s₀.Keeps s G) (hknown : source.isKnown s = true)
    {i : Interpreter κ} (hopen : Interpreter.openNew s source limits = (s', heap, .ok i)) :
    s₀.Keeps s' (i.holdings + G) ∧ i.globals.Distinct ∧ i.heap = s.heaps.size ∧
      i.heap < s'.heaps.size ∧ s'.trackerOf i.heap = source.heap.tracker := by
  obtain ⟨-, hopen⟩ := openOn_of_openNew hopen
  have hadded := hs.addHeap_of_isKnown hknown
  obtain ⟨hkeeps, hheap, hdistinct⟩ := hadded.openOn hopen
  -- the new heap is the last one there was before the interpreter asked for its block
  obtain ⟨⟨hextends, -⟩, -, -⟩ := Keeps.openOn ⟨.refl _, hadded.books⟩ hopen
  have hlt : i.heap < (s.addHeap source.heap).1.heaps.size := by
    rw [hheap]
    simp [Store.addHeap]
  refine ⟨hkeeps, hdistinct, hheap, Nat.lt_of_lt_of_le hlt hextends.size_le, ?_⟩
  rw [hextends.trackerOf_eq hlt, hheap]
  simp [Store.addHeap, trackerOf]

/-- An interpreter that could not be opened leaves a heap behind that nobody uses. -/
theorem Keeps.openNew_refused (hs : s₀.Keeps s G) (hknown : source.isKnown s = true) {e : Error}
    (hopen : Interpreter.openNew (κ := κ) s source limits = (s', heap, .error e)) :
    s₀.Keeps s' G := by
  obtain ⟨-, hopen⟩ := openOn_of_openNew hopen
  exact (hs.addHeap_of_isKnown hknown).openOn_refused hopen

end Store

namespace Fleet

variable {f f' : Fleet κ τ ρ}

/-- An interpreter that is opened joins the others. -/
theorem InOrder.join (h : f.InOrder) (new : Member κ τ ρ) (hsteady : new.system.Steady)
    (hdistinct : new.system.machine.interp.globals.Distinct)
    (hmembers : f'.members = f.members ++ [new]) (hhands : f'.hands = f.hands)
    (hkeeps : f.ground.store.Keeps f'.ground.store (new.holdings + f.holdings))
    (hheap : new.heap = f.ground.store.heaps.size)
    (hwithin : new.heap < f'.ground.store.heaps.size)
    (hcounted : ∀ i, new.instruments = some i → f'.ground.store.trackerOf new.heap = i.tracker) :
    f'.InOrder := by
  have hforall {P : Member κ τ ρ → Prop} (hold : ∀ m ∈ f.members, P m) (hnew : P new) :
      ∀ m ∈ f'.members, P m := by
    intro m hm
    rw [hmembers] at hm
    rcases List.mem_append.mp hm with hm | hm
    · exact hold m hm
    · obtain rfl : m = new := by simpa using hm
      exact hnew
  -- the one that joins brings what it holds
  have hholdings : f'.holdings = new.holdings + f.holdings := by
    unfold holdings
    rw [hmembers, hhands, List.map_append, List.sum_append, List.map_singleton,
      List.sum_singleton]
    abel
  refine ⟨hforall h.steady hsteady, hforall h.distinct hdistinct, ?_, ?_, ?_, ?_⟩
  · rw [hholdings]
    exact hkeeps.books
  -- its heap is a new one, so it is nobody else's
  · rw [hmembers, List.map_append, List.map_singleton, List.nodup_append]
    refine ⟨h.heaps, List.nodup_singleton _, ?_⟩
    intro k hk k' hk' heq
    obtain ⟨m, hm, rfl⟩ := List.mem_map.mp hk
    have := h.within m hm
    rw [List.mem_singleton] at hk'
    omega
  · refine hforall (fun m hm => ?_) hwithin
    exact Nat.lt_of_lt_of_le (h.within m hm) hkeeps.extended.size_le
  · refine hforall (fun m hm i hi => ?_) hcounted
    rw [hkeeps.extended.trackerOf_eq (h.within m hm)]
    exact h.counted m hm i hi

/-- Something has happened to one interpreter. -/
theorem InOrder.replace (h : f.InOrder) {i : Nat} {m m' : Member κ τ ρ}
    (hget : f.members[i]? = some m) (hsteady : m'.system.Steady) (hheap : m'.heap = m.heap)
    (hinstruments : m'.instruments = m.instruments) (hmembers : f'.members = f.members.set i m')
    (hstore : f'.ground.store = m'.system.machine.ground.store)
    (hcovers : ∀ R, f.ground.store.Keeps f.ground.store (m.holdings + (f.hands.holdings + R)) →
      Member.Covers f.ground.store m' (f'.hands.holdings + R)) :
    f'.InOrder ∧ f.ground.store.Extends f'.ground.store := by
  have hforall {P : Member κ τ ρ → Prop} (hold : ∀ m ∈ f.members, P m) (hnew : P m') :
      ∀ m ∈ f'.members, P m := by
    intro m hm
    rw [hmembers] at hm
    rcases List.mem_or_eq_of_mem_set hm with hm | rfl
    · exact hold m hm
    · exact hnew
  have hm := List.mem_of_getElem? hget
  -- what the others hold stays as it is
  obtain ⟨R, hR⟩ : ∃ R, (f.members.map Member.holdings).sum = m.holdings + R := by
    obtain ⟨before, after, hsplit⟩ := List.append_of_mem hm
    refine ⟨(before.map Member.holdings).sum + (after.map Member.holdings).sum, ?_⟩
    rw [hsplit, List.map_append, List.sum_append, List.map_cons, List.sum_cons]
    abel
  -- the one that is replaced may hold more or less
  have hR' : (f'.members.map Member.holdings).sum = m'.holdings + R := by
    have hsum := sum_map_set Member.holdings hget m'
    rw [hR, ← hmembers] at hsum
    apply add_right_cancel (b := m.holdings)
    rw [hsum]
    abel
  have hbefore : f.ground.store.Keeps f.ground.store (m.holdings + (f.hands.holdings + R)) := by
    refine ⟨.refl _, ?_⟩
    have hbooks := h.books
    unfold holdings at hbooks
    rw [hR, add_left_comm] at hbooks
    exact hbooks
  obtain ⟨hdistinct, hafter⟩ := hcovers R hbefore
  rw [← hstore] at hafter
  -- the heaps of the members stay theirs
  have hheaps : f'.members.map Member.heap = f.members.map Member.heap := by
    obtain ⟨hlt, heq⟩ := List.getElem?_eq_some_iff.mp hget
    have hi : i < (f.members.map Member.heap).length := by simpa using hlt
    have hplace : m.heap = (f.members.map Member.heap)[i] := by rw [List.getElem_map, heq]
    rw [hmembers, List.map_set, hheap, hplace, List.set_getElem_self]
  refine ⟨⟨hforall h.steady hsteady, hforall h.distinct hdistinct, ?_, ?_, ?_, ?_⟩,
    hafter.extended⟩
  · unfold holdings
    rw [hR', add_left_comm]
    exact hafter.books
  · rw [hheaps]
    exact h.heaps
  · have hwithin {m : Member κ τ ρ} (hm : m ∈ f.members) :
        m.heap < f'.ground.store.heaps.size :=
      Nat.lt_of_lt_of_le (h.within m hm) hafter.extended.size_le
    refine hforall (fun _ => hwithin) ?_
    rw [hheap]
    exact hwithin hm
  · have hcounted {m : Member κ τ ρ} (hm : m ∈ f.members) (i : Instruments)
        (hi : m.instruments = some i) : f'.ground.store.trackerOf m.heap = i.tracker := by
      rw [hafter.extended.trackerOf_eq (h.within m hm)]
      exact h.counted m hm i hi
    refine hforall (fun _ => hcounted) ?_
    intro i hi
    rw [hheap]
    exact hcounted hm i (by rw [← hinstruments, hi])

end Fleet

namespace Instruments

variable {s₀ : Store} {g ground : Ground κ} {facilities : Instrumentations} {limits : Limits}
  {G : Multiset Holding} {m : Machine κ τ ρ} {instruments : Instruments}

/-- Where an instrumented interpreter has its memory from: counted by a new counter, if it is
monitored. -/
def prepare (s : Store) (monitored : Bool) : Store × MemorySource :=
  if monitored then (s.addTracker.1, .tracked s.trackers.size) else (s, .system)

/-- The counter of an interpreter that is to be monitored is made before it. -/
private theorem keeps_prepare {s : Store} (hs : s₀.Keeps s G) (monitored : Bool) :
    s₀.Keeps (prepare s monitored).1 G ∧ (prepare s monitored).1.heaps = s.heaps ∧
      (prepare s monitored).2.isKnown (prepare s monitored).1 = true := by
  cases monitored with
  | true => exact ⟨hs.addTracker, rfl, by simp [prepare, MemorySource.isKnown, Store.addTracker]⟩
  | false => exact ⟨hs, rfl, rfl⟩

/-- An interpreter is opened over a new heap, and its facilities are added. -/
private theorem openWith_eq {store : Store} {heap : Nat} {opened : Except Error (Interpreter κ)}
    (hnew : Interpreter.openNew (prepare g.store facilities.memoryMonitoring).1
      (prepare g.store facilities.memoryMonitoring).2 limits = (store, heap, opened)) :
    openWith g facilities limits =
      match opened with
      | .error e => ({ g with store }, .error e)
      | .ok interp =>
        match if facilities.interruption then
            (Machine.idle interp .empty { g with store } : Machine κ τ ρ).bind
          else .ok (.idle interp .empty { g with store }) with
        | .error e => ({ g with store }, .error e)
        | .ok m => ((m.note (.created facilities)).park.1,
          .ok ((m.note (.created facilities)).park.2,
            ⟨facilities, (prepare g.store facilities.memoryMonitoring).2.heap.tracker⟩)) := by
  unfold prepare at hnew ⊢
  unfold openWith
  cases hmon : facilities.memoryMonitoring with
  | true =>
    simp only [hmon, if_true, Store.addTracker] at hnew ⊢
    rw [hnew]
    cases opened <;> rfl
  | false =>
    simp only [hmon, Bool.false_eq_true, if_false] at hnew ⊢
    rw [hnew]
    cases opened <;> rfl

/-- What is opened with facilities holds its own block, and its memory is counted by its counter. -/
theorem keeps_openWith (hs : s₀.Keeps g.store G)
    (hopen : openWith g facilities limits = (ground, .ok (m, instruments))) :
    s₀.Keeps ground.store (m.interp.holdings + G) ∧ m.interp.globals.Distinct ∧
      m.interp.heap = g.store.heaps.size ∧ m.interp.heap < ground.store.heaps.size ∧
        ground.store.trackerOf m.interp.heap = instruments.tracker := by
  obtain ⟨hprepared, hheaps, hknown⟩ := keeps_prepare hs facilities.memoryMonitoring
  rcases hnew : Interpreter.openNew (κ := κ) (prepare g.store facilities.memoryMonitoring).1
    (prepare g.store facilities.memoryMonitoring).2 limits with ⟨store, heap, opened⟩
  rw [openWith_eq hnew] at hopen
  cases opened with
  | error e => exact nomatch hopen
  | ok interp =>
    obtain ⟨hkeeps, hdistinct, hheap, hlt, htracker⟩ := hprepared.openNew hknown hnew
    -- the interpreter is there; what is left is the hook, if it is to have one
    rw [hheaps] at hheap
    cases hint : facilities.interruption with
    | true =>
      have hinitial := (openOn_of_openNew hnew).2
      obtain ⟨block, rfl⟩ := System.interp_of_openOn hinitial
      simp only [hint, if_true, Machine.bind, Machine.idle, Interpreter.initial] at hopen
      obtain ⟨rfl, hm⟩ := Prod.mk.inj hopen
      obtain ⟨rfl, rfl⟩ := Prod.mk.inj (Except.ok.inj hm)
      exact ⟨(hkeeps.note _).note _, hdistinct, hheap, hlt, htracker⟩
    | false =>
      simp only [hint, Bool.false_eq_true, if_false] at hopen
      obtain ⟨rfl, hm⟩ := Prod.mk.inj hopen
      obtain ⟨rfl, rfl⟩ := Prod.mk.inj (Except.ok.inj hm)
      exact ⟨hkeeps.note _, hdistinct, hheap, hlt, htracker⟩

/-- What cannot be opened holds nothing. -/
theorem keeps_openWith_refused (hs : s₀.Keeps g.store G) {e : Error}
    (hopen : openWith (τ := τ) (ρ := ρ) g facilities limits = (ground, .error e)) :
    s₀.Keeps ground.store G := by
  obtain ⟨hprepared, hheaps, hknown⟩ := keeps_prepare hs facilities.memoryMonitoring
  rcases hnew : Interpreter.openNew (κ := κ) (prepare g.store facilities.memoryMonitoring).1
    (prepare g.store facilities.memoryMonitoring).2 limits with ⟨store, heap, opened⟩
  rw [openWith_eq hnew] at hopen
  cases opened with
  | error e =>
    obtain ⟨rfl, -⟩ := Prod.mk.inj hopen
    exact hprepared.openNew_refused hknown hnew
  | ok interp =>
    -- there is room for a hook
    have hinitial := (openOn_of_openNew hnew).2
    obtain ⟨block, rfl⟩ := System.interp_of_openOn hinitial
    cases hint : facilities.interruption with
    | true => simp [hint, Machine.bind, Machine.idle, Interpreter.initial] at hopen
    | false => simp [hint] at hopen

end Instruments

namespace Fleet

variable {f f' : Fleet κ τ ρ}

/-- What is done to the store alone keeps it in order. -/
private theorem InOrder.stay (h : f.InOrder) (hmembers : f'.members = f.members)
    (hkeeps : f.ground.store.Keeps f'.ground.store f'.holdings) :
    f'.InOrder ∧ f.ground.store.Extends f'.ground.store :=
  ⟨h.of_members hmembers hkeeps, hkeeps.extended⟩

/-- A store that is in order is in order as one that nothing has happened to. -/
private theorem InOrder.keeps (h : f.InOrder) :
    f.ground.store.Keeps f.ground.store f.holdings :=
  ⟨.refl _, h.books⟩

/-- A plain interpreter that is opened joins with a heap of its own. -/
private theorem inOrder_opens (code : Meaning κ τ ρ) (h : f.InOrder) (source : MemorySource)
    (limits : Limits) : (f.step code (.opens source limits)).InOrder ∧
      f.ground.store.Extends (f.step code (.opens source limits)).ground.store := by
  -- over a counter that nobody knows nothing is opened
  simp only [step]
  split
  next hknown =>
    split
    next store heap interp hopen =>
      obtain ⟨hkeeps, hdistinct, hheap, hlt, -⟩ := h.keeps.openNew hknown hopen
      obtain ⟨-, hopen⟩ := openOn_of_openNew hopen
      have hsteady := System.steady_of_begun (τ := τ) (ρ := ρ)
        (.inl ⟨_, _, _, _, _, .empty, hopen, rfl⟩)
      -- it begins with a seat of its own and holds nothing else
      refine ⟨h.join (Member.mk (.opening (.idle interp .empty .empty)) none) hsteady hdistinct
        rfl rfl ?_ hheap hlt ?_, hkeeps.extended⟩
      · rw [Member.holdings_opening rfl rfl]
        exact hkeeps
      · intro i hi
        simp at hi
    next store heap e hopen => exact h.stay rfl (h.keeps.openNew_refused hknown hopen)
  next => exact h.stay rfl h.keeps

/-- An instrumented interpreter that is opened joins with a heap and a counter of its own. -/
private theorem inOrder_instruments (code : Meaning κ τ ρ) (h : f.InOrder)
    (facilities : Instrumentations) (limits : Limits) :
    (f.step code (.instruments facilities limits)).InOrder ∧
      f.ground.store.Extends (f.step code (.instruments facilities limits)).ground.store := by
  simp only [step]
  split
  next ground machine instruments hopen =>
    obtain ⟨hkeeps, hdistinct, hheap, hlt, htracker⟩ := Instruments.keeps_openWith h.keeps hopen
    obtain ⟨hcontrol, hframes, -⟩ := System.machine_of_openWith hopen
    have hsteady := System.steady_of_begun (.inr ⟨_, _, _, _, _, _, hopen, rfl⟩)
    -- the counter is the new one, which no other heap has
    refine ⟨h.join (Member.mk (.opening machine) (some instruments)) hsteady hdistinct rfl rfl
      ?_ hheap hlt ?_, hkeeps.extended⟩
    · rw [Member.holdings_opening hcontrol hframes]
      exact hkeeps
    · intro i hi
      obtain rfl := Option.some.inj hi
      exact htracker
  next ground e hopen => exact h.stay rfl (Instruments.keeps_openWith_refused h.keeps hopen)

/-- Whatever happens to one interpreter, the others hold what they held. -/
private theorem inOrder_on (code : Meaning κ τ ρ) (h : f.InOrder) (i : Nat)
    (e : Safepoint.Event κ τ ρ) : (f.step code (.on i e)).InOrder ∧
      f.ground.store.Extends (f.step code (.on i e)).ground.store := by
  simp only [step]
  split
  next m hget =>
    have hm := Member.steady_onGround (h.steady m (List.mem_of_getElem? hget)) f.ground
    obtain ⟨hheap, hinstruments⟩ := Member.turn_keeps code hm f.hands e
    refine h.replace hget (Member.steady_turn code hm f.hands e) hheap hinstruments rfl rfl ?_
    intro R hR
    exact Member.covers_turn code hm e ⟨h.distinct m (List.mem_of_getElem? hget), hR⟩
  next => exact h.stay rfl h.keeps

/-- A string that the embedder copies is held once more. -/
private theorem inOrder_copy (code : Meaning κ τ ρ) (h : f.InOrder) (s : Str) :
    (f.step code (.copy s)).InOrder ∧
      f.ground.store.Extends (f.step code (.copy s)).ground.store := by
  simp only [step]
  split
  next t hlookup =>
    have hmem : Holding.string t ∈ f.holdings := by
      unfold holdings
      rw [Held.holdings_drop hlookup]
      simp
    refine h.stay rfl ?_
    -- the copy is in the embedder's hands
    have hcopied : Fleet.holdings { f.mapStore fun store => store.retain t with
        hands := f.hands ++ [t] } = .string t ::ₘ f.holdings := by
      unfold holdings
      rw [← Multiset.singleton_add, Held.holdings_append, Held.holdings_cons, Held.holdings_nil]
      simp only [mapStore]
      abel
    rw [hcopied]
    exact h.keeps.retain hmem
  next => exact h.stay rfl h.keeps

/-- A string that the embedder drops is held once less. -/
private theorem inOrder_drop (code : Meaning κ τ ρ) (h : f.InOrder) (s : Str) :
    (f.step code (.drop s)).InOrder ∧
      f.ground.store.Extends (f.step code (.drop s)).ground.store := by
  simp only [step]
  split
  next t hlookup =>
    refine h.stay rfl ?_
    apply Store.Keeps.release
    -- what is dropped was in the embedder's hands
    have hdropped : f.holdings = .string t ::ₘ Fleet.holdings
        { f.mapStore fun store => store.release t with hands := f.hands.drop s } := by
      unfold holdings
      rw [Held.holdings_drop hlookup, ← Multiset.singleton_add, add_assoc]
      rfl
    rw [← hdropped]
    exact h.keeps
  next => exact h.stay rfl h.keeps

/-- Whatever happens, the store stays in order. -/
theorem inOrder_step (code : Meaning κ τ ρ) (h : f.InOrder) (e : Event κ τ ρ) :
    (f.step code e).InOrder ∧ f.ground.store.Extends (f.step code e).ground.store := by
  cases e with
  | count => exact h.stay rfl h.keeps.addTracker
  | ration heap policy => exact h.stay rfl (h.keeps.ration heap policy)
  | queues queues => exact h.stay rfl h.keeps
  | opens source limits => exact inOrder_opens code h source limits
  | instruments facilities limits => exact inOrder_instruments code h facilities limits
  | on i e => exact inOrder_on code h i e
  | copy s => exact inOrder_copy code h s
  | drop s => exact inOrder_drop code h s

/-- The store of a fleet is in order in every state of a run. -/
theorem Run.inOrder {code : Meaning κ τ ρ} (r : Run code) (n : Nat) : (r.state n).InOrder := by
  induction n with
  | zero =>
    rw [r.begins]
    exact inOrder_empty
  | succ n ih =>
    rw [r.next]
    exact (inOrder_step code ih (r.event n)).1

end Fleet

end Safepoint
