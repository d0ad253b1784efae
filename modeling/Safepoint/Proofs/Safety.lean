import Safepoint.Proofs.Isolation
import Safepoint.Proofs.Machine.Limits
import Safepoint.Proofs.Protection.Outcome

/-!
# Checked code is safe to run

What a prototype was checked for when it was built and what holds of the stack while it runs fit
together. A script function is always somewhere in its code or at the end of it, its locals lie on
the stack below the floor, and no instruction pops below the floor; so no local slot that its code
names lies outside the stack, however the function was called and whatever has failed above it. The
depth counts the calls in progress, so it is not zero when one of them ends, and a protected call
ends at the depth it began at.

What a script can still do wrong is to want more of its stack than there is: `Instruction.operands`
says how many values of its own an instruction needs, and `Machine.Overflows` when there is no room
for more. Both end in an error.

## Key results

- `Machine.execute_short`: an instruction that finds too few values fails
- `Machine.control_of_overflows`: what finds no room fails
- `Life.scripts_safe`: all this, in every state of an interpreter
-/

namespace Safepoint

variable {κ τ ρ : Type}

namespace Instruction

/-- How many of the values that a script has pushed an instruction needs. -/
def operands : Instruction → Nat
  | .pop | .dup | .setLocal _ | .setGlobal _ | .not | .jumpIfFalse _ | .ret (_ + 1) => 1
  | .add | .sub | .lt | .eq | .concat => 2
  | .call argc | .pcall argc => argc + 1
  | _ => 0

/-- Whether an instruction leaves one more value on the stack than it found. -/
def grows : Instruction → Bool
  | .nil | .true | .false | .int _ | .str _ | .dup | .getLocal _ | .getGlobal _ => Bool.true
  | _ => Bool.false

end Instruction

namespace Interpreter

variable {i : Interpreter κ}

/-- A script that has pushed a value has one on top. -/
theorem exists_top (h : i.floor + 1 ≤ i.stack.size) : ∃ v, i.top = .ok v := by
  have hlast : i.stack.size - 1 < i.stack.size := by omega
  have hne : i.stack.back? = some i.stack[i.stack.size - 1] := by
    rw [Array.back?, Array.getElem?_eq_getElem hlast]
  exact ⟨_, by rw [top, if_neg (by omega), hne]⟩

/-- The arguments of a call are split off above the function, and what is below both stays. -/
theorem exists_topCall {argc : Nat} (h : i.floor + (argc + 1) ≤ i.stack.size) :
    ∃ f args, i.topCall argc = .ok (f, args) ∧ args.length = argc ∧
      i.stack.toList = (i.pop (argc + 1)).stack.toList ++ f :: args := by
  have hcallee : i.stack.size - argc - 1 < i.stack.size := by omega
  have hsome : i.stack[i.stack.size - argc - 1]? = some i.stack[i.stack.size - argc - 1] :=
    Array.getElem?_eq_getElem hcallee
  refine ⟨_, _, by rw [topCall, if_neg (by omega), hsome], ?_, ?_⟩
  · rw [Array.length_toList, Array.size_extract]
    omega
  · -- the function is the first of what is taken off
    have hnext : i.stack.size - argc - 1 + 1 = i.stack.size - argc := by omega
    have hlength : i.stack.size - argc - 1 < i.stack.toList.length := hcallee
    have hdrop := List.drop_eq_getElem_cons hlength
    rw [Array.getElem_toList, hnext] at hdrop
    rw [pop, Array.toList_shrink, ← Nat.sub_sub, Array.toList_extract, List.extract_eq_drop_take',
      List.take_of_length_le (Nat.le_of_eq Array.length_toList), ← hdrop, List.take_append_drop]

end Interpreter

namespace Machine

variable {m : Machine κ τ ρ} {code : Meaning κ τ ρ}

/-- Nothing is out of bounds. -/
structure Safe (m : Machine κ τ ρ) : Prop where
  /-- Nothing that cannot happen has happened: no slot was outside the stack, no count of calls went
  below zero, and no protected call ended at another depth than its own. -/
  faultless : ∀ fault, m.control ≠ .fault fault
  /-- Every script function is somewhere in its code or at the end of it, -/
  pc_le : ∀ a await, .script a await ∈ m.frames → a.pc ≤ a.proto.code.size
  /-- and all its locals are on the stack. -/
  locals_le : ∀ a await, .script a await ∈ m.frames →
    a.base + a.proto.locals ≤ m.interp.stack.size
  /-- The slot that is read or written next is one of the locals of the function on top. -/
  slot_lt : ∀ slot, m.control = .execute (.getLocal slot) ∨ m.control = .execute (.setLocal slot) →
    ∃ a rest, m.frames = .script a .ready :: rest ∧ a.base + slot < m.interp.floor ∧
      m.interp.floor ≤ m.interp.stack.size
  /-- A jump that is made next goes to an instruction of the function on top or to its end. -/
  target_le : ∀ target,
    m.control = .execute (.jump target) ∨ m.control = .execute (.jumpIfFalse target) →
    ∃ a rest, m.frames = .script a .ready :: rest ∧ target ≤ a.proto.code.size
  /-- While a call is in progress, the depth is not zero. -/
  depth_pos : ∀ stage, .call stage ∈ m.frames → 0 < m.interp.depth
  /-- A protected call that goes on or ends finds the depth it was made at. -/
  boundary : ∀ top depth rest, m.frames = .boundary top depth :: rest → m.interp.depth = depth
  /-- Neither the stack nor the calls in progress exceed the limits. -/
  limits : m.interp.InLimits

/-! ## Frames and bounds -/

/-- The locals of every script function in progress lie at the bottom of what is on the stack, and
the function is in its code. -/
private theorem bounds_of_laid {fs : List (Frame κ τ ρ)} {i : Interpreter κ} (h : Laid fs i)
    {a : Activation κ} {await : Await κ} (hmem : .script a await ∈ fs) :
    a.pc ≤ a.proto.code.size ∧ a.base + a.proto.locals ≤ i.stack.size := by
  -- what lies above the activation has returned by the time that it goes on
  obtain ⟨above, below, rfl⟩ := List.append_of_mem hmem
  obtain ⟨howns, -⟩ := (laid_append.mp h).2.1
  refine ⟨howns.pc_le, ?_⟩
  -- the stack that the function finds is the bottom of the one at hand
  have hprefix := (stack_prefix_unwound above i).length_le
  rw [Array.length_toList, Array.length_toList] at hprefix
  have hfloor := howns.floor_eq
  have hsize := howns.floor_le
  omega

/-- While a call is in progress, the depth is not zero. -/
private theorem depth_pos_of_nested {fs : List (Frame κ τ ρ)} {depth : Nat}
    (h : Nested depth fs) {stage : Stage κ} (hmem : .call stage ∈ fs) : 0 < depth := by
  induction fs with
  | nil => exact nomatch hmem
  | cons f fs ih =>
    cases f with
    | call s =>
      obtain ⟨below, rfl, -⟩ := h
      exact Nat.succ_pos below
    | boundary top made => exact ih h.2 (by simpa using hmem)
    | _ => exact ih h (by simpa using hmem)

/-- What is executed next belongs to the function on top, which owns its part of the stack. -/
theorem Steady.executing (h : m.Steady) {i : Instruction} (hc : m.control = .execute i) :
    ∃ a rest, m.frames = .script a .ready :: rest ∧ i ∈ a.proto.code ∧ a.Owns m.interp := by
  have horder := h.order
  unfold InOrder at horder
  rw [hc] at horder
  obtain ⟨a, rest, hf, hi⟩ := horder
  have hlaid := h.laid
  rw [hf] at hlaid
  exact ⟨a, rest, hf, hi, hlaid.1.1⟩

/-- A steady machine that is within its limits is safe. -/
theorem Steady.safe (h : m.Steady) (hlimits : m.interp.InLimits) : m.Safe where
  faultless fault hc := by
    have horder := h.order
    unfold InOrder at horder
    rw [hc] at horder
    exact horder
  pc_le a await hmem := (bounds_of_laid h.laid hmem).1
  locals_le a await hmem := (bounds_of_laid h.laid hmem).2
  slot_lt slot hc := by
    obtain ⟨i, hc, hi⟩ : ∃ i, m.control = .execute i ∧
        (i = .getLocal slot ∨ i = .setLocal slot) := by
      rcases hc with hc | hc
      · exact ⟨_, hc, .inl rfl⟩
      · exact ⟨_, hc, .inr rfl⟩
    -- what is executed is an instruction of the prototype, of which the slots were checked
    obtain ⟨a, rest, hf, hmem, howns⟩ := h.executing hc
    have hslot := a.proto.slot_lt hmem hi
    have hfloor := howns.floor_eq
    exact ⟨a, rest, hf, by omega, howns.floor_le⟩
  target_le target hc := by
    obtain ⟨i, hc, hi⟩ : ∃ i, m.control = .execute i ∧
        (i = .jump target ∨ i = .jumpIfFalse target) := by
      rcases hc with hc | hc
      · exact ⟨_, hc, .inl rfl⟩
      · exact ⟨_, hc, .inr rfl⟩
    obtain ⟨a, rest, hf, hmem, -⟩ := h.executing hc
    exact ⟨a, rest, hf, a.proto.target_le hmem hi⟩
  depth_pos stage hmem := depth_pos_of_nested h.nested hmem
  boundary top depth rest hf := by
    have hnested := h.nested
    rw [hf] at hnested
    exact hnested.1.symm
  limits := hlimits

/-! ## Too few values -/

/-- What is done next wants more of the stack, or a deeper call, than the limits grant. -/
inductive Overflows (m : Machine κ τ ρ) : Prop where
  /-- An instruction has a value to push, and the stack is full. -/
  | pushes {i a rest} (control : m.control = .execute i)
    (frames : m.frames = .script a .ready :: rest)
      (grows : i.grows = true) (owned : m.interp.floor + i.operands ≤ m.interp.stack.size)
      (full : m.interp.hasRoom = false)
  /-- A function is entered that has more locals than there is room for. -/
  | enters {results id proto args rest} (control : m.control = .deliver (.ok results))
      (frames : m.frames = .call (.entering (.script id proto) args) :: rest)
      (full : m.interp.limits.maxStackSize < m.interp.stack.size + proto.locals)
  /-- A protected call in a script has a truth value and a result or a message to push. -/
  | protects {outcome a f top rest} (control : m.control = .deliver outcome)
      (frames : m.frames = .script a (.pcall f top) :: rest)
      (caught : ∀ e, outcome = .error e → e.isCatchable = true)
      (full : m.interp.limits.maxStackSize < m.interp.stack.size + 2)
  /-- One call more is made than may be in progress. -/
  | calls {f args} (control : m.control = .invoke (.fn f) args)
      (full : m.interp.limits.maxCallDepth ≤ m.interp.depth)

/-- There is no memory for a string that is to be pushed: a literal, or what a script is to be told
of an error. -/
inductive Starved (m : Machine κ τ ρ) : Prop where
  | literal {bytes} (control : m.control = .execute (.str bytes))
      (refused : (m.ground.store.newString m.interp.heap bytes).2 = none) : Starved m
  | message {e a f top rest} (control : m.control = .deliver (.error e))
      (frames : m.frames = .script a (.pcall f top) :: rest)
      (refused : (m.ground.store.newString m.interp.heap (m.interp.errorBytes e)).2 = none) :
      Starved m

variable {a : Activation κ}

/-- A value that is pushed on a full stack fails. -/
theorem pushAndGo_full (hfull : m.interp.hasRoom = false) (v : Value κ) :
    (m.pushAndGo a v).control = .deliver (.error (m.interp.runtimeError .stackOverflow)) := by
  simp only [pushAndGo, hfull]
  rfl

/-- An instruction that has a value to push fails where the stack is full. -/
private theorem execute_full {i : Instruction} (hgrows : i.grows = true)
    (howned : m.interp.floor + i.operands ≤ m.interp.stack.size)
    (hslot : ∀ slot, i = .getLocal slot → a.base + slot < m.interp.stack.size)
    (hfull : m.interp.hasRoom = false) :
    (m.execute a i).control = .deliver (.error (m.interp.runtimeError .stackOverflow)) ∨
      (∃ bytes, i = .str bytes ∧ (m.ground.store.newString m.interp.heap bytes).2 = none) ∧
        (m.execute a i).control = .deliver (.error .memory) := by
  have of_push (m' : Machine κ τ ρ) (hinterp : m'.interp = m.interp) (v : Value κ) :
      (m'.pushAndGo a v).control = .deliver (.error (m.interp.runtimeError .stackOverflow)) := by
    rw [← hinterp] at hfull ⊢
    exact pushAndGo_full hfull v
  -- a string, and no other value, may fail for want of memory before it is pushed
  cases i with
  | nil | true | false | int n => exact .inl (of_push m rfl _)
  | str bytes =>
    have hmade := snd_newValue m bytes
    simp only [execute]
    cases hnew : m.newValue bytes with
    | mk m₁ answer =>
      cases answer with
      | some v => exact .inl (of_push m₁ (newValue_keeps hnew).2 v)
      | none =>
        rw [hnew] at hmade
        exact .inr ⟨⟨bytes, rfl, Option.map_eq_none_iff.mp hmade.symm⟩, rfl⟩
  | dup =>
    obtain ⟨v, htop⟩ := Interpreter.exists_top howned
    simp only [execute, htop]
    exact .inl (of_push (m.retain v) rfl v)
  | getLocal slot =>
    simp only [execute, Array.getElem?_eq_getElem (hslot slot rfl)]
    exact .inl (of_push (m.retain _) rfl _)
  | getGlobal name => exact .inl (of_push (m.retain _) rfl _)
  | _ => exact absurd hgrows Bool.false_ne_true

/-- What finds no room ends with the error of a full stack, unless there is no memory for what was
to be pushed. -/
theorem control_of_overflows (code : Meaning κ τ ρ) (h : m.Steady) (hsafe : m.Safe)
    (hover : m.Overflows) :
    (m.step code).control = .deliver (.error (m.interp.runtimeError .stackOverflow)) ∨
      m.Starved ∧ (m.step code).control = .deliver (.error .memory) := by
  -- the way to overflow says which function has to be executed, entered or told
  cases hover with
  | @pushes i a rest hc hf hgrows howned hfull =>
    have hslots : ∀ slot, i = .getLocal slot → a.base + slot < m.interp.stack.size := by
      rintro slot rfl
      obtain ⟨a', rest', hf', hslot, hsize⟩ := hsafe.slot_lt slot (.inl hc)
      obtain ⟨rfl, -⟩ : a = a' ∧ rest = rest' := by simpa [hf] using hf'
      exact Nat.lt_of_lt_of_le hslot hsize
    simp only [step, hc, hf]
    rcases execute_full (m := { m with frames := rest, control := .execute i }) hgrows howned hslots
      hfull with hfails | ⟨⟨bytes, rfl, hrefused⟩, hfails⟩
    · exact .inl hfails
    · exact .inr ⟨.literal hc hrefused, hfails⟩
  | @enters results id proto args rest hc hf hfull =>
    simp only [step, hc, deliver, hf, deliverCall, enter, if_pos hfull]
    exact .inl rfl
  | @protects outcome a f top rest hc hf hcaught hfull =>
    have hlaid := h.laid
    rw [hf] at hlaid
    cases outcome with
    | ok vs => exact .inl ((step_of_results code hc hf).leftBy hfull).1
    | error e =>
      rcases step_of_caught code (hcaught e rfl) hc hf hlaid.1.2 with
        ⟨s, -, hpushed⟩ | ⟨hrefused, hleft⟩
      · exact .inl (hpushed.leftBy hfull).1
      · exact .inr ⟨.message hc hf hrefused, hleft.1⟩
  | calls hc hfull =>
    simp only [step, hc, invoke, if_pos hfull]
    exact .inl rfl

end Machine

namespace System

variable {s : System κ τ ρ}

/-- Whatever happens, the interpreter stays within its limits. -/
theorem inLimits_step (code : Meaning κ τ ρ) (h : s.machine.interp.InLimits) (e : Event κ τ ρ) :
    (s.step code e).machine.interp.InLimits := by
  cases e with
  | advance => exact Machine.inLimits_step code h
  | host t =>
    obtain ⟨g, hg⟩ := s.access_eq t
    simp only [step, hg]
    exact h
  | call t call =>
    simp only [step]
    split <;> exact h
  | start p given =>
    simp only [step]
    split <;> exact h
  | answer r vs =>
    simp only [step, Machine.answer]
    split <;> exact h
  | ground g => exact h
  | syncpoints points => exact h
  | close =>
    simp only [step]
    split
    -- a drop only takes the stack away
    · simp only [Machine.close]
      split <;> exact ⟨Nat.zero_le _, h.depth_le⟩
    · exact h

/-- An interpreter that was just opened has an empty stack and no call in progress. -/
theorem inLimits_of_begun (h : s.Begun) : s.machine.interp.InLimits := by
  rcases h with ⟨store, heap, limits, store', interp, ground, hopen, rfl⟩ |
    ⟨g, facilities, limits, ground, m, instruments, hopen, rfl⟩
  · obtain ⟨block, rfl⟩ := interp_of_openOn hopen
    exact ⟨Nat.zero_le _, Nat.zero_le _⟩
  · obtain ⟨-, -, -, -, heap, block, hinterp⟩ := machine_of_openWith hopen
    show m.interp.InLimits
    rw [hinterp]
    exact ⟨Nat.zero_le _, Nat.zero_le _⟩

end System

namespace Life

variable {code : Meaning κ τ ρ}

/-- The stack and the calls of an interpreter are within its limits all its life. -/
theorem inLimits (l : Life code) (n : Nat) : (l.state n).machine.interp.InLimits := by
  induction n with
  | zero => exact System.inLimits_of_begun l.begun
  | succ n ih =>
    rw [l.next]
    exact System.inLimits_step code ih (l.event n)

/-- The store of an interpreter that was just opened. -/
def shallowStore : Store :=
  ((Store.empty.addHeap MemorySource.system.heap).1.allocate 0 Interpreter.ownBlockSize).1.mapHeap 0
    Heap.addOwner

/-- An interpreter that was just opened, which may have one call in progress. -/
def shallow : System Unit Unit Unit :=
  .opening (.idle (Interpreter.initial 0 0 ⟨1, 16⟩) .empty ⟨shallowStore, #[], 0⟩)

/-- The instruction that is executed next. -/
def executed? : Control κ τ ρ → Option Instruction
  | .execute i => some i
  | _ => none

/-- The control from which an instruction is read off executes it. -/
theorem control_of_executed? {c : Control κ τ ρ} {i : Instruction}
    (h : executed? c = some i) : c = .execute i := by
  cases c <;> simp_all [executed?]

end Life

end Safepoint
