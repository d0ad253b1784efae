import Safepoint.Proofs.Machine.Layout

/-!
# Limits are kept

An interpreter never has more values on its stack, nor more calls in progress, than its limits
grant: whatever grows the stack looks for room first, and a call that would be too deep is not made.

## Key results

- `floor_le_of_laid`: the floor of the function that runs is on the stack
- `inLimits_step`: a step keeps the stack and the calls of an interpreter within its limits
-/

namespace Safepoint

variable {κ τ ρ : Type}

/-- The stack and the calls in progress are within the limits. -/
structure Interpreter.InLimits (i : Interpreter κ) : Prop where
  stack_le : i.stack.size ≤ i.limits.maxStackSize
  depth_le : i.depth ≤ i.limits.maxCallDepth

namespace Interpreter

variable {i : Interpreter κ}

/-- What takes the place of the stack and is no larger stays within the limits. -/
theorem InLimits.restack (h : i.InLimits) {xs : Array (Value κ)} (hsize : xs.size ≤ i.stack.size) :
    ({ i with stack := xs } : Interpreter κ).InLimits :=
  ⟨Nat.le_trans hsize h.stack_le, h.depth_le⟩

/-- There is room for a value that is pushed. -/
theorem InLimits.push (h : i.InLimits) (hroom : i.hasRoom = true) (v : Value κ) :
    (i.push v).InLimits := by
  refine ⟨?_, h.depth_le⟩
  have hlt : i.stack.size < i.limits.maxStackSize := by simpa [hasRoom] using hroom
  show (i.stack.push v).size ≤ i.limits.maxStackSize
  rw [Array.size_push]
  exact hlt

/-- A stack only gets lower when values are taken off. -/
theorem InLimits.pop (h : i.InLimits) (n : Nat) : (i.pop n).InLimits := by
  apply h.restack
  rw [Array.size_shrink]
  exact Nat.min_le_right _ _

end Interpreter

/-! ## Frames that are taken off -/

/-- Taking frames off leaves the limits alone. -/
theorem limits_unwound (fs : List (Frame κ τ ρ)) (i : Interpreter κ) :
    (unwound fs i).limits = i.limits := by
  induction fs generalizing i with
  | nil => rfl
  | cons f fs ih =>
    have hunwind : (f.unwind i).limits = i.limits := by cases f <;> rfl
    rw [← hunwind]
    exact ih (f.unwind i)

/-- The floor belongs to the script function that is nearest to the top, and is on the stack. If
there is none, it is the floor that will be left. -/
theorem floor_le_of_laid {fs : List (Frame κ τ ρ)} {i : Interpreter κ} (h : Laid fs i)
    (hbottom : (unwound fs i).floor = 0) : i.floor ≤ i.stack.size := by
  -- from the frame on top down to the last script frame, which has the floor
  induction fs generalizing i with
  | nil =>
    have hzero : i.floor = 0 := hbottom
    omega
  | cons f fs ih =>
    obtain ⟨hstands, hlaid⟩ := h
    cases f with
    | script a await => exact hstands.1.floor_le
    | _ =>
      -- no other frame has moved the floor or the stack
      have hfloor := ih hlaid hbottom
      exact hfloor

namespace Machine

variable {m : Machine κ τ ρ} {a : Activation κ}

/-! ## Scripts -/

/-- A stack that is cut off is no higher. -/
theorem inLimits_truncate (h : m.interp.InLimits) (height : Nat) :
    (m.truncate height).interp.InLimits := by
  apply h.restack
  rw [Array.size_shrink]
  exact Nat.min_le_right _ _

/-- To leave a function pushes nothing by itself. -/
theorem inLimits_leave (h : m.interp.InLimits) (a : Activation κ) (outcome : Outcome κ) :
    (m.leave a outcome).interp.InLimits :=
  inLimits_truncate (m := { m with interp := { m.interp with floor := a.callerFloor } })
    ⟨h.stack_le, h.depth_le⟩ a.base

/-- A value is only pushed where there is room. -/
theorem inLimits_pushAndGo (h : m.interp.InLimits) (a : Activation κ) (v : Value κ) :
    (m.pushAndGo a v).interp.InLimits := by
  unfold pushAndGo
  split
  next hroom => exact h.push hroom v
  · exact inLimits_leave (m := m.release v) h a _

/-- Two values are only pushed where there is room for both. -/
theorem inLimits_pushTwoAndGo (h : m.interp.InLimits) (a : Activation κ) (v w : Value κ) :
    (m.pushTwoAndGo a v w).interp.InLimits := by
  unfold pushTwoAndGo
  split
  next hroom => exact inLimits_pushAndGo (h.push hroom v) a w
  · exact inLimits_leave (m := m.releaseAll [v, w]) h a _

/-- A global is no part of the stack. -/
theorem inLimits_setGlobal (h : m.interp.InLimits) (name : String) (v : Value κ) :
    (m.setGlobal name v).interp.InLimits :=
  ⟨h.stack_le, h.depth_le⟩

/-- A local is replaced in its place. -/
theorem inLimits_setLocal (h : m.interp.InLimits) (a : Activation κ) (slot : Nat) (v : Value κ) :
    (m.setLocal a slot v).interp.InLimits := by
  unfold setLocal
  split
  · exact h
  · exact h.restack (Nat.le_of_eq Array.size_setIfInBounds)

/-- Two operands make room for the value that they make. -/
theorem inLimits_binary (h : m.interp.InLimits) (a : Activation κ)
    (op : Interpreter κ → Value κ → Value κ → Except Error (Value κ)) :
    (m.binary a op).interp.InLimits := by
  unfold binary
  split
  · exact inLimits_leave h a _
  next x y _ =>
    split
    · exact inLimits_leave h a _
    · exact inLimits_pushAndGo (m := (m.popped 2).releaseAll [x, y]) (h.pop 2) a _

/-- Two operands make room for the string that they make. -/
theorem inLimits_concat (h : m.interp.InLimits) (a : Activation κ) :
    (m.concat a).interp.InLimits := by
  unfold concat
  split
  · exact inLimits_leave h a _
  next x y _ =>
    split
    · exact inLimits_leave h a _
    · split
      · exact inLimits_leave h a _
      · dsimp only
        split
        next hask =>
          -- to ask the store, for the string or in vain, leaves the interpreter as it is
          rw [← (askStore_eq hask).2] at h
          exact inLimits_leave h a _
        next m₁ s hask =>
          rw [← (askStore_eq hask).2] at h
          exact inLimits_pushAndGo (m := (m₁.popped 2).releaseAll [x, y]) (h.pop 2) a _

/-- No instruction pushes where there is no room. -/
theorem inLimits_execute (h : m.interp.InLimits) (a : Activation κ) (op : Instruction) :
    (m.execute a op).interp.InLimits := by
  -- by the instruction: those that push ask for room, and the others only take off or jump
  cases op with
  | nil | true | false | int n => exact inLimits_pushAndGo h a _
  | str bytes =>
    simp only [execute]
    split
    next hnew =>
      rw [← (newValue_keeps hnew).2] at h
      exact inLimits_pushAndGo h a _
    next hnew =>
      rw [← (newValue_keeps hnew).2] at h
      exact inLimits_leave h a _
  | pop =>
    simp only [execute]
    split
    · exact inLimits_leave h a _
    · exact h.pop 1
  | dup =>
    simp only [execute]
    split
    · exact inLimits_leave h a _
    next v _ => exact inLimits_pushAndGo (m := m.retain v) h a _
  | getLocal slot =>
    simp only [execute]
    split
    · exact h
    next v _ => exact inLimits_pushAndGo (m := m.retain v) h a _
  | setLocal slot =>
    simp only [execute]
    split
    · exact inLimits_leave h a _
    · -- the slot is overwritten in place, so the stack does not grow
      exact inLimits_setLocal (m := m.popped 1) (h.pop 1) a slot _
  | getGlobal name => exact inLimits_pushAndGo (m := m.retain _) h a _
  | setGlobal name =>
    simp only [execute]
    split
    · exact inLimits_leave h a _
    · exact inLimits_setGlobal (m := m.popped 1) (h.pop 1) name _
  | add | sub | lt | eq => simpa only [execute] using inLimits_binary h a _
  | not =>
    simp only [execute]
    split
    · exact inLimits_leave h a _
    next v _ => exact inLimits_pushAndGo (m := (m.popped 1).release v) (h.pop 1) a _
  | concat => exact inLimits_concat h a
  | jump target => exact h
  | jumpIfFalse target =>
    simp only [execute]
    split
    · exact inLimits_leave h a _
    · exact h.pop 1
  | call argc =>
    simp only [execute]
    split
    · exact inLimits_leave h a _
    · exact h.pop (argc + 1)
  | pcall argc =>
    simp only [execute]
    split
    · exact inLimits_leave h a _
    · exact h.pop (argc + 1)
  | ret count =>
    cases count with
    | zero => exact inLimits_leave h a _
    | succ n =>
      simp only [execute]
      split
      · exact inLimits_leave h a _
      · exact inLimits_leave (m := m.popped 1) (h.pop 1) a _

/-- After a protected call the stack is cut off or the results are pushed, where there is room. -/
theorem inLimits_afterPcall (h : m.interp.InLimits) (a : Activation κ) (top : Nat)
    (outcome : Outcome κ) : (m.afterPcall a top outcome).interp.InLimits := by
  unfold afterPcall
  split
  next results => exact inLimits_pushTwoAndGo (m := m.releaseAll results.tail) h a _ _
  · split
    -- the stack is back at its height of before the call, and two values go onto it
    · have hcut := inLimits_truncate h top
      dsimp only
      split
      next hnew =>
        rw [← (newValue_keeps hnew).2] at hcut
        exact inLimits_pushTwoAndGo hcut a _ _
      next hnew =>
        rw [← (newValue_keeps hnew).2] at hcut
        exact inLimits_leave hcut a _
    · exact inLimits_leave h a _

/-- To fetch an instruction pushes nothing. -/
theorem inLimits_fetch (h : m.interp.InLimits) (a : Activation κ) :
    (m.fetch a).interp.InLimits := by
  unfold fetch
  split
  · exact inLimits_leave h a _
  · exact ⟨h.stack_le, h.depth_le⟩

/-- What a script waited for is pushed where there is room. -/
theorem inLimits_deliverScript (h : m.interp.InLimits) (a : Activation κ) (await : Await κ)
    (outcome : Outcome κ) : (m.deliverScript a await outcome).interp.InLimits := by
  unfold deliverScript
  split
  · exact h
  · exact h
  · exact inLimits_leave h a _
  next f results =>
    exact inLimits_pushAndGo (m := (m.releaseAll results.tail).release f) h a _
  next f e => exact inLimits_leave (m := m.release f) h a _
  · exact inLimits_afterPcall h a _ outcome

/-! ## Calls -/

/-- A call is only begun where it is not too deep. -/
theorem inLimits_invoke (h : m.interp.InLimits) (f : Value κ) (args : List (Value κ)) :
    (m.invoke f args).interp.InLimits := by
  unfold invoke
  split
  · split
    · exact h
    next hdeep => exact ⟨h.stack_le, Nat.lt_of_not_le hdeep⟩
  · exact h

/-- A script function is only entered where there is room for its locals. -/
theorem inLimits_enter (code : Meaning κ τ ρ) (h : m.interp.InLimits) (f : Func κ)
    (args : List (Value κ)) : (m.enter code f args).interp.InLimits := by
  cases f with
  | native _ _ c => exact h
  | script id proto =>
    simp only [enter]
    split
    · exact h
    next hroom =>
      -- the locals were counted with what is on the stack already
      refine ⟨?_, h.depth_le⟩
      show (m.interp.stack ++ (fill proto.params args ++
        List.replicate (proto.locals - proto.params) Value.nil)).size ≤ _
      rw [size_append_slots]
      exact Nat.le_of_not_lt hroom

/-- A call that is over takes its depth back. -/
theorem inLimits_exitCall (h : m.interp.InLimits) (outcome : Outcome κ) :
    (m.exitCall outcome).interp.InLimits := by
  unfold exitCall
  split
  · exact h
  next depth hdepth =>
    have hle := h.depth_le
    exact ⟨h.stack_le, by show depth ≤ m.interp.limits.maxCallDepth; omega⟩

/-- Each stage of a call stays within the limits. -/
theorem inLimits_deliverCall (code : Meaning κ τ ρ) (h : m.interp.InLimits) (stage : Stage κ)
    (outcome : Outcome κ) : (m.deliverCall code stage outcome).interp.InLimits := by
  unfold deliverCall
  split
  · exact inLimits_enter code (m := { m with frames := .call .body :: m.frames }) h _ _
  next args e => exact inLimits_exitCall (m := m.releaseAll args) h _
  · exact h
  · exact inLimits_exitCall h _
  · exact inLimits_exitCall h _
  next results e => exact inLimits_exitCall (m := m.releaseAll results) h _

/-- Whatever waits for an outcome stays within the limits. -/
theorem inLimits_deliver (code : Meaning κ τ ρ) (h : m.interp.InLimits) (outcome : Outcome κ) :
    (m.deliver code outcome).interp.InLimits := by
  -- by the frame on top; only calls and script functions push
  unfold deliver
  split
  · exact h
  next frame rest hf =>
    dsimp only
    split
    · exact inLimits_deliverCall code (m := { m with frames := rest }) h _ outcome
    · exact inLimits_deliverScript (m := { m with frames := rest }) h _ _ outcome
    · split <;> exact h
    next top depth =>
      split
      · exact h
      · split
        · exact h
        · exact inLimits_truncate (m := { m with frames := rest }) h top
    · exact ⟨h.stack_le, h.depth_le⟩
    next source ran => cases outcome <;> cases source <;> exact h

/-! ## Safepoints and host code -/

/-- A safepoint touches neither the stack nor the depth. -/
theorem inLimits_poll (h : m.interp.InLimits) (event : HookEvent) :
    (m.poll event).interp.InLimits := by
  -- to enter the hook changes its flags and nothing else
  have entering (m : Machine κ τ ρ) (h : m.interp.InLimits) (event : HookEvent) :
      (m.dispatch event).interp.InLimits := by
    unfold dispatch
    split
    · exact h
    · split
      · exact h
      · exact ⟨h.stack_le, h.depth_le⟩
  unfold poll
  dsimp only
  split
  · exact h
  · split
    · exact h
    · split
      · split
        · exact ⟨h.stack_le, h.depth_le⟩
        · exact entering
            { m with interp := { m.interp with countdown := m.mailbox.slot.threshold } }
            ⟨h.stack_le, h.depth_le⟩ .count
      · exact entering m h _

/-- No request of host code pushes onto the stack; a call has yet to begin. -/
theorem inLimits_serve (h : m.interp.InLimits) (held : Held) (q : Query κ)
    (next : Reply κ → Program κ τ ρ) : (m.serve held q next).interp.InLimits := by
  have string (bytes : Bytes) : (serve.string m held next bytes).interp.InLimits := by
    unfold serve.string
    split
    next hnew =>
      rw [← (newValue_keeps hnew).2] at h
      exact h
    next hnew =>
      rw [← (newValue_keeps hnew).2] at h
      exact h
  -- a string is held by the code that asked for it, not by the stack
  cases q with
  | newBytes bytes => exact string bytes
  | newText text => exact string _
  | copy v =>
    simp only [serve]
    split
    · split <;> exact h
    · exact h
  | setGlobal | register | setEncoding => exact ⟨h.stack_le, h.depth_le⟩
  | _ => exact h

/-! ## One step -/

/-- A step keeps the stack and the calls of an interpreter within its limits. -/
theorem inLimits_step (code : Meaning κ τ ρ) (h : m.interp.InLimits) :
    (m.step code).interp.InLimits := by
  -- only calls, instructions and outcomes touch the stack or the depth; the rest is by looking
  cases hc : m.control <;> simp only [step, hc]
  case invoke f args => exact inLimits_invoke h f args
  case poll event => exact inLimits_poll h event
  case handle phase info =>
    cases phase with
    | readMessage | acquire =>
      simp only [handle]
      split <;> exact h
    | _ => exact h
  case drain source ran =>
    cases source with
    | mailbox event | queue id =>
      simp only [drain]
      split <;> exact h
  case settle source ran outcome =>
    unfold settle
    split
    · exact h
    · split <;> exact h
  case measure e =>
    unfold measure
    dsimp only
    split <;> exact h
  case fetch =>
    split
    next a rest _ => exact inLimits_fetch (m := { m with frames := rest, control := .fetch }) h a
    · exact h
  case execute op =>
    split
    next a rest _ =>
      exact inLimits_execute (m := { m with frames := rest, control := .execute op }) h a op
    · exact h
  case run held p =>
    unfold runProgram
    split
    · exact h
    · exact h
    · exact inLimits_serve h held _ _
    · exact h
  case post phase =>
    unfold post
    split
    · exact h
    · exact h
    · obtain ⟨g, hg⟩ := notes_eq_onGround { m with mailbox := (phase.step m.mailbox).1 }
        (phase.step m.mailbox).2.2
      dsimp only
      rw [hg]
      split <;> exact h
  case reply r =>
    unfold reply
    split <;> exact h
  case deliver outcome => exact inLimits_deliver code h outcome
  case check | arrive | paused =>
    unfold checking
    dsimp only
    split <;> exact h
  all_goals exact h

end Machine

end Safepoint
