import Mathlib.Data.Nat.Init
import Safepoint.Proofs.Machine.Moves

/-!
# What frames leave behind

Each frame of a machine knows how to leave the interpreter as it was found: a call takes the depth
back by one, a script function cuts the stack down to its base and gives the caller its floor back,
and a safepoint puts the hook back in its slot. `unwound above i` is what an interpreter `i` will be
once the frames `above` have been taken off, and `Laid frames i` says that each frame, when it is
its turn, finds the stack, the depth and the hook in the place where it left them.

Everything that one step does is then said once. `Owes rest j m` says that a machine has frames of
its own above `rest`, and that they will leave an interpreter like `j` to them; `owes_step` says
that a step takes at most the frame on top off, and owes those below what they were owed. Globals,
the encoding and the count of instructions are the only parts of an interpreter that work may change
for good, and `Interpreter.lasting` is what is left without them.

## Key results

- `owes_step`: one step owes the frames that it leaves alone what they were owed
- `laid_step`: frames stay laid, and nothing that cannot happen happens
- `stack_prefix_unwound`: what a frame was left with lies untouched below all that is above it
-/

namespace Safepoint

variable {κ τ ρ : Type}

/-! ## Stacks -/

namespace Interpreter

/-- An interpreter without what work may change for good. -/
def lasting (i : Interpreter κ) : Interpreter κ :=
  { i with globals := .empty, encoding := .windows1252, instructions := 0 }

end Interpreter

/-- What is pushed is above whatever is cut down to. -/
private theorem shrink_push {α : Type} (xs : Array α) (v : α) {n : Nat} (h : n ≤ xs.size) :
    (xs.push v).shrink n = xs.shrink n := by
  apply Array.ext'
  simp [h]

/-- To cut down twice is to cut down to the lower height. -/
private theorem shrink_shrink {α : Type} (xs : Array α) {n k : Nat} (h : n ≤ k) :
    (xs.shrink k).shrink n = xs.shrink n := by
  apply Array.ext'
  simp [Nat.min_eq_left h]

/-- What is set above makes no difference below. -/
private theorem shrink_setIfInBounds {α : Type} (xs : Array α) (v : α) {n k : Nat} (h : n ≤ k) :
    (xs.setIfInBounds k v).shrink n = xs.shrink n := by
  apply Array.ext'
  simp [List.take_set_of_le, h]

/-! ## Slots and targets -/

/-- A build that finds no fault finds none in any of its instructions. -/
private theorem fault?_of_firstFault? {locals size pc : Nat} {code : List Instruction}
    (h : firstFault? locals size pc code = none) {i : Instruction} (hi : i ∈ code) :
    ∃ pc', i.fault? locals size pc' = none := by
  induction code generalizing pc with
  | nil => exact nomatch hi
  | cons j rest ih =>
    simp only [firstFault?, Option.or_eq_none_iff] at h
    -- the fault would be that of the first instruction, or of one further on
    rcases List.mem_cons.mp hi with rfl | hi
    · exact ⟨pc, h.1⟩
    · exact ih h.2 hi

/-- The local slots that the code of a prototype names exist. -/
theorem Prototype.slot_lt (p : Prototype) {i : Instruction} {slot : Nat} (hi : i ∈ p.code)
    (h : i = .getLocal slot ∨ i = .setLocal slot) : slot < p.locals := by
  obtain ⟨pc, hfault⟩ := fault?_of_firstFault? p.faultless (Array.mem_toList_iff.mpr hi)
  apply Nat.lt_of_not_le
  intro hle
  rcases h with rfl | rfl <;> simp [Instruction.fault?, Nat.not_lt.mpr hle] at hfault

/-- The jumps in the code of a prototype stay in it, or go to its end. -/
theorem Prototype.target_le (p : Prototype) {i : Instruction} {target : Nat} (hi : i ∈ p.code)
    (h : i = .jump target ∨ i = .jumpIfFalse target) : target ≤ p.code.size := by
  obtain ⟨pc, hfault⟩ := fault?_of_firstFault? p.faultless (Array.mem_toList_iff.mpr hi)
  apply Nat.le_of_not_lt
  intro hlt
  rcases h with rfl | rfl <;> simp [Instruction.fault?, Nat.not_le.mpr hlt] at hfault

/-! ## Frames that are taken off -/

namespace Activation

/-- What a script function leaves when it is left: the stack below its base, and the floor of its
caller. -/
def left (a : Activation κ) (i : Interpreter κ) : Interpreter κ :=
  { i with stack := i.stack.shrink a.base, floor := a.callerFloor }

/-- A script function is somewhere in its code or at the end of it, and owns the stack from its base
on: first come its locals, with the floor above them. -/
structure Owns (a : Activation κ) (i : Interpreter κ) : Prop where
  pc_le : a.pc ≤ a.proto.code.size
  floor_eq : i.floor = a.base + a.proto.locals
  floor_le : i.floor ≤ i.stack.size

/-- A script function has its part of the stack above its base. -/
theorem Owns.base_le {a : Activation κ} {i : Interpreter κ} (h : a.Owns i) :
    a.base ≤ i.stack.size := by
  have hfloor := h.floor_eq
  have hsize := h.floor_le
  omega

/-- What work may change for good makes no difference. -/
theorem owns_lasting {a : Activation κ} {i : Interpreter κ} : a.Owns i.lasting ↔ a.Owns i :=
  ⟨fun h => ⟨h.pc_le, h.floor_eq, h.floor_le⟩, fun h => ⟨h.pc_le, h.floor_eq, h.floor_le⟩⟩

end Activation

/-- Whether a script function waits for something of its own code, and finds the stack at the height
at which it made a protected call. -/
def Await.Stands (a : Activation κ) (i : Interpreter κ) : Await κ → Prop
  | .safepoint j => j ∈ a.proto.code
  | .pcall _ top => top = i.stack.size
  | _ => True

namespace Frame

/-- What an interpreter will be once a frame on top has been taken off. -/
def unwind (i : Interpreter κ) : Frame κ τ ρ → Interpreter κ
  | .call _ => { i with depth := i.depth - 1 }
  | .script a _ => a.left i
  | .dispatch => { i with hookInstalled := true, hookAllowed := true }
  | _ => i

/-- A frame on top finds the interpreter as it left it. -/
def Stands (i : Interpreter κ) : Frame κ τ ρ → Prop
  | .call _ => 0 < i.depth
  | .script a await => a.Owns i ∧ await.Stands a i
  | .boundary top depth => top = i.stack.size ∧ depth = i.depth
  | .dispatch => i.hookInstalled = false ∧ i.hookAllowed = false
  | _ => True

end Frame

/-- What an interpreter will be once some frames have been taken off, the top one first. -/
def unwound (fs : List (Frame κ τ ρ)) (i : Interpreter κ) : Interpreter κ :=
  fs.foldl Frame.unwind i

/-- Each frame finds the interpreter as it left it, once those above it have been taken off. -/
def Laid : List (Frame κ τ ρ) → Interpreter κ → Prop
  | [], _ => True
  | f :: fs, i => f.Stands i ∧ Laid fs (f.unwind i)

section

variable {i j : Interpreter κ} {fs gs : List (Frame κ τ ρ)}

/-- Frames are taken off from the top, one part after the other. -/
theorem unwound_append : unwound (fs ++ gs) i = unwound gs (unwound fs i) :=
  List.foldl_append

/-- Two parts of the frames are laid out if the lower one finds what the upper one leaves. -/
theorem laid_append : Laid (fs ++ gs) i ↔ Laid fs i ∧ Laid gs (unwound fs i) := by
  induction fs generalizing i with
  | nil => simp [Laid, unwound]
  | cons f fs ih => simp [Laid, unwound, ih, and_assoc]

/-- What work may change for good, a frame that is taken off does not restore. -/
private theorem Frame.unwind_lasting (f : Frame κ τ ρ) :
    (f.unwind i).lasting = f.unwind i.lasting := by
  cases f <;> rfl

/-- What work may change for good, a frame does not look at. -/
private theorem Frame.stands_lasting (f : Frame κ τ ρ) : f.Stands i.lasting ↔ f.Stands i := by
  match f with
  | .script a .ready | .script a (.safepoint _) | .script a (.call _) | .script a (.pcall ..) =>
    exact and_congr Activation.owns_lasting Iff.rfl
  | .call _ | .host .. | .boundary .. | .dispatch | .pass .. => exact Iff.rfl

/-- What frames leave does not depend on what work may change for good. -/
theorem unwound_congr (fs : List (Frame κ τ ρ)) (h : i.lasting = j.lasting) :
    (unwound fs i).lasting = (unwound fs j).lasting := by
  induction fs generalizing i j with
  | nil => exact h
  | cons f fs ih =>
    apply ih
    rw [f.unwind_lasting, f.unwind_lasting, h]

/-- Frames are laid out on what lasts of an interpreter. -/
theorem laid_congr (fs : List (Frame κ τ ρ)) (h : i.lasting = j.lasting) :
    Laid fs i ↔ Laid fs j := by
  induction fs generalizing i j with
  | nil => exact Iff.rfl
  | cons f fs ih =>
    have hunwind : (f.unwind i).lasting = (f.unwind j).lasting := by
      rw [f.unwind_lasting, f.unwind_lasting, h]
    rw [Laid, Laid, ih hunwind, ← f.stands_lasting, h, f.stands_lasting]

/-- What frames leave of the stack lies untouched at its bottom. -/
theorem stack_prefix_unwound (fs : List (Frame κ τ ρ)) (i : Interpreter κ) :
    (unwound fs i).stack.toList <+: i.stack.toList := by
  induction fs generalizing i with
  | nil => exact List.prefix_refl _
  | cons f fs ih =>
    refine (ih (f.unwind i)).trans ?_
    -- only the frame of a script holds a part of the stack
    cases f with
    | script a await =>
      show (i.stack.shrink a.base).toList <+: i.stack.toList
      rw [Array.toList_shrink]
      exact List.take_prefix _ _
    | _ => exact List.prefix_refl _

/-- Where the hook is in its slot, no safepoint below has entered it. -/
theorem Laid.no_dispatch (h : Laid fs i) (hi : i.hookInstalled = true) : .dispatch ∉ fs := by
  induction fs generalizing i with
  | nil => exact List.not_mem_nil
  | cons f fs ih =>
    obtain ⟨hstands, hlaid⟩ := h
    -- the hook is put back when the handler is left, so a second handler has nothing to stand on
    have hne : .dispatch ≠ f := by
      rintro rfl
      exact absurd (hi.symm.trans hstands.1) (by decide)
    have hunwind : (f.unwind i).hookInstalled = true := by
      cases f <;> first | exact hi | rfl
    simpa [hne] using ih hlaid hunwind

end

namespace Machine

/-- An instruction that is about to be executed is one of the script function on top, and nothing
that cannot happen has happened. -/
def InOrder (m : Machine κ τ ρ) : Prop :=
  match m.control.past with
  | .execute i => ∃ a rest, m.frames = .script a .ready :: rest ∧ i ∈ a.proto.code
  | .fault _ => False
  | _ => True

/-- A machine has frames of its own above `rest`, and they will leave an interpreter like `j`. -/
def Owes (rest : List (Frame κ τ ρ)) (j : Interpreter κ) (m : Machine κ τ ρ) : Prop :=
  m.InOrder ∧ ∃ above, m.frames = above ++ rest ∧ Laid above m.interp ∧
    (unwound above m.interp).lasting = j.lasting

variable {m m' : Machine κ τ ρ} {rest : List (Frame κ τ ρ)} {i j : Interpreter κ}

/-- What is owed to a frame that waits again is owed to those below it. -/
theorem Owes.below {f : Frame κ τ ρ} (h : Owes (f :: rest) j m) (hf : f.Stands j) :
    Owes rest (f.unwind j) m := by
  obtain ⟨horder, above, hframes, hlaid, howed⟩ := h
  refine ⟨horder, above ++ [f], by simpa using hframes, ?_, ?_⟩
  · refine laid_append.mpr ⟨hlaid, (laid_congr [f] howed).mpr ⟨hf, trivial⟩⟩
  · rw [unwound_append]
    exact unwound_congr [f] howed

/-- What the frame on top is owed, where no frame is pushed. -/
theorem owes_of_frames (horder : m'.InOrder) (hframes : m'.frames = rest)
    (hinterp : m'.interp.lasting = j.lasting) : Owes rest j m' :=
  ⟨horder, [], hframes, trivial, hinterp⟩

/-- What frames below one that is pushed are owed. -/
theorem owes_of_pushed {f : Frame κ τ ρ} (horder : m'.InOrder) (hframes : m'.frames = f :: rest)
    (hstands : f.Stands m'.interp) (hinterp : (f.unwind m'.interp).lasting = j.lasting) :
    Owes rest j m' :=
  ⟨horder, [f], hframes, ⟨hstands, trivial⟩, hinterp⟩

/-! ## Scripts -/

end Machine

namespace Activation

variable {a : Activation κ} {i j k : Interpreter κ}

/-- From `i` to `j`, a script function has kept to its own part of the stack. -/
structure Within (a : Activation κ) (i j : Interpreter κ) : Prop where
  owns : a.Owns j
  left : (a.left j).lasting = (a.left i).lasting

/-- A script function that has done nothing has kept to its part. -/
theorem Owns.within (h : a.Owns i) : a.Within i i := ⟨h, rfl⟩

/-- What work may change for good is no part of the stack. -/
theorem Within.congr (h : a.Within i j) (hk : k.lasting = j.lasting) : a.Within i k := by
  have hleft : (a.left k).lasting = (a.left j).lasting := by
    show a.left k.lasting = a.left j.lasting
    rw [hk]
  have howns : a.Owns k := by
    rw [← owns_lasting, hk, owns_lasting]
    exact h.owns
  exact ⟨howns, hleft.trans h.left⟩

/-- What changes above its base is a script function's own affair, as long as its locals stay. -/
theorem Within.mapStack (h : a.Within i j) (xs : Array (Value κ)) (hsize : j.floor ≤ xs.size)
    (hshrink : xs.shrink a.base = j.stack.shrink a.base) :
    a.Within i { j with stack := xs } := by
  refine ⟨⟨h.owns.pc_le, h.owns.floor_eq, hsize⟩, ?_⟩
  rw [← h.left]
  show Interpreter.lasting { j with stack := xs.shrink a.base, floor := a.callerFloor } = _
  rw [hshrink]
  rfl

/-- A value that is pushed is above the floor. -/
theorem Within.push (h : a.Within i j) (v : Value κ) : a.Within i (j.push v) := by
  apply h.mapStack
  · have hsize := h.owns.floor_le
    rw [Array.size_push]
    omega
  · exact shrink_push _ v h.owns.base_le

/-- A value that is taken off was above the floor. -/
theorem Within.pop (h : a.Within i j) {n : Nat} (hn : j.floor + n ≤ j.stack.size) :
    a.Within i (j.pop n) := by
  have hfloor := h.owns.floor_eq
  apply h.mapStack
  · rw [Array.size_shrink]
    omega
  · exact shrink_shrink _ (by omega)

/-- A local is in the function's own part of the stack. -/
theorem Within.setLocal (h : a.Within i j) (slot : Nat) (v : Value κ) :
    a.Within i { j with stack := j.stack.setIfInBounds (a.base + slot) v } := by
  apply h.mapStack
  · rw [Array.size_setIfInBounds]
    exact h.owns.floor_le
  · exact shrink_setIfInBounds _ v (Nat.le_add_right _ _)

end Activation

namespace Machine

variable {m m' : Machine κ τ ρ} {a : Activation κ} {i : Interpreter κ}

/-- A script function that is left leaves its callers what they had. -/
theorem owes_leave (hin : a.Within i m.interp) (outcome : Outcome κ) :
    Owes m.frames (a.left i) (m.leave a outcome) :=
  owes_of_frames trivial rfl hin.left

/-- A script function that goes on keeps its callers' part as it was. -/
theorem owes_resumeScript (hin : a.Within i m.interp) :
    Owes m.frames (a.left i) (m.resumeScript a) :=
  owes_of_pushed (f := .script a .ready) trivial rfl ⟨hin.owns, trivial⟩ hin.left

/-- A script function that jumps goes on within its code. -/
theorem owes_jump (hin : a.Within i m.interp) {target : Nat}
    (htarget : target ≤ a.proto.code.size) :
    Owes m.frames (a.left i) (m.resumeScript { a with pc := target }) :=
  owes_of_pushed (f := .script { a with pc := target } .ready) trivial rfl
    ⟨⟨htarget, hin.owns.floor_eq, hin.owns.floor_le⟩, trivial⟩ hin.left

/-- A script function pushes above what its callers have. -/
theorem owes_pushAndGo (hin : a.Within i m.interp) (v : Value κ) :
    Owes m.frames (a.left i) (m.pushAndGo a v) := by
  unfold pushAndGo
  split
  · exact owes_resumeScript (hin.push v)
  · -- no room for the value
    exact owes_leave (m := m.release v) hin _

/-- A script function pushes both values above what its callers have. -/
theorem owes_pushTwoAndGo (hin : a.Within i m.interp) (v w : Value κ) :
    Owes m.frames (a.left i) (m.pushTwoAndGo a v w) := by
  unfold pushTwoAndGo
  split
  · exact owes_pushAndGo (hin.push v) w
  · -- no room for the first of the two
    exact owes_leave (m := m.releaseAll [v, w]) hin _

/-- A script function sets a local of its own, which is there. -/
theorem owes_setLocal (hin : a.Within i m.interp) {slot : Nat} (hslot : slot < a.proto.locals)
    (v : Value κ) : Owes m.frames (a.left i) (m.setLocal a slot v) := by
  unfold setLocal
  split
  next hnone =>
    -- the slot lies below the floor, and so on the stack
    have hle := Array.getElem?_eq_none_iff.mp hnone
    have hfloor := hin.owns.floor_eq
    have hsize := hin.owns.floor_le
    omega
  next => exact owes_resumeScript (hin.setLocal slot v)

end Machine

namespace Interpreter

variable {i : Interpreter κ}

/-! A script function may pop what it looks at. -/

/-- A value on top is the function's own. -/
theorem floor_of_top {v : Value κ} (h : i.top = .ok v) : i.floor + 1 ≤ i.stack.size := by
  simp only [top] at h
  split at h
  · exact nomatch h
  · omega

/-- Two values on top are the function's own. -/
theorem floor_of_topTwo {vs : Value κ × Value κ} (h : i.topTwo = .ok vs) :
    i.floor + 2 ≤ i.stack.size := by
  simp only [topTwo] at h
  split at h
  · exact nomatch h
  · omega

/-- A function and its arguments on top are the caller's own. -/
theorem floor_of_topCall {argc : Nat} {call : Value κ × List (Value κ)}
    (h : i.topCall argc = .ok call) : i.floor + (argc + 1) ≤ i.stack.size := by
  simp only [topCall] at h
  split at h
  · exact nomatch h
  · omega

end Interpreter

namespace Machine

variable {m m₁ : Machine κ τ ρ} {a : Activation κ} {i : Interpreter κ}

/-- An operation takes operands and leaves a value in the function's own part. -/
theorem owes_binary (hin : a.Within i m.interp)
    (op : Interpreter κ → Value κ → Value κ → Except Error (Value κ)) :
    Owes m.frames (a.left i) (m.binary a op) := by
  unfold binary
  split
  · exact owes_leave hin _
  next x y htop =>
    split
    · -- the operation is not one of such values
      exact owes_leave hin _
    · exact owes_pushAndGo (m := (m.popped 2).releaseAll [x, y])
        (hin.pop (Interpreter.floor_of_topTwo htop)) _

/-- A concatenation takes operands and leaves a string in the function's own part. -/
theorem owes_concat (hin : a.Within i m.interp) : Owes m.frames (a.left i) (m.concat a) := by
  -- up to the string the operands are still on the stack, and an error leaves it as it is
  unfold concat
  split
  · exact owes_leave hin _
  next x y htop =>
    split
    · exact owes_leave hin _
    · split
      · exact owes_leave hin _
      · dsimp only
        split
        next m₁ hask =>
          obtain ⟨hframes, hinterp⟩ := askStore_eq hask
          rw [← hframes]
          exact owes_leave (hinterp ▸ hin) _
        next m₁ s hask =>
          obtain ⟨hframes, hinterp⟩ := askStore_eq hask
          rw [← hframes]
          have hfloor := Interpreter.floor_of_topTwo htop
          rw [← hinterp] at hin hfloor
          exact owes_pushAndGo (m := (m₁.popped 2).releaseAll [x, y]) (hin.pop hfloor) _

/-- A script function that has popped what it calls, waits for the call. -/
private theorem owes_awaitCall (hin : a.Within i m.interp) (await : Await κ) (f : Value κ)
    (args : List (Value κ)) (hstands : await.Stands a m.interp) :
    Owes m.frames (a.left i) (m.await (.script a await) (.invoke f args)) :=
  owes_of_pushed (f := .script a await) trivial rfl ⟨hin.owns, hstands⟩ hin.left

/-- Every instruction keeps to the function's own part of the stack, and to its code. -/
theorem owes_execute (hin : a.Within i m.interp) {op : Instruction} (hop : op ∈ a.proto.code) :
    Owes m.frames (a.left i) (m.execute a op) := by
  cases op with
  | nil | true | false | int n => exact owes_pushAndGo hin _
  | str bytes =>
    simp only [execute]
    split
    next m₁ v hnew =>
      obtain ⟨hframes, hinterp⟩ := newValue_keeps hnew
      rw [← hframes]
      exact owes_pushAndGo (hinterp ▸ hin) _
    next m₁ hnew =>
      obtain ⟨hframes, hinterp⟩ := newValue_keeps hnew
      rw [← hframes]
      exact owes_leave (hinterp ▸ hin) _
  | pop =>
    simp only [execute]
    split
    · exact owes_leave hin _
    next v htop =>
      exact owes_resumeScript (m := (m.popped 1).release v)
        (hin.pop (Interpreter.floor_of_top htop))
  | dup =>
    simp only [execute]
    split
    · exact owes_leave hin _
    next v htop => exact owes_pushAndGo (m := m.retain v) hin _
  | getLocal slot =>
    simp only [execute]
    split
    next hnone =>
      -- the slot lies below the floor, and so on the stack
      have hslot := a.proto.slot_lt hop (.inl rfl)
      have hle := Array.getElem?_eq_none_iff.mp hnone
      have hfloor := hin.owns.floor_eq
      have hsize := hin.owns.floor_le
      omega
    next v hsome => exact owes_pushAndGo (m := m.retain v) hin _
  | setLocal slot =>
    simp only [execute]
    split
    · exact owes_leave hin _
    next v htop =>
      exact owes_setLocal (m := m.popped 1) (hin.pop (Interpreter.floor_of_top htop))
        (a.proto.slot_lt hop (.inr rfl)) v
  | getGlobal name => exact owes_pushAndGo (m := m.retain _) hin _
  | setGlobal name =>
    simp only [execute]
    split
    · exact owes_leave hin _
    next v htop =>
      exact owes_resumeScript (m := (m.popped 1).setGlobal name v)
        ((hin.pop (Interpreter.floor_of_top htop)).congr rfl)
  | add | sub | lt | eq => simpa only [execute] using owes_binary hin _
  | not =>
    simp only [execute]
    split
    · exact owes_leave hin _
    next v htop =>
      exact owes_pushAndGo (m := (m.popped 1).release v)
        (hin.pop (Interpreter.floor_of_top htop)) _
  | concat => exact owes_concat hin
  | jump target => exact owes_jump hin (a.proto.target_le hop (.inl rfl))
  | jumpIfFalse target =>
    simp only [execute]
    split
    · exact owes_leave hin _
    next v htop =>
      have hpop := hin.pop (Interpreter.floor_of_top htop)
      split
      · exact owes_resumeScript (m := (m.popped 1).release v) hpop
      · exact owes_jump (m := (m.popped 1).release v) hpop (a.proto.target_le hop (.inr rfl))
  | call argc =>
    simp only [execute]
    split
    · -- fewer values than arguments
      exact owes_leave hin _
    next f args htop =>
      exact owes_awaitCall (m := m.popped (argc + 1))
        (hin.pop (Interpreter.floor_of_topCall htop)) (.call f) f args trivial
  | pcall argc =>
    simp only [execute]
    split
    · exact owes_leave hin _
    next f args htop =>
      exact owes_awaitCall (m := m.popped (argc + 1))
        (hin.pop (Interpreter.floor_of_topCall htop)) (.pcall f _) f args rfl
  | ret count =>
    cases count with
    | zero => exact owes_leave hin _
    | succ n =>
      simp only [execute]
      split
      · exact owes_leave hin _
      next v htop =>
        exact owes_leave (m := m.popped 1) (hin.pop (Interpreter.floor_of_top htop)) _

/-- A protected call that has failed finds nothing above the height at which it was made. -/
theorem owes_afterPcall (hin : a.Within i m.interp) {top : Nat} (htop : top = m.interp.stack.size)
    (outcome : Outcome κ) : Owes m.frames (a.left i) (m.afterPcall a top outcome) := by
  unfold afterPcall
  split
  next results => exact owes_pushTwoAndGo (m := m.releaseAll results.tail) hin _ _
  next e =>
    split
    · have hcut : a.Within i (m.truncate top).interp := by
        -- the stack is cut off where the call was made, which is within the function's own part
        apply hin.mapStack
        · rw [htop, Array.size_shrink, Nat.min_self]
          exact hin.owns.floor_le
        · rw [htop]
          exact shrink_shrink _ hin.owns.base_le
      dsimp only
      -- the error is caught, if there is memory for its message
      split
      next m₁ v hnew =>
        obtain ⟨hframes, hinterp⟩ := newValue_keeps hnew
        rw [show m.frames = m₁.frames from hframes.symm]
        exact owes_pushTwoAndGo (hinterp ▸ hcut) _ _
      next m₁ hnew =>
        obtain ⟨hframes, hinterp⟩ := newValue_keeps hnew
        rw [show m.frames = m₁.frames from hframes.symm]
        exact owes_leave (hinterp ▸ hcut) _
    · exact owes_leave hin _

/-- Before an instruction comes its safepoint, which is one of the function's own code. -/
theorem owes_fetch (hin : a.Within i m.interp) : Owes m.frames (a.left i) (m.fetch a) := by
  unfold fetch
  split
  · -- past the last instruction
    exact owes_leave hin _
  next op hop =>
    obtain ⟨hpc, -⟩ := Array.getElem?_eq_some_iff.mp hop
    exact owes_of_pushed (f := .script { a with pc := a.pc + 1 } (.safepoint op)) trivial rfl
      ⟨⟨hpc, hin.owns.floor_eq, hin.owns.floor_le⟩, Array.mem_of_getElem? hop⟩ hin.left

/-- Whatever a script waited for leaves its part of the stack as it was. -/
theorem owes_deliverScript (hin : a.Within i m.interp) {await : Await κ}
    (hstands : await.Stands a m.interp) (hwaits : await ≠ .ready) (outcome : Outcome κ) :
    Owes m.frames (a.left i) (m.deliverScript a await outcome) := by
  unfold deliverScript
  split
  · exact absurd rfl hwaits
  next op vs =>
    -- the count safepoint has passed
    exact owes_of_pushed (f := .script a .ready) ⟨a, m.frames, rfl, hstands⟩ rfl
      ⟨hin.owns, trivial⟩ hin.left
  · exact owes_leave hin _
  next f results => exact owes_pushAndGo (m := (m.releaseAll results.tail).release f) hin _
  next f e => exact owes_leave (m := m.release f) hin _
  next f top => exact owes_afterPcall hin hstands _

/-! ## Calls -/

/-- A call that begins is one more on top. -/
theorem owes_invoke (m : Machine κ τ ρ) (f : Value κ) (args : List (Value κ)) :
    Owes m.frames m.interp (m.invoke f args) := by
  unfold invoke
  split
  next f =>
    split
    · -- too deep
      exact owes_of_frames trivial rfl rfl
    · exact owes_of_pushed (f := .call (.entering f args)) trivial rfl (Nat.succ_pos _) rfl
  · exact owes_of_frames trivial rfl rfl

/-- Arguments that fill the parameters are as many as these. -/
private theorem length_fill (params : Nat) (args : List (Value κ)) :
    (fill params args).length = params := by
  simp only [fill, List.length_take, List.length_append, List.length_replicate]
  omega

/-- A function that is entered lays its locals out on the stack. -/
theorem size_append_slots (stack : Array (Value κ)) (proto : Prototype) (args : List (Value κ)) :
    (stack ++ (fill proto.params args ++
      List.replicate (proto.locals - proto.params) Value.nil)).size =
        stack.size + proto.locals := by
  have hparams := proto.params_le
  rw [← Array.length_toList, Array.toList_appendList, List.length_append, List.length_append,
    length_fill, List.length_replicate, Array.length_toList]
  omega

/-- A function is entered above what its caller has. -/
theorem owes_enter (code : Meaning κ τ ρ) (m : Machine κ τ ρ) (f : Func κ)
    (args : List (Value κ)) : Owes m.frames m.interp (m.enter code f args) := by
  cases f with
  | native _ _ c => exact owes_of_frames trivial rfl rfl
  | script id proto =>
    simp only [enter]
    split
    · -- no room for its locals
      exact owes_of_frames trivial rfl rfl
    · have hsize := size_append_slots m.interp.stack proto args
      -- of the slots only their number matters here
      generalize fill proto.params args ++ _ = slots at hsize ⊢
      have hshrink : (m.interp.stack ++ slots).shrink m.interp.stack.size = m.interp.stack := by
        apply Array.ext'
        simp
      refine owes_of_pushed (f := .script ⟨proto, m.interp.stack.size, 0, m.interp.floor,
        args.drop proto.params⟩ .ready) trivial rfl
        ⟨⟨Nat.zero_le _, rfl, Nat.le_of_eq hsize.symm⟩, trivial⟩ ?_
      show Interpreter.lasting
        { m.interp with stack := (m.interp.stack ++ slots).shrink m.interp.stack.size } = _
      rw [hshrink]

/-- A call that is over was in progress, and is so no more. -/
theorem owes_exitCall (m : Machine κ τ ρ) (hdepth : 0 < m.interp.depth) (outcome : Outcome κ) :
    Owes m.frames { m.interp with depth := m.interp.depth - 1 } (m.exitCall outcome) := by
  unfold exitCall
  split
  next h => omega
  next depth h =>
    rw [h]
    exact owes_of_frames trivial rfl rfl

/-- A call goes from stage to stage, or gives back the depth that it took. -/
theorem owes_deliverCall (code : Meaning κ τ ρ) (m : Machine κ τ ρ)
    (hdepth : 0 < m.interp.depth) (stage : Stage κ) (outcome : Outcome κ) :
    Owes m.frames { m.interp with depth := m.interp.depth - 1 }
      (m.deliverCall code stage outcome) := by
  unfold deliverCall
  split
  next f args vs =>
    -- past its call safepoint, the function is entered
    have h := owes_enter code { m with frames := .call .body :: m.frames } f args
    exact h.below hdepth
  next f args e => exact owes_exitCall (m.releaseAll args) hdepth _
  next results =>
    exact owes_of_pushed (f := .call (.leaving results)) trivial rfl hdepth rfl
  next e => exact owes_exitCall m hdepth _
  next results vs => exact owes_exitCall m hdepth _
  next results e => exact owes_exitCall (m.releaseAll results) hdepth _

/-! ## Safepoints -/

/-- A safepoint passes, or takes the hook out in a way that its frame puts right again. -/
theorem owes_poll (hcount : m.Counting) (event : HookEvent) :
    Owes m.frames m.interp (m.poll event) := by
  have entering {n : Nat} (hn : n = 1) (event : HookEvent) : Owes m.frames m.interp
      (dispatch { m with interp := { m.interp with countdown := n } } event) := by
    have hlasting : Interpreter.lasting { m.interp with countdown := n } = m.interp.lasting := by
      rw [hn, ← hcount.countdown]
    unfold dispatch
    split
    · exact owes_of_frames trivial rfl hlasting
    next hallowed =>
      split
      · exact owes_of_frames trivial rfl hlasting
      next hinstalled =>
        -- the hook was in its slot and may have been entered, so that is how it is left
        have hallowed : m.interp.hookAllowed = true := by simpa using hallowed
        have hinstalled : m.interp.hookInstalled = true := by simpa using hinstalled
        refine owes_of_pushed (f := .dispatch) trivial rfl ⟨rfl, rfl⟩ ?_
        rw [← hlasting]
        simp [Frame.unwind, Interpreter.lasting, await, hallowed, hinstalled]
  unfold poll
  dsimp only
  split
  · exact owes_of_frames trivial rfl rfl
  · split
    · exact owes_of_frames trivial rfl rfl
    · cases event with
      | count =>
        dsimp only
        rw [if_neg (by simp [hcount.countdown])]
        exact entering hcount.threshold .count
      | call => exact entering hcount.countdown .call
      | ret => exact entering hcount.countdown .ret

/-- The handler is a matter between the mailbox and what it does next. -/
theorem owes_handle (m : Machine κ τ ρ) (phase : HandlerPhase) (info : HookInfo) :
    Owes m.frames m.interp (m.handle phase info) := by
  cases phase with
  | enter | disarm | readFlag => exact owes_of_frames trivial rfl rfl
  | readMessage =>
    simp only [handle]
    split
    · exact owes_of_frames trivial rfl rfl
    · exact owes_of_frames trivial rfl rfl
  | acquire =>
    simp only [handle]
    split
    · exact owes_of_frames trivial rfl rfl
    · exact owes_of_frames trivial rfl rfl

/-- A pass runs its actions above whoever made it. -/
theorem owes_drain (code : Meaning κ τ ρ) (m : Machine κ τ ρ) (source : Source) (ran : Nat) :
    Owes m.frames m.interp (m.drain code source ran) := by
  cases source with
  | mailbox event =>
    simp only [drain]
    split
    · exact owes_of_pushed (f := .pass (.mailbox event) ran) trivial rfl trivial rfl
    · exact owes_of_frames trivial rfl rfl
  | queue id =>
    simp only [drain]
    split
    · exact owes_of_pushed (f := .pass (.queue id) ran) trivial rfl trivial rfl
    · exact owes_of_frames trivial rfl rfl

/-- To look at the outcome of an action is done in place. -/
theorem owes_settle (m : Machine κ τ ρ) (source : Source) (ran : Nat) (outcome : Outcome κ) :
    Owes m.frames m.interp (m.settle source ran outcome) := by
  unfold settle
  split
  · exact owes_of_frames trivial rfl rfl
  · split
    · exact owes_of_frames trivial rfl rfl
    · exact owes_of_frames trivial rfl rfl

/-- To look at what is left in the queue is done in place. -/
theorem owes_measure (m : Machine κ τ ρ) (e : Error) : Owes m.frames m.interp (m.measure e) := by
  unfold measure
  dsimp only
  split
  · exact owes_of_frames trivial rfl rfl
  · exact owes_of_frames trivial rfl rfl

/-! ## Host code -/

/-- Requests are served in place, or above the host code that made them. -/
theorem owes_serve (m : Machine κ τ ρ) (held : Held) (q : Query κ)
    (next : Reply κ → Program κ τ ρ) : Owes m.frames m.interp (m.serve held q next) := by
  have string (bytes : Bytes) : Owes m.frames m.interp (serve.string m held next bytes) := by
    unfold serve.string
    split
    next m₁ v hnew =>
      obtain ⟨hframes, hinterp⟩ := newValue_keeps hnew
      exact owes_of_frames trivial hframes (congrArg _ hinterp)
    next m₁ hnew =>
      obtain ⟨hframes, hinterp⟩ := newValue_keeps hnew
      exact owes_of_frames trivial hframes (congrArg _ hinterp)
  cases q with
  | newBytes bytes => exact string bytes
  | newText text => exact string _
  | copy v =>
    simp only [serve]
    split
    · split
      · exact owes_of_frames trivial rfl rfl
      · exact owes_of_frames trivial rfl rfl
    · exact owes_of_frames trivial rfl rfl
  | release | getGlobal | setGlobal | load | register | setEncoding | facts =>
    exact owes_of_frames trivial rfl rfl
  | call f args => exact owes_of_pushed (f := .host _ next) trivial rfl trivial rfl
  | pcall f args =>
    -- the boundary remembers the height and the depth at which it is set up
    exact ⟨trivial, [.boundary m.interp.stack.size m.interp.depth, .host _ next], rfl,
      ⟨⟨rfl, rfl⟩, trivial, trivial⟩, rfl⟩
  | post call => exact owes_of_pushed (f := .host held next) trivial rfl trivial rfl
  | drain queue => exact owes_of_pushed (f := .host held next) trivial rfl trivial rfl

/-- Host code that ends or asks leaves what is below as it was. -/
theorem owes_runProgram (m : Machine κ τ ρ) (held : Held) (p : Program κ τ ρ) :
    Owes m.frames m.interp (m.runProgram held p) := by
  unfold runProgram
  split
  · exact owes_of_frames trivial rfl rfl
  · exact owes_of_frames trivial rfl rfl
  · exact owes_serve m held _ _
  · exact owes_of_frames trivial rfl rfl

/-- A call through a handle is between host code and a mailbox. -/
theorem owes_post (m : Machine κ τ ρ) (phase : HostPhase κ) :
    Owes m.frames m.interp (m.post phase) := by
  unfold post
  split
  · exact owes_of_frames trivial rfl rfl
  · exact owes_of_frames trivial rfl rfl
  · obtain ⟨g, hg⟩ := notes_eq_onGround { m with mailbox := (phase.step m.mailbox).1 }
      (phase.step m.mailbox).2.2
    dsimp only
    rw [hg]
    split
    · exact owes_of_frames trivial rfl rfl
    · exact owes_of_frames trivial rfl rfl

/-! ## Outcomes -/

/-- An outcome finds the frame on top waiting for it, and takes it off. -/
theorem owes_deliver (code : Meaning κ τ ρ) {outcome : Outcome κ} (hfit : m.Fitting)
    (hc : m.control = .deliver outcome) (hlaid : Laid m.frames m.interp) :
    Owes (m.frames.drop 1) (unwound (m.frames.take 1) m.interp) (m.deliver code outcome) := by
  unfold deliver
  split
  next hf =>
    rw [hf]
    exact owes_of_frames trivial hf rfl
  next frame rest hf =>
    rw [hf] at hlaid ⊢
    -- the frame on top finds the interpreter as it left it
    obtain ⟨hstands, -⟩ := hlaid
    dsimp only
    split
    next stage => exact owes_deliverCall code { m with frames := rest } hstands stage outcome
    next a await =>
      exact owes_deliverScript (m := { m with frames := rest }) hstands.1.within hstands.2
        (hfit.await_ne_ready hc hf) _
    next held next =>
      split
      · exact owes_of_frames trivial rfl rfl
      · exact owes_of_frames trivial rfl rfl
    next top depth =>
      obtain ⟨htop, hdepth⟩ : top = m.interp.stack.size ∧ depth = m.interp.depth := hstands
      rw [if_neg (by simp [hdepth])]
      split
      · exact owes_of_frames trivial rfl rfl
      · -- nothing is above the height at which the call was made
        refine owes_of_frames trivial rfl ?_
        simp [truncate, note, mapStore, releaseAll, raise, goto, htop, unwound, Frame.unwind]
    · exact owes_of_frames trivial rfl rfl
    next source ran =>
      cases outcome with
      | ok vs => cases source <;> exact owes_of_frames trivial rfl rfl
      | error e => cases source <;> exact owes_of_frames trivial rfl rfl

/-! ## One step -/

/-- A machine that stays where it is owes nothing to its frames. -/
private theorem owes_self (horder : m.InOrder) : Owes m.frames m.interp m :=
  owes_of_frames horder rfl rfl

/-- A check of a syncpoint leaves everything else alone. -/
private theorem owes_checking (horder : m.InOrder) (point : TestPoint) (phase : Syncpoint.Checking)
    {next : Control κ τ ρ} (hpast : m.control.past = next.past) :
    Owes m.frames m.interp (m.checking point phase next) := by
  -- what is done behind the syncpoint is in order as it was before
  have horder' (points : Syncpoints) {c : Control κ τ ρ} (hc : c.past = next.past) :
      InOrder { m with points, control := c } := by
    unfold InOrder at horder ⊢
    rw [hpast, ← hc] at horder
    exact horder
  unfold checking
  dsimp only
  split
  all_goals exact owes_of_frames (horder' _ rfl) rfl rfl

end Machine

/-- Where a script function is at work, it is on top. -/
theorem Waits.of_script {fs : List (Frame κ τ ρ)} (h : Waits .script fs) :
    ∃ a rest, fs = .script a .ready :: rest := by
  match fs, h with
  | [], h => exact nomatch h
  | .script a .ready :: rest, _ => exact ⟨a, rest, rfl⟩

/-- Where a request is waited for, host code is on top. -/
theorem Waits.of_reply {fs : List (Frame κ τ ρ)} (h : Waits .reply fs) :
    ∃ held next rest, fs = .host held next :: rest := by
  match fs, h with
  | [], h => exact nomatch h
  | .host held next :: rest, _ => exact ⟨held, next, rest, rfl⟩

/-- How many frames are taken off by what is done next. -/
def Control.takes : Control κ τ ρ → Nat
  | .fetch | .execute _ | .reply _ | .deliver _ => 1
  | _ => 0

namespace Machine

variable {m : Machine κ τ ρ}

/-- One step owes the frames that it leaves alone what they were owed. -/
theorem owes_step (code : Meaning κ τ ρ) (hcount : m.Counting) (hfit : m.Fitting)
    (horder : m.InOrder) (hlaid : Laid m.frames m.interp) :
    Owes (m.frames.drop m.control.takes) (unwound (m.frames.take m.control.takes) m.interp)
      (m.step code) := by
  -- which frame a step takes off, and what it then owes to those below, is told by what is done
  -- next
  cases hc : m.control <;> simp only [step, hc, Control.takes]
  case invoke f args => exact owes_invoke m f args
  case poll event => exact owes_poll hcount event
  case handle phase info => exact owes_handle m phase info
  case drain source ran => exact owes_drain code m source ran
  case settle source ran outcome => exact owes_settle m source ran outcome
  case measure e => exact owes_measure m e
  case rearm | tell | unmark => exact owes_of_frames trivial rfl rfl
  case fetch =>
    obtain ⟨a, rest, hf⟩ := (hfit.waits hc (by simp [Control.isFor])).of_script
    rw [hf] at hlaid ⊢
    exact owes_fetch (m := { m with frames := rest }) hlaid.1.1.within
  case execute op =>
    have hop := horder
    simp only [InOrder, hc, Control.past] at hop
    obtain ⟨a, rest, hf, hop⟩ := hop
    rw [hf] at hlaid ⊢
    exact owes_execute (m := { m with frames := rest, control := .execute op })
      hlaid.1.1.within hop
  case run held p => exact owes_runProgram m held p
  case post phase => exact owes_post m phase
  case reply r =>
    obtain ⟨held, next, rest, hf⟩ := (hfit.waits hc (by simp [Control.isFor])).of_reply
    unfold reply
    rw [hf]
    exact owes_of_frames trivial rfl rfl
  case deliver outcome => exact owes_deliver code hfit hc hlaid
  -- a thread at a syncpoint only looks at the syncpoint
  case check | arrive | paused => exact owes_checking horder _ _ (by rw [hc]; rfl)
  -- nothing moves by itself from here on
  case finished | waiting | fault => exact owes_self horder

/-- A machine that owes its frames what they were owed has them laid. -/
theorem Owes.laid {rest : List (Frame κ τ ρ)} {j : Interpreter κ} (h : Owes rest j m)
    (hrest : Laid rest j) : Laid m.frames m.interp := by
  obtain ⟨-, above, hframes, hlaid, howed⟩ := h
  rw [hframes]
  exact laid_append.mpr ⟨hlaid, (laid_congr rest howed).mpr hrest⟩

/-- Frames stay laid, and nothing that cannot happen happens. -/
theorem laid_step (code : Meaning κ τ ρ) (hcount : m.Counting) (hfit : m.Fitting)
    (horder : m.InOrder) (hlaid : Laid m.frames m.interp) :
    (m.step code).InOrder ∧ Laid (m.step code).frames (m.step code).interp := by
  have howes := owes_step code hcount hfit horder hlaid
  refine ⟨howes.1, howes.laid ?_⟩
  rw [← List.take_append_drop m.control.takes m.frames] at hlaid
  exact (laid_append.mp hlaid).2

end Machine

end Safepoint
