import Safepoint.Proofs.Machine.Layout
import Safepoint.Proofs.Memory.Values
import Safepoint.Proofs.System.Steady

/-!
# What a machine holds

The holdings of an interpreter at work: those of its stack and its globals, those of its frames, and
those of what it is about to do. `Covers s₀ m G` says that the store is in order, as far as the
interpreter, the frames and `G` hold it; `Balances s₀ m R` counts what the machine is about to do as
well. There is one lemma for each kind of work, which says that whatever it takes from one place it
puts into another, or lets go of.

## Key results

- `Machine.balances_step`: a step of a steady machine keeps the store in order
-/

namespace Safepoint

variable {κ τ ρ : Type}

/-! ## Holdings -/

/-- What the outcome of a call holds. -/
def outcomeHoldings : Outcome κ → Multiset Holding
  | .ok vs => holdingsOf vs
  | .error _ => 0

/-- What a call holds. -/
def Stage.holdings : Stage κ → Multiset Holding
  | entering _ args => holdingsOf args
  | body => 0
  | leaving results => holdingsOf results

/-- What a script function holds of what it waits for. -/
def Await.holdings : Await κ → Multiset Holding
  | call f | pcall f _ => f.holdings
  | ready | safepoint _ => 0

/-- What a frame holds. -/
def Frame.holdings : Frame κ τ ρ → Multiset Holding
  | call stage => stage.holdings
  | script a await => holdingsOf a.spare + await.holdings
  | host held _ => held.holdings
  | boundary .. | dispatch | pass .. => 0

/-- What several frames hold. -/
def frameHoldings (fs : List (Frame κ τ ρ)) : Multiset Holding :=
  (fs.map Frame.holdings).sum

@[simp] theorem frameHoldings_nil : frameHoldings ([] : List (Frame κ τ ρ)) = 0 := rfl

/-- Frames hold what the top one holds and what those below it hold. -/
@[simp] theorem frameHoldings_cons {f : Frame κ τ ρ} {fs : List (Frame κ τ ρ)} :
    frameHoldings (f :: fs) = f.holdings + frameHoldings fs := by
  simp [frameHoldings]

/-- What is held by what is done next. -/
def Control.holdings : Control κ τ ρ → Multiset Holding
  | invoke _ args => holdingsOf args
  | unmark outcome | deliver outcome | finished outcome => outcomeHoldings outcome
  | run held _ => held.holdings
  | reply r => holdingsOf r.holds
  | waiting _ given held _ => holdingsOf given + held.holdings
  | check _ c | arrive _ c | paused _ c => c.holdings
  | _ => 0

namespace Machine

/-- The store has come from `s₀` and is in order, as far as the interpreter, the frames and `G` hold
it. -/
structure Covers (s₀ : Store) (m : Machine κ τ ρ) (G : Multiset Holding) : Prop where
  distinct : m.interp.globals.Distinct
  keeps : s₀.Keeps m.ground.store (m.interp.holdings + frameHoldings m.frames + G)

/-- The store is in order, as far as the machine and `R` hold it. -/
def Balances (s₀ : Store) (m : Machine κ τ ρ) (R : Multiset Holding) : Prop :=
  Covers s₀ m (m.control.holdings + R)

variable {s₀ : Store} {m m' m₁ : Machine κ τ ρ} {G H R X Y : Multiset Holding} {a : Activation κ}
  {v : Value κ} {vs : List (Value κ)}

/-- What is held apart may be counted in any order. -/
theorem Covers.of_eq (h : Covers s₀ m G) (hG : G = H) : Covers s₀ m H := hG ▸ h

/-- Two machines hold the same in their interpreters, and work on the same store. -/
structure Alike (m m' : Machine κ τ ρ) : Prop where
  globals : m'.interp.globals = m.interp.globals
  holdings : m'.interp.holdings = m.interp.holdings
  store : m'.ground.store = m.ground.store

theorem Covers.congr (h : Covers s₀ m G) (ha : Alike m m') (hframes : m'.frames = m.frames) :
    Covers s₀ m' G where
  distinct := by rw [ha.globals]; exact h.distinct
  keeps := by rw [ha.holdings, hframes, ha.store]; exact h.keeps

/-- What the machine is about to do takes over what was held apart. -/
theorem balances_of_frames (h : Covers s₀ m G) (ha : Alike m m') (hframes : m'.frames = m.frames)
    (hG : G = m'.control.holdings + R) : Balances s₀ m' R :=
  (h.of_eq hG).congr ha hframes

/-- A frame that is pushed takes over what it holds. -/
theorem Covers.pushed {f : Frame κ τ ρ} (h : Covers s₀ m G) (ha : Alike m m')
    (hframes : m'.frames = f :: m.frames) (hG : G = f.holdings + H) : Covers s₀ m' H where
  distinct := by rw [ha.globals]; exact h.distinct
  keeps := by
    -- the frame takes over its part, and the total is what it was
    have heq : m'.interp.holdings + frameHoldings m'.frames + H =
        m.interp.holdings + frameHoldings m.frames + G := by
      rw [ha.holdings, hframes, frameHoldings_cons, hG]
      abel
    rw [heq, ha.store]
    exact h.keeps

/-- A frame that is pushed, and what the machine is about to do, take over what was held apart. -/
theorem balances_of_pushed {f : Frame κ τ ρ} (h : Covers s₀ m G) (ha : Alike m m')
    (hframes : m'.frames = f :: m.frames) (hG : G = f.holdings + (m'.control.holdings + R)) :
    Balances s₀ m' R :=
  h.pushed ha hframes hG

/-- A frame that is taken off gives up what it holds. -/
theorem Covers.taken {f : Frame κ τ ρ} (h : Covers s₀ m G) (ha : Alike m m')
    (hf : m.frames = f :: m'.frames) (hG : f.holdings + G = H) : Covers s₀ m' H where
  distinct := by rw [ha.globals]; exact h.distinct
  keeps := by
    -- the frame hands its part on, and the total is what it was
    have heq : m'.interp.holdings + frameHoldings m'.frames + H =
        m.interp.holdings + frameHoldings m.frames + G := by
      rw [ha.holdings, hf, frameHoldings_cons, ← hG]
      abel
    rw [heq, ha.store]
    exact h.keeps

/-! ## The store -/

/-- What is done to the store is done to what the machine covers. -/
theorem Covers.mapStore (h : Covers s₀ m (X + G)) {f : Store → Store}
    (hf : ∀ R, s₀.Keeps m.ground.store (X + R) → s₀.Keeps (f m.ground.store) (Y + R)) :
    Covers s₀ (m.mapStore f) (Y + G) where
  distinct := h.distinct
  keeps := by
    have hkeeps := h.keeps
    rw [add_left_comm] at hkeeps ⊢
    exact hf _ hkeeps

/-- A value that was held apart is let go of. -/
theorem Covers.release (h : Covers s₀ m (v.holdings + G)) : Covers s₀ (m.release v) G := by
  have hreleased := h.mapStore (Y := 0) (f := fun s => s.releaseValue v) fun R hR => by
    rw [zero_add]
    exact hR.releaseValue
  exact hreleased.of_eq (zero_add G)

/-- Values that were held apart are let go of. -/
theorem Covers.releaseAll (h : Covers s₀ m (holdingsOf vs + G)) :
    Covers s₀ (m.releaseAll vs) G := by
  have hreleased := h.mapStore (Y := 0) (f := fun s => s.releaseAll vs) fun R hR => by
    rw [zero_add]
    exact hR.releaseAll
  exact hreleased.of_eq (zero_add G)

/-- What host code held apart is let go of. -/
theorem Covers.letGo {held : Held} (h : Covers s₀ m (held.holdings + G)) :
    Covers s₀ (m.letGo held) G := by
  have hreleased := h.mapStore (Y := 0) (f := fun s => held.foldl Store.release s) fun R hR => by
    rw [zero_add]
    exact hR.letGo
  exact hreleased.of_eq (zero_add G)

/-- A notice holds nothing. -/
theorem Covers.note (h : Covers s₀ m G) (n : Notice) : Covers s₀ (m.note n) G :=
  ⟨h.distinct, h.keeps.note n⟩

/-- Notices hold nothing. -/
theorem Covers.notes (h : Covers s₀ m G) (notices : List Notice) :
    Covers s₀ (notices.foldl Machine.note m) G := by
  induction notices generalizing m with
  | nil => exact h
  | cons n rest ih => exact ih (h.note n)

/-- One hold more on a value that something holds. -/
theorem Covers.retain (h : Covers s₀ m G)
    (hle : v.holdings ≤ m.interp.holdings + frameHoldings m.frames + G) :
    Covers s₀ (m.retain v) (v.holdings + G) where
  distinct := h.distinct
  keeps := by
    rw [add_left_comm]
    exact h.keeps.retainValue hle

/-- One hold more on a value of the interpreter. -/
theorem Covers.retain_interp (h : Covers s₀ m G) (hle : v.holdings ≤ m.interp.holdings) :
    Covers s₀ (m.retain v) (v.holdings + G) :=
  h.retain (hle.trans ((Multiset.le_add_right _ _).trans (Multiset.le_add_right _ _)))

/-- A new value is held apart. -/
theorem Covers.newValue (h : Covers s₀ m G) {bytes : Bytes}
    (hnew : m.newValue bytes = (m₁, some v)) : Covers s₀ m₁ (v.holdings + G) := by
  simp only [Machine.newValue, askStore] at hnew
  obtain ⟨rfl, hv⟩ := Prod.mk.inj hnew
  refine ⟨h.distinct, ?_⟩
  rw [add_left_comm]
  exact h.keeps.newValue (Prod.ext rfl hv)

/-- A value that was refused is held by nobody. -/
theorem Covers.newValue_refused (h : Covers s₀ m G) {bytes : Bytes}
    (hnew : m.newValue bytes = (m₁, none)) : Covers s₀ m₁ G := by
  simp only [Machine.newValue, askStore] at hnew
  obtain ⟨rfl, hv⟩ := Prod.mk.inj hnew
  exact ⟨h.distinct, h.keeps.newValue_refused (Prod.ext rfl hv)⟩

/-- A joint string is held apart. -/
theorem Covers.concat (h : Covers s₀ m G) {k : Nat} {xs ys : Bytes} {s : Str}
    (hask : (m.askStore fun s => s.concat k xs ys) = (m₁, some s)) :
    Covers s₀ m₁ ((Value.str s : Value κ).holdings + G) := by
  simp only [askStore] at hask
  obtain ⟨rfl, hs⟩ := Prod.mk.inj hask
  refine ⟨h.distinct, ?_⟩
  rw [add_left_comm]
  exact (h.keeps.concat (Prod.ext rfl hs)).1

/-- A joint string that was refused is held by nobody. -/
theorem Covers.concat_refused (h : Covers s₀ m G) {k : Nat} {xs ys : Bytes}
    (hask : (m.askStore fun s => s.concat k xs ys) = (m₁, none)) : Covers s₀ m₁ G := by
  simp only [askStore] at hask
  obtain ⟨rfl, hs⟩ := Prod.mk.inj hask
  exact ⟨h.distinct, h.keeps.concat_refused (Prod.ext rfl hs)⟩

/-! ## The stack and the globals -/

/-- What the interpreter takes over from elsewhere, and gives up to be held elsewhere. -/
theorem Covers.mapInterp (h : Covers s₀ m (X + G)) {i : Interpreter κ}
    (hdistinct : i.globals.Distinct) (hi : i.holdings + Y = m.interp.holdings + X) :
    Covers s₀ { m with interp := i } (Y + G) where
  distinct := hdistinct
  keeps := by
    -- what the interpreter holds and what is held apart may change, but not their sum
    have heq : i.holdings + frameHoldings m.frames + (Y + G) =
        m.interp.holdings + frameHoldings m.frames + (X + G) := by
      rw [add_right_comm, ← add_assoc, hi]
      abel
    show s₀.Keeps m.ground.store (i.holdings + frameHoldings m.frames + (Y + G))
    rw [heq]
    exact h.keeps

/-- A value that was held apart is taken over by the stack. -/
theorem Covers.push (h : Covers s₀ m (v.holdings + G)) :
    Covers s₀ { m with interp := m.interp.push v } G := by
  have hpushed := h.mapInterp (i := m.interp.push v) (Y := 0) h.distinct (by
    rw [Interpreter.holdings_push, add_zero, add_comm])
  exact hpushed.of_eq (zero_add G)

/-- What is popped is held apart. -/
theorem Covers.popped (h : Covers s₀ m G) {n : Nat}
    (hpop : m.interp.holdings = X + (m.interp.pop n).holdings) :
    Covers s₀ (m.popped n) (X + G) :=
  (h.of_eq (zero_add G).symm).mapInterp h.distinct (by rw [hpop, add_zero, add_comm])

/-- A stack that is cut off lets go of what was above. -/
theorem Covers.truncate (h : Covers s₀ m G) (height : Nat) : Covers s₀ (m.truncate height) G := by
  apply Covers.releaseAll
  refine (h.of_eq (zero_add G).symm).mapInterp h.distinct ?_
  have hdropped : (m.interp.stack.extract height m.interp.stack.size).toList =
      m.interp.stack.toList.drop height := by
    simp
  rw [hdropped]
  simp only [Interpreter.holdings, Array.toList_shrink]
  -- what is left below and what was above made up the stack
  rw [← holdingsOf_take_add_drop height m.interp.stack.toList]
  abel

/-- A value that was held apart is taken over by the globals, which let go of the one before. -/
theorem Covers.setGlobal (h : Covers s₀ m (v.holdings + G)) (name : String) :
    Covers s₀ (m.setGlobal name v) G := by
  apply Covers.release
  refine h.mapInterp (h.distinct.set name v) ?_
  have hset := Globals.holdings_set h.distinct name v
  simp only [Interpreter.holdings]
  rw [add_assoc, add_assoc, add_assoc, add_assoc, hset]
  abel

/-! ## Scripts -/

/-- A function that is left lets go of the arguments that it had no use for. -/
theorem balances_leave {outcome : Outcome κ}
    (h : Covers s₀ m (holdingsOf a.spare + (outcomeHoldings outcome + R))) :
    Balances s₀ (m.leave a outcome) R := by
  have hfloor : Covers s₀ { m with interp := { m.interp with floor := a.callerFloor } }
      (holdingsOf a.spare + (outcomeHoldings outcome + R)) := h.congr ⟨rfl, rfl, rfl⟩ rfl
  exact balances_of_frames (hfloor.truncate a.base).releaseAll ⟨rfl, rfl, rfl⟩ rfl rfl

/-- A failure brings nothing. -/
theorem balances_leave_error {e : Error} (h : Covers s₀ m (holdingsOf a.spare + R)) :
    Balances s₀ (m.leave a (.error e)) R :=
  balances_leave (h.of_eq (by rw [outcomeHoldings, zero_add]))

/-- A script function that goes on keeps the arguments that it had no use for. -/
theorem balances_resumeScript (h : Covers s₀ m (holdingsOf a.spare + R)) :
    Balances s₀ (m.resumeScript a) R := by
  refine balances_of_pushed (f := .script a .ready) h ⟨rfl, rfl, rfl⟩ rfl ?_
  simp [resumeScript, await, Frame.holdings, Await.holdings, Control.holdings]

/-- The value that was made goes onto the stack, or is let go of if there is no room. -/
theorem balances_pushAndGo (h : Covers s₀ m (v.holdings + (holdingsOf a.spare + R))) :
    Balances s₀ (m.pushAndGo a v) R := by
  unfold pushAndGo
  split
  · exact balances_resumeScript h.push
  · -- no room for the value
    exact balances_leave_error h.release

/-- Both values go onto the stack, or those for which there is no room are let go of. -/
theorem balances_pushTwoAndGo {w : Value κ}
    (h : Covers s₀ m (v.holdings + (w.holdings + (holdingsOf a.spare + R)))) :
    Balances s₀ (m.pushTwoAndGo a v w) R := by
  unfold pushTwoAndGo
  split
  · exact balances_pushAndGo h.push
  · -- no room for the first of the two
    apply balances_leave_error
    apply Covers.releaseAll
    exact h.of_eq (by simp [add_assoc])

/-- A local takes the value over and lets go of the one before. -/
theorem balances_setLocal {slot : Nat} (horder : (m.setLocal a slot v).InOrder)
    (h : Covers s₀ m (v.holdings + (holdingsOf a.spare + R))) :
    Balances s₀ (m.setLocal a slot v) R := by
  unfold setLocal at horder ⊢
  split
  next hnone =>
    rw [hnone] at horder
    exact horder.elim
  next old hsome =>
    apply balances_resumeScript
    apply Covers.release
    refine h.mapInterp h.distinct ?_
    -- of the stack, only that one place has changed
    rw [← Array.getElem?_toList] at hsome
    have hset := holdingsOf_set (v := v) hsome
    simp only [Interpreter.holdings, Array.toList_setIfInBounds]
    calc _ = {.seat m.interp.heap m.interp.block} + m.interp.globals.holdings +
            (holdingsOf (m.interp.stack.toList.set (a.base + slot) v) + old.holdings) := by abel
      _ = _ := by rw [hset]; abel

end Machine

namespace Interpreter

variable {i : Interpreter κ} {x y w : Value κ}

/-! The results of arithmetic and comparison hold nothing. -/

/-- A sum or a difference is an integer, which nothing needs to hold. -/
theorem holdings_arithmetic {op : Int64 → Int64 → Int64} (h : i.arithmetic op x y = .ok w) :
    w.holdings = 0 := by
  unfold arithmetic at h
  split at h
  · obtain rfl := Except.ok.inj h
    rfl
  · exact nomatch h
  · exact nomatch h

/-- A comparison makes a boolean, which nothing needs to hold. -/
theorem holdings_below (h : i.below x y = .ok w) : w.holdings = 0 := by
  unfold below at h
  split at h
  · obtain rfl := Except.ok.inj h
    rfl
  · obtain rfl := Except.ok.inj h
    rfl
  · exact nomatch h

end Interpreter

namespace Machine

variable {s₀ : Store} {m m' m₁ : Machine κ τ ρ} {G H R X Y : Multiset Holding} {a : Activation κ}
  {v : Value κ} {vs : List (Value κ)}

/-- Before an instruction comes its safepoint, behind which the function waits. -/
theorem balances_fetch (h : Covers s₀ m (holdingsOf a.spare + R)) :
    Balances s₀ (m.fetch a) R := by
  unfold fetch
  split
  · exact balances_leave (h.of_eq (by rw [outcomeHoldings, holdingsOf_nil, zero_add]))
  next op _ =>
    refine balances_of_pushed (f := .script { a with pc := a.pc + 1 } (.safepoint op)) h
      ⟨rfl, rfl, rfl⟩ rfl ?_
    simp [Machine.await, Frame.holdings, Await.holdings, Control.holdings]

/-- Two operands are let go of, and what is made of them needs no holding. -/
theorem balances_binary {op : Interpreter κ → Value κ → Value κ → Except Error (Value κ)}
    (hop : ∀ i x y w, op i x y = .ok w → w.holdings = 0)
    (h : Covers s₀ m (holdingsOf a.spare + R)) : Balances s₀ (m.binary a op) R := by
  unfold binary
  split
  · exact balances_leave_error h
  next x y htop =>
    split
    · -- the operation is not one of such values
      exact balances_leave_error h
    next w hw =>
      have hpopped := (h.popped (Interpreter.holdings_of_topTwo htop)).releaseAll
      exact balances_pushAndGo (hpopped.of_eq (by rw [hop _ _ _ _ hw, zero_add]))

/-- Two operands are let go of once the string that they make is there. -/
theorem balances_concat (h : Covers s₀ m (holdingsOf a.spare + R)) :
    Balances s₀ (m.concat a) R := by
  unfold concat
  split
  · exact balances_leave_error h
  next x y htop =>
    split
    · exact balances_leave_error h
    · split
      · exact balances_leave_error h
      · dsimp only
        split
        next m₁ hask => exact balances_leave_error (h.concat_refused hask)
        next m₁ s hask =>
          obtain ⟨-, hinterp⟩ := askStore_eq hask
          rw [← hinterp] at htop
          -- the operands are held until there is room for what they make
          have hpopped := (h.concat hask).popped (Interpreter.holdings_of_topTwo htop)
          exact balances_pushAndGo hpopped.releaseAll

/-- A script function that has popped what it calls, waits for the call. -/
private theorem balances_awaitCall {await : Await κ} {f : Value κ} {args : List (Value κ)}
    (hawait : await.holdings = f.holdings)
    (h : Covers s₀ m (f.holdings + holdingsOf args + (holdingsOf a.spare + R))) :
    Balances s₀ (m.await (.script a await) (.invoke f args)) R := by
  refine balances_of_pushed h ⟨rfl, rfl, rfl⟩ rfl ?_
  simp only [Frame.holdings, hawait, Machine.await, Control.holdings]
  abel

/-- Every instruction balances: what it takes off the stack it hands on or lets go of, and what it
puts there it was given or has retained. -/
theorem balances_execute {op : Instruction} (horder : (m.execute a op).InOrder)
    (h : Covers s₀ m (holdingsOf a.spare + R)) : Balances s₀ (m.execute a op) R := by
  -- a value that is no string is pushed without any holding
  have hplain {w : Value κ} (hw : w.holdings = 0) : Balances s₀ (m.pushAndGo a w) R :=
    balances_pushAndGo (h.of_eq (by rw [hw, zero_add]))
  cases op with
  | nil | true | false | int n => exact hplain rfl
  | str bytes =>
    simp only [execute]
    split
    next m₁ v hnew => exact balances_pushAndGo (h.newValue hnew)
    next m₁ hnew => exact balances_leave_error (h.newValue_refused hnew)
  | pop =>
    simp only [execute]
    split
    · exact balances_leave_error h
    next v htop =>
      exact balances_resumeScript (h.popped (Interpreter.holdings_of_top htop)).release
  | dup =>
    simp only [execute]
    split
    · exact balances_leave_error h
    next v htop =>
      -- what is on the stack already may be held once more
      have hle : v.holdings ≤ m.interp.holdings := by
        rw [Interpreter.holdings_of_top htop]
        exact Multiset.le_add_right _ _
      exact balances_pushAndGo (h.retain_interp hle)
  | getLocal slot =>
    simp only [execute] at horder ⊢
    split
    next hnone =>
      rw [hnone] at horder
      exact horder.elim
    next v hsome =>
      have hmem : v ∈ m.interp.stack.toList := by
        rw [← Array.getElem?_toList] at hsome
        exact List.mem_of_getElem? hsome
      exact balances_pushAndGo (h.retain_interp (Interpreter.holdings_le_of_mem hmem))
  | setLocal slot =>
    simp only [execute] at horder ⊢
    split
    · exact balances_leave_error h
    next v htop =>
      rw [htop] at horder
      exact balances_setLocal horder (h.popped (Interpreter.holdings_of_top htop))
  | getGlobal name =>
    have hle : (m.interp.globals.get name).holdings ≤ m.interp.holdings :=
      (Globals.holdings_get_le h.distinct name).trans
        ((Multiset.le_add_left _ _).trans (Multiset.le_add_left _ _))
    exact balances_pushAndGo (h.retain_interp hle)
  | setGlobal name =>
    simp only [execute]
    split
    · exact balances_leave_error h
    next v htop =>
      exact balances_resumeScript ((h.popped (Interpreter.holdings_of_top htop)).setGlobal name)
  | add | sub =>
    simp only [execute]
    exact balances_binary (fun _ _ _ _ hw => Interpreter.holdings_arithmetic hw) h
  | lt =>
    simp only [execute]
    exact balances_binary (fun _ _ _ _ hw => Interpreter.holdings_below hw) h
  | eq =>
    simp only [execute]
    refine balances_binary (fun i x y w hw => ?_) h
    obtain rfl := Except.ok.inj hw
    rfl
  | not =>
    simp only [execute]
    split
    · exact balances_leave_error h
    next v htop =>
      have hpopped := (h.popped (Interpreter.holdings_of_top htop)).release
      exact balances_pushAndGo (hpopped.of_eq (zero_add _).symm)
  | concat => exact balances_concat h
  | jump target =>
    exact balances_resumeScript (a := { a with pc := target }) h
  | jumpIfFalse target =>
    simp only [execute]
    split
    · exact balances_leave_error h
    next v htop =>
      have hpopped := (h.popped (Interpreter.holdings_of_top htop)).release
      split
      · exact balances_resumeScript hpopped
      · exact balances_resumeScript (a := { a with pc := target }) hpopped
  | call argc =>
    simp only [execute]
    split
    · exact balances_leave_error h
    next f args htop =>
      exact balances_awaitCall rfl (h.popped (Interpreter.holdings_of_topCall htop))
  | pcall argc =>
    simp only [execute]
    split
    · exact balances_leave_error h
    next f args htop =>
      exact balances_awaitCall rfl (h.popped (Interpreter.holdings_of_topCall htop))
  | ret n =>
    cases n with
    | zero => exact balances_leave (h.of_eq (by rw [outcomeHoldings, holdingsOf_nil, zero_add]))
    | succ n =>
      simp only [execute]
      split
      · exact balances_leave_error h
      next v htop =>
        have hpopped := h.popped (Interpreter.holdings_of_top htop)
        apply balances_leave
        apply hpopped.of_eq
        simp only [outcomeHoldings, holdingsOf_cons, holdingsOf_nil]
        abel

/-! ## What a script function is told -/

/-- Of some results, the first is taken and the others are let go of. -/
theorem holdings_firstOf (results : List (Value κ)) :
    (firstOf results).holdings + holdingsOf results.tail = holdingsOf results := by
  cases results with
  | nil => rfl
  | cons v vs => exact holdingsOf_cons.symm

/-- A protected call that is over leaves its results, or a text in their place, on the stack. -/
theorem balances_afterPcall {top : Nat} {outcome : Outcome κ}
    (h : Covers s₀ m (outcomeHoldings outcome + (holdingsOf a.spare + R))) :
    Balances s₀ (m.afterPcall a top outcome) R := by
  unfold afterPcall
  split
  next results =>
    -- of the results only the first is kept
    have htail : Covers s₀ m (holdingsOf results.tail +
        ((firstOf results).holdings + (holdingsOf a.spare + R))) := by
      have hall : outcomeHoldings (.ok results) =
          (firstOf results).holdings + holdingsOf results.tail := (holdings_firstOf results).symm
      apply h.of_eq
      rw [hall]
      abel
    exact balances_pushTwoAndGo (htail.releaseAll.of_eq (zero_add _).symm)
  next e =>
    replace h : Covers s₀ m (0 + (holdingsOf a.spare + R)) := h
    rw [zero_add] at h
    -- a text is made for an error that can be caught; another one goes on
    split
    · dsimp only
      split
      next m₁ v hnew =>
        apply balances_pushTwoAndGo
        exact ((h.truncate top).newValue hnew).of_eq (zero_add _).symm
      next m₁ hnew => exact balances_leave_error ((h.truncate top).newValue_refused hnew)
    · exact balances_leave_error h

/-- What was called is let go of last. -/
theorem Balances.release (h : Balances s₀ m (v.holdings + R)) : Balances s₀ (m.release v) R :=
  Covers.release (h.of_eq (add_left_comm _ _ _))

/-- A script function holds what it waits for, and its arguments beyond the parameters. -/
theorem balances_deliverScript {await : Await κ} {outcome : Outcome κ}
    (horder : (m.deliverScript a await outcome).InOrder)
    (hquiet : ∀ i, await = .safepoint i → outcomeHoldings outcome = 0)
    (h : Covers s₀ m (outcomeHoldings outcome +
      (holdingsOf a.spare + await.holdings + R))) :
    Balances s₀ (m.deliverScript a await outcome) R := by
  unfold deliverScript at horder ⊢
  split
  next => exact horder.elim
  next i vs =>
    -- a safepoint brings nothing
    refine balances_of_pushed (f := .script a .ready) h ⟨rfl, rfl, rfl⟩ rfl ?_
    rw [hquiet i rfl]
    simp [Machine.await, Frame.holdings, Await.holdings, Control.holdings]
  next i e =>
    apply balances_leave_error
    apply h.of_eq
    simp [outcomeHoldings, Await.holdings]
  next f results =>
    have hall : outcomeHoldings (.ok results) =
        (firstOf results).holdings + holdingsOf results.tail := (holdings_firstOf results).symm
    -- all results but the first are let go of, and the function with them
    have htail : Covers s₀ m (holdingsOf results.tail +
        (f.holdings + ((firstOf results).holdings + (holdingsOf a.spare + R)))) := by
      apply h.of_eq
      rw [hall, Await.holdings]
      abel
    exact balances_pushAndGo htail.releaseAll.release
  next f e =>
    have hf : Covers s₀ m (f.holdings + (holdingsOf a.spare + R)) := by
      apply h.of_eq
      rw [outcomeHoldings, Await.holdings]
      abel
    exact balances_leave_error hf.release
  next f top =>
    apply Balances.release
    apply balances_afterPcall
    apply h.of_eq
    rw [Await.holdings]
    abel

/-! ## Calls -/

/-- A call takes its arguments over, unless nothing can be called. -/
theorem balances_invoke (f : Value κ) {args : List (Value κ)}
    (h : Covers s₀ m (holdingsOf args + R)) : Balances s₀ (m.invoke f args) R := by
  have herror {e : Error} : Balances s₀ ((m.releaseAll args).raise e) R :=
    balances_of_frames h.releaseAll ⟨rfl, rfl, rfl⟩ rfl (zero_add R).symm
  unfold invoke
  split
  next f =>
    split
    · exact herror
    · refine balances_of_pushed (f := .call (.entering f args)) h ⟨rfl, rfl, rfl⟩ rfl ?_
      simp [Machine.await, Frame.holdings, Stage.holdings, Control.holdings]
  · exact herror

/-- The arguments that fill the parameters of a function hold what they held. -/
theorem holdings_fill (params : Nat) (args : List (Value κ)) :
    holdingsOf (fill params args) = holdingsOf (args.take params) := by
  unfold fill
  rw [List.take_append, holdingsOf_append, List.take_replicate, holdingsOf_replicate, add_zero]

/-- A function is entered with its arguments, which the stack and the frame share. -/
theorem balances_enter (code : Meaning κ τ ρ) (f : Func κ) {args : List (Value κ)}
    (h : Covers s₀ m (holdingsOf args + R)) : Balances s₀ (m.enter code f args) R := by
  cases f with
  | native id name c =>
    refine balances_of_frames h ⟨rfl, rfl, rfl⟩ rfl ?_
    simp [enter, goto, Control.holdings]
  | script id proto =>
    simp only [enter]
    split
    · -- no room for its locals
      exact balances_of_frames h.releaseAll ⟨rfl, rfl, rfl⟩ rfl (zero_add R).symm
    · -- the stack takes over what fills the parameters, and the frame the rest
      rw [← holdingsOf_take_add_drop proto.params args, add_assoc] at h
      have hslots : Covers s₀ { m with interp := { m.interp with
          stack := m.interp.stack ++ (fill proto.params args ++
            List.replicate (proto.locals - proto.params) Value.nil)
          floor := m.interp.stack.size + proto.locals } }
          (0 + (holdingsOf (args.drop proto.params) + R)) := by
        refine h.mapInterp h.distinct ?_
        simp only [Interpreter.holdings, Array.toList_appendList, holdingsOf_append, holdings_fill,
          holdingsOf_replicate]
        abel
      refine balances_of_pushed (f := .script _ .ready) hslots ⟨rfl, rfl, rfl⟩ rfl ?_
      simp [Machine.await, Frame.holdings, Await.holdings, Control.holdings]

/-- A call that is over hands on what came of it. -/
theorem balances_exitCall {outcome : Outcome κ} (horder : (m.exitCall outcome).InOrder)
    (h : Covers s₀ m (outcomeHoldings outcome + R)) : Balances s₀ (m.exitCall outcome) R := by
  unfold exitCall at horder ⊢
  split
  next hzero =>
    rw [hzero] at horder
    exact horder.elim
  next => exact balances_of_frames h ⟨rfl, rfl, rfl⟩ rfl rfl

/-- Nothing is brought out of a safepoint. -/
theorem Quiet.outcomeHoldings_eq {outcome : Outcome κ} {f : Frame κ τ ρ}
    {rest : List (Frame κ τ ρ)} (hquiet : m.Quiet) (hfit : m.Fitting)
    (hc : m.control = .deliver outcome) (hf : m.frames = f :: rest)
    (htop : f.waitsFor .safepoint = true) : outcomeHoldings outcome = 0 := by
  -- the outcome is for a safepoint, so it brings no values
  have hwaits : Waits .safepoint m.frames := by
    obtain ⟨w, -, hw⟩ := hfit
    rw [hf] at hw ⊢
    exact ⟨htop, hw.2⟩
  have hbrings := hquiet (.inl hwaits)
  rw [hc] at hbrings
  cases outcome with
  | ok vs =>
    obtain rfl : vs = [] := hbrings
    rfl
  | error e => rfl

/-- A call holds its arguments until they are handed over, and its results from then on. -/
theorem balances_deliverCall (code : Meaning κ τ ρ) {stage : Stage κ} {outcome : Outcome κ}
    (horder : (m.deliverCall code stage outcome).InOrder)
    (hquiet : (Frame.call (τ := τ) (ρ := ρ) stage).waitsFor .safepoint = true →
      outcomeHoldings outcome = 0)
    (h : Covers s₀ m (stage.holdings + (outcomeHoldings outcome + R))) :
    Balances s₀ (m.deliverCall code stage outcome) R := by
  unfold deliverCall at horder ⊢
  split
  next f args vs =>
    -- past its call safepoint, the function is entered
    rw [hquiet rfl, zero_add] at h
    exact balances_enter code f (h.pushed (f := .call .body) ⟨rfl, rfl, rfl⟩ rfl (zero_add _).symm)
  next f args e => exact balances_exitCall horder h.releaseAll
  next results =>
    refine balances_of_pushed (f := .call (.leaving results)) h ⟨rfl, rfl, rfl⟩ rfl ?_
    simp [Machine.await, Frame.holdings, Stage.holdings, Control.holdings, outcomeHoldings]
  next e => exact balances_exitCall horder (h.of_eq (by simp [Stage.holdings]))
  next results vs =>
    -- past its return safepoint, the call hands on the results that it kept
    rw [hquiet rfl, zero_add] at h
    exact balances_exitCall horder h
  next results e => exact balances_exitCall horder h.releaseAll

/-! ## Safepoints -/

/-- Work that only changes what the machine is about to do. -/
private theorem balances_goto {c : Control κ τ ρ} (h : Covers s₀ m R) (hc : c.holdings = 0) :
    Balances s₀ (m.goto c) R := by
  refine balances_of_frames h ⟨rfl, rfl, rfl⟩ rfl ?_
  simp [goto, hc]

/-- A safepoint takes nothing over, whether it enters the hook or not. -/
theorem balances_poll (event : HookEvent) (h : Covers s₀ m R) : Balances s₀ (m.poll event) R := by
  have hproceed : Balances s₀ m.proceed R := balances_goto h rfl
  -- to enter the hook pushes a frame that holds nothing
  have hdispatch {n : Nat} (event : HookEvent) : Balances s₀
      (dispatch { m with interp := { m.interp with countdown := n } } event) R := by
    unfold dispatch
    split
    · exact hproceed.congr ⟨rfl, rfl, rfl⟩ rfl
    · split
      · exact hproceed.congr ⟨rfl, rfl, rfl⟩ rfl
      · refine balances_of_pushed (f := .dispatch) h ⟨rfl, rfl, rfl⟩ rfl ?_
        simp [Machine.await, Frame.holdings, Control.holdings]
  unfold poll
  dsimp only
  split
  · exact hproceed
  · split
    · exact hproceed
    · cases event with
      | count =>
        dsimp only
        split
        · exact hproceed.congr ⟨rfl, rfl, rfl⟩ rfl
        · exact hdispatch .count
      | call => exact hdispatch .call
      | ret => exact hdispatch .ret

/-- The handler has no values in its hands. -/
theorem balances_handle (phase : HandlerPhase) (info : HookInfo) (h : Covers s₀ m R) :
    Balances s₀ (m.handle phase info) R := by
  have hgoto {mailbox : Mailbox κ} {c : Control κ τ ρ} (hc : c.holdings = 0) :
      Balances s₀ (goto { m with mailbox } c) R :=
    balances_goto (h.congr ⟨rfl, rfl, rfl⟩ rfl) hc
  -- what the handler hands on is an error or a pass that begins
  cases phase with
  | enter | disarm => exact hgoto rfl
  | readFlag => exact balances_goto h rfl
  | readMessage =>
    simp only [handle]
    split
    next mailbox message _ =>
      have hread : Covers s₀ { m with mailbox } R := h.congr ⟨rfl, rfl, rfl⟩ rfl
      exact balances_goto (hread.note (.raisingCancellation info)) rfl
    next => exact hgoto rfl
  | acquire =>
    simp only [handle]
    split <;> exact hgoto rfl

/-! ## Drain passes -/

/-- A pass takes nothing over; the action that it runs begins with nothing. -/
theorem balances_drain (code : Meaning κ τ ρ) (source : Source) (ran : Nat) (h : Covers s₀ m R) :
    Balances s₀ (m.drain code source ran) R := by
  -- the action begins with no argument
  cases source with
  | mailbox event =>
    simp only [drain]
    split
    · refine balances_of_pushed (f := .pass (.mailbox event) ran) h ⟨rfl, rfl, rfl⟩ rfl ?_
      simp [Machine.await, Frame.holdings, Control.holdings]
    · exact balances_goto (h.note _) rfl
  | queue id =>
    simp only [drain]
    split
    · refine balances_of_pushed (f := .pass (.queue id) ran) h ⟨rfl, rfl, rfl⟩ rfl ?_
      simp [Machine.await, Frame.holdings, Control.holdings]
    · exact balances_goto h rfl

/-- What an action has brought was let go of before its outcome is looked at. -/
theorem balances_settle (source : Source) (ran : Nat) (outcome : Outcome κ) (h : Covers s₀ m R) :
    Balances s₀ (m.settle source ran outcome) R := by
  unfold settle
  split
  · exact balances_goto h rfl
  · split <;> exact balances_goto h rfl

/-- To look at what is left in the queue holds nothing. -/
theorem balances_measure (e : Error) (h : Covers s₀ m R) : Balances s₀ (m.measure e) R := by
  unfold measure
  dsimp only
  split <;> exact balances_goto h rfl

/-! ## Host code -/

/-- Host code holds what comes with a reply. -/
theorem balances_answered {held : Held} {r : Reply κ} {next : Reply κ → Program κ τ ρ}
    (h : Covers s₀ m (holdingsOf r.holds + (held.holdings + R))) :
    Balances s₀ (serve.answered next m held r) R := by
  refine balances_of_frames h ⟨rfl, rfl, rfl⟩ rfl ?_
  simp only [serve.answered, goto, Control.holdings, Held.holdings_addAll]
  abel

/-- A request balances: values that host code gives are taken out of its hands, and those of the
reply are put there. -/
theorem balances_serve {held : Held} (q : Query κ) {next : Reply κ → Program κ τ ρ}
    (h : Covers s₀ m (held.holdings + R)) : Balances s₀ (m.serve held q next) R := by
  -- a reply without a string
  have hplain {m' : Machine κ τ ρ} {held : Held} {r : Reply κ} (hr : holdingsOf r.holds = 0)
      (h : Covers s₀ m' (held.holdings + R)) :
      Balances s₀ (serve.answered next m' held r) R :=
    balances_answered (h.of_eq (by rw [hr, zero_add]))
  -- a reply with a value that was made or retained for it
  have hvalue {m' : Machine κ τ ρ} {held : Held} {v : Value κ}
      (h : Covers s₀ m' (v.holdings + (held.holdings + R))) :
      Balances s₀ (serve.answered next m' held (.value v)) R :=
    balances_answered (h.of_eq (by simp [Reply.holds]))
  have string (bytes : Bytes) : Balances s₀ (serve.string m held next bytes) R := by
    unfold serve.string
    split
    next m₁ v hnew => exact hvalue (h.newValue hnew)
    next m₁ hnew => exact hplain rfl (h.newValue_refused hnew)
  cases q with
  | newBytes bytes => exact string bytes
  | newText text => exact string _
  | copy v =>
    simp only [serve]
    split
    next s =>
      split
      next t hlookup =>
        -- the code holds the string already
        have hle : (Value.str t : Value κ).holdings ≤
            m.interp.holdings + frameHoldings m.frames + (held.holdings + R) := by
          have hheld : (Value.str t : Value κ).holdings ≤ held.holdings := by
            rw [Held.holdings_drop hlookup]
            exact Multiset.le_add_right _ _
          exact hheld.trans ((Multiset.le_add_right _ _).trans (Multiset.le_add_left _ _))
        exact hvalue (h.retain hle)
      next => exact hplain rfl h
    next hother =>
      refine hplain ?_ h
      cases v with
      | str s => exact absurd rfl (hother s)
      | _ => rfl
  | release v =>
    rw [held.holdings_take v, add_assoc] at h
    exact hplain rfl h.release
  | getGlobal name =>
    have hle : (m.interp.globals.get name).holdings ≤ m.interp.holdings :=
      (Globals.holdings_get_le h.distinct name).trans
        ((Multiset.le_add_left _ _).trans (Multiset.le_add_left _ _))
    exact hvalue (h.retain_interp hle)
  | setGlobal name v =>
    rw [held.holdings_take v, add_assoc] at h
    exact hplain rfl (h.setGlobal name)
  | load proto => exact hplain rfl (h.congr ⟨rfl, rfl, rfl⟩ rfl)
  | register name c =>
    have hnew : Covers s₀ m.newFunction.1 (held.holdings + R) := h.congr ⟨rfl, rfl, rfl⟩ rfl
    have hset := (hnew.of_eq (zero_add _).symm).setGlobal
      (v := .fn (.native m.newFunction.2 name c)) name
    exact hplain rfl hset
  | setEncoding encoding => exact hplain rfl (h.congr ⟨rfl, rfl, rfl⟩ rfl)
  | facts => exact hplain rfl h
  | call f args =>
    rw [held.holdings_takeAll args] at h
    refine balances_of_pushed (f := .host _ next) h ⟨rfl, rfl, rfl⟩ rfl ?_
    simp only [serve, Machine.await, Frame.holdings, Control.holdings]
    abel
  | pcall f args =>
    rw [held.holdings_takeAll args] at h
    have hhost : Covers s₀ { m with frames := .host (held.takeAll args).2 next :: m.frames }
        (holdingsOf (held.takeAll args).1 + R) := by
      refine h.pushed ⟨rfl, rfl, rfl⟩ rfl ?_
      simp only [Frame.holdings]
      abel
    refine balances_of_pushed (f := .boundary _ _) hhost ⟨rfl, rfl, rfl⟩ rfl ?_
    simp [serve, goto, Frame.holdings, Control.holdings]
  | post call | drain queue =>
    refine balances_of_pushed (f := .host held next) h ⟨rfl, rfl, rfl⟩ rfl ?_
    simp [serve, Machine.await, Frame.holdings, Control.holdings]

/-- Host code that ends lets go of what is left in its hands. -/
theorem balances_runProgram {held : Held} (p : Program κ τ ρ)
    (h : Covers s₀ m (held.holdings + R)) : Balances s₀ (m.runProgram held p) R := by
  unfold runProgram
  split
  next vs =>
    -- what it gives back is taken out first
    have htaken : Covers s₀ m ((held.takeAll vs).2.holdings +
        (holdingsOf (held.takeAll vs).1 + R)) := by
      apply h.of_eq
      rw [held.holdings_takeAll vs]
      abel
    exact balances_of_frames htaken.letGo ⟨rfl, rfl, rfl⟩ rfl rfl
  next e => exact balances_goto h.letGo rfl
  next q next => exact balances_serve q h
  next x given next =>
    refine balances_of_frames h ⟨rfl, rfl, rfl⟩ rfl ?_
    rw [held.holdings_takeAll given]
    rfl

/-- A call through a handle holds no values, whatever access it makes. -/
theorem balances_post (phase : HostPhase κ) (h : Covers s₀ m R) :
    Balances s₀ (m.post phase) R := by
  unfold post
  split
  · exact balances_goto h rfl
  · exact balances_goto h rfl
  · have haccess : Covers s₀ { m with mailbox := (phase.step m.mailbox).1 } R :=
      h.congr ⟨rfl, rfl, rfl⟩ rfl
    have hnoted := haccess.notes (phase.step m.mailbox).2.2
    dsimp only
    split <;> exact balances_goto hnoted rfl

/-- What a reply brings is put into the hands of the host code that waits for it. -/
theorem balances_reply {r : Reply κ} (horder : (m.reply r).InOrder)
    (h : Covers s₀ m (holdingsOf r.holds + R)) : Balances s₀ (m.reply r) R := by
  unfold reply at horder ⊢
  split
  next held next rest hf =>
    refine h.taken ⟨rfl, rfl, rfl⟩ hf ?_
    simp only [goto, Frame.holdings, Control.holdings, Held.holdings_addAll]
    abel
  next hother =>
    split at horder
    next held next rest hf => exact (hother _ _ _ hf).elim
    next => exact horder.elim

/-! ## Outcomes -/

/-- An outcome is handed on to the frame that waits for it, and all that the frame held is passed on
or let go of. -/
theorem balances_deliver (code : Meaning κ τ ρ) {outcome : Outcome κ} (hfit : m.Fitting)
    (hquiet : m.Quiet) (hc : m.control = .deliver outcome)
    (horder : (m.deliver code outcome).InOrder) (h : Covers s₀ m (outcomeHoldings outcome + R)) :
    Balances s₀ (m.deliver code outcome) R := by
  unfold deliver at horder ⊢
  split
  next hf => exact balances_of_frames h ⟨rfl, rfl, rfl⟩ rfl rfl
  next frame rest hf =>
    simp only [hf] at horder
    have htaken : Covers s₀ { m with frames := rest }
        (frame.holdings + (outcomeHoldings outcome + R)) := h.taken ⟨rfl, rfl, rfl⟩ hf rfl
    dsimp only
    split
    next stage =>
      exact balances_deliverCall code horder
        (fun htop => hquiet.outcomeHoldings_eq hfit hc hf htop) htaken
    next a await =>
      refine balances_deliverScript horder (fun i hi => ?_) ?_
      · subst hi
        exact hquiet.outcomeHoldings_eq hfit hc hf rfl
      · exact htaken.of_eq (by rw [Frame.holdings]; abel)
    next held next =>
      split
      next vs =>
        refine balances_of_frames htaken ⟨rfl, rfl, rfl⟩ rfl ?_
        simp only [goto, Control.holdings, Held.holdings_addAll, Frame.holdings, outcomeHoldings]
        abel
      next e =>
        refine balances_of_frames htaken ⟨rfl, rfl, rfl⟩ rfl ?_
        simp only [goto, Control.holdings, Frame.holdings, outcomeHoldings]
        abel
    -- a boundary holds nothing, and cuts the stack off after a failure
    next top depth =>
      rw [Frame.holdings, zero_add] at htaken
      split
      next hdepth =>
        dsimp only at horder
        rw [if_pos hdepth] at horder
        exact horder.elim
      next =>
        split
        next vs => exact balances_of_frames htaken ⟨rfl, rfl, rfl⟩ rfl rfl
        next e =>
          exact balances_of_frames ((htaken.truncate top).note _) ⟨rfl, rfl, rfl⟩ rfl rfl
    -- the hook is left
    next =>
      rw [Frame.holdings, zero_add] at htaken
      exact balances_of_frames htaken ⟨rfl, rfl, rfl⟩ rfl rfl
    -- an action of a pass is over, and its results are let go of
    next source ran =>
      rw [Frame.holdings, zero_add] at htaken
      cases outcome with
      | ok vs =>
        cases source with
        | mailbox | queue => exact balances_goto htaken.releaseAll rfl
      | error e =>
        rw [outcomeHoldings, zero_add] at htaken
        cases source with
        | mailbox | queue => exact balances_goto htaken rfl

/-! ## One step -/

/-- A check of a syncpoint holds what the machine does next. -/
private theorem balances_checking (point : TestPoint) (phase : Syncpoint.Checking)
    {next : Control κ τ ρ} (h : Covers s₀ m (next.holdings + R)) :
    Balances s₀ (m.checking point phase next) R := by
  unfold checking
  dsimp only
  split <;> exact balances_of_frames h ⟨rfl, rfl, rfl⟩ rfl rfl

/-- A step of a steady machine keeps the store in order. -/
theorem balances_step (code : Meaning κ τ ρ) (hm : m.Steady) (h : Balances s₀ m R) :
    Balances s₀ (m.step code) R := by
  have horder := (steady_step code hm).order
  unfold Balances at h
  -- one lemma for each kind of work
  cases hc : m.control <;> rw [hc] at h <;> simp only [step, hc] at horder ⊢
  case invoke f args => exact balances_invoke f h
  case poll event => exact balances_poll event (h.of_eq (zero_add R))
  case handle phase info => exact balances_handle phase info (h.of_eq (zero_add R))
  case drain source ran => exact balances_drain code source ran (h.of_eq (zero_add R))
  case settle source ran outcome => exact balances_settle source ran outcome (h.of_eq (zero_add R))
  case measure e => exact balances_measure e (h.of_eq (zero_add R))
  case rearm => exact balances_of_frames h ⟨rfl, rfl, rfl⟩ rfl rfl
  case tell e remaining => exact balances_of_frames (h.note _) ⟨rfl, rfl, rfl⟩ rfl rfl
  case unmark => exact balances_of_frames h ⟨rfl, rfl, rfl⟩ rfl rfl
  -- the work of a script is for the script frame on top
  case fetch =>
    obtain ⟨a, rest, hf⟩ := (hm.fitting.waits hc (by simp [Control.isFor])).of_script
    rw [hf]
    refine balances_fetch (h.taken ⟨rfl, rfl, rfl⟩ hf ?_)
    simp [Frame.holdings, Await.holdings, Control.holdings]
  case execute op =>
    obtain ⟨a, rest, hf⟩ := (hm.fitting.waits hc (by simp [Control.isFor])).of_script
    rw [hf] at horder ⊢
    refine balances_execute horder (h.taken ⟨rfl, rfl, rfl⟩ hf ?_)
    simp [Frame.holdings, Await.holdings, Control.holdings]
  case run held p => exact balances_runProgram p h
  case post phase => exact balances_post phase (h.of_eq (zero_add R))
  case reply r => exact balances_reply horder h
  case deliver outcome => exact balances_deliver code hm.fitting hm.quiet hc horder h
  case check | arrive | paused => exact balances_checking _ _ h
  case finished | waiting | fault =>
    unfold Balances
    rw [hc]
    exact h

end Machine

end Safepoint
