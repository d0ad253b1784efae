import Safepoint.Proofs.Isolation

/-!
# Code that jumps forward only

A script function whose jumps all lead forward comes to each of its instructions at most once: what
it executes, and what is handed to it by what it has called, takes it to a later place of its code,
and only fetching goes on from there. `Machine.Lands` says where a script function is after it has
executed an instruction or was handed an outcome, and `Machine.Beyond` that it has passed a place in
its code.

## Key results

- `Machine.lands_execute`, `Machine.lands_deliverScript`: a script function does not go back
- `Machine.beyond_step`: it stays beyond what it has passed until it is left
- `Life.pc_lt_of_fetches`: of two places that it fetches from, the second is the later one
-/

namespace Safepoint

variable {κ τ ρ : Type}

/-- Whether an instruction at `pc` goes on behind itself. -/
def Instruction.isForward (pc : Nat) : Instruction → Bool
  | .jump target | .jumpIfFalse target => pc < target
  | _ => Bool.true

/-- Every jump of a prototype leads to a place behind itself. -/
def Prototype.IsForward (p : Prototype) : Prop :=
  ∀ pc, ∀ h : pc < p.code.size, p.code[pc].isForward pc = true

instance (p : Prototype) : Decidable p.IsForward :=
  inferInstanceAs (Decidable (∀ pc, ∀ h : pc < p.code.size, p.code[pc].isForward pc = true))

/-- An instruction fetched from forward code jumps to no earlier place than the next one. -/
theorem Prototype.IsForward.succ_le_target {p : Prototype} (h : p.IsForward) {pc target : Nat}
    {i : Instruction} (hi : p.code[pc]? = some i)
    (hjump : i = .jump target ∨ i = .jumpIfFalse target) :
    pc + 1 ≤ target := by
  obtain ⟨hlt, rfl⟩ := Array.getElem?_eq_some_iff.mp hi
  have hforward := h pc hlt
  show pc < target
  rcases hjump with hi | hi
  all_goals
    rw [hi] at hforward
    simpa [Instruction.isForward] using hforward

/-- One and the same script function, no earlier in its code. -/
structure Activation.UpTo (a b : Activation κ) : Prop where
  proto : b.proto = a.proto
  pc_le : a.pc ≤ b.pc

/-- A function that has gone nowhere is as far as it was. -/
theorem Activation.UpTo.refl (a : Activation κ) : a.UpTo a := ⟨rfl, Nat.le_refl a.pc⟩

namespace Machine

/-! ## Where a script function lands -/

/-- What becomes of a script function above the frames `fs` that was about to go on as `a`: it goes
on, no earlier in its code, or is left. -/
inductive Lands (a : Activation κ) (fs : List (Frame κ τ ρ)) (m : Machine κ τ ρ) : Prop where
  | goes {b} (control : m.control = .fetch) (frames : m.frames = .script b .ready :: fs)
      (upTo : a.UpTo b)
  | leaves {outcome} (control : m.control = .deliver outcome) (frames : m.frames = fs)
  | faults {fault} (control : m.control = .fault fault) (frames : m.frames = fs)

/-- A script function above the frames `fs` makes a call, and will go on as `a`. -/
structure Calling (a : Activation κ) (await : Await κ) (fs : List (Frame κ τ ρ))
    (m : Machine κ τ ρ) : Prop where
  control : ∃ f args, m.control = .invoke f args
  frames : m.frames = .script a await :: fs
  waits : (Frame.script a await : Frame κ τ ρ).waitsFor .call = true

variable {m m₁ : Machine κ τ ρ} {a b : Activation κ} {fs : List (Frame κ τ ρ)}

/-- A function that is left lands outside. -/
theorem lands_leave (m : Machine κ τ ρ) (a : Activation κ) (outcome : Outcome κ) :
    Lands a m.frames (m.leave a outcome) :=
  .leaves rfl rfl

/-- A function that goes on lands where it goes on. -/
theorem lands_resumeScript (m : Machine κ τ ρ) (h : a.UpTo b) :
    Lands a m.frames (m.resumeScript b) :=
  .goes rfl rfl h

/-- A function that pushes a value goes on, or is left for want of room. -/
theorem lands_pushAndGo (m : Machine κ τ ρ) (a : Activation κ) (v : Value κ) :
    Lands a m.frames (m.pushAndGo a v) := by
  unfold pushAndGo
  split
  · exact .goes rfl rfl (.refl a)
  · exact .leaves rfl rfl

/-- A function that pushes two values goes on, or is left for want of room. -/
theorem lands_pushTwoAndGo (m : Machine κ τ ρ) (a : Activation κ) (v w : Value κ) :
    Lands a m.frames (m.pushTwoAndGo a v w) := by
  unfold pushTwoAndGo
  split
  · exact lands_pushAndGo { m with interp := m.interp.push v } a w
  · exact .leaves rfl rfl

/-- A function that sets a local goes on. -/
theorem lands_setLocal (m : Machine κ τ ρ) (a : Activation κ) (slot : Nat) (v : Value κ) :
    Lands a m.frames (m.setLocal a slot v) := by
  unfold setLocal
  split
  · exact .faults rfl rfl
  · exact .goes rfl rfl (.refl a)

/-- A function with two operands goes on with what they make, or is left. -/
theorem lands_binary (m : Machine κ τ ρ) (a : Activation κ)
    (op : Interpreter κ → Value κ → Value κ → Except Error (Value κ)) :
    Lands a m.frames (m.binary a op) := by
  unfold binary
  split
  · exact lands_leave m a _
  next x y _ =>
    split
    · exact lands_leave m a _
    next v _ => exact lands_pushAndGo ((m.popped 2).releaseAll [x, y]) a v

/-- A function that joins two strings goes on with the joint one, or is left. -/
theorem lands_concat (m : Machine κ τ ρ) (a : Activation κ) : Lands a m.frames (m.concat a) := by
  unfold concat
  split
  · exact lands_leave m a _
  next x y _ =>
    split
    · exact lands_leave m a _
    · split
      · exact lands_leave m a _
      · dsimp only
        -- the store is asked for the string, and that leaves the frames alone
        split
        next m₁ hask =>
          rw [← (askStore_eq hask).1]
          exact lands_leave m₁ a _
        next m₁ s hask =>
          rw [← (askStore_eq hask).1]
          exact lands_pushAndGo ((m₁.popped 2).releaseAll [x, y]) a (.str s)

/-- An instruction takes its function to the place that the function was about to go on from, to a
later one if it jumps forward, or out of its code, unless it calls. -/
theorem lands_execute (m : Machine κ τ ρ) (a : Activation κ) (i : Instruction)
    (hforward : ∀ target, i = .jump target ∨ i = .jumpIfFalse target → a.pc ≤ target) :
    Lands a m.frames (m.execute a i) ∨ ∃ await, Calling a await m.frames (m.execute a i) := by
  -- jumps are the only instructions that say where to go on, and these do not go back
  cases i with
  | nil | true | false | int n => exact .inl (lands_pushAndGo m a _)
  | str bytes =>
    simp only [execute]
    split
    next m₁ v hnew =>
      rw [← (newValue_keeps hnew).1]
      exact .inl (lands_pushAndGo m₁ a v)
    next m₁ hnew =>
      rw [← (newValue_keeps hnew).1]
      exact .inl (lands_leave m₁ a _)
  | pop =>
    simp only [execute]
    split
    · exact .inl (lands_leave m a _)
    next v _ => exact .inl (lands_resumeScript ((m.popped 1).release v) (.refl a))
  | dup =>
    simp only [execute]
    split
    · exact .inl (lands_leave m a _)
    next v _ => exact .inl (lands_pushAndGo (m.retain v) a v)
  | getLocal slot =>
    simp only [execute]
    split
    · exact .inl (.faults rfl rfl)
    next v _ => exact .inl (lands_pushAndGo (m.retain v) a v)
  | setLocal slot =>
    simp only [execute]
    split
    · exact .inl (lands_leave m a _)
    next v _ => exact .inl (lands_setLocal (m.popped 1) a slot v)
  | getGlobal name => exact .inl (lands_pushAndGo (m.retain _) a _)
  | setGlobal name =>
    simp only [execute]
    split
    · exact .inl (lands_leave m a _)
    next v _ => exact .inl (lands_resumeScript ((m.popped 1).setGlobal name v) (.refl a))
  | add | sub | lt | eq => simpa only [execute] using Or.inl (lands_binary m a _)
  | not =>
    simp only [execute]
    split
    · exact .inl (lands_leave m a _)
    next v _ => exact .inl (lands_pushAndGo ((m.popped 1).release v) a _)
  | concat => exact .inl (lands_concat m a)
  | jump target => exact .inl (lands_resumeScript m ⟨rfl, hforward target (.inl rfl)⟩)
  | jumpIfFalse target =>
    simp only [execute]
    split
    · exact .inl (lands_leave m a _)
    next v _ =>
      left
      apply lands_resumeScript ((m.popped 1).release v)
      split
      · exact .refl a
      · exact ⟨rfl, hforward target (.inr rfl)⟩
  | call argc | pcall argc =>
    -- a call that finds its operands takes the function nowhere yet
    simp only [execute]
    split
    · exact .inl (lands_leave m a _)
    · exact .inr ⟨_, ⟨_, _, rfl⟩, rfl, rfl⟩
  | ret count =>
    cases count with
    | zero => exact .inl (lands_leave m a _)
    | succ n =>
      simp only [execute]
      split
      · exact .inl (lands_leave m a _)
      · exact .inl (lands_leave (m.popped 1) a _)

/-- A function behind a protected call goes on with two values, or is left. -/
theorem lands_afterPcall (m : Machine κ τ ρ) (a : Activation κ) (top : Nat) (outcome : Outcome κ) :
    Lands a m.frames (m.afterPcall a top outcome) := by
  unfold afterPcall
  split
  next results => exact lands_pushTwoAndGo (m.releaseAll results.tail) a _ _
  · split
    · dsimp only
      -- the error is caught if there is memory for its message
      split
      next m₁ v hnew =>
        rw [← show m₁.frames = m.frames from (newValue_keeps hnew).1]
        exact lands_pushTwoAndGo m₁ a _ v
      next m₁ hnew =>
        rw [← show m₁.frames = m.frames from (newValue_keeps hnew).1]
        exact lands_leave m₁ a _
    · exact lands_leave m a _

/-- The outcome of a call takes the function that has made it to the place behind the call, or out
of its code. -/
theorem lands_deliverScript (m : Machine κ τ ρ) (a : Activation κ) {await : Await κ}
    (hwaits : (Frame.script a await : Frame κ τ ρ).waitsFor .call = true) (outcome : Outcome κ) :
    Lands a m.frames (m.deliverScript a await outcome) := by
  cases await with
  | ready | safepoint i => exact nomatch hwaits
  | call f =>
    cases outcome with
    | ok results => exact lands_pushAndGo ((m.releaseAll results.tail).release f) a _
    | error e => exact lands_leave (m.release f) a _
  | pcall f top =>
    -- letting go of the function changes neither what is done next nor the frames
    cases lands_afterPcall m a top outcome with
    | goes hc hf hb => exact .goes hc hf hb
    | leaves hc hf => exact .leaves hc hf
    | faults hc hf => exact .faults hc hf

/-! ## Places that are passed -/

/-- The function of a prototype above the frames `fs` is in progress, and has passed the place `pc`
of its code. -/
inductive Beyond (proto : Prototype) (pc : Nat) (fs : List (Frame κ τ ρ)) (m : Machine κ τ ρ) :
    Prop where
  /-- It has fetched an instruction, and waits for the count safepoint. -/
  | fetched {above i} {b : Activation κ}
    (frames : m.frames = above ++ .script b (.safepoint i) :: fs)
      (proto_eq : b.proto = proto) (at_ : proto.code[b.pc - 1]? = some i) (later : pc < b.pc) :
      Beyond proto pc fs m
  | executes {i} {b : Activation κ} (control : m.control = .execute i)
      (frames : m.frames = .script b .ready :: fs)
      (proto_eq : b.proto = proto) (at_ : proto.code[b.pc - 1]? = some i) (later : pc < b.pc) :
      Beyond proto pc fs m
  /-- It has made a call. -/
  | calls {above await} {b : Activation κ} (frames : m.frames = above ++ .script b await :: fs)
      (waits : (Frame.script b await : Frame κ τ ρ).waitsFor .call = true)
      (proto_eq : b.proto = proto) (later : pc < b.pc) : Beyond proto pc fs m
  | fetches {b : Activation κ} (control : m.control = .fetch)
      (frames : m.frames = .script b .ready :: fs)
      (proto_eq : b.proto = proto) (later : pc < b.pc) : Beyond proto pc fs m

variable {proto : Prototype} {pc : Nat}

/-- What has passed a place has passed the earlier ones. -/
theorem Beyond.mono (h : m.Beyond proto pc fs) {pc' : Nat} (hle : pc' ≤ pc) :
    m.Beyond proto pc' fs := by
  cases h with
  | fetched hf hproto hat hlater => exact .fetched hf hproto hat (Nat.lt_of_le_of_lt hle hlater)
  | executes hc hf hproto hat hlater =>
    exact .executes hc hf hproto hat (Nat.lt_of_le_of_lt hle hlater)
  | calls hf hw hproto hlater => exact .calls hf hw hproto (Nat.lt_of_le_of_lt hle hlater)
  | fetches hc hf hproto hlater => exact .fetches hc hf hproto (Nat.lt_of_le_of_lt hle hlater)

/-- Wherever a function lands, it stays beyond what it had passed, unless it is left. -/
theorem Lands.beyond (h : m.Lands a fs) (hproto : a.proto = proto) (hlater : pc < a.pc)
    (hleft : m.frames ≠ fs) : m.Beyond proto pc fs := by
  cases h with
  | goes hc hf hb =>
    exact .fetches hc hf (hb.proto.trans hproto) (Nat.lt_of_lt_of_le hlater hb.pc_le)
  | leaves _ hf | faults _ hf => exact absurd hf hleft

/-- A script function that fetches an instruction has passed the place of it. -/
theorem beyond_of_fetch (code : Meaning κ τ ρ) (hc : m.control = .fetch)
    (hf : m.frames = .script a .ready :: fs) (hleft : (m.step code).frames ≠ fs) :
    (m.step code).Beyond a.proto a.pc fs := by
  simp only [step, hc, hf, fetch] at hleft ⊢
  split
  next hend =>
    -- past its last instruction the function is left
    simp only [hend] at hleft
    exact absurd rfl hleft
  next i hi =>
    have hframes : ∀ f : Frame κ τ ρ, f :: fs = [] ++ f :: fs := fun _ => rfl
    exact .fetched (hframes _) rfl hi (Nat.lt_succ_self a.pc)

/-- A function of forward code stays beyond what it has passed until it is left. -/
theorem beyond_step (code : Meaning κ τ ρ) (hm : m.Steady) (hforward : proto.IsForward)
    (h : m.Beyond proto pc fs) (hleft : (m.step code).frames ≠ fs) :
    (m.step code).Beyond proto pc fs := by
  cases h with
  | @fetched above i b hf hproto hat hlater =>
    rcases kept_or_handed code hm hf rfl rfl with ⟨above', hf', -⟩ | ⟨rfl, outcome, hc⟩
    · -- it is still at its safepoint
      exact .fetched hf' hproto hat hlater
    · simp only [step, hc, deliver, hf, List.nil_append] at hleft ⊢
      cases outcome with
      | ok vs => exact .executes rfl rfl hproto hat hlater
      | error e => exact absurd rfl hleft
  | @executes i b hc hf hproto hat hlater =>
    simp only [step, hc, hf] at hleft ⊢
    -- a jump of forward code goes behind the instruction
    have hjumps : ∀ target, i = .jump target ∨ i = .jumpIfFalse target → b.pc ≤ target := by
      intro target hjump
      have hle := hforward.succ_le_target hat hjump
      omega
    rcases lands_execute { m with frames := fs, control := .execute i } b i hjumps with
      hlands | ⟨await, -, hf', hw⟩
    · exact hlands.beyond hproto hlater hleft
    · rw [← List.nil_append (_ :: fs)] at hf'
      exact .calls hf' hw hproto hlater
  | @calls above await b hf hw hproto hlater =>
    have hscript : (Frame.script b await : Frame κ τ ρ).waitsFor .script = false := by
      cases await <;> first | rfl | cases hw
    rcases kept_or_handed code hm hf hscript (by cases await <;> rfl) with
      ⟨above', hf', -⟩ | ⟨rfl, outcome, hc⟩
    · exact .calls hf' hw hproto hlater
    · simp only [step, hc, deliver, hf, List.nil_append] at hleft ⊢
      exact (lands_deliverScript { m with frames := fs, control := .deliver outcome } b hw
        outcome).beyond hproto hlater hleft
  | @fetches b hc hf hproto hlater =>
    -- the next instruction is at a later place still
    rw [← hproto]
    exact (beyond_of_fetch code hc hf hleft).mono (Nat.le_of_lt hlater)

end Machine

namespace Life

variable {code : Meaning κ τ ρ} {fs : List (Frame κ τ ρ)}

/-- What others do changes nothing about what a function has passed. -/
private theorem beyond_of_aside (l : Life code) {n pc : Nat} {proto : Prototype}
    (h : (l.state n).machine.Beyond proto pc fs) (he : l.event n ≠ .advance) :
    (l.state (n + 1)).machine.Beyond proto pc fs := by
  cases h with
  -- frames stay through whatever else happens, and so does what is done next
  | fetched hf hproto hat hlater =>
    exact .fetched ((l.frames_aside he (by simp [hf])).1.trans hf) hproto hat hlater
  | calls hf hw hproto hlater =>
    exact .calls ((l.frames_aside he (by simp [hf])).1.trans hf) hw hproto hlater
  | executes hc hf hproto hat hlater =>
    obtain ⟨hcontrol, hframes, -⟩ := l.control_aside he (by rw [hc]; rfl) (by simp [hc])
    exact .executes (hcontrol.trans hc) (hframes.trans hf) hproto hat hlater
  | fetches hc hf hproto hlater =>
    obtain ⟨hcontrol, hframes, -⟩ := l.control_aside he (by rw [hc]; rfl) (by simp [hc])
    exact .fetches (hcontrol.trans hc) (hframes.trans hf) hproto hlater

/-- With the same frames below it, a frame on top is the only one above them. -/
private theorem top_eq_of_append {above : List (Frame κ τ ρ)} {f g : Frame κ τ ρ}
    (h : f :: fs = above ++ g :: fs) : f = g := by
  cases above with
  | nil => exact (List.cons.inj h).1
  | cons _ above => exact absurd (List.cons.inj h).2 (frames_ne above g)

/-- A script function of forward code that fetches an instruction is at a later place of its code
whenever it fetches again, as long as it was not left in between. -/
theorem pc_lt_of_fetches (l : Life code) {i j : Nat} {a b : Activation κ} (hij : i < j)
    (hstep : l.event i = .advance) (hi : (l.state i).machine.control = .fetch)
    (hfi : (l.state i).machine.frames = .script a .ready :: fs) (hforward : a.proto.IsForward)
    (hj : (l.state j).machine.control = .fetch)
    (hfj : (l.state j).machine.frames = .script b .ready :: fs)
    (hstays : ∀ n, i < n → n < j → (l.state n).machine.frames ≠ fs) : a.pc < b.pc := by
  have hon : ∀ n, i < n → n ≤ j → (l.state n).machine.frames ≠ fs := by
    intro n hin hnj
    rcases Nat.lt_or_eq_of_le hnj with hlt | rfl
    · exact hstays n hin hlt
    · simp [hfj]
  -- from the first fetch on, the function stays beyond its first place
  have hbeyond : ∀ n, i < n → n ≤ j → (l.state n).machine.Beyond a.proto a.pc fs := by
    intro n hin
    induction n, hin using Nat.le_induction with
    | base =>
      intro hle
      have hleft := hon (i + 1) (Nat.lt_succ_self i) hle
      rw [l.machine_succ hstep] at hleft ⊢
      exact Machine.beyond_of_fetch code hi hfi hleft
    | succ n hin ih =>
      intro hle
      have hn := ih (by omega)
      by_cases he : l.event n = .advance
      · have hleft := hon (n + 1) (by omega) hle
        rw [l.machine_succ he] at hleft ⊢
        exact Machine.beyond_step code (l.steady n).machine hforward hn hleft
      · exact l.beyond_of_aside hn he
  -- at the second fetch the function is on top, and waits for nothing
  cases hbeyond j hij (Nat.le_refl j) with
  | fetched hf => exact absurd (top_eq_of_append (hfj.symm.trans hf)) (by simp)
  | calls hf hw =>
    rw [← top_eq_of_append (hfj.symm.trans hf)] at hw
    exact nomatch hw
  | executes hc => exact absurd (hc.symm.trans hj) (by simp)
  | fetches _ hf _ hlater =>
    have hfb := hfj.symm.trans hf
    simp only [List.cons.injEq, Frame.script.injEq, and_true] at hfb
    rwa [hfb]

end Life

end Safepoint
