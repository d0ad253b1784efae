import Mathlib.Algebra.Order.Group.Multiset
import Safepoint.Proofs.Memory.Store

/-!
# What values hold

The holdings of values, of what host code holds, and of the globals and the stack of an interpreter.
Wherever a value is taken from one place and put to another, the two places are told to hold the
same as before; and for each thing that is done to the store with values there is one lemma that
says what it makes of the holdings.

## Key results

- `Held.holdings_take`, `Held.holdings_takeAll`: what is taken out of what host code holds is held
  by what it is put into
- `Globals.holdings_set`: a variable that is set takes over one value and gives up another
- `Store.Keeps.openOn`, `Store.Keeps.discard`: an interpreter takes its own block, and gives back
  all that it has
-/

namespace Safepoint

variable {κ : Type}

/-! ## Values -/

/-- What a value holds. -/
def Value.holdings : Value κ → Multiset Holding
  | .str s => {.string s}
  | _ => 0

/-- What several values hold. -/
def holdingsOf (vs : List (Value κ)) : Multiset Holding :=
  (vs.map Value.holdings).sum

section

variable {vs ws : List (Value κ)} {v : Value κ}

@[simp] theorem Value.holdings_nil : (Value.nil : Value κ).holdings = 0 := rfl

@[simp] theorem holdingsOf_nil : holdingsOf ([] : List (Value κ)) = 0 := rfl

@[simp] theorem holdingsOf_cons : holdingsOf (v :: vs) = v.holdings + holdingsOf vs := by
  simp [holdingsOf]

/-- Holdings of two rows of values are counted together. -/
@[simp] theorem holdingsOf_append : holdingsOf (vs ++ ws) = holdingsOf vs + holdingsOf ws := by
  simp [holdingsOf]

/-- Nil holds nothing. -/
@[simp] theorem holdingsOf_replicate (n : Nat) :
    holdingsOf (List.replicate n (Value.nil : Value κ)) = 0 := by
  induction n with
  | zero => rfl
  | succ n ih => simp [List.replicate_succ, ih]

/-- What is taken from the front and what is left make up the whole. -/
theorem holdingsOf_take_add_drop (n : Nat) (vs : List (Value κ)) :
    holdingsOf (vs.take n) + holdingsOf (vs.drop n) = holdingsOf vs := by
  rw [← holdingsOf_append, List.take_append_drop]

/-- A value among others holds no more than they do. -/
theorem holdings_le (h : v ∈ vs) : v.holdings ≤ holdingsOf vs := by
  obtain ⟨before, after, rfl⟩ := List.append_of_mem h
  rw [holdingsOf_append, holdingsOf_cons]
  exact (Multiset.le_add_right _ _).trans (Multiset.le_add_left _ _)

/-- A row from some value on begins with that value. -/
private theorem drop_of_getElem? {i : Nat} (h : vs[i]? = some v) :
    vs.drop i = v :: vs.drop (i + 1) := by
  obtain ⟨hlt, rfl⟩ := List.getElem?_eq_some_iff.mp h
  exact List.drop_eq_getElem_cons hlt

/-- A value that is put in the place of another. -/
theorem holdingsOf_set {i : Nat} {old : Value κ} (h : vs[i]? = some old) :
    holdingsOf (vs.set i v) + old.holdings = holdingsOf vs + v.holdings :=
  sum_map_set Value.holdings h v

end

/-! ## Host code -/

namespace Held

/-- What host code holds. -/
def holdings (held : Held) : Multiset Holding :=
  ↑(held.map Holding.string)

variable {held held' : Held} {v v' : Value κ} {vs vs' : List (Value κ)}

@[simp] theorem holdings_nil : holdings [] = 0 := rfl

@[simp] theorem holdings_cons (s : Str) :
    holdings (s :: held) = {.string s} + holdings held := by
  simp [holdings]

/-- What host code holds in two parts it holds together. -/
@[simp] theorem holdings_append (held held' : Held) :
    holdings (held ++ held') = held.holdings + held'.holdings := by
  simp only [holdings, List.map_append]
  rfl

/-- Host code holds one more value. -/
@[simp] theorem holdings_add : (held.add v).holdings = held.holdings + v.holdings := by
  cases v <;> simp [add, Value.holdings]

/-- Host code holds more values. -/
@[simp] theorem holdings_addAll : (held.addAll vs).holdings = held.holdings + holdingsOf vs := by
  induction vs generalizing held with
  | nil => simp [addAll]
  | cons v vs ih =>
    show ((held.add v).addAll vs).holdings = _
    rw [ih, holdings_add, holdingsOf_cons, add_assoc]

/-- The string that is held where one is looked up is held once less when it is dropped. -/
theorem holdings_drop {s t : Str} (h : held.lookup s = some t) :
    held.holdings = {.string t} + (held.drop s).holdings := by
  induction held with
  | nil => exact nomatch h
  | cons u held ih =>
    unfold lookup drop at *
    -- either the first is the one that is looked for, or it stays in front
    by_cases hu : samePlace s u = true
    · obtain rfl : u = t := by simpa [List.find?_cons, hu] using h
      simp [hu]
    · have hrest : List.find? (samePlace s) held = some t := by
        simpa [List.find?_cons, hu] using h
      rw [List.eraseP_cons_of_neg hu, holdings_cons, holdings_cons, ih hrest]
      abel

/-- What is taken out is held by what was taken. -/
theorem holdings_take (held : Held) (v : Value κ) :
    held.holdings = (held.take v).1.holdings + (held.take v).2.holdings := by
  unfold take
  split
  next s =>
    split
    next t hlookup => exact holdings_drop hlookup
    next => simp
  next hother =>
    cases v with
    -- other values are held by nobody
    | str s => exact absurd rfl (hother s)
    | _ => simp [Value.holdings]

/-- What is taken out of the hands of host code, and what it keeps, make up what it had. -/
theorem holdings_takeAll (held : Held) (vs : List (Value κ)) :
    held.holdings = holdingsOf (held.takeAll vs).1 + (held.takeAll vs).2.holdings := by
  induction vs generalizing held with
  | nil => simp [takeAll]
  | cons v vs ih =>
    have hfirst := held.holdings_take v
    have hrest := ih (held.take v).2
    rw [hfirst, hrest, ← add_assoc, ← holdingsOf_cons]
    rfl

end Held

/-! ## Globals -/

namespace Globals

/-- What variables hold. -/
def holdings (g : Globals κ) : Multiset Holding :=
  holdingsOf g.values

/-- No name is used twice. -/
def Distinct (g : Globals κ) : Prop :=
  (g.entries.map Prod.fst).Nodup

variable {g : Globals κ} {name : String} {v : Value κ}

/-- Where there are no globals, none is there twice. -/
theorem distinct_empty : (empty : Globals κ).Distinct :=
  List.nodup_nil

/-- To take a global out leaves no name twice. -/
theorem Distinct.erase (h : g.Distinct) (name : String) : (g.erase name).Distinct :=
  h.sublist (List.filter_sublist.map _)

/-- To set a global leaves no name twice. -/
theorem Distinct.set (h : g.Distinct) (name : String) (v : Value κ) : (g.set name v).Distinct := by
  unfold Globals.set
  split
  · exact h.erase name
  · refine List.nodup_cons.mpr ⟨?_, h.erase name⟩
    simp [Globals.erase]

/-- A variable that is removed held its value. -/
theorem holdings_erase (h : g.Distinct) (name : String) :
    g.holdings = (g.get name).holdings + (g.erase name).holdings := by
  obtain ⟨entries⟩ := g
  unfold Distinct at h
  unfold holdings values erase get
  induction entries with
  | nil => simp
  | cons e rest ih =>
    obtain ⟨n, w⟩ := e
    obtain ⟨hnew, hrest⟩ := List.nodup_cons.mp h
    -- either the first entry has the name, and is the only one, or it stays
    by_cases hn : n = name
    · subst hn
      -- the name is used no more in what follows
      have hothers : rest.filter (fun e => e.1 != n) = rest := by
        rw [List.filter_eq_self]
        intro e he
        have hne : e.1 ≠ n := fun heq => hnew (List.mem_map.mpr ⟨e, he, heq⟩)
        simpa using hne
      simp [hothers]
    · have hb : (name == n) = false := by simpa using Ne.symm hn
      have ih := ih hrest
      simp only [List.map_cons, holdingsOf_cons, List.lookup_cons, hb] at ih ⊢
      rw [ih, List.filter_cons_of_pos (by simpa using hn), List.map_cons, holdingsOf_cons]
      abel

/-- A variable that is set takes over one value and gives up another. -/
theorem holdings_set (h : g.Distinct) (name : String) (v : Value κ) :
    g.holdings + v.holdings = (g.get name).holdings + (g.set name v).holdings := by
  rw [holdings_erase h name]
  unfold Globals.set
  split
  -- nil is not kept as an entry
  next hnil =>
    obtain rfl : v = .nil := by cases v <;> simp_all [Value.isNil]
    simp
  next =>
    simp only [holdings, values, List.map_cons, holdingsOf_cons]
    abel

/-- A global is among what the globals hold. -/
theorem holdings_get_le (h : g.Distinct) (name : String) :
    (g.get name).holdings ≤ g.holdings := by
  rw [holdings_erase h name]
  exact Multiset.le_add_right _ _

end Globals

/-! ## The store -/

namespace Store

variable {s s' s₀ : Store} {k : Nat} {G : Multiset Holding} {v : Value κ} {vs : List (Value κ)}

/-- One hold more on a value that is held. -/
theorem Keeps.retainValue (hs : s₀.Keeps s G) (hle : v.holdings ≤ G) :
    s₀.Keeps (s.retainValue v) (v.holdings + G) := by
  cases v with
  | str str =>
    have hmem : Holding.string str ∈ G := Multiset.singleton_le.mp hle
    exact hs.retain hmem
  | nil | bool | int | fn =>
    show s₀.Keeps s (0 + G)
    rw [zero_add]
    exact hs

/-- A value that is let go of is held once less. -/
theorem Keeps.releaseValue (hs : s₀.Keeps s (v.holdings + G)) :
    s₀.Keeps (s.releaseValue v) G := by
  cases v with
  | str str => exact Keeps.release hs
  | nil | bool | int | fn =>
    replace hs : s₀.Keeps s (0 + G) := hs
    rw [zero_add] at hs
    exact hs

/-- Values are let go of one after the other. -/
theorem Keeps.releaseAll (hs : s₀.Keeps s (holdingsOf vs + G)) : s₀.Keeps (s.releaseAll vs) G := by
  induction vs generalizing s with
  | nil =>
    rw [holdingsOf_nil, zero_add] at hs
    exact hs
  | cons v vs ih =>
    rw [holdingsOf_cons, add_assoc] at hs
    exact ih hs.releaseValue

/-- Host code lets go of all it holds. -/
theorem Keeps.letGo {held : Held} (hs : s₀.Keeps s (held.holdings + G)) :
    s₀.Keeps (held.foldl Store.release s) G := by
  induction held generalizing s with
  | nil =>
    rw [Held.holdings_nil, zero_add] at hs
    exact hs
  | cons str held ih =>
    rw [Held.holdings_cons, add_assoc] at hs
    exact ih (Keeps.release hs)

/-- A string value is made with one hold. -/
theorem Keeps.newValue (hs : s₀.Keeps s G) {bytes : Bytes}
    (hnew : s.newValue k bytes = (s', some v)) : s₀.Keeps s' (v.holdings + G) := by
  simp only [Store.newValue] at hnew
  split at hnew
  next s₁ str hstr =>
    obtain ⟨rfl, hv⟩ := Prod.mk.inj hnew
    obtain rfl := Option.some.inj hv
    exact (hs.newString hstr).1
  next => simp at hnew

/-- A value that was refused leaves all in order. -/
theorem Keeps.newValue_refused (hs : s₀.Keeps s G) {bytes : Bytes}
    (hnew : s.newValue (κ := κ) k bytes = (s', none)) : s₀.Keeps s' G := by
  simp only [Store.newValue] at hnew
  split at hnew
  next => simp at hnew
  next s₁ hstr =>
    obtain ⟨rfl, -⟩ := Prod.mk.inj hnew
    exact hs.newString_refused hstr

end Store

/-! ## Interpreters -/

namespace Interpreter

/-- What an interpreter holds: its own block, its stack and its globals. -/
def holdings (i : Interpreter κ) : Multiset Holding :=
  {.seat i.heap i.block} + (holdingsOf i.stack.toList + i.globals.holdings)

variable {i : Interpreter κ}

/-- A value that is pushed is held. -/
theorem holdings_push (v : Value κ) : (i.push v).holdings = v.holdings + i.holdings := by
  simp only [holdings, push, Array.toList_push, holdingsOf_append, holdingsOf_cons, holdingsOf_nil]
  abel

/-- What is popped is held no more. -/
theorem holdings_pop (n : Nat) :
    i.holdings = holdingsOf (i.stack.toList.drop (i.stack.size - n)) + (i.pop n).holdings := by
  simp only [holdings, pop, Array.toList_shrink]
  rw [← holdingsOf_take_add_drop (i.stack.size - n) i.stack.toList]
  abel

/-- The interpreter holds what lies on its stack. -/
theorem holdings_le_of_mem {v : Value κ} (h : v ∈ i.stack.toList) : v.holdings ≤ i.holdings :=
  (holdings_le h).trans ((Multiset.le_add_right _ _).trans (Multiset.le_add_left _ _))

/-- The last value of a stack stands in its last place. -/
private theorem getElem?_of_back? {v : Value κ} (h : i.stack.back? = some v) :
    i.stack.toList[i.stack.size - 1]? = some v := by
  rwa [Array.back?_eq_getElem?, ← Array.getElem?_toList] at h

/-- The top value is held by whoever looked at it, once it is popped. -/
theorem holdings_of_top {v : Value κ} (h : i.top = .ok v) :
    i.holdings = v.holdings + (i.pop 1).holdings := by
  simp only [top] at h
  split at h
  · exact nomatch h
  next hfloor =>
    split at h
    next w hback =>
      obtain rfl := Except.ok.inj h
      -- the value on top, and nothing above it
      rw [holdings_pop 1, drop_of_getElem? (getElem?_of_back? hback), List.drop_eq_nil_of_le]
      · simp
      · rw [Array.length_toList]
        omega
    next => exact nomatch h

/-- The two top values likewise. -/
theorem holdings_of_topTwo {v w : Value κ} (h : i.topTwo = .ok (v, w)) :
    i.holdings = holdingsOf [v, w] + (i.pop 2).holdings := by
  simp only [topTwo] at h
  split at h
  · exact nomatch h
  next hfloor =>
    split at h
    next a b ha hb =>
      obtain ⟨rfl, rfl⟩ := Prod.mk.inj (Except.ok.inj h)
      rw [← Array.getElem?_toList] at ha
      have hnext : i.stack.size - 2 + 1 = i.stack.size - 1 := by omega
      -- the two top values, one above the other
      rw [holdings_pop 2, drop_of_getElem? ha, hnext, drop_of_getElem? (getElem?_of_back? hb),
        List.drop_eq_nil_of_le]
      rw [Array.length_toList]
      omega
    next => exact nomatch h

/-- A function and its arguments likewise. -/
theorem holdings_of_topCall {argc : Nat} {f : Value κ} {args : List (Value κ)}
    (h : i.topCall argc = .ok (f, args)) :
    i.holdings = f.holdings + holdingsOf args + (i.pop (argc + 1)).holdings := by
  simp only [topCall] at h
  split at h
  · exact nomatch h
  next hfloor =>
    split at h
    next g hg =>
      obtain ⟨rfl, rfl⟩ := Prod.mk.inj (Except.ok.inj h)
      rw [← Array.getElem?_toList, Nat.sub_sub] at hg
      have hnext : i.stack.size - (argc + 1) + 1 = i.stack.size - argc := by omega
      have hargs : (i.stack.extract (i.stack.size - argc) i.stack.size).toList =
          i.stack.toList.drop (i.stack.size - argc) := by
        simp
      -- the function, and then its arguments up to the top
      rw [holdings_pop (argc + 1), drop_of_getElem? hg, hnext, hargs, holdingsOf_cons]
    next => exact nomatch h

end Interpreter

/-! ## Opening and closing -/

namespace Store

variable {s s' s₀ : Store} {k : Nat} {G : Multiset Holding} {i : Interpreter κ} {limits : Limits}

/-- An interpreter is opened with a block of its own. -/
theorem Keeps.openOn (hs : s₀.Keeps s G)
    (hopen : Interpreter.openOn s k limits = (s', .ok i)) :
    s₀.Keeps s' (i.holdings + G) ∧ i.heap = k ∧ i.globals.Distinct := by
  simp only [Interpreter.openOn] at hopen
  split at hopen
  · exact nomatch hopen
  · split at hopen
    next s₁ block hask =>
      obtain ⟨rfl, hi⟩ := Prod.mk.inj hopen
      obtain rfl := Except.ok.inj hi
      -- the only thing held so far is the block of its own
      have hkeeps := (hs.notes limits.notices).allocate (g := .seat k block) hask rfl rfl rfl
      refine ⟨?_, rfl, Globals.distinct_empty⟩
      have hholdings : (Interpreter.initial (κ := κ) k block limits).holdings =
          {.seat k block} := rfl
      rw [hholdings, Multiset.singleton_add]
      exact hkeeps.1
    next => exact nomatch hopen

/-- An interpreter that is not opened takes nothing. -/
theorem Keeps.openOn_refused (hs : s₀.Keeps s G) {e : Error}
    (hopen : Interpreter.openOn (κ := κ) s k limits = (s', .error e)) : s₀.Keeps s' G := by
  simp only [Interpreter.openOn] at hopen
  split at hopen
  · obtain ⟨rfl, -⟩ := Prod.mk.inj hopen
    exact hs
  · split at hopen
    next => exact nomatch hopen
    next s₁ hask =>
      obtain ⟨rfl, -⟩ := Prod.mk.inj hopen
      exact (hs.notes limits.notices).allocate_refused (by decide) hask

/-- An interpreter gives back all that it has. -/
theorem Keeps.discard (hs : s₀.Keeps s (i.holdings + G)) : s₀.Keeps (i.discard s) G := by
  -- values first, then globals, and the block of its own last
  have hall : i.holdings + G = holdingsOf i.stack.toList + (holdingsOf i.globals.values +
      (Holding.seat i.heap i.block ::ₘ G)) := by
    rw [← Multiset.singleton_add]
    unfold Interpreter.holdings Globals.holdings
    abel
  rw [hall] at hs
  have hs := hs.releaseAll.releaseAll
  -- an interpreter has its block to itself
  have hown : Holding.seat i.heap i.block ∉ G := by
    have hseat := hs.books.seats i.heap i.block
    rw [Multiset.count_cons_self] at hseat
    rw [← Multiset.count_eq_zero]
    omega
  exact hs.free hown

end Store

end Safepoint
