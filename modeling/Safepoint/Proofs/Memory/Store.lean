import Mathlib.Algebra.BigOperators.Group.List.Basic
import Mathlib.Algebra.Order.BigOperators.Group.Finset
import Mathlib.Tactic.Abel
import Safepoint.Lifecycle
import Safepoint.Proofs.Memory.Heap

/-!
# The store and what is held of it

`Store.Books s G` says that every heap of a store is in order as far as the holdings `G` go, and
that each counter reads the bytes that are live in the heaps it counts, modulo the range of its
word. Whatever is asked of a store is one change of one heap at a time, of which its counter is
told: `Store.Puts` is such a change.

`Store.Extends s₀ s` says that ledgers have only grown since `s₀`, and that no block that there was
then has been resized since. `Store.Keeps s₀ s G` is both together, and there is one lemma for each
operation on strings that says what it makes of `G`.

## Key results

- `Keeps.newString`, `Keeps.concat`, `Keeps.retain`, `Keeps.release`: strings are made with one
  hold, and each hold more or fewer is accounted for
- `Keeps.openOn`, `Keeps.discard`: an interpreter takes its own block and gives it back, and lets go
  of what its stack and its globals hold
-/

namespace Safepoint

variable {κ : Type}

/-! ## Counters -/

/-- The bytes of a heap that a counter counts. -/
def Heap.counted (t : Nat) (h : Heap) : Nat :=
  if h.tracker = some t then h.live else 0

/-- The live bytes of all heaps that a counter counts. -/
def Store.total (s : Store) (t : Nat) : Nat :=
  (s.heaps.toList.map (Heap.counted t)).sum

/-- The counters after one of them, if any, was told of a block that was replaced. -/
def charge (trackers : Array Tracker) (t : Option Nat) (old new : Nat) : Array Tracker :=
  match t with
  | none => trackers
  | some t => trackers.modify t (·.account old new)

/-- A counter goes on to read its total when it is told of a block that was replaced. -/
theorem Tracker.toNat_account {tr : Tracker} {total total' old new : Nat}
    (h : tr.allocated.toNat = total % 2 ^ 64) (htotal : total' + old = total + new) :
    (tr.account old new).allocated.toNat = total' % 2 ^ 64 := by
  unfold account
  split
  · rw [UInt64.toNat_add, UInt64.toNat_ofNat', h]
    -- a word that is added or subtracted wraps around, and so does the total
    omega
  · rw [UInt64.toNat_sub, UInt64.toNat_ofNat', h]
    omega

/-- Nothing for nothing leaves a counter alone. -/
theorem Tracker.account_zero (tr : Tracker) : tr.account 0 0 = tr := by
  simp [account]

/-- A heap whose call came to nothing has its counter told of nothing. -/
theorem charge_zero (trackers : Array Tracker) (t : Option Nat) :
    charge trackers t 0 0 = trackers := by
  cases t with
  | none => rfl
  | some t =>
    apply Array.ext_getElem?
    intro i
    simp only [charge, Array.getElem?_modify, Tracker.account_zero]
    split <;> simp

/-- One element of a list is replaced in a sum over it. -/
theorem sum_map_set {α M : Type} [AddCommMonoid M] (f : α → M) {xs : List α} {k : Nat} {x : α}
    (h : xs[k]? = some x) (y : α) : ((xs.set k y).map f).sum + f x = (xs.map f).sum + f y := by
  -- the induction is on the list up to the place
  induction xs generalizing k with
  | nil => exact nomatch h
  | cons z xs ih =>
    cases k with
    | zero =>
      obtain rfl : z = x := by simpa using h
      simp only [List.set_cons_zero, List.map_cons, List.sum_cons]
      abel
    | succ k =>
      have hrest := ih (k := k) (by simpa using h)
      simp only [List.set_cons_succ, List.map_cons, List.sum_cons]
      rw [add_assoc, hrest, add_assoc]

namespace Store

/-! ## Books -/

/-- A store is in order as far as some holdings go. -/
structure Books (s : Store) (G : Multiset Holding) : Prop where
  heaps : ∀ (k : Nat) (h : Heap), s.heaps[k]? = some h → h.Books k G
  within : ∀ g ∈ G, g.heap < s.heaps.size
  /-- An interpreter has its own block to itself. -/
  seats : ∀ k block, G.count (.seat k block) ≤ 1
  trackers : ∀ (k : Nat) (h : Heap) t, s.heaps[k]? = some h → h.tracker = some t →
    t < s.trackers.size
  balanced : ∀ (t : Nat) (tr : Tracker), s.trackers[t]? = some tr →
    tr.allocated.toNat = s.total t % 2 ^ 64

/-- One heap has changed, and its counter was told of a block that was replaced. -/
structure Puts (s s' : Store) (k : Nat) (h h' : Heap) (old new : Nat) : Prop where
  heap : s.heaps[k]? = some h
  heaps : s'.heaps = s.heaps.setIfInBounds k h'
  trackers : s'.trackers = charge s.trackers h.tracker old new

variable {s s' s₀ : Store} {k : Nat} {h h' : Heap} {old new : Nat} {G G' : Multiset Holding}

/-- One heap of the store is another one now. -/
theorem Puts.getElem? (hp : s.Puts s' k h h' old new) (j : Nat) :
    s'.heaps[j]? = if j = k then some h' else s.heaps[j]? := by
  have hlt : k < s.heaps.size := by
    obtain ⟨hlt, -⟩ := Array.getElem?_eq_some_iff.mp hp.heap
    exact hlt
  rw [hp.heaps, Array.getElem?_setIfInBounds]
  by_cases hj : j = k
  · simp [hj, hlt]
  · simp [hj, Ne.symm hj]

/-- No heap joins or leaves. -/
theorem Puts.size_heaps (hp : s.Puts s' k h h' old new) : s'.heaps.size = s.heaps.size := by
  rw [hp.heaps, Array.size_setIfInBounds]

/-- No counter joins or leaves. -/
theorem Puts.size_trackers (hp : s.Puts s' k h h' old new) :
    s'.trackers.size = s.trackers.size := by
  rw [hp.trackers]
  cases h.tracker <;> simp [charge]

/-- The books of a store after one change. -/
theorem Books.puts (hs : s.Books G) (hp : s.Puts s' k h h' old new)
    (htracker : h'.tracker = h.tracker) (hlive : h'.live + old = h.live + new)
    (hbooks : h'.Books k G') (hother : ∀ j hj, j ≠ k → Heap.Books j hj G → Heap.Books j hj G')
    (hwithin : ∀ g ∈ G', g ∈ G ∨ g.heap = k)
    (hseats : ∀ i block, G'.count (.seat i block) ≤ 1) : s'.Books G' := by
  -- the totals of the counters change with what the one heap has in it
  have htotal (t : Nat) : s'.total t + h.counted t = s.total t + h'.counted t := by
    unfold total
    rw [hp.heaps, Array.toList_setIfInBounds]
    exact sum_map_set _ (by rw [Array.getElem?_toList]; exact hp.heap) h'
  constructor
  -- the books of each heap
  · intro j hj hget
    rw [hp.getElem?] at hget
    split at hget
    next heq =>
      obtain rfl := Option.some.inj hget
      rw [heq]
      exact hbooks
    next hne => exact hother j hj hne (hs.heaps j hj hget)
  -- whatever is held, is held of a heap that is there
  · intro g hg
    rw [hp.size_heaps]
    rcases hwithin g hg with hg | rfl
    · exact hs.within g hg
    · obtain ⟨hlt, -⟩ := Array.getElem?_eq_some_iff.mp hp.heap
      exact hlt
  · exact hseats
  -- every counter that a heap has is there
  · intro j hj t hget ht
    rw [hp.size_trackers]
    rw [hp.getElem?] at hget
    split at hget
    · obtain rfl := Option.some.inj hget
      exact hs.trackers k h t hp.heap (by rw [← htracker, ht])
    · exact hs.trackers j hj t hget ht
  -- and each counter reads its total: the one that the heap has, and the others
  · intro t tr hget
    have htotal := htotal t
    rw [hp.trackers] at hget
    unfold Heap.counted at htotal
    rw [htracker] at htotal
    cases htr : h.tracker with
    | none =>
      rw [htr] at hget htotal
      rw [hs.balanced t tr hget]
      congr 1
      simpa using htotal.symm
    | some t' =>
      rw [htr] at hget htotal
      simp only [charge, Array.getElem?_modify] at hget
      by_cases heq : t' = t
      · subst heq
        rw [if_pos rfl] at hget htotal
        obtain ⟨tr', hget', rfl⟩ := Option.map_eq_some_iff.mp hget
        rw [if_pos rfl] at htotal
        exact Tracker.toNat_account (hs.balanced t' tr' hget') (by omega)
      · rw [if_neg heq] at hget
        rw [hs.balanced t tr hget]
        congr 1
        simpa [heq] using htotal.symm

/-! ## Ledgers that grow -/

end Store

/-- A heap has come from an earlier one by calls of its callback, none of which was to resize a
block that there was then. -/
structure Heap.Extends (h₀ h : Heap) : Prop where
  tracker : h.tracker = h₀.tracker
  size : h₀.blocks.size ≤ h.blocks.size
  ledger : ∃ calls, h.ledger.toList = h₀.ledger.toList ++ calls ∧
    ∀ c ∈ calls, ∀ block, c.resized? = some block → h₀.blocks.size ≤ block

/-- Nothing has happened to a heap yet. -/
theorem Heap.Extends.refl (h : Heap) : h.Extends h :=
  ⟨rfl, Nat.le_refl _, [], by simp, by simp⟩

/-- What changes neither ledger nor the number of blocks goes unnoticed. -/
theorem Heap.Extends.congr {h₀ h h' : Heap} (he : h₀.Extends h) (htracker : h'.tracker = h.tracker)
    (hsize : h'.blocks.size = h.blocks.size) (hledger : h'.ledger = h.ledger) : h₀.Extends h' := by
  obtain ⟨ht, hs, hl⟩ := he
  exact ⟨htracker.trans ht, by rw [hsize]; exact hs, by rw [hledger]; exact hl⟩

/-- One more call. -/
theorem Heap.Extends.call {h₀ h h' : Heap} (he : h₀.Extends h) {c : HeapCall}
    (htracker : h'.tracker = h.tracker) (hsize : h.blocks.size ≤ h'.blocks.size)
    (hledger : h'.ledger = h.ledger.push c)
    (hnew : ∀ block, c.resized? = some block → h₀.blocks.size ≤ block) : h₀.Extends h' := by
  obtain ⟨ht, hs, calls, hl, hcalls⟩ := he
  -- the calls go on from where the ledger was
  refine ⟨htracker.trans ht, Nat.le_trans hs hsize, calls ++ [c], ?_, ?_⟩
  · rw [hledger, Array.toList_push, hl, List.append_assoc]
  · intro c' hc'
    rcases List.mem_append.mp hc' with hc' | hc'
    · exact hcalls c' hc'
    · obtain rfl : c' = c := by simpa using hc'
      exact hnew

namespace Store

/-- A store has come from an earlier one by calls of the callbacks, none of which was to resize a
block that there was then. -/
def Extends (s₀ s : Store) : Prop :=
  ∀ (k : Nat) (h₀ : Heap), s₀.heaps[k]? = some h₀ → ∃ h, s.heaps[k]? = some h ∧ h₀.Extends h

/-- Nothing has happened to a store yet. -/
theorem Extends.refl (s : Store) : s.Extends s :=
  fun _ h hget => ⟨h, hget, .refl h⟩

/-- No heap goes. -/
theorem Extends.size_le {s₀ s : Store} (h : s₀.Extends s) : s₀.heaps.size ≤ s.heaps.size := by
  apply Nat.le_of_not_lt
  intro hlt
  obtain ⟨h', hget, -⟩ := h _ _ (Array.getElem?_eq_getElem hlt)
  simp at hget

/-- A heap is counted by the same counter for good. -/
theorem Extends.trackerOf_eq {s₀ s : Store} (h : s₀.Extends s) {k : Nat}
    (hk : k < s₀.heaps.size) : s.trackerOf k = s₀.trackerOf k := by
  obtain ⟨h', hget, he⟩ := h k _ (Array.getElem?_eq_getElem hk)
  unfold trackerOf
  rw [hget, Array.getElem?_eq_getElem hk]
  exact he.tracker

/-- A store is in order, and has come from an earlier one. -/
structure Keeps (s₀ s : Store) (G : Multiset Holding) : Prop where
  extended : s₀.Extends s
  books : s.Books G

variable {s s' s₀ : Store} {k : Nat} {h h' : Heap} {old new : Nat} {g g' : Holding}
  {G G' : Multiset Holding}

/-- A store goes on with each heap, and this one has gone on as well. -/
theorem Extends.puts (he : s₀.Extends s) (hp : s.Puts s' k h h' old new)
    (hext : ∀ h₀, s₀.heaps[k]? = some h₀ → Heap.Extends h₀ h → Heap.Extends h₀ h') :
    s₀.Extends s' := by
  intro j h₀ hget₀
  obtain ⟨hj, hget, hextends⟩ := he j h₀ hget₀
  rw [hp.getElem?]
  split
  next heq =>
    subst heq
    obtain rfl : h = hj := by simpa [hp.heap] using hget
    exact ⟨h', rfl, hext h₀ hget₀ hextends⟩
  next => exact ⟨hj, hget, hextends⟩

/-- One change of a heap that leaves what is held as it is. -/
private theorem Keeps.puts (hs : s₀.Keeps s G) (hp : s.Puts s' k h h' old new)
    (htracker : h'.tracker = h.tracker) (hlive : h'.live + old = h.live + new)
    (hbooks : h.Books k G → h'.Books k G)
    (hext : ∀ h₀, s₀.heaps[k]? = some h₀ → Heap.Extends h₀ h → Heap.Extends h₀ h') :
    s₀.Keeps s' G where
  extended := hs.extended.puts hp hext
  books := hs.books.puts hp htracker hlive (hbooks (hs.books.heaps k h hp.heap))
    (fun _ _ _ hbj => hbj) (fun _ hg' => .inl hg') hs.books.seats

/-- One change of a heap, by which there is one holding more of that heap. -/
private theorem Keeps.puts_add (hs : s₀.Keeps s G) (hp : s.Puts s' k h h' old new)
    (hk : g.heap = k) (hseat : (∃ block, g = .seat k block) → g ∉ G)
    (htracker : h'.tracker = h.tracker) (hlive : h'.live + old = h.live + new)
    (hbooks : h.Books k G → h'.Books k (g ::ₘ G))
    (hext : ∀ h₀, s₀.heaps[k]? = some h₀ → Heap.Extends h₀ h → Heap.Extends h₀ h') :
    s₀.Keeps s' (g ::ₘ G) where
  extended := hs.extended.puts hp hext
  books := by
    apply hs.books.puts hp htracker hlive (hbooks (hs.books.heaps k h hp.heap))
    · intro j hj hne hbj
      exact (Heap.books_cons_of_ne (by rw [hk]; exact Ne.symm hne)).mpr hbj
    · intro g' hg'
      rcases Multiset.mem_cons.mp hg' with rfl | hg'
      · exact .inr hk
      · exact .inl hg'
    -- a seat that is taken was free before, so it is taken once
    · intro i block
      by_cases heq : .seat i block = g
      · have hi : i = k := by rw [← hk, ← heq]; rfl
        rw [heq, Multiset.count_cons_self,
          Multiset.count_eq_zero_of_notMem (hseat ⟨block, by rw [← hi, heq]⟩)]
      · rw [Multiset.count_cons_of_ne heq]
        exact hs.books.seats i block

/-- One change of a heap, by which there is one holding fewer of that heap. -/
private theorem Keeps.puts_sub (hs : s₀.Keeps s (g ::ₘ G)) (hp : s.Puts s' k h h' old new)
    (hk : g.heap = k)
    (htracker : h'.tracker = h.tracker) (hlive : h'.live + old = h.live + new)
    (hbooks : h.Books k (g ::ₘ G) → h'.Books k G)
    (hext : ∀ h₀, s₀.heaps[k]? = some h₀ → Heap.Extends h₀ h → Heap.Extends h₀ h') :
    s₀.Keeps s' G where
  extended := hs.extended.puts hp hext
  books := by
    apply hs.books.puts hp htracker hlive (hbooks (hs.books.heaps k h hp.heap))
    · intro j hj hne hbj
      exact (Heap.books_cons_of_ne (by rw [hk]; exact Ne.symm hne)).mp hbj
    · exact fun _ hg' => .inl (Multiset.mem_cons_of_mem hg')
    · intro i block
      exact (Multiset.count_le_count_cons _ _ _).trans (hs.books.seats i block)

/-- Only heaps and counters count. -/
theorem Keeps.congr (hs : s₀.Keeps s G) (hheaps : s'.heaps = s.heaps)
    (htrackers : s'.trackers = s.trackers) : s₀.Keeps s' G := by
  obtain ⟨hext, hheap, hwithin, hseats, htr, hbal⟩ := hs
  -- the totals are sums over the heaps
  have htotal (t : Nat) : s'.total t = s.total t := by
    unfold total
    rw [hheaps]
  refine ⟨?_, ?_, ?_, hseats, ?_, ?_⟩
  · unfold Extends
    rw [hheaps]
    exact hext
  · rw [hheaps]
    exact hheap
  · rw [hheaps]
    exact hwithin
  · rw [hheaps, htrackers]
    exact htr
  · intro t tr hget
    rw [htotal]
    exact hbal t tr (by rw [← htrackers, hget])

/-- A notice changes nothing that counts. -/
theorem Keeps.note (hs : s₀.Keeps s G) (n : Notice) : s₀.Keeps (s.note n) G :=
  hs.congr rfl rfl

/-- A store is kept in order while notices are written to the journal. -/
theorem Keeps.notes (hs : s₀.Keeps s G) (notices : List Notice) :
    s₀.Keeps (notices.foldl Store.note s) G := by
  induction notices generalizing s with
  | nil => exact hs
  | cons n rest ih => exact ih (hs.note n)

/-! ## What is asked of a heap -/

/-- What a callback is told of changes no heap. -/
theorem heaps_settle (s : Store) (k : Nat) (null : Bool) (osize new : Nat) (granted : Bool) :
    (s.settle k null osize new granted).heaps = s.heaps := by
  unfold settle
  split
  · rfl
  · split <;> rfl

/-- The counter of a heap is told of what was granted. -/
theorem trackers_settle (s : Store) (k : Nat) (null : Bool) (osize new : Nat) :
    (s.settle k null osize new true).trackers =
      charge s.trackers (s.trackerOf k) (Tracker.held null osize) new := by
  -- the callback counts what it takes for the size of the block as the one that goes
  have hrequest (tracker : Tracker) :
      (tracker.request null osize new true).1 = tracker.account (Tracker.held null osize) new := by
    unfold Tracker.request
    dsimp only
    split
    next h => rw [h]
    next => rfl
  unfold settle
  split
  next hnone => simp [charge, hnone]
  next t hsome =>
    simp only [charge, hsome]
    apply Array.ext_getElem?
    intro i
    rw [Array.getElem?_modify]
    split
    -- there is no such counter, so none is changed
    next hget =>
      split
      next heq =>
        rw [← heq, hget]
        rfl
      next => rfl
    next tracker hget =>
      show (s.trackers.setIfInBounds t (tracker.request null osize new true).1)[i]? = _
      rw [hrequest, Array.getElem?_setIfInBounds]
      split
      next heq =>
        subst heq
        obtain ⟨hlt, -⟩ := Array.getElem?_eq_some_iff.mp hget
        rw [if_pos hlt, hget]
        rfl
      next => rfl

/-- The counter of a heap is told nothing of what was refused. -/
theorem trackers_settle_refused (s : Store) (k : Nat) (null : Bool) (osize : Nat) {new : Nat}
    (hnew : 0 < new) : (s.settle k null osize new false).trackers = s.trackers := by
  unfold settle
  split
  · rfl
  next t hsome =>
    split
    · rfl
    -- to write a counter back as it was changes nothing
    next tracker hget =>
      have hrequest : (tracker.request null osize new false).1 = tracker := by
        simp [Tracker.request, Nat.ne_of_gt hnew]
      show s.trackers.setIfInBounds t (tracker.request null osize new false).1 = _
      rw [hrequest]
      obtain ⟨hlt, rfl⟩ := Array.getElem?_eq_some_iff.mp hget
      apply Array.ext'
      rw [Array.toList_setIfInBounds, ← Array.getElem_toList, List.set_getElem_self]

/-- What is asked of a heap changes that heap. -/
theorem ask_eq {α : Type} (hget : s.heaps[k]? = some h) (f : Heap → Heap × α) (refusal : α) :
    s.ask k f refusal = ({ s with heaps := s.heaps.setIfInBounds k (f h).1 }, (f h).2) := by
  simp [ask, hget]

/-- A heap that is not there refuses. -/
theorem ask_absent {α : Type} (hget : s.heaps[k]? = none) (f : Heap → Heap × α) (refusal : α) :
    s.ask k f refusal = (s, refusal) := by
  simp [ask, hget]

/-- A heap is replaced, and its counter is told what was granted. -/
private theorem puts_settle (hget : s.heaps[k]? = some h) (htracker : h'.tracker = h.tracker)
    (null : Bool) (osize new : Nat) :
    s.Puts (({ s with heaps := s.heaps.setIfInBounds k h' } : Store).settle k null osize new true)
      k h h' (Tracker.held null osize) new := by
  obtain ⟨hlt, -⟩ := Array.getElem?_eq_some_iff.mp hget
  refine ⟨hget, heaps_settle .., ?_⟩
  rw [trackers_settle]
  simp [trackerOf, hlt, htracker]

/-- A heap is replaced, and its counter is told nothing. -/
private theorem puts_settle_refused (hget : s.heaps[k]? = some h) (null : Bool) (osize : Nat)
    {new : Nat} (hnew : 0 < new) :
    s.Puts (({ s with heaps := s.heaps.setIfInBounds k h' } : Store).settle k null osize new false)
      k h h' 0 0 := by
  refine ⟨hget, heaps_settle .., ?_⟩
  rw [trackers_settle_refused _ _ _ _ hnew, charge_zero]

/-- A heap is changed without its callback. -/
private theorem puts_mapHeap (hget : s.heaps[k]? = some h) (f : Heap → Heap) :
    s.Puts (s.mapHeap k f) k h (f h) 0 0 := by
  refine ⟨hget, ?_, (charge_zero _ _).symm⟩
  apply Array.ext_getElem?
  intro j
  rw [Array.getElem?_setIfInBounds]
  simp only [mapHeap, Array.getElem?_modify]
  split
  next heq =>
    subst heq
    obtain ⟨hlt, -⟩ := Array.getElem?_eq_some_iff.mp hget
    rw [hget, if_pos hlt]
    rfl
  next => rfl

/-- A heap that was changed is changed once more without its callback. -/
private theorem Puts.mapHeap (hp : s.Puts s' k h h' old new) (f : Heap → Heap) :
    s.Puts (s'.mapHeap k f) k h (f h') old new := by
  have hget : s'.heaps[k]? = some h' := by rw [hp.getElem?, if_pos rfl]
  refine ⟨hp.heap, ?_, hp.trackers⟩
  rw [(puts_mapHeap hget f).heaps, hp.heaps, Array.setIfInBounds_setIfInBounds]

/-- A fresh block was granted by a heap that is there. -/
private theorem puts_allocate {size block : Nat} (hask : s.allocate k size = (s', some block)) :
    ∃ h h', h.allocate size = (h', some block) ∧ s.Puts s' k h h' 0 size := by
  unfold allocate at hask
  cases hget : s.heaps[k]? with
  | none => simp [ask_absent hget] at hask
  | some h =>
    rw [ask_eq hget] at hask
    cases hgrant : (h.allocate size).2 with
    | none => simp [hgrant] at hask
    | some block' =>
      rw [hgrant] at hask
      obtain ⟨rfl, hblock⟩ := Prod.mk.inj hask
      obtain rfl := Option.some.inj hblock
      -- no call changes which counter a heap has
      have htracker : (h.allocate size).1.tracker = h.tracker := by
        unfold Heap.allocate
        dsimp only
        split <;> rfl
      exact ⟨h, _, Prod.ext rfl hgrant, puts_settle hget htracker true 0 size⟩

/-- A new string has the octets that it was to have. -/
theorem bytes_of_newString {bytes : Bytes} {str : Str}
    (hmade : (s.newString k bytes).2 = some str) : str.bytes = bytes := by
  unfold newString at hmade
  split at hmade
  next =>
    obtain rfl := Option.some.inj hmade
    rfl
  next => exact nomatch hmade

/-- A new string is made in a block that nobody has held. -/
theorem holders_of_newString {bytes : Bytes} {str : Str}
    (hmade : (s.newString k bytes).2 = some str) : s.holders str = 0 := by
  unfold newString at hmade
  split at hmade
  next s₁ block hask =>
    obtain rfl := Option.some.inj hmade
    obtain ⟨h, h', hgrant, hputs⟩ := puts_allocate hask
    -- the next block is one beyond the blocks that there were
    have hblock : block = h.blocks.size := by
      unfold Heap.allocate at hgrant
      dsimp only at hgrant
      split at hgrant
      · exact (Option.some.inj (Prod.mk.inj hgrant).2).symm
      · exact nomatch (Prod.mk.inj hgrant).2
    simp only [holders, hputs.heap, Heap.holders, hblock, Array.getElem?_size]
  next => exact nomatch hmade

/-- A fresh block was refused, by a heap that is there or for want of one. -/
private theorem puts_allocate_refused {size : Nat} (hsize : 0 < size)
    (hask : s.allocate k size = (s', none)) :
    (s'.heaps = s.heaps ∧ s'.trackers = s.trackers) ∨
      ∃ h h', h.allocate size = (h', none) ∧ s.Puts s' k h h' 0 0 := by
  -- a heap that is not there refuses for its own sake
  unfold allocate at hask
  cases hget : s.heaps[k]? with
  | none =>
    rw [ask_absent hget] at hask
    obtain ⟨rfl, -⟩ := Prod.mk.inj hask
    exact .inl ⟨heaps_settle .., trackers_settle_refused _ _ _ _ hsize⟩
  | some h =>
    rw [ask_eq hget] at hask
    cases hgrant : (h.allocate size).2 with
    | none =>
      rw [hgrant] at hask
      obtain ⟨rfl, -⟩ := Prod.mk.inj hask
      exact .inr ⟨h, _, Prod.ext rfl hgrant, puts_settle_refused hget true 0 hsize⟩
    | some block => simp [hgrant] at hask

/-- A heap was asked to resize a block, and granted it or not. -/
private theorem puts_resize (hget : s.heaps[k]? = some h) {block size size' : Nat} {granted : Bool}
    (hsize : 0 < size') (hask : s.resize k block size size' = (s', granted)) :
    ∃ h', h.resize block size size' = (h', granted) ∧
      s.Puts s' k h h' (if granted then size else 0) (if granted then size' else 0) := by
  unfold resize at hask
  rw [ask_eq hget] at hask
  -- what the heap has granted is what the caller was told
  cases hgrant : (h.resize block size size').2 with
  | true =>
    rw [hgrant] at hask
    obtain ⟨rfl, rfl⟩ := Prod.mk.inj hask
    have htracker : (h.resize block size size').1.tracker = h.tracker := by
      unfold Heap.resize
      dsimp only
      split <;> rfl
    exact ⟨_, Prod.ext rfl hgrant, puts_settle hget htracker false size size'⟩
  | false =>
    rw [hgrant] at hask
    obtain ⟨rfl, rfl⟩ := Prod.mk.inj hask
    exact ⟨_, Prod.ext rfl hgrant, puts_settle_refused hget false size hsize⟩

/-- A block goes back to a heap that is there. -/
private theorem puts_free (hget : s.heaps[k]? = some h) (block size : Nat) :
    s.Puts (s.free k block size) k h (h.free block size) size 0 := by
  have hp := puts_mapHeap hget fun h => h.free block size
  refine ⟨hget, (heaps_settle ..).trans hp.heaps, ?_⟩
  have htracker : (s.mapHeap k fun h => h.free block size).trackerOf k = h.tracker := by
    unfold trackerOf
    rw [hp.getElem?, if_pos rfl]
    rfl
  unfold free
  rw [trackers_settle, htracker]
  rfl

end Store

namespace Heap

/-! ## What a heap answers -/

variable {h h' : Heap}

/-- A granted block is one beyond the others. -/
theorem allocate_some {size block : Nat} (hask : h.allocate size = (h', some block)) :
    block = h.blocks.size ∧ h'.tracker = h.tracker ∧ h'.live = h.live + size ∧
      h'.blocks.size = h.blocks.size + 1 ∧
      h'.ledger = h.ledger.push (.alloc size (some block)) := by
  simp only [Heap.allocate] at hask
  split at hask
  · obtain ⟨rfl, hblock⟩ := Prod.mk.inj hask
    obtain rfl := Option.some.inj hblock
    simp
  · simp at hask

/-- A refusal is put on record and changes nothing else. -/
theorem allocate_none {size : Nat} (hask : h.allocate size = (h', none)) :
    h'.tracker = h.tracker ∧ h'.live = h.live ∧ h'.blocks.size = h.blocks.size ∧
      h'.ledger = h.ledger.push (.alloc size none) := by
  simp only [Heap.allocate] at hask
  split at hask
  · simp at hask
  · obtain ⟨rfl, -⟩ := Prod.mk.inj hask
    simp

/-- A resized block has the new size if that was granted, and the old one otherwise. -/
theorem resize_eq {block old new : Nat} {granted : Bool}
    (hask : h.resize block old new = (h', granted)) :
    h'.tracker = h.tracker ∧ h'.live = (if granted then h.live - old + new else h.live) ∧
      h'.blocks.size = h.blocks.size ∧
        h'.ledger = h.ledger.push (.resize block old new granted) := by
  simp only [Heap.resize] at hask
  split at hask <;> obtain ⟨rfl, rfl⟩ := Prod.mk.inj hask <;> simp

/-- What is held is no larger than what is live. -/
theorem Books.size_le_live {k : Nat} {g : Holding} {G : Multiset Holding} (hb : h.Books k G)
    (hg : g ∈ G) (hk : g.heap = k) : g.size ≤ h.live := by
  rw [hb.live]
  exact Finset.single_le_sum (fun _ _ => Nat.zero_le _) (mem_present.mpr ⟨hg, hk⟩)

end Heap

namespace Store

variable {s s' s₀ : Store} {k : Nat} {h h' : Heap} {g : Holding} {G : Multiset Holding}

/-! ## Strings -/

/-- A heap of which something is held is there. -/
theorem Keeps.exists_heap (hs : s₀.Keeps s G) (hg : g ∈ G) : ∃ h, s.heaps[g.heap]? = some h :=
  ⟨_, Array.getElem?_eq_getElem (hs.books.within g hg)⟩

/-- A fresh block for a holding of its own, with an owner more. -/
theorem Keeps.allocate (hs : s₀.Keeps s G) {size block : Nat}
    (hask : s.allocate k size = (s', some block)) (hk : g.heap = k) (hblock : g.block = block)
    (hsize : g.size = size) :
    s₀.Keeps (s'.mapHeap k Heap.addOwner) (g ::ₘ G) ∧ g ∉ G ∧
      ∀ h₀, s₀.heaps[k]? = some h₀ → h₀.blocks.size ≤ block := by
  obtain ⟨h, h', hgrant, hp⟩ := puts_allocate hask
  obtain ⟨hlast, htracker, hlive, hsizes, hledger⟩ := Heap.allocate_some hgrant
  -- a block that was just granted is nobody's so far
  have hfresh : g ∉ G := by
    intro hg
    have := (hs.books.heaps k h hp.heap).within g (mem_present.mpr ⟨hg, hk⟩)
    omega
  refine ⟨?_, hfresh, ?_⟩
  -- it is put among what is held, with one more owner of the heap
  · apply hs.puts_add (hp.mapHeap Heap.addOwner) hk (fun _ => hfresh) htracker
    · simpa [Heap.addOwner] using hlive
    · exact fun hb => hb.allocate hgrant hk hblock hsize
    · intro h₀ _ he
      refine he.call htracker ?_ hledger ?_
      · simp [Heap.addOwner, hsizes]
      · intro _ hresized
        simp [HeapCall.resized?] at hresized
  -- and no store that this one goes on from had it
  · intro h₀ hget₀
    obtain ⟨h₁, hget, he⟩ := hs.extended k h₀ hget₀
    obtain rfl : h = h₁ := by simpa [hp.heap] using hget
    rw [hlast]
    exact he.size

/-- A fresh block that is refused leaves everything as it was. -/
theorem Keeps.allocate_refused (hs : s₀.Keeps s G) {size : Nat} (hsize : 0 < size)
    (hask : s.allocate k size = (s', none)) : s₀.Keeps s' G := by
  rcases puts_allocate_refused hsize hask with ⟨hheaps, htrackers⟩ | ⟨h, h', hrefuse, hp⟩
  · exact hs.congr hheaps htrackers
  · obtain ⟨htracker, hlive, hsizes, hledger⟩ := Heap.allocate_none hrefuse
    apply hs.puts hp htracker
    · rw [hlive]
    · exact fun hb => hb.refuse hrefuse
    · exact fun h₀ _ he => he.call htracker (Nat.le_of_eq hsizes.symm) hledger nofun

/-- The last hold on a block ends, and its owner goes. -/
theorem Keeps.free (hs : s₀.Keeps s (g ::ₘ G)) (hnew : g ∉ G) :
    s₀.Keeps ((s.free g.heap g.block g.size).mapHeap g.heap Heap.dropOwner) G := by
  have hmem := Multiset.mem_cons_self g G
  obtain ⟨h, hget⟩ := hs.exists_heap hmem
  have hle := (hs.books.heaps _ h hget).size_le_live hmem rfl
  apply hs.puts_sub ((puts_free hget g.block g.size).mapHeap Heap.dropOwner) rfl rfl
  · show h.live - g.size + g.size = h.live + 0
    omega
  · exact fun hb => hb.free rfl hnew
  · intro h₀ _ he
    exact he.call (c := .free g.block g.size) rfl (by simp [Heap.free, Heap.dropOwner]) rfl nofun

/-- A string is made with one hold, in a block that was not there before. -/
theorem Keeps.newString (hs : s₀.Keeps s G) {bytes : Bytes} {str : Str}
    (hnew : s.newString k bytes = (s', some str)) :
    s₀.Keeps s' (.string str ::ₘ G) ∧ Holding.string str ∉ G ∧ str.heap = k ∧ str.bytes = bytes ∧
      ∀ h₀, s₀.heaps[k]? = some h₀ → h₀.blocks.size ≤ str.block := by
  simp only [Store.newString] at hnew
  split at hnew
  next s₁ block hask =>
    obtain ⟨rfl, hstr⟩ := Prod.mk.inj hnew
    obtain rfl := Option.some.inj hstr
    obtain ⟨hkeeps, hfresh, hlast⟩ :=
      hs.allocate (g := .string ⟨k, block, bytes⟩) hask rfl rfl rfl
    exact ⟨hkeeps, hfresh, rfl, rfl, hlast⟩
  next => simp at hnew

/-- A string that was refused leaves all in order. -/
theorem Keeps.newString_refused (hs : s₀.Keeps s G) {bytes : Bytes}
    (hnew : s.newString k bytes = (s', none)) : s₀.Keeps s' G := by
  simp only [Store.newString] at hnew
  split at hnew
  next => simp at hnew
  next s₁ hask =>
    obtain ⟨rfl, -⟩ := Prod.mk.inj hnew
    exact hs.allocate_refused (Nat.succ_pos _) hask

/-- One hold more on a string that is held. -/
theorem Keeps.retain {str : Str} (hs : s₀.Keeps s G) (hmem : Holding.string str ∈ G) :
    s₀.Keeps (s.retain str) (.string str ::ₘ G) := by
  obtain ⟨h, hget⟩ := hs.exists_heap hmem
  apply hs.puts_add (puts_mapHeap hget _) rfl nofun rfl rfl
  · intro hb
    obtain ⟨R, rfl⟩ := Multiset.exists_cons_of_mem hmem
    exact hb.hold rfl
  · exact fun h₀ _ he => he.congr rfl (by simp [Heap.hold]) rfl

/-- One hold fewer on a string: others keep it, or its block goes back. -/
theorem Keeps.release {str : Str} (hs : s₀.Keeps s (.string str ::ₘ G)) :
    s₀.Keeps (s.release str) G := by
  have hmem := Multiset.mem_cons_self (Holding.string str) G
  obtain ⟨h, hget⟩ := hs.exists_heap hmem
  replace hget : s.heaps[str.heap]? = some h := hget
  -- a string is held as often as its block has holders
  have hcount : s.holders str = G.count (.string str) + 1 := by
    have hholders := (hs.books.heaps _ h hget).holders _ (mem_present.mpr ⟨hmem, rfl⟩)
    rw [Multiset.count_cons_self] at hholders
    unfold Store.holders
    rw [hget]
    exact hholders
  unfold Store.release
  split
  -- others hold it still, so the block stays
  next hothers =>
    have hmem : Holding.string str ∈ G := by
      rw [← Multiset.count_pos]
      omega
    apply hs.puts_sub (puts_mapHeap hget _) rfl rfl rfl
    · exact fun hb => hb.letGo rfl hmem
    · exact fun h₀ _ he => he.congr rfl (by simp [Heap.letGo]) rfl
  -- nobody else does, so the block goes back
  next hlast =>
    have hnew : Holding.string str ∉ G := by
      rw [← Multiset.count_eq_zero]
      omega
    exact hs.free (g := .string str) hnew

/-- What two strings are joined to is made with one hold. -/
theorem Keeps.concat (hs : s₀.Keeps s G) {a b : Bytes} {str : Str}
    (hnew : s.concat k a b = (s', some str)) : s₀.Keeps s' (.string str ::ₘ G) ∧ str.heap = k := by
  simp only [Store.concat] at hnew
  split at hnew
  next => simp at hnew
  next s₁ head hcopy =>
    split at hnew
    next s₂ hgrow =>
      obtain ⟨rfl, hstr⟩ := Prod.mk.inj hnew
      obtain rfl := Option.some.inj hstr
      obtain ⟨hkeeps, hfresh, rfl, rfl, hlast⟩ := hs.newString hcopy
      -- the copy has its block to itself, and goes over into the longer string
      obtain ⟨h, hget⟩ := hkeeps.exists_heap (Multiset.mem_cons_self _ _)
      obtain ⟨h', hask, hp⟩ := puts_resize hget (Nat.succ_pos _) hgrow
      obtain ⟨htracker, hlive, hsizes, hledger⟩ := Heap.resize_eq hask
      have hle := (hkeeps.books.heaps _ h hget).size_le_live (Multiset.mem_cons_self _ _) rfl
      refine ⟨⟨hkeeps.extended.puts (hp.mapHeap Heap.addOwner) ?_, ?_⟩, rfl⟩
      · intro h₀ hget₀ he
        refine he.call htracker (Nat.le_of_eq hsizes.symm) hledger ?_
        -- the block that is resized is younger than any store that this one goes on from
        intro block hblock
        obtain rfl := Option.some.inj hblock
        exact hlast h₀ hget₀
      · apply hkeeps.books.puts (hp.mapHeap Heap.addOwner) htracker
        · show h'.live + _ = _
          rw [hlive]
          simp only [if_true]
          simp only [Holding.size] at hle
          omega
        · exact (hkeeps.books.heaps _ h hget).grow rfl hfresh
            (.string ⟨head.heap, head.block, head.bytes ++ b⟩) hask rfl rfl
        · intro j hj hne hbj
          have hother : (Holding.string ⟨head.heap, head.block, head.bytes ++ b⟩).heap ≠ j :=
            Ne.symm hne
          rw [Heap.books_cons_of_ne (Ne.symm hne)] at hbj
          exact (Heap.books_cons_of_ne hother).mpr hbj
        · intro g' hg'
          rcases Multiset.mem_cons.mp hg' with rfl | hg'
          · exact .inr rfl
          · exact .inl (Multiset.mem_cons_of_mem hg')
        · intro i block
          rw [Multiset.count_cons_of_ne (by simp)]
          exact hs.books.seats i block
    next => simp at hnew

/-- A joint string that was refused leaves all in order, though its copy may have come and gone. -/
theorem Keeps.concat_refused (hs : s₀.Keeps s G) {a b : Bytes}
    (hnew : s.concat k a b = (s', none)) : s₀.Keeps s' G := by
  simp only [Store.concat] at hnew
  split at hnew
  next s₁ hcopy =>
    obtain ⟨rfl, -⟩ := Prod.mk.inj hnew
    exact hs.newString_refused hcopy
  next s₁ head hcopy =>
    split at hnew
    next => simp at hnew
    next s₂ hgrow =>
      obtain ⟨rfl, -⟩ := Prod.mk.inj hnew
      obtain ⟨hkeeps, -, rfl, rfl, hlast⟩ := hs.newString hcopy
      obtain ⟨h, hget⟩ := hkeeps.exists_heap (Multiset.mem_cons_self _ _)
      obtain ⟨h', hask, hp⟩ := puts_resize hget (Nat.succ_pos _) hgrow
      obtain ⟨htracker, hlive, hsizes, hledger⟩ := Heap.resize_eq hask
      -- the copy is as it was, and is let go of
      apply Keeps.release
      apply hkeeps.puts hp htracker
      · rw [hlive]
        rfl
      · exact fun hb => hb.refuse_resize hask rfl
      · intro h₀ hget₀ he
        refine he.call htracker (Nat.le_of_eq hsizes.symm) hledger ?_
        intro block hblock
        obtain rfl := Option.some.inj hblock
        exact hlast h₀ hget₀

/-! ## Heaps and counters that are added -/

/-- Of a store in which nothing has happened, nothing is held. -/
theorem books_empty : Store.empty.Books 0 where
  heaps := by simp [Store.empty]
  within := by simp
  seats := by simp
  trackers := by simp [Store.empty]
  balanced := by simp [Store.empty]

/-- One more heap, of which nothing has been asked. -/
theorem Keeps.addHeap (hs : s₀.Keeps s G) {policy : Policy} {tracker : Option Nat}
    (ht : ∀ t, tracker = some t → t < s.trackers.size) :
    s₀.Keeps (s.addHeap (.fresh policy tracker)).1 G := by
  -- the heaps are those that were there, and the new one behind them
  have hnew {k : Nat} {h : Heap} (hget : (s.heaps.push (.fresh policy tracker))[k]? = some h) :
      s.heaps[k]? = some h ∨ k = s.heaps.size ∧ h = .fresh policy tracker := by
    rw [Array.getElem?_push] at hget
    split at hget
    next heq => exact .inr ⟨heq, (Option.some.inj hget).symm⟩
    next => exact .inl hget
  refine ⟨?_, ?_, ?_, hs.books.seats, ?_, ?_⟩
  · intro k h₀ hget₀
    obtain ⟨h, hget, he⟩ := hs.extended k h₀ hget₀
    obtain ⟨hlt, -⟩ := Array.getElem?_eq_some_iff.mp hget
    refine ⟨h, ?_, he⟩
    show (s.heaps.push (.fresh policy tracker))[k]? = some h
    rw [Array.getElem?_push_lt hlt, ← hget, Array.getElem?_eq_getElem hlt]
  · intro k h hget
    rcases hnew hget with hget | ⟨rfl, rfl⟩
    · exact hs.books.heaps k h hget
    · -- nothing is held of the new heap
      have hnone : present s.heaps.size G = ∅ := by
        rw [Finset.eq_empty_iff_forall_notMem]
        intro g hg
        obtain ⟨hmem, hk⟩ := mem_present.mp hg
        have := hs.books.within g hmem
        omega
      constructor <;> simp [hnone, Coherent, Heap.fresh, liveAfter, Agrees]
  · intro g hg
    have := hs.books.within g hg
    simp only [Store.addHeap, Array.size_push]
    omega
  · intro k h t hget htracker
    rcases hnew hget with hget | ⟨rfl, rfl⟩
    · exact hs.books.trackers k h t hget htracker
    · exact ht t htracker
  -- a heap that is empty adds nothing to any total
  · intro t tr hget
    have htotal : (s.addHeap (.fresh policy tracker)).1.total t = s.total t := by
      simp [Store.total, Store.addHeap, Heap.counted, Heap.fresh]
    rw [htotal]
    exact hs.books.balanced t tr hget

/-- One more counter, which counts nothing. -/
theorem Keeps.addTracker (hs : s₀.Keeps s G) : s₀.Keeps s.addTracker.1 G := by
  refine ⟨hs.extended, hs.books.heaps, hs.books.within, hs.books.seats, ?_, ?_⟩
  · intro k h t hget htracker
    have := hs.books.trackers k h t hget htracker
    simp only [Store.addTracker, Array.size_push]
    omega
  · intro t tr hget
    replace hget : (s.trackers.push .zero)[t]? = some tr := hget
    rw [Array.getElem?_push] at hget
    split at hget
    next heq =>
      obtain rfl := Option.some.inj hget
      -- no heap has had this counter so far
      have hzero : s.total t = 0 := by
        unfold Store.total
        rw [List.sum_eq_zero]
        intro n hn
        obtain ⟨h, hh, rfl⟩ := List.mem_map.mp hn
        obtain ⟨k, hget⟩ := List.mem_iff_getElem?.mp hh
        rw [Array.getElem?_toList] at hget
        unfold Heap.counted
        rw [if_neg]
        intro htracker
        have := hs.books.trackers k h t hget htracker
        omega
      show (0 : UInt64).toNat = s.total t % 2 ^ 64
      rw [hzero]
      rfl
    next => exact hs.books.balanced t tr hget

/-- What an allocator has to give makes no difference to what it gave. -/
theorem Keeps.ration (hs : s₀.Keeps s G) (k : Nat) (policy : Policy) :
    s₀.Keeps (s.mapHeap k fun h => { h with policy }) G := by
  cases hget : s.heaps[k]? with
  -- there is no such heap, so none is changed
  | none =>
    refine hs.congr ?_ rfl
    apply Array.ext_getElem?
    intro j
    simp only [mapHeap, Array.getElem?_modify]
    split
    next heq =>
      rw [← heq, hget]
      rfl
    next => rfl
  | some h =>
    apply hs.puts (puts_mapHeap hget _) rfl rfl
    · rintro ⟨hwithin, hcoherent, hholders, hledger, hlive, howners, hgranted⟩
      exact ⟨hwithin, hcoherent, hholders, hledger, hlive, howners, hgranted⟩
    · exact fun h₀ _ he => he.congr rfl rfl rfl

end Store

end Safepoint
