import Safepoint.Proofs.Memory.Store

/-!
# Stores without counters

A bare store is one without counters and without a journal, whose heaps have no counter that is told
what they grant. What is asked of a store does not depend on any of this: a request is granted by
the policy of its heap, and a counter only listens. So whatever is done to a store does the same to
the bare store, and is answered the same.

There is one lemma for each operation, `bare_` and its name.

## Key results

- `Store.bare_newString`, `Store.bare_concat`, `Store.bare_retain`, `Store.bare_release`: strings
  are made, held and let go of in a bare store as in any other
-/

namespace Safepoint

variable {κ : Type}

/-! ## Heaps -/

/-- A heap without its counter. -/
def Heap.bare (h : Heap) : Heap :=
  { h with tracker := none }

namespace Heap

/-- Whether a block is granted is up to the policy, the attempts and the bytes, and not to the
counter. -/
theorem bare_allocate (h : Heap) (size : Nat) :
    h.bare.allocate size = Prod.map bare id (h.allocate size) := by
  cases hgrants : h.policy.grants (h.attempts + 1) size (h.live + size) <;>
    simp [allocate, bare, hgrants]

/-- Whether a block is resized is up to the policy, the attempts and the bytes, and not to the
counter. -/
theorem bare_resize (h : Heap) (block old new : Nat) :
    h.bare.resize block old new = Prod.map bare id (h.resize block old new) := by
  cases hgrants : h.policy.grants (h.attempts + 1) new (h.live - old + new) <;>
    simp [resize, bare, hgrants]

end Heap

/-- To change one element and to look at all of them in another way can be done in either order. -/
private theorem map_modify {α β : Type} (xs : Array α) (g : α → β) (k : Nat) {f : α → α}
    {f' : β → β}
    (hf : ∀ a, g (f a) = f' (g a)) : (xs.modify k f).map g = (xs.map g).modify k f' := by
  apply Array.ext_getElem?
  intro j
  rw [Array.getElem?_map, Array.getElem?_modify, Array.getElem?_modify, Array.getElem?_map]
  split
  · rw [Option.map_map, Option.map_map]
    congr 1
    funext a
    exact hf a
  · rfl

/-! ## Stores -/

namespace Store

/-- A store without counters and without a journal. -/
def bare (s : Store) : Store :=
  ⟨s.heaps.map Heap.bare, #[], #[]⟩

/-- What is taken off is not there to be taken off again. -/
@[simp] theorem bare_bare (s : Store) : s.bare.bare = s.bare := by
  simp only [bare, Array.map_map]
  rfl

/-- What is written to the journal is not seen without it. -/
@[simp] theorem bare_note (s : Store) (n : Notice) : (s.note n).bare = s.bare := rfl

/-- Whatever is written to the journal is not seen without it. -/
@[simp] theorem bare_notes (s : Store) (notices : List Notice) :
    (notices.foldl note s).bare = s.bare := by
  induction notices generalizing s with
  | nil => rfl
  | cons n rest ih => exact ih (s.note n)

/-- A heap is changed alike with its counter and without. -/
theorem bare_mapHeap (s : Store) (k : Nat) {f : Heap → Heap} (hf : ∀ h, (f h).bare = f h.bare) :
    (s.mapHeap k f).bare = s.bare.mapHeap k f := by
  simp only [bare, mapHeap, map_modify s.heaps Heap.bare k hf]

/-- A heap that has no counter has none to tell. -/
theorem settle_bare (s : Store) (k : Nat) (null : Bool) (osize new : Nat) (granted : Bool) :
    s.bare.settle k null osize new granted = s.bare := by
  have hnone : s.bare.trackerOf k = none := by
    simp only [trackerOf, bare, Array.getElem?_map]
    cases s.heaps[k]? <;> rfl
  simp only [settle, hnone]

/-- What a counter is told is not seen without it. -/
theorem bare_settle (s : Store) (k : Nat) (null : Bool) (osize new : Nat) (granted : Bool) :
    (s.settle k null osize new granted).bare = s.bare := by
  simp only [bare, heaps_settle]

/-- A heap answers alike with its counter and without. -/
theorem bare_ask {α : Type} (s : Store) (k : Nat) {f : Heap → Heap × α} (refusal : α)
    (hf : ∀ h, f h.bare = Prod.map Heap.bare id (f h)) :
    s.bare.ask k f refusal = Prod.map bare id (s.ask k f refusal) := by
  cases hget : s.heaps[k]? with
  | none =>
    -- there is no heap to ask, in either store
    have hbare : s.bare.heaps[k]? = none := by simp [bare, hget]
    rw [ask_absent hget, ask_absent hbare]
    rfl
  | some h =>
    have hbare : s.bare.heaps[k]? = some h.bare := by simp [bare, hget]
    rw [ask_eq hget, ask_eq hbare, hf]
    simp [bare, Prod.map, Array.map_setIfInBounds]

/-- A fresh block is granted alike. -/
theorem bare_allocate (s : Store) (k size : Nat) :
    s.bare.allocate k size = Prod.map bare id (s.allocate k size) := by
  unfold allocate
  rw [bare_ask s k none fun h => h.bare_allocate size]
  obtain ⟨s', block⟩ := s.ask k (fun h => h.allocate size) none
  cases block <;> simp [Prod.map, settle_bare, bare_settle]

/-- Another size is granted alike. -/
theorem bare_resize (s : Store) (k block old new : Nat) :
    s.bare.resize k block old new = Prod.map bare id (s.resize k block old new) := by
  unfold resize
  rw [bare_ask s k false fun h => h.bare_resize block old new]
  obtain ⟨s', granted⟩ := s.ask k (fun h => h.resize block old new) false
  cases granted <;> simp [Prod.map, settle_bare, bare_settle]

/-- A block is given back alike. -/
theorem bare_free (s : Store) (k block size : Nat) :
    (s.free k block size).bare = s.bare.free k block size := by
  have hmap := bare_mapHeap s k (f := fun h => h.free block size) fun _ => rfl
  simp only [free]
  rw [bare_settle, ← hmap, settle_bare]

/-- A string is made alike. -/
theorem bare_newString (s : Store) (k : Nat) (bytes : Bytes) :
    s.bare.newString k bytes = Prod.map bare id (s.newString k bytes) := by
  unfold newString
  rw [bare_allocate]
  obtain ⟨s', block⟩ := s.allocate k (blockSize bytes)
  cases block with
  | none => rfl
  | some block => simp [Prod.map, bare_mapHeap s' k (f := Heap.addOwner) fun _ => rfl]

/-- A string has as many holders in a bare store. -/
theorem bare_holders (s : Store) (str : Str) : s.bare.holders str = s.holders str := by
  simp only [holders, bare, Array.getElem?_map]
  cases s.heaps[str.heap]? <;> rfl

/-- A string is held once more alike. -/
theorem bare_retain (s : Store) (str : Str) : (s.retain str).bare = s.bare.retain str :=
  bare_mapHeap s _ fun _ => rfl

/-- A string is let go of alike, by the last of its holders or by another. -/
theorem bare_release (s : Store) (str : Str) : (s.release str).bare = s.bare.release str := by
  simp only [release, bare_holders]
  split
  · exact bare_mapHeap s _ fun _ => rfl
  · rw [← bare_free]
    exact bare_mapHeap _ _ fun _ => rfl

/-- Two strings are joined alike. -/
theorem bare_concat (s : Store) (k : Nat) (a b : Bytes) :
    s.bare.concat k a b = Prod.map bare id (s.concat k a b) := by
  unfold concat
  rw [bare_newString]
  obtain ⟨s', head⟩ := s.newString k a
  cases head with
  | none => rfl
  | some head =>
    simp only [Prod.map, id_eq]
    rw [bare_resize]
    -- the block of the copy grows, or the copy is let go of
    obtain ⟨s'', granted⟩ := s'.resize k head.block (blockSize a) (blockSize (a ++ b))
    cases granted with
    | true => simp [Prod.map, bare_mapHeap s'' k (f := Heap.addOwner) fun _ => rfl]
    | false => simp [Prod.map, bare_release]

/-- A value is held once more alike. -/
theorem bare_retainValue (s : Store) (v : Value κ) :
    (s.retainValue v).bare = s.bare.retainValue v := by
  cases v with
  | str str => exact bare_retain s str
  | _ => rfl

/-- A value is let go of alike. -/
theorem bare_releaseValue (s : Store) (v : Value κ) :
    (s.releaseValue v).bare = s.bare.releaseValue v := by
  cases v with
  | str str => exact bare_release s str
  | _ => rfl

/-- Values are let go of alike, in the same order. -/
theorem bare_releaseAll (s : Store) (vs : List (Value κ)) :
    (s.releaseAll vs).bare = s.bare.releaseAll vs := by
  induction vs generalizing s with
  | nil => rfl
  | cons v vs ih =>
    have hrest := ih (s.releaseValue v)
    rw [bare_releaseValue] at hrest
    exact hrest

/-- What host code holds is let go of alike. -/
theorem bare_releases (s : Store) (held : Held) :
    (held.foldl release s).bare = held.foldl release s.bare := by
  induction held generalizing s with
  | nil => rfl
  | cons str held ih =>
    have hrest := ih (s.release str)
    rw [bare_release] at hrest
    exact hrest

/-- A value is made alike. -/
theorem bare_newValue (s : Store) (k : Nat) (bytes : Bytes) :
    (s.bare.newValue k bytes : Store × Option (Value κ)) =
      Prod.map bare id (s.newValue k bytes) := by
  unfold newValue
  rw [bare_newString]
  obtain ⟨s', str⟩ := s.newString k bytes
  cases str <;> rfl

/-- A heap joins alike. -/
theorem bare_addHeap (s : Store) (h : Heap) :
    s.bare.addHeap h.bare = Prod.map bare id (s.addHeap h) := by
  simp [addHeap, bare, Prod.map, Array.map_push]

end Store

end Safepoint
