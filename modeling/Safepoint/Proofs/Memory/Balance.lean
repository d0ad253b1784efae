import Safepoint.Proofs.Memory.Accounts

/-!
# The balance of memory

Every heap of a fleet is used with care, whatever its allocator grants or refuses, and whatever the
embedder does with the strings. `Fleet.Balanced` is what that comes to for one heap, and
`Run.memory_balanced` says that it is so in every state of every run; that a block in which a string
lies is never resized; that each counter reads what is live in the heaps it counts; and that an
interpreter that was dropped does not find anything allocated that nothing holds.

## Key results

- `Fleet.Run.memory_balanced`
-/

namespace Safepoint

variable {κ τ ρ : Type}

namespace Fleet

/-- A heap has been used with care, and what is live in it is what is needed. -/
structure Balanced (f : Fleet κ τ ρ) (k : Nat) (heap : Heap) : Prop where
  /-- Each call was for a fresh block, or named a live block by its true size. Live are the block of
  an open interpreter, and one block for each string. -/
  live : ∃ live, liveAfter heap.ledger.toList = some live ∧ ∀ block size,
    live block = some size ↔ f.ownBlock? k = some block ∧ size = 512 ∨
      ∃ s ∈ f.strings k, s.block = block ∧ size = s.bytes.length + 1
  /-- A string has its block to itself. -/
  apart : ∀ s ∈ f.strings k, f.ownBlock? k ≠ some s.block ∧
    ∀ t ∈ f.strings k, t.block = s.block → t = s
  bytes : heap.live = (if (f.ownBlock? k).isSome then 512 else 0) +
    ∑ s ∈ f.strings k, (s.bytes.length + 1)
  /-- A block is granted once at most, and goes back once at most. -/
  once : ∀ block, heap.ledger.toList.countP (HeapCall.grants block) ≤ 1 ∧
    heap.ledger.toList.countP (HeapCall.frees block) ≤
      heap.ledger.toList.countP (HeapCall.grants block)
  /-- Once the interpreter and its strings are gone, each block that was granted has gone back. -/
  returned : f.ownBlock? k = none → f.strings k = ∅ → ∀ block,
    heap.ledger.toList.countP (HeapCall.frees block) =
      heap.ledger.toList.countP (HeapCall.grants block)

variable {f : Fleet κ τ ρ} {k : Nat} {heap : Heap}

/-- What is held of a heap, by block and size. -/
private theorem InOrder.exists_present (h : f.InOrder) (block size : Nat) :
    (∃ g ∈ present k f.holdings, g.block = block ∧ g.size = size) ↔
      f.ownBlock? k = some block ∧ size = 512 ∨
        ∃ s ∈ f.strings k, s.block = block ∧ size = s.bytes.length + 1 := by
  -- what is held is the seat of the interpreter or one of its strings
  constructor
  · rintro ⟨g, hg, rfl, rfl⟩
    obtain ⟨hmem, hk⟩ := mem_present.mp hg
    cases g with
    | seat j block =>
      obtain rfl : j = k := hk
      exact .inl ⟨(h.seat_mem j block).mp hmem, rfl⟩
    | string s => exact .inr ⟨s, mem_stringsOf.mpr ⟨hmem, hk⟩, rfl, rfl⟩
  · rintro (⟨hown, rfl⟩ | ⟨s, hs, rfl, rfl⟩)
    · exact ⟨.seat k block, mem_present.mpr ⟨(h.seat_mem k block).mpr hown, rfl⟩, rfl, rfl⟩
    · obtain ⟨hmem, hk⟩ := mem_stringsOf.mp hs
      exact ⟨.string s, mem_present.mpr ⟨hmem, hk⟩, rfl, rfl⟩

/-- The ledger of a heap in order is one of blocks that are granted, held and freed once each. -/
theorem InOrder.balanced (h : f.InOrder) (hget : f.ground.store.heaps[k]? = some heap) :
    f.Balanced k heap := by
  have hbooks := h.books.heaps k heap hget
  obtain ⟨live, hlive, hagrees⟩ := hbooks.ledger
  -- the live blocks are those of the interpreter and of its strings
  have hlive_iff (block size : Nat) := (hagrees block size).trans (h.exists_present block size)
  have hcount := grants_eq_frees_add hlive
  have hgranted := hbooks.granted
  constructor
  · exact ⟨live, hlive, hlive_iff⟩
  · intro s hs
    obtain ⟨hmem, hk⟩ := mem_stringsOf.mp hs
    have hpresent : Holding.string s ∈ present k f.holdings := mem_present.mpr ⟨hmem, hk⟩
    -- the books are coherent: what is held in one block is one thing
    constructor
    · intro hown
      have hseat := mem_present.mpr ⟨(h.seat_mem k s.block).mpr hown, rfl⟩
      exact nomatch hbooks.coherent _ hseat _ hpresent rfl
    · intro t ht hblock
      obtain ⟨hmem', hk'⟩ := mem_stringsOf.mp ht
      have heq := hbooks.coherent _ (mem_present.mpr ⟨hmem', hk'⟩) _ hpresent hblock
      exact Holding.string.inj heq
  · exact h.live_eq hget
  · -- a block that was granted is live or was freed, and never both
    intro block
    have hcount := hcount block
    have hgranted := hgranted block
    split at hgranted <;> omega
  · intro hown hstrings block
    -- nothing is held of the heap, so no block of it is live, and the two counts agree
    have hnone : live block = none := by
      rw [Option.eq_none_iff_forall_ne_some]
      intro size hsome
      rcases (hlive_iff block size).mp hsome with ⟨hsome, -⟩ | ⟨s, hs, -⟩
      · rw [hown] at hsome
        exact nomatch hsome
      · rw [hstrings] at hs
        exact absurd hs (Finset.notMem_empty s)
    have hcount := hcount block
    rw [hnone] at hcount
    exact hcount.symm

/-- A block in which a string lies is not resized. -/
private theorem InOrder.calls_step (code : Meaning κ τ ρ) (h : f.InOrder) (e : Event κ τ ρ)
    (hget : f.ground.store.heaps[k]? = some heap) :
    ∃ heap' calls, (f.step code e).ground.store.heaps[k]? = some heap' ∧
      heap'.ledger.toList = heap.ledger.toList ++ calls ∧
      ∀ c ∈ calls, ∀ s ∈ f.strings k, c.resized? ≠ some s.block := by
  obtain ⟨heap', hget', -, -, calls, hcalls, hnew⟩ := (inOrder_step code h e).2 k heap hget
  refine ⟨heap', calls, hget', hcalls, fun c hc s hs hresized => ?_⟩
  have hlast := hnew c hc s.block hresized
  have hwithin := (h.books.heaps k heap hget).within (.string s)
    (mem_present.mpr (mem_stringsOf.mp hs))
  exact absurd hwithin (Nat.not_lt.mpr hlast)

/-- What a counter reads beyond a heap that nothing keeps is live in another one. -/
private theorem InOrder.exists_live (h : f.InOrder) {t : Nat}
    (hget : f.ground.store.heaps[k]? = some heap) (hown : heap.owners = 0)
    (hreading : f.ground.store.reading t ≠ 0) :
    ∃ j other, j ≠ k ∧ f.ground.store.heaps[j]? = some other ∧ other.tracker = some t ∧
      other.live ≠ 0 := by
  -- no owner means no interpreter and no string, whatever has grown
  have hlive : heap.live = 0 := by
    rw [h.owners_eq hget] at hown
    have hnone : (f.ownBlock? k).isSome = false := by
      cases hsome : (f.ownBlock? k).isSome with
      | true => simp [hsome] at hown
      | false => rfl
    have hstrings : f.strings k = ∅ := by
      rw [← Finset.card_eq_zero]
      omega
    rw [h.live_eq hget, hnone, hstrings]
    rfl
  -- the counter reads something, so some heap that it counts has something
  have htotal : f.ground.store.total t ≠ 0 := by
    intro hzero
    apply hreading
    unfold Store.reading
    cases htracker : f.ground.store.trackers[t]? with
    | none => rfl
    | some tracker =>
      show tracker.allocated.toNat = 0
      rw [h.books.balanced t tracker htracker, hzero, Nat.zero_mod]
  -- that is not this heap, which has nothing
  obtain ⟨other, hother, hcounted⟩ :
      ∃ other ∈ f.ground.store.heaps.toList, other.counted t ≠ 0 := by
    simpa [Store.total, List.sum_eq_zero_iff] using htotal
  obtain ⟨j, hj⟩ := List.mem_iff_getElem?.mp hother
  rw [Array.getElem?_toList] at hj
  unfold Heap.counted at hcounted
  split at hcounted
  next htracker =>
    refine ⟨j, other, ?_, hj, htracker, hcounted⟩
    rintro rfl
    obtain rfl : heap = other := by simpa [hget] using hj
    exact hcounted hlive
  next => exact absurd rfl hcounted

/-- Memory is balanced in every state of a run. Every heap is used with care; a block in which a
string lies is never resized; every counter, a word of 64 bits, reads what is live in the heaps it
counts; and an interpreter that was dropped does not find that anything is still allocated that
nothing holds, unless its counter was made to count another heap as well. -/
theorem Run.memory_balanced {code : Meaning κ τ ρ} (r : Run code) (n : Nat) :
    (∀ k heap, (r.state n).ground.store.heaps[k]? = some heap → (r.state n).Balanced k heap ∧
      ∃ heap' calls, (r.state (n + 1)).ground.store.heaps[k]? = some heap' ∧
        heap'.ledger.toList = heap.ledger.toList ++ calls ∧
        ∀ c ∈ calls, ∀ s ∈ (r.state n).strings k, c.resized? ≠ some s.block) ∧
    (∀ t tracker, (r.state n).ground.store.trackers[t]? = some tracker →
      tracker.allocated.toNat = (r.state n).ground.store.total t % 2 ^ 64) ∧
    ∀ i m instruments, (r.state n).members[i]? = some m → m.isIdle = true →
      r.event n = .on i .close → m.instruments = some instruments →
      ∃ told, (r.state (n + 1)).ground.store.journal.toList =
          (r.state n).ground.store.journal.toList ++ told ∧
        ∀ bytes, .stillAllocated bytes ∈ told → ∃ k heap, k ≠ m.heap ∧
          (r.state (n + 1)).ground.store.heaps[k]? = some heap ∧
          heap.tracker = instruments.tracker ∧ heap.live ≠ 0 := by
  have h := r.inOrder n
  have h' := r.inOrder (n + 1)
  refine ⟨fun k heap hget => ⟨h.balanced hget, ?_⟩, h.books.balanced, ?_⟩
  · rw [r.next]
    exact h.calls_step code (r.event n) hget
  · intro i m instruments hget hidle hevent hinstruments
    have hjournal := journal_close code hget hidle hinstruments
    rw [← hevent, ← r.next] at hjournal
    refine ⟨_, hjournal, fun bytes htold => ?_⟩
    -- at the teardown the heap is still there, without its interpreter
    obtain ⟨heap, hheap⟩ := h.exists_heap code (List.mem_of_getElem? hget) (r.event n)
    rw [← r.next] at hheap
    cases htracker : instruments.tracker with
    | none =>
      unfold Instruments.report at htold
      rw [htracker] at htold
      exact absurd htold List.not_mem_nil
    | some t =>
      rw [Instruments.report_eq htracker hheap] at htold
      obtain ⟨hown, hreading, -⟩ := Notice.stillAllocated_mem_ofTeardown.mp htold
      exact h'.exists_live hheap hown hreading

/-- A script function that joins two strings and returns the result. -/
private def joinsTwo : Prototype :=
  .ofCode "joins two" 0 #[.str [104], .str [105], .concat, .ret 1] rfl

/-- A monitored interpreter joins two strings, and is dropped with the result in the embedder's
hands. -/
private def joinsAndGoes : Run (idleCode : Meaning Unit Unit Unit) :=
  .ofEvents idleCode
    ([.instruments ⟨false, true⟩ .standard,
        .on 0 (.start (.ask (.call (.fn (.script 0 joinsTwo)) []) fun
          | .values vs => .finish (.ok vs)
          | _ => .finish (.ok [])) [])] ++
      List.replicate 27 (.on 0 .advance) ++ [.on 0 .close])

/-- The interpreter is there with its block and the joined string, and its counter reads 515 bytes.
Once it is dropped, it has not found anything allocated that nothing holds. -/
theorem joined_string_balanced :
    ∃ r : Run (idleCode : Meaning Unit Unit Unit),
      (∃ heap, (r.state 29).ground.store.heaps[0]? = some heap ∧ heap.live = 515 ∧
        (r.state 29).Balanced 0 heap) ∧
      (∃ tracker, (r.state 29).ground.store.trackers[0]? = some tracker ∧
        tracker.allocated.toNat = 515) ∧
      r.event 29 = .on 0 .close ∧
      ∀ bytes, .stillAllocated bytes ∉ (r.state 30).ground.store.journal.toList := by
  obtain ⟨hheaps, htrackers, hclosed⟩ := Run.memory_balanced joinsAndGoes 29
  rw [show 29 + 1 = 30 from rfl] at hheaps hclosed
  refine ⟨joinsAndGoes, ?_, ?_, rfl, ?_⟩
  · have hlive : (joinsAndGoes.state 29).ground.store.heaps[0]?.map Heap.live = some 515 := by
      decide +kernel
    obtain ⟨heap, hget, hlive⟩ := Option.map_eq_some_iff.mp hlive
    exact ⟨heap, hget, hlive, (hheaps 0 heap hget).1⟩
  · have hget : (joinsAndGoes.state 29).ground.store.trackers[0]? = some ⟨515⟩ := by decide +kernel
    have htotal : (joinsAndGoes.state 29).ground.store.total 0 = 515 := by decide +kernel
    have hreads := htrackers 0 _ hget
    rw [htotal] at hreads
    exact ⟨_, hget, hreads⟩
  · intro bytes hmem
    -- what the general theorem asks for, evaluated on the run
    have hfacts : (joinsAndGoes.state 29).members[0]?.map
        (fun m => (m.isIdle, m.instruments, m.heap)) =
          some (true, some ⟨⟨false, true⟩, some 0⟩, 0) := by decide +kernel
    obtain ⟨m, hget, hfacts⟩ := Option.map_eq_some_iff.mp hfacts
    obtain ⟨hidle, hfacts⟩ := Prod.mk.inj hfacts
    obtain ⟨hinstruments, hheap⟩ := Prod.mk.inj hfacts
    obtain ⟨told, hjournal, htold⟩ := hclosed 0 m _ hget hidle rfl hinstruments
    have hbefore : .stillAllocated bytes ∉ (joinsAndGoes.state 29).ground.store.journal.toList := by
      have hcreated : (joinsAndGoes.state 29).ground.store.journal.toList =
          [.created ⟨false, true⟩] := by decide +kernel
      rw [hcreated]
      simp
    rw [hjournal, List.mem_append] at hmem
    -- there is no other heap for the counter to count
    obtain ⟨k, heap, hk, hother, -⟩ := htold bytes (hmem.resolve_left hbefore)
    have hsize : (joinsAndGoes.state 30).ground.store.heaps.size = 1 := by decide +kernel
    obtain ⟨hlt, -⟩ := Array.getElem?_eq_some_iff.mp hother
    rw [hsize] at hlt
    rw [hheap] at hk
    exact hk (Nat.lt_one_iff.mp hlt)

end Fleet

end Safepoint
