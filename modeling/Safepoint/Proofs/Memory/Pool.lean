import Safepoint.Memory.Pool
import Safepoint.Proofs.Memory.Store

/-!
# Pools are counted to the byte

The counter of a counting callback reads the bytes in the blocks that are live, whoever calls it and
however often the system refuses, as long as each block is named with the size it has. The counter
is a machine word and goes by differences, so it reads the total modulo the range of words, and the
very total whenever that is a word.

A call acts on one place of the pool: the next one if it asks for a fresh block, and otherwise the
place of the block that it names. `Pool.block_call` says what becomes of the blocks, and
`Pool.liveBytes_call` what becomes of their total; the counter follows the total call by call. It
can only do so because the callback looks at the pointer first: the tag of a fresh request is passed
where a size would be, and `Pool.held_operand` says that it is never taken for one.

## Key results

- `Pool.held_operand`: what a callback takes for the size of a block is the size it has
- `Pool.block_call`: a call changes the block it acts on and no other
- `Pool.counts_call`: the counter goes on to read the total
- `Pool.counter_reads_live_bytes`: what the counter reads, and when it reads zero
-/

namespace Safepoint

namespace Pool

/-- The place that a call acts on. -/
def place (p : Pool) : PoolCall → Nat
  | .fresh .. => p.blocks.length
  | .resize index _ => index

/-- The pool after some calls, each of which the system grants or not. -/
def calls (p : Pool) (cs : List (PoolCall × Bool)) : Pool :=
  cs.foldl (fun p c => (p.call c.1 c.2).1) p

/-- Each of some calls asks for a fresh block, or names one of the pool's own. -/
def Proper (p : Pool) : List (PoolCall × Bool) → Prop
  | [] => True
  | c :: cs => p.knows c.1 = true ∧ (p.call c.1 c.2).1.Proper cs

/-- The counter of a pool reads the bytes in its blocks, modulo the range of words. -/
def Counts (p : Pool) : Prop :=
  ∃ t, p.tracker = some t ∧ t.allocated.toNat = p.liveBytes % 2 ^ 64

variable {p : Pool} {c : PoolCall} {grants : Bool}

/-! ## Blocks -/

/-- The total is the sum over the blocks, null ones counting nothing. -/
theorem liveBytes_eq (p : Pool) : p.liveBytes = (p.blocks.map fun b => b.getD 0).sum := by
  unfold liveBytes
  induction p.blocks with
  | nil => rfl
  | cons b rest ih => rw [List.foldr_cons, ih, List.map_cons, List.sum_cons]

/-- What a block has in it is part of the total. -/
theorem getD_block_le (p : Pool) (i : Nat) : (p.block i).getD 0 ≤ p.liveBytes := by
  rw [liveBytes_eq, block]
  cases h : p.blocks[i]? with
  | none => exact Nat.zero_le _
  | some b => exact List.le_sum_of_mem (List.mem_map_of_mem (List.mem_of_getElem? h))

/-- Where every block is null there are no bytes. -/
theorem liveBytes_eq_zero (h : ∀ i, p.block i = none) : p.liveBytes = 0 := by
  rw [liveBytes_eq, List.sum_eq_zero_iff]
  intro n hn
  -- a block that is not null has a place of its own, and there it is null
  obtain ⟨b, hb, rfl⟩ := List.mem_map.mp hn
  obtain ⟨i, hi⟩ := List.mem_iff_getElem?.mp hb
  have hnull := h i
  rw [block, hi] at hnull
  obtain rfl : b = none := hnull
  rfl

/-- What a request answers does not depend on whether there is a counter. -/
theorem verdict_request (p : Pool) (null : Bool) (osize size : Nat) (grants : Bool) :
    (p.request null osize size grants).2.verdict =
      if size = 0 then .freed else if grants then .granted else .refused := by
  unfold request
  split
  · simp only [Tracker.request]
    split
    · rfl
    · split <;> rfl
  · rfl

/-- A request is about the counter only; what it answers is for the caller to note. -/
theorem blocks_request (p : Pool) (null : Bool) (osize size : Nat) (grants : Bool) :
    (p.request null osize size grants).1.blocks = p.blocks := by
  unfold request
  split <;> rfl

/-- A counter is told what becomes of a block, if what the callback takes for its size is the size
it has. -/
theorem tracker_request {t : Tracker} (ht : p.tracker = some t) {null : Bool} {osize : Nat}
    {b : BlockRef} (hheld : Tracker.held null osize = b.getD 0) (size : Nat) (grants : Bool) :
    (p.request null osize size grants).1.tracker =
      some (t.account (b.getD 0)
        ((after b size (p.request null osize size grants).2.verdict).getD 0)) := by
  have same : t.account (b.getD 0) (b.getD 0) = t := by simp [Tracker.account]
  rw [verdict_request]
  simp only [request, ht, Tracker.request, hheld]
  by_cases hsize : size = 0
  · simp [hsize, after]
  · cases grants with
    | true => simp [hsize, after]
    | false => simp [hsize, after, same]

/-- Nothing was ever put in the place that comes next. -/
theorem block_length (p : Pool) : p.block p.blocks.length = none := by
  simp [block]

/-- What the callback takes for the size of the block that a call acts on is the size it has. A null
pointer has nothing behind it, whatever tag was passed along. -/
theorem held_operand (p : Pool) (c : PoolCall) :
    Tracker.held (p.operand c).1 (p.operand c).2 = (p.block (p.place c)).getD 0 := by
  cases c with
  | fresh tag size => simp [operand, place, block_length, Tracker.held]
  | resize index size =>
    simp only [operand, place]
    cases p.block index <;> rfl

/-- What a call shows is what the callback answered. -/
theorem step_call (p : Pool) (c : PoolCall) (grants : Bool) :
    (p.call c grants).2 = (p.request (p.operand c).1 (p.operand c).2 c.size grants).2 := by
  cases c <;> rfl

/-- Bytes are granted if the system has them, and none are never refused. -/
theorem verdict_call (p : Pool) (c : PoolCall) (grants : Bool) :
    (p.call c grants).2.verdict =
      if c.size = 0 then .freed else if grants then .granted else .refused := by
  rw [step_call, verdict_request]

/-- The counter is told what becomes of the block that a call acts on. -/
theorem tracker_call {t : Tracker} (ht : p.tracker = some t) (c : PoolCall) (grants : Bool) :
    (p.call c grants).1.tracker = some (t.account ((p.block (p.place c)).getD 0)
      ((after (p.block (p.place c)) c.size (p.call c grants).2.verdict).getD 0)) := by
  have hcall : (p.call c grants).1.tracker =
      (p.request (p.operand c).1 (p.operand c).2 c.size grants).1.tracker := by
    cases c <;> rfl
  rw [hcall, step_call]
  exact tracker_request ht (p.held_operand c) c.size grants

/-- A call changes the block it acts on, and no other. -/
theorem block_call (hknows : p.knows c = true) (grants : Bool) (i : Nat) :
    (p.call c grants).1.block i =
      if i = p.place c then after (p.block i) c.size (p.call c grants).2.verdict
      else p.block i := by
  cases c with
  | fresh tag size =>
    simp only [call, block, blocks_request, place, PoolCall.size]
    by_cases hi : i = p.blocks.length
    · -- the fresh block is put behind the others
      simp [hi]
    · rw [if_neg hi]
      -- places before it are kept, and there are none behind it
      rcases Nat.lt_or_gt_of_ne hi with hlt | hgt
      · rw [List.getElem?_append_left hlt]
      · rw [List.getElem?_eq_none (by simp; omega), List.getElem?_eq_none (by omega)]
  | resize index size =>
    have hindex : index < p.blocks.length := by simpa [knows] using hknows
    simp only [call, block, blocks_request, place, PoolCall.size]
    by_cases hi : i = index
    · simp [hi, hindex]
    · simp [hi, List.getElem?_set_ne (Ne.symm hi)]

/-- The total changes with the block that a call acts on. -/
theorem liveBytes_call (hknows : p.knows c = true) (grants : Bool) :
    (p.call c grants).1.liveBytes + (p.block (p.place c)).getD 0 =
      p.liveBytes +
        (after (p.block (p.place c)) c.size (p.call c grants).2.verdict).getD 0 := by
  rw [liveBytes_eq, liveBytes_eq]
  cases c with
  | fresh tag size =>
    simp [call, blocks_request, place, PoolCall.size, block_length]
  | resize index size =>
    have hindex : index < p.blocks.length := by simpa [knows] using hknows
    have hget : p.blocks[index]? = some (p.block index) := by simp [block, hindex]
    simp only [call, blocks_request, place, PoolCall.size]
    exact sum_map_set (fun b => b.getD 0) hget _

/-- A call that is refused leaves the counter and every block as they were. -/
theorem call_of_refused (hknows : p.knows c = true)
    (hrefused : (p.call c grants).2.verdict = .refused) :
    (p.call c grants).1.tracker = p.tracker ∧ ∀ i, (p.call c grants).1.block i = p.block i := by
  constructor
  · cases ht : p.tracker with
    | none => cases c <;> simp [call, request, ht]
    | some t => rw [tracker_call ht, hrefused]; simp [after, Tracker.account]
  · intro i
    rw [block_call hknows, hrefused]
    exact ite_self _

/-! ## The counter -/

/-- A counter of nothing counts an empty pool. -/
theorem counts_empty : (empty true).Counts := ⟨.zero, rfl, rfl⟩

/-- A counter that reads the total goes on to do so. -/
theorem counts_call (h : p.Counts) (hknows : p.knows c = true) (grants : Bool) :
    (p.call c grants).1.Counts := by
  obtain ⟨t, ht, hreads⟩ := h
  exact ⟨_, tracker_call ht c grants,
    Tracker.toNat_account hreads (liveBytes_call hknows grants)⟩

/-- Over any calls the counter reads the total, one call after the other. -/
theorem counts_calls {cs : List (PoolCall × Bool)} (h : p.Counts) (hproper : p.Proper cs) :
    (p.calls cs).Counts := by
  induction cs generalizing p with
  | nil => exact h
  | cons c rest ih => exact ih (counts_call h hproper.1 c.2) hproper.2

/-! ## Freeing what is left -/

/-- The blocks of a pool are freed one after another, those of the first `n` places. -/
private def freed (p : Pool) (n : Nat) : Pool :=
  (List.range n).foldl
    (fun q index => if (q.block index).isSome then (q.call (.resize index 0) true).1 else q) p

/-- The place of number `n` is looked at last. -/
private theorem freed_succ (p : Pool) (n : Nat) :
    p.freed (n + 1) = if ((p.freed n).block n).isSome then
      ((p.freed n).call (.resize n 0) true).1 else p.freed n := by
  simp only [freed, List.range_succ, List.foldl_append, List.foldl_cons, List.foldl_nil]
  rfl

/-- Whoever has a block knows its place. -/
theorem knows_of_block {i size : Nat} (h : (p.block i).isSome = true) :
    p.knows (.resize i size) = true := by
  have hi : i < p.blocks.length := by
    by_contra hle
    rw [block, List.getElem?_eq_none (Nat.le_of_not_lt hle)] at h
    exact absurd h Bool.false_ne_true
  exact decide_eq_true hi

/-- What has been looked at is null, and what is yet to come is as it was. -/
private theorem block_freed (p : Pool) (n i : Nat) :
    (p.freed n).block i = if i < n then none else p.block i := by
  induction n with
  | zero => rfl
  | succ n ih =>
    rw [freed_succ]
    split
    next hsome =>
      -- the block is there, and freeing it touches no other place
      rw [block_call (knows_of_block hsome), verdict_call, ih]
      by_cases hi : i = n
      · subst hi
        simp [place, PoolCall.size, after]
      · have hlt : i < n + 1 ↔ i < n := by omega
        simp [place, hi, hlt]
    next hnone =>
      rw [ih]
      by_cases hi : i = n
      · -- there was nothing to free
        subst hi
        simpa [ih] using hnone
      · have hlt : i < n + 1 ↔ i < n := by omega
        simp [hlt]

/-- A counter follows what is freed. -/
private theorem counts_freed (h : p.Counts) (n : Nat) : (p.freed n).Counts := by
  induction n with
  | zero => exact h
  | succ n ih =>
    rw [freed_succ]
    split
    next hsome => exact counts_call ih (knows_of_block hsome) true
    next => exact ih

/-- Every block can be freed. -/
theorem block_freeAll (p : Pool) (i : Nat) : p.freeAll.block i = none := by
  show (p.freed p.blocks.length).block i = none
  rw [block_freed]
  split
  · rfl
  next hle => rw [block, List.getElem?_eq_none (Nat.le_of_not_lt hle)]; rfl

/-- When all is freed the counter reads what is left. -/
theorem counts_freeAll (h : p.Counts) : p.freeAll.Counts :=
  counts_freed h p.blocks.length

/-- A counter reads zero once every block is null. -/
theorem Counts.live?_eq_zero (h : p.Counts) (hnull : ∀ i, p.block i = none) : p.live? = some 0 := by
  obtain ⟨t, ht, hreads⟩ := h
  rw [liveBytes_eq_zero hnull] at hreads
  rw [live?, ht]
  exact congrArg some hreads

/-- Whatever calls are made of the counting callback, and whichever of them the system refuses, the
counter reads the bytes of the blocks that are live, if they are no more than a word can tell. Each
call that asks for bytes may be refused, and then it leaves the counter and every block as they
were. What the callback takes for the size of a block, which is all that a call can take from the
counter, is never more than it reads, whatever tag was passed with a null pointer. And it reads zero
once all blocks have been freed, which can be done. -/
theorem counter_reads_live_bytes (cs : List (PoolCall × Bool)) (hproper : (empty true).Proper cs) :
    ∃ t, ((empty true).calls cs).tracker = some t ∧
      let p := (empty true).calls cs
      (p.liveBytes < 2 ^ 64 → t.allocated.toNat = p.liveBytes) ∧
      (∀ c, p.knows c = true → c.size ≠ 0 →
        (p.call c false).2.verdict = .refused ∧ (p.call c false).1.tracker = some t ∧
          ∀ i, (p.call c false).1.block i = p.block i) ∧
      (p.liveBytes < 2 ^ 64 → ∀ c, p.knows c = true →
        Tracker.held (p.operand c).1 (p.operand c).2 ≤ t.allocated.toNat) ∧
      ((∀ i, p.block i = none) → t.allocated.toNat = 0) ∧
      (∀ i, p.freeAll.block i = none) ∧ p.freeAll.live? = some 0 := by
  have hcounts := counts_calls counts_empty hproper
  obtain ⟨t, ht, hreads⟩ := id hcounts
  refine ⟨t, ht, ?_⟩
  dsimp only
  -- of the calls that led to the pool, only that its counter reads the total matters
  generalize (empty true).calls cs = p at hcounts ht hreads ⊢
  refine ⟨fun hword => ?_, fun c hknows hsize => ?_, fun hword c _ => ?_, fun hnull => ?_,
    p.block_freeAll, (counts_freeAll hcounts).live?_eq_zero p.block_freeAll⟩
  · rw [hreads, Nat.mod_eq_of_lt hword]
  · have hrefused : (p.call c false).2.verdict = .refused := by simp [verdict_call, hsize]
    obtain ⟨htracker, hblocks⟩ := call_of_refused hknows hrefused
    exact ⟨hrefused, htracker.trans ht, hblocks⟩
  · rw [hreads, Nat.mod_eq_of_lt hword, held_operand]
    exact p.getD_block_le (p.place c)
  · rw [hreads, liveBytes_eq_zero hnull]
    rfl

/-- Blocks come and go: a fresh one is tagged, grows, shrinks, is freed and comes back, the system
refuses now and then, and null is freed. -/
private def traffic : List (PoolCall × Bool) :=
  [(.fresh 7 32, true), (.fresh 3 4096, false), (.resize 0 1000, true), (.resize 0 5000, false),
    (.resize 0 8, true), (.fresh 9 24, true), (.resize 0 0, false), (.resize 0 0, true),
    (.resize 0 16, true), (.resize 1 0, true), (.resize 2 20, true)]

/-- Of three blocks two are live, and the counter reads their bytes. One more request may be
refused, and it reads zero when both have been freed. -/
theorem traffic_counted :
    (empty true).Proper traffic ∧ ((empty true).calls traffic).blocks = [some 16, none, some 20] ∧
      ∃ t, ((empty true).calls traffic).tracker = some t ∧ t.allocated.toNat = 36 ∧
        (((empty true).calls traffic).call (.resize 2 64) false).1.tracker = some t ∧
        ((empty true).calls traffic).freeAll.live? = some 0 := by
  have hproper : (empty true).Proper traffic :=
    ⟨rfl, rfl, rfl, rfl, rfl, rfl, rfl, rfl, rfl, rfl, rfl, trivial⟩
  obtain ⟨t, ht, hreads, hrefused, -, -, -, hzero⟩ := counter_reads_live_bytes traffic hproper
  have htotal : ((empty true).calls traffic).liveBytes = 36 := by rfl
  -- the reading is a word, since the total is
  rw [htotal] at hreads
  exact ⟨hproper, rfl, t, ht, hreads (by decide), (hrefused (.resize 2 64) rfl (by decide)).2.1,
    hzero⟩

end Pool

end Safepoint
