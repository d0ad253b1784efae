import Mathlib.Data.Finset.Option
import Mathlib.Data.Multiset.Filter
import Safepoint.Proofs.Memory.Fleet

/-!
# Accounts

What the books of a store come to, in terms of interpreters and strings. `Fleet.strings f k` are the
strings of the heap at place `k` that are held anywhere, each one once however many hold it, and
`Fleet.ownBlock? f k` is the block of the interpreter that has its memory from there, as long as it
is open. A heap has nothing else in it: `sum_present` says that what is held of a heap is the one
block and the strings.

An interpreter that is dropped is told of in the journal, and `Fleet.journal_close` says how.

## Key results

- `Fleet.InOrder.live_eq`, `Fleet.InOrder.owners_eq`: the live bytes of a heap, and its owners
- `Fleet.journal_close`: what the journal says of an interpreter that was dropped
- `Fleet.InOrder.ownBlock?_close`: the heap of a dropped interpreter has no open one any more
-/

namespace Safepoint

variable {κ τ ρ : Type}

/-! ## Strings -/

/-- The string that is held, if it is one. -/
def Holding.str? : Holding → Option Str
  | seat .. => none
  | string s => some s

/-- The strings of the heap at a place that are held, each one once. -/
def stringsOf (k : Nat) (G : Multiset Holding) : Finset Str :=
  (G.filterMap Holding.str?).toFinset.filter (·.heap = k)

/-- The strings that are held of a heap, however often. -/
theorem mem_stringsOf {k : Nat} {G : Multiset Holding} {s : Str} :
    s ∈ stringsOf k G ↔ Holding.string s ∈ G ∧ s.heap = k := by
  have hstr (g : Holding) : g.str? = some s ↔ g = .string s := by
    cases g <;> simp [Holding.str?]
  simp [stringsOf, hstr]

/-- What is held of a heap in which one block is kept at most is that block, and strings. -/
theorem sum_present {M : Type} [AddCommMonoid M] {k : Nat} {G : Multiset Holding}
    {own : Option Nat} (hown : ∀ block, Holding.seat k block ∈ G ↔ own = some block)
    (φ : Holding → M) :
    ∑ g ∈ present k G, φ g =
      (∑ block ∈ own.toFinset, φ (.seat k block)) + ∑ s ∈ stringsOf k G, φ (.string s) := by
  -- blocks and strings are different holdings, so the sum falls into two
  have hpresent : present k G =
      own.toFinset.image (Holding.seat k) ∪ (stringsOf k G).image Holding.string := by
    ext g
    rw [mem_present, Finset.mem_union, Finset.mem_image, Finset.mem_image]
    cases g with
    | seat j block =>
      have hseat := hown block
      constructor
      · -- the block of its own is present when it is held
        rintro ⟨hg, rfl⟩
        exact .inl ⟨block, by simpa using hseat.mp hg, rfl⟩
      · rintro (⟨b, hb, heq⟩ | ⟨s, -, heq⟩)
        · obtain ⟨rfl, rfl⟩ := Holding.seat.inj heq
          exact ⟨hseat.mpr (by simpa using hb), rfl⟩
        · exact nomatch heq
    | string s =>
      constructor
      · rintro ⟨hg, hk⟩
        exact .inr ⟨s, mem_stringsOf.mpr ⟨hg, hk⟩, rfl⟩
      · rintro (⟨b, -, heq⟩ | ⟨t, ht, heq⟩)
        · exact nomatch heq
        · obtain rfl := Holding.string.inj heq
          exact mem_stringsOf.mp ht
  have hdisjoint : Disjoint (own.toFinset.image (Holding.seat k))
      ((stringsOf k G).image Holding.string) := by
    rw [Finset.disjoint_left]
    intro g hg hg'
    obtain ⟨b, -, rfl⟩ := Finset.mem_image.mp hg
    obtain ⟨s, -, heq⟩ := Finset.mem_image.mp hg'
    exact nomatch heq
  rw [hpresent, Finset.sum_union hdisjoint, Finset.sum_image, Finset.sum_image]
  · exact fun _ _ _ _ heq => Holding.string.inj heq
  · exact fun _ _ _ _ heq => (Holding.seat.inj heq).2

/-! ## Blocks of interpreters -/

/-- Whether only strings are held. -/
def OnlyStrings (G : Multiset Holding) : Prop :=
  ∀ k block, Holding.seat k block ∉ G

namespace OnlyStrings

/-- Nothing is held, so no block of its own. -/
theorem zero : OnlyStrings 0 := fun _ _ => Multiset.notMem_zero _

/-- Two parts that hold strings only do so together. -/
theorem add {G H : Multiset Holding} (hG : OnlyStrings G) (hH : OnlyStrings H) :
    OnlyStrings (G + H) := by
  intro k block hmem
  rcases Multiset.mem_add.mp hmem with hmem | hmem
  · exact hG k block hmem
  · exact hH k block hmem

/-- A value holds a string or nothing. -/
theorem value (v : Value κ) : OnlyStrings v.holdings := by
  cases v <;> simp [OnlyStrings, Value.holdings]

/-- Values hold strings only. -/
theorem values (vs : List (Value κ)) : OnlyStrings (holdingsOf vs) := by
  induction vs with
  | nil => exact zero
  | cons v vs ih =>
    rw [holdingsOf_cons]
    exact (value v).add ih

/-- Host code holds strings only. -/
theorem held (h : Held) : OnlyStrings h.holdings := by
  simp [OnlyStrings, Held.holdings]

/-- The outcome of a call holds strings only. -/
theorem outcome (outcome : Outcome κ) : OnlyStrings (outcomeHoldings outcome) := by
  cases outcome with
  | ok vs => exact values vs
  | error e => exact zero

/-- Frames hold strings only, each in its own way. -/
theorem frames (fs : List (Frame κ τ ρ)) : OnlyStrings (frameHoldings fs) := by
  induction fs with
  | nil => exact zero
  | cons f fs ih =>
    rw [frameHoldings_cons]
    refine add ?_ ih
    -- the strings of a frame are those of its values
    match f with
    | .call (.entering _ args) => exact values args
    | .call (.leaving results) => exact values results
    | .script a (.call f) | .script a (.pcall f _) => exact (values a.spare).add (value f)
    | .script a .ready | .script a (.safepoint _) => exact (values a.spare).add zero
    | .host h _ => exact held h
    | .call .body | .boundary .. | .dispatch | .pass .. => exact zero

/-- What is done next holds strings only, also behind a check of a syncpoint. -/
theorem control (c : Control κ τ ρ) : OnlyStrings c.holdings := by
  induction c with
  | invoke _ vs => exact values vs
  | unmark o | deliver o | finished o => exact outcome o
  | run h _ => exact held h
  | reply r => exact values r.holds
  | waiting _ given h _ => exact (values given).add (held h)
  | check _ _ ih | arrive _ _ ih | paused _ _ ih => exact ih
  | _ => exact zero

/-- What an interpreter keeps is part of what is done next. -/
theorem kept (c : Control κ τ ρ) : OnlyStrings c.kept := by
  have hall := control c
  rw [Control.holdings_eq] at hall
  exact fun k block hmem => hall k block (Multiset.mem_add.mpr (.inr hmem))

end OnlyStrings

namespace Fleet

/-- The strings of the heap at a place that are held anywhere. -/
def strings (f : Fleet κ τ ρ) (k : Nat) : Finset Str :=
  stringsOf k f.holdings

/-- The block of the interpreter that has its memory from the heap at a place, while it is open. -/
def ownBlock? (f : Fleet κ τ ρ) (k : Nat) : Option Nat :=
  (f.members.find? fun m => m.system.isOpen && m.heap == k).map (·.system.machine.interp.block)

end Fleet

/-- Besides strings, an open interpreter holds its own block. -/
theorem Member.seat_mem {m : Member κ τ ρ} {k block : Nat} : Holding.seat k block ∈ m.holdings ↔
    m.system.isOpen = true ∧ m.heap = k ∧ m.system.machine.interp.block = block := by
  unfold holdings
  split
  next hopen =>
    -- stack, globals, frames and the work at hand hold strings only, so the block is the own one
    have hglobals := OnlyStrings.values m.system.machine.interp.globals.values k block
    have hstack := OnlyStrings.values m.system.machine.interp.stack.toList k block
    have hframes := OnlyStrings.frames m.system.machine.frames k block
    have hkept := OnlyStrings.kept m.system.machine.control k block
    simp [Interpreter.holdings, Globals.holdings, hglobals, hstack, hframes, hkept, hopen, heap,
      eq_comm]
  next hclosed => simp [hclosed]

namespace Fleet

variable {f : Fleet κ τ ρ}

/-- The one block that is held of a heap besides strings is that of its interpreter. -/
theorem InOrder.seat_mem (h : f.InOrder) (k block : Nat) :
    Holding.seat k block ∈ f.holdings ↔ f.ownBlock? k = some block := by
  have hmem : Holding.seat k block ∈ f.holdings ↔ ∃ m ∈ f.members, m.system.isOpen = true ∧
      m.heap = k ∧ m.system.machine.interp.block = block := by
    have hhands := OnlyStrings.held f.hands k block
    -- what is held of a block of its own, some member holds
    have hmembers (ms : List (Member κ τ ρ)) : Holding.seat k block ∈
        (ms.map Member.holdings).sum ↔ ∃ m ∈ ms, Holding.seat k block ∈ m.holdings := by
      induction ms with
      | nil => simp
      | cons m ms ih => simp [ih]
    unfold holdings
    rw [Multiset.mem_add, hmembers]
    simp only [hhands, false_or, Member.seat_mem]
  rw [hmem]
  unfold ownBlock?
  constructor
  · rintro ⟨m, hm, hopen, hk, hblock⟩
    cases hfind : f.members.find? fun m => m.system.isOpen && m.heap == k with
    | none =>
      have hnone := List.find?_eq_none.mp hfind m hm
      simp [hopen, hk] at hnone
    | some m' =>
      -- no other interpreter has its memory from this heap
      have hm' := List.mem_of_find?_eq_some hfind
      have hk' : m'.heap = k := by
        have hfits := List.find?_some hfind
        simp only [Bool.and_eq_true, beq_iff_eq] at hfits
        exact hfits.2
      obtain rfl := List.inj_on_of_nodup_map h.heaps hm' hm (hk'.trans hk.symm)
      rw [Option.map_some, hblock]
  · intro hown
    obtain ⟨m, hfind, hblock⟩ := Option.map_eq_some_iff.mp hown
    have hm := List.mem_of_find?_eq_some hfind
    have hfits := List.find?_some hfind
    obtain ⟨hopen, hk⟩ : m.system.isOpen = true ∧ m.heap = k := by simpa using hfits
    exact ⟨m, hm, hopen, hk, hblock⟩

variable {k : Nat} {heap : Heap}

/-- The bytes that are live in a heap are those of its interpreter's block and of its strings. -/
theorem InOrder.live_eq (h : f.InOrder) (hget : f.ground.store.heaps[k]? = some heap) :
    heap.live = (if (f.ownBlock? k).isSome then 512 else 0) +
      ∑ s ∈ f.strings k, (s.bytes.length + 1) := by
  rw [(h.books.heaps k heap hget).live, sum_present (h.seat_mem k)]
  congr 1
  cases f.ownBlock? k <;> rfl

/-- The owners of a heap are its interpreter and its strings, and one for each block that grew. -/
theorem InOrder.owners_eq (h : f.InOrder) (hget : f.ground.store.heaps[k]? = some heap) :
    heap.owners = (f.ownBlock? k).isSome.toNat + (f.strings k).card +
      heap.ledger.toList.countP HeapCall.grows := by
  rw [(h.books.heaps k heap hget).owners, Finset.card_eq_sum_ones, sum_present (h.seat_mem k),
    ← Finset.card_eq_sum_ones, ← Finset.card_eq_sum_ones]
  cases f.ownBlock? k <;> rfl

end Fleet

/-! ## The journal -/

namespace Store

variable {s : Store}

/-- A block that goes back is not told of. -/
theorem journal_free (s : Store) (k block size : Nat) :
    (s.free k block size).journal = s.journal := by
  unfold free settle
  split
  · rfl
  · split
    · rfl
    · simp [Tracker.request, mapHeap]

/-- To let go of a string is told nobody. -/
theorem journal_release (s : Store) (str : Str) : (s.release str).journal = s.journal := by
  unfold release
  split
  · rfl
  · exact journal_free ..

/-- To let go of values is told nobody. -/
theorem journal_releaseAll (s : Store) (vs : List (Value κ)) :
    (s.releaseAll vs).journal = s.journal := by
  induction vs generalizing s with
  | nil => rfl
  | cons v vs ih =>
    have hvalue : (s.releaseValue v).journal = s.journal := by
      cases v with
      | str str => exact journal_release s str
      | _ => rfl
    exact (ih (s.releaseValue v)).trans hvalue

/-- To drop an interpreter is told nobody; only its instruments tell. -/
theorem journal_discard (s : Store) (i : Interpreter κ) : (i.discard s).journal = s.journal := by
  unfold Interpreter.discard
  exact (journal_free ..).trans ((journal_releaseAll ..).trans (journal_releaseAll ..))

/-- Notices are written behind those of before. -/
theorem journal_notes (s : Store) (notices : List Notice) :
    (notices.foldl note s).journal.toList = s.journal.toList ++ notices := by
  induction notices generalizing s with
  | nil => simp
  | cons n rest ih =>
    rw [List.foldl_cons, ih]
    simp [note]

end Store

/-- What is told does not depend on what was told before. -/
theorem Instruments.report_notes (i : Instruments) (k : Nat) (s : Store) (notices : List Notice) :
    i.report k (notices.foldl Store.note s) = i.report k s := by
  induction notices generalizing s with
  | nil => rfl
  | cons n rest ih => exact ih (s.note n)

/-- What is told of a dropped interpreter whose counter reads so many bytes, and whose heap so many
owners keep. -/
def Notice.ofTeardown (outstanding escaped : Nat) : List Notice :=
  if 0 < escaped then [.valuesOutlive outstanding escaped]
  else if outstanding ≠ 0 then [.stillAllocated outstanding]
  else []

/-- A teardown tells of values that outlive the interpreter if its heap has an owner left. -/
theorem Notice.valuesOutlive_mem_ofTeardown {bytes n outstanding escaped : Nat} :
    .valuesOutlive bytes n ∈ ofTeardown outstanding escaped ↔
      0 < escaped ∧ bytes = outstanding ∧ n = escaped := by
  unfold ofTeardown
  split
  next h => simp [h]
  next h => split <;> simp [h]

/-- A teardown tells of bytes that are still allocated if no owner is left and the counter reads
some. -/
theorem Notice.stillAllocated_mem_ofTeardown {bytes outstanding escaped : Nat} :
    .stillAllocated bytes ∈ ofTeardown outstanding escaped ↔
      escaped = 0 ∧ outstanding ≠ 0 ∧ bytes = outstanding := by
  unfold ofTeardown
  split
  next h => simp [Nat.ne_of_gt h]
  next h =>
    have hzero := Nat.eq_zero_of_not_pos h
    split
    next hne => simp [hzero, hne]
    next heq => simp [heq]

/-- The report of instruments with a counter is about its reading and the owners of the heap. -/
theorem Instruments.report_eq {i : Instruments} {k t : Nat} {heap : Heap} {s : Store}
    (htracker : i.tracker = some t) (hget : s.heaps[k]? = some heap) :
    i.report k s = Notice.ofTeardown (s.reading t) heap.owners := by
  have howners : s.owners k = heap.owners := by
    unfold Store.owners
    rw [hget]
  unfold report
  rw [htracker, howners]
  rfl

namespace Fleet

variable {f : Fleet κ τ ρ} {i : Nat} {m : Member κ τ ρ} {instruments : Instruments}

/-- The heap of an interpreter stays, whatever happens. -/
theorem InOrder.exists_heap (code : Meaning κ τ ρ) (h : f.InOrder) (hm : m ∈ f.members)
    (e : Event κ τ ρ) : ∃ heap, (f.step code e).ground.store.heaps[m.heap]? = some heap := by
  have hsize := (inOrder_step code h e).2.size_le
  have hlt := Nat.lt_of_lt_of_le (h.within m hm) hsize
  exact ⟨_, Array.getElem?_eq_getElem hlt⟩

/-- An instrumented interpreter that was dropped is told of by what is left then. -/
theorem journal_close (code : Meaning κ τ ρ) (hget : f.members[i]? = some m)
    (hidle : m.isIdle = true) (hinstruments : m.instruments = some instruments) :
    (f.step code (.on i .close)).ground.store.journal.toList = f.ground.store.journal.toList ++
      instruments.report m.heap (f.step code (.on i .close)).ground.store := by
  have hidle' : (m.onGround f.ground).isIdle = true := hidle
  -- the store that the embedder has back is that of the closed interpreter
  have hstore : (f.step code (.on i .close)).ground.store =
      (m.onGround f.ground).closed.ground.store := by
    simp only [step, hget, Member.turn, hidle', if_true]
  have hclosed : (m.onGround f.ground).closed =
      instruments.close (m.system.machine.onGround f.ground) := by
    unfold Member.closed
    rw [show (m.onGround f.ground).instruments = some instruments from hinstruments]
    rfl
  -- to drop the interpreter wrote nothing, so all that is new is the report
  have hjournal : (m.system.machine.onGround f.ground).close.ground.store.journal =
      f.ground.store.journal := by
    simp only [Machine.close]
    split <;> exact Store.journal_discard ..
  rw [hstore, hclosed, Instruments.close_eq, Machine.store_notes, Instruments.report_notes,
    Store.journal_notes, hjournal]
  rfl

/-- The heap of an interpreter that was dropped has no open interpreter any more. -/
theorem InOrder.ownBlock?_close (code : Meaning κ τ ρ) (h : f.InOrder)
    (hget : f.members[i]? = some m) (hidle : m.isIdle = true) :
    (f.step code (.on i .close)).ownBlock? m.heap = none := by
  have hm := Member.steady_onGround (h.steady m (List.mem_of_getElem? hget)) f.ground
  have hidle' : (m.onGround f.ground).isIdle = true := hidle
  obtain ⟨closed, hmem, hheap, hclosed⟩ : ∃ closed ∈ (f.step code (.on i .close)).members,
      closed.heap = m.heap ∧ closed.system.isOpen = false := by
    refine ⟨((m.onGround f.ground).turn code f.hands .close).1, ?_, ?_, ?_⟩
    · obtain ⟨hlt, -⟩ := List.getElem?_eq_some_iff.mp hget
      simp only [step, hget]
      exact List.mem_set hlt _
    · exact (Member.turn_keeps code hm f.hands .close).1
    · simp [Member.turn, hidle']
  -- an open interpreter over that heap would be the one that was dropped
  have h' := (inOrder_step code h (.on i .close)).1
  unfold ownBlock?
  rw [Option.map_eq_none_iff, List.find?_eq_none]
  intro other hother hopen
  obtain ⟨hopen, hsame⟩ : other.system.isOpen = true ∧ other.heap = m.heap := by simpa using hopen
  have heq := List.inj_on_of_nodup_map h'.heaps hother hmem (hsame.trans hheap.symm)
  rw [heq, hclosed] at hopen
  exact Bool.false_ne_true hopen

end Fleet

end Safepoint
