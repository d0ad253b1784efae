import Safepoint.Proofs.Memory.Accounts

/-!
# What is told at the end

An instrumented interpreter that is dropped looks at what keeps its heap. If anything does, values
outlive their interpreter; if not, its counter has to read zero. What keeps the heap are the strings
that lie in it, and, beside them, one owner for each concatenation that was granted there: the copy
that grew into the result is an owner of the heap for good. So the number that is told is that of
the surviving strings only as long as nothing has been joined, and `Run.nothing_outlives` is a run
in which it is not.

## Key results

- `Fleet.Run.teardown_told`: what keeps a heap at any time, and what is told of a dropped
  interpreter
- `Fleet.Run.nothing_outlives`: after a concatenation, something is said to survive when nothing
  does
-/

namespace Safepoint

variable {κ τ ρ : Type}

/-- The concatenations that were granted in a heap: each one made a block grow. -/
def Heap.grown (h : Heap) : Nat :=
  h.ledger.toList.countP HeapCall.grows

namespace Fleet

/-- A heap is kept by its interpreter while this is open, by each string that lies in it, and by
each concatenation that was granted there. Of an interpreter that is dropped, it is told that values
outlive it if anything keeps its heap then, and how many; else its counter is looked at. So where
nothing was joined, it is told that values outlive it if and only if a string does. -/
theorem Run.teardown_told {code : Meaning κ τ ρ} (r : Run code) (n : Nat) :
    (∀ k heap, (r.state n).ground.store.heaps[k]? = some heap →
      heap.owners = ((r.state n).ownBlock? k).isSome.toNat + ((r.state n).strings k).card +
        heap.grown) ∧
    ∀ i m instruments t, (r.state n).members[i]? = some m → m.isIdle = true →
      r.event n = .on i .close → m.instruments = some instruments → instruments.tracker = some t →
      ∃ heap told, (r.state (n + 1)).ground.store.heaps[m.heap]? = some heap ∧
        (r.state (n + 1)).ground.store.journal.toList =
          (r.state n).ground.store.journal.toList ++ told ∧
        told = Notice.ofTeardown ((r.state (n + 1)).ground.store.reading t)
          (((r.state (n + 1)).strings m.heap).card + heap.grown) ∧
        (heap.grown = 0 → ∀ bytes escaped, .valuesOutlive bytes escaped ∈ told ↔
          ((r.state (n + 1)).strings m.heap).Nonempty ∧
            bytes = (r.state (n + 1)).ground.store.reading t ∧
            escaped = ((r.state (n + 1)).strings m.heap).card) := by
  have h := r.inOrder n
  have h' := r.inOrder (n + 1)
  refine ⟨fun k heap hget => h.owners_eq hget, ?_⟩
  intro i m instruments t hget hidle hevent hinstruments htracker
  obtain ⟨heap, hheap⟩ := h.exists_heap code (List.mem_of_getElem? hget) (r.event n)
  have hjournal := journal_close code hget hidle hinstruments
  have hclosed := h.ownBlock?_close code hget hidle
  rw [← r.next] at hheap
  rw [← hevent, ← r.next] at hjournal hclosed
  -- the interpreter itself is gone when its heap is looked at
  have howners : heap.owners = ((r.state (n + 1)).strings m.heap).card + heap.grown := by
    rw [h'.owners_eq hheap, hclosed]
    simp [Heap.grown]
  rw [Instruments.report_eq htracker hheap, howners] at hjournal
  refine ⟨heap, _, hheap, hjournal, rfl, fun hgrown bytes escaped => ?_⟩
  rw [hgrown, Notice.valuesOutlive_mem_ofTeardown, Nat.add_zero, Finset.card_pos]

/-- A monitored interpreter makes a string, and is dropped with it in the embedder's hands. -/
private def keepsOne : Run (idleCode : Meaning Unit Unit Unit) :=
  .ofEvents idleCode
    ([.instruments ⟨false, true⟩ .standard,
        .on 0 (.start (.ask (.newBytes [107, 101, 112, 116]) fun
          | .value v => .finish (.ok [v])
          | _ => .finish (.ok [])) [])] ++
      List.replicate 3 (.on 0 .advance) ++ [.on 0 .close])

/-- It is told that one string survives, of five bytes. -/
theorem kept_string_outlives :
    ∃ r : Run (idleCode : Meaning Unit Unit Unit), r.event 5 = .on 0 .close ∧
      .valuesOutlive 5 1 ∈ (r.state 6).ground.store.journal.toList := by
  -- the embedder keeps one string over the end of the interpreter
  obtain ⟨-, htold⟩ := Run.teardown_told keepsOne 5
  rw [show 5 + 1 = 6 from rfl] at htold
  have hfacts : (keepsOne.state 5).members[0]?.map (fun m => (m.isIdle, m.instruments, m.heap)) =
      some (true, some ⟨⟨false, true⟩, some 0⟩, 0) := by decide +kernel
  obtain ⟨m, hget, hfacts⟩ := Option.map_eq_some_iff.mp hfacts
  obtain ⟨hidle, hfacts⟩ := Prod.mk.inj hfacts
  obtain ⟨hinstruments, hheap⟩ := Prod.mk.inj hfacts
  obtain ⟨heap, told, hheap', hjournal, -, hescaped⟩ :=
    htold 0 m _ 0 hget hidle rfl hinstruments rfl
  rw [hheap] at hheap' hescaped
  have hgrown : (keepsOne.state 6).ground.store.heaps[0]?.map Heap.grown = some 0 := by
    decide +kernel
  rw [hheap', Option.map_some, Option.some.injEq] at hgrown
  have hstrings : (keepsOne.state 6).strings 0 = {⟨0, 1, [107, 101, 112, 116]⟩} := by
    decide +kernel
  have hreading : (keepsOne.state 6).ground.store.reading 0 = 5 := by decide +kernel
  have hmem := (hescaped hgrown 5 1).mpr (by rw [hstrings, hreading]; simp)
  refine ⟨keepsOne, rfl, ?_⟩
  rw [hjournal]
  exact List.mem_append_right _ hmem

/-- A script function that joins two strings and drops the result. -/
private def joinsAndPops : Prototype :=
  .ofCode "joins and pops" 0 #[.str [97], .str [98], .concat, .pop, .ret 0] rfl

/-- A monitored interpreter runs it and is dropped. -/
private def joinsForNothing : Run (idleCode : Meaning Unit Unit Unit) :=
  .ofEvents idleCode
    ([.instruments ⟨false, true⟩ .standard,
        .on 0 (.start (.ask (.call (.fn (.script 0 joinsAndPops)) []) fun _ => .finish (.ok []))
          [])] ++
      List.replicate 30 (.on 0 .advance) ++ [.on 0 .close])

/-- Nothing is held any more and nothing is counted, yet something keeps the heap, and it is told
that a value outlives its interpreter. -/
theorem Run.nothing_outlives :
    ∃ r : Run (idleCode : Meaning Unit Unit Unit), r.event 32 = .on 0 .close ∧
      (r.state 33).holdings = 0 ∧ (r.state 33).ownBlock? 0 = none ∧ (r.state 33).strings 0 = ∅ ∧
      (r.state 33).ground.store.reading 0 = 0 ∧ (r.state 33).ground.store.owners 0 = 1 ∧
      (r.state 33).ground.store.journal.toList =
        (r.state 32).ground.store.journal.toList ++ [.valuesOutlive 0 1] := by
  refine ⟨joinsForNothing, rfl, ?_, ?_, ?_, ?_, ?_, ?_⟩
  all_goals decide +kernel

end Fleet

end Safepoint
