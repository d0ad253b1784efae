import Mathlib.Algebra.BigOperators.Group.Finset.Basic
import Mathlib.Data.Finset.Dedup
import Safepoint.Memory.Store
import Safepoint.Interpreter
import Safepoint.Proofs.Memory.Ledger

/-!
# Heaps and what holds their blocks

A block of a heap is held by the interpreter that took it for itself, or by the values that share
its string. A `Holding` is one such hold, and `Heap.Books k h G` says that the heap at place `k` is
in order as far as the holdings `G` of all heaps go: its ledger was kept with care, and the blocks
that are live after it are those that are held, each by one thing and of the size that thing needs;
the blocks count their holders, the heap its live bytes and its owners.

An owner is the interpreter or a string, and besides there is one for each block that grew, which
nobody drops.

## Key results

- `Heap.Books.allocate`, `Heap.Books.refuse`, `Heap.Books.hold`, `Heap.Books.letGo`,
  `Heap.Books.free`, `Heap.Books.grow`: what is done to a heap keeps its books
-/

namespace Safepoint

/-- A hold on a block: that of an interpreter on its own, or that of a value on its string. -/
inductive Holding where
  | seat (heap block : Nat)
  | string (s : Str)
deriving DecidableEq

namespace Holding

def heap : Holding → Nat
  | seat heap _ => heap
  | string s => s.heap

def block : Holding → Nat
  | seat _ block => block
  | string s => s.block

/-- The size of the block that is needed. -/
def size : Holding → Nat
  | seat .. => Interpreter.ownBlockSize
  | string s => blockSize s.bytes

end Holding

/-- What is held of the heap at a place, each thing once. -/
def present (k : Nat) (G : Multiset Holding) : Finset Holding :=
  G.toFinset.filter (·.heap = k)

section

variable {k : Nat} {g : Holding} {G : Multiset Holding}

/-- What is present of a heap is what is held of it. -/
theorem mem_present : g ∈ present k G ↔ g ∈ G ∧ g.heap = k := by
  simp [present]

/-- What is held more is present as well. -/
theorem present_cons (hk : g.heap = k) : present k (g ::ₘ G) = insert g (present k G) := by
  simp [present, Finset.filter_insert, hk]

/-- What is held of another heap is not present in this one. -/
theorem present_cons_of_ne (hk : g.heap ≠ k) : present k (g ::ₘ G) = present k G := by
  simp [present, Finset.filter_insert, hk]

/-- To hold something once more makes nothing new present. -/
theorem present_cons_of_mem (hg : g ∈ G) : present k (g ::ₘ G) = present k G := by
  simp [present, Finset.insert_eq_of_mem (Multiset.mem_toFinset.mpr hg)]

end

/-- The live blocks of a heap are those of some holdings, of the sizes these need. -/
def Agrees (live : Nat → Option Nat) (P : Finset Holding) : Prop :=
  ∀ block size, live block = some size ↔ ∃ g ∈ P, g.block = block ∧ g.size = size

section

variable {live : Nat → Option Nat} {P : Finset Holding} {g g' : Holding}

/-- A block that is held is live with its size. -/
theorem Agrees.live_eq (h : Agrees live P) (hg : g ∈ P) : live g.block = some g.size :=
  (h _ _).mpr ⟨g, hg, rfl, rfl⟩

/-- A block that nobody holds is not live. -/
theorem Agrees.live_eq_none (h : Agrees live P) {block : Nat} (hblock : ∀ g ∈ P, g.block ≠ block) :
    live block = none := by
  rw [Option.eq_none_iff_forall_ne_some]
  intro size hlive
  obtain ⟨g, hg, hgb, -⟩ := (h _ _).mp hlive
  exact hblock g hg hgb

/-- A block that becomes live for a holding of its own. -/
theorem Agrees.grant (h : Agrees live P) (hne : ∀ g' ∈ P, g'.block ≠ g.block) :
    Agrees (Function.update live g.block (some g.size)) (insert g P) := by
  intro block size
  by_cases hb : block = g.block
  · subst hb
    simp only [Function.update_self, Option.some.injEq, Finset.mem_insert, exists_eq_or_imp,
      true_and]
    constructor
    -- in the block itself nothing else was held
    · exact fun hsize => .inl hsize
    · rintro (hsize | ⟨g', hg', hblock, -⟩)
      · exact hsize
      · exact absurd hblock (hne g' hg')
  · rw [Function.update_of_ne hb, h block size]
    simp [Ne.symm hb]

/-- A block that is live no more. -/
theorem Agrees.freed (h : Agrees live (insert g P)) (hne : ∀ g' ∈ P, g'.block ≠ g.block) :
    Agrees (Function.update live g.block none) P := by
  intro block size
  by_cases hb : block = g.block
  · subst hb
    simp only [Function.update_self, reduceCtorEq, false_iff, not_exists, not_and]
    exact fun g' hg' hblock => absurd hblock (hne g' hg')
  · rw [Function.update_of_ne hb, h block size]
    simp [Ne.symm hb]

/-- A block that goes over to a holding of another size. -/
theorem Agrees.replace (h : Agrees live (insert g P)) (hblock : g'.block = g.block)
    (hne : ∀ g' ∈ P, g'.block ≠ g.block) :
    Agrees (Function.update live g.block (some g'.size)) (insert g' P) := by
  have hgrant := (h.freed hne).grant (g := g') (by rwa [hblock])
  rwa [hblock, Function.update_idem] at hgrant

end

/-- No block is held by two things. -/
def Coherent (P : Finset Holding) : Prop :=
  ∀ g ∈ P, ∀ g' ∈ P, g.block = g'.block → g = g'

/-- A holding in a block of its own can join. -/
theorem Coherent.cons {P : Finset Holding} {g : Holding} (h : Coherent P)
    (hne : ∀ g' ∈ P, g'.block ≠ g.block) : Coherent (insert g P) := by
  intro g₁ hg₁ g₂ hg₂ heq
  rcases Finset.mem_insert.mp hg₁ with h₁ | h₁ <;> rcases Finset.mem_insert.mp hg₂ with h₂ | h₂
  · rw [h₁, h₂]
  · rw [h₁] at heq
    exact absurd heq.symm (hne g₂ h₂)
  · rw [h₂] at heq
    exact absurd heq (hne g₁ h₁)
  · exact h g₁ h₁ g₂ h₂ heq

namespace Heap

/-- The heap at place `k` is in order, as far as the holdings of all heaps go. -/
structure Books (k : Nat) (h : Heap) (G : Multiset Holding) : Prop where
  within : ∀ g ∈ present k G, g.block < h.blocks.size
  coherent : Coherent (present k G)
  holders : ∀ g ∈ present k G, h.holders g.block = G.count g
  ledger : ∃ live, liveAfter h.ledger.toList = some live ∧ Agrees live (present k G)
  live : h.live = ∑ g ∈ present k G, g.size
  owners : h.owners = (present k G).card + h.ledger.toList.countP HeapCall.grows
  /-- A block is granted once, and blocks are numbered as they are granted. -/
  granted : ∀ block, h.ledger.toList.countP (HeapCall.grants block) =
    if block < h.blocks.size then 1 else 0

variable {k : Nat} {h h' : Heap} {g g' : Holding} {G : Multiset Holding}

/-- Holds on blocks of another heap make no difference. -/
theorem books_cons_of_ne (hk : g.heap ≠ k) : h.Books k (g ::ₘ G) ↔ h.Books k G := by
  -- this heap has as many holders of each block as before
  have hcount : ∀ g' ∈ present k G, (g ::ₘ G).count g' = G.count g' := by
    intro g' hg'
    have hne : g' ≠ g := by
      rintro rfl
      exact hk (mem_present.mp hg').2
    exact Multiset.count_cons_of_ne hne G
  constructor
  · rintro ⟨hwithin, hcoherent, hholders, hledger, hlive, howners, hgranted⟩
    rw [present_cons_of_ne hk] at hwithin hcoherent hholders hledger hlive howners
    exact ⟨hwithin, hcoherent, fun g' hg' => (hholders g' hg').trans (hcount g' hg'), hledger,
      hlive, howners, hgranted⟩
  · rintro ⟨hwithin, hcoherent, hholders, hledger, hlive, howners, hgranted⟩
    rw [← present_cons_of_ne hk] at hwithin hcoherent hholders hledger hlive howners
    rw [← present_cons_of_ne hk] at hcount
    exact ⟨hwithin, hcoherent, fun g' hg' => (hholders g' hg').trans (hcount g' hg').symm, hledger,
      hlive, howners, hgranted⟩

/-- In a heap that is in order, a new holding has its block to itself. -/
theorem Books.block_ne (hb : h.Books k (g ::ₘ G)) (hk : g.heap = k) (hnew : g ∉ G) :
    ∀ g' ∈ present k G, g'.block ≠ g.block := by
  intro g' hg' hblock
  have hcoherent := hb.coherent
  rw [present_cons hk] at hcoherent
  obtain rfl := hcoherent g' (Finset.mem_insert_of_mem hg') g (Finset.mem_insert_self _ _) hblock
  exact hnew (mem_present.mp hg').1

/-- A block that is not there has no holders. -/
private theorem holders_eq (h : Heap) (block : Nat) :
    h.holders block = ((h.blocks[block]?).map Block.holders).getD 0 := by
  unfold holders
  cases h.blocks[block]? <;> rfl

/-- What nobody holds is not present. -/
private theorem not_mem_present (hnew : g ∉ G) : g ∉ present k G :=
  fun hg => hnew (mem_present.mp hg).1

/-! ## Fresh blocks -/

/-- A fresh block, with an owner more. -/
theorem Books.allocate (hb : h.Books k G) {size block : Nat}
    (hask : h.allocate size = (h', some block)) (hk : g.heap = k) (hblock : g.block = block)
    (hsize : g.size = size) : h'.addOwner.Books k (g ::ₘ G) := by
  simp only [Heap.allocate] at hask
  split at hask
  next hgrants =>
    obtain ⟨rfl, hlast⟩ := Prod.mk.inj hask
    obtain rfl : h.blocks.size = block := Option.some.inj hlast
    subst hsize
    -- the new block is behind all those that were there
    have hne : ∀ g' ∈ present k G, g'.block ≠ g.block := by
      intro g' hg'
      have := hb.within g' hg'
      omega
    have hnew : g ∉ present k G := fun hg => hne g hg rfl
    have hnot : g ∉ G := fun hg => hnew (mem_present.mpr ⟨hg, hk⟩)
    obtain ⟨live, hlive, hagrees⟩ := hb.ledger
    constructor
    -- the block of the one that joins is within the heap
    · intro g' hg'
      rw [present_cons hk] at hg'
      simp only [addOwner, Array.size_push]
      rcases Finset.mem_insert.mp hg' with rfl | hg'
      · omega
      · have := hb.within g' hg'
        omega
    · rw [present_cons hk]
      exact hb.coherent.cons hne
    · -- it has one holder, and the others have as many as before
      intro g' hg'
      rw [present_cons hk] at hg'
      rcases Finset.mem_insert.mp hg' with rfl | hg'
      · rw [Multiset.count_cons_self, Multiset.count_eq_zero_of_notMem hnot]
        simp [holders_eq, addOwner, hblock]
      · have hlt := hb.within g' hg'
        have hneg : g' ≠ g := fun heq => hne g' hg' (by rw [heq])
        rw [Multiset.count_cons_of_ne hneg, ← hb.holders g' hg']
        simp [holders_eq, addOwner, Nat.ne_of_lt hlt, Array.getElem?_push]
    · -- the grant is the last entry of the ledger
      refine ⟨Function.update live g.block (some g.size), ?_, ?_⟩
      · simp only [addOwner, Array.toList_push]
        apply liveAfter_concat hlive
        simp [HeapCall.effect, hagrees.live_eq_none (hblock ▸ hne), hblock]
      · rw [present_cons hk]
        exact hagrees.grant hne
    · -- bytes and owners go up by what was granted
      rw [present_cons hk, Finset.sum_insert hnew, ← hb.live]
      simp only [addOwner]
      omega
    · rw [present_cons hk, Finset.card_insert_of_notMem hnew]
      simp only [addOwner, hb.owners, Array.toList_push, List.countP_append, List.countP_singleton,
        HeapCall.grows]
      simp
      omega
    · -- and no other block was granted
      intro b
      simp only [addOwner, Array.toList_push, List.countP_append, hb.granted b,
        List.countP_singleton, HeapCall.grants, Array.size_push, beq_iff_eq]
      split <;> split <;> split <;> omega
  next => simp at hask

/-! ## Refusals -/

/-- A call that changes no block is only entered in the ledger. -/
private theorem Books.enter (hb : h.Books k G) {c : HeapCall} (hblocks : h'.blocks = h.blocks)
    (hlive : h'.live = h.live) (howners : h'.owners = h.owners)
    (hledger : h'.ledger = h.ledger.push c) (hgrows : c.grows = false)
    (hgrants : ∀ block, c.grants block = false)
    (heffect : ∀ live, liveAfter h.ledger.toList = some live → Agrees live (present k G) →
      c.effect live = some live) : h'.Books k G := by
  obtain ⟨live, hafter, hagrees⟩ := hb.ledger
  -- blocks, bytes and owners are the same, so only the ledger is to be looked at
  have hlist : h'.ledger.toList = h.ledger.toList ++ [c] := by
    rw [hledger, Array.toList_push]
  constructor
  · rw [hblocks]
    exact hb.within
  · exact hb.coherent
  · intro g hg
    rw [holders_eq, hblocks, ← holders_eq]
    exact hb.holders g hg
  · rw [hlist]
    exact ⟨live, liveAfter_concat hafter (heffect live hafter hagrees), hagrees⟩
  · rw [hlive, hb.live]
  · simp [howners, hb.owners, hlist, hgrows]
  · intro block
    simp [hlist, hgrants, hblocks, hb.granted]

/-- A refused request is an entry of the ledger that touches no block. -/
theorem Books.refuse (hb : h.Books k G) {size : Nat} (hask : h.allocate size = (h', none)) :
    h'.Books k G := by
  simp only [Heap.allocate] at hask
  split at hask
  next => simp at hask
  next =>
    obtain ⟨rfl, -⟩ := Prod.mk.inj hask
    exact hb.enter rfl rfl rfl rfl rfl (fun _ => rfl) fun _ _ _ => rfl

/-- A block that is not to grow stays as it is. -/
theorem Books.refuse_resize (hb : h.Books k (g ::ₘ G)) {new : Nat}
    (hask : h.resize g.block g.size new = (h', false)) (hk : g.heap = k) :
    h'.Books k (g ::ₘ G) := by
  simp only [Heap.resize] at hask
  split at hask
  next => simp at hask
  next =>
    obtain ⟨rfl, -⟩ := Prod.mk.inj hask
    refine hb.enter rfl rfl rfl rfl rfl (fun _ => rfl) fun live _ hagrees => ?_
    -- the ledger asks that the block be named with its size
    have hlive := hagrees.live_eq (mem_present.mpr ⟨Multiset.mem_cons_self g G, hk⟩)
    simp [HeapCall.effect, hlive]

/-! ## Holders -/

/-- Of a change to one block only its own holders are told. -/
private theorem holders_modify (h : Heap) (f : Block → Block) (block other : Nat) :
    holders { h with blocks := h.blocks.modify block f } other =
      if block = other then ((h.blocks[other]?).map fun b => (f b).holders).getD 0
      else h.holders other := by
  rw [holders_eq, holders_eq, Array.getElem?_modify]
  split
  · rw [Option.map_map]
    rfl
  · rfl

/-- Where only the holders of one block change, the books are about the same blocks. -/
private theorem Books.recount (hb : h.Books k G) {G' : Multiset Holding} (f : Block → Block)
    (block : Nat) (hpresent : present k G' = present k G)
    (hholders : ∀ g ∈ present k G,
      Heap.holders { h with blocks := h.blocks.modify block f } g.block = G'.count g) :
    Books k { h with blocks := h.blocks.modify block f } G' := by
  rw [← hpresent] at hholders
  obtain ⟨hwithin, hcoherent, -, hledger, hlive, howners, hgranted⟩ := hb
  -- all but the holders is about what is present, and that is the same
  rw [← hpresent] at hwithin hcoherent hledger hlive howners
  exact ⟨by simpa using hwithin, hcoherent, hholders, hledger, hlive, howners,
    by simpa using hgranted⟩

/-- A block that is held has a place, with as many holders as there are. -/
private theorem Books.exists_block (hb : h.Books k (g ::ₘ G)) (hk : g.heap = k) :
    ∃ b, h.blocks[g.block]? = some b ∧ b.holders = G.count g + 1 := by
  have hg := mem_present.mpr ⟨Multiset.mem_cons_self g G, hk⟩
  have hlt := hb.within g hg
  refine ⟨h.blocks[g.block], Array.getElem?_eq_getElem hlt, ?_⟩
  have hholders := hb.holders g hg
  rw [holders_eq, Array.getElem?_eq_getElem hlt, Multiset.count_cons_self] at hholders
  exact hholders

/-- One more hold on a block. -/
theorem Books.hold (hb : h.Books k (g ::ₘ G)) (hk : g.heap = k) :
    (h.hold g.block).Books k (g ::ₘ g ::ₘ G) := by
  have hmem := Multiset.mem_cons_self g G
  obtain ⟨b, hblock, hcount⟩ := hb.exists_block hk
  apply hb.recount _ _ (present_cons_of_mem hmem)
  intro g' hg'
  rw [holders_modify]
  split
  next heq =>
    -- no two holdings have the same block, so it is this one
    obtain rfl := hb.coherent g (mem_present.mpr ⟨hmem, hk⟩) g' hg' heq
    rw [hblock, Multiset.count_cons_self, Multiset.count_cons_self]
    show b.holders + 1 = _
    rw [hcount]
  next hne =>
    have hne : g' ≠ g := fun heq => hne (by rw [heq])
    rw [Multiset.count_cons_of_ne hne]
    exact hb.holders g' hg'

/-- One hold fewer on a block that has others. -/
theorem Books.letGo (hb : h.Books k (g ::ₘ G)) (hk : g.heap = k) (hmem : g ∈ G) :
    (h.letGo g.block).Books k G := by
  obtain ⟨b, hblock, hcount⟩ := hb.exists_block hk
  apply hb.recount _ _ (present_cons_of_mem hmem).symm
  intro g' hg'
  rw [holders_modify]
  split
  next heq =>
    -- as before, the block belongs to this holding alone
    obtain rfl := hb.coherent g (mem_present.mpr ⟨Multiset.mem_cons_self g G, hk⟩) g' hg' heq
    rw [hblock]
    show b.holders - 1 = _
    rw [hcount]
    rfl
  next hne =>
    have hne : g' ≠ g := fun heq => hne (by rw [heq])
    have hholders := hb.holders g' hg'
    rwa [Multiset.count_cons_of_ne hne] at hholders

/-! ## Blocks that go back, and blocks that grow -/

/-- The last hold on a block ends, and an owner goes with it. -/
theorem Books.free (hb : h.Books k (g ::ₘ G)) (hk : g.heap = k) (hnew : g ∉ G) :
    (h.free g.block g.size).dropOwner.Books k G := by
  have hne := hb.block_ne hk hnew
  have hnot := not_mem_present (k := k) hnew
  obtain ⟨hwithin, hcoherent, hholders, ⟨live, hlive, hagrees⟩, hbytes, howners, hgranted⟩ := hb
  -- all books are about the one that goes and those that stay; take the one apart
  rw [present_cons hk] at hwithin hcoherent hholders hagrees hbytes howners
  rw [Finset.sum_insert hnot] at hbytes
  rw [Finset.card_insert_of_notMem hnot] at howners
  constructor
  · intro g' hg'
    simpa [Heap.free, dropOwner] using hwithin g' (Finset.mem_insert_of_mem hg')
  · exact fun g₁ hg₁ g₂ hg₂ => hcoherent g₁ (Finset.mem_insert_of_mem hg₁) g₂
      (Finset.mem_insert_of_mem hg₂)
  · -- those that stay have blocks of their own, which were not touched
    intro g' hg'
    have hother := hholders g' (Finset.mem_insert_of_mem hg')
    rw [Multiset.count_cons_of_ne (fun heq => hne g' hg' (by rw [heq]))] at hother
    rw [← hother]
    simp [holders_eq, Heap.free, dropOwner, Array.getElem?_modify, Ne.symm (hne g' hg')]
  · refine ⟨Function.update live g.block none, ?_, hagrees.freed hne⟩
    simp only [Heap.free, dropOwner, Array.toList_push]
    apply liveAfter_concat hlive
    simp [HeapCall.effect, hagrees.live_eq (Finset.mem_insert_self g _)]
  · simp only [Heap.free, dropOwner]
    omega
  · simp [Heap.free, dropOwner, howners, HeapCall.grows]
  · intro block
    simp [Heap.free, dropOwner, hgranted, HeapCall.grants]

/-- A block that has one hold grows for another one, and an owner stays behind. -/
theorem Books.grow (hb : h.Books k (g ::ₘ G)) (hk : g.heap = k) (hnew : g ∉ G) (g' : Holding)
    (hask : h.resize g.block g.size g'.size = (h', true)) (hk' : g'.heap = k)
    (hblock : g'.block = g.block) : h'.addOwner.Books k (g' ::ₘ G) := by
  have hne := hb.block_ne hk hnew
  have hnot := not_mem_present (k := k) hnew
  -- the longer string is new, since the block was held by the copy alone
  have hnot' : g' ∉ present k G := fun hg' => hne g' hg' hblock
  have hnew' : g' ∉ G := fun hg' => hnot' (mem_present.mpr ⟨hg', hk'⟩)
  simp only [Heap.resize] at hask
  split at hask
  next =>
    obtain ⟨rfl, -⟩ := Prod.mk.inj hask
    obtain ⟨hwithin, hcoherent, hholders, ⟨live, hlive, hagrees⟩, hbytes, howners, hgranted⟩ := hb
    rw [present_cons hk] at hwithin hcoherent hholders hagrees hbytes howners
    rw [Finset.sum_insert hnot] at hbytes
    rw [Finset.card_insert_of_notMem hnot] at howners
    have hself := hholders g (Finset.mem_insert_self g _)
    constructor
    · intro g'' hg''
      rw [present_cons hk'] at hg''
      -- the block keeps its place
      simp only [addOwner, Array.size_modify]
      rcases Finset.mem_insert.mp hg'' with rfl | hg''
      · rw [hblock]
        exact hwithin g (Finset.mem_insert_self g _)
      · exact hwithin g'' (Finset.mem_insert_of_mem hg'')
    · rw [present_cons hk']
      refine Coherent.cons (fun g₁ hg₁ g₂ hg₂ => ?_) (by rwa [hblock])
      exact hcoherent g₁ (Finset.mem_insert_of_mem hg₁) g₂ (Finset.mem_insert_of_mem hg₂)
    · -- the size of a block does not count its holders
      have hsame (block : Nat) : Heap.holders (addOwner { h with
          blocks := h.blocks.modify g.block fun b => { b with size := g'.size }
          live := h.live - g.size + g'.size
          attempts := h.attempts + 1
          ledger := h.ledger.push (.resize g.block g.size g'.size true) }) block =
            h.holders block := by
        rw [holders_eq, holders_eq]
        simp only [addOwner, Array.getElem?_modify]
        split
        · rw [Option.map_map]
          rfl
        · rfl
      intro g'' hg''
      rw [hsame]
      rw [present_cons hk'] at hg''
      rcases Finset.mem_insert.mp hg'' with rfl | hg''
      · rw [hblock, hself, Multiset.count_cons_self, Multiset.count_cons_self,
          Multiset.count_eq_zero_of_notMem hnew, Multiset.count_eq_zero_of_notMem hnew']
      · have hother := hholders g'' (Finset.mem_insert_of_mem hg'')
        rw [Multiset.count_cons_of_ne (fun heq => hne g'' hg'' (by rw [heq]))] at hother
        have hne' : g'' ≠ g' := fun heq => hnot' (by rwa [← heq])
        rw [hother, Multiset.count_cons_of_ne hne']
    · -- the block is live with its new size
      refine ⟨Function.update live g.block (some g'.size), ?_, ?_⟩
      · simp only [addOwner, Array.toList_push]
        apply liveAfter_concat hlive
        simp [HeapCall.effect, hagrees.live_eq (Finset.mem_insert_self g _)]
      · rw [present_cons hk']
        exact hagrees.replace hblock hne
    · rw [present_cons hk', Finset.sum_insert hnot']
      -- the bytes of the copy went, and those of the longer string came
      simp only [addOwner]
      omega
    · rw [present_cons hk', Finset.card_insert_of_notMem hnot']
      -- growth leaves an owner behind, which the ledger accounts for
      simp [addOwner, howners, HeapCall.grows]
      omega
    · intro block
      simp [addOwner, hgranted, HeapCall.grants]
  next => simp at hask

end Heap

end Safepoint
