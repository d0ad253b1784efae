import Mathlib.Logic.Function.Basic
import Safepoint.Memory.Heap

/-!
# Ledgers

What a ledger says about its heap. An allocator callback has to be called with care: what is resized
or freed must be a live block, and the size that the caller names must be the block's true size.
`liveAfter` replays a ledger, and answers the blocks that are live after it, with their sizes, if
every call in it was made with that care.

## Key results

- `grants_eq_frees_add`: in such a ledger, a block has been freed as often as it was granted, save
  that the last time may still be to come
-/

namespace Safepoint

namespace HeapCall

/-- The live blocks after a call, with their sizes. A call that names a block that is not live, or
another size than its own, has no effect to speak of. -/
def effect (live : Nat → Option Nat) : HeapCall → Option (Nat → Option Nat)
  | alloc _ none => some live
  | alloc size (some block) =>
    if live block = none then some (Function.update live block (some size)) else none
  | resize block old new granted =>
    if live block = some old then
      some (if granted then Function.update live block (some new) else live)
    else none
  | free block size =>
    if live block = some size then some (Function.update live block none) else none

/-- Whether a call was answered with this block. -/
def grants (block : Nat) : HeapCall → Bool
  | alloc _ (some b) => b == block
  | _ => false

/-- Whether a call gave this block back. -/
def frees (block : Nat) : HeapCall → Bool
  | free b _ => b == block
  | _ => false

/-- Whether a call made a block grow. -/
def grows : HeapCall → Bool
  | resize _ _ _ granted => granted
  | _ => false

/-- The block that was to be resized. -/
def resized? : HeapCall → Option Nat
  | resize block _ _ _ => some block
  | _ => none

variable {live live' : Nat → Option Nat} {c : HeapCall}

/-- A block is live from the call that grants it to the call that frees it. -/
theorem isSome_effect (h : c.effect live = some live') (block : Nat) :
    (c.grants block).toNat + (live block).isSome.toNat =
      (c.frees block).toNat + (live' block).isSome.toNat := by
  cases c with
  | alloc size granted =>
    cases granted with
    | none =>
      obtain rfl : live = live' := by simpa [effect] using h
      rfl
    | some b =>
      simp only [effect, Option.ite_none_right_eq_some, Option.some.injEq] at h
      obtain ⟨hnone, rfl⟩ := h
      -- the block of the call comes to life, from nothing; no other one is touched
      by_cases hb : b = block
      · subst hb
        simp [grants, frees, hnone]
      · simp [grants, frees, hb, Function.update_of_ne (Ne.symm hb)]
  | resize b old new granted =>
    simp only [effect, Option.ite_none_right_eq_some, Option.some.injEq] at h
    obtain ⟨hold, rfl⟩ := h
    cases granted with
    | false => rfl
    | true =>
      -- a block that is resized is live before and after
      by_cases hb : b = block
      · subst hb
        simp [grants, frees, hold]
      · simp [grants, frees, Function.update_of_ne (Ne.symm hb)]
  | free b size =>
    simp only [effect, Option.ite_none_right_eq_some, Option.some.injEq] at h
    obtain ⟨hsome, rfl⟩ := h
    by_cases hb : b = block
    · subst hb
      simp [grants, frees, hsome]
    · simp [grants, frees, hb, Function.update_of_ne (Ne.symm hb)]

end HeapCall

/-- The blocks that are live after a ledger, with their sizes, if every call in it named a live
block by its true size. -/
def liveAfter (ledger : List HeapCall) : Option (Nat → Option Nat) :=
  ledger.foldlM HeapCall.effect fun _ => none

/-- One more call. -/
theorem liveAfter_concat {ledger : List HeapCall} {live live' : Nat → Option Nat} {c : HeapCall}
    (h : liveAfter ledger = some live) (hc : c.effect live = some live') :
    liveAfter (ledger ++ [c]) = some live' := by
  unfold liveAfter at h ⊢
  rw [List.foldlM_append, h]
  simp [hc]

/-- Between two states of the blocks, a block is granted as often as it is freed, up to being live
at either end. -/
private theorem grants_eq_frees_add_go {ledger : List HeapCall} {start live : Nat → Option Nat}
    (h : ledger.foldlM HeapCall.effect start = some live) (block : Nat) :
    ledger.countP (HeapCall.grants block) + (start block).isSome.toNat =
      ledger.countP (HeapCall.frees block) + (live block).isSome.toNat := by
  induction ledger generalizing start with
  | nil =>
    obtain rfl : start = live := by simpa using h
    rfl
  | cons c ledger ih =>
    -- the first call has an effect, and the rest goes on from there
    simp only [List.foldlM_cons, Option.bind_eq_bind, Option.bind_eq_some_iff] at h
    obtain ⟨next, hc, hrest⟩ := h
    have hcount := ih hrest
    have hstep := HeapCall.isSome_effect hc block
    have counted (b : Bool) : (if b = true then 1 else 0) = b.toNat := by cases b <;> rfl
    rw [List.countP_cons, List.countP_cons, counted, counted]
    omega

/-- A block has been freed as often as it was granted, save that the last time is still to come as
long as it is live. -/
theorem grants_eq_frees_add {ledger : List HeapCall} {live : Nat → Option Nat}
    (h : liveAfter ledger = some live) (block : Nat) :
    ledger.countP (HeapCall.grants block) =
      ledger.countP (HeapCall.frees block) + (live block).isSome.toNat :=
  grants_eq_frees_add_go h block

end Safepoint
