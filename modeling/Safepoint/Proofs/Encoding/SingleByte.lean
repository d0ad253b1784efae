import Safepoint.Encoding.SingleByte
import Safepoint.Proofs.Encoding.Utf8

/-!
# Reading back what a single-byte encoding writes

Over an upper half of at most 128 code points, the octet of a scalar value is read as it, and a
reference, which is ASCII, is read as it stands. Over a full upper half no octet is malformed, so
the scalar values with an octet are exactly those that some octets are read as.
-/

namespace Safepoint.SingleByte

variable {upper : List Nat} {c : Char}

/-! ## Places -/

/-- A place that is found in the upper half has the number in it. -/
theorem getElem?_of_place? {n place start : Nat} :
    ∀ {upper : List Nat}, place? n upper start = some place →
      start ≤ place ∧ upper[place - start]? = some n
  | [], h => nomatch h
  | m :: rest, h => by
    unfold place? at h
    split at h
    next same =>
      obtain rfl := Option.some.inj h
      simp [same]
    next =>
      obtain ⟨after, found⟩ := getElem?_of_place? h
      refine ⟨by omega, ?_⟩
      rw [show place - start = (place - (start + 1)) + 1 by omega, List.getElem?_cons_succ]
      exact found

/-- A number of the upper half is found in some place. -/
theorem isSome_place?_of_mem {n : Nat} :
    ∀ {upper : List Nat} (start : Nat), n ∈ upper → (place? n upper start).isSome
  | m :: rest, start, h => by
    unfold place?
    split
    next => rfl
    next other => exact isSome_place?_of_mem (start + 1) ((List.mem_cons.1 h).resolve_left other)

/-! ## Octets -/

/-- An octet below 80 is read as ASCII. -/
theorem decodeByte_ascii (upper : List Nat) {n : Nat} (h : n < 0x80) :
    decodeByte upper (UInt8.ofNat n) = Char.ofNat n := by
  have number : (UInt8.ofNat n).toNat = n := toNat_octet (by omega)
  unfold decodeByte
  rw [number, if_pos h]

/-- The octet of a scalar value is read as it. -/
theorem decodeByte_of_octet? (half : upper.length ≤ 0x80) {b : UInt8}
    (h : octet? upper c = some b) :
    decodeByte upper b = c := by
  unfold octet? at h
  split at h
  -- an octet of the lower half is the character itself
  next ascii =>
    obtain rfl := Option.some.inj h
    rw [decodeByte_ascii upper ascii, Char.ofNat_toNat]
  next =>
    obtain ⟨place, found, rfl⟩ := Option.map_eq_some_iff.1 h
    -- a place of the upper half has the number of the character in it
    obtain ⟨after, there⟩ := getElem?_of_place? found
    have inside : place - 0x80 < upper.length := (List.getElem?_eq_some_iff.1 there).1
    have number : (UInt8.ofNat place).toNat = place := toNat_octet (by omega)
    unfold decodeByte
    rw [number, if_neg (by omega), there]
    exact Char.ofNat_toNat c

/-- A scalar value that an octet is read as has an octet. No entry of the upper half is looked at: a
number that is no scalar value would be read as U+0000, which has one. -/
theorem isSome_octet?_of_decodeByte (full : upper.length = 0x80) {b : UInt8}
    (h : decodeByte upper b = c) : (octet? upper c).isSome := by
  unfold octet?
  split
  next => rfl
  next upperHalf =>
    rw [Option.isSome_map]
    unfold decodeByte at h
    split at h
    -- the lower half is as it is, and this character is not of it
    next low =>
      have : c.toNat = b.toNat := by
        rw [← h, Char.toNat_ofNat, if_pos (.inl (by omega))]
      omega
    next =>
      -- what the octet shows is found in the upper half
      have inside : b.toNat - 0x80 < upper.length := by have := b.toNat_lt; omega
      rw [List.getElem?_eq_getElem inside] at h
      refine isSome_place?_of_mem 0x80 ?_
      have number : c.toNat = upper[b.toNat - 0x80] := by
        rw [← h, Char.toNat_ofNat] at upperHalf ⊢
        split at upperHalf
        next valid => rw [if_pos valid]
        next => omega
      rw [number]
      exact List.getElem_mem inside

/-! ## References -/

/-- A reference is written in ASCII. -/
theorem reference_ascii {n : Nat} {d : Char} (h : d ∈ reference n) : d.toNat < 0x80 := by
  simp only [reference, List.mem_cons, List.mem_append, List.not_mem_nil, or_false] at h
  rcases h with rfl | rfl | digit | rfl
  · decide
  · decide
  -- of all the characters of a reference only the digits are not known beforehand
  · have numeral := Nat.isDigit_of_mem_toDigits (by decide) (by decide) digit
    simp only [Char.isDigit, ge_iff_le, Bool.and_eq_true, decide_eq_true_eq] at numeral
    have : d.toNat ≤ 57 := numeral.2
    omega
  · decide

/-- Octets of ASCII are read as it stands. -/
theorem decode_ascii (upper : List Nat) {text : List Char} (h : ∀ d ∈ text, d.toNat < 0x80) :
    decode upper (text.map fun d => UInt8.ofNat d.toNat) = text := by
  unfold decode
  rw [List.map_map]
  refine (List.map_congr_left fun d hd => ?_).trans (List.map_id text)
  show decodeByte upper (UInt8.ofNat d.toNat) = d
  rw [decodeByte_ascii upper (h d hd), Char.ofNat_toNat]

/-! ## Texts -/

/-- How a scalar value is read back: as itself if it has an octet, as its reference otherwise. -/
def shown (upper : List Nat) (c : Char) : List Char :=
  if (octet? upper c).isSome then [c] else reference c.toNat

/-- A character is read back as it is, or as the reference that stands for it. -/
theorem decode_encodeChar (half : upper.length ≤ 0x80) (c : Char) :
    decode upper (encodeChar upper c) = shown upper c := by
  unfold encodeChar shown
  cases found : octet? upper c with
  | some b => exact congrArg (· :: []) (decodeByte_of_octet? half found)
  | none => exact decode_ascii upper fun _ => reference_ascii

/-- A text is read back from its octets with references for the scalar values that have none. -/
theorem decode_encode (half : upper.length ≤ 0x80) (text : List Char) :
    decode upper (encode upper text) = text.flatMap (shown upper) := by
  induction text with
  | nil => rfl
  | cons c text ih =>
    rw [List.flatMap_cons, ← decode_encodeChar half, ← ih]
    exact List.map_append

/-- Over a full upper half the scalar values with an octet are those that octets are read as. -/
theorem isSome_octet?_iff (full : upper.length = 0x80) :
    (octet? upper c).isSome ↔ ∃ bytes, decode upper bytes = [c] := by
  constructor
  · intro has
    obtain ⟨b, found⟩ := Option.isSome_iff_exists.1 has
    exact ⟨[b], congrArg (· :: []) (decodeByte_of_octet? (by omega) found)⟩
  · rintro ⟨bytes, read⟩
    obtain ⟨b, rfl, read⟩ := List.map_eq_singleton_iff.1 read
    exact isSome_octet?_of_decodeByte full (List.singleton_inj.1 read)

end Safepoint.SingleByte
