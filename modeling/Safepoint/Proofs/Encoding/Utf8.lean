import Mathlib
import Safepoint.Encoding.Utf8

/-!
# Reading back what UTF-8 writes

The octets of a scalar value bring the decoder from between scalar values back there and decide that
scalar value alone. So a text comes back from its octets as it was, whatever it is: no scalar value
is a surrogate, and the narrowed ranges after the octets E0, ED, F0 and F4 leave out nothing that
the encoder writes.
-/

namespace Safepoint

/-- An octet has the number that it was made from. -/
theorem toNat_octet {n : Nat} (h : n < 0x100) : (UInt8.ofNat n).toNat = n := by
  rw [UInt8.toNat_ofNat']
  exact Nat.mod_eq_of_lt h

namespace Utf8

@[simp] theorem decodeFrom_none_nil : decodeFrom none [] = [] := rfl

/-- Between characters, decoding goes by what the next octet starts. -/
theorem decodeFrom_none_cons (b : UInt8) (rest : Bytes) :
    decodeFrom none (b :: rest) = (start b).decided ++ decodeFrom (start b).pending rest := rfl

/-- Within a character, decoding goes by what the next octet adds to it. -/
theorem decodeFrom_some_cons (p : Pending) (b : UInt8) (rest : Bytes) :
    decodeFrom (some p) (b :: rest) = (p.next b).decided ++ decodeFrom (p.next b).pending rest :=
  rfl

/-! ## The form of a scalar value's octets -/

/-- An octet after the first one. -/
def IsTail (b : UInt8) : Prop := 0x80 ≤ b.toNat ∧ b.toNat < 0xC0

/-- What the octets of a scalar value are like, by their number. -/
inductive Form (c : Char) : Bytes → Prop where
  | one (most : c.toNat < 0x80) : Form c [UInt8.ofNat c.toNat]
  | two {x y : UInt8} (most : c.toNat < 0x800) (first : 0xC2 ≤ x.toNat ∧ x.toNat < 0xE0)
      (second : IsTail y) : Form c [x, y]
  | three {x y z : UInt8} (least : 0x800 ≤ c.toNat) (first : 0xE0 ≤ x.toNat ∧ x.toNat < 0xF0)
      (second : IsTail y) (third : IsTail z) : Form c [x, y, z]
  | four {x y z w : UInt8} (least : 0x10000 ≤ c.toNat) (first : 0xF0 ≤ x.toNat)
      (second : IsTail y) : Form c [x, y, z, w]

/-- Six bits make a tail. -/
theorem isTail_octet {d : Nat} (six : d < 0x40) : IsTail (UInt8.ofNat (0x80 + d)) := by
  unfold IsTail
  rw [toNat_octet (by omega)]
  omega

/-- A character is encoded in one of the four forms, by the size of its number. -/
theorem form_encodeChar (c : Char) : Form c (encodeChar c) := by
  have valid : c.toNat < 0xD800 ∨ 0xDFFF < c.toNat ∧ c.toNat < 0x110000 := c.valid
  unfold encodeChar
  dsimp only
  split
  next h => exact .one h
  next =>
    split
    next h =>
      refine .two h ?_ (isTail_octet (by omega))
      rw [toNat_octet (by omega)]
      omega
    next =>
      split
      next h =>
        refine .three (by omega) ?_ (isTail_octet (by omega)) (isTail_octet (by omega))
        -- no surrogate is a character, which is why a form of three octets leaves them out
        rw [toNat_octet (by omega)]
        omega
      next =>
        refine .four (by omega) ?_ (isTail_octet (by omega))
        rw [toNat_octet (by omega)]
        omega

/-! ## The octets after the first -/

/-- An octet in range that is not the last one owed adds its six bits. -/
theorem decodeFrom_owing {owed least most bits d : Nat} (rest : Bytes) (low : least ≤ 0x80 + d)
    (high : 0x80 + d ≤ most) (six : d < 0x40) :
    decodeFrom (some ⟨owed + 2, least, most, bits⟩) (UInt8.ofNat (0x80 + d) :: rest) =
      decodeFrom (some ⟨owed + 1, 0x80, 0xBF, bits * 0x40 + d⟩) rest := by
  have number : (UInt8.ofNat (0x80 + d)).toNat = 0x80 + d := toNat_octet (by omega)
  have next : Pending.next ⟨owed + 2, least, most, bits⟩ (UInt8.ofNat (0x80 + d)) =
      ⟨[], some ⟨owed + 1, 0x80, 0xBF, bits * 0x40 + d⟩⟩ := by
    simp only [Pending.next, number]
    rw [if_pos ⟨low, high⟩, if_neg (by omega), show 0x80 + d - 0x80 = d by omega]
    rfl
  rw [decodeFrom_some_cons, next]
  rfl

/-- The last octet owed completes the scalar value. -/
theorem decodeFrom_last {least most bits d : Nat} (rest : Bytes) (low : least ≤ 0x80 + d)
    (high : 0x80 + d ≤ most) (six : d < 0x40) :
    decodeFrom (some ⟨1, least, most, bits⟩) (UInt8.ofNat (0x80 + d) :: rest) =
      Char.ofNat (bits * 0x40 + d) :: decodeFrom none rest := by
  have number : (UInt8.ofNat (0x80 + d)).toNat = 0x80 + d := toNat_octet (by omega)
  have next : Pending.next ⟨1, least, most, bits⟩ (UInt8.ofNat (0x80 + d)) =
      ⟨[Char.ofNat (bits * 0x40 + d)], none⟩ := by
    simp only [Pending.next, number]
    rw [if_pos ⟨low, high⟩, if_pos (by omega), show 0x80 + d - 0x80 = d by omega]
  rw [decodeFrom_some_cons, next]
  rfl

/-! ## The first octet -/

/-- An octet of the lower half is a character. -/
theorem start_ascii {n : Nat} (h : n < 0x80) :
    start (UInt8.ofNat n) = ⟨[Char.ofNat n], none⟩ := by
  have number : (UInt8.ofNat n).toNat = n := toNat_octet (by omega)
  simp only [start, number]
  rw [if_pos h]

/-- The first of two octets. C0 and C1 do not occur: they would start an overlong form. -/
theorem start_two {d : Nat} (low : 2 ≤ d) (high : d < 0x20) :
    start (UInt8.ofNat (0xC0 + d)) = ⟨[], some ⟨1, 0x80, 0xBF, d⟩⟩ := by
  have number : (UInt8.ofNat (0xC0 + d)).toNat = 0xC0 + d := toNat_octet (by omega)
  simp only [start, number]
  rw [if_neg (by omega), if_neg (by omega), if_pos (by omega), show 0xC0 + d - 0xC0 = d by omega]

/-- The first of three octets, and a second one in range: all but those of overlong forms, after E0,
and of surrogates, after ED. -/
theorem start_three (d next : Nat) (high : d < 0x10) (six : next < 0x40)
    (least : d = 0 → 0x20 ≤ next) (most : d = 0xD → next < 0x20) :
    ∃ low up, start (UInt8.ofNat (0xE0 + d)) = ⟨[], some ⟨2, low, up, d⟩⟩ ∧
      low ≤ 0x80 + next ∧ 0x80 + next ≤ up := by
  have number : (UInt8.ofNat (0xE0 + d)).toNat = 0xE0 + d := toNat_octet (by omega)
  simp only [start, number]
  rw [if_neg (by omega), if_neg (by omega), if_neg (by omega)]
  -- an overlong form is ruled out by the second octet
  by_cases first : d = 0
  · refine ⟨0xA0, 0xBF, ?_, by have := least first; omega, by omega⟩
    rw [if_pos (by omega), first]
  · rw [if_neg (by omega)]
    -- and so is a surrogate
    by_cases surrogate : d = 0xD
    · refine ⟨0x80, 0x9F, ?_, by omega, by have := most surrogate; omega⟩
      rw [if_pos (by omega), surrogate]
    · refine ⟨0x80, 0xBF, ?_, by omega, by omega⟩
      rw [if_neg (by omega), if_pos (by omega), show 0xE0 + d - 0xE0 = d by omega]

/-- The first of four octets, and a second one in range: all but those of overlong forms, after F0,
and of values above U+10FFFF, after F4. -/
theorem start_four (d next : Nat) (high : d < 5) (six : next < 0x40)
    (least : d = 0 → 0x10 ≤ next) (most : d = 4 → next < 0x10) :
    ∃ low up, start (UInt8.ofNat (0xF0 + d)) = ⟨[], some ⟨3, low, up, d⟩⟩ ∧
      low ≤ 0x80 + next ∧ 0x80 + next ≤ up := by
  have number : (UInt8.ofNat (0xF0 + d)).toNat = 0xF0 + d := toNat_octet (by omega)
  simp only [start, number]
  rw [if_neg (by omega), if_neg (by omega), if_neg (by omega), if_neg (by omega),
    if_neg (by omega), if_neg (by omega)]
  by_cases first : d = 0
  · refine ⟨0x90, 0xBF, ?_, by have := least first; omega, by omega⟩
    rw [if_pos (by omega), first]
  · -- only the last starter is near the end of the range
    rw [if_neg (by omega)]
    by_cases last : d = 4
    · refine ⟨0x80, 0x8F, ?_, by omega, by have := most last; omega⟩
      rw [if_neg (by omega), if_pos (by omega), last]
    · refine ⟨0x80, 0xBF, ?_, by omega, by omega⟩
      rw [if_pos (by omega), show 0xF0 + d - 0xF0 = d by omega]

/-! ## A scalar value, and a text -/

/-- The octets of a scalar value are read back as it and leave nothing in progress. -/
theorem decodeFrom_encodeChar (c : Char) (rest : Bytes) :
    decodeFrom none (encodeChar c ++ rest) = c :: decodeFrom none rest := by
  have valid : c.toNat < 0xD800 ∨ 0xDFFF < c.toNat ∧ c.toNat < 0x110000 := c.valid
  have back : Char.ofNat c.toNat = c := Char.ofNat_toNat c
  simp only [encodeChar]
  -- from here on the character is its number
  generalize c.toNat = n at valid back
  by_cases one : n < 0x80
  · rw [if_pos one, List.singleton_append, decodeFrom_none_cons, start_ascii one, back]
    rfl
  by_cases two : n < 0x800
  · rw [if_neg one, if_pos two, List.cons_append, decodeFrom_none_cons,
      start_two (by omega) (by omega)]
    refine (decodeFrom_last _ (by omega) (by omega) (by omega)).trans ?_
    rw [show n / 0x40 * 0x40 + n % 0x40 = n by omega, back]
    rfl
  by_cases three : n < 0x10000
  · obtain ⟨low, up, started, inLow, inUp⟩ :=
      start_three (n / 0x1000) (n / 0x40 % 0x40) (by omega) (by omega) (by omega) (by omega)
    rw [if_neg one, if_neg two, if_pos three, List.cons_append, decodeFrom_none_cons, started]
    refine (decodeFrom_owing _ inLow inUp (by omega)).trans ?_
    refine (decodeFrom_last _ (by omega) (by omega) (by omega)).trans ?_
    -- the bits of the octets make up the number again
    rw [show (n / 0x1000 * 0x40 + n / 0x40 % 0x40) * 0x40 + n % 0x40 = n by omega, back]
    rfl
  · obtain ⟨low, up, started, inLow, inUp⟩ :=
      start_four (n / 0x40000) (n / 0x1000 % 0x40) (by omega) (by omega) (by omega) (by omega)
    rw [if_neg one, if_neg two, if_neg three, List.cons_append, decodeFrom_none_cons, started]
    refine (decodeFrom_owing _ inLow inUp (by omega)).trans ?_
    refine (decodeFrom_owing _ (by omega) (by omega) (by omega)).trans ?_
    refine (decodeFrom_last _ (by omega) (by omega) (by omega)).trans ?_
    rw [show ((n / 0x40000 * 0x40 + n / 0x1000 % 0x40) * 0x40 + n / 0x40 % 0x40) * 0x40 + n % 0x40
      = n by omega, back]
    rfl

/-- A text is read back from its octets as it was. -/
theorem decode_encode (text : List Char) : decode (encode text) = text := by
  unfold decode
  induction text with
  | nil => rfl
  | cons c text ih => rw [encode_cons, decodeFrom_encodeChar, ih]

end Utf8

end Safepoint
