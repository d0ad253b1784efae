import Safepoint.Encoding.Utf16
import Safepoint.Proofs.Encoding.Utf8

/-!
# UTF-8 octets read as UTF-16

Every scalar value is read from some octets, its own in UTF-16. But no text except the empty one is
read back from its octets in UTF-8. If the first scalar value comes back, then it was U+0000 or
ASCII before a U+0000, and from there on the reader is ahead of the text and could go on only over
more U+0000; or it has three octets, and from there on the reader is behind the text, and is left
with octets when the text ends.
-/

namespace Safepoint.Utf16

/-! ## One unit -/

/-- Two octets make a number of sixteen bits, in either order. -/
theorem unit_lt (e : Endian) (x y : UInt8) : e.unit x y < 0x10000 := by
  have := x.toNat_lt
  have := y.toNat_lt
  cases e <;> simp only [Endian.unit] <;> omega

/-- Every number below 0x10000 is the unit of two octets. -/
theorem exists_unit (e : Endian) {u : Nat} (h : u < 0x10000) : ∃ x y, e.unit x y = u := by
  have low : (UInt8.ofNat (u % 0x100)).toNat = u % 0x100 := toNat_octet (by omega)
  have high : (UInt8.ofNat (u / 0x100)).toNat = u / 0x100 := toNat_octet (by omega)
  cases e with
  | little =>
    refine ⟨.ofNat (u % 0x100), .ofNat (u / 0x100), ?_⟩
    simp only [Endian.unit, low, high]
    omega
  | big =>
    refine ⟨.ofNat (u / 0x100), .ofNat (u % 0x100), ?_⟩
    simp only [Endian.unit, low, high]
    omega

/-- With two octets at hand, decoding goes unit by unit. -/
theorem decodeFrom_unit (e : Endian) (waiting : Option Nat) (x y : UInt8) (rest : Bytes) :
    decodeFrom e waiting (x :: y :: rest) =
      (nextUnit waiting (e.unit x y)).1 ++ decodeFrom e (nextUnit waiting (e.unit x y)).2 rest := by
  cases waiting <;> rfl

/-- A unit that is no surrogate. -/
def IsPlain (u : Nat) : Prop := u < 0xD800 ∨ 0xE000 ≤ u ∧ u < 0x10000

/-- A unit that is no surrogate is a character. -/
theorem readUnit_plain {u : Nat} (h : IsPlain u) : readUnit u = ([Char.ofNat u], none) := by
  unfold IsPlain at h
  have notHigh : isHigh u = false := by simp only [isHigh]; grind
  have notLow : isLow u = false := by simp only [isLow]; grind
  simp [readUnit, notHigh, notLow]

/-- Every scalar value is read from some octets. -/
theorem exists_decode (e : Endian) (c : Char) : ∃ bytes, decode e bytes = [c] := by
  have valid : c.toNat < 0xD800 ∨ 0xDFFF < c.toNat ∧ c.toNat < 0x110000 := c.valid
  by_cases plain : c.toNat < 0x10000
  · -- one unit is enough
    obtain ⟨x, y, isUnit⟩ := exists_unit e plain
    have reads : readUnit c.toNat = ([c], none) := by
      rw [readUnit_plain (by unfold IsPlain; omega), Char.ofNat_toNat]
    refine ⟨[x, y], ?_⟩
    show decodeFrom e none [x, y] = [c]
    rw [decodeFrom_unit, isUnit]
    simp only [nextUnit, reads]
    rfl
  · -- a pair of surrogates
    obtain ⟨k, value⟩ : ∃ k, c.toNat = 0x10000 + k := ⟨c.toNat - 0x10000, by omega⟩
    have below : k / 0x400 < 0x400 := by omega
    have bits : k % 0x400 < 0x400 := by omega
    have joined : pair (0xD800 + k / 0x400) (0xDC00 + k % 0x400) = c := by
      unfold pair
      rw [Nat.add_sub_cancel_left, Nat.add_sub_cancel_left,
        show 0x10000 + k / 0x400 * 0x400 + k % 0x400 = c.toNat by omega, Char.ofNat_toNat]
    -- the two halves of the number take one surrogate each
    generalize k / 0x400 = high at below joined
    generalize k % 0x400 = low at bits joined
    obtain ⟨x, y, first⟩ := exists_unit e (u := 0xD800 + high) (by omega)
    obtain ⟨z, w, second⟩ := exists_unit e (u := 0xDC00 + low) (by omega)
    have isHighUnit : isHigh (0xD800 + high) = true := by simp only [isHigh]; grind
    have isLowUnit : isLow (0xDC00 + low) = true := by simp only [isLow]; grind
    refine ⟨[x, y, z, w], ?_⟩
    show decodeFrom e none [x, y, z, w] = [c]
    rw [decodeFrom_unit, first]
    simp only [nextUnit, readUnit, isHighUnit, if_true]
    rw [List.nil_append, decodeFrom_unit, second]
    simp only [nextUnit, isLowUnit, if_true, joined]
    rfl

/-! ## The first scalar value that is read -/

/-- After a high surrogate comes a pair or a replacement. -/
theorem head_of_waiting (e : Endian) {high : Nat} (isHigh : isHigh high) {bytes : Bytes} {c : Char}
    {tail : List Char} (h : decodeFrom e (some high) bytes = c :: tail) :
    c.toNat = 0xFFFD ∨ 0x10000 ≤ c.toNat := by
  -- what follows the high surrogate is the end, half a unit, or a unit that joins it or not
  match bytes with
  | [] =>
    obtain rfl := (List.cons.inj h).1
    exact .inl rfl
  | [_] =>
    obtain rfl := (List.cons.inj h).1
    exact .inl rfl
  | x :: y :: rest =>
    rw [decodeFrom_unit] at h
    simp only [nextUnit] at h
    split at h
    next low =>
      obtain rfl := (List.cons.inj h).1
      simp only [Utf16.isHigh, isLow, Bool.and_eq_true, decide_eq_true_eq] at isHigh low
      right
      unfold pair
      rw [Char.toNat_ofNat, if_pos (by right; omega)]
      omega
    next =>
      obtain rfl := (List.cons.inj h).1
      exact .inl rfl

/-- The first scalar value that is read is the first unit, or a pair or a replacement if that is a
surrogate. -/
theorem head_of_decodeFrom (e : Endian) {x y : UInt8} {rest : Bytes} {c : Char} {tail : List Char}
    (h : decodeFrom e none (x :: y :: rest) = c :: tail) :
    (IsPlain (e.unit x y) ∧ c.toNat = e.unit x y ∧ decodeFrom e none rest = tail) ∨
      (¬ IsPlain (e.unit x y) ∧ (c.toNat = 0xFFFD ∨ 0x10000 ≤ c.toNat)) := by
  rw [decodeFrom_unit] at h
  have bound := unit_lt e x y
  by_cases plain : IsPlain (e.unit x y)
  · left
    simp only [nextUnit, readUnit_plain plain] at h
    obtain ⟨rfl, rest_eq⟩ := List.cons.inj h
    refine ⟨plain, ?_, rest_eq⟩
    rw [Char.toNat_ofNat, if_pos (by unfold IsPlain at plain; unfold Nat.isValidChar; omega)]
  · right
    refine ⟨plain, ?_⟩
    simp only [nextUnit, readUnit] at h
    split at h
    next high => exact head_of_waiting e high h
    next notHigh =>
      -- a unit that is neither plain nor high is a low one on its own, which is replaced
      have low : isLow (e.unit x y) = true := by
        unfold IsPlain at plain
        simp only [isHigh, isLow] at notHigh ⊢
        grind
      rw [if_pos low] at h
      obtain rfl := (List.cons.inj h).1
      exact .inl rfl

/-- Octets are read as something: what is cut off or misplaced is replaced, not dropped. -/
theorem decodeFrom_ne_nil (e : Endian) {bytes : Bytes} (h : bytes ≠ []) :
    decodeFrom e none bytes ≠ [] := by
  intro empty
  match bytes with
  | [_] => exact nomatch empty
  | x :: y :: rest =>
    rw [decodeFrom_unit] at empty
    simp only [nextUnit, readUnit] at empty
    split at empty
    -- a high surrogate waits for what follows, and is replaced at the end
    next high =>
      match rest with
      | [] => exact nomatch empty
      | [_] => exact nomatch empty
      | z :: w :: more =>
        rw [List.nil_append, decodeFrom_unit] at empty
        simp only [nextUnit] at empty
        split at empty <;> exact nomatch empty
    next => split at empty <;> exact nomatch empty

/-! ## Behind the text -/

/-- An octet of a scalar value with three. -/
def IsOfThree (b : UInt8) : Prop :=
  0x80 ≤ b.toNat ∧ b.toNat < 0xC0 ∨ 0xE0 ≤ b.toNat ∧ b.toNat < 0xF0

/-- A character of the basic plane above the two-octet range has three octets, of which none is
small. -/
theorem isOfThree_encodeChar {c : Char} (least : 0x800 ≤ c.toNat) (most : c.toNat < 0x10000) :
    (∀ b ∈ Utf8.encodeChar c, IsOfThree b) ∧ (Utf8.encodeChar c).length = 3 := by
  have form := Utf8.form_encodeChar c
  generalize Utf8.encodeChar c = octets at form
  -- the bounds leave only the form of three octets
  cases form with
  | one | two => omega
  | four => omega
  | three _ first second third =>
    refine ⟨fun b hb => ?_, rfl⟩
    simp only [List.mem_cons, List.not_mem_nil, or_false] at hb
    rcases hb with rfl | rfl | rfl
    · exact .inr first
    · exact .inl second
    · exact .inl third

/-- Octets of a form of three, read in pairs, make large units that are no surrogates. -/
theorem plain_of_three (e : Endian) {x y : UInt8} (hx : IsOfThree x) (hy : IsOfThree y) :
    IsPlain (e.unit x y) ∧ 0x800 ≤ e.unit x y := by
  unfold IsOfThree at hx hy
  unfold IsPlain
  cases e <;> simp only [Endian.unit] <;> omega

/-- Behind the text, a scalar value that is read right has three octets: its unit begins with an
octet of such a scalar value, and ends with another or with its own first octet. -/
theorem reads_three (e : Endian) {x y : UInt8} {rest : Bytes} {c : Char} {tail : List Char}
    (hx : IsOfThree x) (hy : IsOfThree y ∨ ∃ more, Utf8.encodeChar c = y :: more)
    (h : decodeFrom e none (x :: y :: rest) = c :: tail) :
    0x800 ≤ c.toNat ∧ c.toNat < 0x10000 ∧ decodeFrom e none rest = tail := by
  have ends : IsOfThree y ∨ Utf8.Form c (Utf8.encodeChar c) ∧
      ∃ more, Utf8.encodeChar c = y :: more :=
    hy.imp_right fun own => ⟨Utf8.form_encodeChar c, own⟩
  have read := head_of_decodeFrom e h
  have bound := unit_lt e x y
  rcases ends with hy | ⟨form, more, octets⟩
  · obtain ⟨plain, least⟩ := plain_of_three e hx hy
    obtain ⟨-, same, left⟩ := read.resolve_right fun surrogate => surrogate.1 plain
    exact ⟨by omega, by omega, left⟩
  -- the second octet begins a character, and which one is told by its form
  · rw [octets] at form
    unfold IsOfThree at hx
    cases e with
    | big =>
      simp only [Endian.unit, IsPlain] at read bound
      have := y.toNat_lt
      exact ⟨by omega, by omega, (read.resolve_right (by omega)).2.2⟩
    | little =>
      simp only [Endian.unit, IsPlain] at read bound
      cases form with
      | one most =>
        rw [toNat_octet (by omega)] at read bound
        omega
      | two most first => omega
      | three least first => exact ⟨by omega, by omega, (read.resolve_right (by omega)).2.2⟩
      | four least first =>
        omega

/-- A reader that is left with octets of scalar values with three octets is never done at the end of
the text. -/
theorem behind (e : Endian) (text : List Char) {left : Bytes} (some : left ≠ [])
    (ofThree : ∀ b ∈ left, IsOfThree b) : decodeFrom e none (left ++ Utf8.encode text) ≠ text := by
  -- three octets are read as one character and a half, so what is left over never catches up
  induction text generalizing left with
  | nil =>
    rw [Utf8.encode_nil, List.append_nil]
    exact decodeFrom_ne_nil e some
  | cons c text ih =>
    intro h
    rw [Utf8.encode_cons] at h
    match left with
    -- one octet is left over: it is read with the first of the next three
    | [x] =>
      have hx := ofThree x (by simp)
      cases octets : Utf8.encodeChar c with
      | nil => exact absurd (Utf8.form_encodeChar c) (by rw [octets]; nofun)
      | cons y more =>
        rw [octets] at h
        obtain ⟨least, most, read⟩ := reads_three e hx (.inr ⟨more, octets⟩) h
        obtain ⟨all, three⟩ := isOfThree_encodeChar least most
        rw [octets] at all three
        refine ih ?_ (fun b hb => all b (List.mem_cons_of_mem y hb)) read
        rintro rfl
        exact nomatch three
    -- two octets or more are left over: they are read, and three follow
    | x :: y :: left =>
      have hx := ofThree x (by simp)
      have hy := ofThree y (by simp)
      obtain ⟨least, most, read⟩ := reads_three e hx (.inl hy) h
      obtain ⟨all, three⟩ := isOfThree_encodeChar least most
      refine ih (fun none => ?_) (fun b hb => ?_) ((congrArg _ (List.append_assoc ..)).trans read)
      · rw [(List.append_eq_nil_iff.1 none).2] at three
        exact absurd three (by decide)
      · rcases List.mem_append.1 hb with hb | hb
        · exact ofThree b (List.mem_cons_of_mem x (List.mem_cons_of_mem y hb))
        · exact all b hb

/-! ## Ahead of the text -/

/-- A unit that is U+0000 is two octets 00. -/
theorem unit_eq_zero (e : Endian) {x y : UInt8} (h : e.unit x y = 0) : x = 0 ∧ y = 0 := by
  have both : x.toNat = 0 ∧ y.toNat = 0 := by
    cases e <;> simp only [Endian.unit] at h <;> omega
  exact ⟨UInt8.toNat_inj.1 both.1, UInt8.toNat_inj.1 both.2⟩

/-- Octets of a text that begin with 00 begin with a U+0000 alone. -/
theorem starts_with_zero {text : List Char} {rest : Bytes}
    (h : Utf8.encode text = 0 :: rest) :
    ∃ tail, text = '\x00' :: tail ∧ Utf8.encode tail = rest := by
  match text with
  | c :: tail =>
    rw [Utf8.encode_cons] at h
    have form := Utf8.form_encodeChar c
    generalize Utf8.encodeChar c = octets at form h
    -- only a form of one octet begins with 00
    cases form with
    | one most =>
      obtain ⟨first, left⟩ := List.cons.inj h
      have zero : c.toNat = 0 := by
        rw [← toNat_octet (show c.toNat < 0x100 by omega), first]
        rfl
      refine ⟨tail, ?_, left⟩
      rw [← Char.ofNat_toNat c, zero]
    | two _ first | three _ first | four _ first =>
      rw [(List.cons.inj h).1] at first
      exact absurd first (by decide)

/-- A reader that is ahead of the text over U+0000 needs two more of them for each that it reads. -/
theorem ahead (e : Endian) (text : List Char) (k : Nat) :
    decodeFrom e none (Utf8.encode text) ≠ List.replicate (k + 1) '\x00' ++ text := by
  intro h
  -- reading the text gives fewer characters than its octets have units, but zeros were put in front
  cases octets : Utf8.encode text with
  | nil =>
    rw [octets] at h
    exact nomatch h
  | cons x rest =>
    rw [octets] at h
    cases rest with
    | nil => exact absurd (List.cons.inj h).1 (by decide)
    | cons y rest =>
      obtain ⟨-, zero, read⟩ := (head_of_decodeFrom e h).resolve_right fun surrogate =>
        absurd surrogate.2 (by decide)
      -- two zero octets were read as one zero, so the zeros get ahead by one more
      obtain ⟨rfl, rfl⟩ := unit_eq_zero e zero.symm
      obtain ⟨_, rfl, others⟩ := starts_with_zero octets
      obtain ⟨tail, rfl, rfl⟩ := starts_with_zero others
      refine ahead e tail (k + 1) (read.trans ?_)
      rw [List.replicate_succ', List.replicate_succ', List.append_assoc, List.append_assoc]
      rfl
termination_by text.length

/-- No text but the empty one is read back from its octets in UTF-8. -/
theorem eq_nil_of_decode_encode (e : Endian) {text : List Char}
    (h : decode e (Utf8.encode text) = text) : text = [] := by
  match text with
  | [] => rfl
  | c :: text =>
    exfalso
    have octets : Utf8.encode (c :: text) = Utf8.encodeChar c ++ Utf8.encode text := rfl
    rw [decode, octets] at h
    have form := Utf8.form_encodeChar c
    generalize Utf8.encodeChar c = own at form h
    -- which form the first character has tells how its octets are read in pairs
    cases form with
    | one most =>
      have number : (UInt8.ofNat c.toNat).toNat = c.toNat := toNat_octet (by omega)
      cases next : Utf8.encode text with
      | nil =>
        rw [next] at h
        obtain rfl := (List.cons.inj h).1
        exact absurd most (by decide)
      | cons y rest =>
        rw [next] at h
        have read := head_of_decodeFrom e h
        obtain ⟨-, same, read⟩ := read.resolve_right (by omega)
        -- one octet joined with the next reads as the same character only beside a zero
        have zero : y = 0 := by
          refine UInt8.toNat_inj.1 (?_ : y.toNat = 0)
          have := y.toNat_lt
          cases e <;> simp only [Endian.unit, number] at same <;> omega
        obtain ⟨tail, rfl, rfl⟩ := starts_with_zero (zero ▸ next)
        exact ahead e tail 0 read
    | two most first second =>
      have read := head_of_decodeFrom e h
      -- a form of two reads as another character
      unfold Utf8.IsTail at second
      cases e <;> simp only [Endian.unit, IsPlain] at read <;> omega
    | three least first second third =>
      obtain ⟨plain, -⟩ := plain_of_three e (.inr first) (.inl second)
      have read := (head_of_decodeFrom e h).resolve_right fun surrogate => surrogate.1 plain
      -- a form of three leaves an octet over, and what is left over never catches up
      exact behind e text (List.cons_ne_nil _ []) (by simpa [IsOfThree] using .inl third) read.2.2
    | @four x _ _ _ least first second =>
      have read := head_of_decodeFrom e h
      have := x.toNat_lt
      unfold Utf8.IsTail at second
      cases e <;> simp only [Endian.unit, IsPlain] at read <;> omega

end Safepoint.Utf16
