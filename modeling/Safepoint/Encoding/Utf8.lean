/-!
# UTF-8

Writing scalar values as octets, and reading octets back with replacement. `decode` answers a
U+FFFD for each maximal run of octets that starts a scalar value and cannot be completed, and for
each octet that cannot start one, so it never fails and never reads past an octet that could start
something new.
-/

namespace Safepoint

/-- Octets, as strings of the interpreter and error messages hold them. -/
abbrev Bytes := List UInt8

/-- What a decoder answers for malformed input. -/
def replacement : Char := '\uFFFD'

namespace Utf8

/-- The octets of one scalar value: one below U+0080, two below U+0800, three below U+10000, and
four otherwise. -/
def encodeChar (c : Char) : Bytes :=
  let n := c.toNat
  if n < 0x80 then
    [UInt8.ofNat n]
  else if n < 0x800 then
    [UInt8.ofNat (0xC0 + n / 0x40), UInt8.ofNat (0x80 + n % 0x40)]
  else if n < 0x10000 then
    [UInt8.ofNat (0xE0 + n / 0x1000), UInt8.ofNat (0x80 + n / 0x40 % 0x40),
      UInt8.ofNat (0x80 + n % 0x40)]
  else
    [UInt8.ofNat (0xF0 + n / 0x40000), UInt8.ofNat (0x80 + n / 0x1000 % 0x40),
      UInt8.ofNat (0x80 + n / 0x40 % 0x40), UInt8.ofNat (0x80 + n % 0x40)]

/-- The octets of a text, scalar value by scalar value. -/
def encode (text : List Char) : Bytes :=
  text.flatMap encodeChar

/-- A scalar value that has been started: how many octets it still owes, the range of the next one,
and the bits read so far. -/
structure Pending where
  owed : Nat
  least : Nat
  most : Nat
  bits : Nat
deriving DecidableEq, Repr

/-- What one octet gives: characters that are now decided, and the scalar value in progress. -/
structure Step where
  decided : List Char
  pending : Option Pending

/-- An octet where a new scalar value may start. The second octet's range is narrowed where a wider
one would admit an overlong form, a surrogate or a value above U+10FFFF. -/
def start (b : UInt8) : Step :=
  let n := b.toNat
  if n < 0x80 then ⟨[Char.ofNat n], none⟩
  else if n < 0xC2 then ⟨[replacement], none⟩
  else if n < 0xE0 then ⟨[], some ⟨1, 0x80, 0xBF, n - 0xC0⟩⟩
  -- what is below A0 would be overlong
  else if n = 0xE0 then ⟨[], some ⟨2, 0xA0, 0xBF, 0⟩⟩
  -- and what is above 9F a surrogate
  else if n = 0xED then ⟨[], some ⟨2, 0x80, 0x9F, 0xD⟩⟩
  else if n < 0xF0 then ⟨[], some ⟨2, 0x80, 0xBF, n - 0xE0⟩⟩
  else if n = 0xF0 then ⟨[], some ⟨3, 0x90, 0xBF, 0⟩⟩
  else if n < 0xF4 then ⟨[], some ⟨3, 0x80, 0xBF, n - 0xF0⟩⟩
  else if n = 0xF4 then ⟨[], some ⟨3, 0x80, 0x8F, 4⟩⟩
  else ⟨[replacement], none⟩

/-- An octet while a scalar value is in progress: one in range goes on with it or completes it; any
other ends it with a replacement and is looked at afresh. -/
def Pending.next (p : Pending) (b : UInt8) : Step :=
  let n := b.toNat
  if p.least ≤ n ∧ n ≤ p.most then
    let bits := p.bits * 0x40 + (n - 0x80)
    if p.owed ≤ 1 then ⟨[Char.ofNat bits], none⟩
    else ⟨[], some ⟨p.owed - 1, 0x80, 0xBF, bits⟩⟩
  else
    let fresh := start b
    ⟨replacement :: fresh.decided, fresh.pending⟩

/-- Reads octets from a given point of a scalar value on. -/
def decodeFrom : Option Pending → Bytes → List Char
  | none, [] => []
  | some _, [] => [replacement]
  | none, b :: rest =>
    let s := start b
    s.decided ++ decodeFrom s.pending rest
  | some p, b :: rest =>
    let s := p.next b
    s.decided ++ decodeFrom s.pending rest

/-- The text of octets, malformed parts replaced. -/
def decode (bytes : Bytes) : List Char :=
  decodeFrom none bytes

/-- Encoding goes character by character. -/
@[simp] theorem encode_nil : encode [] = [] := rfl

@[simp] theorem encode_cons (c : Char) (text : List Char) :
    encode (c :: text) = encodeChar c ++ encode text := rfl

@[simp] theorem decode_nil : decode [] = [] := rfl

end Utf8

end Safepoint
