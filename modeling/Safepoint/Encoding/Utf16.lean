import Safepoint.Encoding.Utf8

/-!
# UTF-16 octets

Reading octets as 16-bit units and units as scalar values, with replacement: an unpaired surrogate
is one U+FFFD and the unit after it is read on its own; whatever is left unfinished at the end, an
odd octet or a high surrogate or both, is one U+FFFD together.
-/

namespace Safepoint.Utf16

/-- The order of the two octets of a unit. -/
inductive Endian where
  | little
  | big
deriving DecidableEq, Repr

/-- The unit of two octets in the order they come. -/
def Endian.unit (e : Endian) (first second : UInt8) : Nat :=
  match e with
  | .little => first.toNat + 0x100 * second.toNat
  | .big => 0x100 * first.toNat + second.toNat

/-- A unit in D800 to DBFF, the first of a pair. -/
def isHigh (unit : Nat) : Bool := 0xD800 ≤ unit && unit < 0xDC00

/-- A unit in DC00 to DFFF, the second of a pair. -/
def isLow (unit : Nat) : Bool := 0xDC00 ≤ unit && unit < 0xE000

/-- The scalar value of a surrogate pair. -/
def pair (high low : Nat) : Char :=
  Char.ofNat (0x10000 + (high - 0xD800) * 0x400 + (low - 0xDC00))

/-- Reads one unit where no high surrogate waits for its partner: what it decides, and the high
surrogate it leaves. -/
def readUnit (unit : Nat) : List Char × Option Nat :=
  if isHigh unit then ([], some unit)
  else if isLow unit then ([replacement], none)
  else ([Char.ofNat unit], none)

/-- Reads one unit after the high surrogate that waits, if any. -/
def nextUnit (waiting : Option Nat) (unit : Nat) : List Char × Option Nat :=
  match waiting with
  | none => readUnit unit
  | some high =>
    if isLow unit then ([pair high unit], none)
    else
      let fresh := readUnit unit
      (replacement :: fresh.1, fresh.2)

/-- Reads octets two by two after the high surrogate that waits, if any. -/
def decodeFrom (e : Endian) : Option Nat → Bytes → List Char
  | none, [] => []
  | some _, [] => [replacement]
  | _, [_] => [replacement]
  | waiting, first :: second :: rest =>
    let s := nextUnit waiting (e.unit first second)
    s.1 ++ decodeFrom e s.2 rest

/-- The text of octets in the given order, malformed parts replaced. -/
def decode (e : Endian) (bytes : Bytes) : List Char :=
  decodeFrom e none bytes

end Safepoint.Utf16
