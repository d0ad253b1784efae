import Safepoint.Encoding.SingleByte
import Safepoint.Encoding.Utf16

/-!
# Text encodings

The encodings in which hosts exchange text with an interpreter. Interpreter strings are octets; an
`Encoding` says how text becomes octets (`encode`) and how octets are shown as text (`decode`).
Neither fails: a scalar value without octets is written as a decimal reference, and malformed octets
are read as U+FFFD. The two 16-bit encodings are read as such but write UTF-8, as the web's encoding
standard has it for output.
-/

namespace Safepoint

/-- A supported text encoding. -/
inductive Encoding where
  | utf8
  | utf16le
  | utf16be
  | windows1252
  | windows1251
  | iso88592
  | userDefined
deriving DecidableEq, Repr

namespace Encoding

/-- The name an encoding is shown by. -/
def name : Encoding → String
  | utf8 => "UTF-8"
  | utf16le => "UTF-16LE"
  | utf16be => "UTF-16BE"
  | windows1252 => "windows-1252"
  | windows1251 => "windows-1251"
  | iso88592 => "ISO-8859-2"
  | userDefined => "x-user-defined"

/-- The encoding a label stands for; case makes no difference. -/
def ofLabel? (label : String) : Option Encoding :=
  match label.toLower with
  | "utf-8" | "utf8" => some utf8
  | "windows-1252" | "iso-8859-1" | "latin1" | "us-ascii" => some windows1252
  | "windows-1251" => some windows1251
  | "iso-8859-2" => some iso88592
  | "utf-16le" => some utf16le
  | "utf-16be" => some utf16be
  | "x-user-defined" => some userDefined
  | _ => none

/-- How an encoding lays text out in octets. -/
inductive Layout where
  | utf8
  | utf16 (order : Utf16.Endian)
  | singleByte (upper : List Nat)

/-- The layout of the octets an encoding reads. -/
def layout : Encoding → Layout
  | utf8 => .utf8
  | utf16le => .utf16 .little
  | utf16be => .utf16 .big
  | windows1252 => .singleByte SingleByte.windows1252
  | windows1251 => .singleByte SingleByte.windows1251
  | iso88592 => .singleByte SingleByte.iso88592
  | userDefined => .singleByte SingleByte.userDefined

/-- The encoding that text is actually written in: UTF-8 stands in for the 16-bit ones. -/
def output : Encoding → Encoding
  | utf16le | utf16be => utf8
  | e => e

/-- The octets of a text. -/
def encode (e : Encoding) (text : String) : Bytes :=
  match e.output.layout with
  | .singleByte upper => SingleByte.encode upper text.toList
  | .utf8 | .utf16 _ => Utf8.encode text.toList

/-- The text of octets, malformed parts replaced. A byte order mark is text like any other. -/
def decode (e : Encoding) (bytes : Bytes) : String :=
  match e.layout with
  | .utf8 => String.ofList (Utf8.decode bytes)
  | .utf16 order => String.ofList (Utf16.decode order bytes)
  | .singleByte upper => String.ofList (SingleByte.decode upper bytes)

end Encoding

end Safepoint
