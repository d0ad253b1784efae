import Safepoint.Encoding
import Safepoint.Text.Quoted

/-!
# Error messages

A message is the octets it was raised with and the encoding they are to be read in, so that the
octets can become an interpreter string unchanged and still be shown to the embedder as text.
-/

namespace Safepoint

/-- The message of an error: octets, and the encoding that reads them. -/
structure Message where
  bytes : Bytes
  encoding : Encoding
deriving DecidableEq, Repr

namespace Message

/-- The message of a text in an encoding. The encoding is remembered as given. -/
def ofText (text : String) (encoding : Encoding) : Message :=
  ⟨encoding.encode text, encoding⟩

/-- The text of a message, malformed parts replaced. -/
def text (m : Message) : String :=
  m.encoding.decode m.bytes

/-- A message as diagnostics show it: quoted, with the name of its encoding. -/
def quoted (m : Message) : String :=
  Text.quote m.text ++ " (" ++ m.encoding.name ++ ")"

end Message

end Safepoint
