import Marginalia.Text.Lines
import Marginalia.Text.Utf8

/-!
# File contents

A file holds a text, or bytes that are no UTF-8. A file counts as binary when a NUL is among its
first `sniffed` bytes.
-/

namespace Marginalia

inductive Content where
  | text (s : Text)
  | raw (bytes : List UInt8)
  deriving DecidableEq, Repr

namespace Content

def ofBytes (bytes : List UInt8) : Content :=
  match Utf8.decode bytes with
  | .ok s => .text s
  | .error _ => .raw bytes

/-- The text as it stands in the file. -/
def verbatim : Content → Except Utf8.Fault Text
  | .text s => .ok s
  | .raw bytes => Utf8.decode bytes

/-- The text with every line ending in a line feed alone. -/
def unified (c : Content) : Except Utf8.Fault Text := c.verbatim.map Text.unifyNewlines

/-! ## Binary files -/

def sniffed : Nat := 4096

/-- The characters of a text that start within its first bytes. -/
def startingWithin (bytes : Nat) : Text → Text
  | [] => []
  | c :: r => if bytes = 0 then [] else c :: startingWithin (bytes - c.utf8Size) r

def isBinary : Content → Bool
  | .text s => (startingWithin sniffed s).contains '\x00'
  | .raw bytes => (bytes.take sniffed).contains 0

/-- The text of a file that can be scanned for markers. -/
def scannable? (c : Content) : Option Text := if c.isBinary then none else c.verbatim.toOption

end Content

end Marginalia
