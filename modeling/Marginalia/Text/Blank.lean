import Marginalia.Text.Basic

/-!
# Blank characters

The blank characters are Unicode's white space together with the four information separators
U+001C to U+001F. The zero width space and the byte order mark are not blank.
-/

namespace Marginalia

def isBlank (c : Char) : Bool :=
  let n := c.toNat
  (0x09 ≤ n && n ≤ 0x0D) || (0x1C ≤ n && n ≤ 0x20) || n == 0x85 || n == 0xA0 || n == 0x1680 ||
    (0x2000 ≤ n && n ≤ 0x200A) || n == 0x2028 || n == 0x2029 || n == 0x202F || n == 0x205F ||
    n == 0x3000

namespace Text

def allBlank (s : Text) : Bool := s.all isBlank

def trimStart (s : Text) : Text := s.dropWhile isBlank

def trimEnd (s : Text) : Text := dropEndWhile isBlank s

def trim (s : Text) : Text := dropEndsWhile isBlank s

/-- Every maximal run of blank characters exchanged for one hyphen. -/
def hyphenate : Text → Text
  | [] => []
  | c :: r =>
    if isBlank c then
      match r with
      | [] => ['-']
      | d :: _ => if isBlank d then hyphenate r else '-' :: hyphenate r
    else c :: hyphenate r

end Text

end Marginalia
