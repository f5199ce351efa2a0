import Marginalia.Text.Basic

/-!
# Lines

Two divisions of a text into lines. `Text.atNewlines` cuts at line feeds only, so it has one piece
more than the text has line feeds, and `joinLines` undoes it. `Text.lines` cuts after every line
boundary there is, a carriage return with its line feed counting as one, and a boundary at the
very end opens no further line.
-/

namespace Marginalia.Text

/-! ## Line feeds only -/

/-- The pieces between line feeds. There is always at least one. -/
def atNewlines : Text → List Text
  | [] => [[]]
  | c :: r =>
    if c = '\n' then [] :: atNewlines r
    else
      match atNewlines r with
      | [] => [[c]]
      | l :: ls => (c :: l) :: ls

def joinLines (ls : List Text) : Text := join ['\n'] ls

/-- Without the carriage return at its end, when there is one. -/
def dropReturn (l : Text) : Text := (dropEnding? ['\r'] l).getD l

/-- The lines as an editor numbers them: cut at line feeds, without a carriage return at the end. -/
def editorLines (s : Text) : List Text := (atNewlines s).map dropReturn

/-! ## All line boundaries -/

def isLineEnd (c : Char) : Bool :=
  let n := c.toNat
  (0x0A ≤ n && n ≤ 0x0D) || (0x1C ≤ n && n ≤ 0x1E) || n == 0x85 || n == 0x2028 || n == 0x2029

def lines : Text → List Text
  | [] => []
  | '\r' :: '\n' :: r => [] :: lines r
  | c :: r =>
    if isLineEnd c then [] :: lines r
    else
      match lines r with
      | [] => [[c]]
      | l :: ls => (c :: l) :: ls

/-- Carriage returns, alone or before a line feed, read as line feeds. -/
def unifyNewlines : Text → Text
  | [] => []
  | '\r' :: '\n' :: r => '\n' :: unifyNewlines r
  | '\r' :: r => '\n' :: unifyNewlines r
  | c :: r => c :: unifyNewlines r

end Marginalia.Text
