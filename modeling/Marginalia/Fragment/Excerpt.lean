import Marginalia.Text.Blank
import Marginalia.Text.Lines

/-!
# Excerpts

The start of a text within a number of lines and of characters. A mark follows when the text has
more lines or more characters than that.
-/

namespace Marginalia.Text

def ellipsis : Char := '\u2026'

/-- The lines before a signed index. -/
def linesBefore (ls : List Text) (i : Int) : List Text := ls.take (cut ls.length i)

def excerpt (maxLines maxChars : Int) (s : Text) : Text :=
  let ls := lines s
  let kept := joinLines (linesBefore ls maxLines)
  let kept := if maxChars < kept.length then trimEnd (before kept maxChars) else kept
  if maxLines < ls.length || maxChars < s.length then kept ++ ['\n', '\n', ellipsis] else kept

end Marginalia.Text
