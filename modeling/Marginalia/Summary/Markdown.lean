import Marginalia.Summary.Basic

/-!
# Summaries in Markdown

A section for each fragment, with links to its file and to its occurrences and its body in a fence.
Three backquotes in a body get a zero width space before them, so that no line of the body closes
the fence.
-/

namespace Marginalia

/-! ## Links -/

/-- The link to a file, at a line if one is given. Double dots are resolved and spaces written as
their code. -/
def Path.link (p : Path) (line : Option Int) : Text :=
  let target := Path.joined (Path.collapse p.parts)
  let suffix := match line with
    | none => []
    | some n => ':' :: Numeral.ofInt n
  Text.replaceChar ' ' ['%', '2', '0'] ("vscode://file/".toList ++ target ++ suffix)

/-! ## Fences -/

def backquote : Char := '\x60'

def zeroWidthSpace : Char := '\u200b'

/-- A zero width space before every three backquotes, from left to right. -/
def fenced : Text → Text
  | '\x60' :: '\x60' :: '\x60' :: r =>
    zeroWidthSpace :: backquote :: backquote :: backquote :: fenced r
  | c :: r => c :: fenced r
  | [] => []

def fenceMark : Text := [backquote, backquote, backquote]

/-! ## Sections -/

def Occurrence.item (o : Occurrence) : Text :=
  let place := o.file ++ ':' :: Numeral.ofInt o.line
  "- [".toList ++ place ++ "](".toList ++ o.path.link (some o.line) ++ ")\n".toList

namespace Entry

def occurrenceItems (e : Entry) : Text :=
  if e.occurrences.isEmpty then "- none\n\n".toList
  else e.occurrences.flatMap Occurrence.item ++ ['\n']

def content (e : Entry) : Text :=
  if (Text.trim e.body).isEmpty then "Content: (empty)\n\n".toList
  else
    "Content:\n\n".toList ++ fenceMark ++ "markdown\n".toList ++ fenced e.body ++
      '\n' :: fenceMark ++ "\n\n".toList

def markdown (e : Entry) : Text :=
  "## ".toList ++ e.id ++ " (".toList ++ e.category ++ ")\n\n".toList ++
    "Fragment: [".toList ++ e.relativePath ++ "](".toList ++ e.path.link none ++ ")\n\n".toList ++
    "Occurrences (".toList ++ Numeral.ofNat e.occurrences.length ++ "):\n".toList ++
    e.occurrenceItems ++ e.content

end Entry

def Summary.markdown (s : Summary) : Text :=
  "# Summary for set: ".toList ++ s.set ++ "\n\n".toList ++
    "Generated: ".toList ++ s.generated ++ "\n\n".toList ++
    "Total fragments: ".toList ++ Numeral.ofNat s.entries.length ++ "\n\n".toList ++
    s.entries.flatMap Entry.markdown

end Marginalia
