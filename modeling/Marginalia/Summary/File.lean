import Marginalia.Summary.Markdown
import Marginalia.Summary.Toml

/-!
# Summary files

A summary is written into the folder of its set, in one of two formats.
-/

namespace Marginalia

inductive SummaryFormat where
  | markdown
  | toml
  deriving DecidableEq, Repr

/-- The files that a summary in Markdown links to. -/
def Summary.linked (s : Summary) : List Path :=
  s.entries.flatMap fun e => e.path :: e.occurrences.map (·.path)

namespace SummaryFormat

def fileName : SummaryFormat → Name
  | .markdown => "SUMMARY.md".toList
  | .toml => "SUMMARY.toml".toList

/-- The text of a summary. There is no link to a path with a NUL. -/
def render (f : SummaryFormat) (s : Summary) : Except Fault Text :=
  match f with
  | .markdown => if s.linked.any Path.hasNul then .error (.disk .nulInName) else .ok s.markdown
  | .toml => .ok s.toml

end SummaryFormat

namespace Session

/-- Writes the summary of a set and returns the path of the file. -/
def summarize (s : Session) (now : Int) (set : Option Text) (format : SummaryFormat) :
    Work Path := do
  let _ ← Work.ofExcept (s.requireRoot "summarize_set".toList)
  let summary ← s.summary now set
  let text ← Work.ofExcept (format.render summary)
  let folder ← Work.ofExcept (s.setFolder (some summary.set))
  let path := folder.child format.fileName
  Work.change fun t => t.write path text
  pure path

end Session

end Marginalia
