import Marginalia.Fragment.Header

/-!
# Fragment pages

A page is the text of a fragment's file: a header between two boundaries, then the body. A
boundary is a line of at least three hyphens and any blank space after them, which may run over
several lines. A text that does not start with a boundary, or in which no second one follows, is
all body.
-/

namespace Marginalia

structure Page where
  header : Header := {}
  body : Text := []
  deriving DecidableEq, Repr

namespace Page

/-- What is left after a boundary at the head of a text, from the last line feed of its blank
space on. -/
def boundary? (s : Text) : Option Text :=
  let hyphens := s.takeWhile (· == '-')
  let rest := s.drop hyphens.length
  let space := rest.takeWhile isBlank
  let beyond := rest.drop space.length
  if hyphens.length < 3 then none
  else if beyond.isEmpty then some []
  else if space.contains '\n' then
    some ('\n' :: (space.reverse.takeWhile (· != '\n')).reverse ++ beyond)
  else none

/-- The text before the first boundary that follows a line feed, and what is left after it. -/
def nextBoundary? : Text → Option (Text × Text)
  | [] => none
  | c :: r =>
    match (if c = '\n' then boundary? r else none) with
    | some rest => some ([c], rest)
    | none => (nextBoundary? r).map fun (block, rest) => (c :: block, rest)

def isReturnOrFeed (c : Char) : Bool := c == '\r' || c == '\n'

/-- The header block and the body, for a text that has both boundaries. -/
def split? (s : Text) : Option (Text × Text) :=
  (boundary? s).bind fun rest =>
    (nextBoundary? rest).map fun (block, content) => (block, content.dropWhile isReturnOrFeed)

def parse (s : Text) : Except Excess Page :=
  match split? s with
  | none => .ok { body := s }
  | some (block, body) => (Header.read block).map fun header => { header, body }

def render (p : Page) : Text := p.header.render ++ '\n' :: p.body

end Page

end Marginalia
