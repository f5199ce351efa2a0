import Marginalia.Text.Word

/-!
# Marker tokens

A token is a comment opener, a gap and a keyword, and no ASCII word character follows it. The
full keyword may stand after a gap of spaces and tabs; the short one must touch its opener, so
that prose in a comment is no token. `Token.find?` gives the earliest token of a line; of several
that start at one place the first in the grammar's order counts.
-/

namespace Marginalia

inductive Keyword where
  | full
  | short
  deriving DecidableEq, Repr

def Keyword.text : Keyword → Text
  | .full => ['c', 'o', 'd', 'e', 'm', 'e', 't', 'a']
  | .short => ['c', 'm']

structure Token where
  opener : Text
  gap : Text
  keyword : Keyword
  deriving DecidableEq, Repr

def Token.text (t : Token) : Text := t.opener ++ t.gap ++ t.keyword.text

/-- An opener together with a keyword that it may introduce. -/
structure Rule where
  opener : Text
  keyword : Keyword
  deriving DecidableEq, Repr

def openers : List Text := [['/', '/'], ['#'], ['<', '!', '-', '-'], ['/', '*']]

def grammar : List Rule := openers.flatMap fun o => [⟨o, .full⟩, ⟨o, .short⟩]

def isGap (c : Char) : Bool := c == ' ' || c == '\t'

/-- Whether the keyword of a token ends where a text starts. -/
def endsKeyword : Text → Bool
  | [] => true
  | c :: _ => !isAsciiWord c

def Rule.gap (r : Rule) (body : Text) : Text :=
  match r.keyword with
  | .full => body.takeWhile isGap
  | .short => []

/-- The token that a rule gives at the head of a text. -/
def Rule.read? (r : Rule) (s : Text) : Option Token :=
  match Text.dropMark? r.opener s with
  | none => none
  | some body =>
    match Text.dropMark? r.keyword.text (body.drop (r.gap body).length) with
    | none => none
    | some rest =>
      if endsKeyword rest then some ⟨r.opener, r.gap body, r.keyword⟩ else none

namespace Token

/-- The token that the first fitting rule gives at the head of a text. -/
def readBy? (rules : List Rule) (s : Text) : Option Token := rules.findSome? (·.read? s)

/-- The earliest token of a text under the given rules, with its column. -/
def findBy? (rules : List Rule) : Text → Option (Nat × Token)
  | [] => none
  | c :: r =>
    match readBy? rules (c :: r) with
    | some t => some (0, t)
    | none => (findBy? rules r).map fun (column, t) => (column + 1, t)

def find? (line : Text) : Option (Nat × Token) := findBy? grammar line

end Token

end Marginalia
