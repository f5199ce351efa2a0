import Marginalia.Session.Records

/-!
# Decorations

What is drawn beside a line with a bound marker: the category and the first words of its fragment.
Lines with unbound markers or none get nothing.
-/

namespace Marginalia

structure Decoration where
  line : Nat
  start : Nat
  stop : Nat
  id : Text
  preview : Preview
  deriving DecidableEq, Repr

namespace Preview

/-- The category, and the first words if there are any. -/
def label (p : Preview) : Text :=
  match p.inline with
  | none | some [] => p.category ++ [':']
  | some words => p.category ++ ':' :: ' ' :: words

end Preview

namespace Session

def decorate (s : Session) (t : Tree) (number : Nat) (line : Text) :
    Except Fault (Option Decoration) :=
  match Marker.scan number line with
  | none => .ok none
  | some m =>
    match m.binding with
    | none => .ok none
    | some b =>
      (s.preview t b.id).map fun preview =>
        some { line := number, start := m.start, stop := m.stop, id := b.id, preview }

def decorations (s : Session) (t : Tree) (lines : List Text) : Except Fault (List Decoration) :=
  (lines.zipIdx.mapM fun (line, number) => s.decorate t number line).map (List.filterMap id)

end Session

end Marginalia
