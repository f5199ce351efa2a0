import Marginalia.Marker.Basic

/-!
# Migration of legacy markers

Bound legacy markers get the canonical form. All that follows the id stays as it is, and so does
every line whose marker is unbound or canonical already, or that has none.
-/

namespace Marginalia.Marker

def migrateLine (line : Text) : Text :=
  match scan 0 line with
  | none => line
  | some m =>
    match m.binding with
    | none => line
    | some b =>
      if m.isLegacy then line.take m.start ++ canonicalText m.token b.id ++ line.drop b.stop
      else line

/-- Migrates a line that may end in a carriage return. -/
def migrateEnded (line : Text) : Text :=
  match Text.dropEnding? ['\r'] line with
  | some body => migrateLine body ++ ['\r']
  | none => migrateLine line

structure Migrated where
  text : Text
  count : Nat
  deriving DecidableEq, Repr

/-- Migrates every line of a text and counts the lines changed. -/
def migrateText (s : Text) : Migrated :=
  let before := Text.atNewlines s
  let after := before.map migrateEnded
  { text := Text.joinLines after,
    count := (before.zip after).countP fun (old, new) => old != new }

end Marginalia.Marker
