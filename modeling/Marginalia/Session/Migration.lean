import Marginalia.Disk.Walk
import Marginalia.Marker.Migration
import Marginalia.Session.Basic

/-!
# Migration of a workspace

Gives the bound legacy markers in all files that can be scanned the canonical form. Each file is
read when the walk comes to it, so a file with several names is migrated under the first of them. A
dry run reports what it reads in the same way and changes no file. When the walk ends early what was
migrated until then stays so.
-/

namespace Marginalia

/-- Writes a file that may have further names, which are those grouped with its own. -/
def Tree.overwrite (names : List (List Location)) (t : Tree) (l : Location) (c : Content) : Tree :=
  let further := (names.filter (·.contains l)).flatten
  (l :: further).foldl (fun t k => t.insert k (.file c)) t

namespace Session

/-- The files changed, in the order of the walk, and the number of markers. -/
structure MigrationReport where
  files : List Text := []
  markers : Nat := 0
  deriving DecidableEq, Repr

/-- What a file with legacy markers becomes. -/
def migrated? (c : Content) : Option Marker.Migrated :=
  c.scannable?.bind fun s =>
    let m := Marker.migrateText s
    if m.count = 0 then none else some m

/-- Migrates the file at a location below a folder as it is now. -/
def migrateFile (names : List (List Location)) (base : Location) (dryRun : Bool) :
    MigrationReport × Tree → Location → MigrationReport × Tree
  | (report, t), l =>
    match (t.contentAt (base ++ l)).toOption.bind migrated? with
    | none => (report, t)
    | some m =>
      ({ files := report.files ++ [Path.relativeText l], markers := report.markers + m.count },
        if dryRun then t else t.overwrite names (base ++ l) (.text m.text))

/-- Migrates the files of a walk that can be inside of so many folders at a time. -/
def migrateNamed (names : List (List Location)) (s : Session) (levels : Nat) (root : Path)
    (dryRun : Bool) : Work MigrationReport := do
  let t ← get
  let w := t.walk levels root s.unscanned
  let (report, t) := (w.found.map (·.location)).foldl (migrateFile names w.base dryRun) ({}, t)
  set t
  match w.ended with
  | none => pure report
  | some o => throw (.disk o.fault)

/-- The migration of a workspace in which every file has one name. -/
def migrate (s : Session) (levels : Nat) (root : Path) (dryRun : Bool) : Work MigrationReport :=
  s.migrateNamed [] levels root dryRun

end Session

end Marginalia
