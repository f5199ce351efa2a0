import Marginalia.CommandLine
import Marginalia.Disk.Changes
import Std.Time.DateTime.Timestamp

/-!
# The program

Reads the working folder into a tree, runs the command that its arguments name, and brings the
changes back to the disk. Beside the working folder the tree holds the settings file of the home
folder and the files that arguments name.
-/

namespace Marginalia.Main

def absoluteText (l : Location) : String := String.ofList ({ slashes := 1, parts := l } : Path).text

/-- Enters a file, if there is one that can be read. -/
def enterFile (t : Tree) (l : Location) : IO Tree := do
  try
    let bytes ← IO.FS.readBinFile (absoluteText l)
    pure (t.put l (.file (Content.ofBytes bytes.toList)))
  catch _ => pure t

/-- Enters a folder and all that is below it, but nothing behind a link to a folder. -/
partial def enterFolder (t : Tree) (l : Location) : IO Tree := do
  let folder ← IO.FS.realPath (absoluteText l)
  let mut t := t.put l .folder
  for entry in ← folder.readDir do
    let below := l ++ [entry.fileName.toList]
    match (← entry.path.symlinkMetadata).type with
    | .dir => t ← enterFolder t below
    | .file | .symlink => t ← enterFile t below
    | .other => pure ()
  pure t

/-- Where an argument would lead as a path from the working folder. -/
def argumentPlace (cwd : Path) (argument : String) : Location :=
  (cwd.join (Path.ofText argument.toList)).collapsed.parts

def readTree (e : CommandLine.Setting) (args : List String) : IO Tree := do
  let settings := ((e.home.child Config.homeFolder).child Config.fileName).parts
  let t ← enterFile {} settings
  let t ← args.foldlM (fun t argument => enterFile t (argumentPlace e.cwd argument)) t
  enterFolder t e.cwd.parts

def writeChange : Location × Option Node → IO Unit
  | (l, none) => IO.FS.removeFile (absoluteText l)
  | (l, some .folder) => IO.FS.createDirAll (absoluteText l)
  | (l, some (.file (.text s))) => do
    IO.FS.createDirAll (absoluteText l.dropLast)
    IO.FS.writeFile (absoluteText l) (String.ofList s)
  | (l, some (.file (.raw bytes))) => do
    IO.FS.createDirAll (absoluteText l.dropLast)
    IO.FS.writeBinFile (absoluteText l) ⟨bytes.toArray⟩

/-- The settings variables that are set. -/
def environment : IO (List (Text × Text)) :=
  Config.variableNames.filterMapM fun name => do
    pure ((← IO.getEnv name).map fun value => (name.toList, value.toList))

def setting : IO CommandLine.Setting := do
  let cwd ← IO.currentDir
  let home := (← IO.getEnv "HOME").getD "/"
  let nanoseconds := (← Std.Time.Timestamp.now).toNanosecondsSinceUnixEpoch.val
  pure
    { env := ← environment
      cwd := Path.ofText cwd.toString.toList
      home := Path.ofText home.toList
      now := nanoseconds.fdiv 1000 }

end Marginalia.Main

open Marginalia in
def main (args : List String) : IO UInt32 := do
  let setting ← Main.setting
  let before ← Main.readTree setting args
  let (outcome, after) := CommandLine.run setting (args.map String.toList) before
  (Tree.changes [] before after).forM Main.writeChange
  IO.print (String.ofList outcome.output)
  IO.eprint (String.ofList outcome.errors)
  match outcome.exit with
  | .ok code => pure (UInt32.ofNat code)
  | .error _ =>
    IO.eprintln "The settings or a fragment cannot be understood."
    pure 1
