import Marginalia.Config.Load
import Marginalia.Session.Binding
import Marginalia.Session.Migration
import Marginalia.Summary.File

/-!
# The command line

One command is run in a folder, which is the root of its workspace: the settings are loaded, the
default set is made, and then the command does its work. What it prints, its exit code and the tree
afterwards are its outcome. Faults that are reported go to the error output with exit code one;
others end the program.
-/

namespace Marginalia.CommandLine

/-! ## Faults -/

/-- Why a file given by the user cannot be used: the line's number, or the file. -/
inductive Unusable where
  | number (text : Text) (fault : Numeral.Fault)
  | file (path : Path) (fault : Disk.Fault)
  deriving DecidableEq, Repr

inductive Fault where
  | workspace (fault : Marginalia.Fault)
  | missingValue (option : Text)
  | cannotOpen (file line : Text) (cause : Unusable)
  | outOfRange (line : Text)
  | noFragment (id : Text)
  /-- The log level in the settings is no string. -/
  | logLevel
  deriving DecidableEq, Repr

/-- The most characters of a quoted text that a message about a numeral shows. -/
def mostQuoted : Nat := 200

def numeralText (text : Text) : Numeral.Fault → Text
  | .malformed =>
    "invalid literal for int() with base 10: ".toList ++ (Text.quoted text).take mostQuoted
  | .tooLong digits =>
    (s!"Exceeds the limit ({Numeral.limit} digits) for integer string conversion: " ++
      s!"value has {digits} digits; " ++
      "use sys.set_int_max_str_digits() to increase the limit").toList

def Unusable.text : Unusable → Text
  | .number text fault => numeralText text fault
  | .file path fault => fault.text [path.text]

def createOperation : Text := "create_fragment".toList

def Fault.report? : Fault → Option Report
  | .workspace fault => fault.report?
  | .missingValue option => some { operation := option, message := "option needs a value".toList }
  | .cannotOpen file line cause =>
    some
      { operation := createOperation
        message := "cannot open ".toList ++ file ++ ':' :: line
        cause := some cause.text }
  | .outOfRange line =>
    some
      { operation := createOperation
        message := "line ".toList ++ line ++ " is out of range".toList }
  | .noFragment id =>
    some
      { operation := "refresh_refs".toList
        message := "fragment ".toList ++ id ++ " not found".toList }
  | .logLevel => none

/-! ## Arguments -/

def setOption : Text := "--set".toList

/-- The value of an option, and the arguments without both. -/
def takeOption (name : Text) (args : List Text) : Except Fault (Option Text × List Text) :=
  match args.dropWhile (· != name) with
  | [] => .ok (none, args)
  | [_] => .error (.missingValue name)
  | _ :: value :: rest => .ok (some value, args.takeWhile (· != name) ++ rest)

def usage : List Text :=
  ["Usage: python -m codemeta <command> [args]",
    "  summary [--toml] [--set NAME]  Write a set summary",
    "  refs ID                        List occurrences of a fragment",
    "  refresh-refs ID                Recompute a fragment's cached refs",
    "  upgrade [--dry-run]            Upgrade legacy markers",
    "  sets                           List fragment sets",
    "  new FILE LINE [--set NAME]     Bind the marker on a line"].map String.toList

/-! ## Commands -/

/-- The lines that a command prints, and its exit code. -/
structure Printed where
  lines : List Text := []
  exit : Nat := 0
  deriving DecidableEq, Repr

abbrev Run := ExceptT Fault (StateM Tree)

namespace Run

def ofExcept {α : Type} (r : Except Fault α) : Run α := ExceptT.mk (pure r)

def ofWork {α : Type} (w : Work α) : Run α := w.adapt .workspace

def inspect {α : Type} (look : Tree → Except Marginalia.Fault α) : Run α :=
  ofWork (Work.inspect look)

end Run

def placeText (o : Occurrence) : Text := o.file ++ ':' :: Numeral.ofInt o.line

def entryText (entry : Text × Int) : Text := Numeral.ofInt entry.2 ++ '@' :: entry.1

/-- The most folders that the walk of a command can be inside of at a time. -/
def walkLevels : Nat := 982

def migrationLines (r : Session.MigrationReport) : List Text :=
  r.files ++ [s!"{r.markers} marker(s) in {r.files.length} file(s)".toList]

/-- A file that was opened at a line. -/
structure Opened where
  location : Location
  text : Text
  /-- The index of the line, which may lie outside the text. -/
  line : Int
  deriving DecidableEq, Repr

/-- Opens a file, seen from the working folder, at a line counted from one. -/
def openFile (t : Tree) (cwd : Path) (file line : Text) : Except Fault Opened :=
  match Numeral.readInt line with
  | .error fault => .error (.cannotOpen file line (.number line fault))
  | .ok number =>
    let path := Path.ofText file
    let opened : Except Disk.Fault Opened := do
      let location ← t.resolveFrom cwd.parts path
      let text ← t.verbatimAt location
      pure { location, text, line := number - 1 }
    opened.mapError fun fault => .cannotOpen file line (.file path fault)

/-- Binds the marker on a line of a file. -/
def new (s : Session) (now : Int) (cwd : Path) (file line : Text) : Run Printed := do
  let opened ← Run.ofExcept (openFile (← get) cwd file line)
  let name ← Run.inspect fun _ => s.relativePath (cwd.join (Path.ofText file))
  let document := Document.ofText name opened.text
  if opened.line < 0 || document.lines.length ≤ opened.line then throw (.outOfRange line)
  let (result, desk) := (s.bindMarker now opened.line).run { tree := ← get, document }
  set desk.tree
  match result with
  | .error fault => throw (.workspace fault)
  | .ok none => pure { lines := ["No unbound marker on that line.".toList] }
  | .ok (some bound) =>
    Run.ofWork (Work.change fun t => t.writeAt opened.location (.text desk.document.text))
    let state := if bound.created then "created" else "reused"
    pure { lines := [bound.id ++ '\t' :: bound.path.text ++ '\t' :: state.toList] }

def dispatch (s : Session) (now : Int) (cwd : Path) (set : Option Text) (command : Text)
    (args : List Text) : Run Printed := do
  match String.ofList command, args with
  | "summary", args =>
    let format := if args.contains "--toml".toList then .toml else .markdown
    let path ← Run.ofWork (s.summarize now set format)
    pure { lines := [path.text] }
  | "refs", id :: _ =>
    let found ← Run.inspect fun t => s.findReferences t id
    pure { lines := found.map placeText }
  | "refresh-refs", id :: _ =>
    match ← Run.ofWork (s.refresh id) with
    | none => throw (.noFragment id)
    | some counts => pure { lines := counts.entries.map entryText }
  | "upgrade", args =>
    let report ← Run.ofWork (s.migrate walkLevels cwd (args.contains "--dry-run".toList))
    pure { lines := migrationLines report }
  | "sets", _ =>
    let names ← Run.inspect s.listSets
    pure { lines := names }
  | "new", file :: line :: _ => new s now cwd file line
  | _, _ => pure { lines := usage, exit := 1 }

/-- The surroundings of a run: the environment, the folders and the moment. -/
structure Setting where
  env : List (Text × Text) := []
  cwd : Path
  home : Path
  now : Int

/-- Runs a command with its arguments. -/
def command (e : Setting) (name : Text) (args : List Text) : Run Printed := do
  let config ← Run.inspect fun t => Config.load t e.env none e.cwd e.home
  match config.logLevel with
  | .string _ => pure ()
  | _ => throw .logLevel
  let (set, args) ← Run.ofExcept (takeOption setOption args)
  let s ← Run.ofWork (Session.activate { root := some e.cwd, config } set)
  dispatch s e.now e.cwd set name args

/-! ## Outcomes -/

/-- What a run prints, and its exit code unless a fault ends the program. -/
structure Outcome where
  exit : Except Fault Nat
  output : Text := []
  errors : Text := []

def printed (lines : List Text) : Text := lines.flatMap (· ++ ['\n'])

def run (e : Setting) (args : List Text) (t : Tree) : Outcome × Tree :=
  match args with
  | [] => ({ exit := .ok 1, output := printed usage }, t)
  | name :: args =>
    match (command e name args).run t with
    | (.ok p, t) => ({ exit := .ok p.exit, output := printed p.lines }, t)
    | (.error fault, t) =>
      match fault.report? with
      | some report =>
        ({ exit := .ok 1, errors := printed ["CodeMeta: ".toList ++ report.text] }, t)
      | none => ({ exit := .error fault }, t)

end Marginalia.CommandLine
