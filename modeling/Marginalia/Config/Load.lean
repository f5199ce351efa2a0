import Marginalia.Config.Basic
import Marginalia.Report
import Marginalia.Toml.Reader

/-!
# Loading the settings

A setting comes from its environment variable if that is set, else from the settings file, else it
has its default. The settings file is the one asked for, or the first that exists of the one in the
working folder and the one in the home folder; one that is no TOML, or cannot be opened, counts as
empty.
-/

namespace Marginalia.Config

def fileName : Name := "codemeta.toml".toList

def homeFolder : Name := ".codemeta".toList

/-- The environment variables of the settings. -/
def variableNames : List String :=
  ["CODEMETA_ID_LENGTH", "CODEMETA_CMS_FOLDER", "CODEMETA_DEFAULT_CATEGORY",
    "CODEMETA_SCAN_CONCURRENCY", "CODEMETA_LOG_LEVEL"]

/-- Where to look for a settings file, in order. -/
def candidates (explicit : Option Path) (cwd home : Path) : List Path :=
  match explicit with
  | some path => [path]
  | none => [cwd.child fileName, (home.child homeFolder).child fileName]

/-- The table in a settings file. -/
def readFile (t : Tree) (path : Path) : Except Fault Toml.Table :=
  match t.readText path with
  | .error (.undecodable fault) => .error (.disk (.undecodable fault))
  | .error _ => .ok []
  | .ok text =>
    match Toml.read text with
    | .ok table => .ok table
    | .error .malformed => .ok []
    | .error (.excess excess) => .error (.excess excess)

def readFirst (t : Tree) : List Path → Except Fault Toml.Table
  | [] => .ok []
  | path :: rest => do
    if ← (t.contains path).mapError .disk then readFile t path else readFirst t rest

/-! ## Settings of several parts -/

def shown (v : Toml.Value) : Except Fault Text := v.shown.mapError .excess

/-- A style with a label that is not blank. -/
def style? (v : Toml.Value) : Except Fault (Option Style) :=
  match v with
  | .table entries => do
    let text ← match entries.lookup "label".toList with
      | none => pure []
      | some label => if label.isVoid then pure [] else shown label
    let label := Text.trim text
    pure (if label.isEmpty then none else
      some
        { label
          foreground := entries.lookup "foreground".toList
          background := entries.lookup "background".toList })
  | _ => .ok none

def readStyles : Option Toml.Value → Except Fault (List Style)
  | some (.array items) => (items.mapM style?).map (List.filterMap id)
  | _ => .ok []

def readExcluded : Option Toml.Value → Except Fault (List Name)
  | some (.array items) => items.mapM shown
  | _ => .ok ({} : Config).excluded

/-! ## All settings -/

/-- The settings in the environment and a table. -/
def ofTable (env : List (Text × Text)) (table : Toml.Table) : Except Fault Config := do
  let fromFile (key : String) := table.lookup key.toList
  let fromEnv (name : String) (otherwise : Option Toml.Value) : Option Toml.Value :=
    ((env.lookup name.toList).map .string).or otherwise
  let scan := match fromFile "scan" with
    | some (.table entries) => entries
    | _ => []
  let number (r : Except Overflow Int) : Except Fault Int := r.mapError fun _ => .overflow
  let idLength ← number (clampIdLength (fromEnv "CODEMETA_ID_LENGTH" (fromFile "id_length")))
  let styles ← readStyles (fromFile "category_styles")
  let excluded ← readExcluded (scan.lookup "exclude_dirs".toList)
  let concurrency ← number
    (wholeAtLeast 1 8 (fromEnv "CODEMETA_SCAN_CONCURRENCY" (scan.lookup "concurrency".toList)))
  let debounceMillis ← number (wholeAtLeast 0 150 (fromFile "refresh_debounce_ms"))
  pure
    { idLength
      folder := label ({} : Config).folder (fromEnv "CODEMETA_CMS_FOLDER" (fromFile "cms_folder"))
      defaultCategory :=
        label ({} : Config).defaultCategory
          (fromEnv "CODEMETA_DEFAULT_CATEGORY" (fromFile "default_category"))
      styles
      excluded
      concurrency
      debounceMillis
      logLevel :=
        (fromEnv "CODEMETA_LOG_LEVEL" (fromFile "log_level")).getD ({} : Config).logLevel }

def load (t : Tree) (env : List (Text × Text)) (explicit : Option Path) (cwd home : Path) :
    Except Fault Config := do
  ofTable env (← readFirst t (candidates explicit cwd home))

end Marginalia.Config
