import Marginalia.Disk.Path
import Marginalia.Toml.Value

/-!
# Settings

What a user can set, the bounds of a setting, and how a value of any kind is read as one. A value
that cannot be read, or that is out of bounds, gives the default; only infinity, which has no
whole part, is an error.
-/

namespace Marginalia

structure Style where
  label : Text
  foreground : Option Toml.Value := none
  background : Option Toml.Value := none
  deriving Repr

structure Config where
  idLength : Int := 10
  folder : Text := ".cms".toList
  defaultCategory : Text := "INFO".toList
  styles : List Style := []
  excluded : List Name :=
    ["node_modules", ".git", "dist", "out", "build", "__pycache__", ".venv"].map String.toList
  concurrency : Int := 8
  debounceMillis : Int := 150
  logLevel : Toml.Value := .string "INFO".toList
  deriving Repr

namespace Config

def leastIdLength : Int := 6

def greatestIdLength : Int := 32

def defaultIdLength : Int := 10

/-- An infinite number in place of a whole one. -/
inductive Overflow where
  | overflow
  deriving DecidableEq, Repr

/-- A value as a whole number: a numeral, a truth value as one or zero, a number without its
fraction. -/
def whole? : Toml.Value → Except Overflow (Option Int)
  | .string s => .ok (Numeral.readInt s).toOption
  | .integer n => .ok (some n)
  | .boolean b => .ok (some (if b then 1 else 0))
  | .float (.infinite _) => .error .overflow
  | .float x => .ok x.truncate?
  | _ => .ok none

def clamp (n : Int) : Int :=
  if n ≤ 0 then defaultIdLength else max leastIdLength (min greatestIdLength n)

/-- The length of random ids that a value asks for. -/
def clampIdLength (v : Option Toml.Value) : Except Overflow Int :=
  match v with
  | none => .ok defaultIdLength
  | some v => (whole? v).map fun n => (n.map clamp).getD defaultIdLength

/-- A whole number that is not below the least one allowed. -/
def wholeAtLeast (least fallback : Int) (v : Option Toml.Value) : Except Overflow Int :=
  match v with
  | none => .ok fallback
  | some v => (whole? v).map fun n => (n.filter (least ≤ ·)).getD fallback

/-- A string that is not blank, without the blank space around it. -/
def label (fallback : Text) : Option Toml.Value → Text
  | some (.string s) => if (Text.trim s).isEmpty then fallback else Text.trim s
  | _ => fallback

/-! ## Styles -/

/-- Whether a label is the word INFO in capitals or small letters, the dotless i included. -/
def isInfo (label : Text) : Bool :=
  match label with
  | [i, n, f, o] =>
    (i == 'I' || i == 'i' || i == '\u0131') && (n == 'N' || n == 'n') &&
      (f == 'F' || f == 'f') && (o == 'O' || o == 'o')
  | _ => false

/-- The last style with the label, else the colors of the first style for INFO, else none. -/
def styleFor (styles : List Style) (label : Text) : Style :=
  match styles.reverse.find? (·.label == label) with
  | some style => style
  | none =>
    match styles.find? (isInfo ·.label) with
    | some style => { style with label }
    | none => { label }

end Config

end Marginalia
