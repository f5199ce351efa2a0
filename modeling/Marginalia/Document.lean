import Marginalia.Report
import Marginalia.Text.Lines

/-!
# Documents

An open document: its lines, the edits applied to it and the changes it gave notice of. A line's
index may be negative and then counts from the end. Text typed or put in by an edit stays on its
line, whatever it holds.
-/

namespace Marginalia

inductive Reason where
  | typing
  | undo
  | redo
  deriving DecidableEq, Repr

/-- A text that was put into a line. -/
structure Change where
  line : Int
  column : Int
  text : Text
  reason : Reason := .typing
  deriving DecidableEq, Repr

/-- A change, and whether it was observed when it was made. -/
structure Notice where
  change : Change
  observed : Bool
  deriving DecidableEq, Repr

/-- A text in place of the columns from `start` to before `stop` of a line. -/
structure Edit where
  line : Int
  start : Int
  stop : Int
  text : Text
  deriving DecidableEq, Repr

structure Document where
  lines : List Text
  path : Text := "untitled".toList
  /-- Whether the document refuses every edit. -/
  readOnly : Bool := false
  edits : List Edit := []
  notices : List Notice := []
  deriving DecidableEq, Repr

namespace Document

def ofText (path text : Text) : Document := { lines := Text.atNewlines text, path }

def text (d : Document) : Text := Text.joinLines d.lines

/-- The place in a list of `n` that a signed index names. -/
def index? (n : Nat) (i : Int) : Option Nat :=
  let k := if i < 0 then n + i else i
  if 0 ≤ k && k < n then some k.toNat else none

def line? (d : Document) (i : Int) : Option Text :=
  (index? d.lines.length i).bind fun k => d.lines[k]?

def lineText (d : Document) (i : Int) : Except Fault Text :=
  match d.line? i with
  | some line => .ok line
  | none => .error .noSuchLine

def setLine (d : Document) (i : Int) (line : Text) : Document :=
  match index? d.lines.length i with
  | some k => { d with lines := d.lines.set k line }
  | none => d

def notify (d : Document) (change : Change) (observed : Bool) : Document :=
  { d with notices := d.notices ++ [{ change, observed }] }

/-- Types a text into a line, at a column that may be negative or beyond the line. -/
def type (d : Document) (line column : Int) (text : Text) (observed : Bool) :
    Except Fault (Document × Change) := do
  let current ← d.lineText line
  let change : Change := { line, column, text }
  let typed := Text.before current column ++ text ++ Text.after current column
  pure ((d.setLine line typed).notify change observed, change)

/-- Applies an edit. One that ends beyond its line or before its start is refused. -/
def apply (d : Document) (e : Edit) (observed : Bool) : Except Fault (Document × Bool) := do
  if d.readOnly then return (d, false)
  let current ← d.lineText e.line
  if current.length < e.stop || e.stop < e.start then return (d, false)
  let edited := Text.before current e.start ++ e.text ++ Text.after current e.stop
  let d := { d.setLine e.line edited with edits := d.edits ++ [e] }
  return (d.notify { line := e.line, column := e.start, text := e.text } observed, true)

end Document

end Marginalia
