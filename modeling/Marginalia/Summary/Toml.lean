import Marginalia.Summary.Basic

/-!
# Summaries in TOML

A table for each fragment in a list of tables, and in it one for each occurrence. Bodies are
written as strings of several lines, everything else as strings of one.
-/

namespace Marginalia

namespace Toml

/-- The characters that have an escape of their own in a string of one line. -/
def escaped (c : Char) : Text :=
  if c = '\\' then ['\\', '\\']
  else if c = '"' then ['\\', '"']
  else if c = '\n' then ['\\', 'n']
  else if c = '\r' then ['\\', 'r']
  else if c = '\t' then ['\\', 't']
  else [c]

def quote (s : Text) : Text := '"' :: s.flatMap escaped ++ ['"']

/-- Backslashes doubled and every three quotation marks escaped, from left to right. -/
def escapedBody : Text → Text
  | '"' :: '"' :: '"' :: r => '\\' :: '"' :: '\\' :: '"' :: '\\' :: '"' :: escapedBody r
  | '\\' :: r => '\\' :: '\\' :: escapedBody r
  | c :: r => c :: escapedBody r
  | [] => []

/-- A string of several lines, which starts on the line after its opening marks. -/
def quoteLines (s : Text) : Text :=
  ['"', '"', '"', '\n'] ++ escapedBody s ++ ['"', '"', '"']

/-- A statement for a key. -/
def statementLine (key : String) (value : Text) : Text :=
  key.toList ++ " = ".toList ++ value ++ ['\n']

end Toml

open Toml (statementLine quote quoteLines)

def Occurrence.toml (o : Occurrence) : Text :=
  "[[fragments.occurrences]]\n".toList ++ statementLine "file" (quote o.file) ++
    statementLine "line" (Numeral.ofInt o.line)

def Entry.toml (e : Entry) : Text :=
  "[[fragments]]\n".toList ++ statementLine "id" (quote e.id) ++
    statementLine "category" (quote e.category) ++ statementLine "file" (quote e.relativePath) ++
    statementLine "content" (quoteLines e.body) ++ e.occurrences.flatMap Occurrence.toml ++ ['\n']

def Summary.toml (s : Summary) : Text :=
  statementLine "set" (quote s.set) ++ statementLine "generated" (quote s.generated) ++
    statementLine "count" (Numeral.ofNat s.entries.length) ++ ['\n'] ++
    s.entries.flatMap Entry.toml

end Marginalia
