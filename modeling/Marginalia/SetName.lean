import Marginalia.Text.Quoted
import Marginalia.Text.Blank

/-!
# Names of fragment sets

A set is a folder, so its name is trimmed, has a hyphen for each run of blank characters, and must
be neither empty nor dots that name another folder, nor have a slash or a backslash.
-/

namespace Marginalia.SetName

inductive Fault where
  | empty
  | slash (name : Text)
  | dots (name : Text)
  deriving DecidableEq, Repr

def isSlash (c : Char) : Bool := c == '/' || c == '\\'

def sanitize (name : Option Text) : Except Fault Text :=
  let trimmed := Text.trim (name.getD [])
  if trimmed.isEmpty then .error .empty
  else if trimmed.any isSlash then .error (.slash trimmed)
  else if trimmed = ['.'] || trimmed = ['.', '.'] then .error (.dots trimmed)
  else .ok (Text.hyphenate trimmed)

def Fault.message : Fault → Text
  | .empty => "set name cannot be empty".toList
  | .slash name => "slashes are not allowed: ".toList ++ Text.quoted name
  | .dots name => "not a folder name: ".toList ++ Text.quoted name

end Marginalia.SetName
