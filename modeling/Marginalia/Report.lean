import Marginalia.Disk.Tree
import Marginalia.SetName
import Marginalia.Text.Numeral

/-!
# Faults and their reports

Why an operation fails. Some faults are reported to the user with the operation, a message and
sometimes a cause; the others reach the caller as they are.
-/

namespace Marginalia

/-! ## Wording of disk faults -/

namespace Disk.Fault

/-- The number and the words of a refusal by the system. -/
def refusal? : Disk.Fault → Option (Nat × String)
  | .missing => some (2, "No such file or directory")
  | .occupied => some (17, "File exists")
  | .notFolder => some (20, "Not a directory")
  | .isFolder => some (21, "Is a directory")
  | .nameTooLong => some (36, "File name too long")
  | .nulInName => none
  | .tooDeep => none
  | .undecodable _ => none

/-- The text of a fault at a path, or on the way from one path to another. -/
def text (paths : List Text) (f : Disk.Fault) : Text :=
  match f.refusal? with
  | some (number, words) =>
    s!"[Errno {number}] {words}: ".toList ++
      Text.join " -> ".toList (paths.map Text.quoted)
  | none =>
    match f with
    | .undecodable fault => fault.text.toList
    | _ => "embedded null byte".toList

end Disk.Fault

/-! ## Reports -/

structure Report where
  operation : Text
  message : Text
  cause : Option Text := none
  deriving DecidableEq, Repr

def Report.text (r : Report) : Text :=
  r.operation ++ ':' :: ' ' :: r.message ++
    match r.cause with
    | none => []
    | some cause => ' ' :: '(' :: cause ++ [')']

/-! ## Faults -/

inductive Fault where
  | noWorkspace (operation : Text)
  | setName (fault : SetName.Fault)
  | idsTaken (length attempts : Nat)
  | cannotCreate (path : Path) (cause : Disk.Fault)
  | cannotPersist (path temporary : Path) (cause : Disk.Fault)
  | disk (cause : Disk.Fault)
  | excess (excess : Excess)
  | overflow
  /-- A string that no file can hold. -/
  | unencodable
  | noSuchLine
  deriving DecidableEq, Repr

namespace Fault

/-- A file that cannot be read, as opposed to one whose text cannot be understood. -/
def isUnreadable : Fault → Bool
  | .disk cause => cause != .nulInName && cause != .tooDeep
  | _ => false

def noWorkspaceReport (operation : Text) : Report :=
  { operation, message := "no workspace folder is open".toList }

/-- The report of a fault, for those that have one. -/
def report? : Fault → Option Report
  | .noWorkspace operation => some (noWorkspaceReport operation)
  | .setName fault => some { operation := "switch_set".toList, message := fault.message }
  | .idsTaken length attempts =>
    some
      { operation := "generate_random".toList
        message := s!"no free {length}-digit id after {attempts} attempts".toList }
  | .cannotCreate path cause =>
    some
      { operation := "ensure_fragment".toList
        message := "cannot create ".toList ++ path.text
        cause := some (cause.text [path.text]) }
  | .cannotPersist path temporary cause =>
    some
      { operation := "allocate".toList
        message := "cannot persist ".toList ++ path.text
        cause := some (cause.text [temporary.text, path.text]) }
  | _ => none

/-- The disk fault behind a reported one. -/
def cause? : Fault → Option Disk.Fault
  | .cannotCreate _ cause => some cause
  | .cannotPersist _ _ cause => some cause
  | _ => none

end Fault

/-- Nothing in place of a result that an unreadable file kept from being found. -/
def tolerate {α : Type} (r : Except Fault α) : Except Fault (Option α) :=
  match r with
  | .ok a => .ok (some a)
  | .error f => if f.isUnreadable then .ok none else .error f

end Marginalia
