/-!
# Texts

A text is a list of characters: columns, lengths and cuts count characters. A signed index that
is negative counts from the end, and a cut that lies outside the text is moved to its nearer end.
-/

namespace Marginalia

abbrev Text := List Char

namespace Text

/-! ## Cuts at signed indices -/

/-- The cut of a text of `n` characters that a signed index names. -/
def cut (n : Nat) (i : Int) : Nat :=
  if i < 0 then (n + i).toNat else min i.toNat n

def before (s : Text) (i : Int) : Text := s.take (cut s.length i)

def after (s : Text) (i : Int) : Text := s.drop (cut s.length i)

/-- Empty when the second index names no later cut than the first. -/
def between (s : Text) (i j : Int) : Text :=
  (s.take (cut s.length j)).drop (cut s.length i)

theorem cut_natCast (n k : Nat) : cut n k = min k n := by
  unfold cut
  split <;> omega

/-! ## Joining and replacing -/

/-- The texts in order with `mark` between neighbours. -/
def join (mark : Text) : List Text → Text
  | [] => []
  | [s] => s
  | s :: ss => s ++ mark ++ join mark ss

/-- Every occurrence of one character exchanged for a text. -/
def replaceChar (old : Char) (new : Text) (s : Text) : Text :=
  s.flatMap fun c => if c = old then new else [c]

/-- What follows `mark` in a text that starts with it. -/
def dropMark? : Text → Text → Option Text
  | [], s => some s
  | _ :: _, [] => none
  | m :: ms, c :: cs => if m = c then dropMark? ms cs else none

theorem dropMark?_eq_some_iff {m s r : Text} : dropMark? m s = some r ↔ s = m ++ r := by
  induction m generalizing s with
  | nil => simp [dropMark?]
  | cons a m ih =>
    cases s with
    | nil => simp [dropMark?]
    | cons c s =>
      by_cases h : a = c
      · subst h; simp [dropMark?, ih]
      · simp [dropMark?, h, Ne.symm h]

/-! ## Ends -/

/-- Without the longest run at its end whose characters all satisfy `p`. -/
def dropEndWhile (p : Char → Bool) : Text → Text
  | [] => []
  | c :: r =>
    match dropEndWhile p r with
    | [] => if p c then [] else [c]
    | t => c :: t

/-- Without the runs at both ends whose characters all satisfy `p`. -/
def dropEndsWhile (p : Char → Bool) (s : Text) : Text := dropEndWhile p (s.dropWhile p)

/-- A text less the given ending, when it has it. -/
def dropEnding? (ending s : Text) : Option Text :=
  if ending.isSuffixOf s then some (s.take (s.length - ending.length)) else none

end Text

end Marginalia
