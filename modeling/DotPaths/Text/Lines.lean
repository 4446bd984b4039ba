/-! # Lines

    Splitting a text at a character, joining it again, and line ends.
-/

namespace DotPaths.Text

/-- The pieces between the occurrences of a member of a list, such as a character of
    a text: always one more than there are occurrences. -/
def splitOn {α : Type} [DecidableEq α] (sep : α) : List α → List (List α)
  | [] => [[]]
  | c :: cs =>
    if c == sep then [] :: splitOn sep cs
    else
      match splitOn sep cs with
      | [] => [[c]]
      | piece :: pieces => (c :: piece) :: pieces

/-- The pieces with a separator between each two. -/
def joinWith {α : Type} (sep : α) : List (List α) → List α
  | [] => []
  | [piece] => piece
  | piece :: pieces => piece ++ sep :: joinWith sep pieces

theorem splitOn_ne_nil {α : Type} [DecidableEq α] (sep : α) (cs : List α) :
    splitOn sep cs ≠ [] := by
  cases cs with
  | nil => simp [splitOn]
  | cons c cs =>
    rw [splitOn]
    split
    · simp
    · split <;> simp

/-- Joining the pieces gives the text back. -/
theorem joinWith_splitOn {α : Type} [DecidableEq α] (sep : α) (cs : List α) :
    joinWith sep (splitOn sep cs) = cs := by
  induction cs with
  | nil => rfl
  | cons c cs ih =>
    rw [splitOn]
    split
    · next h =>
      have hc : c = sep := by simpa using h
      cases hs : splitOn sep cs with
      | nil => exact absurd hs (splitOn_ne_nil sep cs)
      | cons p ps => rw [← ih, hs, hc]; simp [joinWith]
    · cases hs : splitOn sep cs with
      | nil => exact absurd hs (splitOn_ne_nil sep cs)
      | cons p ps =>
        rw [hs] at ih
        cases ps with
        | nil => simp [joinWith] at ih ⊢; exact ih
        | cons q qs => simp [joinWith] at ih ⊢; exact ih

/-- Every line end, whether one or two characters long, as a single newline. -/
def unifyNewlines : List Char → List Char
  | '\r' :: '\n' :: cs => '\n' :: unifyNewlines cs
  | '\r' :: cs => '\n' :: unifyNewlines cs
  | c :: cs => c :: unifyNewlines cs
  | [] => []

/-- The first line of a text and what follows its newline; `none` at the end
    of the text. -/
def takeLine : List Char → Option (List Char × List Char)
  | [] => none
  | cs =>
    some (cs.takeWhile (· != '\n'), (cs.dropWhile (· != '\n')).drop 1)

/-- The last lines of a list of lines.  A positive `n` keeps `n` lines; zero
    keeps all, and a negative `n` drops `-n` lines at the front. -/
def lastLines {α : Type} (n : Int) (lines : List α) : List α :=
  if 0 < n then lines.drop (lines.length - n.toNat) else lines.drop (-n).toNat

end DotPaths.Text
