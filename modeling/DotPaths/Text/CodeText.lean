/-! # Texts of code points

    A program prints code points.  Most of them are characters.  The others are
    lone surrogates: they may stand in a text, but no encoding has them, so a text
    that holds one cannot be written.
-/

namespace DotPaths

/-- A code point: a character, or the surrogate with the code `0xD800 + n`. -/
inductive CodePoint where
  | char (c : Char)
  | surrogate (n : Fin 0x800)
  deriving DecidableEq, Repr

namespace CodePoint

/-- The code point with a code. -/
def ofCode (code : Nat) : CodePoint :=
  if h : 0xD800 ≤ code ∧ code < 0xE000 then .surrogate ⟨code - 0xD800, by omega⟩
  else .char (Char.ofNat code)

def isSurrogate : CodePoint → Bool
  | .char _ => false
  | .surrogate _ => true

/-- How a code point is shown: a replacement character stands for a surrogate. -/
def shown : CodePoint → Char
  | .char c => c
  | .surrogate _ => '\uFFFD'

/-- How messages speak of a code point that cannot be encoded. -/
def escaped : CodePoint → String
  | .char c => String.singleton c
  | .surrogate n => "\\u" ++ String.ofList (Nat.toDigits 16 (0xD800 + n))

end CodePoint

/-- A text that is printed. -/
abbrev CodeText := List CodePoint

namespace CodeText

def ofString (s : String) : CodeText := s.toList.map .char

instance : Coe String CodeText := ⟨ofString⟩

/-- The text as far as it can be shown. -/
def shown (t : CodeText) : String := String.ofList (t.map CodePoint.shown)

/-- Can the text be encoded? -/
def isEncodable (t : CodeText) : Bool := t.all fun p => !p.isSurrogate

/-- Why a text cannot be encoded: its first run of surrogates is named. -/
def complaint (t : CodeText) : String :=
  let start := t.findIdx CodePoint.isSurrogate
  let run := (t.drop start).takeWhile CodePoint.isSurrogate
  "'utf-8' codec can't encode " ++
    (match run with
      | [p] => "character '" ++ p.escaped ++ "' in position " ++ toString start
      | _ => "characters in position " ++ toString start ++ "-" ++
          toString (start + run.length - 1)) ++
    ": surrogates not allowed"

@[simp] theorem shown_ofString (s : String) : shown (ofString s) = s := by
  simp [shown, ofString, Function.comp_def, CodePoint.shown]

@[simp] theorem isEncodable_ofString (s : String) : isEncodable (ofString s) = true := by
  simp [isEncodable, ofString, CodePoint.isSurrogate]

@[simp] theorem length_shown (t : CodeText) : (shown t).length = t.length := by
  simp [shown]

end CodeText

end DotPaths
