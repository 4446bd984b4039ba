/-! # Similar words

    How much two words have in common: the longest block of characters that
    stands in both, and then the same again in front of it and behind it.
-/

namespace DotPaths.Text

/-- The length of the common beginning of two words. -/
def commonLength : List Char → List Char → Nat
  | a :: as, b :: bs => if a == b then commonLength as bs + 1 else 0
  | _, _ => 0

/-- A block of characters that stands in two words. -/
structure CommonBlock where
  first : Nat
  second : Nat
  length : Nat

/-- The longest common block; of several the one that begins earliest in the
    first word, and then in the second. -/
def longestBlock (a b : List Char) : CommonBlock :=
  (List.range a.length).foldl (fun best i =>
    (List.range b.length).foldl (fun best j =>
      let n := commonLength (a.drop i) (b.drop j)
      if best.length < n then ⟨i, j, n⟩ else best) best) ⟨0, 0, 0⟩

/-- The number of characters in common blocks.  `fuel` bounds the number of
    blocks inside each other. -/
def matched : Nat → List Char → List Char → Nat
  | 0, _, _ => 0
  | fuel + 1, a, b =>
    let m := longestBlock a b
    if m.length == 0 then 0
    else m.length + matched fuel (a.take m.first) (b.take m.second) +
      matched fuel (a.drop (m.first + m.length)) (b.drop (m.second + m.length))

/-- How similar two words are: twice the characters in common blocks, over all
    characters. -/
structure Similarity where
  common : Nat
  total : Nat

def similarity (a b : String) : Similarity :=
  let a := a.toList
  let b := b.toList
  ⟨2 * matched (a.length + 1) a b, a.length + b.length⟩

/-- Is the first pair of words more similar than the second, or as similar with
    a word that comes later? -/
def isBetter (p q : Similarity × String) : Bool :=
  let left := p.1.common * q.1.total
  let right := q.1.common * p.1.total
  right < left || (left == right && q.2 < p.2)

/-- The words of a list that are similar to a word by at least three fifths:
    the three most similar ones. -/
def closeTo (word : String) (words : List String) : List String :=
  let scored := words.map fun w => (similarity w word, w)
  let close := scored.filter fun s => 3 * s.1.total ≤ 5 * s.1.common
  ((close.mergeSort isBetter).take 3).map (·.2)

end DotPaths.Text
