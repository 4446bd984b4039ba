import Mathlib.Data.List.TakeWhile
import DotPaths.Proofs.Literals

/-! # Numerals

    What is read as an integer is described here by a grammar, apart from the scanner
    that reads it: padding, a sign or none, digits of any script with single underscores
    between them, and padding.  A text that has more digits than the limit is not read.

    - `read_eq_ok_iff`: the grammar holds of a text exactly if the text is read, and it
      gives the number.
    - `spells_decimal`: what is written for a number is one of its spellings.
    - `isTooLong_of_spells`: what can be read can be written.
-/

namespace DotPaths

/-! ## Characters -/

namespace Text

/-- No run of ten digits comes near a character that is padding. -/
theorem digitZeros_apart : ∀ z ∈ digitZeros,
    0x20 < z ∧ (z + 10 ≤ 0x85 ∨ 0xA0 < z) ∧ (z + 10 ≤ 0x1680 ∨ 0x1680 < z) ∧
      (z + 10 ≤ 0x2000 ∨ 0x3000 < z) := by
  decide

theorem isPadding_of_isDigit {c : Char} (h : isDigit c = true) : isPadding c = false := by
  obtain ⟨d, hd⟩ := Option.isSome_iff_exists.mp h
  obtain ⟨z, hz, -⟩ := Option.map_eq_some_iff.mp hd
  have hrun := List.find?_some hz
  simp only [Bool.and_eq_true, decide_eq_true_eq] at hrun
  -- Both classes are ranges of codes, and the table keeps them apart.
  have hapart := digitZeros_apart z (List.mem_of_find?_eq_some hz)
  unfold isPadding
  simp only [Bool.or_eq_false_iff, Bool.and_eq_false_iff, decide_eq_false_iff_not,
    beq_eq_false_iff_ne]
  omega

/-- What is padding does not belong to a numeral. -/
theorem not_numeral_of_isPadding {c : Char} (h : isPadding c = true) :
    digitValue? c = none ∧ (c == '_') = false := by
  constructor
  · cases hd : digitValue? c with
    | none => rfl
    | some d =>
      have hdigit : isDigit c = true := by simp [isDigit, hd]
      rw [isPadding_of_isDigit hdigit] at h
      cases h
  · rw [beq_eq_false_iff_ne]
    rintro rfl
    cases h

theorem dropWhile_padding {before rest : List Char} (h : ∀ c ∈ before, isPadding c = true)
    (hrest : ∀ c ∈ rest.head?, isPadding c = false) :
    (before ++ rest).dropWhile isPadding = rest := by
  induction before with
  | nil =>
    cases rest with
    | nil => rfl
    | cons c rest => exact List.dropWhile_cons_of_neg (by simp [hrest c rfl])
  | cons c before ih =>
    rw [List.cons_append, List.dropWhile_cons_of_pos (h c (by simp))]
    exact ih fun b hb => h b (by simp [hb])

/-- The digits that numbers are written with. -/
theorem digitValue?_digitChar : ∀ d < 10, digitValue? (Nat.digitChar d) = some d := by
  decide

theorem isDigit_of_mem_toDigits (n : Nat) : ∀ c ∈ Nat.toDigits 10 n, isDigit c = true := by
  induction n using Nat.strongRecOn with
  | ind n ih =>
    have hlast : ∀ d < 10, isDigit (Nat.digitChar d) = true := by
      intro d hd
      simp [isDigit, digitValue?_digitChar d hd]
    rw [Nat.toDigits_eq_if (by decide)]
    split
    · next hn => simpa using hlast n hn
    · next hn =>
      simp only [List.mem_append, List.mem_singleton]
      rintro c (hc | rfl)
      · exact ih (n / 10) (by omega) c hc
      · exact hlast _ (Nat.mod_lt n (by decide))

/-- The digits written for a number denote it. -/
theorem decimal_toDigits (n : Nat) : decimal (Nat.toDigits 10 n) = n := by
  induction n using Nat.strongRecOn with
  | ind n ih =>
    rw [Nat.toDigits_eq_if (by decide)]
    split
    · next hn =>
      have hone := decimal_concat [] (digitValue?_digitChar n hn)
      rw [List.nil_append] at hone
      rw [hone]
      exact Nat.zero_add n
    · next hn =>
      rw [decimal_concat _ (digitValue?_digitChar _ (Nat.mod_lt n (by decide))),
        ih (n / 10) (by omega)]
      omega

/-- A row of digits denotes less than the power of ten of its length. -/
theorem decimal_lt (text : List Char) : decimal text < 10 ^ text.length := by
  unfold decimal
  have hdigits : ∀ d ∈ text.reverse.map fun c => (digitValue? c).getD 0, d < 8 + 2 := by
    intro d hd
    obtain ⟨c, -, rfl⟩ := List.mem_map.mp hd
    cases hc : digitValue? c with
    | none => decide
    | some d => exact digitValue?_lt hc
  simpa using Nat.ofDigits_lt_base_pow_length' hdigits

end Text

namespace Integer

open Text

/-! ## The grammar -/

/-- Digits with single underscores between them. -/
inductive Numeral : List Char → Prop where
  | digit {c : Char} (h : isDigit c = true) : Numeral [c]
  | beside {c : Char} {cs : List Char} (h : isDigit c = true) (hcs : Numeral cs) :
      Numeral (c :: cs)
  | apart {c : Char} {cs : List Char} (h : isDigit c = true) (hcs : Numeral cs) :
      Numeral (c :: '_' :: cs)

/-- The digits of a text. -/
def digitsOf (cs : List Char) : List Char := cs.filter isDigit

/-- A sign or none, and whether it is a minus. -/
inductive Sign : List Char → Bool → Prop where
  | none : Sign [] false
  | plus : Sign ['+'] false
  | minus : Sign ['-'] true

/-- The number with a sign. -/
def signed (negative : Bool) (n : Nat) : Int := if negative then -(n : Int) else n

/-- The text spells the integer. -/
inductive Spells : List Char → Int → Prop where
  | intro {before sign body after : List Char} {negative : Bool}
      (hbefore : ∀ c ∈ before, isPadding c = true) (hsign : Sign sign negative)
      (hbody : Numeral body) (hlimit : (digitsOf body).length ≤ digitLimit)
      (hafter : ∀ c ∈ after, isPadding c = true) :
      Spells (before ++ (sign ++ (body ++ after))) (signed negative (Text.decimal (digitsOf body)))

theorem Numeral.head {cs : List Char} (h : Numeral cs) :
    ∃ c rest, isDigit c = true ∧ cs = c :: rest := by
  cases h with
  | digit h => exact ⟨_, _, h, rfl⟩
  | beside h => exact ⟨_, _, h, rfl⟩
  | apart h => exact ⟨_, _, h, rfl⟩

/-- A row of digits is a numeral. -/
theorem Numeral.of_digits {cs : List Char} (hne : cs ≠ []) (h : ∀ c ∈ cs, isDigit c = true) :
    Numeral cs := by
  induction cs with
  | nil => exact absurd rfl hne
  | cons c cs ih =>
    have hc := h c (by simp)
    cases cs with
    | nil => exact .digit hc
    | cons b cs => exact .beside hc (ih (by simp) fun x hx => h x (by simp [hx]))

/-! ## Scanning -/

/-- The digits of a text as the scanner collects them, last one first. -/
def collected (cs : List Char) : List Nat :=
  (digitsOf cs).reverse.map fun c => (digitValue? c).getD 0

theorem collected_cons {c : Char} {d : Nat} (h : digitValue? c = some d) (cs : List Char) :
    collected (c :: cs) = collected cs ++ [d] := by
  have hc : isDigit c = true := by simp [isDigit, h]
  simp [collected, digitsOf, hc, h]

theorem collected_gap (cs : List Char) : collected ('_' :: cs) = collected cs := by
  have hgap : isDigit '_' = false := by decide
  simp [collected, digitsOf, hgap]

theorem ofDigits_collected (cs : List Char) :
    ofDigits (collected cs) = Text.decimal (digitsOf cs) := by
  have hofDigits : ∀ ds, ofDigits ds = Nat.ofDigits 10 ds := by
    intro ds
    induction ds with
    | nil => rfl
    | cons d ds ih =>
      rw [ofDigits, ih, Nat.ofDigits_cons]
      omega
  rw [hofDigits]
  rfl

theorem scan_digit {c : Char} {d : Nat} (h : digitValue? c = some d) (ds : List Nat)
    (closed : Bool) (cs : List Char) : scan ds closed (c :: cs) = scan (d :: ds) true cs := by
  rw [scan, h]

/-- Behind padding nothing is scanned. -/
theorem scan_padding {after : List Char} (h : ∀ c ∈ after, isPadding c = true) (ds : List Nat)
    (closed : Bool) : scan ds closed after = ⟨ds, closed, after⟩ := by
  cases after with
  | nil => rfl
  | cons c cs =>
    obtain ⟨hdigit, hgap⟩ := not_numeral_of_isPadding (h c (by simp))
    rw [scan, hdigit]
    simp [hgap]

/-- A numeral in front of padding is scanned as a whole. -/
theorem scan_numeral {body after : List Char} (h : Numeral body)
    (hafter : ∀ c ∈ after, isPadding c = true) (ds : List Nat) (closed : Bool) :
    scan ds closed (body ++ after) = ⟨collected body ++ ds, true, after⟩ := by
  induction h generalizing ds closed with
  | @digit c hc =>
    obtain ⟨d, hd⟩ := Option.isSome_iff_exists.mp hc
    rw [List.singleton_append, scan_digit hd, scan_padding hafter, collected_cons hd]
    rfl
  | @beside c cs hc _ ih =>
    obtain ⟨d, hd⟩ := Option.isSome_iff_exists.mp hc
    rw [List.cons_append, scan_digit hd, ih, collected_cons hd, List.append_assoc]
    rfl
  | @apart c cs hc _ ih =>
    obtain ⟨d, hd⟩ := Option.isSome_iff_exists.mp hc
    have hgap : scan (d :: ds) true ('_' :: (cs ++ after)) =
        scan (d :: ds) false (cs ++ after) := rfl
    rw [List.cons_append, List.cons_append, scan_digit hd, hgap, ih, collected_cons hd,
      collected_gap, List.append_assoc]
    rfl

/-- What is scanned up to a digit is a numeral; after a digit it may be nothing, and an
    underscore may come first. -/
theorem numeral_of_scan {ds : List Nat} {closed : Bool} {cs : List Char}
    (h : (scan ds closed cs).closed = true) :
    (closed = true ∧ scan ds closed cs = ⟨ds, true, cs⟩) ∨
      ∃ body rest, Numeral body ∧ scan ds closed cs = ⟨collected body ++ ds, true, rest⟩ ∧
        (cs = body ++ rest ∨ (closed = true ∧ cs = '_' :: (body ++ rest))) := by
  -- By induction on the text, in any state of the scanner: what it has collected, and
  -- whether it has just taken a digit.
  induction cs generalizing ds closed with
  | nil =>
    obtain rfl : closed = true := h
    exact .inl ⟨rfl, rfl⟩
  | cons c cs ih =>
    cases hd : digitValue? c with
    | some d =>
      have hc : isDigit c = true := by simp [isDigit, hd]
      rw [scan_digit hd] at h ⊢
      right
      rcases ih h with ⟨-, hscan⟩ | ⟨body, rest, hbody, hscan, hcs⟩
      · refine ⟨[c], cs, .digit hc, ?_, .inl rfl⟩
        rw [hscan, collected_cons hd]
        rfl
      · rcases hcs with rfl | ⟨-, rfl⟩
        · refine ⟨c :: body, rest, .beside hc hbody, ?_, .inl rfl⟩
          rw [hscan, collected_cons hd, List.append_assoc]
          rfl
        · refine ⟨c :: '_' :: body, rest, .apart hc hbody, ?_, .inl rfl⟩
          rw [hscan, collected_cons hd, collected_gap, List.append_assoc]
          rfl
    | none =>
      rw [scan, hd] at h ⊢
      by_cases hgap : (c == '_' && closed) = true
      · -- An underscore is taken, and then a digit has to follow.
        simp only [hgap, if_true] at h ⊢
        obtain ⟨rfl, rfl⟩ : c = '_' ∧ closed = true := by simpa using hgap
        rcases ih h with ⟨hfalse, -⟩ | ⟨body, rest, hbody, hscan, hcs⟩
        · cases hfalse
        · rcases hcs with rfl | ⟨hfalse, -⟩
          · exact .inr ⟨body, rest, hbody, hscan, .inr ⟨rfl, rfl⟩⟩
          · cases hfalse
      · simp only [if_neg hgap] at h ⊢
        obtain rfl : closed = true := h
        exact .inl ⟨rfl, rfl⟩

/-! ## Reading -/

theorem readSign_of_sign {sign rest : List Char} {negative : Bool} (h : Sign sign negative)
    (hrest : ∃ c cs, isDigit c = true ∧ rest = c :: cs) :
    readSign (sign ++ rest) = (negative, rest) := by
  cases h with
  | plus => rfl
  | minus => rfl
  | none =>
    obtain ⟨c, cs, hc, rfl⟩ := hrest
    have hplus : c ≠ '+' := by
      rintro rfl
      cases hc
    have hminus : c ≠ '-' := by
      rintro rfl
      cases hc
    rw [List.nil_append]
    unfold readSign
    split
    · next heq => exact absurd (List.cons.inj heq).1 hminus
    · next heq => exact absurd (List.cons.inj heq).1 hplus
    · rfl

theorem sign_of_readSign {cs text : List Char} {negative : Bool}
    (h : readSign cs = (negative, text)) : ∃ sign, Sign sign negative ∧ cs = sign ++ text := by
  unfold readSign at h
  split at h
  · cases h
    exact ⟨_, .minus, rfl⟩
  · cases h
    exact ⟨_, .plus, rfl⟩
  · cases h
    exact ⟨_, .none, rfl⟩

/-- A text is read if what was scanned of it ends with a digit and keeps to the limit,
    and only padding follows. -/
theorem read_ok_iff {cs text : List Char} {negative : Bool} {s : Scan} {n : Int}
    (hsign : readSign (cs.dropWhile isPadding) = (negative, text))
    (hscan : scan [] false text = s) :
    read cs = .ok n ↔ s.closed = true ∧ s.digits.length ≤ digitLimit ∧
      (∀ c ∈ s.rest, isPadding c = true) ∧ n = signed negative (ofDigits s.digits) := by
  unfold read
  rw [hsign]
  simp only [hscan]
  -- One case for each check, in the order in which they are made.
  by_cases hclosed : s.closed = true
  · by_cases hlimit : digitLimit < s.digits.length
    · simp [hclosed, hlimit]
    · by_cases hrest : s.rest.dropWhile isPadding = []
      · have hall := List.dropWhile_eq_nil_iff.mp hrest
        simp only [hclosed, hlimit, hrest, Bool.not_true, Bool.false_eq_true, if_false,
          List.isEmpty_nil, Except.ok.injEq, Nat.not_lt.mp hlimit, true_and]
        exact ⟨fun h => ⟨hall, h.symm⟩, fun h => h.2.symm⟩
      · have hsome : ¬ ∀ c ∈ s.rest, isPadding c = true :=
          fun hall => hrest (List.dropWhile_eq_nil_iff.mpr hall)
        simp [hclosed, hlimit, hrest, hsome]
  · simp [hclosed]

/-- What is read is what is spelled. -/
theorem spells_of_read {cs : List Char} {n : Int} (h : read cs = .ok n) : Spells cs n := by
  cases hread : readSign (cs.dropWhile isPadding) with
  | mk negative text =>
    obtain ⟨hclosed, hlimit, hafter, rfl⟩ := (read_ok_iff hread rfl).mp h
    obtain ⟨sign, hsign, hsigned⟩ := sign_of_readSign hread
    -- Nothing was scanned before, so the scan begins with a digit.
    rcases numeral_of_scan hclosed with ⟨hfalse, -⟩ | ⟨body, after, hbody, hscan, rfl | ⟨hfalse, -⟩⟩
    · cases hfalse
    · rw [hscan, List.append_nil] at hlimit hafter ⊢
      have hbefore : ∀ c ∈ cs.takeWhile isPadding, isPadding c = true :=
        fun c hc => List.mem_takeWhile_imp hc
      have hlength : (digitsOf body).length ≤ digitLimit := by
        simpa [collected] using hlimit
      have hspells := Spells.intro hbefore hsign hbody hlength hafter
      rw [← hsigned, List.takeWhile_append_dropWhile] at hspells
      rw [ofDigits_collected]
      exact hspells
    · cases hfalse

theorem read_of_spells {cs : List Char} {n : Int} (h : Spells cs n) : read cs = .ok n := by
  cases h with
  | @intro before sign body after negative hbefore hsign hbody hlimit hafter =>
    obtain ⟨c, rest, hc, hbodyEq⟩ := hbody.head
    -- What is behind the padding begins with a sign or a digit, so no more is dropped.
    have hfirst : ∀ b ∈ (sign ++ (body ++ after)).head?, isPadding b = false := by
      cases hsign with
      | plus =>
        rintro b ⟨⟩
        rfl
      | minus =>
        rintro b ⟨⟩
        rfl
      | none =>
        rw [hbodyEq]
        rintro b ⟨⟩
        exact isPadding_of_isDigit hc
    have hsigned : readSign ((before ++ (sign ++ (body ++ after))).dropWhile isPadding) =
        (negative, body ++ after) := by
      rw [dropWhile_padding hbefore hfirst]
      exact readSign_of_sign hsign ⟨c, rest ++ after, hc, by rw [hbodyEq]; rfl⟩
    have hlength : (collected body).length ≤ digitLimit := by
      simpa [collected] using hlimit
    apply (read_ok_iff hsigned (scan_numeral hbody hafter [] false)).mpr
    rw [List.append_nil, ofDigits_collected]
    exact ⟨rfl, hlength, hafter, rfl⟩

/-- A text is read as an integer exactly if it spells it. -/
theorem read_eq_ok_iff {cs : List Char} {n : Int} : read cs = .ok n ↔ Spells cs n :=
  ⟨spells_of_read, read_of_spells⟩

/-! ## Writing -/

theorem tenTo_eq (n : Nat) : tenTo n = 10 ^ n := rfl

/-- A number is written if it has no more digits than the limit. -/
theorem isTooLong_eq_false_iff {n : Int} :
    isTooLong n = false ↔ (Nat.toDigits 10 n.natAbs).length ≤ digitLimit := by
  rw [Nat.length_toDigits_le_iff (by decide) (by decide), isTooLong, decide_eq_false_iff_not,
    Nat.not_le, tenTo_eq]

/-- What is written for a number spells it. -/
theorem spells_decimal {n : Int} (h : isTooLong n = false) : Spells (decimal n) n := by
  have hdigits := isDigit_of_mem_toDigits n.natAbs
  have hbody : Numeral (Nat.toDigits 10 n.natAbs) := .of_digits Nat.toDigits_ne_nil hdigits
  have hall : digitsOf (Nat.toDigits 10 n.natAbs) = Nat.toDigits 10 n.natAbs :=
    List.filter_eq_self.mpr hdigits
  have hlimit : (digitsOf (Nat.toDigits 10 n.natAbs)).length ≤ digitLimit := by
    rw [hall]
    exact isTooLong_eq_false_iff.mp h
  -- The digits are the same for both signs.
  have hspells : ∀ {sign : List Char} {negative : Bool}, Sign sign negative →
      Spells (sign ++ Nat.toDigits 10 n.natAbs) (signed negative n.natAbs) := by
    intro sign negative hsign
    have hintro : Spells ([] ++ (sign ++ (Nat.toDigits 10 n.natAbs ++ [])))
        (signed negative (Text.decimal (digitsOf (Nat.toDigits 10 n.natAbs)))) :=
      .intro (by simp) hsign hbody hlimit (by simp)
    rw [hall, decimal_toDigits, List.append_nil, List.nil_append] at hintro
    exact hintro
  unfold decimal
  by_cases hn : n < 0
  · have habs : signed true n.natAbs = n := by
      simp only [signed, if_true]
      omega
    rw [if_pos hn]
    have hminus := hspells .minus
    rw [habs] at hminus
    exact hminus
  · have habs : signed false n.natAbs = n := by
      simp only [signed, Bool.false_eq_true, if_false]
      omega
    rw [if_neg hn]
    have hnone := hspells .none
    rw [habs] at hnone
    exact hnone

/-- A number that is spelled within the limit can be written. -/
theorem isTooLong_of_spells {cs : List Char} {n : Int} (h : Spells cs n) : isTooLong n = false := by
  cases h with
  | @intro before sign body after negative hbefore hsign hbody hlimit hafter =>
    have habs : (signed negative (Text.decimal (digitsOf body))).natAbs =
        Text.decimal (digitsOf body) := by
      cases negative <;> simp [signed]
    rw [isTooLong, decide_eq_false_iff_not, Nat.not_le, habs, tenTo_eq]
    calc Text.decimal (digitsOf body)
        < 10 ^ (digitsOf body).length := decimal_lt _
      _ ≤ 10 ^ digitLimit := Nat.pow_le_pow_right (by decide) hlimit

end Integer

end DotPaths
