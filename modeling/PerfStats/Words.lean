import PerfStats.Num

namespace PerfStats.Text

def Word (w : Str) : Prop := w ≠ [] ∧ ∀ c ∈ w, isSpace c = false

section Lines

def wordLine (first : Str) (rest : List Str) : Str :=
  first ++ rest.flatMap (fun w => ' ' :: w) ++ ['\n']

theorem splitStep_append {w : Str} (solid : ∀ c ∈ w, isSpace c = false) (rest : Str) :
    splitStep (w ++ rest) = (w ++ (splitStep rest).1, (splitStep rest).2) := by
  induction w with
  | nil => rfl
  | cons c w ih =>
    have tail := ih fun d member => solid d (.tail c member)
    rw [List.cons_append, splitStep, tail]
    simp [solid c (.head _)]

theorem split_word {w : Str} (word : Word w) {blank : Char} (space : isSpace blank = true)
    (rest : Str) : split (w ++ blank :: rest) = w :: split rest := by
  have cut : splitStep (w ++ blank :: rest) = (w, split rest) := by
    rw [splitStep_append word.2]
    simp [splitStep, space, split]
  simp only [split, cut, if_neg word.1]

theorem split_wordLine {first : Str} {rest : List Str} (word : Word first)
    (words : ∀ w ∈ rest, Word w) : split (wordLine first rest) = first :: rest := by
  induction rest generalizing first with
  | nil =>
    rw [wordLine, List.flatMap_nil, List.append_nil, split_word word rfl]
    rfl
  | cons w rest ih =>
    have later := ih (words w (.head _)) fun v member =>
      words v (.tail w member)
    have line : wordLine first (w :: rest) = first ++ ' ' :: wordLine w rest := by simp [wordLine]
    rw [line, split_word word rfl, later]

theorem lstrip_of_word {w : Str} (word : Word w) (rest : Str) :
    lstrip (w ++ rest) = w ++ rest := by
  obtain ⟨c, w, rfl⟩ := List.exists_cons_of_ne_nil word.1
  rw [lstrip, List.cons_append, List.dropWhile_cons_of_neg (by simp [word.2 c (.head _)])]

end Lines

section Tokens

def optionToken (key : Str) (options : List Str) : Str := key ++ options.flatMap (fun o => ',' :: o)

theorem splitOn_solid {sep : Char} {w : Str} (solid : sep ∉ w) : splitOn sep w = [w] := by
  induction w with
  | nil => rfl
  | cons c w ih =>
    have other : c ≠ sep := fun same => solid (same ▸ (.head _))
    rw [splitOn, if_neg other, ih fun member => solid (.tail c member)]

theorem splitOn_pieces {sep : Char} {s piece : Str} (member : piece ∈ splitOn sep s) :
    sep ∉ piece := by
  induction s generalizing piece with
  | nil =>
    simp only [splitOn, List.mem_singleton] at member
    simp [member]
  | cons c rest ih =>
    simp only [splitOn] at member
    split at member
    next =>
      cases List.mem_cons.mp member with
      | inl first => simp [first]
      | inr later => exact ih later
    next other =>
      split at member
      next =>
        simp only [List.mem_singleton] at member
        simp [member, Ne.symm other]
      next head tail pieces =>
        cases List.mem_cons.mp member with
        | inl first =>
          have solid : sep ∉ head := ih (by rw [pieces]; exact .head _)
          simp [first, solid, Ne.symm other]
        | inr later => exact ih (by rw [pieces]; exact .tail _ later)

theorem splitOn_append {sep : Char} {w : Str} (solid : sep ∉ w) (rest : Str) :
    splitOn sep (w ++ sep :: rest) = w :: splitOn sep rest := by
  induction w with
  | nil => rw [List.nil_append, splitOn, if_pos rfl]
  | cons c w ih =>
    have other : c ≠ sep := fun same => solid (same ▸ (.head _))
    rw [List.cons_append, splitOn, if_neg other,
      ih fun member => solid (.tail c member)]

theorem splitOn_optionToken {key : Str} {options : List Str} (solid : ',' ∉ key)
    (separate : ∀ o ∈ options, ',' ∉ o) :
    splitOn ',' (optionToken key options) = key :: options := by
  induction options generalizing key with
  | nil => rw [optionToken, List.flatMap_nil, List.append_nil, splitOn_solid solid]
  | cons o options ih =>
    have later := ih (separate o (.head _)) fun p member =>
      separate p (.tail o member)
    have token : optionToken key (o :: options) = key ++ ',' :: optionToken o options := by
      simp [optionToken]
    rw [token, splitOn_append solid, later]

end Tokens

section Decimal

/-- `%llu`. -/
def decimalText (n : Nat) : Str := Nat.toDigits 10 n

variable (n : Nat)

theorem decimalText_digits : ∀ c ∈ decimalText n, isDigit c = true := by
  intro c member
  have digit := Nat.isDigit_of_mem_toDigits (by decide) (by decide) member
  simpa [Char.isDigit, isDigit_archived, asciiDigit, Char.le_def] using digit

theorem decimalText_word : Word (decimalText n) :=
  ⟨Nat.toDigits_ne_nil, fun c member => isSpace_of_isDigit (decimalText_digits n c member)⟩

theorem digitRun_digits {s : Str} (digits : ∀ c ∈ s, isDigit c = true) (value seen : Nat) :
    digitRun s value seen = (Nat.ofDigitChars 10 s value, seen + s.length, []) := by
  induction s generalizing value seen with
  | nil => rfl
  | cons c s ih =>
    have tail := ih (fun d member => digits d (.tail c member))
    rw [digitRun_digit (digits c (.head _)), tail, Nat.ofDigitChars_cons,
      List.length_cons, digitValue, Nat.add_assoc, Nat.add_comm 1]

theorem digitPart_digits {s : Str} (some_ : s ≠ []) (digits : ∀ c ∈ s, isDigit c = true) :
    digitPart s = some (Nat.ofDigitChars 10 s 0, s.length, []) := by
  obtain ⟨c, rest, rfl⟩ := List.exists_cons_of_ne_nil some_
  have head : ((c :: rest).head?.map isDigit).getD false = true := digits c (.head _)
  rw [digitPart, head_decimal, if_pos head, digitRun_digits digits, Nat.zero_add]

theorem digitPart_decimalText :
    digitPart (decimalText n) = some (n, (decimalText n).length, []) := by
  rw [digitPart_digits (decimalText_word n).1 (decimalText_digits n), decimalText,
    Nat.ofDigitChars_ten_toDigits]

theorem sign_of_digit {c : Char} (digit : isDigit c = true) (rest : Str) :
    sign (c :: rest) = (1, c :: rest) := by
  unfold sign
  split
  · next same =>
      cases same
      exact absurd digit (by decide)
  · next same =>
      cases same
      exact absurd digit (by decide)
  · rfl

theorem sign_digits {s : Str} (some_ : s ≠ []) (digits : ∀ c ∈ s, isDigit c = true) :
    sign (strip s) = (1, s) := by
  rw [strip_of_no_space fun c member => isSpace_of_isDigit (digits c member)]
  obtain ⟨c, rest, rfl⟩ := List.exists_cons_of_ne_nil some_
  exact sign_of_digit (digits c (.head _)) rest

theorem sign_decimalText : sign (strip (decimalText n)) = (1, decimalText n) :=
  sign_digits (decimalText_word n).1 (decimalText_digits n)

theorem parseInt_digits {s : Str} (some_ : s ≠ []) (digits : ∀ c ∈ s, isDigit c = true)
    (short : s.length ≤ 4300) : parseInt s = some (Nat.ofDigitChars 10 s 0 : Int) := by
  rw [parseInt, sign_digits some_ digits]
  dsimp only
  rw [digitPart_digits some_ digits]
  simp [short]

theorem parseInt_decimalText (short : (decimalText n).length ≤ 4300) :
    parseInt (decimalText n) = some (n : Int) := by
  rw [parseInt_digits (decimalText_word n).1 (decimalText_digits n) short, decimalText,
    Nat.ofDigitChars_ten_toDigits]

theorem decimalText_length {n : Nat} (bound : n < 2 ^ 64) : (decimalText n).length ≤ 20 := by
  rw [decimalText, Nat.length_toDigits_le_iff (by decide) (by decide)]
  omega

theorem lower_head {c : Char} (digit : isDigit c = true) (rest : Str) :
    (lower (c :: rest)).head? = some c := by
  have kept : lowerChar c = c := by
    rw [lowerChar, if_neg]
    intro upper
    have letter : isAlpha c = true := by simp [isAlpha_archived, asciiLetter, upper]
    rw [isDigit_of_isAlpha letter] at digit
    cases digit
  simp [lower, kept]

theorem parse_decimalText {n : Nat} (bound : n < 2 ^ 64) :
    Num.parse (decimalText n) = some (.fin n) := by
  obtain ⟨c, rest, shape⟩ := List.exists_cons_of_ne_nil (decimalText_word n).1
  have first : isDigit c = true := decimalText_digits n c (by rw [shape]; exact .head _)
  have differs : ∀ {d : Char} {more : Str}, isDigit d = false →
      lower (decimalText n) ≠ d :: more := by
    intro d more plain same
    have head := lower_head first rest
    rw [← shape, same, List.head?_cons, Option.some.injEq] at head
    rw [head, first] at plain
    cases plain
  have infinite : ¬ (lower (decimalText n) = lit "inf" ∨
      lower (decimalText n) = lit "infinity") := by
    rintro (same | same)
    · exact differs (d := 'i') (by decide) same
    · exact differs (d := 'i') (by decide) same
  have number : ¬ lower (decimalText n) = lit "nan" := differs (d := 'n') (by decide)
  have whole : Num.parseDecimal (decimalText n) = some (n : ℚ) := by
    simp [Num.parseDecimal, Num.mantissa, digitPart_decimalText, Num.withExponent]
  have small : (n : ℚ) < 2 ^ 1024 - 2 ^ 970 := by
    have cast : (n : ℚ) < 2 ^ 64 := by exact_mod_cast bound
    have grows : ∀ {a b : Nat}, a ≤ b → (2 : ℚ) ^ a ≤ 2 ^ b := pow_le_pow_right₀ one_le_two
    have doubled : ∀ k : Nat, (2 : ℚ) ^ k = 2 ^ (k + 1) - 2 ^ k := by
      intro k
      rw [pow_succ, mul_two, add_sub_cancel_right]
    calc (n : ℚ) < 2 ^ 64 := cast
      _ ≤ 2 ^ 970 := grows (by decide)
      _ = 2 ^ (970 + 1) - 2 ^ 970 := doubled 970
      _ ≤ 2 ^ 1024 - 2 ^ 970 := sub_le_sub_right (grows (by decide)) _
  rw [Num.parse, sign_decimalText]
  dsimp only
  rw [if_neg infinite, if_neg number, whole, Option.map_some, Num.ofDecimal, if_pos small]
  rfl

end Decimal

end PerfStats.Text
