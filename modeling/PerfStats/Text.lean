import PerfStats.Lib.Binary64

/-! The text primitives of the loader's Python, over the tables of an interpreter. The instance is
for archive lines: decoded as ASCII with replacement, floats taken exactly. -/

namespace PerfStats

abbrev Str := List Char

instance strLawfulBEq : LawfulBEq Str := inferInstance

def lit (s : String) : Str := s.toList

namespace Text

def isSpace (c : Char) : Bool :=
  (9 ≤ c.toNat && c.toNat ≤ 13) || (28 ≤ c.toNat && c.toNat ≤ 32) || c.toNat == 0x85 ||
    c.toNat == 0xa0 || c.toNat == 0x1680 || (0x2000 ≤ c.toNat && c.toNat ≤ 0x200a) ||
    c.toNat == 0x2028 || c.toNat == 0x2029 || c.toNat == 0x202f || c.toNat == 0x205f ||
    c.toNat == 0x3000

def asciiDigit (c : Char) : Bool := '0' ≤ c && c ≤ '9'

def asciiLetter (c : Char) : Bool := ('a' ≤ c && c ≤ 'z') || ('A' ≤ c && c ≤ 'Z')

def digitValue (c : Char) : Nat := c.toNat - '0'.toNat

/-- The tables of `str.isdigit` and `str.isalpha`, the value of a decimal digit (a superscript is a
digit without one), and the rounding of a number to a float. -/
class Interpreter where
  digit : Char → Bool
  letter : Char → Bool
  decimal : Char → Option Nat
  round : ℚ → ℚ
  ascii : ∀ c : Char, c.toNat < 128 → digit c = asciiDigit c ∧ letter c = asciiLetter c ∧
    decimal c = if asciiDigit c then some (digitValue c) else none
  digit_of_decimal : ∀ c, (decimal c).isSome = true → digit c = true
  digit_of_letter : ∀ c, letter c = true → digit c = false
  solid : ∀ c, digit c = true → isSpace c = false
  round_nonneg : ∀ q, 0 ≤ q → 0 ≤ round q

theorem asciiDigit_iff {c : Char} : asciiDigit c = true ↔ 48 ≤ c.toNat ∧ c.toNat ≤ 57 := by
  simp [asciiDigit, Char.le_def, UInt32.le_iff_toNat_le]

theorem asciiLetter_iff {c : Char} : asciiLetter c = true ↔
    97 ≤ c.toNat ∧ c.toNat ≤ 122 ∨ 65 ≤ c.toNat ∧ c.toNat ≤ 90 := by
  simp [asciiLetter, Char.le_def, UInt32.le_iff_toNat_le]

theorem asciiDigit_of_letter {c : Char} (letter : asciiLetter c = true) : asciiDigit c = false := by
  rw [← Bool.not_eq_true, asciiDigit_iff]
  have value := asciiLetter_iff.mp letter
  omega

theorem isSpace_between {c : Char}
    (inside : 33 ≤ c.toNat ∧ c.toNat < 0x85 ∨ 0xa0 < c.toNat ∧ c.toNat < 0x1680) :
    isSpace c = false := by
  simp only [isSpace, Bool.or_eq_false_iff, Bool.and_eq_false_iff, decide_eq_false_iff_not,
    beq_eq_false_iff_ne, ne_eq]
  omega

theorem isSpace_of_asciiDigit {c : Char} (digit : asciiDigit c = true) : isSpace c = false := by
  have value := asciiDigit_iff.mp digit
  exact isSpace_between (by omega)

instance archived : Interpreter where
  digit := asciiDigit
  letter := asciiLetter
  decimal c := if asciiDigit c then some (digitValue c) else none
  round q := q
  ascii _ _ := ⟨rfl, rfl, rfl⟩
  digit_of_decimal c value := by
    by_contra other
    rw [if_neg other] at value
    cases value
  digit_of_letter _ := asciiDigit_of_letter
  solid _ := isSpace_of_asciiDigit
  round_nonneg _ := id

def latinDigit (c : Char) : Bool := asciiDigit c || [0xb2, 0xb3, 0xb9].contains c.toNat

def latinLetter (c : Char) : Bool :=
  asciiLetter c || [0xaa, 0xb5, 0xba].contains c.toNat ||
    (0xc0 ≤ c.toNat && c.toNat ≤ 0xff && c.toNat != 0xd7 && c.toNat != 0xf7)

/-- The tables up to U+00FF, where `²` is a digit without a value; floats rounded to nearest. -/
abbrev latin : Interpreter where
  digit := latinDigit
  letter := latinLetter
  decimal := archived.decimal
  round := Lib.Binary64.nearest
  ascii c low := by
    refine ⟨Bool.eq_iff_iff.mpr ?_, Bool.eq_iff_iff.mpr ?_, rfl⟩
    · simp [latinDigit, asciiDigit_iff]
      omega
    · simp [latinLetter, asciiLetter_iff]
      omega
  digit_of_decimal c value := by
    simp [latinDigit, show asciiDigit c from archived.digit_of_decimal c value]
  digit_of_letter c letter := by
    simp [latinDigit, latinLetter, ← Bool.not_eq_true, asciiDigit_iff, asciiLetter_iff] at *
    omega
  solid c digit := by
    have value : (48 ≤ c.toNat ∧ c.toNat ≤ 57) ∨ c.toNat = 178 ∨ c.toNat = 179 ∨ c.toNat = 185 := by
      simpa [latinDigit, asciiDigit_iff] using digit
    exact isSpace_between (by omega)
  round_nonneg := Lib.Binary64.nearest_nonneg

section Characters

variable [Interpreter]

def isDigit (c : Char) : Bool := Interpreter.digit c

def isAlpha (c : Char) : Bool := Interpreter.letter c

variable {c : Char}

theorem isDigit_of_isAlpha (letter : isAlpha c = true) : isDigit c = false :=
  Interpreter.digit_of_letter c letter

theorem isSpace_of_isDigit (digit : isDigit c = true) : isSpace c = false :=
  Interpreter.solid c digit

theorem isDigit_ascii (ascii : c.toNat < 128) : isDigit c = asciiDigit c :=
  (Interpreter.ascii c ascii).1

theorem isAlpha_ascii (ascii : c.toNat < 128) : isAlpha c = asciiLetter c :=
  (Interpreter.ascii c ascii).2.1

@[simp] theorem bang_plain : isAlpha '!' = false ∧ isDigit '!' = false :=
  ⟨isAlpha_ascii (by decide), isDigit_ascii (by decide)⟩

@[simp] theorem percent_plain : isAlpha '%' = false ∧ isDigit '%' = false :=
  ⟨isAlpha_ascii (by decide), isDigit_ascii (by decide)⟩

end Characters

theorem isDigit_archived (c : Char) : isDigit c = asciiDigit c := rfl

theorem isAlpha_archived (c : Char) : isAlpha c = asciiLetter c := rfl

def lowerChar (c : Char) : Char :=
  if 'A' ≤ c && c ≤ 'Z' then Char.ofNat (c.toNat + 32) else c

def lower (s : Str) : Str := s.map lowerChar

def lstrip (s : Str) : Str := s.dropWhile isSpace

def rstrip (s : Str) : Str := (s.reverse.dropWhile isSpace).reverse

def strip (s : Str) : Str := rstrip (lstrip s)

theorem mem_strip {s : Str} {c : Char} (member : c ∈ strip s) : c ∈ s := by
  have front : c ∈ lstrip s :=
    (List.rdropWhile_prefix isSpace (lstrip s)).subset member
  exact (List.dropWhile_suffix isSpace).subset front

def splitStep : Str → Str × List Str
  | [] => ([], [])
  | c :: rest =>
    let (word, words) := splitStep rest
    if isSpace c then ([], if word = [] then words else word :: words)
    else (c :: word, words)

/-- `str.split()`: maximal runs of non-blank characters. -/
def split (s : Str) : List Str :=
  let (word, words) := splitStep s
  if word = [] then words else word :: words

theorem split_no_space {s word : Str} (member : word ∈ split s) :
    ∀ c ∈ word, isSpace c = false := by
  have parts : (∀ c ∈ (splitStep s).1, isSpace c = false) ∧
      ∀ w ∈ (splitStep s).2, ∀ c ∈ w, isSpace c = false := by
    clear member
    induction s with
    | nil => simp [splitStep]
    | cons c rest ih =>
      rcases ih with ⟨current, finished⟩
      cases blank : isSpace c with
      | true =>
        by_cases empty : (splitStep rest).1 = []
        · simpa [splitStep, blank, empty] using finished
        · simpa [splitStep, blank, empty] using ⟨current, finished⟩
      | false => simpa [splitStep, blank] using ⟨current, finished⟩
  unfold split at member
  by_cases empty : (splitStep s).1 = []
  · simp only [empty, if_true] at member
    exact parts.2 word member
  · simp only [empty, if_false, List.mem_cons] at member
    rcases member with rfl | member
    · exact parts.1
    · exact parts.2 word member

theorem split_cons {c : Char} (solid : isSpace c = false) (rest : Str) :
    ∃ word words, split (c :: rest) = (c :: word) :: words := by
  simp [split, splitStep, solid]

theorem strip_of_no_space {s : Str} (solid : ∀ c ∈ s, isSpace c = false) : strip s = s := by
  have kept : ∀ t : Str, (∀ c ∈ t, isSpace c = false) → t.dropWhile isSpace = t := by
    intro t all
    cases t with
    | nil => rfl
    | cons c rest => simp [all c (by simp)]
  rw [strip, lstrip, kept s solid, rstrip, kept s.reverse (by simpa using solid), List.reverse_reverse]

def splitOn (sep : Char) : Str → List Str
  | [] => [[]]
  | c :: rest =>
    if c = sep then [] :: splitOn sep rest
    else
      match splitOn sep rest with
      | [] => [[c]]
      | word :: words => (c :: word) :: words

def startsWith (pre s : Str) : Bool := pre.isPrefixOf s

theorem startsWith_takeWhile (p : Char → Bool) (pre s : Str) (kept : ∀ c ∈ pre, p c) :
    startsWith pre (s.takeWhile p) = startsWith pre s := by
  unfold startsWith
  induction pre generalizing s with
  | nil => simp
  | cons c rest ih =>
    have head : p c := kept c (by simp)
    have tail := fun l => ih l fun d member => kept d (by simp [member])
    cases s with
    | nil => rfl
    | cons d more =>
      by_cases same : c = d
      · subst same
        simp [head, tail]
      · by_cases through : p d
        · simp [through, List.isPrefixOf, tail]
        · simp [through, List.isPrefixOf, same]

def contains (part : Str) : Str → Bool
  | [] => part.isEmpty
  | c :: rest => part.isPrefixOf (c :: rest) || contains part rest

def replaceChar (old new : Char) (s : Str) : Str := s.map fun c => if c = old then new else c

def join (sep : Str) : List Str → Str
  | [] => []
  | [word] => word
  | word :: words => word ++ sep ++ join sep words

section Numbers

variable [Interpreter]

def digitRun : Str → Nat → Nat → Nat × Nat × Str
  | [], value, seen => (value, seen, [])
  | c :: rest, value, seen =>
    match Interpreter.decimal c with
    | some digit => digitRun rest (10 * value + digit) (seen + 1)
    | none =>
      if c = '_' ∧ (rest.head?.bind Interpreter.decimal).isSome then digitRun rest value seen
      else (value, seen, c :: rest)

def digitPart (s : Str) : Option (Nat × Nat × Str) :=
  if (s.head?.bind Interpreter.decimal).isSome then some (digitRun s 0 0) else none

def sign : Str → Int × Str
  | '-' :: rest => (-1, rest)
  | '+' :: rest => (1, rest)
  | s => (1, s)

/-- `int(text)`; the interpreter refuses more than 4300 digits. -/
def parseInt (s : Str) : Option Int :=
  let (negative, digits) := sign (strip s)
  match digitPart digits with
  | some (value, seen, []) => if seen ≤ 4300 then some (negative * value) else none
  | _ => none

end Numbers

theorem decimal_archived {c : Char} (digit : isDigit c = true) :
    Interpreter.decimal c = some (digitValue c) := if_pos digit

theorem no_decimal_archived {c : Char} (other : isDigit c = false) :
    Interpreter.decimal c = none := if_neg (Bool.eq_false_iff.mp other)

theorem head_decimal (s : Str) :
    (s.head?.bind Interpreter.decimal).isSome = (s.head?.map isDigit).getD false := by
  cases s with
  | nil => rfl
  | cons c rest =>
    cases digit : isDigit c with
    | true => simp [digit, decimal_archived digit]
    | false => simp [digit, no_decimal_archived digit]

theorem digitRun_digit {c : Char} (digit : isDigit c = true) (rest : Str) (value seen : Nat) :
    digitRun (c :: rest) value seen = digitRun rest (10 * value + digitValue c) (seen + 1) := by
  rw [digitRun, decimal_archived digit]

end Text

end PerfStats
