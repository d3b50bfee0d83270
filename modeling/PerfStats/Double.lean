import PerfStats.Lib.Binary64
import PerfStats.Words

namespace PerfStats

open Lib.Binary64 Text

inductive Double where
  | finite (negative : Bool) (size : Magnitude)
  | inf (negative : Bool)
  | nan
deriving DecidableEq

namespace Double

def isNan : Double → Bool
  | nan => true
  | _ => false

def value : Double → Option ℚ
  | finite negative size => some (if negative then -size.1 else size.1)
  | _ => none

def rounded (negative : Bool) (q : ℚ) : Double :=
  match magnitude q with
  | some size => finite negative size
  | none => inf negative

/-- `float(n)`; `none` is `OverflowError`. -/
def ofInt (n : Int) : Option Double :=
  (magnitude n.natAbs).map (finite (decide (n < 0)))

section Writing

def exponentText (e : ℤ) : Str :=
  (if e < 0 then '-' else '+') ::
    (if e.natAbs < 10 then '0' :: decimalText e.natAbs else decimalText e.natAbs)

def place (digits : Str) (point : ℤ) : Str :=
  if -4 < point ∧ point ≤ 16 then
    if point ≤ 0 then lit "0." ++ List.replicate (-point).toNat '0' ++ digits
    else if point < digits.length then digits.take point.toNat ++ '.' :: digits.drop point.toNat
    else digits ++ List.replicate (point.toNat - digits.length) '0' ++ lit ".0"
  else
    digits.take 1 ++ (if digits.length ≤ 1 then [] else '.' :: digits.drop 1) ++
      'e' :: exponentText (point - 1)

def stripZeros (digits : Str) : Str := (digits.reverse.dropWhile fun c => c = '0').reverse

def sizeText (q : ℚ) : Str :=
  if q = 0 then lit "0.0"
  else
    let (n, scale) := shortest q
    let digits := decimalText n
    place (stripZeros digits) (digits.length - scale)

/-- `repr(x)`, which is `str(x)` as well. -/
def repr : Double → Str
  | finite negative size => (if negative then ['-'] else []) ++ sizeText size.1
  | inf negative => (if negative then ['-'] else []) ++ lit "inf"
  | nan => lit "nan"

end Writing

/-- `float(text)`; `none` is `ValueError`. -/
def parse (s : Str) : Option Double :=
  let (sign, body) := sign (strip s)
  if lower body = lit "inf" ∨ lower body = lit "infinity" then
    some (inf (decide (sign < 0)))
  else if lower body = lit "nan" then some nan
  else (Num.parseDecimal body).map (rounded (decide (sign < 0)))

section Digits

variable {digits rest : Str}

abbrev digitsValue (digits : Str) : Nat := Nat.ofDigitChars 10 digits 0

def Stops (rest : Str) : Prop := ∀ c ∈ rest.head?, isDigit c = false ∧ c ≠ '_'

theorem digitRun_stops (all : ∀ c ∈ digits, isDigit c = true)
    (stops : Stops rest) (value seen : Nat) : digitRun (digits ++ rest) value seen =
      (Nat.ofDigitChars 10 digits value, seen + digits.length, rest) := by
  induction digits generalizing value seen with
  | nil =>
    cases rest with
    | nil => rfl
    | cons c rest =>
      obtain ⟨plain, other⟩ := stops c rfl
      rw [List.nil_append, digitRun, no_decimal_archived plain]
      exact if_neg fun under => other under.1
  | cons c digits ih =>
    have tail := ih (fun d member => all d (.tail c member))
    rw [List.cons_append, digitRun_digit (all c (.head _)), tail,
      Nat.ofDigitChars_cons, List.length_cons, digitValue, Nat.add_assoc, Nat.add_comm 1]

theorem digitPart_stops (some_ : digits ≠ [])
    (all : ∀ c ∈ digits, isDigit c = true) (stops : Stops rest) :
    digitPart (digits ++ rest) = some (digitsValue digits, digits.length, rest) := by
  obtain ⟨c, more, rfl⟩ := List.exists_cons_of_ne_nil some_
  have head : ((c :: more ++ rest).head?.map isDigit).getD false = true :=
    all c (.head _)
  rw [digitPart, head_decimal, if_pos head, digitRun_stops all stops, Nat.zero_add]

theorem mantissa_whole (some_ : digits ≠ [])
    (all : ∀ c ∈ digits, isDigit c = true) (stops : Stops rest)
    (no_point : ∀ more, rest ≠ '.' :: more) :
    Num.mantissa (digits ++ rest) = ((digitsValue digits : ℚ), rest, true) := by
  unfold Num.mantissa
  rw [digitPart_stops some_ all stops]
  dsimp only
  split
  · next more => exact absurd rfl (no_point more)
  · rfl

theorem mantissa_point {digits fraction rest : Str} (some_ : digits ≠ []) (some_' : fraction ≠ [])
    (all : ∀ c ∈ digits, isDigit c = true) (all' : ∀ c ∈ fraction, isDigit c = true)
    (stops : Stops rest) : Num.mantissa (digits ++ '.' :: (fraction ++ rest)) =
      ((digitsValue digits : ℚ) + digitsValue fraction / 10 ^ fraction.length, rest, true) := by
  have point : Stops ('.' :: (fraction ++ rest)) := by
    intro c same
    cases same
    decide
  unfold Num.mantissa
  rw [digitPart_stops some_ all point]
  simp only [digitPart_stops some_' all' stops]

theorem digitsValue_append (front back : Str) :
    digitsValue (front ++ back) = 10 ^ back.length * digitsValue front + digitsValue back := by
  rw [digitsValue, Nat.ofDigitChars_append, Nat.ofDigitChars_eq_ofDigitChars_zero]

theorem digitsValue_zeros (k : Nat) : digitsValue (List.replicate k '0') = 0 := by
  rw [digitsValue, Nat.ofDigitChars_replicate_zero, Nat.mul_zero]

theorem decimal_shift (n k : Nat) (scale : ℤ) :
    decimal (10 ^ k * n) (scale + k) = decimal n scale := by
  have power : (10 : ℚ) ^ (scale + k) = 10 ^ k * 10 ^ scale := by
    rw [zpow_add₀ (by norm_num), zpow_natCast, mul_comm]
  rw [decimal, decimal, Nat.cast_mul, Nat.cast_pow, Nat.cast_ofNat, power]
  exact mul_div_mul_left _ _ (by positivity)

theorem decimal_power (n : Nat) (scale e : ℤ) :
    decimal n scale * 10 ^ e = decimal n (scale - e) := by
  rw [decimal, decimal, zpow_sub₀ (by norm_num), div_div_eq_mul_div, mul_div_right_comm]

theorem decimal_parts (front back : Str) :
    (digitsValue front + digitsValue back / 10 ^ back.length : ℚ) =
      decimal (digitsValue (front ++ back)) back.length := by
  rw [decimal, digitsValue_append, zpow_natCast, Nat.cast_add, Nat.cast_mul, Nat.cast_pow,
    Nat.cast_ofNat, add_div, mul_div_cancel_left₀ _ (by positivity)]

end Digits

section Placed

variable {digits : Str} (some_ : digits ≠ []) (all : ∀ c ∈ digits, isDigit c = true)

theorem zeros_digits (k : Nat) : ∀ c ∈ List.replicate k '0', isDigit c = true := by
  intro c member
  rw [List.eq_of_mem_replicate member]
  decide

theorem parseDecimal_point {front back : Str} (some_ : front ≠ []) (some_' : back ≠ [])
    (all : ∀ c ∈ front, isDigit c = true) (all' : ∀ c ∈ back, isDigit c = true) :
    Num.parseDecimal (front ++ '.' :: back) =
      some (decimal (digitsValue (front ++ back)) back.length) := by
  have stops : Stops [] := nofun
  have read := mantissa_point some_ some_' all all' stops
  rw [List.append_nil] at read
  rw [Num.parseDecimal, read]
  dsimp only
  rw [if_pos rfl, Num.withExponent, decimal_parts]

theorem exponent_read (e : ℤ) (m : ℚ) :
    Num.withExponent m ('e' :: exponentText e) = some (m * 10 ^ e) := by
  have number : digitPart (if e.natAbs < 10 then '0' :: decimalText e.natAbs
      else decimalText e.natAbs) = some (e.natAbs, (if e.natAbs < 10 then
        '0' :: decimalText e.natAbs else decimalText e.natAbs).length, []) := by
    have stops : Stops [] := nofun
    have all := decimalText_digits e.natAbs
    by_cases small : e.natAbs < 10
    · have all' : ∀ c ∈ '0' :: decimalText e.natAbs, isDigit c = true := by
        intro c member
        cases List.mem_cons.mp member with
        | inl zero => rw [zero]; decide
        | inr later => exact all c later
      have read := digitPart_stops (List.cons_ne_nil _ _) all' stops
      have value : digitsValue ('0' :: decimalText e.natAbs) = e.natAbs := by
        exact Nat.ofDigitChars_ten_toDigits
      rw [List.append_nil, value] at read
      rw [if_pos small, read]
    · rw [if_neg small, digitPart_decimalText]
  by_cases below : e < 0
  · have size : (10 : ℚ) ^ e = (10 ^ e.natAbs)⁻¹ := by
      rw [← zpow_natCast, ← zpow_neg]
      congr 1
      omega
    rw [exponentText, if_pos below, Num.withExponent, if_pos (.inl rfl)]
    simp only [sign, number]
    rw [if_pos (by decide), size]
    rfl
  · have size : (10 : ℚ) ^ e = 10 ^ e.natAbs := by
      rw [← zpow_natCast]
      congr 1
      omega
    rw [exponentText, if_neg below, Num.withExponent, if_pos (.inl rfl)]
    simp only [sign, number]
    rw [if_neg (by decide), size]

include some_ all

theorem parseDecimal_place (point : ℤ) : Num.parseDecimal (place digits point) =
    some (decimal (digitsValue digits) (digits.length - point)) := by
  have long : 0 < digits.length := List.length_pos_iff.mpr some_
  have zero : ∀ c ∈ ['0'], isDigit c = true := zeros_digits 1
  unfold place
  by_cases plain : -4 < point ∧ point ≤ 16
  · rw [if_pos plain]
    by_cases left : point ≤ 0
    · have padded : ∀ c ∈ List.replicate (-point).toNat '0' ++ digits, isDigit c = true := by
        intro c member
        exact (List.mem_append.mp member).elim (zeros_digits _ c) (all c)
      have shape : lit "0." ++ List.replicate (-point).toNat '0' ++ digits =
          ['0'] ++ '.' :: (List.replicate (-point).toNat '0' ++ digits) := by
        simp [lit]
      have value : digitsValue (['0'] ++ (List.replicate (-point).toNat '0' ++ digits)) =
          digitsValue digits := by
        rw [digitsValue_append, digitsValue_append, digitsValue_zeros, Nat.mul_zero, Nat.zero_add]
        exact (congrArg (· + _) (Nat.mul_zero _)).trans (Nat.zero_add _)
      have length : ((List.replicate (-point).toNat '0' ++ digits).length : ℤ) =
          digits.length - point := by
        rw [List.length_append, List.length_replicate]
        omega
      rw [if_pos left, shape, parseDecimal_point (by simp) (by simp [some_]) zero padded,
        value, length]
    · rw [if_neg left]
      by_cases inside : point < digits.length
      · have front : digits.take point.toNat ≠ [] := by
          simp [some_]
          omega
        have back : digits.drop point.toNat ≠ [] := by
          intro none_
          have short := List.drop_eq_nil_iff.mp none_
          omega
        have length : ((digits.drop point.toNat).length : ℤ) = digits.length - point := by
          rw [List.length_drop]
          omega
        rw [if_pos inside, parseDecimal_point front back
          (fun c member => all c (List.mem_of_mem_take member))
          (fun c member => all c (List.mem_of_mem_drop member)), List.take_append_drop, length]
      · have padded : ∀ c ∈ digits ++ List.replicate (point.toNat - digits.length) '0',
            isDigit c = true := by
          intro c member
          exact (List.mem_append.mp member).elim (all c) (zeros_digits _ c)
        have shape : digits ++ List.replicate (point.toNat - digits.length) '0' ++ lit ".0" =
            (digits ++ List.replicate (point.toNat - digits.length) '0') ++ '.' :: ['0'] := rfl
        have value : digitsValue (digits ++ List.replicate (point.toNat - digits.length) '0' ++
            ['0']) = 10 ^ (point.toNat - digits.length + 1) * digitsValue digits := by
          rw [List.append_assoc, digitsValue_append, digitsValue_append, digitsValue_zeros,
            List.length_append, List.length_replicate]
          rfl
        have scale : ((1 : ℕ) : ℤ) =
            digits.length - point + (point.toNat - digits.length + 1 : ℕ) := by omega
        rw [if_neg inside, shape, parseDecimal_point (by simp [some_]) (by simp) padded zero,
          value, List.length_singleton, scale, decimal_shift]
  · have stops : Stops ('e' :: exponentText (point - 1)) := by
      intro c same
      cases same
      decide
    rw [if_neg plain, Num.parseDecimal]
    by_cases single : digits.length ≤ 1
    · have whole : digits.take 1 = digits := List.take_of_length_le single
      have read := mantissa_whole some_ all stops (by intro more same; cases same)
      have one : (0 : ℤ) - (point - 1) = digits.length - point := by omega
      have units : (digitsValue digits : ℚ) = decimal (digitsValue digits) 0 := by
        rw [decimal, zpow_zero, div_one]
      rw [if_pos single, List.append_nil, whole, read]
      dsimp only
      rw [if_pos rfl, exponent_read, units, decimal_power, one]
    · have front : digits.take 1 ≠ [] := by simp [some_]
      have back : digits.drop 1 ≠ [] := fun none_ => single (List.drop_eq_nil_iff.mp none_)
      have read := mantissa_point front back (fun c member => all c (List.mem_of_mem_take member))
        (fun c member => all c (List.mem_of_mem_drop member)) stops
      have length : ((digits.drop 1).length : ℤ) - (point - 1) = digits.length - point := by
        rw [List.length_drop]
        omega
      rw [if_neg single, List.append_assoc, List.cons_append, read]
      dsimp only
      rw [if_pos rfl, exponent_read, decimal_parts, List.take_append_drop, decimal_power, length]

end Placed

section Reading

theorem stripZeros_append (digits : Str) :
    ∃ k, digits = stripZeros digits ++ List.replicate k '0' := by
  refine ⟨(digits.reverse.takeWhile fun c => c = '0').length, ?_⟩
  have zeros : digits.reverse.takeWhile (fun c => c = '0') =
      List.replicate (digits.reverse.takeWhile fun c => c = '0').length '0' := by
    apply List.eq_replicate_of_mem
    intro c member
    have zero := List.mem_takeWhile_imp member
    exact of_decide_eq_true zero
  have cut := congrArg List.reverse
    (List.takeWhile_append_dropWhile (p := fun c => decide (c = '0')) (l := digits.reverse))
  rw [List.reverse_append, List.reverse_reverse] at cut
  have back := congrArg List.reverse zeros
  rw [List.reverse_replicate] at back
  rw [back] at cut
  exact cut.symm

theorem decimal_stripZeros (digits : Str) (point : ℤ) :
    decimal (digitsValue (stripZeros digits)) ((stripZeros digits).length - point) =
      decimal (digitsValue digits) (digits.length - point) := by
  obtain ⟨k, cut⟩ := stripZeros_append digits
  have value : digitsValue digits = 10 ^ k * digitsValue (stripZeros digits) := by
    conv_lhs => rw [cut]
    rw [digitsValue_append, digitsValue_zeros, List.length_replicate, Nat.add_zero]
  have length : (digits.length : ℤ) - point = (stripZeros digits).length - point + k := by
    conv_lhs => rw [cut]
    rw [List.length_append, List.length_replicate]
    omega
  rw [value, length, decimal_shift]

theorem sizeText_placed (size : Magnitude) :
    ∃ digits point, digits ≠ [] ∧ (∀ c ∈ digits, isDigit c = true) ∧
      sizeText size.1 = place digits point ∧
      nearest (decimal (digitsValue digits) (digits.length - point)) = size.1 := by
  by_cases zero : size.1 = 0
  · refine ⟨['0'], 1, List.cons_ne_nil _ _, zeros_digits 1, ?_, ?_⟩
    · rw [sizeText, if_pos zero]
      rfl
    · have value : digitsValue ['0'] = 0 := digitsValue_zeros 1
      rw [zero, value, decimal, Nat.cast_zero, zero_div, nearest_zero]
  · have back := nearest_shortest size
    generalize found : shortest size.1 = pair at back
    obtain ⟨n, scale⟩ := pair
    have positive : n ≠ 0 := by
      rintro rfl
      rw [decimal, Nat.cast_zero, zero_div, nearest_zero] at back
      exact zero back.symm
    have value : digitsValue (decimalText n) = n := Nat.ofDigitChars_ten_toDigits
    obtain ⟨k, cut⟩ := stripZeros_append (decimalText n)
    have some_ : stripZeros (decimalText n) ≠ [] := by
      intro none_
      rw [none_, List.nil_append] at cut
      rw [cut, digitsValue_zeros] at value
      exact positive value.symm
    have all : ∀ c ∈ stripZeros (decimalText n), isDigit c = true := by
      intro c member
      apply decimalText_digits n c
      rw [cut]
      exact List.mem_append_left _ member
    have point : ((decimalText n).length : ℤ) - ((decimalText n).length - scale) =
        scale := by omega
    refine ⟨_, (decimalText n).length - scale, some_, all, ?_, ?_⟩
    · rw [sizeText, if_neg zero, found]
    · rw [decimal_stripZeros, value, point]
      exact back

def Printed (c : Char) : Prop := isDigit c = true ∨ c ∈ ['.', 'e', '+', '-', 'i', 'n', 'f', 'a']

instance (c : Char) : Decidable (Printed c) := inferInstanceAs (Decidable (_ ∨ _))

theorem decimalText_printed (n : Nat) : ∀ c ∈ decimalText n, Printed c :=
  fun c member => .inl (decimalText_digits n c member)

theorem exponentText_printed (e : ℤ) : ∀ c ∈ 'e' :: exponentText e, Printed c := by
  have number := decimalText_printed e.natAbs
  have sign : Printed (if e < 0 then '-' else '+') := by
    split
    · exact .inr (by decide)
    · exact .inr (by decide)
  have digits : ∀ c ∈ (if e.natAbs < 10 then '0' :: decimalText e.natAbs
      else decimalText e.natAbs), Printed c := by
    split
    · exact List.forall_mem_cons.mpr ⟨.inl (by decide), number⟩
    · exact number
  exact List.forall_mem_cons.mpr ⟨.inr (by decide), List.forall_mem_cons.mpr ⟨sign, digits⟩⟩

theorem place_printed {digits : Str} (all : ∀ c ∈ digits, isDigit c = true) (point : ℤ) :
    ∀ c ∈ place digits point, Printed c := by
  have number : ∀ c ∈ digits, Printed c := fun c member => .inl (all c member)
  have zeros : ∀ k, ∀ c ∈ List.replicate k '0', Printed c := fun k c member =>
    .inl (zeros_digits k c member)
  have front : ∀ k, ∀ c ∈ digits.take k, Printed c := fun k c member =>
    number c (List.mem_of_mem_take member)
  have back : ∀ k, ∀ c ∈ '.' :: digits.drop k, Printed c := fun k =>
    List.forall_mem_cons.mpr ⟨.inr (by decide), fun c member =>
      number c (List.mem_of_mem_drop member)⟩
  have marks : ∀ c ∈ lit "0.", Printed c := List.forall_mem_cons.mpr ⟨.inl (by decide),
    List.forall_mem_cons.mpr ⟨.inr (by decide), nofun⟩⟩
  have marks' : ∀ c ∈ lit ".0", Printed c := List.forall_mem_cons.mpr ⟨.inr (by decide),
    List.forall_mem_cons.mpr ⟨.inl (by decide), nofun⟩⟩
  unfold place
  split
  · split
    · exact List.forall_mem_append.mpr ⟨List.forall_mem_append.mpr ⟨marks, zeros _⟩, number⟩
    · split
      · exact List.forall_mem_append.mpr ⟨front _, back _⟩
      · exact List.forall_mem_append.mpr ⟨List.forall_mem_append.mpr ⟨number, zeros _⟩, marks'⟩
  · refine List.forall_mem_append.mpr ⟨List.forall_mem_append.mpr ⟨front 1, ?_⟩,
      exponentText_printed _⟩
    split
    · exact nofun
    · exact back 1

theorem printed_solid {c : Char} (printed : Printed c) : isSpace c = false := by
  cases printed with
  | inl digit => exact isSpace_of_isDigit digit
  | inr mark =>
    simp only [List.mem_cons, List.not_mem_nil, or_false] at mark
    rcases mark with rfl | rfl | rfl | rfl | rfl | rfl | rfl | rfl <;> rfl

theorem repr_printed (x : Double) : ∀ c ∈ x.repr, Printed c := by
  have sign : ∀ negative : Bool, ∀ c ∈ (if negative then ['-'] else []), Printed c := by
    intro negative c member
    cases negative with
    | true =>
      rw [List.mem_singleton.mp member]
      exact .inr (by decide)
    | false => cases member
  have letters : ∀ text ⊆ ['i', 'n', 'f', 'a'], ∀ c ∈ text, Printed c := by
    intro text part c member
    have inside := part member
    exact .inr (List.mem_append_right ['.', 'e', '+', '-'] inside)
  cases x with
  | nan => exact letters _ (by decide)
  | inf negative => exact List.forall_mem_append.mpr ⟨sign negative, letters _ (by decide)⟩
  | finite negative size =>
    obtain ⟨digits, point, -, all, shape, -⟩ := sizeText_placed size
    have number := place_printed all point
    rw [← shape] at number
    exact List.forall_mem_append.mpr ⟨sign negative, number⟩

theorem place_head {digits : Str} (some_ : digits ≠ []) (all : ∀ c ∈ digits, isDigit c = true)
    (point : ℤ) : ∃ c rest, place digits point = c :: rest ∧ isDigit c = true := by
  obtain ⟨d, more, rfl⟩ := List.exists_cons_of_ne_nil some_
  have first := all d (.head _)
  unfold place
  split
  · split
    · exact ⟨'0', _, rfl, by decide⟩
    · split
      · next right _ =>
          obtain ⟨k, large⟩ : ∃ k, point.toNat = k + 1 := ⟨point.toNat - 1, by omega⟩
          rw [large]
          exact ⟨d, _, rfl, first⟩
      · exact ⟨d, _, rfl, first⟩
  · exact ⟨d, _, rfl, first⟩

theorem strip_signed {negative : Bool} {body : Str} (solid : ∀ c ∈ body, isSpace c = false) :
    strip ((if negative then ['-'] else []) ++ body) =
      (if negative then ['-'] else []) ++ body := by
  apply strip_of_no_space
  intro c member
  cases List.mem_append.mp member with
  | inl sign =>
    cases negative with
    | true => rw [List.mem_singleton.mp sign]; rfl
    | false => cases sign
  | inr later => exact solid c later

theorem sign_signed {negative : Bool} {c : Char} {rest : Str} (plus : c ≠ '+') (minus : c ≠ '-') :
    sign ((if negative then ['-'] else []) ++ c :: rest) =
      (if negative then -1 else 1, c :: rest) := by
  cases negative with
  | true => rfl
  | false =>
    unfold sign
    split
    · next same => cases same; exact absurd rfl minus
    · next same => cases same; exact absurd rfl plus
    · rfl

theorem parse_repr (x : Double) : parse x.repr = some x := by
  cases x with
  | nan => decide +kernel
  | inf negative => cases negative <;> decide +kernel
  | finite negative size =>
    obtain ⟨digits, point, some_, all, shape, back⟩ := sizeText_placed size
    obtain ⟨c, rest, head, digit⟩ := place_head some_ all point
    have solid : ∀ d ∈ place digits point, isSpace d = false := fun d member =>
      printed_solid (place_printed all point d member)
    have read := parseDecimal_place some_ all point
    rw [head] at solid read
    have marks : c ≠ '+' ∧ c ≠ '-' ∧ c ≠ 'i' ∧ c ≠ 'n' := by
      refine ⟨?_, ?_, ?_, ?_⟩ <;> (rintro rfl; cases digit)
    have words : ∀ {d : Char} {more : Str}, c ≠ d → lower (c :: rest) ≠ d :: more := by
      intro d more other same
      have first := lower_head digit rest
      rw [same] at first
      exact other (Option.some.inj first).symm
    have infinite : ¬(lower (c :: rest) = lit "inf" ∨
        lower (c :: rest) = lit "infinity") := by
      rintro (same | same)
      · exact words marks.2.2.1 same
      · exact words marks.2.2.1 same
    have number : lower (c :: rest) ≠ lit "nan" := words marks.2.2.2
    have sign : decide ((if negative then (-1 : ℤ) else 1) < 0) = negative := by
      cases negative <;> rfl
    rw [parse, repr, shape, head, strip_signed solid, sign_signed marks.1 marks.2.1]
    dsimp only
    rw [if_neg infinite, if_neg number, read, Option.map_some, sign, rounded,
      magnitude_of_nearest back]

end Reading

end Double

end PerfStats
