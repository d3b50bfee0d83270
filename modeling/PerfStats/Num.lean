import PerfStats.Text

namespace PerfStats

open Text

/-- A frame cell: `none` is NaN. -/
abbrev Cell := Option ℚ

/-- `int(x)` of a float: the fraction is cut towards zero. -/
def truncate (x : ℚ) : Int := if x < 0 then -⌊-x⌋ else ⌊x⌋

theorem truncate_nonneg {q : ℚ} (nonneg : 0 ≤ q) : truncate q = ⌊q⌋ := by
  rw [truncate, if_neg (not_lt.mpr nonneg)]

namespace Cell

def sub (a b : Cell) : Cell := a.bind fun x => b.map fun y => x - y

def scale (factor : ℚ) (a : Cell) : Cell := a.map (· * factor)

def divBy (a : Cell) (d : ℚ) : Cell := a.map (· / d)

def present (l : List Cell) : List ℚ := l.filterMap id

/-- `sum(min_count=1)`. -/
def sumMinCount (l : List Cell) : Cell :=
  match present l with
  | [] => none
  | q :: rest => some (q + rest.sum)

def mean (l : List Cell) : Cell :=
  match present l with
  | [] => none
  | q :: rest => some ((q + rest.sum) / (rest.length + 1))

def maximum (l : List Cell) : Cell :=
  match present l with
  | [] => none
  | q :: rest => some (rest.foldl max q)

@[simp] theorem sumMinCount_singleton (c : Cell) : sumMinCount [c] = c := by
  cases c <;> simp [sumMinCount, present]

@[simp] theorem mean_singleton (c : Cell) : mean [c] = c := by
  cases c <;> simp [mean, present]

@[simp] theorem maximum_singleton (c : Cell) : maximum [c] = c := by
  cases c <;> simp [maximum, present]

end Cell

/-- `float`: a rational, an infinity or NaN. -/
inductive Num where
  | fin (q : ℚ)
  | inf
  | ninf
  | nan
  deriving DecidableEq, Repr

namespace Num

def isFinite : Num → Bool
  | .fin _ => true
  | _ => false

def cell : Num → Cell
  | .fin q => some q
  | _ => none

def negate : Num → Num
  | .fin q => .fin (-q)
  | .inf => .ninf
  | .ninf => .inf
  | .nan => .nan

variable [Interpreter]

def mantissa (s : Str) : ℚ × Str × Bool :=
  let (whole, rest, started) := match digitPart s with
    | some (value, _, rest) => ((value : ℚ), rest, true)
    | none => (0, s, false)
  match rest with
  | '.' :: more =>
    match digitPart more with
    | some (value, seen, rest) => (whole + value / 10 ^ seen, rest, true)
    | none => (whole, more, started)
  | _ => (whole, rest, started)

def withExponent (m : ℚ) : Str → Option ℚ
  | [] => some m
  | e :: more =>
    if e = 'e' ∨ e = 'E' then
      let (negative, digits) := sign more
      match digitPart digits with
      | some (value, _, []) => some (if negative < 0 then m / 10 ^ value else m * 10 ^ value)
      | _ => none
    else none

def parseDecimal (s : Str) : Option ℚ :=
  let (m, rest, numeric) := mantissa s
  if numeric then withExponent m rest else none

def ofDecimal (q : ℚ) : Num :=
  if q < 2 ^ 1024 - 2 ^ 970 then .fin (Interpreter.round q) else .inf

/-- `float(text)`: `none` is `ValueError`. -/
def parse (s : Str) : Option Num :=
  let (negative, body) := sign (strip s)
  let unsigned :=
    if lower body = lit "inf" ∨ lower body = lit "infinity" then some Num.inf
    else if lower body = lit "nan" then some Num.nan
    else (parseDecimal body).map ofDecimal
  if negative < 0 then unsigned.map negate else unsigned

theorem mantissa_nonneg (s : Str) : 0 ≤ (mantissa s).1 := by
  have whole : ∀ (found : Option (Nat × Nat × Str)), 0 ≤ (match found with
      | some (value, _, rest) => ((value : ℚ), rest, true)
      | none => (0, s, false)).1 := by
    intro found
    rcases found with _ | ⟨value, _, _⟩
    · exact le_rfl
    · exact Nat.cast_nonneg value
  unfold mantissa
  dsimp only
  split
  · split
    · exact add_nonneg (whole _) (by positivity)
    · exact whole _
  · exact whole _

theorem withExponent_nonneg {m q : ℚ} {rest : Str} (nonneg : 0 ≤ m)
    (parsed : withExponent m rest = some q) : 0 ≤ q := by
  unfold withExponent at parsed
  split at parsed
  · cases parsed
    exact nonneg
  · split at parsed
    · dsimp only at parsed
      split at parsed
      · cases parsed
        split <;> positivity
      · cases parsed
    · cases parsed

theorem parseDecimal_nonneg {s : Str} {q : ℚ} (parsed : parseDecimal s = some q) : 0 ≤ q := by
  unfold parseDecimal at parsed
  dsimp only at parsed
  split at parsed
  · exact withExponent_nonneg (mantissa_nonneg s) parsed
  · cases parsed

theorem parse_nonneg {c : Char} {rest : Str} {q : ℚ} (digit : isDigit c = true)
    (solid : ∀ d ∈ c :: rest, isSpace d = false) (parsed : parse (c :: rest) = some (.fin q)) :
    0 ≤ q := by
  have unsigned : sign (c :: rest) = (1, c :: rest) := by
    unfold sign
    split
    · next same =>
        cases same
        exact absurd ((isDigit_ascii (by decide)).symm.trans digit) (by decide)
    · next same =>
        cases same
        exact absurd ((isDigit_ascii (by decide)).symm.trans digit) (by decide)
    · rfl
  unfold parse at parsed
  rw [strip_of_no_space solid, unsigned] at parsed
  dsimp only at parsed
  rw [if_neg (by decide)] at parsed
  split at parsed
  · cases parsed
  · split at parsed
    · cases parsed
    · rcases Option.map_eq_some_iff.mp parsed with ⟨p, decimal, same⟩
      unfold ofDecimal at same
      split at same
      · cases same
        exact Interpreter.round_nonneg p (parseDecimal_nonneg decimal)
      · cases same

end Num

end PerfStats
