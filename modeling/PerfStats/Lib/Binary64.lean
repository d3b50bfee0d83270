import Mathlib

/-! The binary64 numbers as rationals: rounding to nearest, and the shortest decimal that reads
back. -/

namespace PerfStats.Lib.Binary64

section Rounding

def roundHalfEven (q : ℚ) : ℤ :=
  let rest := q - ⌊q⌋
  if rest < 1 / 2 then ⌊q⌋
  else if 1 / 2 < rest then ⌊q⌋ + 1
  else if ⌊q⌋ % 2 = 0 then ⌊q⌋ else ⌊q⌋ + 1

/-- The exponent of the unit in the last place: 53 digits, and none below `2 ^ (-1074)`. -/
def ulpExponent (q : ℚ) : ℤ := max (Int.log 2 |q| - 52) (-1074)

def nearest (q : ℚ) : ℚ := roundHalfEven (q / 2 ^ ulpExponent q) * 2 ^ ulpExponent q

def Magnitude := { q : ℚ // 0 ≤ q ∧ q < 2 ^ 1024 ∧ nearest q = q }

instance : DecidableEq Magnitude := inferInstanceAs (DecidableEq (Subtype _))

def magnitude (q : ℚ) : Option Magnitude :=
  if finite : 0 ≤ nearest q ∧ nearest q < 2 ^ 1024 ∧ nearest (nearest q) = nearest q then
    some ⟨nearest q, finite⟩
  else none

theorem magnitude_of_nearest {q : ℚ} {m : Magnitude} (same : nearest q = m.1) :
    magnitude q = some m := by
  have finite : 0 ≤ nearest q ∧ nearest q < 2 ^ 1024 ∧ nearest (nearest q) = nearest q := by
    rw [same]
    exact m.2
  rw [magnitude, dif_pos finite]
  exact congrArg some (Subtype.ext same)

theorem roundHalfEven_near (q : ℚ) : |(roundHalfEven q : ℚ) - q| ≤ 1 / 2 := by
  have low := Int.floor_le q
  have high := Int.lt_floor_add_one q
  unfold roundHalfEven
  dsimp only
  rw [abs_le]
  split_ifs <;> push_cast <;> constructor <;> linarith

theorem roundHalfEven_of_near {q : ℚ} {k : ℤ} (near : |q - k| < 1 / 2) : roundHalfEven q = k := by
  have close := abs_le.mp (roundHalfEven_near q)
  have bounds := abs_lt.mp near
  have below : (roundHalfEven q : ℚ) < k + 1 := by linarith
  have above : (k : ℚ) < roundHalfEven q + 1 := by linarith
  have below' : roundHalfEven q < k + 1 := by exact_mod_cast below
  have above' : k < roundHalfEven q + 1 := by exact_mod_cast above
  omega

theorem roundHalfEven_intCast (k : ℤ) : roundHalfEven k = k := by
  apply roundHalfEven_of_near
  norm_num

theorem nearest_near (q : ℚ) : |nearest q - q| ≤ 2 ^ ulpExponent q / 2 := by
  have unit : (0 : ℚ) < 2 ^ ulpExponent q := by positivity
  have scaled : nearest q - q =
      ((roundHalfEven (q / 2 ^ ulpExponent q) : ℚ) - q / 2 ^ ulpExponent q) * 2 ^ ulpExponent q := by
    rw [nearest, sub_mul, div_mul_cancel₀ q unit.ne']
  have close := mul_le_mul_of_nonneg_right (roundHalfEven_near (q / 2 ^ ulpExponent q)) unit.le
  rw [scaled, abs_mul, abs_of_pos unit]
  linarith

theorem nearest_nonneg (q : ℚ) (sign : 0 ≤ q) : 0 ≤ nearest q := by
  have low : 0 ≤ ⌊q / 2 ^ ulpExponent q⌋ := Int.floor_nonneg.mpr (by positivity)
  have whole : 0 ≤ roundHalfEven (q / 2 ^ ulpExponent q) := by
    simp only [roundHalfEven]
    split_ifs <;> omega
  exact mul_nonneg (Int.cast_nonneg whole) (by positivity)

theorem nearest_zero : nearest 0 = 0 := by
  have zero : roundHalfEven 0 = 0 := roundHalfEven_intCast 0
  rw [nearest, zero_div, zero, Int.cast_zero, zero_mul]

theorem nearest_below {q : ℚ} {n : ℤ} (below : |q| < 2 ^ n) (normal : -1021 ≤ n) :
    |nearest q - q| ≤ 2 ^ (n - 53) / 2 := by
  by_cases zero : q = 0
  · rw [zero, nearest_zero, sub_self, abs_zero]
    positivity
  · have log : Int.log 2 |q| < n := by
      apply (Int.lt_zpow_iff_log_lt (by decide) (abs_pos.mpr zero)).mp
      exact_mod_cast below
    have exponent : ulpExponent q ≤ n - 53 := max_le (by omega) (by omega)
    have grows : (2 : ℚ) ^ ulpExponent q ≤ 2 ^ (n - 53) :=
      zpow_le_zpow_right₀ (by norm_num) exponent
    have close := nearest_near q
    linarith

end Rounding

section Decimal

def decimal (n : Nat) (scale : ℤ) : ℚ := n / 10 ^ scale

/-- The multiple of `10 ^ (-scale)` next to the magnitude that is rounded back to it, the nearer
one first. -/
def decimalAt (q : ℚ) (scale : ℤ) : Option Nat :=
  let low := ⌊q * 10 ^ scale⌋.toNat
  let candidates :=
    if roundHalfEven (q * 10 ^ scale) = low then [low, low + 1] else [low + 1, low]
  candidates.find? fun n => nearest (decimal n scale) = q

/-- The fewest digits that are rounded back to the magnitude, with their scale; seventeen always
are. -/
def shortest (q : ℚ) : Nat × ℤ :=
  ((List.range 17).findSome? fun more =>
    let scale := more - Int.log 10 q
    (decimalAt q scale).map fun n => (n, scale)).getD (⌊q * 10 ^ 1074⌋.toNat, 1074)

theorem exact_decimal (m : Magnitude) : decimal ⌊m.1 * 10 ^ 1074⌋.toNat 1074 = m.1 := by
  obtain ⟨q, nonneg, -, rounded⟩ := m
  have floor : ∃ k : ℤ, q * 2 ^ 1074 = k := by
    have below : 0 ≤ ulpExponent q + 1074 := by
      have least : -1074 ≤ ulpExponent q := le_max_right _ _
      omega
    have split : (2 : ℚ) ^ ulpExponent q * 2 ^ 1074 = 2 ^ (ulpExponent q + 1074).toNat := by
      rw [← zpow_natCast, ← zpow_natCast, Int.toNat_of_nonneg below, ← zpow_add₀ (by norm_num)]
      rfl
    refine ⟨roundHalfEven (q / 2 ^ ulpExponent q) * 2 ^ (ulpExponent q + 1074).toNat, ?_⟩
    conv_lhs => rw [← rounded, nearest, mul_assoc, split]
    push_cast
    rfl
  obtain ⟨k, whole⟩ := floor
  have tens : q * 10 ^ 1074 = ((k * 5 ^ 1074 : ℤ) : ℚ) := by
    have ten : (10 : ℚ) = 2 * 5 := by norm_num
    have parts : (10 : ℚ) ^ 1074 = 2 ^ 1074 * 5 ^ 1074 :=
      (congrArg (· ^ 1074) ten).trans (mul_pow 2 5 1074)
    rw [parts, ← mul_assoc, whole, Int.cast_mul, Int.cast_pow, Int.cast_ofNat]
  have positive : 0 ≤ q * 10 ^ 1074 := mul_nonneg nonneg (by positivity)
  have digits : ((⌊q * 10 ^ 1074⌋.toNat : ℕ) : ℚ) = q * 10 ^ 1074 := by
    have back : ((⌊q * 10 ^ 1074⌋.toNat : ℕ) : ℤ) = ⌊q * 10 ^ 1074⌋ :=
      Int.toNat_of_nonneg (Int.floor_nonneg.mpr positive)
    calc ((⌊q * 10 ^ 1074⌋.toNat : ℕ) : ℚ)
        = ((⌊q * 10 ^ 1074⌋ : ℤ) : ℚ) := (Int.cast_natCast _).symm.trans (congrArg Int.cast back)
      _ = q * 10 ^ 1074 := by rw [tens, Int.floor_intCast]
  have scale : (10 : ℚ) ^ (1074 : ℤ) = 10 ^ 1074 := rfl
  rw [decimal, digits, scale]
  exact mul_div_cancel_right₀ q (by positivity)

theorem nearest_shortest (m : Magnitude) :
    nearest (decimal (shortest m.1).1 (shortest m.1).2) = m.1 := by
  unfold shortest
  cases found : (List.range 17).findSome? fun more =>
      (decimalAt m.1 ((more : ℤ) - Int.log 10 m.1)).map fun n =>
        (n, (more : ℤ) - Int.log 10 m.1) with
  | none =>
    rw [Option.getD_none, exact_decimal]
    exact m.2.2.2
  | some pair =>
    obtain ⟨more, -, read⟩ := List.exists_of_findSome?_eq_some found
    obtain ⟨n, here, rfl⟩ := Option.map_eq_some_iff.mp read
    have own := List.find?_some here
    exact of_decide_eq_true own

end Decimal

end PerfStats.Lib.Binary64
