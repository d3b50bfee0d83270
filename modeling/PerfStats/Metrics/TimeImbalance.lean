import Mathlib

namespace PerfStats.Metrics

section Model

abbrev Sample := Option ℚ

abbrev RatePoint := Sample × Sample

def plus (a b : Sample) : Sample := Option.map₂ (· + ·) a b

def minus (a b : Sample) : Sample := Option.map₂ (· - ·) a b

def times (a b : Sample) : Sample := Option.map₂ (· * ·) a b

def quotient (a b : Sample) : Sample := Option.map₂ (· / ·) a b

def segment (p q : RatePoint) : Sample := times (times (some (1 / 2)) (plus p.1 q.1)) (minus q.2 p.2)

/-- `d * (y[k + 1] + y[k]) / 2.0` of `numpy.trapezoid`. -/
def trapezoid (p q : RatePoint) : Sample := quotient (times (minus q.2 p.2) (plus q.1 p.1)) (some 2)

def neighbours (f : RatePoint → RatePoint → Sample) : List RatePoint → List Sample
  | p :: q :: rest => f p q :: neighbours f (q :: rest)
  | _ => []

def summed (values : List Sample) : Sample := values.foldl plus (some 0)

/-- `cum`. -/
def cumulative (values : List Sample) : List Sample := values.scanl plus (some 0)

def trapz (points : List RatePoint) : Sample := summed (neighbours trapezoid points)

/-- The comparison `a <= 0`, which is false of the missing value. -/
def atMostZero (a : Sample) : Bool := a.any fun q => decide (q ≤ 0)

def timeImbalanceMaxSliceRatio : ℚ := 10 ^ 9

/-- The ratio of one split, from the integrals and windows on either side; none where the loop goes
on. -/
def sliceRatio (before after beforeWindow afterWindow : Sample) : Option ℚ :=
  if atMostZero beforeWindow || atMostZero afterWindow then none
  else
    (quotient before beforeWindow).bind fun a =>
      if ¬ 0 < a then none
      else
        (quotient after afterWindow).bind fun b =>
          if b / a < 0 ∨ timeImbalanceMaxSliceRatio < b / a then none else some (b / a)

/-- `if min_ratio is None or ratio < min_ratio: min_ratio = ratio`. -/
def keepLeast (least : Option ℚ) : Option ℚ → Option ℚ
  | none => least
  | some ratio => some (least.elim ratio fun kept => if ratio < kept then ratio else kept)

/-- The loop over the splits `2 <= i <= n - 2`, with where it takes the integrals from. -/
def leastRatio (tmid : List Sample) (before after : Nat → Sample) : Option ℚ :=
  let n := tmid.length
  (List.range' 2 (n - 3)).foldl (fun least i => keepLeast least
    (sliceRatio (before i) (after i) (minus (tmid.getD i none) (tmid.getD 0 none))
      (minus (tmid.getD (n - 1) none) (tmid.getD i none)))) none

def timeImbalanceMinRatioForRate (rate tmid : List Sample) : Option ℚ :=
  let n := rate.length
  if n < 4 ∨ tmid.length ≠ n then none
  else
    let cum := cumulative (neighbours segment (rate.zip tmid))
    let total := cum.getD (n - 1) none
    leastRatio tmid (fun i => cum.getD (i - 1) none) fun i => minus total (cum.getD i none)

def timeImbalanceMinRatioForRateQuadratic (rate tmid : List Sample) : Option ℚ :=
  let n := rate.length
  if n < 4 ∨ tmid.length ≠ n then none
  else
    leastRatio tmid (fun i => trapz ((rate.take i).zip (tmid.take i)))
      fun i => trapz ((rate.drop i).zip (tmid.drop i))

end Model

section Integrals

variable {p q : RatePoint} {a b c : Sample}

theorem trapezoid_eq (p q : RatePoint) : trapezoid p q = segment p q := by
  obtain ⟨y, x⟩ := p
  obtain ⟨y', x'⟩ := q
  cases y <;> cases x <;> cases y' <;> cases x' <;>
    simp [trapezoid, segment, quotient, times, plus, minus]
  ring

theorem trapz_eq (points : List RatePoint) : trapz points = summed (neighbours segment points) := by
  have same : trapezoid = segment := by
    funext p q
    exact trapezoid_eq p q
  rw [trapz, same]

theorem plus_assoc (a b c : Sample) : plus (plus a b) c = plus a (plus b c) := by
  cases a <;> cases b <;> cases c <;> simp [plus, add_assoc]

theorem zero_plus (a : Sample) : plus (some 0) a = a := by cases a <;> simp [plus]

theorem plus_minus (a : ℚ) (b : Sample) : minus (plus (some a) b) (some a) = b := by
  cases b <;> simp [plus, minus]

theorem foldl_plus (start : Sample) (values : List Sample) :
    values.foldl plus start = plus start (summed values) := by
  induction values generalizing start with
  | nil => cases start <;> simp [summed, plus]
  | cons a values ih =>
    have whole : summed (a :: values) = plus a (summed values) := by
      rw [summed, List.foldl_cons, ih, zero_plus]
    rw [List.foldl_cons, ih, whole, plus_assoc]

theorem summed_append (before after : List Sample) :
    summed (before ++ after) = plus (summed before) (summed after) := by
  rw [summed, List.foldl_append, foldl_plus]
  rfl

theorem summed_cons (a : Sample) (values : List Sample) :
    summed (a :: values) = plus a (summed values) := by
  rw [summed, List.foldl_cons, foldl_plus, zero_plus]

theorem cumulative_getD {values : List Sample} {k : Nat} (inside : k ≤ values.length) :
    (cumulative values).getD k none = summed (values.take k) := by
  rw [cumulative, List.getD_eq_getElem?_getD, List.getElem?_scanl, if_pos inside]
  rfl

variable {f : RatePoint → RatePoint → Sample}

theorem neighbours_length (f : RatePoint → RatePoint → Sample) (points : List RatePoint) :
    (neighbours f points).length = points.length - 1 := by
  induction points with
  | nil => rfl
  | cons p rest ih =>
    cases rest with
    | nil => rfl
    | cons q rest =>
      rw [neighbours, List.length_cons, ih]
      rfl

theorem neighbours_split (before after : List RatePoint) (p q : RatePoint) :
    neighbours f (before ++ p :: q :: after) =
      neighbours f (before ++ [p]) ++ f p q :: neighbours f (q :: after) := by
  induction before with
  | nil => rfl
  | cons r before ih =>
    cases before with
    | nil => rfl
    | cons s before =>
      show f r s :: neighbours f (s :: before ++ p :: q :: after) =
        f r s :: neighbours f (s :: before ++ [p]) ++ f p q :: neighbours f (q :: after)
      rw [ih]
      rfl

end Integrals

section Splits

variable {p q : RatePoint} {points : List RatePoint}

theorem segment_none (missing : segment p q = none) :
    p.1 = none ∨ p.2 = none ∨ q.1 = none ∨ q.2 = none := by
  obtain ⟨y, x⟩ := p
  obtain ⟨y', x'⟩ := q
  cases y <;> cases x <;> cases y' <;> cases x' <;>
    simp [segment, times, plus, minus] at missing ⊢

theorem segment_left (missing : p.1 = none ∨ p.2 = none) :
    segment p q = none := by
  obtain ⟨y, x⟩ := p
  obtain ⟨y', x'⟩ := q
  cases y <;> cases x <;> cases y' <;> cases x' <;>
    simp [segment, times, plus, minus] at missing ⊢

theorem segment_right (missing : q.1 = none ∨ q.2 = none) :
    segment p q = none := by
  obtain ⟨y, x⟩ := p
  obtain ⟨y', x'⟩ := q
  cases y <;> cases x <;> cases y' <;> cases x' <;>
    simp [segment, times, plus, minus] at missing ⊢

theorem rest_of_total {before after : List RatePoint} {o p q r : RatePoint} {a : ℚ}
    (there : summed (neighbours segment (before ++ [o] ++ [p])) = some a) :
    minus (summed (neighbours segment ((before ++ [o]) ++ p :: q :: r :: after)))
        (plus (some a) (segment p q)) = summed (neighbours segment (q :: r :: after)) := by
  rw [neighbours_split, summed_append, summed_cons, there, ← plus_assoc]
  cases across : segment p q with
  | some c =>
    have joined : plus (some a) (some c) = some (a + c) := rfl
    rw [joined, plus_minus]
  | none =>
    have ends : q.1 = none ∨ q.2 = none := by
      obtain early | early | late := segment_none across
      · have lost : segment o p = none := segment_right (.inl early)
        rw [List.append_assoc, List.singleton_append, neighbours_split, summed_append,
          summed_cons, lost] at there
        simp [plus] at there
      · have lost : segment o p = none := segment_right (.inr early)
        rw [List.append_assoc, List.singleton_append, neighbours_split, summed_append,
          summed_cons, lost] at there
        simp [plus] at there
      · exact late
    rw [neighbours, summed_cons, segment_left ends]
    rfl

theorem sliceRatio_none (after beforeWindow afterWindow : Sample) :
    sliceRatio none after beforeWindow afterWindow = none := by
  unfold sliceRatio
  split
  · rfl
  · cases beforeWindow <;> rfl

theorem around_split {i : Nat} (low : 2 ≤ i)
    (high : i + 2 ≤ points.length) :
    ∃ before o p q r after, points = (before ++ [o]) ++ p :: q :: r :: after ∧
      points.take i = before ++ [o] ++ [p] ∧ points.drop i = q :: r :: after ∧
      (before ++ [o]).length + 1 = i := by
  obtain ⟨k, rfl⟩ : ∃ k, i = k + 2 := ⟨i - 2, by omega⟩
  refine ⟨points.take k, points[k], points[k + 1], points[k + 2], points[k + 3],
    points.drop (k + 4), ?_, ?_, ?_, ?_⟩
  · rw [List.append_assoc, List.singleton_append, List.getElem_cons_drop, List.getElem_cons_drop,
      List.getElem_cons_drop, List.getElem_cons_drop, List.take_append_drop]
  · rw [List.take_append_getElem, List.take_append_getElem]
  · rw [List.getElem_cons_drop, List.getElem_cons_drop]
  · rw [List.length_append, List.length_take, List.length_singleton]
    omega

theorem splits_agree {i : Nat} (low : 2 ≤ i)
    (high : i + 2 ≤ points.length) (beforeWindow afterWindow : Sample) :
    sliceRatio (summed ((neighbours segment points).take (i - 1)))
        (minus (summed (neighbours segment points)) (summed ((neighbours segment points).take i)))
        beforeWindow afterWindow =
      sliceRatio (trapz (points.take i)) (trapz (points.drop i)) beforeWindow afterWindow := by
  obtain ⟨before, o, p, q, r, after, whole, early, late, size⟩ := around_split low high
  have length : (neighbours segment (before ++ [o] ++ [p])).length = i - 1 := by
    rw [neighbours_length, List.length_append, List.length_singleton]
    omega
  have upto : (neighbours segment points).take (i - 1) =
      neighbours segment (before ++ [o] ++ [p]) := by
    rw [whole, neighbours_split, List.take_left' length]
  have across : (neighbours segment points).take i =
      neighbours segment (before ++ [o] ++ [p]) ++ [segment p q] := by
    have place : i = (neighbours segment (before ++ [o] ++ [p])).length + 1 := by omega
    rw [whole, neighbours_split, place, List.take_length_add_append]
    rfl
  rw [trapz_eq, trapz_eq, early, late, upto, across, summed_append]
  cases there : summed (neighbours segment (before ++ [o] ++ [p])) with
  | none => rw [sliceRatio_none, sliceRatio_none]
  | some a =>
    have single : summed [segment p q] = segment p q := by
      rw [summed, List.foldl_cons, List.foldl_nil, zero_plus]
    rw [single, whole, rest_of_total there]

/-- The one pass finds the smallest ratio that the loop over all integrals finds, whatever is
missing and in whatever order the times are. -/
theorem time_imbalance_one_pass (rate tmid : List Sample) :
    timeImbalanceMinRatioForRate rate tmid = timeImbalanceMinRatioForRateQuadratic rate tmid := by
  unfold timeImbalanceMinRatioForRate timeImbalanceMinRatioForRateQuadratic
  dsimp only
  split
  · rfl
  · next long =>
      have points : (rate.zip tmid).length = rate.length := by
        rw [List.length_zip]
        omega
      have segments : (neighbours segment (rate.zip tmid)).length = rate.length - 1 := by
        rw [neighbours_length, points]
      unfold leastRatio
      dsimp only
      apply List.foldl_ext
      intro least i member
      have range := List.mem_range'_1.mp member
      congr 1
      have total : summed ((neighbours segment (rate.zip tmid)).take (rate.length - 1)) =
          summed (neighbours segment (rate.zip tmid)) := by
        rw [← segments, List.take_length]
      have early : (rate.take i).zip (tmid.take i) = (rate.zip tmid).take i :=
        List.take_zipWith.symm
      have late : (rate.drop i).zip (tmid.drop i) = (rate.zip tmid).drop i :=
        List.drop_zipWith.symm
      rw [cumulative_getD (by omega), cumulative_getD (by omega), cumulative_getD (by omega), total,
        early, late]
      exact splits_agree range.1 (by omega) _ _

example : timeImbalanceMinRatioForRate [some 4, some 4, some 4, some 2, some 2, some 2]
      [some 0, some 1, some 2, some 3, some 4, some 5] = some (8 / 11) ∧
    timeImbalanceMinRatioForRate [some 4, some 4, some 4, some 2, none, some 2]
      [some 0, some 1, some 2, some 3, some 4, some 5] = none := by
  decide +kernel

end Splits

end PerfStats.Metrics
