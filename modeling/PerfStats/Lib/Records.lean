import Mathlib

namespace PerfStats.Lib

/-- Reads the record at the front of a list and says how long it is; what lies behind the record
does not matter. -/
structure RecordReader (α β : Type*) where
  read : List α → Option (β × Nat)
  bounded : ∀ s b n, read s = some (b, n) → 0 < n ∧ n ≤ s.length
  front : ∀ s b n rest, read s = some (b, n) → read (s.take n ++ rest) = some (b, n)

namespace RecordReader

variable {α β : Type*} (R : RecordReader α β)

def records (s : List α) : List β × Nat :=
  match found : R.read s with
  | none => ([], 0)
  | some (b, n) =>
    have : s.length - n < s.length := by have := R.bounded s b n found; omega
    let rest := records (s.drop n)
    (b :: rest.1, n + rest.2)
termination_by s.length
decreasing_by rw [List.length_drop]; exact this

variable {R} {s rest : List α} {b : β} {n : Nat}

theorem records_stop (stop : R.read s = none) : R.records s = ([], 0) := by
  rw [records]
  split
  next => rfl
  next found => rw [stop] at found; cases found

theorem records_next (next : R.read s = some (b, n)) :
    R.records s = (b :: (R.records (s.drop n)).1, n + (R.records (s.drop n)).2) := by
  rw [records]
  split
  next found => rw [next] at found; cases found
  next found =>
    rw [next] at found
    cases found
    rfl

theorem read_front (next : R.read s = some (b, n)) (rest : List α) :
    R.read (s.take n ++ rest) = some (b, n) := R.front s b n rest next

theorem records_induction {P : List α → Prop} (stop : ∀ s, R.read s = none → P s)
    (next : ∀ s b n, R.read s = some (b, n) → P (s.drop n) → P s) (s : List α) : P s := by
  cases found : R.read s with
  | none => exact stop s found
  | some record =>
    have shorter : (s.drop record.2).length < s.length := by
      have := R.bounded s record.1 record.2 found
      rw [List.length_drop]
      omega
    exact next s record.1 record.2 found (records_induction stop next (s.drop record.2))
termination_by s.length
decreasing_by exact shorter

theorem records_le (s : List α) : (R.records s).2 ≤ s.length := by
  induction s using records_induction (R := R) with
  | stop s stop => simp [records_stop stop]
  | next s b n next ih =>
    have := (R.bounded s b n next).2
    rw [records_next next]
    rw [List.length_drop] at ih
    omega

theorem records_append (s rest : List α) : R.records (s.take (R.records s).2 ++ rest) =
    ((R.records s).1 ++ (R.records rest).1, (R.records s).2 + (R.records rest).2) := by
  induction s using records_induction (R := R) with
  | stop s stop => simp [records_stop stop]
  | next s b n next ih =>
    have inside := (R.bounded s b n next).2
    have cut : s.take (n + (R.records (s.drop n)).2) =
        s.take n ++ (s.drop n).take (R.records (s.drop n)).2 := List.take_add
    have length : (s.take n).length = n := by
      rw [List.length_take]
      omega
    have read : R.read (s.take (n + (R.records (s.drop n)).2) ++ rest) = some (b, n) := by
      rw [cut, List.append_assoc]
      exact read_front next _
    have behind : (s.take (n + (R.records (s.drop n)).2) ++ rest).drop n =
        (s.drop n).take (R.records (s.drop n)).2 ++ rest := by
      rw [cut, List.append_assoc]
      exact List.drop_left' length
    rw [records_next next, records_next read, behind, ih]
    simp [Nat.add_assoc]

end RecordReader

end PerfStats.Lib
