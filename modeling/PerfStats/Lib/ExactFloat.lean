import Mathlib

namespace PerfStats.Lib

inductive Exact where
  | nan
  | negInf
  | num (q : ℚ)
  | posInf
deriving DecidableEq, Repr

namespace Exact

def isNan : Exact → Bool
  | nan => true
  | _ => false

def number : Exact → Option ℚ
  | num q => some q
  | _ => none

def add : Exact → Exact → Exact
  | nan, _ | _, nan | negInf, posInf | posInf, negInf => nan
  | negInf, _ | _, negInf => negInf
  | posInf, _ | _, posInf => posInf
  | num a, num b => num (a + b)

/-- The comparison `a < b`, which is false of a NaN. -/
def lt : Exact → Exact → Bool
  | num a, num b => decide (a < b)
  | negInf, num _ | negInf, posInf | num _, posInf => true
  | _, _ => false

def maximum (a b : Exact) : Exact :=
  if a.isNan then a else if b.isNan then b else if a.lt b then b else a

def absBelow (a : Exact) (limit : ℚ) : Bool :=
  match a with
  | num q => decide (|q| < limit)
  | _ => false

def absReaches (a : Exact) (limit : ℚ) : Bool :=
  match a with
  | num q => decide (limit ≤ |q|)
  | nan => false
  | _ => true

def nonneg : Exact → Bool
  | num q => decide (0 ≤ q)
  | posInf => true
  | _ => false

def scale : Exact → ℚ → Exact
  | nan, _ => nan
  | num a, c => num (a * c)
  | posInf, c => if 0 < c then posInf else if c < 0 then negInf else nan
  | negInf, c => if 0 < c then negInf else if c < 0 then posInf else nan

def divNat : Exact → Nat → Exact
  | num a, n => num (a / n)
  | a, _ => a

variable {l l' : List Exact} (a : Exact)

theorem zero_add : add (num 0) a = a := by cases a <;> simp [add]

theorem add_swap (b c : Exact) : add (add a b) c = add (add a c) b := by
  cases a <;> cases b <;> cases c <;> simp [add, add_right_comm]

theorem sum_perm (perm : l.Perm l') (a : Exact) : l.foldl add a = l'.foldl add a :=
  have : RightCommutative add := ⟨add_swap⟩
  perm.foldl_eq a

def mean (vals : List Exact) : Exact :=
  let there := vals.filter fun v => !v.isNan
  if there.isEmpty then nan else (there.foldl add (num 0)).divNat there.length

theorem mean_perm (perm : l.Perm l') : mean l = mean l' := by
  have kept := perm.filter fun v => !v.isNan
  unfold mean
  dsimp only
  rw [sum_perm kept, kept.length_eq, kept.isEmpty_eq]

theorem maximum_negInf : maximum negInf a = a := by cases a <;> simp [maximum, isNan, lt]

theorem maximum_swap (b c : Exact) : maximum (maximum a b) c = maximum (maximum a c) b := by
  cases a <;> cases b <;> cases c <;> grind [maximum, isNan, lt]

theorem maximum_perm (perm : l.Perm l') (a : Exact) : l.foldl maximum a = l'.foldl maximum a :=
  have : RightCommutative maximum := ⟨maximum_swap⟩
  perm.foldl_eq a

end Exact

end PerfStats.Lib
