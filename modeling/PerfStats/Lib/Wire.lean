import PerfStats.Lib.CountingSort
import PerfStats.Lib.FileWrites

namespace PerfStats.Lib

section Words

def bigEndian : Nat → Nat → Bytes
  | 0, _ => []
  | width + 1, n => bigEndian width (n / 256) ++ [UInt8.ofNat n]

def ofBigEndian (bytes : Bytes) : Nat := bytes.foldl (fun v b => v * 256 + b.toNat) 0

@[simp] theorem bigEndian_length (width n : Nat) : (bigEndian width n).length = width := by
  induction width generalizing n with
  | zero => rfl
  | succ width ih => rw [bigEndian, List.length_append, ih, List.length_singleton]

theorem ofBigEndian_concat (bytes : Bytes) (b : UInt8) :
    ofBigEndian (bytes ++ [b]) = ofBigEndian bytes * 256 + b.toNat := by
  rw [ofBigEndian, List.foldl_append]
  rfl

theorem ofBigEndian_bigEndian {width n : Nat} (small : n < 256 ^ width) :
    ofBigEndian (bigEndian width n) = n := by
  induction width generalizing n with
  | zero =>
    have zero : n = 0 := by simpa using small
    subst zero
    rfl
  | succ width ih =>
    have shifted : n / 256 < 256 ^ width := by
      rw [Nat.div_lt_iff_lt_mul (by decide), ← Nat.pow_succ]
      exact small
    have low : (UInt8.ofNat n).toNat = n % 256 := UInt8.toNat_ofNat'
    calc
      ofBigEndian (bigEndian (width + 1) n) = n / 256 * 256 + n % 256 := by
        rw [bigEndian, ofBigEndian_concat, ih shifted, low]
      _ = n := by omega

def signed (width n : Nat) : Int := if 2 * n < 256 ^ width then n else n - 256 ^ width

def pack (width : Nat) (v : Int) : Option Bytes :=
  if -256 ^ width ≤ 2 * v ∧ 2 * v < 256 ^ width then
    some (bigEndian width (v % 256 ^ width).toNat)
  else none

theorem pack_length {width : Nat} {v : Int} {bytes : Bytes} (packed : pack width v = some bytes) :
    bytes.length = width := by
  rw [pack] at packed
  split at packed
  · cases packed
    exact bigEndian_length width _
  · cases packed

theorem signed_pack {width : Nat} {v : Int} {bytes : Bytes} (packed : pack width v = some bytes) :
    signed width (ofBigEndian bytes) = v := by
  rw [pack] at packed
  split at packed
  · next fits =>
      cases packed
      have base : (0 : Int) < 256 ^ width := by positivity
      have below := Int.emod_lt_of_pos v base
      have above := Int.emod_nonneg v base.ne'
      have small : (v % 256 ^ width).toNat < 256 ^ width := by
        zify
        rw [Int.toNat_of_nonneg above]
        exact below
      rw [ofBigEndian_bigEndian small, signed]
      by_cases sign : 0 ≤ v
      · have same : v % 256 ^ width = v := Int.emod_eq_of_lt sign (by omega)
        rw [same, if_pos (by zify; rw [Int.toNat_of_nonneg sign]; exact fits.2),
          Int.toNat_of_nonneg sign]
      · have same : v % 256 ^ width = v + 256 ^ width := by
          rw [← Int.add_emod_right, Int.emod_eq_of_lt (by omega) (by omega)]
        rw [same, if_neg (by zify; rw [Int.toNat_of_nonneg (by omega)]; omega),
          Int.toNat_of_nonneg (by omega)]
        omega
  · cases packed

end Words

section Walks

/-- `struct.unpack_from`: nothing when the buffer ends inside the field. -/
def unpackFrom (width : Nat) (buf : Bytes) (off : Nat) : Option Int :=
  if off + width ≤ buf.length then
    some (signed width (ofBigEndian ((buf.drop off).take width)))
  else none

def memory (buf : Bytes) (past : Nat → UInt8) (i : Nat) : UInt8 := (buf[i]?).getD (past i)

def window (p : Nat → UInt8) (off width : Nat) : Bytes := front width fun i => p (off + i)

def slice (buf : Bytes) (off width : Nat) : Bytes := (buf.drop off).take width

structure Ahead (buf : Bytes) (off : Nat) (bytes : Bytes) : Prop where
  inside : off ≤ buf.length
  here : buf.drop off = bytes

namespace Ahead

variable {buf field rest : Bytes} {off : Nat}

theorem whole (buf : Bytes) : Ahead buf 0 buf := ⟨Nat.zero_le _, rfl⟩

theorem size {bytes : Bytes} (ahead : Ahead buf off bytes) :
    buf.length = off + bytes.length := by
  have same := congrArg List.length ahead.here
  rw [List.length_drop] at same
  have := ahead.inside
  omega

theorem behind (ahead : Ahead buf off (field ++ rest)) :
    Ahead buf (off + field.length) rest where
  inside := by
    rw [ahead.size, List.length_append]
    omega
  here := by rw [← List.drop_drop, ahead.here, List.drop_left]

theorem slice (ahead : Ahead buf off (field ++ rest)) : slice buf off field.length = field := by
  rw [Lib.slice, ahead.here, List.take_left]

theorem window (ahead : Ahead buf off (field ++ rest)) (past : Nat → UInt8) :
    window (memory buf past) off field.length = field := by
  apply List.ext_getElem
  · rw [Lib.window, front_length]
  · intro i _ below
    have found : buf[off + i]? = field[i]? := by
      rw [← List.getElem?_drop, ahead.here, List.getElem?_append_left below]
    simp only [Lib.window, front, List.getElem_map, List.getElem_range, memory, found,
      List.getElem?_eq_getElem below, Option.getD_some]

variable {width : Nat} {v : Int}

theorem unpackFrom (ahead : Ahead buf off (field ++ rest)) (packed : pack width v = some field) :
    unpackFrom width buf off = some v := by
  have size := ahead.size
  have wide := pack_length packed
  rw [List.length_append, wide] at size
  rw [Lib.unpackFrom, if_pos (by omega), ahead.here, ← wide, List.take_left, wide,
    signed_pack packed]

theorem packed (ahead : Ahead buf off (field ++ rest)) (packed : pack width v = some field) :
    Ahead buf (off + width) rest := by
  have behind := ahead.behind
  rw [pack_length packed] at behind
  exact behind

end Ahead

end Walks

end PerfStats.Lib
