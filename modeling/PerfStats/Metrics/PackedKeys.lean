import PerfStats.Metrics.Segments

namespace PerfStats.Metrics

section Model

variable {ρ : Type*}

def timeBits : Nat := 32

def partWidth (idx : Nat) : Nat := if idx = 0 then timeBits else 16

def outOfRange : String := "composite key part out of range"

/-- The loop of `composite_key`, from the last part on. -/
def packParts (rows : List ρ) : List (ρ → ℤ) → Nat → Nat → (ρ → BitVec 64) →
    Except String (ρ → BitVec 64)
  | [], _, _, key => .ok key
  | part :: rest, idx, shift, key =>
    if rows.any fun r => decide (part r < 0 ∨ 2 ^ partWidth idx ≤ part r) then .error outOfRange
    else packParts rows rest (idx + 1) (shift + partWidth idx) fun r =>
      key r ||| BitVec.ofInt 64 (part r) <<< shift

/-- `composite_key` of columns: the column of keys, or its `ValueError`. -/
def compositeKey (rows : List ρ) (parts : List (ρ → ℤ)) : Except String (ρ → BitVec 64) :=
  packParts rows parts.reverse 0 0 fun _ => 0

def timeMask : BitVec 64 := BitVec.ofNat 64 (2 ^ timeBits - 1)

def htOf (key : BitVec 64) : BitVec 64 :=
  (key.sshiftRight (timeBits + 16)) <<< timeBits ||| key &&& timeMask

def timePosition (key : BitVec 64) : Nat := (key &&& timeMask).toNat

def pairHost (key : BitVec 64) : ℤ := (key.sshiftRight timeBits).toInt

def tripleHost (key : BitVec 64) : ℤ := (key.sshiftRight (timeBits + 16)).toInt

def tripleDev (key : BitVec 64) : ℤ := (key.sshiftRight timeBits &&& 0xFFFF).toInt - 2 ^ 15

def packPair (host tix : ℤ) : BitVec 64 :=
  0 ||| BitVec.ofInt 64 tix <<< 0 ||| BitVec.ofInt 64 host <<< 32

def packTriple (host mid tix : ℤ) : BitVec 64 :=
  0 ||| BitVec.ofInt 64 tix <<< 0 ||| BitVec.ofInt 64 mid <<< 32 ||| BitVec.ofInt 64 host <<< 48

end Model

section Packing

variable {ρ : Type*} {rows : List ρ} {host mid tix : ρ → ℤ}

theorem in_range {part : ρ → ℤ} {width : Nat}
    (fits : ∀ r ∈ rows, 0 ≤ part r ∧ part r < 2 ^ width) :
    (rows.any fun r => decide (part r < 0 ∨ 2 ^ width ≤ part r)) = false := by
  rw [List.any_eq_false]
  intro r member
  obtain ⟨low, high⟩ := fits r member
  rw [decide_eq_true_iff]
  omega

theorem compositeKey_pair (times : ∀ r ∈ rows, 0 ≤ tix r ∧ tix r < 2 ^ 32)
    (hosts : ∀ r ∈ rows, 0 ≤ host r ∧ host r < 2 ^ 16) :
    compositeKey rows [host, tix] = .ok fun r => packPair (host r) (tix r) := by
  have low := in_range times
  have high := in_range hosts
  show packParts rows [tix, host] 0 0 _ = _
  unfold packParts packParts packParts
  rw [if_neg (by rw [show partWidth 0 = 32 from rfl, low]; exact Bool.false_ne_true),
    if_neg (by rw [show partWidth (0 + 1) = 16 from rfl, high]; exact Bool.false_ne_true)]
  rfl

theorem compositeKey_triple (times : ∀ r ∈ rows, 0 ≤ tix r ∧ tix r < 2 ^ 32)
    (hosts : ∀ r ∈ rows, 0 ≤ host r ∧ host r < 2 ^ 16) :
    compositeKey rows [host, mid, tix] =
      if ∀ r ∈ rows, 0 ≤ mid r ∧ mid r < 2 ^ 16 then
        .ok fun r => packTriple (host r) (mid r) (tix r)
      else .error outOfRange := by
  have low := in_range times
  have high := in_range hosts
  show packParts rows [tix, mid, host] 0 0 _ = _
  unfold packParts packParts packParts packParts
  rw [if_neg (by rw [show partWidth 0 = 32 from rfl, low]; exact Bool.false_ne_true)]
  split
  · next wide =>
      rw [if_neg]
      intro fits
      rw [show partWidth (0 + 1) = 16 from rfl, in_range fits] at wide
      cases wide
  · next narrow =>
      rw [if_neg (by rw [show partWidth (0 + 1 + 1) = 16 from rfl, high]; exact Bool.false_ne_true),
        if_pos]
      · rfl
      · intro r member
        have inside := List.any_eq_false.mp (Bool.eq_false_of_not_eq_true narrow) r member
        rw [decide_eq_true_iff, show partWidth (0 + 1) = 16 from rfl] at inside
        omega

end Packing

section Unpacking

variable {key : BitVec 64}

theorem put_part {part : Nat} {shift width : Nat} (below : key.toNat < 2 ^ shift)
    (fits : part < 2 ^ width) (room : shift + width ≤ 64) :
    (key ||| BitVec.ofInt 64 part <<< shift).toNat = key.toNat + part * 2 ^ shift := by
  have product : part * 2 ^ shift < 2 ^ 64 := by
    calc
      part * 2 ^ shift < 2 ^ width * 2 ^ shift :=
        (Nat.mul_lt_mul_right (Nat.two_pow_pos shift)).mpr fits
      _ = 2 ^ (width + shift) := (Nat.pow_add 2 width shift).symm
      _ ≤ 2 ^ 64 := Nat.pow_le_pow_right (by decide) (by omega)
  have small : part < 2 ^ 64 :=
    Nat.lt_of_le_of_lt (Nat.le_mul_of_pos_right part (Nat.two_pow_pos shift)) product
  rw [BitVec.toNat_or, BitVec.toNat_shiftLeft, BitVec.ofInt_natCast, BitVec.toNat_ofNat,
    Nat.mod_eq_of_lt small, Nat.shiftLeft_eq, Nat.mod_eq_of_lt product, Nat.or_comm,
    Nat.mul_comm, ← Nat.two_pow_add_eq_or_of_lt below, Nat.add_comm]

variable {host mid tix : Nat}

theorem packPair_toNat (h : host < 2 ^ 16) (t : tix < 2 ^ 32) :
    (packPair host tix).toNat = host * 2 ^ 32 + tix := by
  have first : (0 ||| BitVec.ofInt 64 (tix : ℤ) <<< 0 : BitVec 64).toNat = tix := by
    rw [put_part (by decide) t (by decide)]
    simp
  unfold packPair
  rw [put_part (by rw [first]; exact t) h (by decide), first, Nat.add_comm]

theorem packTriple_toNat (h : host < 2 ^ 15) (m : mid < 2 ^ 16) (t : tix < 2 ^ 32) :
    (packTriple host mid tix).toNat = host * 2 ^ 48 + mid * 2 ^ 32 + tix := by
  have first : (0 ||| BitVec.ofInt 64 (tix : ℤ) <<< 0 : BitVec 64).toNat = tix := by
    rw [put_part (by decide) t (by decide)]
    simp
  have second : (0 ||| BitVec.ofInt 64 (tix : ℤ) <<< 0 |||
      BitVec.ofInt 64 (mid : ℤ) <<< 32 : BitVec 64).toNat = tix + mid * 2 ^ 32 := by
    rw [put_part (by rw [first]; exact t) m (by decide), first]
  unfold packTriple
  rw [put_part (by rw [second]; omega) h (by decide), second]
  omega

theorem toInt_of_toNat {n : Nat} (value : key.toNat = n) (small : n < 2 ^ 63) :
    key.toInt = n := by
  rw [BitVec.toInt_eq_toNat_of_lt (by omega), value]

theorem sshiftRight_toNat {n : Nat} (value : key.toNat = n) (small : n < 2 ^ 63)
    (shift : Nat) : (key.sshiftRight shift).toNat = n / 2 ^ shift := by
  have top : key.msb = false := by
    rw [BitVec.msb_eq_false_iff_two_mul_lt]
    omega
  rw [BitVec.sshiftRight_eq_of_msb_false top, BitVec.toNat_ushiftRight, value,
    Nat.shiftRight_eq_div_pow]

theorem masked_toNat (key : BitVec 64) : (key &&& timeMask).toNat = key.toNat % 2 ^ 32 := by
  have mask : timeMask.toNat = 2 ^ 32 - 1 := by decide
  rw [BitVec.toNat_and, mask, Nat.and_two_pow_sub_one_eq_mod]

theorem pair_unpacked (h : host < 2 ^ 16) (t : tix < 2 ^ 32) :
    pairHost (packPair host tix) = host ∧ timePosition (packPair host tix) = tix := by
  have value := packPair_toNat h t
  have small : host * 2 ^ 32 + tix < 2 ^ 63 := by omega
  constructor
  · have quotient : (host * 2 ^ 32 + tix) / 2 ^ 32 = host := by omega
    apply toInt_of_toNat _ (by omega)
    rw [show timeBits = 32 from rfl, sshiftRight_toNat value small, quotient]
  · unfold timePosition
    rw [masked_toNat, value]
    omega

theorem triple_unpacked (h : host < 2 ^ 15) (m : mid < 2 ^ 16) (t : tix < 2 ^ 32) :
    tripleHost (packTriple host mid tix) = host ∧
      tripleDev (packTriple host mid tix) = mid - 2 ^ 15 ∧
      timePosition (packTriple host mid tix) = tix := by
  have value := packTriple_toNat h m t
  have small : host * 2 ^ 48 + mid * 2 ^ 32 + tix < 2 ^ 63 := by omega
  refine ⟨?_, ?_, ?_⟩
  · have quotient : (host * 2 ^ 48 + mid * 2 ^ 32 + tix) / 2 ^ 48 = host := by omega
    apply toInt_of_toNat _ (by omega)
    rw [show timeBits + 16 = 48 from rfl, sshiftRight_toNat value small, quotient]
  · have code : (((packTriple host mid tix).sshiftRight 32) &&& 0xFFFF).toNat = mid := by
      have mask : (0xFFFF : BitVec 64).toNat = 2 ^ 16 - 1 := by decide
      rw [BitVec.toNat_and, mask, Nat.and_two_pow_sub_one_eq_mod, sshiftRight_toNat value small]
      omega
    unfold tripleDev
    rw [show timeBits = 32 from rfl, toInt_of_toNat code (by omega)]
  · unfold timePosition
    rw [masked_toNat, value]
    omega

theorem htOf_packTriple (h : host < 2 ^ 15) (m : mid < 2 ^ 16) (t : tix < 2 ^ 32) :
    htOf (packTriple host mid tix) = packPair host tix := by
  have value := packTriple_toNat h m t
  have small : host * 2 ^ 48 + mid * 2 ^ 32 + tix < 2 ^ 63 := by omega
  have low : ((packTriple host mid tix) &&& timeMask).toNat = tix := by
    rw [masked_toNat, value]
    omega
  have quotient : (host * 2 ^ 48 + mid * 2 ^ 32 + tix) / 2 ^ 48 = host := by omega
  have high : ((packTriple host mid tix).sshiftRight 48) = BitVec.ofInt 64 host := by
    apply BitVec.eq_of_toNat_eq
    rw [sshiftRight_toNat value small, quotient, BitVec.ofInt_natCast, BitVec.toNat_ofNat,
      Nat.mod_eq_of_lt (by omega)]
  apply BitVec.eq_of_toNat_eq
  unfold htOf
  rw [show timeBits + 16 = 48 from rfl, show timeBits = 32 from rfl, high, BitVec.or_comm,
    put_part (by rw [low]; exact t) h (by decide), low, packPair_toNat (h.trans (by decide)) t,
    Nat.add_comm]

theorem packPair_lt {host' tix' : Nat} (h : host < 2 ^ 16) (t : tix < 2 ^ 32) (h' : host' < 2 ^ 16)
    (t' : tix' < 2 ^ 32) : (packPair host tix).toInt < (packPair host' tix').toInt ↔
      host < host' ∨ host = host' ∧ tix < tix' := by
  rw [toInt_of_toNat (packPair_toNat h t) (by omega),
    toInt_of_toNat (packPair_toNat h' t') (by omega)]
  omega

theorem packTriple_lt {mid' : Nat} (h : host < 2 ^ 15) (m : mid < 2 ^ 16) (m' : mid' < 2 ^ 16)
    (t : tix < 2 ^ 32) :
    (packTriple host mid tix).toInt < (packTriple host mid' tix).toInt ↔ mid < mid' := by
  rw [toInt_of_toNat (packTriple_toNat h m t) (by omega),
    toInt_of_toNat (packTriple_toNat h m' t) (by omega)]
  omega

end Unpacking

end PerfStats.Metrics
