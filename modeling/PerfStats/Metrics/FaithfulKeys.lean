import PerfStats.Metrics.PackedKeys
import Mathlib.Data.Prod.Lex

namespace PerfStats.Metrics

section Faithful

variable {ρ : Type*}

structure PairFaithful (rows : List ρ) (host tix : ρ → ℤ) (key : ρ → BitVec 64) : Prop where
  distinct : ∀ a ∈ rows, ∀ b ∈ rows, key a = key b → host a = host b ∧ tix a = tix b
  ordered : ∀ a ∈ rows, ∀ b ∈ rows, (key a).toInt < (key b).toInt ↔
    toLex (host a, tix a) < toLex (host b, tix b)
  decoded : ∀ a ∈ rows, pairHost (key a) = host a ∧ timePosition (key a) = tix a

/-- Keys of three parts stand for them; the key that is left without the middle part is that of the
other two. -/
structure TripleFaithful (rows : List ρ) (host mid tix : ρ → ℤ) (key : ρ → BitVec 64) : Prop where
  distinct : ∀ a ∈ rows, ∀ b ∈ rows, key a = key b →
    host a = host b ∧ mid a = mid b ∧ tix a = tix b
  ordered : ∀ a ∈ rows, ∀ b ∈ rows, (key a).toInt < (key b).toInt ↔
    toLex (host a, toLex (mid a, tix a)) < toLex (host b, toLex (mid b, tix b))
  decoded : ∀ a ∈ rows, tripleHost (key a) = host a ∧ tripleDev (key a) + 2 ^ 15 = mid a ∧
    timePosition (key a) = tix a
  repacked : ∀ a ∈ rows, pairHost (htOf (key a)) = host a ∧ timePosition (htOf (key a)) = tix a

variable {rows : List ρ} {host mid tix : ρ → ℤ} {key : ρ → BitVec 64}

theorem packParts_next {part : ρ → ℤ} {rest : List (ρ → ℤ)} {idx shift : Nat}
    {start : ρ → BitVec 64} (packed : packParts rows (part :: rest) idx shift start = .ok key) :
    (∀ r ∈ rows, 0 ≤ part r ∧ part r < 2 ^ partWidth idx) ∧
      packParts rows rest (idx + 1) (shift + partWidth idx)
        (fun r => start r ||| BitVec.ofInt 64 (part r) <<< shift) = .ok key := by
  rw [packParts] at packed
  split at packed
  · cases packed
  · next inside =>
      refine ⟨?_, packed⟩
      intro r member
      have fits := List.any_eq_false.mp (Bool.eq_false_of_not_eq_true inside) r member
      rw [decide_eq_true_iff] at fits
      omega

theorem pair_accepted (packed : compositeKey rows [host, tix] = .ok key) :
    (∀ r ∈ rows, ∃ h t : Nat, host r = h ∧ tix r = t ∧ h < 2 ^ 16 ∧ t < 2 ^ 32) ∧
      key = fun r => packPair (host r) (tix r) := by
  obtain ⟨times, packed⟩ := packParts_next packed
  obtain ⟨hosts, packed⟩ := packParts_next packed
  cases packed
  refine ⟨?_, rfl⟩
  intro r member
  have time : 0 ≤ tix r ∧ tix r < 2 ^ 32 := times r member
  have node : 0 ≤ host r ∧ host r < 2 ^ 16 := hosts r member
  exact ⟨(host r).toNat, (tix r).toNat, by omega, by omega, by omega, by omega⟩

theorem triple_accepted (packed : compositeKey rows [host, mid, tix] = .ok key) :
    (∀ r ∈ rows, ∃ h m t : Nat, host r = h ∧ mid r = m ∧ tix r = t ∧ h < 2 ^ 16 ∧ m < 2 ^ 16 ∧
      t < 2 ^ 32) ∧ key = fun r => packTriple (host r) (mid r) (tix r) := by
  obtain ⟨times, packed⟩ := packParts_next packed
  obtain ⟨mids, packed⟩ := packParts_next packed
  obtain ⟨hosts, packed⟩ := packParts_next packed
  cases packed
  refine ⟨?_, rfl⟩
  intro r member
  have time : 0 ≤ tix r ∧ tix r < 2 ^ 32 := times r member
  have middle : 0 ≤ mid r ∧ mid r < 2 ^ 16 := mids r member
  have node : 0 ≤ host r ∧ host r < 2 ^ 16 := hosts r member
  exact ⟨(host r).toNat, (mid r).toNat, (tix r).toNat, by omega, by omega, by omega, by omega,
    by omega, by omega⟩

theorem pair_faithful (packed : compositeKey rows [host, tix] = .ok key) :
    PairFaithful rows host tix key := by
  obtain ⟨inside, rfl⟩ := pair_accepted packed
  have value : ∀ r ∈ rows, (packPair (host r) (tix r)).toInt = host r * 2 ^ 32 + tix r ∧
      0 ≤ tix r ∧ tix r < 2 ^ 32 := by
    intro r member
    obtain ⟨h, t, is_h, is_t, high, low⟩ := inside r member
    rw [is_h, is_t, toInt_of_toNat (packPair_toNat high low) (by omega)]
    omega
  constructor
  · intro a inA b inB same
    have first := value a inA
    have second := value b inB
    rw [same] at first
    omega
  · intro a inA b inB
    have first := value a inA
    have second := value b inB
    rw [Prod.Lex.toLex_lt_toLex, first.1, second.1]
    omega
  · intro a inA
    obtain ⟨h, t, is_h, is_t, high, low⟩ := inside a inA
    have back := pair_unpacked high low
    rw [is_h, is_t]
    exact ⟨back.1, congrArg Nat.cast back.2⟩

theorem triple_faithful (packed : compositeKey rows [host, mid, tix] = .ok key)
    (few : ∀ r ∈ rows, host r < 2 ^ 15) : TripleFaithful rows host mid tix key := by
  obtain ⟨inside, rfl⟩ := triple_accepted packed
  have value : ∀ r ∈ rows, (packTriple (host r) (mid r) (tix r)).toInt =
      host r * 2 ^ 48 + mid r * 2 ^ 32 + tix r ∧ 0 ≤ mid r ∧ mid r < 2 ^ 16 ∧
        0 ≤ tix r ∧ tix r < 2 ^ 32 := by
    intro r member
    obtain ⟨h, m, t, is_h, is_m, is_t, -, middle, low⟩ := inside r member
    have high := few r member
    rw [is_h, is_m, is_t, toInt_of_toNat (packTriple_toNat (by omega) middle low) (by omega)]
    omega
  have parts : ∀ r ∈ rows, (tripleHost (packTriple (host r) (mid r) (tix r)) = host r ∧
      tripleDev (packTriple (host r) (mid r) (tix r)) + 2 ^ 15 = mid r ∧
        timePosition (packTriple (host r) (mid r) (tix r)) = tix r) ∧
      htOf (packTriple (host r) (mid r) (tix r)) = packPair (host r) (tix r) := by
    intro r member
    obtain ⟨h, m, t, is_h, is_m, is_t, -, middle, low⟩ := inside r member
    have high := few r member
    obtain ⟨node, code, time⟩ := triple_unpacked (show h < 2 ^ 15 by omega) middle low
    rw [is_h, is_m, is_t]
    exact ⟨⟨node, by omega, congrArg Nat.cast time⟩,
      htOf_packTriple (show h < 2 ^ 15 by omega) middle low⟩
  constructor
  · intro a inA b inB same
    have first := value a inA
    have second := value b inB
    rw [same] at first
    omega
  · intro a inA b inB
    have first := value a inA
    have second := value b inB
    rw [Prod.Lex.toLex_lt_toLex, first.1, second.1]
    rw [Prod.Lex.toLex_lt_toLex]
    omega
  · exact fun a inA => (parts a inA).1
  · intro a inA
    obtain ⟨h, m, t, is_h, is_m, is_t, high, -, low⟩ := inside a inA
    have back := pair_unpacked high low
    rw [(parts a inA).2, is_h, is_t]
    exact ⟨back.1, congrArg Nat.cast back.2⟩

/-- Two parts are always kept. Three are where each host is below 2^15, and with a host from there on
the key is negative and is decoded to another host. -/
theorem packed_faithfully_iff (rows : List ρ) (host mid tix : ρ → ℤ) :
    (∀ key, compositeKey rows [host, tix] = .ok key → PairFaithful rows host tix key) ∧
      ∀ key, compositeKey rows [host, mid, tix] = .ok key →
        (TripleFaithful rows host mid tix key ↔ ∀ r ∈ rows, host r < 2 ^ 15) := by
  refine ⟨fun key packed => pair_faithful packed, fun key packed => ⟨?_, triple_faithful packed⟩⟩
  intro faithful r member
  have back := (faithful.decoded r member).1
  have top : (tripleHost (key r)) < 2 ^ 15 := by
    unfold tripleHost
    rw [BitVec.toInt_sshiftRight, Int.shiftRight_eq_div_pow]
    have below := BitVec.toInt_lt (x := key r)
    rw [show timeBits + 16 = 48 from rfl]
    omega
  rwa [back] at top

theorem host_in_sign_bit :
    ∃ key, compositeKey [((32768, 0, 0) : ℤ × ℤ × ℤ), (1, 0, 0)]
        [fun r => r.1, fun r => r.2.1, fun r => r.2.2] = .ok key ∧
      tripleHost (key (32768, 0, 0)) = -32768 ∧ (key (32768, 0, 0)).toInt < (key (1, 0, 0)).toInt ∧
        ¬ TripleFaithful [((32768, 0, 0) : ℤ × ℤ × ℤ), (1, 0, 0)] (fun r => r.1) (fun r => r.2.1)
          (fun r => r.2.2) key := by
  refine ⟨_, rfl, by decide +kernel, by decide +kernel, ?_⟩
  intro faithful
  have back := (faithful.decoded (32768, 0, 0) (.head _)).1
  exact absurd back (by decide +kernel)

end Faithful

end PerfStats.Metrics
