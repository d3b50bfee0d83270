import PerfStats.Lib.Failing
import PerfStats.Metrics.CopyStream

namespace PerfStats.Metrics

open Lib

theorem decodeUtf8_utf8 (text : Str) : decodeUtf8 (utf8 text) = some text := by
  have same : (⟨(utf8 text).toArray⟩ : ByteArray) = text.utf8Encode := by
    apply ByteArray.ext
    exact List.data_toByteArray.symm
  rw [decodeUtf8, same, List.utf8Decode?_utf8Encode]
  simp

theorem utf8_injective {text other : Str} (same : utf8 text = utf8 other) : text = other := by
  have decoded := congrArg decodeUtf8 same
  rw [decodeUtf8_utf8, decodeUtf8_utf8] at decoded
  exact Option.some.inj decoded

section Pieces

variable {field : Bytes}

theorem packTime_pieces {time : Int} (packed : packTime time = some field) :
    ∃ size payload, pack 4 8 = some size ∧ pack 8 (time - pgEpochOffsetUs) = some payload ∧
      field = size ++ payload := by
  simp only [packTime, bind, Option.bind_eq_some_iff, pure, Option.some.injEq] at packed
  obtain ⟨size, first, payload, second, rfl⟩ := packed
  exact ⟨size, payload, first, second, rfl⟩

theorem packText_pieces {text : Option Str} (packed : packText text = some field) :
    ∃ size ln, pack 4 ln = some size ∧ ln.toNat = (utf8 (text.getD [])).length ∧
      (ln < 0 → utf8 (text.getD []) = []) ∧ field = size ++ utf8 (text.getD []) := by
  cases text with
  | none => exact ⟨field, -1, packed, rfl, fun _ => rfl, (List.append_nil field).symm⟩
  | some text =>
    simp only [packText, bind, Option.bind_eq_some_iff, pure, Option.some.injEq] at packed
    obtain ⟨size, first, rfl⟩ := packed
    exact ⟨size, _, first, Int.toNat_natCast _, (fun negative => by omega), rfl⟩

theorem packReal_pieces {number : Option (BitVec 32)}
    (packed : packReal number = some field) :
    (number = none ∧ pack 4 (-1) = some field) ∨
      ∃ bits size, number = some bits ∧ pack 4 4 = some size ∧
        field = size ++ bigEndian 4 bits.toNat := by
  cases number with
  | none => exact .inl ⟨rfl, packed⟩
  | some bits =>
    simp only [packReal, bind, Option.bind_eq_some_iff, pure, Option.some.injEq] at packed
    obtain ⟨size, first, rfl⟩ := packed
    exact .inr ⟨bits, size, rfl, first, rfl⟩

end Pieces

section Decoded

def ownedFlag (withOwned : Bool) (owned : Option (Option Int)) : Bool :=
  if withOwned then (owned.getD (some 1)).any fun own => decide (own ≠ 0) else true

def CopyRow.seen (withOwned : Bool) (row : CopyRow) : DecodedRow Str where
  timeUs := row.time
  hostId := row.host.getD []
  typeId := row.type.getD []
  eventId := row.event.getD []
  devId := row.dev.getD []
  owned := ownedFlag withOwned row.owned
  value := row.value.bind real
  arc := row.arc.bind real
  delta := row.delta.bind real

variable {buf field rest : Bytes} {off : Nat} {number : Option (BitVec 32)}

theorem readInt_field {width : Nat} {v : Int} (ahead : Ahead buf off (field ++ rest))
    (packed : pack width v = some field) : readInt width buf off = .ok v := by
  rw [readInt, ahead.unpackFrom packed]
  rfl

theorem beInt_field {width : Nat} {v : Int} (ahead : Ahead buf off (field ++ rest))
    (packed : pack width v = some field) (past : Nat → UInt8) :
    beInt width (memory buf past) off = v := by
  have read := ahead.window past
  rw [pack_length packed] at read
  rw [beInt, read, signed_pack packed]

theorem real_bits (bits : BitVec 32) :
    real (BitVec.ofNat 32 (ofBigEndian (bigEndian 4 bits.toNat))) = real bits := by
  rw [ofBigEndian_bigEndian bits.isLt, BitVec.ofNat_toNat, BitVec.setWidth_eq]

theorem refTime_field {time : Int} (packed : packTime time = some field)
    (ahead : Ahead buf off (field ++ rest)) :
    refTime buf off = .ok (time, off + field.length) := by
  obtain ⟨size, payload, first, second, rfl⟩ := packTime_pieces packed
  rw [List.append_assoc] at ahead
  have behind := ahead.packed first
  have total : off + (size ++ payload).length = off + 4 + 8 := by
    rw [List.length_append, pack_length first, pack_length second]
  simp only [refTime, readInt_field ahead first, readInt_field behind second, bind, Except.bind,
    pure, Except.pure, total, ne_eq, not_true_eq_false, if_false, Int.sub_add_cancel]

theorem kernelTime_field {time : Int} (packed : packTime time = some field)
    (ahead : Ahead buf off (field ++ rest)) (fits : fitsI64 time = true) (past : Nat → UInt8) :
    kernelTime (memory buf past) off = .ok (time, off + field.length) := by
  obtain ⟨size, payload, first, second, rfl⟩ := packTime_pieces packed
  rw [List.append_assoc] at ahead
  have behind := ahead.packed first
  have total : off + (size ++ payload).length = off + 4 + 8 := by
    rw [List.length_append, pack_length first, pack_length second]
  have bounds : -2 ^ 63 ≤ time ∧ time < 2 ^ 63 := by simpa [fitsI64] using fits
  have kept : time.bmod (2 ^ 64) = time := Int.bmod_eq_of_le (by omega) (by omega)
  simp only [kernelTime, beI32, beI64, beInt_field ahead first, beInt_field behind second, total,
    ne_eq, not_true_eq_false, if_false, Int.sub_add_cancel, kept]

theorem text_field {text : Option Str} (packed : packText text = some field)
    (ahead : Ahead buf off (field ++ rest)) (past : Nat → UInt8) :
    ∃ ln : Int, readInt 4 buf off = .ok ln ∧ beI32 (memory buf past) off = ln ∧
      slice buf (off + 4) ln.toNat = utf8 (text.getD []) ∧
      window (memory buf past) (off + 4) ln.toNat = utf8 (text.getD []) ∧
      (ln < 0 → utf8 (text.getD []) = [] ∧ ln.toNat = 0) ∧
      off + 4 + ln.toNat = off + field.length := by
  obtain ⟨size, ln, first, length, null, rfl⟩ := packText_pieces packed
  rw [List.append_assoc] at ahead
  have behind := ahead.packed first
  refine ⟨ln, readInt_field ahead first, beInt_field ahead first past, ?_, ?_, ?_, ?_⟩
  · rw [length]
    exact behind.slice
  · rw [length]
    exact behind.window past
  · intro negative
    exact ⟨null negative, by omega⟩
  · rw [length, List.length_append, pack_length first]
    omega

theorem refReal_field (packed : packReal number = some field)
    (ahead : Ahead buf off (field ++ rest)) :
    refReal buf off = .ok (number.bind real, off + field.length) := by
  rcases packReal_pieces packed with ⟨rfl, null⟩ | ⟨bits, size, rfl, first, rfl⟩
  · rw [pack_length null]
    simp only [refReal, readInt_field ahead null, float4OrNan, bind, Except.bind, pure,
      Except.pure]
    rfl
  · rw [List.append_assoc] at ahead
    have behind := ahead.packed first
    have length := bigEndian_length 4 bits.toNat
    have payload := behind.slice
    have total := behind.size
    rw [length] at payload
    rw [List.length_append, length] at total
    have inside : off + 4 + 4 ≤ buf.length := by omega
    rw [List.length_append, pack_length first, length]
    simp only [refReal, readInt_field ahead first, float4OrNan, bind, Except.bind, pure,
      Except.pure, inside, if_true, payload, real_bits]
    rfl

theorem kernelReal_field (packed : packReal number = some field)
    (ahead : Ahead buf off (field ++ rest)) (past : Nat → UInt8) :
    kernelReal (memory buf past) buf.length off = .ok (number.bind real, off + field.length) := by
  rcases packReal_pieces packed with ⟨rfl, null⟩ | ⟨bits, size, rfl, first, rfl⟩
  · rw [pack_length null]
    simp only [kernelReal, beI32, beInt_field ahead null]
    rfl
  · rw [List.append_assoc] at ahead
    have behind := ahead.packed first
    have length := bigEndian_length 4 bits.toNat
    have payload := behind.window past
    have total := behind.size
    rw [length] at payload
    rw [List.length_append, length] at total
    have inside : ¬buf.length < off + 4 + 4 := by omega
    rw [List.length_append, pack_length first, length]
    simp only [kernelReal, beI32, beInt_field ahead first, if_true, inside, if_false, beF32,
      payload, real_bits]
    rfl

variable {owned : Option (Option Int)}

theorem packOwned_pieces (packed : packOwned true owned = some field) :
    (owned.getD (some 1) = none ∧ pack 4 (-1) = some field) ∨
      ∃ own size payload, owned.getD (some 1) = some own ∧ pack 4 4 = some size ∧
        pack 4 (if own = 0 then 0 else 1) = some payload ∧ field = size ++ payload := by
  rw [packOwned, if_pos rfl] at packed
  cases given : owned.getD (some 1) with
  | none =>
    rw [given] at packed
    exact .inl ⟨rfl, packed⟩
  | some own =>
    rw [given] at packed
    simp only [bind, Option.bind_eq_some_iff, pure, Option.some.injEq] at packed
    obtain ⟨size, first, payload, second, rfl⟩ := packed
    exact .inr ⟨own, size, payload, rfl, first, second, rfl⟩

theorem flag_bit (own : Int) :
    decide ((if own = 0 then (0 : Int) else 1) ≠ 0) = decide (own ≠ 0) := by
  by_cases zero : own = 0 <;> simp [zero]

theorem refOwned_field {withOwned : Bool}
    (packed : packOwned withOwned owned = some field) (ahead : Ahead buf off (field ++ rest)) :
    refOwned buf withOwned off = .ok (ownedFlag withOwned owned, off + field.length) := by
  cases withOwned with
  | false =>
    cases packed
    rfl
  | true =>
    rcases packOwned_pieces packed with
      ⟨given, null⟩ | ⟨own, size, payload, given, first, second, rfl⟩
    · rw [pack_length null]
      simp only [refOwned, ownedFlag, given, readInt_field ahead null, bind, Except.bind, pure,
        Except.pure]
      rfl
    · rw [List.append_assoc] at ahead
      have behind := ahead.packed first
      rw [List.length_append, pack_length first, pack_length second]
      simp only [refOwned, ownedFlag, given, readInt_field ahead first,
        readInt_field behind second, bind, Except.bind, pure, Except.pure, if_true, flag_bit,
        Option.any_some]

theorem kernelOwned_field {withOwned : Bool}
    (packed : packOwned withOwned owned = some field) (ahead : Ahead buf off (field ++ rest))
    (past : Nat → UInt8) :
    kernelOwned (memory buf past) buf.length withOwned off =
      .ok (ownedFlag withOwned owned, off + field.length) := by
  cases withOwned with
  | false =>
    cases packed
    rfl
  | true =>
    rcases packOwned_pieces packed with
      ⟨given, null⟩ | ⟨own, size, payload, given, first, second, rfl⟩
    · rw [pack_length null]
      simp only [kernelOwned, ownedFlag, given, beI32, beInt_field ahead null]
      rfl
    · rw [List.append_assoc] at ahead
      have behind := ahead.packed first
      have total := behind.size
      rw [List.length_append, pack_length second] at total
      have inside : ¬buf.length < off + 4 + 4 := by omega
      rw [List.length_append, pack_length first, pack_length second]
      simp only [kernelOwned, ownedFlag, given, beI32, beInt_field ahead first,
        beInt_field behind second, if_true, inside, if_false, flag_bit, Option.any_some]

end Decoded

end PerfStats.Metrics
