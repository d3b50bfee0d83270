import PerfStats.Metrics.CopyWalks

namespace PerfStats.Metrics

open Lib

def DecodedRow.map {ι κ : Type*} (f : TextColumn → ι → κ) (row : DecodedRow ι) : DecodedRow κ :=
  { row with
    hostId := f .host row.hostId
    typeId := f .type row.typeId
    eventId := f .event row.eventId
    devId := f .dev row.devId }

section Table

variable {withOwned : Bool} {rows : List CopyRow} {stream : Bytes} {past : Nat → UInt8}

theorem signatureOk_encoded (past : Nat → UInt8)
    (encoded : encodeCopyBinary withOwned rows = some stream) :
    signatureOk (memory stream past) stream.length = true ∧
      headerEnd (memory stream past) = 19 ∧
      ∃ body, encodeRows withOwned rows = some body ∧ Ahead stream 19 body := by
  obtain ⟨flags, ext, body, isFlags, isExt, isBody, ahead⟩ := encodeCopyBinary_pieces encoded
  have atFlags : Ahead stream 11 (flags ++ (ext ++ body)) := ahead.behind
  have atExt : Ahead stream 15 (ext ++ body) := atFlags.packed isFlags
  have atBody : Ahead stream 19 body := atExt.packed isExt
  have signature : window (memory stream past) 0 11 = copySignature := ahead.window past
  have long : copyHeaderLen ≤ stream.length := atBody.inside
  refine ⟨?_, ?_, body, isBody, atBody⟩
  · simp only [signatureOk, long, signature, decide_true, Bool.and_self]
  · simp only [headerEnd, beI32, beInt_field atExt isExt]
    rfl

theorem copyCountRowsC_encoded (encoded : encodeCopyBinary withOwned rows = some stream) :
    copyCountRowsC (memory stream past) stream.length withOwned = .ok rows.length := by
  obtain ⟨signature, header, body, isBody, ahead⟩ := signatureOk_encoded past encoded
  have size := ahead.size
  have longer := encodeRows_length isBody
  rw [copyCountRowsC, if_pos signature, header,
    countLoop_rows stream.length 0 (by omega) isBody ahead, Nat.zero_add]

theorem copyDecodeC_encoded (past : Nat → UInt8)
    (encoded : encodeCopyBinary withOwned rows = some stream) (nameCap : Nat) :
    Ends (copyDecodeC (memory stream past) stream.length withOwned rows.length nameCap)
      (fun walk => ∃ names, KernelDone stream names (rows.map (CopyRow.seen withOwned)) walk)
      (CapBelow nameCap (4 * rows.length)) := by
  obtain ⟨signature, header, body, isBody, ahead⟩ := signatureOk_encoded past encoded
  have size := ahead.size
  have longer := encodeRows_length isBody
  have begun : KernelDone stream [] [] ⟨19, fun _ => Dict.empty, [], []⟩ :=
    ⟨⟨.nil, .none, nofun⟩, .nil⟩
  rw [copyDecodeC, if_pos signature, header]
  apply Ends.bind (kernelLoop_done stream.length (by omega) isBody begun (by simp) ahead)
  intro walk ⟨names, done⟩
  have all : ¬walk.rows.length ≠ rows.length := by
    have same := done.rows.length_eq
    rw [List.nil_append, List.length_map] at same
    omega
  simp only [all, if_false]
  exact ⟨names, done⟩

theorem growNames_encoded (past : Nat → UInt8)
    (encoded : encodeCopyBinary withOwned rows = some stream) (nameCap : Nat)
    (positive : 0 < nameCap) :
    ∃ walk names, growNames (memory stream past) stream.length withOwned rows.length nameCap
        positive = .ok walk ∧
      KernelDone stream names (rows.map (CopyRow.seen withOwned)) walk := by
  induction fuel : 4 * max rows.length 1 - nameCap using Nat.strong_induction_on
    generalizing nameCap with
  | _ fuel ih =>
    have attempt := copyDecodeC_encoded past encoded nameCap
    rw [growNames]
    cases run : copyDecodeC (memory stream past) stream.length withOwned rows.length nameCap with
    | ok walk =>
      rw [run] at attempt
      obtain ⟨names, done⟩ := attempt
      exact ⟨walk, names, rfl, done⟩
    | error code =>
      rw [run] at attempt
      obtain ⟨rfl, short⟩ := attempt
      have below : ¬4 * max rows.length 1 ≤ nameCap := by omega
      simp only [if_true, below, dif_neg, not_false_eq_true]
      exact ih _ (fuel ▸ grown_closer positive below) _ _ rfl

end Table

section Names

variable {buf : Bytes} {rows : List (DecodedRow Str)}

theorem decodeName_entries {entries : List NameEntry} {names : List (TextColumn × Str)}
    (stored : List.Forall₂ (EntryOf buf) entries names) :
    entries.mapM (decodeName buf) = .ok names := by
  induction stored with
  | nil => rfl
  | cons first later ih =>
    simp only [List.mapM_cons, ih, decodeName, first.2, decodeUtf8_utf8, first.1]
    rfl

variable {names : List (TextColumn × Str)}

theorem remapRow_coded (start : NameInterner) {row : DecodedRow Str} {indexed : DecodedRow Nat}
    (coded : Coded (Stored names) row indexed) :
    ∃ remapped, remapRow (nameInterner.internList start names).1 indexed = .ok remapped ∧
      Coded (Given (nameInterner.internAll start names)) row remapped := by
  obtain ⟨host, isHost, givenHost⟩ := nameInterner.internList_get (s := start) coded.host
  obtain ⟨type, isType, givenType⟩ := nameInterner.internList_get (s := start) coded.type
  obtain ⟨event, isEvent, givenEvent⟩ := nameInterner.internList_get (s := start) coded.event
  obtain ⟨dev, isDev, givenDev⟩ := nameInterner.internList_get (s := start) coded.dev
  refine ⟨{ indexed with hostId := host, typeId := type, eventId := event, devId := dev }, ?_,
    givenHost, givenType, givenEvent, givenDev, coded.others⟩
  simp only [remapRow, remap, isHost, isType, isEvent, isDev]
  rfl

theorem remapRows_coded (start : NameInterner)
    {indexed : List (DecodedRow Nat)}
    (coded : List.Forall₂ (Coded (Stored names)) rows indexed) :
    ∃ remapped, indexed.mapM (remapRow (nameInterner.internList start names).1) = .ok remapped ∧
      List.Forall₂ (Coded (Given (nameInterner.internAll start names))) rows remapped := by
  induction coded with
  | nil => exact ⟨[], rfl, .nil⟩
  | cons first later ih =>
    obtain ⟨head, isHead, headCoded⟩ := remapRow_coded start first
    obtain ⟨tail, isTail, tailCoded⟩ := ih
    refine ⟨head :: tail, ?_, .cons headCoded tailCoded⟩
    simp only [List.mapM_cons, isHead, isTail]
    rfl

variable {ni : NameInterner}

theorem coded_unique
    {left right : List (DecodedRow Int)} (one : List.Forall₂ (Coded (Given ni)) rows left)
    (two : List.Forall₂ (Coded (Given ni)) rows right) : left = right := by
  induction one generalizing right with
  | nil =>
    cases two
    rfl
  | cons first later ih =>
    cases two with
    | cons first' later' =>
      have head := first.unique first' fun key id other given given' =>
        Option.some.inj (given.symm.trans given')
      rw [head, ih later']

theorem nameOf_given {col : TextColumn} {name : Str} {id : Int}
    (given : Given ni (col, name) id) : ni.nameOf col id = some name := by
  have back := (ni.tables col).back given
  cases col with
  | host => exact back
  | type => exact back
  | event => exact back
  | dev => exact back

theorem named_coded
    {coded : List (DecodedRow Int)} (given : List.Forall₂ (Coded (Given ni)) rows coded) :
    coded.map (DecodedRow.map ni.nameOf) = rows.map (DecodedRow.map fun _ name => some name) := by
  induction given with
  | nil => rfl
  | cons first later ih =>
    obtain ⟨time, owned, value, arc, delta⟩ := first.others
    rw [List.map_cons, List.map_cons, ih]
    simp only [DecodedRow.map, nameOf_given first.host, nameOf_given first.type,
      nameOf_given first.event, nameOf_given first.dev, time, owned, value, arc, delta]

end Names

/-- Both decoders return one chunk and one interner, and the ids of the chunk lead back to the
rows. -/
theorem decodeCopyBinary_agree {withOwned : Bool} {rows : List CopyRow} {stream : Bytes}
    (encoded : encodeCopyBinary withOwned rows = some stream) (interner : NameInterner)
    (past : Nat → UInt8) :
    ∃ decoded ending,
      decodeCopyBinaryReference stream interner withOwned = .ok (decoded, ending) ∧
      decodeCopyBinaryCodon stream past interner withOwned = .ok (decoded, ending) ∧
      decoded.map (DecodedRow.map ending.nameOf) =
        rows.map fun row => (row.seen withOwned).map fun _ name => some name := by
  obtain ⟨decoded, ending, reference, isEnding, coded⟩ :=
    decodeCopyBinaryReference_encoded interner encoded
  obtain ⟨walk, names, grown, done⟩ :=
    growNames_encoded past encoded firstNameCap firstNameCap_pos
  have same : nameInterner.internAll interner names = ending := by
    rw [nameInterner.internAll_thinned done.knows.thinned, isEnding]
  obtain ⟨remapped, remaps, recoded⟩ := remapRows_coded interner done.rows
  rw [same] at recoded
  have state := nameInterner.internList_state interner names
  have kernel : copyDecode stream past withOwned = .ok (walk.rows, names) := by
    have counted : (copyCountRowsC (memory stream past) stream.length withOwned).mapError
        DecodeError.kernel = .ok rows.length := by
      rw [copyCountRowsC_encoded encoded]
      rfl
    rw [copyDecode, bind_of_eq counted, bind_of_eq grown,
      bind_of_eq (decodeName_entries done.knows.entries)]
    rfl
  refine ⟨decoded, ending, reference, ?_, ?_⟩
  · simp only [decodeCopyBinaryCodon, kernel, bind, Except.bind, pure, Except.pure,
      remaps, state, same, coded_unique recoded coded]
  · rw [named_coded coded, List.map_map]
    rfl

section Sample

def sampleCopyRows : List CopyRow :=
  [⟨1700000000000000, some (lit "c1"), some (lit "cpu"), some (lit "user"), none, some 0x3fc00000,
      none, some 0x7fc00001, some (some 5), by decide⟩,
    ⟨-1, some (lit "é"), none, some [], some (lit "j:42"), none, some 0, some 1, some none,
      by decide⟩]

theorem sampleCopyRows_encode : (encodeCopyBinary true sampleCopyRows).isSome = true := by
  decide +kernel

def sampleStream : Bytes := (encodeCopyBinary true sampleCopyRows).get sampleCopyRows_encode

theorem decodeCopyBinary_agree_sample : ∃ decoded ending,
    decodeCopyBinaryReference sampleStream .fresh true = .ok (decoded, ending) ∧
    decodeCopyBinaryCodon sampleStream (fun _ => 7) .fresh true = .ok (decoded, ending) ∧
    decoded.map (DecodedRow.map ending.nameOf) =
      sampleCopyRows.map fun row => (row.seen true).map fun _ name => some name :=
  decodeCopyBinary_agree (Option.some_get sampleCopyRows_encode).symm .fresh fun _ => 7

end Sample

end PerfStats.Metrics
