import PerfStats.Metrics.CopyFields

namespace PerfStats.Metrics

open Lib

section Coded

variable {ι : Type*}

def DecodedRow.keys (row : DecodedRow Str) : List (TextColumn × Str) :=
  [(.host, row.hostId), (.type, row.typeId), (.event, row.eventId), (.dev, row.devId)]

theorem keys_concat (done : List (DecodedRow Str)) (withOwned : Bool) (row : CopyRow) :
    (done ++ [row.seen withOwned]).flatMap DecodedRow.keys =
      done.flatMap DecodedRow.keys ++ [(.host, row.host.getD [])] ++ [(.type, row.type.getD [])] ++
        [(.event, row.event.getD [])] ++ [(.dev, row.dev.getD [])] := by
  simp [DecodedRow.keys, CopyRow.seen]

structure Coded (given : TextColumn × Str → ι → Prop) (row : DecodedRow Str)
    (coded : DecodedRow ι) : Prop where
  host : given (.host, row.hostId) coded.hostId
  type : given (.type, row.typeId) coded.typeId
  event : given (.event, row.eventId) coded.eventId
  dev : given (.dev, row.devId) coded.devId
  others : coded.timeUs = row.timeUs ∧ coded.owned = row.owned ∧ coded.value = row.value ∧
    coded.arc = row.arc ∧ coded.delta = row.delta

variable {given after : TextColumn × Str → ι → Prop} {row : DecodedRow Str}

theorem Coded.mono {coded : DecodedRow ι} (isCoded : Coded given row coded)
    (kept : ∀ key id, given key id → after key id) : Coded after row coded :=
  ⟨kept _ _ isCoded.host, kept _ _ isCoded.type, kept _ _ isCoded.event, kept _ _ isCoded.dev,
    isCoded.others⟩

theorem Coded.unique {left right : DecodedRow ι} (one : Coded given row left)
    (two : Coded given row right)
    (functional : ∀ key id other, given key id → given key other → id = other) : left = right := by
  obtain ⟨time, owned, value, arc, delta⟩ := one.others
  obtain ⟨time', owned', value', arc', delta'⟩ := two.others
  cases left
  cases right
  simp only [DecodedRow.mk.injEq]
  exact ⟨time.trans time'.symm, functional _ _ _ one.host two.host,
    functional _ _ _ one.type two.type, functional _ _ _ one.event two.event,
    functional _ _ _ one.dev two.dev, owned.trans owned'.symm, value.trans value'.symm,
    arc.trans arc'.symm, delta.trans delta'.symm⟩

end Coded

section Caches

variable {ι : Type*} {given after : TextColumn × Str → ι → Prop}
  {caches : TextColumn → Dict Bytes ι}

def Cached (given : TextColumn × Str → ι → Prop) (caches : TextColumn → Dict Bytes ι) : Prop :=
  ∀ col raw id, (caches col).get? raw = some id → ∃ name, raw = utf8 name ∧ given (col, name) id

theorem Cached.mono (cached : Cached given caches)
    (kept : ∀ key id, given key id → after key id) : Cached after caches := by
  intro col raw id found
  obtain ⟨name, same, earlier⟩ := cached col raw id found
  exact ⟨name, same, kept _ _ earlier⟩

theorem Cached.grow (cached : Cached given caches) {col : TextColumn} {name : Str} {id : ι}
    (assigned : given (col, name) id) :
    Cached given (Function.update caches col ((caches col).set (utf8 name) id)) := by
  intro other raw found here
  by_cases same : other = col
  · subst same
    rw [Function.update_self, Dict.get?_set] at here
    split at here
    · next raw_eq =>
        cases here
        exact ⟨name, raw_eq, assigned⟩
    · exact cached other raw found here
  · rw [Function.update_of_ne same] at here
    exact cached other raw found here

end Caches

section Pieces

structure RowPieces (withOwned : Bool) (row : CopyRow) where
  count : Bytes
  time : Bytes
  host : Bytes
  type : Bytes
  event : Bytes
  dev : Bytes
  value : Bytes
  arc : Bytes
  delta : Bytes
  owned : Bytes
  isCount : pack 2 (expectedFields withOwned) = some count
  isTime : packTime row.time = some time
  isHost : packText row.host = some host
  isType : packText row.type = some type
  isEvent : packText row.event = some event
  isDev : packText row.dev = some dev
  isValue : packReal row.value = some value
  isArc : packReal row.arc = some arc
  isDelta : packReal row.delta = some delta
  isOwned : packOwned withOwned row.owned = some owned

variable {withOwned : Bool} {row : CopyRow} {bytes : Bytes}

def RowPieces.fields (pieces : RowPieces withOwned row) : Bytes :=
  pieces.time ++ (pieces.host ++ (pieces.type ++ (pieces.event ++ (pieces.dev ++ (pieces.value ++
    (pieces.arc ++ (pieces.delta ++ pieces.owned)))))))

theorem encodeRow_pieces (encoded : encodeRow withOwned row = some bytes) :
    ∃ pieces : RowPieces withOwned row, bytes = pieces.count ++ pieces.fields := by
  simp only [encodeRow, bind, Option.bind_eq_some_iff, pure, Option.some.injEq] at encoded
  obtain ⟨count, isCount, time, isTime, host, isHost, type, isType, event, isEvent, dev, isDev,
    value, isValue, arc, isArc, delta, isDelta, owned, isOwned, rfl⟩ := encoded
  exact ⟨⟨count, time, host, type, event, dev, value, arc, delta, owned, isCount, isTime, isHost,
    isType, isEvent, isDev, isValue, isArc, isDelta, isOwned⟩, rfl⟩

theorem encodeRows_cons {rest : List CopyRow}
    (encoded : encodeRows withOwned (row :: rest) = some bytes) :
    ∃ (pieces : RowPieces withOwned row) (more : Bytes), encodeRows withOwned rest = some more ∧
      bytes = pieces.count ++ (pieces.fields ++ more) := by
  simp only [encodeRows, bind, Option.bind_eq_some_iff, pure, Option.some.injEq] at encoded
  obtain ⟨first, isFirst, more, isMore, rfl⟩ := encoded
  obtain ⟨pieces, rfl⟩ := encodeRow_pieces isFirst
  exact ⟨pieces, more, isMore, List.append_assoc _ _ _⟩

theorem encodeRows_length {rows : List CopyRow}
    (encoded : encodeRows withOwned rows = some bytes) : rows.length < bytes.length := by
  induction rows generalizing bytes with
  | nil =>
    rw [pack_length encoded]
    exact Nat.two_pos
  | cons row rest ih =>
    obtain ⟨pieces, more, isMore, rfl⟩ := encodeRows_cons encoded
    have shorter := ih isMore
    have two := pack_length pieces.isCount
    simp only [List.length_append, List.length_cons]
    omega

theorem encodeCopyBinary_pieces {rows : List CopyRow} {stream : Bytes}
    (encoded : encodeCopyBinary withOwned rows = some stream) :
    ∃ flags ext body, pack 4 0 = some flags ∧ pack 4 0 = some ext ∧
      encodeRows withOwned rows = some body ∧
      Ahead stream 0 (copySignature ++ (flags ++ (ext ++ body))) := by
  simp only [encodeCopyBinary, bind, Option.bind_eq_some_iff, pure, Option.some.injEq] at encoded
  obtain ⟨flags, isFlags, ext, isExt, body, isBody, rfl⟩ := encoded
  exact ⟨flags, ext, body, isFlags, isExt, isBody, Ahead.whole _⟩

theorem expectedFields_ne (withOwned : Bool) : expectedFields withOwned ≠ -1 := by
  cases withOwned <;> decide

end Pieces

section Reference

variable {start : NameInterner} {keys : List (TextColumn × Str)} {buf field rest : Bytes}
  {withOwned : Bool} {done : List (DecodedRow Str)}

def Given (ni : NameInterner) (key : TextColumn × Str) (id : Int) : Prop := ni.ident key = some id

structure RefKnows (start : NameInterner) (keys : List (TextColumn × Str)) (walk : RefWalk) :
    Prop where
  interner : walk.interner = nameInterner.internAll start keys
  caches : Cached (Given walk.interner) walk.caches

theorem firstCaches_cached (interner : NameInterner) : Cached (Given interner) firstCaches := by
  intro col raw id cached
  cases col with
  | dev =>
    rw [firstCaches, Dict.get?_set] at cached
    split at cached
    · next same =>
        cases cached
        exact ⟨[], same, interner.emptyDev⟩
    · cases cached
  | host => cases cached
  | type => cases cached
  | event => cases cached

structure RefRead (start : NameInterner) (keys : List (TextColumn × Str)) (buf rest : Bytes)
    (key : TextColumn × Str) (walk : RefWalk) (read : Int × RefWalk) : Prop where
  knows : RefKnows start (keys ++ [key]) read.2
  ahead : Ahead buf read.2.off rest
  rows : read.2.rows = walk.rows
  given : Given read.2.interner key read.1
  kept : ∀ other id, Given walk.interner other id → Given read.2.interner other id

variable {walk : RefWalk}

theorem refText_read (col : TextColumn) {text : Option Str}
    (knows : RefKnows start keys walk) (packed : packText text = some field)
    (ahead : Ahead buf walk.off (field ++ rest)) :
    Ends (refText buf col walk) (RefRead start keys buf rest (col, text.getD []) walk)
      fun _ => False := by
  obtain ⟨ln, read, -, payload, -, null, behind⟩ := text_field packed ahead fun _ => 0
  have raw : (if ln < 0 then [] else slice buf (walk.off + 4) ln.toNat) = utf8 (text.getD []) := by
    split
    · next negative => exact (null negative).1.symm
    · exact payload
  have off : (if ln < 0 then walk.off + 4 else walk.off + 4 + ln.toNat) =
      walk.off + field.length := by
    split
    · next negative => omega
    · exact behind
  simp only [refText, read, bind, Except.bind, raw, off]
  have next := nameInterner.internAll_concat start keys (col, text.getD [])
  rw [← knows.interner] at next
  cases cached : (walk.caches col).get? (utf8 (text.getD [])) with
  | some id =>
    obtain ⟨name, same, given⟩ := knows.caches col _ id cached
    rw [← utf8_injective same] at given
    have known : nameInterner.intern walk.interner (col, text.getD []) = (id, walk.interner) :=
      NameInterner.intern_known given
    rw [known] at next
    exact ⟨⟨next.symm, knows.caches⟩, ahead.behind, rfl, given, fun _ _ earlier => earlier⟩
  | none =>
    simp only [decodeUtf8_utf8, Option.elim_some]
    have assigned := nameInterner.assigned walk.interner (col, text.getD [])
    have kept : ∀ other id, Given walk.interner other id →
        Given (walk.interner.intern (col, text.getD [])).2 other id :=
      fun other id earlier => nameInterner.kept (col, text.getD []) earlier
    exact ⟨⟨next.symm, (knows.caches.mono kept).grow assigned⟩, ahead.behind, rfl, assigned, kept⟩

structure RefDone (start : NameInterner) (done : List (DecodedRow Str)) (walk : RefWalk) :
    Prop where
  knows : RefKnows start (done.flatMap DecodedRow.keys) walk
  rows : List.Forall₂ (Coded (Given walk.interner)) done walk.rows

theorem refTuple_done {row : CopyRow}
    (pieces : RowPieces withOwned row) (sofar : RefDone start done walk)
    (ahead : Ahead buf walk.off (pieces.fields ++ rest)) :
    Ends (refTuple buf withOwned walk)
      (fun after => RefDone start (done ++ [row.seen withOwned]) after ∧
        Ahead buf after.off rest) fun _ => False := by
  simp only [RowPieces.fields, List.append_assoc] at ahead
  apply Ends.bind (Ends.of_eq (refTime_field pieces.isTime ahead) _)
  intro _ rfl
  replace ahead := ahead.behind
  have begun : RefKnows start (done.flatMap DecodedRow.keys)
      { walk with off := walk.off + pieces.time.length } :=
    ⟨sofar.knows.interner, sofar.knows.caches⟩
  apply Ends.bind (refText_read .host begun pieces.isHost ahead)
  intro (host, walk₁) first
  apply Ends.bind (refText_read .type first.knows pieces.isType first.ahead)
  intro (type, walk₂) second
  apply Ends.bind (refText_read .event second.knows pieces.isEvent second.ahead)
  intro (event, walk₃) third
  apply Ends.bind (refText_read .dev third.knows pieces.isDev third.ahead)
  intro (dev, walk₄) fourth
  apply Ends.bind (Ends.of_eq (refReal_field pieces.isValue fourth.ahead) _)
  intro _ rfl
  apply Ends.bind (Ends.of_eq (refReal_field pieces.isArc fourth.ahead.behind) _)
  intro _ rfl
  apply Ends.bind (Ends.of_eq (refReal_field pieces.isDelta fourth.ahead.behind.behind) _)
  intro _ rfl
  have last : Ahead buf (walk₄.off + pieces.value.length + pieces.arc.length +
      pieces.delta.length) (pieces.owned ++ rest) := fourth.ahead.behind.behind.behind
  apply Ends.bind (Ends.of_eq (refOwned_field pieces.isOwned last) _)
  intro _ rfl
  have kept : ∀ key id, Given walk.interner key id → Given walk₄.interner key id :=
    fun _ _ earlier => fourth.kept _ _ (third.kept _ _ (second.kept _ _ (first.kept _ _ earlier)))
  have rows : walk₄.rows = walk.rows := by rw [fourth.rows, third.rows, second.rows, first.rows]
  refine ⟨⟨?_, ?_⟩, last.behind⟩
  · rw [keys_concat]
    exact ⟨fourth.knows.interner, fourth.knows.caches⟩
  · rw [rows]
    apply List.rel_append (sofar.rows.imp fun _ _ coded => coded.mono kept)
    exact .cons ⟨fourth.kept _ _ (third.kept _ _ (second.kept _ _ first.given)),
      fourth.kept _ _ (third.kept _ _ second.given), fourth.kept _ _ third.given, fourth.given,
      rfl, rfl, rfl, rfl, rfl⟩ .nil

theorem refLoop_done {rows : List CopyRow}
    {bytes : Bytes} (fuel : Nat) (enough : rows.length < fuel)
    (encoded : encodeRows withOwned rows = some bytes) (sofar : RefDone start done walk)
    (ahead : Ahead buf walk.off bytes) :
    Ends (refLoop buf withOwned fuel walk)
      (RefDone start (done ++ rows.map (CopyRow.seen withOwned))) fun _ => False := by
  induction rows generalizing done walk bytes fuel with
  | nil =>
    obtain ⟨fuel, rfl⟩ := Nat.exists_eq_add_of_lt enough
    have trailer : Ahead buf walk.off (bytes ++ []) := (List.append_nil bytes).symm ▸ ahead
    have size := ahead.size
    have two : bytes.length = 2 := pack_length encoded
    have inside : walk.off < buf.length := by omega
    simp only [refLoop, inside, if_true, readInt_field trailer encoded, bind, Except.bind,
      List.map_nil, List.append_nil]
    exact sofar
  | cons row rest ih =>
    obtain ⟨pieces, more, isMore, rfl⟩ := encodeRows_cons encoded
    obtain ⟨fuel, rfl⟩ := Nat.exists_eq_add_of_lt enough
    have size := ahead.size
    have two := pack_length pieces.isCount
    have inside : walk.off < buf.length := by
      rw [List.length_append] at size
      omega
    simp only [refLoop, inside, if_true, readInt_field ahead pieces.isCount, bind, Except.bind,
      expectedFields_ne, if_false, ne_eq, not_true_eq_false]
    have begun : RefDone start done { walk with off := walk.off + 2 } :=
      ⟨⟨sofar.knows.interner, sofar.knows.caches⟩, sofar.rows⟩
    apply Ends.bind (refTuple_done pieces begun (ahead.packed pieces.isCount))
    intro after ⟨grown, behind⟩
    have shorter : rest.length < (row :: rest).length + fuel := by
      rw [List.length_cons]
      omega
    rw [List.map_cons, List.append_cons]
    exact ih _ shorter isMore grown behind

theorem times_fit {ι : Type*} {given : TextColumn × Str → ι → Prop}
    (rows : List CopyRow) {decoded : List (DecodedRow ι)}
    (coded : List.Forall₂ (Coded given) (rows.map (CopyRow.seen withOwned)) decoded) :
    decoded.all (fun row => fitsI64 row.timeUs) = true := by
  induction rows generalizing decoded with
  | nil =>
    cases coded
    rfl
  | cons row rest ih =>
    cases coded with
    | cons first later =>
      rw [List.all_cons, ih later, first.others.1, Bool.and_true]
      exact row.timeFits

theorem decodeCopyBinaryReference_encoded (start : NameInterner)
    {rows : List CopyRow} {stream : Bytes}
    (encoded : encodeCopyBinary withOwned rows = some stream) :
    ∃ decoded ending, decodeCopyBinaryReference stream start withOwned = .ok (decoded, ending) ∧
      ending = nameInterner.internAll start
        ((rows.map (CopyRow.seen withOwned)).flatMap DecodedRow.keys) ∧
      List.Forall₂ (Coded (Given ending)) (rows.map (CopyRow.seen withOwned)) decoded := by
  obtain ⟨flags, ext, body, isFlags, isExt, isBody, ahead⟩ := encodeCopyBinary_pieces encoded
  have signature : copySignature <+: stream := ⟨_, ahead.here.symm⟩
  have atFlags : Ahead stream 11 (flags ++ (ext ++ body)) := ahead.behind
  have atExt := atFlags.packed isFlags
  have atBody := atExt.packed isExt
  have size := atBody.size
  have longer := encodeRows_length isBody
  have begun : RefDone start [] ⟨19, firstCaches, start, []⟩ :=
    ⟨⟨rfl, firstCaches_cached start⟩, .nil⟩
  obtain ⟨walk, run, done⟩ :=
    (refLoop_done stream.length (by omega) isBody begun atBody).value
  have fits : walk.rows.all (fun row => fitsI64 row.timeUs) = true :=
    times_fit rows done.rows
  refine ⟨walk.rows, walk.interner, ?_, done.knows.interner, done.rows⟩
  simp only [decodeCopyBinaryReference, signature, if_true, readInt_field atFlags isFlags,
    readInt_field atExt isExt, bind, Except.bind, Int.toNat_zero, Nat.add_zero, run, fits]
  rfl

end Reference

section Kernel

variable {names keys : List (TextColumn × Str)} {buf field rest : Bytes} {past : Nat → UInt8}
  {key : TextColumn × Str} {done : List (DecodedRow Str)}

def EntryOf (buf : Bytes) (entry : NameEntry) (key : TextColumn × Str) : Prop :=
  entry.col = key.1 ∧ slice buf entry.off entry.len = utf8 key.2

def Stored (names : List (TextColumn × Str)) (key : TextColumn × Str) (idx : Nat) : Prop :=
  names[idx]? = some key

theorem stored_append {idx : Nat} (more : List (TextColumn × Str))
    (stored : Stored names key idx) : Stored (names ++ more) key idx := by
  rw [Stored, List.getElem?_append_left (List.getElem?_eq_some_iff.mp stored).choose]
  exact stored

/-- The name table stands for `names`, which are `keys` with repeated ones left out. -/
structure KernelKnows (buf : Bytes) (names keys : List (TextColumn × Str)) (walk : KernelWalk) :
    Prop where
  entries : List.Forall₂ (EntryOf buf) walk.entries names
  thinned : Thinned names keys
  tables : Cached (Stored names) walk.tables

structure KernelRead (buf rest : Bytes) (names keys grown : List (TextColumn × Str))
    (key : TextColumn × Str) (walk : KernelWalk) (read : Nat × KernelWalk) : Prop where
  knows : KernelKnows buf grown (keys ++ [key]) read.2
  ahead : Ahead buf read.2.off rest
  rows : read.2.rows = walk.rows
  given : Stored grown key read.1
  kept : ∀ other idx, Stored names other idx → Stored grown other idx

theorem counted_concat {count : Nat} (counted : keys.length = count) :
    (keys ++ [key]).length = count + 1 := by
  rw [List.length_append, counted]
  rfl

def CapBelow (nameCap total : Nat) (code : Int) : Prop := code = errNameCap ∧ nameCap < total

variable {walk : KernelWalk} {nameCap : Nat}

theorem kernelText_read (col : TextColumn) {text : Option Str}
    {total count : Nat} (knows : KernelKnows buf names keys walk)
    (counted : keys.length = count) (below : count < total)
    (packed : packText text = some field) (ahead : Ahead buf walk.off (field ++ rest)) :
    Ends (kernelText (memory buf past) buf.length nameCap col walk)
      (fun read => ∃ grown, KernelRead buf rest names keys grown (col, text.getD []) walk read)
      (CapBelow nameCap total) := by
  obtain ⟨ln, -, read, payload, key, -, behind⟩ := text_field packed ahead past
  have size := ahead.behind.size
  have inside : ¬buf.length < walk.off + 4 + ln.toNat := by omega
  simp only [kernelText, read, inside, if_false, kernelIntern, key]
  cases cached : (walk.tables col).get? (utf8 (text.getD [])) with
  | some idx =>
    obtain ⟨name, same, stored⟩ := knows.tables col _ idx cached
    rw [← utf8_injective same] at stored
    refine ⟨names, ⟨knows.entries, ?_, knows.tables⟩, behind ▸ ahead.behind, rfl, stored,
      fun _ _ earlier => earlier⟩
    exact knows.thinned.again (List.mem_of_getElem? stored)
  | none =>
    have same := knows.entries.length_eq
    have shorter := knows.thinned.length_le
    by_cases full : nameCap ≤ walk.entries.length
    · simp only [full, if_true]
      exact ⟨rfl, by omega⟩
    · simp only [full, if_false]
      have stored : Stored (names ++ [(col, text.getD [])]) (col, text.getD [])
          walk.entries.length := by
        rw [Stored, same, List.getElem?_concat_length]
      have kept : ∀ other idx, Stored names other idx →
          Stored (names ++ [(col, text.getD [])]) other idx :=
        fun other idx earlier => stored_append _ earlier
      refine ⟨names ++ [(col, text.getD [])], ⟨?_, knows.thinned.fresh, ?_⟩,
        behind ▸ ahead.behind, rfl, stored, kept⟩
      · exact List.rel_append knows.entries (.cons ⟨rfl, payload⟩ .nil)
      · exact (knows.tables.mono kept).grow stored

structure KernelDone (buf : Bytes) (names : List (TextColumn × Str))
    (done : List (DecodedRow Str)) (walk : KernelWalk) : Prop where
  knows : KernelKnows buf names (done.flatMap DecodedRow.keys) walk
  rows : List.Forall₂ (Coded (Stored names)) done walk.rows

theorem keys_length (rows : List (DecodedRow Str)) :
    (rows.flatMap DecodedRow.keys).length = 4 * rows.length := by
  induction rows with
  | nil => rfl
  | cons row rest ih =>
    rw [List.flatMap_cons, List.length_append, ih, List.length_cons]
    simp only [DecodedRow.keys, List.length_cons, List.length_nil]
    omega

theorem kernelTuple_done {withOwned : Bool} {row : CopyRow}
    {total : Nat} (pieces : RowPieces withOwned row)
    (sofar : KernelDone buf names done walk) (below : 4 * done.length + 4 ≤ total)
    (ahead : Ahead buf walk.off (pieces.fields ++ rest)) :
    Ends (kernelTuple (memory buf past) buf.length withOwned nameCap walk)
      (fun after => ∃ grown, KernelDone buf grown (done ++ [row.seen withOwned]) after ∧
        Ahead buf after.off rest) (CapBelow nameCap total) := by
  have length := keys_length done
  simp only [RowPieces.fields, List.append_assoc] at ahead
  apply Ends.bind (Ends.of_eq (kernelTime_field pieces.isTime ahead row.timeFits past) _)
  intro _ rfl
  replace ahead := ahead.behind
  have begun : KernelKnows buf names (done.flatMap DecodedRow.keys)
      { walk with off := walk.off + pieces.time.length } :=
    ⟨sofar.knows.entries, sofar.knows.thinned, sofar.knows.tables⟩
  apply Ends.bind (kernelText_read .host begun length (by omega) pieces.isHost ahead)
  intro (host, walk₁) ⟨_, first⟩
  apply Ends.bind (kernelText_read .type first.knows (counted_concat length) (by omega)
    pieces.isType first.ahead)
  intro (type, walk₂) ⟨_, second⟩
  apply Ends.bind (kernelText_read .event second.knows
    (counted_concat (counted_concat length)) (by omega) pieces.isEvent second.ahead)
  intro (event, walk₃) ⟨_, third⟩
  apply Ends.bind (kernelText_read .dev third.knows
    (counted_concat (counted_concat (counted_concat length))) (by omega) pieces.isDev third.ahead)
  intro (dev, walk₄) ⟨grown, fourth⟩
  apply Ends.bind (Ends.of_eq (kernelReal_field pieces.isValue fourth.ahead past) _)
  intro _ rfl
  apply Ends.bind (Ends.of_eq (kernelReal_field pieces.isArc fourth.ahead.behind past) _)
  intro _ rfl
  apply Ends.bind (Ends.of_eq (kernelReal_field pieces.isDelta fourth.ahead.behind.behind past) _)
  intro _ rfl
  have last : Ahead buf (walk₄.off + pieces.value.length + pieces.arc.length +
      pieces.delta.length) (pieces.owned ++ rest) := fourth.ahead.behind.behind.behind
  apply Ends.bind (Ends.of_eq (kernelOwned_field pieces.isOwned last past) _)
  intro _ rfl
  have inside : ¬buf.length < walk₄.off + pieces.value.length + pieces.arc.length +
      pieces.delta.length + pieces.owned.length := Nat.not_lt.mpr last.behind.inside
  have kept : ∀ key idx, Stored names key idx → Stored grown key idx :=
    fun _ _ earlier => fourth.kept _ _ (third.kept _ _ (second.kept _ _ (first.kept _ _ earlier)))
  have rows : walk₄.rows = walk.rows := by rw [fourth.rows, third.rows, second.rows, first.rows]
  simp only [inside, if_false]
  refine ⟨grown, ⟨?_, ?_⟩, last.behind⟩
  · rw [keys_concat]
    exact ⟨fourth.knows.entries, fourth.knows.thinned, fourth.knows.tables⟩
  · rw [rows]
    apply List.rel_append (sofar.rows.imp fun _ _ coded => coded.mono kept)
    exact .cons ⟨fourth.kept _ _ (third.kept _ _ (second.kept _ _ first.given)),
      fourth.kept _ _ (third.kept _ _ second.given), fourth.kept _ _ third.given, fourth.given,
      rfl, rfl, rfl, rfl, rfl⟩ .nil

theorem kernelLoop_done {withOwned : Bool} {rows : List CopyRow}
    {bytes : Bytes} {nrows : Nat} (fuel : Nat)
    (enough : rows.length < fuel) (encoded : encodeRows withOwned rows = some bytes)
    (sofar : KernelDone buf names done walk) (room : done.length + rows.length ≤ nrows)
    (ahead : Ahead buf walk.off bytes) :
    Ends (kernelLoop (memory buf past) buf.length withOwned nrows nameCap fuel walk)
      (fun after => ∃ grown,
        KernelDone buf grown (done ++ rows.map (CopyRow.seen withOwned)) after)
      (CapBelow nameCap (4 * nrows)) := by
  induction rows generalizing done names walk bytes fuel with
  | nil =>
    obtain ⟨fuel, rfl⟩ := Nat.exists_eq_add_of_lt enough
    have trailer : Ahead buf walk.off (bytes ++ []) := (List.append_nil bytes).symm ▸ ahead
    have size := ahead.size
    have two : bytes.length = 2 := pack_length encoded
    have inside : walk.off + 2 ≤ buf.length := by omega
    simp only [kernelLoop, inside, if_true, beI16, beInt_field trailer encoded, List.map_nil,
      List.append_nil]
    exact ⟨names, sofar⟩
  | cons row rest ih =>
    obtain ⟨pieces, more, isMore, rfl⟩ := encodeRows_cons encoded
    obtain ⟨fuel, rfl⟩ := Nat.exists_eq_add_of_lt enough
    have size := ahead.size
    have two := pack_length pieces.isCount
    rw [List.length_cons] at room
    have inside : walk.off + 2 ≤ buf.length := by
      rw [List.length_append] at size
      omega
    have space : ¬nrows ≤ walk.rows.length := by
      have := sofar.rows.length_eq
      omega
    simp only [kernelLoop, inside, if_true, beI16, beInt_field ahead pieces.isCount,
      expectedFields_ne, if_false, ne_eq, not_true_eq_false, space]
    have begun : KernelDone buf names done { walk with off := walk.off + 2 } :=
      ⟨⟨sofar.knows.entries, sofar.knows.thinned, sofar.knows.tables⟩, sofar.rows⟩
    apply Ends.bind (kernelTuple_done pieces begun (by omega) (ahead.packed pieces.isCount))
    intro after ⟨_, grown, behind⟩
    have shorter : rest.length < (row :: rest).length + fuel := by
      rw [List.length_cons]
      omega
    rw [List.map_cons, List.append_cons]
    exact ih _ shorter isMore grown (by simp; omega) behind

end Kernel

section Counting

variable {buf rest : Bytes} {off : Nat} {past : Nat → UInt8} {field : Bytes}

def IsField (field : Bytes) : Prop :=
  ∃ ln size payload, pack 4 ln = some size ∧ ln.toNat = payload.length ∧ field = size ++ payload

theorem isField_time {time : Int} (packed : packTime time = some field) :
    IsField field := by
  obtain ⟨size, payload, first, second, rfl⟩ := packTime_pieces packed
  exact ⟨8, size, payload, first, (pack_length second).symm, rfl⟩

theorem isField_text {text : Option Str} (packed : packText text = some field) :
    IsField field := by
  obtain ⟨size, ln, first, length, -, rfl⟩ := packText_pieces packed
  exact ⟨ln, size, _, first, length, rfl⟩

theorem isField_null (null : pack 4 (-1) = some field) : IsField field :=
  ⟨-1, field, [], null, rfl, (List.append_nil field).symm⟩

theorem isField_real {number : Option (BitVec 32)}
    (packed : packReal number = some field) : IsField field := by
  rcases packReal_pieces packed with ⟨-, null⟩ | ⟨bits, size, -, first, rfl⟩
  · exact isField_null null
  · exact ⟨4, size, _, first, (bigEndian_length 4 _).symm, rfl⟩

theorem isField_owned {owned : Option (Option Int)}
    (packed : packOwned true owned = some field) : IsField field := by
  rcases packOwned_pieces packed with ⟨-, null⟩ | ⟨own, size, payload, -, first, second, rfl⟩
  · exact isField_null null
  · exact ⟨4, size, payload, first, (pack_length second).symm, rfl⟩

theorem skipFields_fields (past : Nat → UInt8) (fields : List Bytes)
    (each : ∀ field ∈ fields, IsField field)     (ahead : Ahead buf off (fields.flatten ++ rest)) :
    skipFields (memory buf past) buf.length fields.length off =
      .ok (off + fields.flatten.length) := by
  induction fields generalizing off with
  | nil => rfl
  | cons field more ih =>
    obtain ⟨ln, size, payload, packed, length, rfl⟩ := each _ (.head _)
    rw [List.flatten_cons, List.append_assoc] at ahead
    have behind := ahead.behind
    have wide := pack_length packed
    have inside : ¬buf.length < off + 4 := by
      have := behind.inside
      rw [List.length_append] at this
      omega
    have next : off + 4 + ln.toNat = off + (size ++ payload).length := by
      rw [length, List.length_append]
      omega
    have total : off + (size ++ payload).length + more.flatten.length =
        off + ((size ++ payload) :: more).flatten.length := by
      rw [List.flatten_cons, @List.length_append _ (size ++ payload)]
      omega
    rw [List.append_assoc] at ahead
    rw [List.length_cons, skipFields, if_neg inside, beI32, beInt_field ahead packed, next,
      ih (fun field member => each field (.tail _ member)) behind, total]

variable {withOwned : Bool} {row : CopyRow}

def RowPieces.list (pieces : RowPieces withOwned row) : List Bytes :=
  [pieces.time, pieces.host, pieces.type, pieces.event, pieces.dev, pieces.value, pieces.arc,
    pieces.delta] ++ if withOwned then [pieces.owned] else []

variable (pieces : RowPieces withOwned row)

theorem RowPieces.list_length : pieces.list.length = (expectedFields withOwned).toNat := by
  cases withOwned <;> rfl

theorem RowPieces.list_flatten : pieces.list.flatten = pieces.fields := by
  cases withOwned with
  | false =>
    have none : pieces.owned = [] := (Option.some.inj pieces.isOwned).symm
    simp [list, fields, none]
  | true => simp [list, fields]

theorem RowPieces.list_isField : ∀ field ∈ pieces.list, IsField field := by
  have first := isField_time pieces.isTime
  have host := isField_text pieces.isHost
  have type := isField_text pieces.isType
  have event := isField_text pieces.isEvent
  have dev := isField_text pieces.isDev
  have value := isField_real pieces.isValue
  have arc := isField_real pieces.isArc
  have delta := isField_real pieces.isDelta
  cases withOwned with
  | false => simp [list, first, host, type, event, dev, value, arc, delta]
  | true =>
    have owned := isField_owned pieces.isOwned
    simp [list, first, host, type, event, dev, value, arc, delta, owned]

theorem countLoop_rows {rows : List CopyRow} {bytes : Bytes} (fuel counted : Nat)
    (enough : rows.length < fuel) (encoded : encodeRows withOwned rows = some bytes)
    (ahead : Ahead buf off bytes) :
    countLoop (memory buf past) buf.length withOwned fuel off counted =
      .ok (counted + rows.length) := by
  induction rows generalizing off bytes fuel counted with
  | nil =>
    obtain ⟨fuel, rfl⟩ := Nat.exists_eq_add_of_lt enough
    have trailer : Ahead buf off (bytes ++ []) := (List.append_nil bytes).symm ▸ ahead
    have size := ahead.size
    have two : bytes.length = 2 := pack_length encoded
    have inside : off + 2 ≤ buf.length := by omega
    simp only [countLoop, inside, if_true, beI16, beInt_field trailer encoded, List.length_nil,
      Nat.add_zero]
  | cons row rest ih =>
    obtain ⟨pieces, more, isMore, rfl⟩ := encodeRows_cons encoded
    obtain ⟨fuel, rfl⟩ := Nat.exists_eq_add_of_lt enough
    have behind := ahead.packed pieces.isCount
    have inside : off + 2 ≤ buf.length := behind.inside
    have after := behind.behind
    have last : ¬buf.length < off + 2 + pieces.fields.length := Nat.not_lt.mpr after.inside
    rw [← pieces.list_flatten] at behind
    have skipped := skipFields_fields past _ pieces.list_isField behind
    rw [pieces.list_length, pieces.list_flatten] at skipped
    have shorter : rest.length < (row :: rest).length + fuel := by
      rw [List.length_cons]
      omega
    simp only [countLoop, inside, if_true, beI16, beInt_field ahead pieces.isCount,
      expectedFields_ne, if_false, ne_eq, not_true_eq_false, skipped, bind, Except.bind, last]
    rw [ih _ (counted + 1) shorter isMore after, List.length_cons, Nat.add_assoc,
      Nat.add_comm 1]

end Counting

end PerfStats.Metrics
