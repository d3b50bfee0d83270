import PerfStats.Metrics.CopyDecoders
import PerfStats.Metrics.JobFrame

namespace PerfStats.Metrics

open Lib

section Model

def exactReal : Option (BitVec 32) → Exact
  | none => .nan
  | some bits =>
    let sign : ℚ := if bits.msb then -1 else 1
    let exponent : Nat := bits.toNat / 2 ^ 23 % 2 ^ 8
    let fraction : Nat := bits.toNat % 2 ^ 23
    if exponent = 2 ^ 8 - 1 then
      if fraction ≠ 0 then .nan else if bits.msb then .negInf else .posInf
    else if exponent = 0 then .num (sign * fraction / 2 ^ 149)
    else .num (sign * (2 ^ 23 + fraction) * 2 ^ exponent / 2 ^ 150)

def internRow (ni : NameInterner) (row : DecodedRow Str) : DecodedRow Int × NameInterner :=
  let (host, ni) := ni.host row.hostId
  let (type, ni) := ni.type row.typeId
  let (event, ni) := ni.event row.eventId
  let (dev, ni) := ni.dev row.devId
  (⟨row.timeUs, host, type, event, dev, row.owned, row.value, row.arc, row.delta⟩, ni)

def internRows (ni : NameInterner) : List (DecodedRow Str) → List (DecodedRow Int) × NameInterner
  | [] => ([], ni)
  | row :: rest =>
    let (first, ni) := internRow ni row
    let (others, ni) := internRows ni rest
    (first :: others, ni)

def internChunks (ni : NameInterner) :
    List (List (DecodedRow Str)) → List (List (DecodedRow Int)) × NameInterner
  | [] => ([], ni)
  | chunk :: rest =>
    let (first, ni) := internRows ni chunk
    let (others, ni) := internChunks ni rest
    (first :: others, ni)

def concatChunks (chunks : List (List (DecodedRow Int))) : List (DecodedRow Int) :=
  match chunks.filter fun chunk => !chunk.isEmpty with
  | [] => []
  | [part] => part
  | parts => parts.flatten

/-- The columns and the tables of a `JobFrame`, before anything is known about them. -/
structure FrameData where
  rows : List FrameRow
  hosts : List String
  series : List (String × String)
  devs : List String
  deriving DecidableEq

def JobFrame.data (frame : JobFrame) : FrameData :=
  ⟨frame.rows, frame.hosts, frame.series, frame.devs⟩

def NameInterner.names (ni : NameInterner) (col : TextColumn) : List Str := (ni.tables col).names

/-- `n_events`. -/
def eventBase (ni : NameInterner) : Nat := max 1 (ni.names .event).length

/-- `pair_code` of one row: ids of types and of events count up from 0. -/
def pairCode (ni : NameInterner) (row : DecodedRow Int) : Nat :=
  row.typeId.toNat * eventBase ni + row.eventId.toNat

def presentCodes (ni : NameInterner) (rows : List (DecodedRow Int)) : List Nat :=
  (rows.map (pairCode ni)).dedup.insertionSort (· ≤ ·)

def pairOf (ni : NameInterner) (code : Nat) : Option (Str × Str) :=
  (ni.names .type)[code / eventBase ni]?.bind fun typ =>
    (ni.names .event)[code % eventBase ni]?.map fun event => (typ, event)

def indexIn (names : List Str) (name : Str) : Option Nat :=
  if name ∈ names then some (names.idxOf name) else none

def codeOf (ni : NameInterner) (pair : Str × Str) : Option Nat :=
  (indexIn (ni.names .type) pair.1).bind fun t =>
    (indexIn (ni.names .event) pair.2).map fun e => t * eventBase ni + e

def setSlot (slots : List Nat) (entry : Nat × Nat) : Option (List Nat) :=
  if entry.1 < slots.length then some (slots.set entry.1 entry.2) else none

/-- `lookup`: an array that holds `unset` where no series was put. -/
def lookupOf (unset : Nat → Nat) (present codes : List Nat) : Option (List Nat) :=
  (codes.zip (List.range codes.length)).foldlM setSlot
    ((List.range ((present.max?).getD 0 + 1)).map unset)

def frameRow (row : DecodedRow Int) (sid : Nat) : FrameRow where
  timeUs := row.timeUs
  hostId := row.hostId.toNat
  seriesId := sid
  devId := row.devId
  owned := row.owned
  value := exactReal row.value
  arc := exactReal row.arc
  delta := exactReal row.delta

def namedPair (pair : Str × Str) : String × String :=
  (String.ofList pair.1, String.ofList pair.2)

/-- Without a value where it raises an `IndexError` or a `ValueError`. -/
def buildJobFrame (unset : Nat → Nat) (ni : NameInterner) (rows : List (DecodedRow Int)) :
    Option FrameData :=
  let present := presentCodes ni rows
  (present.mapM (pairOf ni)).bind fun pairs =>
    let series := sortBy toLex pairs
    (series.mapM (codeOf ni)).bind fun codes =>
      (lookupOf unset present codes).bind fun lookup =>
        (rows.mapM fun row => lookup[pairCode ni row]?.map (frameRow row)).map fun framed =>
          { rows := sortBy FrameRow.order framed
            hosts := (ni.names .host).map String.ofList
            series := series.map namedPair
            devs := (ni.names .dev).map String.ofList }

def frameFromChunks (unset : Nat → Nat) (chunks : List (List (DecodedRow Str))) :
    Option FrameData :=
  let (decoded, ni) := internChunks .fresh chunks
  buildJobFrame unset ni (concatChunks decoded)

/-- `np.lexsort` by series, host, device and time. -/
def lexsort (rows : List FrameRow) : List Nat :=
  (sortBy (fun entry : FrameRow × Nat => entry.1.order) rows.zipIdx).map Prod.snd

/-- The dtypes and the lengths of the columns are those of the model. -/
def checkContract (data : FrameData) : Except String Unit :=
  if 1 < data.rows.length ∧ lexsort data.rows ≠ List.range data.rows.length then
    .error "rows are not sorted by (series, host, dev, time)"
  else if data.rows.any fun row => decide (data.series.length ≤ row.seriesId) then
    .error "series_id out of range"
  else if data.rows.any fun row => decide (data.hosts.length ≤ row.hostId) then
    .error "host_id out of range"
  else if data.rows.any fun row => decide (data.devs.length ≤ row.devId.natAbs) then
    .error "dev_id out of range"
  else .ok ()

end Model

section Interned

namespace NameInterner

def Settled (ni : NameInterner) : Prop := Tables.Settled ni.tables

theorem fresh_settled : fresh.Settled := by
  intro col
  cases col with
  | dev =>
    intro i name here
    cases i with
    | zero =>
      cases here
      rfl
    | succ i => cases here
  | host => exact NameTable.empty_settled
  | type => exact NameTable.empty_settled
  | event => exact NameTable.empty_settled

variable {ni : NameInterner} {col : TextColumn} {name : Str} {id : Int}

theorem internAll_settled (settled : ni.Settled) (keys : List (TextColumn × Str)) :
    (nameInterner.internAll ni keys).Settled := by
  induction keys generalizing ni with
  | nil => exact settled
  | cons key keys ih => exact ih (Tables.intern_settled settled key)

theorem mem_names_internAll (keys : List (TextColumn × Str)) :
    name ∈ (nameInterner.internAll ni keys).names col ↔
      (col, name) ∈ keys ∨ name ∈ ni.names col := by
  induction keys generalizing ni with
  | nil => exact ⟨.inr, fun either => either.resolve_left List.not_mem_nil⟩
  | cons key keys ih =>
    have first : name ∈ (ni.intern key).2.names col ↔ (col, name) = key ∨ name ∈ ni.names col :=
      Tables.mem_names_intern ni.tables key
    have rest := @ih (ni.intern key).2
    rw [List.mem_cons]
    exact rest.trans (by tauto)

theorem names_nodup (settled : ni.Settled) : (ni.names col).Nodup :=
  NameTable.names_nodup (settled col)

theorem name_of_known (given : ni.ident (col, name) = some id) :
    (ni.names col)[id.natAbs]? = some name :=
  nameOf_given given

theorem plain_of_known (settled : ni.Settled) (plain : col ≠ .dev)
    (given : ni.ident (col, name) = some id) : 0 ≤ id := by
  have code := NameTable.code_of_known (settled col) given
  cases col with
  | dev => exact absurd rfl plain
  | host => exact code ▸ Int.natCast_nonneg _
  | type => exact code ▸ Int.natCast_nonneg _
  | event => exact code ▸ Int.natCast_nonneg _

theorem dev_of_known (settled : ni.Settled) (given : ni.ident (.dev, name) = some id) :
    0 ≤ id ↔ ¬ jobDevPrefix <+: name := by
  have code : id = devCode name id.natAbs := NameTable.code_of_known (settled .dev) given
  have back := name_of_known given
  unfold devCode at code
  split at code
  · next copy =>
      refine iff_of_false ?_ (not_not.mpr copy)
      intro positive
      have zero : id.natAbs = 0 := by omega
      rw [zero] at back
      have empty : (ni.names .dev)[0]? = some [] := name_of_known ni.emptyDev
      rw [back] at empty
      rw [Option.some.inj empty] at copy
      exact absurd copy (by decide)
  · next hardware => exact iff_of_true (by omega) hardware

end NameInterner

def codeRow (ni : NameInterner) (row : DecodedRow Str) : DecodedRow Int :=
  row.map fun col name => (ni.ident (col, name)).getD 0

variable {ni : NameInterner} {row : DecodedRow Str}

theorem coded_eq {coded : DecodedRow Int} (is_coded : Coded (Given ni) row coded) :
    coded = codeRow ni row := by
  obtain ⟨time, owned, value, arc, delta⟩ := is_coded.others
  have host : ni.ident (.host, row.hostId) = _ := is_coded.host
  have type : ni.ident (.type, row.typeId) = _ := is_coded.type
  have event : ni.ident (.event, row.eventId) = _ := is_coded.event
  have dev : ni.ident (.dev, row.devId) = _ := is_coded.dev
  unfold codeRow DecodedRow.map
  dsimp only
  rw [host, type, event, dev, ← time, ← owned, ← value, ← arc, ← delta]
  rfl

theorem internRow_spec (ni : NameInterner) (row : DecodedRow Str) :
    (internRow ni row).2 = nameInterner.internAll ni row.keys ∧
      Coded (Given (internRow ni row).2) row (internRow ni row).1 := by
  refine ⟨rfl, ?_, ?_, ?_, ?_, rfl, rfl, rfl, rfl, rfl⟩
  · exact nameInterner.kept _ (nameInterner.kept _ (nameInterner.kept _
      (nameInterner.assigned ni (.host, row.hostId))))
  · exact nameInterner.kept _ (nameInterner.kept _ (nameInterner.assigned _ (.type, row.typeId)))
  · exact nameInterner.kept _ (nameInterner.assigned _ (.event, row.eventId))
  · exact nameInterner.assigned _ (.dev, row.devId)

theorem internRows_spec (ni : NameInterner) (rows : List (DecodedRow Str)) :
    (internRows ni rows).2 = nameInterner.internAll ni (rows.flatMap DecodedRow.keys) ∧
      List.Forall₂ (Coded (Given (internRows ni rows).2)) rows (internRows ni rows).1 := by
  induction rows generalizing ni with
  | nil => exact ⟨rfl, .nil⟩
  | cons row rest ih =>
    obtain ⟨state, coded⟩ := internRow_spec ni row
    obtain ⟨ending, others⟩ := ih (internRow ni row).2
    have after : (internRows ni (row :: rest)).2 = (internRows (internRow ni row).2 rest).2 := rfl
    refine ⟨?_, ?_⟩
    · rw [after, ending, state, List.flatMap_cons, nameInterner.internAll_append]
    · refine .cons (coded.mono ?_) others
      intro key id given
      rw [after]
      rw [ending]
      exact nameInterner.kept_all _ given

theorem internChunks_spec (ni : NameInterner) (chunks : List (List (DecodedRow Str))) :
    (internChunks ni chunks).2 =
        nameInterner.internAll ni (chunks.flatten.flatMap DecodedRow.keys) ∧
      List.Forall₂ (Coded (Given (internChunks ni chunks).2)) chunks.flatten
        (internChunks ni chunks).1.flatten := by
  induction chunks generalizing ni with
  | nil => exact ⟨rfl, .nil⟩
  | cons chunk rest ih =>
    obtain ⟨state, coded⟩ := internRows_spec ni chunk
    obtain ⟨ending, others⟩ := ih (internRows ni chunk).2
    have after : (internChunks ni (chunk :: rest)).2 =
      (internChunks (internRows ni chunk).2 rest).2 := rfl
    refine ⟨?_, ?_⟩
    · rw [after, ending, state, List.flatten_cons, List.flatMap_append,
        nameInterner.internAll_append]
    · refine List.rel_append (coded.imp ?_) others
      intro row code own
      refine own.mono ?_
      intro key id given
      rw [after]
      rw [ending]
      exact nameInterner.kept_all _ given

theorem concatChunks_eq (chunks : List (List (DecodedRow Int))) :
    concatChunks chunks = chunks.flatten := by
  have parts : (chunks.filter fun chunk => !chunk.isEmpty).flatten = chunks.flatten := by
    simp [List.flatten_filter_not_isEmpty]
  rw [← parts]
  unfold concatChunks
  generalize chunks.filter (fun chunk => !chunk.isEmpty) = kept
  split
  · rfl
  · exact (List.flatten_singleton).symm
  · rfl

theorem forall₂_coded {rows : List (DecodedRow Str)} {coded : List (DecodedRow Int)}
    (all : List.Forall₂ (Coded (Given ni)) rows coded) : coded = rows.map (codeRow ni) := by
  induction all with
  | nil => rfl
  | cons first later ih => rw [List.map_cons, ih, coded_eq first]

theorem internRows_unique (start : NameInterner) {rows : List (DecodedRow Str)}
    {decoded : List (DecodedRow Int)} (coded : List.Forall₂
      (Coded (Given (nameInterner.internAll start (rows.flatMap DecodedRow.keys)))) rows decoded) :
    (decoded, nameInterner.internAll start (rows.flatMap DecodedRow.keys)) =
      internRows start rows := by
  obtain ⟨state, interned⟩ := internRows_spec start rows
  rw [state] at interned
  exact Prod.ext (coded_unique coded interned) state.symm

variable {withOwned : Bool} {rows : List CopyRow} {stream : Bytes}

theorem reference_interns (start : NameInterner)
    (encoded : encodeCopyBinary withOwned rows = some stream) :
    decodeCopyBinaryReference stream start withOwned =
      .ok (internRows start (rows.map (CopyRow.seen withOwned))) := by
  obtain ⟨decoded, ending, run, rfl, coded⟩ := decodeCopyBinaryReference_encoded start encoded
  rw [run, internRows_unique start coded]

theorem codon_interns (start : NameInterner) (past : Nat → UInt8)
    (encoded : encodeCopyBinary withOwned rows = some stream) :
    decodeCopyBinaryCodon stream past start withOwned =
      .ok (internRows start (rows.map (CopyRow.seen withOwned))) := by
  obtain ⟨walk, names, grown, done⟩ :=
    growNames_encoded past encoded firstNameCap firstNameCap_pos
  have state := nameInterner.internList_state start names
  obtain ⟨remapped, remaps, coded⟩ := remapRows_coded start done.rows
  rw [nameInterner.internAll_thinned done.knows.thinned] at state coded
  have counted : (copyCountRowsC (memory stream past) stream.length withOwned).mapError
      DecodeError.kernel = .ok rows.length := by
    rw [copyCountRowsC_encoded encoded]
    rfl
  rw [← internRows_unique start coded, decodeCopyBinaryCodon, copyDecode, bind_of_eq counted,
    bind_of_eq grown, bind_of_eq (decodeName_entries done.knows.entries)]
  simp only [bind, Except.bind, pure, Except.pure, remaps, state]

end Interned

section Slots

theorem foldlM_setSlot {entries : List (Nat × Nat)} {slots : List Nat}
    (inside : ∀ entry ∈ entries, entry.1 < slots.length)
    (distinct : (entries.map Prod.fst).Nodup) :
    ∃ made, entries.foldlM setSlot slots = some made ∧
      (∀ i, i ∉ entries.map Prod.fst → made[i]? = slots[i]?) ∧
      ∀ entry ∈ entries, made[entry.1]? = some entry.2 := by
  induction entries generalizing slots with
  | nil => exact ⟨slots, rfl, fun _ _ => rfl, fun entry member => absurd member List.not_mem_nil⟩
  | cons first rest ih =>
    obtain ⟨fresh, later⟩ := List.nodup_cons.mp distinct
    have fits := inside first (.head _)
    have put : setSlot slots first = some (slots.set first.1 first.2) := if_pos fits
    obtain ⟨made, run, kept, own⟩ := @ih (slots.set first.1 first.2) (by
      intro entry member
      rw [List.length_set]
      exact inside entry (.tail first member)) later
    refine ⟨made, ?_, ?_, ?_⟩
    · rw [List.foldlM_cons, put]
      exact run
    · intro i absent
      rw [List.map_cons, List.mem_cons, not_or] at absent
      rw [kept i absent.2, List.getElem?_set_ne (Ne.symm absent.1)]
    · intro entry member
      obtain rfl | after := List.mem_cons.mp member
      · rw [kept _ fresh, List.getElem?_set_self fits]
      · exact own entry after

theorem lookupOf_spec (unset : Nat → Nat) {present codes : List Nat} (distinct : codes.Nodup)
    (inside : ∀ code ∈ codes, code ∈ present) :
    ∃ lookup : List Nat, lookupOf unset present codes = some lookup ∧
      ∀ i code : Nat, codes[i]? = some code → lookup[code]? = some i := by
  have keys : (codes.zip (List.range codes.length)).map Prod.fst = codes :=
    List.map_fst_zip (by rw [List.length_range])
  obtain ⟨lookup, made, _, own⟩ := @foldlM_setSlot (codes.zip (List.range codes.length))
    ((List.range ((present.max?).getD 0 + 1)).map unset) (by
      intro entry member
      have here : entry.1 ∈ codes := by
        rw [← keys]
        exact List.mem_map_of_mem member
      rw [List.length_map, List.length_range]
      exact Nat.lt_succ_of_le (List.le_max?_getD_of_mem (inside _ here))) (by rwa [keys])
  refine ⟨lookup, made, ?_⟩
  intro i code here
  have short := (List.getElem?_eq_some_iff.mp here).1
  refine own (code, i) (List.mem_of_getElem? (i := i) ?_)
  rw [List.getElem?_zip_eq_some]
  exact ⟨here, List.getElem?_range short⟩

theorem mapM_all {α β : Type*} {f : α → Option β} {g : α → β} {l : List α}
    (all : ∀ a ∈ l, f a = some (g a)) : l.mapM f = some (l.map g) := by
  rw [mapM_eq_some_iff, List.map_map]
  exact List.map_congr_left all

end Slots

section Codes

variable {ni : NameInterner} {row : DecodedRow Str} {rows : List (DecodedRow Str)}

def DecodedRow.pair (row : DecodedRow Str) : Str × Str := (row.typeId, row.eventId)

def KnownRow (ni : NameInterner) (row : DecodedRow Str) : Prop :=
  ∀ key ∈ row.keys, ∃ id, ni.ident key = some id

theorem plain_place (settled : ni.Settled) {col : TextColumn} (plain : col ≠ .dev) {name : Str}
    (known : ∃ id, ni.ident (col, name) = some id) :
    (ni.names col)[((ni.ident (col, name)).getD 0).toNat]? = some name := by
  obtain ⟨id, given⟩ := known
  have positive := ni.plain_of_known settled plain given
  have back := ni.name_of_known given
  rw [given, Option.getD_some, show id.toNat = id.natAbs by omega]
  exact back

theorem indexIn_at {names : List Str} (distinct : names.Nodup) {n : Nat} {name : Str}
    (here : names[n]? = some name) : indexIn names name = some n := by
  obtain ⟨inside, same⟩ := List.getElem?_eq_some_iff.mp here
  unfold indexIn
  rw [if_pos (List.mem_of_getElem? here), ← same, distinct.idxOf_getElem n inside]

variable (settled : ni.Settled) (known : KnownRow ni row)

include settled known

theorem type_place : (ni.names .type)[(codeRow ni row).typeId.toNat]? = some row.typeId :=
  plain_place settled (TextColumn.noConfusion ·) (known _ (by simp [DecodedRow.keys]))

theorem event_place : (ni.names .event)[(codeRow ni row).eventId.toNat]? = some row.eventId :=
  plain_place settled (TextColumn.noConfusion ·) (known _ (by simp [DecodedRow.keys]))

theorem host_place : (ni.names .host)[(codeRow ni row).hostId.toNat]? = some row.hostId :=
  plain_place settled (TextColumn.noConfusion ·) (known _ (by simp [DecodedRow.keys]))

theorem dev_place : (ni.names .dev)[(codeRow ni row).devId.natAbs]? = some row.devId ∧
    (0 ≤ (codeRow ni row).devId ↔ ¬ jobDevPrefix <+: row.devId) := by
  obtain ⟨id, given⟩ := known (.dev, row.devId) (by simp [DecodedRow.keys])
  have is_id : (codeRow ni row).devId = id := by
    unfold codeRow DecodedRow.map
    dsimp only
    rw [given, Option.getD_some]
  rw [is_id]
  exact ⟨ni.name_of_known given, ni.dev_of_known settled given⟩

theorem pairOf_code : pairOf ni (pairCode ni (codeRow ni row)) = some row.pair := by
  have typ := type_place settled known
  have event := event_place settled known
  have below : (codeRow ni row).eventId.toNat < eventBase ni :=
    Nat.lt_of_lt_of_le (List.getElem?_eq_some_iff.mp event).1 (Nat.le_max_right _ _)
  have quotient : pairCode ni (codeRow ni row) / eventBase ni = (codeRow ni row).typeId.toNat := by
    unfold pairCode
    rw [Nat.mul_comm, Nat.mul_add_div (Nat.zero_lt_of_lt below), Nat.div_eq_of_lt below,
      Nat.add_zero]
  have remainder : pairCode ni (codeRow ni row) % eventBase ni =
      (codeRow ni row).eventId.toNat := by
    unfold pairCode
    rw [Nat.mul_comm, Nat.mul_add_mod, Nat.mod_eq_of_lt below]
  unfold pairOf
  rw [quotient, remainder, typ, event]
  rfl

theorem codeOf_pair : codeOf ni row.pair = some (pairCode ni (codeRow ni row)) := by
  unfold codeOf DecodedRow.pair
  rw [indexIn_at (ni.names_nodup settled) (type_place settled known),
    indexIn_at (ni.names_nodup settled) (event_place settled known)]
  rfl

end Codes

section Built

variable {ni : NameInterner} {rows : List (DecodedRow Str)}

def seriesOf (rows : List (DecodedRow Str)) : List (Str × Str) :=
  sortBy toLex (rows.map DecodedRow.pair).dedup

theorem mem_seriesOf {pair : Str × Str} :
    pair ∈ seriesOf rows ↔ ∃ row ∈ rows, row.pair = pair := by
  unfold seriesOf
  rw [(sortBy_perm _ _).mem_iff, List.mem_dedup, List.mem_map]

theorem seriesOf_nodup (rows : List (DecodedRow Str)) : (seriesOf rows).Nodup :=
  (sortBy_perm _ _).nodup_iff.mpr (List.nodup_dedup _)

theorem sortBy_eq_of_perm {α κ : Type*} [LinearOrder κ] {key : α → κ}
    (apart : Function.Injective key) {l l' : List α} (perm : l.Perm l') :
    sortBy key l = sortBy key l' := by
  have both := (sortBy_perm key l).trans (perm.trans (sortBy_perm key l').symm)
  refine both.eq_of_pairwise ?_ (sortBy_pairwise key l) (sortBy_pairwise key l')
  intro a b _ _ le ge
  exact apart (le_antisymm le ge)

theorem seriesOf_perm {rows' : List (DecodedRow Str)} (perm : rows.Perm rows') :
    seriesOf rows = seriesOf rows' :=
  sortBy_eq_of_perm toLex.injective ((perm.map DecodedRow.pair).dedup)

theorem namedPair_injective : Function.Injective namedPair := by
  intro pair other same
  obtain ⟨types, events⟩ := Prod.mk.inj same
  exact Prod.ext (String.ofList_injective types) (String.ofList_injective events)

structure Placed (rows : List (DecodedRow Str)) (data : FrameData)
    (place : DecodedRow Str → FrameRow) : Prop where
  perm : data.rows.Perm (rows.map place)
  sorted : data.rows.Pairwise fun a b => a.order ≤ b.order
  series : data.series = (seriesOf rows).map namedPair
  hostsOnce : data.hosts.Nodup
  devsOnce : data.devs.Nodup
  hosts : ∀ name, name ∈ data.hosts ↔ ∃ row ∈ rows, String.ofList row.hostId = name
  devs : ∀ name, name ∈ data.devs ↔ name = "" ∨ ∃ row ∈ rows, String.ofList row.devId = name
  firstDev : data.devs[0]? = some ""
  hostAt : ∀ row ∈ rows, data.hosts[(place row).hostId]? = some (String.ofList row.hostId)
  seriesAt : ∀ row ∈ rows, (seriesOf rows)[(place row).seriesId]? = some row.pair
  devAt : ∀ row ∈ rows, data.devs[(place row).devId.natAbs]? = some (String.ofList row.devId)
  hardware : ∀ row ∈ rows, 0 ≤ (place row).devId ↔ ¬ jobDevPrefix <+: row.devId
  others : ∀ row, (place row).timeUs = row.timeUs ∧ (place row).owned = row.owned ∧
    (place row).value = exactReal row.value ∧ (place row).arc = exactReal row.arc ∧
    (place row).delta = exactReal row.delta

theorem mem_presentCodes {coded : List (DecodedRow Int)} {code : Nat} :
    code ∈ presentCodes ni coded ↔ ∃ row ∈ coded, pairCode ni row = code := by
  unfold presentCodes
  rw [List.mem_insertionSort, List.mem_dedup, List.mem_map]

theorem presentCodes_nodup (coded : List (DecodedRow Int)) : (presentCodes ni coded).Nodup :=
  (List.perm_insertionSort _ _).nodup_iff.mpr (List.nodup_dedup _)

theorem pairs_of_present (settled : ni.Settled) (known : ∀ row ∈ rows, KnownRow ni row) :
    ∃ pairs, (presentCodes ni (rows.map (codeRow ni))).mapM (pairOf ni) = some pairs ∧
      sortBy toLex pairs = seriesOf rows := by
  have named : ∀ code ∈ presentCodes ni (rows.map (codeRow ni)),
      ∃ row ∈ rows, pairCode ni (codeRow ni row) = code ∧ pairOf ni code = some row.pair := by
    intro code member
    obtain ⟨coded, inside, same⟩ := mem_presentCodes.mp member
    obtain ⟨row, of_row, rfl⟩ := List.mem_map.mp inside
    exact ⟨row, of_row, same, same ▸ pairOf_code settled (known row of_row)⟩
  refine ⟨_, @mapM_all _ _ _ (fun code => (pairOf ni code).getD ([], [])) _ ?_, ?_⟩
  · intro code member
    obtain ⟨row, _, _, pair⟩ := named code member
    rw [pair, Option.getD_some]
  · apply sortBy_eq_of_perm toLex.injective
    rw [List.perm_ext_iff_of_nodup _ (List.nodup_dedup _)]
    · intro pair
      rw [List.mem_dedup, List.mem_map, List.mem_map]
      constructor
      · intro found
        obtain ⟨code, member, same⟩ := found
        obtain ⟨row, of_row, _, own⟩ := named code member
        rw [own, Option.getD_some] at same
        exact ⟨row, of_row, same⟩
      · intro found
        obtain ⟨row, of_row, same⟩ := found
        refine ⟨pairCode ni (codeRow ni row), mem_presentCodes.mpr
          ⟨_, List.mem_map_of_mem of_row, rfl⟩, ?_⟩
        rw [pairOf_code settled (known row of_row), Option.getD_some, same]
    · refine (presentCodes_nodup _).map_on ?_
      intro code member code' member' same
      obtain ⟨row, of_row, is_code, own⟩ := named code member
      obtain ⟨row', of_row', is_code', own'⟩ := named code' member'
      rw [own, own', Option.getD_some, Option.getD_some] at same
      have codes := codeOf_pair settled (known row of_row)
      rw [same, codeOf_pair settled (known row' of_row'), is_code, is_code'] at codes
      exact (Option.some.inj codes).symm

def builtData (ni : NameInterner) (rows : List (DecodedRow Str)) (sid : DecodedRow Str → Nat) :
    FrameData where
  rows := sortBy FrameRow.order (rows.map fun row => frameRow (codeRow ni row) (sid row))
  hosts := (ni.names .host).map String.ofList
  series := (seriesOf rows).map namedPair
  devs := (ni.names .dev).map String.ofList

/-- A settled interner that has the names of rows makes data of them, with the series of each row
where it is in the order of names. -/
theorem buildJobFrame_eq (unset : Nat → Nat) (settled : ni.Settled)
    (known : ∀ row ∈ rows, KnownRow ni row) :
    ∃ sid : DecodedRow Str → Nat,
      buildJobFrame unset ni (rows.map (codeRow ni)) = some (builtData ni rows sid) ∧
      ∀ row ∈ rows, (seriesOf rows)[sid row]? = some row.pair := by
  obtain ⟨pairs, of_codes, sorted⟩ := pairs_of_present settled known
  have coded : ∀ pair ∈ seriesOf rows, ∃ row ∈ rows, row.pair = pair ∧
      codeOf ni pair = some (pairCode ni (codeRow ni row)) := by
    intro pair member
    obtain ⟨row, of_row, rfl⟩ := mem_seriesOf.mp member
    exact ⟨row, of_row, rfl, codeOf_pair settled (known row of_row)⟩
  have codes := @mapM_all _ _ (codeOf ni) (fun pair => (codeOf ni pair).getD 0) (seriesOf rows) (by
    intro pair member
    obtain ⟨row, _, _, code⟩ := coded pair member
    rw [code, Option.getD_some])
  have distinct : ((seriesOf rows).map fun pair => (codeOf ni pair).getD 0).Nodup := by
    refine (seriesOf_nodup rows).map_on ?_
    intro pair member pair' member' same
    obtain ⟨row, of_row, is_pair, code⟩ := coded pair member
    obtain ⟨row', of_row', is_pair', code'⟩ := coded pair' member'
    rw [code, code', Option.getD_some, Option.getD_some] at same
    have back := pairOf_code settled (known row of_row)
    rw [same, pairOf_code settled (known row' of_row'), is_pair, is_pair'] at back
    exact (Option.some.inj back).symm
  obtain ⟨lookup, made, slot⟩ := @lookupOf_spec unset
    (presentCodes ni (rows.map (codeRow ni))) _ distinct (by
      intro code member
      obtain ⟨pair, inside, same⟩ := List.mem_map.mp member
      obtain ⟨row, of_row, _, own⟩ := coded pair inside
      rw [own, Option.getD_some] at same
      exact mem_presentCodes.mpr ⟨_, List.mem_map_of_mem of_row, same⟩)
  have found : ∀ row ∈ rows, ∃ sid, lookup[pairCode ni (codeRow ni row)]? = some sid ∧
      (seriesOf rows)[sid]? = some row.pair := by
    intro row of_row
    obtain ⟨sid, here⟩ := List.mem_iff_getElem?.mp (mem_seriesOf.mpr ⟨row, of_row, rfl⟩)
    refine ⟨sid, slot sid _ ?_, here⟩
    rw [List.getElem?_map, here, Option.map_some, codeOf_pair settled (known row of_row),
      Option.getD_some]
  have framed := @mapM_all _ _ (fun row => lookup[pairCode ni row]?.map (frameRow row))
    (fun row => frameRow row ((lookup[pairCode ni row]?).getD 0)) (rows.map (codeRow ni)) (by
      intro row member
      obtain ⟨of_row, inside, rfl⟩ := List.mem_map.mp member
      obtain ⟨sid, at_code, _⟩ := found of_row inside
      rw [at_code, Option.map_some, Option.getD_some])
  refine ⟨fun row => (lookup[pairCode ni (codeRow ni row)]?).getD 0, ?_, ?_⟩
  · unfold buildJobFrame builtData
    dsimp only
    rw [of_codes, Option.bind_some, sorted, codes, Option.bind_some, made, Option.bind_some,
      framed, Option.map_some, List.map_map]
    rfl
  · intro row of_row
    obtain ⟨sid, at_code, here⟩ := found row of_row
    dsimp only
    rw [at_code, Option.getD_some, here]

theorem builtData_placed {sid : DecodedRow Str → Nat} (settled : ni.Settled)
    (known : ∀ row ∈ rows, KnownRow ni row)
    (hosts : ∀ name, name ∈ ni.names .host ↔ ∃ row ∈ rows, row.hostId = name)
    (devs : ∀ name, name ∈ ni.names .dev ↔ name = [] ∨ ∃ row ∈ rows, row.devId = name)
    (numbered : ∀ row ∈ rows, (seriesOf rows)[sid row]? = some row.pair) :
    Placed rows (builtData ni rows sid) fun row => frameRow (codeRow ni row) (sid row) := by
  have once : ∀ col, ((ni.names col).map String.ofList).Nodup := fun col =>
    (ni.names_nodup settled).map fun _ _ same => String.ofList_injective same
  have names : ∀ {col : TextColumn} {i : Nat} {name : Str}, (ni.names col)[i]? = some name →
      ((ni.names col).map String.ofList)[i]? = some (String.ofList name) := by
    intro col i name here
    rw [List.getElem?_map, here, Option.map_some]
  constructor
  · exact sortBy_perm _ _
  · exact sortBy_pairwise _ _
  · rfl
  · exact once .host
  · exact once .dev
  · intro name
    unfold builtData
    rw [List.mem_map]
    constructor
    · intro inside
      obtain ⟨text, member, same⟩ := inside
      obtain ⟨row, of_row, rfl⟩ := (hosts text).mp member
      exact ⟨row, of_row, same⟩
    · intro inside
      obtain ⟨row, of_row, same⟩ := inside
      exact ⟨row.hostId, (hosts _).mpr ⟨row, of_row, rfl⟩, same⟩
  · intro name
    unfold builtData
    rw [List.mem_map]
    constructor
    · intro inside
      obtain ⟨text, member, same⟩ := inside
      obtain rfl | ⟨row, of_row, rfl⟩ := (devs text).mp member
      · exact .inl same.symm
      · exact .inr ⟨row, of_row, same⟩
    · intro inside
      obtain rfl | ⟨row, of_row, same⟩ := inside
      · exact ⟨[], (devs _).mpr (.inl rfl), rfl⟩
      · exact ⟨row.devId, (devs _).mpr (.inr ⟨row, of_row, rfl⟩), same⟩
  · exact names (ni.name_of_known ni.emptyDev)
  · exact fun row of_row => names (host_place settled (known row of_row))
  · exact numbered
  · exact fun row of_row => names (dev_place settled (known row of_row)).1
  · exact fun row of_row => (dev_place settled (known row of_row)).2
  · exact fun row => ⟨rfl, rfl, rfl, rfl, rfl⟩

theorem mem_keys {col : TextColumn} {name : Str} {row : DecodedRow Str} :
    (col, name) ∈ row.keys ↔ name = match col with
      | .host => row.hostId
      | .type => row.typeId
      | .event => row.eventId
      | .dev => row.devId := by
  cases col <;> simp [DecodedRow.keys]

def fetchedNames (chunks : List (List (DecodedRow Str))) : NameInterner :=
  nameInterner.internAll .fresh (chunks.flatten.flatMap DecodedRow.keys)

theorem fetchedNames_settled (chunks : List (List (DecodedRow Str))) :
    (fetchedNames chunks).Settled :=
  NameInterner.internAll_settled NameInterner.fresh_settled _

theorem mem_fetchedNames {chunks : List (List (DecodedRow Str))} {col : TextColumn} {name : Str} :
    name ∈ (fetchedNames chunks).names col ↔
      (∃ row ∈ chunks.flatten, (col, name) ∈ row.keys) ∨
        name ∈ NameInterner.fresh.names col := by
  unfold fetchedNames
  rw [NameInterner.mem_names_internAll, List.mem_flatMap]

theorem frameFromChunks_placed (unset : Nat → Nat) (chunks : List (List (DecodedRow Str))) :
    ∃ data, ∃ sid : DecodedRow Str → Nat, frameFromChunks unset chunks = some data ∧
      Placed chunks.flatten data fun row =>
        frameRow (codeRow (fetchedNames chunks) row) (sid row) := by
  obtain ⟨state, coded⟩ := internChunks_spec .fresh chunks
  have known : ∀ row ∈ chunks.flatten, KnownRow (fetchedNames chunks) row := by
    intro row member key inside
    exact nameInterner.given_of_mem _ (List.mem_flatMap.mpr ⟨row, member, inside⟩)
  obtain ⟨sid, built, numbered⟩ := buildJobFrame_eq unset (fetchedNames_settled chunks) known
  refine ⟨_, sid, ?_, builtData_placed (fetchedNames_settled chunks) known ?_ ?_ numbered⟩
  · unfold frameFromChunks
    dsimp only
    rw [concatChunks_eq, forall₂_coded coded, state, ← fetchedNames, built]
  · intro name
    rw [mem_fetchedNames]
    constructor
    · intro either
      obtain ⟨row, member, inside⟩ | new := either
      · exact ⟨row, member, (mem_keys.mp inside).symm⟩
      · exact absurd new List.not_mem_nil
    · intro found
      obtain ⟨row, member, same⟩ := found
      exact .inl ⟨row, member, mem_keys.mpr same.symm⟩
  · intro name
    rw [mem_fetchedNames]
    constructor
    · intro either
      obtain ⟨row, member, inside⟩ | first := either
      · exact .inr ⟨row, member, (mem_keys.mp inside).symm⟩
      · exact .inl (List.mem_singleton.mp first)
    · intro either
      obtain first | ⟨row, member, same⟩ := either
      · exact .inr (List.mem_singleton.mpr first)
      · exact .inl ⟨row, member, mem_keys.mpr same.symm⟩

end Built

section Contract

structure NamedRow where
  timeUs : ℤ
  host : String
  series : String × String
  dev : String
  copy : Bool
  owned : Bool
  value : Exact
  arc : Exact
  delta : Exact
  deriving DecidableEq

def FrameData.named (data : FrameData) (row : FrameRow) : NamedRow where
  timeUs := row.timeUs
  host := data.hosts.getD row.hostId ""
  series := data.series.getD row.seriesId ("", "")
  dev := data.devs.getD row.devId.natAbs ""
  copy := decide (row.devId < 0)
  owned := row.owned
  value := row.value
  arc := row.arc
  delta := row.delta

def DecodedRow.named (row : DecodedRow Str) : NamedRow where
  timeUs := row.timeUs
  host := String.ofList row.hostId
  series := namedPair row.pair
  dev := String.ofList row.devId
  copy := decide (jobDevPrefix <+: row.devId)
  owned := row.owned
  value := exactReal row.value
  arc := exactReal row.arc
  delta := exactReal row.delta

theorem lexsort_sorted {rows : List FrameRow}
    (sorted : rows.Pairwise fun a b => a.order ≤ b.order) :
    lexsort rows = List.range rows.length := by
  have firsts : (rows.zipIdx.map Prod.fst).Pairwise fun a b => a.order ≤ b.order := by
    rw [List.zipIdx_map_fst]
    exact sorted
  have pairs : rows.zipIdx.Pairwise fun a b => a.1.order ≤ b.1.order :=
    (List.pairwise_map (R := fun a b : FrameRow => a.order ≤ b.order) (f := Prod.fst)).mp firsts
  unfold lexsort
  rw [sortBy_of_pairwise _ pairs, List.zipIdx_map_snd, List.range_eq_range']

variable {rows rows' : List (DecodedRow Str)} {data data' : FrameData}
  {place : DecodedRow Str → FrameRow}

namespace Placed

theorem getElem_lt {α : Type*} {l : List α} {i : Nat} {a : α} (here : l[i]? = some a) :
    i < l.length :=
  (List.getElem?_eq_some_iff.mp here).1

theorem of_rows (placed : Placed rows data place) {row : FrameRow} (member : row ∈ data.rows) :
    ∃ given ∈ rows, place given = row :=
  List.mem_map.mp (placed.perm.mem_iff.mp member)

theorem seriesOnce (placed : Placed rows data place) : data.series.Nodup :=
  placed.series ▸ (seriesOf_nodup rows).map namedPair_injective

theorem seriesNamed (placed : Placed rows data place) {row : DecodedRow Str}
    (member : row ∈ rows) :
    data.series[(place row).seriesId]? = some (namedPair row.pair) := by
  rw [placed.series, List.getElem?_map, placed.seriesAt row member, Option.map_some]

theorem ids_inside (placed : Placed rows data place) {row : FrameRow} (member : row ∈ data.rows) :
    row.seriesId < data.series.length ∧ row.hostId < data.hosts.length ∧
      row.devId.natAbs < data.devs.length := by
  obtain ⟨given, inside, rfl⟩ := placed.of_rows member
  exact ⟨getElem_lt (placed.seriesNamed inside), getElem_lt (placed.hostAt given inside),
    getElem_lt (placed.devAt given inside)⟩

theorem checked (placed : Placed rows data place) : checkContract data = .ok () := by
  have none_out : ∀ {size : Nat} {id : FrameRow → Nat}, (∀ row ∈ data.rows, id row < size) →
      (data.rows.any fun row => decide (size ≤ id row)) = false := by
    intro size id below
    rw [List.any_eq_false]
    intro row member
    rw [decide_eq_true_iff]
    exact not_le.mpr (below row member)
  have series := none_out fun row member => (placed.ids_inside member).1
  have hosts := none_out fun row member => (placed.ids_inside member).2.1
  have devs := none_out fun row member => (placed.ids_inside member).2.2
  unfold checkContract
  rw [if_neg fun unsorted => unsorted.2 (lexsort_sorted placed.sorted), series, hosts, devs]
  rfl

theorem named (placed : Placed rows data place) :
    (data.rows.map data.named).Perm (rows.map DecodedRow.named) := by
  refine (placed.perm.map data.named).trans ?_
  rw [List.map_map]
  refine List.Perm.of_eq (List.map_congr_left ?_)
  intro row member
  obtain ⟨time, owned, value, arc, delta⟩ := placed.others row
  have host := placed.hostAt row member
  have series := placed.seriesNamed member
  have dev := placed.devAt row member
  have copy : ((place row).devId < 0) = (jobDevPrefix <+: row.devId) := by
    rw [← not_le, placed.hardware row member, not_not]
  show data.named (place row) = row.named
  unfold FrameData.named DecodedRow.named
  simp only [List.getD_eq_getElem?_getD, host, series, dev, time, owned, value, arc, delta, copy,
    Option.getD_some]

theorem frame (placed : Placed rows data place)
    (times : (timeAxis data.rows).length ≤ 2 ^ 31) : ∃ frame : JobFrame, frame.data = data :=
  ⟨{  rows := data.rows
      hosts := data.hosts
      series := data.series
      devs := data.devs
      sorted := placed.sorted
      seriesIn := fun _ member => (placed.ids_inside member).1
      hostIn := fun _ member => (placed.ids_inside member).2.1
      devIn := fun _ member => (placed.ids_inside member).2.2
      seriesOnce := placed.seriesOnce
      hostsOnce := placed.hostsOnce
      devsOnce := placed.devsOnce
      timesFit := times }, rfl⟩

theorem hosts_length (placed : Placed rows data place) :
    data.hosts.length = (rows.map DecodedRow.hostId).dedup.length := by
  have names : (data.hosts).Perm ((rows.map DecodedRow.hostId).dedup.map String.ofList) := by
    rw [List.perm_ext_iff_of_nodup placed.hostsOnce
      ((List.nodup_dedup _).map fun _ _ same => String.ofList_injective same)]
    intro name
    rw [placed.hosts, List.mem_map]
    simp only [List.mem_dedup, List.mem_map, exists_exists_and_eq_and]
  rw [names.length_eq, List.length_map]

theorem devs_length (placed : Placed rows data place) :
    data.devs.length = ([] :: rows.map DecodedRow.devId).dedup.length := by
  have names : (data.devs).Perm (([] :: rows.map DecodedRow.devId).dedup.map String.ofList) := by
    rw [List.perm_ext_iff_of_nodup placed.devsOnce
      ((List.nodup_dedup _).map fun _ _ same => String.ofList_injective same)]
    intro name
    rw [placed.devs, List.mem_map]
    constructor
    · intro either
      obtain rfl | ⟨row, member, same⟩ := either
      · exact ⟨[], List.mem_dedup.mpr (.head _), rfl⟩
      · exact ⟨row.devId, List.mem_dedup.mpr
          (List.mem_cons_of_mem [] (List.mem_map_of_mem member)), same⟩
    · intro found
      obtain ⟨text, member, same⟩ := found
      obtain rfl | inside := List.mem_cons.mp (List.mem_dedup.mp member)
      · exact .inl same.symm
      · obtain ⟨row, of_row, rfl⟩ := List.mem_map.mp inside
        exact .inr ⟨row, of_row, same⟩
  rw [names.length_eq, List.length_map]

theorem times_length (placed : Placed rows data place) :
    (timeAxis data.rows).length = (rows.map DecodedRow.timeUs).dedup.length := by
  have times : (data.rows.map FrameRow.timeUs).Perm (rows.map DecodedRow.timeUs) := by
    refine (placed.perm.map FrameRow.timeUs).trans ?_
    rw [List.map_map]
    exact List.Perm.of_eq (List.map_congr_left fun row _ => (placed.others row).1)
  unfold timeAxis
  rw [List.length_insertionSort, times.dedup.length_eq]

end Placed

end Contract

section Streams

/-- `decode_copy_binary`: by the kernel where it is built in. -/
def decodeCopyBinary (kernels : Bool) (buf : Bytes) (past : Nat → UInt8) (interner : NameInterner)
    (hasOwned : Bool) : Except DecodeError (List (DecodedRow Int) × NameInterner) :=
  if kernels then decodeCopyBinaryCodon buf past interner hasOwned
  else decodeCopyBinaryReference buf interner hasOwned

def decodeStreams (kernels withOwned : Bool) (ni : NameInterner) :
    List (Bytes × (Nat → UInt8)) → Except DecodeError (List (List (DecodedRow Int)) × NameInterner)
  | [] => .ok ([], ni)
  | (raw, past) :: rest => do
    let (first, ni) ← decodeCopyBinary kernels raw past ni withOwned
    let (others, ni) ← decodeStreams kernels withOwned ni rest
    return (first :: others, ni)

def frameFromStreams (unset : Nat → Nat) (kernels withOwned : Bool)
    (streams : List (Bytes × (Nat → UInt8))) : Except DecodeError (Option FrameData) :=
  (decodeStreams kernels withOwned .fresh streams).map fun (decoded, ni) =>
    buildJobFrame unset ni (concatChunks decoded)

variable {withOwned : Bool} {chunks : List (List CopyRow)}
  {streams : List (Bytes × (Nat → UInt8))}

theorem decodeStreams_interns (kernels : Bool) (ni : NameInterner) (sent : List.Forall₂
    (fun rows raw => encodeCopyBinary withOwned rows = some raw.1) chunks streams) :
    decodeStreams kernels withOwned ni streams =
      .ok (internChunks ni (chunks.map (List.map (CopyRow.seen withOwned)))) := by
  induction sent generalizing ni with
  | nil => rfl
  | @cons rows raw _ _ first later ih =>
    have decoded : decodeCopyBinary kernels raw.1 raw.2 ni withOwned =
        .ok (internRows ni (rows.map (CopyRow.seen withOwned))) := by
      cases kernels with
      | true => exact codon_interns ni raw.2 first
      | false => exact reference_interns ni first
    simp only [decodeStreams, decoded, bind, Except.bind, ih]
    rfl

/-- From the rows sent over any number of streams to the frame: by either decoder it passes its
contract and holds these rows by name. -/
theorem fetched_rows_framed (unset : Nat → Nat) (kernels : Bool) (sent : List.Forall₂
    (fun rows raw => encodeCopyBinary withOwned rows = some raw.1) chunks streams) :
    ∃ data, frameFromStreams unset kernels withOwned streams = .ok (some data) ∧
      checkContract data = .ok () ∧ (data.rows.map data.named).Perm
        (chunks.flatten.map fun row => (row.seen withOwned).named) := by
  obtain ⟨data, _, built, placed⟩ :=
    frameFromChunks_placed unset (chunks.map (List.map (CopyRow.seen withOwned)))
  refine ⟨data, ?_, placed.checked, ?_⟩
  · rw [frameFromStreams, decodeStreams_interns kernels .fresh sent]
    exact congrArg Except.ok built
  · simpa [← List.map_flatten, Function.comp_def] using placed.named

theorem fetched_rows_framed_twice :
    ∃ data, frameFromStreams (fun _ => 7) true true
        [(sampleStream, fun _ => 0), (sampleStream, fun _ => 1)] = .ok (some data) ∧
      checkContract data = .ok () ∧ (data.rows.map data.named).Perm
        ((sampleCopyRows ++ sampleCopyRows).map fun row => (row.seen true).named) := by
  have sent : encodeCopyBinary true sampleCopyRows = some sampleStream := by
    rw [sampleStream, Option.some_get]
  generalize sampleStream = stream at sent
  exact fetched_rows_framed (fun _ => 7) true
    (.cons (b := (stream, fun _ => 0)) sent (.cons (b := (stream, fun _ => 1)) sent .nil))

end Streams

end PerfStats.Metrics
