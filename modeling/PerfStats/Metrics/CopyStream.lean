import PerfStats.Lib.Interning
import PerfStats.Lib.Wire
import PerfStats.Text

namespace PerfStats.Metrics

open Lib

section Names

inductive TextColumn where
  | host
  | type
  | event
  | dev
deriving DecidableEq

def jobDevPrefix : Str := lit "j:"

def plainCoding : Coding Str Int := ⟨fun _ n => n, Int.natAbs, fun _ n => Int.natAbs_natCast n⟩

def devCode (name : Str) (n : Nat) : Int := if jobDevPrefix <+: name then -n else n

theorem natAbs_devCode (name : Str) (n : Nat) : (devCode name n).natAbs = n := by
  rw [devCode]
  split
  · rw [Int.natAbs_neg, Int.natAbs_natCast]
  · exact Int.natAbs_natCast n

def idCoding : TextColumn → Coding Str Int
  | .dev => ⟨devCode, Int.natAbs, natAbs_devCode⟩
  | _ => plainCoding

structure NameInterner where
  tables : Tables idCoding
  emptyDev : tables.ident (.dev, []) = some 0

namespace NameInterner

theorem back_emptyDev {name : Str} {id : Int}
    (given : (Dict.empty.set ([] : Str) (0 : Int)).get? name = some id) :
    ([[]] : List Str)[(idCoding .dev).index id]? = some name := by
  rw [Dict.get?_set] at given
  split at given
  · next same =>
      cases given
      rw [same]
      rfl
  · cases given

def freshTables : Tables idCoding
  | .dev => ⟨[[]], Dict.empty.set [] 0, back_emptyDev⟩
  | .host => NameTable.empty
  | .type => NameTable.empty
  | .event => NameTable.empty

def fresh : NameInterner := ⟨freshTables, rfl⟩

def intern (ni : NameInterner) (key : TextColumn × Str) : Int × NameInterner :=
  ((ni.tables.intern key).1, ⟨(ni.tables.intern key).2, Tables.intern_kept key ni.emptyDev⟩)

def host (ni : NameInterner) (name : Str) : Int × NameInterner := ni.intern (.host, name)

def type (ni : NameInterner) (name : Str) : Int × NameInterner := ni.intern (.type, name)

def event (ni : NameInterner) (name : Str) : Int × NameInterner := ni.intern (.event, name)

def dev (ni : NameInterner) (name : Str) : Int × NameInterner := ni.intern (.dev, name)

def ident (ni : NameInterner) (key : TextColumn × Str) : Option Int := ni.tables.ident key

def nameOf (ni : NameInterner) (col : TextColumn) (id : Int) : Option Str :=
  (ni.tables col).names[id.natAbs]?

end NameInterner

theorem NameInterner.intern_known {ni : NameInterner} {key : TextColumn × Str} {id : Int}
    (given : ni.ident key = some id) : ni.intern key = (id, ni) := by
  have same := Tables.intern_known given
  cases ni with
  | mk tables emptyDev => simp only [intern, same]

def nameInterner : Interner NameInterner (TextColumn × Str) Int where
  intern := NameInterner.intern
  ident := NameInterner.ident
  known := NameInterner.intern_known
  assigned := fun ni key => Tables.intern_assigned ni.tables key
  kept := fun key given => Tables.intern_kept key given

end Names

section Rows

/-- A `real` as a float64; `none` is NaN. The widening is exact, so the bits say which it is. -/
def real (bits : BitVec 32) : Option (BitVec 32) :=
  if 0x7f800000 < bits.toNat % 2 ^ 31 then none else some bits

def fitsI64 (v : Int) : Bool := decide (-2 ^ 63 ≤ v) && decide (v < 2 ^ 63)

/-- A row of the query: `none` in a column is NULL, and `owned` may be missing altogether. -/
structure CopyRow where
  time : Int
  host : Option Str
  type : Option Str
  event : Option Str
  dev : Option Str
  value : Option (BitVec 32)
  arc : Option (BitVec 32)
  delta : Option (BitVec 32)
  owned : Option (Option Int)
  timeFits : fitsI64 time = true

structure DecodedRow (ι : Type*) where
  timeUs : Int
  hostId : ι
  typeId : ι
  eventId : ι
  devId : ι
  owned : Bool
  value : Option (BitVec 32)
  arc : Option (BitVec 32)
  delta : Option (BitVec 32)
deriving DecidableEq

end Rows

section Encoder

def utf8 (text : Str) : Bytes := text.flatMap String.utf8EncodeChar

def decodeUtf8 (raw : Bytes) : Option Str := (ByteArray.utf8Decode? ⟨raw.toArray⟩).map Array.toList

def copySignature : Bytes := [80, 71, 67, 79, 80, 89, 10, 255, 13, 10, 0]

def pgEpochOffsetUs : Int := 946684800000000

def expectedFields (hasOwned : Bool) : Int := if hasOwned then 9 else 8

def packTime (time : Int) : Option Bytes := do
  return (← pack 4 8) ++ (← pack 8 (time - pgEpochOffsetUs))

def packText : Option Str → Option Bytes
  | none => pack 4 (-1)
  | some text => do return (← pack 4 (utf8 text).length) ++ utf8 text

def packReal : Option (BitVec 32) → Option Bytes
  | none => pack 4 (-1)
  | some bits => do return (← pack 4 4) ++ bigEndian 4 bits.toNat

def packOwned (withOwned : Bool) (owned : Option (Option Int)) : Option Bytes :=
  if withOwned then
    match owned.getD (some 1) with
    | none => pack 4 (-1)
    | some own => do return (← pack 4 4) ++ (← pack 4 (if own = 0 then 0 else 1))
  else some []

def encodeRow (withOwned : Bool) (row : CopyRow) : Option Bytes := do
  return (← pack 2 (expectedFields withOwned)) ++ ((← packTime row.time) ++ ((← packText row.host)
    ++ ((← packText row.type) ++ ((← packText row.event) ++ ((← packText row.dev)
    ++ ((← packReal row.value) ++ ((← packReal row.arc) ++ ((← packReal row.delta)
    ++ (← packOwned withOwned row.owned)))))))))

def encodeRows (withOwned : Bool) : List CopyRow → Option Bytes
  | [] => pack 2 (-1)
  | row :: rest => do return (← encodeRow withOwned row) ++ (← encodeRows withOwned rest)

def encodeCopyBinary (withOwned : Bool) (rows : List CopyRow) : Option Bytes := do
  return copySignature ++ ((← pack 4 0) ++ ((← pack 4 0) ++ (← encodeRows withOwned rows)))

end Encoder

inductive DecodeError where
  | value (message : Str)
  | struct
  | overflow
  | unicode
  | index
  | kernel (code : Int)
deriving DecidableEq

section Reference

abbrev NameCaches := TextColumn → Dict Bytes Int

def firstCaches : NameCaches
  | .dev => Dict.empty.set [] 0
  | _ => Dict.empty

structure RefWalk where
  off : Nat
  caches : NameCaches
  interner : NameInterner
  rows : List (DecodedRow Int)

def readInt (width : Nat) (buf : Bytes) (off : Nat) : Except DecodeError Int :=
  (unpackFrom width buf off).elim (.error .struct) .ok

def refTime (buf : Bytes) (off : Nat) : Except DecodeError (Int × Nat) := do
  let ln ← readInt 4 buf off
  if ln ≠ 8 then .error (.value (lit "NULL or malformed time field"))
  else return ((← readInt 8 buf (off + 4)) + pgEpochOffsetUs, off + 4 + 8)

def refText (buf : Bytes) (col : TextColumn) (walk : RefWalk) :
    Except DecodeError (Int × RefWalk) := do
  let ln ← readInt 4 buf walk.off
  let raw := if ln < 0 then [] else slice buf (walk.off + 4) ln.toNat
  let off := if ln < 0 then walk.off + 4 else walk.off + 4 + ln.toNat
  match (walk.caches col).get? raw with
  | some id => return (id, { walk with off := off })
  | none =>
    let name ← (decodeUtf8 raw).elim (.error .unicode) .ok
    let (id, interner) := walk.interner.intern (col, name)
    return (id, { walk with
      off := off
      caches := Function.update walk.caches col ((walk.caches col).set raw id)
      interner := interner })

def float4OrNan (buf : Bytes) (off : Nat) (length : Int) :
    Except DecodeError (Option (BitVec 32)) :=
  if length < 0 then .ok none
  else if off + 4 ≤ buf.length then .ok (real (BitVec.ofNat 32 (ofBigEndian (slice buf off 4))))
  else .error .struct

def refReal (buf : Bytes) (off : Nat) : Except DecodeError (Option (BitVec 32) × Nat) := do
  let ln ← readInt 4 buf off
  let value ← float4OrNan buf (off + 4) ln
  return (value, if 0 < ln then off + 4 + ln.toNat else off + 4)

def refOwned (buf : Bytes) (hasOwned : Bool) (off : Nat) : Except DecodeError (Bool × Nat) :=
  if hasOwned then do
    let ln ← readInt 4 buf off
    if ln = 4 then
      let own ← readInt 4 buf (off + 4)
      return (decide (own ≠ 0), off + 4 + 4)
    else return (false, if 0 < ln then off + 4 + ln.toNat else off + 4)
  else .ok (true, off)

def refTuple (buf : Bytes) (hasOwned : Bool) (walk : RefWalk) : Except DecodeError RefWalk := do
  let (time, off) ← refTime buf walk.off
  let (host, walk) ← refText buf .host { walk with off := off }
  let (type, walk) ← refText buf .type walk
  let (event, walk) ← refText buf .event walk
  let (dev, walk) ← refText buf .dev walk
  let (value, off) ← refReal buf walk.off
  let (arc, off) ← refReal buf off
  let (delta, off) ← refReal buf off
  let (owned, off) ← refOwned buf hasOwned off
  return { walk with
    off := off
    rows := walk.rows ++ [⟨time, host, type, event, dev, owned, value, arc, delta⟩] }

/-- The `while` loop; a tuple takes two bytes at least, so the fuel is not what ends it. -/
def refLoop (buf : Bytes) (hasOwned : Bool) : Nat → RefWalk → Except DecodeError RefWalk
  | 0, walk => .ok walk
  | fuel + 1, walk =>
    if walk.off < buf.length then do
      let nf ← readInt 2 buf walk.off
      if nf = -1 then return walk
      else if nf ≠ expectedFields hasOwned then
        .error (.value (lit "unexpected field count " ++ lit (toString nf)))
      else
        let walk ← refTuple buf hasOwned { walk with off := walk.off + 2 }
        refLoop buf hasOwned fuel walk
    else .ok walk

def decodeCopyBinaryReference (buf : Bytes) (interner : NameInterner) (hasOwned : Bool) :
    Except DecodeError (List (DecodedRow Int) × NameInterner) :=
  if copySignature <+: buf then do
    let _flags ← readInt 4 buf 11
    let extLen ← readInt 4 buf 15
    let walk ← refLoop buf hasOwned buf.length
      ⟨19 + extLen.toNat, firstCaches, interner, []⟩
    if walk.rows.all fun row => fitsI64 row.timeUs then return (walk.rows, walk.interner)
    else .error .overflow
  else .error (.value (lit "not a PostgreSQL binary COPY stream"))

end Reference

section Kernel

def errSignature : Int := -1
def errFieldCount : Int := -2
def errNullTime : Int := -3
def errNameCap : Int := -4
def errRowCount : Int := -5
def errTruncated : Int := -6

/-- The kernel reads through a pointer: what it reads behind the buffer is whatever lies there. -/
def beInt (width : Nat) (p : Nat → UInt8) (off : Nat) : Int :=
  signed width (ofBigEndian (window p off width))

def beI16 : (Nat → UInt8) → Nat → Int := beInt 2
def beI32 : (Nat → UInt8) → Nat → Int := beInt 4
def beI64 : (Nat → UInt8) → Nat → Int := beInt 8

def beF32 (p : Nat → UInt8) (off : Nat) : Option (BitVec 32) :=
  real (BitVec.ofNat 32 (ofBigEndian (window p off 4)))

def copyHeaderLen : Nat := 19

def signatureOk (p : Nat → UInt8) (n : Nat) : Bool :=
  decide (copyHeaderLen ≤ n) && decide (window p 0 11 = copySignature)

def headerEnd (p : Nat → UInt8) : Nat := copyHeaderLen + (beI32 p 15).toNat

/-- The offset behind `fields` fields, each a length and, when it is positive, so many bytes. -/
def skipFields (p : Nat → UInt8) (n : Nat) : Nat → Nat → Except Int Nat
  | 0, off => .ok off
  | fields + 1, off =>
    if n < off + 4 then .error errTruncated
    else skipFields p n fields (off + 4 + (beI32 p off).toNat)

def countLoop (p : Nat → UInt8) (n : Nat) (hasOwned : Bool) : Nat → Nat → Nat → Except Int Nat
  | 0, _, rows => .ok rows
  | fuel + 1, off, rows =>
    if off + 2 ≤ n then
      let nf := beI16 p off
      if nf = -1 then .ok rows
      else if nf ≠ expectedFields hasOwned then .error errFieldCount
      else do
        let off ← skipFields p n nf.toNat (off + 2)
        if n < off then .error errTruncated
        else countLoop p n hasOwned fuel off (rows + 1)
    else .ok rows

def copyCountRowsC (p : Nat → UInt8) (n : Nat) (hasOwned : Bool) : Except Int Nat :=
  if signatureOk p n then countLoop p n hasOwned n (headerEnd p) 0 else .error errSignature

structure NameEntry where
  col : TextColumn
  off : Nat
  len : Nat

structure KernelWalk where
  off : Nat
  tables : TextColumn → Dict Bytes Nat
  entries : List NameEntry
  rows : List (DecodedRow Nat)

/-- `_intern`: the index of a name in the table, a new entry when the column has not seen it. -/
def kernelIntern (p : Nat → UInt8) (col : TextColumn) (off ln nameCap : Nat) (walk : KernelWalk) :
    Except Int (Nat × KernelWalk) :=
  let key := window p off ln
  match (walk.tables col).get? key with
  | some got => .ok (got, walk)
  | none =>
    let idx := walk.entries.length
    if nameCap ≤ idx then .error errNameCap
    else .ok (idx, { walk with
      tables := Function.update walk.tables col ((walk.tables col).set key idx)
      entries := walk.entries ++ [⟨col, off, ln⟩] })

def kernelText (p : Nat → UInt8) (n nameCap : Nat) (col : TextColumn) (walk : KernelWalk) :
    Except Int (Nat × KernelWalk) := do
  let off := walk.off + 4
  let ln := (beI32 p walk.off).toNat
  if n < off + ln then .error errTruncated
  else
    let (idx, walk) ← kernelIntern p col off ln nameCap walk
    return (idx, { walk with off := off + ln })

def kernelReal (p : Nat → UInt8) (n off : Nat) : Except Int (Option (BitVec 32) × Nat) :=
  let ln := beI32 p off
  if ln = 4 then
    if n < off + 4 + 4 then .error errTruncated else .ok (beF32 p (off + 4), off + 4 + 4)
  else .ok (none, off + 4 + ln.toNat)

def kernelOwned (p : Nat → UInt8) (n : Nat) (hasOwned : Bool) (off : Nat) :
    Except Int (Bool × Nat) :=
  if hasOwned then
    let ln := beI32 p off
    if ln = 4 then
      if n < off + 4 + 4 then .error errTruncated
      else .ok (decide (beI32 p (off + 4) ≠ 0), off + 4 + 4)
    else .ok (false, off + 4 + ln.toNat)
  else .ok (true, off)

def kernelTime (p : Nat → UInt8) (off : Nat) : Except Int (Int × Nat) :=
  if beI32 p off ≠ 8 then .error errNullTime
  else .ok ((beI64 p (off + 4) + pgEpochOffsetUs).bmod (2 ^ 64), off + 4 + 8)

def kernelTuple (p : Nat → UInt8) (n : Nat) (hasOwned : Bool) (nameCap : Nat)
    (walk : KernelWalk) : Except Int KernelWalk := do
  let (time, off) ← kernelTime p walk.off
  let (host, walk) ← kernelText p n nameCap .host { walk with off := off }
  let (type, walk) ← kernelText p n nameCap .type walk
  let (event, walk) ← kernelText p n nameCap .event walk
  let (dev, walk) ← kernelText p n nameCap .dev walk
  let (value, off) ← kernelReal p n walk.off
  let (arc, off) ← kernelReal p n off
  let (delta, off) ← kernelReal p n off
  let (owned, off) ← kernelOwned p n hasOwned off
  if n < off then .error errTruncated
  else return { walk with
    off := off
    rows := walk.rows ++ [⟨time, host, type, event, dev, owned, value, arc, delta⟩] }

def kernelLoop (p : Nat → UInt8) (n : Nat) (hasOwned : Bool) (nrows nameCap : Nat) :
    Nat → KernelWalk → Except Int KernelWalk
  | 0, walk => .ok walk
  | fuel + 1, walk =>
    if walk.off + 2 ≤ n then
      let nf := beI16 p walk.off
      if nf = -1 then .ok walk
      else if nf ≠ expectedFields hasOwned then .error errFieldCount
      else if nrows ≤ walk.rows.length then .error errRowCount
      else do
        let walk ← kernelTuple p n hasOwned nameCap { walk with off := walk.off + 2 }
        kernelLoop p n hasOwned nrows nameCap fuel walk
    else .ok walk

def copyDecodeC (p : Nat → UInt8) (n : Nat) (hasOwned : Bool) (nrows nameCap : Nat) :
    Except Int KernelWalk :=
  if signatureOk p n then do
    let walk ← kernelLoop p n hasOwned nrows nameCap n
      ⟨headerEnd p, fun _ => Dict.empty, [], []⟩
    if walk.rows.length ≠ nrows then .error errRowCount else return walk
  else .error errSignature

end Kernel

section Bridge

def firstNameCap : Nat := 4096

theorem firstNameCap_pos : 0 < firstNameCap := by decide

theorem grown_closer {nrows nameCap : Nat} (positive : 0 < nameCap)
    (below : ¬4 * max nrows 1 ≤ nameCap) :
    4 * max nrows 1 - nameCap * 4 < 4 * max nrows 1 - nameCap := by
  omega

def growNames (p : Nat → UInt8) (n : Nat) (hasOwned : Bool) (nrows nameCap : Nat)
    (positive : 0 < nameCap) : Except DecodeError KernelWalk :=
  match copyDecodeC p n hasOwned nrows nameCap with
  | .ok walk => .ok walk
  | .error code =>
    if code = errNameCap then
      if below : 4 * max nrows 1 ≤ nameCap then
        .error (.value (lit "copy_decode: name table larger than rows"))
      else growNames p n hasOwned nrows (nameCap * 4) (Nat.mul_pos positive (by decide))
    else .error (.kernel code)
termination_by 4 * max nrows 1 - nameCap
decreasing_by exact grown_closer positive below

def decodeName (buf : Bytes) (entry : NameEntry) : Except DecodeError (TextColumn × Str) :=
  (decodeUtf8 (slice buf entry.off entry.len)).elim (.error .unicode)
    fun name => .ok (entry.col, name)

def copyDecode (buf : Bytes) (past : Nat → UInt8) (hasOwned : Bool) :
    Except DecodeError (List (DecodedRow Nat) × List (TextColumn × Str)) := do
  let p := memory buf past
  let nrows ← (copyCountRowsC p buf.length hasOwned).mapError .kernel
  let walk ← growNames p buf.length hasOwned nrows firstNameCap firstNameCap_pos
  return (walk.rows, ← walk.entries.mapM (decodeName buf))

def remap (table : List Int) (idx : Nat) : Except DecodeError Int :=
  (table[idx]?).elim (.error .index) .ok

def remapRow (table : List Int) (row : DecodedRow Nat) : Except DecodeError (DecodedRow Int) := do
  return { row with
    hostId := ← remap table row.hostId
    typeId := ← remap table row.typeId
    eventId := ← remap table row.eventId
    devId := ← remap table row.devId }

def decodeCopyBinaryCodon (buf : Bytes) (past : Nat → UInt8) (interner : NameInterner)
    (hasOwned : Bool) : Except DecodeError (List (DecodedRow Int) × NameInterner) := do
  let (rows, names) ← copyDecode buf past hasOwned
  let (table, interner) := nameInterner.internList interner names
  return (← rows.mapM (remapRow table), interner)

end Bridge

end PerfStats.Metrics
