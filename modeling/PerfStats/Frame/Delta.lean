import PerfStats.Lib.Dict
import PerfStats.Lib.Keyed
import PerfStats.Num

namespace PerfStats.Frame

open Lib

/-- One parsed hardware row, the columns of `_STATS_COL_NAMES`. -/
structure HwRow where
  time : ℚ
  host : Str
  jid : Str
  type : Str
  dev : Str
  event : Str
  value : Cell
  wid : Nat
  mult : ℚ
  unit : Str
  deriving DecidableEq, Repr

/-- `(host, type, dev, event)`, compared column by column. -/
abbrev SeriesKey := Str ×ₗ Str ×ₗ Str ×ₗ Str

def seriesKey (host type dev event : Str) : SeriesKey :=
  toLex (host, toLex (type, toLex (dev, event)))

theorem seriesKey_inj {host type dev event host' type' dev' event' : Str} :
    seriesKey host type dev event = seriesKey host' type' dev' event' ↔
      host = host' ∧ type = type' ∧ dev = dev' ∧ event = event' := by
  simp [seriesKey]

namespace HwRow

def key (r : HwRow) : SeriesKey := seriesKey r.host r.type r.dev r.event

/-- The `lexsort` key: device key first, then time. -/
def sortKey (r : HwRow) : SeriesKey ×ₗ ℚ := toLex (r.key, r.time)

end HwRow

structure DeltaRow where
  time : ℚ
  host : Str
  jid : Str
  type : Str
  dev : Str
  event : Str
  unit : Str
  value : Cell
  delta : Cell
  deriving DecidableEq, Repr

/-- What `carry.raw` keeps of a key's last row. -/
structure RawEntry where
  value : Cell
  wid : Nat
  mult : ℚ
  time : ℚ
  deriving DecidableEq, Repr

structure DeltaCarry where
  raw : Dict SeriesKey RawEntry
  arc : Dict SeriesKey ℚ

def DeltaCarry.empty : DeltaCarry := ⟨.empty, .empty⟩

def HwRow.entry (r : HwRow) : RawEntry := ⟨r.value, r.wid, r.mult, r.time⟩

/-- A decrease is a wrap when the previous value was in the upper half of the range; otherwise it is
a reset and the delta is missing. -/
def wrapCorrect (value : Cell) (wid : Nat) (delta : Cell) : Cell :=
  match value, delta with
  | some v, some d =>
    if d < 0 then
      if 2 ^ wid / 2 ≤ v - d ∧ -2 ^ wid < d then some (2 ^ wid + d) else none
    else some d
  | _, _ => delta

def HwRow.delta (r : HwRow) (prev : Option RawEntry) : Cell :=
  Cell.scale r.mult
    (wrapCorrect r.value r.wid (prev.elim none fun p => Cell.sub r.value p.value))

def HwRow.withDelta (r : HwRow) (prev : Option RawEntry) : DeltaRow :=
  ⟨r.time, r.host, r.jid, r.type, r.dev, r.event, r.unit, r.value, r.delta prev⟩

/-- A run without carry starts from an empty one. -/
def applyCounterDeltas (rows : List HwRow) (raw : Dict SeriesKey RawEntry) :
    List DeltaRow × Dict SeriesKey RawEntry :=
  let sorted := sortBy HwRow.sortKey rows
  (adjacent HwRow.key HwRow.entry HwRow.withDelta raw.get? none sorted,
    (runEnds HwRow.key sorted).foldl (fun raw r => raw.set r.key r.entry) raw)

section Spec

variable (rows : List HwRow) (raw : Dict SeriesKey RawEntry)

theorem sorted_by_key :
    (sortBy HwRow.sortKey rows).Pairwise fun a b => a.key ≤ b.key := by
  apply (sortBy_pairwise HwRow.sortKey rows).imp
  intro a b below
  exact (Prod.Lex.le_iff.mp below).elim le_of_lt fun same => same.1.le

theorem applyCounterDeltas_rows :
    (applyCounterDeltas rows raw).1 =
      scan HwRow.key HwRow.entry HwRow.withDelta raw.get? (sortBy HwRow.sortKey rows) :=
  adjacent_eq_scan _ _ _ _ (sorted_by_key rows)

theorem applyCounterDeltas_carry :
    (applyCounterDeltas rows raw).2.get? =
      scanLast HwRow.key HwRow.entry raw.get? (sortBy HwRow.sortKey rows) := by
  unfold applyCounterDeltas
  rw [Dict.get?_foldl_set]
  exact foldl_runEnds_eq_scanLast _ _ _ (sorted_by_key rows)

end Spec

end PerfStats.Frame
