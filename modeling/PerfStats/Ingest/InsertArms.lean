import Mathlib.Data.List.Nodup
import Mathlib.Logic.Function.Basic
import PerfStats.Text

/-!
# The insert arms of `host_data`

`_collapse_host_conflict_keys`, `_collapse_host_columnar_conflict_keys`, the staged insert, the bulk
create and the row by row insert (`sync_timedb_host_data_insert.py`, `sync_timedb.py`), over rows
whose cells are as the database stores them. The COPY arms keep the last row of a key in a batch,
the others the first one.
-/

namespace PerfStats.Ingest

open Function

structure HostRow where
  time : Int
  host : Str
  jid : Option Str
  type : Str
  dev : Str
  event : Str
  unit : Option Str
  value : Option (BitVec 32)
  delta : Option (BitVec 32)
  arc : Option (BitVec 32)
deriving DecidableEq

abbrev ConflictKey := Int × Str × Str × Str × Str

def HostRow.conflictKey (row : HostRow) : ConflictKey :=
  (row.time, row.host, row.type, row.event, row.dev)

abbrev HostTable := ConflictKey → Option HostRow

/-- `DataFrame.drop_duplicates(subset=..., keep="last")`. -/
def dropDuplicatesKeepLast : List HostRow → List HostRow
  | [] => []
  | row :: rest =>
    if row.conflictKey ∈ rest.map HostRow.conflictKey then dropDuplicatesKeepLast rest
    else row :: dropDuplicatesKeepLast rest

def collapseHostConflictKeys (rows : List HostRow) : List HostRow :=
  if (rows.map HostRow.conflictKey).Nodup then rows else dropDuplicatesKeepLast rows

/-- `by_key` and `order` of the columnar collapse. -/
structure ColumnarScan where
  byKey : ConflictKey → Option Nat
  order : List Int

def ColumnarScan.turn (scan : ColumnarScan) (entry : HostRow × Nat) : ColumnarScan :=
  let key := entry.1.conflictKey
  let order := match scan.byKey key with
    | some prev => scan.order.set prev (-1)
    | none => scan.order
  ⟨update scan.byKey key (some order.length), order ++ [(entry.2 : Int)]⟩

def columnarScan (rows : List HostRow) : ColumnarScan :=
  rows.zipIdx.foldl ColumnarScan.turn ⟨fun _ => none, []⟩

def collapseHostColumnarConflictKeys (rows : List HostRow) : List HostRow :=
  let keep := (columnarScan rows).order.filter (0 ≤ ·)
  if keep.length = rows.length then rows else keep.filterMap fun i => rows[i.toNat]?

inductive InsertArm where
  | frame
  | columnar (copyUnique : Bool)
  | bulkCreate
  | individually
deriving DecidableEq

/-- One row against the unique key: `ON CONFLICT DO NOTHING`, or an `IntegrityError` that is
skipped. -/
def insertRow (table : HostTable) (row : HostRow) : HostTable :=
  match table row.conflictKey with
  | some _ => table
  | none => update table row.conflictKey (some row)

def InsertArm.sent (rows : List HostRow) : InsertArm → List HostRow
  | .frame => collapseHostConflictKeys rows
  | .columnar true => rows
  | .columnar false => collapseHostColumnarConflictKeys rows
  | .bulkCreate | .individually => rows

def insertHostBatch (table : HostTable) (batch : InsertArm × List HostRow) : HostTable :=
  (batch.1.sent batch.2).foldl insertRow table

def insertHostBatches (table : HostTable) (batches : List (InsertArm × List HostRow)) : HostTable :=
  batches.foldl insertHostBatch table

def batchRows (batches : List (InsertArm × List HostRow)) : List HostRow :=
  (batches.map Prod.snd).flatten

def ArmsAgree (table : HostTable) (rows : List HostRow) : Prop :=
  ∀ batches others, batchRows batches = rows → batchRows others = rows →
    insertHostBatches table batches = insertHostBatches table others

def RepeatsEqual (table : HostTable) (rows : List HostRow) : Prop :=
  ∀ row ∈ rows, ∀ other ∈ rows, row.conflictKey = other.conflictKey →
    table row.conflictKey = none → row = other

section Merging

variable {table between after : HostTable} {rows more sent : List HostRow} {row mid : HostRow}

structure Merged (table : HostTable) (rows : List HostRow) (after : HostTable) : Prop where
  kept : ∀ {key stored}, table key = some stored → after key = some stored
  source : ∀ {key stored}, table key = none → after key = some stored →
    stored ∈ rows ∧ stored.conflictKey = key
  present : ∀ row ∈ rows, (after row.conflictKey).isSome

theorem Merged.nil (table : HostTable) : Merged table [] table :=
  ⟨id, fun free found => by simp [free] at found, by simp⟩

theorem Merged.append (first : Merged table rows between)
    (second : Merged between more after) : Merged table (rows ++ more) after := by
  refine ⟨fun found => second.kept (first.kept found), fun {key stored} free found => ?_, ?_⟩
  · cases early : between key with
    | none =>
      obtain ⟨member, same⟩ := second.source early found
      exact ⟨List.mem_append_right _ member, same⟩
    | some stored =>
      cases (second.kept early).symm.trans found
      obtain ⟨member, same⟩ := first.source free early
      exact ⟨List.mem_append_left _ member, same⟩
  · intro row member
    rcases List.mem_append.mp member with early | late
    · obtain ⟨stored, found⟩ := Option.isSome_iff_exists.mp (first.present row early)
      rw [second.kept found]
      rfl
    · exact second.present row late

theorem insertRow_merged (table : HostTable) (row : HostRow) :
    Merged table [row] (insertRow table row) := by
  unfold insertRow
  split
  · next stored found =>
      refine ⟨id, fun free there => by simp [free] at there, ?_⟩
      simp [found]
  · next free =>
      refine ⟨fun {key stored} found => ?_, fun {key stored} absent found => ?_, by simp⟩
      · have apart : key ≠ row.conflictKey := by
          rintro rfl
          simp [free] at found
        rw [update_of_ne apart, found]
      · by_cases same : key = row.conflictKey
        · subst same
          rw [update_self] at found
          simp [← Option.some.inj found]
        · rw [update_of_ne same, absent] at found
          cases found

theorem insertRows_merged (rows : List HostRow) (table : HostTable) :
    Merged table rows (rows.foldl insertRow table) := by
  induction rows generalizing table with
  | nil => exact .nil table
  | cons row rest ih => exact (insertRow_merged table row).append (ih _)

structure Covers (rows sent : List HostRow) : Prop where
  sub : ∀ row ∈ sent, row ∈ rows
  keys : ∀ row ∈ rows, ∃ other ∈ sent, other.conflictKey = row.conflictKey

theorem Covers.refl (rows : List HostRow) : Covers rows rows :=
  ⟨fun _ member => member, fun row member => ⟨row, member, rfl⟩⟩

theorem Covers.merged (covers : Covers rows sent) (merged : Merged table sent after) :
    Merged table rows after := by
  refine ⟨merged.kept, fun free found => ?_, fun row member => ?_⟩
  · obtain ⟨member, same⟩ := merged.source free found
    exact ⟨covers.sub _ member, same⟩
  · obtain ⟨other, member, same⟩ := covers.keys row member
    rw [← same]
    exact merged.present other member

theorem dropDuplicates_covers (rows : List HostRow) :
    Covers rows (dropDuplicatesKeepLast rows) := by
  induction rows with
  | nil => exact .refl []
  | cons row rest ih =>
    unfold dropDuplicatesKeepLast
    split
    · next repeated =>
        refine ⟨fun r member => .tail _ (ih.sub r member), fun r member => ?_⟩
        obtain ⟨later, there, same⟩ := List.mem_map.mp repeated
        rcases List.mem_cons.mp member with rfl | inside
        · rw [← same]
          exact ih.keys later there
        · exact ih.keys r inside
    · refine ⟨fun r member => ?_, fun r member => ?_⟩
      · rcases List.mem_cons.mp member with rfl | inside
        · exact .head _
        · exact .tail _ (ih.sub r inside)
      · rcases List.mem_cons.mp member with rfl | inside
        · exact ⟨r, .head _, rfl⟩
        · obtain ⟨other, there, same⟩ := ih.keys r inside
          exact ⟨other, .tail _ there, same⟩

/-- Every key has its position in `order`, which holds the index of a row with that key. -/
structure Scanned (rows : List HostRow) (scan : ColumnarScan) : Prop where
  long : scan.order.length = rows.length
  placed : ∀ {key i}, scan.byKey key = some i → scan.order[i]? = some (i : Int) ∧
    rows[i]?.map HostRow.conflictKey = some key
  known : ∀ row ∈ rows, (scan.byKey row.conflictKey).isSome

theorem Scanned.turn {scan : ColumnarScan} (scanned : Scanned rows scan) (row : HostRow) :
    Scanned (rows ++ [row]) (scan.turn (row, rows.length)) := by
  set order := (scan.turn (row, rows.length)).order.dropLast with marked
  have shape : (scan.turn (row, rows.length)).order = order ++ [(rows.length : Int)] := by
    rw [marked]
    simp [ColumnarScan.turn]
  have long : order.length = rows.length := by
    rw [marked, ← scanned.long]
    simp only [ColumnarScan.turn, List.dropLast_concat]
    split <;> simp
  have byKey : (scan.turn (row, rows.length)).byKey =
      update scan.byKey row.conflictKey (some rows.length) := by
    rw [← long, marked]
    simp [ColumnarScan.turn]
  refine ⟨by rw [shape]; simp [long], fun {key i} found => ?_, fun other member => ?_⟩
  · rw [byKey] at found
    rw [shape]
    by_cases same : key = row.conflictKey
    · rw [same, update_self] at found
      cases found
      rw [List.getElem?_append_right long.le, List.getElem?_append_right le_rfl, long]
      simp [same]
    · rw [update_of_ne same] at found
      obtain ⟨here, named⟩ := scanned.placed found
      obtain ⟨inside, -⟩ := List.getElem?_eq_some_iff.mp here
      have below : i < rows.length := scanned.long ▸ inside
      rw [List.getElem?_append_left (long ▸ below), List.getElem?_append_left below]
      refine ⟨?_, named⟩
      rw [marked]
      simp only [ColumnarScan.turn, List.dropLast_concat]
      split
      · next prev there =>
          have apart : prev ≠ i := by
            rintro rfl
            exact same (Option.some.inj (named.symm.trans (scanned.placed there).2))
          rw [List.getElem?_set_ne apart, here]
      · exact here
  · rw [byKey]
    by_cases same : other.conflictKey = row.conflictKey
    · simp [same]
    · rw [update_of_ne same]
      refine scanned.known other ((List.mem_append.mp member).resolve_right fun last => ?_)
      exact same (congrArg _ (List.mem_singleton.mp last))

theorem columnarScan_scanned (rows : List HostRow) : Scanned rows (columnarScan rows) := by
  induction rows using List.reverseRecOn with
  | nil => exact ⟨rfl, fun found => (Option.some_ne_none _ found.symm).elim, by simp⟩
  | append_singleton rows row ih =>
    have last : columnarScan (rows ++ [row]) = (columnarScan rows).turn (row, rows.length) := by
      simp [columnarScan, List.zipIdx_append]
    rw [last]
    exact ih.turn row

theorem collapseColumnar_covers (rows : List HostRow) :
    Covers rows (collapseHostColumnarConflictKeys rows) := by
  unfold collapseHostColumnarConflictKeys
  dsimp only
  split
  · exact .refl rows
  · refine ⟨fun row member => ?_, fun row member => ?_⟩
    · obtain ⟨i, -, found⟩ := List.mem_filterMap.mp member
      exact List.mem_of_getElem? found
    · have scanned := columnarScan_scanned rows
      obtain ⟨i, found⟩ := Option.isSome_iff_exists.mp (scanned.known row member)
      obtain ⟨here, named⟩ := scanned.placed found
      obtain ⟨other, there, same⟩ := Option.map_eq_some_iff.mp named
      refine ⟨other, List.mem_filterMap.mpr ⟨(i : Int), ?_, by simpa using there⟩, same⟩
      exact List.mem_filter.mpr ⟨List.mem_of_getElem? here, by simp⟩

theorem sent_covers (arm : InsertArm) (rows : List HostRow) : Covers rows (arm.sent rows) := by
  cases arm with
  | frame =>
    change Covers rows (collapseHostConflictKeys rows)
    unfold collapseHostConflictKeys
    split
    · exact .refl rows
    · exact dropDuplicates_covers rows
  | columnar copyUnique =>
    cases copyUnique with
    | true => exact .refl rows
    | false => exact collapseColumnar_covers rows
  | bulkCreate => exact .refl rows
  | individually => exact .refl rows

theorem insertHostBatches_merged (batches : List (InsertArm × List HostRow)) (table : HostTable) :
    Merged table (batchRows batches) (insertHostBatches table batches) := by
  induction batches generalizing table with
  | nil => exact .nil table
  | cons batch rest ih =>
    have here : Merged table batch.2 (insertHostBatch table batch) :=
      (sent_covers batch.1 batch.2).merged (insertRows_merged _ table)
    exact here.append (ih _)

theorem Merged.agrees {left right : HostTable} (equal : RepeatsEqual table rows)
    (one : Merged table rows left) (two : Merged table rows right) : left = right := by
  have half : ∀ {left right : HostTable}, Merged table rows left → Merged table rows right →
      ∀ {key stored}, left key = some stored → right key = some stored := by
    intro left right one two key stored found
    cases free : table key with
    | some old =>
      rw [one.kept free] at found
      rw [two.kept free, found]
    | none =>
      obtain ⟨member, same⟩ := one.source free found
      obtain ⟨twin, there⟩ := Option.isSome_iff_exists.mp (two.present stored member)
      rw [same] at there
      obtain ⟨inside, alike⟩ := two.source free there
      rw [there, equal stored member twin inside (same.trans alike.symm) (same ▸ free)]
  funext key
  apply Option.ext
  exact fun stored => ⟨half one two, half two one⟩

theorem batches_merged {batches : List (InsertArm × List HostRow)}
    (same : ∀ row, row ∈ batchRows batches ↔ row ∈ rows) :
    Merged table rows (insertHostBatches table batches) := by
  have covers : Covers rows (batchRows batches) :=
    ⟨fun row => (same row).mp, fun row member => ⟨row, (same row).mpr member, rfl⟩⟩
  exact covers.merged (insertHostBatches_merged batches table)

theorem dropDuplicates_last {front : List HostRow}
    (member : mid ∈ dropDuplicatesKeepLast (front ++ [row]))
    (same : mid.conflictKey = row.conflictKey) : mid = row := by
  induction front with
  | nil => simpa [dropDuplicatesKeepLast] using member
  | cons head rest ih =>
    rw [List.cons_append, dropDuplicatesKeepLast] at member
    split at member
    · exact ih member
    · next alone =>
        rcases List.mem_cons.mp member with rfl | inside
        · exact absurd (by simp [same]) alone
        · exact ih inside

theorem collapse_last {front : List HostRow}
    (member : mid ∈ collapseHostConflictKeys (front ++ [row]))
    (same : mid.conflictKey = row.conflictKey) : mid = row := by
  unfold collapseHostConflictKeys at member
  split at member
  · next distinct => exact List.inj_on_of_nodup_map distinct member (by simp) same
  · exact dropDuplicates_last member same

theorem cut_stores (table : HostTable) (front back : List HostRow) (row : HostRow)
    (free : table row.conflictKey = none) :
    insertHostBatches table [(.frame, front ++ [row]), (.frame, back)] row.conflictKey = some row := by
  have first := insertRows_merged (collapseHostConflictKeys (front ++ [row])) table
  have here := ((sent_covers .frame (front ++ [row])).merged first).present row (by simp)
  obtain ⟨stored, found⟩ := Option.isSome_iff_exists.mp here
  obtain ⟨member, same⟩ := first.source free found
  obtain rfl := collapse_last member same
  exact (insertHostBatches_merged [(.frame, back)] _).kept found

end Merging

/-- The arms and the cuts leave one table exactly when the rows of each key that is not stored yet
are equal. -/
theorem armsAgree_iff (table : HostTable) (rows : List HostRow) :
    ArmsAgree table rows ↔ RepeatsEqual table rows := by
  constructor
  · intro agree row member other there same free
    obtain ⟨front, back, split⟩ := List.append_of_mem member
    obtain ⟨before, behind, cut⟩ := List.append_of_mem there
    have one := agree [(.frame, front ++ [row]), (.frame, back)]
      [(.frame, before ++ [other]), (.frame, behind)] (by simp [batchRows, split])
      (by simp [batchRows, cut])
    have stored := congrFun one row.conflictKey
    rw [cut_stores table front back row free, same,
      cut_stores table before behind other (same ▸ free)] at stored
    exact Option.some.inj stored
  · intro equal batches others first second
    have left := first ▸ insertHostBatches_merged batches table
    have right := second ▸ insertHostBatches_merged others table
    funext key
    cases free : table key with
    | some stored => rw [left.kept free, right.kept free]
    | none =>
      cases found : insertHostBatches table batches key with
      | some stored =>
        obtain ⟨member, same⟩ := left.source free found
        obtain ⟨twin, there⟩ := Option.isSome_iff_exists.mp (right.present stored member)
        rw [same] at there
        obtain ⟨inside, alike⟩ := right.source free there
        rw [there, equal stored member twin inside (same.trans alike.symm) (same ▸ free)]
      | none =>
        cases there : insertHostBatches table others key with
        | none => rfl
        | some twin =>
          obtain ⟨inside, alike⟩ := right.source free there
          have present := left.present twin inside
          rw [alike, found] at present
          cases present

private def sample (value : BitVec 32) : HostRow where
  time := 0
  host := lit "n1"
  jid := none
  type := lit "cpu"
  dev := []
  event := lit "user"
  unit := none
  value := some value
  delta := none
  arc := none

theorem arms_part : ¬ArmsAgree (fun _ => none) [sample 1, sample 2] := by
  intro agree
  have one := congrFun (agree [(.frame, [sample 1, sample 2])] [(.bulkCreate, [sample 1, sample 2])]
    rfl rfl) (sample 1).conflictKey
  exact absurd one (by decide)

/-- The same rows leave the same table, however they are cut into batches, ordered and sent again
after an interruption, and whichever arms they go by. -/
theorem writes_converge {table : HostTable} {rows : List HostRow}
    {batches others : List (InsertArm × List HostRow)} (equal : RepeatsEqual table rows)
    (first : ∀ row, row ∈ batchRows batches ↔ row ∈ rows)
    (second : ∀ row, row ∈ batchRows others ↔ row ∈ rows) :
    insertHostBatches table batches = insertHostBatches table others :=
  (batches_merged first).agrees equal (batches_merged second)

theorem writes_converge_again :
    insertHostBatches (fun _ => none) [(.frame, [sample 1]),
      (.individually, [sample 1, { sample 2 with time := 1 }])] =
    insertHostBatches (fun _ => none) [(.columnar true, [{ sample 2 with time := 1 }, sample 1])] :=
  @writes_converge _ [sample 1, { sample 2 with time := 1 }] _ _ (by unfold RepeatsEqual; decide)
    (by simp [batchRows]) (by simp [batchRows, or_comm])

end PerfStats.Ingest
