import PerfStats.Metrics.JobFrame
import PerfStats.Metrics.ResidualCopies

namespace PerfStats.Metrics

open Lib

section Model

/-- `MODE_SQL` and `MODE_ORM`. -/
inductive SampleMode where
  | sql
  | orm
  deriving DecidableEq

inductive ValueColumn where
  | value
  | arc
  | delta
  deriving DecidableEq

def FrameRow.col (row : FrameRow) : ValueColumn → Exact
  | .value => row.value
  | .arc => row.arc
  | .delta => row.delta

/-- The keyword arguments of `sum_per_sample`. -/
structure SumOptions where
  mode : SampleMode := .sql
  conv : ℚ := 1
  nonnegative : Bool := false
  rejectDcgmBlank : Bool := false
  byDev : Bool := false
  devFilter : Bool := false
  limit : Option ℚ := none
  coalesceZero : Bool := true

structure AggRow where
  hostId : ℤ
  timeUs : ℤ
  sumVal : Exact
  devId : Option ℤ
  deriving DecidableEq

def dcgmFp64Blank : ℚ := 2 ^ 47

def SumOptions.ceiling (options : SumOptions) (col : ValueColumn) : Option ℚ :=
  if options.mode = .sql ∧ options.limit = none then
    some (if col = .delta then maxSaneCounterDelta else maxSaneCounterRate)
  else options.limit

def SumOptions.valid (options : SumOptions) (col : ValueColumn) (row : FrameRow) : Bool :=
  finiteMask (options.ceiling col) options.nonnegative (row.col col)

def belowBlank (val : Exact) : Bool := !val.isNan && val.lt (.num dcgmFp64Blank)

variable (index : FrameIndex) (options : SumOptions) (col : ValueColumn)

def keepRow (row : FrameRow) : Bool :=
  (!options.rejectDcgmBlank || belowBlank (row.col col)) &&
    (!options.devFilter || index.devAllowed row)

def hostPart (row : FrameRow) : ℤ := row.hostId

def devPart (row : FrameRow) : ℤ := row.devId + 2 ^ 15

def eventPart (row : FrameRow) : ℤ := row.seriesId

def groupKeys (rows : List FrameRow) : Except String (FrameRow → BitVec 64) :=
  if options.byDev then compositeKey rows [hostPart, devPart, index.frame.timeIndex]
  else compositeKey rows [hostPart, index.frame.timeIndex]

/-- `contrib_key` and `contrib_val`. -/
def contributions (typ : String) (rows : List FrameRow) (groupKey : FrameRow → BitVec 64) :
    Except String (List (BitVec 64 × Exact)) :=
  if index.hostWide typ && !options.byDev then
    (compositeKey rows [hostPart, eventPart, index.frame.timeIndex]).map fun keyHte =>
      (collapseResidualCopies rows keyHte FrameRow.devId (FrameRow.col · col)
        (options.valid col)).map fun entry => (htOf entry.1, entry.2)
  else .ok ((rows.filter (options.valid col)).map fun row => (groupKey row, row.col col))

def scatterSums (coalesceZero : Bool) (keys : List (BitVec 64))
    (contrib : List (BitVec 64 × Exact)) : List Exact :=
  let zeros := List.replicate keys.length (Exact.num 0)
  if contrib.isEmpty then
    if coalesceZero then zeros else zeros.map fun _ => .nan
  else
    let pos := contrib.map fun entry =>
      searchSorted keys.length (fun i => (keys.getD i 0).toInt) entry.1.toInt
    let sums := ufuncAt .add zeros (pos.zip (contrib.map Prod.snd))
    if coalesceZero then sums
    else sums.mapIdx fun i sum => if pos.contains i then sum else .nan

def aggFromKeys (axis : List ℤ) (conv : ℚ) (keys : List (BitVec 64)) (sums : List Exact) :
    List AggRow :=
  (keys.zip sums).map fun entry =>
    ⟨pairHost entry.1, axis.getD (timePosition entry.1) 0, entry.2.scale conv, none⟩

def aggFromKeysDev (axis : List ℤ) (conv : ℚ) (keys : List (BitVec 64)) (sums : List Exact) :
    List AggRow :=
  (sortBy (fun entry : BitVec 64 × Exact => toLex (tripleHost entry.1,
      toLex (timePosition entry.1, tripleDev entry.1))) (keys.zip sums)).map fun entry =>
    ⟨tripleHost entry.1, axis.getD (timePosition entry.1) 0, entry.2.scale conv,
      some (tripleDev entry.1)⟩

def sumRows (typ : String) (rows : List FrameRow) : Except String (List AggRow) :=
  (groupKeys index options rows).bind fun groupKey =>
    (contributions index options col typ rows groupKey).map fun contrib =>
      let keys := npUnique
        (if options.mode = .sql then contrib.map Prod.fst else rows.map groupKey)
      if keys.isEmpty then []
      else
        let sums := scatterSums options.coalesceZero keys contrib
        if options.byDev then aggFromKeysDev (timeAxis index.frame.rows) options.conv keys sums
        else aggFromKeys (timeAxis index.frame.rows) options.conv keys sums

/-- `FrameIndex.sum_per_sample`: its table, or its `ValueError`. -/
def sumPerSample (typ : String) (events : Option (List String)) : Except String (List AggRow) :=
  let rows := index.scopedRows typ (index.frame.rowsForSeries (index.frame.seriesIds typ events))
  if rows.isEmpty then .ok []
  else if options.mode = .orm then
    if (rows.filter (keepRow index options col)).isEmpty then .ok []
    else sumRows index options col typ (rows.filter (keepRow index options col))
  else sumRows index options col typ rows

end Model

section Spec

variable (index : FrameIndex) (options : SumOptions) (col : ValueColumn)

instance (affinity : GpuAffinity) (row : FrameRow) : Decidable (index.Listed affinity row) :=
  inferInstanceAs (Decidable (∃ entry ∈ _, _))

instance (affinity : GpuAffinity) (row : FrameRow) : Decidable (index.Granted affinity row) :=
  inferInstanceAs (Decidable (∃ entry ∈ affinity.perHost index.frame.hosts,
    index.frame.hosts[row.hostId]? = some entry.1 ∧
      ∃ dev ∈ entry.2, 0 < row.devId ∧ index.frame.devs[row.devId.toNat]? = some dev))

def FrameIndex.devPasses (row : FrameRow) : Bool :=
  index.gpuAffinityDevs.all fun affinity =>
    decide (index.Listed affinity row → index.Granted affinity row)

/-- A row passes the filters of a call, which only `orm` has. -/
def passesFilters (row : FrameRow) : Bool :=
  decide (options.mode = .sql) ||
    ((!options.rejectDcgmBlank || belowBlank (row.col col)) &&
      (!options.devFilter || index.devPasses row))

def sampleRows (typ : String) (events : Option (List String)) : List FrameRow :=
  (index.scope typ events).filter (passesFilters index options col)

def SumOptions.keyOf (row : FrameRow) : ℤ × ℤ × Option ℤ :=
  (row.hostId, row.timeUs, if options.byDev then some row.devId else none)

/-- What rows of one key contribute: the valid values, or host-wide what the copies of each event
come to. -/
def contributedOf (typ : String) (rows : List FrameRow) : List Exact :=
  if index.hostWide typ && !options.byDev then
    (List.range index.frame.series.length).filterMap fun event =>
      reducedCopies FrameRow.devId (FrameRow.col · col) (options.valid col)
        (rows.filter fun row => decide (row.seriesId = event))
  else (rows.filter (options.valid col)).map (FrameRow.col · col)

def contributed (typ : String) (events : Option (List String)) (key : ℤ × ℤ × Option ℤ) :
    List Exact :=
  contributedOf index options col typ
    ((sampleRows index options col typ events).filter fun row => decide (options.keyOf row = key))

def SumOptions.total (options : SumOptions) (vals : List Exact) : Exact :=
  Exact.scale (if vals = [] ∧ options.coalesceZero = false then .nan
    else vals.foldl .add (.num 0)) options.conv

/-- The keys of a table: those of the rows, or in `sql` those of the valid ones. -/
def Sampled (typ : String) (events : Option (List String)) (key : ℤ × ℤ × Option ℤ) : Prop :=
  ∃ row ∈ sampleRows index options col typ events, options.keyOf row = key ∧
    (options.mode = .sql → options.valid col row = true)

def DevFits (row : FrameRow) : Prop := -2 ^ 15 ≤ row.devId ∧ row.devId < 2 ^ 15

instance (row : FrameRow) : Decidable (DevFits row) := inferInstanceAs (Decidable (_ ∧ _))

def PartsFit (index : FrameIndex) (options : SumOptions) (typ : String)
    (rows : List FrameRow) : Prop :=
  if options.byDev then ∀ row ∈ rows, DevFits row
  else index.hostWide typ = true → ∀ row ∈ rows, row.seriesId < 2 ^ 16

def AggRow.key (entry : AggRow) : ℤ × ℤ × Option ℤ := (entry.hostId, entry.timeUs, entry.devId)

def AggRow.order (entry : AggRow) : ℤ ×ₗ ℤ ×ₗ ℤ :=
  toLex (entry.hostId, toLex (entry.timeUs, entry.devId.getD 0))

end Spec

section Scatter

theorem range_column {ρ β : Type*} (rows : List ρ) (absent : β) (field : ρ → β) :
    (List.range rows.length).map (column rows absent field) = rows.map field := by
  apply List.ext_getElem
  · rw [List.length_map, List.length_map, List.length_range]
  · intro i _ inside
    rw [List.length_map] at inside
    rw [List.getElem_map, List.getElem_map, List.getElem_range, column_of inside]

variable {keys : List (BitVec 64)} {contrib : List (BitVec 64 × Exact)}

theorem ufuncAt_entries (op : Exact → Exact → Exact) (initial : Exact) (distinct : keys.Nodup)
    (present : ∀ entry ∈ contrib, entry.1 ∈ keys) :
    ufuncAt op (List.replicate keys.length initial)
        ((contrib.map fun entry => keys.idxOf entry.1).zip (contrib.map Prod.snd)) =
      keys.map fun k => ((series Prod.fst k contrib).map Prod.snd).foldl op initial := by
  have all : takenRows (some (column contrib false fun _ => true)) contrib.length =
      List.range contrib.length := by
    apply List.filter_eq_self.mpr
    intro i member
    exact column_of (List.mem_range.mp member)
  have at_rows := @ufuncAt_keys (column contrib 0 Prod.fst) (column contrib .nan Prod.snd) op
    initial keys distinct (List.range contrib.length) (by
      intro i member
      have inside := List.mem_range.mp member
      rw [column_of inside]
      exact present _ (List.getElem_mem inside))
  rw [range_column, range_column, List.map_map] at at_rows
  refine at_rows.trans (List.map_congr_left ?_)
  intro k _
  have own := @ofKey_column _ Prod.fst Prod.snd (fun _ => true) contrib k
  rw [all, List.filter_true] at own
  rw [own]

theorem searchSorted_key (ordered : keys.Pairwise fun a b => a.toInt < b.toInt) {k : BitVec 64}
    (member : k ∈ keys) :
    searchSorted keys.length (fun i => (keys.getD i 0).toInt) k.toInt = keys.idxOf k := by
  have inside := List.idxOf_lt_length_of_mem member
  have increasing : Increasing keys.length fun i => (keys.getD i 0).toInt := by
    intro i j lt small
    dsimp only
    rw [List.getD_eq_getElem _ _ (lt.trans small), List.getD_eq_getElem _ _ small]
    exact List.pairwise_iff_getElem.mp ordered i j _ small lt
  have place := searchSorted_at increasing inside
  rwa [List.getD_eq_getElem _ _ inside, List.getElem_idxOf inside] at place

theorem scatterSums_eq (coalesceZero : Bool)
    (ordered : keys.Pairwise fun a b => a.toInt < b.toInt)
    (present : ∀ entry ∈ contrib, entry.1 ∈ keys) :
    scatterSums coalesceZero keys contrib = keys.map fun k =>
      if (series Prod.fst k contrib).map Prod.snd = [] ∧ coalesceZero = false then .nan
      else ((series Prod.fst k contrib).map Prod.snd).foldl .add (.num 0) := by
  have distinct : keys.Nodup :=
    ordered.imp fun lt same => absurd (congrArg BitVec.toInt same) (Int.ne_of_lt lt)
  have places : (contrib.map fun entry =>
      searchSorted keys.length (fun i => (keys.getD i 0).toInt) entry.1.toInt) =
      contrib.map fun entry => keys.idxOf entry.1 :=
    List.map_congr_left fun entry member => searchSorted_key ordered (present entry member)
  unfold scatterSums
  dsimp only
  rw [places, ufuncAt_entries .add (.num 0) distinct present]
  cases coalesceZero with
  | true =>
    simp only [if_true, Bool.true_eq_false, and_false, if_false]
    split
    · next empty =>
        rw [List.isEmpty_iff.mp empty, ← List.map_const']
        rfl
    · rfl
  | false =>
    simp only [Bool.false_eq_true, if_false, and_true]
    split
    · next empty =>
        rw [List.isEmpty_iff.mp empty, List.map_replicate, ← List.map_const']
        rfl
    · apply List.ext_getElem
      · rw [List.length_mapIdx, List.length_map, List.length_map]
      · intro i _ small
        rw [List.length_map] at small
        rw [List.getElem_mapIdx, List.getElem_map, List.getElem_map]
        have touched : (contrib.map fun entry => keys.idxOf entry.1).contains i = true ↔
            (series Prod.fst keys[i] contrib).map Prod.snd ≠ [] := by
          rw [List.contains_iff_mem, List.mem_map, ne_eq, List.map_eq_nil_iff, series,
            List.filter_eq_nil_iff]
          push Not
          refine exists_congr fun entry => and_congr_right fun member => ?_
          rw [decide_eq_true_iff]
          constructor
          · intro same
            have own := List.getElem_idxOf (List.idxOf_lt_length_of_mem (present entry member))
            rw [← own]
            simp only [same]
          · intro same
            rw [same]
            exact distinct.idxOf_getElem i small
        by_cases reached : (series Prod.fst keys[i] contrib).map Prod.snd = []
        · rw [if_pos reached, if_neg (touched.not.mpr (not_not.mpr reached))]
        · rw [if_neg reached, if_pos (touched.mpr reached)]

end Scatter

section Keys

variable {index : FrameIndex} {options : SumOptions} {row other : FrameRow}

def pairKey (index : FrameIndex) (row : FrameRow) : BitVec 64 :=
  packPair (hostPart row) (index.frame.timeIndex row)

def devKey (index : FrameIndex) (row : FrameRow) : BitVec 64 :=
  packTriple (hostPart row) (devPart row) (index.frame.timeIndex row)

def eventKey (index : FrameIndex) (row : FrameRow) : BitVec 64 :=
  packTriple (hostPart row) (eventPart row) (index.frame.timeIndex row)

def eventKeyAt (index : FrameIndex) (row : FrameRow) (event : Nat) : BitVec 64 :=
  packTriple (hostPart row) event (index.frame.timeIndex row)

def groupKeyOf (index : FrameIndex) (options : SumOptions) (row : FrameRow) : BitVec 64 :=
  if options.byDev then devKey index row else pairKey index row

def decodeKey (axis : List ℤ) (options : SumOptions) (key : BitVec 64) : ℤ × ℤ × Option ℤ :=
  if options.byDev then
    (tripleHost key, axis.getD (timePosition key) 0, some (tripleDev key))
  else (pairHost key, axis.getD (timePosition key) 0, none)

theorem groupKeyOf_summed (summed : options.byDev = false) (row : FrameRow) :
    groupKeyOf index options row = pairKey index row := by
  unfold groupKeyOf
  rw [summed, if_neg Bool.false_ne_true]

theorem timeIndex_congr (same : row.timeUs = other.timeUs) :
    index.frame.timeIndex row = index.frame.timeIndex other := by
  unfold JobFrame.timeIndex
  rw [same]

variable (few : index.frame.hosts.length < 2 ^ 15)

include few

theorem host_fits (member : row ∈ index.frame.rows) : row.hostId < 2 ^ 15 :=
  (index.frame.hostIn row member).trans few

omit few in
theorem devPart_spec (fits : DevFits row) :
    ∃ code : Nat, devPart row = code ∧ code < 2 ^ 16 ∧ (code : ℤ) - 2 ^ 15 = row.devId := by
  obtain ⟨low, high⟩ := fits
  refine ⟨(row.devId + 2 ^ 15).toNat, ?_, ?_, ?_⟩
  · exact (Int.toNat_of_nonneg (by unfold devPart; omega)).symm
  · omega
  · omega

omit few in
theorem axis_getD {tix : Nat} {time : ℤ} {axis : List ℤ} (here : axis[tix]? = some time) :
    axis.getD tix 0 = time := by
  rw [List.getD_eq_getElem?_getD, here]
  rfl

theorem decode_groupKeyOf (member : row ∈ index.frame.rows)
    (fits : options.byDev = true → DevFits row) :
    decodeKey (timeAxis index.frame.rows) options (groupKeyOf index options row) =
      options.keyOf row := by
  have host := host_fits few member
  obtain ⟨tix, position, small, here⟩ := timeIndex_spec member
  unfold decodeKey groupKeyOf SumOptions.keyOf
  cases by_dev : options.byDev with
  | false =>
    simp only [Bool.false_eq_true, if_false]
    unfold pairKey hostPart
    rw [position]
    obtain ⟨host_back, tix_back⟩ := pair_unpacked (host.trans (by decide)) (small.trans (by decide))
    rw [host_back, tix_back, axis_getD here]
  | true =>
    obtain ⟨code, is_code, code_small, code_back⟩ := devPart_spec (fits by_dev)
    simp only [if_true]
    unfold devKey hostPart
    rw [position, is_code]
    obtain ⟨host_back, dev_back, tix_back⟩ :=
      triple_unpacked host code_small (small.trans (by decide))
    rw [host_back, dev_back, tix_back, axis_getD here, code_back]

theorem groupKeyOf_iff (member : row ∈ index.frame.rows) (member' : other ∈ index.frame.rows)
    (fits : options.byDev = true → DevFits row) (fits' : options.byDev = true → DevFits other) :
    groupKeyOf index options row = groupKeyOf index options other ↔
      options.keyOf row = options.keyOf other := by
  constructor
  · intro same
    rw [← decode_groupKeyOf few member fits, ← decode_groupKeyOf few member' fits', same]
  · intro same
    obtain ⟨hosts, rest⟩ := Prod.mk.inj same
    obtain ⟨times, devs⟩ := Prod.mk.inj rest
    unfold groupKeyOf
    split
    · next by_dev =>
        rw [if_pos by_dev, if_pos by_dev] at devs
        unfold devKey hostPart devPart
        rw [hosts, timeIndex_congr times, Option.some.inj devs]
    · unfold pairKey hostPart
      rw [hosts, timeIndex_congr times]

variable {rows : List FrameRow} (inside : ∀ row ∈ rows, row ∈ index.frame.rows)

include inside

omit few in
theorem time_parts : ∀ row ∈ rows,
    0 ≤ index.frame.timeIndex row ∧ index.frame.timeIndex row < 2 ^ 32 := by
  intro row member
  obtain ⟨tix, position, small, _⟩ := timeIndex_spec (inside row member)
  omega

omit few in
theorem host_parts (known : index.frame.hosts.length ≤ 2 ^ 16) :
    ∀ row ∈ rows, 0 ≤ hostPart row ∧ hostPart row < 2 ^ 16 := by
  intro row member
  have host := index.frame.hostIn row (inside row member)
  unfold hostPart
  omega

theorem groupKeys_eq : groupKeys index options rows =
    if options.byDev = true → ∀ row ∈ rows, DevFits row then .ok (groupKeyOf index options)
    else .error outOfRange := by
  unfold groupKeys
  cases by_dev : options.byDev with
  | false =>
    rw [if_neg Bool.false_ne_true, if_pos nofun,
      compositeKey_pair (time_parts inside) (host_parts inside (few.le.trans (by decide)))]
    congr 1
    funext row
    exact (groupKeyOf_summed by_dev row).symm
  | true =>
    have ranges : (∀ row ∈ rows, 0 ≤ devPart row ∧ devPart row < 2 ^ 16) ↔
        (true = true → ∀ row ∈ rows, DevFits row) := by
      unfold devPart DevFits
      constructor
      · intro fit _ row member
        have own := fit row member
        omega
      · intro fit row member
        have own := fit rfl row member
        omega
    rw [if_pos rfl, compositeKey_triple (time_parts inside) (host_parts inside (few.le.trans (by decide)))]
    refine if_congr ranges ?_ rfl
    congr 1
    funext row
    unfold groupKeyOf
    rw [by_dev]
    rfl

end Keys

section Contributions

variable {index : FrameIndex} {options : SumOptions} {col : ValueColumn} {typ : String}
  {rows : List FrameRow} {contrib : List (BitVec 64 × Exact)}

/-- What is contributed is what the rows of each key contribute, and only keys of valid rows have
a contribution. -/
structure ContribRight (index : FrameIndex) (options : SumOptions) (col : ValueColumn)
    (typ : String) (rows : List FrameRow) (contrib : List (BitVec 64 × Exact)) : Prop where
  ofKey : ∀ row ∈ rows,
    (series Prod.fst (groupKeyOf index options row) contrib).map Prod.snd =
      contributedOf index options col typ
        (rows.filter fun other => decide (options.keyOf other = options.keyOf row))
  keys : ∀ k, k ∈ contrib.map Prod.fst ↔
    ∃ row ∈ rows, options.valid col row = true ∧ groupKeyOf index options row = k

variable (few : index.frame.hosts.length < 2 ^ 15)
  (inside : ∀ row ∈ rows, row ∈ index.frame.rows) {event : Nat}

include few inside

theorem plain_right (fits : options.byDev = true → ∀ row ∈ rows, DevFits row)
    (plain : (index.hostWide typ && !options.byDev) = false) :
    ContribRight index options col typ rows
      ((rows.filter (options.valid col)).map fun row =>
        (groupKeyOf index options row, row.col col)) := by
  constructor
  · intro row member
    unfold contributedOf series
    rw [plain, if_neg Bool.false_ne_true, List.filter_map, List.map_map, List.filter_filter,
      List.filter_filter]
    have taken : (rows.filter fun other => ((fun entry : BitVec 64 × Exact =>
          decide (entry.1 = groupKeyOf index options row)) ∘ fun row : FrameRow =>
            (groupKeyOf index options row, row.col col)) other && options.valid col other) =
        rows.filter fun other => options.valid col other &&
          decide (options.keyOf other = options.keyOf row) := by
      apply List.filter_congr
      intro other present
      have same := groupKeyOf_iff few (inside other present) (inside row member)
        (fun by_dev => fits by_dev other present) (fun by_dev => fits by_dev row member)
      rw [Bool.and_comm]
      congr 1
      exact decide_eq_decide.mpr same
    rw [taken]
    rfl
  · intro k
    rw [List.map_map, List.mem_map]
    refine exists_congr fun row => ?_
    rw [List.mem_filter, and_assoc]
    rfl

omit inside in
theorem htOf_eventKeyAt {row : FrameRow} (member : row ∈ index.frame.rows)
    (small : event < 2 ^ 16) : htOf (eventKeyAt index row event) = pairKey index row := by
  obtain ⟨tix, position, short, _⟩ := timeIndex_spec member
  unfold eventKeyAt pairKey hostPart
  rw [position]
  exact htOf_packTriple (host_fits few member) small (short.trans (by decide))

omit inside in
theorem eventKey_iff {row other : FrameRow} (member : row ∈ index.frame.rows)
    (member' : other ∈ index.frame.rows) (fits : other.seriesId < 2 ^ 16)
    (small : event < 2 ^ 16) : eventKey index other = eventKeyAt index row event ↔
      pairKey index other = pairKey index row ∧ other.seriesId = event := by
  obtain ⟨tix, position, short, _⟩ := timeIndex_spec member
  obtain ⟨tix', position', short', _⟩ := timeIndex_spec member'
  have host := host_fits few member
  have host' := host_fits few member'
  constructor
  · intro same
    constructor
    · rw [← htOf_eventKeyAt few member small, ← same]
      exact (htOf_eventKeyAt few member' fits).symm
    · have mids := congrArg tripleDev same
      unfold eventKey eventKeyAt hostPart eventPart at mids
      rw [position, position', (triple_unpacked host' fits (short'.trans (by decide))).2.1,
        (triple_unpacked host small (short.trans (by decide))).2.1] at mids
      omega
  · intro both
    obtain ⟨same, events⟩ := both
    unfold pairKey hostPart at same
    rw [position, position'] at same
    obtain ⟨host_back, tix_back⟩ := pair_unpacked (host.trans (by decide)) (short.trans (by decide))
    obtain ⟨host_back', tix_back'⟩ := pair_unpacked (host'.trans (by decide)) (short'.trans (by decide))
    rw [same, host_back] at host_back'
    rw [same, tix_back] at tix_back'
    unfold eventKey eventKeyAt hostPart eventPart
    rw [position, position', tix_back', ← host_back', events]

omit few inside in
theorem reducedCopies_ne_none {ρ : Type*} {dev : ρ → ℤ} {value : ρ → Exact} {mask : ρ → Bool}
    {l : List ρ} : reducedCopies dev value mask l ≠ none ↔ ∃ r ∈ l, mask r = true := by
  unfold reducedCopies
  dsimp only
  constructor
  · intro some_value
    by_contra none_valid
    have all : ∀ p : ρ → Bool, (l.filter fun r => mask r && p r) = [] := by
      intro p
      rw [List.filter_eq_nil_iff]
      intro r member both
      exact none_valid ⟨r, member, (Bool.and_eq_true_iff.mp both).1⟩
    rw [all, all, if_neg (not_not.mpr rfl), if_neg (not_not.mpr rfl)] at some_value
    exact some_value rfl
  · intro found
    obtain ⟨r, member, valid⟩ := found
    by_cases hardware : 0 ≤ dev r
    · have hw : (l.filter fun r => mask r && decide (0 ≤ dev r)) ≠ [] :=
        filter_ne_nil.mpr ⟨r, member, by rw [valid, decide_eq_true hardware]; rfl⟩
      rw [if_pos hw]
      exact Option.some_ne_none _
    · have copies : (l.filter fun r => mask r && decide (dev r < 0)) ≠ [] :=
        filter_ne_nil.mpr ⟨r, member, by rw [valid, decide_eq_true (not_le.mp hardware)]; rfl⟩
      split
      · exact Option.some_ne_none _
      · exact Option.some_ne_none _

omit few inside in
theorem ordered_entries_ext {l l' : List (BitVec 64 × Exact)}
    (ordered : l.Pairwise fun a b => a.1.toInt < b.1.toInt)
    (ordered' : l'.Pairwise fun a b => a.1.toInt < b.1.toInt)
    (same : ∀ entry, entry ∈ l ↔ entry ∈ l') : l = l' := by
  have distinct : ∀ {l : List (BitVec 64 × Exact)},
      (l.Pairwise fun a b => a.1.toInt < b.1.toInt) → l.Nodup := fun ordered =>
    ordered.imp fun lt equal => absurd (congrArg (·.1.toInt) equal) (Int.ne_of_lt lt)
  have perm : l.Perm l' :=
    (List.perm_ext_iff_of_nodup (distinct ordered) (distinct ordered')).mpr same
  exact perm.eq_of_pairwise (fun a b _ _ lt gt => absurd (lt.trans gt) (lt_irrefl _)) ordered
    ordered'

variable (fits : ∀ row ∈ rows, row.seriesId < 2 ^ 16) (summed : options.byDev = false)

include fits in
theorem series_eventKey {row : FrameRow} (member : row ∈ rows)
    (small : event < 2 ^ 16) :
    series (eventKey index) (eventKeyAt index row event) rows =
      (rows.filter fun other => decide (pairKey index other = pairKey index row)).filter
        fun other => decide (other.seriesId = event) := by
  rw [List.filter_filter]
  apply List.filter_congr
  intro other present
  rw [Bool.eq_iff_iff, Bool.and_eq_true, decide_eq_true_iff, decide_eq_true_iff,
    decide_eq_true_iff, eventKey_iff few (inside row member) (inside other present)
      (fits other present) small]
  exact And.comm

include fits in
theorem collapse_of_row {row : FrameRow} (member : row ∈ rows) :
    ((collapseResidualCopies rows (eventKey index) FrameRow.devId (FrameRow.col · col)
        (options.valid col)).filter fun entry => decide (htOf entry.1 = pairKey index row)) =
      (List.range index.frame.series.length).filterMap fun event =>
        (reducedCopies FrameRow.devId (FrameRow.col · col) (options.valid col)
          ((rows.filter fun other => decide (pairKey index other = pairKey index row)).filter
            fun other => decide (other.seriesId = event))).map
          fun val => (eventKeyAt index row event, val) := by
  have here : ∀ {event : Nat} {val : Exact},
      reducedCopies FrameRow.devId (FrameRow.col · col) (options.valid col)
        ((rows.filter fun other => decide (pairKey index other = pairKey index row)).filter
          fun other => decide (other.seriesId = event)) = some val →
      ∃ other ∈ rows, pairKey index other = pairKey index row ∧ other.seriesId = event := by
    intro event val value
    obtain ⟨other, copy, _⟩ := reducedCopies_ne_none.mp
      (by rw [value]; exact Option.some_ne_none val)
    obtain ⟨same, own⟩ := List.mem_filter.mp copy
    obtain ⟨present, same⟩ := List.mem_filter.mp same
    exact ⟨other, present, of_decide_eq_true same, of_decide_eq_true own⟩
  apply ordered_entries_ext
  · exact collapse_ordered.sublist List.filter_sublist
  · rw [List.pairwise_filterMap]
    refine List.pairwise_lt_range.imp_of_mem ?_
    intro event later _ _ lt entry made entry' made'
    obtain ⟨val, value, same⟩ := Option.map_eq_some_iff.mp made
    obtain ⟨val', value', same'⟩ := Option.map_eq_some_iff.mp made'
    obtain ⟨other, present, _, own⟩ := here value
    obtain ⟨other', present', _, own'⟩ := here value'
    obtain ⟨tix, position, short, _⟩ := timeIndex_spec (inside row member)
    rw [← same, ← same']
    unfold eventKeyAt hostPart
    rw [position]
    exact (packTriple_lt (host_fits few (inside row member)) (own ▸ fits other present)
      (own' ▸ fits other' present') (short.trans (by decide))).mpr lt
  · intro entry
    obtain ⟨k, val⟩ := entry
    rw [List.mem_filter, mem_collapse, List.mem_filterMap, decide_eq_true_iff]
    constructor
    · intro found
      obtain ⟨value, at_row⟩ := found
      obtain ⟨other, copy, _⟩ := reducedCopies_ne_none.mp
        (by rw [value]; exact Option.some_ne_none val)
      obtain ⟨present, own⟩ := (mem_series _).mp copy
      have same : pairKey index other = pairKey index row := by
        rw [← at_row, ← own]
        exact (htOf_eventKeyAt few (inside other present) (fits other present)).symm
      have at_event : k = eventKeyAt index row other.seriesId := by
        rw [← own]
        exact (eventKey_iff few (inside row member) (inside other present) (fits other present)
          (fits other present)).mpr ⟨same, rfl⟩
      have known := index.frame.seriesIn _ (inside other present)
      refine ⟨other.seriesId, List.mem_range.mpr known, ?_⟩
      rw [← series_eventKey few inside fits member (fits other present), ← at_event, value]
      rfl
    · intro found
      obtain ⟨event, _, made⟩ := found
      obtain ⟨val', value, same⟩ := Option.map_eq_some_iff.mp made
      obtain ⟨at_event, is_val⟩ := Prod.mk.inj same
      obtain ⟨other, present, _, own⟩ := here value
      have small : event < 2 ^ 16 := own ▸ fits other present
      rw [← at_event, ← is_val, series_eventKey few inside fits member small]
      exact ⟨value, htOf_eventKeyAt few (inside row member) small⟩

include fits summed in
theorem collapsed_right (wide : index.hostWide typ = true) :
    ContribRight index options col typ rows
      ((collapseResidualCopies rows (eventKey index) FrameRow.devId (FrameRow.col · col)
        (options.valid col)).map fun entry => (htOf entry.1, entry.2)) := by
  have key_is : ∀ row, groupKeyOf index options row = pairKey index row :=
    groupKeyOf_summed summed
  constructor
  · intro row member
    have own_rows : (rows.filter fun other => decide (options.keyOf other = options.keyOf row)) =
        rows.filter fun other => decide (pairKey index other = pairKey index row) := by
      apply List.filter_congr
      intro other present
      have narrow : options.byDev = true → False := by
        rw [summed]
        exact Bool.false_ne_true
      rw [decide_eq_decide, ← groupKeyOf_iff few (inside other present) (inside row member)
        (fun by_dev => (narrow by_dev).elim) (fun by_dev => (narrow by_dev).elim), key_is, key_is]
    unfold contributedOf series
    rw [wide, summed, Bool.not_false, Bool.and_true, if_pos rfl, own_rows, List.filter_map,
      List.map_map, key_is]
    have taken := @collapse_of_row index options col rows few inside fits row member
    have same : (fun entry : BitVec 64 × Exact => decide (entry.1 = pairKey index row)) ∘
        (fun entry : BitVec 64 × Exact => (htOf entry.1, entry.2)) =
        fun entry => decide (htOf entry.1 = pairKey index row) := rfl
    rw [same, taken, List.map_filterMap]
    congr 1
    funext event
    rw [Option.map_map]
    exact congrFun Option.map_id _
  · intro k
    rw [List.map_map, List.mem_map]
    constructor
    · intro found
      obtain ⟨⟨key, val⟩, member, at_key⟩ := found
      have value := mem_collapse.mp member
      obtain ⟨row, copy, valid⟩ := reducedCopies_ne_none.mp
        (by rw [value]; exact Option.some_ne_none val)
      obtain ⟨present, own⟩ := (mem_series _).mp copy
      refine ⟨row, present, valid, ?_⟩
      rw [key_is, ← at_key]
      show _ = htOf key
      rw [← own]
      exact (htOf_eventKeyAt few (inside row present) (fits row present)).symm
    · intro found
      obtain ⟨row, present, valid, at_key⟩ := found
      have some_value : reducedCopies FrameRow.devId (FrameRow.col · col) (options.valid col)
          (series (eventKey index) (eventKey index row) rows) ≠ none :=
        reducedCopies_ne_none.mpr ⟨row, (mem_series _).mpr ⟨present, rfl⟩, valid⟩
      obtain ⟨val, value⟩ := Option.ne_none_iff_exists'.mp some_value
      refine ⟨(eventKey index row, val), mem_collapse.mpr value, ?_⟩
      rw [← at_key, key_is]
      exact htOf_eventKeyAt few (inside row present) (fits row present)

omit fits summed in
theorem contributions_right (devs : options.byDev = true → ∀ row ∈ rows, DevFits row)
    (events : (index.hostWide typ && !options.byDev) = true →
      ∀ row ∈ rows, row.seriesId < 2 ^ 16) :
    ∃ contrib, contributions index options col typ rows (groupKeyOf index options) = .ok contrib ∧
      ContribRight index options col typ rows contrib := by
  unfold contributions
  cases collapsed : index.hostWide typ && !options.byDev with
  | false => exact ⟨_, rfl, plain_right few inside devs collapsed⟩
  | true =>
    obtain ⟨wide, summed⟩ := Bool.and_eq_true_iff.mp collapsed
    have small : ∀ row ∈ rows, 0 ≤ eventPart row ∧ eventPart row < 2 ^ 16 := by
      intro row member
      have own := events collapsed row member
      unfold eventPart
      omega
    rw [if_pos rfl, compositeKey_triple (time_parts inside) (host_parts inside (few.le.trans (by decide))),
      if_pos small]
    exact ⟨_, rfl, collapsed_right few inside (events collapsed)
      (by simpa using summed) wide⟩

omit fits summed in
theorem contributions_error (groupKey : FrameRow → BitVec 64)
    (collapsed : (index.hostWide typ && !options.byDev) = true)
    (beyond : ¬ ∀ row ∈ rows, row.seriesId < 2 ^ 16) :
    contributions index options col typ rows groupKey = .error outOfRange := by
  have large : ¬ ∀ row ∈ rows, 0 ≤ eventPart row ∧ eventPart row < 2 ^ 16 := by
    intro fit
    apply beyond
    intro row member
    have own := (fit row member).2
    unfold eventPart at own
    omega
  unfold contributions
  rw [collapsed, if_pos rfl, compositeKey_triple (time_parts inside) (host_parts inside (few.le.trans (by decide))),
    if_neg large]
  rfl

end Contributions

section Tables

variable {index : FrameIndex} {options : SumOptions} {col : ValueColumn} {typ : String}
  {rows : List FrameRow} {contrib : List (BitVec 64 × Exact)}

structure TableRight (index : FrameIndex) (options : SumOptions) (col : ValueColumn)
    (typ : String) (rows : List FrameRow) (table : List AggRow) : Prop where
  ordered : table.Pairwise fun a b => a.order < b.order
  entries : ∀ entry, entry ∈ table ↔
    (∃ row ∈ rows, options.keyOf row = entry.key ∧
      (options.mode = .sql → options.valid col row = true)) ∧
    entry.sumVal = options.total (contributedOf index options col typ
      (rows.filter fun row => decide (options.keyOf row = entry.key)))

def aggRow (axis : List ℤ) (options : SumOptions) (entry : BitVec 64 × Exact) : AggRow :=
  let key := decodeKey axis options entry.1
  ⟨key.1, key.2.1, entry.2.scale options.conv, key.2.2⟩

def tableOf (axis : List ℤ) (options : SumOptions) (entries : List (BitVec 64 × Exact)) :
    List AggRow :=
  if options.byDev then
    (sortBy (fun entry : BitVec 64 × Exact => toLex (tripleHost entry.1,
      toLex (timePosition entry.1, tripleDev entry.1))) entries).map (aggRow axis options)
  else entries.map (aggRow axis options)

theorem tableOf_eq (axis : List ℤ) (keys : List (BitVec 64)) (sums : List Exact) :
    (if options.byDev then aggFromKeysDev axis options.conv keys sums
      else aggFromKeys axis options.conv keys sums) = tableOf axis options (keys.zip sums) := by
  unfold tableOf aggRow decodeKey aggFromKeysDev aggFromKeys
  cases options.byDev with
  | false => simp only [Bool.false_eq_true, if_false]
  | true => simp only [if_true]

theorem mem_tableOf {axis : List ℤ} {entries : List (BitVec 64 × Exact)} {entry : AggRow} :
    entry ∈ tableOf axis options entries ↔ ∃ e ∈ entries, aggRow axis options e = entry := by
  unfold tableOf
  split
  · rw [List.mem_map]
    refine exists_congr fun e => and_congr_left fun _ => ?_
    exact (sortBy_perm _ entries).mem_iff
  · exact List.mem_map

def tableKeys (index : FrameIndex) (options : SumOptions) (rows : List FrameRow)
    (contrib : List (BitVec 64 × Exact)) : List (BitVec 64) :=
  npUnique (if options.mode = .sql then contrib.map Prod.fst
    else rows.map (groupKeyOf index options))

theorem mem_tableKeys (right : ContribRight index options col typ rows contrib) {k : BitVec 64} :
    k ∈ tableKeys index options rows contrib ↔ ∃ row ∈ rows, groupKeyOf index options row = k ∧
      (options.mode = .sql → options.valid col row = true) := by
  unfold tableKeys
  rw [mem_npUnique]
  by_cases sql : options.mode = .sql
  · rw [if_pos sql, right.keys]
    refine exists_congr fun row => and_congr_right fun _ => ?_
    constructor
    · intro both
      exact ⟨both.2, fun _ => both.1⟩
    · intro both
      exact ⟨both.2 sql, both.1⟩
  · rw [if_neg sql, List.mem_map]
    refine exists_congr fun row => and_congr_right fun _ => ?_
    exact ⟨fun own => ⟨own, fun is_sql => absurd is_sql sql⟩, And.left⟩

theorem tableKeys_ordered : (tableKeys index options rows contrib).Pairwise
    fun a b => a.toInt < b.toInt :=
  npUnique_ordered _

theorem zip_scatterSums (right : ContribRight index options col typ rows contrib) :
    (tableKeys index options rows contrib).zip
        (scatterSums options.coalesceZero (tableKeys index options rows contrib) contrib) =
      (tableKeys index options rows contrib).map fun k => (k,
        if (series Prod.fst k contrib).map Prod.snd = [] ∧ options.coalesceZero = false then .nan
        else ((series Prod.fst k contrib).map Prod.snd).foldl .add (.num 0)) := by
  have present : ∀ e ∈ contrib, e.1 ∈ tableKeys index options rows contrib := by
    intro e member
    obtain ⟨row, of_row, valid, own⟩ := (right.keys e.1).mp (List.mem_map_of_mem member)
    exact (mem_tableKeys right).mpr ⟨row, of_row, own, fun _ => valid⟩
  rw [scatterSums_eq options.coalesceZero tableKeys_ordered present, zip_values]

variable (few : index.frame.hosts.length < 2 ^ 15)
  (inside : ∀ row ∈ rows, row ∈ index.frame.rows)
  (devs : options.byDev = true → ∀ row ∈ rows, DevFits row)

include few inside devs

theorem tableOf_entries (right : ContribRight index options col typ rows contrib)
    (entry : AggRow) :
    entry ∈ tableOf (timeAxis index.frame.rows) options
      ((tableKeys index options rows contrib).zip
        (scatterSums options.coalesceZero (tableKeys index options rows contrib) contrib)) ↔
    (∃ row ∈ rows, options.keyOf row = entry.key ∧
      (options.mode = .sql → options.valid col row = true)) ∧
    entry.sumVal = options.total (contributedOf index options col typ
      (rows.filter fun row => decide (options.keyOf row = entry.key))) := by
  rw [mem_tableOf, zip_scatterSums right]
  have made : ∀ row ∈ rows, decodeKey (timeAxis index.frame.rows) options
      (groupKeyOf index options row) = options.keyOf row := by
    intro row member
    exact decode_groupKeyOf few (inside row member) fun by_dev => devs by_dev row member
  constructor
  · intro found
    obtain ⟨e, member, is_entry⟩ := found
    obtain ⟨k, is_key, is_e⟩ := List.mem_map.mp member
    obtain ⟨row, of_row, own, valid⟩ := (mem_tableKeys right).mp is_key
    have key : entry.key = options.keyOf row := by
      rw [← made row of_row, own, ← is_entry, ← is_e]
      rfl
    refine ⟨⟨row, of_row, key.symm, valid⟩, ?_⟩
    rw [key, ← right.ofKey row of_row, own, ← is_entry, ← is_e]
    rfl
  · intro found
    obtain ⟨⟨row, of_row, own, valid⟩, value⟩ := found
    refine ⟨_, List.mem_map_of_mem ((mem_tableKeys right).mpr ⟨row, of_row, rfl, valid⟩), ?_⟩
    have key := (made row of_row).trans own
    rw [← own, ← right.ofKey row of_row] at value
    unfold aggRow
    rw [key]
    cases entry with
    | mk hostId timeUs sumVal devId =>
      dsimp only at value
      rw [value]
      rfl

omit inside devs in
theorem position_inside {row : FrameRow} (member : row ∈ index.frame.rows)
    (fits : options.byDev = true → DevFits row) :
    timePosition (groupKeyOf index options row) < (timeAxis index.frame.rows).length := by
  have host := host_fits few member
  obtain ⟨tix, position, small, here⟩ := timeIndex_spec member
  have short := (List.getElem?_eq_some_iff.mp here).1
  unfold groupKeyOf
  split
  · next by_dev =>
      obtain ⟨code, is_code, code_small, _⟩ := devPart_spec (fits by_dev)
      unfold devKey hostPart
      rw [position, is_code, (triple_unpacked host code_small (small.trans (by decide))).2.2]
      exact short
  · unfold pairKey hostPart
    rw [position, (pair_unpacked (host.trans (by decide)) (small.trans (by decide))).2]
    exact short

omit inside devs in
theorem pairKey_lt {row other : FrameRow} (member : row ∈ index.frame.rows)
    (member' : other ∈ index.frame.rows)
    (lt : (pairKey index row).toInt < (pairKey index other).toInt) :
    pairHost (pairKey index row) < pairHost (pairKey index other) ∨
      pairHost (pairKey index row) = pairHost (pairKey index other) ∧
        timePosition (pairKey index row) < timePosition (pairKey index other) := by
  obtain ⟨tix, position, small, _⟩ := timeIndex_spec member
  obtain ⟨tix', position', small', _⟩ := timeIndex_spec member'
  have host := host_fits few member
  have host' := host_fits few member'
  unfold pairKey hostPart at lt ⊢
  rw [position, position'] at lt ⊢
  obtain ⟨host_back, tix_back⟩ := pair_unpacked (host.trans (by decide)) (small.trans (by decide))
  obtain ⟨host_back', tix_back'⟩ := pair_unpacked (host'.trans (by decide)) (small'.trans (by decide))
  rw [host_back, tix_back, host_back', tix_back', Nat.cast_lt, Nat.cast_inj]
  exact (packPair_lt (host.trans (by decide)) (small.trans (by decide)) (host'.trans (by decide))
    (small'.trans (by decide))).mp lt

omit few inside devs in
theorem time_lt {axis : List ℤ} (ordered : axis.Pairwise (· < ·)) {tix tix' : Nat}
    (lt : tix < tix') (short : tix' < axis.length) : axis.getD tix 0 < axis.getD tix' 0 :=
  getD_increasing ordered tix tix' lt short

theorem tableOf_ordered (right : ContribRight index options col typ rows contrib)
    (f : BitVec 64 → Exact) :
    (tableOf (timeAxis index.frame.rows) options
      ((tableKeys index options rows contrib).map fun k => (k, f k))).Pairwise
        fun a b => a.order < b.order := by
  have times := timeAxis_ordered index.frame.rows
  have ordered := @tableKeys_ordered index options rows contrib
  unfold tableOf
  cases by_dev : options.byDev with
  | false =>
    rw [if_neg Bool.false_ne_true, List.pairwise_map, List.pairwise_map]
    refine ordered.imp_of_mem ?_
    intro k k' is_key is_key' lt
    obtain ⟨row, of_row, own, _⟩ := (mem_tableKeys right).mp is_key
    obtain ⟨other, of_other, own', _⟩ := (mem_tableKeys right).mp is_key'
    have short := @position_inside index options few other (inside other of_other)
      (by simp [by_dev])
    rw [groupKeyOf_summed by_dev] at own own' short
    rw [← own, ← own'] at lt ⊢
    unfold AggRow.order aggRow decodeKey
    simp only [by_dev, Bool.false_eq_true, if_false]
    rw [Prod.Lex.toLex_lt_toLex, Prod.Lex.toLex_lt_toLex]
    obtain hosts | both := pairKey_lt few (inside row of_row) (inside other of_other) lt
    · exact .inl hosts
    · exact .inr ⟨both.1, .inl (time_lt times both.2 short)⟩
  | true =>
    rw [if_pos rfl, List.pairwise_map]
    have perm := sortBy_perm (fun entry : BitVec 64 × Exact => toLex (tripleHost entry.1,
      toLex (timePosition entry.1, tripleDev entry.1)))
      ((tableKeys index options rows contrib).map fun k => (k, f k))
    have apart : (sortBy (fun entry : BitVec 64 × Exact => toLex (tripleHost entry.1,
        toLex (timePosition entry.1, tripleDev entry.1)))
        ((tableKeys index options rows contrib).map fun k => (k, f k))).Pairwise
          fun a b => a.1 ≠ b.1 := by
      apply List.pairwise_map.mp
      rw [← List.Nodup, (perm.map Prod.fst).nodup_iff, List.map_map]
      exact (List.map_id _).symm ▸
        ordered.imp fun lt same => absurd (congrArg BitVec.toInt same) (Int.ne_of_lt lt)
    refine ((sortBy_pairwise _ _).and apart).imp_of_mem ?_
    intro a b first second both
    obtain ⟨le, differ⟩ := both
    obtain ⟨k, is_key, rfl⟩ := List.mem_map.mp (perm.mem_iff.mp first)
    obtain ⟨k', is_key', rfl⟩ := List.mem_map.mp (perm.mem_iff.mp second)
    obtain ⟨row, of_row, own, _⟩ := (mem_tableKeys right).mp is_key
    obtain ⟨other, of_other, own', _⟩ := (mem_tableKeys right).mp is_key'
    have short := @position_inside index options few other (inside other of_other)
      fun by_dev => devs by_dev other of_other
    have decoded : decodeKey (timeAxis index.frame.rows) options k = options.keyOf row := by
      rw [← own]
      exact decode_groupKeyOf few (inside row of_row) fun by_dev => devs by_dev row of_row
    have decoded' : decodeKey (timeAxis index.frame.rows) options k' = options.keyOf other := by
      rw [← own']
      exact decode_groupKeyOf few (inside other of_other) fun by_dev => devs by_dev other of_other
    rw [own'] at short
    rw [Prod.Lex.toLex_le_toLex, Prod.Lex.toLex_le_toLex] at le
    unfold AggRow.order aggRow decodeKey
    simp only [by_dev, if_true, Option.getD_some]
    rw [Prod.Lex.toLex_lt_toLex, Prod.Lex.toLex_lt_toLex]
    obtain hosts | ⟨same_host, later | ⟨same_time, devices⟩⟩ := le
    · exact .inl hosts
    · exact .inr ⟨same_host, .inl (time_lt times later short)⟩
    · have position : timePosition k = timePosition k' := same_time
      have host : tripleHost k = tripleHost k' := same_host
      refine .inr ⟨host, .inr ⟨?_, lt_of_le_of_ne devices ?_⟩⟩
      · exact congrArg (fun i => (timeAxis index.frame.rows).getD i 0) position
      · intro same_dev
        have dev : tripleDev k = tripleDev k' := same_dev
        apply differ
        rw [← own, ← own', groupKeyOf_iff few (inside row of_row) (inside other of_other)
          (fun by_dev => devs by_dev row of_row) (fun by_dev => devs by_dev other of_other),
          ← decoded, ← decoded']
        unfold decodeKey
        rw [by_dev, if_pos rfl, if_pos rfl, host, position, dev]

omit devs in
theorem sumRows_right (fits : PartsFit index options typ rows) :
    ∃ table, sumRows index options col typ rows = .ok table ∧
      TableRight index options col typ rows table := by
  have devs : options.byDev = true → ∀ row ∈ rows, DevFits row := by
    intro by_dev
    unfold PartsFit at fits
    rwa [if_pos by_dev] at fits
  have events : (index.hostWide typ && !options.byDev) = true →
      ∀ row ∈ rows, row.seriesId < 2 ^ 16 := by
    intro collapsed
    obtain ⟨wide, summed⟩ := Bool.and_eq_true_iff.mp collapsed
    have summed : options.byDev = false := by simpa using summed
    unfold PartsFit at fits
    rw [summed, if_neg Bool.false_ne_true] at fits
    exact fits wide
  obtain ⟨contrib, made, right⟩ := @contributions_right index options col typ rows few inside devs
    events
  refine ⟨tableOf (timeAxis index.frame.rows) options
    ((tableKeys index options rows contrib).zip
      (scatterSums options.coalesceZero (tableKeys index options rows contrib) contrib)), ?_, ?_,
    ?_⟩
  · unfold sumRows
    rw [groupKeys_eq few inside, if_pos devs, Except.bind, made, Except.map]
    dsimp only
    rw [tableOf_eq, ← tableKeys]
    split
    · next empty =>
        rw [List.isEmpty_iff.mp empty, List.zip_nil_left]
        unfold tableOf
        split
        · rfl
        · rfl
    · rfl
  · rw [zip_scatterSums right]
    exact tableOf_ordered few inside devs right _
  · exact tableOf_entries few inside devs right

omit devs in
theorem sumRows_error (beyond : ¬ PartsFit index options typ rows) :
    sumRows index options col typ rows = .error outOfRange := by
  unfold PartsFit at beyond
  unfold sumRows
  rw [groupKeys_eq few inside]
  split at beyond
  · next by_dev =>
      rw [if_neg fun fit => beyond (fit by_dev)]
      rfl
  · next summed =>
      have wide : index.hostWide typ = true := by
        by_contra narrow
        exact beyond fun wide => absurd wide narrow
      have events : ¬ ∀ row ∈ rows, row.seriesId < 2 ^ 16 := fun fit => beyond fun _ => fit
      have collapsed : (index.hostWide typ && !options.byDev) = true := by
        rw [wide, Bool.eq_false_of_not_eq_true summed]
        rfl
      rw [if_pos fun by_dev => absurd by_dev summed, Except.bind,
        contributions_error few inside _ collapsed events]
      rfl

end Tables

section Sums

variable {index : FrameIndex} {options : SumOptions} {col : ValueColumn} {typ : String}
  {events : Option (List String)}

theorem sampleRows_inside :
    ∀ row ∈ sampleRows index options col typ events, row ∈ index.frame.rows := by
  intro row member
  exact List.mem_of_mem_filter (List.mem_of_mem_filter member)

def HardwareListed (index : FrameIndex) (options : SumOptions) (typ : String)
    (events : Option (List String)) : Prop :=
  options.mode = .orm → options.devFilter = true → ∀ row ∈ index.scope typ events,
    ∀ affinity ∈ index.gpuAffinityDevs, index.Listed affinity row → 0 ≤ row.devId

theorem sumPerSample_rows (hardware : HardwareListed index options typ events) :
    sumPerSample index options col typ events =
      if sampleRows index options col typ events = [] then .ok []
      else sumRows index options col typ (sampleRows index options col typ events) := by
  unfold sumPerSample
  dsimp only
  rw [scopedRows_eq]
  by_cases sql : options.mode = .sql
  · have all : sampleRows index options col typ events = index.scope typ events := by
      apply List.filter_eq_self.mpr
      intro row _
      unfold passesFilters
      rw [decide_eq_true sql, Bool.true_or]
    have not_orm : options.mode ≠ .orm := by rw [sql]; exact nofun
    rw [all, if_neg not_orm]
    simp only [List.isEmpty_iff]
  · have orm : options.mode = .orm := by
      cases mode : options.mode with
      | sql => exact absurd mode sql
      | orm => rfl
    have kept : (index.scope typ events).filter (keepRow index options col) =
        sampleRows index options col typ events := by
      apply List.filter_congr
      intro row member
      unfold keepRow passesFilters
      rw [decide_eq_false sql, Bool.false_or]
      congr 1
      cases filter : options.devFilter with
      | false => rfl
      | true =>
        rw [Bool.not_true, Bool.false_or, Bool.false_or, Bool.eq_iff_iff,
          devAllowed_iff (List.mem_of_mem_filter member) (hardware orm filter row member)]
        unfold FrameIndex.devPasses
        rw [Option.all_eq_true]
        simp only [decide_eq_true_iff]
        rfl
    rw [if_pos orm, kept]
    simp only [List.isEmpty_iff]
    split
    · next empty =>
        have none_kept : sampleRows index options col typ events = [] := by
          rw [← kept, empty]
          rfl
        rw [if_pos none_kept]
    · rfl

/-- The sums of a call are those of its rows: a table in the order of host, time and device with a
row for each key, or the `ValueError` of a key that does not fit. -/
theorem sum_per_sample_right (index : FrameIndex) (options : SumOptions) (col : ValueColumn)
    (typ : String) (events : Option (List String)) (few : index.frame.hosts.length < 2 ^ 15)
    (hardware : HardwareListed index options typ events) :
    (PartsFit index options typ (sampleRows index options col typ events) →
      ∃ table, sumPerSample index options col typ events = .ok table ∧
        (table.Pairwise fun a b => a.order < b.order) ∧
        ∀ entry, entry ∈ table ↔ Sampled index options col typ events entry.key ∧
          entry.sumVal = options.total (contributed index options col typ events entry.key)) ∧
    (¬ PartsFit index options typ (sampleRows index options col typ events) →
      sumPerSample index options col typ events = .error outOfRange) := by
  rw [sumPerSample_rows hardware]
  by_cases empty : sampleRows index options col typ events = []
  · rw [if_pos empty]
    constructor
    · intro _
      refine ⟨[], rfl, .nil, fun entry => ?_⟩
      unfold Sampled
      rw [empty]
      exact iff_of_false List.not_mem_nil fun found =>
        found.1.elim fun row here => List.not_mem_nil here.1
    · intro beyond
      rw [empty] at beyond
      apply absurd _ beyond
      unfold PartsFit
      split
      · exact fun row member => absurd member List.not_mem_nil
      · exact fun _ row member => absurd member List.not_mem_nil
  · rw [if_neg empty]
    constructor
    · intro fits
      obtain ⟨table, made, right⟩ := sumRows_right few sampleRows_inside fits
      exact ⟨table, made, right.ordered, right.entries⟩
    · exact sumRows_error few sampleRows_inside

end Sums

section Runs

def arcRow (host : Nat) (dev : ℤ) (owned : Bool) (arc : ℚ) : FrameRow :=
  ⟨5, host, 0, dev, owned, .nan, .num arc, .nan⟩

def diskIndex : FrameIndex where
  frame := {
    rows := [arcRow 0 (-3) true 9, arcRow 0 1 false 3, arcRow 0 2 false 4, arcRow 1 1 false 6]
    hosts := ["h0", "h1"]
    series := [("block", "rd")]
    devs := ["", "sda", "sdb", "j:42"]
    sorted := by decide +kernel
    seriesIn := by decide +kernel
    hostIn := by decide +kernel
    devIn := by decide +kernel
    seriesOnce := by decide +kernel
    hostsOnce := by decide +kernel
    devsOnce := by decide +kernel
    timesFit := by decide +kernel }
  shared := true
  residualTypes := ["block"]
  gpuAffinityDevs := some (.byHost [("h1", ["sda"])])

theorem disks_summed : diskIndex.frame.hosts.length < 2 ^ 15 ∧
    HardwareListed diskIndex { mode := .orm, devFilter := true } "block" none ∧
    PartsFit diskIndex { mode := .orm, devFilter := true } "block"
      (sampleRows diskIndex { mode := .orm, devFilter := true } .arc "block" none) ∧
    ∃ table, sumPerSample diskIndex { mode := .orm, devFilter := true } .arc "block" none =
        .ok table ∧
      (table.Pairwise fun a b => a.order < b.order) ∧
      ∀ entry, entry ∈ table ↔
        Sampled diskIndex { mode := .orm, devFilter := true } .arc "block" none entry.key ∧
        entry.sumVal = SumOptions.total { mode := .orm, devFilter := true }
          (contributed diskIndex { mode := .orm, devFilter := true } .arc "block" none
            entry.key) := by
  have few : diskIndex.frame.hosts.length < 2 ^ 15 := by decide
  have hardware : HardwareListed diskIndex { mode := .orm, devFilter := true } "block" none := by
    unfold HardwareListed
    decide +kernel
  have fits : PartsFit diskIndex { mode := .orm, devFilter := true } "block"
      (sampleRows diskIndex { mode := .orm, devFilter := true } .arc "block" none) := by
    unfold PartsFit
    decide +kernel
  exact ⟨few, hardware, fits, (sum_per_sample_right diskIndex { mode := .orm, devFilter := true }
    .arc "block" none few hardware).1 fits⟩

def strokes (n : Nat) : String := String.ofList (List.replicate n 'x')

def manyDevices : FrameIndex where
  frame := {
    rows := [arcRow 0 32768 true 1]
    hosts := ["h0"]
    series := [("gpu", "util")]
    devs := (List.range 32769).map strokes
    sorted := by decide +kernel
    seriesIn := by decide +kernel
    hostIn := by decide +kernel
    devIn := by
      rw [List.length_map, List.length_range]
      decide
    seriesOnce := by decide +kernel
    hostsOnce := by decide +kernel
    devsOnce := by
      apply List.Nodup.map _ List.nodup_range
      intro n m same
      have lists := String.ofList_injective same
      rw [← List.length_replicate (n := n) (a := 'x'), lists, List.length_replicate]
    timesFit := by decide +kernel }
  shared := false
  residualTypes := []
  gpuAffinityDevs := none

def copyOnHost : FrameIndex where
  frame := {
    rows := [arcRow 1 (-2) true 1]
    hosts := ["h0", "h1"]
    series := [("gpu", "util")]
    devs := ["", "g0", "j:42"]
    sorted := by decide +kernel
    seriesIn := by decide +kernel
    hostIn := by decide +kernel
    devIn := by decide +kernel
    seriesOnce := by decide +kernel
    hostsOnce := by decide +kernel
    devsOnce := by decide +kernel
    timesFit := by decide +kernel }
  shared := true
  residualTypes := []
  gpuAffinityDevs := some (.byHost [("h0", ["g0"]), ("h1", [])])

/-- The device filter is not put on in `sql`, a device beyond its bits is an error, and a copy is
taken for the device of the host before its own. -/
theorem sums_depart :
    (copyOnHost.devPasses (arcRow 1 (-2) true 1) = false ∧
      sumPerSample copyOnHost { devFilter := true } .arc "gpu" none =
        .ok [⟨1, 5, .num 1, none⟩]) ∧
    sumPerSample manyDevices { mode := .orm, byDev := true } .arc "gpu" none = .error outOfRange ∧
    sumPerSample copyOnHost { mode := .orm, devFilter := true } .arc "gpu" none =
      .ok [⟨1, 5, .num 1, none⟩] := by
  refine ⟨by decide +kernel, by decide +kernel, by decide +kernel⟩

end Runs

end PerfStats.Metrics
