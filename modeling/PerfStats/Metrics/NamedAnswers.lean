import PerfStats.Metrics.FrameBuild
import PerfStats.Metrics.FrameQueries

namespace PerfStats.Metrics

open Lib

section ByName

def JobFrame.named (frame : JobFrame) : FrameRow → NamedRow := frame.data.named

namespace NamedRow

def col (row : NamedRow) : ValueColumn → Exact
  | .value => row.value
  | .arc => row.arc
  | .delta => row.delta

def side (row : NamedRow) : ℤ := if row.copy then -1 else 0

def valid (options : SumOptions) (col : ValueColumn) (row : NamedRow) : Bool :=
  finiteMask (options.ceiling col) options.nonnegative (row.col col)

def keyOf (options : SumOptions) (row : NamedRow) : String × ℤ × Option (String × Bool) :=
  (row.host, row.timeUs, if options.byDev then some (row.dev, row.copy) else none)

end NamedRow

def GpuAffinity.listsFor (host : String) : GpuAffinity → List (List String)
  | .everyHost devs => [devs]
  | .byHost map => (map.filter fun entry => entry.1 == host).map Prod.snd

namespace NamedRow

def listed (affinity : GpuAffinity) (row : NamedRow) : Bool :=
  !(affinity.listsFor row.host).isEmpty

def granted (affinity : GpuAffinity) (row : NamedRow) : Bool :=
  (affinity.listsFor row.host).any (·.contains row.dev) && !row.copy && row.dev != ""

end NamedRow

/-- A call of `sum_per_sample` to any frame with these series; `wide` where the type is read
host-wide. -/
structure NamedQuery where
  wide : Bool
  gpu : Option GpuAffinity
  series : List (String × String)
  options : SumOptions
  col : ValueColumn
  typ : String
  events : Option (List String)

def FrameIndex.query (index : FrameIndex) (options : SumOptions) (col : ValueColumn)
    (typ : String) (events : Option (List String)) : NamedQuery :=
  ⟨index.hostWide typ, index.gpuAffinityDevs, index.frame.series, options, col, typ, events⟩

namespace NamedQuery

variable (query : NamedQuery)

def inScope (row : NamedRow) : Bool :=
  row.series.1 == query.typ && query.events.all (·.contains row.series.2) &&
    (query.wide || row.owned)

def passes (row : NamedRow) : Bool :=
  decide (query.options.mode = .sql) ||
    ((!query.options.rejectDcgmBlank || belowBlank (row.col query.col)) &&
      (!query.options.devFilter ||
        query.gpu.all fun affinity => !row.listed affinity || row.granted affinity))

def sample (rows : List NamedRow) : List NamedRow :=
  (rows.filter query.inScope).filter query.passes

def contributed (rows : List NamedRow) : List Exact :=
  if query.wide && !query.options.byDev then
    query.series.filterMap fun pair =>
      reducedCopies NamedRow.side (NamedRow.col · query.col)
        (NamedRow.valid query.options query.col) (rows.filter fun row => decide (row.series = pair))
  else (rows.filter (NamedRow.valid query.options query.col)).map (NamedRow.col · query.col)

def Fits (rows : List NamedRow) : Prop :=
  query.options.byDev = false → query.wide = true →
    ∀ row ∈ query.sample rows, ∀ i, query.series[i]? = some row.series → i < 2 ^ 16

def NoListedCopy (rows : List NamedRow) : Prop :=
  query.options.mode = .orm → query.options.devFilter = true →
    ∀ row ∈ rows, query.inScope row = true →
      ∀ affinity ∈ query.gpu, row.listed affinity = true → row.copy = false

end NamedQuery

structure NamedSum where
  host : String
  timeUs : ℤ
  sumVal : Exact
  dev : Option (String × Bool)
  deriving DecidableEq

def NamedQuery.Answers (query : NamedQuery) (rows : List NamedRow) (entry : NamedSum) : Prop :=
  ∃ row ∈ query.sample rows,
    (query.options.mode = .sql → row.valid query.options query.col = true) ∧
    (entry.host, entry.timeUs, entry.dev) = row.keyOf query.options ∧
    entry.sumVal = query.options.total (query.contributed ((query.sample rows).filter fun other =>
      decide (other.keyOf query.options = row.keyOf query.options)))

def JobFrame.nameSum (frame : JobFrame) (entry : AggRow) : NamedSum where
  host := frame.hosts.getD entry.hostId.toNat ""
  timeUs := entry.timeUs
  sumVal := entry.sumVal
  dev := entry.devId.map fun dev => (frame.devs.getD dev.natAbs "", decide (dev < 0))

def JobFrame.nameSample (frame : JobFrame) (key : ℤ × ℤ) : String × ℤ :=
  (frame.hosts.getD key.1.toNat "", key.2)

end ByName

section Rows

variable {frame : JobFrame} {row other : FrameRow}

theorem named_host (member : row ∈ frame.rows) :
    frame.hosts[row.hostId]? = some (frame.named row).host := by
  have inside := frame.hostIn row member
  rw [List.getElem?_eq_getElem inside]
  exact congrArg some (List.getD_eq_getElem _ _ inside).symm

theorem named_series (member : row ∈ frame.rows) :
    frame.series[row.seriesId]? = some (frame.named row).series := by
  have inside := frame.seriesIn row member
  rw [List.getElem?_eq_getElem inside]
  exact congrArg some (List.getD_eq_getElem _ _ inside).symm

theorem named_dev (member : row ∈ frame.rows) :
    frame.devs[row.devId.natAbs]? = some (frame.named row).dev := by
  have inside := frame.devIn row member
  rw [List.getElem?_eq_getElem inside]
  exact congrArg some (List.getD_eq_getElem _ _ inside).symm

theorem id_of_name {α : Type*} {names : List α} (distinct : names.Nodup) {i j : Nat}
    {name other : α} (at_i : names[i]? = some name) (at_j : names[j]? = some other) :
    i = j ↔ name = other := by
  constructor
  · intro same
    rw [same, at_j] at at_i
    exact (Option.some.inj at_i).symm
  · intro same
    rw [← same] at at_j
    exact (List.getElem?_inj (List.getElem?_eq_some_iff.mp at_i).1 distinct).mp
      (at_i.trans at_j.symm)

theorem host_iff (member : row ∈ frame.rows) (member' : other ∈ frame.rows) :
    row.hostId = other.hostId ↔ (frame.named row).host = (frame.named other).host :=
  id_of_name frame.hostsOnce (named_host member) (named_host member')

theorem dev_iff (member : row ∈ frame.rows) (member' : other ∈ frame.rows) :
    row.devId = other.devId ↔ (frame.named row).dev = (frame.named other).dev ∧
      (frame.named row).copy = (frame.named other).copy := by
  rw [← id_of_name frame.devsOnce (named_dev member) (named_dev member')]
  show _ ↔ _ ∧ decide (row.devId < 0) = decide (other.devId < 0)
  rw [decide_eq_decide]
  omega

theorem keyOf_named (options : SumOptions) (member : row ∈ frame.rows)
    (member' : other ∈ frame.rows) :
    options.keyOf row = options.keyOf other ↔
      (frame.named row).keyOf options = (frame.named other).keyOf options := by
  have times : (frame.named row).timeUs = row.timeUs := rfl
  have times' : (frame.named other).timeUs = other.timeUs := rfl
  unfold SumOptions.keyOf NamedRow.keyOf
  rw [Prod.mk.injEq, Prod.mk.injEq, Prod.mk.injEq, Prod.mk.injEq, Nat.cast_inj,
    host_iff member member', times, times']
  refine and_congr_right fun _ => and_congr_right fun _ => ?_
  cases options.byDev with
  | false => rw [if_neg Bool.false_ne_true, if_neg Bool.false_ne_true]; exact iff_of_true rfl rfl
  | true =>
    rw [if_pos rfl, if_pos rfl, if_pos rfl, if_pos rfl, Option.some.injEq, Option.some.injEq,
      Prod.mk.injEq]
    exact dev_iff member member'

theorem named_col (row : FrameRow) (col : ValueColumn) :
    (frame.named row).col col = row.col col := by
  cases col <;> rfl

theorem named_valid (options : SumOptions) (col : ValueColumn) (row : FrameRow) :
    (frame.named row).valid options col = options.valid col row := by
  unfold NamedRow.valid SumOptions.valid
  rw [named_col]

theorem named_side (row : FrameRow) : 0 ≤ (frame.named row).side ↔ 0 ≤ row.devId := by
  show 0 ≤ (if decide (row.devId < 0) then (-1 : ℤ) else 0) ↔ _
  split
  · next copy =>
      rw [decide_eq_true_iff] at copy
      omega
  · next hardware =>
      rw [decide_eq_true_iff] at hardware
      omega

theorem map_filter_named {ρ ν : Type*} {l : List ρ} {name : ρ → ν} {keep : ρ → Bool}
    {keepNamed : ν → Bool} (same : ∀ r ∈ l, keepNamed (name r) = keep r) :
    (l.filter keep).map name = (l.map name).filter keepNamed := by
  rw [List.filter_map]
  congr 1
  apply List.filter_congr
  intro r member
  exact (same r member).symm

end Rows

section Copies

variable {ρ ν : Type*} {dev : ρ → ℤ} {value : ρ → Exact} {mask : ρ → Bool}

theorem ne_nil_of_perm {l l' : List ρ} (perm : l.Perm l') : l ≠ [] ↔ l' ≠ [] := by
  rw [← List.length_pos_iff, ← List.length_pos_iff, perm.length_eq]

theorem reducedCopies_perm {l l' : List ρ} (perm : l.Perm l') :
    reducedCopies dev value mask l = reducedCopies dev value mask l' := by
  have hw := perm.filter fun r => mask r && decide (0 ≤ dev r)
  have j := perm.filter fun r => mask r && decide (dev r < 0)
  unfold reducedCopies
  dsimp only
  rw [Exact.sum_perm (hw.map value), Exact.maximum_perm (j.map value)]
  refine if_congr (ne_nil_of_perm hw) rfl (if_congr (ne_nil_of_perm j) rfl rfl)

theorem reducedCopies_map {name : ρ → ν} {dev' : ν → ℤ} {value' : ν → Exact} {mask' : ν → Bool}
    (sides : ∀ r, 0 ≤ dev' (name r) ↔ 0 ≤ dev r) (values : ∀ r, value' (name r) = value r)
    (masks : ∀ r, mask' (name r) = mask r) (l : List ρ) :
    reducedCopies dev' value' mask' (l.map name) = reducedCopies dev value mask l := by
  have hw : ((l.map name).filter fun r => mask' r && decide (0 ≤ dev' r)) =
      (l.filter fun r => mask r && decide (0 ≤ dev r)).map name :=
    (map_filter_named fun r _ => by rw [masks, decide_eq_decide.mpr (sides r)]).symm
  have j : ((l.map name).filter fun r => mask' r && decide (dev' r < 0)) =
      (l.filter fun r => mask r && decide (dev r < 0)).map name :=
    (map_filter_named fun r _ => by
      rw [masks, decide_eq_decide.mpr (not_le.symm.trans ((sides r).not.trans not_le))]).symm
  have named : value' ∘ name = value := funext values
  unfold reducedCopies
  dsimp only
  rw [hw, j, List.map_map, List.map_map, named]
  simp only [ne_eq, List.map_eq_nil_iff]

end Copies

section Sums

variable {index : FrameIndex} {options : SumOptions} {col : ValueColumn} {typ : String}
  {events : Option (List String)} {row : FrameRow} {affinity : GpuAffinity} {query : NamedQuery}

theorem listsFor_iff (member : row ∈ index.frame.rows)
    (P : List String → Prop) :
    (∃ entry ∈ affinity.perHost index.frame.hosts,
      index.frame.hosts[row.hostId]? = some entry.1 ∧ P entry.2) ↔
    ∃ devs ∈ affinity.listsFor (index.frame.named row).host, P devs := by
  have host := named_host member
  rw [host]
  cases affinity with
  | everyHost devs =>
    constructor
    · intro found
      obtain ⟨entry, inside, _, holds⟩ := found
      obtain ⟨_, _, rfl⟩ := List.mem_map.mp inside
      exact ⟨devs, List.mem_singleton_self devs, holds⟩
    · intro found
      obtain ⟨own, inside, holds⟩ := found
      rw [List.mem_singleton.mp inside] at holds
      exact ⟨_, List.mem_map_of_mem (List.mem_of_getElem? host), rfl, holds⟩
  | byHost map =>
    constructor
    · intro found
      obtain ⟨entry, inside, same, holds⟩ := found
      refine ⟨entry.2, List.mem_map_of_mem (List.mem_filter.mpr ⟨inside, ?_⟩), holds⟩
      exact beq_iff_eq.mpr (Option.some.inj same).symm
    · intro found
      obtain ⟨devs, inside, holds⟩ := found
      obtain ⟨entry, kept, rfl⟩ := List.mem_map.mp inside
      obtain ⟨present, same⟩ := List.mem_filter.mp kept
      exact ⟨entry, present, congrArg some (beq_iff_eq.mp same).symm, holds⟩

theorem listed_named (member : row ∈ index.frame.rows) :
    (index.frame.named row).listed affinity = true ↔ index.Listed affinity row := by
  have all := @listsFor_iff index row affinity member fun _ => True
  simp only [and_true] at all
  unfold NamedRow.listed FrameIndex.Listed
  rw [all, Bool.not_eq_true', List.isEmpty_eq_false_iff_exists_mem]

theorem granted_named (first : index.frame.devs[0]? = some "")
    (member : row ∈ index.frame.rows) :
    (index.frame.named row).granted affinity = true ↔ index.Granted affinity row := by
  have dev := named_dev member
  have own : ∀ devs : List String,
      (∃ name ∈ devs, 0 < row.devId ∧ index.frame.devs[row.devId.toNat]? = some name) ↔
        devs.contains (index.frame.named row).dev = true ∧
          (index.frame.named row).copy = false ∧ (index.frame.named row).dev ≠ "" := by
    intro devs
    have copy : (index.frame.named row).copy = false ↔ 0 ≤ row.devId := by
      show decide (row.devId < 0) = false ↔ _
      rw [decide_eq_false_iff_not, not_lt]
    have empty := id_of_name index.frame.devsOnce dev first
    rw [copy, ne_eq, ← empty, List.contains_iff_mem]
    constructor
    · intro found
      obtain ⟨name, inside, positive, named⟩ := found
      rw [show row.devId.toNat = row.devId.natAbs by omega, dev] at named
      rw [Option.some.inj named]
      exact ⟨inside, by omega, by omega⟩
    · intro found
      obtain ⟨inside, hardware, apart⟩ := found
      refine ⟨_, inside, by omega, ?_⟩
      rw [show row.devId.toNat = row.devId.natAbs by omega, dev]
  refine Iff.trans ?_ (listsFor_iff member fun devs =>
    ∃ dev ∈ devs, 0 < row.devId ∧ index.frame.devs[row.devId.toNat]? = some dev).symm
  unfold NamedRow.granted
  rw [Bool.and_eq_true, Bool.and_eq_true, List.any_eq_true, Bool.not_eq_true',
    bne_iff_ne]
  simp only [own]
  constructor
  · intro found
    obtain ⟨⟨⟨devs, inside, holds⟩, copy⟩, apart⟩ := found
    exact ⟨devs, inside, holds, copy, apart⟩
  · intro found
    obtain ⟨devs, inside, holds, copy, apart⟩ := found
    exact ⟨⟨⟨devs, inside, holds⟩, copy⟩, apart⟩

theorem inScope_named (member : row ∈ index.frame.rows) :
    (index.query options col typ events).inScope (index.frame.named row) =
      (index.frame.selects typ events row && (index.hostWide typ || row.owned)) := by
  unfold JobFrame.selects
  rw [named_series member]
  rfl

theorem passes_named (first : index.frame.devs[0]? = some "") (member : row ∈ index.frame.rows) :
    (index.query options col typ events).passes (index.frame.named row) =
      passesFilters index options col row := by
  have devices : (index.gpuAffinityDevs.all fun affinity =>
      !(index.frame.named row).listed affinity || (index.frame.named row).granted affinity) =
      index.devPasses row := by
    congr 1
    funext affinity
    rw [Bool.eq_iff_iff, Bool.or_eq_true, Bool.not_eq_true', ← Bool.not_eq_true,
      listed_named member, granted_named first member, decide_eq_true_iff]
    exact imp_iff_not_or.symm
  unfold NamedQuery.passes passesFilters FrameIndex.query
  rw [devices, named_col]

theorem sample_named (first : index.frame.devs[0]? = some "") :
    (sampleRows index options col typ events).map index.frame.named =
      (index.query options col typ events).sample (index.frame.rows.map index.frame.named) := by
  have scoped_first : (index.scope typ events).map index.frame.named =
      (index.frame.rows.map index.frame.named).filter
        (index.query options col typ events).inScope :=
    map_filter_named fun row member => inScope_named member
  unfold sampleRows NamedQuery.sample
  rw [← scoped_first]
  apply map_filter_named
  intro row member
  exact passes_named first (List.mem_of_mem_filter member)

theorem filterMap_range {α β : Type*} {l : List α} {f : Nat → Option β} {g : α → Option β}
    (same : ∀ i a, l[i]? = some a → f i = g a) :
    (List.range l.length).filterMap f = l.filterMap g := by
  induction l using List.reverseRecOn with
  | nil => rfl
  | append_singleton l a ih =>
    rw [List.length_append, List.length_singleton, List.range_succ, List.filterMap_append,
      List.filterMap_append, ih fun i b here => same i b
        ((List.getElem?_append_left (List.getElem?_eq_some_iff.mp here).1).trans here)]
    congr 1
    have last := same l.length a List.getElem?_concat_length
    rw [List.filterMap_cons, List.filterMap_cons, last]
    rfl

theorem contributed_named {rows : List FrameRow} (inside : ∀ row ∈ rows, row ∈ index.frame.rows) :
    contributedOf index options col typ rows =
      (index.query options col typ events).contributed (rows.map index.frame.named) := by
  unfold contributedOf NamedQuery.contributed FrameIndex.query
  split
  · apply filterMap_range
    intro event pair here
    have own : (rows.map index.frame.named).filter (fun row => decide (row.series = pair)) =
        (rows.filter fun row => decide (row.seriesId = event)).map index.frame.named := by
      symm
      apply map_filter_named
      intro row member
      rw [decide_eq_decide]
      exact (id_of_name index.frame.seriesOnce (named_series (inside row member)) here).symm
    rw [own]
    exact (reducedCopies_map named_side (fun row => named_col row col)
      (named_valid options col) _).symm
  · rw [← map_filter_named fun row _ => named_valid options col row, List.map_map]
    exact List.map_congr_left fun row _ => (named_col row col).symm

theorem total_perm {vals vals' : List Exact} (perm : vals.Perm vals') :
    options.total vals = options.total vals' := by
  have empty : vals = [] ↔ vals' = [] := not_iff_not.mp (ne_nil_of_perm perm)
  unfold SumOptions.total
  rw [Exact.sum_perm perm]
  simp only [empty]

variable {rows rows' : List NamedRow}

theorem contributed_perm (perm : rows.Perm rows') :
    (query.contributed rows).Perm (query.contributed rows') := by
  unfold NamedQuery.contributed
  split
  · refine List.Perm.of_eq (List.filterMap_congr ?_)
    intro pair _
    exact reducedCopies_perm (perm.filter _)
  · exact (perm.filter _).map _

theorem sample_perm (perm : rows.Perm rows') :
    (query.sample rows).Perm (query.sample rows') :=
  (perm.filter _).filter _

theorem fits_perm (perm : rows.Perm rows') :
    query.Fits rows ↔ query.Fits rows' := by
  unfold NamedQuery.Fits
  simp only [(sample_perm perm).mem_iff]

theorem answers_perm (perm : rows.Perm rows')
    {entry : NamedSum} (answers : query.Answers rows entry) : query.Answers rows' entry := by
  obtain ⟨row, member, valid, key, sum⟩ := answers
  refine ⟨row, (sample_perm perm).mem_iff.mp member, valid, key, ?_⟩
  rw [sum]
  exact total_perm (contributed_perm ((sample_perm perm).filter _))

theorem partsFit_named (first : index.frame.devs[0]? = some "")
    (devices : options.byDev = true → index.frame.devs.length ≤ 2 ^ 15) :
    PartsFit index options typ (sampleRows index options col typ events) ↔
      (index.query options col typ events).Fits (index.frame.rows.map index.frame.named) := by
  unfold PartsFit NamedQuery.Fits
  rw [← sample_named first]
  split
  · next by_dev =>
      refine iff_of_true ?_ fun summed => absurd (by_dev.symm.trans summed) (by decide)
      intro row member
      have inside := index.frame.devIn row (sampleRows_inside row member)
      have few := devices by_dev
      unfold DevFits
      omega
  · next summed =>
      constructor
      · intro fit _ wide named member i here
        obtain ⟨row, of_row, rfl⟩ := List.mem_map.mp member
        have place := (id_of_name index.frame.seriesOnce
          (named_series (sampleRows_inside row of_row)) here).mpr rfl
        rw [← place]
        exact fit wide row of_row
      · intro fit wide row member
        exact fit (Bool.eq_false_of_not_eq_true summed) wide _ (List.mem_map_of_mem member) _
          (named_series (sampleRows_inside row member))

theorem hardware_named
    (hardware : (index.query options col typ events).NoListedCopy
      (index.frame.rows.map index.frame.named)) :
    HardwareListed index options typ events := by
  intro orm filtered row member affinity given listed
  obtain ⟨inside, wanted⟩ := List.mem_filter.mp member
  have hw := hardware orm filtered (index.frame.named row) (List.mem_map_of_mem inside)
    (by rw [inScope_named inside]; exact wanted) affinity given ((listed_named inside).mpr listed)
  have copy : decide (row.devId < 0) = false := hw
  rw [decide_eq_false_iff_not] at copy
  exact not_lt.mp copy

theorem namedSum_eq {entry entry' : NamedSum}
    (key : (entry.host, entry.timeUs, entry.dev) = (entry'.host, entry'.timeUs, entry'.dev))
    (sum : entry.sumVal = entry'.sumVal) : entry = entry' := by
  obtain ⟨host, rest⟩ := Prod.mk.inj key
  obtain ⟨time, dev⟩ := Prod.mk.inj rest
  cases entry
  cases entry'
  simp only [NamedSum.mk.injEq]
  exact ⟨host, time, sum, dev⟩

theorem nameSum_key {entry : AggRow} (key : options.keyOf row = entry.key) :
    ((index.frame.nameSum entry).host, (index.frame.nameSum entry).timeUs,
      (index.frame.nameSum entry).dev) = (index.frame.named row).keyOf options := by
  obtain ⟨host, rest⟩ := Prod.mk.inj key
  obtain ⟨time, dev⟩ := Prod.mk.inj rest
  unfold JobFrame.nameSum NamedRow.keyOf
  rw [← host, ← time, ← dev]
  cases options.byDev with
  | false => rfl
  | true => rfl

theorem sumPerSample_named (few : index.frame.hosts.length < 2 ^ 15)
    (first : index.frame.devs[0]? = some "")
    (devices : options.byDev = true → index.frame.devs.length ≤ 2 ^ 15)
    (hardware : (index.query options col typ events).NoListedCopy
      (index.frame.rows.map index.frame.named)) :
    ((index.query options col typ events).Fits (index.frame.rows.map index.frame.named) →
      ∃ table, sumPerSample index options col typ events = .ok table ∧
        (table.map index.frame.nameSum).Nodup ∧
        ∀ entry, entry ∈ table.map index.frame.nameSum ↔
          (index.query options col typ events).Answers (index.frame.rows.map index.frame.named)
            entry) ∧
    (¬ (index.query options col typ events).Fits (index.frame.rows.map index.frame.named) →
      sumPerSample index options col typ events = .error outOfRange) := by
  obtain ⟨right, wrong⟩ := sum_per_sample_right index options col typ events few
    (hardware_named hardware)
  rw [partsFit_named first devices] at right wrong
  refine ⟨?_, wrong⟩
  intro fits
  obtain ⟨table, made, ordered, entries⟩ := right fits
  have of_key : ∀ row ∈ sampleRows index options col typ events,
      ((sampleRows index options col typ events).filter fun other =>
        decide (options.keyOf other = options.keyOf row)).map index.frame.named =
      ((index.query options col typ events).sample (index.frame.rows.map index.frame.named)).filter
        fun other => decide (other.keyOf options = (index.frame.named row).keyOf options) := by
    intro row member
    rw [← sample_named first]
    apply map_filter_named
    intro other present
    rw [decide_eq_decide]
    exact (keyOf_named options (sampleRows_inside other present)
      (sampleRows_inside row member)).symm
  have total : ∀ row ∈ sampleRows index options col typ events,
      options.total (contributed index options col typ events (options.keyOf row)) =
        options.total ((index.query options col typ events).contributed
          (((index.query options col typ events).sample
            (index.frame.rows.map index.frame.named)).filter fun other =>
              decide (other.keyOf options = (index.frame.named row).keyOf options))) := by
    intro row member
    rw [← of_key row member]
    exact congrArg options.total (contributed_named fun other kept =>
      sampleRows_inside other (List.mem_of_mem_filter kept))
  refine ⟨table, made, ?_, ?_⟩
  · have distinct : table.Nodup := ordered.imp fun lt same =>
      absurd (congrArg AggRow.order same) (ne_of_lt lt)
    refine distinct.map_on ?_
    intro entry member entry' member' same
    obtain ⟨⟨row, of_row, key, _⟩, sum⟩ := (entries entry).mp member
    obtain ⟨⟨row', of_row', key', _⟩, sum'⟩ := (entries entry').mp member'
    have named := @nameSum_key index options row entry key
    rw [same, @nameSum_key index options row' entry' key',
      ← keyOf_named options (sampleRows_inside row' of_row') (sampleRows_inside row of_row), key,
      key'] at named
    obtain ⟨host, rest⟩ := Prod.mk.inj named
    obtain ⟨time, dev⟩ := Prod.mk.inj rest
    cases entry
    cases entry'
    have sums : (index.frame.nameSum _).sumVal = (index.frame.nameSum _).sumVal :=
      congrArg NamedSum.sumVal same
    simp only [AggRow.mk.injEq]
    exact ⟨host.symm, time.symm, sums, dev.symm⟩
  · intro entry
    rw [List.mem_map]
    constructor
    · intro found
      obtain ⟨own, member, rfl⟩ := found
      obtain ⟨⟨row, of_row, key, valid⟩, sum⟩ := (entries own).mp member
      refine ⟨index.frame.named row, ?_, ?_, nameSum_key key, ?_⟩
      · rw [← sample_named first]
        exact List.mem_map_of_mem of_row
      · intro sql
        exact (named_valid options col row).trans (valid sql)
      · rw [← key] at sum
        exact sum.trans (total row of_row)
    · intro answers
      obtain ⟨named, member, valid, key, sum⟩ := answers
      rw [← sample_named first] at member
      obtain ⟨row, of_row, rfl⟩ := List.mem_map.mp member
      have sum : entry.sumVal = options.total
        (contributed index options col typ events (options.keyOf row)) :=
          sum.trans (total row of_row).symm
      have is_entry := (@nameSum_key index options row
        ⟨(options.keyOf row).1, (options.keyOf row).2.1, entry.sumVal, (options.keyOf row).2.2⟩
        rfl).trans key.symm
      refine ⟨⟨(options.keyOf row).1, (options.keyOf row).2.1, entry.sumVal,
        (options.keyOf row).2.2⟩, (entries _).mpr ⟨⟨row, of_row, rfl, ?_⟩, sum⟩, ?_⟩
      · intro sql
        exact (named_valid options col row).symm.trans (valid sql)
      · exact namedSum_eq is_entry rfl

end Sums

section Others

variable {index : FrameIndex} {row other : FrameRow}

def NamedRow.sample (row : NamedRow) : String × ℤ := (row.host, row.timeUs)

theorem sample_iff (member : row ∈ index.frame.rows) (member' : other ∈ index.frame.rows) :
    row.sample = other.sample ↔
      (index.frame.named row).sample = (index.frame.named other).sample := by
  have times : (index.frame.named row).timeUs = row.timeUs := rfl
  have times' : (index.frame.named other).timeUs = other.timeUs := rfl
  unfold FrameRow.sample NamedRow.sample
  rw [Prod.mk.injEq, Prod.mk.injEq, Nat.cast_inj, host_iff member member', times, times']

theorem nameSample_row (row : FrameRow) :
    index.frame.nameSample row.sample = (index.frame.named row).sample := rfl

theorem hostTimeKeys_named (few : index.frame.hosts.length ≤ 2 ^ 16) :
    ∃ keys, hostTimeKeys index = .ok keys ∧ (keys.map index.frame.nameSample).Nodup ∧
      ∀ key, key ∈ keys.map index.frame.nameSample ↔
        ∃ row ∈ index.frame.rows.map index.frame.named, row.owned = true ∧ row.sample = key := by
  obtain ⟨keys, made, distinct, members⟩ := hostTimeKeys_spec few
  refine ⟨keys, made, distinct.map_on ?_, fun key => ?_⟩
  · intro key member key' member' same
    obtain ⟨row, inside, _, rfl⟩ := (members key).mp member
    obtain ⟨other, inside', _, rfl⟩ := (members key').mp member'
    exact (sample_iff inside inside').mpr same
  · rw [List.mem_map]
    constructor
    · intro found
      obtain ⟨own, member, same⟩ := found
      obtain ⟨row, inside, owned, rfl⟩ := (members own).mp member
      exact ⟨_, List.mem_map_of_mem inside, owned, same⟩
    · intro found
      obtain ⟨named, member, owned, same⟩ := found
      obtain ⟨row, inside, rfl⟩ := List.mem_map.mp member
      exact ⟨row.sample, (members _).mpr ⟨row, inside, owned, rfl⟩, same⟩

def namedScope (wide : Bool) (pair : Option (String × String)) (rows : List NamedRow) :
    List NamedRow :=
  rows.filter fun row => decide (pair = some row.series) && (wide || row.owned)

theorem seriesScope_named (typ : String) (sid : Nat) :
    (index.seriesScope typ sid).map index.frame.named =
      namedScope (index.hostWide typ) index.frame.series[sid]?
        (index.frame.rows.map index.frame.named) := by
  apply map_filter_named
  intro row member
  have own : index.frame.series[sid]? = some (index.frame.named row).series ↔
      row.seriesId = sid := by
    have at_row := named_series member
    constructor
    · intro here
      exact (id_of_name index.frame.seriesOnce at_row here).mpr rfl
    · intro same
      rw [← same, at_row]
  rw [decide_eq_decide.mpr own]
  rfl

theorem seriesDelta_named (few : index.frame.hosts.length ≤ 2 ^ 16) {typ : String}
    (wide : index.hostWide typ = true) (sid : Nat) :
    ∃ entries : List ((String × ℤ) × Exact),
      seriesDelta index typ sid = .ok (sumOfSome (entries.map Prod.snd)) ∧ entries.Nodup ∧
      ∀ key val, (key, val) ∈ entries ↔
        reducedCopies NamedRow.side NamedRow.delta
          (fun row => finiteMask (some maxSaneCounterDelta) false row.delta)
          ((namedScope true index.frame.series[sid]?
            (index.frame.rows.map index.frame.named)).filter fun row => decide (row.sample = key)) =
            some val := by
  obtain ⟨entries, made, distinct, members⟩ := seriesDelta_wide few wide sid
  have inside := @seriesScope_inside index typ sid
  have own : ∀ row ∈ index.seriesScope typ sid,
      reducedCopies NamedRow.side NamedRow.delta
        (fun row => finiteMask (some maxSaneCounterDelta) false row.delta)
        ((namedScope true index.frame.series[sid]?
          (index.frame.rows.map index.frame.named)).filter fun other =>
            decide (other.sample = (index.frame.named row).sample)) =
      reducedCopies FrameRow.devId FrameRow.delta
        (fun row => finiteMask (some maxSaneCounterDelta) false row.delta)
        ((index.seriesScope typ sid).filter fun other => decide (other.sample = row.sample)) := by
    intro row member
    have kept : ((index.seriesScope typ sid).map index.frame.named).filter
        (fun other => decide (other.sample = (index.frame.named row).sample)) =
        ((index.seriesScope typ sid).filter fun other => decide (other.sample = row.sample)).map
          index.frame.named := by
      symm
      apply map_filter_named
      intro other present
      exact decide_eq_decide.mpr (sample_iff (inside other present) (inside row member)).symm
    rw [← wide, ← seriesScope_named, kept]
    exact reducedCopies_map named_side (fun _ => rfl) (fun _ => rfl) _
  have of_value : ∀ {key : ℤ × ℤ} {val : Exact}, (key, val) ∈ entries →
      ∃ row ∈ index.seriesScope typ sid, row.sample = key := by
    intro key val member
    obtain ⟨row, copy, _⟩ := reducedCopies_ne_none.mp
      (by rw [(members key val).mp member]; exact Option.some_ne_none val)
    obtain ⟨present, same⟩ := List.mem_filter.mp copy
    exact ⟨row, present, of_decide_eq_true same⟩
  refine ⟨entries.map fun entry => (index.frame.nameSample entry.1, entry.2), ?_, ?_, ?_⟩
  · rw [made, List.map_map]
    rfl
  · refine distinct.map_on ?_
    intro entry member entry' member' same
    obtain ⟨row, present, is_key⟩ := of_value member
    obtain ⟨other, present', is_key'⟩ := of_value member'
    obtain ⟨keys, vals⟩ := Prod.mk.inj same
    rw [← is_key, ← is_key', nameSample_row, nameSample_row,
      ← sample_iff (inside row present) (inside other present'), is_key, is_key'] at keys
    exact Prod.ext keys vals
  · intro key val
    rw [List.mem_map]
    constructor
    · intro found
      obtain ⟨⟨k, v⟩, member, same⟩ := found
      obtain ⟨row, present, is_key⟩ := of_value member
      obtain ⟨keys, vals⟩ := Prod.mk.inj same
      rw [← keys, ← is_key, nameSample_row, own row present, is_key, ← vals]
      exact (members k v).mp member
    · intro value
      obtain ⟨named, copy, _⟩ := reducedCopies_ne_none.mp
        (by rw [value]; exact Option.some_ne_none val)
      obtain ⟨present, is_key⟩ := List.mem_filter.mp copy
      rw [← wide, ← seriesScope_named] at present
      obtain ⟨row, member, rfl⟩ := List.mem_map.mp present
      have is_key : (index.frame.named row).sample = key := of_decide_eq_true is_key
      refine ⟨(row.sample, val), (members _ _).mpr ?_, ?_⟩
      · rw [← own row member, is_key]
        exact value
      · dsimp only
        rw [nameSample_row, is_key]

end Others

end PerfStats.Metrics
