import PerfStats.Metrics.PackedKeys

namespace PerfStats.Metrics

open Lib

section Model

/-- A row of a `JobFrame`: a `j:` copy has a negative device. -/
structure FrameRow where
  timeUs : ℤ
  hostId : Nat
  seriesId : Nat
  devId : ℤ
  owned : Bool
  value : Exact
  arc : Exact
  delta : Exact
  deriving DecidableEq

def FrameRow.order (row : FrameRow) : ℕ ×ₗ ℕ ×ₗ ℤ ×ₗ ℤ :=
  toLex (row.seriesId, toLex (row.hostId, toLex (row.devId, row.timeUs)))

def timeAxis (rows : List FrameRow) : List ℤ :=
  (rows.map FrameRow.timeUs).dedup.insertionSort (· ≤ ·)

/-- The contract of a frame: the order of rows, ids within the tables of names, names that differ,
and times that an `int32` can count. -/
structure JobFrame where
  rows : List FrameRow
  hosts : List String
  series : List (String × String)
  devs : List String
  sorted : rows.Pairwise fun a b => a.order ≤ b.order
  seriesIn : ∀ row ∈ rows, row.seriesId < series.length
  hostIn : ∀ row ∈ rows, row.hostId < hosts.length
  devIn : ∀ row ∈ rows, row.devId.natAbs < devs.length
  seriesOnce : series.Nodup
  hostsOnce : hosts.Nodup
  devsOnce : devs.Nodup
  timesFit : (timeAxis rows).length ≤ 2 ^ 31

namespace JobFrame

variable (frame : JobFrame)

def timeIndex (row : FrameRow) : ℤ :=
  (BitVec.ofNat 32 (searchSorted (timeAxis frame.rows).length
    (fun i => (timeAxis frame.rows).getD i 0) row.timeUs)).toInt

/-- `series_bounds`. -/
def seriesBound (s : Nat) : Nat :=
  searchSorted frame.rows.length (column frame.rows 0 fun row => (row.seriesId : ℤ)) s

def rowsForSeries (sids : List Nat) : List FrameRow :=
  (sids.insertionSort (· ≤ ·)).flatMap fun s =>
    (frame.rows.drop (frame.seriesBound s)).take (frame.seriesBound (s + 1) - frame.seriesBound s)

def seriesIds (typ : String) (events : Option (List String)) : List Nat :=
  (frame.series.zipIdx.filter fun entry =>
    entry.1.1 == typ && events.all (·.contains entry.1.2)).map Prod.snd

end JobFrame

/-- `gpu_affinity_devs`: one list of devices for every host, or one for each of some hosts. -/
inductive GpuAffinity where
  | everyHost (devs : List String)
  | byHost (map : List (String × List String))

def GpuAffinity.perHost (hosts : List String) : GpuAffinity → List (String × List String)
  | .everyHost devs => hosts.map fun host => (host, devs)
  | .byHost map => map

def idOf (names : List String) (first : Nat) (name : String) : Option Nat :=
  ((names.zipIdx.filter fun entry => decide (first ≤ entry.2) && entry.1 == name).getLast?).map
    Prod.snd

structure FrameIndex where
  frame : JobFrame
  shared : Bool
  residualTypes : List String
  gpuAffinityDevs : Option GpuAffinity

namespace FrameIndex

variable (index : FrameIndex)

def hostWide (typ : String) : Bool :=
  (index.frame.series.map Prod.fst).contains typ && index.shared && index.residualTypes.contains typ

def scopedRows (typ : String) (rows : List FrameRow) : List FrameRow :=
  if index.hostWide typ then rows else rows.filter FrameRow.owned

def scopedHosts (affinity : GpuAffinity) : List (Nat × List String) :=
  (affinity.perHost index.frame.hosts).filterMap fun entry =>
    (idOf index.frame.hosts 0 entry.1).map fun host => (host, entry.2)

def gpuAllowedKeys (affinity : GpuAffinity) : List ℤ :=
  (index.scopedHosts affinity).flatMap fun entry =>
    entry.2.filterMap fun dev =>
      (idOf index.frame.devs 1 dev).map fun id : Nat =>
        (entry.1 * index.frame.devs.length + id : ℤ)

/-- `_dev_allowed_mask` of one row. -/
def devAllowed (row : FrameRow) : Bool :=
  index.gpuAffinityDevs.all fun affinity =>
    !((index.scopedHosts affinity).map Prod.fst).contains row.hostId ||
      (index.gpuAllowedKeys affinity).contains
        (row.hostId * index.frame.devs.length + row.devId)

end FrameIndex

end Model

section Names

theorem idOf_iff {names : List String} (distinct : names.Nodup) {first i : Nat} {name : String} :
    idOf names first name = some i ↔ first ≤ i ∧ names[i]? = some name := by
  unfold idOf
  rw [Option.map_eq_some_iff]
  constructor
  · intro found
    obtain ⟨entry, last, same⟩ := found
    obtain ⟨member, here⟩ := List.mem_filter.mp (List.mem_of_getLast? last)
    rw [Bool.and_eq_true, decide_eq_true_iff, beq_iff_eq] at here
    rw [← same, ← here.2]
    exact ⟨here.1, List.mk_mem_zipIdx_iff_getElem?.mp member⟩
  · intro found
    have member : (name, i) ∈ names.zipIdx.filter fun entry =>
        decide (first ≤ entry.2) && entry.1 == name := by
      rw [List.mem_filter, Bool.and_eq_true, decide_eq_true_iff, beq_iff_eq]
      exact ⟨List.mk_mem_zipIdx_iff_getElem?.mpr found.2, found.1, rfl⟩
    have is_last := List.getLast?_eq_some_getLast (List.ne_nil_of_mem member)
    refine ⟨_, is_last, ?_⟩
    obtain ⟨inside, here⟩ := List.mem_filter.mp (List.mem_of_getLast? is_last)
    rw [Bool.and_eq_true, beq_iff_eq] at here
    have own := List.mk_mem_zipIdx_iff_getElem?.mp inside
    rw [here.2] at own
    obtain ⟨short, at_last⟩ := List.getElem?_eq_some_iff.mp own
    exact (List.getElem?_inj short distinct).mp (own.trans found.2.symm)

end Names

section Times

theorem timeAxis_ordered (rows : List FrameRow) : (timeAxis rows).Pairwise (· < ·) := by
  have sorted := List.pairwise_insertionSort (· ≤ ·) (rows.map FrameRow.timeUs).dedup
  have distinct : (timeAxis rows).Nodup :=
    (List.perm_insertionSort _ _).nodup_iff.mpr (List.nodup_dedup _)
  exact (sorted.and distinct).imp fun both => lt_of_le_of_ne both.1 both.2

theorem mem_timeAxis {rows : List FrameRow} {row : FrameRow} (member : row ∈ rows) :
    row.timeUs ∈ timeAxis rows := by
  unfold timeAxis
  rw [List.mem_insertionSort, List.mem_dedup]
  exact List.mem_map_of_mem member

theorem searchSorted_at {n : Nat} {right : Nat → ℤ} (increasing : Increasing n right) {j : Nat}
    (inside : j < n) : searchSorted n right (right j) = j := by
  have own := (searchSorted_below increasing (right j) inside).not.mpr (lt_irrefl _)
  by_contra before
  have earlier : searchSorted n right (right j) < j := by omega
  have below := increasing _ j earlier inside
  have past := (searchSorted_below increasing (right j) (earlier.trans inside)).mpr below
  omega

theorem getD_increasing {l : List ℤ} (ordered : l.Pairwise (· < ·)) :
    Increasing l.length fun i => l.getD i 0 := by
  intro i j lt inside
  dsimp only
  rw [List.getD_eq_getElem _ _ (lt.trans inside), List.getD_eq_getElem _ _ inside]
  exact List.pairwise_iff_getElem.mp ordered i j _ inside lt

variable {frame : JobFrame} {row : FrameRow}

theorem timeIndex_spec (member : row ∈ frame.rows) :
    ∃ tix : Nat, frame.timeIndex row = tix ∧ tix < 2 ^ 31 ∧
      (timeAxis frame.rows)[tix]? = some row.timeUs := by
  obtain ⟨tix, inside, here⟩ := List.mem_iff_getElem.mp (mem_timeAxis member)
  have small := Nat.lt_of_lt_of_le inside frame.timesFit
  have place := searchSorted_at (getD_increasing (timeAxis_ordered frame.rows)) inside
  rw [List.getD_eq_getElem _ _ inside, here] at place
  refine ⟨tix, ?_, small, List.getElem?_eq_some_iff.mpr ⟨inside, here⟩⟩
  unfold JobFrame.timeIndex
  rw [place, BitVec.toInt_eq_toNat_of_lt, BitVec.toNat_ofNat, Nat.mod_eq_of_lt]
  · omega
  · rw [BitVec.toNat_ofNat, Nat.mod_eq_of_lt] <;> omega

end Times

section Scope

theorem searchSorted_column {ρ : Type*} {rows : List ρ} {field : ρ → ℤ} (key : ℤ)
    (sorted : rows.Pairwise fun a b => field a ≤ field b) :
    searchSorted rows.length (column rows 0 field) key =
      rows.countP fun row => decide (field row < key) := by
  unfold searchSorted
  induction rows with
  | nil => rfl
  | cons row rows ih =>
    obtain ⟨front, rest⟩ := List.pairwise_cons.mp sorted
    rw [List.length_cons, List.range_succ_eq_map, List.takeWhile_cons, List.takeWhile_map,
      List.countP_cons]
    have head : column (row :: rows) 0 field 0 = field row := rfl
    rw [head]
    split
    · next below =>
        rw [List.length_cons, List.length_map]
        exact congrArg (· + 1) (ih rest)
    · next above =>
        rw [Nat.add_zero, List.length_nil, eq_comm, List.countP_eq_zero]
        intro other member
        have le := front other member
        rw [decide_eq_true_iff] at above ⊢
        omega

variable {frame : JobFrame}

theorem rows_by_series (frame : JobFrame) :
    frame.rows.Pairwise fun a b => a.seriesId ≤ b.seriesId := by
  refine frame.sorted.imp ?_
  intro a b le
  obtain first | same := (Prod.Lex.le_iff).mp le
  · exact Nat.le_of_lt first
  · exact Nat.le_of_eq same.1

theorem seriesBound_eq (s : Nat) :
    frame.seriesBound s = frame.rows.countP fun row => decide (row.seriesId < s) := by
  unfold JobFrame.seriesBound
  rw [searchSorted_column]
  · apply List.countP_congr
    intro row _
    rw [decide_eq_true_iff, decide_eq_true_iff, Nat.cast_lt]
  · exact (rows_by_series frame).imp fun le => Nat.cast_le.mpr le

theorem series_slice (s : Nat) :
    (frame.rows.drop (frame.seriesBound s)).take
        (frame.seriesBound (s + 1) - frame.seriesBound s) =
      frame.rows.filter fun row => decide (row.seriesId = s) := by
  have slice := @slice_between FrameRow Nat _ FrameRow.seriesId frame.rows
    (fun t => decide (t < s)) (fun t => decide (t < s + 1))
    (by intro t u le; simp only [decide_eq_true_iff]; omega)
    (by intro t u le; simp only [decide_eq_true_iff]; omega)
    (by intro t; simp only [decide_eq_true_iff]; omega) (rows_by_series frame)
  rw [seriesBound_eq, seriesBound_eq, slice]
  apply List.filter_congr
  intro row _
  rw [Bool.eq_iff_iff, Bool.and_eq_true, Bool.not_eq_true', decide_eq_true_iff,
    decide_eq_false_iff_not, decide_eq_true_iff]
  omega

theorem rowsForSeries_eq {sids : List Nat} (ordered : sids.Pairwise (· < ·)) :
    frame.rowsForSeries sids = frame.rows.filter fun row => sids.contains row.seriesId := by
  unfold JobFrame.rowsForSeries
  rw [(ordered.imp Nat.le_of_lt).insertionSort_eq]
  simp only [series_slice]
  induction sids with
  | nil => simp
  | cons s sids ih =>
    obtain ⟨front, rest⟩ := List.pairwise_cons.mp ordered
    have parts := filter_append_filter FrameRow.seriesId (fun t => decide (t ≤ s))
      (by intro t u le; simp only [decide_eq_true_iff]; omega)
      ((rows_by_series frame).sublist
        (List.filter_sublist (p := fun row : FrameRow => (s :: sids).contains row.seriesId)))
    rw [List.flatMap_cons, ih rest, ← parts, List.filter_filter, List.filter_filter]
    congr 1
    · apply List.filter_congr
      intro row _
      rw [Bool.eq_iff_iff, Bool.and_eq_true, decide_eq_true_iff, decide_eq_true_iff,
        List.contains_iff_mem, List.mem_cons]
      constructor
      · intro own
        exact ⟨own.le, .inl own⟩
      · intro both
        obtain own | later := both.2
        · exact own
        · have := front _ later
          omega
    · apply List.filter_congr
      intro row _
      rw [Bool.eq_iff_iff, Bool.and_eq_true, Bool.not_eq_true', decide_eq_false_iff_not,
        List.contains_iff_mem, List.contains_iff_mem, List.mem_cons]
      constructor
      · intro later
        exact ⟨by have := front _ later; omega, .inr later⟩
      · intro both
        obtain own | later := both.2
        · omega
        · exact later

def JobFrame.selects (frame : JobFrame) (typ : String) (events : Option (List String))
    (row : FrameRow) : Bool :=
  (frame.series[row.seriesId]?).any fun pair => pair.1 == typ && events.all (·.contains pair.2)

theorem mem_seriesIds {typ : String} {events : Option (List String)} {s : Nat} :
    s ∈ frame.seriesIds typ events ↔
      (frame.series[s]?).any (fun pair => pair.1 == typ && events.all (·.contains pair.2)) := by
  rw [Option.any_eq_true]
  constructor
  · intro found
    obtain ⟨⟨pair, _⟩, member, rfl⟩ := List.mem_map.mp found
    obtain ⟨inside, wanted⟩ := List.mem_filter.mp member
    exact ⟨pair, List.mk_mem_zipIdx_iff_getElem?.mp inside, wanted⟩
  · intro found
    obtain ⟨pair, here, wanted⟩ := found
    exact List.mem_map.mpr
      ⟨(pair, s), List.mem_filter.mpr ⟨List.mk_mem_zipIdx_iff_getElem?.mpr here, wanted⟩, rfl⟩

theorem seriesIds_ordered (typ : String) (events : Option (List String)) :
    (frame.seriesIds typ events).Pairwise (· < ·) := by
  have ordered : (frame.series.zipIdx.map Prod.snd).Pairwise (· < ·) := by
    rw [List.zipIdx_map_snd]
    exact List.pairwise_lt_range'
  exact ordered.sublist (List.filter_sublist.map Prod.snd)

/-- The rows in the scope of a query: the selected ones that the job owns, or all of them where
the type is read host-wide. -/
def FrameIndex.scope (index : FrameIndex) (typ : String) (events : Option (List String)) :
    List FrameRow :=
  index.frame.rows.filter fun row =>
    index.frame.selects typ events row && (index.hostWide typ || row.owned)

theorem scopedRows_eq (index : FrameIndex) (typ : String) (events : Option (List String)) :
    index.scopedRows typ (index.frame.rowsForSeries (index.frame.seriesIds typ events)) =
      index.scope typ events := by
  have selected : index.frame.rowsForSeries (index.frame.seriesIds typ events) =
      index.frame.rows.filter (index.frame.selects typ events) := by
    rw [rowsForSeries_eq (seriesIds_ordered typ events)]
    apply List.filter_congr
    intro row _
    rw [Bool.eq_iff_iff, List.contains_iff_mem, mem_seriesIds]
    rfl
  unfold FrameIndex.scopedRows FrameIndex.scope
  rw [selected]
  cases index.hostWide typ with
  | false =>
    rw [if_neg Bool.false_ne_true, List.filter_filter]
    apply List.filter_congr
    intro row _
    rw [Bool.false_or, Bool.and_comm]
  | true =>
    apply List.filter_congr
    intro row _
    rw [Bool.true_or, Bool.and_true]

end Scope

section Devices

variable {index : FrameIndex} {affinity : GpuAffinity} {row : FrameRow}

def FrameIndex.Listed (index : FrameIndex) (affinity : GpuAffinity) (row : FrameRow) : Prop :=
  ∃ entry ∈ affinity.perHost index.frame.hosts, index.frame.hosts[row.hostId]? = some entry.1

def FrameIndex.Granted (index : FrameIndex) (affinity : GpuAffinity) (row : FrameRow) : Prop :=
  ∃ entry ∈ affinity.perHost index.frame.hosts, index.frame.hosts[row.hostId]? = some entry.1 ∧
    ∃ dev ∈ entry.2, 0 < row.devId ∧ index.frame.devs[row.devId.toNat]? = some dev

theorem mem_scopedHosts {host : Nat} {devs : List String} :
    (host, devs) ∈ index.scopedHosts affinity ↔
      ∃ name, (name, devs) ∈ affinity.perHost index.frame.hosts ∧
        index.frame.hosts[host]? = some name := by
  unfold FrameIndex.scopedHosts
  rw [List.mem_filterMap]
  constructor
  · intro found
    obtain ⟨⟨name, listed⟩, member, made⟩ := found
    obtain ⟨id, here, same⟩ := Option.map_eq_some_iff.mp made
    cases same
    exact ⟨name, member, ((idOf_iff index.frame.hostsOnce).mp here).2⟩
  · intro found
    obtain ⟨name, member, here⟩ := found
    refine ⟨(name, devs), member, ?_⟩
    rw [(idOf_iff index.frame.hostsOnce).mpr ⟨Nat.zero_le _, here⟩]
    rfl

theorem restricted_iff : ((index.scopedHosts affinity).map Prod.fst).contains row.hostId = true ↔
    index.Listed affinity row := by
  rw [List.contains_iff_mem, List.mem_map]
  constructor
  · intro found
    obtain ⟨⟨host, devs⟩, member, same⟩ := found
    obtain ⟨name, listed, here⟩ := mem_scopedHosts.mp member
    rw [show host = row.hostId from same] at here
    exact ⟨(name, devs), listed, here⟩
  · intro found
    obtain ⟨⟨name, devs⟩, listed, here⟩ := found
    exact ⟨(row.hostId, devs), mem_scopedHosts.mpr ⟨name, listed, here⟩, rfl⟩

theorem host_of_number {dev n : Nat} (host : Nat) (small : dev < n) :
    (host * n + dev) / n = host := by
  rw [Nat.mul_comm, Nat.mul_add_div (Nat.zero_lt_of_lt small), Nat.div_eq_of_lt small, Nat.add_zero]

theorem granted_iff (member : row ∈ index.frame.rows) (hardware : 0 ≤ row.devId) :
    (index.gpuAllowedKeys affinity).contains
        (row.hostId * index.frame.devs.length + row.devId : ℤ) = true ↔
      index.Granted affinity row := by
  obtain ⟨dev, is_dev⟩ := Int.eq_ofNat_of_zero_le hardware
  have within := index.frame.devIn row member
  rw [is_dev, Int.natAbs_natCast] at within
  unfold FrameIndex.gpuAllowedKeys FrameIndex.Granted
  rw [List.contains_iff_mem, List.mem_flatMap, is_dev]
  constructor
  · intro found
    obtain ⟨⟨host, devs⟩, of_host, inside⟩ := found
    obtain ⟨name, listed, here⟩ := mem_scopedHosts.mp of_host
    obtain ⟨granted, given, made⟩ := List.mem_filterMap.mp inside
    obtain ⟨id, at_id, same⟩ := Option.map_eq_some_iff.mp made
    obtain ⟨positive, named⟩ := (idOf_iff index.frame.devsOnce).mp at_id
    have small := (List.getElem?_eq_some_iff.mp named).1
    have numbers : host * index.frame.devs.length + id =
        row.hostId * index.frame.devs.length + dev := by
      exact_mod_cast same
    have hosts : host = row.hostId := by
      rw [← host_of_number host small, numbers, host_of_number _ within]
    have ids : id = dev := by
      rw [hosts] at numbers
      omega
    rw [hosts] at here
    rw [ids] at positive named
    exact ⟨(name, devs), listed, here, granted, given, Int.natCast_pos.mpr positive, named⟩
  · intro found
    obtain ⟨⟨name, devs⟩, listed, here, granted, given, positive, named⟩ := found
    refine ⟨(row.hostId, devs), mem_scopedHosts.mpr ⟨name, listed, here⟩,
      List.mem_filterMap.mpr ⟨granted, given, ?_⟩⟩
    have at_id : idOf index.frame.devs 1 granted = some dev :=
      (idOf_iff index.frame.devsOnce).mpr ⟨Int.natCast_pos.mp positive, named⟩
    rw [at_id]
    rfl

theorem devAllowed_iff (member : row ∈ index.frame.rows)
    (hardware : ∀ affinity ∈ index.gpuAffinityDevs, index.Listed affinity row → 0 ≤ row.devId) :
    index.devAllowed row = true ↔ ∀ affinity ∈ index.gpuAffinityDevs,
      index.Listed affinity row → index.Granted affinity row := by
  unfold FrameIndex.devAllowed
  rw [Option.all_eq_true]
  refine forall₂_congr fun affinity given => ?_
  by_cases listed : index.Listed affinity row
  · rw [restricted_iff.mpr listed, Bool.not_true, Bool.false_or,
      granted_iff member (hardware affinity given listed)]
    exact ⟨fun granted _ => granted, fun granted => granted listed⟩
  · have free : ((index.scopedHosts affinity).map Prod.fst).contains row.hostId = false :=
      Bool.eq_false_of_not_eq_true (restricted_iff.not.mpr listed)
    rw [free, Bool.not_false, Bool.true_or]
    exact iff_of_true rfl fun here => absurd here listed

end Devices

end PerfStats.Metrics
