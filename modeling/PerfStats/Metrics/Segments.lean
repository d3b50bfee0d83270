import PerfStats.Lib.Keyed
import PerfStats.Metrics.KernelsRefine

namespace PerfStats.Metrics

open Lib

section Columns

variable {ρ β : Type*}

def column (rows : List ρ) (absent : β) (field : ρ → β) (i : Nat) : β :=
  (rows[i]?).elim absent field

def groupReduce (rows : List ρ) (key : ρ → BitVec 64) (value : ρ → Exact) (mask : ρ → Bool) :
    Reduction :=
  npGroupReduce (column rows 0 key) (column rows .nan value) (some (column rows false mask))
    rows.length

def groupSum (rows : List ρ) (key : ρ → BitVec 64) (value : ρ → Exact) (mask : ρ → Bool) :
    List (BitVec 64 × Exact) :=
  let reduced := groupReduce rows key value mask
  reduced.1.zip reduced.2.2.1

/-- The keys and the maxima of `group_stats`. -/
def groupMax (rows : List ρ) (key : ρ → BitVec 64) (value : ρ → Exact) (mask : ρ → Bool) :
    List (BitVec 64 × Exact) :=
  let reduced := groupReduce rows key value mask
  reduced.1.zip reduced.2.2.2

def collapseResidualCopies (rows : List ρ) (key : ρ → BitVec 64) (dev : ρ → ℤ) (value : ρ → Exact)
    (mask : ρ → Bool) : List (BitVec 64 × Exact) :=
  let hw := groupSum rows key value fun r => mask r && decide (0 ≤ dev r)
  let j := groupMax rows key value fun r => mask r && decide (dev r < 0)
  let onlyJ := j.filter fun e => !(hw.map Prod.fst).contains e.1
  (hw ++ onlyJ).insertionSort fun a b => a.1.toInt ≤ b.1.toInt

def finiteMask (limit : Option ℚ) (nonnegative : Bool) (v : Exact) : Bool :=
  !v.isNan && limit.all v.absBelow && (!nonnegative || v.nonneg)

end Columns

section Reduced

variable {ρ β : Type*} {key : ρ → BitVec 64} {value : ρ → Exact} {mask : ρ → Bool}
  {rows : List ρ}

variable {absent : β} {field : ρ → β}

theorem column_of {i : Nat} (inside : i < rows.length) :
    column rows absent field i = field rows[i] := by
  unfold column
  rw [List.getElem?_eq_getElem inside]
  rfl

theorem column_append_left (a : ρ) {i : Nat} (inside : i < rows.length) :
    column (rows ++ [a]) absent field i = column rows absent field i := by
  unfold column
  rw [List.getElem?_append_left inside]

theorem column_append_last (a : ρ) : column (rows ++ [a]) absent field rows.length = field a := by
  unfold column
  rw [List.getElem?_concat_length]
  rfl

theorem takenRows_column (rows : List ρ) (mask : ρ → Bool) (absent : β) (field : ρ → β) :
    (takenRows (some (column rows false mask)) rows.length).map (column rows absent field) =
      (rows.filter mask).map field := by
  induction rows using List.reverseRecOn with
  | nil => rfl
  | append_singleton rows a ih =>
    rw [List.filter_append, List.map_append, ← ih]
    unfold takenRows
    rw [List.length_append, List.length_singleton, List.range_succ, List.filter_append,
      List.map_append]
    congr 1
    · have same : (List.range rows.length).filter
          (takesRow (some (column (rows ++ [a]) false mask))) =
          (List.range rows.length).filter (takesRow (some (column rows false mask))) := by
        apply List.filter_congr
        intro i inside
        exact column_append_left a (List.mem_range.mp inside)
      rw [same]
      apply List.map_congr_left
      intro i inside
      exact column_append_left a (List.mem_range.mp (List.mem_of_mem_filter inside))
    · rw [List.filter_singleton, List.filter_singleton]
      have own : takesRow (some (column (rows ++ [a]) false mask)) rows.length = mask a :=
        column_append_last a
      rw [own]
      cases mask a with
      | false => rfl
      | true =>
        show [column (rows ++ [a]) absent field rows.length] = [field a]
        rw [column_append_last]

theorem ofKey_column (k : BitVec 64) :
    (ofKey (column rows 0 key) k (takenRows (some (column rows false mask)) rows.length)).map
        (column rows .nan value) = (series key k (rows.filter mask)).map value := by
  have joined : ofKey (column rows 0 key) k
      (takenRows (some (column rows false mask)) rows.length) =
      takenRows (some (column rows false fun r => mask r && decide (key r = k))) rows.length := by
    unfold ofKey takenRows
    rw [List.filter_filter]
    apply List.filter_congr
    intro i inside
    have inside := List.mem_range.mp inside
    show ((column rows 0 key i == k) && column rows false mask i) = column rows false _ i
    rw [column_of inside, column_of inside, column_of inside, Bool.and_comm]
    rfl
  rw [joined, takenRows_column, series, List.filter_filter]
  simp only [Bool.and_comm]

theorem taken_nodup (taken : List (BitVec 64)) : (npUnique taken).Nodup :=
  (npUnique_ordered taken).imp fun lt same => absurd (congrArg BitVec.toInt same) (Int.ne_of_lt lt)

theorem groupReduce_cells : (groupReduce rows key value mask).1 =
      npUnique ((rows.filter mask).map key) ∧
    (groupReduce rows key value mask).2.2.1 = (npUnique ((rows.filter mask).map key)).map
      (fun k => ((series key k (rows.filter mask)).map value).foldl .add (.num 0)) ∧
    (groupReduce rows key value mask).2.2.2 = (npUnique ((rows.filter mask).map key)).map
      fun k => ((series key k (rows.filter mask)).map value).foldl .maximum .negInf := by
  have keys := takenRows_column rows mask 0 key
  have present : ∀ r ∈ takenRows (some (column rows false mask)) rows.length,
      column rows 0 key r ∈ npUnique ((takenRows (some (column rows false mask)) rows.length).map
        (column rows 0 key)) :=
    fun r member => mem_npUnique.mpr (List.mem_map_of_mem member)
  unfold groupReduce npGroupReduce
  rw [← takenRows]
  dsimp only
  rw [ufuncAt_keys _ _ (taken_nodup _) present,
    ufuncAt_keys _ _ (taken_nodup _) present, keys]
  simp only [ofKey_column]
  split
  · next empty =>
      rw [List.isEmpty_iff.mp empty]
      exact ⟨rfl, rfl, rfl⟩
  · exact ⟨rfl, rfl, rfl⟩

theorem zip_values (l : List (BitVec 64)) (f : BitVec 64 → Exact) :
    l.zip (l.map f) = l.map fun k => (k, f k) := by
  have zipped : (l.map id).zip (l.map f) = l.map fun k => (k, f k) := List.zip_map'
  rw [List.map_id] at zipped
  exact zipped

theorem groupSum_eq : groupSum rows key value mask =
    (npUnique ((rows.filter mask).map key)).map fun k =>
      (k, ((series key k (rows.filter mask)).map value).foldl .add (.num 0)) := by
  obtain ⟨keys, sums, _⟩ := @groupReduce_cells ρ key value mask rows
  unfold groupSum
  dsimp only
  rw [keys, sums, zip_values]

theorem groupMax_eq : groupMax rows key value mask =
    (npUnique ((rows.filter mask).map key)).map fun k =>
      (k, ((series key k (rows.filter mask)).map value).foldl .maximum .negInf) := by
  obtain ⟨keys, _, maxima⟩ := @groupReduce_cells ρ key value mask rows
  unfold groupMax
  dsimp only
  rw [keys, maxima, zip_values]

end Reduced

section Collapse

variable {ρ : Type*} {key : ρ → BitVec 64} {dev : ρ → ℤ} {value : ρ → Exact} {mask : ρ → Bool}
  {rows : List ρ} {k : BitVec 64} {v : Exact}

/-- What the rows of one key come to: the sum over the hardware devices among the valid ones, or
else the largest of the copies among them. -/
def reducedCopies (dev : ρ → ℤ) (value : ρ → Exact) (mask : ρ → Bool) (rows : List ρ) :
    Option Exact :=
  let hw := rows.filter fun r => mask r && decide (0 ≤ dev r)
  let j := rows.filter fun r => mask r && decide (dev r < 0)
  if hw ≠ [] then some ((hw.map value).foldl .add (.num 0))
  else if j ≠ [] then some ((j.map value).foldl .maximum .negInf)
  else none

theorem mem_map_unique {taken : List (BitVec 64)} (f : BitVec 64 → Exact) :
    (k, v) ∈ (npUnique taken).map (fun k => (k, f k)) ↔ k ∈ taken ∧ f k = v := by
  rw [List.mem_map, ← mem_npUnique]
  constructor
  · intro found
    obtain ⟨other, member, same⟩ := found
    cases same
    exact ⟨member, rfl⟩
  · intro found
    exact ⟨k, found.1, Prod.ext rfl found.2⟩

theorem mem_keys_iff (p : ρ → Bool) :
    k ∈ (rows.filter p).map key ↔ (series key k rows).filter p ≠ [] := by
  rw [← series_filter, List.mem_map]
  constructor
  · intro found
    obtain ⟨r, member, same⟩ := found
    exact List.ne_nil_of_mem ((mem_series key).mpr ⟨member, same⟩)
  · intro some_row
    obtain ⟨r, member⟩ := List.exists_mem_of_ne_nil _ some_row
    exact ⟨r, (mem_series key).mp member⟩

theorem mem_groupSum : (k, v) ∈ groupSum rows key value mask ↔
    (series key k rows).filter mask ≠ [] ∧
      (((series key k rows).filter mask).map value).foldl .add (.num 0) = v := by
  rw [groupSum_eq, mem_map_unique fun k =>
    ((series key k (rows.filter mask)).map value).foldl .add (.num 0), mem_keys_iff, series_filter]

theorem mem_groupMax : (k, v) ∈ groupMax rows key value mask ↔
    (series key k rows).filter mask ≠ [] ∧
      (((series key k rows).filter mask).map value).foldl .maximum .negInf = v := by
  rw [groupMax_eq, mem_map_unique fun k =>
    ((series key k (rows.filter mask)).map value).foldl .maximum .negInf, mem_keys_iff,
    series_filter]

theorem groupSum_keys : (groupSum rows key value mask).map Prod.fst =
    npUnique ((rows.filter mask).map key) := by
  rw [groupSum_eq, List.map_map]
  exact List.map_id _

theorem groupMax_keys : (groupMax rows key value mask).map Prod.fst =
    npUnique ((rows.filter mask).map key) := by
  rw [groupMax_eq, List.map_map]
  exact List.map_id _

theorem mem_collapse : (k, v) ∈ collapseResidualCopies rows key dev value mask ↔
    reducedCopies dev value mask (series key k rows) = some v := by
  unfold collapseResidualCopies reducedCopies
  rw [List.mem_insertionSort, List.mem_append, List.mem_filter, mem_groupSum, mem_groupMax,
    groupSum_keys, Bool.not_eq_true', List.contains_eq_mem, decide_eq_false_iff_not, mem_npUnique,
    mem_keys_iff, not_not]
  by_cases hw : (series key k rows).filter (fun r => mask r && decide (0 ≤ dev r)) = []
  · rw [if_neg (not_not.mpr hw)]
    by_cases j : (series key k rows).filter (fun r => mask r && decide (dev r < 0)) = []
    · rw [if_neg (not_not.mpr j)]
      exact iff_of_false (fun found => found.elim (fun one => one.1 hw) fun one => one.1.1 j) nofun
    · rw [if_pos j, Option.some.injEq]
      constructor
      · intro found
        exact found.elim (fun one => absurd hw one.1) fun one => one.1.2
      · intro same
        exact .inr ⟨⟨j, same⟩, hw⟩
  · rw [if_pos hw, Option.some.injEq]
    constructor
    · intro found
      exact found.elim And.right fun one => absurd one.2 hw
    · intro same
      exact .inl ⟨hw, same⟩

theorem sorted_strictly {pairs : List (BitVec 64 × Exact)}
    (distinct : (pairs.map Prod.fst).Nodup) :
    (pairs.insertionSort fun a b => a.1.toInt ≤ b.1.toInt).Pairwise
      fun a b => a.1.toInt < b.1.toInt := by
  have sorted := List.pairwise_insertionSort
    (fun a b : BitVec 64 × Exact => a.1.toInt ≤ b.1.toInt) pairs
  have apart : (pairs.insertionSort fun a b => a.1.toInt ≤ b.1.toInt).Pairwise
      fun a b => a.1 ≠ b.1 :=
    List.pairwise_map.mp
      ((((List.perm_insertionSort _ pairs).map Prod.fst).nodup_iff).mpr distinct)
  refine (sorted.and apart).imp ?_
  intro a b both
  exact lt_of_le_of_ne both.1 fun same => both.2 (BitVec.eq_of_toInt_eq same)

theorem collapse_ordered : (collapseResidualCopies rows key dev value mask).Pairwise
    fun a b => a.1.toInt < b.1.toInt := by
  apply sorted_strictly
  rw [List.map_append]
  refine List.nodup_append'.mpr ⟨?_, ?_, ?_⟩
  · rw [groupSum_keys]
    exact taken_nodup _
  · have all := @groupMax_keys ρ key value (fun r => mask r && decide (dev r < 0)) rows
    have distinct := taken_nodup ((rows.filter fun r => mask r && decide (dev r < 0)).map key)
    rw [← all] at distinct
    exact distinct.sublist (List.filter_sublist.map Prod.fst)
  · intro k summed single
    obtain ⟨e, member, same⟩ := List.mem_map.mp single
    have missing := (List.mem_filter.mp member).2
    rw [Bool.not_eq_true', List.contains_eq_mem, decide_eq_false_iff_not, same] at missing
    exact missing summed

end Collapse

end PerfStats.Metrics
