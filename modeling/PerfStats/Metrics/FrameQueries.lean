import PerfStats.Lib.Dict
import PerfStats.Metrics.SumPerSample

namespace PerfStats.Metrics

open Lib

section Model

variable (index : FrameIndex)

/-- `FrameIndex.host_time_keys`, or its `ValueError`. -/
def hostTimeKeys : Except String (List (ℤ × ℤ)) :=
  let rows := index.frame.rows.filter FrameRow.owned
  if rows.isEmpty then .ok []
  else (compositeKey rows [hostPart, index.frame.timeIndex]).map fun key =>
    (npUnique (rows.map key)).map fun k =>
      (pairHost k, (timeAxis index.frame.rows).getD (timePosition k) 0)

def saneDelta (val : Exact) : Bool :=
  !val.isNan && (Exact.num (-maxSaneCounterDelta)).lt val && val.lt (.num maxSaneCounterDelta)

def sumOfSome (vals : List Exact) : Option Exact :=
  if vals.isEmpty then none else some (vals.foldl .add (.num 0))

/-- What one series of `delta_sum_by_event` comes to: without a value it is left out. -/
def seriesDelta (typ : String) (sid : Nat) : Except String (Option Exact) :=
  let rows := index.scopedRows typ (index.frame.rowsForSeries [sid])
  if rows.isEmpty then .ok none
  else if index.hostWide typ then
    (compositeKey rows [hostPart, index.frame.timeIndex]).map fun key =>
      sumOfSome ((collapseResidualCopies rows key FrameRow.devId FrameRow.delta fun row =>
        finiteMask (some maxSaneCounterDelta) false row.delta).map Prod.snd)
  else .ok (sumOfSome ((rows.filter fun row => saneDelta row.delta).map FrameRow.delta))

/-- `FrameIndex.delta_sum_by_event`, or its `ValueError`. -/
def deltaSumByEvent (typ : String) (events : List String) : Except String (Dict String Exact) :=
  (index.frame.seriesIds typ (some events)).foldlM (fun out sid =>
    (seriesDelta index typ sid).map fun sum =>
      sum.elim out (out.set (index.frame.series.getD sid ("", "")).2)) .empty

end Model

section Spec

variable {index : FrameIndex} {row other : FrameRow}

def FrameRow.sample (row : FrameRow) : ℤ × ℤ := (row.hostId, row.timeUs)

def FrameIndex.seriesScope (index : FrameIndex) (typ : String) (sid : Nat) : List FrameRow :=
  index.frame.rows.filter fun row =>
    decide (row.seriesId = sid) && (index.hostWide typ || row.owned)

theorem seriesScope_eq (typ : String) (sid : Nat) :
    index.scopedRows typ (index.frame.rowsForSeries [sid]) = index.seriesScope typ sid := by
  have one : index.frame.rowsForSeries [sid] =
      index.frame.rows.filter fun row => decide (row.seriesId = sid) := by
    rw [rowsForSeries_eq (List.pairwise_singleton _ _)]
    apply List.filter_congr
    intro row _
    rw [Bool.eq_iff_iff, List.contains_iff_mem, List.mem_singleton, decide_eq_true_iff]
  unfold FrameIndex.scopedRows FrameIndex.seriesScope
  rw [one]
  cases index.hostWide typ with
  | false =>
    rw [if_neg Bool.false_ne_true, List.filter_filter]
    simp only [Bool.false_or, Bool.and_comm]
  | true =>
    rw [if_pos rfl]
    simp only [Bool.true_or, Bool.and_true]

theorem seriesScope_inside (typ : String) (sid : Nat) :
    ∀ row ∈ index.seriesScope typ sid, row ∈ index.frame.rows :=
  fun _ member => List.mem_of_mem_filter member

theorem sumOfSome_perm {vals vals' : List Exact} (perm : vals.Perm vals') :
    sumOfSome vals = sumOfSome vals' := by
  unfold sumOfSome
  rw [perm.isEmpty_eq, Exact.sum_perm perm]

variable (few : index.frame.hosts.length ≤ 2 ^ 16)

include few

theorem pairKey_decoded (member : row ∈ index.frame.rows) :
    (pairHost (pairKey index row),
      (timeAxis index.frame.rows).getD (timePosition (pairKey index row)) 0) = row.sample := by
  have host : row.hostId < 2 ^ 16 := (index.frame.hostIn row member).trans_le few
  obtain ⟨tix, position, small, here⟩ := timeIndex_spec member
  obtain ⟨host_back, tix_back⟩ := pair_unpacked host (small.trans (by decide))
  unfold pairKey hostPart
  rw [position, host_back, tix_back, axis_getD here]
  rfl

theorem pairKey_iff (member : row ∈ index.frame.rows) (member' : other ∈ index.frame.rows) :
    pairKey index row = pairKey index other ↔ row.sample = other.sample := by
  constructor
  · intro same
    rw [← pairKey_decoded few member, ← pairKey_decoded few member', same]
  · intro same
    obtain ⟨hosts, times⟩ := Prod.mk.inj same
    unfold pairKey hostPart
    rw [hosts, timeIndex_congr times]

theorem hostTimeKeys_spec :
    ∃ keys, hostTimeKeys index = .ok keys ∧ keys.Nodup ∧
      ∀ key, key ∈ keys ↔ ∃ row ∈ index.frame.rows, row.owned = true ∧ row.sample = key := by
  have inside : ∀ row ∈ index.frame.rows.filter FrameRow.owned, row ∈ index.frame.rows :=
    fun _ member => List.mem_of_mem_filter member
  have packed : compositeKey (index.frame.rows.filter FrameRow.owned)
      [hostPart, index.frame.timeIndex] = .ok (pairKey index) :=
    compositeKey_pair (time_parts inside) (host_parts inside few)
  have decoded : ∀ k ∈ npUnique ((index.frame.rows.filter FrameRow.owned).map (pairKey index)),
      ∃ row ∈ index.frame.rows, row.owned = true ∧ pairKey index row = k := by
    intro k member
    obtain ⟨row, kept, same⟩ := List.mem_map.mp (mem_npUnique.mp member)
    obtain ⟨present, own⟩ := List.mem_filter.mp kept
    exact ⟨row, present, own, same⟩
  unfold hostTimeKeys
  dsimp only
  split
  · next empty =>
      refine ⟨[], rfl, List.nodup_nil, fun key => iff_of_false List.not_mem_nil ?_⟩
      rintro ⟨row, present, own, _⟩
      rw [List.isEmpty_iff, List.filter_eq_nil_iff] at empty
      exact empty row present own
  · rw [packed]
    refine ⟨_, rfl, (taken_nodup _).map_on ?_, fun key => ?_⟩
    · intro k member k' member' same
      obtain ⟨row, present, _, rfl⟩ := decoded k member
      obtain ⟨other, present', _, rfl⟩ := decoded k' member'
      rw [pairKey_decoded few present, pairKey_decoded few present'] at same
      exact (pairKey_iff few present present').mpr same
    · rw [List.mem_map]
      constructor
      · intro found
        obtain ⟨k, member, same⟩ := found
        obtain ⟨row, present, own, rfl⟩ := decoded k member
        rw [pairKey_decoded few present] at same
        exact ⟨row, present, own, same⟩
      · intro found
        obtain ⟨row, present, own, same⟩ := found
        refine ⟨pairKey index row, mem_npUnique.mpr (List.mem_map_of_mem
          (List.mem_filter.mpr ⟨present, own⟩)), ?_⟩
        rw [pairKey_decoded few present, same]

omit few in
theorem seriesDelta_plain {typ : String} (narrow : index.hostWide typ = false) (sid : Nat) :
    seriesDelta index typ sid = .ok (sumOfSome (((index.seriesScope typ sid).filter fun row =>
      saneDelta row.delta).map FrameRow.delta)) := by
  unfold seriesDelta
  dsimp only
  rw [seriesScope_eq, narrow]
  split
  · next empty =>
      rw [List.isEmpty_iff.mp empty]
      rfl
  · rfl

theorem seriesDelta_wide {typ : String} (wide : index.hostWide typ = true) (sid : Nat) :
    ∃ entries : List ((ℤ × ℤ) × Exact),
      seriesDelta index typ sid = .ok (sumOfSome (entries.map Prod.snd)) ∧ entries.Nodup ∧
      ∀ key val, (key, val) ∈ entries ↔
        reducedCopies FrameRow.devId FrameRow.delta
          (fun row => finiteMask (some maxSaneCounterDelta) false row.delta)
          ((index.seriesScope typ sid).filter fun row => decide (row.sample = key)) =
            some val := by
  have inside := @seriesScope_inside index typ sid
  have packed : compositeKey (index.seriesScope typ sid) [hostPart, index.frame.timeIndex] =
      .ok (pairKey index) :=
    compositeKey_pair (time_parts inside) (host_parts inside few)
  generalize mask_is : (fun row : FrameRow =>
    finiteMask (some maxSaneCounterDelta) false row.delta) = mask
  have own : ∀ row ∈ index.seriesScope typ sid,
      series (pairKey index) (pairKey index row) (index.seriesScope typ sid) =
        (index.seriesScope typ sid).filter fun other => decide (other.sample = row.sample) := by
    intro row member
    apply List.filter_congr
    intro other present
    exact decide_eq_decide.mpr (pairKey_iff few (inside other present) (inside row member))
  have of_value : ∀ {k : BitVec 64} {val : Exact},
      reducedCopies FrameRow.devId FrameRow.delta mask
        (series (pairKey index) k (index.seriesScope typ sid)) = some val →
      ∃ row ∈ index.seriesScope typ sid, pairKey index row = k := by
    intro k val value
    obtain ⟨row, copy, _⟩ := reducedCopies_ne_none.mp
      (by rw [value]; exact Option.some_ne_none val)
    exact ⟨row, (mem_series _).mp copy⟩
  generalize collapsed_is : collapseResidualCopies (index.seriesScope typ sid) (pairKey index)
    FrameRow.devId FrameRow.delta mask = collapsed
  have of_entry : ∀ entry ∈ collapsed, ∃ row ∈ index.seriesScope typ sid,
      pairKey index row = entry.1 := by
    intro entry member
    rw [← collapsed_is] at member
    exact of_value (mem_collapse.mp member)
  refine ⟨collapsed.map fun entry => ((pairHost entry.1,
    (timeAxis index.frame.rows).getD (timePosition entry.1) 0), entry.2), ?_, ?_, ?_⟩
  · unfold seriesDelta
    dsimp only
    rw [seriesScope_eq, wide, packed, mask_is, List.map_map]
    split
    · next empty =>
        rw [← collapsed_is, List.isEmpty_iff.mp empty]
        rfl
    · rw [if_pos rfl]
      rw [← collapsed_is]
      rfl
  · have distinct : collapsed.Nodup := by
      rw [← collapsed_is]
      exact collapse_ordered.imp fun lt same =>
        absurd (congrArg (·.1.toInt) same) (Int.ne_of_lt lt)
    refine distinct.map_on ?_
    intro entry member entry' member' same
    obtain ⟨row, present, is_key⟩ := of_entry entry member
    obtain ⟨other, present', is_key'⟩ := of_entry entry' member'
    obtain ⟨keys, vals⟩ := Prod.mk.inj same
    rw [← is_key, ← is_key', pairKey_decoded few (inside row present),
      pairKey_decoded few (inside other present'),
      ← pairKey_iff few (inside row present) (inside other present'), is_key, is_key'] at keys
    exact Prod.ext keys vals
  · intro key val
    rw [List.mem_map]
    constructor
    · intro found
      obtain ⟨⟨k, v⟩, member, same⟩ := found
      obtain ⟨row, present, is_key⟩ := of_entry _ member
      obtain ⟨keys, vals⟩ := Prod.mk.inj same
      rw [← collapsed_is, mem_collapse] at member
      dsimp only at is_key keys vals
      rw [← is_key, pairKey_decoded few (inside row present)] at keys
      rw [← keys, ← vals, ← own row present, is_key]
      exact member
    · intro value
      obtain ⟨row, copy, _⟩ := reducedCopies_ne_none.mp
        (by rw [value]; exact Option.some_ne_none val)
      obtain ⟨present, is_key⟩ := List.mem_filter.mp copy
      have is_key : row.sample = key := of_decide_eq_true is_key
      refine ⟨(pairKey index row, val), ?_, ?_⟩
      · rw [← collapsed_is, mem_collapse, own row present, is_key]
        exact value
      · dsimp only
        rw [pairKey_decoded few (inside row present), is_key]

end Spec

end PerfStats.Metrics
