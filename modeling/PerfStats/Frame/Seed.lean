import PerfStats.Frame.Chunk

namespace PerfStats.Frame

open Lib

def HwRow.collapsed (r : HwRow) : SeriesKey :=
  seriesKey r.host r.type (collapsedDev (r.withDelta none)) r.event

section Times

variable (raw raw' : SeriesKey → Option RawEntry) (rows : List HwRow)

theorem collapsedKey_withDelta (r : HwRow) (prev : Option RawEntry) :
    collapsedKey (r.withDelta prev) = collapsedKey (r.withDelta none) := rfl

theorem deltaPass_keys :
    (deltaPass raw rows).map collapsedKey =
      (sortBy HwRow.sortKey rows).map fun r => collapsedKey (r.withDelta none) :=
  map_scan _ _ _ _ _ (fun r prev => collapsedKey_withDelta r prev) _ _

theorem collapsedPass_sortKeys :
    (collapsedPass raw rows).map DeltaRow.sortKey = (collapsedPass raw' rows).map DeltaRow.sortKey := by
  have groups : ∀ last, (collapseSpec (deltaPass last rows)).map DeltaRow.sortKey =
      (firstKeys id ((sortBy HwRow.sortKey rows).map fun r => collapsedKey (r.withDelta none))).map
        fun k => toLex (seriesKey k.host k.type k.dev k.event, k.time) := by
    intro last
    have keys : firstKeys collapsedKey (deltaPass last rows) =
        firstKeys id ((deltaPass last rows).map collapsedKey) :=
      (firstKeys_map id collapsedKey (deltaPass last rows)).symm
    rw [collapseSpec, groupBy, keys, deltaPass_keys, List.map_map]
    rfl
  have sorted : ∀ last, (collapsedPass last rows).map DeltaRow.sortKey =
      ((collapseSpec (deltaPass last rows)).map DeltaRow.sortKey).insertionSort (· ≤ ·) := by
    intro last
    exact List.map_insertionSort _ _ _ _ fun _ _ _ _ => Iff.rfl
  rw [sorted, sorted, groups, groups]

theorem mem_collapsedPass_key {k : SeriesKey} :
    (∃ r ∈ collapsedPass raw rows, r.key = k) ↔ ∃ r ∈ rows, r.collapsed = k := by
  have inPass : ∀ g : GroupKey, (∃ r ∈ deltaPass raw rows, collapsedKey r = g) ↔
      ∃ r ∈ rows, collapsedKey (r.withDelta none) = g := by
    intro g
    have mapped := deltaPass_keys raw rows
    have members : g ∈ (deltaPass raw rows).map collapsedKey ↔
        g ∈ (sortBy HwRow.sortKey rows).map fun r => collapsedKey (r.withDelta none) := by
      rw [mapped]
    simpa [(sortBy_perm HwRow.sortKey rows).mem_iff] using members
  constructor
  · intro found
    rcases found with ⟨r, member, rfl⟩
    rcases mem_collapseSpec.mp member with ⟨d, inDeltas, rfl⟩
    rcases (inPass _).mp ⟨d, inDeltas, rfl⟩ with ⟨a, inRows, same⟩
    exact ⟨a, inRows, congrArg (fun g : GroupKey => seriesKey g.host g.type g.dev g.event) same⟩
  · intro found
    rcases found with ⟨a, inRows, rfl⟩
    rcases (inPass _).mpr ⟨a, inRows, rfl⟩ with ⟨d, inDeltas, same⟩
    exact ⟨_, mem_collapseSpec.mpr ⟨d, inDeltas, rfl⟩,
      congrArg (fun g : GroupKey => seriesKey g.host g.type g.dev g.event) same⟩

end Times

section Seed

variable {raw raw' : SeriesKey → Option RawEntry} {arc arc' : SeriesKey → Option ℚ}
  {rows : List HwRow} {skipped replayed late : List HwRow} {cut : ℚ}

theorem arcPass_congr (sameRaw : ∀ r ∈ rows, raw r.key = raw' r.key)
    (sameArc : ∀ r ∈ rows, arc r.collapsed = arc' r.collapsed) :
    arcPass raw arc rows = arcPass raw' arc' rows := by
  have deltas : deltaPass raw rows = deltaPass raw' rows := by
    apply scan_congr_last
    intro r member
    exact sameRaw r ((sortBy_perm HwRow.sortKey rows).mem_iff.mp member)
  have frames : collapsedPass raw rows = collapsedPass raw' rows := by
    rw [collapsedPass, collapsedPass, deltas]
  rw [arcPass, arcPass, ← frames]
  apply scan_congr_last
  intro r member
  rcases (mem_collapsedPass_key raw rows).mp ⟨r, member, rfl⟩ with ⟨a, inRows, same⟩
  rw [← same]
  exact sameArc a inRows

variable {k : SeriesKey}

theorem rawAfter_seeded
    (seeded : raw k = raw' k ∨ ∃ r ∈ rows, r.key = k) : rawAfter raw rows k = rawAfter raw' rows k := by
  rcases seeded with same | ⟨r, member, here⟩
  · exact scanLast_congr _ _ same _
  · apply scanLast_of_mem
    exact ⟨r, (sortBy_perm HwRow.sortKey rows).mem_iff.mpr member, here⟩

theorem arcAfter_seeded
    (seeded : arc k = arc' k ∨ ∃ r ∈ rows, r.collapsed = k) :
    arcAfter raw arc rows k = arcAfter raw' arc' rows k := by
  have frames : scanLast DeltaRow.key DeltaRow.time arc (collapsedPass raw rows) =
      scanLast DeltaRow.key DeltaRow.time arc (collapsedPass raw' rows) := by
    apply scanLast_map
    have same := congrArg (List.map fun p : SeriesKey ×ₗ ℚ => ofLex p)
      (collapsedPass_sortKeys raw raw' rows)
    rw [List.map_map, List.map_map] at same
    exact same
  rw [arcAfter, arcAfter, frames]
  rcases seeded with same | present
  · exact scanLast_congr _ _ same _
  · exact scanLast_of_mem _ _ ((mem_collapsedPass_key raw' rows).mpr present)

structure Seeded (skipped replayed late : List HwRow) : Prop where
  device : ∀ r ∈ late, (∃ q ∈ skipped, q.key = r.key) → ∃ q ∈ replayed, q.key = r.key
  collapsed : ∀ r ∈ late, (∃ q ∈ skipped, q.collapsed = r.collapsed) →
    ∃ q ∈ replayed, q.collapsed = r.collapsed

theorem rawAfter_absent (absent : ¬ ∃ r ∈ rows, r.key = k) :
    rawAfter raw rows k = raw k := by
  apply scanLast_of_not_mem
  intro r member same
  exact absent ⟨r, (sortBy_perm HwRow.sortKey rows).mem_iff.mp member, same⟩

theorem arcAfter_absent
    (absent : ¬ ∃ r ∈ rows, r.collapsed = k) : arcAfter raw arc rows k = arc k := by
  apply scanLast_of_not_mem
  intro r member same
  exact absent ((mem_collapsedPass_key raw rows).mp ⟨r, member, same⟩)

theorem arcPass_seeded
    (seeded : Seeded skipped replayed late) :
    arcPass (rawAfter (rawAfter raw skipped) replayed)
        (arcAfter (rawAfter raw skipped) (arcAfter raw arc skipped) replayed) late =
      arcPass (rawAfter raw replayed) (arcAfter raw arc replayed) late := by
  apply arcPass_congr
  · intro r member
    apply rawAfter_seeded
    by_cases present : ∃ q ∈ skipped, q.key = r.key
    · exact .inr (seeded.device r member present)
    · exact .inl (rawAfter_absent present)
  · intro r member
    apply arcAfter_seeded
    by_cases present : ∃ q ∈ skipped, q.collapsed = r.collapsed
    · exact .inr (seeded.collapsed r member present)
    · exact .inl (arcAfter_absent present)

theorem arcPass_time {r : HostRow} (member : r ∈ arcPass raw arc rows) :
    ∃ q ∈ rows, q.time = r.time := by
  rcases mem_scan _ _ _ member with ⟨d, inFrame, prev, rfl⟩
  rcases mem_collapseSpec.mp inFrame with ⟨a, inPass, rfl⟩
  rcases mem_scan _ _ _ inPass with ⟨q, inSorted, _, rfl⟩
  exact ⟨q, (sortBy_perm HwRow.sortKey rows).mem_iff.mp inSorted, rfl⟩

def rowsAfter (cut : ℚ) (l : List HostRow) : List HostRow := l.filter fun r => decide (cut < r.time)

theorem rowsAfter_early (raw : SeriesKey → Option RawEntry) (arc : SeriesKey → Option ℚ)
    (early : ∀ q ∈ rows, q.time ≤ cut) :
    rowsAfter cut (kept (arcPass raw arc rows)) = [] := by
  apply List.filter_eq_nil_iff.mpr
  intro r member
  rcases arcPass_time (List.mem_filter.mp member).1 with ⟨q, inRows, same⟩
  rw [decide_eq_true_eq, ← same, not_lt]
  exact early q inRows

theorem rowsAfter_split (raw : SeriesKey → Option RawEntry) (arc : SeriesKey → Option ℚ)
    {xs ys : List HwRow} (ordered : (xs ++ ys).Pairwise fun a b => a.time ≤ b.time)
    (apart : ∀ a ∈ xs, ∀ b ∈ ys, a.time < b.time) (early : ∀ q ∈ xs, q.time ≤ cut) :
    (rowsAfter cut (kept (arcPass raw arc (xs ++ ys)))).Perm
      (rowsAfter cut (kept (arcPass (rawAfter raw xs) (arcAfter raw arc xs) ys))) := by
  have split := arcPass_split raw arc ordered (upTo_separates apart) (upTo_down xs)
  have whole := (split.filter fun r => r.value.isSome).filter fun r => decide (cut < r.time)
  rw [List.filter_append, List.filter_append] at whole
  have nothing := rowsAfter_early raw arc early
  unfold rowsAfter kept at nothing ⊢
  rw [nothing, List.nil_append] at whole
  exact whole

/-- Started at the replayed rows, the pipeline gives the late rows what it gives them from
the whole file. -/
theorem computeDeltasAndArc_seeded
    (ordered : (skipped ++ (replayed ++ late)).Pairwise fun a b => a.time ≤ b.time)
    (first : ∀ a ∈ skipped, ∀ b ∈ replayed ++ late, a.time < b.time)
    (second : ∀ a ∈ replayed, ∀ b ∈ late, a.time < b.time)
    (early : ∀ q ∈ skipped ++ replayed, q.time ≤ cut) (seeded : Seeded skipped replayed late) :
    (rowsAfter cut (computeDeltasAndArc (replayed ++ late))).Perm
      (rowsAfter cut (computeDeltasAndArc (skipped ++ (replayed ++ late)))) := by
  have earlySkipped := fun q member => early q (List.mem_append_left replayed member)
  have earlyReplayed := fun q member => early q (List.mem_append_right skipped member)
  have orderedRest := (List.pairwise_append.mp ordered).2.1
  rw [computeDeltasAndArc_eq, computeDeltasAndArc_eq, (computeChunk_spec _ _).1,
    (computeChunk_spec _ _).1]
  have whole := rowsAfter_split DeltaCarry.empty.raw.get? DeltaCarry.empty.arc.get? ordered first
    earlySkipped
  have wholeRest := rowsAfter_split (rawAfter DeltaCarry.empty.raw.get? skipped)
    (arcAfter DeltaCarry.empty.raw.get? DeltaCarry.empty.arc.get? skipped) orderedRest second
    earlyReplayed
  have resumed := rowsAfter_split DeltaCarry.empty.raw.get? DeltaCarry.empty.arc.get? orderedRest
    second earlyReplayed
  rw [arcPass_seeded seeded] at wholeRest
  exact resumed.trans (whole.trans wholeRest).symm

end Seed

end PerfStats.Frame
