import PerfStats.Frame.Seed

namespace PerfStats.Frame

open Lib

structure SeriesInOrder (chunks : List (List HwRow)) : Prop where
  ordered : chunks.flatten.Pairwise fun a b => a.collapsed = b.collapsed → a.time ≤ b.time
  cut : chunks.Pairwise fun xs ys =>
    ∀ a ∈ xs, ∀ b ∈ ys, a.collapsed = b.collapsed → a.time < b.time

section Series

variable (raw : SeriesKey → Option RawEntry) (arc : SeriesKey → Option ℚ) (rows : List HwRow)
variable (k : SeriesKey)

theorem collapsed_of_key {a b : HwRow} (same : a.key = b.key) : a.collapsed = b.collapsed := by
  cases b
  obtain ⟨rfl, rfl, rfl, rfl⟩ := seriesKey_inj.mp same
  rfl

theorem deltaPass_series :
    (deltaPass raw rows).filter
        (fun d => decide (seriesKey d.host d.type (collapsedDev d) d.event = k)) =
      deltaPass raw (series HwRow.collapsed k rows) := by
  have whole : ∀ a b : HwRow, a.key = b.key →
      decide (a.collapsed = k) = decide (b.collapsed = k) := by
    intro a b same
    rw [collapsed_of_key same]
  rw [deltaPass, filter_scan HwRow.key HwRow.entry HwRow.withDelta
    (fun r => decide (r.collapsed = k)) _ (fun _ _ => rfl) whole, filter_sortBy]
  rfl

theorem collapsedPass_series :
    series DeltaRow.key k (collapsedPass raw rows) =
      collapsedPass raw (series HwRow.collapsed k rows) := by
  have groups := groupBy_filter collapsedKey collapsedRow (fun d => decide (d.key = k))
    (fun g => decide (seriesKey g.host g.type g.dev g.event = k)) (deltaPass raw rows)
    fun _ _ => rfl
  rw [series, collapsedPass, filter_sortBy, collapseSpec, groups, collapsedPass, collapseSpec,
    ← deltaPass_series]
  rfl

theorem arcPass_series :
    series HostRow.key k (arcPass raw arc rows) =
      arcPass raw arc (series HwRow.collapsed k rows) := by
  rw [arcPass, series_scan DeltaRow.key DeltaRow.time DeltaRow.withArc HostRow.key fun _ _ => rfl,
    collapsedPass_series]
  rfl

theorem rawAfter_series {r : HwRow} (inside : r.collapsed = k) :
    rawAfter raw (series HwRow.collapsed k rows) r.key = rawAfter raw rows r.key := by
  have kept : series HwRow.key r.key (sortBy HwRow.sortKey (series HwRow.collapsed k rows)) =
      series HwRow.key r.key (sortBy HwRow.sortKey rows) := by
    rw [series.eq_1 HwRow.collapsed, ← filter_sortBy, series_filter, List.filter_eq_self]
    intro a member
    rw [decide_eq_true_eq, ← inside]
    exact collapsed_of_key ((mem_series HwRow.key).mp member).2
  rw [rawAfter, ← scanLast_series, kept, scanLast_series]
  rfl

theorem arcAfter_series :
    arcAfter raw arc (series HwRow.collapsed k rows) k = arcAfter raw arc rows k := by
  rw [arcAfter, ← collapsedPass_series, scanLast_series]
  rfl

end Series

variable {raw : SeriesKey → Option RawEntry} {arc : SeriesKey → Option ℚ} {xs ys : List HwRow}

theorem arcPass_split_series
    (ordered : (xs ++ ys).Pairwise fun a b => a.collapsed = b.collapsed → a.time ≤ b.time)
    (cut : ∀ a ∈ xs, ∀ b ∈ ys, a.collapsed = b.collapsed → a.time < b.time) :
    (arcPass raw arc (xs ++ ys)).Perm
      (arcPass raw arc xs ++ arcPass (rawAfter raw xs) (arcAfter raw arc xs) ys) := by
  apply perm_of_series HostRow.key
  intro k
  rw [series_append, arcPass_series, arcPass_series, arcPass_series, series_append]
  have own : ∀ {rows : List HwRow} {r : HwRow}, r ∈ series HwRow.collapsed k rows →
      r.collapsed = k := fun member => ((mem_series HwRow.collapsed).mp member).2
  have inOrder : (series HwRow.collapsed k xs ++ series HwRow.collapsed k ys).Pairwise
      fun a b => a.time ≤ b.time := by
    rw [← series_append]
    apply (ordered.filter _).imp_of_mem
    intro a b first second below
    exact below ((own first).trans (own second).symm)
  have apart : ∀ a ∈ series HwRow.collapsed k xs, ∀ b ∈ series HwRow.collapsed k ys,
      a.time < b.time := by
    intro a first b second
    exact cut a ((mem_series HwRow.collapsed).mp first).1 b
      ((mem_series HwRow.collapsed).mp second).1 ((own first).trans (own second).symm)
  have split := arcPass_split raw arc inOrder (upTo_separates apart) (upTo_down _)
  have carried : arcPass (rawAfter raw (series HwRow.collapsed k xs))
      (arcAfter raw arc (series HwRow.collapsed k xs)) (series HwRow.collapsed k ys) =
      arcPass (rawAfter raw xs) (arcAfter raw arc xs) (series HwRow.collapsed k ys) := by
    apply arcPass_congr
    · intro r member
      exact rawAfter_series raw xs k (own member)
    · intro r member
      rw [own member]
      exact arcAfter_series raw arc xs k
  rw [carried] at split
  exact split

theorem computeChunk_append_series (carry : DeltaCarry)
    (ordered : (xs ++ ys).Pairwise fun a b => a.collapsed = b.collapsed → a.time ≤ b.time)
    (cut : ∀ a ∈ xs, ∀ b ∈ ys, a.collapsed = b.collapsed → a.time < b.time) :
    ((computeDeltasAndArcChunk xs carry).1 ++
      (computeDeltasAndArcChunk ys (computeDeltasAndArcChunk xs carry).2).1).Perm
      (computeDeltasAndArcChunk (xs ++ ys) carry).1 := by
  obtain ⟨rowsXs, rawXs, arcXs⟩ := computeChunk_spec xs carry
  rw [(computeChunk_spec ys _).1, (computeChunk_spec (xs ++ ys) carry).1, rowsXs, rawXs, arcXs]
  have split := (@arcPass_split_series carry.raw.get? carry.arc.get? xs ys ordered cut).filter
    fun r => r.value.isSome
  rw [List.filter_append] at split
  exact split.symm

theorem computeChunks_perm_series (chunks : List (List HwRow)) (carry : DeltaCarry)
    (file : SeriesInOrder chunks) :
    (computeChunks chunks carry).Perm (computeDeltasAndArcChunk chunks.flatten carry).1 := by
  induction chunks generalizing carry with
  | nil => exact List.Perm.nil
  | cons chunk rest ih =>
    obtain ⟨apart, restCut⟩ := List.pairwise_cons.mp file.cut
    have ordered := file.ordered
    have restFile : SeriesInOrder rest := ⟨(List.pairwise_append.mp ordered).2.1, restCut⟩
    have cut : ∀ a ∈ chunk, ∀ b ∈ rest.flatten, a.collapsed = b.collapsed → a.time < b.time := by
      intro a first b second
      obtain ⟨ys, inRest, member⟩ := List.mem_flatten.mp second
      exact apart ys inRest a first b member
    exact ((ih _ restFile).append_left _).trans (computeChunk_append_series carry ordered cut)

structure CutAtSamples (chunks : List (List HwRow)) : Prop where
  ordered : chunks.flatten.Pairwise fun a b => a.time ≤ b.time
  cut : chunks.Pairwise fun xs ys => ∀ a ∈ xs, ∀ b ∈ ys, a.time < b.time

theorem CutAtSamples.inSeries {chunks : List (List HwRow)} (file : CutAtSamples chunks) :
    SeriesInOrder chunks where
  ordered := by
    apply file.ordered.imp
    intro a b below _
    exact below
  cut := file.cut.imp fun apart a first b second _ => apart a first b second

/-- Flush by flush with one shared carry, or all at once: the same rows, with the same
keys, values, deltas and arcs, up to their order. -/
theorem chunked_eq_whole (chunks : List (List HwRow)) (file : CutAtSamples chunks) :
    (computeChunks chunks .empty).Perm (computeDeltasAndArc chunks.flatten) := by
  rw [computeDeltasAndArc_eq]
  exact computeChunks_perm_series chunks .empty file.inSeries

def cpuRow (time value : ℚ) : HwRow :=
  ⟨time, lit "n1", lit "-", lit "cpu", lit "0", lit "user", some value, 64, 1, lit "#"⟩

theorem chunked_eq_whole_two :
    (computeChunks [[cpuRow 10 5], [cpuRow 20 8]] .empty).Perm
      (computeDeltasAndArc [cpuRow 10 5, cpuRow 20 8]) ∧
      ((computeDeltasAndArc [cpuRow 10 5, cpuRow 20 8]).map HostRow.delta) = [none, some 3] :=
  ⟨chunked_eq_whole [[cpuRow 10 5], [cpuRow 20 8]] ⟨by decide, by decide⟩, by decide +kernel⟩

end PerfStats.Frame
