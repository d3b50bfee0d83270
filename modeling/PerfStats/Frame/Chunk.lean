import PerfStats.Frame.CollapseSpec

namespace PerfStats.Frame

open Lib

structure HostRow where
  time : ℚ
  host : Str
  jid : Str
  type : Str
  dev : Str
  event : Str
  unit : Str
  value : Cell
  delta : Cell
  arc : Cell
  deriving DecidableEq, Repr

def HostRow.key (r : HostRow) : SeriesKey := seriesKey r.host r.type r.dev r.event

def DeltaRow.withArc (r : DeltaRow) (prev : Option ℚ) : HostRow :=
  { time := r.time, host := r.host, jid := r.jid, type := r.type, dev := r.dev, event := r.event
    unit := r.unit, value := r.value, delta := r.delta
    arc := prev.elim none fun t => if 0 < r.time - t then Cell.divBy r.delta (r.time - t) else none }

def applyArcAndFinalize (rows : List DeltaRow) (arc : Dict SeriesKey ℚ) :
    List HostRow × Dict SeriesKey ℚ :=
  ((adjacent DeltaRow.key DeltaRow.time DeltaRow.withArc arc.get? none rows).filter
      fun r => r.value.isSome,
    (runEnds DeltaRow.key rows).foldl (fun arc r => arc.set r.key r.time) arc)

def computeDeltasAndArc (rows : List HwRow) : List HostRow :=
  if rows = [] then []
  else
    let collapsed := collapseStatsWithDeltas (applyCounterDeltas rows .empty).1
    if collapsed = [] then [] else (applyArcAndFinalize collapsed .empty).1

def computeDeltasAndArcChunk (rows : List HwRow) (carry : DeltaCarry) :
    List HostRow × DeltaCarry :=
  if rows = [] then ([], carry)
  else
    let (deltas, raw) := applyCounterDeltas rows carry.raw
    let collapsed := collapseStatsWithDeltas deltas
    if collapsed = [] then ([], { carry with raw := raw })
    else
      let (out, arc) := applyArcAndFinalize collapsed carry.arc
      (out, ⟨raw, arc⟩)

def computeChunks : List (List HwRow) → DeltaCarry → List HostRow
  | [], _ => []
  | chunk :: rest, carry =>
    let (out, carry) := computeDeltasAndArcChunk chunk carry
    out ++ computeChunks rest carry

section Spec

variable (raw : SeriesKey → Option RawEntry) (arc : SeriesKey → Option ℚ) (rows : List HwRow)

def deltaPass : List DeltaRow :=
  scan HwRow.key HwRow.entry HwRow.withDelta raw (sortBy HwRow.sortKey rows)

def rawAfter : SeriesKey → Option RawEntry :=
  scanLast HwRow.key HwRow.entry raw (sortBy HwRow.sortKey rows)

def collapsedPass : List DeltaRow := sortBy DeltaRow.sortKey (collapseSpec (deltaPass raw rows))

def arcPass : List HostRow :=
  scan DeltaRow.key DeltaRow.time DeltaRow.withArc arc (collapsedPass raw rows)

def arcAfter : SeriesKey → Option ℚ :=
  scanLast DeltaRow.key DeltaRow.time arc (collapsedPass raw rows)

def kept (l : List HostRow) : List HostRow := l.filter fun r => r.value.isSome

theorem mem_collapseSpec {l : List DeltaRow} {d : DeltaRow} :
    d ∈ sortBy DeltaRow.sortKey (collapseSpec l) ↔
      ∃ a ∈ l, d = collapsedRow (collapsedKey a) (series collapsedKey (collapsedKey a) l) := by
  rw [(sortBy_perm _ _).mem_iff, collapseSpec, mem_groupBy]

theorem collapsedPass_sorted : (collapsedPass raw rows).Pairwise fun a b => a.key ≤ b.key := by
  apply (sortBy_pairwise DeltaRow.sortKey _).imp
  intro a b below
  exact (Prod.Lex.le_iff.mp below).elim le_of_lt fun same => same.1.le

theorem collapse_applyCounterDeltas (raw : Dict SeriesKey RawEntry) :
    collapseStatsWithDeltas (applyCounterDeltas rows raw).1 = collapsedPass raw.get? rows := by
  rw [collapse_eq_spec, applyCounterDeltas_rows]
  rfl

theorem applyArc_rows (raw : SeriesKey → Option RawEntry) (arc : Dict SeriesKey ℚ) :
    (applyArcAndFinalize (collapsedPass raw rows) arc).1 = kept (arcPass raw arc.get? rows) := by
  rw [applyArcAndFinalize, adjacent_eq_scan _ _ _ _ (collapsedPass_sorted raw rows)]
  rfl

theorem applyArc_carry (raw : SeriesKey → Option RawEntry) (arc : Dict SeriesKey ℚ) :
    (applyArcAndFinalize (collapsedPass raw rows) arc).2.get? = arcAfter raw arc.get? rows := by
  rw [applyArcAndFinalize, Dict.get?_foldl_set]
  exact foldl_runEnds_eq_scanLast _ _ _ (collapsedPass_sorted raw rows)

theorem computeChunk_spec (carry : DeltaCarry) :
    (computeDeltasAndArcChunk rows carry).1 =
        kept (arcPass carry.raw.get? carry.arc.get? rows) ∧
      (computeDeltasAndArcChunk rows carry).2.raw.get? = rawAfter carry.raw.get? rows ∧
      (computeDeltasAndArcChunk rows carry).2.arc.get? =
        arcAfter carry.raw.get? carry.arc.get? rows := by
  unfold computeDeltasAndArcChunk
  split
  · next empty =>
      subst empty
      exact ⟨rfl, rfl, rfl⟩
  · dsimp only
    rw [collapse_applyCounterDeltas]
    split
    · next empty =>
        refine ⟨?_, applyCounterDeltas_carry rows carry.raw, ?_⟩
        · simp [kept, arcPass, empty, scan]
        · simp [arcAfter, empty, scanLast]
    · exact ⟨applyArc_rows rows _ _, applyCounterDeltas_carry rows carry.raw,
        applyArc_carry rows _ _⟩

theorem computeDeltasAndArc_eq :
    computeDeltasAndArc rows = (computeDeltasAndArcChunk rows .empty).1 := by
  unfold computeDeltasAndArc computeDeltasAndArcChunk
  split
  · rfl
  · dsimp only [DeltaCarry.empty]
    split
    · rfl
    · rfl

end Spec

section Split

variable {raw : SeriesKey → Option RawEntry} {rows xs ys : List HwRow}
  {last : SeriesKey → Option RawEntry}

theorem series_sorted (ordered : rows.Pairwise fun a b => a.time ≤ b.time) (k : SeriesKey) :
    series HwRow.key k (sortBy HwRow.sortKey rows) = series HwRow.key k rows := by
  rw [series, filter_sortBy]
  apply sortBy_of_pairwise
  apply (ordered.filter _).imp_of_mem
  intro a b first second below
  apply Prod.Lex.le_iff.mpr
  right
  have left : a.key = k := ((mem_series HwRow.key).mp first).2
  have right : b.key = k := ((mem_series HwRow.key).mp second).2
  exact ⟨left.trans right.symm, below⟩

theorem series_deltaPass (ordered : rows.Pairwise fun a b => a.time ≤ b.time) (k : SeriesKey) :
    series DeltaRow.key k (deltaPass raw rows) =
      scan HwRow.key HwRow.entry HwRow.withDelta raw (series HwRow.key k rows) := by
  have split := series_scan HwRow.key HwRow.entry HwRow.withDelta DeltaRow.key (fun _ _ => rfl) raw k
    (sortBy HwRow.sortKey rows)
  rw [series_sorted ordered] at split
  exact split

theorem rawAfter_apply (ordered : rows.Pairwise fun a b => a.time ≤ b.time) (k : SeriesKey) :
    rawAfter raw rows k = scanLast HwRow.key HwRow.entry raw (series HwRow.key k rows) k := by
  rw [rawAfter, ← scanLast_series, series_sorted ordered]

theorem deltaPass_sorted : (deltaPass raw rows).Pairwise fun a b => a.key ≤ b.key := by
  have keys : (deltaPass raw rows).map DeltaRow.key = (sortBy HwRow.sortKey rows).map HwRow.key :=
    map_scan HwRow.key HwRow.entry HwRow.withDelta DeltaRow.key HwRow.key (fun _ _ => rfl) _ _
  have sorted := List.pairwise_map.mpr (sorted_by_key rows)
  rw [← keys] at sorted
  exact List.pairwise_map.mp sorted

structure Separates (early : ℚ → Bool) (xs ys : List HwRow) : Prop where
  before : ∀ r ∈ xs, early r.time = true
  after : ∀ r ∈ ys, early r.time = false

theorem filter_scan_all (early : ℚ → Bool) {l : List HwRow}
    (all : ∀ r ∈ l, early r.time = true) :
    (scan HwRow.key HwRow.entry HwRow.withDelta last l).filter (fun r => early r.time) =
      scan HwRow.key HwRow.entry HwRow.withDelta last l := by
  apply List.filter_eq_self.mpr
  intro r member
  obtain ⟨a, inList, s, rfl⟩ := mem_scan _ _ _ member
  exact all a inList

theorem filter_scan_none (early : ℚ → Bool) {l : List HwRow}
    (none : ∀ r ∈ l, early r.time = false) :
    (scan HwRow.key HwRow.entry HwRow.withDelta last l).filter (fun r => early r.time) = [] := by
  apply List.filter_eq_nil_iff.mpr
  intro r member
  obtain ⟨a, inList, s, rfl⟩ := mem_scan _ _ _ member
  change ¬ early a.time = true
  simp [none a inList]

variable {early : ℚ → Bool}

theorem deltaPass_early (ordered : (xs ++ ys).Pairwise fun a b => a.time ≤ b.time)
    (cut : Separates early xs ys) :
    (deltaPass raw (xs ++ ys)).filter (fun r => early r.time) = deltaPass raw xs := by
  apply eq_of_series DeltaRow.key (deltaPass_sorted.filter _) deltaPass_sorted
  intro k
  have orderedXs := (List.pairwise_append.mp ordered).1
  rw [series_filter, series_deltaPass ordered, series_deltaPass orderedXs, series_append, scan_append,
    List.filter_append, filter_scan_all, filter_scan_none, List.append_nil]
  · intro r member
    exact cut.after r ((mem_series HwRow.key).mp member).1
  · intro r member
    exact cut.before r ((mem_series HwRow.key).mp member).1

theorem deltaPass_late (ordered : (xs ++ ys).Pairwise fun a b => a.time ≤ b.time)
    (cut : Separates early xs ys) :
    (deltaPass raw (xs ++ ys)).filter (fun r => !early r.time) = deltaPass (rawAfter raw xs) ys := by
  apply eq_of_series DeltaRow.key (deltaPass_sorted.filter _) deltaPass_sorted
  intro k
  obtain ⟨orderedXs, orderedYs, -⟩ := List.pairwise_append.mp ordered
  have late : ∀ r ∈ series HwRow.key k ys, (!early r.time) = true := by
    intro r member
    simp [cut.after r ((mem_series HwRow.key).mp member).1]
  have first : ∀ r ∈ series HwRow.key k xs, (!early r.time) = false := by
    intro r member
    simp [cut.before r ((mem_series HwRow.key).mp member).1]
  rw [series_filter, series_deltaPass ordered, series_deltaPass orderedYs, series_append, scan_append,
    List.filter_append, filter_scan_none (fun t => !early t) first,
    filter_scan_all (fun t => !early t) late, List.nil_append]
  apply scan_congr_last
  intro r member
  have here : r.key = k := ((mem_series HwRow.key).mp member).2
  rw [here, rawAfter_apply orderedXs]

theorem collapseSpec_filter (early : ℚ → Bool) (l : List DeltaRow) :
    (collapseSpec l).filter (fun r => early r.time) =
      collapseSpec (l.filter fun r => early r.time) :=
  groupBy_filter collapsedKey collapsedRow _ (fun k => early k.time) l fun _ _ => rfl

theorem collapsedPass_early (ordered : (xs ++ ys).Pairwise fun a b => a.time ≤ b.time)
    (cut : Separates early xs ys) :
    (collapsedPass raw (xs ++ ys)).filter (fun r => early r.time) = collapsedPass raw xs := by
  rw [collapsedPass, filter_sortBy, collapseSpec_filter, deltaPass_early ordered cut]
  rfl

theorem collapsedPass_late (ordered : (xs ++ ys).Pairwise fun a b => a.time ≤ b.time)
    (cut : Separates early xs ys) :
    (collapsedPass raw (xs ++ ys)).filter (fun r => !early r.time) =
      collapsedPass (rawAfter raw xs) ys := by
  rw [collapsedPass, filter_sortBy, collapseSpec_filter (fun t => !early t),
    deltaPass_late ordered cut]
  rfl

theorem series_collapsedPass_sorted (k : SeriesKey) :
    (series DeltaRow.key k (collapsedPass raw rows)).Pairwise fun a b => a.time ≤ b.time := by
  apply ((sortBy_pairwise DeltaRow.sortKey _).filter _).imp_of_mem
  intro a b first second below
  have left : a.key = k := ((mem_series DeltaRow.key).mp first).2
  have right : b.key = k := ((mem_series DeltaRow.key).mp second).2
  rcases Prod.Lex.le_iff.mp below with less | ⟨-, times⟩
  · exact absurd (left.trans right.symm) less.ne
  · exact times

theorem series_collapsedPass_split (ordered : (xs ++ ys).Pairwise fun a b => a.time ≤ b.time)
    (cut : Separates early xs ys) (down : ∀ t u, t ≤ u → early u → early t) (k : SeriesKey) :
    series DeltaRow.key k (collapsedPass raw (xs ++ ys)) =
      series DeltaRow.key k (collapsedPass raw xs) ++
        series DeltaRow.key k (collapsedPass (rawAfter raw xs) ys) := by
  rw [← filter_append_filter DeltaRow.time early down (series_collapsedPass_sorted k),
    ← series_filter, ← series_filter, collapsedPass_early ordered cut, collapsedPass_late ordered cut]

theorem arcPass_split (raw : SeriesKey → Option RawEntry) (arc : SeriesKey → Option ℚ)
    (ordered : (xs ++ ys).Pairwise fun a b => a.time ≤ b.time)
    (cut : Separates early xs ys) (down : ∀ t u, t ≤ u → early u → early t) :
    (arcPass raw arc (xs ++ ys)).Perm
      (arcPass raw arc xs ++ arcPass (rawAfter raw xs) (arcAfter raw arc xs) ys) := by
  apply perm_of_series HostRow.key
  intro k
  apply List.Perm.of_eq
  have pass : ∀ r a l, series HostRow.key k (arcPass r a l) =
      scan DeltaRow.key DeltaRow.time DeltaRow.withArc a (series DeltaRow.key k (collapsedPass r l)) :=
    fun r a l => series_scan DeltaRow.key DeltaRow.time DeltaRow.withArc HostRow.key (fun _ _ => rfl) a k _
  rw [series_append, pass, pass, pass, series_collapsedPass_split ordered cut down, scan_append]
  congr 1
  apply scan_congr_last
  intro r member
  have here : r.key = k := ((mem_series DeltaRow.key).mp member).2
  rw [here, arcAfter, scanLast_series]

end Split

def upTo (xs : List HwRow) (t : ℚ) : Bool := xs.any fun r => decide (t ≤ r.time)

theorem upTo_down (xs : List HwRow) (t u : ℚ) (below : t ≤ u) (early : upTo xs u) : upTo xs t := by
  simp only [upTo, List.any_eq_true, decide_eq_true_eq] at early ⊢
  obtain ⟨r, member, after⟩ := early
  exact ⟨r, member, below.trans after⟩

theorem upTo_separates {xs ys : List HwRow} (cut : ∀ a ∈ xs, ∀ b ∈ ys, a.time < b.time) :
    Separates (upTo xs) xs ys where
  before := by
    intro r member
    simp only [upTo, List.any_eq_true, decide_eq_true_eq]
    exact ⟨r, member, le_rfl⟩
  after := by
    intro r member
    simp only [upTo, List.any_eq_false, decide_eq_true_eq, not_le]
    exact fun a inXs => cut a inXs r member

end PerfStats.Frame
