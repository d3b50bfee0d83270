import PerfStats.Frame.Chunk

/-! The repair of rows stored once per device: whole-node rows are planned from them with the
collapse stage of ingest. -/

namespace PerfStats.Frame

open Lib

section Model

structure KeyCols where
  host : Str
  type : Str
  event : Str
  time : ℚ
  deriving DecidableEq, Repr

/-- `_SERIES_COLS`; the `dev` of a whole-node row is empty. -/
def KeyCols.series (k : KeyCols) : SeriesKey := seriesKey k.host k.type [] k.event

def KeyCols.sortKey (k : KeyCols) : SeriesKey ×ₗ ℚ := toLex (k.series, k.time)

def DeltaRow.keyCols (r : DeltaRow) : KeyCols := ⟨r.host, r.type, r.event, r.time⟩

namespace HostRow

variable (r : HostRow)

def keyCols : KeyCols := ⟨r.host, r.type, r.event, r.time⟩

def deltaRow : DeltaRow :=
  ⟨r.time, r.host, r.jid, r.type, r.dev, r.event, r.unit, r.value, r.delta⟩

end HostRow

def keepDevTypes : List Str := gpuStatsTypes ++ keepDevNonGpuTypes

def percoreMask (r : HostRow) : Bool :=
  decide (r.dev ≠ []) && !isJobStamped r.dev && decide (r.type ∉ keepDevTypes)

def previousTimes (context : List KeyCols) : List (KeyCols × Option ℚ) :=
  scan KeyCols.series KeyCols.time Prod.mk (fun _ => none)
    (sortBy KeyCols.sortKey (firstKeys id context))

def arcSums (todo : List HostRow) : List (KeyCols × Cell) :=
  groupBy HostRow.keyCols (fun k group => (k, Cell.sumMinCount (group.map HostRow.arc))) todo

/-- `merge(on=KEY_COLS, how="left")`. -/
def mergeLeft {ρ β : Type} (key : ρ → KeyCols) (rows : List ρ) (right : List (KeyCols × β)) :
    List (ρ × Option β) :=
  rows.flatMap fun r =>
    match series Prod.fst (key r) right with
    | [] => [(r, none)]
    | matched => matched.map fun e => (r, some e.2)

def plannedArc (delta : Cell) (dt : Option ℚ) (arcSum : Cell) : Cell :=
  match delta, dt with
  | some delta, some dt => if 0 < dt then some (delta / dt) else arcSum
  | _, _ => arcSum

def plannedRow (r : DeltaRow) (prevTime : Option ℚ) (arcSum : Cell) : HostRow :=
  { time := r.time, host := r.host, jid := r.jid, type := r.type, dev := [], event := r.event
    unit := r.unit, value := r.value, delta := r.delta
    arc := plannedArc r.delta (prevTime.map fun t => r.time - t) arcSum }

structure CollapsePlan where
  newRows : List HostRow
  percoreRows : Nat
  groups : Nat
  keptExisting : Nat

variable (percore : List HostRow) (existing context : List KeyCols)

def todoRows : List HostRow :=
  (percore.filter percoreMask).filter fun r => decide (r.keyCols ∉ existing)

def planCollapse : CollapsePlan :=
  let frame := percore.filter percoreMask
  let todo := todoRows percore existing
  let groups := firstKeys HostRow.keyCols frame
  let collapsed := collapseStatsWithDeltas (todo.map HostRow.deltaRow)
  let timed := mergeLeft DeltaRow.keyCols collapsed (previousTimes context)
  let merged := mergeLeft (fun row => row.1.keyCols) timed (arcSums todo)
  { newRows := merged.map fun row => plannedRow row.1.1 row.1.2.join row.2.join
    percoreRows := frame.length
    groups := groups.length
    keptExisting := groups.countP fun k => decide (k ∈ existing) }

end Model

section Promise

structure PercoreSamples where
  rows : List HostRow
  context : List KeyCols
  masked : ∀ r ∈ rows, percoreMask r = true
  rated : ∀ r ∈ rows, ∃ prev, r.arc = (r.deltaRow.withArc prev).arc
  covers : ∀ r ∈ rows, r.keyCols ∈ context
  only : ∀ k ∈ context, ∀ r ∈ rows, r.keyCols.series = k.series → ∃ s ∈ rows, s.keyCols = k

namespace PercoreSamples

variable (p : PercoreSamples) (existing : List KeyCols)

def collapsed : List DeltaRow := collapseStatsWithDeltas (p.rows.map HostRow.deltaRow)

def ingested : List HostRow := (applyArcAndFinalize p.collapsed .empty).1

def planned : List HostRow := (planCollapse p.rows existing p.context).newRows

def NotFirst (k : KeyCols) : Prop := ∃ r ∈ p.rows, r.keyCols.series = k.series ∧ r.time < k.time

structure PlansAsIngest : Prop where
  one : ∀ r ∈ p.rows, r.keyCols ∉ existing →
    ∃ row, series HostRow.keyCols r.keyCols (p.planned existing) = [row]
  kept : ∀ row ∈ p.planned existing, row.keyCols ∉ existing
  same : (p.planned existing).map HostRow.deltaRow =
    p.collapsed.filter fun d => decide (d.keyCols ∉ existing)
  rates : ∀ row ∈ p.planned existing, p.NotFirst row.keyCols → row.value ≠ none → row ∈ p.ingested
  windows : ∀ (window : KeyCols → Nat) (parts : List Nat), parts.Nodup →
    (∀ r ∈ p.rows, window r.keyCols ∈ parts) →
    (p.planned existing).Perm (parts.flatMap fun w =>
      (planCollapse (p.rows.filter fun r => decide (window r.keyCols = w)) existing
        p.context).newRows)

def counted (type event : Str) (c : Cell) : Cell := if isPowerGauge type event then nanOutBlank c else c

structure Plannable : Prop where
  unit : ∀ r ∈ p.rows, ∀ s ∈ p.rows, r.keyCols = s.keyCols → r.keyCols ∉ existing → r.unit = s.unit
  rate : ∀ r ∈ p.rows, r.keyCols ∉ existing → p.NotFirst r.keyCols → r.arc ≠ none →
    (∃ s ∈ p.rows, s.keyCols = r.keyCols ∧ counted r.type r.event s.value ≠ none) →
    ∃ s ∈ p.rows, s.keyCols = r.keyCols ∧ counted r.type r.event s.delta ≠ none

end PercoreSamples

end Promise

section Joins

variable {ρ β : Type} {right : List (KeyCols × β)}

def found (right : List (KeyCols × β)) (k : KeyCols) : Option β :=
  (series Prod.fst k right).head?.map Prod.snd

theorem found_of_mem (distinct : (right.map Prod.fst).Nodup) {k : KeyCols} {b : β}
    (member : (k, b) ∈ right) : found right k = some b := by
  have alone := series_of_nodup Prod.fst distinct member
  rw [found, alone]
  rfl

theorem mergeLeft_eq (distinct : (right.map Prod.fst).Nodup) (key : ρ → KeyCols) (rows : List ρ) :
    mergeLeft key rows right = rows.map fun r => (r, found right (key r)) := by
  rw [mergeLeft, List.map_eq_flatMap]
  congr 1
  funext r
  cases here : series Prod.fst (key r) right with
  | nil => simp [found, here]
  | cons e rest =>
    have member : e ∈ series Prod.fst (key r) right := by
      rw [here]
      exact .head _
    obtain ⟨inRight, same⟩ := (mem_series Prod.fst).mp member
    have alone := series_of_nodup Prod.fst distinct inRight
    rw [same, here] at alone
    obtain ⟨-, rfl⟩ := List.cons.inj alone
    simp [found, here]

variable (todo : List HostRow) (context : List KeyCols)

theorem previousTimes_keys :
    (previousTimes context).map Prod.fst = sortBy KeyCols.sortKey (firstKeys id context) := by
  rw [previousTimes, map_scan KeyCols.series KeyCols.time Prod.mk Prod.fst id fun _ _ => rfl]
  exact List.map_id _

theorem times_nodup : (sortBy KeyCols.sortKey (firstKeys id context)).Nodup :=
  (sortBy_perm _ _).nodup_iff.mpr (firstKeys_nodup id context)

theorem arcSums_keys : (arcSums todo).map Prod.fst = firstKeys HostRow.keyCols todo := by
  rw [arcSums, groupBy, List.map_map]
  exact List.map_id _

def arcSum (k : KeyCols) : Cell :=
  Cell.sumMinCount ((series HostRow.keyCols k todo).map HostRow.arc)

theorem arcSums_found {r : HostRow} (member : r ∈ todo) :
    found (arcSums todo) r.keyCols = some (arcSum todo r.keyCols) := by
  apply found_of_mem
  · rw [arcSums_keys]
    exact firstKeys_nodup _ _
  · exact List.mem_map_of_mem ((mem_firstKeys HostRow.keyCols).mpr ⟨r, member, rfl⟩)

end Joins

section Collapsing

variable {l : List DeltaRow} {cells : List Cell}

theorem mem_collapse {d : DeltaRow} : d ∈ collapseStatsWithDeltas l ↔
    ∃ a ∈ l, d = collapsedRow (collapsedKey a) (series collapsedKey (collapsedKey a) l) := by
  rw [collapse_eq_spec, mem_collapseSpec]

theorem collapse_filter (q : KeyCols → Bool) (l : List DeltaRow) :
    (collapseStatsWithDeltas l).filter (fun d => q d.keyCols) =
      collapseStatsWithDeltas (l.filter fun d => q d.keyCols) := by
  rw [collapse_eq_spec, collapse_eq_spec, filter_sortBy]
  congr 1
  exact groupBy_filter collapsedKey collapsedRow _ (fun k => q ⟨k.host, k.type, k.event, k.time⟩) l
    fun _ _ => rfl

theorem collapse_uniform {g : GroupKey} (some_ : l ≠ []) (same : ∀ a ∈ l, collapsedKey a = g) :
    collapseStatsWithDeltas l = [collapsedRow g l] := by
  have whole : series collapsedKey g l = l :=
    List.filter_eq_self.mpr fun a member => decide_eq_true (same a member)
  have keys : firstKeys collapsedKey l = [g] := by
    cases l with
    | nil => exact absurd rfl some_
    | cons a tail =>
      rw [firstKeys, same a (.head _)]
      congr 1
      apply List.filter_eq_nil_iff.mpr
      intro k later
      obtain ⟨b, inTail, rfl⟩ := (mem_firstKeys collapsedKey).mp later
      simp [same b (.tail a inTail)]
  rw [collapse_eq_spec, collapseSpec, groupBy, keys, List.map_singleton, whole]
  rfl

theorem masked_key {r : HostRow} (mask : percoreMask r = true) :
    collapsedKey r.deltaRow = ⟨r.host, r.type, [], r.event, r.unit, r.time⟩ := by
  simp only [percoreMask, keepDevTypes, Bool.and_eq_true, decide_eq_true_eq, Bool.not_eq_true',
    List.mem_append, not_or] at mask
  obtain ⟨⟨-, plain⟩, notGpu, notKept⟩ := mask
  simp [collapsedKey, collapsedDev, HostRow.deltaRow, plain, notGpu, notKept]

theorem present_nil : Cell.present cells = [] ↔ ∀ c ∈ cells, c = none := by
  simp [Cell.present, List.filterMap_eq_nil_iff]

theorem sumMinCount_none :
    Cell.sumMinCount cells = none ↔ ∀ c ∈ cells, c = none := by
  rw [← present_nil, Cell.sumMinCount]
  cases Cell.present cells <;> simp

theorem clusterMeanSum_none {gap : ℚ} :
    clusterMeanSumSorted cells gap = none ↔ ∀ c ∈ cells, nanOutBlank c = none := by
  have sorted := (List.perm_insertionSort (· ≤ ·) (Cell.present (cells.map nanOutBlank))).length_eq
  have empty : (∀ c ∈ cells, nanOutBlank c = none) ↔ Cell.present (cells.map nanOutBlank) = [] := by
    rw [present_nil, List.forall_mem_map]
  rw [empty, clusterMeanSumSorted]
  cases ordered : (Cell.present (cells.map nanOutBlank)).insertionSort (· ≤ ·) with
  | nil =>
    rw [ordered] at sorted
    simpa using List.eq_nil_of_length_eq_zero sorted.symm
  | cons q rest =>
    rw [ordered] at sorted
    simp only [reduceCtorEq, false_iff]
    intro empty
    simp [empty] at sorted

open PercoreSamples (counted)

theorem counted_none {type event : Str} {gap : ℚ} :
    (if isPowerGauge type event then clusterMeanSumSorted cells gap else Cell.sumMinCount cells) =
      none ↔ ∀ c ∈ cells, counted type event c = none := by
  unfold counted
  split
  · exact clusterMeanSum_none
  · exact sumMinCount_none

end Collapsing

section Previous

/-- The last of the moments `held` before `t`, if there is one. -/
def LastBefore (held : ℚ → Prop) (t : ℚ) : Option ℚ → Prop
  | none => ∀ u, held u → t ≤ u
  | some s => held s ∧ s < t ∧ ∀ u, held u → u < t → u ≤ s

theorem LastBefore.unique {held : ℚ → Prop} {t : ℚ} {s s' : Option ℚ}
    (first : LastBefore held t s) (second : LastBefore held t s') : s = s' := by
  cases s with
  | none =>
    cases s' with
    | none => rfl
    | some v => exact absurd (first v second.1) (not_le.mpr second.2.1)
  | some u =>
    cases s' with
    | none => exact absurd (second u first.1) (not_le.mpr first.2.1)
    | some v =>
      have below := second.2.2 u first.1 first.2.1
      exact congrArg some (below.antisymm (first.2.2 v second.1 second.2.1))

theorem lastBefore_of_sorted {α : Type} (key : α → SeriesKey) (time : α → ℚ)
    {before after : List α} {a : α}
    (sorted : (before ++ a :: after).Pairwise fun b c =>
      (toLex (key b, time b) : SeriesKey ×ₗ ℚ) ≤ toLex (key c, time c))
    (alone : ∀ b ∈ before, key b = key a → time b ≠ time a) :
    LastBefore (fun u => ∃ b ∈ before ++ a :: after, key b = key a ∧ time b = u) (time a)
      ((series key (key a) before).getLast?.map time) := by
  have times : ∀ {b c : α}, (toLex (key b, time b) : SeriesKey ×ₗ ℚ) ≤ toLex (key c, time c) →
      key b = key c → time b ≤ time c := by
    intro b c below same
    rcases Prod.Lex.le_iff.mp below with less | ⟨-, inTime⟩
    · exact absurd same less.ne
    · exact inTime
  obtain ⟨front, back, across⟩ := List.pairwise_append.mp sorted
  have late : ∀ b ∈ a :: after, key b = key a → time a ≤ time b := by
    intro b member same
    rcases List.mem_cons.mp member with rfl | later
    · exact le_rfl
    · exact times ((List.pairwise_cons.mp back).1 b later) same.symm
  have ordered : (series key (key a) before).Pairwise fun b c => time b ≤ time c := by
    apply (front.filter _).imp_of_mem
    intro b c first second below
    have left := ((mem_series key).mp first).2
    exact times below (left.trans ((mem_series key).mp second).2.symm)
  cases last : (series key (key a) before).getLast? with
  | none =>
    rintro u ⟨b, member, same, rfl⟩
    rcases List.mem_append.mp member with inFront | inBack
    · have inSeries := (mem_series key).mpr ⟨inFront, same⟩
      rw [List.getLast?_eq_none_iff.mp last] at inSeries
      cases inSeries
    · exact late b inBack same
  | some c =>
    obtain ⟨rest, split⟩ := List.getLast?_eq_some_iff.mp last
    have member : c ∈ series key (key a) before := by simp [split]
    obtain ⟨inFront, same⟩ := (mem_series key).mp member
    have below := times (across c inFront a (.head _)) same
    refine ⟨⟨c, by simp [inFront], same, rfl⟩, lt_of_le_of_ne below (alone c inFront same), ?_⟩
    rintro u ⟨b, member, same, rfl⟩ early
    rcases List.mem_append.mp member with inFront | inBack
    · have inSeries := (mem_series key).mpr ⟨inFront, same⟩
      rw [split] at inSeries ordered
      rcases List.mem_append.mp inSeries with earlier | final
      · exact (List.pairwise_append.mp ordered).2.2 b earlier c (by simp)
      · rw [List.mem_singleton.mp final]
    · exact absurd early (not_lt.mpr (late b inBack same))

theorem keyCols_eq {k k' : KeyCols} (inSeries : k.series = k'.series) (time : k.time = k'.time) :
    k = k' := by
  obtain ⟨host, type, -, event⟩ := seriesKey_inj.mp inSeries
  cases k
  cases k'
  simp_all

theorem previousTimes_found {context : List KeyCols} {k : KeyCols} (member : k ∈ context) :
    ∃ s, found (previousTimes context) k = some s ∧
      LastBefore (fun u => ∃ c ∈ context, c.series = k.series ∧ c.time = u) k.time s := by
  have sorted := sortBy_pairwise KeyCols.sortKey (firstKeys id context)
  have nodup := times_nodup context
  have mem : ∀ c, c ∈ sortBy KeyCols.sortKey (firstKeys id context) ↔ c ∈ context := by
    intro c
    rw [(sortBy_perm _ _).mem_iff, mem_firstKeys]
    exact ⟨fun ⟨_, inside, same⟩ => same ▸ inside, fun inside => ⟨c, inside, rfl⟩⟩
  obtain ⟨before, after, split⟩ := List.append_of_mem ((mem k).mpr member)
  have at_ := scan_getElem? KeyCols.series KeyCols.time Prod.mk (fun _ => none) before after k
  rw [← split, Option.or_none] at at_
  refine ⟨_, found_of_mem ?_ (List.mem_of_getElem? at_), ?_⟩
  · rw [previousTimes_keys]
    exact nodup
  · simp only [← mem]
    rw [split] at sorted nodup ⊢
    apply lastBefore_of_sorted KeyCols.series KeyCols.time sorted
    intro c inFront inSeries time
    exact (List.nodup_append.mp nodup).2.2 c inFront k (.head _) (keyCols_eq inSeries time)

end Previous

section Planning

def planOf (todo : List HostRow) (context : List KeyCols) (d : DeltaRow) : HostRow :=
  plannedRow d (found (previousTimes context) d.keyCols).join (arcSum todo d.keyCols)

theorem newRows_eq (percore : List HostRow) (existing context : List KeyCols) :
    (planCollapse percore existing context).newRows =
      (collapseStatsWithDeltas ((todoRows percore existing).map HostRow.deltaRow)).map
        (planOf (todoRows percore existing) context) := by
  have times : ((previousTimes context).map Prod.fst).Nodup := by
    rw [previousTimes_keys]
    exact times_nodup context
  have sums : ((arcSums (todoRows percore existing)).map Prod.fst).Nodup := by
    rw [arcSums_keys]
    exact firstKeys_nodup _ _
  simp only [planCollapse]
  rw [mergeLeft_eq times, mergeLeft_eq sums, List.map_map, List.map_map]
  apply List.map_congr_left
  intro d member
  obtain ⟨a, inTodo, rfl⟩ := mem_collapse.mp member
  obtain ⟨r, here, rfl⟩ := List.mem_map.mp inTodo
  change plannedRow _ _ (found (arcSums _) r.keyCols).join = plannedRow _ _ (arcSum _ r.keyCols)
  rw [arcSums_found _ here]
  rfl

theorem collapse_rows (q : KeyCols → Bool) (rows : List HostRow) :
    collapseStatsWithDeltas ((rows.filter fun r => q r.keyCols).map HostRow.deltaRow) =
      (collapseStatsWithDeltas (rows.map HostRow.deltaRow)).filter fun d => q d.keyCols := by
  rw [collapse_filter, List.filter_map]
  rfl

namespace PercoreSamples

variable (p : PercoreSamples) (existing : List KeyCols)

def todo : List HostRow := p.rows.filter fun r => decide (r.keyCols ∉ existing)

theorem todoRows_masked {rows : List HostRow} (masked : ∀ r ∈ rows, percoreMask r = true) :
    todoRows rows existing = rows.filter fun r => decide (r.keyCols ∉ existing) := by
  rw [todoRows, List.filter_eq_self.mpr masked]

theorem planned_eq : p.planned existing =
    (p.collapsed.filter fun d => decide (d.keyCols ∉ existing)).map
      (planOf (p.todo existing) p.context) := by
  rw [planned, newRows_eq, todoRows_masked existing p.masked,
    collapse_rows fun k => decide (k ∉ existing)]
  rfl

variable {p existing} {d : DeltaRow} {r : HostRow}

theorem mem_collapsed (member : d ∈ p.collapsed) :
    ∃ r ∈ p.rows, d.keyCols = r.keyCols ∧ d.dev = [] := by
  obtain ⟨a, inside, rfl⟩ := mem_collapse.mp member
  obtain ⟨r, inRows, rfl⟩ := List.mem_map.mp inside
  refine ⟨r, inRows, rfl, ?_⟩
  rw [masked_key (p.masked r inRows)]
  rfl

theorem collapsed_of_row (member : r ∈ p.rows) :
    ∃ d ∈ p.collapsed, d.keyCols = r.keyCols ∧ d.dev = [] ∧ d.unit = r.unit := by
  refine ⟨_, mem_collapse.mpr ⟨r.deltaRow, List.mem_map_of_mem member, rfl⟩, rfl, ?_, rfl⟩
  rw [masked_key (p.masked r member)]
  rfl

theorem collapsed_single (member : r ∈ p.rows)
    (unit : ∀ s ∈ p.rows, r.keyCols = s.keyCols → r.unit = s.unit) :
    series DeltaRow.keyCols r.keyCols p.collapsed =
      [collapsedRow ⟨r.host, r.type, [], r.event, r.unit, r.time⟩
        ((series HostRow.keyCols r.keyCols p.rows).map HostRow.deltaRow)] := by
  have here : r ∈ series HostRow.keyCols r.keyCols p.rows := (mem_series _).mpr ⟨member, rfl⟩
  rw [series, collapsed, ← collapse_rows fun k => decide (k = r.keyCols)]
  apply collapse_uniform
  · exact List.ne_nil_of_mem (List.mem_map_of_mem here)
  · intro a inside
    obtain ⟨s, inSeries, rfl⟩ := List.mem_map.mp inside
    obtain ⟨inRows, same⟩ := (mem_series HostRow.keyCols).mp inSeries
    rw [masked_key (p.masked s inRows), unit s inRows same.symm]
    obtain ⟨host, type, event, time⟩ := KeyCols.mk.inj same
    rw [host, type, event, time]

theorem planned_at {k : KeyCols} (fresh : k ∉ existing) :
    series HostRow.keyCols k (p.planned existing) =
      (series DeltaRow.keyCols k p.collapsed).map (planOf (p.todo existing) p.context) := by
  rw [planned_eq, series, List.filter_map, List.filter_filter]
  congr 1
  apply List.filter_congr
  intro d _
  change (decide (d.keyCols = k) && _) = _
  by_cases same : d.keyCols = k <;> simp [same, fresh]

theorem mem_planned {row : HostRow} (member : row ∈ p.planned existing) :
    ∃ d ∈ p.collapsed, d.keyCols ∉ existing ∧ row = planOf (p.todo existing) p.context d := by
  rw [planned_eq] at member
  obtain ⟨d, inside, rfl⟩ := List.mem_map.mp member
  obtain ⟨inCollapsed, fresh⟩ := List.mem_filter.mp inside
  exact ⟨d, inCollapsed, of_decide_eq_true fresh, rfl⟩

theorem key_of_dev (plain : d.dev = []) : d.key = d.keyCols.series := by
  rw [DeltaRow.key, plain]
  rfl

def SampledAt (p : PercoreSamples) (k : SeriesKey) (u : ℚ) : Prop :=
  ∃ r ∈ p.rows, r.keyCols.series = k ∧ r.time = u

theorem collapsed_sampled {k : SeriesKey} :
    (fun u => ∃ b ∈ p.collapsed, b.key = k ∧ b.time = u) = p.SampledAt k := by
  funext u
  apply propext
  constructor
  · rintro ⟨b, member, rfl, rfl⟩
    obtain ⟨r, inRows, keys, plain⟩ := mem_collapsed member
    exact ⟨r, inRows, by rw [key_of_dev plain, keys], congrArg KeyCols.time keys.symm⟩
  · rintro ⟨r, inRows, rfl, rfl⟩
    obtain ⟨d, member, keys, plain, -⟩ := collapsed_of_row inRows
    exact ⟨d, member, by rw [key_of_dev plain, keys], congrArg KeyCols.time keys⟩

theorem context_sampled (member : r ∈ p.rows) :
    (fun u => ∃ c ∈ p.context, c.series = r.keyCols.series ∧ c.time = u) =
      p.SampledAt r.keyCols.series := by
  funext u
  apply propext
  constructor
  · rintro ⟨c, inContext, inSeries, rfl⟩
    obtain ⟨s, inRows, rfl⟩ := p.only c inContext r member inSeries.symm
    exact ⟨s, inRows, inSeries, rfl⟩
  · rintro ⟨s, inRows, inSeries, rfl⟩
    exact ⟨s.keyCols, p.covers s inRows, inSeries, rfl⟩

theorem ingested_eq : p.ingested =
    (scan DeltaRow.key DeltaRow.time DeltaRow.withArc (fun _ => none) p.collapsed).filter
      fun r => r.value.isSome := by
  rw [ingested, applyArcAndFinalize, adjacent_eq_scan]
  · rfl
  · apply (sortBy_pairwise DeltaRow.sortKey _).imp
    intro a b below
    exact (Prod.Lex.le_iff.mp below).elim le_of_lt fun same => same.1.le

theorem previous_same (member : d ∈ p.collapsed)
    (single : series DeltaRow.keyCols d.keyCols p.collapsed = [d]) (valued : d.value ≠ none) :
    ∃ s, LastBefore (p.SampledAt d.keyCols.series) d.time s ∧
      (found (previousTimes p.context) d.keyCols).join = s ∧ d.withArc s ∈ p.ingested := by
  obtain ⟨r, inRows, keys, plain⟩ := mem_collapsed member
  obtain ⟨s, answer, last⟩ := previousTimes_found (p.covers r inRows)
  rw [context_sampled inRows, ← keys] at last
  refine ⟨s, last, by rw [keys, answer]; rfl, ?_⟩
  obtain ⟨before, after, split⟩ := List.append_of_mem member
  have sorted : p.collapsed.Pairwise fun a b => a.sortKey ≤ b.sortKey := sortBy_pairwise _ _
  have times := collapsed_sampled (p := p) (k := d.key)
  rw [split] at sorted times single
  have alone : ∀ b ∈ before, b.key = d.key → b.time ≠ d.time := by
    intro b inFront series time
    have twin : b.keyCols = d.keyCols := by
      obtain ⟨-, -, -, plain'⟩ := mem_collapsed (p := p) (d := b) (by simp [split, inFront])
      rw [key_of_dev plain, key_of_dev plain'] at series
      exact keyCols_eq series time
    have first : b ∈ Lib.series DeltaRow.keyCols d.keyCols before := (mem_series _).mpr ⟨inFront, twin⟩
    rw [series_append, series_cons_self] at single
    have lengths := congrArg List.length single
    have some_ := List.length_pos_of_mem first
    simp only [List.length_append, List.length_cons, List.length_nil] at lengths
    omega
  have told := lastBefore_of_sorted DeltaRow.key DeltaRow.time sorted alone
  rw [times, key_of_dev plain] at told
  have here := scan_getElem? DeltaRow.key DeltaRow.time DeltaRow.withArc (fun _ => none) before after d
  rw [← split, Option.or_none, key_of_dev plain, told.unique last] at here
  rw [ingested_eq]
  exact List.mem_filter.mpr ⟨List.mem_of_getElem? here, Option.isSome_iff_ne_none.mpr valued⟩

end PercoreSamples

end Planning

section Repair

namespace PercoreSamples

variable {p : PercoreSamples} {existing : List KeyCols} {d : DeltaRow} {r : HostRow}

theorem planned_window (w : Nat) (window : KeyCols → Nat) :
    (planCollapse (p.rows.filter fun r => decide (window r.keyCols = w)) existing
        p.context).newRows =
      (p.planned existing).filter fun row => decide (window row.keyCols = w) := by
  have masked : ∀ r ∈ p.rows.filter fun r => decide (window r.keyCols = w), percoreMask r = true :=
    fun r member => p.masked r (List.mem_filter.mp member).1
  have left : (p.rows.filter fun r => decide (window r.keyCols = w)).filter
      (fun r => decide (r.keyCols ∉ existing)) =
      (p.todo existing).filter fun r => decide (window r.keyCols = w) := by
    simp only [todo, List.filter_filter, Bool.and_comm]
  rw [newRows_eq, todoRows_masked existing masked, left, planned, newRows_eq,
    todoRows_masked existing p.masked, collapse_rows fun k => decide (window k = w), List.filter_map]
  apply List.map_congr_left
  intro d member
  have inside : window d.keyCols = w := of_decide_eq_true (List.mem_filter.mp member).2
  rw [planOf, planOf, arcSum, series_filter, List.filter_eq_self.mpr]
  · rfl
  · intro r same
    rw [((mem_series HostRow.keyCols).mp same).2]
    exact decide_eq_true inside

theorem planned_windows (window : KeyCols → Nat) {parts : List Nat} (distinct : parts.Nodup)
    (covered : ∀ r ∈ p.rows, window r.keyCols ∈ parts) :
    (p.planned existing).Perm (parts.flatMap fun w =>
      (planCollapse (p.rows.filter fun r => decide (window r.keyCols = w)) existing
        p.context).newRows) := by
  simp only [planned_window]
  apply perm_of_series HostRow.keyCols
  intro k
  apply List.Perm.of_eq
  apply (series_parts HostRow.keyCols (fun row => window row.keyCols) parts _ distinct _ _ k).symm
  · intro row member
    obtain ⟨d, inCollapsed, -, rfl⟩ := mem_planned member
    obtain ⟨r, inRows, keys, -⟩ := mem_collapsed inCollapsed
    change window d.keyCols ∈ parts
    rw [keys]
    exact covered r inRows
  · exact fun a _ b _ same => congrArg window same

theorem not_nvidia_of_masked (member : r ∈ p.rows) : r.type ≠ lit "nvidia_gpu" := by
  have mask := p.masked r member
  simp only [percoreMask, keepDevTypes, Bool.and_eq_true, decide_eq_true_eq, List.mem_append,
    not_or] at mask
  exact not_nvidia mask.2.1

theorem single_missing (inRows : r ∈ p.rows) (member : d ∈ p.collapsed)
    (keys : d.keyCols = r.keyCols)
    (unit : ∀ s ∈ p.rows, r.keyCols = s.keyCols → r.unit = s.unit) :
    series DeltaRow.keyCols d.keyCols p.collapsed = [d] ∧
      (d.value = none ↔ ∀ s ∈ p.rows, s.keyCols = r.keyCols → counted r.type r.event s.value = none) ∧
      (d.delta = none ↔
        ∀ s ∈ p.rows, s.keyCols = r.keyCols → counted r.type r.event s.delta = none) := by
  have single := collapsed_single inRows unit
  have here : d ∈ series DeltaRow.keyCols r.keyCols p.collapsed := (mem_series _).mpr ⟨member, keys⟩
  rw [single, List.mem_singleton] at here
  refine ⟨by rw [keys, single, here], ?_, ?_⟩
  · rw [here]
    change valueAggregate r.type r.event _ = none ↔ _
    rw [valueAggregate, if_neg (not_nvidia_of_masked inRows), counted_none]
    simp only [List.forall_mem_map, mem_series, and_imp]
    rfl
  · rw [here]
    change deltaAggregate r.type r.event _ = none ↔ _
    rw [deltaAggregate, if_neg (not_nvidia_of_masked inRows), counted_none]
    simp only [List.forall_mem_map, mem_series, and_imp]
    rfl

theorem arcSum_none {k : KeyCols} (fresh : k ∉ existing) :
    arcSum (p.todo existing) k = none ↔ ∀ s ∈ p.rows, s.keyCols = k → s.arc = none := by
  rw [arcSum, sumMinCount_none]
  simp only [List.forall_mem_map, mem_series, todo, List.mem_filter, decide_eq_true_eq]
  constructor
  · intro none s inRows same
    exact none s ⟨⟨inRows, same ▸ fresh⟩, same⟩
  · rintro none s ⟨⟨inRows, -⟩, same⟩
    exact none s inRows same

theorem Plannable.rates (right : p.Plannable existing) {row : HostRow}
    (member : row ∈ p.planned existing) (later : p.NotFirst row.keyCols)
    (valued : row.value ≠ none) : row ∈ p.ingested := by
  obtain ⟨d, inCollapsed, fresh, rfl⟩ := mem_planned member
  obtain ⟨r, inRows, keys, plain⟩ := mem_collapsed inCollapsed
  have found : ∀ t ∈ p.rows, t.keyCols = d.keyCols → _ := fun t inside same =>
    single_missing inside inCollapsed same.symm fun s other together =>
      right.unit t inside s other together (same ▸ fresh)
  obtain ⟨s, last, previous, kept⟩ :=
    previous_same inCollapsed (found r inRows keys.symm).1 valued
  change p.NotFirst d.keyCols at later
  cases s with
  | none =>
    obtain ⟨t, inside, inSeries, before⟩ := later
    exact absurd before (not_lt.mpr (last t.time ⟨t, inside, inSeries, rfl⟩))
  | some u =>
    have arcs : plannedArc d.delta (some (d.time - u)) (arcSum (p.todo existing) d.keyCols) =
        (d.withArc (some u)).arc := by
      cases delta : d.delta with
      | some x => simp [plannedArc, DeltaRow.withArc, Cell.divBy, delta, last.2.1]
      | none =>
        -- without a delta the plan falls back to the rates of the devices, which then have none
        have none : arcSum (p.todo existing) d.keyCols = none := by
          rw [arcSum_none fresh]
          intro t inside same
          by_contra rate
          obtain ⟨-, values, deltas⟩ := found t inside same
          rw [← same] at fresh later
          have value : ∃ s ∈ p.rows, s.keyCols = t.keyCols ∧ counted t.type t.event s.value ≠ none := by
            by_contra without
            push Not at without
            exact valued (values.mpr without)
          obtain ⟨s, other, together, counts⟩ := right.rate t inside fresh later rate value
          exact counts (deltas.mp delta s other together)
        simp [plannedArc, DeltaRow.withArc, Cell.divBy, delta, none]
    rw [planOf, previous, plannedRow, Option.map_some, arcs, ← plain]
    exact kept

theorem Plannable.asIngest (right : p.Plannable existing) : p.PlansAsIngest existing where
  one := by
    intro r inRows fresh
    rw [planned_at fresh, collapsed_single inRows fun s inside together =>
      right.unit r inRows s inside together fresh]
    exact ⟨_, rfl⟩
  kept := by
    intro row member
    obtain ⟨d, -, fresh, rfl⟩ := mem_planned member
    exact fresh
  same := by
    rw [planned_eq, List.map_map]
    conv_rhs => rw [← List.map_id (p.collapsed.filter _)]
    apply List.map_congr_left
    intro d member
    obtain ⟨-, -, -, plain⟩ := mem_collapsed (List.mem_filter.mp member).1
    simp [planOf, plannedRow, HostRow.deltaRow, ← plain]
  rates := fun _ => right.rates
  windows := fun window _ => planned_windows window

theorem PlansAsIngest.unit (plans : p.PlansAsIngest existing) {s : HostRow} (inRows : r ∈ p.rows)
    (inside : s ∈ p.rows) (together : r.keyCols = s.keyCols) (fresh : r.keyCols ∉ existing) :
    r.unit = s.unit := by
  obtain ⟨row, alone⟩ := plans.one r inRows fresh
  rw [planned_at fresh] at alone
  have planned : ∀ t ∈ p.rows, t.keyCols = r.keyCols → t.unit = row.unit := by
    intro t member same
    obtain ⟨d, inCollapsed, keys, -, unit⟩ := collapsed_of_row member
    have here : d ∈ series DeltaRow.keyCols r.keyCols p.collapsed :=
      (mem_series _).mpr ⟨inCollapsed, keys.trans same⟩
    have sole := List.mem_map_of_mem (f := planOf (p.todo existing) p.context) here
    rw [alone, List.mem_singleton] at sole
    rw [← sole, ← unit]
    rfl
  exact (planned r inRows rfl).trans (planned s inside together.symm).symm

theorem PlansAsIngest.plannable (plans : p.PlansAsIngest existing) : p.Plannable existing where
  unit := fun r inRows s inside together fresh => plans.unit inRows inside together fresh
  rate := by
    intro r inRows fresh later rate value
    obtain ⟨d, inCollapsed, keys, plain, -⟩ := collapsed_of_row inRows
    obtain ⟨single, values, deltas⟩ := single_missing inRows inCollapsed keys fun s inside together =>
      plans.unit inRows inside together fresh
    by_contra without
    push Not at without
    have delta := deltas.mpr without
    have valued : d.value ≠ none := by
      obtain ⟨s, inside, same, counts⟩ := value
      exact fun missing => counts (values.mp missing s inside same)
    have member : planOf (p.todo existing) p.context d ∈ p.planned existing := by
      rw [planned_eq]
      exact List.mem_map_of_mem (List.mem_filter.mpr ⟨inCollapsed, by simpa [keys] using fresh⟩)
    have kept := plans.rates _ member (by rw [← keys] at later; exact later) valued
    rw [ingested_eq] at kept
    obtain ⟨e, -, s, same⟩ := mem_scan _ _ _ (List.mem_filter.mp kept).1
    -- the row of ingest has no rate, as it has no delta; the plan has the devices' rates
    have missing : (planOf (p.todo existing) p.context d).arc = none := by
      have delta' : e.delta = none := (congrArg HostRow.delta same).symm.trans delta
      rw [same]
      cases s <;> simp [DeltaRow.withArc, Cell.divBy, delta']
    have sums : arcSum (p.todo existing) d.keyCols = none := by
      simpa [planOf, plannedRow, plannedArc, delta] using missing
    rw [keys, arcSum_none fresh] at sums
    exact rate (sums r inRows rfl)

def gaugeRow (time : ℚ) (dev : Str) (value delta : Cell) : DeltaRow :=
  { time, host := lit "n1", jid := lit "-", type := lit "host_cpu_hw", dev
    event := lit "dcgm_cpu_power_util_w", unit := lit "W", value, delta }

def blanked : PercoreSamples where
  rows := [(gaugeRow 10 (lit "0") (some 0) none).withArc none,
    (gaugeRow 20 (lit "0") (some (2 ^ 47)) (some (2 ^ 47))).withArc (some 10),
    (gaugeRow 20 (lit "1") (some 50) none).withArc none]
  context := [(gaugeRow 10 [] none none).keyCols, (gaugeRow 20 [] none none).keyCols]
  masked := by decide
  rated := by
    simp only [List.forall_mem_cons, List.not_mem_nil, false_implies, implies_true, and_true]
    exact ⟨⟨none, rfl⟩, ⟨some 10, rfl⟩, ⟨none, rfl⟩⟩
  covers := by decide
  only := by decide

end PercoreSamples

end Repair

end PerfStats.Frame
