import PerfStats.Frame.Collapse

/-! What the collapse stage is for: one group per collapsed key and time, with the aggregation of
its type and event. -/

namespace PerfStats.Frame

open Lib

def collapsedDev (r : DeltaRow) : Str :=
  if r.type ∈ gpuStatsTypes then r.dev
  else if isJobStamped r.dev then cutStamp r.dev
  else if isCcmPower r then []
  else if r.type ∈ keepDevNonGpuTypes then r.dev
  else []

def collapsedKey (r : DeltaRow) : GroupKey :=
  ⟨r.host, r.type, collapsedDev r, r.event, r.unit, r.time⟩

def isPowerGauge (type event : Str) : Bool :=
  decide (type ∈ hostCpuHwTypes) && decide (event ∈ dcgmCpuPowerSocketGaugeEvents)

def valueAggregate (type event : Str) (values : List Cell) : Cell :=
  if type = lit "nvidia_gpu" then
    match nvidiaEventClass event with
    | .sum => Cell.sumMinCount (values.map nanOutBlank)
    | .max => Cell.maximum (values.map nanOutBlank)
    | .mean => Cell.mean (values.map nanOutBlank)
    | .or => nvidiaBitwiseOrValues values
  else if isPowerGauge type event then clusterMeanSumSorted values 1
  else Cell.sumMinCount values

def deltaAggregate (type event : Str) (deltas : List Cell) : Cell :=
  if type = lit "nvidia_gpu" then
    match nvidiaEventClass event with
    | .sum => Cell.sumMinCount deltas
    | .max => Cell.mean deltas
    | .mean => Cell.mean deltas
    | .or => Cell.sumMinCount deltas
  else if isPowerGauge type event then
    clusterMeanSumSorted deltas (dcgDeltaGapThreshold deltas)
  else Cell.sumMinCount deltas

def collapsedRow (k : GroupKey) : List DeltaRow → DeltaRow :=
  aggregate (valueAggregate k.type k.event) (deltaAggregate k.type k.event) k

def collapseSpec (rows : List DeltaRow) : List DeltaRow := groupBy collapsedKey collapsedRow rows

inductive Part where
  | keepDev
  | plain
  | job
  | ccmPlain
  | ccmJob
  | otherGpu
  | nvidia
  deriving DecidableEq, Repr

def partOf (type dev event : Str) : Part :=
  if type = lit "nvidia_gpu" then .nvidia
  else if type ∈ [lit "amd_gpu", lit "intel_gpu"] then .otherGpu
  else if isPowerGauge type event then if isJobStamped dev then .ccmJob else .ccmPlain
  else if isJobStamped dev then .job
  else if type ∈ keepDevNonGpuTypes then .keepDev
  else .plain

def DeltaRow.part (r : DeltaRow) : Part := partOf r.type r.dev r.event

theorem isJobStamped_cutStamp (dev : Str) : isJobStamped (cutStamp dev) = isJobStamped dev :=
  Text.startsWith_takeWhile _ _ _ (by simp [lit, jobStampDevSep])

theorem isCcmPower_eq (r : DeltaRow) : isCcmPower r = isPowerGauge r.type r.event := rfl

theorem gpu_iff (type : Str) :
    type ∈ gpuStatsTypes ↔ type = lit "nvidia_gpu" ∨ type ∈ [lit "amd_gpu", lit "intel_gpu"] := by
  simp [gpuStatsTypes]

theorem partOf_collapsedDev (r : DeltaRow) : partOf r.type (collapsedDev r) r.event = r.part := by
  unfold DeltaRow.part partOf collapsedDev
  rw [isCcmPower_eq]
  by_cases nvidia : r.type = lit "nvidia_gpu"
  · simp [nvidia]
  · by_cases other : r.type ∈ [lit "amd_gpu", lit "intel_gpu"]
    · simp only [nvidia, other, if_true, if_false]
    · have host : r.type ∉ gpuStatsTypes := by simp only [gpu_iff, nvidia, other, or_self,
        not_false_eq_true]
      simp only [nvidia, other, host, if_false]
      have empty : isJobStamped [] = false := rfl
      by_cases stamped : isJobStamped r.dev
      · simp [stamped, isJobStamped_cutStamp]
      · by_cases gauge : isPowerGauge r.type r.event
        · simp [stamped, gauge, empty]
        · by_cases keep : r.type ∈ keepDevNonGpuTypes
          · simp [stamped, gauge, keep]
          · simp [stamped, gauge, keep, empty]

theorem groupbySumMinCount_eq (gcols : DeltaRow → GroupKey) (assumeDuplicates : Bool)
    (rows : List DeltaRow)
    (exact : assumeDuplicates = true ∨ gcols = DeltaRow.groupWithDev) :
    groupbySumMinCount gcols assumeDuplicates rows = groupBy gcols sumAggregate rows := by
  unfold groupbySumMinCount
  split
  · next short =>
      simp only [Bool.and_eq_true, Bool.not_eq_true', decide_eq_true_eq] at short
      obtain rfl := exact.resolve_left (by simp [short.1])
      rw [groupBy_of_nodup _ _ short.2]
      symm
      apply List.map_id''
      simp [sumAggregate, aggregate, DeltaRow.groupWithDev]
  · rfl

theorem part_eq {π : Type} [DecidableEq π] {gcols : DeltaRow → GroupKey}
    {agg : GroupKey → List DeltaRow → DeltaRow} (f : DeltaRow → DeltaRow) {cls : DeltaRow → π}
    (home : GroupKey → π) (fromGroup : ∀ k group, cls (collapsedRow k group) = home k)
    (fromRow : ∀ r, home (collapsedKey r) = cls r) (p : π) (rows : List DeltaRow)
    (keys : ∀ r ∈ rows, cls r = p → gcols (f r) = collapsedKey r)
    (aggs : ∀ r ∈ rows, cls r = p → ∀ group,
      agg (collapsedKey r) (group.map f) = collapsedRow (collapsedKey r) group) :
    groupBy gcols agg ((rows.filter fun r => decide (cls r = p)).map f) =
      (collapseSpec rows).filter fun r => decide (cls r = p) := by
  have selected : (collapseSpec rows).filter (fun r => decide (cls r = p)) =
      groupBy collapsedKey collapsedRow (rows.filter fun r => decide (home (collapsedKey r) = p)) := by
    apply groupBy_filter collapsedKey collapsedRow _ (fun k => decide (home k = p)) rows
    intro k _
    rw [fromGroup]
  simp only [fromRow] at selected
  rw [selected, groupBy_map]
  have member : ∀ r ∈ rows.filter (fun r => decide (cls r = p)), r ∈ rows ∧ cls r = p := by
    intro r inPart
    simpa using inPart
  rw [groupBy_congr_key fun r inPart => keys r (member r inPart).1 (member r inPart).2]
  apply groupBy_congr
  intro k present
  obtain ⟨r, inPart, rfl⟩ := (mem_firstKeys collapsedKey).mp present
  exact aggs r (member r inPart).1 (member r inPart).2 _

theorem sortKey_inj {a b : DeltaRow} : a.sortKey = b.sortKey ↔
    (a.host = b.host ∧ a.type = b.type ∧ a.dev = b.dev ∧ a.event = b.event) ∧ a.time = b.time := by
  simp [DeltaRow.sortKey, DeltaRow.key, seriesKey_inj]

section Nvidia

variable {rows : List DeltaRow}

theorem nanOutBlank_idem (c : Cell) : nanOutBlank (nanOutBlank c) = nanOutBlank c := by
  unfold nanOutBlank
  simp

theorem nvidiaBitwiseOr_nanOut (values : List Cell) :
    nvidiaBitwiseOrValues (values.map nanOutBlank) = nvidiaBitwiseOrValues values := by
  unfold nvidiaBitwiseOrValues
  simp only [List.map_map, Function.comp_def, nanOutBlank_idem]

theorem nvidia_key {r : DeltaRow} (nvidia : r.type = lit "nvidia_gpu") :
    (nanOut r).groupWithDev = collapsedKey r := by
  simp [nanOut, DeltaRow.groupWithDev, collapsedKey, collapsedDev, nvidia, gpuStatsTypes]

def classAggregate : EventClass → GroupKey → List DeltaRow → DeltaRow
  | .sum => sumAggregate
  | .max => aggregate Cell.maximum Cell.mean
  | .mean => aggregate Cell.mean Cell.mean
  | .or => aggregate nvidiaBitwiseOrValues Cell.sumMinCount

theorem nvidia_aggregate {r : DeltaRow} (nvidia : r.type = lit "nvidia_gpu")
    (group : List DeltaRow) :
    classAggregate (nvidiaEventClass r.event) (collapsedKey r) (group.map nanOut) =
      collapsedRow (collapsedKey r) group := by
  have values : (group.map nanOut).map DeltaRow.value =
      (group.map DeltaRow.value).map nanOutBlank := by
    simp [nanOut, Function.comp_def]
  have deltas : (group.map nanOut).map DeltaRow.delta = group.map DeltaRow.delta := by
    simp [nanOut, Function.comp_def]
  have jids : ((group.map nanOut).head?.map DeltaRow.jid) = group.head?.map DeltaRow.jid := by
    cases group <;> rfl
  have type : (collapsedKey r).type = lit "nvidia_gpu" := nvidia
  have event : (collapsedKey r).event = r.event := rfl
  cases class_ : nvidiaEventClass r.event with
  | sum | max | mean | or =>
    simp only [classAggregate, sumAggregate, aggregate, collapsedRow, values, deltas, jids,
      valueAggregate, deltaAggregate, type, event, if_true, class_, nvidiaBitwiseOr_nanOut]

theorem series_collapseNvidiaGpu (nvidia : ∀ r ∈ rows, r.type = lit "nvidia_gpu")
    (k : SeriesKey ×ₗ ℚ) :
    series DeltaRow.sortKey k (collapseNvidiaGpu rows) =
      series DeltaRow.sortKey k (collapseSpec rows) := by
  have keys : (rows.map nanOut).map DeltaRow.groupWithDev = rows.map collapsedKey := by
    rw [List.map_map]
    apply List.map_congr_left
    intro r member
    exact nvidia_key (nvidia r member)
  unfold collapseNvidiaGpu
  dsimp only
  split
  · next unique =>
      -- unique keys: every group has one row, and its aggregate is that row
      rw [keys] at unique
      rw [collapseSpec, groupBy_of_nodup _ _ unique, List.map_map]
      congr 1
      apply List.map_congr_left
      intro r member
      have single := nvidia_aggregate (nvidia r member) [r]
      rw [← single]
      cases class_ : nvidiaEventClass r.event with
      | sum | max | mean | or =>
        simp [classAggregate, sumAggregate, aggregate, nanOut, collapsedKey, collapsedDev,
          nvidia r member, gpuStatsTypes, class_]
  · have classes : ∀ c, groupBy DeltaRow.groupWithDev (classAggregate c)
        (classRows c (rows.map nanOut)) =
        (collapseSpec rows).filter fun r => decide (nvidiaEventClass r.event = c) := by
      intro c
      have picked : classRows c (rows.map nanOut) =
          (rows.filter fun r => decide (nvidiaEventClass r.event = c)).map nanOut := by
        rw [classRows, List.filter_map]
        rfl
      rw [picked]
      apply part_eq nanOut (fun k => nvidiaEventClass k.event) (fun _ _ => rfl) (fun _ => rfl)
      · intro r member _
        exact nvidia_key (nvidia r member)
      · rintro r member rfl group
        exact nvidia_aggregate (nvidia r member) group
    rw [groupbySumMinCount_eq _ _ _ (.inr rfl)]
    have whole : ∀ a ∈ collapseSpec rows, ∀ b ∈ collapseSpec rows, a.sortKey = b.sortKey →
        nvidiaEventClass a.event = nvidiaEventClass b.event := by
      intro a _ b _ same
      rw [(sortKey_inj.mp same).1.2.2.2]
    rw [← series_parts DeltaRow.sortKey (fun r : DeltaRow => nvidiaEventClass r.event)
      [.sum, .max, .mean, .or] (collapseSpec rows) (by decide)
      (fun r _ => by cases nvidiaEventClass r.event <;> simp) whole k]
    simp only [List.flatMap_cons, List.flatMap_nil, List.append_nil, ← classes, classAggregate,
      List.append_assoc]

end Nvidia

section Parts

variable (rows : List DeltaRow)

def partRows (p : Part) : List DeltaRow := rows.filter fun r => decide (r.part = p)

variable {r : DeltaRow}

theorem mem_partRows {rows : List DeltaRow} {p : Part} :
    r ∈ partRows rows p ↔ r ∈ rows ∧ r.part = p := by
  simp [partRows]

def cut (r : DeltaRow) : DeltaRow := { r with dev := cutStamp r.dev }

def partMask : Part → DeltaRow → Bool
  | .keepDev, r => decide (r.type ∈ keepDevNonGpuTypes) &&
      (!isJobStamped r.dev && (!isCcmPower r && decide (r.type ∉ gpuStatsTypes)))
  | .plain, r => decide (r.type ∉ keepDevNonGpuTypes) &&
      (!isJobStamped r.dev && (!isCcmPower r && decide (r.type ∉ gpuStatsTypes)))
  | .job, r => isJobStamped r.dev && (!isCcmPower r && decide (r.type ∉ gpuStatsTypes))
  | .ccmPlain, r => !isJobStamped r.dev && (isCcmPower r && decide (r.type ∉ gpuStatsTypes))
  | .ccmJob, r => isJobStamped r.dev && (isCcmPower r && decide (r.type ∉ gpuStatsTypes))
  | .otherGpu, r => decide (r.type ∈ [lit "amd_gpu", lit "intel_gpu"])
  | .nvidia, r => decide (r.type = lit "nvidia_gpu")

theorem partMask_eq (p : Part) (r : DeltaRow) : partMask p r = decide (r.part = p) := by
  unfold DeltaRow.part partOf
  by_cases nvidia : r.type = lit "nvidia_gpu"
  · have other : lit "nvidia_gpu" ∉ [lit "amd_gpu", lit "intel_gpu"] := by decide
    cases p <;> simp [partMask, nvidia, gpuStatsTypes, other]
  · by_cases other : r.type ∈ [lit "amd_gpu", lit "intel_gpu"]
    · have gpu : r.type ∈ gpuStatsTypes := (gpu_iff r.type).mpr (.inr other)
      cases p <;> simp only [partMask, nvidia, other, gpu] <;> simp
    · have host : r.type ∉ gpuStatsTypes := by simp only [gpu_iff, nvidia, other, or_self,
        not_false_eq_true]
      by_cases stamped : isJobStamped r.dev <;> by_cases gauge : isPowerGauge r.type r.event <;>
        by_cases keep : r.type ∈ keepDevNonGpuTypes <;>
        cases p <;> simp [partMask, isCcmPower_eq, nvidia, other, host, stamped, gauge, keep]

theorem filter_partMask (p : Part) : rows.filter (partMask p) = partRows rows p :=
  List.filter_congr fun r _ => partMask_eq p r

theorem collapseParts_eq : collapseParts rows =
    [groupbySumMinCount DeltaRow.groupWithDev false (partRows rows .keepDev),
      groupbySumMinCount DeltaRow.groupCols true (partRows rows .plain),
      groupbySumMinCount DeltaRow.groupWithDev true ((partRows rows .job).map cut),
      collapseDcgCpuPower DeltaRow.groupCols (partRows rows .ccmPlain),
      collapseDcgCpuPower DeltaRow.groupWithDev ((partRows rows .ccmJob).map cut),
      groupbySumMinCount DeltaRow.groupWithDev false (partRows rows .otherGpu),
      collapseNvidiaGpu (partRows rows .nvidia)] := by
  simp only [← filter_partMask]
  unfold collapseParts plainRows stampedRows
  simp only [List.filter_filter]
  rfl

def specPart (p : Part) : List DeltaRow :=
  (collapseSpec rows).filter fun r => decide (r.part = p)

theorem specPart_eq {gcols : DeltaRow → GroupKey} {agg : GroupKey → List DeltaRow → DeltaRow}
    (f : DeltaRow → DeltaRow) (p : Part)
    (keys : ∀ r, r.part = p → gcols (f r) = collapsedKey r)
    (aggs : ∀ r, r.part = p → ∀ group,
      agg (collapsedKey r) (group.map f) = collapsedRow (collapsedKey r) group) :
    groupBy gcols agg ((partRows rows p).map f) = specPart rows p :=
  part_eq f (fun k => partOf k.type k.dev k.event) (fun _ _ => rfl) partOf_collapsedDev p rows
    (fun r _ => keys r) fun r _ => aggs r

theorem collapsedRow_sum (host : r.type ≠ lit "nvidia_gpu") (counter : isCcmPower r = false) :
    collapsedRow (collapsedKey r) = sumAggregate (collapsedKey r) := by
  rw [isCcmPower_eq] at counter
  funext group
  simp [collapsedRow, sumAggregate, aggregate, valueAggregate, deltaAggregate, collapsedKey, host,
    counter]

theorem collapsedRow_gauge (host : r.type ≠ lit "nvidia_gpu") (gauge : isCcmPower r = true) :
    collapsedRow (collapsedKey r) = dcgCpuPowerAggregate (collapsedKey r) := by
  rw [isCcmPower_eq] at gauge
  funext group
  simp [collapsedRow, dcgCpuPowerAggregate, aggregate, valueAggregate, deltaAggregate, collapsedKey,
    host, gauge]

theorem aggregate_cut (value delta : List Cell → Cell) (k : GroupKey) (group : List DeltaRow) :
    aggregate value delta k (group.map cut) = aggregate value delta k group := by
  have jids : (group.map cut).head?.map DeltaRow.jid = group.head?.map DeltaRow.jid := by
    cases group <;> rfl
  simp only [aggregate, jids, List.map_map]
  rfl

theorem not_nvidia {type : Str} (host : type ∉ gpuStatsTypes) : type ≠ lit "nvidia_gpu" :=
  fun nvidia => host ((gpu_iff type).mpr (.inl nvidia))

def InMask (r : DeltaRow) : Part → Prop
  | .keepDev => r.type ∈ keepDevNonGpuTypes ∧ isJobStamped r.dev = false ∧
      isCcmPower r = false ∧ r.type ∉ gpuStatsTypes
  | .plain => r.type ∉ keepDevNonGpuTypes ∧ isJobStamped r.dev = false ∧
      isCcmPower r = false ∧ r.type ∉ gpuStatsTypes
  | .job => isJobStamped r.dev = true ∧ isCcmPower r = false ∧ r.type ∉ gpuStatsTypes
  | .ccmPlain => isJobStamped r.dev = false ∧ isCcmPower r = true ∧ r.type ∉ gpuStatsTypes
  | .ccmJob => isJobStamped r.dev = true ∧ isCcmPower r = true ∧ r.type ∉ gpuStatsTypes
  | .otherGpu => r.type ∈ [lit "amd_gpu", lit "intel_gpu"]
  | .nvidia => r.type = lit "nvidia_gpu"

theorem masked {p : Part} (inPart : r.part = p) : InMask r p := by
  have mask : partMask p r = true := by simp [partMask_eq, inPart]
  cases p <;> simpa only [partMask, InMask, Bool.and_eq_true, decide_eq_true_eq,
    Bool.not_eq_true'] using mask

theorem specPart_keepDev :
    groupbySumMinCount DeltaRow.groupWithDev false (partRows rows .keepDev) =
      specPart rows .keepDev := by
  rw [groupbySumMinCount_eq _ _ _ (.inr rfl), ← specPart_eq rows id .keepDev, List.map_id]
  · intro r inPart
    obtain ⟨keep, plain, counter, host⟩ := masked inPart
    simp [DeltaRow.groupWithDev, collapsedKey, collapsedDev, host, plain, counter, keep]
  · intro r inPart group
    obtain ⟨-, -, counter, host⟩ := masked inPart
    rw [List.map_id, collapsedRow_sum (not_nvidia host) counter]

theorem specPart_plain :
    groupbySumMinCount DeltaRow.groupCols true (partRows rows .plain) = specPart rows .plain := by
  rw [groupbySumMinCount_eq _ _ _ (.inl rfl), ← specPart_eq rows id .plain, List.map_id]
  · intro r inPart
    obtain ⟨drop, plain, counter, host⟩ := masked inPart
    simp [DeltaRow.groupCols, collapsedKey, collapsedDev, host, plain, counter, drop]
  · intro r inPart group
    obtain ⟨-, -, counter, host⟩ := masked inPart
    rw [List.map_id, collapsedRow_sum (not_nvidia host) counter]

theorem specPart_job :
    groupbySumMinCount DeltaRow.groupWithDev true ((partRows rows .job).map cut) =
      specPart rows .job := by
  rw [groupbySumMinCount_eq _ _ _ (.inl rfl), ← specPart_eq rows cut .job]
  · intro r inPart
    obtain ⟨stamped, counter, host⟩ := masked inPart
    simp [DeltaRow.groupWithDev, collapsedKey, collapsedDev, cut, host, stamped]
  · intro r inPart group
    obtain ⟨-, counter, host⟩ := masked inPart
    rw [collapsedRow_sum (not_nvidia host) counter, sumAggregate,
      aggregate_cut]

theorem specPart_ccmPlain :
    collapseDcgCpuPower DeltaRow.groupCols (partRows rows .ccmPlain) = specPart rows .ccmPlain := by
  rw [collapseDcgCpuPower, ← specPart_eq rows id .ccmPlain, List.map_id]
  · intro r inPart
    obtain ⟨plain, gauge, host⟩ := masked inPart
    simp [DeltaRow.groupCols, collapsedKey, collapsedDev, host, plain, gauge]
  · intro r inPart group
    obtain ⟨-, gauge, host⟩ := masked inPart
    rw [List.map_id, collapsedRow_gauge (not_nvidia host) gauge]

theorem specPart_ccmJob :
    collapseDcgCpuPower DeltaRow.groupWithDev ((partRows rows .ccmJob).map cut) =
      specPart rows .ccmJob := by
  rw [collapseDcgCpuPower, ← specPart_eq rows cut .ccmJob]
  · intro r inPart
    obtain ⟨stamped, gauge, host⟩ := masked inPart
    simp [DeltaRow.groupWithDev, collapsedKey, collapsedDev, cut, host, stamped]
  · intro r inPart group
    obtain ⟨-, gauge, host⟩ := masked inPart
    rw [collapsedRow_gauge (not_nvidia host) gauge, dcgCpuPowerAggregate,
      aggregate_cut]

theorem specPart_otherGpu :
    groupbySumMinCount DeltaRow.groupWithDev false (partRows rows .otherGpu) =
      specPart rows .otherGpu := by
  rw [groupbySumMinCount_eq _ _ _ (.inr rfl), ← specPart_eq rows id .otherGpu, List.map_id]
  · intro r inPart
    have gpu : r.type ∈ gpuStatsTypes := (gpu_iff r.type).mpr (.inr (masked inPart))
    simp [DeltaRow.groupWithDev, collapsedKey, collapsedDev, gpu]
  · intro r inPart group
    have type : r.type ∈ [lit "amd_gpu", lit "intel_gpu"] := masked inPart
    have counter : isCcmPower r = false := by
      have apart : ∀ t ∈ [lit "amd_gpu", lit "intel_gpu"], t ∉ hostCpuHwTypes := by decide
      simp [isCcmPower, apart r.type type]
    have host : r.type ≠ lit "nvidia_gpu" := by
      have apart : ∀ t ∈ [lit "amd_gpu", lit "intel_gpu"], t ≠ lit "nvidia_gpu" := by decide
      exact apart r.type type
    rw [List.map_id, collapsedRow_sum host counter]

/-- The collapse stage, parts and shortcuts included, is the specified grouping in
the order of the final stable sort. -/
theorem collapse_eq_spec :
    collapseStatsWithDeltas rows = sortBy DeltaRow.sortKey (collapseSpec rows) := by
  apply sortBy_congr
  intro k
  have whole : ∀ a ∈ collapseSpec rows, ∀ b ∈ collapseSpec rows, a.sortKey = b.sortKey →
      a.part = b.part := by
    intro a _ b _ same
    obtain ⟨⟨-, type, dev, event⟩, -⟩ := sortKey_inj.mp same
    rw [DeltaRow.part, DeltaRow.part, type, dev, event]
  rw [← series_parts DeltaRow.sortKey DeltaRow.part
    [.keepDev, .plain, .job, .ccmPlain, .ccmJob, .otherGpu, .nvidia] (collapseSpec rows) (by decide)
    (fun r _ => by cases r.part <;> simp) whole k]
  have nvidia : series DeltaRow.sortKey k (collapseNvidiaGpu (partRows rows .nvidia)) =
      series DeltaRow.sortKey k (specPart rows .nvidia) := by
    have types : ∀ r ∈ partRows rows .nvidia, r.type = lit "nvidia_gpu" := by
      intro r member
      exact masked (mem_partRows.mp member).2
    rw [series_collapseNvidiaGpu types]
    rw [← specPart_eq rows id .nvidia (fun _ _ => rfl) fun r _ group => by rw [List.map_id],
      List.map_id]
    rfl
  rw [collapseParts_eq, specPart_keepDev, specPart_plain, specPart_job, specPart_ccmPlain,
    specPart_ccmJob, specPart_otherGpu]
  simp only [List.flatten_cons, List.flatten_nil, List.append_nil, List.flatMap_cons,
    List.flatMap_nil, series_append, nvidia]
  rfl

end Parts

end PerfStats.Frame
