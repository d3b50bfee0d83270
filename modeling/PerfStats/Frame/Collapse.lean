import PerfStats.Frame.Delta

/-! The collapse stage: rows of one sample that differ only in device are merged, but for types
whose devices matter. -/

namespace PerfStats.Frame

open Lib

structure GroupKey where
  host : Str
  type : Str
  dev : Str
  event : Str
  unit : Str
  time : ℚ
  deriving DecidableEq, Repr

namespace DeltaRow

/-- The arc key, also `_ARC_GROUP_COLS`. -/
def key (r : DeltaRow) : SeriesKey := seriesKey r.host r.type r.dev r.event

def sortKey (r : DeltaRow) : SeriesKey ×ₗ ℚ := toLex (r.key, r.time)

/-- `_COLLAPSE_GROUP_COLS_WITH_DEV`. -/
def groupWithDev (r : DeltaRow) : GroupKey := ⟨r.host, r.type, r.dev, r.event, r.unit, r.time⟩

/-- `_COLLAPSE_GROUP_COLS`; the collapsed row gets an empty `dev`. -/
def groupCols (r : DeltaRow) : GroupKey := ⟨r.host, r.type, [], r.event, r.unit, r.time⟩

end DeltaRow

def gpuStatsTypes : List Str := [lit "nvidia_gpu", lit "amd_gpu", lit "intel_gpu"]

def keepDevNonGpuTypes : List Str := [lit "host_power_socket"]

def hostCpuHwTypes : List Str := [lit "host_cpu_hw", lit "cpu_counter_metrics"]

def dcgmCpuPowerSocketGaugeEvents : List Str :=
  [lit "dcgm_cpu_power_util_w", lit "dcgm_cpu_power_limit_w", lit "DCGM_CPU_POWER_UTIL_W",
    lit "DCGM_CPU_POWER_LIMIT_W"]

def nvidiaGpuMaxEvents : List Str :=
  [lit "module_power_usage", lit "sysio_power_usage", lit "gpu_count"]

def nvidiaGpuMeanEvents : List Str := [lit "temperature"]

def nvidiaGpuOrEvents : List Str := [lit "clocks_event_reasons"]

def jobStampDevSep : Char := Char.ofNat 31

def isJobStamped (dev : Str) : Bool := Text.startsWith (lit "j:") dev

/-- `dev.split(SEP, n=1)[0]`: the stamp without the device it carries. -/
def cutStamp (dev : Str) : Str := dev.takeWhile fun c => decide (c ≠ jobStampDevSep)

def dcgmFp64Blank : ℚ := 2 ^ 47

def nanOutBlank (c : Cell) : Cell := c.filter fun q => decide (q < dcgmFp64Blank)

/-- Sum of the means of the runs a sorted list is cut into where it jumps by more than `gap`; the
rest describes the run in progress. -/
def clusterLoop (gap total : ℚ) (count : Nat) (prev : ℚ) : List ℚ → ℚ
  | [] => total / count
  | q :: rest =>
    if gap < q - prev then total / count + clusterLoop gap q 1 q rest
    else clusterLoop gap (total + q) (count + 1) q rest

def clusterMeanSumSorted (values : List Cell) (gap : ℚ) : Cell :=
  match (Cell.present (values.map nanOutBlank)).insertionSort (· ≤ ·) with
  | [] => none
  | q :: rest => some (clusterLoop gap q 1 q rest)

def dcgDeltaGapThreshold (deltas : List Cell) : ℚ :=
  match (Cell.present deltas).map abs with
  | [] => 1 / 10 ^ 6
  | q :: rest =>
    let largest := rest.foldl max q
    if 0 < largest then max (1 / 10 ^ 9) (largest / 20) else 1 / 10 ^ 6

inductive EventClass where
  | sum
  | max
  | mean
  | or
  deriving DecidableEq, Repr

/-- `_NVIDIA_EVENT_TO_CLASS`; unknown events are summed. -/
def nvidiaEventClass (event : Str) : EventClass :=
  if event ∈ nvidiaGpuMaxEvents then .max
  else if event ∈ nvidiaGpuMeanEvents then .mean
  else if event ∈ nvidiaGpuOrEvents then .or
  else .sum

def toUint64 (q : ℚ) : Nat := (truncate q % 2 ^ 64).toNat

def nvidiaBitwiseOrValues (values : List Cell) : Cell :=
  some (((Cell.present (values.map nanOutBlank)).map toUint64).foldl (· ||| ·) 0 : Nat)

/-- A collapsed row: the group's columns, its first `jid` and two aggregates. -/
def aggregate (value delta : List Cell → Cell) (k : GroupKey) (group : List DeltaRow) : DeltaRow :=
  { time := k.time, host := k.host, jid := (group.head?.map DeltaRow.jid).getD [], type := k.type
    dev := k.dev, event := k.event, unit := k.unit
    value := value (group.map DeltaRow.value), delta := delta (group.map DeltaRow.delta) }

def sumAggregate : GroupKey → List DeltaRow → DeltaRow :=
  aggregate Cell.sumMinCount Cell.sumMinCount

def dcgCpuPowerAggregate : GroupKey → List DeltaRow → DeltaRow :=
  aggregate (clusterMeanSumSorted · 1)
    (fun deltas => clusterMeanSumSorted deltas (dcgDeltaGapThreshold deltas))

/-- Unique keys short-circuit to the rows themselves. -/
def groupbySumMinCount (gcols : DeltaRow → GroupKey) (assumeDuplicates : Bool)
    (rows : List DeltaRow) : List DeltaRow :=
  if !assumeDuplicates && decide (rows.map gcols).Nodup then rows
  else groupBy gcols sumAggregate rows

def collapseDcgCpuPower (gcols : DeltaRow → GroupKey) (rows : List DeltaRow) : List DeltaRow :=
  groupBy gcols dcgCpuPowerAggregate rows

def classRows (c : EventClass) (rows : List DeltaRow) : List DeltaRow :=
  rows.filter fun r => decide (nvidiaEventClass r.event = c)

/-- `_nvidia_nan_out_dcgm_blanks` of one row. -/
def nanOut (r : DeltaRow) : DeltaRow := { r with value := nanOutBlank r.value }

def collapseNvidiaGpu (rows : List DeltaRow) : List DeltaRow :=
  let rows := rows.map nanOut
  if (rows.map DeltaRow.groupWithDev).Nodup then
    rows.map fun r =>
      if nvidiaEventClass r.event = .or then { r with value := nvidiaBitwiseOrValues [r.value] }
      else r
  else
    groupbySumMinCount DeltaRow.groupWithDev false (classRows .sum rows) ++
    groupBy DeltaRow.groupWithDev (aggregate Cell.maximum Cell.mean) (classRows .max rows) ++
    groupBy DeltaRow.groupWithDev (aggregate Cell.mean Cell.mean) (classRows .mean rows) ++
    groupBy DeltaRow.groupWithDev (aggregate nvidiaBitwiseOrValues Cell.sumMinCount)
      (classRows .or rows)

def stampedRows (rows : List DeltaRow) : List DeltaRow :=
  (rows.filter fun r => isJobStamped r.dev).map fun r => { r with dev := cutStamp r.dev }

def plainRows (rows : List DeltaRow) : List DeltaRow := rows.filter fun r => !isJobStamped r.dev

def isCcmPower (r : DeltaRow) : Bool :=
  decide (r.type ∈ hostCpuHwTypes) && decide (r.event ∈ dcgmCpuPowerSocketGaugeEvents)

/-- The parts `_collapse_stats_with_deltas` concatenates, in its order. -/
def collapseParts (rows : List DeltaRow) : List (List DeltaRow) :=
  let nv := rows.filter fun r => decide (r.type = lit "nvidia_gpu")
  let otherGpu := rows.filter fun r => decide (r.type ∈ [lit "amd_gpu", lit "intel_gpu"])
  let rest := rows.filter fun r => decide (r.type ∉ gpuStatsTypes)
  let ccm := rest.filter isCcmPower
  let other := rest.filter fun r => !isCcmPower r
  let keepDev := (plainRows other).filter fun r => decide (r.type ∈ keepDevNonGpuTypes)
  let plain := (plainRows other).filter fun r => decide (r.type ∉ keepDevNonGpuTypes)
  [groupbySumMinCount DeltaRow.groupWithDev false keepDev,
    groupbySumMinCount DeltaRow.groupCols true plain,
    groupbySumMinCount DeltaRow.groupWithDev true (stampedRows other),
    collapseDcgCpuPower DeltaRow.groupCols (plainRows ccm),
    collapseDcgCpuPower DeltaRow.groupWithDev (stampedRows ccm),
    groupbySumMinCount DeltaRow.groupWithDev false otherGpu,
    collapseNvidiaGpu nv]

def collapseStatsWithDeltas (rows : List DeltaRow) : List DeltaRow :=
  sortBy DeltaRow.sortKey (collapseParts rows).flatten

end PerfStats.Frame
