import PerfStats.Monitor.DictRuns
import PerfStats.Monitor.Scan

namespace PerfStats.Monitor

open Lib

section Lines

def scanSamples (rest : Bytes) : Option (UInt64 × Option UInt64) :=
  match scanUll rest with
  | none => none
  | some (count, s) => some (count, do
      let s ← scanLit (bytesOf "samples") s
      let s ← scanWord s
      let (_, s) ← scanUll s
      let (_, s) ← scanUll s
      let (sum, _) ← scanUll s
      return sum)

def lustreParseSamplesCount (rest : Bytes) : Nat × UInt64 × UInt64 :=
  match scanSamples rest with
  | none => (0, 0, 0)
  | some (count, some sum) => (2, count, sum)
  | some (count, none) => (1, count, 0)

def statLines (content : Bytes) : List (Bytes × Bytes) :=
  (getlines content).filterMap fun line =>
    match wsep (line.takeWhile (· ≠ 0)) with
    | (some key, some rest) => some (key, rest)
    | _ => none

end Lines

section Rows

/-- A call of `stats_set` or `stats_inc`. -/
inductive Call where
  | set (key : Bytes) (val : UInt64)
  | inc (key : Bytes) (val : UInt64)
  deriving DecidableEq, Repr

def Call.key : Call → Bytes
  | .set key _ | .inc key _ => key

def Call.val : Call → UInt64
  | .set _ val | .inc _ val => val

def oscApplyStatsLine (key rest : Bytes) : List Call :=
  let (n, count, sum) := lustreParseSamplesCount rest
  if n = 0 then []
  else if key = bytesOf "req_waittime" then
    [.inc (bytesOf "reqs") count, .inc (bytesOf "wait") sum]
  else if key = bytesOf "read_bytes" ∨ key = bytesOf "lockless_read_bytes" then
    [.inc (bytesOf "read_bytes") (if n = 2 then sum else count)]
  else if key = bytesOf "write_bytes" ∨ key = bytesOf "lockless_write_bytes" then
    [.inc (bytesOf "write_bytes") (if n = 2 then sum else count)]
  else if key ∈ ["ost_destroy", "ost_punch", "ost_read", "ost_setattr", "ost_statfs",
      "ost_write", "reqs", "wait"].map bytesOf then
    [.inc key count]
  else [.inc (bytesOf "reqs") count]

def mdcMapKey (key : Bytes) : Option Bytes :=
  if key = bytesOf "req_waittime" then some key
  else if key = bytesOf "close" then some (bytesOf "mds_close")
  else if key = bytesOf "getattr" then some (bytesOf "mds_getattr")
  else if key = bytesOf "getxattr" then some (bytesOf "mds_getxattr")
  else if key = bytesOf "read_page" then some (bytesOf "mds_readpage")
  else if key = bytesOf "intent_getattr_async" then some (bytesOf "mds_getattr_lock")
  else if key = bytesOf "fsync" then some (bytesOf "mds_sync")
  else if key ∈ ["ldlm_cancel", "mds_close", "mds_getattr", "mds_getattr_lock", "mds_getxattr",
      "mds_readpage", "mds_statfs", "mds_sync", "reqs", "wait"].map bytesOf then some key
  else none

def mdcApplyStatsLine (key rest : Bytes) : List Call :=
  let (n, count, sum) := lustreParseSamplesCount rest
  if n = 0 then []
  else if key = bytesOf "req_waittime" then
    [.set (bytesOf "reqs") count, .set (bytesOf "wait") sum]
  else
    match mdcMapKey key with
    | some mapped => [.set mapped count]
    | none => [.inc (bytesOf "reqs") count]

inductive Collector where
  | osc
  | mdc
  deriving DecidableEq, Repr

namespace Collector

def applyStatsLine : Collector → Bytes → Bytes → List Call
  | osc => oscApplyStatsLine
  | mdc => mdcApplyStatsLine

/-- `osc_stats_names` and `mdc_stats_names`. -/
def statsNames : Collector → List Bytes
  | osc => ["osc_stats", "stats"].map bytesOf
  | mdc => ["md_stats", "stats"].map bytesOf

def keys : Collector → List Bytes
  | osc => ["read_bytes", "write_bytes", "ost_destroy", "ost_punch", "ost_read", "ost_setattr",
      "ost_statfs", "ost_write", "reqs", "wait"].map bytesOf
  | mdc => ["ldlm_cancel", "mds_close", "mds_getattr", "mds_getattr_lock", "mds_getxattr",
      "mds_readpage", "mds_statfs", "mds_sync", "reqs", "wait"].map bytesOf

/-- The keys that `collect_tier_apply_to_type` marks slow. -/
def slow : Collector → List Bytes
  | osc => []
  | mdc => ["ldlm_cancel", "mds_close", "mds_getattr", "mds_getattr_lock", "mds_getxattr",
      "mds_readpage", "mds_statfs", "mds_sync"].map bytesOf

end Collector

/-- `schema_init`: `dict_set` of each key, given up at the first one that fails. -/
def schemaInit : Dict Bytes → List Bytes → Except Unit (Option (Dict Bytes))
  | d, [] => .ok (some d)
  | d, key :: rest => do
      let (d, rc) ← dictSet id .strhash granted d key
      if rc < 0 then return none
      schemaInit d rest

def Collector.schema (c : Collector) : Dict Bytes :=
  match schemaInit emptyDict c.keys with
  | .ok (some d) => d
  | _ => emptyDict

/-- Whether `schema_ref` finds the key. -/
def Collector.hasKey (c : Collector) (key : Bytes) : Bool :=
  (dictRef id .strhash c.schema key).isSome

structure Tier where
  slowEnabled : Bool
  full : Bool
  deriving DecidableEq, Repr

def Tier.isFull (tier : Tier) : Prop := tier.slowEnabled = false ∨ tier.full = true

def collectTierKeyActive (c : Collector) (tier : Tier) (key : Bytes) : Bool :=
  !tier.slowEnabled || tier.full || !decide (key ∈ c.slow)

/-- `s_val`, by key. -/
abbrev Row := Bytes → UInt64

/-- `stats_set` and `stats_inc`, which differ in what is stored. -/
def statsWrite (c : Collector) (tier : Tier) (row : Row) (key : Bytes) (val : UInt64) : Row :=
  if c.hasKey key ∧ collectTierKeyActive c tier key then Function.update row key val else row

def Call.run (c : Collector) (tier : Tier) (row : Row) : Call → Row
  | .set key val => statsWrite c tier row key val
  | .inc key val => statsWrite c tier row key (row key + val)

end Rows

section Ticks

structure Lustre where
  stEnabled : Bool
  stCurrentDict : Dict Bytes
  rows : Bytes → Row

def Lustre.initial : Lustre := ⟨false, ⟨[], 0, 0⟩, fun _ _ => 0⟩

/-- An entry of the OBD directory: its name, its mount by `lustre_obd_to_mnt`, its files, and
whether a new row can be allocated. -/
structure Obd where
  name : Bytes
  mnt : Option Bytes
  files : Bytes → Option Bytes
  created : Bool
  memory : Nat → Bool

/-- Whether there is a row for `dev`, which is made where it is new. -/
def getCurrentStats (s : Lustre) (obd : Obd) (dev : Bytes) : Except Unit (Lustre × Bool) :=
  match dictEntryRef id s.stCurrentDict (dictStrhash dev) dev with
  | none => .ok (s, false)
  | some ent =>
    match (entryAt s.stCurrentDict.dTable ent).dKey with
    | some _ => .ok (s, true)
    | none =>
      if obd.created then do
        let (d, rc) ←
          dictEntrySet id obd.memory s.stCurrentDict ent (dictStrhash dev) dev
        if rc < 0 then return ({ s with stCurrentDict := d }, false)
        return ({ s with stCurrentDict := d, rows := Function.update s.rows dev 0 }, true)
      else .ok (s, false)

abbrev Read := Bytes × Bytes

namespace Collector

def fileCalls (c : Collector) (content : Bytes) : List Call :=
  (statLines content).flatMap fun line => c.applyStatsLine line.1 line.2

/-- `osc_each` and `mdc_each`, and the file that was read. -/
def each (c : Collector) (tier : Tier) (s : Lustre) (obd : Obd) :
    Except Unit (Lustre × List Read) :=
  if obd.name.head? = some 46 then .ok (s, [])
  else
    match obd.mnt with
    | none => .ok (s, [])
    | some mnt => do
        let (s, found) ← getCurrentStats s obd mnt
        if !found then return (s, [])
        match c.statsNames.findSome? obd.files with
        | none => return (s, [])
        | some content =>
          let row := (c.fileCalls content).foldl (Call.run c tier) (s.rows mnt)
          return ({ s with rows := Function.update s.rows mnt row }, [(mnt, content)])

/-- `osc_collect` and `mdc_collect`. -/
def collect (c : Collector) (tier : Tier) : Lustre → List Obd → Except Unit (Lustre × List Read)
  | s, [] => .ok (s, [])
  | s, obd :: rest => do
      let (s, read) ← c.each tier s obd
      let (s, reads) ← c.collect tier s rest
      return (s, read ++ reads)

end Collector

/-- A collection tick, or the types are torn down and prepared again, as at the start and after a
reload. -/
inductive Event where
  | tick (tier : Tier) (obds : List Obd)
  | prepare (memory : Nat → Bool)

def Collector.step (c : Collector) (s : Lustre) : Event → Except Unit (Lustre × List Read)
  | .tick tier obds => if s.stEnabled then c.collect tier s obds else .ok (s, [])
  | .prepare memory => do
      match ← dictInit memory 0 with
      | none => return (.initial, [])
      | some d => return ({ s with stEnabled := true, stCurrentDict := d }, [])

end Ticks

end PerfStats.Monitor
