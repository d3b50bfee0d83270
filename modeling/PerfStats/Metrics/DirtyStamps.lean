import PerfStats.Metrics.ExclusiveHosts
import PerfStats.Lib.Dict
import PerfStats.Lib.Keyed
import PerfStats.Lib.Runs

namespace PerfStats.Metrics

open Text
open Lib

section Tables

/-- The columns of `job_data` that `update_metrics` and ingest write; times in microseconds. -/
structure JobData extends AcctJob where
  metricsDistinctTimeCount : Option Nat
  telemetryFirstTime : Option Int
  telemetryLastTime : Option Int
  hostDataSchemaJson : Option (List (Str × List Str))
  metricsDirtyAt : Option Int
  metricsVersion : Option Nat
  metricsCoverage : Option ℚ
  metricsSkippedSince : Option Int
deriving DecidableEq

/-- A row of `metrics_data` behind its key. -/
structure MetricValue where
  units : Str
  value : Option ℚ
  noDataReason : Option Str
deriving DecidableEq

structure MetricsDb where
  jobs : List JobData
  affinity : List AffinityRow
  metricsData : Dict (Str × Str × Str) MetricValue

def MetricsDb.job (db : MetricsDb) (jid : Str) : Option JobData :=
  db.jobs.find? fun row => row.jid == jid

def MetricsDb.update (db : MetricsDb) (chosen : JobData → Bool) (change : JobData → JobData) :
    MetricsDb × Nat :=
  ({ db with jobs := db.jobs.map fun row => if chosen row then change row else row },
    db.jobs.countP chosen)

theorem job_update {db : MetricsDb} {chosen : JobData → Bool} {change : JobData → JobData}
    (keyed : ∀ row, (change row).jid = row.jid) (jid : Str) :
    (db.update chosen change).1.job jid =
      (db.job jid).map fun row => if chosen row then change row else row := by
  have same : ∀ row : JobData,
      (if chosen row then change row else row).jid = row.jid := by
    intro row
    split
    · exact keyed row
    · rfl
  simp only [MetricsDb.job, MetricsDb.update, List.find?_map]
  congr 2
  funext row
  simp [same row]

theorem job_jid {db : MetricsDb} {jid : Str} {row : JobData} (found : db.job jid = some row) :
    row.jid = jid := by
  simpa using List.find?_some found

end Tables

section Stampers

def microsecondsPerDay : Int := 86400 * 1000000

def metricsFreshWindowDays : Int := 7

/-- The rows that `mark_jids_metrics_dirty` stamps. -/
def JobData.needsMark (now : Int) (row : JobData) : Bool :=
  decide (row.endTime < now) && row.metricsDirtyAt.isNone &&
    (row.metricsDistinctTimeCount.isSome ||
      decide (row.endTime < now - metricsFreshWindowDays * microsecondsPerDay))

def JobData.stamp (now : Int) (row : JobData) : JobData := { row with metricsDirtyAt := some now }

def markJidsMetricsDirty (jids : List Str) (now : Int) (db : MetricsDb) : MetricsDb × Nat :=
  let ids := jids.filter fun jid => !jid.isEmpty
  if ids.isEmpty then (db, 0)
  else db.update (fun row => ids.contains row.jid && row.needsMark now) (JobData.stamp now)

/-- The batches of new jobs that `mark_overlapping_jobs_metrics_dirty` looks at. -/
def overlapBatches (jids : List Str) : List (List Str) :=
  slices 500 (((jids.filter fun jid => !jid.isEmpty).dedup).mergeSort fun a b => decide (a ≤ b))

def overlapsBatch (db : MetricsDb) (batch : List Str) (row : JobData) : Bool :=
  !batch.contains row.jid && db.jobs.any fun new =>
    batch.contains new.jid && row.hostList.any new.hostList.contains &&
      overlaps row.toAcctJob new.startTime new.endTime

def markOverlapping (batch : List Str) (now : Int) (db : MetricsDb) : MetricsDb × Nat :=
  db.update
    (fun row => overlapsBatch db batch row && row.metricsDistinctTimeCount.isSome &&
      row.metricsDirtyAt.isNone && !db.affinity.any fun shared => shared.jid == row.jid)
    (JobData.stamp now)

def insertAccounting (new : List AcctJob) (db : MetricsDb) : MetricsDb :=
  { db with
    jobs := db.jobs ++ (new.filter fun job => (db.job job.jid).isNone).map fun job =>
      { toAcctJob := job
        metricsDistinctTimeCount := none
        telemetryFirstTime := none
        telemetryLastTime := none
        hostDataSchemaJson := none
        metricsDirtyAt := none
        metricsVersion := none
        metricsCoverage := none
        metricsSkippedSince := none } }

end Stampers

section Clearers

def metricsContractVersion : Nat := 7

def clampCoverage (coverage : ℚ) : ℚ := max 0 (min 1 coverage)

/-- What `_provenance_stamp_fields` writes. -/
def JobData.provenance (coverage : Option ℚ) (row : JobData) : JobData :=
  { row with
    metricsVersion := some metricsContractVersion
    metricsSkippedSince := none
    metricsCoverage := (coverage.map clampCoverage).or row.metricsCoverage }

structure MetricsPayload where
  rows : List ((Str × Str) × MetricValue)
  distinctTimeCount : Option Nat
  telemetryFirstTime : Option Int
  telemetryLastTime : Option Int
  hostDataSchema : Option (List (Str × List Str))
  computeStartedAt : Option Int
  metricsCoverage : Option ℚ

def clearUpTo (jids : List Str) (time : Int) (db : MetricsDb) : MetricsDb :=
  (db.update (fun row => jids.contains row.jid && row.metricsDirtyAt.any fun d => decide (d ≤ time))
    fun row => { row with metricsDirtyAt := none }).1

/-- The rows of the batch, the last one of a key, into `metrics_data`. -/
def upsertMetrics (jid : Str) (rows : List ((Str × Str) × MetricValue)) (db : MetricsDb) :
    MetricsDb :=
  let byKey := rows.foldl (fun found row => found.set (jid, row.1) row.2) Dict.empty
  { db with
    metricsData := byKey.entries.foldl (fun data row => data.set row.1 row.2) db.metricsData }

def recordCount (jids : List Str) (payload : MetricsPayload) (db : MetricsDb) : MetricsDb :=
  match payload.distinctTimeCount with
  | none => db
  | some count =>
    (db.update (fun row => jids.contains row.jid) fun row =>
      { row.provenance payload.metricsCoverage with
        metricsDistinctTimeCount := some count
        telemetryFirstTime := payload.telemetryFirstTime.or row.telemetryFirstTime
        telemetryLastTime := payload.telemetryLastTime.or row.telemetryLastTime }).1

def recordSchema (jids : List Str) (schema : Option (List (Str × List Str))) (db : MetricsDb) :
    MetricsDb :=
  match schema with
  | none => db
  | some schema =>
    (db.update (fun row => jids.contains row.jid) fun row =>
      { row with hostDataSchemaJson := some schema }).1

def clearStarted (jids : List Str) (started : Option Int) (db : MetricsDb) : MetricsDb :=
  match started with
  | none => db
  | some started => clearUpTo jids started db

def persistMetricsBatch (jid : Str) (payload : MetricsPayload) (db : MetricsDb) : MetricsDb :=
  let jids := if payload.rows.isEmpty then [] else [jid]
  clearStarted jids payload.computeStartedAt
    (recordSchema jids payload.hostDataSchema
      (recordCount jids payload (upsertMetrics jid payload.rows db)))

def roundHalfEven (q : ℚ) : Int :=
  let below := ⌊q⌋
  if q - below < 1 / 2 then below
  else if 1 / 2 < q - below then below + 1
  else if below % 2 = 0 then below else below + 1

def round6 (q : ℚ) : ℚ := roundHalfEven (q * 10 ^ 6) / 10 ^ 6

/-- The statements of `record_backfill_skips`, two for each coverage. -/
inductive SkipUpdate where
  | note (coverage : Option ℚ) (jids : List Str)
  | consume (jids : List Str)
deriving DecidableEq

def skipUpdates (skips : List (Str × Option ℚ)) : List SkipUpdate :=
  let rounded := skips.map fun skip => (skip.1, skip.2.map round6)
  (firstKeys Prod.snd rounded).flatMap fun coverage =>
    let jids := (series Prod.snd coverage rounded).map Prod.fst
    [.note coverage jids, .consume jids]

def SkipUpdate.apply (now checkedAt : Int) (db : MetricsDb) : SkipUpdate → MetricsDb
  | .note coverage jids =>
    (db.update (fun row => jids.contains row.jid) fun row =>
      { row with
        metricsSkippedSince := some now
        metricsCoverage := (coverage.map clampCoverage).or row.metricsCoverage }).1
  | .consume jids => clearUpTo jids checkedAt db

end Clearers

section Calls

inductive DirtyCall where
  | committed (jids : List Str) (commitAt : Int)
  | marking (jids : List Str) (commitAt now : Int)
  | inserted (jids : List Str)
  | overlapping (now : Int) (batches : List (List Str))
  | computing (jid : Str) (computeStartedAt : Int)
  | computed (jid : Str) (computeStartedAt readAt : Int)
  | checking (checkedAt : Int)
  | checked (skips : List (Str × Option ℚ)) (checkedAt readAt : Int)
  | recording (now checkedAt readAt : Int) (pending : List SkipUpdate)

inductive DirtyAct where
  | commitHostData (jids : List Str)
  | commitAccounting (new : List AcctJob)
  | startCompute (jid : Str)
  | startCheck
  | readClock
  | readHostData
  | readReadiness (skips : List (Str × Option ℚ))
  | statement
  | persist (payload : MetricsPayload) (count : Nat)
  | giveUp

structure DirtyEvent where
  thread : Nat
  wait : Nat
  act : DirtyAct

structure DirtyState where
  clock : Int
  db : MetricsDb
  calls : Dict Nat DirtyCall
  hostData : List (Str × Int)
  persistedRead : Dict Str Int
  checkedReads : List (Str × Int)

def DirtyState.goto (state : DirtyState) (thread : Nat) (call : DirtyCall) : DirtyState :=
  { state with calls := state.calls.set thread call }

def DirtyState.finish (state : DirtyState) (thread : Nat) : DirtyState :=
  { state with calls := state.calls.erase thread }

def DirtyState.act (state : DirtyState) (thread : Nat) (now : Int) : DirtyAct → DirtyState
  | .commitHostData jids =>
    match state.calls.get? thread with
    | none => { state.goto thread (.committed jids now) with
        hostData := jids.map (·, now) ++ state.hostData }
    | _ => state
  | .commitAccounting new =>
    match state.calls.get? thread with
    | none => { state.goto thread
          (.inserted ((new.filter fun job => (state.db.job job.jid).isNone).map AcctJob.jid)) with
        db := insertAccounting new state.db }
    | _ => state
  | .startCompute jid =>
    match state.calls.get? thread with
    | none => state.goto thread (.computing jid now)
    | _ => state
  | .startCheck =>
    match state.calls.get? thread with
    | none => state.goto thread (.checking now)
    | _ => state
  | .readClock =>
    match state.calls.get? thread with
    | some (.committed jids commitAt) => state.goto thread (.marking jids commitAt now)
    | some (.inserted jids) => state.goto thread (.overlapping now (overlapBatches jids))
    | some (.checked skips checkedAt readAt) =>
      state.goto thread (.recording now checkedAt readAt (skipUpdates skips))
    | _ => state
  | .readHostData =>
    match state.calls.get? thread with
    | some (.computing jid started) => state.goto thread (.computed jid started now)
    | _ => state
  | .readReadiness skips =>
    match state.calls.get? thread with
    | some (.checking checkedAt) => state.goto thread (.checked skips checkedAt now)
    | _ => state
  | .statement =>
    match state.calls.get? thread with
    | some (.marking jids _ read) =>
      { state.finish thread with db := (markJidsMetricsDirty jids read state.db).1 }
    | some (.overlapping _ []) => state.finish thread
    | some (.overlapping read (batch :: batches)) =>
      { state.goto thread (.overlapping read batches) with
        db := (markOverlapping batch read state.db).1 }
    | some (.recording _ _ _ []) => state.finish thread
    | some (.recording read checkedAt readAt (update :: pending)) =>
      { state.goto thread (.recording read checkedAt readAt pending) with
        db := update.apply read checkedAt state.db
        checkedReads :=
          match update with
          | .note _ _ => state.checkedReads
          | .consume jids => jids.map (·, readAt) ++ state.checkedReads }
    | _ => state
  | .persist payload count =>
    match state.calls.get? thread with
    | some (.computed jid started readAt) =>
      if payload.rows.isEmpty then state.finish thread
      else
        { state.finish thread with
          db := persistMetricsBatch jid
            { payload with
              distinctTimeCount := some count
              computeStartedAt := some started } state.db
          persistedRead := state.persistedRead.set jid readAt }
    | _ => state
  | .giveUp =>
    match state.calls.get? thread with
    | some (.computing _ _) | some (.computed _ _ _) | some (.checking _)
    | some (.checked _ _ _) => state.finish thread
    | _ => state

def dirtyStep (state : DirtyState) (event : DirtyEvent) : DirtyState :=
  let now := state.clock + event.wait + 1
  { state with clock := now }.act event.thread now event.act

end Calls

section Late

def SkipUpdate.consumed : SkipUpdate → List Str
  | .note _ _ => []
  | .consume jids => jids

def DirtyCall.reader (jid : Str) : DirtyCall → Option (Int × Int)
  | .computed own started readAt => if own = jid then some (started, readAt) else none
  | .checked skips checkedAt readAt =>
    if jid ∈ skips.map Prod.fst then some (checkedAt, readAt) else none
  | .recording _ checkedAt readAt pending =>
    if jid ∈ pending.flatMap SkipUpdate.consumed then some (checkedAt, readAt) else none
  | _ => none

def DirtyCall.owes (jid : Str) : DirtyCall → Option Int
  | .committed jids commitAt | .marking jids commitAt _ =>
    if jid ∈ jids then some commitAt else none
  | _ => none

def Reads (calls : Dict Nat DirtyCall) (jid : Str) (started readAt : Int) : Prop :=
  ∃ thread call, calls.get? thread = some call ∧ call.reader jid = some (started, readAt)

def Owes (calls : Dict Nat DirtyCall) (jid : Str) (commitAt : Int) : Prop :=
  ∃ thread call, calls.get? thread = some call ∧ call.owes jid = some commitAt

/-- A mark that leaves the job as it is meets no call that read before the commit and may clear the
stamp; no compute overwrites metrics of rows it has not read. -/
def Heeds (jid : Str) (state : DirtyState) (event : DirtyEvent) : Prop :=
  match event.act, state.calls.get? event.thread with
  | .statement, some (.marking jids commitAt now) =>
    jid ∈ jids → ∀ row, state.db.job jid = some row → row.needsMark now = false →
      ∀ started readAt, Reads state.calls jid started readAt → readAt < commitAt →
        ∃ d, row.metricsDirtyAt = some d ∧ started < d
  | .persist _ _, some (.computed own _ readAt) =>
    own = jid → ∀ commitAt, (jid, commitAt) ∈ state.hostData → readAt < commitAt →
      ∀ p, state.persistedRead.get? jid = some p → p < commitAt
  | _, _ => True

def Forgotten (jid : Str) (state : DirtyState) : Prop :=
  ∃ p commitAt, state.persistedRead.get? jid = some p ∧ (jid, commitAt) ∈ state.hostData ∧
    p < commitAt ∧ (∀ k, (jid, k) ∈ state.checkedReads → k < commitAt) ∧
    (state.db.job jid).bind JobData.metricsDirtyAt = none

end Late

section Rows

variable {jid : Str} {jids : List Str}

structure RowKept (row row' : JobData) : Prop where
  endTime : row'.endTime = row.endTime
  counted : row.metricsDistinctTimeCount.isSome → row'.metricsDistinctTimeCount.isSome
  dirty : ∀ d, row.metricsDirtyAt = some d → row'.metricsDirtyAt = some d

theorem RowKept.refl (row : JobData) : RowKept row row := ⟨rfl, id, fun _ => id⟩

theorem RowKept.trans {a b c : JobData} (first : RowKept a b) (then_ : RowKept b c) :
    RowKept a c :=
  ⟨then_.endTime.trans first.endTime, then_.counted ∘ first.counted,
    fun d set => then_.dirty d (first.dirty d set)⟩

def Keeps (jid : Str) (db db' : MetricsDb) : Prop :=
  ∀ row, db.job jid = some row → ∃ row', db'.job jid = some row' ∧ RowKept row row'

theorem Keeps.refl (jid : Str) (db : MetricsDb) : Keeps jid db db :=
  fun row found => ⟨row, found, .refl row⟩

theorem Keeps.trans {a b c : MetricsDb} (first : Keeps jid a b)
    (then_ : Keeps jid b c) : Keeps jid a c := by
  intro row found
  obtain ⟨middle, there, kept⟩ := first row found
  obtain ⟨last, here, more⟩ := then_ middle there
  exact ⟨last, here, kept.trans more⟩

theorem keeps_update {db : MetricsDb} {chosen : JobData → Bool}
    {change : JobData → JobData} (keyed : ∀ row, (change row).jid = row.jid)
    (kept : ∀ row, row.jid = jid → chosen row = true → RowKept row (change row)) :
    Keeps jid db (db.update chosen change).1 := by
  intro row found
  refine ⟨_, by rw [job_update keyed, found, Option.map_some], ?_⟩
  by_cases taken : chosen row = true
  · rw [if_pos taken]
    exact kept row (job_jid found) taken
  · rw [if_neg taken]
    exact .refl row

theorem stamp_kept {now : Int} {row : JobData} (clean : row.metricsDirtyAt.isNone) :
    RowKept row (row.stamp now) := by
  refine ⟨rfl, id, fun d set => ?_⟩
  rw [set] at clean
  cases clean

theorem keeps_markJids (jid : Str) (jids : List Str) (now : Int) (db : MetricsDb) :
    Keeps jid db (markJidsMetricsDirty jids now db).1 := by
  simp only [markJidsMetricsDirty]
  split
  · exact .refl jid db
  · refine keeps_update (fun _ => rfl) fun row _ taken => stamp_kept ?_
    simp only [JobData.needsMark, Bool.and_eq_true] at taken
    exact taken.2.1.2

theorem keeps_markOverlapping (jid : Str) (batch : List Str) (now : Int) (db : MetricsDb) :
    Keeps jid db (markOverlapping batch now db).1 := by
  refine keeps_update (fun _ => rfl) fun row _ taken => stamp_kept ?_
  simp only [Bool.and_eq_true] at taken
  exact taken.1.2

theorem keeps_insertAccounting (jid : Str) (new : List AcctJob) (db : MetricsDb) :
    Keeps jid db (insertAccounting new db) := by
  intro row found
  refine ⟨row, ?_, .refl row⟩
  simp only [MetricsDb.job, insertAccounting, List.find?_append] at found ⊢
  rw [found, Option.some_or]

theorem keeps_note (jid : Str) (now checkedAt : Int) (coverage : Option ℚ) (jids : List Str)
    (db : MetricsDb) : Keeps jid db ((SkipUpdate.note coverage jids).apply now checkedAt db) :=
  keeps_update (fun _ => rfl) fun _ _ _ => ⟨rfl, id, fun _ => id⟩

theorem markJids_stamps {now : Int} {db : MetricsDb} {row : JobData}
    (named : jid ≠ []) (member : jid ∈ jids) (found : db.job jid = some row)
    (needed : row.needsMark now = true) :
    (markJidsMetricsDirty jids now db).1.job jid = some (row.stamp now) := by
  have listed : jid ∈ jids.filter fun jid => !jid.isEmpty := by
    simpa [List.mem_filter, member] using named
  have some_id : (jids.filter fun jid => !jid.isEmpty).isEmpty = false := by
    cases ids : jids.filter fun jid => !jid.isEmpty with
    | nil => rw [ids] at listed; cases listed
    | cons first rest => rfl
  simp only [markJidsMetricsDirty, some_id, Bool.false_eq_true, if_false]
  rw [job_update (by intro _; rfl), found, Option.map_some, if_pos]
  simp only [Bool.and_eq_true, List.contains_iff_mem, job_jid found]
  exact ⟨listed, needed⟩

theorem keeps_clear_other (other : jid ∉ jids) (time : Int)
    (db : MetricsDb) : Keeps jid db (clearUpTo jids time db) := by
  refine keeps_update (fun _ => rfl) fun row own taken => ?_
  simp only [Bool.and_eq_true, List.contains_iff_mem, own] at taken
  exact absurd taken.1 other

theorem clear_kept {time : Int} {db : MetricsDb} {row : JobData}
    (found : db.job jid = some row) :
    ∃ row', (clearUpTo jids time db).job jid = some row' ∧ row'.endTime = row.endTime ∧
      row'.metricsDistinctTimeCount = row.metricsDistinctTimeCount ∧
      ∀ d, row.metricsDirtyAt = some d → time < d → row'.metricsDirtyAt = some d := by
  refine ⟨_, by rw [clearUpTo, job_update (by intro _; rfl), found, Option.map_some], ?_⟩
  split
  next taken =>
    refine ⟨rfl, rfl, fun d set behind => ?_⟩
    simp only [set, Bool.and_eq_true, Option.any_some, decide_eq_true_eq] at taken
    omega
  next => exact ⟨rfl, rfl, fun d set _ => set⟩

theorem keeps_upsertMetrics (jid own : Str) (rows : List ((Str × Str) × MetricValue))
    (db : MetricsDb) : Keeps jid db (upsertMetrics own rows db) :=
  fun row found => ⟨row, found, .refl row⟩

theorem keeps_recordCount (jid : Str) (jids : List Str) (payload : MetricsPayload)
    (db : MetricsDb) : Keeps jid db (recordCount jids payload db) := by
  unfold recordCount
  split
  · exact .refl jid db
  · exact keeps_update (fun _ => rfl) fun _ _ _ => ⟨rfl, fun _ => rfl, fun _ => id⟩

theorem keeps_recordSchema (jid : Str) (jids : List Str)
    (schema : Option (List (Str × List Str))) (db : MetricsDb) :
    Keeps jid db (recordSchema jids schema db) := by
  unfold recordSchema
  split
  · exact .refl jid db
  · exact keeps_update (fun _ => rfl) fun _ _ _ => ⟨rfl, id, fun _ => id⟩

theorem keeps_persist_other {jid own : Str} (other : jid ≠ own) (payload : MetricsPayload)
    (db : MetricsDb) : Keeps jid db (persistMetricsBatch own payload db) := by
  have absent : jid ∉ if payload.rows.isEmpty then [] else [own] := by split <;> simp [other]
  have cleared : ∀ db, Keeps jid db (clearStarted (if payload.rows.isEmpty then [] else [own])
      payload.computeStartedAt db) := by
    intro db
    unfold clearStarted
    split
    · exact .refl jid db
    · exact keeps_clear_other absent _ db
  exact (((keeps_upsertMetrics jid own _ db).trans (keeps_recordCount jid _ payload _)).trans
    (keeps_recordSchema jid _ _ _)).trans (cleared _)

theorem persist_own {payload : MetricsPayload} {db : MetricsDb} {row : JobData}
    {count : Nat} {started : Int} (found : db.job jid = some row)
    (rows : payload.rows.isEmpty = false) (counted : payload.distinctTimeCount = some count)
    (begun : payload.computeStartedAt = some started) :
    ∃ row', (persistMetricsBatch jid payload db).job jid = some row' ∧
      row'.endTime = row.endTime ∧ row'.metricsDistinctTimeCount.isSome ∧
      ∀ d, row.metricsDirtyAt = some d → started < d → row'.metricsDirtyAt = some d := by
  have first : ∃ row', (recordCount [jid] payload (upsertMetrics jid payload.rows db)).job jid =
      some row' ∧ RowKept row row' ∧ row'.metricsDistinctTimeCount.isSome := by
    have same : (upsertMetrics jid payload.rows db).job jid = some row := found
    simp only [recordCount, counted]
    rw [job_update (by intro _; rfl), same, Option.map_some, if_pos (by simp [job_jid found])]
    exact ⟨_, rfl, ⟨rfl, fun _ => rfl, fun _ => id⟩, rfl⟩
  obtain ⟨second, there, kept, isCounted⟩ := first
  obtain ⟨third, here, more⟩ := keeps_recordSchema jid [jid] payload.hostDataSchema _ second there
  obtain ⟨last, settled, ends, counts, stamped⟩ := @clear_kept jid [jid] started _ _ here
  have whole : persistMetricsBatch jid payload db = clearUpTo [jid] started
      (recordSchema [jid] payload.hostDataSchema
        (recordCount [jid] payload (upsertMetrics jid payload.rows db))) := by
    simp only [persistMetricsBatch, rows, begun, clearStarted, Bool.false_eq_true, if_false]
  rw [whole]
  refine ⟨last, settled, ends.trans (more.endTime.trans kept.endTime), ?_, ?_⟩
  · rw [counts]
    exact more.counted isCounted
  · intro d set behind
    exact stamped d (more.dirty d (kept.dirty d set)) behind

end Rows

section Runs

def DirtyCall.Timely (endTime time : Int) : DirtyCall → Prop
  | .committed _ commitAt => endTime < commitAt ∧ commitAt ≤ time
  | .marking _ commitAt now => endTime < commitAt ∧ commitAt < now
  | .computing _ started | .checking started => started ≤ time
  | .computed _ started readAt | .checked _ started readAt | .recording _ started readAt _ =>
    started < readAt ∧ readAt ≤ time
  | _ => True

/-- A check or the last persisted compute looks at the commit, or a stamp stands that no earlier
reader clears, or no compute that read before can be the first. -/
def Told (jid : Str) (state : DirtyState) (commitAt : Int) : Prop :=
  (∃ k, (jid, k) ∈ state.checkedReads ∧ commitAt ≤ k) ∨
  (∃ p, state.persistedRead.get? jid = some p ∧ commitAt ≤ p) ∨
  (∃ d, (state.db.job jid).bind JobData.metricsDirtyAt = some d ∧
    ∀ started readAt, Reads state.calls jid started readAt → readAt < commitAt → started < d) ∨
  (state.persistedRead.get? jid = none ∧
    ∀ started readAt, Reads state.calls jid started readAt → commitAt ≤ readAt)

structure DirtyRight (jid : Str) (endTime time : Int) (state : DirtyState) : Prop where
  timely : ∀ thread call, state.calls.get? thread = some call → call.Timely endTime time
  commits : ∀ commitAt, (jid, commitAt) ∈ state.hostData → commitAt ≤ time
  row : ∃ row, state.db.job jid = some row ∧ row.endTime = endTime ∧
    (state.persistedRead.get? jid ≠ none → row.metricsDistinctTimeCount.isSome)
  told : ∀ commitAt, (jid, commitAt) ∈ state.hostData →
    Owes state.calls jid commitAt ∨ Told jid state commitAt

variable {jid : Str} {endTime time now : Int} {state : DirtyState}

variable {thread : Nat} {jids : List Str} {calls : Dict Nat DirtyCall} {commitAt read : Int}
    {event : DirtyEvent} {call : DirtyCall} {started readAt : Int}

theorem DirtyCall.Timely.later (timely : call.Timely endTime time)
    (after : time ≤ now) : call.Timely endTime now := by
  cases call <;> simp only [DirtyCall.Timely] at timely ⊢ <;> omega

theorem DirtyRight.later (right : DirtyRight jid endTime time state) (after : time ≤ now) :
    DirtyRight jid endTime now state where
  timely thread call found := (right.timely thread call found).later after
  commits commitAt member := le_trans (right.commits commitAt member) after
  row := right.row
  told := right.told

theorem DirtyCall.Timely.reader (timely : call.Timely endTime time)
    (reads : call.reader jid = some (started, readAt)) :
    started < readAt ∧ readAt ≤ time := by
  cases call <;> simp only [DirtyCall.reader] at reads <;> try cases reads
  all_goals
    split at reads
    · cases reads
      exact timely
    · cases reads

theorem reads_set (reads : Reads (calls.set thread call) jid started readAt) :
    Reads calls jid started readAt ∨ call.reader jid = some (started, readAt) := by
  obtain ⟨other, own, found, reader⟩ := reads
  rw [Dict.get?_set] at found
  split at found
  · cases found
    exact .inr reader
  · exact .inl ⟨other, own, found, reader⟩

theorem reads_erase
    (reads : Reads (calls.erase thread) jid started readAt) : Reads calls jid started readAt := by
  obtain ⟨other, own, found, reader⟩ := reads
  rw [Dict.get?_erase] at found
  split at found
  · cases found
  · exact ⟨other, own, found, reader⟩

theorem owes_set (kept : ∀ old, calls.get? thread = some old → old.owes jid = some commitAt →
      call.owes jid = some commitAt)
    (owes : Owes calls jid commitAt) : Owes (calls.set thread call) jid commitAt := by
  obtain ⟨other, own, found, owed⟩ := owes
  by_cases same : other = thread
  · subst same
    exact ⟨other, call, by rw [Dict.get?_set, if_pos rfl], kept own found owed⟩
  · exact ⟨other, own, by rw [Dict.get?_set, if_neg same, found], owed⟩

theorem owes_erase (settled : ∀ old, calls.get? thread = some old → old.owes jid ≠ some commitAt)
    (owes : Owes calls jid commitAt) : Owes (calls.erase thread) jid commitAt := by
  obtain ⟨other, own, found, owed⟩ := owes
  by_cases same : other = thread
  · subst same
    exact absurd owed (settled own found)
  · exact ⟨other, own, by rw [Dict.get?_erase, if_neg same, found], owed⟩

theorem timely_set
    (others : ∀ thread call, calls.get? thread = some call → call.Timely endTime time)
    (own : call.Timely endTime time) :
    ∀ other call', (calls.set thread call).get? other = some call' → call'.Timely endTime time := by
  intro other call' found
  rw [Dict.get?_set] at found
  split at found
  · cases found
    exact own
  · exact others other call' found

theorem timely_erase
    (others : ∀ thread call, calls.get? thread = some call → call.Timely endTime time) :
    ∀ other call', (calls.erase thread).get? other = some call' → call'.Timely endTime time := by
  intro other call' found
  rw [Dict.get?_erase] at found
  split at found
  · cases found
  · exact others other call' found

theorem Keeps.dirty {db db' : MetricsDb} (kept : Keeps jid db db') {d : Int}
    (set : (db.job jid).bind JobData.metricsDirtyAt = some d) :
    (db'.job jid).bind JobData.metricsDirtyAt = some d := by
  obtain ⟨row, found, stamped⟩ := Option.bind_eq_some_iff.mp set
  obtain ⟨row', found', kept⟩ := kept row found
  rw [found', Option.bind_some]
  exact kept.dirty d stamped

theorem DirtyRight.quiet {state' : DirtyState} (right : DirtyRight jid endTime time state)
    (after : time ≤ now)
    (timely : ∀ thread call, state'.calls.get? thread = some call → call.Timely endTime now)
    (commits : state'.hostData = state.hostData)
    (persisted : state'.persistedRead.get? jid = state.persistedRead.get? jid)
    (checked : ∀ k, (jid, k) ∈ state.checkedReads → (jid, k) ∈ state'.checkedReads)
    (row : Keeps jid state.db state'.db)
    (reads : ∀ started readAt, Reads state'.calls jid started readAt →
      Reads state.calls jid started readAt ∨ time ≤ readAt)
    (owed : ∀ commitAt, Owes state.calls jid commitAt →
      Owes state'.calls jid commitAt ∨ Told jid state' commitAt) :
    DirtyRight jid endTime now state' where
  timely := timely
  commits commitAt member := by
    rw [commits] at member
    exact le_trans (right.commits commitAt member) after
  row := by
    obtain ⟨old, found, ends, counted⟩ := right.row
    obtain ⟨new, found', kept⟩ := row old found
    rw [persisted]
    exact ⟨new, found', kept.endTime.trans ends, fun some_ => kept.counted (counted some_)⟩
  told commitAt member := by
    rw [commits] at member
    have before : ∀ started readAt, Reads state'.calls jid started readAt → readAt < commitAt →
        Reads state.calls jid started readAt := by
      intro started readAt reader behind
      rcases reads started readAt reader with old | new
      · exact old
      · have := right.commits commitAt member
        omega
    rcases right.told commitAt member with owes | looked | computed | stamped | never
    · exact owed commitAt owes
    · obtain ⟨k, known, covers⟩ := looked
      exact .inr (.inl ⟨k, checked k known, covers⟩)
    · rw [← persisted] at computed
      exact .inr (.inr (.inl computed))
    · obtain ⟨d, set, beyond⟩ := stamped
      refine .inr (.inr (.inr (.inl ⟨d, row.dirty set, fun started readAt reader behind => ?_⟩)))
      exact beyond started readAt (before started readAt reader behind) behind
    · refine .inr (.inr (.inr (.inr ⟨by rw [persisted]; exact never.1, ?_⟩)))
      intro started readAt reader
      by_contra behind
      exact behind (never.2 started readAt (before started readAt reader (by omega)))

theorem unowed {thread : Nat} {own : DirtyCall} {asked : Int → Prop}
    (call : state.calls.get? thread = some own) (free : own.owes jid = none) (old : DirtyCall)
    (commitAt : Int) (found : state.calls.get? thread = some old)
    (owed : old.owes jid = some commitAt) : asked commitAt := by
  rw [call] at found
  cases found
  rw [free] at owed
  cases owed

theorem unread {call : DirtyCall} {asked : Int → Int → Prop} (silent : call.reader jid = none)
    (started readAt : Int) (reader : call.reader jid = some (started, readAt)) :
    asked started readAt := by
  rw [silent] at reader
  cases reader

theorem DirtyRight.goto {thread : Nat} {call : DirtyCall} {db : MetricsDb}
    (right : DirtyRight jid endTime time state) (after : time ≤ now)
    (timely : call.Timely endTime now) (row : Keeps jid state.db db)
    (reads : ∀ started readAt, call.reader jid = some (started, readAt) →
      (∃ old, state.calls.get? thread = some old ∧ old.reader jid = some (started, readAt)) ∨
        time ≤ readAt)
    (owed : ∀ old commitAt, state.calls.get? thread = some old → old.owes jid = some commitAt →
      call.owes jid = some commitAt) :
    DirtyRight jid endTime now { state.goto thread call with db := db } := by
  refine right.quiet after (timely_set (fun other old found =>
    (right.timely other old found).later after) timely) rfl rfl (fun _ => id) row ?_ ?_
  · intro started readAt reader
    rcases reads_set reader with old | own
    · exact .inl old
    · rcases reads started readAt own with ⟨old, found, reader⟩ | new
      · exact .inl ⟨thread, old, found, reader⟩
      · exact .inr new
  · intro commitAt owes
    exact .inl (owes_set (fun old found => owed old commitAt found) owes)

theorem DirtyRight.finish {db : MetricsDb}
    (right : DirtyRight jid endTime time state) (after : time ≤ now) (row : Keeps jid state.db db)
    (settled : ∀ old commitAt, state.calls.get? thread = some old → old.owes jid ≠ some commitAt) :
    DirtyRight jid endTime now { state.finish thread with db := db } :=
  right.quiet after (timely_erase fun other old found => (right.timely other old found).later after)
    rfl rfl (fun _ => id) row (fun _ _ reader => .inl (reads_erase reader))
    fun commitAt owes => .inl (owes_erase (fun old found => settled old commitAt found) owes)

theorem consumed_of_skip {skips : List (Str × Option ℚ)}
    (member : jid ∈ (skipUpdates skips).flatMap SkipUpdate.consumed) :
    jid ∈ skips.map Prod.fst := by
  obtain ⟨update, listed, inside⟩ := List.mem_flatMap.mp member
  obtain ⟨coverage, _, either⟩ := List.mem_flatMap.mp listed
  rcases List.mem_pair.mp either with rfl | rfl
  · cases inside
  · obtain ⟨skip, chosen, rfl⟩ := List.mem_map.mp inside
    have rounded := (mem_series Prod.snd).mp chosen
    obtain ⟨origin, present, rfl⟩ := List.mem_map.mp rounded.1
    exact List.mem_map.mpr ⟨origin, present, rfl⟩

theorem DirtyRight.commit (right : DirtyRight jid endTime now state)
    (owed : jid ∈ jids → Owes state.calls jid now) :
    DirtyRight jid endTime now { state with hostData := jids.map (·, now) ++ state.hostData } where
  timely := right.timely
  commits commitAt member := by
    rcases List.mem_append.mp member with new | old
    · obtain ⟨own, _, same⟩ := List.mem_map.mp new
      cases same
      exact le_rfl
    · exact right.commits commitAt old
  row := right.row
  told commitAt member := by
    rcases List.mem_append.mp member with new | old
    · obtain ⟨own, among, same⟩ := List.mem_map.mp new
      cases same
      exact .inl (owed among)
    · exact right.told commitAt old

theorem told_of_mark (right : DirtyRight jid endTime time state) (named : jid ≠ [])
    (call : state.calls.get? thread = some (.marking jids commitAt read)) (member : jid ∈ jids)
    (own : event.thread = thread) (act : event.act = .statement) (heeds : Heeds jid state event) :
    Told jid { state.finish thread with db := (markJidsMetricsDirty jids read state.db).1 }
      commitAt := by
  obtain ⟨row, found, ends, counted⟩ := right.row
  have timely := right.timely thread _ call
  simp only [DirtyCall.Timely] at timely
  by_cases needed : row.needsMark read = true
  · refine .inr (.inr (.inl ⟨read, ?_, fun started readAt reader behind => ?_⟩))
    · simp only [markJids_stamps named member found needed, Option.bind_some, JobData.stamp]
    · obtain ⟨other, call', there, reads⟩ := reads_erase reader
      have := ((right.timely other call' there).reader reads).1
      omega
  · have unmarked : row.needsMark read = false := by simpa using needed
    simp only [Heeds, act, own, call] at heeds
    have heeded := heeds member row found unmarked
    cases stamp : row.metricsDirtyAt with
    | some d =>
      refine .inr (.inr (.inl ⟨d, ?_, fun started readAt reader behind => ?_⟩))
      · refine (keeps_markJids jid jids read state.db).dirty ?_
        rw [found, Option.bind_some, stamp]
      · obtain ⟨d', set, beyond⟩ := heeded started readAt (reads_erase reader) behind
        rw [stamp] at set
        cases set
        exact beyond
    | none =>
      have uncounted : row.metricsDistinctTimeCount.isSome = false := by
        have before : row.endTime < read := by omega
        simp only [JobData.needsMark, before, stamp, decide_true, Option.isNone_none,
          Bool.true_and, Bool.or_eq_false_iff] at unmarked
        exact unmarked.1
      refine .inr (.inr (.inr ⟨?_, fun started readAt reader => ?_⟩))
      · by_contra persisted
        rw [counted persisted] at uncounted
        cases uncounted
      · by_contra behind
        obtain ⟨d, set, _⟩ := heeded started readAt (reads_erase reader) (by omega)
        rw [stamp] at set
        cases set

theorem mark_right
    (right : DirtyRight jid endTime time state) (after : time ≤ now) (named : jid ≠ [])
    (call : state.calls.get? thread = some (.marking jids commitAt read))
    (own : event.thread = thread) (act : event.act = .statement) (heeds : Heeds jid state event) :
    DirtyRight jid endTime now
      { state.finish thread with db := (markJidsMetricsDirty jids read state.db).1 } := by
  refine right.quiet after (timely_erase fun other old found =>
    (right.timely other old found).later after) rfl rfl (fun _ => id)
    (keeps_markJids jid jids read state.db) (fun _ _ reader => .inl (reads_erase reader)) ?_
  intro earlier owes
  obtain ⟨other, old, found, owed⟩ := owes
  by_cases same : other = thread
  · subst same
    rw [call] at found
    cases found
    simp only [DirtyCall.owes] at owed
    split at owed
    next member =>
      cases owed
      exact .inr (told_of_mark right named call member own act heeds)
    next => cases owed
  · exact .inl ⟨other, old, by rw [DirtyState.finish, Dict.get?_erase, if_neg same, found],
      owed⟩

theorem consume_right {checkedAt : Int}
    {pending : List SkipUpdate} (right : DirtyRight jid endTime time state) (after : time ≤ now)
    (call : state.calls.get? thread =
      some (.recording read checkedAt readAt (.consume jids :: pending))) :
    DirtyRight jid endTime now
      { state.goto thread (.recording read checkedAt readAt pending) with
        db := clearUpTo jids checkedAt state.db
        checkedReads := jids.map (·, readAt) ++ state.checkedReads } := by
  have timely := right.timely thread _ call
  simp only [DirtyCall.Timely] at timely
  have own : ∀ old commitAt, state.calls.get? thread = some old →
      old.owes jid = some commitAt → False := unowed call rfl
  have moved := @DirtyRight.goto jid endTime time now state thread
    (.recording read checkedAt readAt pending) state.db right after
    (by simp only [DirtyCall.Timely]; omega) (Keeps.refl jid state.db) (by
      intro started at_ reader
      refine .inl ⟨_, call, ?_⟩
      simp only [DirtyCall.reader, List.flatMap_cons, List.mem_append] at reader ⊢
      split at reader
      next later => rwa [if_pos (.inr later)]
      next => cases reader) fun old commitAt found owed => (own old commitAt found owed).elim
  by_cases member : jid ∈ jids
  · obtain ⟨row, found, ends, counted⟩ := right.row
    obtain ⟨row', found', ends', counts, stamped⟩ := @clear_kept jid jids checkedAt _ _ found
    have reads : Reads state.calls jid checkedAt readAt :=
      ⟨thread, _, call, by simp [DirtyCall.reader, SkipUpdate.consumed, member]⟩
    have seen : (jid, readAt) ∈ jids.map (·, readAt) ++ state.checkedReads :=
      List.mem_append_left _ (List.mem_map_of_mem member)
    refine ⟨moved.timely, moved.commits, ⟨row', found', ends'.trans ends, fun some_ => ?_⟩, ?_⟩
    · rw [counts]
      exact counted some_
    · intro commitAt there
      rcases right.told commitAt there with owes | looked | computed | set | never
      · exact .inl (owes_set (fun old held owed => (own old commitAt held owed).elim) owes)
      · obtain ⟨k, known, covers⟩ := looked
        exact .inr (.inl ⟨k, List.mem_append_right _ known, covers⟩)
      · exact .inr (.inr (.inl computed))
      · obtain ⟨d, set, beyond⟩ := set
        by_cases behind : readAt < commitAt
        · rw [found, Option.bind_some] at set
          refine .inr (.inr (.inr (.inl ⟨d, ?_, fun started at_ reader before => ?_⟩)))
          · simp only [found', Option.bind_some]
            exact stamped d set (beyond _ _ reads behind)
          · rcases reads_set reader with old | new
            · exact beyond started at_ old before
            · simp only [DirtyCall.reader] at new
              split at new
              · cases new
                exact beyond _ _ reads behind
              · cases new
        · exact .inr (.inl ⟨readAt, seen, by omega⟩)
      · exact .inr (.inl ⟨readAt, seen, never.2 _ _ reads⟩)
  · exact moved.quiet le_rfl moved.timely rfl rfl
      (fun k known => List.mem_append_right _ known) (keeps_clear_other member _ _)
      (fun _ _ reader => .inl reader) fun _ owes => .inl owes

theorem persist_right {own : Str} {payload : MetricsPayload}
    {count : Nat} (right : DirtyRight jid endTime time state)
    (after : time ≤ now) (call : state.calls.get? thread = some (.computed own started readAt))
    (here : event.thread = thread) (act : event.act = .persist payload count)
    (heeds : Heeds jid state event) (rows : payload.rows.isEmpty = false) :
    DirtyRight jid endTime now
      { state.finish thread with
        db := persistMetricsBatch own
          { payload with
            distinctTimeCount := some count
            computeStartedAt := some started } state.db
        persistedRead := state.persistedRead.set own readAt } := by
  have free : ∀ old commitAt, state.calls.get? thread = some old →
      old.owes jid ≠ some commitAt := unowed call rfl
  by_cases same : jid = own
  · subst same
    simp only [Heeds, act, here, call] at heeds
    obtain ⟨row, found, ends, counted⟩ := right.row
    obtain ⟨row', found', ends', counts, stamped⟩ := @persist_own jid
      { payload with distinctTimeCount := some count, computeStartedAt := some started } _ row
      count started found rows rfl rfl
    have reads : Reads state.calls jid started readAt :=
      ⟨thread, _, call, by simp [DirtyCall.reader]⟩
    have latest : (state.persistedRead.set jid readAt).get? jid = some readAt := by
      rw [Dict.get?_set, if_pos rfl]
    refine ⟨timely_erase fun other old there => (right.timely other old there).later after,
      fun commitAt there => le_trans (right.commits commitAt there) after,
      ⟨row', found', ends'.trans ends, fun _ => counts⟩, ?_⟩
    intro commitAt there
    by_cases behind : readAt < commitAt
    · rcases right.told commitAt there with owes | looked | computed | set | never
      · exact .inl (owes_erase (fun old held => free old commitAt held) owes)
      · exact .inr (.inl looked)
      · obtain ⟨p, known, covers⟩ := computed
        have := heeds trivial commitAt there behind p known
        omega
      · obtain ⟨d, set, beyond⟩ := set
        rw [found, Option.bind_some] at set
        refine .inr (.inr (.inr (.inl ⟨d, ?_, fun started at_ reader before => ?_⟩)))
        · simp only [found', Option.bind_some]
          exact stamped d set (beyond _ _ reads behind)
        · exact beyond started at_ (reads_erase reader) before
      · have := never.2 _ _ reads
        omega
    · exact .inr (.inr (.inl ⟨readAt, latest, by omega⟩))
  · refine right.quiet after (timely_erase fun other old found =>
      (right.timely other old found).later after) rfl ?_ (fun _ => id)
      (keeps_persist_other same _ _) (fun _ _ reader => .inl (reads_erase reader))
      fun commitAt owes => .inl (owes_erase (fun old held => free old commitAt held) owes)
    exact Dict.get?_set_of_ne _ same _

theorem statement_right (right : DirtyRight jid endTime time state)
    (after : time < now) (named : jid ≠ []) (act : event.act = .statement)
    (heeds : Heeds jid state event) :
    DirtyRight jid endTime now (state.act event.thread now .statement) := by
  have later := le_of_lt after
  simp only [DirtyState.act]
  split
  next jids commitAt read call => exact mark_right right later named call rfl act heeds
  next read call => exact right.finish later (.refl jid _) (unowed call rfl)
  next read batch batches call =>
    exact right.goto later trivial (keeps_markOverlapping jid batch read _)
      (unread rfl) (unowed call rfl)
  next call => exact right.finish later (.refl jid _) (unowed call rfl)
  next read checkedAt readAt update pending call =>
    cases update with
    | consume jids => exact consume_right right later call
    | note coverage jids =>
      have timely := right.timely _ _ call
      simp only [DirtyCall.Timely] at timely
      refine right.goto later (by simp only [DirtyCall.Timely]; omega)
        (keeps_note jid read checkedAt coverage jids _) (fun started at_ reader => ?_)
        (unowed call rfl)
      exact .inl ⟨_, call, reader⟩
  next => exact right.later later

theorem readClock_right (right : DirtyRight jid endTime time state) (after : time < now)
    (thread : Nat) : DirtyRight jid endTime now (state.act thread now .readClock) := by
  have later := le_of_lt after
  simp only [DirtyState.act]
  split
  next jids commitAt call =>
    have timely := right.timely _ _ call
    simp only [DirtyCall.Timely] at timely
    refine right.goto later (by simp only [DirtyCall.Timely]; omega) (.refl jid _)
      (unread rfl) fun old earlier found owed => ?_
    rw [call] at found
    cases found
    exact owed
  next jids call =>
    exact right.goto later trivial (.refl jid _) (unread rfl)
      (unowed call rfl)
  next skips checkedAt readAt call =>
    have timely := right.timely _ _ call
    simp only [DirtyCall.Timely] at timely
    refine right.goto later (by simp only [DirtyCall.Timely]; omega) (.refl jid _)
      (fun started at_ reader => ?_) (unowed call rfl)
    simp only [DirtyCall.reader] at reader
    split at reader
    next consumed =>
      refine .inl ⟨_, call, ?_⟩
      rw [DirtyCall.reader, if_pos (consumed_of_skip consumed), reader]
    next => cases reader
  next => exact right.later later

theorem act_right (right : DirtyRight jid endTime time state)
    (after : time < now) (named : jid ≠ []) (ended : endTime < now) (heeds : Heeds jid state event) :
    DirtyRight jid endTime now (state.act event.thread now event.act) := by
  have later := le_of_lt after
  cases act : event.act with
  | commitHostData jids =>
    simp only [DirtyState.act]
    split
    next call =>
      have moved := @DirtyRight.goto jid endTime time now state event.thread
        (.committed jids now) state.db right later ⟨ended, le_rfl⟩ (.refl jid _)
        (unread rfl) fun old commitAt found _ => by
          rw [call] at found
          cases found
      refine moved.commit fun member => ⟨event.thread, .committed jids now, ?_, if_pos member⟩
      simp [DirtyState.goto]
    next => exact right.later later
  | commitAccounting new =>
    simp only [DirtyState.act]
    split
    next call =>
      refine right.goto later trivial (keeps_insertAccounting jid new _)
        (unread rfl) fun old commitAt found _ => ?_
      rw [call] at found
      cases found
    next => exact right.later later
  | startCompute _ | startCheck =>
    simp only [DirtyState.act]
    split
    next call =>
      refine right.goto later le_rfl (.refl jid _)
        (unread rfl) fun old commitAt found _ => ?_
      rw [call] at found
      cases found
    next => exact right.later later
  | readClock => exact readClock_right right after event.thread
  | readHostData =>
    simp only [DirtyState.act]
    split
    next own started call =>
      have timely := right.timely _ _ call
      simp only [DirtyCall.Timely] at timely
      refine right.goto later (by simp only [DirtyCall.Timely]; omega) (.refl jid _)
        (fun started at_ reader => ?_) (unowed call rfl)
      simp only [DirtyCall.reader] at reader
      split at reader
      · cases reader
        exact .inr later
      · cases reader
    next => exact right.later later
  | readReadiness skips =>
    simp only [DirtyState.act]
    split
    next checkedAt call =>
      have timely := right.timely _ _ call
      simp only [DirtyCall.Timely] at timely
      refine right.goto later (by simp only [DirtyCall.Timely]; omega) (.refl jid _)
        (fun started at_ reader => ?_) (unowed call rfl)
      simp only [DirtyCall.reader] at reader
      split at reader
      · cases reader
        exact .inr later
      · cases reader
    next => exact right.later later
  | statement => exact statement_right right after named act heeds
  | persist payload count =>
    simp only [DirtyState.act]
    split
    next own started readAt call =>
      cases rows : payload.rows.isEmpty with
      | false => exact persist_right right later call rfl act heeds rows
      | true => exact right.finish later (.refl jid _) (unowed call rfl)
    next => exact right.later later
  | giveUp =>
    simp only [DirtyState.act]
    split
    all_goals first
      | exact right.later later
      | rename_i call
        exact right.finish later (.refl jid _) (unowed call rfl)

structure DirtyState.Fresh (state : DirtyState) : Prop where
  idle : ∀ thread, state.calls.get? thread = none
  past : ∀ jid commitAt, (jid, commitAt) ∈ state.hostData → commitAt ≤ state.clock
  uncomputed : ∀ jid, state.persistedRead.get? jid = none
  unchecked : state.checkedReads = []

theorem fresh_right {row : JobData} (fresh : state.Fresh) (found : state.db.job jid = some row) :
    DirtyRight jid row.endTime state.clock state where
  timely thread call held := by
    rw [fresh.idle thread] at held
    cases held
  commits := fresh.past jid
  row := ⟨row, found, rfl, fun persisted => absurd (fresh.uncomputed jid) persisted⟩
  told commitAt _ := by
    refine .inr (.inr (.inr (.inr ⟨fresh.uncomputed jid, fun started readAt reads => ?_⟩)))
    obtain ⟨thread, call, held, _⟩ := reads
    rw [fresh.idle thread] at held
    cases held

theorem clock_step (state : DirtyState) (event : DirtyEvent) :
    (dirtyStep state event).clock = state.clock + event.wait + 1 := by
  cases act : event.act <;> simp only [dirtyStep, act, DirtyState.act] <;> split <;>
    first | rfl | (split <;> rfl)

theorem dirtyStep_right (named : jid ≠ [])
    (right : DirtyRight jid endTime state.clock state ∧ endTime < state.clock)
    (heeds : Heeds jid state event) :
    DirtyRight jid endTime (dirtyStep state event).clock (dirtyStep state event) ∧
      endTime < (dirtyStep state event).clock := by
  have ticked : DirtyRight jid endTime state.clock
      { state with clock := state.clock + event.wait + 1 } :=
    ⟨right.1.timely, right.1.commits, right.1.row, right.1.told⟩
  rw [clock_step]
  constructor
  · exact act_right ticked (by omega) named (by have := right.2; omega) heeds
  · have := right.2
    omega

theorem not_forgotten (right : DirtyRight jid endTime time state)
    (idle : ∀ thread, state.calls.get? thread = none) : ¬Forgotten jid state := by
  intro forgotten
  obtain ⟨p, commitAt, persisted, member, behind, unchecked, clean⟩ := forgotten
  rcases right.told commitAt member with owes | looked | computed | stamped | never
  · obtain ⟨thread, call, held, _⟩ := owes
    rw [idle thread] at held
    cases held
  · obtain ⟨k, known, covers⟩ := looked
    have := unchecked k known
    omega
  · obtain ⟨q, known, covers⟩ := computed
    rw [persisted] at known
    cases known
    omega
  · obtain ⟨d, set, _⟩ := stamped
    rw [clean] at set
    cases set
  · rw [persisted] at never
    cases never.1

/-- Once every call has returned, no late row of a computed job is forgotten, on every run whose
steps heed what was committed. -/
theorem late_data_told {row : JobData} (named : jid ≠ []) (fresh : state.Fresh)
    (found : state.db.job jid = some row) (ended : row.endTime < state.clock)
    {events : List DirtyEvent} (heeds : Throughout dirtyStep (Heeds jid) state events)
    (returned : ∀ thread, (events.foldl dirtyStep state).calls.get? thread = none) :
    ¬Forgotten jid (events.foldl dirtyStep state) := by
  have right := heeds.kept
    (K := fun s => DirtyRight jid row.endTime s.clock s ∧ row.endTime < s.clock)
    ⟨fresh_right fresh found, ended⟩ fun s event right heed => dirtyStep_right named right heed
  exact not_forgotten right.1 returned

end Runs

section Examples

def calm (jid : Str) (state : DirtyState) (event : DirtyEvent) : Bool :=
  match event.act, state.calls.get? event.thread with
  | .statement, some (.marking _ _ now) => (state.db.job jid).all fun row => row.needsMark now
  | .persist _ _, _ => (state.persistedRead.get? jid).isNone
  | _, _ => true

theorem heeds_of_calm {jid : Str} {state : DirtyState} {event : DirtyEvent}
    (quiet : calm jid state event = true) : Heeds jid state event := by
  unfold calm at quiet
  unfold Heeds
  split
  next act call =>
    intro _ row found unmarked
    simp only [act, call, found, Option.all_some, unmarked] at quiet
    cases quiet
  next act call =>
    intro _ commitAt _ _ p persisted
    simp [act, persisted] at quiet
  next => trivial

def endedJob : JobData where
  jid := lit "7"
  hostList := [lit "c1"]
  startTime := 0
  endTime := 3600000000
  metricsDistinctTimeCount := none
  telemetryFirstTime := none
  telemetryLastTime := none
  hostDataSchemaJson := none
  metricsDirtyAt := none
  metricsVersion := none
  metricsCoverage := none
  metricsSkippedSince := none

def justEnded : DirtyState where
  clock := 3600000001
  db := ⟨[endedJob], [], .empty⟩
  calls := .empty
  hostData := []
  persistedRead := .empty
  checkedReads := []

theorem justEnded_fresh : justEnded.Fresh where
  idle _ := rfl
  past _ _ member := by cases member
  uncomputed _ := rfl
  unchecked := rfl

def oneMetric : MetricsPayload where
  rows := [((lit "cpu", lit "avg_cpuusage"), ⟨lit "#cores", some 1, none⟩)]
  distinctTimeCount := none
  telemetryFirstTime := none
  telemetryLastTime := none
  hostDataSchema := none
  computeStartedAt := none
  metricsCoverage := none

def computeActs : List DirtyEvent :=
  [⟨1, 0, .startCompute (lit "7")⟩, ⟨1, 0, .readHostData⟩, ⟨1, 0, .persist oneMetric 60⟩]

def ingestActs : List DirtyEvent :=
  [⟨2, 0, .commitHostData [lit "7"]⟩, ⟨2, 0, .readClock⟩, ⟨2, 0, .statement⟩]

def checkActs : List DirtyEvent :=
  [⟨3, 0, .startCheck⟩, ⟨3, 0, .readReadiness [(lit "7", some (1 / 2))]⟩, ⟨3, 0, .readClock⟩,
    ⟨3, 0, .statement⟩, ⟨3, 0, .statement⟩, ⟨3, 0, .statement⟩]

def LateClean (jid : Str) (state : DirtyState) : Prop :=
  state.calls.entries = [] ∧
  (∃ late ∈ state.hostData, late.1 = jid ∧
    (state.persistedRead.get? jid).any fun p => decide (p < late.2)) ∧
  (state.db.job jid).bind JobData.metricsDirtyAt = none

instance (jid : Str) (state : DirtyState) : Decidable (LateClean jid state) :=
  inferInstanceAs (Decidable (_ ∧ _ ∧ _))

/-- A check that finds the late rows incomplete takes the stamp, and so does a compute that read
before the rows of a mark that kept an older stamp. -/
theorem late_data_clean :
    LateClean (lit "7") ((computeActs ++ ingestActs ++ checkActs).foldl dirtyStep justEnded) ∧
    LateClean (lit "7") ((computeActs ++ ingestActs ++ computeActs.take 2 ++ ingestActs ++
      computeActs.drop 2).foldl dirtyStep justEnded) := by
  constructor <;> decide +kernel

theorem late_data_told_marked_behind :
    ¬Forgotten (lit "7") ((computeActs.take 2 ++ ingestActs.take 1 ++ computeActs.drop 2 ++
      ingestActs.drop 1).foldl dirtyStep justEnded) := by
  have heeds : Throughout dirtyStep (Heeds (lit "7")) justEnded
      (computeActs.take 2 ++ ingestActs.take 1 ++ computeActs.drop 2 ++ ingestActs.drop 1) :=
    ⟨heeds_of_calm (by decide +kernel), heeds_of_calm (by decide +kernel),
      heeds_of_calm (by decide +kernel), heeds_of_calm (by decide +kernel),
      heeds_of_calm (by decide +kernel), heeds_of_calm (by decide +kernel), trivial⟩
  have returned : ((computeActs.take 2 ++ ingestActs.take 1 ++ computeActs.drop 2 ++
      ingestActs.drop 1).foldl dirtyStep justEnded).calls.entries = [] := by decide +kernel
  have row : justEnded.db.job (lit "7") = some endedJob := by decide +kernel
  refine late_data_told (by decide) justEnded_fresh row (by decide) heeds fun thread => ?_
  rw [Dict.get?_eq_none, returned]
  exact List.not_mem_nil

end Examples

end PerfStats.Metrics
