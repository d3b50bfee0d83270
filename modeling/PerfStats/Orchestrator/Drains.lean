import PerfStats.JobStore.DeadLetters
import PerfStats.JobStore.PayloadRows
import PerfStats.Orchestrator.DayRemainders
import PerfStats.Orchestrator.IngestFill

/-! The drains of finished ingest and append jobs. A job that did not succeed is requeued with a
count in its payload row, until a count reaches its ceiling and it is dead-lettered. -/

namespace PerfStats.Orchestrator

open JobStore JobStore.Store

section Settings

structure DrainConfig extends DiscoverConfig where
  jobMaxAttempts : Nat
  noprogressEscalateAfter : Nat
  cooldowns : Cooldowns
  /-- The daily tar of a raw path. -/
  tarOf : Str → Str
  /-- `calendar_date_from_daily_tar_path`. -/
  tarDay : Str → Option Day
  attempts_pos : 0 < jobMaxAttempts
  escalate_pos : 0 < noprogressEscalateAfter
  attempts_short : (Text.decimalText jobMaxAttempts).length ≤ 4300
  escalate_short : (Text.decimalText noprogressEscalateAfter).length ≤ 4300

inductive OpenTar where
  | absent
  | deferred
  | unreadable
  | readable
deriving DecidableEq

/-- What a drain reads outside of the job store; `none` where a predicate raises. -/
structure DrainView where
  today : Day
  now : ℚ
  /-- Size and `st_mtime_ns` of a file on disk. -/
  stat : Str → Option (Nat × Int)
  active : Str → Bool
  ingestComplete : Str → Option Bool
  appendComplete : Str → Option Bool
  openTar : Str → OpenTar
  /-- The size of the member of a path in its daily tar. -/
  archived : Str → Option Nat
  /-- The write of the sidecar for this job succeeds. -/
  saved : JobKey → Bool
  /-- The quarantine of this file succeeds. -/
  moved : Str → Bool

/-- The store, the dead-letter sidecar and the files quarantined; `requeued` records the requeues of
a job since it last succeeded or was given up and found in the sidecar. -/
structure DrainState where
  store : Store
  deadLetters : List DeadLetter
  quarantined : List Str
  requeued : Lib.Dict JobKey Nat

def DrainState.boot (snapshot : BootStore) (letters : List DeadLetter) : DrainState :=
  ⟨snapshot.store, letters, [], .empty⟩

def attemptField : Str := lit "attempt"

def envDeferField : Str := lit "env_defer"

def timeoutAttemptField : Str := lit "timeout_attempt"

def batchFailField : Str := lit "batch_fail"

def jobKey (job : ClaimedJob) : JobKey := (job.kind, job.identity)

def letterPath (key : JobKey) : Str :=
  if pathFromIngestIdentity key.2 = [] then key.2 else pathFromIngestIdentity key.2

theorem jobKey_nodup {jobs : List ClaimedJob}
    (distinct : (jobs.map ClaimedJob.identity).Nodup) : (jobs.map jobKey).Nodup := by
  refine List.Nodup.of_map Prod.snd ?_
  rw [List.map_map]
  exact distinct

end Settings

section Exits

variable (config : DrainConfig) (view : DrainView)

namespace DrainState

def requeuedOf (state : DrainState) (key : JobKey) : Nat := (state.requeued.get? key).getD 0

def forget (state : DrainState) (key : JobKey) : DrainState :=
  { state with requeued := state.requeued.erase key }

def writeCount (state : DrainState) (key : JobKey) (name : Str) (n : Nat) : DrainState :=
  { state with store := state.store.writeCount key name n }

def requeueJob (state : DrainState) (claim : ClaimedJob) : DrainState :=
  let key := (claim.kind, claim.identity)
  let done := state.store.requeue claim.kind claim.identity claim.ownerToken claim.score
  { state with
    store := done.1
    requeued :=
      if done.2 then state.requeued.set key (state.requeuedOf key + 1) else state.requeued }

def ackJob (state : DrainState) (claim : ClaimedJob) : DrainState :=
  { state with store := (state.store.ack claim.kind claim.identity claim.ownerToken).1 }

def recordDeadLetter (state : DrainState) (key : JobKey) (reason : Str) (attempt : Nat) :
    DrainState :=
  if view.saved key then
    let done := upsertQueueDeadLetter config.cooldowns state.deadLetters key attempt reason view.now
    { state with
      deadLetters := done.1
      quarantined :=
        if done.2.terminal && view.moved (letterPath key) then letterPath key :: state.quarantined
        else state.quarantined
      requeued := if DeadLettered done.1 key then state.requeued.erase key else state.requeued }
  else state

def removeDeadLetter (state : DrainState) (key : JobKey) : DrainState :=
  if view.saved key then
    { state with deadLetters := removeQueueDeadLetter state.deadLetters key }
  else state

def deadLetterClaim (state : DrainState) (claim : ClaimedJob) (reason : Str) (attempt : Nat) :
    DrainState :=
  (state.recordDeadLetter config view (claim.kind, claim.identity) reason attempt).ackJob claim

def retryOrDeadLetter (state : DrainState) (claim : ClaimedJob) (reason : Str) : DrainState :=
  let key := (claim.kind, claim.identity)
  let attempt := state.store.readCount key attemptField + 1
  let state := state.writeCount key attemptField attempt
  if attempt < config.jobMaxAttempts then state.requeueJob claim
  else state.deadLetterClaim config view claim reason attempt

def requeueBoundedWithoutAttemptBump (state : DrainState) (claim : ClaimedJob) (counter : Str)
    (cap : Nat) (reason : Str) : DrainState :=
  let key := (claim.kind, claim.identity)
  let seen := state.store.readCount key counter + 1
  if seen < cap then (state.writeCount key counter seen).requeueJob claim
  else (state.writeCount key counter 0).deadLetterClaim config view claim reason seen

def failAppendBatch (state : DrainState) (tar : Str) (jobs : List ClaimedJob) (reason : Str) :
    DrainState :=
  if jobs = [] then state
  else
    let key := (Kind.append, tar)
    let seen := state.store.readCount key batchFailField + 1
    if seen < config.jobMaxAttempts then
      jobs.foldl requeueJob (state.writeCount key batchFailField seen)
    else
      jobs.foldl (fun state job => state.deadLetterClaim config view job reason seen)
        (state.writeCount key batchFailField 0)

end DrainState

end Exits

section Frames

variable {config : DrainConfig} {view : DrainView}

theorem recordDeadLetter_store (state : DrainState) (key : JobKey) (reason : Str) (attempt : Nat) :
    (state.recordDeadLetter config view key reason attempt).store = state.store := by
  unfold DrainState.recordDeadLetter
  split <;> rfl

theorem deadLetterClaim_store (state : DrainState) (claim : ClaimedJob) (reason : Str)
    (attempt : Nat) : (state.deadLetterClaim config view claim reason attempt).store =
      (state.store.ack claim.kind claim.identity claim.ownerToken).1 := by
  rw [DrainState.deadLetterClaim, DrainState.ackJob, recordDeadLetter_store]

theorem requeueJob_readCount (state : DrainState) (claim : ClaimedJob) (key : JobKey) (name : Str) :
    (state.requeueJob claim).store.readCount key name = state.store.readCount key name := by
  have row : (state.requeueJob claim).store.payloads = state.store.payloads :=
    requeue_payloads _ _ _ _
  rw [Store.readCount, payloadField_congr (congrArg (·.get? key) row), Store.readCount]

end Frames

section HandOver

variable (config : DrainConfig) (view : DrainView)

def appendIsComplete (tar norm : Str) : Option Bool :=
  match view.openTar tar with
  | .readable => (view.stat norm).map fun file => decide (view.archived norm = some file.1)
  | _ => view.appendComplete norm

/-- `classify_closed_raw_path` for the day of a tar; `none` where a predicate raises. -/
def classifyForTar (tar text : Str) (size : Nat) (mtimeNs : Int) : Option ReconstructPlan :=
  let norm := config.normpath text
  let fingerprint := config.fingerprint size mtimeNs
  let day := config.tarDay tar
  if config.skipped norm || view.active norm then some ⟨norm, fingerprint, false, false, day⟩
  else
    match view.ingestComplete norm with
    | none => none
    | some false => some ⟨norm, fingerprint, true, true, day⟩
    -- append follows ingest: the tar is asked only for an ingested file
    | some true =>
      (appendIsComplete view tar norm).map fun done => ⟨norm, fingerprint, false, !done, day⟩

def handOverScore (day : Day) (identity : Str) : Except StoreError Int :=
  let band :=
    if selectIngestBand config.toDiscoverConfig day view.today = .hot then lit "hot"
    else lit "catchup"
  encodeIngestScore config.sha1 band day view.today identity

/-- `enqueue_reconstruct_jobs_for_closed_path`, past the discover cap. -/
def enqueueReconstructJobs (state : DrainState) (plan : ReconstructPlan) : DrainState :=
  if plan.needsIngest then
    if deadLetterBlocked state.deadLetters (.ingest, plan.identity) view.now then state
    else
      match plan.day.map fun day => handOverScore config view day plan.identity with
      | some (.ok score) =>
        let fingerprint := if plan.fingerprint = [] then none else some plan.fingerprint
        { state with
          store := (state.store.zaddIngest plan.identity score fingerprint true
            config.ingestCap).1 }
      | _ => state
  else if plan.needsAppend then
    if deadLetterBlocked state.deadLetters (.append, plan.identity) view.now then state
    else
      { state with
        store := (settle state.store .count
          (state.store.enqueueList .append plan.identity true config.queueCap)).1 }
  else state

def handOverPlan (tar raw : Str) : Option ReconstructPlan :=
  let text := Text.strip raw
  if text = [] then none
  else (view.stat text).bind fun file => classifyForTar config view tar text file.1 file.2

def handoffRetryablePathsToIngest (state : DrainState) (tar : Str) (paths : List Str) :
    DrainState :=
  -- a coordination error of the members store defers the whole batch
  if view.openTar tar = .deferred then state
  else
    paths.foldl (fun state raw =>
      (handOverPlan config view tar raw).elim state (enqueueReconstructJobs config view state)) state

end HandOver

section HandOverCalls

variable {config : DrainConfig} {view : DrainView} {state : DrainState} {K : DrainState → Prop}

def HandOverCall : Call → Prop
  | .zaddIngest _ _ _ overCap _ => overCap = true
  | .enqueueList kind _ dedupe _ => kind = .append ∧ dedupe = true
  | _ => False

theorem enqueueReconstructJobs_kept (start : K state)
    (each : ∀ state call store answer, K state → HandOverCall call →
      state.store.perform 0 call = some (store, answer) → K { state with store := store })
    (plan : ReconstructPlan) : K (enqueueReconstructJobs config view state plan) := by
  unfold enqueueReconstructJobs
  split
  · split
    · exact start
    · split
      · next score _ =>
          exact each state (.zaddIngest plan.identity score
            (if plan.fingerprint = [] then none else some plan.fingerprint) true config.ingestCap)
            _ _ start rfl rfl
      · exact start
  · split
    · split
      · exact start
      · exact each state (.enqueueList .append plan.identity true config.queueCap) _ _ start
          ⟨rfl, rfl⟩ rfl
    · exact start

theorem handoff_kept (start : K state)
    (each : ∀ state call store answer, K state → HandOverCall call →
      state.store.perform 0 call = some (store, answer) → K { state with store := store })
    (tar : Str) (paths : List Str) :
    K (handoffRetryablePathsToIngest config view state tar paths) := by
  unfold handoffRetryablePathsToIngest
  split
  · exact start
  · refine Lib.foldl_kept start fun state raw kept => ?_
    cases handOverPlan config view tar raw with
    | none => exact kept
    | some plan => exact enqueueReconstructJobs_kept kept each plan

end HandOverCalls

section Drains

variable (config : DrainConfig) (view : DrainView)

/-- The exits of `SYNC_TIMEDB_NEGATIVE_STATE_EXITS["ingest_outcome"]`. -/
inductive IngestExit where
  | boundedTimeout
  | envRequeue
  | ackRediscovered
  | retryOrDeadLetter
deriving DecidableEq

def ingestOutcomeExit (outcome : Str) : IngestExit :=
  if outcome = lit "timeout" ∨ outcome = lit "lookup_budget" then .boundedTimeout
  else if outcome = lit "ingest_mark_failed" ∨ outcome = lit "write_failed" ∨
      outcome = lit "ingested" ∨ outcome = lit "restore_deferred" ∨
      outcome = lit "probe_transient" then .envRequeue
  else if outcome = lit "active_segment" then .ackRediscovered
  else .retryOrDeadLetter

/-- What `async_res.get` of an ingest gives: a `TimeoutError`, another exception, a result that is
not `ingest_ok`, or a success whose marks may not be written. -/
inductive IngestOutcome where
  | timedOut (rich : Bool)
  | environment (tag : Str)
  | raised (name : Str)
  | refused (outcome : Str)
  | unmarked
  | succeeded (needArchival : Bool)
deriving DecidableEq

/-- One turn of `_drain_ingest_ready`. -/
def drainIngest (state : DrainState) (claim : ClaimedJob) : IngestOutcome → DrainState
  -- a bare timeout keeps the claim; when its lease expires the reaper requeues it
  | .timedOut false =>
    let key := (claim.kind, claim.identity)
    { state with requeued := state.requeued.set key (state.requeuedOf key + 1) }
  | .timedOut true => state.requeueJob claim
  | .environment tag =>
    state.requeueBoundedWithoutAttemptBump config view claim envDeferField
      config.noprogressEscalateAfter tag
  | .raised name =>
    let state :=
      if name = lit "CodonCopyFailed" then
        { state with
          store := state.store.writeJobPayloadField .ingest claim.identity (lit "emit")
            (lit "insert") }
      else state
    state.retryOrDeadLetter config view claim name
  | .refused outcome =>
    match ingestOutcomeExit outcome with
    | .boundedTimeout =>
      state.requeueBoundedWithoutAttemptBump config view claim timeoutAttemptField
        config.jobMaxAttempts (lit "timeout:" ++ outcome)
    | .ackRediscovered => state.ackJob claim
    | .envRequeue =>
      state.requeueBoundedWithoutAttemptBump config view claim envDeferField
        config.noprogressEscalateAfter (lit "env:" ++ outcome)
    | .retryOrDeadLetter =>
      state.retryOrDeadLetter config view claim
        (if outcome = [] then lit "ingest_incomplete" else outcome)
  | .unmarked => state.retryOrDeadLetter config view claim (lit "ingest_mark_failed")
  | .succeeded needArchival =>
    let path := pathFromIngestIdentity claim.identity
    let store :=
      if needArchival && decide (path ≠ []) then
        (settle state.store .count (state.store.enqueueList .append path true config.queueCap)).1
      else state.store
    (({ state with store := store }.ackJob claim).forget (.ingest, claim.identity)).removeDeadLetter
      view (.ingest, claim.identity)

/-- What `async_res.get` of an append batch gives. -/
inductive AppendResult where
  | raised (name : Str)
  | outcome (ok softRequeue gateSkipped : Bool) (skippedPaths ingestPendingPaths : List Str)
  | flag (done : Bool)
deriving DecidableEq

/-- How the drain takes the result; `archived` has the paths it hands over. -/
inductive AppendVerdict where
  | failed (reason : Str)
  | softRequeue
  | archived (handoffPaths : List Str)
deriving DecidableEq

def AppendResult.verdict : AppendResult → AppendVerdict
  | .raised name => .failed (lit "append_failed:" ++ name)
  | .outcome _ true _ _ _ => .softRequeue
  | .outcome false false false _ _ => .failed (lit "append_failed:ok_false")
  | .outcome _ false true skippedPaths _ => .archived skippedPaths
  | .outcome true false false _ ingestPendingPaths => .archived ingestPendingPaths
  | .flag false => .failed (lit "append_failed:false")
  | .flag true => .archived []

def finishAppend (state : DrainState) (tar : Str) (jobs : List ClaimedJob)
    (handoffPaths : List Str) : DrainState :=
  let state := handoffRetryablePathsToIngest config view state tar handoffPaths
  let state :=
    if state.store.payloadField (.append, tar) batchFailField ≠ [] then
      state.writeCount (.append, tar) batchFailField 0
    else state
  -- the run of failures of the day is over
  let state := { state with
    requeued := state.requeued.filter fun key _ =>
      !decide (key.1 = .append ∧ config.tarOf key.2 = tar) }
  jobs.foldl (fun state job => (state.ackJob job).removeDeadLetter view (.append, job.identity))
    state

/-- One turn of `_drain_append_ready`. -/
def drainAppend (state : DrainState) (tar : Str) (jobs : List ClaimedJob) (result : AppendResult) :
    DrainState :=
  match result.verdict with
  | .failed reason => state.failAppendBatch config view tar jobs reason
  | .softRequeue =>
    jobs.foldl (fun state job => state.requeueBoundedWithoutAttemptBump config view job
      envDeferField config.noprogressEscalateAfter (lit "append_soft_requeue")) state
  | .archived handoffPaths => finishAppend config view state tar jobs handoffPaths

end Drains

end PerfStats.Orchestrator
