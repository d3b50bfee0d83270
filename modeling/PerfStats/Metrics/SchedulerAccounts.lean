import PerfStats.Metrics.SlidingSession

namespace PerfStats.Metrics

open Text
open Lib

section Records

structure SchedulerOutcome where
  jid : Str
  ok : Bool
  metricsOk : Bool
  fallbackFailed : Bool
  failureKind : Option Str
  errorType : Option Str
  errorMessage : Option Str
  backfillLane : Bool
deriving DecidableEq

structure SchedulerStats where
  inflightJids : Nat
  readyDequeuedTotal : Nat
  processed : Nat
  failed : Nat
  attemptedTotal : Nat
  metricsOkTotal : Nat
  prewarmFailedTotal : Int
  perJidFallbackFailuresTotal : Nat
  workerFailedOutcomesTotal : Nat
  parentPersistFailuresTotal : Nat
  backfillQueued : Nat
  backfillInflight : Nat
  backfillDoneTotal : Nat
  stallReason : Str
deriving DecidableEq

/-- The scheduler around one session: the refs that run, the outcomes, those handed to
`_note_job_outcome`, and the jid of the last one. -/
structure SchedulerState where
  readyQueue : List JobRef
  scheduledJids : Finset Str
  backfillInflightJids : Finset Str
  stats : SchedulerStats
  jobRefs : List JobRef
  batchSupplementDequeued : Nat
  recordedJids : Finset Str
  running : List JobRef
  outcomes : List SchedulerOutcome
  noted : List SchedulerOutcome
  justFinished : Option Str
  returned : Bool

def enqueueReadyUnique (state : SchedulerState) (refs : List JobRef) : SchedulerState :=
  refs.foldl (fun state ref =>
    if ref.jid ∈ state.scheduledJids then state
    else
      { state with
        scheduledJids := insert ref.jid state.scheduledJids
        readyQueue := state.readyQueue ++ [ref] }) state

def workerFailureKinds : List Str :=
  [lit "worker_db_error", lit "worker_compute_error", lit "worker_stall_timeout"]

def consumerStallReasons : List Str :=
  [lit "compute_stuck_inflight", lit "compute_all_failed", lit "worker_failed_outcomes",
    lit "parent_persist_failed"]

def clearConsumerStallReason (reason : Str) (batchMetricsOk : Nat) : Str :=
  if 0 < batchMetricsOk ∧ reason ∈ consumerStallReasons then [] else reason

/-- The outcome as `_note_job_outcome` sees it: a backfill slot names its lane. -/
def withLane (state : SchedulerState) (outcome : SchedulerOutcome) : SchedulerOutcome :=
  if outcome.jid ∈ state.backfillInflightJids then { outcome with backfillLane := true }
  else outcome

def countOutcomes (stats : SchedulerStats) (outs : List SchedulerOutcome) : SchedulerStats :=
  let finished := outs.countP SchedulerOutcome.ok
  let metricsOk := outs.countP SchedulerOutcome.metricsOk
  let processed := stats.processed + finished
  let failed := stats.failed + (outs.length - finished)
  { stats with
    processed := processed
    failed := failed
    metricsOkTotal := stats.metricsOkTotal + metricsOk
    prewarmFailedTotal := stats.prewarmFailedTotal + ((metricsOk : Int) - finished)
    stallReason := clearConsumerStallReason stats.stallReason metricsOk
    attemptedTotal := processed + failed
    perJidFallbackFailuresTotal := stats.perJidFallbackFailuresTotal +
      outs.countP SchedulerOutcome.fallbackFailed
    workerFailedOutcomesTotal := stats.workerFailedOutcomesTotal +
      outs.countP fun out => !out.ok && out.failureKind.any workerFailureKinds.contains
    parentPersistFailuresTotal := stats.parentPersistFailuresTotal +
      outs.countP fun out => !out.ok && out.failureKind.any (startsWith (lit "parent_persist"))
    inflightJids := stats.inflightJids - outs.length }

/-- An outcome that is already recorded is passed over. -/
def recordOutcomes (outs : List SchedulerOutcome) (state : SchedulerState) : SchedulerState :=
  let outs := outs.filter fun out => decide (out.jid ∉ state.recordedJids)
  if outs.isEmpty then state
  else
    let jids := (outs.map SchedulerOutcome.jid).toFinset
    let laneDone := outs.countP fun out =>
      decide (out.jid ∈ state.backfillInflightJids) && out.ok
    let backfill := state.backfillInflightJids \ jids
    let stats := { state.stats with
      backfillInflight := backfill.card
      backfillDoneTotal := state.stats.backfillDoneTotal + laneDone }
    { state with
      recordedJids := state.recordedJids ∪ jids
      backfillInflightJids := backfill
      noted := state.noted ++ outs.map (withLane state)
      scheduledJids := state.scheduledJids \ jids
      stats := countOutcomes stats outs }

def closeBatch (state : SchedulerState) : SchedulerState :=
  let recorded := recordOutcomes
    (state.outcomes.mergeSort fun a b => decide (a.jid ≤ b.jid)) state
  let unreported := (state.jobRefs.length + state.batchSupplementDequeued : Int) -
    recorded.recordedJids.card
  let jids := (state.jobRefs.map JobRef.jid).toFinset
  let freed := { recorded with scheduledJids := recorded.scheduledJids \ jids, returned := true }
  if 0 < unreported then
    let backfill := recorded.backfillInflightJids \ jids
    { freed with
      backfillInflightJids := backfill
      stats := { recorded.stats with
        inflightJids := recorded.stats.inflightJids - unreported.toNat
        backfillInflight := backfill.card } }
  else freed

/-- `_on_supplements_taken` and `_note_lane_refs_taken` behind a pop. -/
def noteTaken (taken : List JobRef) (state : SchedulerState) : SchedulerState :=
  let lane := taken.filter JobRef.backfill
  let backfill := state.backfillInflightJids ∪ (lane.map JobRef.jid).toFinset
  { state with
    batchSupplementDequeued := state.batchSupplementDequeued + taken.length
    backfillInflightJids := backfill
    stats := { state.stats with
      readyDequeuedTotal := state.stats.readyDequeuedTotal + taken.length
      inflightJids := state.stats.inflightJids + taken.length
      backfillQueued := state.stats.backfillQueued - lane.length
      backfillInflight :=
        if lane.isEmpty then state.stats.backfillInflight else backfill.card } }

end Records

section Session

structure AttemptEnd where
  ok : Bool
  metricsOk : Bool
  fallbackFailed : Bool
  failureKind : Option Str
  errorType : Option Str
  errorMessage : Option Str

def AttemptEnd.outcome (attempt : AttemptEnd) (jid : Str) : SchedulerOutcome :=
  ⟨jid, attempt.ok, attempt.metricsOk, attempt.fallbackFailed, attempt.failureKind,
    attempt.errorType, attempt.errorMessage, false⟩

inductive SchedulerEvent where
  | enqueue (refs : List JobRef)
  | take (maxN : Nat)
  | finish (index : Nat) (attempt : AttemptEnd)
  | close

def schedulerStep (state : SchedulerState) : SchedulerEvent → SchedulerState
  | .enqueue refs => enqueueReadyUnique { state with justFinished := none } refs
  | .take maxN =>
    if state.returned then { state with justFinished := none }
    else
      let popped := popFreshFirst state.readyQueue maxN
      noteTaken popped.1
        { state with
          readyQueue := popped.2
          running := state.running ++ popped.1
          justFinished := none }
  | .finish index attempt =>
    match state.running[index]? with
    | some ref =>
      let outcome := attempt.outcome ref.jid
      recordOutcomes [outcome]
        { state with
          running := state.running.eraseIdx index
          outcomes := state.outcomes ++ [outcome]
          justFinished := some ref.jid }
    | none => { state with justFinished := none }
  | .close =>
    if state.returned || !state.running.isEmpty then { state with justFinished := none }
    else { closeBatch state with justFinished := none }

/-- The scheduler as a session starts on the refs it popped: every jid is in the queue or among
them once. -/
structure SessionStart where
  queue : List JobRef
  jobRefs : List JobRef
  distinct : ((queue ++ jobRefs).map JobRef.jid).Nodup
  stats : SchedulerStats

def SessionStart.state (start : SessionStart) : SchedulerState where
  readyQueue := start.queue
  scheduledJids := ((start.queue ++ start.jobRefs).map JobRef.jid).toFinset
  backfillInflightJids := ((start.jobRefs.filter JobRef.backfill).map JobRef.jid).toFinset
  stats := { start.stats with inflightJids := start.jobRefs.length }
  jobRefs := start.jobRefs
  batchSupplementDequeued := 0
  recordedJids := ∅
  running := start.jobRefs
  outcomes := []
  noted := []
  justFinished := none
  returned := false

end Session

section Books

def SchedulerOutcome.bare (outcome : SchedulerOutcome) : SchedulerOutcome :=
  { outcome with backfillLane := false }

/-- A finished job is out of all slots as its outcome is recorded, each outcome is noted once, and a
jid is scheduled exactly while it is queued or runs. -/
structure Released (base : SchedulerStats) (state : SchedulerState) : Prop where
  freed : ∀ jid, state.justFinished = some jid →
    jid ∉ state.scheduledJids ∧ jid ∉ state.backfillInflightJids
  inflight : state.stats.inflightJids = state.running.length
  noted : state.noted.map SchedulerOutcome.bare = state.outcomes
  processed : state.stats.processed = base.processed + state.outcomes.countP SchedulerOutcome.ok
  failed : state.stats.failed = base.failed + state.outcomes.countP fun out => !out.ok
  scheduled : ∀ jid, jid ∈ state.scheduledJids ↔
    jid ∈ (state.readyQueue ++ state.running).map JobRef.jid

structure Books (base : SchedulerStats) (state : SchedulerState) : Prop where
  released : Released base state
  distinct : ((state.readyQueue ++ state.running).map JobRef.jid).Nodup
  backfill : ∀ jid ∈ state.backfillInflightJids, jid ∈ state.running.map JobRef.jid
  recorded : ∀ jid, jid ∈ state.recordedJids ↔ jid ∈ state.outcomes.map SchedulerOutcome.jid
  once : (state.outcomes.map SchedulerOutcome.jid).Nodup
  attempts : state.jobRefs.length + state.batchSupplementDequeued =
    state.outcomes.length + state.running.length
  batch : ∀ ref ∈ state.jobRefs, ref.jid ∈ state.outcomes.map SchedulerOutcome.jid ∨
    ref.jid ∈ state.running.map JobRef.jid

def FirstOutcome (state : SchedulerState) : SchedulerEvent → Prop
  | .finish index _ => ∀ ref, state.running[index]? = some ref → ref.jid ∉ state.recordedJids
  | .close => state.returned = false → state.running = [] →
      ∀ ref ∈ state.jobRefs, ref.jid ∉ state.readyQueue.map JobRef.jid
  | _ => True

variable {base : SchedulerStats} {state : SchedulerState}

theorem Books.forget (books : Books base state) : Books base { state with justFinished := none } :=
  ⟨⟨fun jid none_ => (by cases none_), books.released.inflight, books.released.noted,
    books.released.processed, books.released.failed, books.released.scheduled⟩, books.distinct,
    books.backfill, books.recorded, books.once, books.attempts, books.batch⟩

theorem enqueue_books (refs : List JobRef) (books : Books base state)
    (idle : state.justFinished = none) : Books base (enqueueReadyUnique state refs) := by
  induction refs generalizing state with
  | nil => exact books
  | cons ref rest ih =>
    rw [enqueueReadyUnique, List.foldl_cons]
    split
    next => exact ih books idle
    next fresh =>
      have absent := (not_congr (books.released.scheduled ref.jid)).mp fresh
      have moved : ((state.readyQueue ++ [ref]) ++ state.running).Perm
          (ref :: (state.readyQueue ++ state.running)) := by
        rw [List.append_assoc, List.singleton_append]
        exact List.perm_middle
      refine ih ⟨⟨fun jid some_ => ?_, books.released.inflight, books.released.noted,
        books.released.processed, books.released.failed, fun jid => ?_⟩, ?_, books.backfill,
        books.recorded, books.once, books.attempts, books.batch⟩ idle
      · rw [idle] at some_
        cases some_
      · rw [Finset.mem_insert, books.released.scheduled jid, (moved.map JobRef.jid).mem_iff,
          List.map_cons, List.mem_cons]
      · rw [(moved.map JobRef.jid).nodup_iff, List.map_cons, List.nodup_cons]
        exact ⟨absent, books.distinct⟩

theorem take_books (maxN : Nat) (books : Books base state) :
    Books base (noteTaken (popFreshFirst state.readyQueue maxN).1
      { state with
        readyQueue := (popFreshFirst state.readyQueue maxN).2
        running := state.running ++ (popFreshFirst state.readyQueue maxN).1
        justFinished := none }) := by
  have parts := popFreshFirst_perm state.readyQueue maxN
  generalize (popFreshFirst state.readyQueue maxN).1 = taken at parts ⊢
  generalize (popFreshFirst state.readyQueue maxN).2 = rest at parts ⊢
  have moved : (rest ++ (state.running ++ taken)).Perm (state.readyQueue ++ state.running) := by
    have swapped : (rest ++ (state.running ++ taken)).Perm ((taken ++ rest) ++ state.running) := by
      rw [← List.append_assoc]
      refine List.perm_append_comm.trans ?_
      rw [List.append_assoc]
    exact swapped.trans (parts.append_right _)
  refine ⟨⟨fun jid none_ => (by cases none_), ?_, books.released.noted, books.released.processed,
    books.released.failed, fun jid => ?_⟩, ?_, fun jid member => ?_, books.recorded, books.once,
    ?_, fun ref member => ?_⟩
  · simp only [noteTaken, books.released.inflight, List.length_append]
  · exact (books.released.scheduled jid).trans (moved.map JobRef.jid).mem_iff.symm
  · exact ((moved.map JobRef.jid).nodup_iff).mpr books.distinct
  · simp only [noteTaken, List.map_append, List.mem_append]
    rcases Finset.mem_union.mp member with old | new
    · exact .inl (books.backfill jid old)
    · obtain ⟨ref, chosen, rfl⟩ := List.mem_map.mp (List.mem_toFinset.mp new)
      exact .inr (List.mem_map_of_mem (List.mem_of_mem_filter chosen))
  · have := books.attempts
    simp only [noteTaken, List.length_append]
    omega
  · rcases books.batch ref member with done | running
    · exact .inl done
    · refine .inr ?_
      simp only [noteTaken, List.map_append, List.mem_append]
      exact .inl running

theorem record_first {outcome : SchedulerOutcome} (first : outcome.jid ∉ state.recordedJids) :
    recordOutcomes [outcome] state =
      { state with
        recordedJids := state.recordedJids ∪ {outcome.jid}
        backfillInflightJids := state.backfillInflightJids \ {outcome.jid}
        noted := state.noted ++ [withLane state outcome]
        scheduledJids := state.scheduledJids \ {outcome.jid}
        stats := countOutcomes
          { state.stats with
            backfillInflight := (state.backfillInflightJids \ {outcome.jid}).card
            backfillDoneTotal := state.stats.backfillDoneTotal + [outcome].countP fun out =>
              decide (out.jid ∈ state.backfillInflightJids) && out.ok } [outcome] } := by
  simp only [recordOutcomes, List.filter_cons, first, not_false_eq_true, decide_true, if_true,
    List.filter_nil, List.isEmpty_cons, Bool.false_eq_true, if_false, List.map_cons, List.map_nil,
    List.toFinset_cons, List.toFinset_nil, insert_empty_eq]

theorem record_known {outs : List SchedulerOutcome}
    (known : ∀ out ∈ outs, out.jid ∈ state.recordedJids) : recordOutcomes outs state = state := by
  have none_ : (outs.filter fun out => decide (out.jid ∉ state.recordedJids)) = [] := by
    rw [List.filter_eq_nil_iff]
    intro out member
    simp [known out member]
  simp only [recordOutcomes, none_, List.isEmpty_nil, if_true]

theorem bare_withLane (state : SchedulerState) (attempt : AttemptEnd) (jid : Str) :
    (withLane state (attempt.outcome jid)).bare = attempt.outcome jid := by
  unfold withLane
  split <;> rfl

variable {ref : JobRef} (attempt : AttemptEnd)

theorem finish_books {index : Nat} (books : Books base state)
    (found : state.running[index]? = some ref) (first : ref.jid ∉ state.recordedJids) :
    Books base (recordOutcomes [attempt.outcome ref.jid]
      { state with
        running := state.running.eraseIdx index
        outcomes := state.outcomes ++ [attempt.outcome ref.jid]
        justFinished := some ref.jid }) := by
  obtain ⟨bound, here⟩ := List.getElem?_eq_some_iff.mp found
  have parts : (ref :: state.running.eraseIdx index).Perm state.running := by
    rw [← here]
    exact List.getElem_cons_eraseIdx_perm bound
  generalize state.running.eraseIdx index = others at parts ⊢
  have moved : (ref :: (state.readyQueue ++ others)).Perm (state.readyQueue ++ state.running) :=
    List.perm_middle.symm.trans (parts.append_left _)
  have distinct := (moved.map JobRef.jid).nodup_iff.mpr books.distinct
  rw [List.map_cons, List.nodup_cons] at distinct
  have count := parts.length_eq
  rw [List.length_cons] at count
  rw [record_first first]
  refine ⟨⟨fun jid just => ?_, ?_, ?_, ?_, ?_, fun jid => ?_⟩, distinct.2, fun jid member => ?_,
    fun jid => ?_, ?_, ?_, fun other member => ?_⟩
  · cases just
    simp [AttemptEnd.outcome]
  · simp only [countOutcomes, books.released.inflight, List.length_singleton]
    omega
  · simp only [List.map_append, List.map_singleton, books.released.noted, bare_withLane]
  · simp only [countOutcomes, books.released.processed, List.countP_append]
    omega
  · simp only [countOutcomes, books.released.failed, List.countP_append, List.length_singleton,
      List.countP_singleton]
    cases ended : attempt.ok <;> simp [AttemptEnd.outcome, ended, Nat.add_assoc]
  · have before := books.released.scheduled jid
    rw [← (moved.map JobRef.jid).mem_iff, List.map_cons, List.mem_cons] at before
    simp only [Finset.mem_sdiff, Finset.mem_singleton, before, AttemptEnd.outcome]
    constructor
    · rintro ⟨same | there, apart⟩
      · exact absurd same apart
      · exact there
    · intro there
      exact ⟨.inr there, fun same => distinct.1 (same ▸ there)⟩
  · obtain ⟨old, apart⟩ := Finset.mem_sdiff.mp member
    have runs := books.backfill jid old
    rw [← (parts.map JobRef.jid).mem_iff, List.map_cons, List.mem_cons] at runs
    exact runs.resolve_left fun same => apart (Finset.mem_singleton.mpr same)
  · simp only [Finset.mem_union, Finset.mem_singleton, books.recorded jid, List.map_append,
      List.mem_append, List.map_singleton, List.mem_singleton]
  · have unheard : ref.jid ∉ state.outcomes.map SchedulerOutcome.jid := fun member =>
      first ((books.recorded ref.jid).mpr member)
    simp only [List.map_append, List.map_singleton]
    rw [List.nodup_append]
    refine ⟨books.once, List.nodup_singleton _, fun jid old other new same => ?_⟩
    have own : jid = ref.jid := same.trans (List.mem_singleton.mp new)
    exact unheard (own ▸ old)
  · have := books.attempts
    simp only [List.length_append, List.length_singleton]
    omega
  · have runs := books.batch other member
    rw [← (parts.map JobRef.jid).mem_iff, List.map_cons, List.mem_cons] at runs
    simp only [List.map_append, List.map_singleton, List.mem_append, List.mem_singleton]
    rcases runs with done | same | still
    · exact .inl (.inl done)
    · exact .inl (.inr same)
    · exact .inr still

theorem finish_again {index : Nat} (books : Books base state)
    (found : state.running[index]? = some ref) (again : ref.jid ∈ state.recordedJids) :
    ¬Released base (recordOutcomes [attempt.outcome ref.jid]
      { state with
        running := state.running.eraseIdx index
        outcomes := state.outcomes ++ [attempt.outcome ref.jid]
        justFinished := some ref.jid }) := by
  obtain ⟨bound, here⟩ := List.getElem?_eq_some_iff.mp found
  have count := (List.getElem_cons_eraseIdx_perm bound).length_eq
  rw [List.length_cons] at count
  intro released
  rw [record_known fun out member => by cases List.mem_singleton.mp member; exact again] at released
  have before := books.released.inflight
  have after := released.inflight
  simp only at after
  omega

theorem close_eq (books : Books base state) (idle : state.running = []) :
    closeBatch state =
      { state with
        scheduledJids := state.scheduledJids \ (state.jobRefs.map JobRef.jid).toFinset
        returned := true } := by
  have known : recordOutcomes (state.outcomes.mergeSort fun a b => decide (a.jid ≤ b.jid)) state =
      state := by
    refine record_known fun out member => (books.recorded out.jid).mpr ?_
    exact List.mem_map_of_mem (List.mem_mergeSort.mp member)
  have recorded : state.recordedJids = (state.outcomes.map SchedulerOutcome.jid).toFinset := by
    ext jid
    rw [books.recorded jid, List.mem_toFinset]
  have card : state.recordedJids.card = state.outcomes.length := by
    rw [recorded, List.toFinset_card_of_nodup books.once, List.length_map]
  have attempts := books.attempts
  rw [idle, List.length_nil] at attempts
  have settled : ¬(0 : Int) < (state.jobRefs.length + state.batchSupplementDequeued : Int) -
      state.recordedJids.card := by
    omega
  simp only [closeBatch, known, settled, if_false]

theorem close_books (books : Books base state) (idle : state.running = [])
    (settled : ∀ ref ∈ state.jobRefs, ref.jid ∉ state.readyQueue.map JobRef.jid) :
    Books base { closeBatch state with justFinished := none } := by
  rw [close_eq books idle]
  refine ⟨⟨fun jid none_ => (by cases none_), books.released.inflight, books.released.noted,
    books.released.processed, books.released.failed, fun jid => ?_⟩, books.distinct,
    books.backfill, books.recorded, books.once, books.attempts, books.batch⟩
  rw [Finset.mem_sdiff, books.released.scheduled jid]
  refine and_iff_left_of_imp fun there listed => ?_
  obtain ⟨ref, member, rfl⟩ := List.mem_map.mp (List.mem_toFinset.mp listed)
  rw [idle, List.append_nil] at there
  exact settled ref member there

theorem close_early (books : Books base state) (idle : state.running = [])
    (member : ref ∈ state.jobRefs) (queued : ref.jid ∈ state.readyQueue.map JobRef.jid) :
    ¬Released base { closeBatch state with justFinished := none } := by
  intro released
  have scheduled := (released.scheduled ref.jid).mpr (by
    rw [close_eq books idle, List.map_append]
    exact List.mem_append_left _ queued)
  rw [close_eq books idle] at scheduled
  exact (Finset.mem_sdiff.mp scheduled).2
    (List.mem_toFinset.mpr (List.mem_map_of_mem member))

theorem schedulerStep_books (event : SchedulerEvent) (books : Books base state)
    (first : FirstOutcome state event) : Books base (schedulerStep state event) := by
  cases event with
  | enqueue refs => exact enqueue_books refs books.forget rfl
  | take maxN =>
    simp only [schedulerStep]
    split
    · exact books.forget
    · exact take_books maxN books
  | finish index attempt =>
    simp only [schedulerStep]
    split
    next ref found => exact finish_books attempt books found (first ref found)
    next => exact books.forget
  | close =>
    simp only [schedulerStep]
    split
    next => exact books.forget
    next open_ =>
      simp only [Bool.or_eq_true, Bool.not_eq_true', List.isEmpty_eq_false_iff, not_or,
        Bool.not_eq_true, not_not] at open_
      exact close_books books open_.2 (first open_.1 open_.2)

theorem schedulerStep_not_released (event : SchedulerEvent) (books : Books base state)
    (again : ¬FirstOutcome state event) : ¬Released base (schedulerStep state event) := by
  cases event with
  | enqueue refs => exact absurd trivial again
  | take maxN => exact absurd trivial again
  | finish index attempt =>
    simp only [FirstOutcome, not_forall, not_not] at again
    obtain ⟨ref, found, known⟩ := again
    simp only [schedulerStep, found]
    exact finish_again attempt books found known
  | close =>
    simp only [FirstOutcome, not_forall, not_not] at again
    obtain ⟨running, idle, ref, member, queued⟩ := again
    simp only [schedulerStep, running, idle, List.isEmpty_nil, Bool.not_true, Bool.or_false,
      Bool.false_eq_true, if_false]
    exact close_early books idle member queued

theorem start_books (start : SessionStart) : Books start.stats start.state where
  released := by
    refine ⟨fun jid none_ => (by cases none_), rfl, rfl, rfl, rfl, fun jid => ?_⟩
    simp only [SessionStart.state, List.mem_toFinset]
  distinct := start.distinct
  backfill jid member := by
    obtain ⟨ref, chosen, rfl⟩ := List.mem_map.mp (List.mem_toFinset.mp member)
    exact List.mem_map_of_mem (List.mem_of_mem_filter chosen)
  recorded jid := by simp [SessionStart.state]
  once := List.nodup_nil
  attempts := by simp [SessionStart.state]
  batch ref member := .inr (List.mem_map_of_mem member)

/-- Every finished job is released all along exactly the sessions in which no jid has a second
outcome. -/
theorem finished_released_iff (start : SessionStart) (events : List SchedulerEvent) :
    (∀ early later, events = early ++ later →
      Released start.stats (early.foldl schedulerStep start.state)) ↔
    Throughout schedulerStep FirstOutcome start.state events :=
  always_iff (start_books start) (fun _ books => books.released)
    (fun _ event books first => schedulerStep_books event books first)
    fun _ event books again => schedulerStep_not_released event books again

end Books

section Examples

def quietStats : SchedulerStats := ⟨0, 0, 0, 0, 0, 0, 0, 0, 0, 0, 0, 0, 0, []⟩

def oneJob : SessionStart := ⟨[], [oneRef], by decide, quietStats⟩

def failedAttempt : AttemptEnd :=
  ⟨false, false, false, some (lit "worker_db_error"), none, none⟩

def secondAttempt : AttemptEnd := ⟨true, true, false, none, none, none⟩

/-- A job that failed is listed and taken again in the same session, and its second outcome leaves
it scheduled. -/
theorem second_attempt_stays_scheduled :
    ¬∀ early later,
      [.finish 0 failedAttempt, .enqueue [oneRef], .take 1, .finish 0 secondAttempt] =
        early ++ later →
      Released oneJob.stats (early.foldl schedulerStep oneJob.state) := by
  intro always
  have released := always _ [] (List.append_nil _).symm
  have scheduled : oneRef.jid ∈ ([.finish 0 failedAttempt, .enqueue [oneRef], .take 1,
      .finish 0 secondAttempt].foldl schedulerStep oneJob.state).scheduledJids := by
    decide +kernel
  have just : ([.finish 0 failedAttempt, .enqueue [oneRef], .take 1,
      .finish 0 secondAttempt].foldl schedulerStep oneJob.state).justFinished = some oneRef.jid := by
    decide +kernel
  exact (released.freed _ just).1 scheduled

end Examples

end PerfStats.Metrics
