import PerfStats.Orchestrator.Drains

namespace PerfStats.Orchestrator

open JobStore JobStore.Store

section Owners

variable (view : DrainView)

def OnDisk (state : DrainState) (path : Str) : Prop :=
  (view.stat path).isSome = true ∧ path ∉ state.quarantined

def InTar (path : Str) : Prop := ∃ file ∈ view.stat path, view.archived path = some file.1

def Owned (state : DrainState) (identity path : Str) : Prop :=
  OnDisk view state path → InTar view path ∨
    KindHolds state.store .ingest identity ∨ KindHolds state.store .append path ∨
      DeadLettered state.deadLetters (.ingest, identity) ∨
        DeadLettered state.deadLetters (.append, path)

instance (state : DrainState) (path : Str) : Decidable (OnDisk view state path) :=
  inferInstanceAs (Decidable (_ ∧ _))

instance (path : Str) : Decidable (InTar view path) :=
  inferInstanceAs (Decidable (∃ file ∈ view.stat path, _))

instance (store : Store) (kind : Kind) (i : Str) : Decidable (KindHolds store kind i) :=
  decidable_of_iff _ mem_heldList

instance (state : DrainState) (identity path : Str) : Decidable (Owned view state identity path) :=
  inferInstanceAs (Decidable (_ → _))

end Owners

section Leases

def leaseOf (s : Store) (key : JobKey) : Option Inflight := (s.inflight key.1).get? key.2

def Leased (s : Store) (claim : ClaimedJob) : Prop :=
  claim.ownerToken ≠ [] ∧
    (s.ownedEntry claim.kind claim.identity claim.ownerToken).isSome = true

instance (s : Store) (claim : ClaimedJob) : Decidable (Leased s claim) :=
  inferInstanceAs (Decidable (_ ∧ _))

def Sound (s : Store) : Prop := s.Consistent ∧ Tidy .append s

variable {s t : Store} {claim : ClaimedJob} {key : JobKey} {kind : Kind} {i owner : Str}

theorem Leased.congr (same : leaseOf t (jobKey claim) = leaseOf s (jobKey claim))
    (leased : Leased s claim) : Leased t claim := by
  have here : ((leaseOf s (jobKey claim)).filter
      fun entry => decide (entry.owner = claim.ownerToken)).isSome = true := leased.2
  rw [← same] at here
  exact ⟨leased.1, here⟩

theorem release_lease (apart : key ≠ (kind, i)) :
    leaseOf (s.release kind i) key = leaseOf s key := by
  unfold leaseOf release
  dsimp only
  by_cases own : key.1 = kind
  · rw [own, Function.update_self]
    exact Lib.Dict.get?_erase_of_ne _ fun same => apart (Prod.ext own same)
  · rw [Function.update_of_ne own]

theorem ack_lease (apart : key ≠ (kind, i)) :
    leaseOf (s.ack kind i owner).1 key = leaseOf s key := by
  unfold Store.ack
  split
  · rfl
  · split
    · rfl
    · refine Eq.trans ?_ (release_lease apart)
      split <;> rfl

theorem requeue_lease {score : Option ℚ} (apart : key ≠ (kind, i)) :
    leaseOf (s.requeue kind i owner score).1 key = leaseOf s key := by
  unfold Store.requeue
  split
  · rfl
  · split
    · rfl
    · refine Eq.trans ?_ (release_lease apart)
      split
      · change leaseOf ((s.release kind i).ingestSet i (score.getD catchupScoreBase)) key = _
        unfold leaseOf
        rw [ingestSet_inflight]
      · rfl

end Leases

section Turns

variable {config : DrainConfig} {view : DrainView} {state next : DrainState} {claim : ClaimedJob}
  {letter : Option (Str × Nat)} {s : Store}

theorem perform_holds {s t : Store} {fuel : Nat} {call : Call} {answer : Answer} (sound : Sound s)
    (dedupes : call.Dedupes) (done : s.perform fuel call = some (t, answer)) :
    Sound t ∧ ∀ kind i, kind = .ingest ∨ kind = .append → (KindHolds t kind i ↔
      (KindHolds s kind i ∨ entered (call, answer) = some (kind, i)) ∧
        departed (call, answer) ≠ some (kind, i)) :=
  ⟨⟨(perform_ingest sound.1 done).1, (perform_queue (by simp) sound.2 dedupes done).1⟩,
    fun _ i own => (kindHolds_spec sound.1 sound.2 dedupes done own).1 i⟩

theorem ack_accepted (leased : Leased s claim) :
    (s.ack claim.kind claim.identity claim.ownerToken).2 = true := by
  obtain ⟨entry, found⟩ := Option.isSome_iff_exists.mp leased.2
  unfold Store.ack
  rw [if_neg leased.1, found]

def SameSide (state next : DrainState) : Prop :=
  next.deadLetters = state.deadLetters ∧ next.quarantined = state.quarantined

def DrainState.charge (config : DrainConfig) (view : DrainView) (state : DrainState)
    (claim : ClaimedJob) (letter : Option (Str × Nat)) : DrainState :=
  letter.elim state fun letter =>
    state.recordDeadLetter config view (jobKey claim) letter.1 letter.2

theorem SameSide.charge (config : DrainConfig) (view : DrainView) (same : SameSide state next)
    (claim : ClaimedJob) (letter : Option (Str × Nat)) :
    SameSide (state.charge config view claim letter) (next.charge config view claim letter) := by
  cases letter with
  | none => exact same
  | some letter =>
    simp only [DrainState.charge, Option.elim_some, DrainState.recordDeadLetter, same.1, same.2]
    split
    · exact ⟨rfl, rfl⟩
    · exact same

structure Turned (config : DrainConfig) (view : DrainView) (state next : DrainState)
    (claim : ClaimedJob) (letter : Option (Str × Nat)) : Prop where
  side : SameSide (state.charge config view claim letter) next
  sound : Sound state.store → Sound next.store
  holds : Sound state.store → Leased state.store claim →
    ∀ kind i, kind = .ingest ∨ kind = .append → (KindHolds next.store kind i ↔
      KindHolds state.store kind i ∧ ¬(letter.isSome = true ∧ (kind, i) = jobKey claim))
  leases : ∀ key, key ≠ jobKey claim → leaseOf next.store key = leaseOf state.store key
  counts : ∀ key, key ≠ jobKey claim → ∀ name,
    next.store.readCount key name = state.store.readCount key name

theorem requeueJob_holds (sound : Sound state.store) (claim : ClaimedJob) :
    Sound (state.requeueJob claim).store ∧ ∀ kind i, kind = .ingest ∨ kind = .append →
      (KindHolds (state.requeueJob claim).store kind i ↔ KindHolds state.store kind i) := by
  have moved := @perform_holds state.store (state.requeueJob claim).store 0
    (.requeue claim.kind claim.identity claim.ownerToken claim.score) _ sound trivial rfl
  refine ⟨moved.1, fun kind i own => (moved.2 kind i own).trans ?_⟩
  simp [entered, departed]

theorem turned_requeue (state : DrainState) (claim : ClaimedJob) :
    Turned config view state (state.requeueJob claim) claim none where
  side := ⟨rfl, rfl⟩
  sound sound := (requeueJob_holds sound claim).1
  holds sound _ kind i own := by
    have moved := (requeueJob_holds sound claim).2 kind i own
    simpa using moved
  leases key apart := requeue_lease apart
  counts key _ := requeueJob_readCount state claim key

theorem ack_holds (sound : Sound s) (claim : ClaimedJob) :
    Sound (s.ack claim.kind claim.identity claim.ownerToken).1 ∧ (Leased s claim →
      ∀ kind i, kind = .ingest ∨ kind = .append →
        (KindHolds (s.ack claim.kind claim.identity claim.ownerToken).1 kind i ↔
          KindHolds s kind i ∧ (kind, i) ≠ jobKey claim)) := by
  have moved := @perform_holds s (s.ack claim.kind claim.identity claim.ownerToken).1 0
    (.ack claim.kind claim.identity claim.ownerToken)
    (.flag (s.ack claim.kind claim.identity claim.ownerToken).2) sound trivial rfl
  refine ⟨moved.1, fun leased kind i own => (moved.2 kind i own).trans ?_⟩
  rw [ack_accepted leased]
  simp [entered, departed, jobKey, eq_comm]

theorem turned_letter (state : DrainState) (claim : ClaimedJob) (reason : Str) (attempt : Nat) :
    Turned config view state (state.deadLetterClaim config view claim reason attempt) claim
      (some (reason, attempt)) := by
  have store := @deadLetterClaim_store config view state claim reason attempt
  constructor
  case side => exact ⟨rfl, rfl⟩
  case sound =>
    intro sound
    rw [store]
    exact (ack_holds sound claim).1
  case holds =>
    intro sound leased kind i asked
    rw [store, (ack_holds sound claim).2 leased kind i asked]
    simp
  case leases =>
    intro key apart
    rw [store]
    exact ack_lease apart
  case counts =>
    intro key apart name
    have row := @ack_payloads state.store key claim.kind claim.identity claim.ownerToken
      fun _ => apart
    rw [store, Store.readCount, payloadField_congr row, Store.readCount]

theorem writeField_holds (sound : Sound s) (key : JobKey) (name value : Str) :
    Sound (s.writeJobPayloadField key.1 key.2 name value) ∧
      ∀ kind i, kind = .ingest ∨ kind = .append →
        (KindHolds (s.writeJobPayloadField key.1 key.2 name value) kind i ↔ KindHolds s kind i) := by
  have moved := @perform_holds s (s.writeJobPayloadField key.1 key.2 name value) 0
    (.writeJobPayloadField key.1 key.2 name value) _ sound trivial rfl
  refine ⟨moved.1, fun kind i own => (moved.2 kind i own).trans ?_⟩
  simp [entered, departed]

theorem writeField_lease (key other : JobKey) (name value : Str) :
    leaseOf (s.writeJobPayloadField key.1 key.2 name value) other = leaseOf s other := by
  unfold leaseOf
  rw [writeJobPayloadField_inflight]

theorem writeField_count {key other : JobKey} {name field : Str} (value : Str)
    (apart : ¬(other = key ∧ field = name)) :
    (s.writeJobPayloadField key.1 key.2 name value).readCount other field =
      s.readCount other field := by
  have same : (s.writeJobPayloadField key.1 key.2 name value).payloadField other field =
      s.payloadField other field := by
    rw [payloadField, writeJobPayloadField_payloads]
    exact setPayloadField_other value apart
  rw [Store.readCount, same, Store.readCount]

theorem Turned.write {written : DrainState} {name value : Str}
    (turned : Turned config view written next claim letter) (side : SameSide state written)
    (store : written.store =
      state.store.writeJobPayloadField (jobKey claim).1 (jobKey claim).2 name value) :
    Turned config view state next claim letter := by
  constructor
  case side =>
    have charged := side.charge config view claim letter
    exact ⟨turned.side.1.trans charged.1, turned.side.2.trans charged.2⟩
  case sound =>
    intro sound
    refine turned.sound ?_
    rw [store]
    exact (writeField_holds sound (jobKey claim) name value).1
  case holds =>
    intro sound leased kind i own
    obtain ⟨still, same⟩ := writeField_holds sound (jobKey claim) name value
    have held := leased.congr (writeField_lease (jobKey claim) (jobKey claim) name value)
    rw [← store] at still same held
    rw [turned.holds still held kind i own, same kind i own]
  case leases =>
    intro key apart
    rw [turned.leases key apart, store]
    exact writeField_lease (jobKey claim) key name value
  case counts =>
    intro key apart field
    rw [turned.counts key apart field, store]
    exact writeField_count value fun same => apart same.1

end Turns

section Counted

variable {config : DrainConfig} {view : DrainView} {state : DrainState} {claim : ClaimedJob}

def letterAt (s : Store) (claim : ClaimedJob) (counter : Str) (cap : Nat) (reason : Str) :
    Option (Str × Nat) :=
  let seen := s.readCount (jobKey claim) counter + 1
  if seen < cap then none else some (reason, seen)

theorem requeueBounded_turned (state : DrainState) (counter : Str) (cap : Nat) (reason : Str) :
    Turned config view state
      (state.requeueBoundedWithoutAttemptBump config view claim counter cap reason) claim
      (letterAt state.store claim counter cap reason) := by
  unfold DrainState.requeueBoundedWithoutAttemptBump letterAt
  by_cases below : state.store.readCount (jobKey claim) counter + 1 < cap
  · rw [if_pos below]
    exact (if_pos below).symm ▸ (turned_requeue _ claim).write ⟨rfl, rfl⟩ rfl
  · rw [if_neg below]
    exact (if_neg below).symm ▸ (turned_letter _ claim reason _).write ⟨rfl, rfl⟩ rfl

theorem retryOrDeadLetter_turned (state : DrainState) (reason : Str) :
    Turned config view state (state.retryOrDeadLetter config view claim reason) claim
      (letterAt state.store claim attemptField config.jobMaxAttempts reason) := by
  unfold DrainState.retryOrDeadLetter letterAt
  by_cases below : state.store.readCount (jobKey claim) attemptField + 1 < config.jobMaxAttempts
  · rw [if_pos below]
    exact (if_pos below).symm ▸ (turned_requeue _ claim).write ⟨rfl, rfl⟩ rfl
  · rw [if_neg below]
    exact (if_neg below).symm ▸ (turned_letter _ claim reason _).write ⟨rfl, rfl⟩ rfl

end Counted

section Batches

variable {config : DrainConfig} {view : DrainView} {state next : DrainState} {claim : ClaimedJob}
  {jobs : List ClaimedJob}

def DrainState.chargeAll (config : DrainConfig) (view : DrainView) (state : DrainState)
    (letter : ClaimedJob → Option (Str × Nat)) (jobs : List ClaimedJob) : DrainState :=
  jobs.foldl (fun state job => state.charge config view job (letter job)) state

theorem chargeAll_side (config : DrainConfig) (view : DrainView)
    {letter other : ClaimedJob → Option (Str × Nat)}
    (same : SameSide state next) (agree : ∀ job ∈ jobs, other job = letter job) :
    SameSide (state.chargeAll config view letter jobs) (next.chargeAll config view other jobs) := by
  induction jobs generalizing state next with
  | nil => exact same
  | cons job rest ih =>
    have head := same.charge config view job (letter job)
    rw [← agree job (.head _)] at head
    have rest := ih head fun job member => agree job (.tail _ member)
    simpa only [DrainState.chargeAll, List.foldl_cons, agree job (.head _)] using rest

theorem leased_held {s : Store} (leased : Leased s claim) :
    KindHolds s claim.kind claim.identity := by
  have entry : ((s.inflight claim.kind).get? claim.identity).isSome = true := by
    obtain ⟨entry, found⟩ := Option.isSome_iff_exists.mp leased.2
    rw [(ownedEntry_claimed found).1]
    rfl
  unfold KindHolds
  split
  · next ingest =>
      rw [ingest] at entry
      exact .inr entry
  · exact .inr entry

theorem turnAll {turn : DrainState → ClaimedJob → DrainState}
    {letter : Store → ClaimedJob → Option (Str × Nat)}
    (each : ∀ state job, Turned config view state (turn state job) job (letter state.store job))
    (stable : ∀ s t job, (∀ name, t.readCount (jobKey job) name = s.readCount (jobKey job) name) →
      letter t job = letter s job)
    (distinct : (jobs.map jobKey).Nodup) (sound : Sound state.store)
    (leased : ∀ job ∈ jobs, Leased state.store job) :
    SameSide (state.chargeAll config view (letter state.store) jobs) (jobs.foldl turn state) ∧
      ∀ kind i, kind = .ingest ∨ kind = .append →
        (KindHolds (jobs.foldl turn state).store kind i ↔ KindHolds state.store kind i ∧
          ¬∃ job ∈ jobs, (letter state.store job).isSome = true ∧ (kind, i) = jobKey job) := by
  induction jobs generalizing state with
  | nil => exact ⟨⟨rfl, rfl⟩, fun kind i _ => by simp⟩
  | cons job rest ih =>
    obtain ⟨fresh, distinct⟩ := List.nodup_cons.mp distinct
    have turned := each state job
    have apart : ∀ other ∈ rest, jobKey other ≠ jobKey job := fun other member same =>
      fresh (List.mem_map.mpr ⟨other, member, same⟩)
    have same : ∀ other ∈ rest,
        letter (turn state job).store other = letter state.store other :=
      fun other member => stable _ _ other fun name =>
        turned.counts _ (apart other member) name
    obtain ⟨side, holds⟩ := ih distinct (turned.sound sound) fun other member =>
      (leased other (.tail _ member)).congr
        (turned.leases _ (apart other member))
    constructor
    · have charged := chargeAll_side config view turned.side same
      exact ⟨side.1.trans charged.1, side.2.trans charged.2⟩
    · intro kind i own
      rw [List.foldl_cons, holds kind i own,
        turned.holds sound (leased job (.head _)) kind i own, and_assoc, ← not_or]
      have moved : (∃ other ∈ rest, (letter (turn state job).store other).isSome = true ∧
          (kind, i) = jobKey other) ↔ ∃ other ∈ rest,
            (letter state.store other).isSome = true ∧ (kind, i) = jobKey other := by
        constructor
        · rintro ⟨other, member, some_, is⟩
          exact ⟨other, member, same other member ▸ some_, is⟩
        · rintro ⟨other, member, some_, is⟩
          exact ⟨other, member, (same other member).symm ▸ some_, is⟩
      rw [moved, List.exists_mem_cons_iff]

end Batches

section Finished

def jobPath (job : ClaimedJob) : Str :=
  if job.kind = .ingest then pathFromIngestIdentity job.identity else job.identity

/-- A finished ingest whose file belongs in the archive: all but a success without archival, and a
file still live. -/
def IngestOutcome.NeedsArchival : IngestOutcome → Prop
  | .succeeded needArchival => needArchival = true
  | .refused outcome => ingestOutcomeExit outcome ≠ .ackRediscovered
  | _ => True

structure AppendBatch (s : Store) where
  tar : Str
  jobs : List ClaimedJob
  kind : ∀ job ∈ jobs, job.kind = .append
  distinct : (jobs.map ClaimedJob.identity).Nodup
  leased : ∀ job ∈ jobs, Leased s job

structure IngestJob (s : Store) where
  claim : ClaimedJob
  kind : claim.kind = .ingest
  leased : Leased s claim

inductive Finished (s : Store) where
  | ingest (job : IngestJob s) (outcome : IngestOutcome) (needs : outcome.NeedsArchival)
  | append (batch : AppendBatch s) (result : AppendResult)

variable (config : DrainConfig) (view : DrainView) {s : Store}

def Finished.jobs : Finished s → List ClaimedJob
  | .ingest job _ _ => [job.claim]
  | .append batch _ => batch.jobs

def Finished.drain (finished : Finished s) (state : DrainState) : DrainState :=
  match finished with
  | .ingest job outcome _ => drainIngest config view state job.claim outcome
  | .append batch result => drainAppend config view state batch.tar batch.jobs result

def ingestLetter (s : Store) (claim : ClaimedJob) : IngestOutcome → Option (Str × Nat)
  | .environment tag => letterAt s claim envDeferField config.noprogressEscalateAfter tag
  | .raised name => letterAt s claim attemptField config.jobMaxAttempts name
  | .refused outcome =>
    match ingestOutcomeExit outcome with
    | .boundedTimeout => letterAt s claim timeoutAttemptField config.jobMaxAttempts
        (lit "timeout:" ++ outcome)
    | .envRequeue => letterAt s claim envDeferField config.noprogressEscalateAfter
        (lit "env:" ++ outcome)
    | .ackRediscovered => none
    | .retryOrDeadLetter => letterAt s claim attemptField config.jobMaxAttempts
        (if outcome = [] then lit "ingest_incomplete" else outcome)
  | .unmarked => letterAt s claim attemptField config.jobMaxAttempts (lit "ingest_mark_failed")
  | _ => none

def batchLetter (s : Store) (tar reason : Str) : Option (Str × Nat) :=
  let seen := s.readCount (.append, tar) batchFailField + 1
  if seen < config.jobMaxAttempts then none else some (reason, seen)

/-- The dead letters of what did not succeed; `none` for an archived batch or an ingest that
succeeded. -/
def Finished.letters (finished : Finished s) : Option (ClaimedJob → Option (Str × Nat)) :=
  match finished with
  | .ingest _ (.succeeded _) _ => none
  | .ingest _ outcome _ => some fun claim => ingestLetter config s claim outcome
  | .append batch result =>
    match result.verdict with
    | .failed reason => some fun _ => batchLetter config s batch.tar reason
    | .softRequeue => some fun job => letterAt s job envDeferField
        config.noprogressEscalateAfter (lit "append_soft_requeue")
    | .archived _ => none

def Lettered (state : DrainState) (job : ClaimedJob) : Prop :=
  DeadLettered state.deadLetters (.ingest, job.identity) ∨
    DeadLettered state.deadLetters (.append, jobPath job) ∨ jobPath job ∈ state.quarantined

def MovedAway (letters : List DeadLetter) (job : ClaimedJob) (letter : Str × Nat) : Prop :=
  view.saved (jobKey job) = true ∧
    (nextDeadLetter config.cooldowns (letters.find? (isDeadLetter (jobKey job))) (jobKey job)
      letter.2 letter.1 view.now).terminal = true ∧ view.moved (letterPath (jobKey job)) = true

/-- A job that is given up has its entry: where the sidecar has room, it held one or is written. At
the bound its trims decide. -/
def LetterKept (s : Store) (letters : List DeadLetter) (letter : ClaimedJob → Option (Str × Nat))
    (jobs : List ClaimedJob) (job : ClaimedJob) : Prop :=
  if letters.length + jobs.length ≤ deadLetterMaxEntries then
    DeadLettered letters (.ingest, job.identity) ∨ DeadLettered letters (.append, jobPath job) ∨
      view.saved (jobKey job) = true ∨ ∃ other ∈ jobs, ∃ given ∈ letter other,
        MovedAway config view letters other given ∧ letterPath (jobKey other) = jobPath job
  else Lettered (DrainState.chargeAll config view ⟨s, letters, [], .empty⟩ letter jobs) job

def Unremoved (letters : List DeadLetter) (key : JobKey) : Prop :=
  DeadLettered letters key ∧ ¬(view.saved key = true ∧ key.2 ≠ [])

/-- A path of the hand-over becomes an ingest job: on disk, not ingested, no predicate raises, and
its tar names a day and is not busy. -/
def TakenByIngest (tar : Str) (paths : List Str) (identity : Str) : Prop :=
  view.openTar tar ≠ .deferred ∧ ∃ raw ∈ paths, ∃ plan ∈ handOverPlan config view tar raw,
    plan.needsIngest = true ∧ plan.day.isSome = true ∧ plan.identity = identity

def OtherQueue (s : Store) (job : ClaimedJob) : Prop :=
  if job.kind = .ingest then KindHolds s .append (jobPath job) else KindHolds s .ingest job.identity

/-- The path of the job keeps an owner: it is not on disk, in its tar, in the other queue, or the
drain sees to it before the job leaves. -/
def Finished.Keeps (letters : List DeadLetter) (finished : Finished s) (job : ClaimedJob) : Prop :=
  view.stat (jobPath job) = none ∨ InTar view (jobPath job) ∨ OtherQueue s job ∨
    match finished.letters config with
    | some letter => letter job = none ∨ LetterKept config view s letters letter finished.jobs job
    | none =>
      match finished with
      | .ingest _ _ _ => (jobPath job ≠ [] ∧ s.hasCapacity .append config.queueCap = true) ∨
          DeadLettered letters (.append, jobPath job) ∨
            Unremoved view letters (.ingest, job.identity)
      | .append batch result => DeadLettered letters (.ingest, job.identity) ∨
          Unremoved view letters (.append, job.identity) ∨
            ∃ paths, result.verdict = .archived paths ∧
              TakenByIngest config view batch.tar paths job.identity

end Finished

section Exactness

variable {config : DrainConfig} {view : DrainView} {state after : DrainState}
  {letters : List DeadLetter} {jobs : List ClaimedJob} {job : ClaimedJob}
  {letter : ClaimedJob → Option (Str × Nat)} {given : Option (Str × Nat)} {kind : Kind}

/-- Behind the drain of a batch that did not succeed: its dead letters are written, and only the
jobs that got one have left. -/
structure Settled (config : DrainConfig) (view : DrainView) (state after : DrainState)
    (jobs : List ClaimedJob) (letter : ClaimedJob → Option (Str × Nat)) : Prop where
  side : SameSide (state.chargeAll config view letter jobs) after
  holds : ∀ kind i, kind = .ingest ∨ kind = .append → (KindHolds after.store kind i ↔
    KindHolds state.store kind i ∧
      ¬∃ job ∈ jobs, (letter job).isSome = true ∧ (kind, i) = jobKey job)

theorem Settled.from {written : DrainState}
    (settled : Settled config view written after jobs letter)
    (side : SameSide state written) (holds : ∀ kind i, kind = .ingest ∨ kind = .append →
      (KindHolds written.store kind i ↔ KindHolds state.store kind i)) :
    Settled config view state after jobs letter where
  side :=
    have charged : SameSide (state.chargeAll config view letter jobs)
        (written.chargeAll config view letter jobs) := chargeAll_side config view side fun _ _ => rfl
    ⟨settled.side.1.trans charged.1, settled.side.2.trans charged.2⟩
  holds kind i own := by rw [settled.holds kind i own, holds kind i own]

theorem Turned.settled {next : DrainState} {claim : ClaimedJob}
    (turned : Turned config view state next claim (letter claim)) (sound : Sound state.store)
    (leased : Leased state.store claim) : Settled config view state next [claim] letter where
  side := turned.side
  holds kind i own := by
    rw [turned.holds sound leased kind i own]
    simp

theorem Settled.owned (settled : Settled config view state after jobs letter)
    (kinds : ∀ job ∈ jobs, job.kind = kind) (own : kind = .ingest ∨ kind = .append)
    (distinct : (jobs.map jobKey).Nodup) (leased : ∀ job ∈ jobs, Leased state.store job)
    (member : job ∈ jobs) :
    Owned view after job.identity (jobPath job) ↔
      view.stat (jobPath job) = none ∨ InTar view (jobPath job) ∨ OtherQueue state.store job ∨
        letter job = none ∨ Lettered (state.chargeAll config view letter jobs) job := by
  have stays : KindHolds after.store job.kind job.identity ↔ letter job = none := by
    rw [settled.holds _ _ (kinds job member ▸ own), ← Option.not_isSome_iff_eq_none]
    refine ⟨fun held some_ => held.2 ⟨job, member, some_, rfl⟩, fun none_ =>
      ⟨leased_held (leased job member), ?_⟩⟩
    rintro ⟨other, inside, some_, same⟩
    exact none_ (List.inj_on_of_nodup_map distinct member inside same ▸ some_)
  have moves : ∀ other i, other = .ingest ∨ other = .append → other ≠ kind →
      (KindHolds after.store other i ↔ KindHolds state.store other i) := by
    intro other i asked apart
    rw [settled.holds other i asked]
    refine and_iff_left ?_
    rintro ⟨job, inside, _, same⟩
    exact apart ((congrArg Prod.fst same).trans (kinds job inside))
  have lettered : Lettered (state.chargeAll config view letter jobs) job ↔
      DeadLettered after.deadLetters (.ingest, job.identity) ∨
        DeadLettered after.deadLetters (.append, jobPath job) ∨
          jobPath job ∈ after.quarantined := by
    rw [Lettered, settled.side.1, settled.side.2]
  have gone : ¬OnDisk view after (jobPath job) ↔
      view.stat (jobPath job) = none ∨ jobPath job ∈ after.quarantined := by
    rw [OnDisk, not_and_or, not_not, Option.not_isSome_iff_eq_none]
  have here := kinds job member
  rw [lettered, Owned, imp_iff_not_or, gone]
  unfold OtherQueue
  rcases own with rfl | rfl
  · rw [if_pos here, moves .append _ (.inr rfl) (by simp)]
    rw [here] at stays
    rw [stays]
    simp only [or_assoc, or_left_comm, or_comm]
  · rw [if_neg (by rw [here]; simp), moves .ingest _ (.inl rfl) (by simp)]
    have path : jobPath job = job.identity := by rw [jobPath, if_neg (by rw [here]; simp)]
    rw [here] at stays
    rw [path, stays]
    simp only [or_assoc, or_left_comm, or_comm]

theorem charge_room (room : state.deadLetters.length < deadLetterMaxEntries)
    (key : JobKey) : DeadLettered (state.charge config view job given).deadLetters key ↔
      DeadLettered state.deadLetters key ∨
        given.isSome = true ∧ view.saved (jobKey job) = true ∧ jobKey job = key := by
  cases given with
  | none => simp [DrainState.charge]
  | some given =>
    simp only [DrainState.charge, Option.elim_some, DrainState.recordDeadLetter]
    split
    · next saved =>
        refine (deadLettered_upsert room).trans (or_congr_right ?_)
        simp [saved, eq_comm]
    · next lost => simp [lost]

theorem charge_moved (path : Str) :
    path ∈ (state.charge config view job given).quarantined ↔ path ∈ state.quarantined ∨
      ∃ letter ∈ given, MovedAway config view state.deadLetters job letter ∧
        letterPath (jobKey job) = path := by
  cases given with
  | none => simp [DrainState.charge]
  | some given =>
    simp only [DrainState.charge, Option.elim_some, DrainState.recordDeadLetter, MovedAway,
      Option.mem_some_iff, exists_eq_left']
    by_cases saved : view.saved (jobKey job) = true
    · rw [if_pos saved]
      rw [and_iff_right saved]
      change _ ↔ _ ∨ ((upsertQueueDeadLetter config.cooldowns state.deadLetters (jobKey job) given.2
        given.1 view.now).2.terminal = true ∧ _) ∧ _
      rw [← Bool.and_eq_true]
      split
      · next moved =>
          rw [and_iff_right moved, List.mem_cons, or_comm]
          exact or_congr_right eq_comm
      · next stays => exact (or_iff_left fun away => stays away.1).symm
    · rw [if_neg saved]
      simp [saved]

theorem charge_find (room : state.deadLetters.length < deadLetterMaxEntries)
    {key : JobKey} (apart : key ≠ jobKey job) :
    (state.charge config view job given).deadLetters.find? (isDeadLetter key) =
      state.deadLetters.find? (isDeadLetter key) := by
  cases given with
  | none => rfl
  | some given =>
    simp only [DrainState.charge, Option.elim_some, DrainState.recordDeadLetter]
    split
    · exact find_upsert room apart
    · rfl

theorem charge_length :
    (state.charge config view job given).deadLetters.length ≤ state.deadLetters.length + 1 := by
  cases given with
  | none => exact Nat.le_succ _
  | some given =>
    simp only [DrainState.charge, Option.elim_some, DrainState.recordDeadLetter]
    split
    · exact upsert_length_le
    · exact Nat.le_succ _

theorem chargeAll_room (distinct : (jobs.map jobKey).Nodup)
    (room : state.deadLetters.length + jobs.length ≤ deadLetterMaxEntries) :
    (∀ key, DeadLettered (state.chargeAll config view letter jobs).deadLetters key ↔
      DeadLettered state.deadLetters key ∨ ∃ job ∈ jobs,
        (letter job).isSome = true ∧ view.saved (jobKey job) = true ∧ jobKey job = key) ∧
    ∀ path, path ∈ (state.chargeAll config view letter jobs).quarantined ↔
      path ∈ state.quarantined ∨ ∃ job ∈ jobs, ∃ given ∈ letter job,
        MovedAway config view state.deadLetters job given ∧ letterPath (jobKey job) = path := by
  induction jobs generalizing state with
  | nil => exact ⟨fun _ => by simp [DrainState.chargeAll], fun _ => by simp [DrainState.chargeAll]⟩
  | cons job rest ih =>
    obtain ⟨fresh, distinct⟩ := List.nodup_cons.mp distinct
    rw [List.length_cons] at room
    have head : state.deadLetters.length < deadLetterMaxEntries := by omega
    have grown := @charge_length config view state job (letter job)
    obtain ⟨held, moved⟩ := @ih (state.charge config view job (letter job)) distinct (by omega)
    refine ⟨fun key => ?_, fun path => ?_⟩
    · refine (held key).trans ?_
      rw [charge_room head, List.exists_mem_cons_iff, or_assoc]
    · refine (moved path).trans ?_
      rw [charge_moved, List.exists_mem_cons_iff, or_assoc]
      -- the prior entry of a later job is the one it had before
      have same : ∀ other ∈ rest, ∀ given, MovedAway config view
          (state.charge config view job (letter job)).deadLetters other given ↔
            MovedAway config view state.deadLetters other given := by
        intro other member given
        have apart : jobKey other ≠ jobKey job := fun is =>
          fresh (List.mem_map.mpr ⟨other, member, is⟩)
        rw [MovedAway, charge_find head apart, MovedAway]
      refine or_congr_right (or_congr_right (exists_congr fun other => ?_))
      refine and_congr_right fun member => exists_congr fun given => ?_
      rw [same other member given]

theorem lettered_of_room {s : Store} (kinds : ∀ job ∈ jobs, job.kind = kind)
    (own : kind = .ingest ∨ kind = .append) (distinct : (jobs.map jobKey).Nodup)
    (member : job ∈ jobs) (given : (letter job).isSome = true) :
    Lettered (DrainState.chargeAll config view ⟨s, letters, [], .empty⟩ letter jobs) job ↔
      LetterKept config view s letters letter jobs job := by
  unfold LetterKept
  split
  · next room =>
      obtain ⟨held, moved⟩ := @chargeAll_room config view ⟨s, letters, [], .empty⟩ jobs letter
        distinct room
      have written : (∃ other ∈ jobs, (letter other).isSome = true ∧
          view.saved (jobKey other) = true ∧ jobKey other = jobKey job) ↔
            view.saved (jobKey job) = true :=
        ⟨fun ⟨_, _, _, saved, same⟩ => same ▸ saved, fun saved => ⟨job, member, given, saved, rfl⟩⟩
      have apart : ∀ other i, other ≠ kind → ¬∃ job ∈ jobs, (letter job).isSome = true ∧
          view.saved (jobKey job) = true ∧ jobKey job = (other, i) := by
        rintro other i differs ⟨job, inside, _, _, same⟩
        exact differs ((congrArg Prod.fst same).symm.trans (kinds job inside))
      have here := kinds job member
      rw [Lettered, held, held, moved]
      rcases own with rfl | rfl
      · have same : (Kind.ingest, job.identity) = jobKey job := by rw [jobKey, here]
        have other := apart .append (jobPath job) (by simp)
        rw [same, written, or_iff_left other]
        simp only [List.not_mem_nil, false_or, or_assoc, or_left_comm]
      · have path : jobPath job = job.identity := by rw [jobPath, if_neg (by rw [here]; simp)]
        have same : (Kind.append, job.identity) = jobKey job := by rw [jobKey, here]
        have other := apart .ingest job.identity (by simp)
        rw [path, same, written, or_iff_left other]
        simp only [List.not_mem_nil, false_or, or_assoc]
  · exact Iff.rfl

theorem Settled.keeps {snapshot : BootStore}
    (settled : Settled config view (.boot snapshot letters) after jobs letter)
    (kinds : ∀ job ∈ jobs, job.kind = kind) (own : kind = .ingest ∨ kind = .append)
    (distinct : (jobs.map jobKey).Nodup) (leased : ∀ job ∈ jobs, Leased snapshot.store job)
    (member : job ∈ jobs) :
    Owned view after job.identity (jobPath job) ↔
      view.stat (jobPath job) = none ∨ InTar view (jobPath job) ∨ OtherQueue snapshot.store job ∨
        letter job = none ∨ LetterKept config view snapshot.store letters letter jobs job := by
  refine (settled.owned kinds own distinct leased member).trans ?_
  refine or_congr_right (or_congr_right (or_congr_right ?_))
  cases given : letter job with
  | none => simp
  | some letter =>
    refine or_congr_right (lettered_of_room kinds own distinct member ?_)
    rw [given]
    rfl

end Exactness

section Cases

variable {config : DrainConfig} {view : DrainView} {state : DrainState}
  {letters : List DeadLetter} {claim : ClaimedJob} {outcome : IngestOutcome}

theorem failAppendBatch_settled (sound : Sound state.store) (batch : AppendBatch state.store)
    (reason : Str) : Settled config view state
      (state.failAppendBatch config view batch.tar batch.jobs reason) batch.jobs
      fun _ => batchLetter config state.store batch.tar reason := by
  unfold DrainState.failAppendBatch
  split
  · next empty =>
      rw [empty]
      exact ⟨⟨rfl, rfl⟩, fun kind i _ => by simp⟩
  · -- the count of the tar is written first; it moves no job
    have folded : ∀ (n : Nat) (turn : DrainState → ClaimedJob → DrainState)
        (letter : Option (Str × Nat)),
        (∀ state job, Turned config view state (turn state job) job letter) →
        Settled config view state (batch.jobs.foldl turn
          (state.writeCount (.append, batch.tar) batchFailField n)) batch.jobs fun _ => letter := by
      intro n turn letter each
      have written := writeField_holds sound (.append, batch.tar) batchFailField (Text.decimalText n)
      obtain ⟨side, holds⟩ := @turnAll config view
        (state.writeCount (.append, batch.tar) batchFailField n) batch.jobs turn
        (fun _ _ => letter) each (fun _ _ _ _ => rfl) (jobKey_nodup batch.distinct) written.1
        fun job member => (batch.leased job member).congr (writeField_lease (.append, batch.tar) _ _ _)
      exact Settled.from ⟨side, holds⟩ ⟨rfl, rfl⟩ written.2
    unfold batchLetter
    dsimp only
    split
    · exact folded _ _ none fun state job => turned_requeue state job
    · exact folded _ _ (some (reason, _)) fun state job => turned_letter state job reason _

theorem softRequeue_settled (sound : Sound state.store) (batch : AppendBatch state.store)
    (counter : Str) (cap : Nat) (reason : Str) : Settled config view state
      (batch.jobs.foldl (fun state job =>
        state.requeueBoundedWithoutAttemptBump config view job counter cap reason) state)
      batch.jobs fun job => letterAt state.store job counter cap reason := by
  obtain ⟨side, holds⟩ := @turnAll config view state batch.jobs
    (fun state job => state.requeueBoundedWithoutAttemptBump config view job counter cap reason)
    (fun s job => letterAt s job counter cap reason)
    (fun state job => requeueBounded_turned state counter cap reason)
    (fun s t job same => by rw [letterAt, letterAt, same]) (jobKey_nodup batch.distinct) sound
    batch.leased
  exact ⟨side, holds⟩

theorem drainIngest_turned (ingest : claim.kind = .ingest) (needs : outcome.NeedsArchival)
    (unsuccessful : ∀ needArchival, outcome ≠ .succeeded needArchival) :
    Turned config view state (drainIngest config view state claim outcome) claim
      (ingestLetter config state.store claim outcome) := by
  cases outcome with
  | timedOut rich =>
    cases rich with
    | true => exact turned_requeue state claim
    | false => exact ⟨⟨rfl, rfl⟩, id, fun _ _ _ _ _ => by simp [ingestLetter, drainIngest],
        fun _ _ => rfl, fun _ _ _ => rfl⟩
  | environment tag => exact requeueBounded_turned state _ _ _
  | raised name =>
    unfold drainIngest
    dsimp only
    split
    · have turned := @retryOrDeadLetter_turned config view claim { state with
        store := state.store.writeJobPayloadField claim.kind claim.identity (lit "emit")
          (lit "insert") } name
      have count : (state.store.writeJobPayloadField claim.kind claim.identity (lit "emit")
          (lit "insert")).readCount (jobKey claim) attemptField =
            state.store.readCount (jobKey claim) attemptField :=
        @writeField_count state.store (jobKey claim) _ _ _ _ fun same =>
          absurd same.2 (by decide)
      rw [letterAt, count] at turned
      rw [← ingest]
      exact turned.write ⟨rfl, rfl⟩ rfl
    · exact retryOrDeadLetter_turned state name
  | refused text =>
    unfold drainIngest ingestLetter
    dsimp only
    cases exit : ingestOutcomeExit text with
    | boundedTimeout => exact requeueBounded_turned state _ _ _
    | ackRediscovered => exact absurd exit needs
    | envRequeue => exact requeueBounded_turned state _ _ _
    | retryOrDeadLetter => exact retryOrDeadLetter_turned state _
  | unmarked => exact retryOrDeadLetter_turned state _
  | succeeded needArchival => exact absurd rfl (unsuccessful needArchival)

end Cases

section Archived

variable {config : DrainConfig} {view : DrainView} {state : DrainState}
  {letters : List DeadLetter} {claim : ClaimedJob} {jobs : List ClaimedJob}

theorem handOverScore_ok (day : Day) (identity : Str) :
    ∃ score, handOverScore config view day identity = .ok score := by
  unfold handOverScore encodeIngestScore
  split <;> exact ⟨_, rfl⟩

theorem zaddIngest_holds {s : Store} (sound : Sound s) (i j : Str) (score : ℚ)
    (fingerprint : Option Str) (cap : Int) :
    (s.zaddIngest i score fingerprint true cap).1.Holds j ↔ s.Holds j ∨ i = j := by
  rw [(zaddIngest_spec sound.1 i score fingerprint true cap).2 j]
  refine or_congr_right' fun absent => and_iff_right_of_imp ?_
  rintro rfl
  have free : ((s.inflight .ingest).get? i).isSome = false :=
    Bool.eq_false_iff.mpr fun claimed => absent (.inr claimed)
  have fresh : (s.ingest.get? i).isSome = false :=
    Bool.eq_false_iff.mpr fun queued => absent (.inl queued)
  simp [zaddIngest, free, fresh]

theorem enqueueReconstructJobs_ingest (sound : Sound state.store) (plan : ReconstructPlan)
    (i : Str) : (enqueueReconstructJobs config view state plan).store.Holds i ↔
      state.store.Holds i ∨ (plan.needsIngest = true ∧ plan.day.isSome = true ∧
        plan.identity = i ∧ deadLetterBlocked state.deadLetters (.ingest, i) view.now = false) := by
  unfold enqueueReconstructJobs
  by_cases needs : plan.needsIngest = true
  · rw [if_pos needs]
    by_cases blocked :
        deadLetterBlocked state.deadLetters (.ingest, plan.identity) view.now = true
    · rw [if_pos blocked]
      refine (or_iff_left ?_).symm
      rintro ⟨_, _, rfl, free⟩
      exact absurd (blocked.symm.trans free) (by decide)
    · rw [if_neg blocked]
      rw [Bool.not_eq_true] at blocked
      cases plan.day with
      | none => simp
      | some day =>
        obtain ⟨score, encoded⟩ := @handOverScore_ok config view day plan.identity
        simp only [Option.map_some, encoded]
        rw [zaddIngest_holds sound]
        refine or_congr_right ⟨?_, fun taken => taken.2.2.1⟩
        rintro rfl
        exact ⟨needs, rfl, rfl, blocked⟩
  · rw [if_neg needs]
    refine Iff.trans ?_ (or_iff_left fun taken => needs taken.1).symm
    split
    · split
      · exact Iff.rfl
      · have moved := @perform_holds state.store _ 0
          (.enqueueList .append plan.identity true config.queueCap) _ sound rfl rfl
        refine (moved.2 .ingest i (.inl rfl)).trans ?_
        have kind : ∀ answer, entered (.enqueueList .append plan.identity true config.queueCap,
            answer) ≠ some (.ingest, i) := by
          intro answer is
          unfold entered at is
          split at is
          · next same => cases same
          · next same =>
              cases same
              cases is
          · cases is
        simp [kind, departed, KindHolds]
    · exact Iff.rfl

theorem handoff_frame (config : DrainConfig) (view : DrainView) (sound : Sound state.store)
    (tar : Str) (paths : List Str) :
    Sound (handoffRetryablePathsToIngest config view state tar paths).store ∧
      SameSide state (handoffRetryablePathsToIngest config view state tar paths) ∧
      ∀ key, leaseOf (handoffRetryablePathsToIngest config view state tar paths).store key =
        leaseOf state.store key := by
  refine handoff_kept (K := fun next => Sound next.store ∧ SameSide state next ∧
    ∀ key, leaseOf next.store key = leaseOf state.store key) ⟨sound, ⟨rfl, rfl⟩, fun _ => rfl⟩
    ?_ tar paths
  intro next call store answer kept allowed done
  cases call with
  | zaddIngest i q fingerprint overCap cap =>
    refine ⟨(@perform_holds _ _ 0 (.zaddIngest i q fingerprint overCap cap) _ kept.1 trivial
      done).1, kept.2.1, fun key => ?_⟩
    have same : (next.store.zaddIngest i q fingerprint overCap cap).1 = store :=
      congrArg Prod.fst (Option.some.inj done)
    rw [← kept.2.2 key, ← same, leaseOf, (zaddIngest_frame q fingerprint overCap cap).2.2, leaseOf]
  | enqueueList kind i dedupe cap =>
    refine ⟨(@perform_holds _ _ 0 (.enqueueList kind i dedupe cap) _ kept.1 allowed.2 done).1,
      kept.2.1, fun key => ?_⟩
    have same : (settle next.store .count (next.store.enqueueList kind i dedupe cap)).1 = store :=
      congrArg Prod.fst (Option.some.inj done)
    have inflight : store.inflight = next.store.inflight := by
      rw [← same, enqueueList]
      split
      · rfl
      · split
        · rfl
        · split <;> rfl
    rw [← kept.2.2 key, leaseOf, inflight, leaseOf]
  | _ => cases allowed

theorem handoff_ingest (sound : Sound state.store) (tar : Str) (paths : List Str) (i : Str) :
    (handoffRetryablePathsToIngest config view state tar paths).store.Holds i ↔
      state.store.Holds i ∨ (TakenByIngest config view tar paths i ∧
        deadLetterBlocked state.deadLetters (.ingest, i) view.now = false) := by
  unfold TakenByIngest
  by_cases busy : view.openTar tar = .deferred
  · rw [handoffRetryablePathsToIngest, if_pos busy]
    simp [busy]
  · induction paths generalizing state with
    | nil => simp [handoffRetryablePathsToIngest]
    | cons raw rest ih =>
      have head : handoffRetryablePathsToIngest config view state tar [raw] =
          (handOverPlan config view tar raw).elim state
            (enqueueReconstructJobs config view state) := by
        rw [handoffRetryablePathsToIngest, if_neg busy]
        rfl
      have tail : handoffRetryablePathsToIngest config view state tar (raw :: rest) =
          handoffRetryablePathsToIngest config view
            (handoffRetryablePathsToIngest config view state tar [raw]) tar rest := by
        rw [head]
        simp only [handoffRetryablePathsToIngest, if_neg busy, List.foldl_cons]
      obtain ⟨still, side, -⟩ := handoff_frame config view sound tar [raw]
      rw [tail, ih still, side.1, head]
      have first : ((handOverPlan config view tar raw).elim state
          (enqueueReconstructJobs config view state)).store.Holds i ↔ state.store.Holds i ∨
            ((∃ plan ∈ handOverPlan config view tar raw, plan.needsIngest = true ∧
              plan.day.isSome = true ∧ plan.identity = i) ∧
              deadLetterBlocked state.deadLetters (.ingest, i) view.now = false) := by
        cases handOverPlan config view tar raw with
        | none => simp
        | some plan =>
          simp only [Option.elim_some, enqueueReconstructJobs_ingest sound, Option.mem_def,
            Option.some.injEq, exists_eq_left', and_assoc]
      rw [first, List.exists_mem_cons_iff]
      simp only [busy, ne_eq, not_false_eq_true, true_and, or_assoc, ← or_and_right]

end Archived

section Result

variable {config : DrainConfig} {view : DrainView} {state : DrainState}
  {letters : List DeadLetter} {claim : ClaimedJob} {jobs : List ClaimedJob}

theorem removeDeadLetter_letters (state : DrainState) (key other : JobKey) :
    DeadLettered (state.removeDeadLetter view key).deadLetters other ↔
      DeadLettered state.deadLetters other ∧
        ¬(other = key ∧ view.saved key = true ∧ key.2 ≠ []) := by
  unfold DrainState.removeDeadLetter
  by_cases saved : view.saved key = true
  · rw [if_pos saved]
    by_cases named : key.2 = []
    · simp [removeQueueDeadLetter, named]
    · simp [deadLettered_remove named, saved, named]
  · rw [if_neg saved]
    simp [saved]

theorem ackAll_leaves (append : ∀ job ∈ jobs, job.kind = .append)
    (distinct : (jobs.map jobKey).Nodup) (sound : Sound state.store)
    (leased : ∀ job ∈ jobs, Leased state.store job) :
    let after := jobs.foldl
      (fun state job => (state.ackJob job).removeDeadLetter view (.append, job.identity)) state
    after.quarantined = state.quarantined ∧
      (∀ kind i, kind = .ingest ∨ kind = .append → (KindHolds after.store kind i ↔
        KindHolds state.store kind i ∧ ∀ job ∈ jobs, (kind, i) ≠ jobKey job)) ∧
      ∀ key, DeadLettered after.deadLetters key ↔ DeadLettered state.deadLetters key ∧
        ∀ job ∈ jobs, ¬(key = jobKey job ∧ view.saved key = true ∧ key.2 ≠ []) := by
  induction jobs generalizing state with
  | nil => exact ⟨rfl, fun _ _ _ => by simp, fun _ => by simp⟩
  | cons job rest ih =>
    obtain ⟨fresh, distinct⟩ := List.nodup_cons.mp distinct
    have key : (Kind.append, job.identity) = jobKey job := by
      rw [jobKey, append job (.head _)]
    have store : ((state.ackJob job).removeDeadLetter view (.append, job.identity)).store =
        (state.store.ack job.kind job.identity job.ownerToken).1 := by
      unfold DrainState.removeDeadLetter
      split <;> rfl
    have quarantined : ((state.ackJob job).removeDeadLetter view
        (.append, job.identity)).quarantined = state.quarantined := by
      unfold DrainState.removeDeadLetter
      split <;> rfl
    obtain ⟨still, left⟩ := ack_holds sound job
    have held : ∀ other ∈ rest, Leased ((state.ackJob job).removeDeadLetter view
        (.append, job.identity)).store other := by
      intro other member
      rw [store]
      refine (leased other (.tail _ member)).congr (ack_lease fun same => ?_)
      exact fresh (List.mem_map.mpr ⟨other, member, same⟩)
    obtain ⟨moved, holds, kept⟩ := ih
      (fun other member => append other (.tail _ member)) distinct
      (store ▸ still) held
    refine ⟨moved.trans quarantined, fun kind i own => ?_, fun other => ?_⟩
    · rw [List.foldl_cons, holds kind i own, store,
        left (leased job (.head _)) kind i own, List.forall_mem_cons, and_assoc]
    · rw [List.foldl_cons, kept other, removeDeadLetter_letters, key, List.forall_mem_cons,
        and_assoc]
      refine and_congr_right fun _ => and_congr_left fun _ => not_congr ?_
      exact and_congr_right fun same => by rw [same]

private theorem owners_agree {absent inTar other taken free left letter unremoved : Prop}
    (gone : ¬left) (blocked : letter ∨ free) :
    (absent ∨ inTar ∨ (other ∨ taken ∧ free) ∨ left ∨ letter ∨ unremoved) ↔
      absent ∨ inTar ∨ other ∨ letter ∨ unremoved ∨ taken := by
  tauto

theorem archived_owned (snapshot : BootStore) (letters : List DeadLetter)
    (batch : AppendBatch snapshot.store) (paths : List Str) {job : ClaimedJob}
    (member : job ∈ batch.jobs) :
    Owned view (finishAppend config view (.boot snapshot letters) batch.tar batch.jobs paths)
        job.identity (jobPath job) ↔
      view.stat (jobPath job) = none ∨ InTar view (jobPath job) ∨
        OtherQueue snapshot.store job ∨ DeadLettered letters (.ingest, job.identity) ∨
          Unremoved view letters (.append, job.identity) ∨
            TakenByIngest config view batch.tar paths job.identity := by
  have sound : Sound (DrainState.boot snapshot letters).store :=
    ⟨snapshot.consistent, snapshot.tidy⟩
  have append := batch.kind job member
  have path : jobPath job = job.identity := by rw [jobPath, if_neg (by rw [append]; simp)]
  obtain ⟨handed, side, leases⟩ := handoff_frame config view sound
    batch.tar paths
  have taken := @handoff_ingest config view _ sound batch.tar paths job.identity
  -- behind the hand-over the count of the tar and the record of the run are reset
  have finish : ∀ next : DrainState, Sound next.store →
      (∀ i, KindHolds next.store .ingest i ↔ KindHolds
        (handoffRetryablePathsToIngest config view (.boot snapshot letters) batch.tar
          paths).store .ingest i) →
      (∀ key, leaseOf next.store key = leaseOf snapshot.store key) →
      next.deadLetters = letters → next.quarantined = [] →
      (Owned view (batch.jobs.foldl (fun state job =>
        (state.ackJob job).removeDeadLetter view (.append, job.identity)) next)
          job.identity (jobPath job) ↔
        view.stat (jobPath job) = none ∨ InTar view (jobPath job) ∨
          OtherQueue snapshot.store job ∨ DeadLettered letters (.ingest, job.identity) ∨
            Unremoved view letters (.append, job.identity) ∨
              TakenByIngest config view batch.tar paths job.identity) := by
    intro next still ingest same unchanged clear
    obtain ⟨quarantined, holds, kept⟩ := @ackAll_leaves view next batch.jobs batch.kind
      (jobKey_nodup batch.distinct) still
      fun job member => (batch.leased job member).congr (same _)
    have gone : ¬KindHolds (batch.jobs.foldl (fun state job =>
        (state.ackJob job).removeDeadLetter view (.append, job.identity)) next).store .append
          job.identity := by
      rw [holds .append _ (.inr rfl)]
      intro held
      exact held.2 job member (by rw [jobKey, append])
    have queue : KindHolds (batch.jobs.foldl (fun state job =>
        (state.ackJob job).removeDeadLetter view (.append, job.identity)) next).store .ingest
          job.identity ↔ OtherQueue snapshot.store job ∨
            (TakenByIngest config view batch.tar paths job.identity ∧
              deadLetterBlocked letters (.ingest, job.identity) view.now = false) := by
      rw [holds .ingest _ (.inl rfl), ingest, OtherQueue, if_neg (by rw [append]; simp)]
      refine (and_iff_left fun other inside is => ?_).trans taken
      have kind := congrArg Prod.fst is
      exact absurd (kind.trans (batch.kind other inside)) (by simp)
    have ingestLetter : DeadLettered (batch.jobs.foldl (fun state job =>
        (state.ackJob job).removeDeadLetter view (.append, job.identity)) next).deadLetters
          (.ingest, job.identity) ↔ DeadLettered letters (.ingest, job.identity) := by
      rw [kept, unchanged]
      refine and_iff_left fun other inside is => ?_
      have kind := congrArg Prod.fst is.1
      exact absurd (kind.trans (batch.kind other inside)) (by simp)
    have appendLetter : DeadLettered (batch.jobs.foldl (fun state job =>
        (state.ackJob job).removeDeadLetter view (.append, job.identity)) next).deadLetters
          (.append, job.identity) ↔ Unremoved view letters (.append, job.identity) := by
      rw [kept, unchanged, Unremoved]
      refine and_congr_right fun _ => ⟨fun all removed => ?_, fun stays other _ is => stays is.2⟩
      exact all job member ⟨by rw [jobKey, append], removed⟩
    have onDisk : ¬OnDisk view (batch.jobs.foldl (fun state job =>
        (state.ackJob job).removeDeadLetter view (.append, job.identity)) next) (jobPath job) ↔
          view.stat (jobPath job) = none := by
      rw [OnDisk, quarantined, clear]
      simp
    -- a blocked ingest job has its entry in the sidecar
    have blocked : DeadLettered letters (.ingest, job.identity) ∨
        deadLetterBlocked letters (.ingest, job.identity) view.now = false := by
      cases is : deadLetterBlocked letters (.ingest, job.identity) view.now with
      | true => exact .inl (deadLettered_of_blocked is)
      | false => exact .inr rfl
    rw [Owned, imp_iff_not_or, onDisk, queue, ingestLetter, path, appendLetter]
    exact owners_agree gone blocked
  unfold finishAppend
  dsimp only
  split
  · obtain ⟨still, same⟩ := writeField_holds handed (.append, batch.tar) batchFailField
      (Text.decimalText 0)
    exact finish _ still (fun i => same .ingest i (.inl rfl))
      (fun key => (writeField_lease (.append, batch.tar) key _ _).trans (leases key)) side.1 side.2
  · exact finish _ handed (fun _ => Iff.rfl) leases side.1 side.2

end Result

section Theorem

variable {config : DrainConfig} {view : DrainView} {state : DrainState}
  {letters : List DeadLetter} {claim : ClaimedJob}

theorem enqueueAppend_holds {s : Store} (sound : Sound s) (path : Str) (cap : Int) :
    KindHolds (settle s .count (s.enqueueList .append path true cap)).1 .append path ↔
      KindHolds s .append path ∨ s.hasCapacity .append cap = true := by
  have listed : decide (path ∈ s.pending .append) = decide (path ∈ s.lists .append) :=
    decide_eq_decide.mpr (sound.2.mirrored path)
  have held : KindHolds s .append path ↔ (decide (path ∈ s.pending .append) ||
      ((s.inflight .append).get? path).isSome) = true := by
    rw [listed, Bool.or_eq_true, decide_eq_true_iff]
    exact Iff.rfl
  rw [held]
  cases here : (decide (path ∈ s.pending .append) || ((s.inflight .append).get? path).isSome) with
  | true =>
    have unchanged : s.enqueueList .append path true cap = .ok (s, 0) := by
      simp [enqueueList, Kind.isList, here]
    rw [unchanged]
    exact iff_of_true (held.mpr here) (.inl rfl)
  | false =>
    cases room : s.hasCapacity .append cap with
    | true =>
      have appended : s.enqueueList .append path true cap =
          .ok (s.listAppend .append path,
            ((s.listAppend .append path).lists .append).length) := by
        simp [enqueueList, Kind.isList, here, room]
      rw [appended]
      refine iff_of_true (.inl ?_) (.inr rfl)
      simp [settle, listAppend, shadowSyncPayload]
    | false =>
      have unchanged : s.enqueueList .append path true cap = .ok (s, 0) := by
        simp [enqueueList, Kind.isList, here, room]
      rw [unchanged]
      have absent := held.not.mpr (by rw [here]; decide)
      simpa [settle] using absent

theorem succeeded_owned (snapshot : BootStore) (letters : List DeadLetter)
    (job : IngestJob snapshot.store) :
    Owned view (drainIngest config view (.boot snapshot letters) job.claim (.succeeded true))
        job.claim.identity (jobPath job.claim) ↔
      view.stat (jobPath job.claim) = none ∨ InTar view (jobPath job.claim) ∨
        OtherQueue snapshot.store job.claim ∨
          (jobPath job.claim ≠ [] ∧ snapshot.store.hasCapacity .append config.queueCap = true) ∨
            DeadLettered letters (.append, jobPath job.claim) ∨
              Unremoved view letters (.ingest, job.claim.identity) := by
  have sound : Sound snapshot.store := ⟨snapshot.consistent, snapshot.tidy⟩
  have path : pathFromIngestIdentity job.claim.identity = jobPath job.claim := by
    rw [jobPath, if_pos job.kind]
  -- what the enqueue does before the acknowledgement
  have finish : ∀ store : Store, Sound store →
      (∀ key, leaseOf store key = leaseOf snapshot.store key) →
      (KindHolds store .append (jobPath job.claim) ↔
        KindHolds snapshot.store .append (jobPath job.claim) ∨ (jobPath job.claim ≠ [] ∧
          snapshot.store.hasCapacity .append config.queueCap = true)) →
      (Owned view ((DrainState.ackJob ⟨store, letters, [], .empty⟩ job.claim).removeDeadLetter view
          (.ingest, job.claim.identity)) job.claim.identity (jobPath job.claim) ↔
        view.stat (jobPath job.claim) = none ∨ InTar view (jobPath job.claim) ∨
          OtherQueue snapshot.store job.claim ∨
            (jobPath job.claim ≠ [] ∧ snapshot.store.hasCapacity .append config.queueCap = true) ∨
              DeadLettered letters (.append, jobPath job.claim) ∨
                Unremoved view letters (.ingest, job.claim.identity)) := by
    intro store still leases append
    have leased : Leased store job.claim := job.leased.congr (leases _)
    have same : ((DrainState.ackJob ⟨store, letters, [], .empty⟩ job.claim).removeDeadLetter view
        (.ingest, job.claim.identity)).store =
          (store.ack job.claim.kind job.claim.identity job.claim.ownerToken).1 := by
      unfold DrainState.removeDeadLetter
      split <;> rfl
    have quarantined : ((DrainState.ackJob ⟨store, letters, [], .empty⟩ job.claim).removeDeadLetter
        view (.ingest, job.claim.identity)).quarantined = [] := by
      unfold DrainState.removeDeadLetter
      split <;> rfl
    have left := (ack_holds still job.claim).2 leased
    have onDisk : ¬OnDisk view ((DrainState.ackJob ⟨store, letters, [], .empty⟩
        job.claim).removeDeadLetter view (.ingest, job.claim.identity)) (jobPath job.claim) ↔
          view.stat (jobPath job.claim) = none := by
      rw [OnDisk, quarantined]
      simp
    rw [Owned, imp_iff_not_or, onDisk, same, left .ingest _ (.inl rfl), left .append _ (.inr rfl),
      append, removeDeadLetter_letters, removeDeadLetter_letters, OtherQueue, if_pos job.kind,
      Unremoved, jobKey, job.kind]
    simp only [ne_eq, not_true_eq_false, and_false, false_or, Prod.mk.injEq, reduceCtorEq,
      false_and, not_false_eq_true, and_true, true_and, or_assoc]
    refine or_congr_right (or_congr_right (or_congr_right (or_congr_right ?_)))
    exact or_comm
  unfold drainIngest
  dsimp only
  rw [path, Bool.true_and]
  by_cases named : jobPath job.claim = []
  · rw [if_neg (by simp [named])]
    exact finish snapshot.store sound (fun _ => rfl) (by simp [named])
  · rw [if_pos (by simp [named])]
    have moved := @perform_holds snapshot.store _ 0
      (.enqueueList .append (jobPath job.claim) true config.queueCap) _ sound rfl rfl
    refine finish _ moved.1 (fun key => ?_) ?_
    · simp only [leaseOf, enqueueList]
      split
      · rfl
      · split
        · rfl
        · split <;> rfl
    · refine (enqueueAppend_holds sound (jobPath job.claim) config.queueCap).trans ?_
      rw [and_iff_right named]

/-- The exact condition: a drain leaves each path of what finished with an owner where the path is
not lost on its way between the queues. -/
theorem drained_paths_owned_iff (config : DrainConfig) (view : DrainView) (snapshot : BootStore)
    (letters : List DeadLetter) (finished : Finished snapshot.store) :
    (∀ job ∈ finished.jobs, Owned view (finished.drain config view (.boot snapshot letters))
        job.identity (jobPath job)) ↔
      ∀ job ∈ finished.jobs, finished.Keeps config view letters job := by
  have sound : Sound (DrainState.boot snapshot letters).store :=
    ⟨snapshot.consistent, snapshot.tidy⟩
  refine forall₂_congr fun job member => ?_
  cases finished with
  | ingest ingest outcome needs =>
    rw [Finished.jobs, List.mem_singleton] at member
    subst member
    by_cases success : ∃ needArchival, outcome = .succeeded needArchival
    · obtain ⟨needArchival, rfl⟩ := success
      have needed : needArchival = true := needs
      subst needed
      exact succeeded_owned snapshot letters ingest
    · have unsuccessful : ∀ needArchival, outcome ≠ .succeeded needArchival :=
        fun needArchival is => success ⟨needArchival, is⟩
      have turned := @drainIngest_turned config view (.boot snapshot letters) ingest.claim outcome
        ingest.kind needs unsuccessful
      have kinds : ∀ job ∈ [ingest.claim], job.kind = .ingest :=
        fun job inside => List.mem_singleton.mp inside ▸ ingest.kind
      have settled := (@Turned.settled config view _ (fun claim =>
        ingestLetter config snapshot.store claim outcome) _ _ turned sound ingest.leased).keeps
          kinds (.inl rfl) (List.nodup_singleton _)
          (fun job inside => List.mem_singleton.mp inside ▸ ingest.leased) (.head _)
      have some_ : Finished.letters config (.ingest ingest outcome needs) =
          some fun claim => ingestLetter config snapshot.store claim outcome := by
        cases outcome with
        | succeeded needArchival => exact absurd rfl (unsuccessful needArchival)
        | _ => rfl
      rw [Finished.Keeps, some_]
      exact settled
  | append batch result =>
    have general : ∀ {after : DrainState} {letter : ClaimedJob → Option (Str × Nat)},
        Settled config view (.boot snapshot letters) after batch.jobs letter → _ :=
      fun settled => settled.keeps batch.kind (.inr rfl) (jobKey_nodup batch.distinct)
        batch.leased member
    unfold Finished.drain drainAppend Finished.Keeps Finished.letters
    dsimp only
    cases verdict : result.verdict with
    | failed reason => exact general (failAppendBatch_settled sound batch reason)
    | softRequeue => exact general (softRequeue_settled sound batch _ _ _)
    | archived paths =>
      rw [archived_owned snapshot letters batch paths member]
      simp

end Theorem

section Lost

def BootStore.perform (snapshot : BootStore) (fuel : Nat) (call : Call) (dedupes : call.Dedupes) :
    BootStore :=
  match done : snapshot.store.perform fuel call with
  | none => snapshot
  | some (store, _) =>
    ⟨store, (perform_ingest snapshot.consistent done).1,
      (perform_queue (by simp) snapshot.tidy dedupes done).1⟩

private def emptyStore : BootStore := ⟨.empty, Store.empty_consistent, tidy_empty .append⟩

private def lostFile : Str := lit "/a/h/1700000000"

private def lostTar : Str := lit "/daily/2023-11-14.tar"

private def claimed : BootStore :=
  (emptyStore.perform 0 (.enqueueList .append lostFile true 1000) rfl).perform 0
    (.claimList .append (lit "w") 60 0) trivial

private def lostJob : ClaimedJob := ⟨.append, lostFile, lit "w", 60, none, [], []⟩

private theorem lostJob_leased : ∀ job ∈ [lostJob], Leased claimed.store job := by
  decide +kernel

private def lostBatch : AppendBatch claimed.store :=
  ⟨lostTar, [lostJob], by simp [lostJob], by simp, lostJob_leased⟩

private theorem ceiling_short : (Text.decimalText 5).length ≤ 4300 := by decide

private theorem five_pos : 0 < 5 := by decide

private theorem november_range' : (1 : Int) ≤ 738839 ∧ (738839 : Int) ≤ lastOrdinal := by decide

private def lostConfig : DrainConfig where
  archiveDir := lit "/a"
  ingestCap := 1000
  queueCap := 1000
  hotDays := 1
  normpath := id
  skipped _ := false
  basenameDate _ := some ⟨738839, november_range'⟩
  startdate := none
  enddate := none
  fingerprint _ _ := []
  sha1 _ := []
  jobMaxAttempts := 5
  noprogressEscalateAfter := 5
  cooldowns := ⟨[3600], [3600]⟩
  tarOf _ := lostTar
  tarDay _ := some ⟨738839, november_range'⟩
  attempts_pos := five_pos
  escalate_pos := five_pos
  attempts_short := ceiling_short
  escalate_short := ceiling_short

private def lostView (openTar : OpenTar) (ingested : Bool) : DrainView where
  today := ⟨738839, november_range'⟩
  now := 0
  stat path := if path = lostFile then some (7, 0) else none
  active _ := false
  ingestComplete _ := some ingested
  appendComplete _ := some false
  openTar _ := openTar
  archived _ := none
  saved _ := true
  moved _ := false

private def gateSkip : Finished claimed.store :=
  .append lostBatch (.outcome false false true [lostFile] [])

/-- A busy tar defers the hand-over; a file whose ingest was marked meanwhile goes to append, where
its own job stands; the job is acknowledged either way. -/
theorem gate_skipped_path_lost :
    (¬Owned (lostView .deferred false)
      (gateSkip.drain lostConfig (lostView .deferred false) (.boot claimed []))
        lostFile lostFile) ∧
      ¬Owned (lostView .readable true)
        (gateSkip.drain lostConfig (lostView .readable true) (.boot claimed []))
          lostFile lostFile := by
  decide +kernel

end Lost

end PerfStats.Orchestrator
