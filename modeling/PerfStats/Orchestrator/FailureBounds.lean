import PerfStats.Orchestrator.Drains

/-! How often a job that keeps failing is requeued before it is dead-lettered: each requeue is paid
for by a counter that stays below its ceiling. -/

namespace PerfStats.Orchestrator

open JobStore JobStore.Store Text
open Lib

section Runs

variable (config : DrainConfig)

inductive FailEvent where
  | call (fuel : Nat) (call : Call)
  | ingest (view : DrainView) (claim : ClaimedJob) (outcome : IngestOutcome)
  | append (view : DrainView) (tar : Str) (jobs : List ClaimedJob) (result : AppendResult)

def failStep (state : DrainState) : FailEvent → DrainState
  | .call fuel call =>
    match state.store.perform fuel call with
    | none => state
    | some (store, _) => { state with store := store }
  | .ingest view claim outcome =>
    drainIngest config view { state with quarantined := [] } claim outcome
  | .append view tar jobs result =>
    drainAppend config view { state with quarantined := [] } tar jobs result

def failRun (snapshot : BootStore) (letters : List DeadLetter) (events : List FailEvent) :
    DrainState :=
  events.foldl (failStep config) (.boot snapshot letters)

end Runs

section Conditions

variable (config : DrainConfig)

/-- A call that leaves the counts of failing jobs alone: none is evicted or acknowledged, no count
of a tar dropped, and only a readmission writes a counter. -/
def CalmCall (state : DrainState) : Call → Prop
  | .persist => ∀ row ∈ state.store.payloads.entries,
      ¬state.store.Live row.1 → state.store.readCount row.1 batchFailField = 0
  | .evictYoungestCatchupIngest day =>
    ∀ i ∈ (state.store.evictYoungestCatchupIngest day).2, state.requeuedOf (.ingest, i) = 0
  | .writeJobPayloadField kind i name _ =>
    name ≠ envDeferField ∧ name ≠ timeoutAttemptField ∧ name ≠ batchFailField ∧
      (name = attemptField → state.requeuedOf (kind, i) = 0)
  | .ack kind i _ => state.requeuedOf (kind, i) = 0 ∧
      (kind = .append → state.store.readCount (kind, i) batchFailField = 0)
  | .enqueueList _ _ dedupe _ => dedupe = true
  | _ => True

def BatchReady (state : DrainState) (tar : Str) (jobs : List ClaimedJob) : Prop :=
  (jobs.map ClaimedJob.identity).Nodup ∧ ∀ job ∈ jobs, job.kind = .append ∧
    config.tarOf job.identity = tar ∧
      state.store.readCount (.append, job.identity) batchFailField = 0

def BatchWhole (state : DrainState) (tar : Str) (jobs : List ClaimedJob) : Prop :=
  config.jobMaxAttempts ≤ state.store.readCount (.append, tar) batchFailField + 1 →
    ∀ row ∈ state.requeued.entries, row.1.1 = .append → config.tarOf row.1.2 = tar →
      0 < row.2 → row.1.2 ∈ jobs.map ClaimedJob.identity

/-- The dead letters of these jobs can be written, and the sidecar has room for them. -/
def LetterRoom (view : DrainView) (state : DrainState) (jobs : List ClaimedJob) : Prop :=
  (∀ job ∈ jobs, view.saved (jobKey job) = true) ∧
    state.deadLetters.length + jobs.length ≤ deadLetterMaxEntries

def IngestOutcome.rediscovered : IngestOutcome → Bool
  | .refused outcome => decide (ingestOutcomeExit outcome = .ackRediscovered)
  | _ => false

def Calm (state : DrainState) : FailEvent → Prop
  | .call _ call => CalmCall state call
  | .ingest view claim outcome =>
    claim.kind = .ingest ∧ (outcome ≠ .timedOut true ∧ outcome ≠ .timedOut false) ∧
      (outcome.rediscovered = true → state.requeuedOf (jobKey claim) = 0) ∧
        LetterRoom view state [claim]
  | .append view tar jobs result => BatchReady config state tar jobs ∧
      ((∃ reason, result.verdict = .failed reason) → BatchWhole config state tar jobs) ∧
        LetterRoom view state jobs

end Conditions

section Counters

structure Counter where
  key : JobKey
  name : Str
  cap : Nat

def countersOf (config : DrainConfig) (key : JobKey) : List Counter :=
  match key.1 with
  | .ingest => [⟨key, attemptField, config.jobMaxAttempts⟩,
      ⟨key, envDeferField, config.noprogressEscalateAfter⟩,
      ⟨key, timeoutAttemptField, config.jobMaxAttempts⟩]
  | .append => [⟨(.append, config.tarOf key.2), batchFailField, config.jobMaxAttempts⟩,
      ⟨key, envDeferField, config.noprogressEscalateAfter⟩]
  | _ => []

def spent (config : DrainConfig) (s : Store) (key : JobKey) : Nat :=
  ((countersOf config key).map fun counter =>
    min (s.readCount counter.key counter.name) (counter.cap - 1)).sum

variable {config : DrainConfig} {s t : Store} {key : JobKey} {counter : Counter}

theorem spent_mono (more : ∀ counter ∈ countersOf config key,
    s.readCount counter.key counter.name ≤ t.readCount counter.key counter.name) :
    spent config s key ≤ spent config t key :=
  List.sum_le_sum fun counter member => min_le_min_right _ (more counter member)

theorem spent_lt (more : ∀ counter ∈ countersOf config key,
    s.readCount counter.key counter.name ≤ t.readCount counter.key counter.name)
    (member : counter ∈ countersOf config key)
    (counted : t.readCount counter.key counter.name =
      s.readCount counter.key counter.name + 1)
    (below : s.readCount counter.key counter.name + 1 < counter.cap) :
    spent config s key + 1 ≤ spent config t key := by
  refine List.sum_lt_sum _ _ (fun counter member => min_le_min_right _ (more counter member))
    ⟨counter, member, ?_⟩
  omega

theorem spent_le (config : DrainConfig) (s : Store) (key : JobKey) :
    spent config s key ≤
      config.jobMaxAttempts + config.noprogressEscalateAfter + config.jobMaxAttempts := by
  obtain ⟨kind, i⟩ := key
  cases kind <;> simp only [spent, countersOf, List.map_cons, List.map_nil, List.sum_cons,
    List.sum_nil] <;> omega

theorem batchFail_apart : attemptField ≠ batchFailField ∧ envDeferField ≠ batchFailField ∧
    timeoutAttemptField ≠ batchFailField := by
  decide

theorem counter_row (member : counter ∈ countersOf config key) :
    counter.key = key ∧ counter.name ≠ batchFailField ∨
      counter.key = (.append, config.tarOf key.2) ∧ counter.name = batchFailField ∧
        key.1 = .append := by
  obtain ⟨attempt, defers, timeout⟩ := batchFail_apart
  obtain ⟨kind, i⟩ := key
  cases kind with
  | ingest =>
    simp only [countersOf, List.mem_cons, List.not_mem_nil, or_false] at member
    rcases member with rfl | rfl | rfl
    · exact .inl ⟨rfl, attempt⟩
    · exact .inl ⟨rfl, defers⟩
    · exact .inl ⟨rfl, timeout⟩
  | append =>
    simp only [countersOf, List.mem_cons, List.not_mem_nil, or_false] at member
    rcases member with rfl | rfl
    · exact .inr ⟨rfl, rfl, rfl⟩
    · exact .inl ⟨rfl, defers⟩
  | discover => cases member
  | dayClose => cases member

theorem counter_cap (member : counter ∈ countersOf config key) :
    (decimalText counter.cap).length ≤ 4300 := by
  obtain ⟨kind, i⟩ := key
  cases kind <;> simp only [countersOf, List.mem_cons, List.not_mem_nil, or_false] at member
  all_goals rcases member with rfl | rfl | rfl <;>
    first | exact config.attempts_short | exact config.escalate_short

theorem decimalText_short {n cap : Nat} (below : n < cap)
    (short : (decimalText cap).length ≤ 4300) : (decimalText n).length ≤ 4300 := by
  rw [decimalText, Nat.length_toDigits_le_iff (by decide) (by decide)] at short ⊢
  exact below.trans short

theorem readCount_le_write {other : JobKey} {name field : Str} {n : Nat}
    (short : (decimalText n).length ≤ 4300) (grows : s.readCount other field ≤ n) :
    s.readCount key name ≤ (s.writeCount other field n).readCount key name := by
  by_cases same : key = other ∧ name = field
  · obtain ⟨rfl, rfl⟩ := same
    rw [readCount_writeCount_self key name short]
    exact grows
  · rw [readCount_writeCount_other n same]

end Counters

section Holding

variable {config : DrainConfig} {state next : DrainState} {claim : ClaimedJob} {job : ClaimedJob}
  {key : JobKey}

structure Holding (state : DrainState) : Prop where
  consistent : state.store.Consistent
  tidy : Tidy .append state.store
  held : ∀ key, 0 < state.requeuedOf key →
    (key.1 = .ingest ∨ key.1 = .append) ∧ KindHolds state.store key.1 key.2

theorem Holding.perform (holding : Holding state) {fuel : Nat} {call : Call} {answer : Answer}
    (dedupes : call.Dedupes) (done : state.store.perform fuel call = some (next.store, answer))
    (requeued : ∀ key, 0 < next.requeuedOf key → departed (call, answer) ≠ some key ∧
      (0 < state.requeuedOf key ∨
        (key.1 = .ingest ∨ key.1 = .append) ∧ KindHolds state.store key.1 key.2)) :
    Holding next where
  consistent := (perform_ingest holding.consistent done).1
  tidy := (perform_queue (by simp) holding.tidy dedupes done).1
  held key positive := by
    obtain ⟨stays, was⟩ := requeued key positive
    have before := was.elim (holding.held key) id
    have spec := kindHolds_spec holding.consistent holding.tidy dedupes done before.1
    exact ⟨before.1, (spec.1 key.2).mpr ⟨.inl before.2, stays⟩⟩

theorem requeuedOf_forget (state : DrainState) (key other : JobKey) :
    (state.forget key).requeuedOf other = if other = key then 0 else state.requeuedOf other := by
  simp only [DrainState.requeuedOf, DrainState.forget, Dict.get?_erase]
  split <;> rfl

theorem Holding.writeCount (holding : Holding state) (key : JobKey) (name : Str) (n : Nat) :
    Holding (state.writeCount key name n) :=
  @Holding.perform state (state.writeCount key name n) holding 0
    (.writeJobPayloadField key.1 key.2 name (decimalText n)) .done trivial rfl
    fun _ positive => ⟨by simp [departed], .inl positive⟩

theorem requeue_held {s : Store} {kind : Kind} {i owner : Str} {score : Option ℚ}
    (accepted : (s.requeue kind i owner score).2 = true) : KindHolds s kind i := by
  have leased : ((s.inflight kind).get? i).isSome = true := by
    unfold requeue at accepted
    split at accepted
    · cases accepted
    · split at accepted
      · cases accepted
      · next entry owned =>
          rw [(ownedEntry_claimed owned).1]
          rfl
  unfold KindHolds
  split
  · next ingest =>
      rw [ingest] at leased
      exact .inr leased
  · exact .inr leased

theorem requeuedOf_requeueJob (state : DrainState) (claim : ClaimedJob) (key : JobKey) :
    (state.requeueJob claim).requeuedOf key =
      if (state.store.requeue claim.kind claim.identity claim.ownerToken claim.score).2 = true ∧
        key = (claim.kind, claim.identity) then state.requeuedOf key + 1
      else state.requeuedOf key := by
  simp only [DrainState.requeuedOf, DrainState.requeueJob]
  by_cases accepted :
      (state.store.requeue claim.kind claim.identity claim.ownerToken claim.score).2 = true
  · rw [if_pos accepted, Dict.get?_set]
    by_cases same : key = (claim.kind, claim.identity)
    · rw [if_pos same, if_pos ⟨accepted, same⟩, same]
      rfl
    · rw [if_neg same, if_neg fun both => same both.2]
  · rw [if_neg accepted, if_neg fun both => accepted both.1]

theorem Holding.requeueJob (holding : Holding state)
    (own : claim.kind = .ingest ∨ claim.kind = .append) : Holding (state.requeueJob claim) := by
  refine @Holding.perform state (state.requeueJob claim) holding 0
    (.requeue claim.kind claim.identity claim.ownerToken claim.score) _ trivial rfl
    fun key positive => ⟨by simp [departed], ?_⟩
  rw [requeuedOf_requeueJob] at positive
  split at positive
  · next both =>
      rw [both.2]
      exact .inr ⟨own, requeue_held both.1⟩
  · exact .inl positive

structure Acked (state next : DrainState) (claim : ClaimedJob) : Prop where
  store : next.store = (state.store.ack claim.kind claim.identity claim.ownerToken).1
  requeued : ∀ key, next.requeuedOf key =
    if key = (claim.kind, claim.identity) then 0 else state.requeuedOf key

theorem ackJob_acked {next : DrainState} (same : next.store = state.store)
    (count : ∀ key, next.requeuedOf key =
      if key = (claim.kind, claim.identity) then 0 else state.requeuedOf key) :
    Acked state (next.ackJob claim) claim :=
  ⟨by rw [← same]; rfl, count⟩

theorem ackJob_acked_idle (idle : state.requeuedOf (claim.kind, claim.identity) = 0) :
    Acked state (state.ackJob claim) claim := by
  refine ackJob_acked rfl fun key => ?_
  split
  · next same => rw [same, idle]
  · rfl

theorem succeeded_acked (state : DrainState) (claim : ClaimedJob) :
    Acked state ((state.ackJob claim).forget (claim.kind, claim.identity)) claim :=
  ⟨rfl, requeuedOf_forget _ _⟩

variable {config : DrainConfig} {view : DrainView} {jobs : List ClaimedJob}

theorem deadLetterClaim_acked (room : LetterRoom view state [claim]) (reason : Str)
    (attempt : Nat) : Acked state (state.deadLetterClaim config view claim reason attempt) claim := by
  have saved : view.saved (claim.kind, claim.identity) = true := room.1 claim (.head _)
  have there : DeadLettered (upsertQueueDeadLetter config.cooldowns state.deadLetters
      (claim.kind, claim.identity) attempt reason view.now).1 (claim.kind, claim.identity) :=
    (deadLettered_upsert room.2).mpr (.inr rfl)
  unfold DrainState.deadLetterClaim DrainState.recordDeadLetter
  rw [if_pos saved]
  refine ackJob_acked rfl fun key => ?_
  rw [← requeuedOf_forget, DrainState.requeuedOf]
  dsimp only
  rw [if_pos there]
  rfl

theorem deadLetterClaim_room (room : LetterRoom view state (job :: jobs))
    (reason : Str) (attempt : Nat) :
    LetterRoom view (state.deadLetterClaim config view job reason attempt) jobs := by
  refine ⟨fun other member => room.1 other (.tail _ member), ?_⟩
  have bound := room.2
  rw [List.length_cons] at bound
  unfold DrainState.deadLetterClaim DrainState.recordDeadLetter
  split
  · have grown := @upsert_length_le config.cooldowns state.deadLetters (job.kind, job.identity)
      attempt reason view.now
    exact (Nat.add_le_add_right grown _).trans (by omega)
  · exact (Nat.le_succ _).trans bound

theorem LetterRoom.write (room : LetterRoom view state jobs) (key : JobKey) (name : Str) (n : Nat) :
    LetterRoom view (state.writeCount key name n) jobs := room

theorem LetterRoom.requeue (room : LetterRoom view state jobs) (job : ClaimedJob) :
    LetterRoom view (state.requeueJob job) jobs := room

theorem LetterRoom.head (room : LetterRoom view state (job :: jobs)) :
    LetterRoom view state [job] := by
  refine ⟨fun other member => ?_, ?_⟩
  · rw [List.mem_singleton.mp member]
    exact room.1 job (.head _)
  · have bound := room.2
    rw [List.length_cons] at bound
    rw [List.length_singleton]
    omega

theorem LetterRoom.tail (room : LetterRoom view state (job :: jobs)) :
    LetterRoom view state jobs := by
  refine ⟨fun other member => room.1 other (.tail _ member), ?_⟩
  have bound := room.2
  rw [List.length_cons] at bound
  omega

theorem removeDeadLetter_acked (view : DrainView) (key : JobKey)
    (acked : Acked state next claim) : Acked state (next.removeDeadLetter view key) claim := by
  unfold DrainState.removeDeadLetter
  split <;> exact ⟨acked.store, acked.requeued⟩

theorem departed_ack {kind : Kind} {i owner : Str} {answer : Answer}
    (gone : departed (.ack kind i owner, answer) = some key) : key = (kind, i) := by
  unfold departed at gone
  split at gone
  · next same =>
      cases same
      exact (Option.some.inj gone).symm
  · next same => cases same
  · cases gone

theorem Acked.holding (acked : Acked state next claim) (holding : Holding state) :
    Holding next := by
  refine @Holding.perform state next holding 0
    (.ack claim.kind claim.identity claim.ownerToken)
    (.flag (state.store.ack claim.kind claim.identity claim.ownerToken).2) trivial
    (by rw [acked.store]; rfl) fun key positive => ?_
  rw [acked.requeued] at positive
  split at positive
  · cases positive
  · next apart => exact ⟨fun gone => apart (departed_ack gone), .inl positive⟩

theorem ack_readCount {s : Store} (apart : key ≠ (claim.kind, claim.identity))
    (name : Str) : (s.ack claim.kind claim.identity claim.ownerToken).1.readCount key name =
      s.readCount key name := by
  rw [Store.readCount, payloadField_congr (ack_payloads _ _ _ fun _ => apart), Store.readCount]

theorem Acked.readCount (acked : Acked state next claim)
    (apart : key ≠ (claim.kind, claim.identity)) (name : Str) :
    next.store.readCount key name = state.store.readCount key name := by
  rw [acked.store, ack_readCount apart]

end Holding

section Books

variable {config : DrainConfig} {state next : DrainState} {claim : ClaimedJob}
  {charged due : List JobKey} {name : Str}

/-- The requeues of a job, those it is charged for included, are paid for by its counters, but for
the jobs due to leave. -/
structure FailBooks (config : DrainConfig) (charged due : List JobKey) (state : DrainState) : Prop
    extends Holding state where
  paid : ∀ key, key ∉ due →
    state.requeuedOf key + charged.count key ≤ spent config state.store key

theorem spent_congr {s t : Store} {key : JobKey} (same : ∀ counter ∈ countersOf config key,
    t.readCount counter.key counter.name = s.readCount counter.key counter.name) :
    spent config t key = spent config s key :=
  congrArg List.sum (List.map_congr_left fun counter member => by rw [same counter member])

theorem FailBooks.requeueJob
    (books : FailBooks config ((claim.kind, claim.identity) :: charged) due state)
    (own : claim.kind = .ingest ∨ claim.kind = .append) :
    FailBooks config charged due (state.requeueJob claim) := by
  refine ⟨books.toHolding.requeueJob own, fun key stays => ?_⟩
  have paid := books.paid key stays
  rw [spent_congr fun counter _ => requeueJob_readCount state claim _ _, requeuedOf_requeueJob]
  rw [List.count_cons] at paid
  split
  · next both =>
      rw [both.2] at paid ⊢
      rw [if_pos (beq_self_eq_true _)] at paid
      omega
  · omega

theorem FailBooks.raise (books : FailBooks config [] [] state) {keys : List JobKey} {row : JobKey}
    {cap : Nat} (distinct : keys.Nodup)
    (charge : ∀ key ∈ keys, ⟨row, name, cap⟩ ∈ countersOf config key)
    (below : state.store.readCount row name + 1 < cap)
    (short : (decimalText cap).length ≤ 4300) :
    FailBooks config keys []
      (state.writeCount row name (state.store.readCount row name + 1)) := by
  refine ⟨books.toHolding.writeCount _ _ _, fun key stays => ?_⟩
  have shorter := decimalText_short below short
  have more : ∀ counter ∈ countersOf config key,
      state.store.readCount counter.key counter.name ≤
        (state.store.writeCount row name (state.store.readCount row name + 1)).readCount
          counter.key counter.name :=
    fun counter _ => readCount_le_write shorter (Nat.le_succ _)
  have paid := books.paid key stays
  by_cases member : key ∈ keys
  · have raised := spent_lt more (charge key member) (readCount_writeCount_self _ _ shorter) below
    rw [List.count_eq_one_of_mem distinct member]
    exact (Nat.succ_le_succ paid).trans raised
  · rw [List.count_eq_zero_of_not_mem member]
    exact paid.trans (spent_mono more)

theorem FailBooks.rewrite (books : FailBooks config [] [] state) {row : JobKey}
    (n : Nat) (apart : ∀ key, key ∉ due → 0 < state.requeuedOf key →
      ∀ counter ∈ countersOf config key, ¬(counter.key = row ∧ counter.name = name)) :
    FailBooks config [] due (state.writeCount row name n) := by
  refine ⟨books.toHolding.writeCount _ _ _, fun key stays => ?_⟩
  rcases Nat.eq_zero_or_pos (state.requeuedOf key) with none_ | positive
  · exact none_.le.trans (Nat.zero_le _)
  · have same : spent config (state.store.writeCount row name n) key =
        spent config state.store key :=
      spent_congr fun counter member =>
        readCount_writeCount_other n (apart key stays positive counter member)
    exact (books.paid key (List.not_mem_nil)).trans same.ge

theorem own_apart {row key : JobKey} (named : name ≠ batchFailField)
    (other : key ≠ row) : ∀ counter ∈ countersOf config key,
      ¬(counter.key = row ∧ counter.name = name) := by
  intro counter member same
  rcases counter_row member with own | tar
  · exact other (own.1.symm.trans same.1)
  · exact named (same.2.symm.trans tar.2.1)

theorem Acked.books (acked : Acked state next claim)
    (books : FailBooks config [] ((claim.kind, claim.identity) :: due) state)
    (row : claim.kind = .append →
      state.store.readCount (claim.kind, claim.identity) batchFailField = 0) :
    FailBooks config [] due next := by
  refine ⟨acked.holding books.toHolding, fun key stays => ?_⟩
  rw [acked.requeued]
  split
  · exact Nat.zero_le _
  · next apart =>
      refine (books.paid key (List.not_mem_cons_of_ne_of_not_mem apart stays)).trans
        (spent_mono fun counter member => ?_)
      by_cases same : counter.key = (claim.kind, claim.identity)
      · rcases counter_row member with own | tar
        · exact absurd (own.1.symm.trans same) apart
        · have append : claim.kind = .append := congrArg Prod.fst (same.symm.trans tar.1)
          rw [same, tar.2.1, row append]
          exact Nat.zero_le _
      · rw [acked.readCount same]

end Books

section Calls

variable {config : DrainConfig} {state : DrainState} {key : JobKey} {call : Call}

theorem counter_names {counter : Counter}
    (member : counter ∈ countersOf config key) :
    counter.name = attemptField ∨ counter.name = envDeferField ∨
      counter.name = timeoutAttemptField ∨ counter.name = batchFailField := by
  obtain ⟨kind, i⟩ := key
  cases kind <;> simp only [countersOf, List.mem_cons, List.not_mem_nil, or_false] at member
  all_goals rcases member with rfl | rfl | rfl <;> simp

theorem held_live {s : Store} (held : KindHolds s key.1 key.2) : s.Live key := by
  unfold KindHolds at held
  unfold Live queuedIdentities
  split at held
  · next ingest =>
      rw [if_pos ingest, ingest]
      exact held
  · next list =>
      rw [if_neg list, decide_eq_true_iff]
      exact held

theorem readCount_absent {s : Store} (absent : s.payloads.get? key = none)
    (name : Str) : s.readCount key name = 0 := by
  rw [readCount, payloadField, absent]
  rfl

theorem calm_more {answer : Answer} {store : Store} {fuel : Nat}
    (holding : Holding state) (calm : CalmCall state call)
    (done : state.store.perform fuel call = some (store, answer))
    (positive : 0 < state.requeuedOf key)
    (stays : ∀ kind i owner, (call, answer) ≠ (.ack kind i owner, .flag true)) :
    ∀ counter ∈ countersOf config key, state.store.readCount counter.key counter.name ≤
      store.readCount counter.key counter.name := by
  intro counter member
  by_cases rewrites : state.store.Rewrites counter.key counter.name (call, answer)
  · have names := counter_names member
    have row := counter_row member
    cases call with
    | zaddIngest i q fingerprint overCap cap =>
      rw [rewrites.2] at names
      exact absurd names (by decide)
    | evictYoungestCatchupIngest day =>
      have told : Answer.evicted (state.store.evictYoungestCatchupIngest day).2 = answer :=
        congrArg Prod.snd (Option.some.inj done)
      rw [← told] at rewrites
      obtain ⟨i, gone, same⟩ := rewrites
      have zero := calm i gone
      rcases row with own | tar
      · rw [← own.1.symm.trans same] at zero
        exact absurd zero positive.ne'
      · exact absurd (tar.1.symm.trans same) (by simp)
    | ack kind i owner =>
      cases answer with
      | flag yes =>
        cases yes with
        | true => exact absurd rfl (stays kind i owner)
        | false => cases rewrites
      | _ => cases rewrites
    | writeJobPayloadField kind i name value =>
      obtain ⟨defers, timeout, batch, attempt⟩ := calm
      rw [rewrites.2] at names
      rcases names with is | is | is | is
      · rcases row with own | tar
        · have zero := attempt is
          rw [← own.1.symm.trans rewrites.1] at zero
          exact absurd zero positive.ne'
        · exact absurd (rewrites.2.symm.trans tar.2.1) batch
      · exact absurd is defers
      · exact absurd is timeout
      · exact absurd is batch
    | persist =>
      rcases row with own | tar
      · rw [own.1] at rewrites
        exact absurd (held_live (holding.held key positive).2) rewrites
      · cases found : state.store.payloads.get? counter.key with
        | none => exact (readCount_absent found _).le.trans (Nat.zero_le _)
        | some fields =>
          have zero := calm _ (Dict.get?_eq_some.mp found) rewrites
          rw [tar.2.1, zero]
          exact Nat.zero_le _
    | _ => cases rewrites
  · exact (readCount_perform done rewrites).ge

theorem calm_dedupes (calm : CalmCall state call) : call.Dedupes := by
  cases call with
  | enqueueList kind i dedupe cap => exact calm
  | _ => trivial

theorem call_books {answer : Answer} {store : Store} {fuel : Nat}
    (books : FailBooks config [] [] state) (calm : CalmCall state call)
    (done : state.store.perform fuel call = some (store, answer))
    (stays : ∀ kind i owner, (call, answer) ≠ (.ack kind i owner, .flag true)) :
    FailBooks config [] [] { state with store := store } := by
  refine ⟨?_, fun key outside => ?_⟩
  · refine @Holding.perform state { state with store := store } books.toHolding fuel call answer
      (calm_dedupes calm) done fun key positive => ⟨fun gone => ?_, .inl positive⟩
    unfold departed at gone
    split at gone
    · next kind i owner same => exact stays kind i owner same
    · next day i same =>
        cases same
        have told : (state.store.evictYoungestCatchupIngest day).2 = some i :=
          Answer.evicted.inj (congrArg Prod.snd (Option.some.inj done))
        have zero := calm i told
        rw [Option.some.inj gone] at zero
        exact absurd zero positive.ne'
    · cases gone
  · change state.requeuedOf key + 0 ≤ spent config store key
    rcases Nat.eq_zero_or_pos (state.requeuedOf key) with none_ | positive
    · rw [none_]
      exact Nat.zero_le _
    · exact (books.paid key outside).trans
        (spent_mono (calm_more books.toHolding calm done positive stays))

end Calls

section Outcomes

variable {config : DrainConfig} {view : DrainView} {state : DrainState} {claim : ClaimedJob}
  {jobs : List ClaimedJob} {cap : Nat}

theorem own_counter {name : Str}
    (charged : ⟨(claim.kind, claim.identity), name, cap⟩ ∈
      countersOf config (claim.kind, claim.identity))
    (books : FailBooks config [] [] state)
    (below : state.store.readCount (claim.kind, claim.identity) name + 1 < cap) :
    FailBooks config [] [] ((state.writeCount (claim.kind, claim.identity) name
      (state.store.readCount (claim.kind, claim.identity) name + 1)).requeueJob claim) := by
  have own : claim.kind = .ingest ∨ claim.kind = .append := by
    cases kind : claim.kind with
    | ingest => exact .inl rfl
    | append => exact .inr rfl
    | discover => rw [kind] at charged; cases charged
    | dayClose => rw [kind] at charged; cases charged
  have raised := books.raise (List.nodup_singleton (claim.kind, claim.identity))
    (fun key member => by rw [List.mem_singleton.mp member]; exact charged) below
    (counter_cap charged)
  exact raised.requeueJob own

theorem own_left {next : DrainState} {name : Str} {n : Nat} (named : name ≠ batchFailField)
    (books : FailBooks config [] [] state)
    (row : claim.kind = .append →
      state.store.readCount (claim.kind, claim.identity) batchFailField = 0)
    (acked : Acked (state.writeCount (claim.kind, claim.identity) name n) next claim) :
    FailBooks config [] [] next := by
  refine acked.books (books.rewrite n fun key stays _ => ?_) fun append => ?_
  · exact own_apart named (List.ne_of_not_mem_cons stays)
  · refine (readCount_writeCount_other n ?_).trans (row append)
    exact fun same => named same.2.symm

theorem retryOrDeadLetter_books (books : FailBooks config [] [] state)
    (ingest : claim.kind = .ingest) (room : LetterRoom view state [claim]) (reason : Str) :
    FailBooks config [] [] (state.retryOrDeadLetter config view claim reason) := by
  have named : attemptField ≠ batchFailField := batchFail_apart.1
  have charged : ⟨(claim.kind, claim.identity), attemptField, config.jobMaxAttempts⟩ ∈
      countersOf config (claim.kind, claim.identity) := by
    rw [ingest]
    exact .head _
  unfold DrainState.retryOrDeadLetter
  dsimp only
  split
  · next below => exact own_counter charged books below
  · exact own_left named books (fun append => by rw [ingest] at append; cases append)
      (deadLetterClaim_acked (room.write _ _ _) _ _)

theorem requeueBounded_books {counter : Str} (books : FailBooks config [] [] state)
    (named : counter ≠ batchFailField)
    (charged : ⟨(claim.kind, claim.identity), counter, cap⟩ ∈
      countersOf config (claim.kind, claim.identity))
    (row : claim.kind = .append →
      state.store.readCount (claim.kind, claim.identity) batchFailField = 0)
    (room : LetterRoom view state [claim]) (reason : Str) :
    FailBooks config [] []
      (state.requeueBoundedWithoutAttemptBump config view claim counter cap reason) := by
  unfold DrainState.requeueBoundedWithoutAttemptBump
  dsimp only
  split
  · next below => exact own_counter charged books below
  · exact own_left named books row (deadLetterClaim_acked (room.write _ _ _) _ _)

theorem requeueBounded_row {counter reason : Str} {key : JobKey}
    (named : counter ≠ batchFailField) (apart : key ≠ (claim.kind, claim.identity)) :
    (state.requeueBoundedWithoutAttemptBump config view claim counter cap reason).store.readCount key
      batchFailField = state.store.readCount key batchFailField := by
  have other : ¬(key = (claim.kind, claim.identity) ∧ batchFailField = counter) :=
    fun same => named same.2.symm
  unfold DrainState.requeueBoundedWithoutAttemptBump
  dsimp only
  split
  · rw [requeueJob_readCount]
    exact readCount_writeCount_other _ other
  · rw [deadLetterClaim_store, ack_readCount apart]
    exact readCount_writeCount_other _ other

theorem requeueBounded_room {counter reason : Str}
    (room : LetterRoom view state (claim :: jobs)) : LetterRoom view
      (state.requeueBoundedWithoutAttemptBump config view claim counter cap reason) jobs := by
  unfold DrainState.requeueBoundedWithoutAttemptBump
  dsimp only
  split
  · exact (room.tail.write _ _ _).requeue claim
  · exact deadLetterClaim_room (room.write _ _ _) _ _

theorem requeueAll_books {charged : List JobKey}
    (books : FailBooks config (jobs.map jobKey ++ charged) [] state)
    (append : ∀ job ∈ jobs, job.kind = .append) :
    FailBooks config charged [] (jobs.foldl DrainState.requeueJob state) := by
  induction jobs generalizing state with
  | nil => exact books
  | cons job rest ih =>
    exact ih (books.requeueJob (.inr (append job (.head _))))
      fun job member => append job (.tail _ member)

theorem ackAll_books {leave : DrainState → ClaimedJob → DrainState}
    (Ready : DrainState → List ClaimedJob → Prop)
    (acks : ∀ state job rest, Ready state (job :: rest) →
      Acked state (leave state job) job ∧ Ready (leave state job) rest)
    (ready : Ready state jobs) (distinct : (jobs.map jobKey).Nodup)
    (books : FailBooks config [] (jobs.map jobKey) state)
    (rows : ∀ job ∈ jobs, state.store.readCount (jobKey job) batchFailField = 0) :
    FailBooks config [] [] (jobs.foldl leave state) := by
  induction jobs generalizing state with
  | nil => exact books
  | cons job rest ih =>
    obtain ⟨fresh, distinct⟩ := List.nodup_cons.mp distinct
    obtain ⟨acked, next⟩ := acks state job rest ready
    refine ih next distinct (acked.books books fun _ => rows job (.head _))
      fun other member => ?_
    have apart : jobKey other ≠ jobKey job := fun same =>
      fresh (List.mem_map.mpr ⟨other, member, same⟩)
    rw [acked.readCount apart]
    exact rows other (.tail _ member)

theorem softRequeueAll_books {reason : Str} (distinct : (jobs.map jobKey).Nodup)
    (books : FailBooks config [] [] state) (room : LetterRoom view state jobs)
    (ready : ∀ job ∈ jobs, job.kind = .append ∧
      state.store.readCount (jobKey job) batchFailField = 0) :
    FailBooks config [] [] (jobs.foldl (fun state job =>
      state.requeueBoundedWithoutAttemptBump config view job envDeferField config.noprogressEscalateAfter
        reason) state) := by
  have named : envDeferField ≠ batchFailField := batchFail_apart.2.1
  induction jobs generalizing state with
  | nil => exact books
  | cons job rest ih =>
    obtain ⟨fresh, distinct⟩ := List.nodup_cons.mp distinct
    obtain ⟨append, row⟩ := ready job (.head _)
    have charged : ⟨(job.kind, job.identity), envDeferField, config.noprogressEscalateAfter⟩ ∈
        countersOf config (job.kind, job.identity) := by
      rw [append]
      exact .tail _ (.head _)
    refine ih distinct (requeueBounded_books books named charged (fun _ => row) room.head reason)
      (requeueBounded_room room) fun other member => ?_
    have apart : jobKey other ≠ jobKey job := fun same =>
      fresh (List.mem_map.mpr ⟨other, member, same⟩)
    obtain ⟨kind, zero⟩ := ready other (.tail _ member)
    exact ⟨kind, (requeueBounded_row named apart).trans zero⟩

end Outcomes

section Batches

variable {config : DrainConfig} {view : DrainView} {state : DrainState} {tar : Str}
  {jobs : List ClaimedJob}

theorem tar_counter {key : JobKey} (append : key.1 = .append) :
    ⟨(.append, config.tarOf key.2), batchFailField, config.jobMaxAttempts⟩ ∈
      countersOf config key := by
  obtain ⟨kind, i⟩ := key
  cases append
  exact .head _

theorem tar_apart {key : JobKey} (outside : ¬(key.1 = .append ∧ config.tarOf key.2 = tar)) :
    ∀ counter ∈ countersOf config key,
      ¬(counter.key = (.append, tar) ∧ counter.name = batchFailField) := by
  intro counter member same
  rcases counter_row member with own | of
  · exact own.2 same.2
  · exact outside ⟨of.2.2, (Prod.mk.inj (of.1.symm.trans same.1)).2⟩

theorem requeued_entry {key : JobKey} (positive : 0 < state.requeuedOf key) :
    (key, state.requeuedOf key) ∈ state.requeued.entries := by
  cases found : state.requeued.get? key with
  | none => simp [DrainState.requeuedOf, found] at positive
  | some n =>
    rw [DrainState.requeuedOf, found]
    exact Dict.get?_eq_some.mp found

theorem BatchReady.key (ready : BatchReady config state tar jobs) {job : ClaimedJob}
    (member : job ∈ jobs) : jobKey job = (.append, job.identity) := by
  rw [jobKey, (ready.2 job member).1]

theorem BatchReady.rows (ready : BatchReady config state tar jobs) :
    ∀ job ∈ jobs, (state.writeCount (.append, tar) batchFailField 0).store.readCount (jobKey job)
      batchFailField = 0 := by
  intro job member
  rw [ready.key member]
  by_cases same : job.identity = tar
  · rw [same]
    exact readCount_writeCount_self _ _ (by decide)
  · refine (readCount_writeCount_other 0 fun both => same ?_).trans (ready.2 job member).2.2
    exact (Prod.mk.inj both.1).2

theorem failAppendBatch_books (books : FailBooks config [] [] state)
    (ready : BatchReady config state tar jobs) (whole : BatchWhole config state tar jobs)
    (room : LetterRoom view state jobs) (reason : Str) : FailBooks config [] [] (state.failAppendBatch config view tar jobs reason) := by
  have distinct := jobKey_nodup ready.1
  unfold DrainState.failAppendBatch
  dsimp only
  split
  · exact books
  · split
    · next below =>
        have charge : ∀ key ∈ jobs.map jobKey,
            ⟨(.append, tar), batchFailField, config.jobMaxAttempts⟩ ∈ countersOf config key := by
          intro key member
          obtain ⟨job, inside, rfl⟩ := List.mem_map.mp member
          rw [ready.key inside, ← (ready.2 job inside).2.1]
          exact tar_counter rfl
        have raised := books.raise distinct charge below config.attempts_short
        rw [← List.append_nil (jobs.map jobKey)] at raised
        exact requeueAll_books raised fun job member => (ready.2 job member).1
    · next last =>
        have left : FailBooks config [] (jobs.map jobKey)
            (state.writeCount (.append, tar) batchFailField 0) := by
          refine books.rewrite 0 fun key stays positive => tar_apart fun of => stays ?_
          have inside := whole (not_lt.mp last) _ (requeued_entry positive) of.1 of.2 positive
          obtain ⟨job, member, same⟩ := List.mem_map.mp inside
          refine List.mem_map.mpr ⟨job, member, ?_⟩
          rw [ready.key member, same, ← of.1]
        exact ackAll_books (LetterRoom view)
          (fun _ _ _ room => ⟨deadLetterClaim_acked room.head _ _, deadLetterClaim_room room _ _⟩)
          (room.write _ _ _) distinct left ready.rows

theorem handoff_books (books : FailBooks config [] [] state) (paths : List Str) :
    FailBooks config [] [] (handoffRetryablePathsToIngest config view state tar paths) ∧
      ∀ key, (handoffRetryablePathsToIngest config view state tar paths).store.readCount key
        batchFailField = state.store.readCount key batchFailField := by
  refine handoff_kept (K := fun next => FailBooks config [] [] next ∧ ∀ key,
    next.store.readCount key batchFailField = state.store.readCount key batchFailField)
    ⟨books, fun _ => rfl⟩ ?_ tar paths
  intro state call store answer kept allowed done
  cases call with
  | zaddIngest i q fingerprint overCap cap =>
    have calm : CalmCall state (.zaddIngest i q fingerprint overCap cap) := trivial
    refine ⟨call_books kept.1 calm done nofun, fun key => ?_⟩
    refine (readCount_perform done fun rewrites => ?_).trans (kept.2 key)
    exact absurd rewrites.2 (by decide)
  | enqueueList kind i dedupe cap =>
    have calm : CalmCall state (.enqueueList kind i dedupe cap) := allowed.2
    refine ⟨call_books kept.1 calm done nofun, fun key => ?_⟩
    exact (readCount_perform done nofun).trans (kept.2 key)
  | _ => cases allowed

theorem settled_books (books : FailBooks config [] [] state) (tar : Str) :
    FailBooks config [] [] { state with
      requeued := state.requeued.filter fun key _ =>
        !decide (key.1 = .append ∧ config.tarOf key.2 = tar) } ∧
    ∀ key, 0 < DrainState.requeuedOf { state with
      requeued := state.requeued.filter fun key _ =>
        !decide (key.1 = .append ∧ config.tarOf key.2 = tar) } key →
      ¬(key.1 = .append ∧ config.tarOf key.2 = tar) := by
  have of : ∀ key, DrainState.requeuedOf { state with
      requeued := state.requeued.filter fun key _ =>
        !decide (key.1 = .append ∧ config.tarOf key.2 = tar) } key =
      if key.1 = .append ∧ config.tarOf key.2 = tar then 0 else state.requeuedOf key := by
    intro key
    simp only [DrainState.requeuedOf, Dict.get?_filter]
    by_cases inside : key.1 = .append ∧ config.tarOf key.2 = tar
    · rw [if_pos inside]
      cases state.requeued.get? key <;> simp [inside]
    · rw [if_neg inside]
      cases state.requeued.get? key <;> simp [inside, Option.filter]
  refine ⟨⟨⟨books.consistent, books.tidy, fun key positive => ?_⟩, fun key stays => ?_⟩,
    fun key positive inside => ?_⟩
  · rw [of] at positive
    split at positive
    · cases positive
    · exact books.held key positive
  · rw [of]
    split
    · exact Nat.zero_le _
    · exact books.paid key stays
  · rw [of, if_pos inside] at positive
    cases positive

theorem finishAppend_books (books : FailBooks config [] [] state)
    (ready : BatchReady config state tar jobs) (paths : List Str) :
    FailBooks config [] [] (finishAppend config view state tar jobs paths) := by
  have leave : ∀ {state : DrainState}, FailBooks config [] [] state →
      (∀ job ∈ jobs, state.requeuedOf (jobKey job) = 0) →
      (∀ job ∈ jobs, state.store.readCount (jobKey job) batchFailField = 0) →
      FailBooks config [] [] (jobs.foldl (fun state job =>
        (state.ackJob job).removeDeadLetter view (.append, job.identity)) state) := by
    intro state books idle rows
    refine ackAll_books (fun state jobs => ∀ job ∈ jobs, state.requeuedOf (jobKey job) = 0)
      (fun state job rest idle => ?_) idle
      (jobKey_nodup ready.1) ⟨books.toHolding, fun key _ => books.paid key List.not_mem_nil⟩ rows
    have acked := removeDeadLetter_acked view (.append, job.identity)
      (ackJob_acked_idle (idle job (.head _)))
    refine ⟨acked, fun other member => ?_⟩
    rw [acked.requeued, idle other (.tail _ member), ite_self]
  obtain ⟨handed, counts⟩ := @handoff_books config view state tar books paths
  have rows : ∀ job ∈ jobs, (handoffRetryablePathsToIngest config view state tar paths).store.readCount
      (jobKey job) batchFailField = 0 := by
    intro job member
    rw [counts, ready.key member]
    exact (ready.2 job member).2.2
  obtain ⟨settled, outside⟩ := settled_books handed tar
  have idle : ∀ job ∈ jobs, DrainState.requeuedOf
      { handoffRetryablePathsToIngest config view state tar paths with
        requeued := (handoffRetryablePathsToIngest config view state tar paths).requeued.filter
          fun key _ => !decide (key.1 = .append ∧ config.tarOf key.2 = tar) } (jobKey job) = 0 := by
    intro job member
    by_contra positive
    refine outside (jobKey job) (Nat.pos_of_ne_zero positive) ?_
    rw [ready.key member]
    exact ⟨rfl, (ready.2 job member).2.1⟩
  unfold finishAppend
  dsimp only
  split
  · refine leave (settled.rewrite 0 fun key _ positive => tar_apart (outside key positive)) idle ?_
    intro job member
    by_cases same : jobKey job = (.append, tar)
    · rw [same]
      exact readCount_writeCount_self _ _ (by decide)
    · exact (readCount_writeCount_other 0 fun both => same both.1).trans (rows job member)
  · exact leave settled idle rows

theorem drainAppend_books (books : FailBooks config [] [] state)
    (ready : BatchReady config state tar jobs) {result : AppendResult}
    (whole : (∃ reason, result.verdict = .failed reason) → BatchWhole config state tar jobs)
    (room : LetterRoom view state jobs) :
    FailBooks config [] [] (drainAppend config view state tar jobs result) := by
  unfold drainAppend
  cases verdict : result.verdict with
  | failed reason => exact failAppendBatch_books books ready (whole ⟨reason, verdict⟩) room _
  | softRequeue =>
    refine softRequeueAll_books (jobKey_nodup ready.1) books room fun job member => ?_
    rw [ready.key member]
    exact ⟨(ready.2 job member).1, (ready.2 job member).2.2⟩
  | archived paths => exact finishAppend_books books ready paths

end Batches

section Steps

variable {config : DrainConfig} {view : DrainView} {state : DrainState}

theorem writeEmit_books (books : FailBooks config [] [] state) (kind : Kind) (i value : Str) :
    FailBooks config [] [] { state with
      store := state.store.writeJobPayloadField kind i (lit "emit") value } := by
  refine @call_books config state (.writeJobPayloadField kind i (lit "emit") value) .done _ 0 books
    ⟨by decide, by decide, by decide, fun same => absurd same (by decide)⟩ rfl ?_
  nofun

theorem drainIngest_books {claim : ClaimedJob} {outcome : IngestOutcome}
    (books : FailBooks config [] [] state) (ingest : claim.kind = .ingest)
    (counted : outcome ≠ .timedOut true ∧ outcome ≠ .timedOut false)
    (idle : outcome.rediscovered = true → state.requeuedOf (jobKey claim) = 0)
    (room : LetterRoom view state [claim]) :
    FailBooks config [] [] (drainIngest config view state claim outcome) := by
  have row : claim.kind = .append →
      state.store.readCount (claim.kind, claim.identity) batchFailField = 0 := by
    intro append
    rw [ingest] at append
    cases append
  have environment : ∀ reason, FailBooks config [] [] (state.requeueBoundedWithoutAttemptBump config view claim
      envDeferField config.noprogressEscalateAfter reason) := by
    refine requeueBounded_books books batchFail_apart.2.1 ?_ row room
    rw [ingest]
    exact .tail _ (.head _)
  cases outcome with
  | timedOut rich =>
    cases rich with
    | true => exact absurd rfl counted.1
    | false => exact absurd rfl counted.2
  | environment tag => exact environment tag
  | raised name =>
    unfold drainIngest
    dsimp only
    split
    · exact retryOrDeadLetter_books (writeEmit_books books _ _ _) ingest room name
    · exact retryOrDeadLetter_books books ingest room name
  | refused outcome =>
    unfold drainIngest
    dsimp only
    split
    · refine requeueBounded_books books batchFail_apart.2.2 ?_ row room _
      rw [ingest]
      exact .tail _ (.tail _ (.head _))
    · next live =>
        exact (ackJob_acked_idle (idle (decide_eq_true live))).books
          ⟨books.toHolding, fun key _ => books.paid key List.not_mem_nil⟩ row
    · exact environment _
    · exact retryOrDeadLetter_books books ingest room _
  | unmarked => exact retryOrDeadLetter_books books ingest room _
  | succeeded needArchival =>
    have leave : ∀ {next : DrainState}, FailBooks config [] [] next → FailBooks config [] []
        (((next.ackJob claim).forget (.ingest, claim.identity)).removeDeadLetter view
          (.ingest, claim.identity)) := by
      intro next books
      rw [← ingest]
      refine (removeDeadLetter_acked view _ (succeeded_acked next claim)).books
        ⟨books.toHolding, fun key _ => books.paid key List.not_mem_nil⟩ fun append => ?_
      rw [ingest] at append
      cases append
    unfold drainIngest
    dsimp only
    split
    · refine leave (@call_books config state (.enqueueList .append
        (pathFromIngestIdentity claim.identity) true config.queueCap) _ _ 0 books rfl rfl ?_)
      nofun
    · exact leave books

theorem FailBooks.turn (books : FailBooks config [] [] state) :
    FailBooks config [] [] { state with quarantined := [] } :=
  ⟨⟨books.consistent, books.tidy, books.held⟩, books.paid⟩

theorem failStep_books {event : FailEvent} (books : FailBooks config [] [] state)
    (calm : Calm config state event) : FailBooks config [] [] (failStep config state event) := by
  cases event with
  | ingest view claim outcome =>
    exact drainIngest_books books.turn calm.1 calm.2.1 calm.2.2.1 calm.2.2.2
  | append view tar jobs result => exact drainAppend_books books.turn calm.1 calm.2.1 calm.2.2
  | call fuel call =>
    unfold failStep
    dsimp only
    split
    · exact books
    · next store answer done =>
        have calm : CalmCall state call := calm
        cases call with
        | ack kind i owner =>
          have acked : Acked state { state with store := store }
              ⟨kind, i, owner, 0, none, [], []⟩ := by
            refine ⟨(congrArg Prod.fst (Option.some.inj done)).symm, fun key => ?_⟩
            split
            · next same => exact same ▸ calm.1
            · rfl
          exact acked.books ⟨books.toHolding, fun key _ => books.paid key List.not_mem_nil⟩ calm.2
        | _ =>
          refine call_books books calm done fun kind i owner same => ?_
          cases same

theorem boot_failBooks (config : DrainConfig) (snapshot : BootStore) (letters : List DeadLetter) :
    FailBooks config [] [] (.boot snapshot letters) where
  consistent := snapshot.consistent
  tidy := snapshot.tidy
  held _ positive := by cases positive
  paid _ _ := Nat.zero_le _

/-- In a run whose steps count every failure, no job is requeued more often between its successes
and dead letters than its counters allow. -/
theorem failing_jobs_bounded (config : DrainConfig) (snapshot : BootStore)
    (letters : List DeadLetter) (events : List FailEvent)
    (calm : Throughout (failStep config) (Calm config) (.boot snapshot letters) events)
    (key : JobKey) : (failRun config snapshot letters events).requeuedOf key ≤
      config.jobMaxAttempts + config.noprogressEscalateAfter + config.jobMaxAttempts := by
  have books : FailBooks config [] [] (failRun config snapshot letters events) :=
    calm.kept (boot_failBooks config snapshot letters)
      fun _ _ books calm => failStep_books books calm
  exact (books.paid key List.not_mem_nil).trans (spent_le config _ key)

end Steps

section Limits

variable (config : DrainConfig)

instance (state : DrainState) : ∀ call, Decidable (CalmCall state call)
  | .persist => inferInstanceAs (Decidable (∀ row ∈ state.store.payloads.entries,
      ¬state.store.Live row.1 → state.store.readCount row.1 batchFailField = 0))
  | .evictYoungestCatchupIngest day => inferInstanceAs (Decidable
      (∀ i ∈ (state.store.evictYoungestCatchupIngest day).2, state.requeuedOf (.ingest, i) = 0))
  | .writeJobPayloadField kind i name _ => inferInstanceAs (Decidable
      (name ≠ envDeferField ∧ name ≠ timeoutAttemptField ∧ name ≠ batchFailField ∧
        (name = attemptField → state.requeuedOf (kind, i) = 0)))
  | .ack kind i _ => inferInstanceAs (Decidable (state.requeuedOf (kind, i) = 0 ∧
      (kind = .append → state.store.readCount (kind, i) batchFailField = 0)))
  | .enqueueList _ _ dedupe _ => inferInstanceAs (Decidable (dedupe = true))
  | .zaddIngest .. | .claimIngest .. | .claimList .. | .requeue .. | .reapExpiredInflight ..
  | .extendInflightDeadline .. | .renewJobLease .. => isTrue trivial

instance (state : DrainState) (tar : Str) (jobs : List ClaimedJob) :
    Decidable (BatchReady config state tar jobs) :=
  inferInstanceAs (Decidable (_ ∧ _))

instance (state : DrainState) (tar : Str) (jobs : List ClaimedJob) :
    Decidable (BatchWhole config state tar jobs) :=
  inferInstanceAs (Decidable (_ → _))

instance (view : DrainView) (state : DrainState) (jobs : List ClaimedJob) :
    Decidable (LetterRoom view state jobs) :=
  inferInstanceAs (Decidable (_ ∧ _))

instance (verdict : AppendVerdict) : Decidable (∃ reason, verdict = .failed reason) :=
  match verdict with
  | .failed reason => isTrue ⟨reason, rfl⟩
  | .softRequeue => isFalse fun ⟨_, is⟩ => by cases is
  | .archived _ => isFalse fun ⟨_, is⟩ => by cases is

instance (state : DrainState) : ∀ event, Decidable (Calm config state event)
  | .call _ call => inferInstanceAs (Decidable (CalmCall state call))
  | .ingest _ _ _ => inferInstanceAs (Decidable (_ ∧ (_ ∧ _) ∧ (_ → _) ∧ _))
  | .append _ _ _ _ => inferInstanceAs (Decidable (_ ∧ (_ → _) ∧ _))

private def bareSnapshot : BootStore := ⟨.empty, Store.empty_consistent, tidy_empty .append⟩

private theorem two_short : (decimalText 2).length ≤ 4300 := by decide

private theorem today_range : (1 : Int) ≤ 738839 ∧ (738839 : Int) ≤ lastOrdinal := by decide

private def today : Day := ⟨738839, today_range⟩

private def dailyTar : Str := lit "/daily/2023-11-14.tar"

private def rawFile : Str := lit "/a/h/1700000000"

private def patience : DrainConfig where
  archiveDir := lit "/a"
  ingestCap := 1000
  queueCap := 1000
  hotDays := 1
  normpath := id
  skipped _ := false
  basenameDate _ := some today
  startdate := none
  enddate := none
  fingerprint _ _ := []
  sha1 _ := []
  jobMaxAttempts := 2
  noprogressEscalateAfter := 2
  cooldowns := ⟨[3600], [3600]⟩
  tarOf _ := dailyTar
  tarDay _ := some today
  attempts_pos := two_pos
  escalate_pos := two_pos
  attempts_short := two_short
  escalate_short := two_short

private def outside : DrainView where
  today := today
  now := 0
  stat path := if path = rawFile then some (7, 0) else none
  active _ := false
  ingestComplete _ := some false
  appendComplete _ := some false
  openTar _ := .absent
  archived _ := none
  saved _ := true
  moved _ := false

private def rawScore : ℚ := 10 ^ 15 + 738839 * 10 ^ 6

private def ingested (outcome : IngestOutcome) : List FailEvent :=
  [.call 9 (.claimIngest (lit "catchup") (lit "w") 60 0 1),
    .ingest outside ⟨.ingest, rawFile, lit "w", 60, some rawScore, [], []⟩ outcome]

private def appended (result : AppendResult) : List FailEvent :=
  [.call 9 (.claimList .append (lit "w") 60 0),
    .append outside dailyTar [⟨.append, rawFile, lit "w", 60, none, [], []⟩] result]

private def queued : FailEvent := .call 0 (.zaddIngest rawFile rawScore none false 10)

/-- A file that fails, times out and fails again, with a snapshot between; it is dead-lettered, and
so is its append. -/
private def failures : List FailEvent :=
  [queued] ++ ingested (.refused (lit "parse")) ++
    [.call 0 .persist] ++ ingested (.refused (lit "timeout")) ++ [.call 0 .persist] ++
    ingested (.environment (lit "env:db")) ++ [.call 0 .persist] ++
    ingested (.raised (lit "CodonCopyFailed")) ++
    [.call 0 (.enqueueList .append rawFile true 10)] ++
    appended (.outcome true true false [] []) ++ appended (.raised (lit "OSError")) ++
    appended (.flag false)

theorem failing_jobs_bounded_failures :
    (failRun patience bareSnapshot [] failures).requeuedOf (.ingest, rawFile) ≤ 2 + 2 + 2 :=
  failing_jobs_bounded patience bareSnapshot [] failures (by decide +kernel) (.ingest, rawFile)

private def timeouts : List FailEvent :=
  [queued] ++ (List.replicate 7 (ingested (.timedOut true))).flatten

private def snapshots : List FailEvent :=
  [.call 0 (.enqueueList .append rawFile true 10)] ++
    (List.replicate 7 (appended (.raised (lit "OSError")) ++ [.call 0 .persist])).flatten

/-- A timeout that escapes as an exception is requeued without a count, and a snapshot between
the failures of a batch takes the count of its tar back. -/
theorem failing_jobs_unbounded :
    2 + 2 + 2 < (failRun patience bareSnapshot [] timeouts).requeuedOf (.ingest, rawFile) ∧
      (failRun patience bareSnapshot [] timeouts).deadLetters = [] ∧
      2 + 2 + 2 < (failRun patience bareSnapshot [] snapshots).requeuedOf (.append, rawFile) ∧
      (failRun patience bareSnapshot [] snapshots).deadLetters = [] := by
  decide +kernel

end Limits

end PerfStats.Orchestrator
