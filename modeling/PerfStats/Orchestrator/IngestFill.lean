import PerfStats.JobStore.Leases
import PerfStats.Orchestrator.DiscoverWalks

namespace PerfStats.Orchestrator

open JobStore JobStore.Store
open Lib

section Paths

def pathFromIngestIdentity (identity : Str) : Str :=
  match rsplitOnce (lit "|") identity with
  | none => identity
  | some (front, _) => ((rsplitOnce (lit "|") front).map Prod.fst).getD front

def basename (path : Str) : Str := ((rsplitOnce (lit "/") path).map Prod.snd).getD path

def isIngestLockSidecarPath (path : Str) : Bool :=
  let name := basename path
  (lit ".fnctl.lock").isSuffixOf name || (lit ".lock").isSuffixOf name

def ingestFingerprint (size : Nat) (mtimeNs : Int) : Str :=
  Text.decimalText size ++ lit "|" ++ intText mtimeNs

end Paths

section Fill

structure FillConfig where
  walks : DiscoverConfig
  calendarDay : Str → Option Day
  band : Band
  cap : Int
  bandCap : Option Int
  skipBudget : Option Int

def ingestFillSkipBudget : Int := 8

def FillConfig.budget (config : FillConfig) : Int := config.skipBudget.getD ingestFillSkipBudget

/-- What the walk over a batch reads from outside for one claim; `asyncResult` is `none` where
`apply_async` raises. -/
structure ClaimFacts where
  today : Day
  stat : Option (Nat × Int)
  budgetBytes : Int
  headroomOk : Bool
  fileCacheOk : Bool
  asyncResult : Option Nat
  now : ℚ

/-- What became of a claim: submitted, with whether its identity was new, or given back or
acknowledged, with the answer of the store. -/
inductive Fate where
  | submitted (fresh : Bool)
  | requeued (accepted : Bool)
  | acked (accepted : Bool)
deriving DecidableEq

inductive FillPlace where
  | claiming
  | walking
  | returned
  | raised
deriving DecidableEq

structure IngestTracking where
  store : Store
  inflight : Dict Str Nat
  claims : Dict Str ClaimedJob
  submitted : Dict Str ℚ
  inflightSizes : Option (Dict Str Nat)
  bandUsed : Option (Band → Int)
  stats : Dict Str Nat

/-- The state of a fill; `taken` and `fates` record the claims and what became of them. -/
structure FillState where
  store : Store
  inflight : Dict Str Nat
  claims : Dict Str ClaimedJob
  submitted : Dict Str ℚ
  inflightSizes : Option (Dict Str Nat)
  usedMap : Band → Int
  stats : Dict Str Nat
  skipped : Int
  submittedN : Nat
  batch : List ClaimedJob
  place : FillPlace
  taken : List ClaimedJob
  fates : List (ClaimedJob × Fate)

def ingestClaimBandKey (claim : ClaimedJob) : Band :=
  claim.score.elim .hot decodeIngestBand

def countIngestBandInflight (claims : Dict Str ClaimedJob) (band : Band) : Int :=
  claims.count fun claim => decide (ingestClaimBandKey claim = band)

def enterFill (maps : IngestTracking) : FillState where
  store := maps.store
  inflight := maps.inflight
  claims := maps.claims
  submitted := maps.submitted
  inflightSizes := maps.inflightSizes
  usedMap := maps.bandUsed.getD (countIngestBandInflight maps.claims)
  stats := maps.stats
  skipped := 0
  submittedN := 0
  batch := []
  place := .claiming
  taken := []
  fates := []

def bandName : Band → Str
  | .hot => lit "hot"
  | .catchup => lit "catchup"

def canAdmitIngestRawBytes (inflightBytes size : Nat) (budgetBytes : Int) : Bool :=
  decide (budgetBytes ≤ 0) || decide ((inflightBytes + size : Int) ≤ budgetBytes) ||
    (decide (inflightBytes = 0) && decide (budgetBytes < size))

inductive Verdict where
  | full
  | bandFull
  | reband (score : ℚ)
  | lock
  | missing
  | held (reason : Str) (size : Nat) (mtimeNs : Int)
  | submit (size : Nat) (mtimeNs : Int)
deriving DecidableEq

variable (config : FillConfig)

def bandIsFull (state : FillState) : Bool :=
  config.bandCap.any fun cap => decide (cap ≤ state.usedMap config.band)

def rebandScore (today : Day) (claim : ClaimedJob) : Option ℚ :=
  match config.calendarDay claim.identity with
  | none => none
  | some day =>
    let band := selectIngestBand config.walks day today
    if band = claim.score.elim band decodeIngestBand then none
    else
      match encodeIngestScore config.walks.sha1 (bandName band) day today claim.identity with
      | .error _ => none
      | .ok score => some (penalizeIngestScore (some (score : ℚ)))

def memoryRefusal (facts : ClaimFacts) (sizes : Dict Str Nat) (claim : ClaimedJob)
    (size : Nat) : Option Str :=
  let inflightSum := sizes.total fun _ bytes => bytes
  let aloneOversized := decide (inflightSum = 0) && decide (0 < facts.budgetBytes) &&
    decide (facts.budgetBytes < size)
  let aloneFileCache := decide (sizes.size ≤ 1) && !(sizes.get? claim.identity).isSome
  if !canAdmitIngestRawBytes inflightSum size facts.budgetBytes then some (lit "skip_budget_bytes")
  else if !aloneOversized && !facts.headroomOk then some (lit "skip_cgroup_headroom")
  else if !facts.fileCacheOk && !aloneFileCache then some (lit "skip_file_cache_pressure")
  else none

def isLockClaim (claim : ClaimedJob) : Bool :=
  let path := pathFromIngestIdentity claim.identity
  isIngestLockSidecarPath (if path = [] then claim.identity else path)

def claimStat (facts : ClaimFacts) (claim : ClaimedJob) : Option (Nat × Int) :=
  if pathFromIngestIdentity claim.identity = [] then none else facts.stat

def fileVerdict (facts : ClaimFacts) (state : FillState) (claim : ClaimedJob) : Verdict :=
  match rebandScore config facts.today claim with
  | some score => .reband score
  | none =>
    if isLockClaim claim then .lock
    else
      match claimStat facts claim with
      | none => .missing
      | some (size, mtimeNs) =>
        match state.inflightSizes.bind fun sizes => memoryRefusal facts sizes claim size with
        | some reason => .held reason size mtimeNs
        | none => .submit size mtimeNs

def claimVerdict (facts : ClaimFacts) (state : FillState) (claim : ClaimedJob) : Verdict :=
  if config.cap ≤ state.inflight.size then .full
  else if bandIsFull config state then .bandFull
  else fileVerdict config facts state claim

namespace FillState

def bump (state : FillState) (name : Str) : FillState :=
  { state with stats := state.stats.set name ((state.stats.get? name).getD 0 + 1) }

def requeueClaim (state : FillState) (claim : ClaimedJob) (score : Option ℚ) : FillState :=
  let (store, accepted) := state.store.requeue .ingest claim.identity claim.ownerToken score
  { state with store := store, fates := state.fates ++ [(claim, .requeued accepted)] }

def ackClaim (state : FillState) (claim : ClaimedJob) : FillState :=
  let (store, accepted) := state.store.ack .ingest claim.identity claim.ownerToken
  { state with store := store, fates := state.fates ++ [(claim, .acked accepted)] }

def refreshFingerprint (state : FillState) (claim : ClaimedJob) (size : Nat) (mtimeNs : Int) :
    FillState :=
  if claim.fingerprint ≠ [] ∧ claim.fingerprint ≠ ingestFingerprint size mtimeNs then
    { state with
      store := state.store.writeJobPayloadField .ingest claim.identity (lit "fingerprint")
        (ingestFingerprint size mtimeNs) }.bump (lit "fp_refresh")
  else state

def probe (state : FillState) : FillState :=
  if state.inflightSizes.isSome then state.bump (lit "admit_probes") else state

def onward (state : FillState) : FillState :=
  if state.batch = [] then
    { state with place := if config.budget ≤ state.skipped then .returned else .claiming }
  else state

def leave (state : FillState) : FillState := { state with batch := [] }.onward config

def skip (state : FillState) : FillState :=
  let state := { state with skipped := state.skipped + 1 }
  if config.budget ≤ state.skipped then state.leave config else state.onward config

def submit (state : FillState) (claim : ClaimedJob) (size async : Nat) (now : ℚ) : FillState :=
  { state with
    inflight := state.inflight.set claim.identity async
    claims := state.claims.set claim.identity claim
    submitted := state.submitted.set claim.identity now
    inflightSizes := state.inflightSizes.map fun sizes => sizes.set claim.identity size
    usedMap := Function.update state.usedMap config.band (state.usedMap config.band + 1)
    submittedN := state.submittedN + 1
    fates := state.fates ++
      [(claim, .submitted (!(state.inflight.get? claim.identity).isSome))] }

def raise (state : FillState) : FillState := { state with batch := [], place := .raised }

end FillState

def walkClaim (facts : ClaimFacts) (claim : ClaimedJob) (state : FillState) : FillState :=
  match claimVerdict config facts state claim with
  | .full => (state.requeueClaim claim claim.score).onward config
  | .bandFull => ((state.requeueClaim claim claim.score).bump (lit "band_cap")).leave config
  | .reband score => ((state.requeueClaim claim (some score)).bump (lit "skip_reband")).skip config
  | .lock => ((state.ackClaim claim).bump (lit "skip_lock")).skip config
  | .missing => ((state.ackClaim claim).bump (lit "skip_missing")).skip config
  | .held reason size mtimeNs =>
    let state := (state.refreshFingerprint claim size mtimeNs).probe
    let state := state.requeueClaim claim (some (penalizeIngestScore claim.score))
    (state.bump reason).skip config
  | .submit size mtimeNs =>
    let state := (state.refreshFingerprint claim size mtimeNs).probe
    match facts.asyncResult with
    | none => ((state.bump (lit "submit_err")).requeueClaim claim claim.score).raise
    | some async => (state.submit config claim size async facts.now).onward config

def batchSize (state : FillState) : Int :=
  let freeTotal := config.cap - state.inflight.size
  let freeBand := config.bandCap.elim freeTotal fun cap => cap - state.usedMap config.band
  max 1 (min (min freeTotal freeBand) (max 1 (config.budget - state.skipped)))

def claimBatch (parseQueueFull : Bool) (owner : Str) (ttl : Int) (now : ℚ) (fuel : Nat)
    (state : FillState) : FillState :=
  if config.cap ≤ state.inflight.size then { state with place := .returned }
  else if parseQueueFull then { state with place := .returned }.bump (lit "skip_parse_queue_full")
  else if bandIsFull config state then { state with place := .returned }.bump (lit "band_cap")
  else
    match state.store.claimIngest fuel (bandName config.band) owner ttl now
        (batchSize config state) with
    -- the claim has not ended within `fuel` turns
    | none => state
    | some (.error _) => { state with place := .raised }
    | some (.ok (store, [])) =>
      { state with store := store, place := .returned }.bump (lit "claim_none")
    | some (.ok (store, claim :: rest)) =>
      { state with
        store := store
        batch := claim :: rest
        taken := state.taken ++ claim :: rest
        place := .walking }

inductive FillEvent where
  | pass (parseQueueFull : Bool) (owner : Str) (ttl : Int) (now : ℚ) (fuel : Nat)
  | claim (facts : ClaimFacts)

def fillStep (state : FillState) : FillEvent → FillState
  | .pass parseQueueFull owner ttl now fuel =>
    if state.place = .claiming then claimBatch config parseQueueFull owner ttl now fuel state
    else state
  | .claim facts =>
    match state.batch with
    | [] => state
    | claim :: rest => walkClaim config facts claim { state with batch := rest }

def fillIngestBand (maps : IngestTracking) (events : List FillEvent) : FillState :=
  events.foldl (fillStep config) (enterFill maps)

end Fill

section Books

variable (config : FillConfig)

def admits (facts : ClaimFacts) (state : FillState) (claim : ClaimedJob) : Bool :=
  match claimVerdict config facts state claim with
  | .submit _ _ => true
  | _ => false

/-- A claim that passes every gate is in no map yet, and `apply_async` raises only for the last
claim of a batch. -/
def Smooth (state : FillState) : FillEvent → Prop
  | .pass .. => True
  | .claim facts => ∀ claim ∈ state.batch.head?, admits config facts state claim = true →
      if facts.asyncResult.isSome then state.inflight.get? claim.identity = none
      else state.batch.tail = []

instance (state : FillState) : ∀ event, Decidable (Smooth config state event)
  | .pass .. => isTrue trivial
  | .claim facts => inferInstanceAs (Decidable (∀ claim ∈ state.batch.head?,
      admits config facts state claim = true →
        if facts.asyncResult.isSome then state.inflight.get? claim.identity = none
        else state.batch.tail = []))

structure Submitted (state : FillState) (claim : ClaimedJob) : Prop where
  inflight : (state.inflight.get? claim.identity).isSome
  claims : state.claims.get? claim.identity = some claim
  submitted : (state.submitted.get? claim.identity).isSome
  sizes : ∀ sizes ∈ state.inflightSizes, (sizes.get? claim.identity).isSome
  leased : ∃ entry, state.store.ingestLease claim.identity = some entry ∧
    entry.owner = claim.ownerToken

def Fate.isSubmit : Fate → Bool
  | .submitted _ => true
  | .requeued _ => false
  | .acked _ => false

def FateHolds (state : FillState) (claim : ClaimedJob) : Fate → Prop
  | .submitted fresh => fresh = true ∧ Submitted state claim
  | .requeued accepted => accepted = true
  | .acked accepted => accepted = true

def Accounted (entry state : FillState) (i : Str) (lease : Inflight) : Prop :=
  entry.store.ingestLease i = some lease ∨
    ∃ record ∈ state.fates, record.2.isSubmit = true ∧ record.1.identity = i ∧
      record.1.ownerToken = lease.owner

/-- Each claim the fill took met exactly one fate, no lease is left over, and the pool and the band
stay within their caps. -/
structure Conserved (entry state : FillState) : Prop where
  each : state.fates.map Prod.fst = state.taken
  held : ∀ record ∈ state.fates, FateHolds state record.1 record.2
  leases : ∀ i lease, state.store.ingestLease i = some lease → Accounted entry state i lease
  counter : state.usedMap config.band =
    entry.usedMap config.band + (state.fates.countP fun record => record.2.isSubmit : Nat)
  room : (state.inflight.size : Int) ≤ max config.cap entry.inflight.size
  bandRoom : ∀ cap ∈ config.bandCap,
    state.usedMap config.band ≤ max cap (entry.usedMap config.band)

def Kept (state : FillState) : Prop :=
  state.fates.map Prod.fst ++ state.batch = state.taken ∧
    ∀ record ∈ state.fates, record.2 ≠ .submitted false

/-- What every state of a fill knows: the bounds of the batch, the leases of its claims and, while
nothing went wrong, who holds each. -/
structure FillBooks (entry state : FillState) : Prop where
  idle : state.place ≠ .walking → state.batch = []
  busy : state.place = .walking → state.batch ≠ []
  each : state.place ≠ .raised → state.fates.map Prod.fst ++ state.batch = state.taken
  owned : ∀ claim ∈ state.batch, claim.ownerToken ≠ [] ∧
    ∃ lease, state.store.ingestLease claim.identity = some lease ∧ lease.owner = claim.ownerToken
  distinct : (state.batch.map ClaimedJob.identity).Nodup
  freeTotal : state.batch ≠ [] →
    (state.inflight.size : Int) + state.batch.length ≤ config.cap
  freeBand : state.batch ≠ [] → ∀ cap ∈ config.bandCap,
    state.usedMap config.band + state.batch.length ≤ cap
  freeSkips : (state.batch.length : Int) ≤ max 1 (config.budget - state.skipped)
  accepted : ∀ record ∈ state.fates, record.2 ≠ .requeued false ∧ record.2 ≠ .acked false
  settled : (∀ record ∈ state.fates, record.2 ≠ .submitted false) →
    ∀ record ∈ state.fates, record.2.isSubmit = true → Submitted state record.1 ∧
      record.1.identity ∉ state.batch.map ClaimedJob.identity
  leases : Kept state → ∀ i lease, state.store.ingestLease i = some lease →
    Accounted entry state i lease ∨
      ∃ claim ∈ state.batch, claim.identity = i ∧ claim.ownerToken = lease.owner
  counter : state.usedMap config.band =
    entry.usedMap config.band + (state.fates.countP fun record => record.2.isSubmit : Nat)
  room : (state.inflight.size : Int) ≤ max config.cap entry.inflight.size
  bandRoom : ∀ cap ∈ config.bandCap,
    state.usedMap config.band ≤ max cap (entry.usedMap config.band)

variable {config} {entry state next : FillState} {claim : ClaimedJob} {rest : List ClaimedJob}
  {raises : Bool}

theorem enter_books (maps : IngestTracking) :
    FillBooks config (enterFill maps) (enterFill maps) where
  idle _ := rfl
  busy := by simp [enterFill]
  each _ := rfl
  owned := by simp [enterFill]
  distinct := List.nodup_nil
  freeTotal := by simp [enterFill]
  freeBand := by simp [enterFill]
  freeSkips := by simp [enterFill]
  accepted := by simp [enterFill]
  settled := by simp [enterFill]
  leases _ _ _ found := .inl (.inl found)
  counter := by simp [enterFill]
  room := le_max_right _ _
  bandRoom _ _ := le_max_right _ _

theorem FillBooks.conserved_iff (books : FillBooks config entry state)
    (ended : state.place ≠ .walking) : Conserved config entry state ↔ Kept state := by
  have empty := books.idle ended
  constructor
  · intro conserved
    refine ⟨by rw [empty, List.append_nil, conserved.each], fun record member stale => ?_⟩
    have holds := conserved.held record member
    rw [stale] at holds
    exact absurd holds.1 (by decide)
  · intro kept
    have each := kept.1
    rw [empty, List.append_nil] at each
    refine ⟨each, fun record member => ?_, fun i lease found => ?_, books.counter, books.room,
      books.bandRoom⟩
    · have settled := books.settled kept.2 record member
      have accepted := books.accepted record member
      have fresh := kept.2 record member
      obtain ⟨job, fate⟩ := record
      cases fate with
      | submitted flag => exact ⟨by simpa using fresh, (settled rfl).1⟩
      | requeued flag => simpa [FateHolds] using accepted.1
      | acked flag => simpa [FateHolds] using accepted.2
    · rcases books.leases kept i lease found with accounted | ⟨job, member, -⟩
      · exact accounted
      · rw [empty] at member
        cases member

/-- A claim goes back: only its own lease is gone, and of the batch the rest is left, or nothing
where the fill ends by an error. -/
structure GaveBack (config : FillConfig) (state next : FillState) (claim : ClaimedJob)
    (rest : List ClaimedJob) (raises : Bool) : Prop where
  inflight : next.inflight = state.inflight
  claims : next.claims = state.claims
  submitted : next.submitted = state.submitted
  inflightSizes : next.inflightSizes = state.inflightSizes
  usedMap : next.usedMap = state.usedMap
  taken : next.taken = state.taken
  fates : ∃ fate, next.fates = state.fates ++ [(claim, fate)] ∧
    (fate = .requeued true ∨ fate = .acked true)
  leases : ∀ j, next.store.ingestLease j =
    if j = claim.identity then none else state.store.ingestLease j
  raised : next.place = .raised ↔ raises = true
  batch : next.batch = if raises then [] else rest
  idle : next.place ≠ .walking → next.batch = []
  busy : next.place = .walking → next.batch ≠ []
  freeSkips : (rest.length : Int) ≤ max 1 (config.budget - next.skipped)

theorem GaveBack.sublist (gave : GaveBack config state next claim rest raises) :
    next.batch.Sublist rest := by
  rw [gave.batch]
  split
  · exact List.nil_sublist rest
  · exact List.Sublist.refl rest

theorem GaveBack.kept_iff (gave : GaveBack config state next claim rest raises)
    (books : FillBooks config entry state) (batch : state.batch = claim :: rest) :
    Kept next ↔ Kept state ∧ (raises = true → rest = []) := by
  obtain ⟨fate, fates, kind⟩ := gave.fates
  have walking : state.place = .walking := by
    by_contra idle
    rw [books.idle idle] at batch
    cases batch
  have each := books.each (by rw [walking]; decide)
  have fresh : (∀ record ∈ next.fates, record.2 ≠ .submitted false) ↔
      ∀ record ∈ state.fates, record.2 ≠ .submitted false := by
    rw [fates]
    simp only [List.mem_append, List.mem_singleton]
    constructor
    · intro all record member
      exact all record (.inl member)
    · intro all record member
      rcases member with early | rfl
      · exact all record early
      · rcases kind with rfl | rfl <;> simp
  rw [Kept, Kept, fresh, gave.taken, fates, ← each, batch, List.map_append, List.append_assoc]
  simp only [List.map_cons, List.map_nil, List.singleton_append, List.append_cancel_left_eq,
    List.cons.injEq, true_and]
  rw [gave.batch]
  cases raises with
  | true =>
    constructor
    · rintro ⟨none, all⟩
      exact ⟨all, fun _ => none.symm⟩
    · rintro ⟨all, none⟩
      exact ⟨(none rfl).symm, all⟩
  | false => simp

theorem GaveBack.books (gave : GaveBack config state next claim rest raises)
    (books : FillBooks config entry state) (batch : state.batch = claim :: rest) :
    FillBooks config entry next := by
  obtain ⟨fate, fates, kind⟩ := gave.fates
  have part := gave.sublist
  have few : next.batch.length ≤ rest.length := part.length_le
  have full : state.batch.length = rest.length + 1 := by rw [batch, List.length_cons]
  have some : state.batch ≠ [] := by simp [batch]
  have distinct := books.distinct
  rw [batch, List.map_cons, List.nodup_cons] at distinct
  have total := books.freeTotal some
  have keptIff := gave.kept_iff books batch
  have unsubmitted : fate.isSubmit = false := by rcases kind with rfl | rfl <;> rfl
  constructor
  · exact gave.idle
  · exact gave.busy
  · intro going
    have walking : state.place = .walking := by
      by_contra idle
      exact some (books.idle idle)
    have on : raises = false := Bool.eq_false_iff.mpr fun is => going (gave.raised.mpr is)
    rw [gave.taken, fates, gave.batch, on, ← books.each (by rw [walking]; decide), batch]
    simp
  · intro other member
    have among : other ∈ rest := part.subset member
    obtain ⟨named, lease, found, holder⟩ := books.owned other (by simp [batch, among])
    refine ⟨named, lease, ?_, holder⟩
    rw [gave.leases, if_neg, found]
    intro same
    exact distinct.1 (same ▸ List.mem_map_of_mem among)
  · exact (part.map _).nodup distinct.2
  · intro _
    rw [gave.inflight]
    omega
  · intro _ cap limit
    have band := books.freeBand some cap limit
    rw [gave.usedMap]
    omega
  · exact le_trans (by exact_mod_cast few) gave.freeSkips
  · intro record member
    rw [fates] at member
    rcases List.mem_append.mp member with early | last
    · exact books.accepted record early
    · rw [List.mem_singleton.mp last]
      rcases kind with rfl | rfl <;> exact ⟨by simp, by simp⟩
  · intro fresh record member submit
    rw [fates] at fresh member
    rcases List.mem_append.mp member with early | last
    · obtain ⟨held, apart⟩ := books.settled
        (fun other among => fresh other (List.mem_append_left _ among)) record early submit
      rw [batch, List.map_cons, List.mem_cons, not_or] at apart
      refine ⟨⟨?_, ?_, ?_, ?_, ?_⟩, fun among => apart.2 ((part.map _).subset among)⟩
      · rw [gave.inflight]
        exact held.inflight
      · rw [gave.claims]
        exact held.claims
      · rw [gave.submitted]
        exact held.submitted
      · rw [gave.inflightSizes]
        exact held.sizes
      · rw [gave.leases, if_neg apart.1]
        exact held.leased
    · rw [List.mem_singleton.mp last, unsubmitted] at submit
      cases submit
  · intro kept i lease found
    obtain ⟨before, none⟩ := keptIff.mp kept
    have rests : next.batch = rest := by
      rw [gave.batch]
      split
      · next raised => exact (none raised).symm
      · rfl
    rw [gave.leases] at found
    split at found
    · cases found
    · next apart =>
        rcases books.leases before i lease found with held | ⟨other, member, same, token⟩
        · left
          rcases held with early | ⟨record, member, which⟩
          · exact .inl early
          · exact .inr ⟨record, by rw [fates]; exact List.mem_append_left _ member, which⟩
        · right
          rw [batch] at member
          rcases List.mem_cons.mp member with rfl | among
          · exact absurd same.symm apart
          · exact ⟨other, by rw [rests]; exact among, same, token⟩
  · rw [gave.usedMap, fates, books.counter]
    simp [List.countP_append, unsubmitted]
  · rw [gave.inflight]
    exact books.room
  · rw [gave.usedMap]
    exact books.bandRoom

end Books

section Walked

variable {config : FillConfig} {entry state mid next : FillState} {claim : ClaimedJob}
  {rest : List ClaimedJob}

theorem onward_eq (state : FillState) : state.onward config = { state with
    place := if state.batch = [] then
        if config.budget ≤ state.skipped then .returned else .claiming
      else state.place } := by
  unfold FillState.onward
  by_cases empty : state.batch = []
  · rw [if_pos empty, if_pos empty]
  · rw [if_neg empty, if_neg empty]

theorem onward_walking (batch : state.batch = rest) (place : state.place = .walking) :
    state.onward config = { state with
      place := if rest = [] then
          if config.budget ≤ state.skipped then .returned else .claiming
        else .walking } := by
  rw [onward_eq]
  simp only [batch, place]

structure GaveTo (state mid : FillState) (claim : ClaimedJob) : Prop where
  frame : mid = { state with store := mid.store, stats := mid.stats, fates := mid.fates }
  fates : ∃ fate, mid.fates = state.fates ++ [(claim, fate)] ∧
    (fate = .requeued true ∨ fate = .acked true)
  leases : ∀ j, mid.store.ingestLease j =
    if j = claim.identity then none else state.store.ingestLease j

theorem requeueClaim_gave (named : claim.ownerToken ≠ [])
    (owned : ∃ lease, state.store.ingestLease claim.identity = some lease ∧
      lease.owner = claim.ownerToken) (score : Option ℚ) :
    GaveTo state (state.requeueClaim claim score) claim := by
  obtain ⟨accepted, -, leases⟩ := requeue_owned named owned score
  exact ⟨rfl, ⟨_, rfl, .inl (congrArg Fate.requeued accepted)⟩, leases⟩

theorem ackClaim_gave (named : claim.ownerToken ≠ [])
    (owned : ∃ lease, state.store.ingestLease claim.identity = some lease ∧
      lease.owner = claim.ownerToken) : GaveTo state (state.ackClaim claim) claim := by
  obtain ⟨accepted, leases⟩ := ack_owned named owned
  exact ⟨rfl, ⟨_, rfl, .inr (congrArg Fate.acked accepted)⟩, leases⟩

theorem GaveTo.bump (gave : GaveTo state mid claim) (name : Str) :
    GaveTo state (mid.bump name) claim := by
  refine ⟨?_, gave.fates, gave.leases⟩
  have frame := gave.frame
  unfold FillState.bump
  rw [frame]

structure Quiet (state mid : FillState) : Prop where
  frame : mid = { state with store := mid.store, stats := mid.stats }
  leases : ∀ j, mid.store.ingestLease j = state.store.ingestLease j

theorem Quiet.bump (quiet : Quiet state mid) (name : Str) : Quiet state (mid.bump name) := by
  refine ⟨?_, quiet.leases⟩
  have frame := quiet.frame
  unfold FillState.bump
  rw [frame]

theorem refreshed_quiet (state : FillState) (claim : ClaimedJob) (size : Nat) (mtimeNs : Int) :
    Quiet state (state.refreshFingerprint claim size mtimeNs).probe := by
  have refreshed : Quiet state (state.refreshFingerprint claim size mtimeNs) := by
    unfold FillState.refreshFingerprint
    split
    · refine Quiet.bump ⟨rfl, fun j => ?_⟩ _
      simp only [ingestLease, writeJobPayloadField_inflight]
    · exact ⟨rfl, fun _ => rfl⟩
  unfold FillState.probe
  split
  · exact refreshed.bump _
  · exact refreshed

theorem Quiet.gaveTo (quiet : Quiet state mid) (gave : GaveTo mid next claim) :
    GaveTo state next claim := by
  have fates : mid.fates = state.fates := by rw [quiet.frame]
  refine ⟨?_, by rw [← fates]; exact gave.fates, fun j => ?_⟩
  · have frame := gave.frame
    rw [quiet.frame] at frame
    exact frame
  · rw [gave.leases, quiet.leases]

theorem GaveTo.walked (gave : GaveTo { state with batch := rest } mid claim) {skipped : Int}
    {place : FillPlace} (busy : rest ≠ [] → place = .walking)
    (idle : rest = [] → place = .returned ∨ place = .claiming)
    (freeSkips : (rest.length : Int) ≤ max 1 (config.budget - skipped)) :
    GaveBack config state { mid with skipped := skipped, place := place } claim rest false := by
  have batch : mid.batch = rest := by rw [gave.frame]
  have going : place ≠ .raised := by
    by_cases empty : rest = []
    · rcases idle empty with rfl | rfl <;> decide
    · rw [busy empty]
      decide
  constructor
  · rw [gave.frame]
  · rw [gave.frame]
  · rw [gave.frame]
  · rw [gave.frame]
  · rw [gave.frame]
  · rw [gave.frame]
  · exact gave.fates
  · exact gave.leases
  · exact iff_of_false going (by decide)
  · exact batch
  · intro stopped
    by_contra some
    exact stopped (busy (by rwa [← batch]))
  · intro walking none
    rcases idle (by rw [← batch]; exact none) with is | is
    · rw [is] at walking
      cases walking
    · rw [is] at walking
      cases walking
  · exact freeSkips

theorem GaveTo.skip (gave : GaveTo { state with batch := rest } mid claim)
    (walking : state.place = .walking)
    (bound : (rest.length : Int) + 1 ≤ max 1 (config.budget - state.skipped)) :
    GaveBack config state (mid.skip config) claim rest false := by
  have batch : mid.batch = rest := by rw [gave.frame]
  have place : mid.place = .walking := by
    rw [gave.frame]
    exact walking
  have skipped : mid.skipped = state.skipped := by rw [gave.frame]
  unfold FillState.skip
  dsimp only
  split
  · next spent =>
      have none : rest = [] := by exact List.length_eq_zero_iff.mp (by omega)
      have same : ({ mid with skipped := mid.skipped + 1 } : FillState).leave config =
          { mid with skipped := mid.skipped + 1, place := .returned } := by
        unfold FillState.leave
        rw [onward_eq]
        simp only [if_true, if_pos spent]
        rw [← none, ← batch]
      rw [same]
      refine gave.walked (fun some => absurd none some) (fun _ => .inl rfl) ?_
      rw [none]
      exact le_trans (by decide) (le_max_left _ _)
  · next spare =>
      rw [@onward_walking config { mid with skipped := mid.skipped + 1 } rest batch place]
      refine gave.walked (fun some => if_neg some) (fun none => ?_) ?_
      · rw [if_pos none, if_neg spare]
        exact .inr rfl
      · dsimp only
        omega

theorem GaveTo.raise (gave : GaveTo { state with batch := rest } mid claim)
    (bound : (rest.length : Int) + 1 ≤ max 1 (config.budget - state.skipped)) :
    GaveBack config state mid.raise claim rest true := by
  constructor
  · rw [FillState.raise, gave.frame]
  · rw [FillState.raise, gave.frame]
  · rw [FillState.raise, gave.frame]
  · rw [FillState.raise, gave.frame]
  · rw [FillState.raise, gave.frame]
  · rw [FillState.raise, gave.frame]
  · exact gave.fates
  · exact gave.leases
  · exact iff_of_true rfl rfl
  · rfl
  · exact fun _ => rfl
  · nofun
  · have skipped : mid.raise.skipped = state.skipped := by rw [FillState.raise, gave.frame]
    omega

end Walked

section Runs

variable {config : FillConfig} {entry state next : FillState} {claim : ClaimedJob}
  {rest : List ClaimedJob}

theorem FillBooks.walking (books : FillBooks config entry state)
    (batch : state.batch = claim :: rest) : state.place = .walking := by
  by_contra idle
  rw [books.idle idle] at batch
  cases batch

theorem FillBooks.skipRoom (books : FillBooks config entry state)
    (batch : state.batch = claim :: rest) :
    (rest.length : Int) + 1 ≤ max 1 (config.budget - state.skipped) := by
  have bound := books.freeSkips
  rw [batch, List.length_cons] at bound
  exact_mod_cast bound

theorem FillBooks.open_ (books : FillBooks config entry state)
    (batch : state.batch = claim :: rest) :
    ¬config.cap ≤ state.inflight.size ∧ bandIsFull config state = false := by
  have some : state.batch ≠ [] := by simp [batch]
  have full : state.batch.length = rest.length + 1 := by rw [batch, List.length_cons]
  have total := books.freeTotal some
  constructor
  · omega
  · rw [bandIsFull, Option.any_eq_false]
    intro cap limit
    have band := books.freeBand some cap limit
    exact decide_eq_false (by omega)

theorem FillBooks.quiet (books : FillBooks config entry state) {store : Store}
    {stats : Dict Str Nat} (leases : ∀ j, store.ingestLease j = state.store.ingestLease j) :
    FillBooks config entry { state with store := store, stats := stats } where
  idle := books.idle
  busy := books.busy
  each := books.each
  owned := by
    simp only [leases]
    exact books.owned
  distinct := books.distinct
  freeTotal := books.freeTotal
  freeBand := books.freeBand
  freeSkips := books.freeSkips
  accepted := books.accepted
  settled fresh record member submit := by
    obtain ⟨held, apart⟩ := books.settled fresh record member submit
    refine ⟨⟨held.inflight, held.claims, held.submitted, held.sizes, ?_⟩, apart⟩
    simp only [leases]
    exact held.leased
  leases kept := by
    simp only [leases]
    exact books.leases kept
  counter := books.counter
  room := books.room
  bandRoom := books.bandRoom

theorem set_isSome {ν : Type*} (d : Dict Str ν) {i j : Str} (v : ν)
    (held : (d.get? i).isSome) : ((d.set j v).get? i).isSome := by
  rw [Dict.get?_set]
  split
  · rfl
  · exact held

theorem size_set_le {ν : Type*} (d : Dict Str ν) (i : Str) (v : ν) :
    (d.set i v).size ≤ d.size + 1 := by
  have counted : ∀ d : Dict Str ν, d.size = d.count fun _ => true := by
    intro d
    rw [Dict.size, Dict.count, List.countP_true]
  cases found : d.get? i with
  | none =>
    rw [counted, counted, Dict.count_set_new _ found]
    exact le_rfl
  | some old =>
    have same := Dict.count_set_old (fun _ => true) found v
    rw [counted, counted]
    omega

theorem submit_kept (books : FillBooks config entry state) (batch : state.batch = claim :: rest)
    (size async : Nat) (now : ℚ) :
    Kept (({ state with batch := rest }.submit config claim size async now).onward config) ↔
      Kept state ∧ state.inflight.get? claim.identity = none := by
  have each := books.each (by rw [books.walking batch]; decide)
  rw [onward_eq]
  simp only [Kept, FillState.submit, List.map_append, List.append_assoc, ← each, batch,
    List.map_cons, List.map_nil, List.singleton_append, true_and]
  constructor
  · intro all
    refine ⟨fun record member => all record (List.mem_append_left _ member), ?_⟩
    have last := all _ (List.mem_append_right _ (List.mem_singleton_self _))
    simpa using last
  · rintro ⟨all, absent⟩ record member
    rcases List.mem_append.mp member with early | last
    · exact all record early
    · rw [List.mem_singleton.mp last, absent]
      simp

theorem submit_books (books : FillBooks config entry state) (batch : state.batch = claim :: rest)
    (size async : Nat) (now : ℚ) :
    FillBooks config entry
      (({ state with batch := rest }.submit config claim size async now).onward config) := by
  have keptIff := submit_kept books batch size async now
  have some : state.batch ≠ [] := by simp [batch]
  have full : state.batch.length = rest.length + 1 := by rw [batch, List.length_cons]
  have walking := books.walking batch
  have distinct := books.distinct
  rw [batch, List.map_cons, List.nodup_cons] at distinct
  have total := books.freeTotal some
  have grown := size_set_le state.inflight claim.identity async
  rw [onward_eq] at keptIff ⊢
  have among : ∀ other ∈ rest, other ∈ state.batch := by
    intro other member
    rw [batch]
    exact .tail _ member
  constructor
  · intro idle
    by_contra some
    rw [if_neg some] at idle
    exact idle walking
  · intro busy none
    simp only [if_pos none] at busy
    split at busy <;> cases busy
  · intro _
    simp only [FillState.submit, List.map_append, List.append_assoc]
    rw [← books.each (by rw [walking]; decide), batch]
    rfl
  · exact fun other member => books.owned other (among other member)
  · exact distinct.2
  · intro _
    simp only [FillState.submit]
    omega
  · intro _ cap limit
    have band := books.freeBand some cap limit
    simp only [FillState.submit, Function.update_self]
    omega
  · have bound := books.skipRoom batch
    simp only [FillState.submit]
    omega
  · intro record member
    rcases List.mem_append.mp member with early | last
    · exact books.accepted record early
    · rw [List.mem_singleton.mp last]
      exact ⟨by simp, by simp⟩
  · intro fresh record member submit
    have before : ∀ record ∈ state.fates, record.2 ≠ .submitted false :=
      fun record early => fresh record (List.mem_append_left _ early)
    rcases List.mem_append.mp member with early | last
    · obtain ⟨held, apart⟩ := books.settled before record early submit
      rw [batch, List.map_cons, List.mem_cons, not_or] at apart
      refine ⟨⟨set_isSome _ _ held.inflight, ?_, set_isSome _ _ held.submitted, ?_, held.leased⟩,
        apart.2⟩
      · exact (Dict.get?_set_of_ne _ apart.1 _).trans held.claims
      · intro sizes given
        obtain ⟨old, had, is⟩ := Option.mem_map.mp given
        rw [← is]
        exact set_isSome _ _ (held.sizes old had)
    · rw [List.mem_singleton.mp last]
      refine ⟨⟨?_, Dict.get?_set_self _ _ _, ?_, ?_, (books.owned claim (by simp [batch])).2⟩,
        distinct.1⟩
      · simp only [FillState.submit, Dict.get?_set_self, Option.isSome_some]
      · simp only [FillState.submit, Dict.get?_set_self, Option.isSome_some]
      · intro sizes given
        obtain ⟨old, had, is⟩ := Option.mem_map.mp given
        rw [← is, Dict.get?_set_self]
        rfl
  · intro kept i lease found
    rcases books.leases (keptIff.mp kept).1 i lease found with held | ⟨other, member, same, token⟩
    · rcases held with early | ⟨record, member, which⟩
      · exact .inl (.inl early)
      · exact .inl (.inr ⟨record, List.mem_append_left _ member, which⟩)
    · rw [batch] at member
      rcases List.mem_cons.mp member with rfl | later
      · exact .inl (.inr ⟨_, List.mem_append_right _ (List.mem_singleton_self _), rfl, same, token⟩)
      · exact .inr ⟨other, later, same, token⟩
  · simp only [FillState.submit, Function.update_self, List.countP_append, books.counter]
    simp [Fate.isSubmit, add_assoc]
  · simp only [FillState.submit]
    omega
  · intro cap limit
    have band := books.freeBand some cap limit
    simp only [FillState.submit, Function.update_self]
    omega

end Runs

section Steps

variable {config : FillConfig} {entry state : FillState} {claim : ClaimedJob}
  {rest : List ClaimedJob}

theorem fileVerdict_caps (facts : ClaimFacts) (state : FillState) (claim : ClaimedJob) :
    fileVerdict config facts state claim ≠ .full ∧
      fileVerdict config facts state claim ≠ .bandFull := by
  unfold fileVerdict
  split
  · exact ⟨by simp, by simp⟩
  · split
    · exact ⟨by simp, by simp⟩
    · split
      · exact ⟨by simp, by simp⟩
      · split <;> exact ⟨by simp, by simp⟩

theorem FillBooks.verdict (books : FillBooks config entry state)
    (batch : state.batch = claim :: rest) (facts : ClaimFacts) :
    claimVerdict config facts state claim = fileVerdict config facts state claim := by
  obtain ⟨cap, band⟩ := books.open_ batch
  rw [claimVerdict, if_neg cap, band, if_neg (by decide)]

theorem walkClaim_cases (books : FillBooks config entry state) (batch : state.batch = claim :: rest)
    (facts : ClaimFacts) :
    (admits config facts state claim = false ∧ GaveBack config state
      (walkClaim config facts claim { state with batch := rest }) claim rest false) ∨
    (admits config facts state claim = true ∧ facts.asyncResult = none ∧ GaveBack config state
      (walkClaim config facts claim { state with batch := rest }) claim rest true) ∨
    (admits config facts state claim = true ∧ ∃ async size mid, facts.asyncResult = some async ∧
      Quiet { state with batch := rest } mid ∧
      walkClaim config facts claim { state with batch := rest } =
        (mid.submit config claim size async facts.now).onward config) := by
  have walking := books.walking batch
  have bound := books.skipRoom batch
  obtain ⟨named, owned⟩ := books.owned claim (by simp [batch])
  have same : claimVerdict config facts { state with batch := rest } claim =
    fileVerdict config facts state claim := books.verdict batch facts
  have admission : admits config facts state claim = match fileVerdict config facts state claim with
      | .submit _ _ => true
      | _ => false := by rw [admits, books.verdict batch]
  rw [admission]
  unfold walkClaim
  rw [same]
  cases verdict : fileVerdict config facts state claim with
  | full => exact absurd verdict (fileVerdict_caps facts state claim).1
  | bandFull => exact absurd verdict (fileVerdict_caps facts state claim).2
  | reband score =>
    refine .inl ⟨rfl, (GaveTo.bump ?_ _).skip walking bound⟩
    exact @requeueClaim_gave { state with batch := rest } claim named owned _
  | lock =>
    refine .inl ⟨rfl, (GaveTo.bump ?_ _).skip walking bound⟩
    exact @ackClaim_gave { state with batch := rest } claim named owned
  | missing =>
    refine .inl ⟨rfl, (GaveTo.bump ?_ _).skip walking bound⟩
    exact @ackClaim_gave { state with batch := rest } claim named owned
  | held reason size mtimeNs =>
    have quiet := refreshed_quiet { state with batch := rest } claim size mtimeNs
    refine .inl ⟨rfl, (GaveTo.bump (quiet.gaveTo (requeueClaim_gave named ?_ _)) _).skip walking
      bound⟩
    simp only [quiet.leases]
    exact owned
  | submit size mtimeNs =>
    have quiet := refreshed_quiet { state with batch := rest } claim size mtimeNs
    cases facts.asyncResult with
    | none =>
      have noted := quiet.bump (lit "submit_err")
      refine .inr (.inl ⟨rfl, rfl, (noted.gaveTo (requeueClaim_gave named ?_ _)).raise bound⟩)
      simp only [noted.leases]
      exact owned
    | some async => exact .inr (.inr ⟨rfl, async, size, _, rfl, quiet, rfl⟩)

theorem Quiet.books {mid : FillState} (quiet : Quiet { state with batch := rest } mid)
    (books : FillBooks config entry state) :
    FillBooks config entry { state with store := mid.store, stats := mid.stats } ∧
      mid = { { state with store := mid.store, stats := mid.stats } with batch := rest } :=
  ⟨books.quiet quiet.leases, quiet.frame⟩

theorem walkClaim_spec (books : FillBooks config entry state) (batch : state.batch = claim :: rest)
    (facts : ClaimFacts) :
    FillBooks config entry (walkClaim config facts claim { state with batch := rest }) ∧
      (Kept (walkClaim config facts claim { state with batch := rest }) ↔
        Kept state ∧ (admits config facts state claim = true →
          if facts.asyncResult.isSome then state.inflight.get? claim.identity = none
          else rest = [])) := by
  rcases walkClaim_cases books batch facts with ⟨refused, gave⟩ | ⟨admitted, failed, gave⟩ |
    ⟨admitted, async, size, mid, sent, quiet, is⟩
  · rw [refused]
    simpa using And.intro (gave.books books batch) (gave.kept_iff books batch)
  · rw [admitted, failed]
    simpa using And.intro (gave.books books batch) (gave.kept_iff books batch)
  · rw [admitted, sent, is]
    obtain ⟨calm, same⟩ := quiet.books books
    rw [same]
    refine ⟨submit_books calm batch size async facts.now, ?_⟩
    simpa [Kept] using submit_kept calm batch size async facts.now

theorem FillBooks.stop (books : FillBooks config entry state) (empty : state.batch = [])
    (going : state.place ≠ .raised) {place : FillPlace} (stops : place ≠ .walking) {store : Store}
    (stats : Dict Str Nat) (leases : ∀ j, store.ingestLease j = state.store.ingestLease j) :
    FillBooks config entry { state with store := store, stats := stats, place := place } := by
  have calm : FillBooks config entry { state with store := store, stats := stats } :=
    books.quiet leases
  exact { calm with
    idle := fun _ => empty
    busy := fun walking => absurd walking stops
    each := fun _ => books.each going
    settled := fun fresh record member submit =>
      have ⟨held, apart⟩ := calm.settled fresh record member submit
      ⟨⟨held.inflight, held.claims, held.submitted, held.sizes, held.leased⟩, apart⟩ }

theorem FillBooks.take (books : FillBooks config entry state) (claiming : state.place = .claiming)
    (room : ¬config.cap ≤ state.inflight.size) (band : ¬bandIsFull config state = true)
    {store : Store} {owner : Str} {batch : List ClaimedJob} (named : owner ≠ [])
    (took : Took state.store store owner batch)
    (few : (batch.length : Int) ≤ batchSize config state) (filled : batch ≠ []) :
    FillBooks config entry { state with
      store := store, batch := batch, taken := state.taken ++ batch, place := .walking } := by
  have empty : state.batch = [] := books.idle (by rw [claiming]; decide)
  have each := books.each (by rw [claiming]; decide)
  rw [empty, List.append_nil] at each
  have kept : ∀ i lease, state.store.ingestLease i = some lease →
      i ∉ batch.map ClaimedJob.identity ∧ store.ingestLease i = some lease := by
    intro i lease found
    have outside : i ∉ batch.map ClaimedJob.identity := by
      intro member
      obtain ⟨job, among, same⟩ := List.mem_map.mp member
      have free := took.free job among
      rw [same, found] at free
      cases free
    exact ⟨outside, by rw [took.others i outside, found]⟩
  have bandFree : ∀ cap ∈ config.bandCap, state.usedMap config.band < cap := by
    intro cap limit
    rw [bandIsFull, Option.any_eq_true] at band
    by_contra full
    exact band ⟨cap, limit, decide_eq_true (not_lt.mp full)⟩
  have total : batchSize config state ≤ config.cap - state.inflight.size := by
    unfold batchSize
    dsimp only
    omega
  constructor
  · exact fun idle => absurd rfl idle
  · exact fun _ => filled
  · exact fun _ => by rw [each]
  · intro job member
    obtain ⟨token, lease, found, holder⟩ := took.owned job member
    exact ⟨by rw [token]; exact named, lease, found, holder.trans token.symm⟩
  · exact took.distinct
  · intro _
    dsimp only
    omega
  · intro _ cap limit
    have free := bandFree cap limit
    have within : batchSize config state ≤ cap - state.usedMap config.band := by
      unfold batchSize
      rw [limit]
      dsimp only [Option.elim_some]
      omega
    dsimp only
    omega
  · refine le_trans few ?_
    unfold batchSize
    dsimp only
    omega
  · exact books.accepted
  · intro fresh record member submit
    obtain ⟨held, -⟩ := books.settled fresh record member submit
    obtain ⟨lease, found, holder⟩ := held.leased
    obtain ⟨outside, still⟩ := kept _ lease found
    exact ⟨⟨held.inflight, held.claims, held.submitted, held.sizes, lease, still, holder⟩, outside⟩
  · intro good i lease found
    by_cases member : i ∈ batch.map ClaimedJob.identity
    · obtain ⟨job, among, same⟩ := List.mem_map.mp member
      obtain ⟨token, held, leased, holder⟩ := took.owned job among
      rw [same] at leased
      cases leased.symm.trans found
      exact .inr ⟨job, among, same, token.trans holder.symm⟩
    · rw [took.others i member] at found
      have before : Kept state := ⟨by rw [empty, List.append_nil, each], good.2⟩
      rcases books.leases before i lease found with held | ⟨job, none, -⟩
      · exact .inl held
      · rw [empty] at none
        cases none
  · exact books.counter
  · exact books.room
  · exact books.bandRoom

theorem claimBatch_spec (books : FillBooks config entry state) (claiming : state.place = .claiming)
    (parseQueueFull : Bool) (owner : Str) (ttl : Int) (now : ℚ) (fuel : Nat) :
    FillBooks config entry (claimBatch config parseQueueFull owner ttl now fuel state) ∧
      (Kept (claimBatch config parseQueueFull owner ttl now fuel state) ↔ Kept state) := by
  have empty : state.batch = [] := books.idle (by rw [claiming]; decide)
  have going : state.place ≠ .raised := by
    rw [claiming]
    decide
  have each := books.each going
  have stops : FillPlace.returned ≠ .walking := by decide
  unfold claimBatch
  split
  · exact ⟨books.stop empty going stops _ fun _ => rfl, Iff.rfl⟩
  · next room =>
      split
      · exact ⟨books.stop empty going stops _ fun _ => rfl, Iff.rfl⟩
      · split
        · exact ⟨books.stop empty going stops _ fun _ => rfl, Iff.rfl⟩
        · next band =>
            split
            · exact ⟨books, Iff.rfl⟩
            · have raises : FillPlace.raised ≠ .walking := by decide
              exact ⟨books.stop empty going raises _ fun _ => rfl, Iff.rfl⟩
            · next store done =>
                obtain ⟨-, took, -⟩ := claimIngest_took done
                exact ⟨books.stop empty going stops _ fun j =>
                  took.others j (by simp), Iff.rfl⟩
            · next store first rest done =>
                obtain ⟨named, took, few⟩ := claimIngest_took done
                refine ⟨books.take claiming room band named took few (by simp), ?_⟩
                rw [empty, List.append_nil] at each
                simp only [Kept, each, empty, List.append_nil, true_and]

theorem fillStep_spec (books : FillBooks config entry state) (event : FillEvent) :
    FillBooks config entry (fillStep config state event) ∧
      (Kept (fillStep config state event) ↔ Kept state ∧ Smooth config state event) := by
  cases event with
  | pass parseQueueFull owner ttl now fuel =>
    simp only [fillStep, Smooth, and_true]
    split
    · next claiming => exact claimBatch_spec books claiming parseQueueFull owner ttl now fuel
    · exact ⟨books, Iff.rfl⟩
  | claim facts =>
    simp only [fillStep, Smooth]
    split
    · next none => simpa [none] using books
    · next claim rest batch =>
        have spec := walkClaim_spec books batch facts
        simpa only [batch, List.head?_cons, Option.mem_some_iff, forall_eq', List.tail_cons]
          using spec

theorem fill_books (config : FillConfig) (maps : IngestTracking) (events : List FillEvent) :
    FillBooks config (enterFill maps) (fillIngestBand config maps events) :=
  foldl_kept (enter_books maps) fun _ event books => (fillStep_spec books event).1

/-- A fill conserved its claims exactly if no claim that passed the gates was of a file in flight,
and `apply_async` raised for no claim but the last of its batch. -/
theorem fill_conserves_iff (config : FillConfig) (maps : IngestTracking) (events : List FillEvent)
    (ended : (fillIngestBand config maps events).place = .returned ∨
      (fillIngestBand config maps events).place = .raised) :
    Conserved config (enterFill maps) (fillIngestBand config maps events) ↔
      Throughout (fillStep config) (Smooth config) (enterFill maps) events := by
  have stopped : (fillIngestBand config maps events).place ≠ .walking := by
    rcases ended with is | is <;> rw [is] <;> decide
  rw [(fill_books config maps events).conserved_iff stopped]
  have kept := throughout_iff (J := Kept) (K := FillBooks config (enterFill maps))
    (l := events) (enter_books maps) (fun _ event books => (fillStep_spec books event).1)
    fun _ event books => (fillStep_spec books event).2
  refine kept.trans (and_iff_right ⟨rfl, ?_⟩)
  simp [enterFill]

end Steps

section Examples

private theorem fillDay_range : (1 : Int) ≤ 739001 ∧ (739001 : Int) ≤ lastOrdinal := by decide

private def plainWalks : DiscoverConfig where
  archiveDir := lit "/a"
  ingestCap := 9
  queueCap := 9
  hotDays := 1
  normpath := id
  skipped _ := false
  basenameDate _ := none
  startdate := none
  enddate := none
  fingerprint _ _ := []
  sha1 _ := []

private def twoWorkers : FillConfig := ⟨plainWalks, fun _ => none, .hot, 2, none, none⟩

private def queuedFiles (files : List Str) : Store :=
  files.foldl (fun s file => (s.zaddIngest file 1 none false 9).1) .empty

private def idlePool (store : Store) : IngestTracking :=
  ⟨store, .empty, .empty, .empty, some .empty, none, .empty⟩

private def reapedPool : IngestTracking :=
  let files := Dict.empty.set (lit "/a/1") 7
  { idlePool (queuedFiles [lit "/a/1"]) with inflight := files, inflightSizes := some files }

private def onDisk (asyncResult : Option Nat) : FillEvent :=
  .claim ⟨⟨739001, fillDay_range⟩, some (1, 0), 0, true, true, asyncResult, 0⟩

private def takes : FillEvent := .pass false (lit "w") 60 0 9

/-- The pool refuses the first of two claims: the other one stays leased, and is in no map. A file
still in flight whose lease was reaped is submitted again. -/
theorem fill_loses_claims :
    ((fillIngestBand twoWorkers (idlePool (queuedFiles [lit "/a/1", lit "/a/2"]))
        [takes, onDisk none]).place = .raised ∧
      ¬Conserved twoWorkers (enterFill (idlePool (queuedFiles [lit "/a/1", lit "/a/2"])))
        (fillIngestBand twoWorkers (idlePool (queuedFiles [lit "/a/1", lit "/a/2"]))
          [takes, onDisk none])) ∧
    ((fillIngestBand twoWorkers reapedPool [takes, onDisk (some 8), takes]).place = .returned ∧
      ¬Conserved twoWorkers (enterFill reapedPool)
        (fillIngestBand twoWorkers reapedPool [takes, onDisk (some 8), takes])) := by
  refine ⟨⟨by decide +kernel, fun conserved => ?_⟩, ⟨by decide +kernel, fun conserved => ?_⟩⟩
  · exact absurd conserved.each (by decide +kernel)
  · have again : ∃ record ∈ (fillIngestBand twoWorkers reapedPool
        [takes, onDisk (some 8), takes]).fates, record.2 = .submitted false := by
      decide +kernel
    obtain ⟨record, member, is⟩ := again
    have held := conserved.held record member
    rw [is] at held
    exact absurd held.1 (by decide)

theorem fill_conserves_pair :
    Conserved twoWorkers (enterFill (idlePool (queuedFiles [lit "/a/1", lit "/a/2"])))
      (fillIngestBand twoWorkers (idlePool (queuedFiles [lit "/a/1", lit "/a/2"]))
        [takes, onDisk (some 1), onDisk (some 2), takes]) :=
  (fill_conserves_iff twoWorkers _ _ (.inl (by decide +kernel))).mpr (by decide +kernel)

end Examples

end PerfStats.Orchestrator
