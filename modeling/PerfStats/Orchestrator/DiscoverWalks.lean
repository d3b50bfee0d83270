import PerfStats.JobStore.BestClaims
import PerfStats.JobStore.Slots
import PerfStats.Words

/-! Discover walks over the raw archive, which file records into the ingest queue while claims and
acks go on, and ask for a later walk where not everything was queued. -/

namespace PerfStats.Orchestrator

open JobStore
open Lib

section Windows

def rsplitOnce (marker : Str) : Str → Option (Str × Str)
  | [] => none
  | c :: rest =>
    match rsplitOnce marker rest with
    | some (front, back) => some (c :: front, back)
    | none =>
      if Text.startsWith marker (c :: rest) then some ([], (c :: rest).drop marker.length)
      else none

def intText (n : Int) : Str :=
  if n < 0 then '-' :: Text.decimalText n.natAbs else Text.decimalText n.natAbs

variable (normpath : Str → Str)

def discoverJobIdentity (archiveDir : Str) (mtimeDays : Option Int) : Str :=
  lit "rescan|" ++ normpath archiveDir ++ lit "|mtime=" ++ mtimeDays.elim (lit "all") intText

def discoverMtimeDays (identity archiveDir : Str) (fallback : Option Int) : Option Int :=
  if !Text.startsWith (lit "rescan|") identity then fallback
  else
    match rsplitOnce (lit "|mtime=") (identity.drop (lit "rescan|").length) with
    | none => fallback
    | some (path, window) =>
      if normpath path ≠ normpath archiveDir then fallback
      else if window = lit "all" then none
      else (Text.parseInt window).map some |>.getD fallback

end Windows

section Walk

structure FindRecord where
  path : Str
  size : Nat
  mtimeNs : Int
deriving DecidableEq

structure DiscoverConfig where
  archiveDir : Str
  /-- `discover_ingest_capacity_limit`. -/
  ingestCap : Int
  /-- `queue_capacity_limit`. -/
  queueCap : Int
  hotDays : Int
  normpath : Str → Str
  skipped : Str → Bool
  basenameDate : Str → Option Day
  startdate : Option Day
  enddate : Option Day
  fingerprint : Nat → Int → Str
  sha1 : Str → List UInt8

structure QueueWorld where
  store : Store
  complete : Finset Str
  archived : Finset Str
  active : Finset Str
  blocked : Finset JobKey

structure ReconstructPlan where
  identity : Str
  fingerprint : Str
  needsIngest : Bool
  needsAppend : Bool
  day : Option Day
deriving DecidableEq

inductive WalkStep where
  | next
  | classify (record : FindRecord) (hasCap : Bool)
  | room (plan : ReconstructPlan) (hasCap : Bool)
  | roomInflight (plan : ReconstructPlan)
  | evict (plan : ReconstructPlan)
  | recount (plan : ReconstructPlan)
  | ingestBlocked (plan : ReconstructPlan)
  | zadd (plan : ReconstructPlan)
  | refused (plan : ReconstructPlan)
  | refusedInflight (plan : ReconstructPlan)
  | stillBlocked (plan : ReconstructPlan)
  | appendBlocked (plan : ReconstructPlan)
  | append (plan : ReconstructPlan)
  | closing (left : List Str)
  | closingInflight (gone : Str) (day : Day) (left : List Str)
  | ended
deriving DecidableEq

/-- One walk; `pushedOut` is every file it dropped or evicted. -/
structure Walk where
  job : ClaimedJob
  window : Option Int
  today : Day
  records : List FindRecord
  step : WalkStep
  dropped : Nat
  frontier : Option Day
  evicted : List Str
  pushedOut : List Str

variable (config : DiscoverConfig)

def selectIngestBand (day today : Day) : Band :=
  let age := today.1 - day.1
  if age < 0 then .hot else if age < max 1 config.hotDays then .hot else .catchup

def lowered (frontier : Option Day) (day : Day) : Option Day :=
  some (frontier.elim day fun frontier => if frontier.1 ≤ day.1 then frontier else day)

def inWindow (startdate enddate : Option Day) (record : FindRecord) : Bool :=
  match config.basenameDate record.path with
  | none => false
  | some day => startdate.all (fun first => decide (first.1 ≤ day.1)) &&
      enddate.all fun last => decide (day.1 ≤ last.1)

def filterFindRecords (startdate enddate : Option Day) (records : List FindRecord) :
    List FindRecord :=
  if startdate = none ∧ enddate = none then records
  else records.filter (inWindow config startdate enddate)

def ingestQueued (store : Store) (identity : Str) : Bool :=
  (store.ingest.get? identity).isSome || ((store.inflight .ingest).get? identity).isSome

def classifyClosedRawPath (world : QueueWorld) (record : FindRecord) : ReconstructPlan :=
  let norm := config.normpath record.path
  let fingerprint := config.fingerprint record.size record.mtimeNs
  let day := config.basenameDate record.path
  if config.skipped norm || decide (norm ∈ world.active) then ⟨norm, fingerprint, false, false, day⟩
  else
    let complete := decide (norm ∈ world.complete)
    ⟨norm, fingerprint, !complete, !(complete && decide (norm ∈ world.archived)), day⟩

namespace Walk

def isBackfill (walk : Walk) (day : Option Day) : Bool :=
  day.any fun day => decide (selectIngestBand config day walk.today ≠ .hot)

def drop (walk : Walk) (identity : Str) (day : Option Day) : Walk :=
  { walk with
    dropped := walk.dropped + 1
    frontier := day.elim walk.frontier (lowered walk.frontier)
    pushedOut := walk.pushedOut ++ [identity] }

def goto (walk : Walk) (step : WalkStep) : Walk := { walk with step := step }

def enqueued (walk : Walk) (plan : ReconstructPlan) (queued : Bool) : Walk :=
  if walk.isBackfill config plan.day && plan.needsIngest && !queued then
    walk.goto (.stillBlocked plan)
  else walk.goto .next

/-- `encode_ingest_score` for the band of the plan's day. -/
def score (walk : Walk) (plan : ReconstructPlan) (day : Day) : Int :=
  let band := if selectIngestBand config day walk.today = .hot then lit "hot" else lit "catchup"
  match encodeIngestScore config.sha1 band day walk.today plan.identity with
  | .ok score => score
  | .error _ => 0

def nextRecord (walk : Walk) (world : QueueWorld) : Walk :=
  match walk.records with
  | [] => walk.goto (.closing walk.evicted)
  | record :: rest =>
    let walk := { walk with records := rest }
    if config.skipped record.path then walk
    else
      let day := config.basenameDate record.path
      -- latched for the walk: no younger day is admitted ahead of the frontier
      if walk.isBackfill config day &&
          walk.frontier.any fun frontier => day.any fun day => decide (frontier.1 ≤ day.1) then
        { walk.drop (config.normpath record.path) none with step := .next }
      else walk.goto (.classify record (world.store.hasCapacity .ingest config.ingestCap))

/-- One step of `stream_enqueue_ingest_from_find_records`. -/
def advance (walk : Walk) (world : QueueWorld) : QueueWorld × Walk :=
  match walk.step with
  | .next => (world, walk.nextRecord config world)
  | .classify record hasCap =>
    (world, walk.goto (.room (classifyClosedRawPath config world record) hasCap))
  | .room plan hasCap =>
    if walk.isBackfill config plan.day && !hasCap && plan.needsIngest then
      if (world.store.ingest.get? plan.identity).isSome then
        (world, walk.goto (.ingestBlocked plan))
      else (world, walk.goto (.roomInflight plan))
    else (world, walk.goto (.ingestBlocked plan))
  | .roomInflight plan =>
    if ((world.store.inflight .ingest).get? plan.identity).isSome then
      (world, walk.goto (.ingestBlocked plan))
    else (world, walk.goto (.evict plan))
  | .evict plan =>
    match world.store.evictYoungestCatchupIngest (plan.day.elim 0 (·.1)) with
    | (store, none) =>
      let plan' := { plan with needsIngest := false, needsAppend := false }
      ({ world with store := store },
        (walk.drop plan.identity plan.day).goto (.ingestBlocked plan'))
    | (store, some gone) =>
      ({ world with store := store },
        { walk with
          step := .recount plan
          evicted := walk.evicted ++ [gone]
          pushedOut := walk.pushedOut ++ [gone] })
  | .recount plan =>
    (world, walk.goto (.room plan (world.store.hasCapacity .ingest config.ingestCap)))
  | .ingestBlocked plan =>
    if plan.needsIngest then
      if (Kind.ingest, plan.identity) ∈ world.blocked ∨ plan.day = none then
        (world, walk.enqueued config plan false)
      else (world, walk.goto (.zadd plan))
    else if plan.needsAppend then (world, walk.goto (.appendBlocked plan))
    else (world, walk.enqueued config plan false)
  | .zadd plan =>
    match plan.day with
    | none => (world, walk.enqueued config plan false)
    | some day =>
      let (store, added) := world.store.zaddIngest plan.identity (walk.score config plan day)
        (if plan.fingerprint = [] then none else some plan.fingerprint) false config.ingestCap
      ({ world with store := store },
        if added = 1 then walk.enqueued config plan true else walk.goto (.refused plan))
  | .refused plan =>
    if (world.store.ingest.get? plan.identity).isSome then
      (world, walk.enqueued config plan true)
    else (world, walk.goto (.refusedInflight plan))
  | .refusedInflight plan =>
    (world, walk.enqueued config plan
      ((world.store.inflight .ingest).get? plan.identity).isSome)
  | .stillBlocked plan =>
    if (Kind.ingest, plan.identity) ∈ world.blocked then (world, walk.goto .next)
    else (world, (walk.drop plan.identity plan.day).goto .next)
  | .appendBlocked plan =>
    if (Kind.append, plan.identity) ∈ world.blocked then (world, walk.goto .next)
    else (world, walk.goto (.append plan))
  | .append plan =>
    match world.store.enqueueList .append plan.identity true config.queueCap with
    | .ok (store, _) => ({ world with store := store }, walk.goto .next)
    | .error _ => (world, walk.goto .next)
  | .closing [] => (world, walk.goto .ended)
  | .closing (gone :: left) =>
    match config.basenameDate gone with
    | none => (world, walk.goto (.closing left))
    | some day =>
      if (world.store.ingest.get? gone).isSome then (world, walk.goto (.closing left))
      else (world, walk.goto (.closingInflight gone day left))
  | .closingInflight gone day left =>
    if ((world.store.inflight .ingest).get? gone).isSome then
      (world, walk.goto (.closing left))
    else (world, { walk with frontier := lowered walk.frontier day, step := .closing left })
  | .ended => (world, walk)

def begin_ (job : ClaimedJob) (window : Option Int) (today : Day) (records : List FindRecord) :
    Walk where
  job := job
  window := window
  today := today
  records := records
  step := .next
  dropped := 0
  frontier := none
  evicted := []
  pushedOut := []

end Walk

end Walk

section Passes

inductive BackgroundTask where
  | idle
  | submitted (mtimeDays : Option Int)
  | walking (walk : Walk)

/-- Where the reconstruct coordinator is in `_idle_reconstruct_pass`. -/
inductive CoordinatorStep where
  | idle
  | due (mtimeDays : Int)
  | enqueue (force : Bool) (mtimeDays : Option Int)
  | submit (mtimeDays : Option Int)
  | claim (mtimeDays : Option Int)
  | walking (walk : Walk)

structure DiscoverState where
  world : QueueWorld
  fullRediscoverPending : Bool
  bootFullDiscoverPending : Bool
  frontier : Option Day
  background : BackgroundTask
  coordinator : CoordinatorStep

/-- What a thread that takes a discover job finds: its lease, the day, the records of the find, or
that the claim raises. -/
structure DiscoverClaim where
  fails : Bool
  owner : Str
  ttl : Int
  now : ℚ
  today : Day
  records : List FindRecord

inductive DiscoverEvent where
  | call (fuel : Nat) (call : Call)
  | marks (complete archived active : Finset Str) (blocked : Finset JobKey)
  | idlePass (force : Bool) (mtimeDays : Option Int)
  | fullRediscoverDue (elapsed : Bool)
  | enqueueDiscover (fails : Bool)
  | submit
  | claim (background : Bool) (claim : DiscoverClaim)
  | walk (background : Bool)
  | raise

variable (config : DiscoverConfig)

def wholeArchive : Str := discoverJobIdentity config.normpath config.archiveDir none

def DiscoverState.walkOf (state : DiscoverState) (background : Bool) : Option Walk :=
  if background then
    match state.background with
    | .walking walk => some walk
    | _ => none
  else
    match state.coordinator with
    | .walking walk => some walk
    | _ => none

def recordDiscoverFrontier (walked : Option Day) (wholeArchive : Bool) (before : Option Day) :
    Option Day :=
  match before, wholeArchive with
  | some before, false => walked.elim (some before) (lowered (some before))
  | _, _ => walked

def DiscoverState.ackDiscover (state : DiscoverState) (job : ClaimedJob) : DiscoverState :=
  { state with
    world.store := (state.world.store.ack .discover job.identity job.ownerToken).1 }

/-- `_full_rediscover_due`, with the clock's answer. -/
def DiscoverState.due (state : DiscoverState) (mtimeDays : Int) (elapsed : Bool) : DiscoverState :=
  let catchup : Int := state.world.store.ingest.count (Store.inBand .catchup)
  if !state.fullRediscoverPending && !elapsed then
    { state with coordinator := .enqueue false (some mtimeDays) }
  else if max 1 (config.ingestCap / 2) < catchup then
    { state with coordinator := .enqueue false (some mtimeDays) }
  else { state with fullRediscoverPending := false, coordinator := .enqueue false none }

def DiscoverState.enqueueDiscover (state : DiscoverState) (mtimeDays : Option Int) (fails : Bool) :
    DiscoverState :=
  let identity := discoverJobIdentity config.normpath config.archiveDir mtimeDays
  match state.world.store.enqueueList .discover identity true config.queueCap with
  | .ok (store, _) => if fails then state else { state with world.store := store }
  | .error _ => state

def DiscoverState.claimDiscover (state : DiscoverState) (claim : DiscoverClaim)
    (window : Str → Option Int) : DiscoverState × Option Walk :=
  if claim.fails then (state, none)
  else
    match state.world.store.claimList .discover claim.owner claim.ttl claim.now with
    | .ok (store, some job) => ({ state with world.store := store },
        some (Walk.begin_ job (window job.identity) claim.today
          (filterFindRecords config config.startdate config.enddate claim.records)))
    | .ok (store, none) => ({ state with world.store := store }, none)
    | .error _ => (state, none)

def DiscoverState.finish (state : DiscoverState) (background : Bool) (walk : Walk) :
    DiscoverState :=
  let whole := walk.window.isNone
  let recorded :=
    { state with
      fullRediscoverPending :=
        state.fullRediscoverPending || (background && decide (0 < walk.dropped))
      frontier := recordDiscoverFrontier walk.frontier whole state.frontier
      bootFullDiscoverPending := state.bootFullDiscoverPending && !whole }
  let acked := recorded.ackDiscover walk.job
  if background then { acked with background := .idle }
  else { acked with coordinator := .claim walk.window }

def discoverStep (state : DiscoverState) : DiscoverEvent → DiscoverState
  | .call fuel call =>
    match state.world.store.perform fuel call with
    | some (store, _) => { state with world.store := store }
    | none => state
  | .marks complete archived active blocked =>
    { state with world := ⟨state.world.store, complete, archived, active, blocked⟩ }
  | .idlePass force mtimeDays =>
    match state.coordinator, state.background with
    | .idle, background =>
      match force, background, mtimeDays with
      | true, _, _ => { state with coordinator := .enqueue true mtimeDays }
      | false, .idle, some days => { state with coordinator := .due days }
      | false, .idle, none => { state with coordinator := .enqueue false none }
      -- a background walk is running: only the daily directory is scanned
      | false, _, _ => state
    | _, _ => state
  | .fullRediscoverDue elapsed =>
    match state.coordinator with
    | .due mtimeDays => state.due config mtimeDays elapsed
    | _ => state
  | .enqueueDiscover fails =>
    match state.coordinator with
    | .enqueue force mtimeDays =>
      { state.enqueueDiscover config mtimeDays fails with
        coordinator := if force then .claim mtimeDays else .submit mtimeDays }
    | _ => state
  | .submit =>
    match state.coordinator, state.background with
    | .submit mtimeDays, .idle =>
      { state with coordinator := .idle, background := .submitted mtimeDays }
    | .submit _, _ => { state with coordinator := .idle }
    | _, _ => state
  | .claim true claim =>
    match state.background with
    | .submitted mtimeDays =>
      let window := fun identity =>
        discoverMtimeDays config.normpath identity config.archiveDir mtimeDays
      match state.claimDiscover config claim window with
      | (state, some walk) => { state with background := .walking walk }
      | (state, none) => { state with background := .idle }
    | _ => state
  | .claim false claim =>
    match state.coordinator with
    | .claim mtimeDays =>
      match state.claimDiscover config claim fun _ => mtimeDays with
      | (state, some walk) => { state with coordinator := .walking walk }
      | (state, none) => { state with coordinator := .idle }
    | _ => state
  | .walk background =>
    match state.walkOf background with
    | none => state
    | some walk =>
      if walk.step = .ended then state.finish background walk
      else
        let (world, walk) := walk.advance config state.world
        if background then { state with world := world, background := .walking walk }
        else { state with world := world, coordinator := .walking walk }
  | .raise =>
    match state.background with
    | .walking walk =>
      { (state.ackDiscover walk.job) with
        fullRediscoverPending := true
        bootFullDiscoverPending := state.bootFullDiscoverPending && walk.window.isSome
        background := .idle }
    | _ => state

def DiscoverState.boot (world : QueueWorld) (rescanDays : Int) : DiscoverState :=
  let quiet : DiscoverState := ⟨world, false, true, none, .submitted (some rescanDays), .idle⟩
  (quiet.enqueueDiscover config (some rescanDays) false).enqueueDiscover config none false

end Passes

section Promise

variable (config : DiscoverConfig)

def Covered (world : QueueWorld) (identity : Str) : Prop :=
  ingestQueued world.store identity = true ∨ identity ∈ world.complete ∨
    (Kind.ingest, identity) ∈ world.blocked

def WalkOwed (state : DiscoverState) : Prop :=
  state.fullRediscoverPending = true ∨ wholeArchive config ∈ state.world.store.lists .discover ∨
    ((state.world.store.inflight .discover).get? (wholeArchive config)).isSome = true

/-- A whole-archive discover is owed apart from the walk's own job. -/
def OwedApart (state : DiscoverState) (walk : Walk) : Prop :=
  WalkOwed config state ∧ (walk.job.identity = wholeArchive config →
    state.fullRediscoverPending = true ∨ wholeArchive config ∈ state.world.store.lists .discover)

def Walk.Ahead (walk : Walk) (identity : Str) : Prop :=
  config.skipped identity = false ∧ ∃ record ∈ walk.records,
    config.normpath record.path = identity ∧ config.skipped record.path = false ∧
      walk.isBackfill config (config.basenameDate record.path) = true

/-- What a walk pushes out at the cap: a file that it reaches again, or, in the background, one that
it drops or evicts behind a drop. One it evicted is no active segment when it gets there. -/
def Walk.Pushes (walk : Walk) (background : Bool) (world : QueueWorld) : Prop :=
  match walk.step with
  | .classify record _ =>
    config.normpath record.path ∈ walk.evicted → config.normpath record.path ∉ world.active
  | .evict plan =>
    match (world.store.evictYoungestCatchupIngest (plan.day.elim 0 (·.1))).2 with
    | none => background = true
    | some gone => walk.Ahead config gone ∨ background = true ∧ 0 < walk.dropped
  | .stillBlocked plan => background = true ∨ (Kind.ingest, plan.identity) ∈ world.blocked
  | _ => True

def DiscoverEvent.walks : DiscoverEvent → Option Bool
  | .walk background => some background
  | _ => none

/-- A walk ends while another whole-archive discover is owed, or keeps to `Pushes` and no other
thread takes a file it evicted out of the queue. -/
def Heeds (backed : ClaimedJob → Bool) (state : DiscoverState) (event : DiscoverEvent) : Prop :=
  ∀ background, ∀ walk ∈ state.walkOf background,
    if event.walks = some background then
      if backed walk.job then walk.step = .ended → OwedApart config state walk
      else walk.Pushes config background state.world
    else backed walk.job = true ∨ ∀ gone ∈ walk.evicted, Covered state.world gone →
      Covered (discoverStep config state event).world gone

instance (world : QueueWorld) (identity : Str) : Decidable (Covered world identity) :=
  inferInstanceAs (Decidable (_ ∨ _ ∨ _))

instance (state : DiscoverState) : Decidable (WalkOwed config state) :=
  inferInstanceAs (Decidable (_ ∨ _ ∨ _))

instance (state : DiscoverState) (walk : Walk) : Decidable (OwedApart config state walk) :=
  inferInstanceAs (Decidable (_ ∧ (_ → _)))

instance (walk : Walk) (identity : Str) : Decidable (walk.Ahead config identity) :=
  inferInstanceAs (Decidable (_ ∧ _))

instance (walk : Walk) (background : Bool) (world : QueueWorld) :
    Decidable (walk.Pushes config background world) := by
  unfold Walk.Pushes
  split
  case h_2 => split <;> infer_instance
  all_goals infer_instance

instance (backed : ClaimedJob → Bool) (state : DiscoverState) (event : DiscoverEvent) :
    Decidable (Heeds config backed state event) :=
  inferInstanceAs (Decidable (∀ background, ∀ walk ∈ state.walkOf background, ite _ _ _))

end Promise

section Bookkeeping

variable {config : DiscoverConfig} {state : DiscoverState} {walk : Walk} {world : QueueWorld}
  {plan : ReconstructPlan} {event : DiscoverEvent}

def Walk.Holds (config : DiscoverConfig) (walk : Walk) (plan : ReconstructPlan) (identity : Str) :
    Prop :=
  plan.identity = identity ∧ plan.needsIngest = true ∧ walk.isBackfill config plan.day = true

def Walk.InHand (config : DiscoverConfig) (walk : Walk) (identity : Str) : Prop :=
  match walk.step with
  | .classify record _ => config.skipped identity = false ∧
      config.normpath record.path = identity ∧
        walk.isBackfill config (config.basenameDate record.path) = true
  | .room plan _ | .roomInflight plan | .evict plan | .recount plan | .ingestBlocked plan
  | .zadd plan | .refused plan | .refusedInflight plan | .stillBlocked plan =>
    walk.Holds config plan identity
  | _ => False

theorem Walk.inHand_at (walk : Walk) (config : DiscoverConfig) {step : WalkStep}
    (at_ : walk.step = step) (identity : Str) (hand : walk.InHand config identity) :
    (walk.goto step).InHand config identity := at_ ▸ hand

def WalkStep.closes : WalkStep → Bool
  | .closing _ | .closingInflight _ _ _ | .ended => true
  | _ => false

structure NoneLost (config : DiscoverConfig) (world : QueueWorld) (walk : Walk) : Prop where
  frontier : walk.step.closes = false → walk.frontier = none
  tracked : ∀ gone ∈ walk.pushedOut, gone ∈ walk.evicted ∧ (Covered world gone ∨
    walk.step.closes = false ∧ (walk.Ahead config gone ∨ walk.InHand config gone))

/-- What a walk with `Pushes` keeps. -/
def WalkKept (config : DiscoverConfig) (background : Bool) (world : QueueWorld) (walk : Walk) : Prop :=
  (background = true ∧ 0 < walk.dropped) ∨ NoneLost config world walk

theorem NoneLost.frame {world after : QueueWorld} (clean : NoneLost config world walk)
    (spared : ∀ gone ∈ walk.evicted, Covered world gone → Covered after gone) :
    NoneLost config after walk := by
  refine ⟨clean.frontier, fun gone member => ?_⟩
  obtain ⟨evicted, placed⟩ := clean.tracked gone member
  exact ⟨evicted, placed.imp_left (spared gone evicted)⟩

theorem NoneLost.goto {next : Walk} (clean : NoneLost config world walk)
    (pushedOut : next.pushedOut = walk.pushedOut) (evicted : next.evicted = walk.evicted)
    (frontier : next.step.closes = false → walk.step.closes = false ∧ next.frontier = walk.frontier)
    (ahead : ∀ gone ∈ walk.evicted, walk.step.closes = false → walk.Ahead config gone →
      Covered world gone ∨ next.step.closes = false ∧ (next.Ahead config gone ∨ next.InHand config gone))
    (inHand : ∀ gone ∈ walk.evicted, walk.InHand config gone →
      Covered world gone ∨ next.step.closes = false ∧ (next.Ahead config gone ∨ next.InHand config gone)) :
    NoneLost config world next := by
  refine ⟨fun open_ => ?_, fun gone member => ?_⟩
  · obtain ⟨was, same⟩ := frontier open_
    rw [same]
    exact clean.frontier was
  · rw [pushedOut] at member
    obtain ⟨there, placed⟩ := clean.tracked gone member
    refine ⟨evicted ▸ there, ?_⟩
    rcases placed with covered | ⟨was, ahead_ | hand⟩
    · exact .inl covered
    · exact ahead gone there was ahead_
    · exact inHand gone there hand

theorem NoneLost.step (clean : NoneLost config world walk) (step : WalkStep)
    (closes : step.closes = walk.step.closes)
    (inHand : ∀ gone ∈ walk.evicted, walk.InHand config gone →
      Covered world gone ∨ (walk.goto step).InHand config gone) :
    NoneLost config world (walk.goto step) := by
  refine clean.goto rfl rfl (fun open_ => ⟨closes ▸ open_, rfl⟩)
    (fun gone _ open_ ahead => .inr ⟨closes.trans open_, .inl ahead⟩) fun gone evicted hand => ?_
  refine (inHand gone evicted hand).imp_right fun still => ⟨?_, .inr still⟩
  rw [show (walk.goto step).step = step from rfl]
  unfold Walk.InHand Walk.goto at still
  cases step <;> first | rfl | cases still

theorem NoneLost.enqueued (clean : NoneLost config world walk)
    {queued : Bool} (open_ : walk.step.closes = false)
    (inHand : ∀ gone, walk.InHand config gone → walk.Holds config plan gone)
    (back : queued = true → Covered world plan.identity) :
    NoneLost config world (walk.enqueued config plan queued) := by
  unfold Walk.enqueued
  split
  · exact clean.step _ open_.symm fun gone _ hand => .inr (inHand gone hand)
  next other =>
    refine clean.step _ open_.symm fun gone _ hand => .inl ?_
    obtain ⟨same, needs, backfill⟩ := inHand gone hand
    rw [needs, backfill, Bool.true_and, Bool.true_and, Bool.not_eq_true, Bool.not_eq_false'] at other
    exact same ▸ back other

theorem enqueued_frame {queued : Bool} :
    (walk.enqueued config plan queued).dropped = walk.dropped ∧
      (walk.enqueued config plan queued).job = walk.job := by
  unfold Walk.enqueued
  split <;> exact ⟨rfl, rfl⟩

theorem advance_frame (world : QueueWorld) :
    walk.dropped ≤ (walk.advance config world).2.dropped ∧
      (walk.advance config world).2.job = walk.job := by
  unfold Walk.advance Walk.nextRecord
  split <;> (try dsimp only)
  all_goals repeat' split
  all_goals
    first
    | exact ⟨le_rfl, rfl⟩
    | exact ⟨Nat.le_succ _, rfl⟩
    | exact ⟨enqueued_frame.1.ge, enqueued_frame.2⟩

theorem NoneLost.nextRecord (clean : NoneLost config world walk)
    (at_ : walk.step = .next) : NoneLost config world (walk.nextRecord config world) := by
  have open_ : walk.step.closes = false := by rw [at_]; rfl
  have empty_ := walk.inHand_at config at_
  unfold Walk.nextRecord
  split
  next empty =>
    refine clean.goto rfl rfl (fun closed => by cases closed) (fun gone _ _ ahead => ?_)
      fun gone _ hand => absurd hand (empty_ gone)
    obtain ⟨_, record, member, _⟩ := ahead
    rw [empty] at member
    cases member
  next record rest found =>
    dsimp only
    split
    next skipped =>
      refine clean.goto rfl rfl (fun _ => ⟨open_, rfl⟩) (fun gone _ _ ahead => ?_)
        fun gone _ hand => absurd hand (empty_ gone)
      obtain ⟨taken, own, member, same, read, backfill⟩ := ahead
      rw [found] at member
      rcases List.mem_cons.mp member with rfl | later
      · rw [skipped] at read
        cases read
      · exact .inr ⟨open_, .inl ⟨taken, own, later, same, read, backfill⟩⟩
    · rw [if_neg (by simp [clean.frontier open_])]
      refine clean.goto rfl rfl (fun _ => ⟨open_, rfl⟩) (fun gone _ _ ahead => ?_)
        fun gone _ hand => absurd hand (empty_ gone)
      obtain ⟨taken, own, member, same, read, backfill⟩ := ahead
      rw [found] at member
      rcases List.mem_cons.mp member with rfl | later
      · exact .inr ⟨rfl, .inr ⟨taken, same, backfill⟩⟩
      · exact .inr ⟨rfl, .inl ⟨taken, own, later, same, read, backfill⟩⟩

theorem covered_of_store {store : Store} {gone : Str}
    (queued : ingestQueued world.store gone = true → ingestQueued store gone = true)
    (covered : Covered world gone) : Covered { world with store := store } gone :=
  covered.imp_left queued

theorem zadd_queued {s : Store} {i j : Str} {q : ℚ} {fingerprint : Option Str} {overCap : Bool}
    {cap : Int} : (ingestQueued s j = true →
        ingestQueued (s.zaddIngest i q fingerprint overCap cap).1 j = true) ∧
      ((s.zaddIngest i q fingerprint overCap cap).2 = 1 →
        ingestQueued (s.zaddIngest i q fingerprint overCap cap).1 i = true) := by
  have set : ∀ k, ingestQueued (s.ingestSet i q) k = (decide (k = i) || ingestQueued s k) := by
    intro k
    rw [ingestQueued, ingestQueued, Store.ingestSet_ingest, Store.ingestSet_inflight, Dict.get?_set]
    by_cases same : k = i <;> simp [same]
  unfold Store.zaddIngest
  split
  · exact ⟨id, fun added => by cases added⟩
  · dsimp only
    split
    · exact ⟨id, fun added => by cases added⟩
    · have queued : ∀ t : Store, t.ingest = (s.ingestSet i q).ingest →
          t.inflight = (s.ingestSet i q).inflight →
            ∀ k, ingestQueued t k = (decide (k = i) || ingestQueued s k) := by
        intro t first second k
        rw [← set, ingestQueued, ingestQueued, first, second]
      have both : ∀ t : Store, t.ingest = (s.ingestSet i q).ingest →
          t.inflight = (s.ingestSet i q).inflight →
            (ingestQueued s j = true → ingestQueued t j = true) ∧ ingestQueued t i = true := by
        intro t first second
        rw [queued t first second, queued t first second]
        exact ⟨fun before => by rw [before, Bool.or_true], by simp⟩
      split
      · exact ⟨(both _ rfl rfl).1, fun _ => (both _ rfl rfl).2⟩
      · exact ⟨(both _ rfl rfl).1, fun _ => (both _ rfl rfl).2⟩

theorem enqueueList_queued {s t : Store} {kind : Kind} {i : Str} {dedupe : Bool} {cap : Int} {n : Nat}
    (done : s.enqueueList kind i dedupe cap = .ok (t, n)) (gone : Str) :
    ingestQueued t gone = ingestQueued s gone := by
  unfold Store.enqueueList at done
  split at done
  · cases done
  · split at done
    · cases done
      rfl
    · split at done
      · cases done
        rfl
      · cases done
        rfl

theorem WalkKept.advance {background : Bool}
    (kept : WalkKept config background world walk) (pushes : walk.Pushes config background world) :
    WalkKept config background (walk.advance config world).1 (walk.advance config world).2 := by
  rcases kept with ⟨own, some_⟩ | clean
  · exact .inl ⟨own, some_.trans_le (advance_frame world).1⟩
  have forward : ∀ {step : WalkStep}, step.closes = walk.step.closes →
      (∀ gone, walk.InHand config gone → (walk.goto step).InHand config gone) →
        WalkKept config background world (walk.goto step) := fun closes inHand =>
    .inr (clean.step _ closes fun gone _ hand => .inr (inHand gone hand))
  unfold Walk.Pushes at pushes
  unfold Walk.advance
  split
  next at_ => exact .inr (clean.nextRecord at_)
  next record hasCap at_ =>
    rw [at_] at pushes
    refine .inr (clean.step _ (by rw [at_]; rfl) fun gone evicted hand => ?_)
    rw [Walk.InHand, at_] at hand
    obtain ⟨taken, rfl, backfill⟩ := hand
    have idle := pushes evicted
    unfold classifyClosedRawPath
    dsimp only
    rw [if_neg (by simp [taken, idle])]
    by_cases complete : config.normpath record.path ∈ world.complete
    · exact .inl (.inr (.inl complete))
    · exact .inr ⟨rfl, by simp [complete], backfill⟩
  next plan hasCap at_ =>
    have inHand := walk.inHand_at config at_
    split
    · split <;> exact forward (by rw [at_]; rfl) inHand
    · exact forward (by rw [at_]; rfl) inHand
  next plan at_ =>
    have inHand := walk.inHand_at config at_
    split <;> exact forward (by rw [at_]; rfl) inHand
  next plan at_ =>
    simp only [at_] at pushes
    have loses := Store.evict_losesOnly (s := world.store) (plan.day.elim 0 (·.1))
    split
    next store none_ =>
      rw [none_] at pushes
      exact .inl ⟨pushes, Nat.succ_pos _⟩
    next store gone some_ =>
      rw [some_] at pushes loses
      rcases pushes with ahead | dropped
      · refine .inr ⟨fun _ => clean.frontier (by rw [at_]; rfl), fun other member => ?_⟩
        have still : other ≠ gone → Covered world other → Covered { world with store := store } other := by
          intro apart
          refine covered_of_store fun queued => ?_
          rw [ingestQueued, loses.1, loses.2.1, if_neg fun same => apart (Option.some.inj same).symm]
          exact queued
        by_cases same : other = gone
        · subst same
          exact ⟨List.mem_append_right _ (List.mem_singleton_self _), .inr ⟨rfl, .inl ahead⟩⟩
        · have before := (List.mem_append.mp member).resolve_right fun last =>
            same (List.mem_singleton.mp last)
          obtain ⟨evicted, placed⟩ := clean.tracked other before
          refine ⟨List.mem_append_left _ evicted, placed.imp (still same) fun open_ => ⟨rfl, ?_⟩⟩
          refine open_.2.imp_right fun hand => ?_
          rwa [Walk.InHand, at_] at hand
      · exact .inl dropped
  next plan at_ =>
    refine forward (by rw [at_]; rfl) fun gone hand => ?_
    rwa [Walk.InHand, at_] at hand
  next plan at_ =>
    have inHand := walk.inHand_at config at_
    have open_ : walk.step.closes = false := by rw [at_]; rfl
    split
    · split
      · exact .inr (clean.enqueued open_ inHand fun back => by cases back)
      · exact forward open_.symm inHand
    next needs =>
      split
      · exact forward open_.symm fun gone hand => absurd (inHand gone hand).2.1 needs
      · exact .inr (clean.enqueued open_ inHand fun back => by cases back)
  next plan at_ =>
    have inHand := walk.inHand_at config at_
    have open_ : walk.step.closes = false := by rw [at_]; rfl
    split
    · exact .inr (clean.enqueued open_ inHand fun back => by cases back)
    next day _ =>
      dsimp only
      have queued := fun gone => @zadd_queued world.store plan.identity gone (walk.score config plan day)
        (if plan.fingerprint = [] then none else some plan.fingerprint) false config.ingestCap
      have moved := clean.frame fun gone _ => covered_of_store (queued gone).1
      by_cases added : (world.store.zaddIngest plan.identity (walk.score config plan day)
          (if plan.fingerprint = [] then none else some plan.fingerprint) false config.ingestCap).2 = 1
      · rw [if_pos added]
        exact .inr (moved.enqueued open_ inHand fun _ => .inl ((queued []).2 added))
      · rw [if_neg added]
        exact .inr (moved.step _ open_.symm fun gone _ hand => .inr (inHand gone hand))
  next plan at_ =>
    have inHand := walk.inHand_at config at_
    have open_ : walk.step.closes = false := by rw [at_]; rfl
    split
    next queued =>
      refine .inr (clean.enqueued open_ inHand fun _ => .inl ?_)
      rw [ingestQueued, queued, Bool.true_or]
    · exact forward open_.symm inHand
  next plan at_ =>
    have inHand := walk.inHand_at config at_
    refine .inr (clean.enqueued (by rw [at_]; rfl) inHand fun queued => .inl ?_)
    rw [ingestQueued, queued, Bool.or_true]
  next plan at_ =>
    rw [at_] at pushes
    split
    next blocked =>
      refine .inr (clean.step _ (by rw [at_]; rfl) fun gone _ hand => .inl (.inr (.inr ?_)))
      rw [Walk.InHand, at_] at hand
      exact hand.1 ▸ blocked
    next free => exact .inl ⟨pushes.resolve_right free, Nat.succ_pos _⟩
  next plan at_ =>
    have inHand := walk.inHand_at config at_
    split <;> exact forward (by rw [at_]; rfl) fun gone hand => absurd hand (inHand gone)
  next plan at_ =>
    have inHand := walk.inHand_at config at_
    have moved := clean.step .next (by rw [at_]; rfl) fun gone _ hand => absurd hand (inHand gone)
    split
    next store _ done =>
      exact .inr (moved.frame fun gone _ => covered_of_store (enqueueList_queued done gone).trans)
    · exact .inr moved
  next at_ =>
    refine forward (by rw [at_]; rfl) fun gone hand => ?_
    rwa [Walk.InHand, at_] at hand
  next gone left at_ =>
    have inHand := walk.inHand_at config at_
    split
    · exact forward (by rw [at_]; rfl) fun gone hand => absurd hand (inHand gone)
    · split <;> exact forward (by rw [at_]; rfl) fun gone hand => absurd hand (inHand gone)
  next gone day left at_ =>
    have inHand := walk.inHand_at config at_
    split
    · exact forward (by rw [at_]; rfl) fun gone hand => absurd hand (inHand gone)
    · refine .inr (clean.goto rfl rfl (fun open_ => by cases open_) (fun _ _ open_ => ?_)
        fun gone _ hand => absurd hand (inHand gone))
      rw [at_] at open_
      cases open_
  next => exact .inr clean

def DiscoverRight (config : DiscoverConfig) (backed : ClaimedJob → Bool) (state : DiscoverState) :
    Prop :=
  ∀ background, ∀ walk ∈ state.walkOf background, backed walk.job = false →
    WalkKept config background state.world walk

variable {backed : ClaimedJob → Bool}

theorem walkOf_background {walk : Walk} :
    walk ∈ state.walkOf true ↔ state.background = .walking walk := by
  unfold DiscoverState.walkOf
  rw [if_pos rfl]
  split
  next own => simp [own]
  next none_ => simpa using none_ walk

theorem walkOf_coordinator {walk : Walk} :
    walk ∈ state.walkOf false ↔ state.coordinator = .walking walk := by
  unfold DiscoverState.walkOf
  rw [if_neg Bool.false_ne_true]
  split
  next own => simp [own]
  next none_ => simpa using none_ walk

theorem begin_clean (world : QueueWorld) (job : ClaimedJob) (window : Option Int) (today : Day)
    (records : List FindRecord) :
    NoneLost config world (Walk.begin_ job window today records) :=
  ⟨fun _ => rfl, fun _ member => by cases member⟩

theorem ack_discover_frame (store : Store) (identity owner : Str) :
    (store.ack .discover identity owner).1.lists = store.lists ∧
      (∀ i, ingestQueued (store.ack .discover identity owner).1 i = ingestQueued store i) ∧
      ∀ i, i ≠ identity → ((store.ack .discover identity owner).1.inflight .discover).get? i =
        (store.inflight .discover).get? i := by
  unfold Store.ack
  split
  · exact ⟨rfl, fun _ => rfl, fun _ _ => rfl⟩
  · split
    · exact ⟨rfl, fun _ => rfl, fun _ _ => rfl⟩
    · refine ⟨rfl, fun _ => rfl, fun i apart => ?_⟩
      change (Function.update store.inflight .discover ((store.inflight .discover).erase identity)
        .discover).get? i = _
      rw [Function.update_self, Dict.get?_erase_of_ne _ apart]

theorem claimDiscover_spec {claim : DiscoverClaim} {window : Str → Option Int} :
    (state.claimDiscover config claim window).1.background = state.background ∧
      (state.claimDiscover config claim window).1.coordinator = state.coordinator ∧
        ∀ walk ∈ (state.claimDiscover config claim window).2,
          ∃ job window today records, walk = Walk.begin_ job window today records := by
  unfold DiscoverState.claimDiscover
  split
  · exact ⟨rfl, rfl, fun walk member => by cases member⟩
  · split
    · refine ⟨rfl, rfl, fun walk member => ?_⟩
      cases member
      exact ⟨_, _, _, _, rfl⟩
    · exact ⟨rfl, rfl, fun walk member => by cases member⟩
    · exact ⟨rfl, rfl, fun walk member => by cases member⟩

theorem enqueueDiscover_frame {days : Option Int} {fails : Bool} :
    (state.enqueueDiscover config days fails).background = state.background ∧
      (state.enqueueDiscover config days fails).coordinator = state.coordinator := by
  unfold DiscoverState.enqueueDiscover
  dsimp only
  split
  · split <;> exact ⟨rfl, rfl⟩
  · exact ⟨rfl, rfl⟩

theorem walkOf_step {background : Bool}
    (member : walk ∈ (discoverStep config state event).walkOf background) :
    (event.walks ≠ some background ∧ walk ∈ state.walkOf background) ∨
      (∃ before ∈ state.walkOf background, event.walks = some background ∧
        (discoverStep config state event).world = (before.advance config state.world).1 ∧
          walk = (before.advance config state.world).2) ∨
      ∃ job window today records, walk = Walk.begin_ job window today records := by
  have busy : none ≠ some background := (Option.some_ne_none background).symm
  have same : ∀ after : DiscoverState, walk ∈ after.walkOf background →
      after.background = state.background → (∀ walk, after.coordinator ≠ .walking walk) →
        walk ∈ state.walkOf background := by
    intro after inside first none_
    cases background with
    | true => rwa [walkOf_background, first, ← walkOf_background] at inside
    | false => exact absurd (walkOf_coordinator.mp inside) (none_ walk)
  cases event with
  | call fuel call =>
    refine .inl ⟨busy, ?_⟩
    simp only [discoverStep] at member
    split at member <;> exact member
  | marks complete archived active blocked => exact .inl ⟨busy, member⟩
  | idlePass force mtimeDays =>
    refine .inl ⟨busy, ?_⟩
    simp only [discoverStep] at member
    split at member
    · split at member
      · exact same _ member rfl fun _ is => by cases is
      · exact same _ member rfl fun _ is => by cases is
      · exact same _ member rfl fun _ is => by cases is
      · exact member
    · exact member
  | fullRediscoverDue elapsed =>
    refine .inl ⟨busy, ?_⟩
    simp only [discoverStep] at member
    split at member
    · unfold DiscoverState.due at member
      dsimp only at member
      split at member
      · exact same _ member rfl fun _ is => by cases is
      · split at member <;> exact same _ member rfl fun _ is => by cases is
    · exact member
  | enqueueDiscover fails =>
    refine .inl ⟨busy, ?_⟩
    simp only [discoverStep] at member
    split at member
    · next force mtimeDays _ =>
        refine same _ member enqueueDiscover_frame.1 fun _ is => ?_
        cases force <;> cases is
    · exact member
  | submit =>
    refine .inl ⟨busy, ?_⟩
    simp only [discoverStep] at member
    split at member
    · cases background <;> cases member
    · exact same _ member rfl fun _ is => by cases is
    · exact member
  | claim slot claim =>
    cases slot with
    | true =>
      simp only [discoverStep] at member
      split at member
      · next mtimeDays _ =>
          have spec := @claimDiscover_spec config state claim fun identity =>
            discoverMtimeDays config.normpath identity config.archiveDir mtimeDays
          split at member
          · next after own claimed =>
              rw [claimed] at spec
              cases background with
              | true =>
                cases member
                exact .inr (.inr (spec.2.2 _ rfl))
              | false =>
                refine .inl ⟨busy, ?_⟩
                rw [walkOf_coordinator] at member ⊢
                exact spec.2.1.symm.trans member
          · next after claimed =>
              rw [claimed] at spec
              cases background with
              | true => cases member
              | false =>
                refine .inl ⟨busy, ?_⟩
                rw [walkOf_coordinator] at member ⊢
                exact spec.2.1.symm.trans member
      · exact .inl ⟨busy, member⟩
    | false =>
      simp only [discoverStep] at member
      split at member
      · next mtimeDays _ =>
          have spec := @claimDiscover_spec config state claim fun _ => mtimeDays
          split at member
          · next after own claimed =>
              rw [claimed] at spec
              cases background with
              | false =>
                cases member
                exact .inr (.inr (spec.2.2 _ rfl))
              | true =>
                refine .inl ⟨busy, ?_⟩
                rw [walkOf_background] at member ⊢
                exact spec.1.symm.trans member
          · next after claimed =>
              rw [claimed] at spec
              cases background with
              | false => cases member
              | true =>
                refine .inl ⟨busy, ?_⟩
                rw [walkOf_background] at member ⊢
                exact spec.1.symm.trans member
      · exact .inl ⟨busy, member⟩
  | walk slot =>
    simp only [discoverStep] at member ⊢
    cases found : state.walkOf slot with
    | none =>
      rw [found] at member
      refine .inl ⟨fun is => ?_, member⟩
      cases is
      rw [found] at member
      cases member
    | some own =>
      simp only [found] at member ⊢
      by_cases ended : own.step = .ended
      · rw [if_pos ended] at member
        by_cases mine : slot = background
        · subst mine
          cases slot <;> cases member
        · refine .inl ⟨fun is => mine (Option.some.inj is), ?_⟩
          cases slot <;> cases background <;> first | exact absurd rfl mine | exact member
      · rw [if_neg ended] at member ⊢
        by_cases mine : slot = background
        · subst mine
          refine .inr (.inl ⟨own, found, rfl, ?_⟩)
          cases slot <;> cases member <;> exact ⟨rfl, rfl⟩
        · refine .inl ⟨fun is => mine (Option.some.inj is), ?_⟩
          cases slot <;> cases background <;> first | exact absurd rfl mine | exact member
  | raise =>
    refine .inl ⟨busy, ?_⟩
    simp only [discoverStep] at member
    split at member
    · cases background with
      | true => cases member
      | false => exact member
    · exact member

theorem discoverStep_right (right : DiscoverRight config backed state)
    (heeds : Heeds config backed state event) :
    DiscoverRight config backed (discoverStep config state event) := by
  intro background walk member free
  rcases walkOf_step member with ⟨other, before⟩ | ⟨before, found, own, world, rfl⟩ |
    ⟨job, window, today, records, rfl⟩
  · have spared := heeds background walk before
    rw [if_neg other, free] at spared
    exact (right background walk before free).imp_right fun clean =>
      clean.frame (spared.resolve_left Bool.false_ne_true)
  · rw [(advance_frame state.world).2] at free
    have pushes := heeds background before found
    rw [if_pos own, free] at pushes
    rw [world]
    exact (right background before found free).advance pushes
  · exact .inr (begin_clean _ job window today records)

theorem boot_right (world : QueueWorld) (rescanDays : Int) :
    DiscoverRight config backed (.boot config world rescanDays) := by
  intro background walk member _
  cases background with
  | true =>
    rw [walkOf_background, DiscoverState.boot, enqueueDiscover_frame.1, enqueueDiscover_frame.1] at member
    cases member
  | false =>
    rw [walkOf_coordinator, DiscoverState.boot, enqueueDiscover_frame.2, enqueueDiscover_frame.2] at member
    cases member

end Bookkeeping

section Result

variable {config : DiscoverConfig}

def EndsWalk (state : DiscoverState) (event : DiscoverEvent) (walk : Walk) : Prop :=
  (∃ background, event = .walk background ∧ walk ∈ state.walkOf background ∧ walk.step = .ended) ∨
    event = .raise ∧ walk ∈ state.walkOf true

theorem finish_covered {backed : ClaimedJob → Bool} {state : DiscoverState} {background : Bool}
    {walk : Walk} (right : DiscoverRight config backed state) (ended : walk.step = .ended)
    (found : walk ∈ state.walkOf background)
    (heeds : Heeds config backed state (.walk background)) :
    WalkOwed config (state.finish background walk) ∨
      ∀ gone ∈ walk.pushedOut, Covered (state.finish background walk).world gone := by
  have pending : (state.finish background walk).fullRediscoverPending =
      (state.fullRediscoverPending || (background && decide (0 < walk.dropped))) := by
    cases background <;> rfl
  have world : (state.finish background walk).world = { state.world with
      store := (state.world.store.ack .discover walk.job.identity walk.job.ownerToken).1 } := by
    cases background <;> rfl
  obtain ⟨lists, queued, others⟩ := ack_discover_frame state.world.store walk.job.identity
    walk.job.ownerToken
  have heed := heeds background walk found
  rw [if_pos (show (DiscoverEvent.walk background).walks = some background from rfl)] at heed
  cases backs : backed walk.job with
  | false =>
    rcases right background walk found backs with ⟨own, some_⟩ | clean
    · refine .inl (.inl ?_)
      rw [pending, own, decide_eq_true some_, Bool.and_true, Bool.or_true]
    · refine .inr fun gone member => ?_
      have covered := (clean.tracked gone member).2.resolve_right fun open_ => by
        rw [ended] at open_
        cases open_.1
      rw [world]
      exact covered_of_store (queued gone).trans covered
  | true =>
    rw [backs, if_pos rfl] at heed
    obtain ⟨owed, apart⟩ := heed ended
    have flagged : state.fullRediscoverPending = true →
        WalkOwed config (state.finish background walk) := by
      intro flag
      refine .inl ?_
      rw [pending, flag, Bool.true_or]
    have listed : wholeArchive config ∈ state.world.store.lists .discover →
        WalkOwed config (state.finish background walk) := by
      intro member
      refine .inr (.inl ?_)
      rw [world, lists]
      exact member
    rcases owed with flag | member | running
    · exact .inl (flagged flag)
    · exact .inl (listed member)
    · by_cases own : walk.job.identity = wholeArchive config
      · exact .inl ((apart own).elim flagged listed)
      · refine .inl (.inr (.inr ?_))
        rw [world, others _ (Ne.symm own)]
        exact running

/-- Behind every walk, in any run that keeps to `Heeds` for some choice of the walks that are
backed, whatever other threads do to the store. -/
theorem discover_forgets_none (config : DiscoverConfig) (world : QueueWorld) (rescanDays : Int)
    (backed : ClaimedJob → Bool) (events : List DiscoverEvent)
    (heeds : Throughout (discoverStep config) (Heeds config backed)
      (.boot config world rescanDays) events)
    (early later : List DiscoverEvent) (event : DiscoverEvent)
    (split : events = early ++ event :: later) (walk : Walk)
    (ends : EndsWalk (early.foldl (discoverStep config) (.boot config world rescanDays)) event
      walk) :
    let after := discoverStep config
      (early.foldl (discoverStep config) (.boot config world rescanDays)) event
    WalkOwed config after ∨ ∀ gone ∈ walk.pushedOut, Covered after.world gone := by
  rw [split, throughout_append] at heeds
  have right : DiscoverRight config backed
      (early.foldl (discoverStep config) (.boot config world rescanDays)) :=
    heeds.1.kept (boot_right world rescanDays) fun _ _ right heeds => discoverStep_right right heeds
  have here := heeds.2.1
  rcases ends with ⟨background, is, found, ended⟩ | ⟨is, found⟩
  · subst is
    have step : discoverStep config
        (early.foldl (discoverStep config) (.boot config world rescanDays)) (.walk background) =
        (early.foldl (discoverStep config) (.boot config world rescanDays)).finish background
          walk := by
      have looked : _ = some walk := found
      simp only [discoverStep, looked, ended, if_true]
    simp only [step]
    exact finish_covered right ended found here
  · subst is
    refine .inl (.inl ?_)
    simp only [discoverStep, walkOf_background.mp found]

private theorem olderDay_range : (1 : Int) ≤ 737681 ∧ (737681 : Int) ≤ lastOrdinal := by decide

private theorem youngerDay_range : (1 : Int) ≤ 738838 ∧ (738838 : Int) ≤ lastOrdinal := by decide

private theorem walkDay_range : (1 : Int) ≤ 739000 ∧ (739000 : Int) ≤ lastOrdinal := by decide

private def oneSlot : DiscoverConfig where
  archiveDir := lit "/a"
  ingestCap := 1
  queueCap := 100
  hotDays := 8
  normpath := id
  skipped _ := false
  basenameDate path :=
    if path = lit "/a/h/1600000000" then some ⟨737681, olderDay_range⟩
    else if path = lit "/a/h/1700000000" then some ⟨738838, youngerDay_range⟩ else none
  startdate := none
  enddate := none
  fingerprint _ _ := lit "1|1"
  sha1 _ := []

private def found (records : List FindRecord) : DiscoverClaim where
  fails := false
  owner := lit "w"
  ttl := 60
  now := 0
  today := ⟨739000, walkDay_range⟩
  records := records

private def older : FindRecord := ⟨lit "/a/h/1600000000", 1, 0⟩

private def younger : FindRecord := ⟨lit "/a/h/1700000000", 1, 0⟩

private def walkOn (background : Bool) (n : Nat) : List DiscoverEvent :=
  List.replicate n (.walk background)

private def lateArrival : List DiscoverEvent :=
  [.claim true (found [])] ++ walkOn true 3 ++
    [.idlePass false (some 3), .fullRediscoverDue false, .enqueueDiscover false, .submit,
      .claim true (found [younger])] ++ walkOn true 8 ++
    [.idlePass false (some 3), .fullRediscoverDue false, .enqueueDiscover false, .submit,
      .claim true (found [older])] ++ walkOn true 13

private def Forgets (before : DiscoverState) (background : Bool) (gone : Str) : Prop :=
  (∃ walk ∈ before.walkOf background, walk.step = .ended ∧ gone ∈ walk.pushedOut) ∧
    ¬WalkOwed oneSlot (discoverStep oneSlot before (.walk background)) ∧
    ¬Covered (discoverStep oneSlot before (.walk background)).world gone

private instance (before : DiscoverState) (background : Bool) (gone : Str) :
    Decidable (Forgets before background gone) :=
  inferInstanceAs (Decidable (_ ∧ _ ∧ _))

private def noFiles : QueueWorld := ⟨.empty, ∅, ∅, ∅, ∅⟩

theorem late_arrival_forgets :
    Forgets (lateArrival.foldl (discoverStep oneSlot) (.boot oneSlot noFiles 3)) true
      younger.path := by
  decide +kernel

private def backgroundWalk : List DiscoverEvent :=
  [.claim true (found [younger])] ++ walkOn true 8 ++
    [.idlePass false none, .enqueueDiscover false, .submit,
      .claim true (found [older, younger])] ++ walkOn true 19

theorem discover_forgets_none_background :
    ∃ walk : Walk, younger.path ∈ walk.evicted ∧
      let after := discoverStep oneSlot
        (backgroundWalk.foldl (discoverStep oneSlot) (.boot oneSlot noFiles 3)) (.walk true)
      WalkOwed oneSlot after ∨ ∀ gone ∈ walk.pushedOut, Covered after.world gone := by
  have ends : ∃ walk ∈ (backgroundWalk.foldl (discoverStep oneSlot)
      (.boot oneSlot noFiles 3)).walkOf true, walk.step = .ended ∧
        younger.path ∈ walk.evicted := by
    decide +kernel
  obtain ⟨walk, found, ended, gone⟩ := ends
  exact ⟨walk, gone, discover_forgets_none oneSlot noFiles 3 (fun _ => false)
    (backgroundWalk ++ [.walk true]) (by decide +kernel) backgroundWalk [] (.walk true) rfl walk
    (.inl ⟨true, rfl, found, ended⟩)⟩

end Result

end PerfStats.Orchestrator
