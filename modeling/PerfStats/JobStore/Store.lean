import PerfStats.JobStore.Score
import PerfStats.Lib.Dict

/-! The in-process job store. Every operation below runs under the store lock and is one atomic
step. -/

namespace PerfStats.JobStore

open Lib Function

structure Inflight where
  deadline : ℚ
  owner : Str
  score : Option ℚ
  deriving DecidableEq, Repr

structure ClaimedJob where
  kind : Kind
  identity : Str
  ownerToken : Str
  deadline : ℚ
  score : Option ℚ
  fingerprint : Str
  emit : Str
  deriving DecidableEq, Repr

abbrev HeapEntry := ℚ ×ₗ Str

abbrev JobKey := Kind × Str

structure Store where
  ingest : Dict Str ℚ
  ingestHeapHot : Heap HeapEntry
  ingestHeapCatchup : Heap HeapEntry
  ingestHeapCatchupMax : Heap HeapEntry
  ingestHotN : Nat
  ingestCatchupN : Nat
  lists : Kind → List Str
  pending : Kind → Finset Str
  inflight : Kind → Dict Str Inflight
  leases : Dict JobKey Str
  payloads : Dict JobKey (Dict Str Str)
  shadowIngest : Dict Str ℚ
  shadowLists : Kind → List Str
  shadowPending : Kind → Finset Str
  shadowPayloads : Dict JobKey (Dict Str Str)

namespace Store

def empty : Store where
  ingest := .empty
  ingestHeapHot := .empty
  ingestHeapCatchup := .empty
  ingestHeapCatchupMax := .empty
  ingestHotN := 0
  ingestCatchupN := 0
  lists := fun _ => []
  pending := fun _ => ∅
  inflight := fun _ => .empty
  leases := .empty
  payloads := .empty
  shadowIngest := .empty
  shadowLists := fun _ => []
  shadowPending := fun _ => ∅
  shadowPayloads := .empty

/-- Any spelling other than `hot` selects catchup. -/
def ingestHeapForBand (s : Store) (band : Str) : Heap HeapEntry :=
  if band = lit "hot" then s.ingestHeapHot else s.ingestHeapCatchup

def setIngestHeapForBand (s : Store) (band : Str) (heap : Heap HeapEntry) : Store :=
  if band = lit "hot" then { s with ingestHeapHot := heap }
  else { s with ingestHeapCatchup := heap }

def catchupMaxEntries (s : Store) : List HeapEntry :=
  s.ingest.entries.filterMap fun e =>
    match decodeIngestBand e.2 with
    | .hot => none
    | .catchup => some (toLex (-e.2, e.1))

def ingestHeapPush (s : Store) (identity : Str) (score : ℚ) : Store :=
  let heap :=
    if 2 * s.ingest.size + 1024 < s.ingestHeapCatchupMax.size then
      Heap.heapify s.catchupMaxEntries
    else s.ingestHeapCatchupMax
  { s with
    ingestHeapHot :=
      if decodeIngestBand score = .hot then s.ingestHeapHot.push (toLex (score, identity))
      else s.ingestHeapHot
    ingestHeapCatchup :=
      if decodeIngestBand score = .hot then s.ingestHeapCatchup
      else s.ingestHeapCatchup.push (toLex (score, identity))
    ingestHeapCatchupMax :=
      if decodeIngestBand score = .hot then s.ingestHeapCatchupMax
      else heap.push (toLex (-score, identity)) }

def ingestBandInc (s : Store) (score : ℚ) : Store :=
  { s with
    ingestHotN := if decodeIngestBand score = .hot then s.ingestHotN + 1 else s.ingestHotN
    ingestCatchupN :=
      if decodeIngestBand score = .hot then s.ingestCatchupN else s.ingestCatchupN + 1 }

def ingestBandDec (s : Store) (score : ℚ) : Store :=
  { s with
    ingestHotN := if decodeIngestBand score = .hot then s.ingestHotN - 1 else s.ingestHotN
    ingestCatchupN :=
      if decodeIngestBand score = .hot then s.ingestCatchupN else s.ingestCatchupN - 1 }

def identityIsQueued (s : Store) (kind : Kind) (identity : Str) : Bool :=
  if kind = .ingest then (s.ingest.get? identity).isSome else decide (identity ∈ s.pending kind)

def shadowSyncPayload (s : Store) (kind : Kind) (identity : Str) : Store :=
  let shadow :=
    match s.payloads.get? (kind, identity) with
    | some fields =>
      if s.identityIsQueued kind identity then s.shadowPayloads.set (kind, identity) fields
      else s.shadowPayloads.erase (kind, identity)
    | none => s.shadowPayloads.erase (kind, identity)
  { s with shadowPayloads := shadow }

def ingestSet (s : Store) (identity : Str) (score : ℚ) : Store :=
  let released := match s.ingest.get? identity with
    | some old => s.ingestBandDec old
    | none => s
  let scored := { released with ingest := released.ingest.set identity score }
  let armed := (scored.ingestBandInc score).ingestHeapPush identity score
  let shadowed := { armed with shadowIngest := armed.shadowIngest.set identity score }
  shadowed.shadowSyncPayload .ingest identity

def ingestPop (s : Store) (identity : Str) : Store :=
  match s.ingest.get? identity with
  | none => s
  | some old =>
    let s := { s with ingest := s.ingest.erase identity }.ingestBandDec old
    { s with
      shadowIngest := s.shadowIngest.erase identity
      shadowPayloads := s.shadowPayloads.erase (.ingest, identity) }

def hasCapacity (s : Store) (kind : Kind) (cap : Int) : Bool :=
  if kind = .ingest then decide ((s.ingest.size : Int) < cap)
  else decide (((s.lists kind).length : Int) < cap)

def setPayloadField (s : Store) (key : JobKey) (name value : Str) : Store :=
  let fields := (s.payloads.get? key).getD .empty
  { s with payloads := s.payloads.set key (fields.set name value) }

def zaddIngest (s : Store) (identity : Str) (score : ℚ) (fingerprint : Option Str)
    (overCap : Bool) (cap : Int) : Store × Nat :=
  if ((s.inflight .ingest).get? identity).isSome then (s, 0)
  else
    let existed := (s.ingest.get? identity).isSome
    if !existed && !overCap && !s.hasCapacity .ingest cap &&
        decide (decodeIngestBand score ≠ .hot) then (s, 0)
    else
      let s := s.ingestSet identity score
      let s := match fingerprint with
        | some (c :: text) =>
          (s.setPayloadField (.ingest, identity) (lit "fingerprint") (c :: text)).shadowSyncPayload
            .ingest identity
        | _ => s
      (s, if existed then 0 else 1)

def catchupMaxLive (s : Store) (entry : HeapEntry) : Bool :=
  decide (s.ingest.get? (ofLex entry).2 = some (-(ofLex entry).1))

def evictYoungestCatchupIngest (s : Store) (olderDay : Int) : Store × Option Str :=
  -- stale entries (claimed, removed or re-scored) are popped until a live one is in front
  let heap := s.ingestHeapCatchupMax.popWhile fun entry => !s.catchupMaxLive entry
  let s := { s with ingestHeapCatchupMax := heap }
  match heap.pop? with
  | none => (s, none)
  | some (entry, rest) =>
    let identity := (ofLex entry).2
    match decodeCatchupCalendarDay (-(ofLex entry).1) with
    | none => (s, none)
    | some day =>
      if day ≤ olderDay then (s, none)
      else
        let s := { s with ingestHeapCatchupMax := rest }.ingestPop identity
        ({ s with payloads := s.payloads.erase (.ingest, identity) }, some identity)

def listAppend (s : Store) (kind : Kind) (identity : Str) : Store :=
  { s with
    lists := update s.lists kind (s.lists kind ++ [identity])
    pending := update s.pending kind (insert identity (s.pending kind))
    shadowLists := update s.shadowLists kind (s.shadowLists kind ++ [identity])
    shadowPending :=
      update s.shadowPending kind (insert identity (s.shadowPending kind)) }.shadowSyncPayload
    kind identity

def enqueueList (s : Store) (kind : Kind) (identity : Str) (dedupe : Bool) (cap : Int) :
    Except StoreError (Store × Nat) :=
  if !kind.isList then .error (.notAListKind kind)
  else if dedupe &&
      (decide (identity ∈ s.pending kind) || ((s.inflight kind).get? identity).isSome) then
    .ok (s, 0)
  else if !s.hasCapacity kind cap then .ok (s, 0)
  else
    let s := s.listAppend kind identity
    .ok (s, (s.lists kind).length)

def lease (s : Store) (kind : Kind) (identity : Str) (entry : Inflight) : Store :=
  { s with
    inflight := update s.inflight kind ((s.inflight kind).set identity entry)
    leases := s.leases.set (kind, identity) entry.owner }

def release (s : Store) (kind : Kind) (identity : Str) : Store :=
  { s with
    inflight := update s.inflight kind ((s.inflight kind).erase identity)
    leases := s.leases.erase (kind, identity) }

def payloadField (s : Store) (key : JobKey) (name : Str) : Str :=
  ((s.payloads.get? key).bind (·.get? name)).getD []

def claimEntry (s : Store) (range : ScoreRange) (owner : Str) (deadline : ℚ)
    (snapScore : ℚ) (identity : Str) : Store × Option ClaimedJob :=
  if ((s.inflight .ingest).get? identity).isSome then (s, none)
  else
    match s.ingest.get? identity with
    | none => (s, none)
    | some live =>
      -- a stale or out-of-range entry is re-armed under the live score
      if live ≠ snapScore then (s.ingestHeapPush identity live, none)
      else if !range.holds live then (s.ingestHeapPush identity live, none)
      else
        let s := (s.ingestPop identity).lease .ingest identity ⟨deadline, owner, some live⟩
        (s, some
          { kind := .ingest, identity := identity, ownerToken := owner, deadline := deadline
            score := some live
            fingerprint := s.payloadField (.ingest, identity) (lit "fingerprint")
            emit := s.payloadField (.ingest, identity) (lit "emit") })

/-- The claim loop; `none` when `fuel` turns do not end it. -/
def claimLoop (band : Str) (range : ScoreRange) (owner : Str) (deadline : ℚ) (want : Nat) :
    Nat → Store → List ClaimedJob → Option (Store × List ClaimedJob)
  | 0, _, _ => none
  | fuel + 1, s, claimed =>
    if claimed.length < want then
      match (s.ingestHeapForBand band).pop? with
      | none => some (s, claimed)
      | some (entry, rest) =>
        let (next, job) := (s.setIngestHeapForBand band rest).claimEntry range owner deadline
          (ofLex entry).1 (ofLex entry).2
        claimLoop band range owner deadline want fuel next (claimed ++ job.toList)
    else some (s, claimed)

def claimIngest (fuel : Nat) (s : Store) (band owner : Str) (ttl : Int) (now : ℚ) (maxN : Int) :
    Option (Except StoreError (Store × List ClaimedJob)) :=
  if owner = [] then some (.error .ownerTokenRequired)
  else if maxN < 1 then some (.error .maxNTooSmall)
  else
    match ingestScoreRange band with
    | .error e => some (.error e)
    | .ok range => (claimLoop band range owner (now + ttl) maxN.toNat fuel s []).map .ok

def claimListLoop (kind : Kind) (owner : Str) (deadline : ℚ) :
    List Str → Store → Store × Option ClaimedJob
  | [], s => (s, none)
  | identity :: rest, s =>
    -- erasing the first occurrence covers both the front pop and the later `remove`
    let s :=
      { s with
        lists := update s.lists kind rest
        pending := update s.pending kind ((s.pending kind).erase identity)
        shadowLists := update s.shadowLists kind ((s.shadowLists kind).erase identity)
        shadowPending :=
          update s.shadowPending kind ((s.shadowPending kind).erase identity)
        shadowPayloads := s.shadowPayloads.erase (kind, identity) }
    if ((s.inflight kind).get? identity).isSome then claimListLoop kind owner deadline rest s
    else
      (s.lease kind identity ⟨deadline, owner, none⟩, some
        { kind := kind, identity := identity, ownerToken := owner, deadline := deadline
          score := none, fingerprint := [], emit := [] })

def claimList (s : Store) (kind : Kind) (owner : Str) (ttl : Int) (now : ℚ) :
    Except StoreError (Store × Option ClaimedJob) :=
  if !kind.isList then .error (.notAListKind kind)
  else if owner = [] then .error .ownerTokenRequired
  else .ok (claimListLoop kind owner (now + ttl) (s.lists kind) s)

def ownedEntry (s : Store) (kind : Kind) (identity owner : Str) : Option Inflight :=
  ((s.inflight kind).get? identity).filter fun entry => decide (entry.owner = owner)

def ack (s : Store) (kind : Kind) (identity owner : Str) : Store × Bool :=
  if owner = [] then (s, false)
  else
    match s.ownedEntry kind identity owner with
    | none => (s, false)
    | some _ =>
      let s := s.release kind identity
      let s := { s with payloads := s.payloads.erase (kind, identity) }
      (if kind.isList then
        { s with pending := update s.pending kind ((s.pending kind).erase identity) }
      else s, true)

def requeue (s : Store) (kind : Kind) (identity owner : Str) (score : Option ℚ) : Store × Bool :=
  if owner = [] then (s, false)
  else
    match s.ownedEntry kind identity owner with
    | none => (s, false)
    | some _ =>
      let s := s.release kind identity
      (if kind = .ingest then
        (s.ingestSet identity (score.getD catchupScoreBase)).shadowSyncPayload kind identity
      else s.listAppend kind identity, true)

def inflightReapGraceFloor : ℚ := 30

def reapLoop (kind : Kind) (cutoff : ℚ) (want : Nat) :
    List (Str × Inflight) → Store → List Str → Store × List Str
  | [], s, out => (s, out)
  | (identity, entry) :: rest, s, out =>
    if want ≤ out.length then (s, out)
    else if cutoff < entry.deadline then reapLoop kind cutoff want rest s out
    else
      let s := s.release kind identity
      let s := if kind = .ingest then s.ingestSet identity (penalizeIngestScore entry.score)
        else s.listAppend kind identity
      reapLoop kind cutoff want rest s (out ++ [identity])

def reapExpiredInflight (s : Store) (kind : Kind) (now : ℚ) (limit : Int) : Store × List Str :=
  reapLoop kind (now - inflightReapGraceFloor) (max 1 limit).toNat (s.inflight kind).entries s []

def extendInflightDeadline (s : Store) (kind : Kind) (identity : Str) (deadline : ℚ) :
    Store × Bool :=
  match (s.inflight kind).get? identity with
  | none => (s, false)
  | some entry =>
    ({ s with
      inflight := update s.inflight kind
        ((s.inflight kind).set identity { entry with deadline := deadline }) }, true)

def renewJobLease (s : Store) (kind : Kind) (identity owner : Str) (ttl : Int) (now : ℚ) :
    Store × Bool :=
  if owner = [] then (s, false)
  else
    match s.ownedEntry kind identity owner with
    | none => (s, false)
    | some entry => (s.lease kind identity { entry with deadline := now + ttl }, true)

def writeJobPayloadField (s : Store) (kind : Kind) (identity name value : Str) : Store :=
  let s := s.setPayloadField (kind, identity) name value
  if s.identityIsQueued kind identity then s.shadowSyncPayload kind identity else s

def queuedIdentities (s : Store) (key : JobKey) : Bool :=
  if key.1 = .ingest then (s.ingest.get? key.2).isSome else decide (key.2 ∈ s.lists key.1)

/-- The part of `_persist_write` that changes the store: orphan payload rows go. -/
def persistPrune (s : Store) : Store :=
  let live := fun key : JobKey =>
    s.queuedIdentities key || ((s.inflight key.1).get? key.2).isSome
  { s with
    payloads := s.payloads.filter fun key _ => live key
    shadowPayloads := s.shadowPayloads.filter fun key _ => s.queuedIdentities key }

end Store

end PerfStats.JobStore
