import PerfStats.JobStore.Store
import PerfStats.Lib.Runs

namespace PerfStats.JobStore

open Lib

structure RequeueCall where
  kind : Kind
  identity : Str
  owner : Str
  score : Option ℚ
  deriving DecidableEq, Repr

namespace Store

def stealCalls (leases : Dict JobKey Str) (alive : Int → Bool) (hostname bootId : Str) :
    List RequeueCall :=
  leases.entries.filterMap fun ((kind, identity), token) =>
    let owner := parseLeaseOwner token
    match owner.pid with
    | none => none
    | some pid =>
      if !leaseOwnerIsLocallyEvaluable owner hostname bootId then none
      else if alive pid then none
      else some ⟨kind, identity, token, none⟩

def reconcileCalls (kind : Kind) (inflight : Dict Str Inflight) (localIdentities : List Str)
    (ownerToken : Str) : List RequeueCall :=
  inflight.entries.filterMap fun (identity, entry) =>
    if identity ∈ localIdentities ∨ entry.owner ≠ ownerToken then none
    else some ⟨kind, identity, entry.owner, entry.score⟩

end Store

inductive Call where
  | zaddIngest (identity : Str) (score : ℚ) (fingerprint : Option Str) (overCap : Bool) (cap : Int)
  | evictYoungestCatchupIngest (olderDay : Int)
  | enqueueList (kind : Kind) (identity : Str) (dedupe : Bool) (cap : Int)
  | claimIngest (band owner : Str) (ttl : Int) (now : ℚ) (maxN : Int)
  | claimList (kind : Kind) (owner : Str) (ttl : Int) (now : ℚ)
  | ack (kind : Kind) (identity owner : Str)
  | requeue (kind : Kind) (identity owner : Str) (score : Option ℚ)
  | reapExpiredInflight (kind : Kind) (now : ℚ) (limit : Int)
  | extendInflightDeadline (kind : Kind) (identity : Str) (deadline : ℚ)
  | renewJobLease (kind : Kind) (identity owner : Str) (ttl : Int) (now : ℚ)
  | writeJobPayloadField (kind : Kind) (identity name value : Str)
  | persist

inductive Answer where
  | raised (error : StoreError)
  | count (n : Nat)
  | evicted (identity : Option Str)
  | claims (jobs : List ClaimedJob)
  | flag (done : Bool)
  | identities (list : List Str)
  | done
  deriving DecidableEq, Repr

def settle {α : Type} (s : Store) (answer : α → Answer) :
    Except StoreError (Store × α) → Store × Answer
  | .error e => (s, .raised e)
  | .ok (next, value) => (next, answer value)

/-- The store after a call; `none` when a claim loop needs more than `fuel` turns. -/
def Store.perform (fuel : Nat) (s : Store) : Call → Option (Store × Answer)
  | .zaddIngest identity score fingerprint overCap cap =>
    some ((s.zaddIngest identity score fingerprint overCap cap).map id .count)
  | .evictYoungestCatchupIngest olderDay =>
    some ((s.evictYoungestCatchupIngest olderDay).map id .evicted)
  | .enqueueList kind identity dedupe cap =>
    some (settle s .count (s.enqueueList kind identity dedupe cap))
  | .claimIngest band owner ttl now maxN =>
    (s.claimIngest fuel band owner ttl now maxN).map (settle s .claims)
  | .claimList kind owner ttl now =>
    some (settle s (fun job => .claims job.toList) (s.claimList kind owner ttl now))
  | .ack kind identity owner => some ((s.ack kind identity owner).map id .flag)
  | .requeue kind identity owner score => some ((s.requeue kind identity owner score).map id .flag)
  | .reapExpiredInflight kind now limit =>
    some ((s.reapExpiredInflight kind now limit).map id .identities)
  | .extendInflightDeadline kind identity deadline =>
    some ((s.extendInflightDeadline kind identity deadline).map id .flag)
  | .renewJobLease kind identity owner ttl now =>
    some ((s.renewJobLease kind identity owner ttl now).map id .flag)
  | .writeJobPayloadField kind identity name value =>
    some (s.writeJobPayloadField kind identity name value, .done)
  | .persist => some (s.persistPrune, .done)

structure World where
  store : Store
  recovering : List (List RequeueCall)

def World.empty : World := ⟨.empty, []⟩

inductive Action where
  | call (call : Call)
  | stealDeadOwnerLeases (alive : Int → Bool) (hostname bootId : Str)
  | reconcileThisOwnerOrphanLeases (kind : Kind) (localIdentities : List Str) (ownerToken : Str)
  | resumeRecovery (pass : Nat)

/-- A call, the snapshot that starts a recovery pass, or the next requeue of a pass under way. -/
def World.step (fuel : Nat) (w : World) : Action → Option (World × Answer)
  | .call call => (w.store.perform fuel call).map fun (s, answer) => ({ w with store := s }, answer)
  | .stealDeadOwnerLeases alive hostname bootId =>
    some ({ w with
      recovering := w.recovering ++ [Store.stealCalls w.store.leases alive hostname bootId] }, .done)
  | .reconcileThisOwnerOrphanLeases kind localIdentities ownerToken =>
    some ({ w with
      recovering := w.recovering ++
        [Store.reconcileCalls kind (w.store.inflight kind) localIdentities ownerToken] }, .done)
  | .resumeRecovery pass =>
    match w.recovering[pass]? with
    | some (call :: rest) =>
      let (s, done) := w.store.requeue call.kind call.identity call.owner call.score
      some (⟨s, w.recovering.set pass rest⟩, .flag done)
    | _ => none

def World.Steps (w : World) (label : Action × Answer) (w' : World) : Prop :=
  ∃ fuel, w.step fuel label.1 = some (w', label.2)

end PerfStats.JobStore
