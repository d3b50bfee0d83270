import PerfStats.JobStore.ListQueues
import PerfStats.Words

namespace PerfStats.JobStore

open Lib

namespace Store

def Live (s : Store) (key : JobKey) : Prop :=
  s.queuedIdentities key = true ∨ ((s.inflight key.1).get? key.2).isSome = true

instance (s : Store) (key : JobKey) : Decidable (s.Live key) :=
  inferInstanceAs (Decidable (s.queuedIdentities key = true ∨ _))

def Rewrites (s : Store) (key : JobKey) (name : Str) : Call × Answer → Prop
  | (.zaddIngest i .., _) => key = (.ingest, i) ∧ name = lit "fingerprint"
  | (.evictYoungestCatchupIngest _, .evicted gone) => ∃ i ∈ gone, key = (.ingest, i)
  | (.ack kind i _, .flag true) => key = (kind, i)
  | (.writeJobPayloadField kind i field _, _) => key = (kind, i) ∧ name = field
  | (.persist, _) => ¬s.Live key
  | _ => False

variable {s t : Store} {kind : Kind} {i : Str} {key : JobKey} {name : Str}

theorem payloadField_congr (rows : t.payloads.get? key = s.payloads.get? key) (name : Str) :
    t.payloadField key name = s.payloadField key name := by
  rw [payloadField, rows, payloadField]

theorem setPayloadField_self (key : JobKey) (name value : Str) :
    (s.setPayloadField key name value).payloadField key name = value := by
  simp [payloadField, setPayloadField, Dict.get?_set_self]

theorem setPayloadField_other {other : JobKey} {field : Str} (value : Str)
    (apart : ¬(key = other ∧ name = field)) :
    (s.setPayloadField other field value).payloadField key name = s.payloadField key name := by
  simp only [payloadField, setPayloadField]
  by_cases same : key = other
  · subst same
    have different : name ≠ field := fun is => apart ⟨rfl, is⟩
    rw [Dict.get?_set_self, Option.bind_some, Dict.get?_set_of_ne _ different]
    cases s.payloads.get? key <;> rfl
  · rw [Dict.get?_set_of_ne _ same]

theorem writeJobPayloadField_payloads (kind : Kind) (i name value : Str) :
    (s.writeJobPayloadField kind i name value).payloads =
      (s.setPayloadField (kind, i) name value).payloads := by
  unfold writeJobPayloadField
  dsimp only
  split <;> rfl

theorem zaddIngest_payloadField (q : ℚ) (fingerprint : Option Str) (overCap : Bool) (cap : Int)
    (apart : ¬(key = (.ingest, i) ∧ name = lit "fingerprint")) :
    (s.zaddIngest i q fingerprint overCap cap).1.payloadField key name =
      s.payloadField key name := by
  unfold zaddIngest
  split
  · rfl
  · dsimp only
    split
    · rfl
    · split
      · next c text =>
          refine (payloadField_congr rfl name).trans ((setPayloadField_other _ apart).trans ?_)
          exact payloadField_congr (by rw [ingestSet_payloads]) name
      · exact payloadField_congr (by rw [ingestSet_payloads]) name

theorem evict_payloads (day : Int)
    (apart : ∀ i ∈ (s.evictYoungestCatchupIngest day).2, key ≠ (.ingest, i)) :
    (s.evictYoungestCatchupIngest day).1.payloads.get? key = s.payloads.get? key := by
  unfold evictYoungestCatchupIngest at apart ⊢
  dsimp only at apart ⊢
  split at apart
  · rfl
  · split at apart
    · rfl
    · split at apart
      · next old => rw [if_pos old]
      · next young =>
          rw [if_neg young]
          rw [Dict.get?_erase_of_ne _ (apart _ rfl), ingestPop_payloads]

theorem ack_payloads (kind : Kind) (i owner : Str)
    (apart : (s.ack kind i owner).2 = true → key ≠ (kind, i)) :
    (s.ack kind i owner).1.payloads.get? key = s.payloads.get? key := by
  unfold ack at apart ⊢
  split at apart
  · next empty => rw [if_pos empty]
  · next named =>
      rw [if_neg named]
      split at apart
      · rfl
      · have row : ((s.release kind i).payloads.erase (kind, i)).get? key = s.payloads.get? key :=
          Dict.get?_erase_of_ne _ (apart rfl)
        split <;> exact row

theorem requeue_payloads (kind : Kind) (i owner : Str) (score : Option ℚ) :
    (s.requeue kind i owner score).1.payloads = s.payloads := by
  unfold requeue
  split
  · rfl
  · split
    · rfl
    · dsimp only
      split
      · change ((s.release kind i).ingestSet i (score.getD catchupScoreBase)).payloads = _
        rw [ingestSet_payloads]
        rfl
      · rfl

theorem claim_payloads {band : Str} (rest : Heap HeapEntry) (range : ScoreRange) (owner : Str)
    (deadline snap : ℚ) (i : Str) :
    ((s.setIngestHeapForBand band rest).claimEntry range owner deadline snap i).1.payloads =
      s.payloads := by
  have armed : (s.setIngestHeapForBand band rest).payloads = s.payloads := by
    unfold setIngestHeapForBand
    split <;> rfl
  unfold claimEntry
  split
  · exact armed
  · split
    · exact armed
    · split
      · exact armed
      · split
        · exact armed
        · exact ingestPop_payloads.trans armed

theorem reapLoop_payloads (kind : Kind) (cutoff : ℚ) (want : Nat)
    (items : List (Str × Inflight)) (s : Store) (out : List Str) :
    (reapLoop kind cutoff want items s out).1.payloads = s.payloads := by
  induction items generalizing s out with
  | nil => rfl
  | cons head rest ih =>
    unfold reapLoop
    split
    · rfl
    · split
      · exact ih s out
      · dsimp only
        rw [ih]
        split
        · rw [ingestSet_payloads]
          rfl
        · rfl

theorem claimListLoop_payloads (kind : Kind) (owner : Str) (deadline : ℚ) (items : List Str)
    (s : Store) : (claimListLoop kind owner deadline items s).1.payloads = s.payloads := by
  induction items generalizing s with
  | nil => rfl
  | cons head rest ih =>
    unfold claimListLoop
    dsimp only
    split
    · rw [ih]
    · rfl

theorem persistPrune_payloads (live : s.Live key) :
    s.persistPrune.payloads.get? key = s.payloads.get? key := by
  have kept : (s.queuedIdentities key || ((s.inflight key.1).get? key.2).isSome) = true := by
    rcases live with queued | claimed
    · rw [queued, Bool.true_or]
    · rw [claimed, Bool.or_true]
  unfold persistPrune
  dsimp only
  rw [Dict.get?_filter, kept]
  cases s.payloads.get? key <;> rfl

theorem perform_payloadField {fuel : Nat} {call : Call} {answer : Answer}
    (done : s.perform fuel call = some (t, answer))
    (untouched : ¬s.Rewrites key name (call, answer)) :
    t.payloadField key name = s.payloadField key name := by
  cases call with
  | zaddIngest i q fingerprint overCap cap =>
    cases done
    exact zaddIngest_payloadField q fingerprint overCap cap untouched
  | evictYoungestCatchupIngest day =>
    cases done
    refine payloadField_congr (evict_payloads day fun i gone same => ?_) name
    exact untouched ⟨i, gone, same⟩
  | enqueueList k j dedupe cap =>
    have same : (settle s .count (s.enqueueList k j dedupe cap)).1 = t :=
      congrArg Prod.fst (Option.some.inj done)
    rw [← same]
    simp only [enqueueList]
    split
    · rfl
    · split
      · rfl
      · split <;> rfl
  | claimIngest band owner ttl now maxN =>
    have same : t.payloads = s.payloads :=
      @perform_claimIngest s (fun u => u.payloads = s.payloads) _ _ _ _ _ _ t answer
        (fun range _ _ rest _ kept => (claim_payloads rest range owner _ _ _).trans kept) rfl done
    exact payloadField_congr (congrArg (·.get? key) same) name
  | claimList k owner ttl now =>
    have same : (settle s (fun job => .claims job.toList) (s.claimList k owner ttl now)).1 = t :=
      congrArg Prod.fst (Option.some.inj done)
    rw [← same]
    unfold claimList
    split
    · rfl
    · split
      · rfl
      · exact payloadField_congr (by simp only [settle]; rw [claimListLoop_payloads]) name
  | ack k j owner =>
    have same : (s.ack k j owner).1 = t := congrArg Prod.fst (Option.some.inj done)
    have told : Answer.flag (s.ack k j owner).2 = answer :=
      congrArg Prod.snd (Option.some.inj done)
    rw [← same]
    refine payloadField_congr (ack_payloads k j owner fun accepted is => untouched ?_) name
    rw [← told, accepted]
    exact is
  | requeue k j owner score =>
    have same : (s.requeue k j owner score).1 = t := congrArg Prod.fst (Option.some.inj done)
    rw [← same]
    exact payloadField_congr (by rw [requeue_payloads]) name
  | reapExpiredInflight k now limit =>
    have same : (s.reapExpiredInflight k now limit).1 = t :=
      congrArg Prod.fst (Option.some.inj done)
    rw [← same]
    exact payloadField_congr (congrArg (·.get? key) (reapLoop_payloads _ _ _ _ _ _)) name
  | extendInflightDeadline k j deadline =>
    have same : (s.extendInflightDeadline k j deadline).1 = t :=
      congrArg Prod.fst (Option.some.inj done)
    rw [← same]
    unfold extendInflightDeadline
    split <;> rfl
  | renewJobLease k j owner ttl now =>
    have same : (s.renewJobLease k j owner ttl now).1 = t :=
      congrArg Prod.fst (Option.some.inj done)
    rw [← same]
    unfold renewJobLease
    split
    · rfl
    · split <;> rfl
  | writeJobPayloadField k j field value =>
    cases done
    rw [payloadField, writeJobPayloadField_payloads]
    exact setPayloadField_other value untouched
  | persist =>
    cases done
    exact payloadField_congr (persistPrune_payloads (not_not.mp untouched)) name

section Counters

/-- `int(field or 0)` of a counter; only decimal texts are written to one. -/
def readCount (s : Store) (key : JobKey) (name : Str) : Nat :=
  ((Text.parseInt (s.payloadField key name)).getD 0).toNat

def writeCount (s : Store) (key : JobKey) (name : Str) (n : Nat) : Store :=
  s.writeJobPayloadField key.1 key.2 name (Text.decimalText n)

theorem readCount_writeCount_self (key : JobKey) (name : Str) {n : Nat}
    (short : (Text.decimalText n).length ≤ 4300) :
    (s.writeCount key name n).readCount key name = n := by
  have field : (s.writeCount key name n).payloadField key name = Text.decimalText n := by
    rw [writeCount, payloadField, writeJobPayloadField_payloads]
    exact setPayloadField_self key name _
  rw [readCount, field, Text.parseInt_decimalText n short]
  rfl

theorem readCount_writeCount_other {other : JobKey} {field : Str} (n : Nat)
    (apart : ¬(key = other ∧ name = field)) :
    (s.writeCount other field n).readCount key name = s.readCount key name := by
  have same : (s.writeCount other field n).payloadField key name = s.payloadField key name := by
    rw [writeCount, payloadField, writeJobPayloadField_payloads]
    exact setPayloadField_other _ apart
  rw [readCount, same, readCount]

theorem readCount_perform {fuel : Nat} {call : Call} {answer : Answer}
    (done : s.perform fuel call = some (t, answer))
    (untouched : ¬s.Rewrites key name (call, answer)) :
    t.readCount key name = s.readCount key name := by
  rw [readCount, perform_payloadField done untouched, readCount]

end Counters

end Store

end PerfStats.JobStore
