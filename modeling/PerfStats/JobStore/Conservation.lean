import PerfStats.JobStore.Invariant

namespace PerfStats.JobStore

open Lib Function

namespace Store

section Operations

variable {s : Store}

def Keeps (s t : Store) : Prop := t.Consistent ∧ ∀ i, t.Holds i ↔ s.Holds i

theorem Keeps.refl (good : s.Consistent) : s.Keeps s := ⟨good, fun _ => Iff.rfl⟩

variable {kind : Kind} {i band : Str} {entry : Inflight} {j : Str} {t : Store}

theorem Keeps.trans {u : Store} (first : s.Keeps t) (second : t.Keeps u) : s.Keeps u :=
  ⟨second.1, fun i => (second.2 i).trans (first.2 i)⟩

theorem holds_congr (scores : ∀ i, (t.ingest.get? i).isSome = (s.ingest.get? i).isSome)
    (claims : ∀ i, ((t.inflight .ingest).get? i).isSome = ((s.inflight .ingest).get? i).isSome)
    (i : Str) : t.Holds i ↔ s.Holds i := by
  simp only [Holds, Queued, Claimed, scores, claims]

theorem holds_ingestSet {q : ℚ} : (s.ingestSet i q).Holds j ↔ j = i ∨ s.Holds j := by
  simp only [Holds, Queued, Claimed, ingestSet_ingest, ingestSet_inflight, Dict.get?_set]
  by_cases same : j = i
  · simp [same]
  · simp [same]

theorem holds_release (good : s.Consistent) (claimed : s.Claimed i) :
    (s.release .ingest i).Holds j ↔ s.Holds j ∧ j ≠ i := by
  simp only [Holds, Queued, Claimed, release, update_self, Dict.get?_erase]
  by_cases same : j = i
  · subst same
    have notQueued : ¬ (s.ingest.get? j).isSome := by
      intro queued
      have free := good.exclusive j queued
      rw [Claimed, free] at claimed
      cases claimed
    simp [notQueued]
  · simp [same]

theorem keeps_restore {q : ℚ} (good : s.Consistent) (claimed : s.Claimed i) :
    s.Keeps ((s.release .ingest i).ingestSet i q) := by
  refine ⟨good.release.ingestSet release_free, ?_⟩
  intro j
  rw [holds_ingestSet, holds_release good claimed]
  by_cases same : j = i
  · simp [same, Holds, claimed]
  · simp [same]

theorem keeps_relist (good : s.Consistent) (list : kind ≠ .ingest) :
    s.Keeps ((s.release kind i).listAppend kind i) := by
  refine ⟨good.release.listAppend list, ?_⟩
  apply holds_congr
  · intro j
    rfl
  · intro j
    change (((update s.inflight kind _) .ingest).get? j).isSome = _
    rw [update_of_ne list.symm]

theorem keeps_writeField {name value : Str} (good : s.Consistent) :
    s.Keeps (s.writeJobPayloadField kind i name value) := by
  refine ⟨good.writeField name value, ?_⟩
  unfold writeJobPayloadField
  dsimp only
  split
  · exact holds_congr (fun _ => rfl) (fun _ => rfl)
  · exact holds_congr (fun _ => rfl) (fun _ => rfl)

theorem setPayloadField_sync {name value : Str} (queued : s.Queued i) :
    (s.setPayloadField (.ingest, i) name value).shadowSyncPayload .ingest i =
      s.writeJobPayloadField .ingest i name value := by
  have here : (s.setPayloadField (.ingest, i) name value).identityIsQueued .ingest i := queued
  simp only [writeJobPayloadField, here, if_true]

theorem zaddIngest_spec (good : s.Consistent) (i : Str) (q : ℚ) (fingerprint : Option Str)
    (overCap : Bool) (cap : Int) :
    (s.zaddIngest i q fingerprint overCap cap).1.Consistent ∧
      ∀ j, (s.zaddIngest i q fingerprint overCap cap).1.Holds j ↔
        s.Holds j ∨ (s.zaddIngest i q fingerprint overCap cap).2 = 1 ∧ i = j := by
  unfold zaddIngest
  dsimp only
  split
  · exact ⟨good, fun j => by simp⟩
  · next free =>
      split
      · exact ⟨good, fun j => by simp⟩
      · have absent : (s.inflight .ingest).get? i = none := by simpa using free
        have written := good.ingestSet (q := q) absent
        have queued : (s.ingestSet i q).Queued i := by simp [Queued]
        -- the fingerprint branch only adds a payload field to the queued identity
        have kept : ∀ t : Store, (s.ingestSet i q).Keeps t →
            t.Consistent ∧ ∀ j, t.Holds j ↔
              s.Holds j ∨ (if (s.ingest.get? i).isSome then 0 else 1) = 1 ∧ i = j := by
          intro t keeps
          refine ⟨keeps.1, ?_⟩
          intro j
          rw [keeps.2, holds_ingestSet]
          by_cases existed : (s.ingest.get? i).isSome
          · simp only [existed, if_true, zero_ne_one, false_and, or_false]
            refine ⟨?_, .inr⟩
            rintro (rfl | held)
            · exact .inl existed
            · exact held
          · simp only [existed, Bool.false_eq_true, if_false, true_and]
            exact ⟨fun h => h.symm.imp id Eq.symm, fun h => h.symm.imp Eq.symm id⟩
        apply kept
        split
        · rw [setPayloadField_sync queued]
          exact keeps_writeField written
        · exact Keeps.refl written

theorem holds_ingestPop (good : s.Accounted) (queued : s.Queued i) :
    (s.ingestPop i).Holds j ↔ s.Holds j ∧ j ≠ i := by
  simp only [Holds, Queued, Claimed, ingestPop_get?, ingestPop_inflight]
  by_cases same : j = i
  · subst same
    simp [good.exclusive j queued]
  · simp [same]

theorem drop_spec (good : s.Accounted) (armed : ∀ j, j ≠ i → s.Armed j) (queued : s.Queued i) :
    { s.ingestPop i with payloads := (s.ingestPop i).payloads.erase (.ingest, i) }.Consistent ∧
      ∀ j, { s.ingestPop i with
        payloads := (s.ingestPop i).payloads.erase (.ingest, i) }.Holds j ↔ s.Holds j ∧ j ≠ i := by
  have popped : (s.ingestPop i).Consistent := ⟨good.ingestPop, fun j => Armed.ingestPop (armed j)⟩
  refine ⟨popped.erasePayload fun _ => ?_, ?_⟩
  · rw [ingestPop_get?, if_pos rfl]
  · exact fun j => holds_ingestPop good queued

def trimmedMax (s : Store) : Heap HeapEntry :=
  s.ingestHeapCatchupMax.popWhile fun entry => !s.catchupMaxLive entry

theorem mem_trimmedMax (good : s.Consistent) {score : ℚ}
    (present : s.ingest.get? j = some score) (catchup : decodeIngestBand score = .catchup) :
    toLex (-score, j) ∈ s.trimmedMax := by
  apply Heap.mem_popWhile_of_not ((good.armed j score present).2 catchup)
  simp [catchupMaxLive, present]

theorem accounted_max (good : s.Accounted) (heap : Heap HeapEntry) :
    { s with ingestHeapCatchupMax := heap }.Accounted :=
  ⟨good.exclusive, good.leased, good.hotCount, good.catchupCount, good.shadowScores,
    good.shadowRows⟩

theorem trimmed_consistent (good : s.Consistent) :
    { s with ingestHeapCatchupMax := s.trimmedMax }.Consistent :=
  ⟨accounted_max good.toAccounted _, fun j score present =>
    ⟨(good.armed j score present).1, mem_trimmedMax good present⟩⟩

theorem evict_spec (good : s.Consistent) (day : Int) :
    (s.evictYoungestCatchupIngest day).1.Consistent ∧
      (∀ j, (s.evictYoungestCatchupIngest day).1.Holds j ↔
        s.Holds j ∧ (s.evictYoungestCatchupIngest day).2 ≠ some j) ∧
      ∀ j, (s.evictYoungestCatchupIngest day).2 = some j → s.Queued j := by
  have unchanged : ∀ t : Store × Option Str,
      t = ({ s with ingestHeapCatchupMax := s.trimmedMax }, none) →
      t.1.Consistent ∧ (∀ j, t.1.Holds j ↔ s.Holds j ∧ t.2 ≠ some j) ∧
        ∀ j, t.2 = some j → s.Queued j := by
    rintro t rfl
    exact ⟨trimmed_consistent good, fun j => by simp [Holds, Queued, Claimed],
      nofun⟩
  unfold evictYoungestCatchupIngest
  dsimp only
  split
  · exact unchanged _ rfl
  · next entry rest popped =>
      split
      · exact unchanged _ rfl
      · split
        · exact unchanged _ rfl
        · have live : s.catchupMaxLive entry = true := by
            simpa using Heap.not_of_pop?_popWhile popped
          have queued : s.Queued (ofLex entry).2 := by simp [Queued, of_decide_eq_true live]
          have armed : ∀ j, j ≠ (ofLex entry).2 → { s with ingestHeapCatchupMax := rest }.Armed j := by
            intro j apart score present
            refine ⟨(good.armed j score present).1, fun catchup => ?_⟩
            rcases (Heap.mem_of_pop? popped).mp (mem_trimmedMax good present catchup) with rfl | later
            · exact absurd rfl apart
            · exact later
          obtain ⟨kept, held⟩ := drop_spec (accounted_max good.toAccounted rest) armed queued
          refine ⟨kept, ?_, ?_⟩
          · intro j
            refine (held j).trans ?_
            change s.Holds j ∧ j ≠ _ ↔ s.Holds j ∧ some (ofLex entry).2 ≠ some j
            rw [Ne, Ne, Option.some.injEq, eq_comm]
          · rintro j same
            exact Option.some.inj same ▸ queued

theorem ownedEntry_claimed {owner : Str} (owned : s.ownedEntry kind i owner = some entry) :
    (s.inflight kind).get? i = some entry ∧ entry.owner = owner := by
  simpa [ownedEntry, Option.filter_eq_some_iff] using owned

theorem ack_spec (good : s.Consistent) (kind : Kind) (i owner : Str) :
    (s.ack kind i owner).1.Consistent ∧
      (∀ j, (s.ack kind i owner).1.Holds j ↔
        s.Holds j ∧ ¬ ((s.ack kind i owner).2 = true ∧ kind = .ingest ∧ i = j)) ∧
      ((s.ack kind i owner).2 = true → kind = .ingest →
        s.leases.get? (.ingest, i) = some owner) := by
  unfold ack
  split
  · exact ⟨good, by simp, by simp⟩
  · split
    · exact ⟨good, by simp, by simp⟩
    · next entry owned =>
        obtain ⟨found, holder⟩ := ownedEntry_claimed owned
        by_cases ingest : kind = .ingest
        · subst ingest
          have claimed : s.Claimed i := by simp [Claimed, found]
          have notQueued : s.ingest.get? i = none := by
            by_contra queued
            have free := good.exclusive i (Option.isSome_iff_ne_none.mpr queued)
            rw [found] at free
            cases free
          refine ⟨good.release.erasePayload fun _ => notQueued, ?_, ?_⟩
          · intro j
            simp only [true_and]
            rw [eq_comm (a := i)]
            exact holds_release good claimed
          · intro _ _
            rw [good.leased, found]
            exact congrArg some holder
        · have released : (s.release kind i).Consistent := good.release
          have erased := released.erasePayload (i := i) fun same => absurd same ingest
          have list : kind.isList = true := decide_eq_true ingest
          simp only [list, if_true, ingest, false_and, and_false, not_false_eq_true, and_true,
            IsEmpty.forall_iff, implies_true]
          refine ⟨erased.congr rfl rfl rfl rfl rfl rfl rfl (fun _ => rfl) rfl erased.shadowRows, ?_⟩
          apply holds_congr
          · intro _
            rfl
          · intro j
            change (((update s.inflight kind _) .ingest).get? j).isSome = _
            rw [update_of_ne (Ne.symm ingest)]

theorem requeue_keeps (good : s.Consistent) (kind : Kind) (i owner : Str) (score : Option ℚ) :
    s.Keeps (s.requeue kind i owner score).1 := by
  unfold requeue
  split
  · exact Keeps.refl good
  · split
    · exact Keeps.refl good
    · next entry owned =>
        obtain ⟨found, -⟩ := ownedEntry_claimed owned
        split
        · next same =>
            subst same
            have claimed : s.Claimed i := by simp [Claimed, found]
            have restored := keeps_restore (q := score.getD catchupScoreBase) good claimed
            exact restored.trans ⟨restored.1.shadowSyncPayload, fun _ => Iff.rfl⟩
        · next list => exact keeps_relist good list

theorem reapLoop_keeps (kind : Kind) (cutoff : ℚ) (want : Nat) (items : List (Str × Inflight))
    (out : List Str) (good : s.Consistent)
    (distinct : (items.map Prod.fst).Nodup)
    (claimed : kind = .ingest → ∀ e ∈ items, s.Claimed e.1) :
    s.Keeps (reapLoop kind cutoff want items s out).1 := by
  induction items generalizing s out with
  | nil => exact Keeps.refl good
  | cons head rest ih =>
    obtain ⟨identity, entry⟩ := head
    obtain ⟨fresh, restDistinct⟩ := List.nodup_cons.mp distinct
    unfold reapLoop
    split
    · exact Keeps.refl good
    · split
      · exact ih out good restDistinct fun ingest e member =>
          claimed ingest e (.tail _ member)
      · dsimp only
        by_cases ingest : kind = .ingest
        · subst ingest
          have moved := keeps_restore (q := penalizeIngestScore entry.score) good
            (claimed rfl _ (.head _))
          refine moved.trans (ih _ moved.1 restDistinct ?_)
          -- the other snapshot members are still in flight
          intro _ e member
          have apart : e.1 ≠ identity := by
            intro same
            exact fresh (List.mem_map.mpr ⟨e, member, same⟩)
          have before := claimed rfl e (.tail _ member)
          simpa [Claimed, release, Dict.get?_erase, apart] using before
        · rw [if_neg ingest]
          have moved := keeps_relist (i := identity) good ingest
          exact moved.trans (ih _ moved.1 restDistinct fun same => absurd same ingest)

theorem reap_keeps (good : s.Consistent) (kind : Kind) (now : ℚ) (limit : Int) :
    s.Keeps (s.reapExpiredInflight kind now limit).1 := by
  apply reapLoop_keeps kind _ _ _ _ good (s.inflight kind).distinct
  rintro rfl e member
  have found : (s.inflight .ingest).get? e.1 = some e.2 := Dict.get?_eq_some.mpr member
  simp [Claimed, found]

theorem enqueueList_keeps (good : s.Consistent) {dedupe : Bool} {cap : Int} {n : Nat}
    (done : s.enqueueList kind i dedupe cap = .ok (t, n)) : s.Keeps t := by
  unfold enqueueList at done
  split at done
  · cases done
  · next list =>
      split at done
      · cases done
        exact Keeps.refl good
      · split at done
        · cases done
          exact Keeps.refl good
        · cases done
          have apart : kind ≠ .ingest := by simpa [Kind.isList] using list
          exact ⟨good.listAppend apart, fun _ => Iff.rfl⟩

theorem keeps_lease_list (good : s.Consistent)
    (list : kind ≠ .ingest) : s.Keeps (s.lease kind i entry) := by
  refine ⟨good.lease fun same => absurd same list, ?_⟩
  apply holds_congr
  · intro _
    rfl
  · intro j
    change (((update s.inflight kind _) .ingest).get? j).isSome = _
    rw [update_of_ne list.symm]

theorem claimListLoop_keeps (list : kind ≠ .ingest) (owner : Str) (deadline : ℚ)
    (items : List Str) (good : s.Consistent) :
    s.Keeps (claimListLoop kind owner deadline items s).1 := by
  induction items generalizing s with
  | nil => exact Keeps.refl good
  | cons identity rest ih =>
    unfold claimListLoop
    have popped : s.Keeps
        { s with
          lists := update s.lists kind rest
          pending := update s.pending kind ((s.pending kind).erase identity)
          shadowLists := update s.shadowLists kind ((s.shadowLists kind).erase identity)
          shadowPending :=
            update s.shadowPending kind ((s.shadowPending kind).erase identity)
          shadowPayloads := s.shadowPayloads.erase (kind, identity) } := by
      refine ⟨good.congr rfl rfl rfl rfl rfl rfl rfl (fun _ => rfl) rfl ?_, fun _ => Iff.rfl⟩
      intro j
      rw [Dict.get?_erase_of_ne _ fun same => list (Prod.mk.inj same).1.symm]
      exact good.shadowRows j
    dsimp only
    split
    · exact popped.trans (ih popped.1)
    · exact popped.trans (keeps_lease_list popped.1 list)

theorem claimList_keeps (good : s.Consistent) {owner : Str} {ttl : Int} {now : ℚ}
    {job : Option ClaimedJob} (done : s.claimList kind owner ttl now = .ok (t, job)) :
    s.Keeps t := by
  unfold claimList at done
  split at done
  · cases done
  · next list =>
      split at done
      · cases done
      · have apart : kind ≠ .ingest := by simpa [Kind.isList] using list
        have loop := claimListLoop_keeps apart owner (now + ttl) (s.lists kind) good
        rw [Except.ok.inj done] at loop
        exact loop

theorem accounted_setHeap (good : s.Accounted) (band : Str) (heap : Heap HeapEntry) :
    (s.setIngestHeapForBand band heap).Accounted := by
  unfold setIngestHeapForBand
  split
  · exact ⟨good.exclusive, good.leased, good.hotCount, good.catchupCount, good.shadowScores,
      good.shadowRows⟩
  · exact ⟨good.exclusive, good.leased, good.hotCount, good.catchupCount, good.shadowScores,
      good.shadowRows⟩

theorem armed_setHeap {entry : HeapEntry} {rest : Heap HeapEntry}
    (popped : (s.ingestHeapForBand band).pop? = some (entry, rest))
    (apart : j ≠ (ofLex entry).2) (armed : s.Armed j) :
    (s.setIngestHeapForBand band rest).Armed j := by
  have stays : ∀ score, toLex (score, j) ∈ s.ingestHeapForBand band → toLex (score, j) ∈ rest := by
    intro score member
    rcases (Heap.mem_of_pop? popped).mp member with rfl | later
    · exact absurd rfl apart
    · exact later
  unfold setIngestHeapForBand ingestHeapForBand at *
  split
  · next hot =>
      intro score present
      obtain ⟨inHeap, inMax⟩ := armed score present
      refine ⟨?_, inMax⟩
      revert inHeap
      cases decodeIngestBand score with
      | hot => exact fun inHeap => stays score (by rw [if_pos hot]; exact inHeap)
      | catchup => exact id
  · next other =>
      intro score present
      obtain ⟨inHeap, inMax⟩ := armed score present
      refine ⟨?_, inMax⟩
      revert inHeap
      cases decodeIngestBand score with
      | hot => exact id
      | catchup => exact fun inHeap => stays score (by rw [if_neg other]; exact inHeap)

theorem claimEntry_keeps (good : s.Accounted) (armed : ∀ j, j ≠ i → s.Armed j)
    (range : ScoreRange) (owner : Str) (deadline snap : ℚ) :
    s.Keeps (s.claimEntry range owner deadline snap i).1 := by
  -- an identity that is not queued needs no heap entry
  have absentCase : s.ingest.get? i = none → s.Keeps s := by
    intro absent
    refine Keeps.refl ⟨good, fun j => ?_⟩
    by_cases same : j = i
    · rw [same]
      exact armed_of_absent absent
    · exact armed j same
  have rearmed : ∀ live, s.ingest.get? i = some live → s.Keeps (s.ingestHeapPush i live) := by
    intro live present
    refine ⟨⟨⟨good.exclusive, good.leased, good.hotCount, good.catchupCount, good.shadowScores,
      good.shadowRows⟩, fun j => ?_⟩, fun _ => Iff.rfl⟩
    by_cases same : j = i
    · rw [same]
      exact armed_push_self present
    · exact (armed j same).push
  unfold claimEntry
  split
  · next claimed =>
      apply absentCase
      by_contra queued
      have free := good.exclusive i (Option.isSome_iff_ne_none.mpr queued)
      rw [free] at claimed
      cases claimed
  · split
    · next absent => exact absentCase absent
    · next live present =>
        split
        · exact rearmed live present
        · split
          · exact rearmed live present
          · have popped : (s.ingestPop i).Consistent :=
              ⟨good.ingestPop, fun j => Armed.ingestPop (armed j)⟩
            refine ⟨popped.lease fun _ => by rw [ingestPop_get?, if_pos rfl], ?_⟩
            intro j
            have queued : s.Queued i := by simp [Queued, present]
            have moved := holds_ingestPop (j := j) good queued
            by_cases same : j = i
            · simp [same, Holds, Claimed, lease, queued]
            · simp only [Holds, Queued, Claimed, lease, update_self,
                Dict.get?_set_of_ne _ same, ne_eq, same, not_false_eq_true, and_true] at moved ⊢
              exact moved

theorem claimLoop_kept {Kept : Store → Prop} {range : ScoreRange} {owner : Str}
    {deadline : ℚ} {want fuel : Nat} {claimed jobs : List ClaimedJob}
    (turn : ∀ u entry rest, (u.ingestHeapForBand band).pop? = some (entry, rest) → Kept u →
      Kept ((u.setIngestHeapForBand band rest).claimEntry range owner deadline
        (ofLex entry).1 (ofLex entry).2).1)
    (start : Kept s) (done : claimLoop band range owner deadline want fuel s claimed = some (t, jobs)) :
    Kept t := by
  induction fuel generalizing s claimed with
  | zero => cases done
  | succ fuel ih =>
    unfold claimLoop at done
    split at done
    · split at done
      · cases done
        exact start
      · next entry rest popped => exact ih (turn s entry rest popped start) done
    · cases done
      exact start

theorem claimIngest_ok {fuel : Nat} {owner : Str} {ttl : Int} {now : ℚ} {maxN : Int}
    {answer : Store × List ClaimedJob}
    (done : s.claimIngest fuel band owner ttl now maxN = some (.ok answer)) :
    owner ≠ [] ∧ 1 ≤ maxN ∧
      ∃ range, claimLoop band range owner (now + ttl) maxN.toNat fuel s [] = some answer := by
  unfold claimIngest at done
  split at done
  · cases done
  · next named =>
      split at done
      · cases done
      · next room =>
          split at done
          · cases done
          · next range _ =>
              obtain ⟨result, loop, same⟩ := Option.map_eq_some_iff.mp done
              cases same
              exact ⟨named, not_lt.mp room, range, loop⟩

theorem perform_claimIngest {Kept : Store → Prop} {fuel : Nat} {band owner : Str} {ttl : Int}
    {now : ℚ} {maxN : Int} {t : Store} {answer : Answer}
    (turn : ∀ range u entry rest, (u.ingestHeapForBand band).pop? = some (entry, rest) → Kept u →
      Kept ((u.setIngestHeapForBand band rest).claimEntry range owner (now + ttl)
        (ofLex entry).1 (ofLex entry).2).1)
    (start : Kept s)
    (done : s.perform fuel (.claimIngest band owner ttl now maxN) = some (t, answer)) : Kept t := by
  obtain ⟨result, claimed, same⟩ := Option.map_eq_some_iff.mp done
  cases result with
  | error e =>
    cases same
    exact start
  | ok value =>
    cases same
    obtain ⟨-, -, range, loop⟩ := claimIngest_ok claimed
    exact claimLoop_kept (turn range) start loop

theorem claim_keeps (good : s.Consistent) {rest : Heap HeapEntry} {entry : HeapEntry}
    (popped : (s.ingestHeapForBand band).pop? = some (entry, rest)) (range : ScoreRange)
    (owner : Str) (deadline : ℚ) :
    s.Keeps ((s.setIngestHeapForBand band rest).claimEntry range owner deadline (ofLex entry).1
      (ofLex entry).2).1 := by
  have turn := claimEntry_keeps (i := (ofLex entry).2) (accounted_setHeap good.toAccounted band rest)
    (fun j apart => armed_setHeap popped apart (good.armed j)) range owner deadline (ofLex entry).1
  refine ⟨turn.1, fun j => (turn.2 j).trans ?_⟩
  unfold setIngestHeapForBand
  split
  · exact Iff.rfl
  · exact Iff.rfl

theorem keeps_deadline (deadline : ℚ) (good : s.Consistent)
    (found : (s.inflight kind).get? i = some entry) :
    s.Keeps { s with
      inflight := update s.inflight kind
        ((s.inflight kind).set i { entry with deadline := deadline }) } := by
  by_cases ingest : kind = .ingest
  · subst ingest
    refine ⟨⟨⟨?_, ?_, good.hotCount, good.catchupCount, good.shadowScores, good.shadowRows⟩,
      fun j => (good.armed j).congr rfl rfl rfl rfl⟩, ?_⟩
    · intro j queued
      have free := good.exclusive j queued
      have apart : j ≠ i := by
        rintro rfl
        rw [found] at free
        cases free
      simp [Dict.get?_set_of_ne _ apart, free]
    · intro j
      by_cases same : j = i
      · simp [same, good.leased, found]
      · simp [Dict.get?_set_of_ne _ same, good.leased]
    · refine holds_congr (fun _ => rfl) ?_
      intro j
      by_cases same : j = i
      · simp [same, found]
      · simp [Dict.get?_set_of_ne _ same]
  · have untouched : update s.inflight kind
        ((s.inflight kind).set i { entry with deadline := deadline }) .ingest = s.inflight .ingest :=
      update_of_ne (Ne.symm ingest) _ _
    refine ⟨good.congr rfl rfl rfl rfl rfl rfl untouched (fun _ => rfl) rfl good.shadowRows, ?_⟩
    refine holds_congr (fun _ => rfl) ?_
    intro j
    dsimp only
    rw [untouched]

theorem renew_keeps (good : s.Consistent) (kind : Kind) (i owner : Str) (ttl : Int) (now : ℚ) :
    s.Keeps (s.renewJobLease kind i owner ttl now).1 := by
  unfold renewJobLease
  split
  · exact Keeps.refl good
  · split
    · exact Keeps.refl good
    · next entry owned =>
        obtain ⟨found, rfl⟩ := ownedEntry_claimed owned
        have moved := keeps_deadline (now + ttl) good found
        -- the lease is rewritten with the owner it already names
        refine ⟨moved.1.congr rfl rfl rfl rfl rfl rfl rfl ?_ rfl moved.1.shadowRows, moved.2⟩
        intro j
        change (s.leases.set (kind, i) entry.owner).get? (.ingest, j) = s.leases.get? (.ingest, j)
        by_cases same : ((.ingest, j) : JobKey) = (kind, i)
        · cases same
          rw [Dict.get?_set_self, good.leased, found]
          rfl
        · rw [Dict.get?_set_of_ne _ same]

theorem persist_keeps (good : s.Consistent) : s.Keeps s.persistPrune := by
  refine ⟨good.congr rfl rfl rfl rfl rfl rfl rfl (fun _ => rfl) rfl ?_, fun _ => Iff.rfl⟩
  intro j
  dsimp only [persistPrune]
  rw [Dict.get?_filter, Dict.get?_filter, good.shadowRows]
  by_cases queued : (s.ingest.get? j).isSome
  · simp [queuedIdentities, queued]
  · simp [queued]

end Operations

end Store

def adds (identity : Str) : Action × Answer → Bool
  | (.call (.zaddIngest added ..), .count 1) => decide (added = identity)
  | _ => false

def removes (identity : Str) : Action × Answer → Bool
  | (.call (.ack .ingest acked _), .flag true) => decide (acked = identity)
  | (.call (.evictYoungestCatchupIngest _), .evicted (some gone)) => decide (gone = identity)
  | _ => false

def outstanding (identity : Str) (log : List (Action × Answer)) : Bool :=
  log.foldl (fun live label => (live || adds identity label) && !removes identity label) false

theorem outstanding_snoc (identity : Str) (log : List (Action × Answer)) (label : Action × Answer) :
    outstanding identity (log ++ [label]) =
      ((outstanding identity log || adds identity label) && !removes identity label) := by
  simp [outstanding]

open Store

def StepSpec (s : Store) (label : Action × Answer) (t : Store) : Prop :=
  t.Consistent ∧
    (∀ i, t.Holds i ↔ (s.Holds i ∨ adds i label = true) ∧ ¬ removes i label = true) ∧
    ∀ i, removes i label = true →
      (∃ owner, label.1 = .call (.ack .ingest i owner) ∧ s.leases.get? (.ingest, i) = some owner) ∨
      (∃ day, label = (.call (.evictYoungestCatchupIngest day), .evicted (some i)) ∧ s.Queued i)

theorem Store.Keeps.spec {s t : Store} {label : Action × Answer} (keeps : s.Keeps t)
    (adding : ∀ i, adds i label = false) (removing : ∀ i, removes i label = false) :
    StepSpec s label t := by
  refine ⟨keeps.1, fun i => ?_, fun i gone => ?_⟩
  · simp [adding, removing, keeps.2]
  · rw [removing] at gone
    cases gone

theorem settle_keeps {α : Type} {s : Store} (answer : α → Answer)
    {result : Except StoreError (Store × α)} (good : s.Consistent)
    (ok : ∀ t value, result = .ok (t, value) → s.Keeps t) :
    s.Keeps (settle s answer result).1 := by
  cases result with
  | error e => exact Keeps.refl good
  | ok value => exact ok _ _ rfl

theorem perform_spec {s t : Store} {fuel : Nat} {call : Call} {answer : Answer}
    (good : s.Consistent) (done : s.perform fuel call = some (t, answer)) :
    StepSpec s (.call call, answer) t := by
  cases call with
  | zaddIngest i q fingerprint overCap cap =>
    cases done
    obtain ⟨kept, held⟩ := zaddIngest_spec good i q fingerprint overCap cap
    refine ⟨kept, fun j => ?_, nofun⟩
    refine (held j).trans ?_
    have added : adds j (.call (.zaddIngest i q fingerprint overCap cap),
        .count (s.zaddIngest i q fingerprint overCap cap).2) = true ↔
          (s.zaddIngest i q fingerprint overCap cap).2 = 1 ∧ i = j := by
      unfold adds
      split
      · next heq =>
          simp only [Prod.mk.injEq, Action.call.injEq, Call.zaddIngest.injEq, Answer.count.injEq] at heq
          obtain ⟨⟨rfl, -⟩, one⟩ := heq
          simp [one]
      · next other =>
          constructor
          · nofun
          · rintro ⟨one, -⟩
            exact absurd (by rw [one]) (other i q fingerprint overCap cap)
    simp only [removes, Bool.false_eq_true, not_false_eq_true, and_true]
    exact or_congr Iff.rfl added.symm
  | evictYoungestCatchupIngest day =>
    cases done
    obtain ⟨kept, held, queued⟩ := evict_spec good day
    have gone : ∀ j, removes j (.call (.evictYoungestCatchupIngest day),
        .evicted (s.evictYoungestCatchupIngest day).2) = true ↔
          (s.evictYoungestCatchupIngest day).2 = some j := by
      cases (s.evictYoungestCatchupIngest day).2 with
      | none => simp [removes]
      | some i => simp [removes]
    refine ⟨kept, fun j => ?_, fun j removed => ?_⟩
    · refine (held j).trans ?_
      simp only [adds, Bool.false_eq_true, or_false]
      exact and_congr Iff.rfl (not_congr (gone j).symm)
    · have evicted := (gone j).mp removed
      exact .inr ⟨day, by rw [← evicted]; rfl, queued j evicted⟩
  | ack kind i owner =>
    cases done
    obtain ⟨kept, held, holder⟩ := ack_spec good kind i owner
    have gone : ∀ j, removes j (.call (.ack kind i owner), .flag (s.ack kind i owner).2) = true ↔
        (s.ack kind i owner).2 = true ∧ kind = .ingest ∧ i = j := by
      cases kind <;> cases (s.ack _ i owner).2 <;> simp [removes]
    refine ⟨kept, fun j => ?_, fun j removed => ?_⟩
    · refine (held j).trans ?_
      simp only [adds, Bool.false_eq_true, or_false]
      exact and_congr Iff.rfl (not_congr (gone j).symm)
    · obtain ⟨acked, rfl, rfl⟩ := (gone j).mp removed
      exact .inl ⟨owner, rfl, holder acked rfl⟩
  | enqueueList kind i dedupe cap =>
    have kept := settle_keeps Answer.count good fun t n
      (ok : s.enqueueList kind i dedupe cap = .ok (t, n)) => enqueueList_keeps good ok
    rw [Option.some.inj done] at kept
    exact kept.spec (fun _ => rfl) (fun _ => rfl)
  | claimIngest band owner ttl now maxN =>
    have kept : s.Keeps t := perform_claimIngest (fun range u entry rest popped kept =>
      kept.trans (claim_keeps kept.1 popped range owner _)) (Keeps.refl good) done
    exact kept.spec (fun _ => rfl) (fun _ => rfl)
  | claimList kind owner ttl now =>
    have kept := settle_keeps (fun job : Option ClaimedJob => Answer.claims job.toList) good
      fun t job (ok : s.claimList kind owner ttl now = .ok (t, job)) => claimList_keeps good ok
    rw [Option.some.inj done] at kept
    exact kept.spec (fun _ => rfl) (fun _ => rfl)
  | requeue kind i owner score =>
    cases done
    exact (requeue_keeps good kind i owner score).spec (fun _ => rfl) (fun _ => rfl)
  | reapExpiredInflight kind now limit =>
    cases done
    exact (reap_keeps good kind now limit).spec (fun _ => rfl) (fun _ => rfl)
  | extendInflightDeadline kind i deadline =>
    cases done
    apply Keeps.spec _ (fun _ => rfl) (fun _ => rfl)
    change s.Keeps (s.extendInflightDeadline kind i deadline).1
    unfold extendInflightDeadline
    split
    · exact Keeps.refl good
    · next entry found => exact keeps_deadline deadline good found
  | renewJobLease kind i owner ttl now =>
    cases done
    exact (renew_keeps good kind i owner ttl now).spec (fun _ => rfl) (fun _ => rfl)
  | writeJobPayloadField kind i name value =>
    cases done
    exact (keeps_writeField good).spec (fun _ => rfl) (fun _ => rfl)
  | persist =>
    cases done
    exact (persist_keeps good).spec (fun _ => rfl) (fun _ => rfl)

theorem step_spec {w w' : World} {label : Action × Answer} (good : w.store.Consistent)
    (taken : w.Steps label w') : StepSpec w.store label w'.store := by
  obtain ⟨fuel, stepped⟩ := taken
  obtain ⟨action, answer⟩ := label
  cases action with
  | call call =>
    obtain ⟨⟨s, reply⟩, done, same⟩ := Option.map_eq_some_iff.mp stepped
    cases same
    exact perform_spec good done
  | stealDeadOwnerLeases alive hostname bootId =>
    cases stepped
    exact (Keeps.refl good).spec (fun _ => rfl) (fun _ => rfl)
  | reconcileThisOwnerOrphanLeases kind localIdentities ownerToken =>
    cases stepped
    exact (Keeps.refl good).spec (fun _ => rfl) (fun _ => rfl)
  | resumeRecovery pass =>
    simp only [World.step] at stepped
    split at stepped
    · next call rest _ =>
        cases stepped
        exact (requeue_keeps good call.kind call.identity call.owner call.score).spec
          (fun _ => rfl) (fun _ => rfl)
    · cases stepped

theorem run_accounts {log : List (Action × Answer)} {w : World}
    (run : Run World.Steps World.empty log w) :
    w.store.Consistent ∧ ∀ i, w.store.Holds i ↔ outstanding i log = true := by
  refine run.logged (I := fun log w => w.store.Consistent ∧
    ∀ i, w.store.Holds i ↔ outstanding i log = true) ?_ ?_
  · exact ⟨empty_consistent, fun i => by simp [World.empty, Holds, Queued, Claimed, Store.empty,
      outstanding]⟩
  · rintro log w label w' ⟨good, held⟩ taken
    obtain ⟨kept, moved, -⟩ := step_spec good taken
    refine ⟨kept, fun i => ?_⟩
    rw [moved, held, outstanding_snoc]
    simp

/-- Each identity added and not yet acked or evicted is queued with live heap entries or else
leased; it leaves as an ack of its owner or as an eviction. -/
theorem ingest_conserved {log : List (Action × Answer)} {w : World}
    (run : Run World.Steps World.empty log w) :
    w.store.Consistent ∧
      (∀ i, w.store.Holds i ↔ outstanding i log = true) ∧
      ∀ label w', w.Steps label w' → ∀ i, w.store.Holds i → ¬ w'.store.Holds i →
        (∃ owner, label.1 = .call (.ack .ingest i owner) ∧
          w.store.leases.get? (.ingest, i) = some owner) ∨
        (∃ day, label = (.call (.evictYoungestCatchupIngest day), .evicted (some i)) ∧
          w.store.Queued i) := by
  obtain ⟨good, held⟩ := run_accounts run
  refine ⟨good, held, ?_⟩
  intro label w' taken i before after
  obtain ⟨-, moved, remover⟩ := step_spec good taken
  apply remover
  by_contra kept
  exact after ((moved i).mpr ⟨.inl before, kept⟩)

theorem ingest_conserved_claimed : ∃ w : World,
    Run World.Steps World.empty
      [(.call (.zaddIngest (lit "/raw/a") 5 none false 10), .count 1),
        (.call (.claimIngest (lit "hot") (lit "n:h:b:1") 60 0 1), .claims
          [⟨.ingest, lit "/raw/a", lit "n:h:b:1", 60, some 5, [], []⟩])] w ∧
      w.store.Consistent ∧ w.store.Holds (lit "/raw/a") := by
  let queued : World := ⟨(Store.empty.zaddIngest (lit "/raw/a") 5 none false 10).1, []⟩
  have claims : (queued.step 2 (.call (.claimIngest (lit "hot") (lit "n:h:b:1") 60 0 1))).map
      Prod.snd = some (.claims [⟨.ingest, lit "/raw/a", lit "n:h:b:1", 60, some 5, [], []⟩]) := by
    decide +kernel
  obtain ⟨⟨w, answer⟩, stepped, rfl⟩ := Option.map_eq_some_iff.mp claims
  have added : Run World.Steps World.empty
      [(.call (.zaddIngest (lit "/raw/a") 5 none false 10), .count 1)] queued :=
    .next .start ⟨0, rfl⟩
  have claimed : queued.Steps (.call (.claimIngest (lit "hot") (lit "n:h:b:1") 60 0 1), _) w :=
    ⟨2, stepped⟩
  have run := added.next claimed
  obtain ⟨good, held, -⟩ := ingest_conserved run
  exact ⟨w, run, good, (held _).mpr rfl⟩

end PerfStats.JobStore
