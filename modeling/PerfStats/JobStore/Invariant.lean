import PerfStats.JobStore.Calls

namespace PerfStats.JobStore

open Lib

namespace Store

def Queued (s : Store) (identity : Str) : Prop := (s.ingest.get? identity).isSome

def Claimed (s : Store) (identity : Str) : Prop := ((s.inflight .ingest).get? identity).isSome

def Holds (s : Store) (identity : Str) : Prop := s.Queued identity ∨ s.Claimed identity

def bandHeap (s : Store) : Band → Heap HeapEntry
  | .hot => s.ingestHeapHot
  | .catchup => s.ingestHeapCatchup

def inBand (band : Band) (score : ℚ) : Bool := decide (decodeIngestBand score = band)

def Armed (s : Store) (identity : Str) : Prop :=
  ∀ score, s.ingest.get? identity = some score →
    toLex (score, identity) ∈ s.bandHeap (decodeIngestBand score) ∧
      (decodeIngestBand score = .catchup → toLex (-score, identity) ∈ s.ingestHeapCatchupMax)

structure Accounted (s : Store) : Prop where
  exclusive : ∀ i, s.Queued i → (s.inflight .ingest).get? i = none
  leased : ∀ i, s.leases.get? (.ingest, i) = ((s.inflight .ingest).get? i).map Inflight.owner
  hotCount : s.ingestHotN = s.ingest.count (inBand .hot)
  catchupCount : s.ingestCatchupN = s.ingest.count (inBand .catchup)
  shadowScores : ∀ i, s.shadowIngest.get? i = s.ingest.get? i
  shadowRows : ∀ i, s.shadowPayloads.get? (.ingest, i) =
    if (s.ingest.get? i).isSome then s.payloads.get? (.ingest, i) else none

structure Consistent (s : Store) : Prop extends Accounted s where
  armed : ∀ i, s.Armed i

theorem empty_consistent : empty.Consistent where
  exclusive := fun _ _ => rfl
  leased := fun _ => rfl
  hotCount := rfl
  catchupCount := rfl
  shadowScores := fun _ => rfl
  shadowRows := fun _ => rfl
  armed := by
    nofun

section Primitives

variable {s : Store} {i : Str} {q : ℚ} {kind : Kind} {j : Str}

theorem ingestHotN_inc : (s.ingestBandInc q).ingestHotN = s.ingestHotN + (inBand .hot q).toNat := by
  unfold ingestBandInc inBand
  cases decodeIngestBand q <;> rfl

theorem ingestCatchupN_inc :
    (s.ingestBandInc q).ingestCatchupN = s.ingestCatchupN + (inBand .catchup q).toNat := by
  unfold ingestBandInc inBand
  cases decodeIngestBand q <;> rfl

theorem ingestHotN_dec : (s.ingestBandDec q).ingestHotN = s.ingestHotN - (inBand .hot q).toNat := by
  unfold ingestBandDec inBand
  cases decodeIngestBand q <;> rfl

theorem ingestCatchupN_dec :
    (s.ingestBandDec q).ingestCatchupN = s.ingestCatchupN - (inBand .catchup q).toNat := by
  unfold ingestBandDec inBand
  cases decodeIngestBand q <;> rfl

theorem shadowSyncPayload_get? (key : JobKey) :
    (s.shadowSyncPayload kind i).shadowPayloads.get? key =
      if key = (kind, i) then
        if s.identityIsQueued kind i then s.payloads.get? (kind, i) else none
      else s.shadowPayloads.get? key := by
  unfold shadowSyncPayload
  cases s.payloads.get? (kind, i) with
  | none => simp [Dict.get?_erase]
  | some fields =>
    by_cases queued : s.identityIsQueued kind i
    · simp [queued, Dict.get?_set]
    · simp [queued, Dict.get?_erase]

@[simp] theorem ingestSet_ingest : (s.ingestSet i q).ingest = s.ingest.set i q := by
  unfold ingestSet
  cases s.ingest.get? i <;> rfl

@[simp] theorem ingestSet_inflight : (s.ingestSet i q).inflight = s.inflight := by
  unfold ingestSet
  cases s.ingest.get? i <;> rfl

@[simp] theorem ingestSet_leases : (s.ingestSet i q).leases = s.leases := by
  unfold ingestSet
  cases s.ingest.get? i <;> rfl

@[simp] theorem ingestSet_payloads : (s.ingestSet i q).payloads = s.payloads := by
  unfold ingestSet
  cases s.ingest.get? i <;> rfl

@[simp] theorem ingestSet_shadowIngest :
    (s.ingestSet i q).shadowIngest = s.shadowIngest.set i q := by
  unfold ingestSet
  cases s.ingest.get? i <;> rfl

theorem ingestSet_shadowPayloads (key : JobKey) :
    (s.ingestSet i q).shadowPayloads.get? key =
      if key = (.ingest, i) then s.payloads.get? key else s.shadowPayloads.get? key := by
  unfold ingestSet
  cases s.ingest.get? i with
  | none =>
    rw [shadowSyncPayload_get?]
    split
    · next this => simp [this, identityIsQueued, ingestHeapPush, ingestBandInc]
    · rfl
  | some old =>
    rw [shadowSyncPayload_get?]
    split
    · next this => simp [this, identityIsQueued, ingestHeapPush, ingestBandInc, ingestBandDec]
    · rfl

theorem Armed.push (armed : s.Armed j) : (s.ingestHeapPush i q).Armed j := by
  intro score present
  obtain ⟨inHeap, inMax⟩ := armed score present
  constructor
  · unfold ingestHeapPush
    revert inHeap
    cases decodeIngestBand score with
    | hot =>
      intro inHeap
      dsimp only [bandHeap] at inHeap ⊢
      split
      · exact Heap.mem_push.mpr (.inr inHeap)
      · exact inHeap
    | catchup =>
      intro inHeap
      dsimp only [bandHeap] at inHeap ⊢
      split
      · exact inHeap
      · exact Heap.mem_push.mpr (.inr inHeap)
  · intro catchup
    unfold ingestHeapPush
    dsimp only
    split
    · exact inMax catchup
    · apply Heap.mem_push.mpr
      right
      split
      · rw [Heap.mem_heapify]
        apply List.mem_filterMap.mpr
        exact ⟨(j, score), Dict.get?_eq_some.mp present, by simp [catchup]⟩
      · exact inMax catchup

theorem armed_push_self (present : s.ingest.get? i = some q) : (s.ingestHeapPush i q).Armed i := by
  intro score same
  obtain rfl : q = score := Option.some.inj (present.symm.trans same)
  unfold ingestHeapPush bandHeap
  cases band : decodeIngestBand q with
  | hot => simp [Heap.mem_push]
  | catchup => simp [Heap.mem_push]

theorem Armed.congr {t : Store} (armed : s.Armed j)
    (scores : t.ingest.get? j = s.ingest.get? j) (hot : t.ingestHeapHot = s.ingestHeapHot)
    (catchup : t.ingestHeapCatchup = s.ingestHeapCatchup)
    (youngest : t.ingestHeapCatchupMax = s.ingestHeapCatchupMax) : t.Armed j := by
  intro score present
  obtain ⟨inHeap, inMax⟩ := armed score (scores ▸ present)
  refine ⟨?_, youngest ▸ inMax⟩
  unfold bandHeap at *
  rw [hot, catchup]
  exact inHeap

theorem armed_of_absent (absent : s.ingest.get? i = none) : s.Armed i := by
  intro score present
  rw [absent] at present
  cases present

theorem Armed.ingestSet (armed : j ≠ i → s.Armed j) : (s.ingestSet i q).Armed j := by
  -- the heaps are those of the push, taken after the score map was written
  have pushed : ∀ t : Store, t.ingest = s.ingest.set i q → t.ingestHeapHot = s.ingestHeapHot →
      t.ingestHeapCatchup = s.ingestHeapCatchup →
      t.ingestHeapCatchupMax = s.ingestHeapCatchupMax → (t.ingestHeapPush i q).Armed j := by
    intro t scores hot catchup youngest
    by_cases same : j = i
    · subst same
      apply armed_push_self
      rw [scores, Dict.get?_set_self]
    · apply Armed.push
      apply (armed same).congr _ hot catchup youngest
      rw [scores, Dict.get?_set_of_ne _ same]
  unfold Store.ingestSet
  cases s.ingest.get? i with
  | none => exact (pushed (Store.ingestBandInc { s with ingest := s.ingest.set i q } q)
      rfl rfl rfl rfl).congr rfl rfl rfl rfl
  | some old => exact (pushed (Store.ingestBandInc
      { s.ingestBandDec old with ingest := s.ingest.set i q } q) rfl rfl rfl rfl).congr rfl rfl rfl rfl

theorem ingestSet_hotCount (count : s.ingestHotN = s.ingest.count (inBand .hot)) :
    (s.ingestSet i q).ingestHotN = (s.ingest.set i q).count (inBand .hot) := by
  cases found : s.ingest.get? i with
  | none =>
    have here : (s.ingestSet i q).ingestHotN = s.ingestHotN + (inBand .hot q).toNat := by
      unfold ingestSet
      rw [found]
      exact ingestHotN_inc
    rw [here, Dict.count_set_new _ found, count]
  | some old =>
    have here : (s.ingestSet i q).ingestHotN =
        s.ingestHotN - (inBand .hot old).toNat + (inBand .hot q).toNat := by
      unfold ingestSet
      rw [found]
      exact ingestHotN_inc.trans (congrArg (· + _) ingestHotN_dec)
    have moved := Dict.count_set_old (inBand .hot) found q
    have present := Dict.count_erase (inBand .hot) found
    omega

theorem ingestSet_catchupCount (count : s.ingestCatchupN = s.ingest.count (inBand .catchup)) :
    (s.ingestSet i q).ingestCatchupN = (s.ingest.set i q).count (inBand .catchup) := by
  cases found : s.ingest.get? i with
  | none =>
    have here : (s.ingestSet i q).ingestCatchupN =
        s.ingestCatchupN + (inBand .catchup q).toNat := by
      unfold ingestSet
      rw [found]
      exact ingestCatchupN_inc
    rw [here, Dict.count_set_new _ found, count]
  | some old =>
    have here : (s.ingestSet i q).ingestCatchupN =
        s.ingestCatchupN - (inBand .catchup old).toNat + (inBand .catchup q).toNat := by
      unfold ingestSet
      rw [found]
      exact ingestCatchupN_inc.trans (congrArg (· + _) ingestCatchupN_dec)
    have moved := Dict.count_set_old (inBand .catchup) found q
    have present := Dict.count_erase (inBand .catchup) found
    omega

theorem Accounted.ingestSet (good : s.Accounted) (free : (s.inflight .ingest).get? i = none) :
    (s.ingestSet i q).Accounted where
  exclusive := by
    intro j queued
    rw [ingestSet_inflight]
    by_cases same : j = i
    · rw [same]
      exact free
    · apply good.exclusive
      simpa [Queued, Dict.get?_set_of_ne _ same] using queued
  leased := by
    intro j
    rw [ingestSet_leases, ingestSet_inflight]
    exact good.leased j
  hotCount := by
    rw [ingestSet_ingest]
    exact ingestSet_hotCount good.hotCount
  catchupCount := by
    rw [ingestSet_ingest]
    exact ingestSet_catchupCount good.catchupCount
  shadowScores := by
    intro j
    rw [ingestSet_ingest, ingestSet_shadowIngest, Dict.get?_set, Dict.get?_set, good.shadowScores]
  shadowRows := by
    intro j
    rw [ingestSet_shadowPayloads, ingestSet_ingest, ingestSet_payloads, Dict.get?_set]
    by_cases same : j = i
    · simp [same]
    · simp [same, good.shadowRows]

theorem Consistent.ingestSet (good : s.Consistent) (free : (s.inflight .ingest).get? i = none) :
    (s.ingestSet i q).Consistent where
  toAccounted := good.toAccounted.ingestSet free
  armed := fun j => Armed.ingestSet fun _ => good.armed j

theorem ingestPop_of_absent (absent : s.ingest.get? i = none) : s.ingestPop i = s := by
  unfold ingestPop
  rw [absent]

@[simp] theorem ingestPop_inflight : (s.ingestPop i).inflight = s.inflight := by
  unfold ingestPop
  cases s.ingest.get? i <;> rfl

@[simp] theorem ingestPop_payloads : (s.ingestPop i).payloads = s.payloads := by
  unfold ingestPop
  cases s.ingest.get? i <;> rfl

theorem ingestPop_get? (j : Str) :
    (s.ingestPop i).ingest.get? j = if j = i then none else s.ingest.get? j := by
  unfold ingestPop
  cases found : s.ingest.get? i with
  | none =>
    by_cases same : j = i
    · simp [same, found]
    · simp [same]
  | some old => exact Dict.get?_erase s.ingest i j

theorem Accounted.ingestPop (good : s.Accounted) : (s.ingestPop i).Accounted := by
  cases found : s.ingest.get? i with
  | none =>
    rw [ingestPop_of_absent found]
    exact good
  | some old =>
    have popped : s.ingestPop i =
        { ({ s with ingest := s.ingest.erase i }.ingestBandDec old) with
          shadowIngest := s.shadowIngest.erase i
          shadowPayloads := s.shadowPayloads.erase (.ingest, i) } := by
      unfold Store.ingestPop
      rw [found]
      rfl
    rw [popped]
    refine ⟨?_, good.leased, ?_, ?_, ?_, ?_⟩
    · intro j queued
      apply good.exclusive
      have kept : ((s.ingest.erase i).get? j).isSome := queued
      rw [Dict.get?_erase] at kept
      by_cases same : j = i
      · simp [same] at kept
      · simpa [Queued, same] using kept
    · have step := Dict.count_erase (inBand .hot) found
      have here := ingestHotN_dec (s := { s with ingest := s.ingest.erase i }) (q := old)
      have before := good.hotCount
      dsimp only [ingestBandDec] at here ⊢
      omega
    · have step := Dict.count_erase (inBand .catchup) found
      have here := ingestCatchupN_dec (s := { s with ingest := s.ingest.erase i }) (q := old)
      have before := good.catchupCount
      dsimp only [ingestBandDec] at here ⊢
      omega
    · intro j
      dsimp only [ingestBandDec]
      rw [Dict.get?_erase, Dict.get?_erase, good.shadowScores]
    · intro j
      change (s.shadowPayloads.erase (.ingest, i)).get? (.ingest, j) =
        if ((s.ingest.erase i).get? j).isSome then s.payloads.get? (.ingest, j) else none
      by_cases same : j = i
      · simp [same]
      · simp [same, Dict.get?_erase, good.shadowRows]

theorem Armed.ingestPop (armed : j ≠ i → s.Armed j) : (s.ingestPop i).Armed j := by
  by_cases same : j = i
  · apply armed_of_absent
    rw [ingestPop_get?, if_pos same]
  · have scores : (s.ingestPop i).ingest.get? j = s.ingest.get? j := by
      rw [ingestPop_get?, if_neg same]
    apply (armed same).congr scores
    · unfold Store.ingestPop
      cases s.ingest.get? i <;> rfl
    · unfold Store.ingestPop
      cases s.ingest.get? i <;> rfl
    · unfold Store.ingestPop
      cases s.ingest.get? i <;> rfl

theorem Consistent.congr {t : Store} (good : s.Consistent) (scores : t.ingest = s.ingest)
    (hot : t.ingestHeapHot = s.ingestHeapHot) (catchup : t.ingestHeapCatchup = s.ingestHeapCatchup)
    (youngest : t.ingestHeapCatchupMax = s.ingestHeapCatchupMax)
    (hotN : t.ingestHotN = s.ingestHotN) (catchupN : t.ingestCatchupN = s.ingestCatchupN)
    (claims : t.inflight .ingest = s.inflight .ingest)
    (leases : ∀ j, t.leases.get? (.ingest, j) = s.leases.get? (.ingest, j))
    (shadow : t.shadowIngest = s.shadowIngest)
    (rows : ∀ j, t.shadowPayloads.get? (.ingest, j) =
      if (s.ingest.get? j).isSome then t.payloads.get? (.ingest, j) else none) :
    t.Consistent where
  exclusive := by
    intro j queued
    rw [claims]
    exact good.exclusive j (by rwa [Queued, ← scores])
  leased := by
    intro j
    rw [leases, claims]
    exact good.leased j
  hotCount := by
    rw [hotN, scores]
    exact good.hotCount
  catchupCount := by
    rw [catchupN, scores]
    exact good.catchupCount
  shadowScores := by
    intro j
    rw [shadow, scores]
    exact good.shadowScores j
  shadowRows := by
    intro j
    simpa only [scores] using rows j
  armed := fun j => (good.armed j).congr (by rw [scores]) hot catchup youngest

theorem Consistent.release (good : s.Consistent) : (s.release kind i).Consistent := by
  cases kind with
  | ingest =>
    refine ⟨⟨?_, ?_, good.hotCount, good.catchupCount, good.shadowScores, good.shadowRows⟩, ?_⟩
    · intro j queued
      have before : (s.inflight .ingest).get? j = none := good.exclusive j queued
      simp [Store.release, Dict.get?_erase, before]
    · intro j
      by_cases same : j = i
      · simp [Store.release, same]
      · simp [Store.release, Dict.get?_erase, same, good.leased]
    · exact fun j => (good.armed j).congr rfl rfl rfl rfl
  | discover | append | dayClose =>
    refine good.congr rfl rfl rfl rfl rfl rfl rfl ?_ rfl good.shadowRows
    simp [Store.release, Dict.get?_erase]

theorem release_free : ((s.release .ingest i).inflight .ingest).get? i = none := by simp [release]

theorem Consistent.lease (good : s.Consistent) {entry : Inflight}
    (taken : kind = .ingest → s.ingest.get? i = none) : (s.lease kind i entry).Consistent := by
  cases kind with
  | ingest =>
    have absent := taken rfl
    refine ⟨⟨?_, ?_, good.hotCount, good.catchupCount, good.shadowScores, good.shadowRows⟩, ?_⟩
    · intro j queued
      have before : (s.inflight .ingest).get? j = none := good.exclusive j queued
      have apart : j ≠ i := by
        rintro rfl
        have still : (s.ingest.get? j).isSome := queued
        simp [absent] at still
      simp [Store.lease, Dict.get?_set_of_ne _ apart, before]
    · intro j
      by_cases same : j = i
      · simp [Store.lease, same]
      · simp [Store.lease, Dict.get?_set, same, good.leased]
    · exact fun j => (good.armed j).congr rfl rfl rfl rfl
  | discover | append | dayClose =>
    refine good.congr rfl rfl rfl rfl rfl rfl rfl ?_ rfl good.shadowRows
    simp [Store.lease, Dict.get?_set]

theorem Consistent.shadowSyncPayload (good : s.Consistent) :
    (s.shadowSyncPayload kind i).Consistent := by
  refine good.congr rfl rfl rfl rfl rfl rfl rfl (fun _ => rfl) rfl ?_
  intro j
  rw [shadowSyncPayload_get?]
  by_cases same : ((.ingest, j) : JobKey) = (kind, i)
  · cases same
    simp [identityIsQueued, Store.shadowSyncPayload]
  · rw [if_neg same, good.shadowRows]
    rfl

theorem listAppend_frame (list : kind ≠ .ingest) (j : Str) :
    (s.listAppend kind i).shadowPayloads.get? (.ingest, j) =
      s.shadowPayloads.get? (.ingest, j) := by
  unfold listAppend
  rw [shadowSyncPayload_get?, if_neg]
  intro same
  exact list (Prod.mk.inj same).1.symm

theorem Consistent.listAppend (good : s.Consistent) (list : kind ≠ .ingest) :
    (s.listAppend kind i).Consistent := by
  refine good.congr rfl rfl rfl rfl rfl rfl rfl (fun _ => rfl) rfl ?_
  intro j
  rw [listAppend_frame list]
  exact good.shadowRows j

theorem Consistent.erasePayload (good : s.Consistent)
    (gone : kind = .ingest → s.ingest.get? i = none) :
    { s with payloads := s.payloads.erase (kind, i) }.Consistent := by
  refine good.congr rfl rfl rfl rfl rfl rfl rfl (fun _ => rfl) rfl ?_
  intro j
  rw [good.shadowRows, Dict.get?_erase]
  by_cases same : ((.ingest, j) : JobKey) = (kind, i)
  · cases same
    simp [gone rfl]
  · simp [same]

theorem Consistent.writeField (good : s.Consistent) (name value : Str) :
    (s.writeJobPayloadField kind i name value).Consistent := by
  unfold writeJobPayloadField
  have other : ∀ j, ((.ingest, j) : JobKey) ≠ (kind, i) →
      (s.setPayloadField (kind, i) name value).payloads.get? (.ingest, j) =
        s.payloads.get? (.ingest, j) := by
    intro j apart
    simp [setPayloadField, Dict.get?_set, apart]
  dsimp only
  split
  · next queued =>
      refine good.congr rfl rfl rfl rfl rfl rfl rfl (fun _ => rfl) rfl ?_
      intro j
      rw [shadowSyncPayload_get?]
      by_cases same : ((.ingest, j) : JobKey) = (kind, i)
      · obtain ⟨rfl, rfl⟩ := Prod.mk.inj same
        have here : (s.ingest.get? j).isSome := by
          simpa [identityIsQueued, setPayloadField] using queued
        simp [queued, here, Store.shadowSyncPayload]
      · rw [if_neg same]
        have row := other j same
        change s.shadowPayloads.get? _ = if _ then (s.setPayloadField (kind, i) name value).payloads.get? _ else none
        rw [row]
        exact good.shadowRows j
  · next free =>
      refine good.congr rfl rfl rfl rfl rfl rfl rfl (fun _ => rfl) rfl ?_
      intro j
      by_cases same : ((.ingest, j) : JobKey) = (kind, i)
      · obtain ⟨rfl, rfl⟩ := Prod.mk.inj same
        have here : ¬ (s.ingest.get? j).isSome := by
          simpa [identityIsQueued, setPayloadField] using free
        have row := good.shadowRows j
        rw [if_neg here] at row ⊢
        exact row
      · rw [other j same]
        exact good.shadowRows j

end Primitives

end Store

end PerfStats.JobStore
