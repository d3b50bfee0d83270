import PerfStats.JobStore.Conservation
import PerfStats.JobStore.Queues

namespace PerfStats.JobStore

open Lib Function

section Tidy

variable {kind k : Kind} {s t : Store} {i j : Str}

def Store.ListHolds (s : Store) (kind : Kind) (i : Str) : Prop :=
  i ∈ s.lists kind ∨ ((s.inflight kind).get? i).isSome = true

structure Tidy (kind : Kind) (s : Store) : Prop extends Clean kind s where
  mirrored : ∀ i, i ∈ s.pending kind ↔ i ∈ s.lists kind

structure SameQueue (kind : Kind) (s t : Store) : Prop where
  lists : t.lists kind = s.lists kind
  pending : t.pending kind = s.pending kind
  inflight : t.inflight kind = s.inflight kind

def KeepsQueue (kind : Kind) (s t : Store) : Prop :=
  Tidy kind t ∧ ∀ i, t.ListHolds kind i ↔ s.ListHolds kind i

theorem SameQueue.refl (kind : Kind) (s : Store) : SameQueue kind s s := ⟨rfl, rfl, rfl⟩

theorem SameQueue.trans {u : Store} (first : SameQueue kind s t) (second : SameQueue kind t u) :
    SameQueue kind s u :=
  ⟨second.lists.trans first.lists, second.pending.trans first.pending,
    second.inflight.trans first.inflight⟩

theorem SameQueue.keeps (same : SameQueue kind s t) (tidy : Tidy kind s) : KeepsQueue kind s t := by
  refine ⟨⟨⟨?_, ?_⟩, ?_⟩, fun i => ?_⟩
  · rw [same.lists]
    exact tidy.single
  · rw [same.lists, same.inflight]
    exact tidy.free
  · rw [same.lists, same.pending]
    exact tidy.mirrored
  · rw [Store.ListHolds, same.lists, same.inflight, Store.ListHolds]

theorem KeepsQueue.refl (tidy : Tidy kind s) : KeepsQueue kind s s := ⟨tidy, fun _ => Iff.rfl⟩

theorem KeepsQueue.trans {u : Store} (first : KeepsQueue kind s t) (second : KeepsQueue kind t u) :
    KeepsQueue kind s u :=
  ⟨second.1, fun i => (second.2 i).trans (first.2 i)⟩

theorem tidy_empty (kind : Kind) : Tidy kind .empty :=
  ⟨⟨List.nodup_nil, nofun⟩, fun i => by simp [Store.empty]⟩

end Tidy

section Frames

variable {kind k : Kind} {s t : Store} {i : Str}

theorem sameQueue_of_frame (frame : t.lists = s.lists ∧ t.pending = s.pending ∧
    t.inflight = s.inflight) (kind : Kind) : SameQueue kind s t :=
  ⟨congrFun frame.1 kind, congrFun frame.2.1 kind, congrFun frame.2.2 kind⟩

theorem ingestSet_frame (q : ℚ) :
    (s.ingestSet i q).lists = s.lists ∧ (s.ingestSet i q).pending = s.pending ∧
      (s.ingestSet i q).inflight = s.inflight :=
  ⟨(ingestSet_queues q).1, (ingestSet_queues q).2.1, (ingestSet_queues q).2.2.2⟩

theorem ingestPop_frame :
    (s.ingestPop i).lists = s.lists ∧ (s.ingestPop i).pending = s.pending ∧
      (s.ingestPop i).inflight = s.inflight := by
  unfold Store.ingestPop
  split <;> exact ⟨rfl, rfl, rfl⟩

theorem zaddIngest_frame (q : ℚ) (fingerprint : Option Str) (overCap : Bool) (cap : Int) :
    (s.zaddIngest i q fingerprint overCap cap).1.lists = s.lists ∧
      (s.zaddIngest i q fingerprint overCap cap).1.pending = s.pending ∧
        (s.zaddIngest i q fingerprint overCap cap).1.inflight = s.inflight := by
  unfold Store.zaddIngest
  split
  · exact ⟨rfl, rfl, rfl⟩
  · dsimp only
    split
    · exact ⟨rfl, rfl, rfl⟩
    · split <;> exact ingestSet_frame q

theorem evict_frame (day : Int) :
    (s.evictYoungestCatchupIngest day).1.lists = s.lists ∧
      (s.evictYoungestCatchupIngest day).1.pending = s.pending ∧
        (s.evictYoungestCatchupIngest day).1.inflight = s.inflight := by
  unfold Store.evictYoungestCatchupIngest
  dsimp only
  split
  · exact ⟨rfl, rfl, rfl⟩
  · split
    · exact ⟨rfl, rfl, rfl⟩
    · split
      · exact ⟨rfl, rfl, rfl⟩
      · exact ingestPop_frame

theorem lease_other (other : k ≠ kind) (entry : Inflight) :
    SameQueue kind s (s.lease k i entry) :=
  ⟨rfl, rfl, update_of_ne (Ne.symm other) _ _⟩

theorem release_sameQueue (other : k ≠ kind) : SameQueue kind s (s.release k i) :=
  ⟨rfl, rfl, release_other other⟩

theorem claimEntry_other (list : kind ≠ .ingest) (range : ScoreRange) (owner : Str)
    (deadline snap : ℚ) : SameQueue kind s (s.claimEntry range owner deadline snap i).1 := by
  unfold Store.claimEntry
  split
  · exact .refl kind s
  · split
    · exact .refl kind s
    · split
      · exact ⟨rfl, rfl, rfl⟩
      · split
        · exact ⟨rfl, rfl, rfl⟩
        · exact (sameQueue_of_frame ingestPop_frame kind).trans (lease_other (Ne.symm list) _)

theorem claim_other (list : kind ≠ .ingest) {band : Str} (rest : Heap HeapEntry)
    (range : ScoreRange) (owner : Str) (deadline snap : ℚ) :
    SameQueue kind s ((s.setIngestHeapForBand band rest).claimEntry range owner deadline snap i).1 := by
  have armed : SameQueue kind s (s.setIngestHeapForBand band rest) := by
    unfold Store.setIngestHeapForBand
    split <;> exact ⟨rfl, rfl, rfl⟩
  exact armed.trans (claimEntry_other list range owner deadline snap)

theorem reapLoop_other (other : k ≠ kind) (cutoff : ℚ) (want : Nat)
    (items : List (Str × Inflight)) (out : List Str) :
    SameQueue kind s (Store.reapLoop k cutoff want items s out).1 := by
  induction items generalizing s out with
  | nil => exact SameQueue.refl kind _
  | cons head rest ih =>
    unfold Store.reapLoop
    split
    · exact SameQueue.refl kind _
    · split
      · exact ih out
      · dsimp only
        split
        · exact ((release_sameQueue other).trans
            (sameQueue_of_frame (ingestSet_frame _) kind)).trans (ih _)
        · have appended := @listAppend_other kind k (s.release k head.1) head.1 other
          exact ((release_sameQueue other).trans
            ⟨appended.1, appended.2.1, appended.2.2.2⟩).trans (ih _)

end Frames

section Moves

variable {kind : Kind} {s t : Store} {i : Str} {n : Nat}

theorem append_tidy (tidy : Tidy kind s) (absent : i ∉ s.lists kind)
    (lists : t.lists kind = s.lists kind ++ [i])
    (pending : t.pending kind = insert i (s.pending kind))
    (free : (t.inflight kind).get? i = none)
    (others : ∀ j, j ≠ i → (t.inflight kind).get? j = (s.inflight kind).get? j) :
    Tidy kind t ∧ ∀ j, t.ListHolds kind j ↔ j = i ∨ s.ListHolds kind j := by
  refine ⟨⟨⟨?_, fun j member => ?_⟩, fun j => ?_⟩, fun j => ?_⟩
  · rw [lists]
    exact List.nodup_append_comm.mp (List.nodup_cons.mpr ⟨absent, tidy.single⟩)
  · by_cases same : j = i
    · rw [same]
      exact free
    · rw [lists, List.mem_append, List.mem_singleton, or_iff_left same] at member
      rw [others j same]
      exact tidy.free j member
  · rw [pending, lists, Finset.mem_insert, List.mem_append, List.mem_singleton, tidy.mirrored,
      or_comm]
  · by_cases same : j = i
    · simp [Store.ListHolds, same, lists]
    · simp [Store.ListHolds, same, lists, others j same]

theorem enqueueList_queue (tidy : Tidy kind s) (cap : Int) (done : s.enqueueList kind i true cap =
    .ok (t, n)) :
    Tidy kind t ∧ (∀ j, t.ListHolds kind j ↔ n ≠ 0 ∧ j = i ∨ s.ListHolds kind j) ∧
      (n ≠ 0 → ¬s.ListHolds kind i) := by
  unfold Store.enqueueList at done
  split at done
  · cases done
  · split at done
    · cases done
      exact ⟨tidy, fun j => by simp, fun none_ => absurd rfl none_⟩
    · next fresh =>
        split at done
        · cases done
          exact ⟨tidy, fun j => by simp, fun none_ => absurd rfl none_⟩
        · cases done
          simp only [Bool.true_and, Bool.or_eq_true, decide_eq_true_eq, not_or,
            Option.not_isSome_iff_eq_none] at fresh
          have absent : i ∉ s.lists kind := fun member => fresh.1 ((tidy.mirrored i).mpr member)
          have lists : (s.listAppend kind i).lists kind = s.lists kind ++ [i] :=
            update_self ..
          obtain ⟨kept, held⟩ := append_tidy (t := s.listAppend kind i) tidy absent lists
            (update_self ..) fresh.2 fun _ _ => rfl
          have some_ : ((s.listAppend kind i).lists kind).length ≠ 0 := by
            rw [lists, List.length_append]
            simp
          refine ⟨kept, fun j => ?_, fun _ holds => ?_⟩
          · rw [held]
            simp only [some_, ne_eq, not_false_eq_true, true_and]
          · rcases holds with queued | claimed
            · exact absent queued
            · rw [fresh.2] at claimed
              cases claimed

theorem relist_queue (tidy : Tidy kind s) (claimed : ((s.inflight kind).get? i).isSome = true) :
    KeepsQueue kind s ((s.release kind i).listAppend kind i) := by
  have absent : i ∉ s.lists kind := by
    intro queued
    rw [tidy.free i queued] at claimed
    cases claimed
  have moved := append_tidy (t := (s.release kind i).listAppend kind i) tidy absent
    (update_self ..) (update_self ..)
    (by simp [Store.listAppend, Store.shadowSyncPayload, Store.release])
    (fun j apart => by
      simp [Store.listAppend, Store.shadowSyncPayload, Store.release, Dict.get?_erase, apart])
  refine ⟨moved.1, fun j => (moved.2 j).trans (or_iff_right_of_imp fun same => ?_)⟩
  rw [same]
  exact .inr claimed

theorem ack_queue (tidy : Tidy kind s) (list : kind ≠ .ingest) (owner : Str) :
    Tidy kind (s.ack kind i owner).1 ∧
      (∀ j, (s.ack kind i owner).1.ListHolds kind j ↔
        s.ListHolds kind j ∧ ¬((s.ack kind i owner).2 = true ∧ j = i)) ∧
      ((s.ack kind i owner).2 = true → s.ListHolds kind i) := by
  unfold Store.ack
  split
  · exact ⟨tidy, fun j => by simp, nofun⟩
  · cases owned : s.ownedEntry kind i owner with
    | none => exact ⟨tidy, fun j => by simp, nofun⟩
    | some entry =>
      have claimed : (s.inflight kind).get? i = some entry :=
        (Option.filter_eq_some_iff.mp owned).1
      have absent : i ∉ s.lists kind := by
        intro queued
        rw [tidy.free i queued] at claimed
        cases claimed
      have isList : kind.isList = true := decide_eq_true list
      simp only [isList, if_true, true_and]
      have pending : ((s.pending kind).erase i) = s.pending kind :=
        Finset.erase_eq_of_notMem fun member => absent ((tidy.mirrored i).mp member)
      refine ⟨⟨⟨tidy.single, fun j member => ?_⟩, fun j => ?_⟩, fun j => ?_, fun _ => .inr ?_⟩
      · have apart : j ≠ i := fun same => absent (same ▸ member)
        simp only [Store.release, update_self, Dict.get?_erase, apart, if_false]
        exact tidy.free j member
      · simp only [Store.release, update_self, pending]
        exact tidy.mirrored j
      · by_cases same : j = i
        · simp [Store.ListHolds, Store.release, same, absent]
        · simp [Store.ListHolds, Store.release, same, Dict.get?_erase]
      · rw [claimed, Option.isSome_some]

end Moves

section Calls

variable {kind : Kind} {s t : Store} {i : Str}

theorem claimListLoop_queue (tidy : Tidy kind s) (owner : Str) (deadline : ℚ) :
    KeepsQueue kind s (Store.claimListLoop kind owner deadline (s.lists kind) s).1 := by
  cases queue : s.lists kind with
  | nil => exact .refl tidy
  | cons i rest =>
    have single := tidy.single
    rw [queue] at single
    obtain ⟨fresh, restSingle⟩ := List.nodup_cons.mp single
    have free : (s.inflight kind).get? i = none := tidy.free i (by simp [queue])
    unfold Store.claimListLoop
    simp only [free, Option.isSome_none, Bool.false_eq_true, if_false]
    refine ⟨⟨⟨?_, fun j member => ?_⟩, fun j => ?_⟩, fun j => ?_⟩
    · simp only [Store.lease, update_self]
      exact restSingle
    · simp only [Store.lease, update_self] at member ⊢
      have apart : j ≠ i := by
        rintro rfl
        exact fresh member
      rw [Dict.get?_set_of_ne _ apart]
      exact tidy.free j (by simp [queue, member])
    · simp only [Store.lease, update_self, Finset.mem_erase, tidy.mirrored, queue,
        List.mem_cons]
      by_cases same : j = i
      · simp [same, fresh]
      · simp [same]
    · by_cases same : j = i
      · simp [Store.ListHolds, Store.lease, same, queue]
      · simp [Store.ListHolds, Store.lease, same, queue, Dict.get?_set]

theorem requeue_queue (tidy : Tidy kind s) (list : kind ≠ .ingest) (owner : Str)
    (score : Option ℚ) : KeepsQueue kind s (s.requeue kind i owner score).1 := by
  unfold Store.requeue
  split
  · exact .refl tidy
  · cases owned : s.ownedEntry kind i owner with
    | none => exact .refl tidy
    | some entry =>
      have claimed : (s.inflight kind).get? i = some entry :=
        (Option.filter_eq_some_iff.mp owned).1
      exact relist_queue tidy (by rw [claimed, Option.isSome_some])

theorem reapLoop_queue (list : kind ≠ .ingest) (cutoff : ℚ) (want : Nat)
    (items : List (Str × Inflight)) (out : List Str) (tidy : Tidy kind s)
    (distinct : (items.map Prod.fst).Nodup)
    (claimed : ∀ e ∈ items, ((s.inflight kind).get? e.1).isSome = true) :
    KeepsQueue kind s (Store.reapLoop kind cutoff want items s out).1 := by
  induction items generalizing s out with
  | nil => exact .refl tidy
  | cons head rest ih =>
    obtain ⟨fresh, restDistinct⟩ := List.nodup_cons.mp distinct
    unfold Store.reapLoop
    split
    · exact .refl tidy
    · split
      · exact ih out tidy restDistinct fun e member =>
          claimed e (.tail _ member)
      · dsimp only
        have moved := relist_queue tidy (claimed _ (.head _))
        refine moved.trans (ih _ moved.1 restDistinct fun e member => ?_)
        have apart : e.1 ≠ head.1 := fun same => fresh (List.mem_map.mpr ⟨e, member, same⟩)
        have before := claimed e (.tail _ member)
        simpa [Store.listAppend, Store.shadowSyncPayload, Store.release, Dict.get?_erase,
          apart] using before

theorem deadline_queue {k : Kind} {entry new : Inflight} (tidy : Tidy kind s)
    (found : (s.inflight k).get? i = some entry) (lists : t.lists = s.lists)
    (pending : t.pending = s.pending)
    (inflight : t.inflight = update s.inflight k ((s.inflight k).set i new)) :
    KeepsQueue kind s t := by
  by_cases own : kind = k
  · subst own
    have known : ∀ j, ((t.inflight kind).get? j).isSome = ((s.inflight kind).get? j).isSome := by
      intro j
      rw [inflight, update_self, Dict.get?_set]
      split
      · next same => rw [same, found, Option.isSome_some, Option.isSome_some]
      · rfl
    refine ⟨⟨⟨?_, fun j member => ?_⟩, fun j => ?_⟩, fun j => ?_⟩
    · rw [lists]
      exact tidy.single
    · rw [lists] at member
      have free := known j
      rw [tidy.free j member, Option.isSome_none] at free
      exact Option.not_isSome_iff_eq_none.mp (by rw [free]; exact Bool.false_ne_true)
    · rw [lists, pending]
      exact tidy.mirrored j
    · rw [Store.ListHolds, lists, known j, Store.ListHolds]
  · refine SameQueue.keeps ⟨congrFun lists kind, congrFun pending kind, ?_⟩ tidy
    rw [inflight, update_of_ne own]

def entered : Call × Answer → Option JobKey
  | (.zaddIngest i .., .count 1) => some (.ingest, i)
  | (.enqueueList kind i .., .count (_ + 1)) => some (kind, i)
  | _ => none

def departed : Call × Answer → Option JobKey
  | (.ack kind i _, .flag true) => some (kind, i)
  | (.evictYoungestCatchupIngest _, .evicted (some i)) => some (.ingest, i)
  | _ => none

def Call.Dedupes : Call → Prop
  | .enqueueList _ _ dedupe _ => dedupe = true
  | _ => True

def HeldSpec (kind : Kind) (held held' : Str → Prop) (label : Call × Answer) : Prop :=
  (∀ i, held' i ↔ (held i ∨ entered label = some (kind, i)) ∧ departed label ≠ some (kind, i)) ∧
    (∀ i, entered label = some (kind, i) → ¬held i) ∧
    ∀ i, departed label = some (kind, i) → held i

theorem heldSpec_of_same {held held' : Str → Prop} {label : Call × Answer}
    (same : ∀ i, held' i ↔ held i) (enters : ∀ i, entered label ≠ some (kind, i))
    (departs : ∀ i, departed label ≠ some (kind, i)) : HeldSpec kind held held' label :=
  ⟨fun i => by simp [same, enters, departs], fun i is => absurd is (enters i),
    fun i is => absurd is (departs i)⟩

theorem KeepsQueue.spec {label : Call × Answer} (kept : KeepsQueue kind s t)
    (enters : ∀ i, entered label ≠ some (kind, i))
    (departs : ∀ i, departed label ≠ some (kind, i)) :
    Tidy kind t ∧ HeldSpec kind (s.ListHolds kind) (t.ListHolds kind) label :=
  ⟨kept.1, heldSpec_of_same kept.2 enters departs⟩

variable {fuel : Nat} {call : Call} {answer : Answer}

theorem entered_zadd (list : kind ≠ .ingest) {q : ℚ} {fingerprint : Option Str} {overCap : Bool}
    {cap : Int} (j : Str) :
    entered (.zaddIngest i q fingerprint overCap cap, answer) ≠ some (kind, j) := by
  intro is
  unfold entered at is
  split at is
  · cases is
    exact list rfl
  · next same => cases same
  · cases is

theorem departed_evict (list : kind ≠ .ingest) (day : Int) (gone : Option Str) (j : Str) :
    departed (.evictYoungestCatchupIngest day, .evicted gone) ≠ some (kind, j) := by
  intro is
  cases gone with
  | none => cases is
  | some i =>
    cases is
    exact list rfl

theorem enqueueList_spec (tidy : Tidy kind s) (k : Kind) (j : Str) (cap : Int) :
    Tidy kind (settle s .count (s.enqueueList k j true cap)).1 ∧
      HeldSpec kind (s.ListHolds kind) ((settle s .count (s.enqueueList k j true cap)).1.ListHolds kind)
        (.enqueueList k j true cap, (settle s .count (s.enqueueList k j true cap)).2) := by
  cases done : s.enqueueList k j true cap with
  | error e => exact (KeepsQueue.refl tidy).spec nofun nofun
  | ok result =>
    obtain ⟨t, n⟩ := result
    have enters : ∀ i, entered (.enqueueList k j true cap, .count n) = some (kind, i) ↔
        n ≠ 0 ∧ k = kind ∧ j = i := by
      cases n with
      | zero => simp [entered]
      | succ n => simp [entered]
    by_cases own : k = kind
    · subst own
      obtain ⟨kept, held, fresh⟩ := enqueueList_queue tidy cap done
      refine ⟨kept, fun i => ?_, fun i is => ?_, fun i is => by simp [departed] at is⟩
      · simp only [settle, enters, held i, departed, ne_eq, reduceCtorEq, not_false_eq_true,
          and_true, true_and]
        rw [or_comm, eq_comm (a := i)]
      · obtain ⟨some_, _, same⟩ := (enters i).mp is
        exact same ▸ fresh some_
    · have frame := @performList_other kind s (.enqueueList k j true cap) own
      simp only [Store.performList, done, settle] at frame
      refine KeepsQueue.spec (SameQueue.keeps ⟨frame.1, frame.2.1, frame.2.2.2⟩ tidy)
        (fun i is => own ((enters i).mp is).2.1) (fun i => by simp [departed])

theorem ack_spec_list (tidy : Tidy kind s) (list : kind ≠ .ingest) (k : Kind) (j owner : Str) :
    Tidy kind (s.ack k j owner).1 ∧
      HeldSpec kind (s.ListHolds kind) ((s.ack k j owner).1.ListHolds kind)
        (.ack k j owner, .flag (s.ack k j owner).2) := by
  have departs : ∀ i, departed (.ack k j owner, .flag (s.ack k j owner).2) = some (kind, i) ↔
      (s.ack k j owner).2 = true ∧ k = kind ∧ j = i := by
    cases (s.ack k j owner).2 <;> simp [departed]
  by_cases own : k = kind
  · subst own
    obtain ⟨kept, held, holder⟩ := ack_queue (i := j) tidy list owner
    refine ⟨kept, fun i => ?_, nofun, fun i is => ?_⟩
    · rw [held, ne_eq, departs, eq_comm (a := i)]
      simp [entered]
    · obtain ⟨done, _, same⟩ := (departs i).mp is
      exact same ▸ holder done
  · have frame := @performList_other kind s (.ack k j owner) own
    exact (SameQueue.keeps ⟨frame.1, frame.2.1, frame.2.2.2⟩ tidy).spec nofun
      (fun i is => own ((departs i).mp is).2.1)

theorem requeue_keepsQueue (tidy : Tidy kind s) (list : kind ≠ .ingest) (k : Kind) (j owner : Str)
    (score : Option ℚ) : KeepsQueue kind s (s.requeue k j owner score).1 := by
  by_cases own : k = kind
  · subst own
    exact requeue_queue tidy list owner score
  · have frame := @performList_other kind s (.requeue k j owner score) own
    exact SameQueue.keeps ⟨frame.1, frame.2.1, frame.2.2.2⟩ tidy

theorem perform_queue (list : kind ≠ .ingest) (tidy : Tidy kind s) (dedupes : call.Dedupes)
    (done : s.perform fuel call = some (t, answer)) :
    Tidy kind t ∧ HeldSpec kind (s.ListHolds kind) (t.ListHolds kind) (call, answer) := by
  cases call with
  | zaddIngest i q fingerprint overCap cap =>
    cases done
    exact ((sameQueue_of_frame (zaddIngest_frame q fingerprint overCap cap) kind).keeps tidy).spec
      (fun j => entered_zadd list j) nofun
  | evictYoungestCatchupIngest day =>
    cases done
    exact ((sameQueue_of_frame (evict_frame day) kind).keeps tidy).spec
      nofun (departed_evict list _ _)
  | enqueueList k j dedupe cap =>
    have same : dedupe = true := dedupes
    subst same
    have spec := enqueueList_spec tidy k j cap
    rw [Option.some.inj done] at spec
    exact spec
  | claimIngest band owner ttl now maxN =>
    have frame : SameQueue kind s t := Store.perform_claimIngest (fun range _ _ rest _ same =>
      same.trans (claim_other list rest range owner _ _)) (.refl kind s) done
    have quiet : ∀ i, entered (.claimIngest band owner ttl now maxN, answer) ≠ some (kind, i) :=
      nofun
    exact (frame.keeps tidy).spec quiet nofun
  | claimList k owner ttl now =>
    have kept : KeepsQueue kind s (settle s (fun job : Option ClaimedJob => .claims job.toList)
        (s.claimList k owner ttl now)).1 := by
      by_cases own : k = kind
      · subst own
        unfold Store.claimList
        split
        · exact .refl tidy
        · split
          · exact .refl tidy
          · exact claimListLoop_queue tidy owner _
      · have frame := @performList_other kind s (.claimList k owner ttl now) own
        exact SameQueue.keeps ⟨frame.1, frame.2.1, frame.2.2.2⟩ tidy
    rw [Option.some.inj done] at kept
    exact kept.spec nofun nofun
  | ack k j owner =>
    cases done
    exact ack_spec_list tidy list k j owner
  | requeue k j owner score =>
    cases done
    exact (requeue_keepsQueue tidy list k j owner score).spec nofun
      nofun
  | reapExpiredInflight k now limit =>
    cases done
    refine KeepsQueue.spec ?_ nofun nofun
    by_cases own : k = kind
    · subst own
      refine reapLoop_queue list _ _ _ _ tidy (s.inflight k).distinct fun e member => ?_
      rw [Dict.get?_eq_some.mpr member, Option.isSome_some]
    · exact (reapLoop_other own _ _ _ _).keeps tidy
  | extendInflightDeadline k j deadline =>
    cases done
    refine KeepsQueue.spec ?_ nofun nofun
    change KeepsQueue kind s (s.extendInflightDeadline k j deadline).1
    unfold Store.extendInflightDeadline
    split
    · exact .refl tidy
    · next entry found => exact deadline_queue tidy found rfl rfl rfl
  | renewJobLease k j owner ttl now =>
    cases done
    refine KeepsQueue.spec ?_ nofun nofun
    change KeepsQueue kind s (s.renewJobLease k j owner ttl now).1
    unfold Store.renewJobLease
    split
    · exact .refl tidy
    · cases owned : s.ownedEntry k j owner with
      | none => exact .refl tidy
      | some entry => exact deadline_queue tidy (Option.filter_eq_some_iff.mp owned).1 rfl rfl rfl
  | writeJobPayloadField k j name value =>
    cases done
    refine KeepsQueue.spec (SameQueue.keeps ?_ tidy) nofun
      nofun
    unfold Store.writeJobPayloadField
    dsimp only
    split <;> exact ⟨rfl, rfl, rfl⟩
  | persist =>
    cases done
    exact KeepsQueue.spec (SameQueue.keeps ⟨rfl, rfl, rfl⟩ tidy) nofun
      nofun

theorem zaddIngest_fresh {q : ℚ} {fingerprint : Option Str} {overCap : Bool} {cap : Int}
    (added : (s.zaddIngest i q fingerprint overCap cap).2 = 1) : ¬s.Holds i := by
  unfold Store.zaddIngest at added
  split at added
  · cases added
  · next free =>
      dsimp only at added
      split at added
      · cases added
      · by_cases existed : (s.ingest.get? i).isSome = true
        · simp [existed] at added
        · exact fun held => held.elim existed free

theorem adds_iff_entered (done : s.perform fuel call = some (t, answer)) (i : Str) :
    adds i (.call call, answer) = true ↔ entered (call, answer) = some (.ingest, i) := by
  cases call with
  | zaddIngest j q fingerprint overCap cap =>
    match answer with
    | .count 0 => simp [adds, entered]
    | .count 1 => simp [adds, entered]
    | .count (n + 2) => simp [adds, entered]
    | .raised _ | .evicted _ | .claims _ | .flag _ | .identities _ | .done =>
      exact iff_of_false (fun is => by cases is) (fun is => by cases is)
  | enqueueList k j dedupe cap =>
    refine iff_of_false (fun is => by cases is) fun is => ?_
    cases k with
    | ingest =>
      cases done
      cases is
    | _ =>
      unfold entered at is
      split at is
      · next same => cases same
      · next same =>
          cases same
          cases is
      · cases is
  | _ => exact iff_of_false (fun is => by cases is) (fun is => by cases is)

theorem removes_iff_departed (i : Str) :
    removes i (.call call, answer) = true ↔ departed (call, answer) = some (.ingest, i) := by
  cases call with
  | ack k j owner =>
    cases answer with
    | flag done => cases done <;> cases k <;> simp [removes, departed]
    | _ => cases k <;> exact iff_of_false (fun is => by cases is) (fun is => by cases is)
  | evictYoungestCatchupIngest day =>
    cases answer with
    | evicted gone => cases gone <;> simp [removes, departed]
    | _ => exact iff_of_false (fun is => by cases is) (fun is => by cases is)
  | _ => exact iff_of_false (fun is => by cases is) (fun is => by cases is)

theorem perform_ingest (good : s.Consistent) (done : s.perform fuel call = some (t, answer)) :
    t.Consistent ∧ HeldSpec .ingest s.Holds t.Holds (call, answer) := by
  obtain ⟨kept, held, gone⟩ := perform_spec good done
  refine ⟨kept, fun i => ?_, fun i is => ?_, fun i is => ?_⟩
  · rw [held i, adds_iff_entered done, removes_iff_departed]
  · unfold entered at is
    split at is
    · next j q fingerprint overCap cap same =>
        cases same
        cases is
        have value : (s.zaddIngest i q fingerprint overCap cap).2 = 1 := by
          have reply := congrArg Prod.snd (Option.some.inj done)
          exact Answer.count.inj reply
        exact zaddIngest_fresh value
    · next same =>
        cases same
        cases is
        cases done
    · cases is
  · rcases gone i ((removes_iff_departed i).mpr is) with ⟨owner, _, leased⟩ | ⟨day, _, queued⟩
    · refine .inr ?_
      rw [good.leased] at leased
      exact Option.isSome_iff_exists.mpr ⟨_, (Option.map_eq_some_iff.mp leased).choose_spec.1⟩
    · exact .inl queued

end Calls

section Runs

variable {kind : Kind} {s t : Store} {i : Str} {w w' : World} {label : Action × Answer}
  {log : List (Action × Answer)}

def tells (event : Call × Answer → Option JobKey) (key : JobKey) : Action × Answer → Bool
  | (.call call, answer) => decide (event (call, answer) = some key)
  | _ => false

def Balanced (kind : Kind) (log : List (Action × Answer)) (s : Store) (i : Str) : Prop :=
  (s.ListHolds kind i →
    log.countP (tells entered (kind, i)) = log.countP (tells departed (kind, i)) + 1) ∧
  (¬s.ListHolds kind i →
    log.countP (tells entered (kind, i)) = log.countP (tells departed (kind, i)))

def World.Deduped (w : World) (label : Action × Answer) (w' : World) : Prop :=
  w.Steps label w' ∧ ∀ call, label.1 = .call call → call.Dedupes

theorem Balanced.silent (balanced : Balanced kind log s i) (kept : KeepsQueue kind s t)
    (quiet : ∀ event key, tells event key label = false) : Balanced kind (log ++ [label]) t i := by
  simpa [Balanced, kept.2 i, quiet] using balanced

theorem Balanced.call {call : Call} {answer : Answer} (balanced : Balanced kind log s i)
    (spec : HeldSpec kind (s.ListHolds kind) (t.ListHolds kind) (call, answer)) :
    Balanced kind (log ++ [(.call call, answer)]) t i := by
  obtain ⟨held, fresh, leaves⟩ := spec
  have enters := fresh i
  have departs := leaves i
  unfold Balanced at balanced ⊢
  simp only [List.countP_append, List.countP_singleton, held i, tells, decide_eq_true_eq]
  by_cases before : s.ListHolds kind i <;> grind

theorem step_balanced (list : kind ≠ .ingest) (tidy : Tidy kind w.store)
    (balanced : Balanced kind log w.store i) (taken : w.Deduped label w') :
    Tidy kind w'.store ∧ Balanced kind (log ++ [label]) w'.store i := by
  obtain ⟨⟨fuel, stepped⟩, dedupes⟩ := taken
  obtain ⟨action, answer⟩ := label
  cases action with
  | call call =>
    obtain ⟨⟨next, reply⟩, done, same⟩ := Option.map_eq_some_iff.mp stepped
    cases same
    obtain ⟨kept, spec⟩ := perform_queue list tidy (dedupes call rfl) done
    exact ⟨kept, balanced.call spec⟩
  | stealDeadOwnerLeases | reconcileThisOwnerOrphanLeases =>
    cases stepped
    exact ⟨tidy, balanced.silent (.refl tidy) fun _ _ => rfl⟩
  | resumeRecovery pass =>
    simp only [World.step] at stepped
    split at stepped
    · next call rest _ =>
        cases stepped
        have kept := requeue_keepsQueue tidy list call.kind call.identity call.owner call.score
        exact ⟨kept.1, balanced.silent kept fun _ _ => rfl⟩
    · cases stepped

/-- In every run, reaps and recovery passes among its steps, no job of a LIST queue is lost and none
is done twice. -/
theorem list_jobs_conserved (list : kind ≠ .ingest) (i : Str)
    (run : Run World.Deduped World.empty log w) :
    Tidy kind w.store ∧ Balanced kind log w.store i := by
  apply run.logged (I := fun log w => Tidy kind w.store ∧ Balanced kind log w.store i)
  · refine ⟨tidy_empty kind, fun held => ?_, fun _ => rfl⟩
    simp [World.empty, Store.ListHolds, Store.empty] at held
  · rintro log w label w' ⟨tidy, balanced⟩ taken
    exact step_balanced list tidy balanced taken

theorem list_jobs_conserved_once : ∃ w, Tidy .append w ∧ Balanced .append
    [(.call (.enqueueList .append (lit "d") true 8), .count 1),
      (.call (.enqueueList .append (lit "d") true 8), .count 0)] w (lit "d") :=
  ⟨_, list_jobs_conserved (by decide) _ ((Run.start.next ⟨⟨0, rfl⟩, by rintro _ ⟨⟩; rfl⟩).next
    ⟨⟨0, rfl⟩, by rintro _ ⟨⟩; rfl⟩)⟩

end Runs

end PerfStats.JobStore
