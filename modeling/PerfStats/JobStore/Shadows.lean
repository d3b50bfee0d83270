import PerfStats.JobStore.PayloadRows

/-! The durable shadow of the store: under calls that look for duplicates it holds every LIST
queue and the payload row of everything queued. -/

namespace PerfStats.JobStore

open Lib Function

section Mirrors

variable {kind k : Kind} {s t : Store} {i : Str}

structure Shadowed (kind : Kind) (s : Store) : Prop where
  lists : s.shadowLists kind = s.lists kind
  pending : s.shadowPending kind = s.pending kind
  rows : ∀ i ∈ s.lists kind, s.shadowPayloads.get? (kind, i) = s.payloads.get? (kind, i)

structure SameMirror (kind : Kind) (s t : Store) : Prop where
  lists : t.lists kind = s.lists kind
  pending : t.pending kind = s.pending kind
  shadowLists : t.shadowLists kind = s.shadowLists kind
  shadowPending : t.shadowPending kind = s.shadowPending kind
  rows : ∀ i, t.payloads.get? (kind, i) = s.payloads.get? (kind, i)
  shadowRows : ∀ i, t.shadowPayloads.get? (kind, i) = s.shadowPayloads.get? (kind, i)

theorem SameMirror.refl (kind : Kind) (s : Store) : SameMirror kind s s :=
  ⟨rfl, rfl, rfl, rfl, fun _ => rfl, fun _ => rfl⟩

theorem SameMirror.trans {u : Store} (first : SameMirror kind s t) (second : SameMirror kind t u) :
    SameMirror kind s u :=
  ⟨second.lists.trans first.lists, second.pending.trans first.pending,
    second.shadowLists.trans first.shadowLists, second.shadowPending.trans first.shadowPending,
    fun i => (second.rows i).trans (first.rows i),
    fun i => (second.shadowRows i).trans (first.shadowRows i)⟩

theorem SameMirror.keeps (same : SameMirror kind s t) (shadowed : Shadowed kind s) :
    Shadowed kind t := by
  refine ⟨?_, ?_, fun i member => ?_⟩
  · rw [same.shadowLists, shadowed.lists, same.lists]
  · rw [same.shadowPending, shadowed.pending, same.pending]
  · rw [same.shadowRows, same.rows]
    exact shadowed.rows i (same.lists ▸ member)

theorem key_apart (other : k ≠ kind) (i j : Str) : ((kind, j) : JobKey) ≠ (k, i) :=
  fun same => other (Prod.mk.inj same).1.symm

theorem shadowSync_mirror (other : k ≠ kind) : SameMirror kind s (s.shadowSyncPayload k i) :=
  ⟨rfl, rfl, rfl, rfl, fun _ => rfl, fun j => by
    rw [Store.shadowSyncPayload_get?, if_neg (key_apart other i j)]⟩

theorem ingestSet_mirror (list : kind ≠ .ingest) (q : ℚ) : SameMirror kind s (s.ingestSet i q) := by
  have shadowLists : (s.ingestSet i q).shadowLists = s.shadowLists := by
    unfold Store.ingestSet
    cases s.ingest.get? i <;> rfl
  obtain ⟨lists, pending, shadowPending, _⟩ := ingestSet_queues (s := s) (i := i) q
  refine ⟨congrFun lists kind, congrFun pending kind, congrFun shadowLists kind,
    congrFun shadowPending kind, fun j => ?_, fun j => ?_⟩
  · rw [Store.ingestSet_payloads]
  · rw [Store.ingestSet_shadowPayloads, if_neg (key_apart (Ne.symm list) i j)]

theorem ingestPop_mirror (list : kind ≠ .ingest) : SameMirror kind s (s.ingestPop i) := by
  unfold Store.ingestPop
  split
  · exact .refl kind s
  · exact ⟨rfl, rfl, rfl, rfl, fun _ => rfl,
      fun j => Dict.get?_erase_of_ne _ (key_apart (Ne.symm list) i j)⟩

theorem erasePayload_mirror (other : k ≠ kind) :
    SameMirror kind s { s with payloads := s.payloads.erase (k, i) } :=
  ⟨rfl, rfl, rfl, rfl, fun j => Dict.get?_erase_of_ne _ (key_apart other i j), fun _ => rfl⟩

theorem setPayloadField_mirror (other : k ≠ kind) (name value : Str) :
    SameMirror kind s (s.setPayloadField (k, i) name value) :=
  ⟨rfl, rfl, rfl, rfl, fun j => Dict.get?_set_of_ne _ (key_apart other i j) _, fun _ => rfl⟩

theorem zaddIngest_mirror (list : kind ≠ .ingest) (q : ℚ) (fingerprint : Option Str)
    (overCap : Bool) (cap : Int) :
    SameMirror kind s (s.zaddIngest i q fingerprint overCap cap).1 := by
  have other : Kind.ingest ≠ kind := Ne.symm list
  unfold Store.zaddIngest
  split
  · exact .refl kind s
  · dsimp only
    split
    · exact .refl kind s
    · split
      · exact ((ingestSet_mirror list q).trans (setPayloadField_mirror other _ _)).trans
          (shadowSync_mirror other)
      · exact ingestSet_mirror list q

theorem evict_mirror (list : kind ≠ .ingest) (day : Int) :
    SameMirror kind s (s.evictYoungestCatchupIngest day).1 := by
  have trimmed : ∀ heap, SameMirror kind s { s with ingestHeapCatchupMax := heap } := fun _ =>
    ⟨rfl, rfl, rfl, rfl, fun _ => rfl, fun _ => rfl⟩
  unfold Store.evictYoungestCatchupIngest
  dsimp only
  split
  · exact trimmed _
  · split
    · exact trimmed _
    · split
      · exact trimmed _
      · exact ((trimmed _).trans (ingestPop_mirror list)).trans (erasePayload_mirror (Ne.symm list))

theorem claimEntry_mirror (list : kind ≠ .ingest) (range : ScoreRange) (owner : Str)
    (deadline snap : ℚ) : SameMirror kind s (s.claimEntry range owner deadline snap i).1 := by
  unfold Store.claimEntry
  split
  · exact .refl kind s
  · split
    · exact .refl kind s
    · split
      · exact ⟨rfl, rfl, rfl, rfl, fun _ => rfl, fun _ => rfl⟩
      · split
        · exact ⟨rfl, rfl, rfl, rfl, fun _ => rfl, fun _ => rfl⟩
        · exact (ingestPop_mirror list).trans
            ⟨rfl, rfl, rfl, rfl, fun _ => rfl, fun _ => rfl⟩

theorem claim_mirror (list : kind ≠ .ingest) {band : Str} (rest : Heap HeapEntry)
    (range : ScoreRange) (owner : Str) (deadline snap : ℚ) : SameMirror kind s
      ((s.setIngestHeapForBand band rest).claimEntry range owner deadline snap i).1 := by
  have armed : SameMirror kind s (s.setIngestHeapForBand band rest) := by
    unfold Store.setIngestHeapForBand
    split <;> exact ⟨rfl, rfl, rfl, rfl, fun _ => rfl, fun _ => rfl⟩
  exact armed.trans (claimEntry_mirror list range owner deadline snap)

theorem listAppend_mirror (other : k ≠ kind) : SameMirror kind s (s.listAppend k i) := by
  have apart := Ne.symm other
  have appended : SameMirror kind s
      { s with
        lists := update s.lists k (s.lists k ++ [i])
        pending := update s.pending k (insert i (s.pending k))
        shadowLists := update s.shadowLists k (s.shadowLists k ++ [i])
        shadowPending := update s.shadowPending k (insert i (s.shadowPending k)) } :=
    ⟨update_of_ne apart _ _, update_of_ne apart _ _,
      update_of_ne apart _ _, update_of_ne apart _ _, fun _ => rfl, fun _ => rfl⟩
  exact appended.trans (shadowSync_mirror other)

theorem listAppend_shadowed (list : kind ≠ .ingest) (shadowed : Shadowed kind s) :
    Shadowed kind (s.listAppend kind i) := by
  refine ⟨?_, ?_, fun j member => ?_⟩
  · change update s.shadowLists kind _ kind = update s.lists kind _ kind
    rw [update_self, update_self, shadowed.lists]
  · change update s.shadowPending kind _ kind = update s.pending kind _ kind
    rw [update_self, update_self, shadowed.pending]
  · unfold Store.listAppend
    rw [Store.shadowSyncPayload_get?]
    by_cases same : j = i
    · subst same
      rw [if_pos rfl, Store.identityIsQueued, if_neg list]
      simp [Store.shadowSyncPayload]
    · rw [if_neg fun both => same (Prod.mk.inj both).2]
      refine shadowed.rows j ?_
      change j ∈ update s.lists kind (s.lists kind ++ [i]) kind at member
      rw [update_self, List.mem_append, List.mem_singleton, or_iff_left same] at member
      exact member

theorem claimListLoop_mirror (other : k ≠ kind) (owner : Str) (deadline : ℚ) (l : List Str) :
    SameMirror kind s (Store.claimListLoop k owner deadline l s).1 := by
  have apart := Ne.symm other
  induction l generalizing s with
  | nil => exact .refl kind s
  | cons i rest ih =>
    have popped : SameMirror kind s
        { s with
          lists := update s.lists k rest
          pending := update s.pending k ((s.pending k).erase i)
          shadowLists := update s.shadowLists k ((s.shadowLists k).erase i)
          shadowPending := update s.shadowPending k ((s.shadowPending k).erase i)
          shadowPayloads := s.shadowPayloads.erase (k, i) } :=
      ⟨update_of_ne apart _ _, update_of_ne apart _ _,
        update_of_ne apart _ _, update_of_ne apart _ _, fun _ => rfl,
        fun j => Dict.get?_erase_of_ne _ (key_apart other i j)⟩
    unfold Store.claimListLoop
    dsimp only
    split
    · exact popped.trans ih
    · exact popped.trans ⟨rfl, rfl, rfl, rfl, fun _ => rfl, fun _ => rfl⟩

theorem claimListLoop_shadowed (tidy : Tidy kind s) (shadowed : Shadowed kind s) (owner : Str)
    (deadline : ℚ) :
    Shadowed kind (Store.claimListLoop kind owner deadline (s.lists kind) s).1 := by
  cases queue : s.lists kind with
  | nil => exact shadowed
  | cons i rest =>
    have single := tidy.single
    rw [queue] at single
    have fresh := (List.nodup_cons.mp single).1
    have free : (s.inflight kind).get? i = none := tidy.free i (by simp [queue])
    have listed := shadowed.lists
    rw [queue] at listed
    unfold Store.claimListLoop
    simp only [free, Option.isSome_none, Bool.false_eq_true, if_false]
    refine ⟨?_, ?_, fun j member => ?_⟩
    · simp [Store.lease, listed]
    · simp [Store.lease, shadowed.pending]
    · simp only [Store.lease, update_self] at member ⊢
      have apart : j ≠ i := fun same => fresh (same ▸ member)
      rw [Dict.get?_erase_of_ne _ fun both => apart (Prod.mk.inj both).2]
      exact shadowed.rows j (by simp [queue, member])

theorem ack_shadowed (tidy : Tidy kind s) (list : kind ≠ .ingest) (shadowed : Shadowed kind s)
    (k : Kind) (owner : Str) : Shadowed kind (s.ack k i owner).1 := by
  unfold Store.ack
  split
  · exact shadowed
  · cases owned : s.ownedEntry k i owner with
    | none => exact shadowed
    | some entry =>
      have claimed : (s.inflight k).get? i = some entry :=
        (Option.filter_eq_some_iff.mp owned).1
      by_cases own : k = kind
      · subst own
        have absent : i ∉ s.lists k := by
          intro queued
          rw [tidy.free i queued] at claimed
          cases claimed
        have isList : k.isList = true := decide_eq_true list
        have pending : ((s.pending k).erase i) = s.pending k :=
          Finset.erase_eq_of_notMem fun member => absent ((tidy.mirrored i).mp member)
        simp only [isList, if_true]
        refine ⟨shadowed.lists, ?_, fun j member => ?_⟩
        · simp only [Store.release, update_self, pending]
          exact shadowed.pending
        · have apart : j ≠ i := fun same => absent (same ▸ member)
          dsimp only [Store.release]
          rw [Dict.get?_erase_of_ne _ fun both => apart (Prod.mk.inj both).2]
          exact shadowed.rows j member
      · refine SameMirror.keeps (s := s) ?_ shadowed
        have erased : SameMirror kind s { s.release k i with
            payloads := (s.release k i).payloads.erase (k, i) } :=
          ⟨rfl, rfl, rfl, rfl, fun j => Dict.get?_erase_of_ne _ (key_apart own i j), fun _ => rfl⟩
        dsimp only
        split
        · exact erased.trans
            ⟨rfl, update_of_ne (Ne.symm own) _ _, rfl, rfl, fun _ => rfl, fun _ => rfl⟩
        · exact erased

theorem release_mirror : SameMirror kind s (s.release k i) :=
  ⟨rfl, rfl, rfl, rfl, fun _ => rfl, fun _ => rfl⟩

theorem relist_shadowed (list : kind ≠ .ingest) (shadowed : Shadowed kind s) (k : Kind) (i : Str) :
    Shadowed kind ((s.release k i).listAppend k i) := by
  by_cases own : k = kind
  · subst own
    exact listAppend_shadowed list (release_mirror.keeps shadowed)
  · exact (release_mirror.trans (listAppend_mirror own)).keeps shadowed

theorem requeue_shadowed (list : kind ≠ .ingest) (shadowed : Shadowed kind s) (k : Kind)
    (owner : Str) (score : Option ℚ) : Shadowed kind (s.requeue k i owner score).1 := by
  unfold Store.requeue
  split
  · exact shadowed
  · split
    · exact shadowed
    · dsimp only
      split
      · next ingest =>
          have other : k ≠ kind := fun same => list (same.symm.trans ingest)
          exact ((release_mirror.trans (ingestSet_mirror list _)).trans
            (shadowSync_mirror other)).keeps shadowed
      · exact relist_shadowed list shadowed k i

theorem reapLoop_shadowed (list : kind ≠ .ingest) (shadowed : Shadowed kind s) (k : Kind)
    (cutoff : ℚ) (want : Nat) (items : List (Str × Inflight)) (out : List Str) :
    Shadowed kind (Store.reapLoop k cutoff want items s out).1 := by
  induction items generalizing s out with
  | nil => exact shadowed
  | cons head rest ih =>
    unfold Store.reapLoop
    split
    · exact shadowed
    · split
      · exact ih shadowed out
      · dsimp only
        split
        · exact ih ((release_mirror.trans (ingestSet_mirror list _)).keeps shadowed) _
        · exact ih (relist_shadowed list shadowed k head.1) _

theorem writeJobPayloadField_shadowed (tidy : Tidy kind s) (list : kind ≠ .ingest)
    (shadowed : Shadowed kind s) (k : Kind) (name value : Str) :
    Shadowed kind (s.writeJobPayloadField k i name value) := by
  unfold Store.writeJobPayloadField
  dsimp only
  by_cases own : k = kind
  · subst own
    have row : ∀ j, j ≠ i → (s.setPayloadField (k, i) name value).payloads.get? (k, j) =
        s.payloads.get? (k, j) := fun j apart =>
      Dict.get?_set_of_ne _ (fun both => apart (Prod.mk.inj both).2) _
    split
    · next queued =>
        refine ⟨shadowed.lists, shadowed.pending, fun j member => ?_⟩
        rw [Store.shadowSyncPayload_get?]
        by_cases same : j = i
        · subst same
          rw [if_pos rfl, if_pos queued]
          rfl
        · rw [if_neg fun both => same (Prod.mk.inj both).2]
          exact (shadowed.rows j member).trans (row j same).symm
    · next free =>
        refine ⟨shadowed.lists, shadowed.pending, fun j member => ?_⟩
        have apart : j ≠ i := by
          intro same
          subst same
          apply free
          rw [Store.identityIsQueued, if_neg list]
          exact decide_eq_true ((tidy.mirrored j).mpr member)
        exact (shadowed.rows j member).trans (row j apart).symm
  · split
    · exact ((setPayloadField_mirror own name value).trans (shadowSync_mirror own)).keeps shadowed
    · exact (setPayloadField_mirror own name value).keeps shadowed

theorem persistPrune_shadowed (list : kind ≠ .ingest) (shadowed : Shadowed kind s) :
    Shadowed kind s.persistPrune := by
  refine ⟨shadowed.lists, shadowed.pending, fun i member => ?_⟩
  have queued : s.queuedIdentities (kind, i) = true := by
    rw [Store.queuedIdentities, if_neg list]
    exact decide_eq_true member
  rw [Store.persistPrune_payloads (.inl queued)]
  unfold Store.persistPrune
  dsimp only
  rw [Dict.get?_filter, queued, ← shadowed.rows i member]
  cases s.shadowPayloads.get? (kind, i) <;> rfl

end Mirrors

section Calls

variable {kind : Kind} {s t : Store}

theorem perform_shadowed {fuel : Nat} {call : Call} {answer : Answer} (list : kind ≠ .ingest)
    (tidy : Tidy kind s) (shadowed : Shadowed kind s)
    (done : s.perform fuel call = some (t, answer)) : Shadowed kind t := by
  cases call with
  | zaddIngest i q fingerprint overCap cap =>
    cases done
    exact (zaddIngest_mirror list q fingerprint overCap cap).keeps shadowed
  | evictYoungestCatchupIngest day =>
    cases done
    exact (evict_mirror list day).keeps shadowed
  | enqueueList k j dedupe cap =>
    have same := congrArg Prod.fst (Option.some.inj done)
    rw [← show _ = t from same]
    unfold Store.enqueueList
    split
    · exact shadowed
    · split
      · exact shadowed
      · split
        · exact shadowed
        · by_cases own : k = kind
          · subst own
            exact listAppend_shadowed list shadowed
          · exact (listAppend_mirror own).keeps shadowed
  | claimIngest band owner ttl now maxN =>
    exact Store.perform_claimIngest (fun range _ _ rest _ held =>
      (claim_mirror list rest range owner _ _).keeps held) shadowed done
  | claimList k owner ttl now =>
    have same := congrArg Prod.fst (Option.some.inj done)
    rw [← show _ = t from same]
    unfold Store.claimList
    split
    · exact shadowed
    · split
      · exact shadowed
      · by_cases own : k = kind
        · subst own
          exact claimListLoop_shadowed tidy shadowed owner _
        · exact (claimListLoop_mirror own owner _ _).keeps shadowed
  | ack k j owner =>
    cases done
    exact ack_shadowed tidy list shadowed k owner
  | requeue k j owner score =>
    cases done
    exact requeue_shadowed list shadowed k owner score
  | reapExpiredInflight k now limit =>
    cases done
    exact reapLoop_shadowed list shadowed k _ _ _ _
  | extendInflightDeadline k j deadline =>
    cases done
    change Shadowed kind (s.extendInflightDeadline k j deadline).1
    unfold Store.extendInflightDeadline
    split
    · exact shadowed
    · exact ⟨shadowed.lists, shadowed.pending, shadowed.rows⟩
  | renewJobLease k j owner ttl now =>
    cases done
    change Shadowed kind (s.renewJobLease k j owner ttl now).1
    unfold Store.renewJobLease
    split
    · exact shadowed
    · split
      · exact shadowed
      · exact ⟨shadowed.lists, shadowed.pending, shadowed.rows⟩
  | writeJobPayloadField k j name value =>
    cases done
    exact writeJobPayloadField_shadowed tidy list shadowed k name value
  | persist =>
    cases done
    exact persistPrune_shadowed list shadowed

structure Store.Sound (s : Store) : Prop extends s.Consistent where
  tidy : ∀ kind, kind.isList = true → Tidy kind s
  shadowed : ∀ kind, kind.isList = true → Shadowed kind s

theorem isList_iff : kind.isList = true ↔ kind ≠ .ingest := decide_eq_true_iff

theorem empty_sound : Store.empty.Sound where
  toConsistent := Store.empty_consistent
  tidy := fun kind _ => tidy_empty kind
  shadowed := fun _ _ => ⟨rfl, rfl, nofun⟩

theorem perform_sound {fuel : Nat} {call : Call} {answer : Answer} (sound : s.Sound)
    (dedupes : call.Dedupes) (done : s.perform fuel call = some (t, answer)) : t.Sound where
  toConsistent := (perform_spec sound.toConsistent done).1
  tidy := fun kind list =>
    (perform_queue (isList_iff.mp list) (sound.tidy kind list) dedupes done).1
  shadowed := fun kind list =>
    perform_shadowed (isList_iff.mp list) (sound.tidy kind list) (sound.shadowed kind list) done

theorem Tidy.perm (tidy : Tidy kind s) (lists : (t.lists kind).Perm (s.lists kind))
    (pending : t.pending kind = s.pending kind) (inflight : t.inflight kind = s.inflight kind) :
    Tidy kind t := by
  refine ⟨⟨lists.nodup_iff.mpr tidy.single, fun i member => ?_⟩, fun i => ?_⟩
  · rw [inflight]
    exact tidy.free i (lists.mem_iff.mp member)
  · rw [pending, lists.mem_iff]
    exact tidy.mirrored i

theorem Shadowed.perm (shadowed : Shadowed kind s) (lists : (t.lists kind).Perm (s.lists kind))
    (same : t.shadowLists kind = t.lists kind) (pending : t.pending kind = s.pending kind)
    (shadowPending : t.shadowPending kind = s.shadowPending kind) (rows : t.payloads = s.payloads)
    (shadowRows : t.shadowPayloads = s.shadowPayloads) : Shadowed kind t := by
  refine ⟨same, by rw [shadowPending, shadowed.pending, pending], fun i member => ?_⟩
  rw [shadowRows, rows]
  exact shadowed.rows i (lists.mem_iff.mp member)

theorem permuted_sound (sound : s.Sound) {k : Kind} {ordered : List Str}
    (members : ordered.Perm (s.lists k)) :
    Store.Sound { s with
      lists := update s.lists k ordered
      shadowLists := update s.shadowLists k ordered } := by
  have perm : ∀ kind, (update s.lists k ordered kind).Perm (s.lists kind) := by
    intro kind
    by_cases own : kind = k
    · subst own
      rw [update_self]
      exact members
    · rw [update_of_ne own]
  refine ⟨sound.toConsistent.congr rfl rfl rfl rfl rfl rfl rfl (fun _ => rfl) rfl
    sound.shadowRows, fun kind list => ?_, fun kind list => ?_⟩
  · exact (sound.tidy kind list).perm (perm kind) rfl rfl
  · refine (sound.shadowed kind list).perm (perm kind) ?_ rfl rfl rfl rfl
    change update s.shadowLists k ordered kind = update s.lists k ordered kind
    by_cases own : kind = k
    · subst own
      rw [update_self, update_self]
    · rw [update_of_ne own, update_of_ne own]
      exact (sound.shadowed kind list).lists

theorem reorderList_sound (sound : s.Sound) (k : Kind) (ordered : List Str) :
    (s.reorderList k ordered).1.Sound := by
  unfold Store.reorderList
  dsimp only
  split
  · exact sound
  · split
    · exact sound
    · split
      · exact sound
      · next sorted =>
          split
          · exact sound
          · refine permuted_sound sound ?_
            rw [not_not] at sorted
            exact (List.perm_insertionSort _ ordered).symm.trans
              (sorted ▸ List.perm_insertionSort _ (s.lists k))

end Calls

end PerfStats.JobStore
