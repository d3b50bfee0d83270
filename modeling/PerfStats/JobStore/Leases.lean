import PerfStats.JobStore.Conservation

namespace PerfStats.JobStore

open Lib

namespace Store

def ingestLease (s : Store) (identity : Str) : Option Inflight :=
  (s.inflight .ingest).get? identity

structure Took (s t : Store) (owner : Str) (jobs : List ClaimedJob) : Prop where
  distinct : (jobs.map ClaimedJob.identity).Nodup
  free : ∀ job ∈ jobs, s.ingestLease job.identity = none
  owned : ∀ job ∈ jobs, job.ownerToken = owner ∧
    ∃ entry, t.ingestLease job.identity = some entry ∧ entry.owner = owner
  others : ∀ i, i ∉ jobs.map ClaimedJob.identity → t.ingestLease i = s.ingestLease i

variable {s t u : Store} {i owner : Str} {jobs : List ClaimedJob}

theorem Took.refl (s : Store) (owner : Str) : Took s s owner [] :=
  ⟨List.nodup_nil, by simp, by simp, fun _ _ => rfl⟩

theorem Took.same (took : Took s t owner jobs) (leases : u.inflight = t.inflight) :
    Took s u owner jobs where
  distinct := took.distinct
  free := took.free
  owned := by
    simp only [ingestLease, leases]
    exact took.owned
  others := by
    simp only [ingestLease, leases]
    exact took.others

theorem ingestLease_lease (entry : Inflight) (j : Str) :
    (s.lease .ingest i entry).ingestLease j = if j = i then some entry else s.ingestLease j := by
  simp only [ingestLease, lease, Function.update_self, Dict.get?_set]

theorem Took.more (took : Took s t owner jobs) {job : ClaimedJob} {entry : Inflight}
    (token : job.ownerToken = owner) (holder : entry.owner = owner)
    (free : t.ingestLease job.identity = none)
    (leased : ∀ i, u.ingestLease i = if i = job.identity then some entry else t.ingestLease i) :
    Took s u owner (jobs ++ [job]) := by
  have absent : job.identity ∉ jobs.map ClaimedJob.identity := by
    intro member
    obtain ⟨earlier, among, same⟩ := List.mem_map.mp member
    obtain ⟨-, held, found, -⟩ := took.owned earlier among
    rw [same, free] at found
    cases found
  constructor
  · rw [List.map_append]
    refine List.nodup_append.mpr ⟨took.distinct, List.nodup_singleton _, ?_⟩
    intro a member b single
    simp only [List.map_cons, List.map_nil, List.mem_singleton] at single
    rintro rfl
    exact absent (single ▸ member)
  · intro other member
    rcases List.mem_append.mp member with early | last
    · exact took.free other early
    · rw [List.mem_singleton.mp last, ← took.others _ absent]
      exact free
  · intro other member
    rcases List.mem_append.mp member with early | last
    · obtain ⟨named, held, found, own⟩ := took.owned other early
      refine ⟨named, held, ?_, own⟩
      rw [leased, if_neg, found]
      intro same
      exact absent (same ▸ List.mem_map_of_mem early)
    · rw [List.mem_singleton.mp last]
      exact ⟨token, entry, by rw [leased, if_pos rfl], holder⟩
  · intro other outside
    simp only [List.map_append, List.mem_append, not_or, List.map_cons, List.map_nil,
      List.mem_singleton] at outside
    rw [leased, if_neg outside.2, took.others other outside.1]

theorem claimEntry_took {range : ScoreRange} {deadline score : ℚ} {job : Option ClaimedJob}
    (took : Took s t owner jobs) (done : t.claimEntry range owner deadline score i = (u, job)) :
    Took s u owner (jobs ++ job.toList) := by
  unfold claimEntry at done
  split at done
  · cases done
    simpa using took
  · next free =>
      have unleased : t.ingestLease i = none := Option.not_isSome_iff_eq_none.mp free
      split at done
      · cases done
        simpa using took
      · next live _ =>
          split at done
          · cases done
            simpa using (took.same rfl : Took s (t.ingestHeapPush i live) owner jobs)
          · split at done
            · cases done
              simpa using (took.same rfl : Took s (t.ingestHeapPush i live) owner jobs)
            · cases done
              refine @Took.more s t _ owner jobs took _ ⟨deadline, owner, some live⟩ rfl rfl unleased
                fun j => ?_
              rw [ingestLease_lease]
              simp only [ingestLease, ingestPop_inflight]

theorem claimLoop_took {band : Str} {range : ScoreRange} {deadline : ℚ} {want fuel : Nat}
    {claimed : List ClaimedJob} (took : Took s t owner claimed) (few : claimed.length ≤ want)
    (done : claimLoop band range owner deadline want fuel t claimed = some (u, jobs)) :
    Took s u owner jobs ∧ jobs.length ≤ want := by
  induction fuel generalizing t claimed with
  | zero => cases done
  | succ fuel ih =>
    rw [claimLoop] at done
    split at done
    · next room =>
        split at done
        · cases done
          exact ⟨took, few⟩
        · next entry rest _ =>
            have moved : Took s (t.setIngestHeapForBand band rest) owner claimed := by
              unfold setIngestHeapForBand
              split <;> exact took.same rfl
            refine ih (claimEntry_took moved rfl) ?_ done
            have single : ∀ job : Option ClaimedJob, job.toList.length ≤ 1 := by
              intro job
              cases job <;> simp
            rw [List.length_append]
            exact (Nat.add_le_add_left (single _) _).trans room
    · cases done
      exact ⟨took, few⟩

theorem claimIngest_took {fuel : Nat} {band : Str} {ttl : Int} {now : ℚ} {maxN : Int}
    (done : s.claimIngest fuel band owner ttl now maxN = some (.ok (t, jobs))) :
    owner ≠ [] ∧ Took s t owner jobs ∧ (jobs.length : Int) ≤ maxN := by
  obtain ⟨named, room, range, looped⟩ := claimIngest_ok done
  obtain ⟨took, few⟩ := claimLoop_took (Took.refl s owner) (Nat.zero_le _) looped
  exact ⟨named, took, by omega⟩

theorem ingestLease_release (j : Str) :
    (s.release .ingest i).ingestLease j = if j = i then none else s.ingestLease j := by
  simp only [ingestLease, release, Function.update_self, Dict.get?_erase]

theorem ownedEntry_isSome (named : ∃ entry, s.ingestLease i = some entry ∧ entry.owner = owner) :
    ∃ entry, s.ownedEntry .ingest i owner = some entry := by
  obtain ⟨entry, found, holder⟩ := named
  refine ⟨entry, ?_⟩
  rw [ownedEntry, Option.filter_eq_some_iff]
  exact ⟨found, by simp [holder]⟩

theorem requeue_owned (named : owner ≠ [])
    (owned : ∃ entry, s.ingestLease i = some entry ∧ entry.owner = owner) (score : Option ℚ) :
    (s.requeue .ingest i owner score).2 = true ∧
      (s.requeue .ingest i owner score).1.ingest.get? i = some (score.getD catchupScoreBase) ∧
      ∀ j, (s.requeue .ingest i owner score).1.ingestLease j =
        if j = i then none else s.ingestLease j := by
  obtain ⟨entry, found⟩ := ownedEntry_isSome owned
  unfold requeue
  rw [if_neg named, found]
  refine ⟨rfl, ?_, fun j => ?_⟩
  · change ((s.release .ingest i).ingestSet i (score.getD catchupScoreBase)).ingest.get? i = _
    rw [ingestSet_ingest, Dict.get?_set_self]
  · change ((s.release .ingest i).ingestSet i (score.getD catchupScoreBase)).ingestLease j = _
    rw [← ingestLease_release]
    simp only [ingestLease, ingestSet_inflight]

theorem ack_owned (named : owner ≠ [])
    (owned : ∃ entry, s.ingestLease i = some entry ∧ entry.owner = owner) :
    (s.ack .ingest i owner).2 = true ∧
      ∀ j, (s.ack .ingest i owner).1.ingestLease j =
        if j = i then none else s.ingestLease j := by
  obtain ⟨entry, found⟩ := ownedEntry_isSome owned
  unfold ack
  rw [if_neg named, found]
  exact ⟨rfl, fun j => ingestLease_release j⟩

theorem writeJobPayloadField_inflight (kind : Kind) (name value : Str) :
    (s.writeJobPayloadField kind i name value).inflight = s.inflight := by
  unfold writeJobPayloadField
  dsimp only
  split <;> rfl

end Store

end PerfStats.JobStore
