import PerfStats.JobStore.Leases

namespace PerfStats.JobStore

open Lib

def bandName : Band → Str
  | .hot => lit "hot"
  | .catchup => lit "catchup"

def bandRange : Band → ScoreRange
  | .hot => ⟨none, some (catchupScoreBase - 1)⟩
  | .catchup => ⟨some catchupScoreBase, none⟩

theorem ingestScoreRange_bandName (band : Band) :
    ingestScoreRange (bandName band) = .ok (bandRange band) := by
  cases band with
  | hot => rfl
  | catchup => rfl

namespace Store

/-- The queued jobs of a band as increasing `(score, identity)` entries. -/
def bandQueue (s : Store) (band : Band) : List HeapEntry :=
  ((s.ingest.entries.filter fun e => inBand band e.2).map fun e => toLex (e.2, e.1)).insertionSort
    (· ≤ ·)

def Graded (s : Store) : Prop :=
  ∀ i q, s.ingest.get? i = some q → q ≤ catchupScoreBase - 1 ∨ (catchupScoreBase : ℚ) ≤ q

/-- The turns that an entry may still cost: one that names a queued job under another score is
re-armed and taken later. -/
def turns (s : Store) (entry : HeapEntry) : Nat :=
  match s.ingest.get? (ofLex entry).2 with
  | some live => if live = (ofLex entry).1 then 1 else 2
  | none => 1

def work (s : Store) (band : Band) : Nat := ((s.bandHeap band).items.map s.turns).sum

section Queue

variable {s : Store} {band : Band} {i : Str} {q : ℚ}

theorem mem_bandQueue {entry : HeapEntry} :
    entry ∈ s.bandQueue band ↔
      s.ingest.get? (ofLex entry).2 = some (ofLex entry).1 ∧
        decodeIngestBand (ofLex entry).1 = band := by
  unfold bandQueue
  rw [List.mem_insertionSort, List.mem_map, Dict.get?_eq_some]
  constructor
  · rintro ⟨e, member, rfl⟩
    obtain ⟨present, same⟩ := List.mem_filter.mp member
    exact ⟨present, of_decide_eq_true same⟩
  · rintro ⟨present, same⟩
    exact ⟨((ofLex entry).2, (ofLex entry).1),
      List.mem_filter.mpr ⟨present, decide_eq_true same⟩, rfl⟩

theorem bandQueue_sorted : (s.bandQueue band).Pairwise (· ≤ ·) :=
  List.pairwise_insertionSort _ _

theorem bandQueue_cons (present : s.ingest.get? i = some q) (inside : decodeIngestBand q = band)
    (least : ∀ entry ∈ s.bandQueue band, toLex (q, i) ≤ entry) {t : Store}
    (erased : t.ingest = s.ingest.erase i) :
    s.bandQueue band = toLex (q, i) :: t.bandQueue band := by
  have perm : (s.bandQueue band).Perm (toLex (q, i) :: t.bandQueue band) := by
    have split := ((Dict.entries_perm_erase present).filter fun e => inBand band e.2).map
      fun e => (toLex (e.2, e.1) : HeapEntry)
    rw [List.filter_cons_of_pos (by simp [inBand, inside]), List.map_cons] at split
    refine (List.perm_insertionSort _ _).trans (split.trans ?_)
    rw [bandQueue, erased]
    exact ((List.perm_insertionSort _ _).symm).cons _
  have smaller : ∀ entry ∈ t.bandQueue band, toLex (q, i) ≤ entry := by
    intro entry member
    exact least entry (perm.mem_iff.mpr (.tail _ member))
  exact perm.eq_of_pairwise (fun _ _ _ _ => le_antisymm) bandQueue_sorted
    (List.pairwise_cons.mpr ⟨smaller, bandQueue_sorted⟩)

theorem holds_bandRange (graded : s.Graded) (present : s.ingest.get? i = some q) :
    (bandRange band).holds q = decide (decodeIngestBand q = band) := by
  have graded := graded i q present
  unfold decodeIngestBand
  cases band with
  | hot =>
    by_cases low : q < catchupScoreBase
    · rw [if_pos low]
      exact decide_eq_decide.mpr (iff_of_true (graded.resolve_right (not_le.mpr low)) rfl)
    · rw [if_neg low]
      refine decide_eq_decide.mpr (iff_of_false (fun high => low ?_) (by simp))
      linarith
  | catchup =>
    simp only [bandRange, ScoreRange.holds, Option.all_none, Option.all_some, Bool.and_true]
    by_cases low : q < catchupScoreBase
    · rw [if_pos low]
      exact decide_eq_decide.mpr (iff_of_false (not_le.mpr low) (by simp))
    · rw [if_neg low]
      exact decide_eq_decide.mpr (iff_of_true (not_lt.mp low) rfl)

theorem ingestHeapForBand_bandName : s.ingestHeapForBand (bandName band) = s.bandHeap band := by
  cases band with
  | hot => rfl
  | catchup => rfl

theorem bandHeap_set (heap : Heap HeapEntry) :
    (s.setIngestHeapForBand (bandName band) heap).bandHeap band = heap := by
  cases band with
  | hot => rfl
  | catchup => rfl

theorem bandHeap_push :
    (s.ingestHeapPush i q).bandHeap band =
      if decodeIngestBand q = band then (s.bandHeap band).push (toLex (q, i))
      else s.bandHeap band := by
  unfold ingestHeapPush bandHeap
  cases band with
  | hot => rfl
  | catchup => cases decodeIngestBand q <;> rfl

end Queue

section Turns

variable {s t : Store} {band : Band} {i : Str} {q : ℚ} {entry : HeapEntry} {rest : Heap HeapEntry}

theorem turns_pos (s : Store) (entry : HeapEntry) : 1 ≤ s.turns entry := by
  unfold turns
  split
  · split <;> omega
  · exact le_refl 1

theorem turns_congr (same : t.ingest = s.ingest) : t.turns = s.turns := by
  funext entry
  rw [turns, turns, same]

theorem turns_erase_le (erased : t.ingest = s.ingest.erase i) (entry : HeapEntry) :
    t.turns entry ≤ s.turns entry := by
  have positive := turns_pos s entry
  rw [turns, erased, Dict.get?_erase]
  by_cases same : (ofLex entry).2 = i
  · rw [if_pos same]
    exact positive
  · rw [if_neg same]
    exact le_refl (s.turns entry)

theorem work_eq (popped : (s.bandHeap band).pop? = some (entry, rest)) :
    s.work band = s.turns entry + (rest.items.map s.turns).sum := by
  rw [work, Heap.items_of_pop? popped, List.map_cons, List.sum_cons]

theorem work_push (present : s.ingest.get? i = some q) :
    (s.ingestHeapPush i q).work band =
      s.work band + if decodeIngestBand q = band then 1 else 0 := by
  have same : (s.ingestHeapPush i q).turns = s.turns := turns_congr rfl
  rw [work, work, bandHeap_push, same]
  split
  next =>
    have live : s.turns (toLex (q, i)) = 1 := by
      unfold turns
      rw [ofLex_toLex, present]
      exact if_pos rfl
    rw [((Heap.push_perm _ _).map s.turns).sum_eq, List.map_cons, List.sum_cons, live, add_comm]
  next => rfl

theorem ingestPop_ingest (present : s.ingest.get? i = some q) :
    (s.ingestPop i).ingest = s.ingest.erase i := by
  unfold ingestPop
  rw [present]
  rfl

theorem bandHeap_ingestPop : (s.ingestPop i).bandHeap band = s.bandHeap band := by
  unfold ingestPop
  cases band <;> cases s.ingest.get? i <;> rfl

theorem claimEntry_turn (good : s.Consistent) (graded : s.Graded)
    (popped : (s.bandHeap band).pop? = some (entry, rest)) {owner : Str} {deadline : ℚ}
    {next : Store} {job : Option ClaimedJob}
    (done : (s.setIngestHeapForBand (bandName band) rest).claimEntry (bandRange band) owner deadline
      (ofLex entry).1 (ofLex entry).2 = (next, job)) :
    next.work band < s.work band ∧
      ((job = none ∧ next.ingest = s.ingest) ∨
        ∃ taken, job = some taken ∧ taken.score = some (ofLex entry).1 ∧
          taken.identity = (ofLex entry).2 ∧ next.ingest = s.ingest.erase taken.identity ∧
          s.bandQueue band = entry :: next.bandQueue band) := by
  have shorter := work_eq popped
  have positive := turns_pos s entry
  have scores : (s.setIngestHeapForBand (bandName band) rest).ingest = s.ingest := by
    cases band <;> rfl
  have left : (s.setIngestHeapForBand (bandName band) rest).work band =
      (rest.items.map s.turns).sum := by
    rw [work, bandHeap_set, turns_congr scores]
  have rearmed : ∀ live, s.ingest.get? (ofLex entry).2 = some live →
      (live = (ofLex entry).1 → decodeIngestBand live ≠ band) →
      ((s.setIngestHeapForBand (bandName band) rest).ingestHeapPush (ofLex entry).2 live).work band <
        s.work band := by
    intro live present elsewhere
    rw [work_push (by rw [scores]; exact present), left, shorter]
    by_cases current : live = (ofLex entry).1
    · rw [if_neg (elsewhere current)]
      omega
    · have stale : s.turns entry = 2 := by
        unfold turns
        rw [present]
        exact if_neg current
      split <;> omega
  unfold claimEntry at done
  split at done
  next =>
    cases done
    exact ⟨by omega, .inl ⟨rfl, scores⟩⟩
  next =>
    split at done
    next =>
      cases done
      exact ⟨by omega, .inl ⟨rfl, scores⟩⟩
    next live present =>
      rw [scores] at present
      split at done
      next stale =>
        cases done
        exact ⟨rearmed live present fun same => absurd same stale, .inl ⟨rfl, scores⟩⟩
      next current =>
        split at done
        next outside =>
          cases done
          refine ⟨rearmed live present fun _ inside => ?_, .inl ⟨rfl, scores⟩⟩
          rw [holds_bandRange graded present, inside] at outside
          simp at outside
        next inside =>
          have same : live = (ofLex entry).1 := not_not.mp current
          subst same
          cases done
          have band_ : decodeIngestBand (ofLex entry).1 = band := by
            rw [holds_bandRange graded present] at inside
            simpa using inside
          have here := (scores ▸ present : (s.setIngestHeapForBand (bandName band)
            rest).ingest.get? (ofLex entry).2 = some (ofLex entry).1)
          have erased := ingestPop_ingest here
          rw [scores] at erased
          refine ⟨?_, .inr ⟨_, rfl, rfl, rfl, erased, ?_⟩⟩
          · have fewer : (((s.setIngestHeapForBand (bandName band) rest).ingestPop
                (ofLex entry).2).work band) ≤ (rest.items.map s.turns).sum := by
              rw [work, bandHeap_ingestPop, bandHeap_set]
              exact List.sum_le_sum fun e _ => turns_erase_le erased e
            exact lt_of_le_of_lt fewer (by omega)
          · refine bandQueue_cons present band_ ?_ erased
            intro other member
            obtain ⟨found, inBand_⟩ := mem_bandQueue.mp member
            have armed := (good.armed _ _ found).1
            rw [inBand_] at armed
            exact Heap.front_le popped armed

theorem Graded.congr (graded : s.Graded)
    (fewer : ∀ i q, t.ingest.get? i = some q → s.ingest.get? i = some q) : t.Graded :=
  fun i q present => graded i q (fewer i q present)

theorem get?_of_erase {j : Str} (erased : t.ingest = s.ingest.erase i)
    (present : t.ingest.get? j = some q) : s.ingest.get? j = some q := by
  rw [erased, Dict.get?_erase] at present
  split at present
  · cases present
  · exact present

theorem bandQueue_of_empty (good : s.Consistent) (empty : (s.bandHeap band).pop? = none) :
    s.bandQueue band = [] := by
  refine List.eq_nil_iff_forall_not_mem.mpr fun entry member => ?_
  obtain ⟨found, inside⟩ := mem_bandQueue.mp member
  have armed := (good.armed _ _ found).1
  rw [inside] at armed
  exact Heap.not_mem_of_pop?_none empty _ armed

theorem claimLoop_more {name owner : Str} {range : ScoreRange} {deadline : ℚ} {want fuel more : Nat}
    {claimed : List ClaimedJob} {result : Store × List ClaimedJob} (enough : fuel ≤ more)
    (done : claimLoop name range owner deadline want fuel s claimed = some result) :
    claimLoop name range owner deadline want more s claimed = some result := by
  induction fuel generalizing s claimed more with
  | zero => cases done
  | succ fuel ih =>
    obtain ⟨more, rfl⟩ : ∃ n, more = n + 1 := ⟨more - 1, by omega⟩
    rw [claimLoop] at done ⊢
    split at done
    next room =>
      rw [if_pos room]
      split at done
      next => exact done
      next => exact ih (by omega) done
    next full =>
      rw [if_neg full]
      exact done

theorem claimLoop_gap (alone : s.ingestHeapHot.items = [toLex (q, i)])
    (live : s.ingest.get? i = some q) (free : (s.inflight .ingest).get? i = none)
    (hot : decodeIngestBand q = .hot) (outside : (bandRange .hot).holds q = false) {owner : Str}
    {deadline : ℚ} {want : Nat} (room : 0 < want) (fuel : Nat) :
    claimLoop (bandName .hot) (bandRange .hot) owner deadline want fuel s [] = none := by
  induction fuel generalizing s with
  | zero => rfl
  | succ fuel ih =>
    have popped : (s.ingestHeapForBand (bandName .hot)).pop? =
        some (toLex (q, i), Heap.empty) := by
      change s.ingestHeapHot.pop? = _
      generalize s.ingestHeapHot = heap at alone
      obtain ⟨items, ordered⟩ := heap
      subst alone
      rfl
    have turn : (s.setIngestHeapForBand (bandName .hot) .empty).claimEntry (bandRange .hot) owner
        deadline q i =
          ((s.setIngestHeapForBand (bandName .hot) .empty).ingestHeapPush i q, none) := by
      unfold claimEntry
      rw [if_neg (by simp [setIngestHeapForBand, bandName, free])]
      simp [setIngestHeapForBand, bandName, live, outside]
    rw [claimLoop, if_pos (by simpa using room), popped]
    dsimp only [ofLex_toLex]
    rw [turn]
    refine ih ?_ live free
    unfold ingestHeapPush
    rw [if_pos hot]
    rfl

def takenEntry (job : ClaimedJob) : Option ℚ × Str := (job.score, job.identity)

theorem claimLoop_best (good : s.Consistent) (graded : s.Graded) (owner : Str) (deadline : ℚ)
    (want : Nat) {fuel : Nat} (claimed : List ClaimedJob) (enough : s.work band < fuel) :
    ∃ t jobs,
      claimLoop (bandName band) (bandRange band) owner deadline want fuel s claimed =
        some (t, claimed ++ jobs) ∧
      t.Consistent ∧
      jobs.map takenEntry = ((s.bandQueue band).take (want - claimed.length)).map
        (fun entry => (some (ofLex entry).1, (ofLex entry).2)) ∧
      ∀ i, t.ingest.get? i =
        if i ∈ jobs.map ClaimedJob.identity then none else s.ingest.get? i := by
  induction fuel generalizing s claimed with
  | zero => omega
  | succ fuel ih =>
    rw [claimLoop]
    by_cases room : claimed.length < want
    · rw [if_pos room, ingestHeapForBand_bandName]
      cases popped : (s.bandHeap band).pop? with
      | none =>
        refine ⟨s, [], by simp, good, ?_, by simp⟩
        rw [bandQueue_of_empty good popped, List.take_nil, List.map_nil, List.map_nil]
      | some found =>
        obtain ⟨entry, rest⟩ := found
        have armed : ∀ j, j ≠ (ofLex entry).2 →
            (s.setIngestHeapForBand (bandName band) rest).Armed j := fun j apart =>
          armed_setHeap (by rw [ingestHeapForBand_bandName, popped]) apart (good.armed j)
        have kept := (claimEntry_keeps (accounted_setHeap good.toAccounted (bandName band) rest)
          armed (bandRange band) owner deadline (ofLex entry).1).1
        generalize turn : (s.setIngestHeapForBand (bandName band) rest).claimEntry
          (bandRange band) owner deadline (ofLex entry).1 (ofLex entry).2 = outcome at kept
        obtain ⟨next, job⟩ := outcome
        dsimp only at kept
        obtain ⟨shorter, same | took⟩ := claimEntry_turn good graded popped turn
        · obtain ⟨rfl, scores⟩ := same
          obtain ⟨t, jobs, done, after, taken, left⟩ := ih kept
            (graded.congr fun i q present => by rwa [scores] at present) claimed (by omega)
          refine ⟨t, jobs, ?_, after, ?_, ?_⟩
          · simpa [turn] using done
          · have queue : next.bandQueue band = s.bandQueue band := by
              rw [bandQueue, bandQueue, scores]
            rw [taken, queue]
          · rw [← scores]
            exact left
        · obtain ⟨job, rfl, score, identity, erased, queue⟩ := took
          obtain ⟨t, jobs, done, after, taken, left⟩ := ih kept
            (graded.congr fun i q => get?_of_erase erased) (claimed ++ [job]) (by omega)
          refine ⟨t, job :: jobs, ?_, after, ?_, ?_⟩
          · simpa [turn] using done
          · have count : want - claimed.length = want - (claimed ++ [job]).length + 1 := by
              rw [List.length_append, List.length_singleton]
              omega
            rw [queue, count, List.take_succ_cons, List.map_cons, List.map_cons, taken,
              takenEntry, score, identity]
          · intro i
            rw [left, erased, Dict.get?_erase]
            by_cases first : i = job.identity
            · simp [first]
            · simp [first]
    · rw [if_neg room]
      refine ⟨s, [], by simp, good, ?_, by simp⟩
      rw [Nat.sub_eq_zero_of_le (not_lt.mp room), List.take_zero, List.map_nil, List.map_nil]

end Turns

section Eviction

variable {s : Store} {i : Str} {q : ℚ}

structure Youngest (s : Store) (i : Str) (q : ℚ) : Prop where
  queued : s.ingest.get? i = some q
  first : ∀ j p, s.ingest.get? j = some p → decodeIngestBand p = .catchup →
    (toLex (-q, i) : HeapEntry) ≤ toLex (-p, j)

theorem catchup_of_day {day : Int} (decoded : decodeCatchupCalendarDay q = some day) :
    decodeIngestBand q = .catchup := by
  unfold decodeCatchupCalendarDay at decoded
  cases band : decodeIngestBand q with
  | hot =>
    rw [band] at decoded
    cases decoded
  | catchup => rfl

theorem day_mono {p : ℚ} {day later : Int} (below : p ≤ q)
    (decoded : decodeCatchupCalendarDay p = some day)
    (decoded' : decodeCatchupCalendarDay q = some later) : day ≤ later := by
  have ordinal : ∀ {r : ℚ} {d : Int}, decodeCatchupCalendarDay r = some d →
      d = ⌊(r - catchupScoreBase) / scoreStride⌋ := by
    intro r d decoded
    have catchup := catchup_of_day decoded
    unfold decodeCatchupCalendarDay at decoded
    rw [catchup] at decoded
    dsimp only at decoded
    split at decoded
    · exact (Option.some.inj decoded).symm
    · cases decoded
  rw [ordinal decoded, ordinal decoded']
  apply Int.floor_mono
  have positive : (0 : ℚ) ≤ scoreStride := by norm_num [scoreStride]
  exact div_le_div_of_nonneg_right (by linarith) positive

theorem Youngest.day_le (youngest : s.Youngest i q) {day : Int}
    (decoded : decodeCatchupCalendarDay q = some day) {j : Str} {p : ℚ} {other : Int}
    (queued : s.ingest.get? j = some p) (decoded' : decodeCatchupCalendarDay p = some other) :
    other ≤ day := by
  have first := youngest.first j p queued (catchup_of_day decoded')
  have below : -q ≤ -p := (Prod.Lex.le_iff.mp first).elim le_of_lt fun same => le_of_eq same.1
  exact day_mono (by linarith) decoded' decoded

theorem trimmedMax_front (good : s.Consistent) {entry : HeapEntry} {rest : Heap HeapEntry}
    (popped : s.trimmedMax.pop? = some (entry, rest)) :
    s.Youngest (ofLex entry).2 (-(ofLex entry).1) := by
  have live : s.catchupMaxLive entry = true := by simpa using Heap.not_of_pop?_popWhile popped
  refine ⟨of_decide_eq_true live, ?_⟩
  intro j p queued catchup
  have front := Heap.front_le popped (mem_trimmedMax good queued catchup)
  rw [neg_neg]
  exact front

theorem evict_youngest_iff (good : s.Consistent) (olderDay : Int) (i : Str) :
    (s.evictYoungestCatchupIngest olderDay).2 = some i ↔
      ∃ q day, s.Youngest i q ∧ decodeCatchupCalendarDay q = some day ∧ olderDay < day := by
  have front_live : (s.ingestHeapCatchupMax.popWhile fun entry => !s.catchupMaxLive entry) =
      s.trimmedMax := rfl
  unfold evictYoungestCatchupIngest
  dsimp only
  rw [front_live]
  cases popped : s.trimmedMax.pop? with
  | none =>
    refine iff_of_false nofun ?_
    rintro ⟨q, day, youngest, decoded, -⟩
    exact Heap.not_mem_of_pop?_none popped _
      (mem_trimmedMax good youngest.queued (catchup_of_day decoded))
  | some found =>
    obtain ⟨entry, rest⟩ := found
    have front := trimmedMax_front good popped
    have only : ∀ q day, s.Youngest i q → decodeCatchupCalendarDay q = some day →
        entry = toLex (-q, i) := by
      intro q day youngest decoded
      have catchup := catchup_of_day decoded
      have member := mem_trimmedMax good youngest.queued catchup
      have before := Heap.front_le popped member
      have below : (ofLex entry).1 ≤ -q :=
        (Prod.Lex.le_iff.mp before).elim le_of_lt fun same => le_of_eq same.1
      have catchup' : decodeIngestBand (-(ofLex entry).1) = .catchup := by
        unfold decodeIngestBand at catchup ⊢
        split at catchup
        · cases catchup
        · exact if_neg (by linarith)
      have after := youngest.first _ _ front.queued catchup'
      rw [neg_neg] at after
      exact le_antisymm before after
    dsimp only
    cases decoded : decodeCatchupCalendarDay (-(ofLex entry).1) with
    | none =>
      refine iff_of_false nofun ?_
      rintro ⟨q, day, youngest, decoded', -⟩
      rw [only q day youngest decoded', ofLex_toLex, neg_neg, decoded'] at decoded
      cases decoded
    | some day =>
      dsimp only
      by_cases old : day ≤ olderDay
      · rw [if_pos old]
        refine iff_of_false nofun ?_
        rintro ⟨q, day', youngest, decoded', younger⟩
        rw [only q day' youngest decoded', ofLex_toLex, neg_neg, decoded'] at decoded
        cases decoded
        omega
      · rw [if_neg old]
        constructor
        · intro same
          rw [← Option.some.inj same]
          exact ⟨_, day, front, decoded, by omega⟩
        · rintro ⟨q, day', youngest, decoded', -⟩
          rw [only q day' youngest decoded', ofLex_toLex]

def LosesOnly (s : Store) (result : Store × Option Str) : Prop :=
  (∀ j, result.1.ingest.get? j = if result.2 = some j then none else s.ingest.get? j) ∧
    result.1.inflight = s.inflight ∧ result.1.leases = s.leases

theorem evict_losesOnly (olderDay : Int) : s.LosesOnly (s.evictYoungestCatchupIngest olderDay) := by
  have unchanged : s.LosesOnly ({ s with ingestHeapCatchupMax := s.trimmedMax }, none) :=
    ⟨fun j => by simp, rfl, rfl⟩
  unfold evictYoungestCatchupIngest
  dsimp only
  split
  next => exact unchanged
  next entry rest popped =>
    split
    next => exact unchanged
    next =>
      split
      next => exact unchanged
      next =>
        refine ⟨?_, ingestPop_inflight, ?_⟩
        · intro j
          simp only [Option.some_inj]
          rw [ingestPop_get?]
          simp only [eq_comm]
        · unfold ingestPop
          split <;> rfl

end Eviction

end Store

section Runs

open Store

/-- Without a score in the gap a claim takes the first `max_n` queued jobs of its band in (score,
identity) order; an eviction removes the youngest catchup job, if it is younger than the given day.
-/
theorem best_jobs_claimed {log : List (Action × Answer)} {w : World}
    (run : Run World.Steps World.empty log w) (graded : w.store.Graded) (band : Band) {owner : Str}
    (named : owner ≠ []) (ttl : Int) (now : ℚ) {maxN : Int} (positive : 1 ≤ maxN) (olderDay : Int) :
    (∃ enough t jobs,
      (∀ fuel, enough ≤ fuel →
        w.store.claimIngest fuel (bandName band) owner ttl now maxN = some (.ok (t, jobs))) ∧
      jobs.map takenEntry = ((w.store.bandQueue band).take maxN.toNat).map
        (fun entry => (some (ofLex entry).1, (ofLex entry).2)) ∧
      Took w.store t owner jobs ∧
      (∀ job ∈ jobs, t.leases.get? (.ingest, job.identity) = some owner) ∧
      ∀ i, t.ingest.get? i =
        if i ∈ jobs.map ClaimedJob.identity then none else w.store.ingest.get? i) ∧
    (∀ i, (w.store.evictYoungestCatchupIngest olderDay).2 = some i ↔
      ∃ q day, w.store.Youngest i q ∧ decodeCatchupCalendarDay q = some day ∧ olderDay < day) ∧
    (∀ j, (w.store.evictYoungestCatchupIngest olderDay).1.ingest.get? j =
      if (w.store.evictYoungestCatchupIngest olderDay).2 = some j then none
      else w.store.ingest.get? j) ∧
    ∀ i q day j p other, w.store.Youngest i q → decodeCatchupCalendarDay q = some day →
      w.store.ingest.get? j = some p → decodeCatchupCalendarDay p = some other → other ≤ day := by
  have good := (run_accounts run).1
  refine ⟨?_, evict_youngest_iff good olderDay, (evict_losesOnly olderDay).1,
    fun i q day j p other youngest decoded => youngest.day_le decoded⟩
  have opened : ∀ fuel, w.store.claimIngest fuel (bandName band) owner ttl now maxN =
      (claimLoop (bandName band) (bandRange band) owner (now + ttl) maxN.toNat fuel w.store []).map
        .ok := by
    intro fuel
    unfold claimIngest
    rw [if_neg named, if_neg (not_lt.mpr positive), ingestScoreRange_bandName]
  obtain ⟨t, jobs, done, after, taken, left⟩ := claimLoop_best good graded owner (now + ttl)
    maxN.toNat [] (Nat.lt_succ_self (w.store.work band))
  have claims : ∀ fuel, w.store.work band + 1 ≤ fuel →
      w.store.claimIngest fuel (bandName band) owner ttl now maxN = some (.ok (t, jobs)) := by
    intro fuel enough
    rw [opened, claimLoop_more enough done]
    rfl
  have took := (claimIngest_took (claims _ le_rfl)).2.1
  refine ⟨_, t, jobs, claims, by simpa using taken, took, ?_, left⟩
  intro job member
  obtain ⟨-, entry, held, holder⟩ := took.owned job member
  rw [after.leased, show (t.inflight .ingest).get? job.identity = some entry from held]
  exact congrArg some holder

def twoQueued : World :=
  ⟨((Store.empty.zaddIngest (lit "/raw/a") 5 none false 10).1.zaddIngest (lit "/raw/b") 3 none false
    10).1, []⟩

theorem twoQueued_run : Run World.Steps World.empty
    [(.call (.zaddIngest (lit "/raw/a") 5 none false 10), .count 1),
      (.call (.zaddIngest (lit "/raw/b") 3 none false 10), .count 1)] twoQueued :=
  .next (.next .start ⟨0, rfl⟩) ⟨0, rfl⟩

theorem best_jobs_claimed_two : ∃ enough t jobs,
    (∀ fuel, enough ≤ fuel →
      twoQueued.store.claimIngest fuel (bandName .hot) (lit "n:h:b:1") 60 0 1 =
        some (.ok (t, jobs))) ∧
      jobs.map takenEntry = [(some 3, lit "/raw/b")] := by
  have graded : twoQueued.store.Graded := by
    intro i q present
    have all : ∀ e ∈ twoQueued.store.ingest.entries,
        e.2 ≤ catchupScoreBase - 1 ∨ (catchupScoreBase : ℚ) ≤ e.2 := by
      decide +kernel
    exact all (i, q) (Dict.get?_eq_some.mp present)
  obtain ⟨⟨enough, t, jobs, claims, taken, -⟩, -⟩ := best_jobs_claimed twoQueued_run graded .hot
    (show lit "n:h:b:1" ≠ [] by decide) 60 0 (show (1 : Int) ≤ 1 from le_refl 1) 0
  refine ⟨enough, t, jobs, claims, taken.trans ?_⟩
  decide +kernel

def sameDay : World :=
  ⟨((Store.empty.zaddIngest (lit "/raw/a") (10 ^ 15 + 10 ^ 7 + 1) none false 10).1.zaddIngest
    (lit "/raw/b") (10 ^ 15 + 10 ^ 7 + 2) none false 10).1, []⟩

theorem sameDay_run : Run World.Steps World.empty
    [(.call (.zaddIngest (lit "/raw/a") (10 ^ 15 + 10 ^ 7 + 1) none false 10), .count 1),
      (.call (.zaddIngest (lit "/raw/b") (10 ^ 15 + 10 ^ 7 + 2) none false 10), .count 1)] sameDay :=
  .next (.next .start ⟨0, rfl⟩) ⟨0, rfl⟩

def gapStore : Store := (Store.empty.zaddIngest (lit "/raw/a") (10 ^ 15 - 1 / 2) none false 10).1

/-- An eviction removes one job of the youngest day, not all of them; and a claim does not end where a
score lies in the gap. -/
theorem eviction_keeps_youngest_day :
    (¬ ∀ (log : List (Action × Answer)) (w : World), Run World.Steps World.empty log w →
      ∀ i q day olderDay, w.store.ingest.get? i = some q → decodeCatchupCalendarDay q = some day →
        (∀ e ∈ w.store.ingest.entries, ∀ other, decodeCatchupCalendarDay e.2 = some other →
          other ≤ day) → olderDay < day →
        (w.store.evictYoungestCatchupIngest olderDay).1.ingest.get? i = none) ∧
    ∀ fuel, gapStore.claimIngest fuel (lit "hot") (lit "n:h:b:1") 60 0 1 = none := by
  constructor
  · intro always
    have youngest : ∀ e ∈ sameDay.store.ingest.entries, ∀ other,
        decodeCatchupCalendarDay e.2 = some other → other ≤ 10 := by
      have days : ∀ e ∈ sameDay.store.ingest.entries,
          decodeCatchupCalendarDay e.2 = some 10 := by decide +kernel
      intro e member other decoded
      rw [days e member] at decoded
      cases decoded
      exact le_refl 10
    have gone := always _ sameDay sameDay_run (lit "/raw/a") (10 ^ 15 + 10 ^ 7 + 1) 10 5
      (by decide +kernel) (by decide +kernel) youngest (by decide)
    exact absurd gone (by decide +kernel)
  · intro fuel
    have opened : gapStore.claimIngest fuel (lit "hot") (lit "n:h:b:1") 60 0 1 =
        (claimLoop (bandName .hot) (bandRange .hot) (lit "n:h:b:1") (0 + (60 : Int)) 1 fuel gapStore
          []).map .ok := rfl
    rw [opened, @claimLoop_gap gapStore (lit "/raw/a") (10 ^ 15 - 1 / 2) (by decide +kernel)
      (by decide +kernel) (by decide +kernel) (by decide +kernel) (by decide +kernel) _ _ _
      (by decide) fuel]
    rfl

end Runs

end PerfStats.JobStore
