import PerfStats.JobStore.Conservation

namespace PerfStats.JobStore

open Lib Function

abbrev Day := {ordinal : Int // 1 ≤ ordinal ∧ ordinal ≤ lastOrdinal}

section Encode

-- `sha1` is the digest of the UTF-8 text; nothing below depends on which function it is.
variable (sha1 : Str → List UInt8)

def tieBreakFromIdentity (identity : Str) : Int :=
  ((((sha1 identity).take 4).foldl (fun n byte => 256 * n + byte.toNat) 0 : Nat) : Int) % scoreStride

def hotScoreBase : Int := 0

def encodeIngestScore (band : Str) (day today : Day) (identity : Str) : Except StoreError Int :=
  let tie := tieBreakFromIdentity sha1 identity
  let text := Text.lower (Text.strip band)
  if text = lit "hot" then
    .ok (max hotScoreBase (hotScoreBase + (today.1 - day.1) * scoreStride + tie))
  else if text = lit "catchup" then .ok (catchupScoreBase + day.1 * scoreStride + tie)
  else .error (.unknownBand band)

theorem tieBreak_range (identity : Str) :
    0 ≤ tieBreakFromIdentity sha1 identity ∧ tieBreakFromIdentity sha1 identity < 10 ^ 6 :=
  ⟨Int.emod_nonneg _ (by decide), Int.emod_lt_of_pos _ (by decide)⟩

end Encode

section Slot

def slot (score : ℚ) : Int := ⌊score / scoreStride⌋

theorem slot_eq_iff {score : ℚ} {k : Int} :
    slot score = k ↔ (k * 10 ^ 6 : ℚ) ≤ score ∧ score < (k + 1) * 10 ^ 6 := by
  have stride : ((scoreStride : Int) : ℚ) = 10 ^ 6 := by norm_num [scoreStride]
  rw [slot, stride, Int.floor_eq_iff, le_div_iff₀ (by norm_num), div_lt_iff₀ (by norm_num)]

theorem slot_intCast (n : Int) : slot n = n / 10 ^ 6 := by
  rw [slot_eq_iff]
  constructor
  · exact_mod_cast (show n / 10 ^ 6 * 10 ^ 6 ≤ n by omega)
  · exact_mod_cast (show n < (n / 10 ^ 6 + 1) * 10 ^ 6 by omega)

theorem decodeIngestBand_slot (score : ℚ) :
    decodeIngestBand score = if slot score < 10 ^ 9 then .hot else .catchup := by
  have same : slot score < 10 ^ 9 ↔ score < catchupScoreBase := by
    have stride : ((scoreStride : Int) : ℚ) = 10 ^ 6 := by norm_num [scoreStride]
    rw [slot, stride, Int.floor_lt, div_lt_iff₀ (by norm_num)]
    norm_num [catchupScoreBase]
  simp only [decodeIngestBand, same]

theorem decodeCatchupCalendarDay_slot (score : ℚ) :
    decodeCatchupCalendarDay score =
      if slot score < 10 ^ 9 then none
      else if 1 ≤ slot score - 10 ^ 9 ∧ slot score - 10 ^ 9 ≤ lastOrdinal then
        some (slot score - 10 ^ 9)
      else none := by
  have ordinal : ⌊(score - catchupScoreBase) / scoreStride⌋ = slot score - 10 ^ 9 := by
    have split : (score - catchupScoreBase) / scoreStride = score / scoreStride - ((10 ^ 9 : Int) : ℚ) := by
      norm_num [catchupScoreBase, scoreStride]
      ring
    rw [split, Int.floor_sub_intCast, slot]
  unfold decodeCatchupCalendarDay
  rw [decodeIngestBand_slot, ordinal]
  by_cases hot : slot score < 10 ^ 9
  · rw [if_pos hot, if_pos hot]
  · rw [if_neg hot, if_neg hot]

theorem slot_penalize {score : ℚ} (nonneg : 0 ≤ score) :
    slot (penalizeIngestScore (some score)) = slot score ∧
      0 ≤ penalizeIngestScore (some score) := by
  have whole : truncate score = ⌊score⌋ := by rw [truncate, if_neg (not_lt.mpr nonneg)]
  have start : 0 ≤ ⌊score⌋ := Int.floor_nonneg.mpr nonneg
  have same : slot score = ⌊score⌋ / 10 ^ 6 := by
    rw [← slot_intCast, slot_eq_iff, ← Int.cast_one, ← Int.cast_add]
    have bounds := slot_eq_iff.mp (rfl : slot (⌊score⌋ : ℚ) = slot ⌊score⌋)
    constructor
    · exact bounds.1.trans (Int.floor_le score)
    · have upper : ⌊score⌋ < (slot ⌊score⌋ + 1) * 10 ^ 6 := by exact_mod_cast bounds.2
      rw [Int.floor_lt] at upper
      exact_mod_cast upper
  simp only [penalizeIngestScore, whole, slot_intCast, same, ingestPenaltyStep, scoreStride]
  constructor
  · omega
  · exact_mod_cast (show 0 ≤ min (⌊score⌋ + 10 ^ 6 / 4)
      (⌊score⌋ - ⌊score⌋ % 10 ^ 6 + 10 ^ 6 - 1) by omega)

end Slot

section Decode

variable {sha1 : Str → List UInt8} {band : Str} {day today : Day} {identity : Str} {score : Int}

/-- The band `encode_ingest_score` reads a text as. -/
def readBand (band : Str) : Option Band :=
  let text := Text.lower (Text.strip band)
  if text = lit "hot" then some .hot else if text = lit "catchup" then some .catchup else none

def slotOf (today : Day) : Band → Day → Int
  | .hot, day => max 0 (today.1 - day.1)
  | .catchup, day => 10 ^ 9 + day.1

theorem encode_slot (encoded : encodeIngestScore sha1 band day today identity = .ok score) :
    ∃ b, readBand band = some b ∧ slot score = slotOf today b day ∧ (0 : ℚ) ≤ score := by
  have tie := tieBreak_range sha1 identity
  simp only [encodeIngestScore, hotScoreBase, catchupScoreBase, scoreStride] at encoded
  split at encoded
  · next hot =>
      cases encoded
      refine ⟨.hot, if_pos hot, ?_, by exact_mod_cast le_max_left _ _⟩
      rw [slot_intCast]
      simp only [slotOf]
      omega
  · next other =>
      split at encoded
      · next catchup =>
          cases encoded
          refine ⟨.catchup, by rw [readBand, if_neg other, if_pos catchup], ?_, ?_⟩
          · rw [slot_intCast]
            simp only [slotOf]
            omega
          · exact_mod_cast (show 0 ≤ 10 ^ 15 + day.1 * 10 ^ 6 + tieBreakFromIdentity sha1 identity by
              omega)
      · cases encoded

/-- A score decodes to a band and a day: in the catchup band to the calendar day, in the
hot band to no day. -/
structure DecodesTo (b : Band) (day : Day) (score : ℚ) : Prop where
  band : decodeIngestBand score = b
  day : decodeCatchupCalendarDay score = if b = .catchup then some day.1 else none

theorem decodesTo_of_slot {b : Band} {score : ℚ} (here : slot score = slotOf today b day) :
    DecodesTo b day score := by
  have low := day.2
  have high := today.2
  simp only [lastOrdinal] at low high
  constructor
  · rw [decodeIngestBand_slot, here]
    cases b with
    | hot => exact if_pos (by simp only [slotOf]; omega)
    | catchup => exact if_neg (by simp only [slotOf]; omega)
  · rw [decodeCatchupCalendarDay_slot, here]
    cases b with
    | hot => exact if_pos (by simp only [slotOf]; omega)
    | catchup =>
      simp only [slotOf, add_sub_cancel_left, if_true]
      rw [if_neg (by omega), if_pos day.2]

/-- What is taken first: the hot band newest day first, then the catchup band oldest day first.
Future days all count as today. -/
def Before (today : Day) : Band → Day → Band → Day → Prop
  | .hot, day, .hot, day' => day'.1 < day.1 ∧ day'.1 < today.1
  | .hot, _, .catchup, _ => True
  | .catchup, _, .hot, _ => False
  | .catchup, day, .catchup, day' => day.1 < day'.1

theorem lt_of_slot_lt {p q : ℚ} (before : slot p < slot q) : p < q := by
  by_contra after
  have mono : slot q ≤ slot p := by
    apply Int.floor_le_floor
    rw [show ((scoreStride : Int) : ℚ) = 10 ^ 6 by norm_num [scoreStride]]
    linarith
  omega

theorem slotOf_before {b b' : Band} {day' : Day} (before : Before today b day b' day') :
    slotOf today b day < slotOf today b' day' := by
  have late := today.2
  simp only [lastOrdinal] at late
  cases b <;> cases b' <;> simp only [Before, slotOf] at before ⊢ <;> omega

end Decode

section Steps

variable {s : Store} {i : Str} {P : ℚ → Prop}

structure ScoreIs (P : ℚ → Prop) (i : Str) (s : Store) : Prop where
  queued : ∀ q, s.ingest.get? i = some q → P q
  claimed : ∀ e, (s.inflight .ingest).get? i = some e → ∃ q, e.score = some q ∧ P q

theorem ScoreIs.congr {t : Store} (here : ScoreIs P i s)
    (scores : t.ingest.get? i = s.ingest.get? i)
    (claims : (t.inflight .ingest).get? i = (s.inflight .ingest).get? i) : ScoreIs P i t :=
  ⟨fun q queued => here.queued q (scores ▸ queued), fun e held => here.claimed e (claims ▸ held)⟩

variable {kind : Kind} {j owner : Str} {deadline : ℚ}

theorem ScoreIs.ingestSet {q : ℚ} (here : ScoreIs P i s) (kept : j = i → P q) :
    ScoreIs P i (s.ingestSet j q) := by
  refine ⟨fun p queued => ?_, fun e held => here.claimed e (by simpa using held)⟩
  rw [Store.ingestSet_ingest, Dict.get?_set] at queued
  split at queued
  · next same =>
      cases queued
      exact kept same.symm
  · exact here.queued p queued

theorem ScoreIs.release (here : ScoreIs P i s) : ScoreIs P i (s.release kind j) := by
  refine ⟨here.queued, fun e held => here.claimed e ?_⟩
  by_cases ingest : kind = .ingest
  · subst ingest
    simp only [Store.release, update_self, Dict.get?_erase] at held
    split at held
    · cases held
    · exact held
  · simpa [Store.release, update_of_ne (Ne.symm ingest)] using held

theorem ScoreIs.lease {entry : Inflight} (here : ScoreIs P i s)
    (kept : kind = .ingest → j = i → ∃ q, entry.score = some q ∧ P q) :
    ScoreIs P i (s.lease kind j entry) := by
  refine ⟨here.queued, fun e held => ?_⟩
  by_cases ingest : kind = .ingest
  · subst ingest
    simp only [Store.lease, update_self, Dict.get?_set] at held
    split at held
    · next same =>
        cases held
        exact kept rfl same.symm
    · exact here.claimed e held
  · exact here.claimed e (by simpa [Store.lease, update_of_ne (Ne.symm ingest)] using held)

theorem ScoreIs.listAppend (here : ScoreIs P i s) :
    ScoreIs P i (s.listAppend kind j) := here.congr rfl rfl

theorem ScoreIs.requeue {score : Option ℚ} (here : ScoreIs P i s)
    (kept : kind = .ingest → j = i → (s.ownedEntry kind j owner).isSome →
      P (score.getD catchupScoreBase)) : ScoreIs P i (s.requeue kind j owner score).1 := by
  unfold Store.requeue
  split
  · exact here
  · cases held : s.ownedEntry kind j owner with
    | none => exact here
    | some entry =>
      simp only
      split
      · next ingest =>
          have released : ScoreIs P i (s.release kind j) := here.release
          have moved := released.ingestSet fun same => kept ingest same (by simp [held])
          exact moved.congr rfl rfl
      · exact here.release.listAppend

theorem ScoreIs.reapLoop {cutoff : ℚ} {want : Nat} {items : List (Str × Inflight)}
    {out : List Str} (here : ScoreIs P i s)
    (kept : kind = .ingest → ∀ e, (i, e) ∈ items → P (penalizeIngestScore e.score)) :
    ScoreIs P i (Store.reapLoop kind cutoff want items s out).1 := by
  induction items generalizing s out with
  | nil => exact here
  | cons head rest ih =>
    rcases head with ⟨j, entry⟩
    have later := fun ingest e member => kept ingest e (.tail _ member)
    unfold Store.reapLoop
    split
    · exact here
    · split
      · exact ih here later
      · refine ih ?_ later
        split
        · next ingest =>
            refine here.release.ingestSet fun same => ?_
            rw [← same] at kept
            exact kept ingest entry (.head _)
        · exact here.release.listAppend

theorem ScoreIs.ingestPop (here : ScoreIs P i s) : ScoreIs P i (s.ingestPop j) := by
  refine ⟨fun q queued => ?_, fun e held => here.claimed e (by simpa using held)⟩
  rw [Store.ingestPop_get?] at queued
  split at queued
  · cases queued
  · exact here.queued q queued

theorem ScoreIs.claimEntry {range : ScoreRange} {snap : ℚ}
    (here : ScoreIs P i s) : ScoreIs P i (s.claimEntry range owner deadline snap j).1 := by
  unfold Store.claimEntry
  split
  · exact here
  · split
    · exact here
    · next live queued =>
        split
        · exact here.congr rfl rfl
        · split
          · exact here.congr rfl rfl
          · refine here.ingestPop.lease fun _ same => ⟨live, rfl, here.queued live ?_⟩
            rw [← same]
            exact queued

theorem ScoreIs.claim {band : Str} {rest : Heap HeapEntry} {range : ScoreRange}
    {snap : ℚ} (here : ScoreIs P i s) : ScoreIs P i
      ((s.setIngestHeapForBand band rest).claimEntry range owner deadline snap j).1 := by
  have set : ScoreIs P i (s.setIngestHeapForBand band rest) := by
    unfold Store.setIngestHeapForBand
    split <;> exact here.congr rfl rfl
  exact set.claimEntry

theorem ScoreIs.zaddIngest {q : ℚ} {fingerprint : Option Str} {overCap : Bool} {cap : Int}
    (here : ScoreIs P i s) (other : j ≠ i) :
    ScoreIs P i (s.zaddIngest j q fingerprint overCap cap).1 := by
  have scored : ScoreIs P i (s.ingestSet j q) := here.ingestSet fun same => absurd same other
  unfold Store.zaddIngest
  split
  · exact here
  · dsimp only
    split
    · exact here
    · split
      · exact scored.congr rfl rfl
      · exact scored

theorem ScoreIs.evict {day : Int} (here : ScoreIs P i s) :
    ScoreIs P i (s.evictYoungestCatchupIngest day).1 := by
  unfold Store.evictYoungestCatchupIngest
  dsimp only
  split
  · exact here.congr rfl rfl
  · split
    · exact here.congr rfl rfl
    · split
      · exact here.congr rfl rfl
      · next rest _ _ _ _ _ =>
          have trimmed : ScoreIs P i { s with ingestHeapCatchupMax := rest } := here.congr rfl rfl
          exact trimmed.ingestPop.congr rfl rfl

theorem ScoreIs.claimListLoop (list : kind ≠ .ingest) (owner : Str) (deadline : ℚ)
    (l : List Str) (here : ScoreIs P i s) :
    ScoreIs P i (Store.claimListLoop kind owner deadline l s).1 := by
  induction l generalizing s with
  | nil => exact here
  | cons j rest ih =>
    unfold Store.claimListLoop
    dsimp only
    split
    · exact ih (here.congr rfl rfl)
    · exact ScoreIs.lease (here.congr rfl rfl) fun same => absurd same list

theorem ScoreIs.ack (here : ScoreIs P i s) : ScoreIs P i (s.ack kind j owner).1 := by
  unfold Store.ack
  split
  · exact here
  · split
    · exact here
    · have released : ScoreIs P i (s.release kind j) := here.release
      split <;> exact released.congr rfl rfl

theorem ScoreIs.extended {entry : Inflight}
    (here : ScoreIs P i s) (found : (s.inflight kind).get? j = some entry) :
    ScoreIs P i (s.lease kind j { entry with deadline := deadline }) := by
  refine here.lease fun ingest same => ?_
  subst ingest same
  exact here.claimed entry found

theorem ScoreIs.settle {α : Type} {answer : α → Answer} {result : Except StoreError (Store × α)}
    (here : ScoreIs P i s) (ok : ∀ t value, result = .ok (t, value) → ScoreIs P i t) :
    ScoreIs P i (settle s answer result).1 := by
  cases result with
  | error e => exact here
  | ok value => exact ok _ _ rfl

theorem ScoreIs.perform {t : Store} {fuel : Nat} {call : Call} {answer : Answer}
    (here : ScoreIs P i s) (done : s.perform fuel call = some (t, answer))
    (closed : ∀ q, P q → P (penalizeIngestScore (some q)))
    (added : ∀ q fingerprint overCap cap, call ≠ .zaddIngest i q fingerprint overCap cap)
    (restored : ∀ owner score, call = .requeue .ingest i owner score →
      (s.ownedEntry .ingest i owner).isSome → P (score.getD catchupScoreBase)) :
    ScoreIs P i t := by
  cases call with
  | zaddIngest j q fingerprint overCap cap =>
    cases done
    refine here.zaddIngest ?_
    rintro rfl
    exact added q fingerprint overCap cap rfl
  | evictYoungestCatchupIngest day =>
    cases done
    exact here.evict
  | enqueueList kind j dedupe cap =>
    rcases Prod.mk.inj (Option.some.inj done) with ⟨rfl, _⟩
    refine here.settle fun t value result => ?_
    unfold Store.enqueueList at result
    split at result
    · cases result
    · split at result
      · cases result
        exact here
      · split at result
        · cases result
          exact here
        · cases result
          exact here.listAppend
  | claimIngest band owner ttl now maxN =>
    exact Store.perform_claimIngest (fun _ _ _ _ _ held => held.claim) here done
  | claimList kind owner ttl now =>
    rcases Prod.mk.inj (Option.some.inj done) with ⟨rfl, _⟩
    refine here.settle fun t value result => ?_
    unfold Store.claimList at result
    split at result
    · cases result
    · next list =>
        split at result
        · cases result
        · have moved := ScoreIs.claimListLoop (show kind ≠ .ingest by simpa [Kind.isList] using list)
            owner (now + ttl) (s.lists kind) here
          rw [Except.ok.inj result] at moved
          exact moved
  | ack kind j owner =>
    cases done
    exact here.ack
  | requeue kind j owner score =>
    cases done
    refine here.requeue fun ingest same held => ?_
    subst ingest same
    exact restored owner score rfl held
  | reapExpiredInflight kind now limit =>
    cases done
    refine here.reapLoop fun ingest e member => ?_
    subst ingest
    rcases here.claimed e (Dict.get?_eq_some.mpr member) with ⟨q, score, good⟩
    rw [score]
    exact closed q good
  | extendInflightDeadline kind j deadline =>
    cases done
    change ScoreIs P i (s.extendInflightDeadline kind j deadline).1
    unfold Store.extendInflightDeadline
    split
    · exact here
    · next entry found => exact (here.extended found).congr rfl rfl
  | renewJobLease kind j owner ttl now =>
    cases done
    change ScoreIs P i (s.renewJobLease kind j owner ttl now).1
    unfold Store.renewJobLease
    split
    · exact here
    · split
      · exact here
      · next entry owned => exact here.extended (Store.ownedEntry_claimed owned).1
  | writeJobPayloadField kind j name value =>
    cases done
    unfold Store.writeJobPayloadField
    dsimp only
    split <;> exact here.congr rfl rfl
  | persist =>
    cases done
    exact here.congr rfl rfl

end Steps

section Runs

variable {sha1 : Str → List UInt8} {band : Str} {day today : Day} {i : Str} {P : ℚ → Prop}

structure ScoresAre (P : ℚ → Prop) (i : Str) (w : World) : Prop where
  here : ScoreIs P i w.store
  pending : ∀ pass ∈ w.recovering, ∀ call ∈ pass, call.kind = .ingest → call.identity = i →
    ∃ q, call.score = some q ∧ P q

def KeepsScore (i : Str) (w : World) : Action → Prop
  | .call (.zaddIngest j _ _ _ _) => j ≠ i
  | .call (.requeue kind j owner score) => kind = .ingest → j = i →
      ∀ e, w.store.ownedEntry .ingest i owner = some e →
        score = e.score ∨ score = some (penalizeIngestScore e.score)
  | .stealDeadOwnerLeases alive hostname bootId =>
    ∀ call ∈ Store.stealCalls w.store.leases alive hostname bootId,
      call.kind = .ingest → call.identity ≠ i
  | _ => True

def KeepingStep (i : Str) (w : World) (label : Action × Answer) (w' : World) : Prop :=
  KeepsScore i w label.1 ∧ w.Steps label w'

theorem ScoresAre.step {w w' : World} {label : Action × Answer} (scores : ScoresAre P i w)
    (closed : ∀ q, P q → P (penalizeIngestScore (some q))) (step : KeepingStep i w label w') :
    ScoresAre P i w' := by
  rcases label with ⟨action, answer⟩
  rcases step with ⟨keeps, fuel, taken⟩
  cases action with
  | call call =>
    rcases Option.map_eq_some_iff.mp taken with ⟨result, done, same⟩
    cases same
    refine ⟨scores.here.perform done closed ?_ ?_, scores.pending⟩
    · rintro q fingerprint overCap cap rfl
      exact keeps rfl
    · rintro owner score rfl held
      rcases Option.isSome_iff_exists.mp held with ⟨e, owned⟩
      rcases scores.here.claimed e (Store.ownedEntry_claimed owned).1 with ⟨q, here, good⟩
      rcases keeps rfl rfl e owned with same | penalty
      · rw [same, here]
        exact good
      · rw [penalty, here]
        exact closed q good
  | stealDeadOwnerLeases alive hostname bootId =>
    cases taken
    refine ⟨scores.here, fun pass member call inPass ingest same => ?_⟩
    rcases List.mem_append.mp member with old | new
    · exact scores.pending pass old call inPass ingest same
    · rw [List.mem_singleton.mp new] at inPass
      exact absurd same (keeps call inPass ingest)
  | reconcileThisOwnerOrphanLeases kind localIdentities ownerToken =>
    cases taken
    refine ⟨scores.here, fun pass member call inPass ingest same => ?_⟩
    rcases List.mem_append.mp member with old | new
    · exact scores.pending pass old call inPass ingest same
    · rw [List.mem_singleton.mp new, Store.reconcileCalls] at inPass
      rcases List.mem_filterMap.mp inPass with ⟨⟨j, entry⟩, snapshot, made⟩
      dsimp only at made
      split at made
      · cases made
      · cases made
        subst ingest same
        exact scores.here.claimed entry (Dict.get?_eq_some.mpr snapshot)
  | resumeRecovery pass =>
    simp only [World.step] at taken
    split at taken
    · next call rest here =>
        cases taken
        have inRecovering := List.mem_of_getElem? here
        refine ⟨scores.here.requeue fun ingest same _ => ?_, ?_⟩
        · rcases scores.pending _ inRecovering call (.head _) ingest same with
            ⟨q, score, good⟩
          rw [score]
          exact good
        · intro other member call' inPass
          rcases List.mem_or_eq_of_mem_set member with old | new
          · exact scores.pending other old call' inPass
          · rw [new] at inPass
            exact scores.pending _ inRecovering call' (.tail _ inPass)
    · cases taken

def HasScore (s : Store) (i : Str) (q : ℚ) : Prop :=
  s.ingest.get? i = some q ∨ ∃ e, (s.inflight .ingest).get? i = some e ∧ e.score = some q

structure Admitted (i : Str) (score : ℚ) (w : World) : Prop where
  queued : w.store.ingest.get? i = some score
  unclaimed : (w.store.inflight .ingest).get? i = none
  unnamed : ∀ pass ∈ w.recovering, ∀ call ∈ pass, call.identity ≠ i

theorem slot_iterate {score : ℚ} (nonneg : 0 ≤ score) (n : Nat) :
    slot ((fun q => penalizeIngestScore (some q))^[n] score) = slot score ∧
      0 ≤ (fun q => penalizeIngestScore (some q))^[n] score := by
  induction n with
  | zero => exact ⟨rfl, nonneg⟩
  | succ n ih =>
    rw [iterate_succ_apply']
    have next := slot_penalize ih.2
    exact ⟨next.1.trans ih.1, next.2⟩

/-- A score decodes to its band and day, in whose order scores are; penalties, requeues, expiries
and recoveries keep what it decodes to. -/
theorem ingest_day_and_band_kept (sha1 : Str → List UInt8) :
    (∀ band day today i score, encodeIngestScore sha1 band day today i = .ok score →
      ∃ b, readBand band = some b ∧
        ∀ n, DecodesTo b day ((fun q => penalizeIngestScore (some q))^[n] score)) ∧
    (∀ today band day i score b band' day' i' score' b',
      encodeIngestScore sha1 band day today i = .ok score → readBand band = some b →
      encodeIngestScore sha1 band' day' today i' = .ok score' → readBand band' = some b' →
      Before today b day b' day' → score < score') ∧
    (∀ band day today i score b w log w',
      encodeIngestScore sha1 band day today i = .ok score → readBand band = some b →
      Admitted i score w → Run (KeepingStep i) w log w' →
      ∀ q, HasScore w'.store i q → DecodesTo b day q) := by
  refine ⟨?_, ?_, ?_⟩
  · intro band day today i score encoded
    rcases encode_slot encoded with ⟨b, read, here, nonneg⟩
    exact ⟨b, read, fun n => decodesTo_of_slot ((slot_iterate nonneg n).1.trans here)⟩
  · intro today band day i score b band' day' i' score' b' encoded read encoded' read' before
    rcases encode_slot encoded with ⟨c, readC, here, _⟩
    rcases encode_slot encoded' with ⟨c', readC', here', _⟩
    cases read.symm.trans readC
    cases read'.symm.trans readC'
    have apart : slot score < slot score' := by
      rw [here, here']
      exact slotOf_before before
    exact_mod_cast lt_of_slot_lt apart
  · intro band day today i score b w log w' encoded read admitted run q has
    rcases encode_slot encoded with ⟨c, readC, here, nonneg⟩
    cases read.symm.trans readC
    let P : ℚ → Prop := fun q => slot q = slotOf today b day ∧ 0 ≤ q
    have closed : ∀ q, P q → P (penalizeIngestScore (some q)) := by
      intro q good
      have next := slot_penalize good.2
      exact ⟨next.1.trans good.1, next.2⟩
    have start : ScoresAre P i w := by
      refine ⟨⟨?_, ?_⟩, fun pass member call inPass _ same =>
        absurd same (admitted.unnamed pass member call inPass)⟩
      · intro q queued
        rw [admitted.queued] at queued
        cases queued
        exact ⟨here, nonneg⟩
      · intro e held
        rw [admitted.unclaimed] at held
        cases held
    have scores : ScoresAre P i w' :=
      run.invariant start fun _ _ _ before step => before.step closed step
    rcases has with queued | ⟨e, held, score⟩
    · exact decodesTo_of_slot (scores.here.queued q queued).1
    · rcases scores.here.claimed e held with ⟨p, score', good⟩
      rw [score] at score'
      cases score'
      exact decodesTo_of_slot good.1

theorem ingest_day_and_band_kept_claimed : ∃ w : World,
    w.store.ingest.get? (lit "a") = none ∧ HasScore w.store (lit "a") 1000000005000000 ∧
      DecodesTo .catchup ⟨5, by decide⟩ 1000000005000000 := by
  let w : World := ⟨(Store.empty.zaddIngest (lit "a") 1000000005000000 none true 0).1, []⟩
  let action : Action := .call (.claimIngest (lit "catchup") (lit "w") 60 0 1)
  let result := (w.step 3 action).get (by decide +kernel)
  have step : KeepingStep (lit "a") w (action, result.2) result.1 :=
    ⟨trivial, 3, (Option.some_get (x := w.step 3 action) (by decide +kernel)).symm⟩
  have claimed : HasScore result.1.store (lit "a") 1000000005000000 :=
    .inr ⟨⟨60, lit "w", some 1000000005000000⟩, by decide +kernel, rfl⟩
  exact ⟨result.1, by decide +kernel, claimed,
    (ingest_day_and_band_kept fun _ => []).2.2 (lit "catchup") ⟨5, by decide⟩ ⟨9, by decide⟩
      (lit "a") 1000000005000000 .catchup w _ _ (by decide) (by decide)
      ⟨by decide +kernel, by decide +kernel, fun _ member => absurd member List.not_mem_nil⟩
      (Run.start.next step) _ claimed⟩

theorem hot_score_has_no_day : ¬ ∀ sha1 band day today i score,
    encodeIngestScore sha1 band day today i = .ok score →
      decodeCatchupCalendarDay score = some day.1 := by
  intro decodes
  have day := decodes (fun _ => []) (lit "hot") ⟨1, by decide⟩ ⟨1, by decide⟩ (lit "a") 0 (by decide)
  exact absurd day (by decide +kernel)

end Runs

end PerfStats.JobStore
