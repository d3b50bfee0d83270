import Mathlib.Algebra.Order.Field.Rat
import Mathlib.Data.NNRat.Defs
import PerfStats.Lib.RateWindow
import PerfStats.Metrics.ReadinessPage

namespace PerfStats.Metrics

open Lib

section Model

def backfillRateWindowS : ℚ := 3600

/-- The monotonic clock and `_BACKFILL_ADMIT_TIMES`; `log` lists the times of all admits. -/
structure BackfillLane where
  clock : ℚ
  admitTimes : List ℚ
  log : List ℚ

def BackfillLane.start (clock : ℚ) : BackfillLane := ⟨clock, [], []⟩

def BackfillLane.wait (lane : BackfillLane) (delay : ℚ≥0) : BackfillLane :=
  { lane with clock := lane.clock + delay }

def backfillRateBrakeBlocked (limit : Nat) (lane : BackfillLane) : Bool × BackfillLane :=
  if limit = 0 then (false, lane)
  else
    let admitTimes := prune backfillRateWindowS lane.clock lane.admitTimes
    (decide (limit ≤ admitTimes.length), { lane with admitTimes := admitTimes })

/-- `_note_backfill_admitted(1)`. -/
def noteBackfillAdmitted (lane : BackfillLane) : BackfillLane :=
  { lane with
    admitTimes := lane.admitTimes ++ [lane.clock]
    log := lane.log ++ [lane.clock] }

/-- `slots` is the slot cap less what is in flight, queued or collected. -/
def backfillLaneRoom (limit : Nat) (slots : Int) (lane : BackfillLane) : Int × BackfillLane :=
  match backfillRateBrakeBlocked limit lane with
  | (true, lane) => (0, lane)
  | (false, lane) => (max 0 slots, lane)

structure BackfillPage (κ : Type*) where
  slots : Int
  call : PageCall κ
  candidates : List κ
  delays : Nat → ℚ≥0

variable {κ : Type*} [DecidableEq κ]

def BackfillPage.laneCall (page : BackfillPage κ) (room : Int) : PageCall κ :=
  { page.call with lane := true, room := room }

def BackfillPage.admits (page : BackfillPage κ) (room : Int) : List ℚ≥0 :=
  let result := (page.laneCall room).processPkChunkInner page.candidates
  (List.range result.state.ready.length).map page.delays

def admitBackfill (lane : BackfillLane) (delay : ℚ≥0) : BackfillLane :=
  noteBackfillAdmitted (lane.wait delay)

/-- `_process_pk_chunk_inner` for the lane. -/
def processBackfillPage (limit : Nat) (lane : BackfillLane) (page : BackfillPage κ) :
    BackfillLane :=
  match backfillLaneRoom limit page.slots lane with
  | (room, lane) => (page.admits room).foldl admitBackfill lane

/-- What happens to the lane: time passes, the idle producer asks the brake, a fill gives the lane
its turn, or one in day order takes its next page. -/
inductive BackfillEvent (κ : Type*) where
  | wait (delay : ℚ≥0)
  | ask
  | turn (slots : Int) (listing : ℚ≥0) (page : BackfillPage κ)
  | page (page : BackfillPage κ)

def backfillStep (limit : Nat) (lane : BackfillLane) : BackfillEvent κ → BackfillLane
  | .wait delay => lane.wait delay
  | .ask => (backfillRateBrakeBlocked limit lane).2
  | .turn slots listing page =>
    match backfillLaneRoom limit slots lane with
    | (room, lane) => if room ≤ 0 then lane else processBackfillPage limit (lane.wait listing) page
  | .page page => processBackfillPage limit lane page

end Model

section Admits

variable {κ : Type*} {call : PageCall κ} {s : PageState κ} {pass : κ → Prop}

/-- From `s` to `t` only candidates of `work` are admitted, each at most once and one that passes. -/
def AdmitsOnly (pass : κ → Prop) (work : List κ) (s t : PageState κ) : Prop :=
  ∃ admitted : List κ, t.ready = s.ready ++ admitted ∧ admitted.Sublist work ∧
    ∀ c ∈ admitted, pass c

theorem AdmitsOnly.nothing (work : List κ) {t : PageState κ} (same : t.ready = s.ready) :
    AdmitsOnly pass work s t :=
  ⟨[], by rw [same, List.append_nil], List.nil_sublist work, fun _ member => absurd member List.not_mem_nil⟩

theorem AdmitsOnly.skip {work : List κ} {c : κ} {t u : PageState κ} (same : t.ready = s.ready)
    (only : AdmitsOnly pass work t u) : AdmitsOnly pass (c :: work) s u := by
  obtain ⟨admitted, ready, sublist, passed⟩ := only
  exact ⟨admitted, by rw [ready, same], sublist.cons c, passed⟩

variable (call) in
theorem AdmitsOnly.take {work : List κ} {c : κ} {u : PageState κ} (passes : pass c)
    (only : AdmitsOnly pass work (call.append s c) u) : AdmitsOnly pass (c :: work) s u := by
  obtain ⟨admitted, ready, sublist, passed⟩ := only
  refine ⟨c :: admitted, ?_, sublist.cons_cons c, fun d member => ?_⟩
  · rw [ready, PageCall.append, List.append_assoc, List.singleton_append]
  · rcases List.mem_cons.mp member with rfl | later
    · exact passes
    · exact passed d later

theorem AdmitsOnly.trans {front back : List κ} {t u : PageState κ}
    (first : AdmitsOnly pass front s t) (second : AdmitsOnly pass back t u) :
    AdmitsOnly pass (front ++ back) s u := by
  obtain ⟨early, ready, sublist, passed⟩ := first
  obtain ⟨late, ready', sublist', passed'⟩ := second
  refine ⟨early ++ late, by rw [ready', ready, List.append_assoc], sublist.append sublist', ?_⟩
  intro c member
  exact (List.mem_append.mp member).elim (passed c) (passed' c)

theorem AdmitsOnly.wider {front back : List κ} {t : PageState κ}
    (only : AdmitsOnly pass front s t) (sublist : front.Sublist back) :
    AdmitsOnly pass back s t := by
  obtain ⟨admitted, ready, inner, passed⟩ := only
  exact ⟨admitted, ready, inner.trans sublist, passed⟩

theorem admitReady_only {ready : κ → Bool} {behind work : List κ}
    (passes : ∀ c ∈ work, ready c = true → pass c) :
    AdmitsOnly pass work s (call.admitReady ready behind work s).1 := by
  induction work generalizing s with
  | nil => exact .nothing [] rfl
  | cons c rest ih =>
    have later := fun d member => passes d (List.mem_cons_of_mem c member)
    unfold PageCall.admitReady
    split
    · next isReady =>
        refine AdmitsOnly.take call (passes c (.head _) isReady) ?_
        split
        · exact .nothing rest (PageState.leave_ready _ _)
        · exact ih later
    · exact .skip rfl (ih later)

theorem fallbackLoop_only [DecidableEq κ] {work behind rest : List κ} {stop : Bool}
    (passes : ∀ c ∈ rest, call.single c = .ready → pass c) :
    AdmitsOnly pass rest s (call.fallbackLoop work behind rest s stop).1 := by
  induction rest generalizing s stop with
  | nil => exact .nothing [] rfl
  | cons c rest ih =>
    have later := fun d member => passes d (List.mem_cons_of_mem c member)
    unfold PageCall.fallbackLoop
    split
    · exact .nothing _ rfl
    · exact .skip rfl (ih later)
    · next single =>
        refine AdmitsOnly.take call (passes c (.head _) single) ?_
        split
        · obtain ⟨admitted, ready, sublist, passed⟩ := @ih
            ((call.append s c).leave (PageCall.behindOf work c ++ behind)) true later
          exact ⟨admitted, by rw [ready, PageState.leave_ready], sublist, passed⟩
        · exact ih later

theorem strictBatches_only [DecidableEq κ] {k : Nat} {subs : List (List κ)}
    (single : ∀ c, call.single c = .ready → pass c)
    (batch : ∀ k jids c, call.batch k = .ready jids → jids c = true → pass c) :
    AdmitsOnly pass subs.flatten s (call.strictBatches k subs s).1 := by
  induction subs generalizing s k with
  | nil => exact .nothing _ rfl
  | cons sub later ih =>
    have work : (sub.filter fun c => !call.cooling c).Sublist sub := List.filter_sublist
    rw [List.flatten_cons]
    unfold PageCall.strictBatches
    split
    · exact .nothing _ rfl
    · dsimp only
      split
      · obtain ⟨admitted, ready, sublist, passed⟩ :=
          @ih (s.notifyAll (sub.filter call.cooling)) k
        exact ⟨admitted, ready, sublist.trans (List.sublist_append_right _ _), passed⟩
      · split
        · exact .nothing _ rfl
        · next jids answered =>
            have only := @admitReady_only _ call (s.notifyAll (sub.filter call.cooling)) pass jids
              later.flatten _ fun c (_ : c ∈ sub.filter fun c => !call.cooling c) =>
                batch k jids c answered
            have only : AdmitsOnly pass sub s _ := only.wider work
            split
            · next stopped =>
                rw [stopped] at only
                exact only.wider (List.sublist_append_left _ _)
            · next goes =>
                rw [goes] at only
                exact only.trans ih
        · have only := @fallbackLoop_only _ call (s.notifyAll (sub.filter call.cooling)) pass _
            (sub.filter fun c => !call.cooling c) later.flatten _ false
              fun c (_ : c ∈ sub.filter fun c => !call.cooling c) => single c
          have only : AdmitsOnly pass sub s _ := only.wider work
          split
          · next raised =>
              rw [raised] at only
              exact only.wider (List.sublist_append_left _ _)
          · next stopped =>
              rw [stopped] at only
              exact only.wider (List.sublist_append_left _ _)
          · next goes =>
              rw [goes] at only
              exact only.trans ih

def RoomLeft (call : PageCall κ) (s : PageState κ) : Prop :=
  s.room + s.ready.length = call.room ∧ 0 < s.room

theorem admitReady_room {ready : κ → Bool} {behind work : List κ} (lane : call.lane = true)
    (left : RoomLeft call s) :
    ((call.admitReady ready behind work s).1.ready.length : Int) ≤ call.room ∧
      ((call.admitReady ready behind work s).2 = false →
        RoomLeft call (call.admitReady ready behind work s).1) := by
  induction work generalizing s with
  | nil =>
    obtain ⟨room, some_⟩ := left
    refine ⟨?_, fun _ => ⟨room, some_⟩⟩
    dsimp only [PageCall.admitReady]
    omega
  | cons c rest ih =>
    obtain ⟨room, some_⟩ := left
    have appended : (call.append s c).room + (call.append s c).ready.length = call.room := by
      simp only [PageCall.append, lane, if_true, List.length_append, List.length_singleton]
      push_cast
      omega
    have nonneg : 0 ≤ (call.append s c).room := by
      simp only [PageCall.append, lane, if_true]
      omega
    unfold PageCall.admitReady
    split
    · split
      · refine ⟨?_, fun goes => absurd goes (by simp)⟩
        dsimp only
        rw [PageState.leave_ready]
        omega
      · next place =>
          refine ih ⟨appended, ?_⟩
          rw [PageCall.full, lane, if_pos rfl, decide_eq_true_eq, not_le] at place
          exact place
    · exact ih ⟨room, some_⟩

theorem strictBatches_room [DecidableEq κ] {k : Nat} {subs : List (List κ)}
    (lane : call.lane = true) (checked : ∀ k, call.batch k ≠ .failed) (left : RoomLeft call s) :
    ((call.strictBatches k subs s).1.ready.length : Int) ≤ call.room := by
  induction subs generalizing s k with
  | nil =>
    obtain ⟨room, some_⟩ := left
    dsimp only [PageCall.strictBatches]
    omega
  | cons sub later ih =>
    have here : (s.ready.length : Int) ≤ call.room := by
      obtain ⟨room, some_⟩ := left
      omega
    have noticed : RoomLeft call (s.notifyAll (sub.filter call.cooling)) := left
    unfold PageCall.strictBatches
    split
    · exact here
    · dsimp only
      split
      · exact ih noticed
      · split
        · exact here
        · next jids _ =>
            obtain ⟨bound, goes⟩ := @admitReady_room _ call _ jids later.flatten
              (sub.filter fun c => !call.cooling c) lane noticed
            split
            · next stopped =>
                rw [stopped] at bound
                exact bound
            · next on =>
                rw [on] at goes
                exact ih (goes rfl)
        · next failed => exact absurd failed (checked k)

variable [DecidableEq κ]

theorem page_only (page : List κ) (quiesced : ∀ c, call.quiesced c = true → pass c)
    (single : ∀ c, call.single c = .ready → pass c)
    (batch : ∀ k jids c, call.batch k = .ready jids → jids c = true → pass c) :
    (call.processPkChunkInner page).state.ready.Subperm page ∧
      ∀ c ∈ (call.processPkChunkInner page).state.ready, pass c := by
  unfold PageCall.processPkChunkInner
  split
  · exact ⟨List.nil_subperm, fun _ member => absurd member List.not_mem_nil⟩
  · have ordered : (call.orderedPage page).Sublist page := by
      unfold PageCall.orderedPage
      split
      · exact List.Sublist.refl _
      · exact List.filter_sublist
    have parts := (@splitFinal_perm _ call (call.orderedPage page)).subperm.trans ordered.subperm
    have settled : ∀ c ∈ (call.splitFinal (call.orderedPage page)).1, pass c := by
      intro c member
      unfold PageCall.splitFinal at member
      split at member
      · exact quiesced c (List.mem_filter.mp member).2
      · exact absurd member List.not_mem_nil
    generalize call.splitFinal (call.orderedPage page) = split at parts settled
    obtain ⟨final, rest⟩ := split
    dsimp only at parts settled ⊢
    have first : AdmitsOnly pass final ⟨call.room, [], [], []⟩
        (call.admitFinal final rest ⟨call.room, [], [], []⟩).1 :=
      admitReady_only fun c member _ => settled c member
    have close : ∀ {t : PageState κ},
        AdmitsOnly pass (final ++ rest) ⟨call.room, [], [], []⟩ t →
          t.ready.Subperm page ∧ ∀ c ∈ t.ready, pass c := by
      rintro t ⟨admitted, ready, sublist, passed⟩
      rw [ready, List.nil_append]
      exact ⟨sublist.subperm.trans parts, passed⟩
    split
    · next stopped =>
        rw [stopped] at first
        exact close (first.wider (List.sublist_append_left _ _))
    · next goes =>
        rw [goes] at first
        refine close (first.trans ?_)
        have strict := fun t => @strictBatches_only _ call
          (PageState.notifyAll t (rest.filter call.rejected)) pass _ 0
            (slices call.batchSize.toNat (rest.filter fun c => !call.rejected c)) single batch
        simp only [slices_flatten] at strict
        exact (strict _).wider List.filter_sublist

theorem page_room (page : List κ) (lane : call.lane = true)
    (checked : ∀ k, call.batch k ≠ .failed) :
    ((call.processPkChunkInner page).state.ready.length : Int) ≤ max 0 call.room := by
  unfold PageCall.processPkChunkInner
  split
  · exact le_max_left _ _
  · next some_ =>
      have positive : 0 < call.room := not_le.mp fun le => some_ ⟨lane, le⟩
      refine le_trans ?_ (le_max_right _ _)
      generalize call.splitFinal (call.orderedPage page) = split
      obtain ⟨final, rest⟩ := split
      obtain ⟨bound, goes⟩ := @admitReady_room _ call ⟨call.room, [], [], []⟩ (fun _ => true) rest
        final lane ⟨by simp, positive⟩
      dsimp only [PageCall.admitFinal]
      split
      · next stopped =>
          rw [stopped] at bound
          exact bound
      · next on =>
          rw [on] at goes
          exact strictBatches_room lane checked (goes rfl)

end Admits

section Brake

variable {κ : Type*} [DecidableEq κ] {limit : Nat} {lane : BackfillLane} {page : BackfillPage κ}

def BackfillLane.Kept (lane : BackfillLane) : Prop :=
  Recorded backfillRateWindowS lane.clock lane.log lane.admitTimes

def BackfillLane.Braked (limit : Nat) (lane : BackfillLane) : Prop :=
  AtMost backfillRateWindowS limit lane.log

def BackfillLane.BrakeOpen (limit : Nat) (lane : BackfillLane) : Prop :=
  (backfillRateBrakeBlocked limit lane).1 = false

def BackfillLane.hourLeft (limit : Nat) (lane : BackfillLane) : Nat :=
  limit - recent backfillRateWindowS lane.clock lane.log

def BackfillPage.MayPass (page : BackfillPage κ) (c : κ) : Prop :=
  page.call.quiesced c = true ∨ page.call.single c = .ready ∨
    ∃ k jids, page.call.batch k = .ready jids ∧ jids c = true

open Classical in
noncomputable def BackfillPage.passing (page : BackfillPage κ) : Nat :=
  page.candidates.countP fun c => decide (page.MayPass c)

/-- The page has no slot, or no more candidates that may pass than the hour leaves; where no batched
check fails, slots count too. -/
def PageWithin (limit : Nat) (lane : BackfillLane) (page : BackfillPage κ) : Prop :=
  lane.hourLeft limit = 0 ∨ page.slots ≤ 0 ∨ page.passing ≤ lane.hourLeft limit ∨
    page.slots ≤ lane.hourLeft limit ∧ ∀ k, page.call.batch k ≠ .failed

def EventWithin (limit : Nat) (lane : BackfillLane) : BackfillEvent κ → Prop
  | .wait _ => True
  | .ask => True
  | .turn slots listing page =>
    lane.hourLeft limit = 0 ∨ slots ≤ 0 ∨ PageWithin limit (lane.wait listing) page
  | .page page => PageWithin limit lane page

theorem kept_wait (kept : lane.Kept) (delay : ℚ≥0) : (lane.wait delay).Kept :=
  Recorded.later kept (le_add_of_nonneg_right delay.2)

theorem asked_log (limit : Nat) (lane : BackfillLane) :
    (backfillRateBrakeBlocked limit lane).2.log = lane.log := by
  unfold backfillRateBrakeBlocked
  split <;> rfl

theorem kept_asked (kept : lane.Kept) (limit : Nat) :
    (backfillRateBrakeBlocked limit lane).2.Kept := by
  unfold backfillRateBrakeBlocked
  split
  · exact kept
  · exact Recorded.prune kept

theorem room_lane (limit : Nat) (slots : Int) (lane : BackfillLane) :
    (backfillLaneRoom limit slots lane).2 = (backfillRateBrakeBlocked limit lane).2 := by
  unfold backfillLaneRoom
  rcases backfillRateBrakeBlocked limit lane with ⟨_ | _, _⟩ <;> rfl

theorem brakeOpen_iff (positive : 0 < limit) (kept : lane.Kept) :
    lane.BrakeOpen limit ↔ recent backfillRateWindowS lane.clock lane.log < limit := by
  unfold BackfillLane.BrakeOpen backfillRateBrakeBlocked
  rw [if_neg (Nat.ne_of_gt positive), decide_eq_false_iff_not, Recorded.prune_length kept, not_le]

theorem kept_admitted (kept : lane.Kept) (delay : ℚ≥0) : (admitBackfill lane delay).Kept :=
  Recorded.note (kept_wait kept delay)

theorem braked_admitted (positive : 0 < limit) (kept : lane.Kept) (delay : ℚ≥0) :
    (admitBackfill lane delay).Braked limit ↔
      lane.Braked limit ∧ (lane.wait delay).BrakeOpen limit := by
  have waited := kept_wait kept delay
  rw [brakeOpen_iff positive waited]
  exact atMost_append (by decide) waited.latest

theorem asked_lane (limit : Nat) (slots : Int) (lane : BackfillLane) (kept : lane.Kept) :
    (backfillLaneRoom limit slots lane).2.Kept ∧
      (backfillLaneRoom limit slots lane).2.log = lane.log ∧
        (backfillLaneRoom limit slots lane).2.clock = lane.clock := by
  rw [room_lane]
  refine ⟨kept_asked kept limit, asked_log limit lane, ?_⟩
  unfold backfillRateBrakeBlocked
  split <;> rfl

theorem room_shut (positive : 0 < limit) (kept : lane.Kept) {slots : Int}
    (shut : lane.hourLeft limit = 0 ∨ slots ≤ 0) : (backfillLaneRoom limit slots lane).1 ≤ 0 := by
  have open_ := brakeOpen_iff positive kept
  unfold BackfillLane.BrakeOpen at open_
  unfold backfillLaneRoom
  cases asked : backfillRateBrakeBlocked limit lane with
  | mk blocked lane' =>
    rw [asked] at open_
    cases blocked with
    | true => exact le_rfl
    | false =>
      rcases shut with spent | none_
      · exact absurd (open_.mp rfl) (not_lt.mpr (Nat.sub_eq_zero_iff_le.mp spent))
      · exact max_le le_rfl none_

theorem room_le (limit : Nat) (slots : Int) (lane : BackfillLane) :
    (backfillLaneRoom limit slots lane).1 ≤ max 0 slots := by
  unfold backfillLaneRoom
  split
  · exact le_max_left _ _
  · exact le_rfl

theorem braked_admits (positive : 0 < limit) {delays : List ℚ≥0} (kept : lane.Kept)
    (braked : lane.Braked limit)
    (fits : recent backfillRateWindowS lane.clock lane.log + delays.length ≤ limit) :
    (delays.foldl admitBackfill lane).Braked limit := by
  induction delays generalizing lane with
  | nil => exact braked
  | cons delay rest ih =>
    have waited := kept_wait kept delay
    have later : recent backfillRateWindowS (lane.wait delay).clock lane.log ≤
        recent backfillRateWindowS lane.clock lane.log :=
      recent_later (le_add_of_nonneg_right delay.2) lane.log
    rw [List.length_cons] at fits
    have open_ : (lane.wait delay).BrakeOpen limit :=
      (brakeOpen_iff positive waited).mpr (by change recent _ _ lane.log < limit; omega)
    refine ih (kept_admitted kept delay)
      ((braked_admitted positive kept delay).mpr ⟨braked, open_⟩) ?_
    have noted := @recent_note ℚ _ _ backfillRateWindowS (lane.wait delay).clock lane.log
      (lane.wait delay).clock
    change recent _ (lane.wait delay).clock (lane.log ++ [(lane.wait delay).clock]) + _ ≤ limit
    omega

theorem admits_fit (positive : 0 < limit) (kept : lane.Kept)
    (within : PageWithin limit lane page) :
    (page.admits (backfillLaneRoom limit page.slots lane).1).length = 0 ∨
      (page.admits (backfillLaneRoom limit page.slots lane).1).length ≤ lane.hourLeft limit := by
  classical
  unfold BackfillPage.admits
  rw [List.length_map, List.length_range]
  have shut : lane.hourLeft limit = 0 ∨ page.slots ≤ 0 →
      ((page.laneCall (backfillLaneRoom limit page.slots lane).1).processPkChunkInner
        page.candidates).state.ready.length = 0 := by
    intro none_
    unfold PageCall.processPkChunkInner
    rw [if_pos ⟨rfl, room_shut positive kept none_⟩]
    rfl
  rcases within with spent | none_ | few | ⟨slots, checked⟩
  · exact .inl (shut (.inl spent))
  · exact .inl (shut (.inr none_))
  · refine .inr (le_trans ?_ few)
    obtain ⟨subperm, passed⟩ := @page_only κ
      (page.laneCall (backfillLaneRoom limit page.slots lane).1) page.MayPass _ page.candidates
      (fun _ => .inl) (fun _ single => .inr (.inl single))
      fun k jids _ batch ready => .inr (.inr ⟨k, jids, batch, ready⟩)
    have all := List.countP_eq_length.mpr fun c member => decide_eq_true (passed c member)
    rw [← all]
    exact subperm.countP_le _
  · by_cases none_ : page.slots ≤ 0
    · exact .inl (shut (.inr none_))
    · refine .inr ?_
      have bound := @page_room κ (page.laneCall (backfillLaneRoom limit page.slots lane).1) _
        page.candidates rfl checked
      have room : (page.laneCall (backfillLaneRoom limit page.slots lane).1).room ≤
        max 0 page.slots := room_le limit page.slots lane
      omega

theorem braked_page (positive : 0 < limit) (kept : lane.Kept) (braked : lane.Braked limit)
    (within : PageWithin limit lane page) :
    (processBackfillPage limit lane page).Kept ∧
      (processBackfillPage limit lane page).Braked limit := by
  obtain ⟨asked, log, clock⟩ := asked_lane limit page.slots lane kept
  refine ⟨foldl_kept asked fun s delay kept => kept_admitted kept delay, ?_⟩
  have before : (backfillLaneRoom limit page.slots lane).2.Braked limit := by
    unfold BackfillLane.Braked
    rw [log]
    exact braked
  unfold processBackfillPage
  dsimp only
  rcases admits_fit positive kept within with none_ | fits
  · rw [List.eq_nil_of_length_eq_zero none_]
    exact before
  · by_cases some_ : (page.admits (backfillLaneRoom limit page.slots lane).1).length = 0
    · rw [List.eq_nil_of_length_eq_zero some_]
      exact before
    · refine braked_admits positive asked before ?_
      rw [clock, log]
      unfold BackfillLane.hourLeft at fits
      omega

theorem braked_step (positive : 0 < limit) (kept : lane.Kept) (braked : lane.Braked limit)
    {event : BackfillEvent κ} (within : EventWithin limit lane event) :
    (backfillStep limit lane event).Kept ∧ (backfillStep limit lane event).Braked limit := by
  cases event with
  | wait delay => exact ⟨kept_wait kept delay, braked⟩
  | ask =>
    refine ⟨kept_asked kept limit, ?_⟩
    unfold BackfillLane.Braked
    rw [backfillStep, asked_log]
    exact braked
  | page page => exact braked_page positive kept braked within
  | turn slots listing page =>
    obtain ⟨asked, log, clock⟩ := asked_lane limit slots lane kept
    have before : (backfillLaneRoom limit slots lane).2.Braked limit := by
      unfold BackfillLane.Braked
      rw [log]
      exact braked
    unfold backfillStep
    dsimp only
    split
    · exact ⟨asked, before⟩
    · next some_ =>
        have open_ := not_or.mp fun shut => some_ (room_shut positive kept shut)
        have here : PageWithin limit (lane.wait listing) page :=
          (within.resolve_left open_.1).resolve_left open_.2
        have same : ((backfillLaneRoom limit slots lane).2.wait listing).hourLeft limit =
            (lane.wait listing).hourLeft limit := by
          unfold BackfillLane.hourLeft BackfillLane.wait
          rw [log, clock]
        refine braked_page positive (kept_wait asked listing) before ?_
        unfold PageWithin at here ⊢
        rw [same]
        exact here

/-- The lane keeps to its hourly limit in a run whose pages find, at their start, that the hour
leaves as much of the limit as they can admit. -/
theorem hourly_brake_within (limit : Nat) (positive : 0 < limit) (clock : ℚ)
    (events : List (BackfillEvent κ))
    (within : Throughout (backfillStep limit) (EventWithin limit) (BackfillLane.start clock)
      events) :
    ∀ early later, events = early ++ later →
      (early.foldl (backfillStep limit) (BackfillLane.start clock)).Braked limit := by
  rintro early later rfl
  have run := (throughout_append.mp within).1.kept
    (K := fun lane => lane.Kept ∧ lane.Braked limit) ⟨Recorded.nil, AtMost.nil⟩
    fun lane event holds here => braked_step positive holds.1 holds.2 here
  exact run.2

end Brake

def readyPage (candidates : List Nat) : BackfillPage Nat where
  slots := 2
  candidates := candidates
  delays := fun _ => 0
  call :=
    { lane := true
      room := 0
      prefetchChunks := 0
      queued := 0
      backoff := fun _ => false
      backoffAgain := fun _ => false
      quiesced := fun _ => false
      rejected := fun _ => false
      batchSize := 64
      cooling := fun _ => false
      batch := fun _ => .ready fun _ => true
      single := fun _ => .ready }

theorem hourly_brake_within_one :
    ([BackfillEvent.turn 2 0 (readyPage [1])].foldl (backfillStep 1)
      (BackfillLane.start 0)).Braked 1 := by
  have always := hourly_brake_within 1 (by decide) 0 [BackfillEvent.turn 2 0 (readyPage [1])]
    ⟨.inr (.inr (.inr (.inr (.inl List.countP_le_length)))), True.intro⟩
  exact always [_] [] rfl

theorem page_passes_limit :
    (backfillStep 1 (BackfillLane.start 0) (.turn 2 0 (readyPage [1, 2]))).log = [0, 0] ∧
      ¬ (backfillStep 1 (BackfillLane.start 0) (.turn 2 0 (readyPage [1, 2]))).Braked 1 := by
  have log : (backfillStep 1 (BackfillLane.start 0) (.turn 2 0 (readyPage [1, 2]))).log =
      [0, 0] := by
    decide +kernel
  refine ⟨log, fun braked => ?_⟩
  have first := braked 0
  exact absurd first (by decide +kernel)

end PerfStats.Metrics
