import PerfStats.Lib.Runs

namespace PerfStats.Metrics

open Lib

section Model

variable {κ : Type*} [DecidableEq κ]

inductive BatchCheck (κ : Type*) where
  | ready (jids : κ → Bool)
  | failed
  | unavailable

/-- What `_strict_ready_fallback_one` comes to. -/
inductive SingleCheck where
  | ready
  | notReady
  | unavailable
deriving DecidableEq

/-- What a call of `_process_pk_chunk_inner` finds: its lane, the queue, and the verdicts of its
checks. The failure backoff is looked up twice. -/
structure PageCall (κ : Type*) where
  lane : Bool
  room : Int
  prefetchChunks : Int
  queued : Nat
  backoff : κ → Bool
  backoffAgain : κ → Bool
  quiesced : κ → Bool
  rejected : κ → Bool
  batchSize : Int
  cooling : κ → Bool
  batch : Nat → BatchCheck κ
  single : κ → SingleCheck

/-- What the call has done so far; `tail` is `state["pending_tail"]`, empty where it is none. -/
structure PageState (κ : Type*) where
  room : Int
  ready : List κ
  notReady : List κ
  tail : List κ

inductive PageEnd where
  | stops
  | goesOn
  | raises
deriving DecidableEq

structure PageResult (κ : Type*) where
  backedOff : List κ
  state : PageState κ
  finish : PageEnd

namespace PageState

def notify (s : PageState κ) (c : κ) : PageState κ := { s with notReady := s.notReady ++ [c] }

def notifyAll (s : PageState κ) (l : List κ) : PageState κ := { s with notReady := s.notReady ++ l }

/-- `if tail: state["pending_tail"] = tail`. -/
def leave (s : PageState κ) (tail : List κ) : PageState κ :=
  if tail = [] then s else { s with tail := tail }

end PageState

namespace PageCall

variable (call : PageCall κ)

def append (s : PageState κ) (c : κ) : PageState κ :=
  { s with
    ready := s.ready ++ [c]
    room := if call.lane then s.room - 1 else s.room }

/-- `_after_admit(candidate) or len(ready_queue) >= stop_at`, after the append. -/
def full (s : PageState κ) : Bool :=
  if call.lane then decide (s.room ≤ 0)
  else decide (call.prefetchChunks ≤ call.queued + s.ready.length)

/-- `len(ready_queue) >= stop_at`; the backfill lane has no such end. -/
def queueFull (s : PageState κ) : Bool :=
  !call.lane && decide (call.prefetchChunks ≤ call.queued + s.ready.length)

/-- The loop over a batch with its ready jids; `behind` are the candidates of later batches. -/
def admitReady (ready : κ → Bool) (behind : List κ) : List κ → PageState κ → PageState κ × Bool
  | [], s => (s, false)
  | c :: rest, s =>
    if ready c then
      if call.full (call.append s c) then ((call.append s c).leave (rest ++ behind), true)
      else admitReady ready behind rest (call.append s c)
    else admitReady ready behind rest (s.notify c)

def admitFinal (final ordered : List κ) (s : PageState κ) : PageState κ × Bool :=
  call.admitReady (fun _ => true) ordered final s

def behindOf (work : List κ) (c : κ) : List κ :=
  (work.dropWhile fun j => decide (j ≠ c)).filter fun j => decide (j ≠ c)

/-- The loop over a batch whose check failed: none where it raises, else whether the prefetch is to
stop. -/
def fallbackLoop (work behind : List κ) :
    List κ → PageState κ → Bool → PageState κ × Option Bool
  | [], s, prefetchStop => (s, some prefetchStop)
  | c :: rest, s, prefetchStop =>
    match call.single c with
    | .unavailable => (s, none)
    | .notReady => fallbackLoop work behind rest (s.notify c) prefetchStop
    | .ready =>
      if call.full (call.append s c) then
        fallbackLoop work behind rest ((call.append s c).leave (behindOf work c ++ behind)) true
      else fallbackLoop work behind rest (call.append s c) prefetchStop

/-- The loop over the sub-batches; `k` counts the batched checks. -/
def strictBatches : Nat → List (List κ) → PageState κ → PageState κ × PageEnd
  | _, [], s => (s, .goesOn)
  | k, sub :: later, s =>
    if call.queueFull s then ({ s with tail := sub ++ later.flatten }, .stops)
    else
      let work := sub.filter fun c => !call.cooling c
      let s := s.notifyAll (sub.filter call.cooling)
      if work.isEmpty then strictBatches k later s
      else
        match call.batch k with
        | .unavailable => (s, .raises)
        | .ready jids =>
          match call.admitReady jids later.flatten work s with
          | (s, true) => (s, .stops)
          | (s, false) => strictBatches (k + 1) later s
        | .failed =>
          match call.fallbackLoop work later.flatten work s false with
          | (s, none) => (s, .raises)
          | (s, some true) => (s, .stops)
          | (s, some false) => strictBatches (k + 1) later s

def orderedPage (page : List κ) : List κ :=
  if (page.filter call.backoff).isEmpty then page
  else page.filter fun c => !call.backoffAgain c

def splitFinal (ordered : List κ) : List κ × List κ :=
  if call.lane then (ordered.filter call.quiesced, ordered.filter fun c => !call.quiesced c)
  else ([], ordered)

def strictPart (ordered : List κ) (s : PageState κ) : PageState κ × PageEnd :=
  call.strictBatches 0 (slices call.batchSize.toNat (ordered.filter fun c => !call.rejected c))
    (s.notifyAll (ordered.filter call.rejected))

def processPkChunkInner (page : List κ) : PageResult κ :=
  if call.lane ∧ call.room ≤ 0 then ⟨[], ⟨call.room, [], [], page⟩, .stops⟩
  else
    let (final, ordered) := call.splitFinal (call.orderedPage page)
    match call.admitFinal final ordered ⟨call.room, [], [], []⟩ with
    | (s, true) => ⟨page.filter call.backoff, s, .stops⟩
    | (s, false) =>
      let (s, finish) := call.strictPart ordered s
      ⟨page.filter call.backoff, s, finish⟩

end PageCall

end Model

section Loops

variable {κ : Type*} {call : PageCall κ} {s : PageState κ}

namespace PageState

def placed (s : PageState κ) : List κ := s.ready ++ s.notReady ++ s.tail

def decided (s : PageState κ) : List κ := s.ready ++ s.notReady

@[simp] theorem leave_ready (s : PageState κ) (tail : List κ) : (s.leave tail).ready = s.ready := by
  unfold leave
  split <;> rfl

@[simp] theorem leave_notReady (s : PageState κ) (tail : List κ) :
    (s.leave tail).notReady = s.notReady := by
  unfold leave
  split <;> rfl

@[simp] theorem leave_room (s : PageState κ) (tail : List κ) : (s.leave tail).room = s.room := by
  unfold leave
  split <;> rfl

theorem leave_tail (s : PageState κ) (tail : List κ) :
    (s.leave tail).tail = if tail = [] then s.tail else tail := by
  unfold leave
  split <;> rfl

theorem leave_tail_fresh (fresh : s.tail = []) (tail : List κ) : (s.leave tail).tail = tail := by
  rw [leave_tail]
  split
  · next none => rw [none, fresh]
  · rfl

theorem decided_leave (s : PageState κ) (tail : List κ) : (s.leave tail).decided = s.decided := by
  unfold decided
  rw [leave_ready, leave_notReady]

theorem decided_notifyAll (s : PageState κ) (l : List κ) :
    (s.notifyAll l).decided = s.decided ++ l := by
  unfold decided notifyAll
  rw [← List.append_assoc]

theorem decided_notify (s : PageState κ) (c : κ) : (s.notify c).decided.Perm (c :: s.decided) := by
  unfold decided notify
  rw [← List.append_assoc]
  exact List.perm_append_singleton c _

end PageState

theorem decided_append (call : PageCall κ) (s : PageState κ) (c : κ) :
    (call.append s c).decided.Perm (c :: s.decided) := by
  unfold PageState.decided PageCall.append
  rw [List.append_assoc]
  exact List.perm_middle

def PageCall.fits (call : PageCall κ) (admitted : Nat) : Bool :=
  if call.lane then decide ((admitted : Int) < call.room)
  else decide ((call.queued : Int) + admitted < call.prefetchChunks)

theorem fits_antitone {n m : Nat} (le : n ≤ m) (fits : call.fits m = true) :
    call.fits n = true := by
  unfold PageCall.fits at fits ⊢
  cases lane : call.lane <;>
    simp only [lane, Bool.false_eq_true, if_false, if_true, decide_eq_true_eq] at fits ⊢ <;> omega

/-- What holds of the state all along: the lane's room counts down with its admissions, and the
lane has place for another one. -/
structure Counted (call : PageCall κ) (s : PageState κ) : Prop where
  room : call.lane = true → s.room = call.room - s.ready.length
  place : call.lane = true → call.fits s.ready.length = true

theorem ready_append (call : PageCall κ) (s : PageState κ) (c : κ) :
    (call.append s c).ready.length = s.ready.length + 1 := by
  simp [PageCall.append]

theorem room_append (c : κ) (room : call.lane = true → s.room = call.room - s.ready.length) :
    call.lane = true → (call.append s c).room = call.room - (call.append s c).ready.length := by
  intro lane
  rw [ready_append]
  simp only [PageCall.append, lane, if_true, room lane]
  push_cast
  omega

theorem full_append (c : κ) (room : call.lane = true → s.room = call.room - s.ready.length) :
    call.full (call.append s c) = !call.fits (s.ready.length + 1) := by
  unfold PageCall.full PageCall.fits
  rw [ready_append]
  cases lane : call.lane
  · simp only [Bool.false_eq_true, if_false]
    rw [← decide_not, decide_eq_decide]
    push_cast
    omega
  · have left := room_append c room lane
    rw [ready_append] at left
    simp only [if_true, left]
    rw [← decide_not, decide_eq_decide]
    push_cast
    omega

theorem queueFull_eq (call : PageCall κ) (s : PageState κ) :
    call.queueFull s = (!call.lane && !call.fits s.ready.length) := by
  unfold PageCall.queueFull PageCall.fits
  cases call.lane
  · simp only [Bool.not_false, Bool.true_and, Bool.false_eq_true, if_false]
    rw [← decide_not, decide_eq_decide]
    omega
  · rfl

theorem Counted.appended {c : κ} (counted : Counted call s)
    (place : call.full (call.append s c) = false) : Counted call (call.append s c) where
  room := room_append c counted.room
  place := fun _ => by
    rw [full_append c counted.room, Bool.not_eq_false'] at place
    rwa [ready_append]

theorem admitReady_places {ready : κ → Bool} {behind work : List κ} (fresh : s.tail = [])
    (counted : Counted call s) :
    ((call.admitReady ready behind work s).2 = true →
        (call.admitReady ready behind work s).1.placed.Perm (s.decided ++ work ++ behind) ∧
          call.fits (s.ready.length + work.countP ready) = false) ∧
      ((call.admitReady ready behind work s).2 = false →
        (call.admitReady ready behind work s).1.tail = [] ∧
          (call.admitReady ready behind work s).1.decided.Perm (s.decided ++ work) ∧
          (call.admitReady ready behind work s).1.ready.length =
            s.ready.length + work.countP ready ∧
          Counted call (call.admitReady ready behind work s).1) := by
  induction work generalizing s with
  | nil =>
    refine ⟨fun stopped => Bool.noConfusion stopped, fun _ => ⟨fresh, ?_, rfl, counted⟩⟩
    rw [List.append_nil]
    exact List.Perm.refl _
  | cons c rest ih =>
    rw [PageCall.admitReady]
    split
    · next isReady =>
      rw [List.countP_cons_of_pos isReady]
      split
      · next full =>
          refine ⟨fun _ => ⟨?_, ?_⟩, fun on => Bool.noConfusion on⟩
          · dsimp only
            unfold PageState.placed
            rw [PageState.leave_tail_fresh (s := call.append s c) fresh, PageState.leave_ready,
              PageState.leave_notReady]
            refine ((decided_append call s c).append_right (rest ++ behind)).trans ?_
            rw [List.append_assoc s.decided]
            exact List.perm_middle.symm
          · rw [full_append c counted.room, Bool.not_eq_true'] at full
            refine Bool.eq_false_of_not_eq_true fun fits => ?_
            have earlier := fits_antitone (n := s.ready.length + 1) (by omega) fits
            rw [full] at earlier
            cases earlier
      · next room =>
          have counted := counted.appended (Bool.eq_false_of_not_eq_true room)
          obtain ⟨stops, goes⟩ := @ih (call.append s c) fresh counted
          have moved : ((call.append s c).decided ++ rest).Perm (s.decided ++ c :: rest) :=
            ((decided_append call s c).append_right rest).trans List.perm_middle.symm
          have count : (call.append s c).ready.length + rest.countP ready =
              s.ready.length + (rest.countP ready + 1) := by
            rw [ready_append]
            omega
          rw [count] at stops goes
          refine ⟨fun stopped => ?_, fun on => ?_⟩
          · obtain ⟨placed, full⟩ := stops stopped
            exact ⟨placed.trans (moved.append_right behind), full⟩
          · obtain ⟨tail, placed, later⟩ := goes on
            exact ⟨tail, placed.trans moved, later⟩
    · next notReady =>
      rw [List.countP_cons_of_neg notReady]
      obtain ⟨stops, goes⟩ := @ih (s.notify c) fresh ⟨counted.room, counted.place⟩
      have moved : ((s.notify c).decided ++ rest).Perm (s.decided ++ c :: rest) :=
        ((s.decided_notify c).append_right rest).trans List.perm_middle.symm
      refine ⟨fun stopped => ?_, fun on => ?_⟩
      · obtain ⟨placed, full⟩ := stops stopped
        exact ⟨placed.trans (moved.append_right behind), full⟩
      · obtain ⟨tail, placed, later⟩ := goes on
        exact ⟨tail, placed.trans moved, later⟩

theorem behindOf_split [DecidableEq κ] {done rest : List κ} {c : κ}
    (distinct : (done ++ c :: rest).Nodup) :
    PageCall.behindOf (done ++ c :: rest) c = rest := by
  have apart := List.nodup_append.mp distinct
  have later : c ∉ rest := (List.nodup_cons.mp apart.2.1).1
  have dropped : (done ++ c :: rest).dropWhile (fun j => decide (j ≠ c)) = c :: rest := by
    rw [List.dropWhile_append_of_pos, List.dropWhile_cons_of_neg]
    · simp
    · intro j mem
      simpa using apart.2.2 j mem c (.head _)
  unfold PageCall.behindOf
  rw [dropped, List.filter_cons_of_neg (by simp), List.filter_eq_self]
  intro j mem
  simpa using fun same : j = c => later (same ▸ mem)

def PageCall.singleReady (call : PageCall κ) (c : κ) : Bool := decide (call.single c = .ready)

def PageCall.leftBehind (call : PageCall κ) (behind : List κ) :
    List κ → Nat → List κ → List κ
  | [], _, tail => tail
  | c :: rest, n, tail =>
    if call.singleReady c then
      leftBehind call behind rest (n + 1)
        (if call.fits (n + 1) ∨ rest ++ behind = [] then tail else rest ++ behind)
    else leftBehind call behind rest n tail

theorem leftBehind_append (behind A B : List κ) (n : Nat) (tail : List κ) :
    call.leftBehind behind (A ++ B) n tail =
      call.leftBehind behind B (n + A.countP call.singleReady)
        (call.leftBehind (B ++ behind) A n tail) := by
  induction A generalizing n tail with
  | nil => rfl
  | cons c rest ih =>
    rw [List.cons_append, PageCall.leftBehind, PageCall.leftBehind, ih, ih, List.append_assoc]
    split
    · next isReady => rw [List.countP_cons_of_pos isReady, Nat.add_right_comm, Nat.add_assoc]
    · next notReady => rw [List.countP_cons_of_neg notReady]

theorem leftBehind_suffix {behind work rest tail : List κ} {n : Nat}
    (within : ∀ c ∈ rest, c ∈ work) (fresh : call.fits n = true → tail = [])
    (filled : call.fits n = false → ∃ stale, (∀ c ∈ stale, c ∈ work) ∧ tail = stale ++ behind) :
    (call.fits (n + rest.countP call.singleReady) = true →
        call.leftBehind behind rest n tail = []) ∧
      (call.fits (n + rest.countP call.singleReady) = false →
        ∃ stale, (∀ c ∈ stale, c ∈ work) ∧
          call.leftBehind behind rest n tail = stale ++ behind) := by
  induction rest generalizing n tail with
  | nil => exact ⟨fresh, filled⟩
  | cons c rest ih =>
    have later : ∀ c ∈ rest, c ∈ work := fun j mem => within j (.tail _ mem)
    rw [PageCall.leftBehind]
    split
    · next isReady =>
      rw [List.countP_cons_of_pos isReady, show n + (rest.countP call.singleReady + 1) =
        n + 1 + rest.countP call.singleReady by omega]
      refine ih later (fun fits => ?_) fun full => ?_
      · rw [if_pos (Or.inl fits)]
        exact fresh (fits_antitone (Nat.le_succ n) fits)
      · split
        · next kept =>
          have none : rest ++ behind = [] := kept.resolve_left (by rw [full]; simp)
          cases place : call.fits n with
          | true =>
            refine ⟨[], fun j mem => absurd mem List.not_mem_nil, ?_⟩
            rw [fresh place, (List.append_eq_nil_iff.mp none).2]
            rfl
          | false => exact filled place
        · exact ⟨rest, later, rfl⟩
    · next notReady =>
      rw [List.countP_cons_of_neg notReady]
      exact ih later fresh filled

/-- What is left is what is behind the batch when its last candidate is ready, and when, with
nothing behind, the place ran out with it. -/
def PageCall.EndsReady (call : PageCall κ) (n : Nat) (work behind : List κ) : Prop :=
  (∃ c ∈ work.getLast?, call.single c = .ready) ∧
    (behind ≠ [] ∨ call.fits (n + work.countP call.singleReady - 1) = true)

theorem leftBehind_perm {behind work : List κ} {n : Nat} (place : call.fits n = true)
    (full : call.fits (n + work.countP call.singleReady) = false) :
    (call.leftBehind behind work n []).Perm behind ↔ call.EndsReady n work behind := by
  rcases List.eq_nil_or_concat' work with rfl | ⟨A, d, rfl⟩
  · rw [List.countP_nil, Nat.add_zero, place] at full
    cases full
  · have suffix := @leftBehind_suffix _ call (d :: behind) A A [] n (fun _ mem => mem)
      (fun _ => rfl) (fun spent => by rw [place] at spent; cases spent)
    unfold PageCall.EndsReady
    rw [leftBehind_append, List.getLast?_concat, List.countP_append] at *
    simp only [Option.mem_some_iff, exists_eq_left']
    rw [PageCall.leftBehind, PageCall.leftBehind, List.nil_append, List.singleton_append]
    cases isReady : call.singleReady d with
    | true =>
      have ready : call.single d = .ready := of_decide_eq_true isReady
      rw [List.countP_singleton, if_pos isReady, ← Nat.add_assoc] at full
      rw [if_pos rfl, List.countP_singleton, if_pos isReady, full]
      simp only [ready, true_and, Bool.false_eq_true, false_or]
      by_cases none : behind = []
      · subst none
        rw [if_pos rfl, List.perm_nil]
        simp only [ne_eq, not_true_eq_false, false_or]
        constructor
        · intro empty
          by_contra spent
          obtain ⟨stale, -, tail⟩ := suffix.2 (Bool.eq_false_of_not_eq_true spent)
          rw [empty] at tail
          exact List.append_ne_nil_of_right_ne_nil _ (List.cons_ne_nil _ _) tail.symm
        · exact suffix.1
      · rw [if_neg none]
        simp [none]
    | false =>
      have notReady : call.single d ≠ .ready := of_decide_eq_false isReady
      rw [List.countP_singleton, if_neg (by rw [isReady]; simp), Nat.add_zero] at full
      obtain ⟨stale, -, tail⟩ := suffix.2 full
      rw [if_neg (by simp), tail]
      simp only [notReady, false_and, iff_false]
      intro same
      have length := same.length_eq
      rw [PageCall.leftBehind, List.length_append, List.length_cons] at length
      omega

theorem fallbackLoop_raises [DecidableEq κ] {work behind rest : List κ} {stop : Bool} :
    (call.fallbackLoop work behind rest s stop).2 = none ↔
      ∃ c ∈ rest, call.single c = .unavailable := by
  induction rest generalizing s stop with
  | nil => simp [PageCall.fallbackLoop]
  | cons c rest ih =>
    rw [PageCall.fallbackLoop]
    cases verdict : call.single c with
    | unavailable => simp [verdict]
    | notReady =>
      rw [ih]
      simp [verdict]
    | ready =>
      dsimp only
      split <;> rw [ih] <;> simp [verdict]

structure FellBack [DecidableEq κ] (call : PageCall κ) (behind rest : List κ) (s : PageState κ)
    (stop : Bool) (out : PageState κ × Option Bool) : Prop where
  decided : out.1.decided.Perm (s.decided ++ rest)
  ready : out.1.ready.length = s.ready.length + rest.countP call.singleReady
  room : call.lane = true → out.1.room = call.room - out.1.ready.length
  tail : out.1.tail = call.leftBehind behind rest s.ready.length s.tail
  stop : out.2 = some (stop || (decide (0 < rest.countP call.singleReady) &&
    !call.fits (s.ready.length + rest.countP call.singleReady)))

theorem FellBack.behind_ready [DecidableEq κ] {behind rest : List κ} {c : κ} {stop : Bool}
    {s next : PageState κ} {out : PageState κ × Option Bool} (isReady : call.singleReady c = true)
    (decided : next.decided.Perm (c :: s.decided))
    (count : next.ready.length = s.ready.length + 1)
    (tail : next.tail =
      if call.fits (s.ready.length + 1) ∨ rest ++ behind = [] then s.tail else rest ++ behind)
    (later : FellBack call behind rest next (stop || !call.fits (s.ready.length + 1)) out) :
    FellBack call behind (c :: rest) s stop out := by
  have total : next.ready.length + rest.countP call.singleReady =
      s.ready.length + (c :: rest).countP call.singleReady := by
    rw [count, List.countP_cons_of_pos isReady]
    omega
  refine ⟨?_, later.ready.trans total, later.room, ?_, ?_⟩
  · exact later.decided.trans ((decided.append_right rest).trans List.perm_middle.symm)
  · rw [PageCall.leftBehind, if_pos isReady, later.tail, count, tail]
  · rw [later.stop, total, List.countP_cons_of_pos isReady]
    have positive : decide (0 < rest.countP call.singleReady + 1) = true := by simp
    cases place : call.fits (s.ready.length + 1) with
    | true =>
      cases more : rest.countP call.singleReady with
      | zero => simp [place]
      | succ m => simp
    | false =>
      have full : call.fits (s.ready.length + (rest.countP call.singleReady + 1)) = false := by
        refine Bool.eq_false_of_not_eq_true fun fits => ?_
        have earlier := fits_antitone (n := s.ready.length + 1) (by omega) fits
        rw [place] at earlier
        cases earlier
      simp [full]

theorem fallbackLoop_fellBack [DecidableEq κ] {work behind done rest : List κ} {stop : Bool}
    (split : done ++ rest = work) (distinct : work.Nodup)
    (answered : ∀ c ∈ rest, call.single c ≠ .unavailable)
    (room : call.lane = true → s.room = call.room - s.ready.length) :
    FellBack call behind rest s stop (call.fallbackLoop work behind rest s stop) := by
  induction rest generalizing s stop done with
  | nil =>
    refine ⟨?_, rfl, room, rfl, ?_⟩
    · rw [List.append_nil]
      exact List.Perm.refl _
    · simp [PageCall.fallbackLoop]
  | cons c rest ih =>
    have others : ∀ j ∈ rest, call.single j ≠ .unavailable :=
      fun j mem => answered j (.tail _ mem)
    have split' : (done ++ [c]) ++ rest = work := by
      rw [List.append_assoc, List.singleton_append, split]
    rw [PageCall.fallbackLoop]
    cases verdict : call.single c with
    | unavailable => exact absurd verdict (answered c (.head _))
    | notReady =>
      have notReady : ¬ call.singleReady c = true := by simp [PageCall.singleReady, verdict]
      have later := @ih (s.notify c) (done ++ [c]) stop split' others room
      have moved : ((s.notify c).decided ++ rest).Perm (s.decided ++ c :: rest) :=
        ((s.decided_notify c).append_right rest).trans List.perm_middle.symm
      refine ⟨later.decided.trans moved, ?_, later.room, ?_, ?_⟩
      · rw [List.countP_cons_of_neg notReady]
        exact later.ready
      · rw [PageCall.leftBehind, if_neg notReady]
        exact later.tail
      · rw [List.countP_cons_of_neg notReady]
        exact later.stop
    | ready =>
      have isReady : call.singleReady c = true := by simp [PageCall.singleReady, verdict]
      have behindOf : PageCall.behindOf work c = rest := by
        rw [← split] at distinct ⊢
        exact behindOf_split distinct
      have left := room_append c room
      dsimp only
      split
      · next full =>
        rw [full_append c room] at full
        have later := @ih ((call.append s c).leave (rest ++ behind)) (done ++ [c]) true split'
          others (by rwa [PageState.leave_room, PageState.leave_ready])
        rw [behindOf]
        refine FellBack.behind_ready isReady ?_ ?_ ?_ (by rwa [full, Bool.or_true])
        · rw [PageState.decided_leave]
          exact decided_append call s c
        · rw [PageState.leave_ready, ready_append]
        · rw [PageState.leave_tail]
          rw [Bool.not_eq_true'] at full
          simp only [full, Bool.false_eq_true, false_or]
          rfl
      · next place =>
        rw [full_append c room, Bool.not_eq_true, Bool.not_eq_false'] at place
        refine FellBack.behind_ready isReady (decided_append call s c)
          (ready_append call s c) ?_ ?_
        · rw [if_pos (Or.inl place)]
          rfl
        · rw [place, Bool.not_true, Bool.or_false]
          exact @ih (call.append s c) (done ++ [c]) stop split' others left

def PageCall.CleanBatches (call : PageCall κ) : Nat → Nat → List (List κ) → Prop
  | _, _, [] => True
  | k, n, sub :: later =>
    call.fits n = true →
      let work := sub.filter fun c => !call.cooling c
      if work.isEmpty then CleanBatches call k n later
      else
        match call.batch k with
        | .unavailable => False
        | .ready jids => CleanBatches call (k + 1) (n + work.countP jids) later
        | .failed =>
          (∀ c ∈ work, call.single c ≠ .unavailable) ∧
            (call.fits (n + work.countP call.singleReady) = false →
              call.EndsReady n work later.flatten) ∧
            CleanBatches call (k + 1) (n + work.countP call.singleReady) later

/-- A run that returns has a place for each of `all` and for no other; it returns with one place
for each exactly if `clean`. -/
structure Accounts (all : List κ) (clean : Prop) (out : PageState κ × PageEnd) : Prop where
  members : out.2 ≠ .raises → ∀ c, c ∈ out.1.placed ↔ c ∈ all
  once : out.2 ≠ .raises ∧ out.1.placed.Perm all ↔ clean

theorem Accounts.perm {all all' : List κ} {clean : Prop} {out : PageState κ × PageEnd}
    (accounts : Accounts all clean out) (same : all.Perm all') : Accounts all' clean out where
  members := fun returns c => (accounts.members returns c).trans same.mem_iff
  once := by
    rw [← accounts.once]
    exact and_congr_right fun _ => ⟨fun perm => perm.trans same.symm, fun perm => perm.trans same⟩

theorem Accounts.placed {all : List κ} {clean : Prop} {out : PageState κ × PageEnd}
    (returns : out.2 ≠ .raises) (perm : out.1.placed.Perm all) (holds : clean) :
    Accounts all clean out where
  members := fun _ _ => perm.mem_iff
  once := ⟨fun _ => holds, fun _ => ⟨returns, perm⟩⟩

theorem Accounts.raised {all : List κ} {clean : Prop} {out : PageState κ × PageEnd}
    (raises : out.2 = .raises) (fails : ¬ clean) : Accounts all clean out where
  members := fun returns => absurd raises returns
  once := ⟨fun once => absurd raises once.1, fun holds => absurd holds fails⟩

theorem cleanBatches_full {k n : Nat} {subs : List (List κ)} (full : call.fits n = false) :
    call.CleanBatches k n subs := by
  cases subs with
  | nil => exact True.intro
  | cons sub later =>
    intro fits
    rw [full] at fits
    cases fits

theorem fellBack_stops [DecidableEq κ] {work : List κ} {k : Nat} {later : List (List κ)}
    {out : PageState κ × Option Bool} (fell : FellBack call later.flatten work s false out)
    (fresh : s.tail = []) (place : call.fits s.ready.length = true)
    (full : call.fits (s.ready.length + work.countP call.singleReady) = false) :
    Accounts (s.decided ++ work ++ later.flatten)
      ((call.fits (s.ready.length + work.countP call.singleReady) = false →
        call.EndsReady s.ready.length work later.flatten) ∧
        call.CleanBatches (k + 1) (s.ready.length + work.countP call.singleReady) later)
      (out.1, .stops) := by
  have tail := fell.tail
  rw [fresh] at tail
  have placed : out.1.placed.Perm (s.decided ++ work ++
      call.leftBehind later.flatten work s.ready.length []) := by
    unfold PageState.placed
    rw [tail]
    exact fell.decided.append_right _
  refine ⟨fun _ c => ?_, ?_⟩
  · obtain ⟨stale, within, left⟩ := (@leftBehind_suffix _ call later.flatten work work [] _
      (fun _ mem => mem) (fun _ => rfl) (fun spent => by rw [place] at spent; cases spent)).2 full
    rw [placed.mem_iff, left]
    simp only [List.mem_append]
    tauto
  · rw [← leftBehind_perm place full, placed.congr_left, List.perm_append_left_iff]
    simp [full, cleanBatches_full full]

theorem strictBatches_accounts [DecidableEq κ] {k : Nat} {subs : List (List κ)}
    (fresh : s.tail = []) (counted : Counted call s) (distinct : ∀ sub ∈ subs, sub.Nodup) :
    Accounts (s.decided ++ subs.flatten) (call.CleanBatches k s.ready.length subs)
      (call.strictBatches k subs s) := by
  induction subs generalizing s k with
  | nil =>
    refine Accounts.placed PageEnd.noConfusion ?_ True.intro
    dsimp only [PageCall.strictBatches]
    unfold PageState.placed
    rw [fresh]
    exact List.Perm.refl _
  | cons sub later ih =>
    have others : ∀ sub ∈ later, sub.Nodup := fun l mem => distinct l (.tail _ mem)
    rw [PageCall.strictBatches, PageCall.CleanBatches, queueFull_eq]
    cases full : !call.lane && !call.fits s.ready.length with
    | true =>
      simp only [Bool.and_eq_true, Bool.not_eq_true'] at full
      refine Accounts.placed PageEnd.noConfusion (List.Perm.refl _) fun fits => ?_
      rw [full.2] at fits
      cases fits
    | false =>
      have place : call.fits s.ready.length = true := by
        cases lane : call.lane with
        | true => exact counted.place lane
        | false => simpa [lane] using full
      rw [if_neg Bool.false_ne_true, forall_prop_of_true place, List.flatten_cons]
      dsimp only
      have cooled : (s.notifyAll (sub.filter call.cooling)).decided =
          s.decided ++ sub.filter call.cooling := s.decided_notifyAll _
      have waiting := (distinct sub (.head _)).filter fun c => !call.cooling c
      have shared : ((sub.filter call.cooling) ++ sub.filter fun c => !call.cooling c).Perm
          sub := List.filter_append_perm call.cooling sub
      generalize sub.filter (fun c => !call.cooling c) = work at waiting shared
      generalize noticed : s.notifyAll (sub.filter call.cooling) = s' at cooled
      have fresh' : s'.tail = [] := by rw [← noticed]; exact fresh
      have length : s'.ready.length = s.ready.length := by rw [← noticed]; rfl
      have counted' : Counted call s' := by
        rw [← noticed]
        exact ⟨counted.room, counted.place⟩
      have batch : (s'.decided ++ work).Perm (s.decided ++ sub) := by
        rw [cooled, List.append_assoc]
        exact shared.append_left _
      have whole : (s'.decided ++ work ++ later.flatten).Perm
          (s.decided ++ (sub ++ later.flatten)) := by
        rw [← List.append_assoc]
        exact batch.append_right _
      rw [← length] at place ⊢
      refine Accounts.perm ?_ whole
      cases idle : work.isEmpty with
      | true =>
        rw [if_pos rfl, if_pos rfl, List.isEmpty_iff.mp idle, List.append_nil]
        exact ih fresh' counted' others
      | false =>
        cases verdict : call.batch k with
        | unavailable => exact Accounts.raised rfl id
        | ready jids =>
          obtain ⟨stops, goes⟩ := @admitReady_places _ call s' jids later.flatten work
            fresh' counted'
          dsimp only
          generalize call.admitReady jids later.flatten work s' = out at stops goes ⊢
          obtain ⟨t, stop⟩ := out
          cases stop with
          | true =>
            obtain ⟨placed, spent⟩ := stops rfl
            exact Accounts.placed PageEnd.noConfusion placed (cleanBatches_full spent)
          | false =>
            obtain ⟨tail, decided, admitted, counted⟩ := goes rfl
            rw [← admitted]
            exact (ih tail counted others).perm (decided.append_right _)
        | failed =>
          by_cases answered : ∀ c ∈ work, call.single c ≠ .unavailable
          · rw [and_iff_right answered]
            have fell : FellBack call later.flatten work s' false
                (call.fallbackLoop work later.flatten work s' false) :=
              fallbackLoop_fellBack (List.nil_append work) waiting answered counted'.room
            generalize call.fallbackLoop work later.flatten work s' false = out at fell ⊢
            obtain ⟨t, stop⟩ := out
            have stopped : stop = _ := fell.stop
            subst stopped
            cases spent : call.fits (s'.ready.length + work.countP call.singleReady) with
            | false =>
              have some : 0 < work.countP call.singleReady := by
                refine Nat.pos_of_ne_zero fun zero => ?_
                rw [zero, Nat.add_zero, place] at spent
                cases spent
              rw [decide_eq_true some]
              have stops := fellBack_stops (k := k) fell fresh' place spent
              rwa [spent] at stops
            | true =>
              rw [Bool.not_true, Bool.and_false, Bool.or_false,
                and_iff_right (fun spent => Bool.noConfusion spent), ← fell.ready]
              have tail : t.tail = [] := by
                rw [fell.tail, fresh']
                exact (leftBehind_suffix (fun _ mem => mem) (fun _ => rfl)
                  (fun full => by rw [place] at full; cases full)).1 spent
              have counted : Counted call t :=
                ⟨fell.room, fun _ => by rw [fell.ready]; exact spent⟩
              exact (ih tail counted others).perm (fell.decided.append_right _)
          · have raised : (call.fallbackLoop work later.flatten work s' false).2 = none := by
              rw [fallbackLoop_raises]
              push Not at answered
              exact answered
            generalize call.fallbackLoop work later.flatten work s' false = out at raised ⊢
            obtain ⟨t, stop⟩ := out
            obtain rfl : stop = none := raised
            exact Accounts.raised rfl fun clean => answered clean.1

end Loops

section Page

variable {κ : Type*} [DecidableEq κ] {call : PageCall κ} {page : List κ}

/-- Each candidate of the page is put in one place, once: admitted, notified as not ready, behind
its failure backoff, or left. -/
structure PageResult.PutsEachOnce (result : PageResult κ) (page : List κ) : Prop where
  returns : result.finish ≠ .raises
  once : (result.state.ready ++ result.state.notReady ++ result.state.tail ++
    result.backedOff).Perm page

def PageCall.Steady (call : PageCall κ) (page : List κ) : Prop :=
  page.filter call.backoff ≠ [] → ∀ c ∈ page, call.backoffAgain c = call.backoff c

def PageCall.unknownBatches (call : PageCall κ) (page : List κ) : List (List κ) :=
  slices call.batchSize.toNat
    ((call.splitFinal (call.orderedPage page)).2.filter fun c => !call.rejected c)

def PageCall.CleanPage (call : PageCall κ) (page : List κ) : Prop :=
  call.lane = true ∧ call.room ≤ 0 ∨
    call.Steady page ∧
      call.CleanBatches 0 (call.splitFinal (call.orderedPage page)).1.length
        (call.unknownBatches page)

omit [DecidableEq κ] in
theorem splitFinal_perm (ordered : List κ) :
    ((call.splitFinal ordered).1 ++ (call.splitFinal ordered).2).Perm ordered := by
  unfold PageCall.splitFinal
  split
  · exact List.filter_append_perm call.quiesced ordered
  · exact List.Perm.refl _

omit [DecidableEq κ] in
theorem orderedPage_nodup (distinct : page.Nodup) : (call.orderedPage page).Nodup := by
  unfold PageCall.orderedPage
  split
  · exact distinct
  · exact distinct.filter _

omit [DecidableEq κ] in
theorem steady_iff (distinct : page.Nodup) :
    (call.orderedPage page ++ page.filter call.backoff).Perm page ↔ call.Steady page := by
  unfold PageCall.orderedPage PageCall.Steady
  by_cases none : page.filter call.backoff = []
  · simp [none]
  · rw [if_neg (by rwa [List.isEmpty_iff])]
    constructor
    · intro perm _ c mem
      have apart := List.nodup_append.mp (perm.nodup_iff.mpr distinct)
      have there := perm.mem_iff.mpr mem
      simp only [List.mem_append, List.mem_filter, mem, true_and, Bool.not_eq_true'] at there
      cases first : call.backoff c with
      | false => simpa [first] using there
      | true =>
        by_contra second
        have again : call.backoffAgain c = false := Bool.eq_false_of_not_eq_true second
        exact apart.2.2 c (List.mem_filter.mpr ⟨mem, by rw [again]; rfl⟩) c
          (List.mem_filter.mpr ⟨mem, first⟩) rfl
    · intro agree
      have same : page.filter (fun c => !call.backoffAgain c) =
          page.filter fun c => !call.backoff c :=
        List.filter_congr fun c mem => by rw [agree none c mem]
      rw [same]
      exact List.perm_append_comm.trans (List.filter_append_perm call.backoff page)

theorem strictPart_accounts {ordered : List κ} {s : PageState κ} (fresh : s.tail = [])
    (counted : Counted call s) (distinct : ordered.Nodup) :
    Accounts (s.decided ++ ordered)
      (call.CleanBatches 0 s.ready.length
        (slices call.batchSize.toNat (ordered.filter fun c => !call.rejected c)))
      (call.strictPart ordered s) := by
  have flat := slices_flatten call.batchSize.toNat (ordered.filter fun c => !call.rejected c)
  have subs := (List.nodup_flatten.mp (flat.symm ▸ distinct.filter _)).1
  have accounts := @strictBatches_accounts _ call (s.notifyAll (ordered.filter call.rejected)) _ 0
    _ fresh ⟨counted.room, counted.place⟩ subs
  refine accounts.perm ?_
  rw [PageState.decided_notifyAll, flat, List.append_assoc]
  exact (List.filter_append_perm call.rejected ordered).append_left _

theorem page_accounts (distinct : page.Nodup) (admitted : ¬ (call.lane = true ∧ call.room ≤ 0)) :
    (call.processPkChunkInner page).backedOff = page.filter call.backoff ∧
      Accounts (call.orderedPage page)
        (call.CleanBatches 0 (call.splitFinal (call.orderedPage page)).1.length
          (call.unknownBatches page))
        ((call.processPkChunkInner page).state, (call.processPkChunkInner page).finish) := by
  have split := @splitFinal_perm _ call (call.orderedPage page)
  have apart := List.nodup_append.mp (split.nodup_iff.mpr (orderedPage_nodup distinct))
  unfold PageCall.processPkChunkInner PageCall.unknownBatches
  rw [if_neg admitted]
  generalize call.splitFinal (call.orderedPage page) = parts at split apart ⊢
  obtain ⟨final, ordered⟩ := parts
  dsimp only at split apart ⊢
  have counted : Counted call ⟨call.room, [], [], []⟩ := by
    refine ⟨fun _ => by simp, fun lane => ?_⟩
    have room : ¬ call.room ≤ 0 := fun le => admitted ⟨lane, le⟩
    unfold PageCall.fits
    rw [if_pos lane]
    exact decide_eq_true (not_le.mp room)
  obtain ⟨stops, goes⟩ := @admitReady_places _ call ⟨call.room, [], [], []⟩ (fun _ => true) ordered
    final rfl counted
  rw [List.countP_true, List.length_nil, Nat.zero_add] at stops goes
  unfold PageCall.admitFinal
  generalize call.admitReady (fun _ => true) ordered final ⟨call.room, [], [], []⟩ = out at stops goes ⊢
  obtain ⟨t, stop⟩ := out
  cases stop with
  | true =>
    obtain ⟨placed, spent⟩ := stops rfl
    exact ⟨rfl, Accounts.placed PageEnd.noConfusion (placed.trans split) (cleanBatches_full spent)⟩
  | false =>
    obtain ⟨tail, decided, length, counted⟩ := goes rfl
    refine ⟨rfl, ?_⟩
    rw [← length]
    exact (strictPart_accounts tail counted apart.2.1).perm ((decided.append_right _).trans split)

/-- Each candidate of a page is put in one place exactly if the database is available, both backoff
lookups agree, and a batch that fills the room ends with a ready one. -/
theorem puts_each_once_iff (call : PageCall κ) (page : List κ) (distinct : page.Nodup) :
    (call.processPkChunkInner page).PutsEachOnce page ↔ call.CleanPage page := by
  by_cases turned : call.lane = true ∧ call.room ≤ 0
  · refine ⟨fun _ => Or.inl turned, fun _ => ?_⟩
    unfold PageCall.processPkChunkInner
    rw [if_pos turned]
    refine ⟨PageEnd.noConfusion, ?_⟩
    rw [List.append_nil]
    exact List.Perm.refl _
  · obtain ⟨backedOff, accounts⟩ := page_accounts distinct turned
    have clean : call.CleanPage page ↔ call.Steady page ∧
        call.CleanBatches 0 (call.splitFinal (call.orderedPage page)).1.length
          (call.unknownBatches page) := or_iff_right turned
    rw [clean, ← accounts.once, ← steady_iff distinct]
    constructor
    · rintro ⟨returns, once⟩
      rw [backedOff] at once
      have placed : (call.processPkChunkInner page).state.placed.Perm (call.orderedPage page) := by
        refine (List.perm_ext_iff_of_nodup ?_ (orderedPage_nodup distinct)).mpr
          (accounts.members returns)
        exact (List.nodup_append.mp (once.nodup_iff.mpr distinct)).1
      exact ⟨(placed.append_right _).symm.trans once, returns, placed⟩
    · rintro ⟨steady, returns, placed⟩
      refine ⟨returns, ?_⟩
      rw [backedOff]
      exact (placed.append_right _).trans steady

end Page

/-- Two candidates of the fresh lane whose batched check fails: the first is ready, the second is
not unless told. -/
def failedBatch (prefetchChunks : Int) (second : SingleCheck) : PageCall Nat where
  lane := false
  room := 0
  prefetchChunks := prefetchChunks
  queued := 0
  backoff := fun _ => false
  backoffAgain := fun _ => false
  quiesced := fun _ => false
  rejected := fun _ => false
  batchSize := 64
  cooling := fun _ => false
  batch := fun _ => .failed
  single := fun jid => if jid = 1 then .ready else second

theorem failed_batch_puts_each_once :
    ((failedBatch 2 .ready).processPkChunkInner [1, 2]).PutsEachOnce [1, 2] := by
  refine (puts_each_once_iff (failedBatch 2 .ready) [1, 2] (by decide)).mpr (Or.inr ⟨?_, ?_⟩)
  · intro some
    exact absurd rfl some
  · intro _
    refine ⟨by decide, fun _ => ⟨?_, Or.inr (by decide)⟩, True.intro⟩
    exact ⟨2, rfl, rfl⟩

/-- The first candidate fills the queue, so the second is left in the tail; the loop goes on and
finds it not ready. -/
theorem decided_and_left :
    ((failedBatch 1 .notReady).processPkChunkInner [1, 2]).state.notReady = [2] ∧
      ((failedBatch 1 .notReady).processPkChunkInner [1, 2]).state.tail = [2] ∧
      ¬ ((failedBatch 1 .notReady).processPkChunkInner [1, 2]).PutsEachOnce [1, 2] := by
  refine ⟨by decide, by decide, fun puts => ?_⟩
  exact absurd puts.once.length_eq (by decide)

end PerfStats.Metrics
