import PerfStats.Lib.Runs

namespace PerfStats.Listend

open Lib

section Model

structure Queued where
  fd : Nat
  size : Nat
  deriving DecidableEq, Repr

/-- Where a call of `submit` stands, behind its tests of the pool, the host and the range. -/
inductive SubmitCall where
  | passed (size : Nat)
  | opened (item : Queued)
  | checked (item : Queued)
  | put (item : Queued)
  | closing (item : Queued)
  deriving DecidableEq, Repr

/-- Where `_worker_main` stands. -/
inductive ShardWorker where
  | gone
  | top
  | waiting
  | took (item : Queued)
  | holding (item : Queued)
  | leaving
  deriving DecidableEq, Repr

/-- The queue of a shard with its `byte_count` and `byte_lock`; a sentinel is a `none`. No step
reads what is closed, taken or dropped. -/
structure Shard where
  maxsize : Nat
  budget : Nat
  stop : Bool
  count : ℤ
  locked : Bool
  queue : List (Option Queued)
  worker : ShardWorker
  calls : List SubmitCall
  nextFd : Nat
  closed : List Nat
  dropped : List Queued
  deriving DecidableEq, Repr

def Shard.start (maxsize budget : Nat) : Shard :=
  ⟨maxsize, budget, false, 0, false, [], .top, [], 0, [], []⟩

inductive ShardEvent where
  | call (size : Nat)
  | openFails
  | open_
  | over_
  | check
  | full
  | put
  | count
  | close
  | wait
  | get (item : Option Queued)
  | empty
  | die
  | subtract
  | finish
  | crash
  | leave
  | exit
  | respawn
  | stop
  | sentinel
  | drain (item : Option Queued)
  deriving DecidableEq, Repr

inductive ShardStep : Shard → ShardEvent → Shard → Prop where
  | call {s size} (up : s.stop = false) :
      ShardStep s (.call size) { s with calls := s.calls ++ [.passed size] }
  | openFails {s size before after} (at_ : s.calls = before ++ .passed size :: after) :
      ShardStep s .openFails { s with calls := before ++ after }
  | open_ {s size before after} (at_ : s.calls = before ++ .passed size :: after) :
      ShardStep s .open_
        { s with calls := before ++ .opened ⟨s.nextFd, size⟩ :: after, nextFd := s.nextFd + 1 }
  | over_ {s item before after} (at_ : s.calls = before ++ .opened item :: after)
      (free : s.locked = false) (beyond : (s.budget : ℤ) < s.count + item.size) :
      ShardStep s .over_ { s with calls := before ++ .closing item :: after }
  | check {s item before after} (at_ : s.calls = before ++ .opened item :: after)
      (free : s.locked = false) (within : s.count + (item.size : ℤ) ≤ s.budget) :
      ShardStep s .check { s with calls := before ++ .checked item :: after, locked := true }
  | full {s item before after} (at_ : s.calls = before ++ .checked item :: after)
      (filled : s.maxsize ≤ s.queue.length) :
      ShardStep s .full { s with calls := before ++ .closing item :: after, locked := false }
  | put {s item before after} (at_ : s.calls = before ++ .checked item :: after)
      (room : s.queue.length < s.maxsize) :
      ShardStep s .put
        { s with calls := before ++ .put item :: after, queue := s.queue ++ [some item] }
  | count {s item before after} (at_ : s.calls = before ++ .put item :: after) :
      ShardStep s .count
        { s with calls := before ++ after, count := s.count + item.size, locked := false }
  | close {s item before after} (at_ : s.calls = before ++ .closing item :: after) :
      ShardStep s .close { s with calls := before ++ after, closed := item.fd :: s.closed }
  | wait {s} (top : s.worker = .top) (up : s.stop = false) :
      ShardStep s .wait { s with worker := .waiting }
  | get {s item rest} (waits : s.worker = .waiting) (head : s.queue = some item :: rest) :
      ShardStep s (.get (some item)) { s with worker := .took item, queue := rest }
  | getSentinel {s rest} (waits : s.worker = .waiting) (head : s.queue = none :: rest) :
      ShardStep s (.get none) { s with worker := .leaving, queue := rest }
  | empty {s} (waits : s.worker = .waiting) (none_left : s.queue = []) :
      ShardStep s .empty { s with worker := .top }
  -- an exception of the flush that stands before the item is unpacked
  | die {s item} (held : s.worker = .took item) :
      ShardStep s .die { s with worker := .gone, dropped := item :: s.dropped }
  | subtract {s item} (held : s.worker = .took item) (free : s.locked = false) :
      ShardStep s .subtract
        { s with worker := .holding item, count := max 0 (s.count - item.size) }
  | finish {s item} (held : s.worker = .holding item) :
      ShardStep s .finish { s with worker := .top, closed := item.fd :: s.closed }
  | crash {s item} (held : s.worker = .holding item) :
      ShardStep s .crash { s with worker := .gone, closed := item.fd :: s.closed }
  | leave {s} (top : s.worker = .top) (down : s.stop = true) :
      ShardStep s .leave { s with worker := .leaving }
  | exit {s} (left : s.worker = .leaving) : ShardStep s .exit { s with worker := .gone }
  -- `ensure_workers_alive`, which may have read the stop flag before it was set
  | respawn {s} (dead : s.worker = .gone) : ShardStep s .respawn { s with worker := .top }
  | stop {s} : ShardStep s .stop { s with stop := true }
  | sentinel {s} (down : s.stop = true) (room : s.queue.length < s.maxsize) :
      ShardStep s .sentinel { s with queue := s.queue ++ [none] }
  | drain {s item rest} (down : s.stop = true) (head : s.queue = item :: rest) :
      ShardStep s (.drain item) { s with queue := rest, dropped := item.toList ++ s.dropped }

end Model

section Properties

variable {s t : Shard} {event : ShardEvent}

def inSlot (measure : Queued → Nat) : Option Queued → Nat
  | some item => measure item
  | none => 0

def Queued.has (fd : Nat) (item : Queued) : Nat := if item.fd = fd then 1 else 0

def SubmitCall.has (fd : Nat) : SubmitCall → Nat
  | .opened item | .checked item | .closing item => item.has fd
  | .passed _ | .put _ => 0

def SubmitCall.uncounted : SubmitCall → Nat
  | .put item => item.size
  | _ => 0

def SubmitCall.granted : SubmitCall → Nat
  | .checked item | .put item => item.size
  | _ => 0

def SubmitCall.locks : SubmitCall → Nat
  | .checked _ | .put _ => 1
  | _ => 0

def ShardWorker.has (fd : Nat) : ShardWorker → Nat
  | .took item | .holding item => item.has fd
  | _ => 0

def ShardWorker.taken : ShardWorker → Nat
  | .took item => item.size
  | _ => 0

namespace Shard

def overCalls (s : Shard) (measure : SubmitCall → Nat) : Nat := (s.calls.map measure).sum

def queuedBytes (s : Shard) : Nat := (s.queue.map (inSlot Queued.size)).sum

def takenBytes (s : Shard) : Nat := s.worker.taken + (s.dropped.map Queued.size).sum

def closings (s : Shard) (fd : Nat) : Nat := s.closed.count fd

def inHand (s : Shard) (fd : Nat) : Nat :=
  s.overCalls (SubmitCall.has fd) + (s.queue.map (inSlot (Queued.has fd))).sum +
    s.worker.has fd

def leaked (s : Shard) (fd : Nat) : Nat := (s.dropped.map (Queued.has fd)).sum

end Shard

structure Accounted (s : Shard) : Prop where
  holders : s.overCalls SubmitCall.locks = if s.locked then 1 else 0
  bytes : s.count + s.overCalls SubmitCall.uncounted = s.queuedBytes + s.takenBytes
  budget : s.count + s.overCalls SubmitCall.granted ≤ s.budget
  owned : ∀ fd, s.closings fd + s.inHand fd + s.leaked fd = if fd < s.nextFd then 1 else 0

theorem accounted_start (maxsize budget : Nat) : Accounted (.start maxsize budget) :=
  ⟨rfl, rfl, Int.natCast_nonneg budget, fun _ => rfl⟩

theorem unlocked_sums {calls : List SubmitCall} (free : (calls.map SubmitCall.locks).sum = 0) :
    (calls.map SubmitCall.uncounted).sum = 0 ∧ (calls.map SubmitCall.granted).sum = 0 := by
  induction calls with
  | nil => exact ⟨rfl, rfl⟩
  | cons head tail ih =>
    rw [List.map_cons, List.sum_cons] at free
    obtain ⟨uncounted, granted⟩ := ih (by omega)
    rw [List.map_cons, List.sum_cons, uncounted, List.map_cons, List.sum_cons, granted]
    cases head with
    | checked item => exact absurd free (by dsimp only [SubmitCall.locks]; omega)
    | put item => exact absurd free (by dsimp only [SubmitCall.locks]; omega)
    | _ => exact ⟨rfl, rfl⟩

theorem overCalls_of {before after : List SubmitCall} {call : SubmitCall}
    (at_ : s.calls = before ++ call :: after) (measure : SubmitCall → Nat) :
    s.overCalls measure = measure call + ((before ++ after).map measure).sum := by
  unfold Shard.overCalls
  rw [at_, List.map_append, List.sum_append, List.map_cons, List.sum_cons, List.map_append,
    List.sum_append]
  omega

namespace Accounted

variable (known : Accounted s)
include known

theorem unlocked (free : s.locked = false) :
    s.overCalls SubmitCall.uncounted = 0 ∧ s.overCalls SubmitCall.granted = 0 := by
  apply unlocked_sums
  have holders := known.holders
  rw [free] at holders
  exact holders

theorem counted (free : s.locked = false) : s.count = s.queuedBytes + s.takenBytes := by
  have bytes := known.bytes
  rw [(known.unlocked free).1] at bytes
  simpa using bytes

theorem within : s.count ≤ s.budget := by
  have budget := known.budget
  omega

theorem unclamped {item : Queued} (held : s.worker = .took item) (free : s.locked = false) :
    (item.size : ℤ) ≤ s.count := by
  rw [known.counted free]
  unfold Shard.takenBytes
  rw [held]
  dsimp only [ShardWorker.taken]
  omega

theorem of_call {before after : List SubmitCall} {call : SubmitCall}
    (at_ : s.calls = before ++ call :: after) (replaced : List SubmitCall) (locked : Bool)
    (nextFd : Nat) (closed : List Nat)
    (locks : (replaced.map SubmitCall.locks).sum + (if s.locked then 1 else 0) =
      call.locks + if locked then 1 else 0)
    (uncounted : (replaced.map SubmitCall.uncounted).sum = call.uncounted)
    (granted : (replaced.map SubmitCall.granted).sum ≤ call.granted)
    (owned : ∀ fd, closed.count fd + (replaced.map (SubmitCall.has fd)).sum +
      (if fd < s.nextFd then 1 else 0) =
        s.closed.count fd + call.has fd + if fd < nextFd then 1 else 0) :
    Accounted { s with
      calls := before ++ (replaced ++ after), locked := locked, nextFd := nextFd
      closed := closed } := by
  have mine := overCalls_of at_
  have changed : ∀ measure : SubmitCall → Nat, ((before ++ (replaced ++ after)).map measure).sum =
      (replaced.map measure).sum + ((before ++ after).map measure).sum := by
    simp only [List.map_append, List.sum_append]
    omega
  refine ⟨?_, ?_, ?_, fun fd => ?_⟩
  · have holders := known.holders
    rw [mine] at holders
    rw [Shard.overCalls, changed]
    dsimp only
    omega
  · have bytes := known.bytes
    rw [mine] at bytes
    rw [Shard.overCalls, changed, uncounted]
    exact bytes
  · have budget := known.budget
    rw [mine] at budget
    rw [Shard.overCalls, changed]
    dsimp only
    omega
  · have before_ := known.owned fd
    have this := owned fd
    unfold Shard.closings Shard.inHand Shard.leaked at before_ ⊢
    rw [mine] at before_
    rw [Shard.overCalls, changed]
    dsimp only
    omega

theorem of_moved (stop : Bool) (worker : ShardWorker) (queue : List (Option Queued))
    (closed : List Nat) (dropped : List Queued)
    (bytes : (queue.map (inSlot Queued.size)).sum + worker.taken +
      (dropped.map Queued.size).sum = s.queuedBytes + s.worker.taken +
        (s.dropped.map Queued.size).sum)
    (owned : ∀ fd, closed.count fd + (queue.map (inSlot (Queued.has fd))).sum +
      worker.has fd + (dropped.map (Queued.has fd)).sum =
        s.closed.count fd + (s.queue.map (inSlot (Queued.has fd))).sum +
          s.worker.has fd + (s.dropped.map (Queued.has fd)).sum) :
    Accounted { s with
      stop := stop, worker := worker, queue := queue, closed := closed, dropped := dropped } := by
  refine ⟨known.holders, ?_, known.budget, fun fd => ?_⟩
  · have before := known.bytes
    dsimp only [Shard.overCalls, Shard.queuedBytes, Shard.takenBytes] at before bytes ⊢
    omega
  · have before := known.owned fd
    have moved := owned fd
    dsimp only [Shard.overCalls, Shard.inHand, Shard.closings, Shard.leaked] at before ⊢
    omega

theorem of_taken {slot : Option Queued} {rest : List (Option Queued)} {worker : ShardWorker}
    (waits : s.worker = .waiting) (head : s.queue = slot :: rest)
    (bytes : worker.taken = inSlot Queued.size slot)
    (owned : ∀ fd, worker.has fd = inSlot (Queued.has fd) slot) :
    Accounted { s with worker := worker, queue := rest } := by
  refine known.of_moved _ _ _ _ _ ?_ fun fd => ?_
  · rw [waits, Shard.queuedBytes, head, List.map_cons, List.sum_cons, bytes]
    dsimp only [ShardWorker.taken]
    omega
  · rw [waits, head, List.map_cons, List.sum_cons, owned fd]
    dsimp only [ShardWorker.has]
    omega

theorem of_closed {item : Queued} {worker : ShardWorker} (held : s.worker = .holding item)
    (bytes : worker.taken = 0) (owned : ∀ fd, worker.has fd = 0) :
    Accounted { s with worker := worker, closed := item.fd :: s.closed } := by
  refine known.of_moved _ _ _ _ _ (by rw [held, bytes]; rfl) fun fd => ?_
  rw [held, owned fd]
  simp only [List.count_cons, ShardWorker.has, Queued.has, beq_iff_eq]
  omega

end Accounted

theorem accounted_enter (known : Accounted s) (size : Nat) :
    Accounted { s with calls := s.calls ++ [.passed size] } := by
  have same : ∀ measure : SubmitCall → Nat, measure (.passed size) = 0 →
      ((s.calls ++ [SubmitCall.passed size]).map measure).sum = s.overCalls measure := by
    intro measure nothing
    rw [List.map_append, List.sum_append, List.map_cons, List.map_nil, List.sum_cons,
      List.sum_nil, nothing, Nat.add_zero, Nat.add_zero]
    rfl
  refine ⟨?_, ?_, ?_, fun fd => ?_⟩
  · rw [Shard.overCalls, same SubmitCall.locks rfl]
    exact known.holders
  · rw [Shard.overCalls, same SubmitCall.uncounted rfl]
    exact known.bytes
  · rw [Shard.overCalls, same SubmitCall.granted rfl]
    exact known.budget
  · rw [Shard.inHand, Shard.overCalls, same (SubmitCall.has fd) rfl]
    exact known.owned fd

variable {item : Queued} {before after : List SubmitCall}

theorem accounted_check (known : Accounted s)
    (at_ : s.calls = before ++ .opened item :: after) (free : s.locked = false)
    (within : s.count + (item.size : ℤ) ≤ s.budget) :
    Accounted { s with calls := before ++ .checked item :: after, locked := true } := by
  have mine := overCalls_of at_
  have theirs := @overCalls_of { s with calls := before ++ .checked item :: after, locked := true }
    before after (.checked item) rfl
  refine ⟨?_, ?_, ?_, fun fd => ?_⟩
  · have holders := known.holders
    rw [mine, free] at holders
    rw [theirs, if_pos rfl]
    rw [if_neg Bool.false_ne_true] at holders
    dsimp only [SubmitCall.locks] at holders ⊢
    omega
  · have bytes := known.bytes
    rw [mine] at bytes
    rw [theirs]
    exact bytes
  · have granted := (known.unlocked free).2
    rw [mine] at granted
    rw [theirs]
    dsimp only [SubmitCall.granted] at granted ⊢
    omega
  · have owned := known.owned fd
    unfold Shard.inHand at owned ⊢
    rw [mine] at owned
    rw [theirs]
    exact owned

theorem queue_put (queue : List (Option Queued)) (item : Option Queued)
    (measure : Option Queued → Nat) :
    ((queue ++ [item]).map measure).sum = (queue.map measure).sum + measure item := by
  rw [List.map_append, List.sum_append, List.map_cons, List.map_nil, List.sum_cons, List.sum_nil,
    Nat.add_zero]

theorem accounted_put (known : Accounted s) (at_ : s.calls = before ++ .checked item :: after) :
    Accounted { s with
      calls := before ++ .put item :: after, queue := s.queue ++ [some item] } := by
  have mine := overCalls_of at_
  have theirs := @overCalls_of { s with
    calls := before ++ .put item :: after, queue := s.queue ++ [some item] }
    before after (.put item) rfl
  refine ⟨?_, ?_, ?_, fun fd => ?_⟩
  · have holders := known.holders
    rw [mine] at holders
    rw [theirs]
    exact holders
  · have bytes := known.bytes
    rw [mine] at bytes
    rw [theirs]
    unfold Shard.queuedBytes at bytes ⊢
    dsimp only [SubmitCall.uncounted, Shard.takenBytes] at bytes ⊢
    rw [queue_put]
    dsimp only [inSlot]
    omega
  · have budget := known.budget
    rw [mine] at budget
    rw [theirs]
    exact budget
  · have owned := known.owned fd
    unfold Shard.inHand at owned ⊢
    rw [mine] at owned
    rw [theirs]
    dsimp only [SubmitCall.has, Shard.closings, Shard.leaked] at owned ⊢
    rw [queue_put]
    dsimp only [inSlot]
    omega

theorem accounted_count (known : Accounted s) (at_ : s.calls = before ++ .put item :: after) :
    Accounted { s with
      calls := before ++ after, count := s.count + item.size, locked := false } := by
  have mine := overCalls_of at_
  have holders := known.holders
  have alone : s.locked = true ∧ ((before ++ after).map SubmitCall.locks).sum = 0 := by
    rw [mine] at holders
    dsimp only [SubmitCall.locks] at holders
    split at holders
    · next locked => exact ⟨locked, by omega⟩
    · omega
  refine ⟨alone.2, ?_, ?_, fun fd => ?_⟩
  · have bytes := known.bytes
    rw [mine] at bytes
    dsimp only [Shard.overCalls, SubmitCall.uncounted, Shard.queuedBytes, Shard.takenBytes]
      at bytes ⊢
    omega
  · have budget := known.budget
    rw [mine] at budget
    dsimp only [Shard.overCalls, SubmitCall.granted] at budget ⊢
    omega
  · have owned := known.owned fd
    unfold Shard.inHand at owned ⊢
    rw [mine] at owned
    dsimp only [SubmitCall.has, Shard.closings, Shard.leaked, Shard.overCalls] at owned ⊢
    omega

theorem accounted_subtract (known : Accounted s)
    (held : s.worker = .took item) (free : s.locked = false) :
    Accounted { s with worker := .holding item, count := max 0 (s.count - item.size) } := by
  have enough : max 0 (s.count - item.size) = s.count - item.size :=
    max_eq_right (Int.sub_nonneg_of_le (known.unclamped held free))
  refine ⟨known.holders, ?_, ?_, fun fd => ?_⟩
  · have bytes := known.bytes
    unfold Shard.takenBytes at bytes ⊢
    rw [held] at bytes
    dsimp only [Shard.overCalls, Shard.queuedBytes, ShardWorker.taken] at bytes ⊢
    omega
  · have budget := known.budget
    dsimp only [Shard.overCalls] at budget ⊢
    omega
  · have owned := known.owned fd
    unfold Shard.inHand at owned ⊢
    rw [held] at owned
    exact owned

theorem shardStep_accounted (step : ShardStep s event t) (known : Accounted s) :
    Accounted t := by
  cases step with
  | @call size up => exact accounted_enter known size
  | openFails at_ => exact known.of_call at_ [] _ _ _ rfl rfl le_rfl fun fd => rfl
  | @open_ size before after at_ =>
    refine known.of_call at_ [.opened ⟨s.nextFd, size⟩] _ _ _ rfl rfl le_rfl fun fd => ?_
    simp only [List.map_singleton, List.sum_singleton, SubmitCall.has, Queued.has]
    split <;> split <;> split <;> omega
  | over_ at_ free beyond => exact known.of_call at_ [.closing _] _ _ _ rfl rfl le_rfl fun fd => rfl
  | check at_ free within => exact accounted_check known at_ free within
  | @full item before after at_ filled =>
    have locked : s.locked = true := by
      have holders := known.holders
      rw [overCalls_of at_] at holders
      dsimp only [SubmitCall.locks] at holders
      split at holders
      · next locked => exact locked
      · omega
    refine known.of_call at_ [.closing item] _ _ _ ?_ rfl (Nat.zero_le _) fun fd => rfl
    rw [locked]
    rfl
  | put at_ room => exact accounted_put known at_
  | count at_ => exact accounted_count known at_
  | @close item before after at_ =>
    refine known.of_call at_ [] _ _ _ rfl rfl le_rfl fun fd => ?_
    simp only [List.map_nil, List.sum_nil, List.count_cons, SubmitCall.has, Queued.has,
      beq_iff_eq]
    omega
  | wait top up => exact known.of_moved _ _ _ _ _ (by rw [top]; rfl) fun fd => by rw [top]; rfl
  | get waits head => exact known.of_taken waits head rfl fun _ => rfl
  | getSentinel waits head => exact known.of_taken waits head rfl fun _ => rfl
  | empty waits none_left =>
    exact known.of_moved _ _ _ _ _ (by rw [waits]; rfl) fun fd => by rw [waits]; rfl
  | @die item held =>
    refine known.of_moved _ _ _ _ _ ?_ fun fd => ?_
    · rw [held, List.map_cons, List.sum_cons]
      dsimp only [ShardWorker.taken, Shard.queuedBytes]
      omega
    · rw [held, List.map_cons, List.sum_cons]
      dsimp only [ShardWorker.has]
      omega
  | @subtract item held free => exact accounted_subtract known held free
  | finish held => exact known.of_closed held rfl fun _ => rfl
  | crash held => exact known.of_closed held rfl fun _ => rfl
  | leave top down => exact known.of_moved _ _ _ _ _ (by rw [top]; rfl) fun fd => by rw [top]; rfl
  | exit left => exact known.of_moved _ _ _ _ _ (by rw [left]; rfl) fun fd => by rw [left]; rfl
  | respawn dead => exact known.of_moved _ _ _ _ _ (by rw [dead]; rfl) fun fd => by rw [dead]; rfl
  | stop => exact known.of_moved _ _ _ _ _ rfl fun _ => rfl
  | sentinel down room =>
    refine known.of_moved _ _ _ _ _ ?_ fun fd => ?_
    · rw [queue_put]
      rfl
    · rw [queue_put]
      rfl
  | @drain item rest down head =>
    refine known.of_moved _ _ _ _ _ ?_ fun fd => ?_
    · rw [Shard.queuedBytes, head, List.map_cons, List.sum_cons]
      cases item with
      | none => dsimp only [Option.toList, List.nil_append, inSlot]; omega
      | some item =>
        rw [Option.toList_some, List.singleton_append, List.map_cons, List.sum_cons]
        dsimp only [inSlot]
        omega
    · rw [head, List.map_cons, List.sum_cons]
      cases item with
      | none => dsimp only [Option.toList, List.nil_append, inSlot]; omega
      | some item =>
        rw [Option.toList_some, List.singleton_append, List.map_cons, List.sum_cons]
        dsimp only [inSlot]
        omega

/-- A sample leaves the shard with its descriptor open: the worker dies of its flush, or `stop`
takes it out of the queue. -/
def ShardEvent.drops : ShardEvent → Bool
  | .die => true
  | .drain item => item.isSome
  | _ => false

theorem shardStep_dropped (step : ShardStep s event t) :
    t.dropped = [] ↔ s.dropped = [] ∧ event.drops = false := by
  cases step with
  | die held => simp [ShardEvent.drops]
  | @drain item rest down head => cases item <;> simp [ShardEvent.drops]
  | _ => exact (and_iff_left rfl).symm

theorem shardStep_budget (step : ShardStep s event t) : t.budget = s.budget := by cases step <;> rfl

theorem dropped_of_run {maxsize budget : Nat} {log : List ShardEvent}
    (run : Run ShardStep (.start maxsize budget) log s) :
    s.dropped = [] ↔ ∀ event ∈ log, event.drops = false := by
  induction run with
  | start => exact iff_of_true rfl (List.forall_mem_nil _)
  | next _ taken ih =>
    rw [shardStep_dropped taken, ih, List.forall_mem_append, List.forall_mem_singleton]

theorem nobody_has {items : List Queued} :
    (∀ fd, (items.map (Queued.has fd)).sum = 0) ↔ items = [] := by
  constructor
  · intro nothing
    cases items with
    | nil => rfl
    | cons head tail =>
      have sum := nothing head.fd
      rw [List.map_cons, List.sum_cons, Queued.has, if_pos rfl] at sum
      omega
  · intro empty fd
    rw [empty]
    rfl

theorem no_slot_has {queue : List (Option Queued)} :
    (∀ fd, (queue.map (inSlot (Queued.has fd))).sum = 0) ↔ ∀ item ∈ queue, item = none := by
  induction queue with
  | nil => exact iff_of_true (fun _ => rfl) (List.forall_mem_nil _)
  | cons head tail ih =>
    rw [List.forall_mem_cons, ← ih]
    cases head with
    | none => simp [inSlot]
    | some item =>
      refine iff_of_false (fun nothing => ?_) (fun both => nomatch both.1)
      have sum := nothing item.fd
      rw [List.map_cons, List.sum_cons, inSlot, Queued.has, if_pos rfl] at sum
      omega

def AllClosed (s : Shard) : Prop := ∀ fd, s.closings fd = if fd < s.nextFd then 1 else 0

theorem allClosed_iff (known : Accounted s) (returned : s.calls = []) (ended : s.worker = .gone) :
    AllClosed s ↔ s.dropped = [] ∧ ∀ item ∈ s.queue, item = none := by
  rw [← nobody_has, ← no_slot_has, ← forall_and]
  refine forall_congr' fun fd => ?_
  have owned := known.owned fd
  unfold Shard.inHand Shard.overCalls at owned
  rw [returned, ended, List.map_nil, List.sum_nil] at owned
  dsimp only [ShardWorker.has, Shard.leaked] at owned
  omega

/-- The counter is the sum of the sizes queued and not yet subtracted, within the budget; a
descriptor is closed once or let go of; at the end all are closed if and only if no sample was
dropped or is left. -/
theorem shard_accounting_iff {maxsize budget : Nat} {log : List ShardEvent}
    (run : Run ShardStep (.start maxsize budget) log s) :
    (s.locked = false → s.count = s.queuedBytes + s.takenBytes) ∧ s.count ≤ budget ∧
      (∀ item, s.worker = .took item → s.locked = false → (item.size : ℤ) ≤ s.count) ∧
      (∀ fd, s.closings fd + s.inHand fd + s.leaked fd = if fd < s.nextFd then 1 else 0) ∧
      (s.calls = [] → s.worker = .gone →
        (AllClosed s ↔ (∀ event ∈ log, event.drops = false) ∧ ∀ item ∈ s.queue, item = none)) := by
  have both : Accounted s ∧ s.budget = budget := by
    refine run.invariant (I := fun s => Accounted s ∧ s.budget = budget)
      ⟨accounted_start maxsize budget, rfl⟩ ?_
    intro s event t known taken
    exact ⟨shardStep_accounted taken known.1, (shardStep_budget taken).trans known.2⟩
  obtain ⟨known, budget_kept⟩ := both
  refine ⟨known.counted, ?_, fun _ => known.unclamped, known.owned, fun returned ended => ?_⟩
  · rw [← budget_kept]
    exact known.within
  · rw [allClosed_iff known returned ended, dropped_of_run run]

theorem shard_accounting_read :
    ∃ s, Run ShardStep (.start 8 100)
      [.call 3, .open_, .check, .put, .count, .wait, .get (some ⟨0, 3⟩), .subtract, .finish,
        .stop, .leave, .exit] s ∧ AllClosed s := by
  have run : Run ShardStep (.start 8 100) [] (.start 8 100) := .start
  have run := run.next (@ShardStep.call _ 3 rfl)
  have run := run.next (@ShardStep.open_ _ 3 [] [] rfl)
  have run := run.next (@ShardStep.check _ ⟨0, 3⟩ [] [] rfl rfl (by decide))
  have run := run.next (@ShardStep.put _ ⟨0, 3⟩ [] [] rfl (by decide))
  have run := run.next (@ShardStep.count _ ⟨0, 3⟩ [] [] rfl)
  have run := run.next (.wait rfl rfl)
  have run := run.next (@ShardStep.get _ ⟨0, 3⟩ [] rfl rfl)
  have run := run.next (.subtract rfl rfl)
  have run := run.next (.finish rfl)
  have run := run.next .stop
  have run := run.next (.leave rfl rfl)
  have run := run.next (.exit rfl)
  exact ⟨_, run, ((shard_accounting_iff run).2.2.2.2 rfl rfl).mpr ⟨by decide, nofun⟩⟩

theorem shard_stop_leaks :
    ¬ ∀ (maxsize budget : Nat) log s, Run ShardStep (.start maxsize budget) log s →
      s.stop = true → s.queue = [] → s.calls = [] → s.worker = .gone → AllClosed s := by
  intro claim
  have run : Run ShardStep (.start 8 100) [] (.start 8 100) := .start
  have run := run.next (@ShardStep.call _ 3 rfl)
  have run := run.next (@ShardStep.open_ _ 3 [] [] rfl)
  have run := run.next (@ShardStep.check _ ⟨0, 3⟩ [] [] rfl rfl (by decide))
  have run := run.next (@ShardStep.put _ ⟨0, 3⟩ [] [] rfl (by decide))
  have run := run.next (@ShardStep.count _ ⟨0, 3⟩ [] [] rfl)
  have run := run.next .stop
  have run := run.next (.leave rfl rfl)
  have run := run.next (.exit rfl)
  have run := run.next (@ShardStep.drain _ (some ⟨0, 3⟩) [] rfl rfl)
  have closed := claim _ _ _ _ run rfl rfl rfl rfl 0
  cases closed

end Properties

end PerfStats.Listend
