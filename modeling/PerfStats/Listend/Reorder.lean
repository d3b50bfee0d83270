import PerfStats.Lib.Dict
import PerfStats.Lib.Runs
import PerfStats.Listend.Payload

/-! The order in which one archive worker writes the messages of its hosts. -/

namespace PerfStats.Listend

open Lib

section Worker

/-- `_ArchiveWorkItem`, without the delivery it acks. -/
structure ArchiveItem where
  message : Str
  host : Str
  unixSecond : Option Int
  isDollar : Bool
  recvMonotonic : ℚ
  deriving DecidableEq

/-- What `_dispatch_to_archive_pool` queues; a peek that raises leaves the message on the
server. -/
def dispatch (message host : Str) (recvMonotonic : ℚ) : Option ArchiveItem :=
  match peekMonitorDollarAndUnixSecond message with
  | .ok (isDollar, unixSecond) => some { message, host, unixSecond, isDollar, recvMonotonic }
  | .error _ => none

abbrev SortKey := Int ×ₗ Nat ×ₗ Nat

def archiveReorderSortKey (unixSecond : Option Int) (isDollar : Bool) (recvSeq : Nat) : SortKey :=
  toLex (unixSecond.getD 0, toLex (if isDollar then 0 else 1, recvSeq))

structure Entry where
  key : SortKey
  recvMonotonic : ℚ
  work : ArchiveItem
  deriving DecidableEq

/-- `heapq`: the entries in the order they are popped. -/
abbrev heappush (heap : List Entry) (e : Entry) : List Entry :=
  heap.orderedInsert (fun a b => a.key ≤ b.key) e

def archiveReorderHoldSeconds : ℚ := 1

/-- The loop of `_drain_host`: the entries it flushes and those it leaves. -/
def drain (force flushedAny : Bool) (now : ℚ) : List Entry → List Entry × List Entry
  | [] => ([], [])
  | e :: rest =>
    if force || flushedAny || archiveReorderHoldSeconds ≤ now - e.recvMonotonic ||
        2 ≤ (e :: rest).length then
      ((e :: (drain force true now rest).1), (drain force true now rest).2)
    else ([], e :: rest)

/-- The state of `_archive_worker_main`; `written` lists the items as `_archive_and_submit_then_ack`
is called on them. -/
structure Worker where
  heaps : Dict Str (List Entry)
  recvSeq : Nat
  written : List ArchiveItem

def Worker.initial : Worker := ⟨.empty, 0, []⟩

namespace Worker

def heap (w : Worker) (host : Str) : List Entry := (w.heaps.get? host).getD []

def drainHost (force : Bool) (now : ℚ) (w : Worker) (host : Str) : Worker :=
  let (flushed, left) := drain force false now (w.heap host)
  { w with
    heaps := if left = [] then w.heaps.erase host else w.heaps.set host left
    written := w.written ++ flushed.map Entry.work }

/-- Each host has its own reading of the clock. -/
def drainAll (w : Worker) (force : Bool) (now : Str → ℚ) : Worker :=
  (w.heaps.entries.map Prod.fst).foldl (fun w host => w.drainHost force (now host) host) w

end Worker

def ArchiveItem.skipReorder (consumerCount : Nat) (work : ArchiveItem) : Bool :=
  consumerCount ≤ 1 || work.unixSecond.isNone

namespace Worker

def entry (w : Worker) (work : ArchiveItem) : Entry :=
  ⟨archiveReorderSortKey work.unixSecond work.isDollar w.recvSeq, work.recvMonotonic, work⟩

def push (w : Worker) (work : ArchiveItem) : Worker :=
  { w with
    heaps := w.heaps.set work.host (heappush (w.heap work.host) (w.entry work))
    recvSeq := w.recvSeq + 1 }

def take (consumerCount : Nat) (w : Worker) (work : ArchiveItem) (now : ℚ) : Worker :=
  if work.skipReorder consumerCount then { w with written := w.written ++ [work] }
  else (w.push work).drainHost false now work.host

end Worker

inductive Arrival where
  | item (work : ArchiveItem) (now : ℚ)
  | empty (now : Str → ℚ)

namespace Worker

def turn (consumerCount : Nat) (w : Worker) : Arrival → Worker
  | .item work now => w.take consumerCount work now
  | .empty now => w.drainAll false now

def main (consumerCount : Nat) (arrivals : List Arrival) (now : Str → ℚ) : Worker :=
  (arrivals.foldl (turn consumerCount) initial).drainAll true now

def writtenFor (w : Worker) (host : Str) : List ArchiveItem :=
  w.written.filter fun work => work.host = host

end Worker

end Worker

section Drain

variable {force flushedAny : Bool} {now : ℚ} {heap : List Entry}

theorem drain_append : (drain force flushedAny now heap).1 ++ (drain force flushedAny now heap).2 =
    heap := by
  induction heap generalizing flushedAny with
  | nil => rfl
  | cons e rest ih =>
    unfold drain
    split
    · simp [ih]
    · rfl

theorem drain_left_sublist : (drain force flushedAny now heap).2.Sublist heap :=
  (List.sublist_append_right _ _).trans (by rw [drain_append])

theorem drain_flushing (flushing : (force || flushedAny) = true) :
    (drain force flushedAny now heap).2 = [] := by
  induction heap generalizing flushedAny with
  | nil => rfl
  | cons e rest ih => simp [drain, flushing, @ih true (by simp)]

theorem drain_again : (drain force false now (drain force false now heap).2).2 =
    (drain force false now heap).2 := by
  cases heap with
  | nil => rfl
  | cons e rest =>
    by_cases ready : (force || false || archiveReorderHoldSeconds ≤ now - e.recvMonotonic ||
        2 ≤ (e :: rest).length) = true
    · have left : (drain force false now (e :: rest)).2 = [] := by
        rw [drain, if_pos ready]
        exact drain_flushing (Bool.or_true force)
      rw [left]
      rfl
    · have left : (drain force false now (e :: rest)).2 = e :: rest := by
        rw [drain, if_neg ready]
      rw [left, left]

end Drain

namespace Worker

variable {w : Worker} {force : Bool} {now : ℚ} {host k : Str}

theorem heap_set (w : Worker) (recvSeq : Nat) (written : List ArchiveItem) (host k : Str)
    (left : List Entry) :
    heap ⟨if left = [] then w.heaps.erase host else w.heaps.set host left, recvSeq, written⟩ k =
      if k = host then left else w.heap k := by
  by_cases none_ : left = []
  · by_cases same : k = host <;> simp [heap, none_, Dict.get?_erase, same]
  · by_cases same : k = host <;> simp [heap, none_, Dict.get?_set, same]

theorem heap_drainHost : (w.drainHost force now host).heap k =
    if k = host then (drain force false now (w.heap host)).2 else w.heap k :=
  heap_set w _ _ _ _ _

structure Kept (w : Worker) : Prop where
  owned : ∀ host, ∀ e ∈ w.heap host, e.work.host = host
  sorted : ∀ host, (w.heap host).Pairwise fun a b => a.key ≤ b.key

def line (w : Worker) (host : Str) : List ArchiveItem :=
  w.writtenFor host ++ (w.heap host).map Entry.work

theorem filter_host {l : List Entry} (owned : ∀ e ∈ l, e.work.host = host) :
    (l.map Entry.work).filter (fun work => work.host = k) =
      if k = host then l.map Entry.work else [] := by
  by_cases same : k = host
  · subst same
    simpa using owned
  · simp only [same, if_false, List.filter_eq_nil_iff, List.mem_map, decide_eq_true_eq]
    rintro _ ⟨e, member, rfl⟩ other
    exact same (other.symm.trans (owned e member))

theorem Kept.drainHost (kept : Kept w) : Kept (w.drainHost force now host) := by
  have part : (drain force false now (w.heap host)).2.Sublist (w.heap host) :=
    drain_left_sublist
  constructor
  · intro k e member
    rw [heap_drainHost] at member
    split at member
    next same => exact same ▸ kept.owned host e (part.subset member)
    · exact kept.owned k e member
  · intro k
    rw [heap_drainHost]
    split
    · exact (kept.sorted host).sublist part
    · exact kept.sorted k

theorem line_drainHost (kept : Kept w) : (w.drainHost force now host).line k = w.line k := by
  have whole : (drain force false now (w.heap host)).1 ++
      (drain force false now (w.heap host)).2 = w.heap host := drain_append
  have owned : ∀ e ∈ (drain force false now (w.heap host)).1, e.work.host = host :=
    fun e member => kept.owned host e (whole ▸ List.mem_append_left _ member)
  have written : (w.drainHost force now host).writtenFor k = w.writtenFor k ++
      if k = host then (drain force false now (w.heap host)).1.map Entry.work else [] := by
    rw [← filter_host owned]
    exact List.filter_append _ _
  rw [line, line, written, heap_drainHost]
  by_cases same : k = host
  · simp only [same, if_true, List.append_assoc]
    rw [← List.map_append, whole]
  · simp [same]

theorem drainAll_kept {nows : Str → ℚ} (kept : Kept w) :
    Kept (w.drainAll force nows) ∧ ∀ k, (w.drainAll force nows).line k = w.line k := by
  have both : ∀ hosts : List Str, ∀ v : Worker, Kept v →
      Kept (hosts.foldl (fun w host => w.drainHost force (nows host) host) v) ∧
        ∀ k, (hosts.foldl (fun w host => w.drainHost force (nows host) host) v).line k =
          v.line k := by
    intro hosts
    induction hosts with
    | nil => exact fun v kept => ⟨kept, fun _ => rfl⟩
    | cons host rest ih =>
      intro v kept
      have next : Kept (v.drainHost force (nows host) host) := kept.drainHost
      rcases ih _ next with ⟨after, lines⟩
      exact ⟨after, fun k => (lines k).trans (line_drainHost kept)⟩
  exact both _ _ kept

theorem recvSeq_drainAll {nows : Str → ℚ} : (w.drainAll force nows).recvSeq = w.recvSeq := by
  unfold drainAll
  generalize w.heaps.entries.map Prod.fst = hosts
  induction hosts generalizing w with
  | nil => rfl
  | cons host rest ih => exact ih

theorem heap_drainAll {nows : Str → ℚ} :
    (w.drainAll force nows).heap k = (drain force false (nows k) (w.heap k)).2 := by
  have both : ∀ hosts : List Str, ∀ v : Worker,
      (hosts.foldl (fun w host => w.drainHost force (nows host) host) v).heap k =
        if k ∈ hosts then (drain force false (nows k) (v.heap k)).2 else v.heap k := by
    intro hosts
    induction hosts with
    | nil => exact fun v => rfl
    | cons host rest ih =>
      intro v
      rw [List.foldl_cons, ih, heap_drainHost]
      by_cases same : k = host
      · subst same
        simp [drain_again]
      · simp [same]
  refine (both _ w).trans ?_
  split
  · rfl
  next unlisted =>
    have empty : w.heap k = [] := by rw [heap, Dict.get?_eq_none.mpr unlisted]; rfl
    rw [empty]
    rfl

end Worker

section Order

def NotLater (a b : ArchiveItem) : Prop :=
  ∀ s ∈ sampleSecond a.message, ∀ t ∈ sampleSecond b.message, s ≤ t

instance (a b : ArchiveItem) : Decidable (NotLater a b) := by
  unfold NotLater
  infer_instance

structure ArchiveOrder (written : List ArchiveItem) : Prop where
  ordered : written.Pairwise NotLater
  rotations : ∀ sample rotation, [sample, rotation].Sublist written → rotation.isDollar = true →
    ¬ ∃ s ∈ sampleSecond sample.message, ∃ t ∈ sampleSecond rotation.message, t < s

theorem archiveOrder_iff {written : List ArchiveItem} :
    ArchiveOrder written ↔ written.Pairwise NotLater := by
  refine ⟨ArchiveOrder.ordered, fun ordered => ⟨ordered, ?_⟩⟩
  rintro sample rotation before _ ⟨s, first, t, second, later⟩
  have notLater := List.pairwise_iff_forall_sublist.mp ordered before s first t second
  omega

theorem pairwise_insert {α : Type*} {R : α → α → Prop} {l m : List α} {a : α} :
    (l ++ a :: m).Pairwise R ↔
      (l ++ m).Pairwise R ∧ (∀ b ∈ l, R b a) ∧ ∀ b ∈ m, R a b := by
  simp only [List.pairwise_append, List.pairwise_cons, List.mem_cons, forall_eq_or_imp]
  constructor
  · rintro ⟨left, ⟨behind, right⟩, across⟩
    exact ⟨⟨left, right, fun b member => (across b member).2⟩,
      fun b member => (across b member).1, behind⟩
  · rintro ⟨⟨left, right, across⟩, ahead, behind⟩
    exact ⟨left, ⟨behind, right⟩, fun b member => ⟨ahead b member, across b member⟩⟩

/-- An item that arrives is no earlier than what is written of its host and than what it overtakes,
and no later than what waits and will be written before it. -/
def InTime (consumerCount : Nat) (host : Str) (w : Worker) : Arrival → Prop
  | .item work _ => work.host = host →
      (∀ old ∈ w.writtenFor host, NotLater old work) ∧
        ∀ e ∈ w.heap host,
          if work.skipReorder consumerCount = true ∨ (w.entry work).key ≤ e.key
          then NotLater work e.work else NotLater e.work work
  | .empty _ => True

namespace Worker

variable {w : Worker} {host k : Str} {consumerCount : Nat}

theorem heap_push (w : Worker) (work : ArchiveItem) (k : Str) : (w.push work).heap k =
    if k = work.host then heappush (w.heap k) (w.entry work) else w.heap k := by
  by_cases same : k = work.host
  · simp [push, heap, same]
  · simp [push, heap, Dict.get?_set, same]

theorem heappush_split {heap : List Entry} (sorted : heap.Pairwise fun a b => a.key ≤ b.key)
    (e : Entry) : ∃ ahead behind, heap = ahead ++ behind ∧ heappush heap e = ahead ++ e :: behind ∧
      (∀ a ∈ ahead, ¬ e.key ≤ a.key) ∧ ∀ b ∈ behind, e.key ≤ b.key := by
  induction heap with
  | nil => exact ⟨[], [], rfl, rfl, by simp, by simp⟩
  | cons head rest ih =>
    rcases List.pairwise_cons.mp sorted with ⟨least, sorted⟩
    by_cases first : e.key ≤ head.key
    · refine ⟨[], head :: rest, rfl, by simp [heappush, first], by simp, ?_⟩
      simpa using ⟨first, fun b member => first.trans (least b member)⟩
    · rcases ih sorted with ⟨ahead, behind, whole, pushed, before, after⟩
      refine ⟨head :: ahead, behind, by simp [whole], ?_, ?_, after⟩
      · simpa [heappush, first] using pushed
      · simpa using ⟨not_le.mp first, fun a member => not_le.mp (before a member)⟩

theorem Kept.push (kept : Kept w) (work : ArchiveItem) : Kept (w.push work) := by
  constructor
  · intro k e member
    rw [heap_push] at member
    split at member
    next same =>
      rcases (List.mem_orderedInsert _).mp member with rfl | old
      · exact same.symm
      · exact kept.owned k e old
    · exact kept.owned k e member
  · intro k
    rw [heap_push]
    split
    · rcases heappush_split (kept.sorted k) (w.entry work) with
        ⟨ahead, behind, whole, pushed, before, after⟩
      rw [pushed]
      exact pairwise_insert.mpr ⟨whole ▸ kept.sorted k,
        fun a member => (not_le.mp (before a member)).le, after⟩
    · exact kept.sorted k

theorem Kept.turn (kept : Kept w) (arrival : Arrival) : Kept (w.turn consumerCount arrival) := by
  cases arrival with
  | item work now =>
    rw [Worker.turn, take]
    split
    · exact ⟨kept.owned, kept.sorted⟩
    · exact (kept.push work).drainHost
  | empty now => exact (drainAll_kept kept).1

theorem pairwise_map_work {R : ArchiveItem → ArchiveItem → Prop} {written : List ArchiveItem}
    {l m : List Entry}
    {e : Entry} : (written ++ (l ++ e :: m).map Entry.work).Pairwise R ↔
      (written ++ (l ++ m).map Entry.work).Pairwise R ∧ (∀ a ∈ written, R a e.work) ∧
        (∀ a ∈ l, R a.work e.work) ∧ ∀ b ∈ m, R e.work b.work := by
  rw [List.map_append, List.map_cons, ← List.append_assoc, pairwise_insert, List.append_assoc,
    ← List.map_append]
  simp only [List.mem_append, List.mem_map, or_imp, forall_and, forall_exists_index, and_imp,
    forall_apply_eq_imp_iff₂, and_assoc]

theorem line_turn (kept : Kept w) (arrival : Arrival) (host : Str) :
    ((w.turn consumerCount arrival).line host).Pairwise NotLater ↔
      (w.line host).Pairwise NotLater ∧ InTime consumerCount host w arrival := by
  cases arrival with
  | empty now =>
    rw [Worker.turn, (drainAll_kept kept).2 host]
    exact (and_iff_left trivial).symm
  | item work now =>
    by_cases mine : work.host = host
    · subst mine
      by_cases skipped : work.skipReorder consumerCount = true
      · have line : (w.turn consumerCount (.item work now)).line work.host =
            w.writtenFor work.host ++ work :: (w.heap work.host).map Entry.work := by
          simp [Worker.turn, take, skipped, Worker.line, writtenFor, heap]
        rw [line, pairwise_insert, InTime]
        simp [Worker.line, skipped]
      · rcases heappush_split (kept.sorted work.host) (w.entry work) with
          ⟨ahead, behind, whole, pushed, before, after⟩
        have line : (w.turn consumerCount (.item work now)).line work.host =
            w.writtenFor work.host ++
              (ahead ++ w.entry work :: behind).map Entry.work := by
          rw [Worker.turn, take, if_neg skipped, line_drainHost (kept.push work), Worker.line,
            heap_push, if_pos rfl, pushed]
          rfl
        have waiting : (∀ e ∈ ahead ++ behind,
            if work.skipReorder consumerCount = true ∨ (w.entry work).key ≤ e.key
            then NotLater work e.work else NotLater e.work work) ↔
              (∀ a ∈ ahead, NotLater a.work work) ∧ ∀ b ∈ behind, NotLater work b.work := by
          rw [List.forall_mem_append]
          apply and_congr
          · exact forall₂_congr fun a member => by
              rw [if_neg (not_or.mpr ⟨skipped, before a member⟩)]
          · exact forall₂_congr fun b member => by rw [if_pos (.inr (after b member))]
        rw [line, pairwise_map_work, Worker.line, whole, InTime, whole, waiting]
        exact and_congr_right fun _ => ⟨fun parts _ => parts, fun parts => parts rfl⟩
    · have line : (w.turn consumerCount (.item work now)).line host = w.line host := by
        by_cases skipped : work.skipReorder consumerCount = true
        · simp [Worker.turn, take, skipped, Worker.line, writtenFor, heap, mine]
        · rw [Worker.turn, take, if_neg skipped, line_drainHost (kept.push work), Worker.line,
            heap_push, if_neg (Ne.symm mine)]
          rfl
      rw [line, InTime]
      exact (and_iff_left fun same => absurd same mine).symm

theorem Kept.initial : Kept initial :=
  ⟨fun _ _ member => by simp [Worker.initial, heap] at member,
    fun _ => by simp [Worker.initial, heap]⟩

end Worker

section Arrivals

def Arrival.of (host : Str) : Arrival → Option ArchiveItem
  | .item work _ => if work.host = host then some work else none
  | .empty _ => none

def arrived (host : Str) (arrivals : List Arrival) : List (Nat × ArchiveItem) :=
  arrivals.zipIdx.filterMap fun (arrival, i) => (arrival.of host).map fun work => (i, work)

/-- One message waits at most: one that arrives young and alone, until the next one or an idle turn
that finds it held long enough. -/
def hold (consumerCount : Nat) (host : Str) (held : Option (Nat × ArchiveItem)) :
    Arrival × Nat → Option (Nat × ArchiveItem)
  | (.item work now, i) =>
    if work.host ≠ host ∨ work.skipReorder consumerCount = true then held
    else if held.isSome ∨ archiveReorderHoldSeconds ≤ now - work.recvMonotonic then none
    else some (i, work)
  | (.empty now, _) =>
    held.filter fun (_, work) => now host - work.recvMonotonic < archiveReorderHoldSeconds

def waiting (consumerCount : Nat) (host : Str) (arrivals : List Arrival) :
    Option (Nat × ArchiveItem) :=
  arrivals.zipIdx.foldl (hold consumerCount host) none

def ArchiveItem.overtakes (consumerCount : Nat) (work held : ArchiveItem) : Bool :=
  work.skipReorder consumerCount ||
    archiveReorderSortKey work.unixSecond work.isDollar 0 <
      archiveReorderSortKey held.unixSecond held.isDollar 0

/-- No message is earlier than one of its host before it, but for the one that waits, which it may
overtake if it is not later. -/
def InOrder (consumerCount : Nat) (host : Str) (arrivals : List Arrival) : Prop :=
  (arrived host arrivals).Pairwise fun first second =>
    if waiting consumerCount host (arrivals.take second.1) = some first ∧
        second.2.overtakes consumerCount first.2 = true
    then NotLater second.2 first.2 else NotLater first.2 second.2

variable {consumerCount : Nat} {host : Str} {arrivals : List Arrival} {arrival : Arrival}

theorem arrived_append : arrived host (arrivals ++ [arrival]) =
    arrived host arrivals ++ ((arrival.of host).map fun work => (arrivals.length, work)).toList := by
  rw [arrived, List.zipIdx_append, List.filterMap_append, ← arrived]
  cases placed : arrival.of host <;> simp [placed]

theorem arrived_before {i : Nat} {work : ArchiveItem} (member : (i, work) ∈ arrived host arrivals) :
    i < arrivals.length := by
  obtain ⟨⟨arrival, j⟩, inside, same⟩ := List.mem_filterMap.mp member
  obtain ⟨_, _, same⟩ := Option.map_eq_some_iff.mp same
  cases same
  simpa using (List.mem_zipIdx inside).2.1

theorem waiting_append : waiting consumerCount host (arrivals ++ [arrival]) =
    hold consumerCount host (waiting consumerCount host arrivals) (arrival, arrivals.length) := by
  simp [waiting, List.zipIdx_append]

theorem inOrder_append : InOrder consumerCount host (arrivals ++ [arrival]) ↔
    InOrder consumerCount host arrivals ∧ ∀ second ∈ arrival.of host,
      ∀ first ∈ arrived host arrivals,
        if waiting consumerCount host arrivals = some first ∧
            second.overtakes consumerCount first.2 = true
        then NotLater second first.2 else NotLater first.2 second := by
  rw [InOrder, arrived_append, List.pairwise_append]
  apply and_congr
  · apply List.Pairwise.iff_of_mem
    intro first second _ member
    rw [List.take_append_of_le_length (arrived_before member).le]
  · cases arrival.of host with
    | none => simp
    | some work => simp

end Arrivals

inductive Follows (consumerCount : Nat) (host : Str) (arrivals : List Arrival) (w : Worker) :
    Prop where
  | idle (kept : w.Kept) (none_waits : waiting consumerCount host arrivals = none)
      (heap : w.heap host = [])
      (written : ∀ work, work ∈ w.writtenFor host ↔ ∃ i, (i, work) ∈ arrived host arrivals)
  | held {i seq : Nat} {held : ArchiveItem} (kept : w.Kept)
      (waits : waiting consumerCount host arrivals = some (i, held))
      (listed : (i, held) ∈ arrived host arrivals) (before : seq < w.recvSeq)
      (heap : w.heap host = [⟨archiveReorderSortKey held.unixSecond held.isDollar seq,
        held.recvMonotonic, held⟩])
      (written : ∀ work, work ∈ w.writtenFor host ↔
        ∃ j, (j, work) ∈ arrived host arrivals ∧ (j, work) ≠ (i, held))

namespace Worker

variable {consumerCount : Nat} {host : Str} {arrivals : List Arrival} {w : Worker}

theorem writtenFor_of_line {written : List ArchiveItem} (heap : List Entry)
    (line : w.line host = written ++ heap.map Entry.work) (left : w.heap host = heap) :
    w.writtenFor host = written := by
  rw [Worker.line, left] at line
  exact List.append_cancel_right line

theorem drain_one {now : ℚ} {e : Entry} : (drain false false now [e]).2 =
    if archiveReorderHoldSeconds ≤ now - e.recvMonotonic then [] else [e] := by
  by_cases held : archiveReorderHoldSeconds ≤ now - e.recvMonotonic <;> simp [drain, held]

theorem drain_two {now : ℚ} {e first : Entry} : (drain false false now [e, first]).2 = [] := by
  simp [drain]

theorem line_push (kept : Kept w) {work : ArchiveItem} (now : ℚ)
    (waits : work.skipReorder consumerCount = false) :
    (w.turn consumerCount (.item work now)).line work.host =
      w.writtenFor work.host ++
        (heappush (w.heap work.host) (w.entry work)).map Entry.work ∧
    (w.turn consumerCount (.item work now)).heap work.host =
      (drain false false now (heappush (w.heap work.host) (w.entry work))).2 := by
  have taken : w.turn consumerCount (.item work now) = (w.push work).drainHost false now work.host := by
    rw [Worker.turn, take, if_neg (by rw [waits]; exact Bool.false_ne_true)]
  rw [taken, line_drainHost (kept.push work), heap_drainHost, if_pos rfl, Worker.line, heap_push,
    if_pos rfl]
  exact ⟨rfl, rfl⟩

theorem turn_other (kept : Kept w) (consumerCount : Nat) (work : ArchiveItem) (now : ℚ)
    (apart : work.host ≠ host) :
    (w.turn consumerCount (.item work now)).heap host = w.heap host ∧
      (w.turn consumerCount (.item work now)).writtenFor host = w.writtenFor host := by
  by_cases skipped : work.skipReorder consumerCount = true
  · simp [Worker.turn, take, skipped, writtenFor, heap, apart]
  · have same : (w.turn consumerCount (.item work now)).heap host = w.heap host := by
      rw [Worker.turn, take, if_neg skipped, heap_drainHost, if_neg (Ne.symm apart), heap_push,
        if_neg (Ne.symm apart)]
    refine ⟨same, writtenFor_of_line (w.heap host) ?_ same⟩
    rw [Worker.turn, take, if_neg skipped, line_drainHost (kept.push work), Worker.line, heap_push,
      if_neg (Ne.symm apart)]
    rfl

end Worker

section Follows

variable {consumerCount : Nat} {host : Str} {arrivals : List Arrival} {w : Worker}

theorem Follows.kept (follows : Follows consumerCount host arrivals w) : w.Kept := by
  cases follows <;> assumption

theorem Follows.initial : Follows consumerCount host [] .initial :=
  .idle .initial rfl rfl fun work => by simp [Worker.initial, Worker.writtenFor, arrived]

theorem mem_released {l : List (Nat × ArchiveItem)} {i : Nat} {held other : ArchiveItem}
    (listed : (i, held) ∈ l) :
    ((∃ j, (j, other) ∈ l ∧ (j, other) ≠ (i, held)) ∨ other = held) ↔ ∃ j, (j, other) ∈ l := by
  constructor
  · rintro (⟨j, member, _⟩ | rfl)
    · exact ⟨j, member⟩
    · exact ⟨i, listed⟩
  · rintro ⟨j, member⟩
    by_cases same : (j, other) = (i, held)
    · exact .inr (Prod.mk.inj same).2
    · exact .inl ⟨j, member, same⟩

theorem Follows.empty (follows : Follows consumerCount host arrivals w) (now : Str → ℚ) :
    Follows consumerCount host (arrivals ++ [.empty now]) (w.turn consumerCount (.empty now)) := by
  have same : arrived host (arrivals ++ [.empty now]) = arrived host arrivals := by
    rw [arrived_append]
    exact List.append_nil _
  have left : (w.turn consumerCount (.empty now)).heap host =
      (drain false false (now host) (w.heap host)).2 := Worker.heap_drainAll
  have line : (w.turn consumerCount (.empty now)).line host = w.line host :=
    (Worker.drainAll_kept follows.kept).2 host
  have turned : (w.turn consumerCount (.empty now)).Kept := follows.kept.turn _
  cases follows with
  | idle kept none_waits heap written =>
    rw [heap] at left
    have still := Worker.writtenFor_of_line [] (by rw [line, Worker.line, heap]) left
    refine .idle turned ?_ left fun work => ?_
    · rw [waiting_append, none_waits]
      rfl
    · rw [still, same, written]
  | @held i seq held kept waits listed before heap written =>
    rw [heap, Worker.drain_one] at left
    by_cases old : archiveReorderHoldSeconds ≤ now host - held.recvMonotonic
    · rw [if_pos old] at left
      have released := @Worker.writtenFor_of_line _ _ (w.writtenFor host ++ [held]) []
        (by rw [line, Worker.line, heap, List.append_assoc]; rfl) left
      refine .idle turned ?_ left fun work => ?_
      · rw [waiting_append, waits]
        simpa [hold] using old
      · rw [released, same, List.mem_append, written, List.mem_singleton, mem_released listed]
    · rw [if_neg old] at left
      have still := Worker.writtenFor_of_line _ (by rw [line, Worker.line, heap]) left
      refine .held turned ?_ (same ▸ listed) ?_ left fun work => ?_
      · rw [waiting_append, waits]
        simpa [hold] using old
      · rw [Worker.turn, Worker.recvSeq_drainAll]
        exact before
      · rw [still, same, written]

theorem entry_le_iff {work held : ArchiveItem} {seq : Nat} (before : seq < w.recvSeq) :
    (w.entry work).key ≤ archiveReorderSortKey held.unixSecond held.isDollar seq ↔
      archiveReorderSortKey work.unixSecond work.isDollar 0 <
        archiveReorderSortKey held.unixSecond held.isDollar 0 := by
  simp only [Worker.entry, archiveReorderSortKey, Prod.Lex.toLex_le_toLex,
    Prod.Lex.toLex_lt_toLex]
  omega

theorem recvSeq_item {work : ArchiveItem} {now : ℚ} :
    w.recvSeq ≤ (w.turn consumerCount (.item work now)).recvSeq := by
  rw [Worker.turn, Worker.take]
  split
  · exact le_rfl
  · exact Nat.le_succ w.recvSeq

theorem mem_arrived {l : List (Nat × ArchiveItem)} {n : Nat} {work other : ArchiveItem} :
    (∃ j, (j, other) ∈ l ++ [(n, work)]) ↔ (∃ j, (j, other) ∈ l) ∨ other = work := by
  simp [exists_or]

theorem Follows.other (follows : Follows consumerCount host arrivals w) {work : ArchiveItem}
    {now : ℚ} (apart : work.host ≠ host) :
    Follows consumerCount host (arrivals ++ [.item work now])
      (w.turn consumerCount (.item work now)) := by
  have turned : (w.turn consumerCount (.item work now)).Kept := follows.kept.turn _
  have same : arrived host (arrivals ++ [.item work now]) = arrived host arrivals := by
    rw [arrived_append, Arrival.of, if_neg apart]
    exact List.append_nil _
  have still : waiting consumerCount host (arrivals ++ [.item work now]) =
      waiting consumerCount host arrivals := by
    rw [waiting_append, hold, if_pos (.inl apart)]
  obtain ⟨left, unwritten⟩ := Worker.turn_other follows.kept consumerCount work now apart
  cases follows with
  | idle kept none_waits heap written =>
    refine .idle turned (still.trans none_waits) (left.trans heap) fun other => ?_
    rw [unwritten, same, written]
  | held kept waits listed before heap written =>
    refine .held turned (still.trans waits) (same ▸ listed) (before.trans_le recvSeq_item)
      (left.trans heap) fun other => ?_
    rw [unwritten, same, written]

theorem Follows.skips (follows : Follows consumerCount host arrivals w) {work : ArchiveItem}
    {now : ℚ} (mine : work.host = host) (skipped : work.skipReorder consumerCount = true) :
    Follows consumerCount host (arrivals ++ [.item work now])
      (w.turn consumerCount (.item work now)) := by
  have turned : (w.turn consumerCount (.item work now)).Kept := follows.kept.turn _
  have taken : w.turn consumerCount (.item work now) = { w with written := w.written ++ [work] } :=
    if_pos skipped
  have more : arrived host (arrivals ++ [.item work now]) =
      arrived host arrivals ++ [(arrivals.length, work)] := by
    rw [arrived_append, Arrival.of, if_pos mine]
    rfl
  have still : waiting consumerCount host (arrivals ++ [.item work now]) =
      waiting consumerCount host arrivals := by
    rw [waiting_append, hold, if_pos (.inr skipped)]
  have adds : (w.turn consumerCount (.item work now)).writtenFor host =
      w.writtenFor host ++ [work] := by
    simp [taken, Worker.writtenFor, mine]
  cases follows with
  | idle kept none_waits heap written =>
    refine .idle turned (still.trans none_waits) (by rw [taken]; exact heap) fun other => ?_
    rw [adds, List.mem_append, written, List.mem_singleton, more, mem_arrived]
  | @held i seq held kept waits listed before heap written =>
    have apart : (arrivals.length, work) ≠ (i, held) := by
      intro same
      exact absurd (arrived_before listed) (by rw [← (Prod.mk.inj same).1]; exact lt_irrefl _)
    refine .held turned (still.trans waits) (by rw [more]; exact List.mem_append_left _ listed)
      (before.trans_le recvSeq_item) (by rw [taken]; exact heap) fun other => ?_
    rw [adds, List.mem_append, written, List.mem_singleton, more]
    constructor
    · rintro (⟨j, member, other⟩ | rfl)
      · exact ⟨j, List.mem_append_left _ member, other⟩
      · exact ⟨_, List.mem_append_right _ (List.mem_singleton_self _), apart⟩
    · rintro ⟨j, member, differs⟩
      rcases List.mem_append.mp member with old | new
      · exact .inl ⟨j, old, differs⟩
      · exact .inr (Prod.mk.inj (List.mem_singleton.mp new)).2

theorem Follows.waits (follows : Follows consumerCount host arrivals w) {work : ArchiveItem}
    {now : ℚ} (mine : work.host = host) (waits : work.skipReorder consumerCount = false) :
    Follows consumerCount host (arrivals ++ [.item work now])
      (w.turn consumerCount (.item work now)) := by
  subst mine
  have turned : (w.turn consumerCount (.item work now)).Kept := follows.kept.turn _
  have more : arrived work.host (arrivals ++ [.item work now]) =
      arrived work.host arrivals ++ [(arrivals.length, work)] := by
    rw [arrived_append, Arrival.of, if_pos rfl]
    rfl
  have holds : ∀ held, hold consumerCount work.host held (.item work now, arrivals.length) =
      if held.isSome ∨ archiveReorderHoldSeconds ≤ now - work.recvMonotonic then none
      else some (arrivals.length, work) := by
    intro held
    rw [hold, if_neg (by simp [waits])]
  obtain ⟨line, left⟩ := Worker.line_push follows.kept now waits
  cases follows with
  | idle kept none_waits heap written =>
    have alone : heappush (w.heap work.host) (w.entry work) = [w.entry work] := by rw [heap]; rfl
    rw [alone] at line left
    rw [Worker.drain_one] at left
    by_cases old : archiveReorderHoldSeconds ≤ now - work.recvMonotonic
    · rw [if_pos (show _ ≤ now - (w.entry work).recvMonotonic from old)] at left
      have adds := Worker.writtenFor_of_line [] (by rw [line, List.map_nil, List.append_nil]) left
      refine .idle turned ?_ left fun other => ?_
      · rw [waiting_append, holds, if_pos (.inr old)]
      · rw [adds, List.mem_append, written, more, mem_arrived]
        exact or_congr_right List.mem_singleton
    · rw [if_neg (show ¬_ ≤ now - (w.entry work).recvMonotonic from old)] at left
      have still := Worker.writtenFor_of_line _ line left
      refine @Follows.held _ _ _ _ _ w.recvSeq _ turned ?_
        (more ▸ List.mem_append_right _ (List.mem_singleton_self _)) ?_ left fun other => ?_
      · rw [waiting_append, holds, none_waits]
        simpa using old
      · rw [Worker.turn, Worker.take, if_neg (by rw [waits]; exact Bool.false_ne_true)]
        exact Nat.lt_succ_self _
      · rw [still, written, more]
        constructor
        · rintro ⟨j, member⟩
          refine ⟨j, List.mem_append_left _ member, fun same => ?_⟩
          exact absurd (arrived_before member) (by rw [(Prod.mk.inj same).1]; exact lt_irrefl _)
        · rintro ⟨j, member, differs⟩
          exact ⟨j, (List.mem_append.mp member).resolve_right (by simpa using differs)⟩
  | @held i seq held kept waits listed before heap written =>
    have both : ∃ a b, heappush (w.heap work.host) (w.entry work) = [a, b] ∧
        ∀ other, other ∈ [a, b].map Entry.work ↔ other = held ∨ other = work := by
      rw [heap, heappush, List.orderedInsert]
      split
      · exact ⟨_, _, rfl, fun other => by simp [Worker.entry, or_comm]⟩
      · exact ⟨_, _, rfl, fun other => by simp [Worker.entry]⟩
    obtain ⟨a, b, pair, members⟩ := both
    rw [pair] at line left
    rw [Worker.drain_two] at left
    have adds := Worker.writtenFor_of_line [] (by rw [line, List.map_nil, List.append_nil])
      left
    refine .idle turned ?_ left fun other => ?_
    · rw [waiting_append, holds, if_pos (.inl (by rw [waits]; rfl))]
    · rw [adds, List.mem_append, written, members, more, mem_arrived, ← or_assoc,
        mem_released listed]

theorem Follows.turn (follows : Follows consumerCount host arrivals w) (arrival : Arrival) :
    Follows consumerCount host (arrivals ++ [arrival]) (w.turn consumerCount arrival) := by
  cases arrival with
  | empty now => exact follows.empty now
  | item work now =>
    by_cases mine : work.host = host
    · cases skipped : work.skipReorder consumerCount with
      | true => exact follows.skips mine skipped
      | false => exact follows.waits mine skipped
    · exact follows.other mine

theorem Follows.inTime (follows : Follows consumerCount host arrivals w) (arrival : Arrival) :
    InTime consumerCount host w arrival ↔ ∀ second ∈ arrival.of host,
      ∀ first ∈ arrived host arrivals,
        if waiting consumerCount host arrivals = some first ∧
            second.overtakes consumerCount first.2 = true
        then NotLater second first.2 else NotLater first.2 second := by
  cases arrival with
  | empty now => simp [InTime, Arrival.of]
  | item work now =>
    by_cases mine : work.host = host
    · simp only [InTime, Arrival.of, mine, if_true, forall_const, Option.mem_some_iff, forall_eq']
      cases follows with
      | idle kept none_waits heap written =>
        simp only [heap, List.not_mem_nil, false_implies, implies_true, and_true, none_waits,
          reduceCtorEq, false_and, if_false, written, Prod.forall]
        constructor
        · exact fun all i first member => all first ⟨i, member⟩
        · rintro all first ⟨i, member⟩
          exact all i first member
      | @held i seq held kept waits listed before heap written =>
        have overtakes : (work.skipReorder consumerCount = true ∨
            (w.entry work).key ≤ archiveReorderSortKey held.unixSecond held.isDollar seq) ↔
              work.overtakes consumerCount held = true := by
          rw [entry_le_iff before, ArchiveItem.overtakes, Bool.or_eq_true, decide_eq_true_eq]
        simp only [heap, List.forall_mem_singleton, overtakes, waits, Option.some.injEq, written]
        constructor
        · rintro ⟨behind, ahead⟩ first member
          by_cases same : (i, held) = first
          · subst same
            simpa using ahead
          · rw [if_neg (by simp [same])]
            exact behind first.2 ⟨first.1, member, Ne.symm same⟩
        · intro all
          refine ⟨fun old listed => ?_, by simpa using all _ listed⟩
          obtain ⟨j, member, differs⟩ := listed
          have placed := all _ member
          rwa [if_neg fun both => differs both.1.symm] at placed
    · simp [InTime, Arrival.of, mine]

end Follows

def reversedThree : List Arrival :=
  [dispatch (lit "1710000003 1 c001 x") (lit "c001") 0,
    dispatch (lit "1710000002 1 c001 x") (lit "c001") (1 / 20),
    dispatch (lit "1710000001 1 c001 x") (lit "c001") (1 / 10)].reduceOption.map
      fun work => .item work work.recvMonotonic

end Order

end PerfStats.Listend
