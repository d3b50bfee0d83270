import PerfStats.Monitor.RingBuffer
import PerfStats.Lib.Runs

namespace PerfStats.Monitor

open Lib Lib.LinkHeap

variable {P : Type} (data : P → Option Bytes) {w w' : SfRingBuffer P} {l s t : List Addr} {a : Addr}

section Links

/-- The nodes at `l` form one ring, from `q_first` round to `q`, and `q_count` counts them. -/
structure WellLinked (w : SfRingBuffer P) (l : List Addr) : Prop where
  ring : IsRing w.heap l
  first : w.qFirst = l.head?
  last : w.q = l.getLast?
  count : w.qCount = l.length

theorem WellLinked.empty : WellLinked (SfRingBuffer.empty : SfRingBuffer P) [] :=
  ⟨.nil fun _ => rfl, rfl, rfl, rfl⟩

def walk (heap : LinkHeap Addr P) : Nat → Option Addr → List P
  | 0, _ => []
  | _ + 1, none => []
  | n + 1, some a =>
    match heap a with
    | none => []
    | some cell => cell.val :: walk heap n cell.forward

/-- The payloads in the ring, from `q_first` on. -/
def pending (w : SfRingBuffer P) : List P := walk w.heap w.qCount.toNat w.qFirst

theorem walk_ring {heap : LinkHeap Addr P} (ring : IsRing heap (s ++ t)) :
    walk heap t.length (t ++ s).head? = vals heap t := by
  induction t generalizing s with
  | nil => rfl
  | cons a t ih =>
    obtain ⟨cell, _, stored, forward, values⟩ := ring.cell
    have later := ih (s := s ++ [a]) (by simpa using ring)
    simp only [List.length_cons, List.cons_append, List.head?_cons, walk, stored, forward, later,
      values]

theorem WellLinked.pending_eq (linked : WellLinked w l) : pending w = vals w.heap l := by
  have whole := walk_ring (s := []) linked.ring
  rw [List.append_nil] at whole
  rw [pending, linked.count, linked.first, Int.toNat_natCast, whole]

theorem WellLinked.count_pending (linked : WellLinked w l) :
    w.qCount = (pending w).length := by
  rw [linked.pending_eq, linked.ring.vals_length, linked.count]

theorem WellLinked.behind {b : Addr} (linked : WellLinked w (s ++ a :: b :: t)) :
    some b ≠ w.qFirst := by
  rw [linked.first]
  intro same
  have single := linked.ring.nodup
  cases s with
  | nil =>
    rw [List.nil_append, List.head?_cons, Option.some.injEq] at same
    subst same
    simp at single
  | cons c s =>
    rw [List.cons_append, List.head?_cons, Option.some.injEq] at same
    subst same
    simp at single

theorem WellLinked.congr (linked : WellLinked w l) (heap : w'.heap = w.heap) (q : w'.q = w.q)
    (first : w'.qFirst = w.qFirst) (count : w'.qCount = w.qCount) : WellLinked w' l :=
  ⟨heap ▸ linked.ring, first.trans linked.first, q.trans linked.last, count.trans linked.count⟩

end Links

section Insert

theorem scanVictim_spec (linked : WellLinked w (s ++ t)) (some_left : t ≠ []) {fuel : Nat}
    (enough : t.length ≤ fuel) :
    (scanVictim data w fuel t.head? = .ok none ∧
        ∀ p ∈ vals w.heap t, isSchemaPayload data p = true) ∨
    ∃ before a behind, t = before ++ a :: behind ∧
      scanVictim data w fuel t.head? = .ok (some a) ∧
      (∀ p ∈ vals w.heap before, isSchemaPayload data p = true) ∧
      ∀ cell, w.heap a = some cell → isSchemaPayload data cell.val = false := by
  induction t generalizing s fuel with
  | nil => exact absurd rfl some_left
  | cons a t ih =>
    obtain ⟨cell, found, stored, forward, values⟩ := linked.ring.cell
    cases fuel with
    | zero => simp at enough
    | succ fuel =>
      rw [List.head?_cons, scanVictim]
      simp only [found, bind, Except.bind, pure, Except.pure]
      by_cases schema : isSchemaPayload data cell.val = true
      · rw [if_pos schema]
        cases t with
        | nil =>
          have back : cell.forward = w.qFirst := by rw [forward, linked.first, List.nil_append]
          rw [if_pos back]
          refine .inl ⟨rfl, fun p member => ?_⟩
          rw [values] at member
          obtain rfl : p = cell.val := by simpa [vals] using member
          exact schema
        | cons b t =>
          have ahead : cell.forward ≠ w.qFirst := by
            rw [forward, List.cons_append, List.head?_cons]
            exact linked.behind
          rw [if_neg ahead, forward, List.cons_append, List.head?_cons]
          have later := ih (s := s ++ [a]) (by simpa using linked) (by simp)
            (show (b :: t).length ≤ fuel by simpa using enough)
          rw [List.head?_cons] at later
          obtain ⟨result, all⟩ | ⟨before, c, behind, cut, result, all, plain⟩ := later
          · refine .inl ⟨result, fun p member => ?_⟩
            rw [values, List.mem_cons] at member
            obtain rfl | member := member
            · exact schema
            · exact all p member
          · refine .inr ⟨a :: before, c, behind, by rw [cut, List.cons_append], result, ?_,
              plain⟩
            intro p member
            rw [vals, List.filterMap_cons_some (b := cell.val) (by simp [valOf, stored]),
              List.mem_cons] at member
            obtain rfl | member := member
            · exact schema
            · exact all p member
      · rw [if_neg schema]
        refine .inr ⟨[], a, t, rfl, rfl, by simp [vals], fun other there => ?_⟩
        rw [stored, Option.some.injEq] at there
        subst there
        simpa using schema

/-- What an insert does: it is refused, adds the payload behind the others, or overwrites the first
that is no schema, and what was in front of that goes behind. -/
inductive Inserted (data : P → Option Bytes) (w : SfRingBuffer P) (sf : P)
    (maxBufferSize : Int) (allowOverwrite : Bool) (w' : SfRingBuffer P) : Int → Option P → Prop where
  | refused : pending w' = pending w → w'.qCount = w.qCount →
      Inserted data w sf maxBufferSize allowOverwrite w' (-1) none
  | added : pending w' = pending w ++ [sf] → w'.qCount = w.qCount + 1 →
      (w.qCount = 0 ∨ maxBufferSize = -1 ∨ w.qCount < maxBufferSize) →
      Inserted data w sf maxBufferSize allowOverwrite w' 0 none
  | overwrote (before : List P) (p : P) (behind : List P) :
      pending w = before ++ p :: behind → (∀ x ∈ before, isSchemaPayload data x = true) →
      isSchemaPayload data p = false → pending w' = behind ++ before ++ [sf] →
      w'.qCount = w.qCount → w.qCount ≠ 0 → maxBufferSize ≤ w.qCount → maxBufferSize ≠ -1 →
      allowOverwrite = true → Inserted data w sf maxBufferSize allowOverwrite w' 0 (some p)

def Inserts (data : P → Option Bytes) (w : SfRingBuffer P) (sf : P) (maxBufferSize : Int)
    (allowOverwrite : Bool) (memory : Option Addr) : Prop :=
  ∃ w' rc closed l',
    ringBufferInsert data w sf maxBufferSize allowOverwrite memory = .ok (w', rc, closed) ∧
    WellLinked w' l' ∧ Inserted data w sf maxBufferSize allowOverwrite w' rc closed

theorem callocNode_fresh {heap : LinkHeap Addr P} {memory : Option Addr} {new : Addr}
    (given : callocNode heap memory = some new) : heap new = none := by
  rw [callocNode, Option.filter_eq_some_iff] at given
  simpa using given.2

variable {maxBufferSize : Int}

theorem insert_new (linked : WellLinked w l) (sf : P)
    (room : w.qCount = 0 ∨ ¬ (maxBufferSize ≤ w.qCount ∧ maxBufferSize ≠ -1))
    (allowOverwrite : Bool) {memory : Option Addr} {new : Addr}
    (given : callocNode w.heap memory = some new) :
    ∃ w', ringBufferInsert data w sf maxBufferSize allowOverwrite memory = .ok (w', 0, none) ∧
      WellLinked w' (l ++ [new]) ∧ pending w' = pending w ++ [sf] ∧ w'.qCount = w.qCount + 1 := by
  have whole := linked.pending_eq
  rw [ringBufferInsert]
  cases l with
  | nil =>
    have count : w.qCount = 0 := linked.count
    have cleared : ∀ x, valOf w.heap x = none := by
      intro x
      have absent := (linked.ring.cells x).not.mpr List.not_mem_nil
      simpa using absent
    obtain ⟨heap, result, ring, values⟩ := ring_single cleared new sf
    rw [if_pos count]
    simp only [given, result, bind, Except.bind, pure, Except.pure]
    have linked' : WellLinked { w with
        heap := heap, q := some new, qFirst := some new, qCount := w.qCount + 1 } [new] := by
      refine ⟨ring, rfl, rfl, ?_⟩
      change w.qCount + 1 = _
      rw [count]
      rfl
    refine ⟨_, rfl, linked', ?_, rfl⟩
    rw [linked'.pending_eq, whole]
    exact values
  | cons a t =>
    have some_held : w.qCount ≠ 0 := by
      rw [linked.count, List.length_cons]
      omega
    obtain ⟨z, last⟩ : ∃ z, (a :: t).getLast? = some z :=
      ⟨_, List.getLast?_eq_some_getLast (by simp)⟩
    have fresh : valOf w.heap new = none := by rw [valOf, callocNode_fresh given, Option.map_none]
    obtain ⟨heap, result, ring, values⟩ := linked.ring.push last fresh sf
    rw [if_neg some_held, if_neg (room.resolve_left some_held)]
    simp only [given, linked.last, last, result, bind, Except.bind, pure, Except.pure]
    have linked' : WellLinked { w with
        heap := heap, q := some new, qCount := w.qCount + 1 } (a :: t ++ [new]) := by
      refine ⟨ring, linked.first, ?_, ?_⟩
      · rw [List.getLast?_append_of_ne_nil _ (by simp)]
        rfl
      · change w.qCount + 1 = _
        rw [linked.count, List.length_append]
        rfl
    refine ⟨_, rfl, linked', ?_, rfl⟩
    rw [linked'.pending_eq, whole]
    exact values

theorem insert_room (linked : WellLinked w l) (sf : P)
    (room : w.qCount = 0 ∨ ¬ (maxBufferSize ≤ w.qCount ∧ maxBufferSize ≠ -1))
    (allowOverwrite : Bool) (memory : Option Addr) :
    Inserts data w sf maxBufferSize allowOverwrite memory := by
  cases given : callocNode w.heap memory with
  | none =>
    refine ⟨w, -1, none, l, ?_, linked, .refused rfl rfl⟩
    rw [ringBufferInsert]
    by_cases nothing : w.qCount = 0
    · simp only [if_pos nothing, given]
    · simp only [if_neg nothing, if_neg (room.resolve_left nothing), given]
  | some new =>
    obtain ⟨w', result, linked', values, count⟩ :=
      insert_new data linked sf room allowOverwrite given
    refine ⟨w', 0, none, _, result, linked', .added values count ?_⟩
    omega

theorem insert_full (linked : WellLinked w l) (some_held : w.qCount ≠ 0) (sf : P)
    (full : maxBufferSize ≤ w.qCount ∧ maxBufferSize ≠ -1)
    (allowOverwrite : Bool) (memory : Option Addr) :
    Inserts data w sf maxBufferSize allowOverwrite memory := by
  rw [Inserts, ringBufferInsert, if_neg some_held, if_pos full]
  cases allowOverwrite with
  | false => exact ⟨w, -1, none, l, rfl, linked, .refused rfl rfl⟩
  | true =>
    have held : l ≠ [] := by
      rintro rfl
      exact some_held linked.count
    obtain ⟨z, last⟩ : ∃ z, l.getLast? = some z := ⟨_, List.getLast?_eq_some_getLast held⟩
    have ends : IsRing w.heap (l.dropLast ++ z :: []) := by
      rw [List.dropLast_append_getLast? z last]
      exact linked.ring
    obtain ⟨latest, read_latest, _, behind_latest, _⟩ := ends.cell
    rw [List.nil_append, List.dropLast_append_getLast? z last] at behind_latest
    have enough : l.length ≤ w.qCount.toNat := by
      rw [linked.count]
      simp
    have scanned := scanVictim_spec data (s := []) linked held enough
    rw [← linked.first] at scanned
    simp only [if_true, linked.last, last, read_latest, bind, Except.bind, pure, Except.pure]
    obtain ⟨result, all⟩ | ⟨before, a, behind, rfl, result, all, plain⟩ := scanned
    · cases l with
      | nil => exact absurd rfl held
      | cons a t =>
        obtain ⟨cell, read_first, _, _, values⟩ := linked.ring.cell (s := [])
        have schema := all cell.val (by rw [values]; exact .head _)
        rw [List.head?_cons] at behind_latest
        simp only [result, if_true, behind_latest, read_first, schema]
        exact ⟨w, -1, none, a :: t, rfl, linked, .refused rfl rfl⟩
    · obtain ⟨cell, read_victim, stored, forward, values⟩ := linked.ring.cell
      obtain ⟨heap, written, ring, first_part, here, last_part⟩ := linked.ring.write sf
      simp only [result, reduceCtorEq, if_false, read_victim, plain cell stored, written,
        Bool.false_eq_true]
      have turned : before ++ a :: behind = (before ++ [a]) ++ behind := by simp
      rw [turned] at ring
      have linked' : WellLinked { w with
          heap := heap, q := some a, qFirst := cell.forward, dCount := w.dCount + 1 }
          (behind ++ (before ++ [a])) := by
        refine ⟨ring.rotate, forward, ?_, ?_⟩
        · simp
        · change w.qCount = _
          rw [linked.count]
          simp only [List.length_append, List.length_cons, List.length_nil]
          omega
      refine ⟨_, 0, some cell.val, _, rfl, linked', .overwrote (vals w.heap before) cell.val
        (vals w.heap behind) ?_ all (plain cell stored) ?_ rfl some_held full.1 full.2 rfl⟩
      · rw [linked.pending_eq, vals_append, values]
      · rw [linked'.pending_eq, List.append_assoc]
        simp only [vals_append, first_part, here, last_part]

theorem ringBufferInsert_spec (linked : WellLinked w l) (sf : P) (maxBufferSize : Int)
    (allowOverwrite : Bool) (memory : Option Addr) :
    Inserts data w sf maxBufferSize allowOverwrite memory := by
  by_cases nothing : w.qCount = 0
  · exact insert_room data linked sf (.inl nothing) allowOverwrite memory
  · by_cases full : maxBufferSize ≤ w.qCount ∧ maxBufferSize ≠ -1
    · exact insert_full data linked nothing sf full allowOverwrite memory
    · exact insert_room data linked sf (.inr full) allowOverwrite memory

end Insert

section Resend

theorem ringBufferDropFirst_spec (linked : WellLinked w l) :
    ∃ w' l', ringBufferDropFirst w = .ok (w', (pending w).head?) ∧ WellLinked w' l' ∧
      pending w' = (pending w).tail := by
  have whole := linked.pending_eq
  rw [ringBufferDropFirst, linked.first]
  cases l with
  | nil =>
    have nothing : pending w = [] := whole
    rw [nothing]
    exact ⟨w, [], rfl, linked, nothing⟩
  | cons a t =>
    obtain ⟨cell, read_first, _, forward, values⟩ := linked.ring.cell (s := [])
    obtain ⟨heap₁, heap, removed, freed, ring, same⟩ := linked.ring.pop
    have count := linked.count
    rw [List.length_cons] at count
    rw [values] at whole
    rw [whole, List.head?_cons]
    dsimp only
    rw [if_neg (by omega)]
    simp only [read_first, removed, freed, bind, Except.bind, pure, Except.pure, List.head?_cons,
      List.tail_cons]
    by_cases single : w.qCount = 1
    · have no_more : t = [] := List.length_eq_zero_iff.mp (by omega)
      subst no_more
      rw [if_pos single]
      have linked' : WellLinked { w with
          heap := heap, q := none, qFirst := none, qCount := 0 } [] := ⟨ring, rfl, rfl, rfl⟩
      exact ⟨_, [], rfl, linked', linked'.pending_eq.trans same⟩
    · rw [if_neg single]
      have linked' : WellLinked { w with
          heap := heap, qFirst := cell.forward, qCount := w.qCount - 1,
          q := if w.q = some a then cell.backward else w.q } t := by
        cases t with
        | nil =>
          rw [List.length_nil] at count
          omega
        | cons b t =>
          have last : w.q = (b :: t).getLast? := linked.last
          have other : w.q ≠ some a := by
            intro same_node
            have member := List.mem_of_getLast? (last.symm.trans same_node)
            exact (List.nodup_cons.mp linked.ring.nodup).1 member
          refine ⟨ring, forward, ?_, ?_⟩
          · change (if w.q = some a then cell.backward else w.q) = _
            rw [if_neg other, last]
          · change w.qCount - 1 = _
            omega
      exact ⟨_, t, rfl, linked', linked'.pending_eq.trans same⟩

theorem dropTimes_spec (n : Nat) (linked : WellLinked w l) :
    ∃ w' l', dropTimes n w = .ok w' ∧ WellLinked w' l' ∧ pending w' = (pending w).drop n := by
  induction n generalizing w l with
  | zero => exact ⟨w, l, rfl, linked, rfl⟩
  | succ n ih =>
    obtain ⟨mid, l', dropped, linked', rest⟩ := ringBufferDropFirst_spec linked
    obtain ⟨w', l'', later, linked'', last⟩ := ih linked'
    refine ⟨w', l'', ?_, linked'', ?_⟩
    · simp only [dropTimes, dropped, bind, Except.bind, later]
    · rw [last, rest, List.drop_tail]

def Batchable (data : P → Option Bytes) (p : P) : Prop :=
  (data p).isSome ∧ isSchemaPayload data p = false

theorem batchFrom_spec (linked : WellLinked w (s ++ t)) (softMax more len : Nat) :
    ∃ len' n, batchFrom data w softMax more (t ++ s).head? len s.length = .ok (len', n) ∧
      s.length ≤ n ∧ n ≤ (s ++ t).length ∧
      ∀ p ∈ (vals w.heap t).take (n - s.length), Batchable data p := by
  have stop : ∀ (s t : List Addr) (len : Nat),
      ∃ len' n, (Except.ok (len, s.length) : Except Unit (Nat × Nat)) = .ok (len', n) ∧
        s.length ≤ n ∧ n ≤ (s ++ t).length ∧
        ∀ p ∈ (vals w.heap t).take (n - s.length), Batchable data p := by
    intro s t len
    exact ⟨len, s.length, rfl, le_rfl, by simp, by simp⟩
  induction more generalizing s t len with
  | zero => exact stop s t len
  | succ more ih =>
    cases t with
    | nil =>
      cases s with
      | nil => exact stop [] [] len
      | cons b s =>
        have all : w.qCount ≤ (b :: s).length := by
          have count := linked.count
          rw [List.append_nil] at count
          omega
        rw [List.nil_append, List.head?_cons, batchFrom, if_pos all]
        exact stop _ [] len
    | cons a t =>
      obtain ⟨cell, found, _, forward, values⟩ := linked.ring.cell
      have more_left : ¬ w.qCount ≤ s.length := by
        have count := linked.count
        rw [List.length_append, List.length_cons] at count
        omega
      rw [List.cons_append, List.head?_cons, batchFrom, if_neg more_left]
      simp only [found, bind, Except.bind, pure, Except.pure]
      cases text : data cell.val with
      | none => exact stop s _ len
      | some bytes =>
        dsimp only
        split
        · exact stop s _ len
        · next plain =>
            split
            · exact stop s _ len
            · have here : Batchable data cell.val := ⟨by simp [text], by simpa using plain⟩
              split
              · refine ⟨_, s.length + 1, rfl, by omega, by simp, ?_⟩
                rw [Nat.add_sub_cancel_left, values]
                simpa using here
              · have next := ih (s := s ++ [a]) (t := t) (by simpa using linked)
                  (len + bytes.length)
                obtain ⟨len', n, result, atLeast, atMost, all⟩ := next
                rw [List.length_append, List.length_singleton] at result atLeast all
                refine ⟨len', n, by rw [forward, result], by omega, by simpa using atMost, ?_⟩
                obtain ⟨k, rfl⟩ := Nat.exists_eq_add_of_le atLeast
                intro p member
                have front : s.length + 1 + k - s.length = k + 1 := by omega
                rw [values, front, List.take_succ_cons, List.mem_cons] at member
                obtain rfl | member := member
                · exact here
                · exact all p (by rwa [Nat.add_sub_cancel_left])

theorem mergedFrom_spec {heap : LinkHeap Addr P} (ring : IsRing heap (s ++ t)) {n : Nat}
    (enough : n ≤ t.length) (texts : ∀ p ∈ (vals heap t).take n, (data p).isSome) :
    mergedFrom data heap n (t ++ s).head? =
      .ok (((vals heap t).take n).flatMap fun p => (data p).getD []) := by
  induction n generalizing s t with
  | zero => rfl
  | succ n ih =>
    cases t with
    | nil => simp at enough
    | cons a t =>
      obtain ⟨cell, found, _, forward, values⟩ := ring.cell
      rw [values, List.take_succ_cons] at texts ⊢
      obtain ⟨text, held⟩ := Option.isSome_iff_exists.mp (texts _ (.head _))
      have rest := ih (s := s ++ [a]) (t := t) (by simpa using ring) (by simpa using enough)
        fun p member => texts p (.tail _ member)
      rw [List.cons_append, List.head?_cons, mergedFrom]
      simp only [found, held, forward, rest, bind, Except.bind, pure, Except.pure,
        List.flatMap_cons, Option.getD_some]

def Merges (data : P → Option Bytes) (batch : List P) (message : Message P) : Prop :=
  batch.head? = some message.1 ∧ message.2 = batch.flatMap fun p => (data p).getD []

theorem nextBatch_spec (linked : WellLinked w (a :: t)) (softMax : Nat) {head : P}
    (first : (pending w).head? = some head) :
    ∃ len n, nextBatch data w softMax head = .ok (len, n) ∧ n ≤ (pending w).length ∧
      (n ≠ 1 → ∀ p ∈ (pending w).take n, (data p).isSome) := by
  have whole := linked.pending_eq
  rw [nextBatch]
  split
  · refine ⟨0, 1, rfl, ?_, by simp⟩
    cases held : pending w with
    | nil => simp [held] at first
    | cons p rest => simp
  · have batch := batchFrom_spec data (s := []) linked softMax 10 1
    obtain ⟨len, n, result, _, atMost, all⟩ := batch
    refine ⟨len, n, ?_, ?_, fun _ p member => ?_⟩
    · rw [linked.first]
      simpa using result
    · rw [whole, linked.ring.vals_length]
      exact atMost
    · rw [whole] at member
      exact (all p (by simpa using member)).1

theorem batchMessage_spec (linked : WellLinked w l) {head : P} {n : Nat} (positive : n ≠ 0)
    (first : (pending w).head? = some head) (atMost : n ≤ (pending w).length)
    (texts : n ≠ 1 → ∀ p ∈ (pending w).take n, (data p).isSome) (granted : Bool) :
    batchMessage data w head n granted = .ok none ∨
    ∃ message, batchMessage data w head n granted = .ok (some message) ∧
      Merges data ((pending w).take n) message := by
  obtain ⟨k, rfl⟩ := Nat.exists_eq_succ_of_ne_zero positive
  obtain ⟨rest, held⟩ : ∃ rest, pending w = head :: rest := by
    cases held : pending w with
    | nil => simp [held] at first
    | cons p rest =>
      rw [held, List.head?_cons, Option.some.injEq] at first
      exact ⟨rest, by rw [first]⟩
  rw [batchMessage]
  split
  · next single =>
      refine .inr ⟨_, rfl, ?_, ?_⟩
      · rw [held, List.take_succ_cons, List.head?_cons]
      · rw [held, single]
        simp
  · next several =>
      split
      · have whole := linked.pending_eq
        have merged := mergedFrom_spec data (s := []) (n := k + 1) linked.ring
          (by rwa [whole, linked.ring.vals_length] at atMost) (by rw [← whole]; exact texts several)
        rw [List.append_nil, ← linked.first] at merged
        simp only [Nat.succ_eq_add_one, merged, bind, Except.bind, pure, Except.pure]
        refine .inr ⟨_, rfl, ?_, ?_⟩
        · rw [held, List.take_succ_cons, List.head?_cons]
        · rw [whole]
      · exact .inl rfl

theorem sendBatch_spec (linked : WellLinked w l) (broker : Broker) (batches : Nat) {head : P}
    (len : Nat) {n : Nat} (first : (pending w).head? = some head)
    (atMost : n ≤ (pending w).length)
    (texts : n ≠ 1 → ∀ p ∈ (pending w).take n, (data p).isSome) :
    ∃ w' sent l', sendBatch data w broker batches head len n = .ok (w', sent) ∧
      WellLinked w' l' ∧
      (sent = none ∧ pending w' = pending w ∨
        n ≠ 0 ∧ pending w' = (pending w).drop n ∧
          ∃ message, sent = some message ∧ Merges data ((pending w).take n) message) := by
  rw [sendBatch]
  by_cases nothing : n = 0
  · rw [if_pos nothing]
    exact ⟨w, none, l, rfl, linked, .inl ⟨rfl, rfl⟩⟩
  · rw [if_neg nothing]
    simp only [bind, Except.bind, pure, Except.pure]
    obtain refused | ⟨message, made, merges⟩ :=
      batchMessage_spec data linked nothing first atMost texts (broker.malloc batches len)
    · rw [refused]
      exact ⟨_, none, l, rfl, linked.congr rfl rfl rfl rfl, .inl ⟨rfl, rfl⟩⟩
    · rw [made]
      dsimp only
      split
      · exact ⟨_, none, l, rfl, linked.congr rfl rfl rfl rfl, .inl ⟨rfl, rfl⟩⟩
      · have sent : WellLinked { w with
            status := broker.send batches, rCount := w.rCount + n } l :=
          linked.congr rfl rfl rfl rfl
        obtain ⟨w', l', dropped, linked', rest⟩ := dropTimes_spec n sent
        rw [dropped]
        exact ⟨w', some message, l', rfl, linked', .inr ⟨nothing, rest, message, rfl, merges⟩⟩

theorem resendTurn_spec (linked : WellLinked w l) (some_held : pending w ≠ []) (softMax : Nat)
    (broker : Broker) (batches : Nat) :
    ∃ w' sent n l', resendTurn data w softMax broker batches = .ok (w', sent, n) ∧
      WellLinked w' l' ∧
      (sent = none ∧ pending w' = pending w ∨
        n ≠ 0 ∧ n ≤ (pending w).length ∧ pending w' = (pending w).drop n ∧
          ∃ message, sent = some message ∧ Merges data ((pending w).take n) message) := by
  have whole := linked.pending_eq
  cases l with
  | nil => exact absurd whole some_held
  | cons a t =>
    obtain ⟨cell, found, _, _, values⟩ := linked.ring.cell (s := [])
    have first : (pending w).head? = some cell.val := by rw [whole, values, List.head?_cons]
    obtain ⟨len, n, gathered, atMost, texts⟩ := nextBatch_spec data linked softMax first
    obtain ⟨w', sent, l', result, linked', outcome⟩ :=
      sendBatch_spec data linked broker batches len first atMost texts
    refine ⟨w', sent, n, l', ?_, linked', ?_⟩
    · rw [resendTurn, if_neg (by rw [linked.first]; simp), linked.first, List.head?_cons]
      simp only [found, gathered, result, bind, Except.bind, pure, Except.pure]
    · obtain same | ⟨positive, rest, message, made⟩ := outcome
      · exact .inl same
      · exact .inr ⟨positive, atMost, rest, message, made⟩

theorem resendFrom_spec (linked : WellLinked w l) (softMax : Nat) (broker : Broker)
    (maxBatches maxRuntimeUs : Int) (batches : Nat) {fuel : Nat}
    (enough : (pending w).length ≤ fuel) :
    ∃ w' messages processed l',
      resendFrom data softMax broker maxBatches maxRuntimeUs fuel w batches =
        .ok (w', messages, processed) ∧ WellLinked w' l' ∧
      ∃ parts : List (List P), List.Forall₂ (Merges data) parts messages ∧
        pending w = parts.flatten ++ pending w' ∧ processed = parts.flatten.length := by
  have count := linked.count_pending
  induction fuel generalizing w l batches with
  | zero =>
    have halts : ¬ 0 < w.qCount := by omega
    rw [resendFrom, if_neg halts]
    exact ⟨w, [], 0, l, rfl, linked, [], .nil, rfl, rfl⟩
  | succ fuel ih =>
    rw [resendFrom]
    by_cases goes : 0 < w.qCount
    · have some_held : pending w ≠ [] := by
        intro nothing
        rw [nothing, List.length_nil] at count
        omega
      rw [if_pos goes]
      obtain ⟨mid, sent, n, l', turn, linked', outcome⟩ :=
        resendTurn_spec data linked some_held softMax broker batches
      simp only [turn, bind, Except.bind, pure, Except.pure]
      obtain ⟨rfl, same⟩ | ⟨positive, atMost, rest, message, rfl, merges⟩ := outcome
      · exact ⟨mid, [], 0, l', rfl, linked', [], .nil, by simp [same], rfl⟩
      · have cut : pending w = (pending w).take n ++ pending mid := by
          rw [rest, List.take_append_drop]
        have size : ((pending w).take n).length = n := by
          rw [List.length_take]
          omega
        dsimp only
        split
        · refine ⟨mid, [message], n, l', rfl, linked', [(pending w).take n],
            .cons merges .nil, ?_, ?_⟩
          · simpa using cut
          · simpa using size.symm
        · have fewer : (pending mid).length ≤ fuel := by
            rw [rest, List.length_drop]
            omega
          obtain ⟨w', messages, processed, l'', later, linked'', parts, all, split, total⟩ :=
            ih linked' (batches + 1) fewer linked'.count_pending
          rw [later]
          refine ⟨w', message :: messages, n + processed, l'', rfl, linked'',
            (pending w).take n :: parts, .cons merges all, ?_, ?_⟩
          · rw [List.flatten_cons, List.append_assoc, ← split]
            exact cut
          · rw [List.flatten_cons, List.length_append, size, total]
    · rw [if_neg goes]
      exact ⟨w, [], 0, l, rfl, linked, [], .nil, rfl, rfl⟩

end Resend

end PerfStats.Monitor
