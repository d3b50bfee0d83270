import Mathlib.Algebra.Order.Group.Basic
import Mathlib.Data.List.TakeWhile

namespace PerfStats.Lib

variable {α : Type*} [AddCommGroup α] [LinearOrder α] {width now : α}
variable {limit : Nat} {log kept : List α}

/-- No window of the width contains more than `limit` events, wherever it lies. -/
def AtMost (width : α) (limit : Nat) (log : List α) : Prop :=
  ∀ x, (log.countP fun t => decide (x ≤ t ∧ t ≤ x + width)) ≤ limit

def recent (width now : α) (log : List α) : Nat := log.countP fun t => decide (now - t ≤ width)

def prune (width now : α) (kept : List α) : List α :=
  kept.dropWhile fun t => decide (width < now - t)

theorem recent_later [IsOrderedAddMonoid α] {after : α} (le : now ≤ after) (log : List α) :
    recent width after log ≤ recent width now log := by
  refine List.countP_mono_left fun t _ within => ?_
  simp only [decide_eq_true_eq] at within ⊢
  exact (sub_le_sub_right le t).trans within

theorem recent_note (now : α) (log : List α) (t : α) :
    recent width now (log ++ [t]) ≤ recent width now log + 1 := by
  unfold recent
  rw [List.countP_append]
  exact Nat.add_le_add_left (List.countP_le_length) _

theorem AtMost.nil : AtMost width limit [] := fun _ => Nat.zero_le _

theorem atMost_append [IsOrderedAddMonoid α] (nonneg : 0 ≤ width) (latest : ∀ t ∈ log, t ≤ now) :
    AtMost width limit (log ++ [now]) ↔ AtMost width limit log ∧ recent width now log < limit := by
  have same : (log.countP fun t => decide (now - width ≤ t ∧ t ≤ now - width + width)) =
      recent width now log := by
    refine List.countP_congr fun t mem => ?_
    simp only [decide_eq_true_eq, sub_add_cancel, latest t mem, and_true]
    exact sub_le_comm
  constructor
  · intro most
    refine ⟨fun x => le_trans ?_ (most x), ?_⟩
    · rw [List.countP_append]
      exact Nat.le_add_right _ _
    · have last := most (now - width)
      rw [List.countP_append, same, List.countP_cons_of_pos (by simp [nonneg])] at last
      exact last
  · rintro ⟨most, place⟩ x
    rw [List.countP_append]
    by_cases inside : x ≤ now ∧ now ≤ x + width
    · have fewer : (log.countP fun t => decide (x ≤ t ∧ t ≤ x + width)) ≤ recent width now log := by
        refine List.countP_mono_left fun t _ within => ?_
        simp only [decide_eq_true_eq] at within ⊢
        have start : now - width ≤ x := sub_le_iff_le_add.mpr inside.2
        exact sub_le_comm.mp (start.trans within.1)
      rw [List.countP_cons_of_pos (by simpa using inside)]
      exact Nat.succ_le_of_lt (Nat.lt_of_le_of_lt fewer place)
    · rw [List.countP_cons_of_neg (by simpa using inside)]
      exact most x

structure Recorded (width now : α) (log kept : List α) : Prop where
  ordered : log.Pairwise (· ≤ ·)
  latest : ∀ t ∈ log, t ≤ now
  gone : ∃ old, log = old ++ kept ∧ ∀ t ∈ old, width < now - t

theorem Recorded.nil : Recorded width now [] [] :=
  ⟨List.Pairwise.nil, fun _ mem => absurd mem List.not_mem_nil, [], rfl,
    fun _ mem => absurd mem List.not_mem_nil⟩

theorem Recorded.later [IsOrderedAddMonoid α] {after : α} (recorded : Recorded width now log kept)
    (le : now ≤ after) :
    Recorded width after log kept := by
  obtain ⟨old, split, gone⟩ := recorded.gone
  refine ⟨recorded.ordered, fun t mem => (recorded.latest t mem).trans le, old, split, ?_⟩
  exact fun t mem => (gone t mem).trans_le (sub_le_sub_right le t)

theorem Recorded.prune (recorded : Recorded width now log kept) :
    Recorded width now log (prune width now kept) := by
  obtain ⟨old, split, gone⟩ := recorded.gone
  refine ⟨recorded.ordered, recorded.latest,
    old ++ kept.takeWhile fun t => decide (width < now - t), ?_, fun t mem => ?_⟩
  · rw [List.append_assoc]
    unfold Lib.prune
    rw [List.takeWhile_append_dropWhile, split]
  · rcases List.mem_append.mp mem with early | early
    · exact gone t early
    · have passed := List.mem_takeWhile_imp early
      exact of_decide_eq_true passed

theorem Recorded.note (recorded : Recorded width now log kept) :
    Recorded width now (log ++ [now]) (kept ++ [now]) := by
  obtain ⟨old, split, gone⟩ := recorded.gone
  refine ⟨?_, fun t mem => ?_, old, by rw [split, List.append_assoc], gone⟩
  · rw [List.pairwise_append]
    refine ⟨recorded.ordered, List.pairwise_singleton _ _, fun t mem last eq => ?_⟩
    rw [List.mem_singleton.mp eq]
    exact recorded.latest t mem
  · rcases List.mem_append.mp mem with early | last
    · exact recorded.latest t early
    · exact (List.mem_singleton.mp last).le

theorem Recorded.prune_length [IsOrderedAddMonoid α] (recorded : Recorded width now log kept) :
    (Lib.prune width now kept).length = recent width now log := by
  obtain ⟨old, split, gone⟩ := recorded.gone
  have none : recent width now old = 0 := by
    refine List.countP_eq_zero.mpr fun t mem => ?_
    simp only [decide_eq_true_eq, not_le]
    exact gone t mem
  have ordered : kept.Pairwise (· ≤ ·) := by
    have all := recorded.ordered
    rw [split] at all
    exact (List.pairwise_append.mp all).2.1
  have whole : recent width now log = recent width now kept := by
    unfold recent at none ⊢
    rw [split, List.countP_append, none, Nat.zero_add]
  rw [whole]
  unfold Lib.prune recent
  clear split whole recorded
  induction kept with
  | nil => rfl
  | cons t rest ih =>
    have rest' := List.pairwise_cons.mp ordered
    by_cases left : width < now - t
    · rw [List.dropWhile_cons_of_pos (by simpa using left),
        List.countP_cons_of_neg (by rw [decide_eq_true_eq, not_le]; exact left)]
      exact ih rest'.2
    · rw [List.dropWhile_cons_of_neg (by simpa using left), List.countP_eq_length.mpr]
      intro u mem
      have first : t ≤ u := by
        rcases List.mem_cons.mp mem with rfl | later
        · exact le_rfl
        · exact rest'.1 u later
      exact decide_eq_true ((sub_le_sub_left first now).trans (not_lt.mp left))

end PerfStats.Lib
