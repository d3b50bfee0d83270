import Mathlib

namespace PerfStats.Lib

variable {α ι : Type*}

theorem filter_append_filter_perm (p q : α → Bool) (l : List α) :
    (l.filter p ++ l.filter q).Perm
      (l.filter (fun a => p a || q a) ++ l.filter fun a => p a && q a) := by
  have counted :=
    Multiset.filter_add_filter (fun a => p a = true) (fun a => q a = true) (l : Multiset α)
  simpa using counted

theorem filter_append_of_apart {p q : α → Bool} {l : List α}
    (apart : ∀ a ∈ l, p a = true → q a = false) :
    (l.filter p ++ l.filter q).Perm (l.filter fun a => p a || q a) := by
  have none_twice : l.filter (fun a => p a && q a) = [] := by
    apply List.filter_eq_nil_iff.mpr
    intro a member both
    have := apart a member (by simp_all)
    simp_all
  simpa only [none_twice, List.append_nil] using filter_append_filter_perm p q l

theorem flatMap_filter_perm (p : ι → α → Bool) {parts : List ι} {l : List α}
    (apart : parts.Pairwise fun i j => ∀ a ∈ l, p i a = true → p j a = false) :
    (parts.flatMap fun i => l.filter (p i)).Perm (l.filter fun a => parts.any fun i => p i a) := by
  induction parts with
  | nil => simp
  | cons i rest ih =>
    obtain ⟨front, behind⟩ := List.pairwise_cons.mp apart
    have others : ∀ a ∈ l, p i a = true → rest.any (fun j => p j a) = false := by
      intro a member holds
      apply List.any_eq_false.mpr
      intro j inside
      simp [front j inside a member holds]
    rw [List.flatMap_cons]
    simpa only [List.any_cons] using
      ((ih behind).append_left (l.filter (p i))).trans (filter_append_of_apart others)

theorem append_pairs_perm (a b c d : List α) :
    (a ++ b ++ (c ++ d)).Perm (a ++ c ++ (b ++ d)) := by
  rw [List.append_assoc, List.append_assoc]
  exact (List.perm_append_comm_assoc b c d).append_left a

theorem append_pairs_of {l first later a b c d whole rest : List α} (l_eq : l = first ++ later)
    (left : first.Perm (a ++ b)) (right : later.Perm (c ++ d)) (chosen : (a ++ c).Perm whole)
    (others : (b ++ d).Perm rest) : l.Perm (whole ++ rest) := by
  rw [l_eq]
  exact (left.append right).trans ((append_pairs_perm a b c d).trans (chosen.append others))

theorem perm_append_left_iff {l m extra : List α} (same : l.Perm (m ++ extra)) :
    l.Perm m ↔ extra = [] := by
  constructor
  · intro equal
    have lengths := same.length_eq.symm.trans equal.length_eq
    rw [List.length_append] at lengths
    exact List.length_eq_zero_iff.mp (by omega)
  · intro none_more
    simpa only [none_more, List.append_nil] using same

end PerfStats.Lib
