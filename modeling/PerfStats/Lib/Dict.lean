import Mathlib

namespace PerfStats.Lib

structure Dict (κ ν : Type*) where
  entries : List (κ × ν)
  distinct : (entries.map Prod.fst).Nodup

namespace Dict

variable {κ ν : Type*}

instance [DecidableEq κ] [DecidableEq ν] : DecidableEq (Dict κ ν) := fun a b =>
  decidable_of_iff (a.entries = b.entries) ⟨fun same => by cases a; cases b; cases same; rfl,
    fun same => same ▸ rfl⟩

def empty : Dict κ ν := ⟨[], List.nodup_nil⟩

def size (d : Dict κ ν) : Nat := d.entries.length

def filter (d : Dict κ ν) (p : κ → ν → Bool) : Dict κ ν :=
  ⟨d.entries.filter fun e => p e.1 e.2,
    d.distinct.sublist (List.filter_sublist.map Prod.fst)⟩

def count (d : Dict κ ν) (p : ν → Bool) : Nat := d.entries.countP fun e => p e.2

variable [DecidableEq κ]

def get? (d : Dict κ ν) (k : κ) : Option ν :=
  (d.entries.find? fun e => decide (e.1 = k)).map Prod.snd

def erase (d : Dict κ ν) (k : κ) : Dict κ ν := d.filter fun j _ => decide (j ≠ k)

private def overwrite (k : κ) (v : ν) (e : κ × ν) : κ × ν := if e.1 = k then (k, v) else e

variable (d : Dict κ ν) (k : κ)

private theorem overwrite_fst (v : ν) (e : κ × ν) : (overwrite k v e).1 = e.1 := by
  unfold overwrite
  split
  · next same => exact same.symm
  · rfl

private theorem keys_overwrite (v : ν) (l : List (κ × ν)) :
    (l.map (overwrite k v)).map Prod.fst = l.map Prod.fst := by
  rw [List.map_map]
  apply List.map_congr_left
  intro e _
  exact overwrite_fst k v e

def set (d : Dict κ ν) (k : κ) (v : ν) : Dict κ ν :=
  if present : k ∈ d.entries.map Prod.fst then
    ⟨d.entries.map (overwrite k v), by rw [keys_overwrite]; exact d.distinct⟩
  else
    ⟨d.entries ++ [(k, v)], by
      rw [List.map_append]
      exact List.nodup_append.mpr ⟨d.distinct, by simp, by
        rintro a member b rfl' rfl
        simp only [List.map_cons, List.map_nil, List.mem_singleton] at rfl'
        exact present (rfl' ▸ member)⟩⟩

theorem get?_eq_some {d : Dict κ ν} {k : κ} {v : ν} :
    d.get? k = some v ↔ (k, v) ∈ d.entries := by
  constructor
  · intro found
    obtain ⟨⟨j, w⟩, here, rfl⟩ := Option.map_eq_some_iff.mp found
    have same : j = k := by simpa using List.find?_some here
    exact same ▸ List.mem_of_find?_eq_some here
  · intro member
    cases here : d.entries.find? fun e => decide (e.1 = k) with
    | none =>
      have absent := List.find?_eq_none.mp here (k, v) member
      simp at absent
    | some e =>
      have same : e.1 = k := by simpa using List.find?_some here
      have twin : e = (k, v) :=
        List.inj_on_of_nodup_map d.distinct (List.mem_of_find?_eq_some here) member same
      simp [get?, here, twin]

theorem get?_eq_none {d : Dict κ ν} {k : κ} : d.get? k = none ↔ k ∉ d.entries.map Prod.fst := by
  simp only [get?, Option.map_eq_none_iff, List.find?_eq_none, decide_eq_true_eq, List.mem_map,
    not_exists, not_and]

@[simp] theorem get?_empty : (empty : Dict κ ν).get? k = none := rfl

theorem get?_filter (p : κ → ν → Bool) (k : κ) :
    (d.filter p).get? k = (d.get? k).filter (p k) := by
  apply Option.ext
  intro v
  rw [get?_eq_some, Option.filter_eq_some_iff, get?_eq_some]
  exact List.mem_filter

theorem get?_erase (j : κ) : (d.erase k).get? j = if j = k then none else d.get? j := by
  rw [erase, get?_filter]
  by_cases same : j = k
  · simp [same]
  · cases d.get? j <;> simp [same]

@[simp] theorem get?_erase_self : (d.erase k).get? k = none := by
  simp [get?_erase]

theorem get?_erase_of_ne {k j : κ} (apart : j ≠ k) : (d.erase k).get? j = d.get? j := by
  simp [get?_erase, apart]

theorem get?_set (j : κ) (v : ν) : (d.set k v).get? j = if j = k then some v else d.get? j := by
  apply Option.ext
  intro w
  rw [get?_eq_some]
  unfold set
  split
  · next present =>
      simp only [List.mem_map]
      by_cases same : j = k
      · subst same
        rw [if_pos rfl, Option.some.injEq]
        constructor
        · rintro ⟨e, _, made⟩
          have key := congrArg Prod.fst made
          rw [overwrite_fst] at key
          simp only [overwrite, key, if_true, Prod.mk.injEq] at made
          exact made.2
        · rintro rfl
          obtain ⟨e, member, key⟩ := List.mem_map.mp present
          exact ⟨e, member, by simp [overwrite, key]⟩
      · rw [if_neg same, get?_eq_some]
        constructor
        · rintro ⟨e, member, made⟩
          have key := congrArg Prod.fst made
          rw [overwrite_fst] at key
          have other : e.1 ≠ k := key ▸ same
          simp only [overwrite, other, if_false] at made
          exact made ▸ member
        · intro member
          exact ⟨(j, w), member, by simp [overwrite, same]⟩
  · next absent =>
      simp only [List.mem_append, List.mem_singleton, Prod.mk.injEq]
      by_cases same : j = k
      · subst same
        rw [if_pos rfl, Option.some.injEq]
        constructor
        · rintro (member | ⟨-, rfl⟩)
          · exact absurd (List.mem_map_of_mem (f := Prod.fst) member) absent
          · rfl
        · rintro rfl
          exact .inr ⟨rfl, rfl⟩
      · simp [same, get?_eq_some]

@[simp] theorem get?_set_self (v : ν) : (d.set k v).get? k = some v := by
  simp [get?_set]

theorem get?_set_of_ne {k j : κ} (apart : j ≠ k) (v : ν) : (d.set k v).get? j = d.get? j := by
  simp [get?_set, apart]

theorem get?_foldl_set {α : Type*} (key : α → κ) (val : α → ν) (l : List α) (d : Dict κ ν) :
    (l.foldl (fun d a => d.set (key a) (val a)) d).get? =
      l.foldl (fun (last : κ → Option ν) a => Function.update last (key a) (some (val a))) d.get? := by
  induction l generalizing d with
  | nil => rfl
  | cons a rest ih =>
    rw [List.foldl_cons, List.foldl_cons, ih]
    congr 1
    funext k
    rw [get?_set]
    by_cases same : k = key a
    · simp [same]
    · simp [same]

section Counting

variable (p : ν → Bool)

variable {d : Dict κ ν} {k : κ}

omit [DecidableEq κ] in
private theorem key_apart {l : List (κ × ν)} (fresh : k ∉ l.map Prod.fst) {e : κ × ν}
    (member : e ∈ l) : e.1 ≠ k := by
  rintro rfl
  exact fresh (List.mem_map_of_mem member)

private theorem entries_split {v : ν} (found : d.get? k = some v) :
    ∃ front back, d.entries = front ++ (k, v) :: back ∧
      (d.erase k).entries = front ++ back ∧
      ∀ new, (d.set k new).entries = front ++ (k, new) :: back := by
  have member := get?_eq_some.mp found
  obtain ⟨front, back, split⟩ := List.append_of_mem member
  have distinct := d.distinct
  have kept : ∀ l : List (κ × ν), (∀ e ∈ l, e.1 ≠ k) →
      l.filter (fun e => decide (e.1 ≠ k)) = l := by
    intro l others
    exact List.filter_eq_self.mpr fun e inside => decide_eq_true (others e inside)
  have untouched : ∀ (new : ν) (l : List (κ × ν)), (∀ e ∈ l, e.1 ≠ k) →
      l.map (overwrite k new) = l := by
    intro new l others
    conv_rhs => rw [← List.map_id l]
    apply List.map_congr_left
    intro e inside
    simp [overwrite, others e inside]
  rw [split, List.map_append, List.map_cons, List.nodup_append] at distinct
  have before : ∀ e ∈ front, e.1 ≠ k := fun e inside same =>
    distinct.2.2 e.1 (List.mem_map_of_mem inside) k (.head _) same
  have after : ∀ e ∈ back, e.1 ≠ k := by
    intro e inside same
    have there : k ∈ back.map Prod.fst := List.mem_map.mpr ⟨e, inside, same⟩
    exact (List.nodup_cons.mp distinct.2.1).1 there
  refine ⟨front, back, split, ?_, fun new => ?_⟩
  · change d.entries.filter (fun e => decide (e.1 ≠ k)) = _
    rw [split, List.filter_append, List.filter_cons_of_neg (by simp), kept front before,
      kept back after]
  · unfold set
    rw [dif_pos (List.mem_map_of_mem (f := Prod.fst) member)]
    change d.entries.map (overwrite k new) = _
    rw [split, List.map_append, List.map_cons, untouched new front before,
      untouched new back after]
    simp [overwrite]

theorem entries_perm_erase {v : ν} (found : d.get? k = some v) :
    d.entries.Perm ((k, v) :: (d.erase k).entries) := by
  obtain ⟨front, back, split, erased, -⟩ := entries_split found
  rw [erased, split]
  exact List.perm_middle

theorem count_erase {v : ν} (found : d.get? k = some v) :
    (d.erase k).count p + (p v).toNat = d.count p := by
  obtain ⟨front, back, split, erased, -⟩ := entries_split found
  rw [count, count, split, erased, List.countP_append, List.countP_append, List.countP_cons]
  cases p v <;> simp [Nat.add_assoc]

theorem count_set_new (absent : d.get? k = none) (v : ν) :
    (d.set k v).count p = d.count p + (p v).toNat := by
  unfold set count
  rw [dif_neg (get?_eq_none.mp absent)]
  simp only [List.countP_append, List.countP_cons, List.countP_nil]
  cases p v <;> rfl

theorem count_set_old {old : ν} (found : d.get? k = some old) (v : ν) :
    (d.set k v).count p + (p old).toNat = d.count p + (p v).toNat := by
  obtain ⟨front, back, split, -, set⟩ := entries_split found
  rw [count, count, split, set v, List.countP_append, List.countP_append, List.countP_cons,
    List.countP_cons]
  cases p v <;> cases p old <;> simp [Nat.add_assoc]

end Counting

section Totals

omit [DecidableEq κ] in
def total (d : Dict κ ν) (w : κ → ν → Nat) : Nat := (d.entries.map fun e => w e.1 e.2).sum

variable (w : κ → ν → Nat)

variable {d : Dict κ ν}

theorem total_erase {k : κ} {v : ν} (found : d.get? k = some v) :
    (d.erase k).total w + w k v = d.total w := by
  obtain ⟨front, back, split, erased, -⟩ := entries_split found
  simp only [total, split, erased, List.map_append, List.sum_append, List.map_cons,
    List.sum_cons]
  omega

theorem total_erase_le (d : Dict κ ν) (k : κ) : (d.erase k).total w ≤ d.total w := by
  cases found : d.get? k with
  | some v =>
    have := total_erase w found
    omega
  | none =>
    have untouched : d.entries.filter (fun e => decide (e.1 ≠ k)) = d.entries := by
      apply List.filter_eq_self.mpr
      intro e member
      exact decide_eq_true (key_apart (get?_eq_none.mp found) member)
    have same : (d.erase k).entries = d.entries := untouched
    rw [total, total, same]

theorem total_set_old {k : κ} {old : ν} (found : d.get? k = some old) (v : ν) :
    (d.set k v).total w + w k old = d.total w + w k v := by
  obtain ⟨front, back, split, -, set⟩ := entries_split found
  simp only [total, split, set v, List.map_append, List.sum_append, List.map_cons,
    List.sum_cons]
  omega

theorem total_set_new {k : κ} (absent : d.get? k = none) (v : ν) :
    (d.set k v).total w = d.total w + w k v := by
  unfold set total
  rw [dif_neg (get?_eq_none.mp absent)]
  simp

theorem total_set_le (d : Dict κ ν) (k : κ) (v : ν) :
    (d.set k v).total w ≤ d.total w + w k v := by
  cases found : d.get? k with
  | some old =>
    have := total_set_old w found v
    omega
  | none => exact (total_set_new w found v).le

omit [DecidableEq κ] in
theorem total_le {w w' : κ → ν → Nat}
    (below : ∀ e ∈ d.entries, w e.1 e.2 ≤ w' e.1 e.2) : d.total w ≤ d.total w' :=
  List.sum_le_sum below

end Totals

end Dict

structure Heap (α : Type*) [LinearOrder α] where
  items : List α
  ordered : items.Pairwise (· ≤ ·)

namespace Heap

variable {α : Type*} [LinearOrder α]

def empty : Heap α := ⟨[], .nil⟩

def push (h : Heap α) (a : α) : Heap α :=
  ⟨h.items.orderedInsert (· ≤ ·) a, h.ordered.orderedInsert a h.items⟩

def heapify (l : List α) : Heap α :=
  ⟨l.insertionSort (· ≤ ·), List.pairwise_insertionSort _ l⟩

def pop? (h : Heap α) : Option (α × Heap α) :=
  match h with
  | ⟨[], _⟩ => none
  | ⟨a :: rest, ordered⟩ => some (a, ⟨rest, (List.pairwise_cons.mp ordered).2⟩)

def popWhile (h : Heap α) (p : α → Bool) : Heap α :=
  ⟨h.items.dropWhile p, h.ordered.sublist (List.dropWhile_sublist p)⟩

def size (h : Heap α) : Nat := h.items.length

instance : Membership α (Heap α) := ⟨fun h a => a ∈ h.items⟩

variable {h rest : Heap α} {a : α}

theorem mem_push {b : α} : b ∈ h.push a ↔ b = a ∨ b ∈ h :=
  List.mem_orderedInsert _

theorem mem_heapify {l : List α} : a ∈ heapify l ↔ a ∈ l :=
  List.mem_insertionSort _

theorem items_of_pop? (popped : h.pop? = some (a, rest)) : h.items = a :: rest.items := by
  obtain ⟨items, ordered⟩ := h
  cases items with
  | nil => cases popped
  | cons c tail =>
    obtain ⟨rfl, rfl⟩ := popped
    rfl

theorem mem_of_pop? (popped : h.pop? = some (a, rest)) {b : α} : b ∈ h ↔ b = a ∨ b ∈ rest := by
  change b ∈ h.items ↔ _
  rw [items_of_pop? popped]
  exact List.mem_cons

theorem front_le (popped : h.pop? = some (a, rest)) {b : α} (member : b ∈ h) : a ≤ b := by
  have ordered := h.ordered
  rw [items_of_pop? popped] at ordered
  rcases (mem_of_pop? popped).mp member with rfl | later
  · exact le_refl b
  · exact (List.pairwise_cons.mp ordered).1 b later

theorem not_mem_of_pop?_none (empty : h.pop? = none) (a : α) : a ∉ h := by
  obtain ⟨items, ordered⟩ := h
  cases items with
  | nil => exact List.not_mem_nil
  | cons c tail => cases empty

theorem push_perm (h : Heap α) (a : α) : (h.push a).items.Perm (a :: h.items) :=
  List.perm_orderedInsert _ a h.items

theorem mem_popWhile_of_not {p : α → Bool} (member : a ∈ h)
    (stays : ¬ p a) : a ∈ h.popWhile p := by
  obtain ⟨items, ordered⟩ := h
  change a ∈ items at member
  change a ∈ items.dropWhile p
  clear ordered
  induction items with
  | nil => cases member
  | cons b tail ih =>
    by_cases dropped : p b
    · rw [List.dropWhile_cons_of_pos dropped]
      rcases List.mem_cons.mp member with rfl | later
      · exact absurd dropped stays
      · exact ih later
    · rw [List.dropWhile_cons_of_neg dropped]
      exact member

theorem not_of_pop?_popWhile {p : α → Bool}
    (popped : (h.popWhile p).pop? = some (a, rest)) : ¬ p a := by
  unfold pop? popWhile at popped
  split at popped
  · cases popped
  · next b tail ordered same =>
      obtain ⟨rfl, -⟩ := Prod.mk.inj (Option.some.inj popped)
      have front : h.items.dropWhile p = b :: tail := congrArg Heap.items same
      have stop := List.head?_dropWhile_not p h.items
      rw [front] at stop
      simpa using stop

end Heap

end PerfStats.Lib
