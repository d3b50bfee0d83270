import Mathlib

/-! Stable sorting, first-appearance grouping and scans that keep one value per key: a whole-list
operation acts on each series by itself. -/

namespace PerfStats.Lib

open Function

section Sorting

variable {α : Type*} (r : α → α → Prop) [DecidableRel r]

theorem orderedInsert_front (a : α) (l : List α) (front : ∀ b ∈ l, r a b) :
    l.orderedInsert r a = a :: l := by
  cases l with
  | nil => rfl
  | cons b tail => exact List.orderedInsert_cons_of_le r tail (front b (by simp))

theorem filter_orderedInsert [IsTrans α r] (p : α → Bool) (a : α) (l : List α)
    (sorted : l.Pairwise r) :
    (l.orderedInsert r a).filter p =
      if p a then (l.filter p).orderedInsert r a else l.filter p := by
  induction l with
  | nil => by_cases keep : p a <;> simp [keep]
  | cons b tail ih =>
    have rest := ih (List.pairwise_cons.mp sorted).2
    have below := (List.pairwise_cons.mp sorted).1
    by_cases here : r a b
    · rw [List.orderedInsert_cons_of_le r tail here]
      by_cases keep : p a
      · rw [List.filter_cons_of_pos keep, if_pos keep]
        symm
        apply orderedInsert_front
        intro c member
        rcases List.mem_cons.mp (List.mem_filter.mp member).1 with rfl | later
        · exact here
        · exact IsTrans.trans _ _ _ here (below c later)
      · rw [List.filter_cons_of_neg keep, if_neg keep]
    · rw [List.orderedInsert_of_not_le r tail here]
      by_cases head : p b
      · rw [List.filter_cons_of_pos head, List.filter_cons_of_pos head, rest]
        by_cases keep : p a
        · rw [if_pos keep, if_pos keep, List.orderedInsert_of_not_le r _ here]
        · rw [if_neg keep, if_neg keep]
      · rw [List.filter_cons_of_neg head, List.filter_cons_of_neg head, rest]

theorem filter_insertionSort [Std.Total r] [IsTrans α r] (p : α → Bool) (l : List α) :
    (l.insertionSort r).filter p = (l.filter p).insertionSort r := by
  induction l with
  | nil => rfl
  | cons a tail ih =>
    rw [List.insertionSort_cons,
      filter_orderedInsert r p a _ (List.pairwise_insertionSort r tail), ih]
    by_cases keep : p a
    · rw [if_pos keep, List.filter_cons_of_pos keep, List.insertionSort_cons]
    · rw [if_neg keep, List.filter_cons_of_neg keep]

end Sorting

section Series

variable {α κ : Type*} (key : α → κ)

def series [DecidableEq κ] (k : κ) (l : List α) : List α :=
  l.filter (fun a => decide (key a = k))

@[simp] theorem series_append [DecidableEq κ] (k : κ) (l l' : List α) :
    series key k (l ++ l') = series key k l ++ series key k l' :=
  List.filter_append ..

theorem series_cons_self [DecidableEq κ] (a : α) (l : List α) :
    series key (key a) (a :: l) = a :: series key (key a) l := by
  simp [series]

theorem series_cons_other [DecidableEq κ] {k : κ} {a : α} (other : key a ≠ k) (l : List α) :
    series key k (a :: l) = series key k l := by
  simp [series, other]

theorem mem_series [DecidableEq κ] {k : κ} {a : α} {l : List α} :
    a ∈ series key k l ↔ a ∈ l ∧ key a = k := by
  simp [series]

theorem series_filter [DecidableEq κ] (p : α → Bool) (k : κ) (l : List α) :
    series key k (l.filter p) = (series key k l).filter p := by
  simp only [series, List.filter_filter, Bool.and_comm]

theorem series_flatMap {ι : Type*} [DecidableEq κ] {code : ι → κ} {l : List ι}
    {block : ι → List α} (distinct : (l.map code).Nodup)
    (keyed : ∀ i ∈ l, ∀ a ∈ block i, key a = code i) {i : ι} (member : i ∈ l) :
    series key (code i) (l.flatMap block) = block i := by
  induction l with
  | nil => cases member
  | cons first rest ih =>
    obtain ⟨fresh, later⟩ := List.nodup_cons.mp distinct
    have own : ∀ j ∈ rest, ∀ a ∈ block j, key a = code j :=
      fun j inside => keyed j (.tail first inside)
    rw [List.flatMap_cons, series_append]
    rcases List.mem_cons.mp member with rfl | inside
    · have whole : series key (code i) (block i) = block i := by
        apply List.filter_eq_self.mpr
        intro a here
        exact decide_eq_true (keyed i (.head _) a here)
      have none : series key (code i) (rest.flatMap block) = [] := by
        apply List.filter_eq_nil_iff.mpr
        intro a there
        obtain ⟨j, inside, here⟩ := List.mem_flatMap.mp there
        rw [decide_eq_true_iff, own j inside a here]
        exact fun same => fresh (same ▸ List.mem_map_of_mem inside)
      rw [whole, none, List.append_nil]
    · have none : series key (code i) (block first) = [] := by
        apply List.filter_eq_nil_iff.mpr
        intro a here
        rw [decide_eq_true_iff, keyed first (.head _) a here]
        exact fun same => fresh (same ▸ List.mem_map_of_mem inside)
      rw [none, List.nil_append, ih later own inside]

theorem eq_of_series [LinearOrder κ] {l l' : List α}
    (sorted : l.Pairwise fun a b => key a ≤ key b)
    (sorted' : l'.Pairwise fun a b => key a ≤ key b)
    (same : ∀ k, series key k l = series key k l') : l = l' := by
  induction l generalizing l' with
  | nil =>
    cases l' with
    | nil => rfl
    | cons b rest =>
      have empty := same (key b)
      rw [series_cons_self] at empty
      cases empty
  | cons a tail ih =>
    cases l' with
    | nil =>
      have empty := same (key a)
      rw [series_cons_self] at empty
      cases empty
    | cons b rest =>
      have inRight : a ∈ series key (key a) (b :: rest) := by
        rw [← same, series_cons_self]
        exact .head _
      have inLeft : b ∈ series key (key b) (a :: tail) := by
        rw [same, series_cons_self]
        exact .head _
      have inRight := ((mem_series key).mp inRight).1
      have inLeft := ((mem_series key).mp inLeft).1
      have keys : key a = key b := by
        apply le_antisymm
        · rcases List.mem_cons.mp inLeft with rfl | later
          · exact le_rfl
          · exact (List.pairwise_cons.mp sorted).1 b later
        · rcases List.mem_cons.mp inRight with rfl | later
          · exact le_rfl
          · exact (List.pairwise_cons.mp sorted').1 a later
      have heads := same (key a)
      rw [series_cons_self, keys, series_cons_self] at heads
      obtain ⟨rfl, tails⟩ := List.cons.inj heads
      congr 1
      apply ih (List.pairwise_cons.mp sorted).2 (List.pairwise_cons.mp sorted').2
      intro k
      by_cases this : key a = k
      · subst this
        exact tails
      · have whole := same k
        rwa [series_cons_other key this, series_cons_other key this] at whole

def sortBy [LinearOrder κ] (l : List α) : List α := l.insertionSort fun a b => key a ≤ key b

section SortBy

variable [LinearOrder κ]

private instance sortTotal : Std.Total fun a b => key a ≤ key b := ⟨fun a b => le_total (key a) (key b)⟩

private instance sortTrans : IsTrans α fun a b => key a ≤ key b := ⟨fun _ _ _ => le_trans⟩

theorem sortBy_pairwise (l : List α) : (sortBy key l).Pairwise fun a b => key a ≤ key b :=
  List.pairwise_insertionSort _ l

theorem sortBy_perm (l : List α) : (sortBy key l).Perm l := List.perm_insertionSort _ l

theorem filter_sortBy (p : α → Bool) (l : List α) :
    (sortBy key l).filter p = sortBy key (l.filter p) :=
  filter_insertionSort _ p l

theorem sortBy_of_pairwise {l : List α} (sorted : l.Pairwise fun a b => key a ≤ key b) :
    sortBy key l = l :=
  sorted.insertionSort_eq

theorem series_sortBy (k : κ) (l : List α) : series key k (sortBy key l) = series key k l := by
  rw [series, filter_sortBy]
  apply sortBy_of_pairwise
  apply List.pairwise_of_forall_mem_list
  intro a first b second
  rw [((mem_series key).mp first).2, ((mem_series key).mp second).2]

theorem sortBy_congr {l l' : List α} (same : ∀ k, series key k l = series key k l') :
    sortBy key l = sortBy key l' := by
  apply eq_of_series key (sortBy_pairwise key l) (sortBy_pairwise key l')
  intro k
  rw [series_sortBy, series_sortBy, same]

end SortBy

theorem filter_append_filter {τ : Type*} [LinearOrder τ] (time : α → τ) (early : τ → Bool)
    (down : ∀ t u, t ≤ u → early u → early t) {l : List α}
    (sorted : l.Pairwise fun a b => time a ≤ time b) :
    l.filter (fun a => early (time a)) ++ l.filter (fun a => !early (time a)) = l := by
  induction l with
  | nil => rfl
  | cons a tail ih =>
    obtain ⟨front, rest⟩ := List.pairwise_cons.mp sorted
    by_cases first : early (time a)
    · simp only [List.filter_cons, first, if_true, Bool.not_true, Bool.false_eq_true, if_false,
        List.cons_append, ih rest]
    · have late : ∀ b ∈ tail, early (time b) = false := by
        intro b member
        by_contra before
        exact first (down _ _ (front b member) (by simpa using before))
      have none : tail.filter (fun b => early (time b)) = [] :=
        List.filter_eq_nil_iff.mpr fun b member => by simp [late b member]
      have all : tail.filter (fun b => !early (time b)) = tail :=
        List.filter_eq_self.mpr fun b member => by simp [late b member]
      simp [first, none, all]

section Slices

variable {τ : Type*} [LinearOrder τ] {time : α → τ} {l : List α}

theorem drop_early {early : τ → Bool} (down : ∀ t u, t ≤ u → early u → early t)
    (sorted : l.Pairwise fun a b => time a ≤ time b) :
    l.drop (l.countP fun a => early (time a)) = l.filter fun a => !early (time a) := by
  have parts := filter_append_filter time early down sorted
  rw [List.countP_eq_length_filter]
  conv_lhs => rw [← parts]
  simp [List.filter_filter]

theorem take_early {early : τ → Bool} (down : ∀ t u, t ≤ u → early u → early t)
    (sorted : l.Pairwise fun a b => time a ≤ time b) :
    l.take (l.countP fun a => early (time a)) = l.filter fun a => early (time a) := by
  have parts := filter_append_filter time early down sorted
  rw [List.countP_eq_length_filter]
  conv_lhs => rw [← parts]
  simp [List.filter_filter]

theorem slice_between {early soon : τ → Bool} (down : ∀ t u, t ≤ u → early u → early t)
    (down' : ∀ t u, t ≤ u → soon u → soon t) (within : ∀ t, early t → soon t)
    (sorted : l.Pairwise fun a b => time a ≤ time b) :
    (l.drop (l.countP fun a => early (time a))).take
        ((l.countP fun a => soon (time a)) - l.countP fun a => early (time a)) =
      l.filter fun a => soon (time a) && !early (time a) := by
  have counted : (l.countP fun a => early (time a)) =
      (l.filter fun a => soon (time a)).countP fun a => early (time a) := by
    rw [List.countP_filter]
    apply List.countP_congr
    intro a _
    rw [Bool.and_eq_true]
    exact ⟨fun first => ⟨first, within _ first⟩, And.left⟩
  rw [← List.drop_take, take_early down' sorted, counted,
    drop_early down (sorted.sublist List.filter_sublist), List.filter_filter]
  apply List.filter_congr
  intro a _
  exact Bool.and_comm _ _

end Slices

theorem perm_of_series [DecidableEq κ] [DecidableEq α] {l l' : List α}
    (same : ∀ k, (series key k l).Perm (series key k l')) : l.Perm l' := by
  rw [List.perm_iff_count]
  intro a
  have counts := List.perm_iff_count.mp (same (key a)) a
  simpa [series, List.count_filter] using counts

end Series

section Grouping

variable {α β κ : Type*} [DecidableEq κ] (key : α → κ) {l : List α} {agg : κ → List α → β}

def firstKeys : List α → List κ
  | [] => []
  | a :: l => key a :: (firstKeys l).filter (fun k => decide (k ≠ key a))

def groupBy (agg : κ → List α → β) (l : List α) : List β :=
  (firstKeys key l).map fun k => agg k (series key k l)

theorem mem_firstKeys {k : κ} : k ∈ firstKeys key l ↔ ∃ a ∈ l, key a = k := by
  induction l with
  | nil => simp [firstKeys]
  | cons a tail ih =>
    simp only [firstKeys, List.mem_cons, List.mem_filter, ih, decide_eq_true_eq, exists_eq_or_imp]
    constructor
    · rintro (rfl | ⟨present, -⟩)
      · exact .inl rfl
      · exact .inr present
    · rintro (rfl | present)
      · exact .inl rfl
      · by_cases same : k = key a
        · exact .inl same
        · exact .inr ⟨present, same⟩

theorem firstKeys_nodup (l : List α) : (firstKeys key l).Nodup := by
  induction l with
  | nil => exact List.nodup_nil
  | cons a tail ih =>
    rw [firstKeys, List.nodup_cons]
    exact ⟨by simp, ih.filter _⟩

theorem mem_groupBy {b : β} :
    b ∈ groupBy key agg l ↔ ∃ a ∈ l, b = agg (key a) (series key (key a) l) := by
  rw [groupBy, List.mem_map]
  constructor
  · rintro ⟨k, first, rfl⟩
    obtain ⟨a, member, rfl⟩ := (mem_firstKeys key).mp first
    exact ⟨a, member, rfl⟩
  · rintro ⟨a, member, rfl⟩
    exact ⟨_, (mem_firstKeys key).mpr ⟨a, member, rfl⟩, rfl⟩

theorem firstKeys_filter (q : κ → Bool) (l : List α) :
    firstKeys key (l.filter fun a => q (key a)) = (firstKeys key l).filter q := by
  induction l with
  | nil => rfl
  | cons a tail ih =>
    by_cases keep : q (key a)
    · simp only [List.filter_cons, keep, if_true, firstKeys, ih, List.filter_filter,
        Bool.and_comm]
    · simp only [List.filter_cons, keep, firstKeys, ih, List.filter_filter, if_false,
        Bool.false_eq_true]
      -- dropping `key a` first changes nothing, since `q` drops it anyway
      apply List.filter_congr
      intro k _
      by_cases same : k = key a
      · subst same
        simp [keep]
      · simp [same]

theorem firstKeys_eq_map (distinct : (l.map key).Nodup) :
    firstKeys key l = l.map key := by
  induction l with
  | nil => rfl
  | cons a tail ih =>
    obtain ⟨fresh, rest⟩ := List.nodup_cons.mp distinct
    simp only [firstKeys, List.map_cons, ih rest]
    congr 1
    apply List.filter_eq_self.mpr
    intro k member
    simp only [decide_eq_true_eq]
    rintro rfl
    exact fresh member

theorem series_of_nodup (distinct : (l.map key).Nodup) {a : α} (member : a ∈ l) :
    series key (key a) l = [a] := by
  induction l with
  | nil => cases member
  | cons b tail ih =>
    obtain ⟨fresh, rest⟩ := List.nodup_cons.mp distinct
    rcases List.mem_cons.mp member with rfl | later
    · rw [series_cons_self]
      congr 1
      apply List.filter_eq_nil_iff.mpr
      intro c inTail same
      exact fresh (List.mem_map.mpr ⟨c, inTail, of_decide_eq_true same⟩)
    · have other : key b ≠ key a := by
        intro same
        exact fresh (same ▸ List.mem_map_of_mem later)
      rw [series_cons_other key other]
      exact ih rest later

theorem groupBy_of_nodup (agg : κ → List α → β) (distinct : (l.map key).Nodup) :
    groupBy key agg l = l.map fun a => agg (key a) [a] := by
  rw [groupBy, firstKeys_eq_map key distinct, List.map_map]
  apply List.map_congr_left
  intro a member
  simp only [comp_apply, series_of_nodup key distinct member]

theorem groupBy_filter (agg : κ → List α → β) (p : β → Bool) (q : κ → Bool) (l : List α)
    (agree : ∀ k ∈ firstKeys key l, p (agg k (series key k l)) = q k) :
    (groupBy key agg l).filter p = groupBy key agg (l.filter fun a => q (key a)) := by
  rw [groupBy, groupBy, firstKeys_filter, List.filter_map]
  have keys : (firstKeys key l).filter (p ∘ fun k => agg k (series key k l)) =
      (firstKeys key l).filter q := List.filter_congr agree
  rw [keys]
  apply List.map_congr_left
  intro k member
  have selected := (List.mem_filter.mp member).2
  congr 1
  simp only [series, List.filter_filter]
  apply List.filter_congr
  intro a _
  by_cases same : key a = k
  · simp [same, selected]
  · simp [same]

theorem firstKeys_map {γ : Type*} (f : γ → α) (l : List γ) :
    firstKeys key (l.map f) = firstKeys (fun c => key (f c)) l := by
  induction l with
  | nil => rfl
  | cons c tail ih => simp only [List.map_cons, firstKeys, ih]

theorem groupBy_map {γ : Type*} (f : γ → α) (agg : κ → List α → β) (l : List γ) :
    groupBy key agg (l.map f) =
      groupBy (fun c => key (f c)) (fun k group => agg k (group.map f)) l := by
  rw [groupBy, groupBy, firstKeys_map]
  apply List.map_congr_left
  intro k _
  simp only [series, List.filter_map, comp_def]

theorem firstKeys_congr {key key' : α → κ} (same : ∀ a ∈ l, key a = key' a) :
    firstKeys key l = firstKeys key' l := by
  induction l with
  | nil => rfl
  | cons a tail ih =>
    rw [firstKeys, firstKeys, same a (by simp), ih fun b member => same b (by simp [member])]

theorem groupBy_congr_key {key key' : α → κ}
    (same : ∀ a ∈ l, key a = key' a) : groupBy key agg l = groupBy key' agg l := by
  rw [groupBy, groupBy, firstKeys_congr same]
  apply List.map_congr_left
  intro k _
  congr 1
  apply List.filter_congr
  intro a member
  rw [same a member]

theorem groupBy_congr {agg agg' : κ → List α → β}
    (same : ∀ k ∈ firstKeys key l, agg k (series key k l) = agg' k (series key k l)) :
    groupBy key agg l = groupBy key agg' l :=
  List.map_congr_left same

section Parts

variable {π : Type*} [DecidableEq π] (part : α → π)

omit [DecidableEq κ] in
theorem flatMap_parts_uniform {parts : List π} (distinct : parts.Nodup) {home : π}
    (covered : home ∈ parts) {run : List α} (all : ∀ a ∈ run, part a = home) :
    (parts.flatMap fun p => run.filter fun a => decide (part a = p)) = run := by
  have other : ∀ p, p ≠ home → (run.filter fun a => decide (part a = p)) = [] := by
    intro p apart
    apply List.filter_eq_nil_iff.mpr
    intro a member same
    exact apart ((of_decide_eq_true same).symm.trans (all a member))
  induction parts with
  | nil => cases covered
  | cons p rest ih =>
    obtain ⟨fresh, restDistinct⟩ := List.nodup_cons.mp distinct
    rw [List.flatMap_cons]
    by_cases here : p = home
    · subst here
      have kept : (run.filter fun a => decide (part a = p)) = run :=
        List.filter_eq_self.mpr fun a member => decide_eq_true (all a member)
      have others : (rest.flatMap fun q => run.filter fun a => decide (part a = q)) = [] := by
        apply List.flatMap_eq_nil_iff.mpr
        rintro q later
        apply other
        rintro rfl
        exact fresh later
      rw [kept, others, List.append_nil]
    · rw [other p here, List.nil_append]
      exact ih restDistinct ((List.mem_cons.mp covered).resolve_left (Ne.symm here))

theorem series_parts (parts : List π) (l : List α) (distinct : parts.Nodup)
    (covered : ∀ a ∈ l, part a ∈ parts)
    (whole : ∀ a ∈ l, ∀ b ∈ l, key a = key b → part a = part b) (k : κ) :
    series key k (parts.flatMap fun p => l.filter fun a => decide (part a = p)) =
      series key k l := by
  have split : series key k (parts.flatMap fun p => l.filter fun a => decide (part a = p)) =
      parts.flatMap fun p => (series key k l).filter fun a => decide (part a = p) := by
    rw [series, List.filter_flatMap]
    congr 1
    funext p
    exact series_filter key _ k l
  rw [split]
  cases found : series key k l with
  | nil => simp
  | cons a tail =>
    have head : a ∈ l ∧ key a = k := (mem_series key).mp (by simp [found])
    apply flatMap_parts_uniform part distinct (covered a head.1)
    intro b member
    obtain ⟨inList, here⟩ := (mem_series key).mp (found ▸ member)
    exact whole b inList a head.1 (here.trans head.2.symm)

end Parts

end Grouping

section Scan

variable {α β κ σ : Type*} [DecidableEq κ]

def scan (key : α → κ) (keep : α → σ) (out : α → Option σ → β) :
    (κ → Option σ) → List α → List β
  | _, [] => []
  | last, a :: l =>
    out a (last (key a)) :: scan key keep out (update last (key a) (some (keep a))) l

def scanLast (key : α → κ) (keep : α → σ) : (κ → Option σ) → List α → κ → Option σ
  | last, [] => last
  | last, a :: l => scanLast key keep (update last (key a) (some (keep a))) l

variable (key : α → κ) (keep : α → σ) (out : α → Option σ → β)

variable {last' : κ → Option σ} (last : κ → Option σ) {l : List α}

theorem scan_append (l l' : List α) : scan key keep out last (l ++ l') =
      scan key keep out last l ++ scan key keep out (scanLast key keep last l) l' := by
  induction l generalizing last with
  | nil => rfl
  | cons a tail ih => simp only [List.cons_append, scan, scanLast, ih]

theorem scan_congr_last {last : κ → Option σ}
    (same : ∀ a ∈ l, last (key a) = last' (key a)) :
    scan key keep out last l = scan key keep out last' l := by
  induction l generalizing last last' with
  | nil => rfl
  | cons a tail ih =>
    simp only [scan]
    rw [same a (by simp)]
    congr 1
    apply ih
    intro b member
    by_cases this : key b = key a
    · simp [this]
    · simp [this, same b (by simp [member])]

theorem scanLast_of_not_mem {k : κ}
    (absent : ∀ a ∈ l, key a ≠ k) : scanLast key keep last l k = last k := by
  induction l generalizing last with
  | nil => rfl
  | cons a tail ih =>
    rw [scanLast, ih _ (fun b member => absent b (by simp [member]))]
    exact update_of_ne (absent a (by simp)).symm _ _

theorem series_scan (key' : β → κ) (keyed : ∀ a s, key' (out a s) = key a)
    (last : κ → Option σ) (k : κ) (l : List α) :
    series key' k (scan key keep out last l) = scan key keep out last (series key k l) := by
  induction l generalizing last with
  | nil => rfl
  | cons a tail ih =>
    by_cases same : key a = k
    · subst same
      rw [series_cons_self, scan, scan]
      simp only [series, keyed, decide_true, List.filter_cons_of_pos]
      congr 1
      exact ih _
    · rw [series_cons_other key same, scan, series_cons_other key' (by rwa [keyed]), ih]
      apply scan_congr_last
      intro b member
      have apart : key b ≠ key a := by
        rw [((mem_series key).mp member).2]
        exact Ne.symm same
      exact update_of_ne apart _ _

theorem filter_scan (p : α → Bool) (p' : β → Bool) (agree : ∀ a s, p' (out a s) = p a)
    (whole : ∀ a b, key a = key b → p a = p b) (last : κ → Option σ) (l : List α) :
    (scan key keep out last l).filter p' = scan key keep out last (l.filter p) := by
  induction l generalizing last with
  | nil => rfl
  | cons a tail ih =>
    rw [scan, List.filter_cons, List.filter_cons, agree]
    cases chosen : p a with
    | true => rw [if_pos rfl, if_pos rfl, scan, ih]
    | false =>
      rw [if_neg Bool.false_ne_true, if_neg Bool.false_ne_true, ih]
      apply scan_congr_last
      intro b member
      have apart : key b ≠ key a := by
        intro same
        have kept := (List.mem_filter.mp member).2
        rw [whole b a same, chosen] at kept
        cases kept
      exact update_of_ne apart _ _

theorem scanLast_congr {last : κ → Option σ} {k : κ} (same : last k = last' k)
    (l : List α) : scanLast key keep last l k = scanLast key keep last' l k := by
  induction l generalizing last last' with
  | nil => exact same
  | cons a tail ih =>
    apply ih
    by_cases this : k = key a
    · simp [this]
    · simp [this, same]

theorem scanLast_series (k : κ) (l : List α) :
    scanLast key keep last (series key k l) k = scanLast key keep last l k := by
  induction l generalizing last with
  | nil => rfl
  | cons a tail ih =>
    by_cases same : key a = k
    · subst same
      rw [series_cons_self, scanLast, scanLast, ih]
    · rw [series_cons_other key same, scanLast, ih]
      apply scanLast_congr
      exact (update_of_ne (Ne.symm same) _ _).symm

theorem scanLast_of_mem {last : κ → Option σ} {k : κ}
    (present : ∃ a ∈ l, key a = k) : scanLast key keep last l k = scanLast key keep last' l k := by
  induction l generalizing last last' with
  | nil => simp at present
  | cons a tail ih =>
    by_cases later : ∃ b ∈ tail, key b = k
    · exact ih later
    · rw [scanLast, scanLast]
      apply scanLast_congr
      have here : key a = k := by
        rcases present with ⟨b, member, same⟩
        rcases List.mem_cons.mp member with rfl | inTail
        · exact same
        · exact absurd ⟨b, inTail, same⟩ later
      rw [← here, update_self, update_self]

theorem scanLast_map {last : κ → Option σ} {l l' : List α}
    (same : l.map (fun a => (key a, keep a)) = l'.map fun a => (key a, keep a)) :
    scanLast key keep last l = scanLast key keep last l' := by
  induction l generalizing last l' with
  | nil =>
    cases l' with
    | nil => rfl
    | cons b tail' => simp at same
  | cons a tail ih =>
    cases l' with
    | nil => simp at same
    | cons b tail' =>
      simp only [List.map_cons, List.cons.injEq, Prod.mk.injEq] at same
      rw [scanLast, scanLast, ih same.2, same.1.1, same.1.2]

theorem map_scan {γ : Type*} (f : β → γ) (g : α → γ) (agree : ∀ a s, f (out a s) = g a)
    (last : κ → Option σ) (l : List α) : (scan key keep out last l).map f = l.map g := by
  induction l generalizing last with
  | nil => rfl
  | cons a tail ih => simp only [scan, List.map_cons, agree, ih]

theorem scan_length (l : List α) : (scan key keep out last l).length = l.length := by
  induction l generalizing last with
  | nil => rfl
  | cons a tail ih => simp only [scan, List.length_cons, ih]

theorem scanLast_eq_getLast? (k : κ) (l : List α) :
    scanLast key keep last l k = ((series key k l).getLast?.map keep).or (last k) := by
  induction l generalizing last with
  | nil => rfl
  | cons a tail ih =>
    rw [scanLast, ih]
    by_cases same : key a = k
    · subst same
      rw [series_cons_self, List.getLast?_cons, update_self]
      cases (series key (key a) tail).getLast? <;> rfl
    · rw [series_cons_other key same, update_of_ne (Ne.symm same)]

theorem scan_getElem? (before after : List α) (a : α) :
    (scan key keep out last (before ++ a :: after))[before.length]? =
      some (out a (((series key (key a) before).getLast?.map keep).or (last (key a)))) := by
  rw [scan_append, ← scan_length key keep out last before, List.getElem?_append_right le_rfl,
    Nat.sub_self, scan, List.getElem?_cons_zero, scanLast_eq_getLast?]

theorem mem_scan {last : κ → Option σ} {b : β}
    (member : b ∈ scan key keep out last l) :
    ∃ a ∈ l, ∃ s, b = out a s := by
  induction l generalizing last with
  | nil => cases member
  | cons a tail ih =>
    rcases List.mem_cons.mp member with rfl | later
    · exact ⟨a, by simp, _, rfl⟩
    · obtain ⟨c, inTail, s, same⟩ := ih later
      exact ⟨c, by simp [inTail], s, same⟩

/-- What the row after `prev` is told about the previous row of its series. -/
def carried (last : κ → Option σ) (prev : Option α) (k : κ) : Option σ :=
  match prev with
  | some p => if key p = k then some (keep p) else last k
  | none => last k

/-- The vectorised pass: the previous row is used when it has the same key, and only the first of a
run of equal keys looks at `last`. -/
def adjacent (last : κ → Option σ) : Option α → List α → List β
  | _, [] => []
  | prev, a :: l => out a (carried key keep last prev (key a)) :: adjacent last (some a) l

def runEnds : List α → List α
  | [] => []
  | a :: l =>
    match l with
    | [] => [a]
    | b :: _ => if key a = key b then runEnds l else a :: runEnds l

end Scan

section Adjacent

variable {α β κ σ : Type*} [LinearOrder κ] (key : α → κ) (keep : α → σ) (out : α → Option σ → β)

variable (last : κ → Option σ)

theorem adjacent_eq_scan_from (prev : Option α) (state : κ → Option σ)
    (l : List α) (sorted : l.Pairwise fun a b => key a ≤ key b)
    (below : ∀ p ∈ prev, ∀ a ∈ l, key p ≤ key a)
    (start : ∀ a ∈ l, state (key a) = carried key keep last prev (key a)) :
    adjacent key keep out last prev l = scan key keep out state l := by
  induction l generalizing prev state with
  | nil => rfl
  | cons a tail ih =>
    obtain ⟨front, rest⟩ := List.pairwise_cons.mp sorted
    simp only [adjacent, scan, start a (.head _)]
    congr 1
    refine ih _ _ rest (by simpa using front) ?_
    intro b member
    by_cases same : key a = key b
    · simp [carried, same]
    · -- a larger key than `a`'s was not touched before `a` either
      rw [update_of_ne (Ne.symm same), start b (.tail _ member)]
      cases prev with
      | none => simp [carried, same]
      | some p =>
        have first : key p ≤ key a := below p rfl a (.head _)
        have apart : key p ≠ key b := by
          intro repeated
          exact same (le_antisymm (front b member) (repeated ▸ first))
        simp [carried, same, apart]

theorem adjacent_eq_scan {l : List α} (sorted : l.Pairwise fun a b => key a ≤ key b) :
    adjacent key keep out last none l = scan key keep out last l :=
  adjacent_eq_scan_from key keep out last none last l sorted (by simp) fun _ _ => rfl

theorem foldl_runEnds_eq_scanLast {l : List α} (sorted : l.Pairwise fun a b => key a ≤ key b) :
    (runEnds key l).foldl (fun state a => update state (key a) (some (keep a))) last =
      scanLast key keep last l := by
  induction l generalizing last with
  | nil => rfl
  | cons a tail ih =>
    obtain ⟨_, rest⟩ := List.pairwise_cons.mp sorted
    cases tail with
    | nil => rfl
    | cons b tail =>
      by_cases same : key a = key b
      · have next := ih last rest
        simp only [runEnds, same, if_true] at next ⊢
        rw [next, scanLast, scanLast, scanLast, same, update_idem]
      · simp only [runEnds, same, if_false, List.foldl_cons]
        exact ih _ rest

end Adjacent

end PerfStats.Lib
