import PerfStats.Metrics.Kernels

namespace PerfStats.Metrics

open Lib Function

section Order

def orderKey (negative : Bool) (key : BitVec 64) : BitVec 64 :=
  if negative then key ^^^ signFlip else key

theorem orderKey_inj {negative : Bool} {a b : BitVec 64}
    (same : orderKey negative a = orderKey negative b) : a = b := by
  cases negative with
  | false => exact same
  | true => exact (BitVec.xor_left_inj signFlip).mp same

theorem flip_top {n : Nat} (small : n < 2 ^ 64) : n ^^^ 2 ^ 63 = (n + 2 ^ 63) % 2 ^ 64 := by
  have high : (n ^^^ 2 ^ 63) / 2 ^ 63 = n / 2 ^ 63 ^^^ 1 := Nat.xor_div_two_pow
  have low : (n ^^^ 2 ^ 63) % 2 ^ 63 = n % 2 ^ 63 := by
    rw [Nat.xor_mod_two_pow, Nat.mod_self, Nat.xor_zero]
  have bit : n / 2 ^ 63 = 0 ∨ n / 2 ^ 63 = 1 := by omega
  cases bit with
  | inl zero =>
    rw [zero, Nat.zero_xor] at high
    omega
  | inr one =>
    rw [one, Nat.xor_self] at high
    omega

theorem signFlip_toNat (key : BitVec 64) :
    ((key ^^^ signFlip).toNat : Int) = key.toInt + 2 ^ 63 := by
  have flipped : (key ^^^ signFlip).toNat = (key.toNat + 2 ^ 63) % 2 ^ 64 := by
    exact flip_top key.isLt
  have signed := BitVec.toInt_eq_toNat_cond key
  split at signed <;> omega

theorem orderKey_lt {negative : Bool} {a b : BitVec 64}
    (known : negative = false → 0 ≤ a.toInt ∧ 0 ≤ b.toInt) :
    (orderKey negative a).toNat < (orderKey negative b).toNat ↔ a.toInt < b.toInt := by
  cases negative with
  | true =>
    have first := signFlip_toNat a
    have second := signFlip_toNat b
    simp only [orderKey, if_true]
    omega
  | false =>
    obtain ⟨first, second⟩ := known rfl
    have own := BitVec.toInt_eq_toNat_of_lt (x := a) (by
      have := BitVec.toInt_eq_toNat_cond a
      split at this <;> omega)
    have other := BitVec.toInt_eq_toNat_of_lt (x := b) (by
      have := BitVec.toInt_eq_toNat_cond b
      split at this <;> omega)
    simp only [orderKey, Bool.false_eq_true, if_false]
    omega

end Order

section Reduce

variable {keys : Nat → BitVec 64} {values : Nat → Exact} {r : Nat} {sorted : Nat → KeyRow}

def groupCell (values : Nat → Exact) (key : BitVec 64) (rows : List Nat) : Group :=
  ⟨key, rows.length, (rows.map values).foldl .add (.num 0),
    (rows.map values).foldl .maximum .negInf⟩

theorem groupCell_single (values : Nat → Exact) (key : BitVec 64) (r : Nat) :
    groupCell values key [r] = ⟨key, 1, values r, values r⟩ := by
  simp [groupCell, Exact.zero_add, Exact.maximum_negInf]

theorem groupCell_push (values : Nat → Exact) (key : BitVec 64) (rows : List Nat) (r : Nat) :
    groupCell values key (rows ++ [r]) =
      ⟨key, (groupCell values key rows).count + 1, (groupCell values key rows).sum.add (values r),
        (groupCell values key rows).largest.maximum (values r)⟩ := by
  simp [groupCell, List.foldl_append]

theorem maximum_step (largest val : Exact) :
    (if val.isNan || (!largest.isNan && largest.lt val) then val else largest) =
      largest.maximum val := by
  cases own : largest.isNan with
  | true => cases largest <;> cases val <;> simp_all [Exact.maximum, Exact.isNan]
  | false => cases other : val.isNan <;> simp [Exact.maximum, own, other]

def ofKey (keys : Nat → BitVec 64) (key : BitVec 64) (rows : List Nat) : List Nat :=
  rows.filter fun r => keys r == key

structure ReduceRight (keys : Nat → BitVec 64) (values : Nat → Exact) (negative : Bool)
    (rows : List Nat) (uniq : List (BitVec 64)) (state : Reduced) : Prop where
  ordered : uniq.Pairwise fun a b => (orderKey negative a).toNat < (orderKey negative b).toNat
  present : ∀ key, key ∈ uniq ↔ ∃ r ∈ rows, keys r = key
  cells : front state.groups state.out =
    uniq.map fun key => groupCell values key (ofKey keys key rows)
  current : uniq.getLast?.map (orderKey negative) =
    if state.groups = 0 then none else some state.cur

variable {negative : Bool} {rows : List Nat} {uniq : List (BitVec 64)} {state : Reduced}

theorem ReduceRight.count (right : ReduceRight keys values negative rows uniq state) :
    state.groups = uniq.length := by
  have := congrArg List.length right.cells
  simpa [front_length] using this

theorem ReduceRight.last (right : ReduceRight keys values negative rows uniq state)
    (some_group : state.groups ≠ 0) :
    ∃ init last, uniq = init ++ [last] ∧ orderKey negative last = state.cur := by
  have current := right.current
  rw [if_neg some_group] at current
  obtain ⟨last, here, same⟩ := Option.map_eq_some_iff.mp current
  obtain ⟨init, whole⟩ := List.getLast?_eq_some_iff.mp here
  exact ⟨init, last, whole, same⟩

theorem ofKey_other {key : BitVec 64} (differs : keys r ≠ key) :
    ofKey keys key (rows ++ [r]) = ofKey keys key rows := by
  simp [ofKey, List.filter_append, differs]

theorem ofKey_own (r : Nat) :
    ofKey keys (keys r) (rows ++ [r]) = ofKey keys (keys r) rows ++ [r] := by
  simp [ofKey, List.filter_append]

theorem present_push {key : BitVec 64} :
    (∃ other ∈ rows ++ [r], keys other = key) ↔
      (∃ other ∈ rows, keys other = key) ∨ keys r = key := by
  simp [or_and_right, exists_or]

theorem ReduceRight.opens (right : ReduceRight keys values negative rows uniq state)
    (fresh : ∀ key ∈ uniq, (orderKey negative key).toNat < (orderKey negative (keys r)).toNat) :
    ReduceRight keys values negative (rows ++ [r]) (uniq ++ [keys r])
      ⟨update state.out state.groups ⟨keys r, 1, values r, values r⟩, state.groups + 1,
        orderKey negative (keys r)⟩ := by
  have absent : keys r ∉ uniq := fun member => absurd (fresh _ member) (Nat.lt_irrefl _)
  refine ⟨?_, ?_, ?_, by simp⟩
  · exact List.pairwise_append.mpr
      ⟨right.ordered, List.pairwise_singleton _ _, by simpa using fresh⟩
  · intro key
    rw [present_push, ← right.present, List.mem_append, List.mem_singleton, eq_comm]
  · have none_yet : ofKey keys (keys r) rows = [] := by
      apply List.filter_eq_nil_iff.mpr
      intro other member same
      exact absent ((right.present _).mpr ⟨other, member, by simpa using same⟩)
    rw [front_push, right.cells, List.map_append, List.map_singleton, ofKey_own, none_yet,
      List.nil_append, groupCell_single]
    congr 1
    apply List.map_congr_left
    intro key member
    rw [ofKey_other (ne_of_mem_of_not_mem member absent).symm]

theorem ReduceRight.extend (right : ReduceRight keys values negative rows uniq state)
    {init : List (BitVec 64)} (whole : uniq = init ++ [keys r]) :
    ReduceRight keys values negative (rows ++ [r]) uniq
      { state with
        out := update state.out (state.groups - 1)
          ⟨(state.out (state.groups - 1)).key, (state.out (state.groups - 1)).count + 1,
            (state.out (state.groups - 1)).sum.add (values r),
            (state.out (state.groups - 1)).largest.maximum (values r)⟩ } := by
  have groups : state.groups = init.length + 1 := by
    rw [right.count, whole, List.length_append, List.length_singleton]
  have cells := right.cells
  rw [groups, whole, front_succ, List.map_append, List.map_singleton] at cells
  obtain ⟨before, here⟩ := List.append_inj' cells rfl
  have absent : keys r ∉ init := by
    intro member
    have ordered := right.ordered
    rw [whole] at ordered
    exact Nat.lt_irrefl _
      ((List.pairwise_append.mp ordered).2.2 _ member _ (List.mem_singleton_self _))
  refine ⟨right.ordered, ?_, ?_, right.current⟩
  · intro key
    rw [present_push, ← right.present, or_iff_left_of_imp]
    intro same
    rw [← same, whole]
    exact List.mem_append_right _ (List.mem_singleton_self _)
  · have cell := List.singleton_inj.mp here
    simp only [groups, Nat.add_sub_cancel, cell, whole, List.map_append, List.map_singleton]
    rw [front_push, before, ofKey_own, groupCell_push]
    congr 1
    apply List.map_congr_left
    intro key member
    rw [ofKey_other (ne_of_mem_of_not_mem member absent).symm]

theorem reduceStep_right (right : ReduceRight keys values negative rows uniq state)
    {j : Nat}
    (key_of : (sorted j).1 = orderKey negative (keys (sorted j).2))
    (above : ∀ r ∈ rows, (orderKey negative (keys r)).toNat ≤
      (orderKey negative (keys (sorted j).2)).toNat) :
    ∃ uniq, ReduceRight keys values negative (rows ++ [(sorted j).2]) uniq
      (reduceStep keys values sorted state j) := by
  have below : ∀ key ∈ uniq, (orderKey negative key).toNat ≤
      (orderKey negative (keys (sorted j).2)).toNat := by
    intro key member
    obtain ⟨r, inside, same⟩ := (right.present key).mp member
    rw [← same]
    exact above r inside
  simp only [reduceStep, key_of, maximum_step]
  split
  next starts =>
    refine ⟨_, right.opens ?_⟩
    intro key member
    refine Nat.lt_of_le_of_ne (below key member) fun equal => ?_
    have some_group : state.groups ≠ 0 := by
      rw [right.count]
      exact fun empty => absurd member (by simp [List.length_eq_zero_iff.mp empty])
    obtain ⟨init, last, whole, current⟩ := right.last some_group
    have top : (orderKey negative (keys (sorted j).2)).toNat ≤
        (orderKey negative last).toNat := by
      rw [← equal]
      have ordered := right.ordered
      rw [whole] at ordered member
      cases List.mem_append.mp member with
      | inl early =>
        exact Nat.le_of_lt
          ((List.pairwise_append.mp ordered).2.2 key early last (List.mem_singleton_self _))
      | inr own => rw [List.mem_singleton.mp own]
    have same := Nat.le_antisymm (below last (by simp [whole])) top
    cases starts with
    | inl none_yet => exact some_group none_yet
    | inr other => exact other ((BitVec.eq_of_toNat_eq same).symm.trans current)
  next goes_on =>
    simp only [not_or, not_not] at goes_on
    obtain ⟨init, last, whole, current⟩ := right.last goes_on.1
    have own : last = keys (sorted j).2 := orderKey_inj (current.trans goes_on.2.symm)
    exact ⟨uniq, right.extend (whole.trans (by rw [own]))⟩

theorem reduce_right (values : Nat → Exact) {m : Nat} (out : Nat → Group)
    (keys_of : ∀ pair ∈ front m sorted, pair.1 = orderKey negative (keys pair.2))
    (ordered : (front m sorted).Pairwise
      fun a b => sortKey a < sortKey b ∨ sortKey a = sortKey b ∧ rowsBefore a b) :
    ∃ uniq, ReduceRight keys values negative ((front m sorted).map Prod.snd) uniq
      ((List.range m).foldl (reduceStep keys values sorted) ⟨out, 0, 0⟩) := by
  have key_at : ∀ i, i < m → (sorted i).1 = orderKey negative (keys (sorted i).2) := by
    intro i small
    exact keys_of _ (List.mem_map_of_mem (List.mem_range.mpr small))
  refine range_loop m (I := fun n state =>
    ∃ uniq, ReduceRight keys values negative ((front n sorted).map Prod.snd) uniq state) ?_ ?_
  · exact ⟨[], List.Pairwise.nil, by simp [front], by simp [front], by simp⟩
  · intro n state small some_uniq
    obtain ⟨uniq, right⟩ := some_uniq
    rw [front_succ, List.map_append]
    refine reduceStep_right right (key_at n small) ?_
    intro r member
    obtain ⟨pair, inside, rfl⟩ := List.mem_map.mp member
    obtain ⟨i, before, rfl⟩ := List.mem_map.mp inside
    rw [← key_at n small, ← key_at i (by have := List.mem_range.mp before; omega)]
    have apart := List.pairwise_map.mp ordered
    have lt : i < n := List.mem_range.mp before
    have related := (List.pairwise_iff_getElem.mp apart) i n
      (by rw [List.length_range]; omega) (by simpa using small) lt
    simp only [List.getElem_range, sortKey] at related
    omega

end Reduce

section Collect

variable {keys : Nat → BitVec 64} {mask : Option (Nat → Bool)}

def takenRows (mask : Option (Nat → Bool)) (n : Nat) : List Nat :=
  (List.range n).filter (takesRow mask)

theorem takenRows_succ (n : Nat) :
    takenRows mask (n + 1) = takenRows mask n ++ if takesRow mask n then [n] else [] := by
  cases taken : takesRow mask n <;> simp [takenRows, List.range_succ, taken]

theorem collect_spec (keys : Nat → BitVec 64) (mask : Option (Nat → Bool)) (n : Nat)
    (pairs : Nat → KeyRow) :
    let collected := (List.range n).foldl (collectStep keys mask) ⟨pairs, 0, false⟩
    front collected.m collected.pairs = (takenRows mask n).map (fun i => (keys i, i)) ∧
      collected.negative = (takenRows mask n).any fun i => (keys i).slt 0 := by
  refine range_loop n (I := fun n (state : Collected) =>
    front state.m state.pairs = (takenRows mask n).map (fun i => (keys i, i)) ∧
      state.negative = (takenRows mask n).any fun i => (keys i).slt 0) ?_ ?_
  · exact ⟨rfl, rfl⟩
  · intro i state _ collected
    rw [takenRows_succ, collectStep]
    split
    next taken =>
      simp only [List.map_append, List.any_append, List.map_cons, List.map_nil, List.any_cons,
        List.any_nil, Bool.or_false, ← collected.2, and_true]
      rw [front_push, collected.1]
    next => simpa using collected

theorem flip_spec (m : Nat) (pairs : Nat → KeyRow) :
    front m ((List.range m).foldl flipStep pairs) =
      (front m pairs).map fun pair => (pair.1 ^^^ signFlip, pair.2) := by
  have loop : (∀ i, i < m → (List.range m).foldl flipStep pairs i =
        ((pairs i).1 ^^^ signFlip, (pairs i).2)) ∧
      ∀ i, m ≤ i → (List.range m).foldl flipStep pairs i = pairs i := by
    refine range_loop m (I := fun n (flipped : Nat → KeyRow) =>
      (∀ i, i < n → flipped i = ((pairs i).1 ^^^ signFlip, (pairs i).2)) ∧
        ∀ i, n ≤ i → flipped i = pairs i) (by simp) ?_
    intro n flipped _ invariant
    constructor
    · intro i small
      by_cases last : i = n
      · simp [flipStep, last, invariant.2 n (Nat.le_refl n)]
      · rw [flipStep, update_of_ne last]
        exact invariant.1 i (by omega)
    · intro i beyond
      rw [flipStep, update_of_ne (by omega)]
      exact invariant.2 i (by omega)
  rw [front, front, List.map_map]
  apply List.map_congr_left
  intro i member
  exact loop.1 i (List.mem_range.mp member)

end Collect

section NumPy

variable {keys : Nat → BitVec 64} {values : Nat → Exact}

theorem npUnique_ordered (taken : List (BitVec 64)) :
    (npUnique taken).Pairwise fun a b => a.toInt < b.toInt := by
  have sorted := List.pairwise_insertionSort (fun a b : BitVec 64 => a.toInt ≤ b.toInt) taken.dedup
  have distinct : (npUnique taken).Nodup :=
    ((List.perm_insertionSort _ taken.dedup).nodup_iff).mpr (List.nodup_dedup taken)
  refine (sorted.and distinct).imp ?_
  intro a b both
  exact lt_of_le_of_ne both.1 fun same => both.2 (BitVec.eq_of_toInt_eq same)

theorem mem_npUnique {taken : List (BitVec 64)} {key : BitVec 64} :
    key ∈ npUnique taken ↔ key ∈ taken := by
  rw [npUnique, (List.perm_insertionSort _ taken.dedup).mem_iff, List.mem_dedup]

theorem ufuncAt_rows (op : Exact → Exact → Exact) (initial : Exact) (index : Nat → Nat) (k : Nat)
    (rows : List Nat) :
    ufuncAt op (List.replicate k initial) (rows.map fun r => (index r, values r)) =
      (List.range k).map fun j =>
        ((rows.filter fun r => index r == j).map values).foldl op initial := by
  induction rows using List.reverseRecOn with
  | nil => simp [ufuncAt, List.map_const']
  | append_singleton rows r ih =>
    rw [ufuncAt] at ih ⊢
    rw [List.map_append, List.foldl_append, ih]
    apply List.ext_getElem
    · simp
    · intro j _ _
      by_cases own : index r = j
      · simp [own]
      · simp [own]

theorem ufuncAt_keys (op : Exact → Exact → Exact) (initial : Exact) {uniq : List (BitVec 64)}
    (distinct : uniq.Nodup) {rows : List Nat} (present : ∀ r ∈ rows, keys r ∈ uniq) :
    ufuncAt op (List.replicate uniq.length initial)
        (((rows.map keys).map fun key => uniq.idxOf key).zip (rows.map values)) =
      uniq.map fun key => ((ofKey keys key rows).map values).foldl op initial := by
  rw [List.map_map, List.zip_map', ufuncAt_rows op initial]
  apply List.ext_getElem
  · simp
  · intro j _ inside
    have small : j < uniq.length := by simpa using inside
    have same : (rows.filter fun r => uniq.idxOf (keys r) == j) = ofKey keys uniq[j] rows := by
      apply List.filter_congr
      intro r member
      apply Bool.eq_iff_iff.mpr
      simp only [beq_iff_eq]
      constructor
      · intro index
        have own := List.getElem_idxOf (List.idxOf_lt_length_of_mem (present r member))
        simp only [index] at own
        exact own.symm
      · intro own
        rw [own]
        exact distinct.idxOf_getElem j small
    simp only [List.getElem_map, List.getElem_range, comp_apply, same]

end NumPy

section GroupReduce

variable {keys : Nat → BitVec 64} {values : Nat → Exact} {rows : List Nat}

theorem takenRows_ordered (mask : Option (Nat → Bool)) (n : Nat) :
    (takenRows mask n).Pairwise fun a b => a < b :=
  List.pairwise_lt_range.filter _

theorem ofKey_sorted {negative : Bool} {pairs : List KeyRow}
    (perm : pairs.Perm (rows.map fun i => (orderKey negative (keys i), i)))
    (ordered : pairs.Pairwise
      fun a b => sortKey a < sortKey b ∨ sortKey a = sortKey b ∧ rowsBefore a b)
    (increasing : rows.Pairwise fun a b => a < b) (key : BitVec 64) :
    ofKey keys key (pairs.map Prod.snd) = ofKey keys key rows := by
  have keyed : ∀ pair ∈ pairs, pair.1 = orderKey negative (keys pair.2) := by
    intro pair member
    obtain ⟨i, _, rfl⟩ := List.mem_map.mp (perm.mem_iff.mp member)
    rfl
  have rows_perm : (pairs.map Prod.snd).Perm rows := by
    simpa [List.map_map, comp_def] using perm.map Prod.snd
  have sorted : (ofKey keys key (pairs.map Prod.snd)).Pairwise fun a b => a < b := by
    rw [ofKey, List.filter_map]
    refine List.pairwise_map.mpr ((ordered.filter _).imp_of_mem ?_)
    intro first second here there related
    obtain ⟨inside, own⟩ := List.mem_filter.mp here
    obtain ⟨insideToo, other⟩ := List.mem_filter.mp there
    have same : sortKey first = sortKey second := by
      rw [sortKey, sortKey, keyed first inside, keyed second insideToo]
      simp only [comp_apply, beq_iff_eq] at own other
      rw [own, other]
    cases related with
    | inl lt => exact absurd lt (by omega)
    | inr equal => exact equal.2
  exact (rows_perm.filter _).eq_of_pairwise (fun a b _ _ lt gt => absurd gt (by omega)) sorted
    (increasing.filter _)

theorem uniq_eq {negative : Bool} {uniq : List (BitVec 64)}
    (known : negative = rows.any fun i => (keys i).slt 0)
    (ordered : uniq.Pairwise fun a b =>
      (orderKey negative a).toNat < (orderKey negative b).toNat)
    (present : ∀ key, key ∈ uniq ↔ ∃ r ∈ rows, keys r = key) : uniq = npUnique (rows.map keys) := by
  have nonneg : negative = false → ∀ key ∈ uniq, 0 ≤ key.toInt := by
    intro none_negative key member
    obtain ⟨r, inside, rfl⟩ := (present key).mp member
    rw [none_negative] at known
    have := List.any_eq_false.mp known.symm r inside
    simpa [BitVec.slt] using this
  have increasing : uniq.Pairwise fun a b => a.toInt < b.toInt := by
    refine ordered.imp_of_mem ?_
    intro a b first second lt
    exact (orderKey_lt fun plain => ⟨nonneg plain a first, nonneg plain b second⟩).mp lt
  have distinct : ∀ {l : List (BitVec 64)},
      (l.Pairwise fun a b => a.toInt < b.toInt) → l.Nodup := by
    intro l sorted
    exact sorted.imp fun lt same => absurd (congrArg BitVec.toInt same) (Int.ne_of_lt lt)
  have members : ∀ key, key ∈ uniq ↔ key ∈ npUnique (rows.map keys) := by
    intro key
    rw [present, mem_npUnique, List.mem_map]
  refine List.Perm.eq_of_pairwise (fun a b _ _ lt gt => absurd gt (by omega)) increasing
    (npUnique_ordered _) ?_
  exact (List.perm_ext_iff_of_nodup (distinct increasing)
    (distinct (npUnique_ordered _))).mpr members

theorem prepared_pairs {m : Nat} {pairs : Nat → KeyRow} (negative : Bool)
    (collected : front m pairs = rows.map fun i => (keys i, i)) :
    front m (if negative then (List.range m).foldl flipStep pairs else pairs) =
      rows.map fun i => (orderKey negative (keys i), i) := by
  cases negative with
  | false => simpa [orderKey] using collected
  | true => simp [flip_spec, collected, orderKey, comp_def]

theorem groupReduceC_groups (mask : Option (Nat → Bool)) (n : Nat) (memory : ReduceMemory) :
    front (groupReduceC keys values mask n memory).1 (groupReduceC keys values mask n memory).2 =
      (npUnique ((takenRows mask n).map keys)).map fun key =>
        groupCell values key (ofKey keys key (takenRows mask n)) := by
  obtain ⟨collected, known⟩ := collect_spec keys mask n memory.given
  simp only [groupReduceC]
  generalize (List.range n).foldl (collectStep keys mask) ⟨memory.given, 0, false⟩ = state at *
  have length : state.m = (takenRows mask n).length := by
    simpa [front_length] using congrArg List.length collected
  split
  next empty =>
    rw [length, List.length_eq_zero_iff] at empty
    simp [empty, npUnique, front]
  next =>
    have pairs := prepared_pairs state.negative collected
    have increasing := takenRows_ordered mask n
    have inOrder : (front state.m (if state.negative then
        (List.range state.m).foldl flipStep state.pairs else state.pairs)).Pairwise
        rowsBefore := by
      rw [pairs]
      exact List.pairwise_map.mpr increasing
    have sort := radixSortPairs_sorted memory.spare memory.cnt inOrder
    have entries := sort.entries
    rw [pairs] at entries
    obtain ⟨uniq, right⟩ := reduce_right values memory.out (fun pair member => by
      obtain ⟨i, _, rfl⟩ := List.mem_map.mp (entries.mem_iff.mp member)
      exact (rfl : orderKey state.negative (keys i) = _)) sort.ordered
    have rows_perm := entries.map Prod.snd
    rw [List.map_map, comp_def, List.map_id'] at rows_perm
    have present : ∀ key, key ∈ uniq ↔ ∃ r ∈ takenRows mask n, keys r = key := by
      intro key
      simp only [right.present, rows_perm.mem_iff]
    rw [right.cells, uniq_eq known right.ordered present]
    apply List.map_congr_left
    intro key _
    rw [ofKey_sorted entries sort.ordered increasing]

theorem groupReduce_eq (keys : Nat → BitVec 64) (values : Nat → Exact) (mask : Option (Nat → Bool))
    (n : Nat) (memory : ReduceMemory) :
    groupReduceCodon keys values mask n memory = npGroupReduce keys values mask n := by
  rw [groupReduceCodon, npGroupReduce]
  simp only [groupReduceC_groups]
  split
  next empty =>
    rw [List.isEmpty_iff, List.map_eq_nil_iff] at empty
    simp [takenRows, empty, npUnique]
  next =>
    have distinct : (npUnique ((takenRows mask n).map keys)).Nodup :=
      (npUnique_ordered _).imp fun lt same =>
        absurd (congrArg BitVec.toInt same) (Int.ne_of_lt lt)
    have present : ∀ r ∈ takenRows mask n, keys r ∈ npUnique ((takenRows mask n).map keys) :=
      fun r member => mem_npUnique.mpr (List.mem_map_of_mem member)
    rw [← takenRows, ufuncAt_keys _ _ distinct present, ufuncAt_keys _ _ distinct present]
    simp only [List.map_map]
    refine Prod.ext ?_ (Prod.ext ?_ (Prod.ext ?_ ?_))
    · simp [comp_def, groupCell]
    · apply List.map_congr_left
      simp [groupCell, ofKey, List.count_eq_length_filter, List.filter_map, comp_def]
    · rfl
    · rfl

end GroupReduce

section Join

def Increasing (n : Nat) (keys : Nat → Int) : Prop := ∀ i j, i < j → j < n → keys i < keys j

variable {nl nr : Nat} {left right : Nat → Int}

theorem searchSorted_le (n : Nat) (right : Nat → Int) (key : Int) :
    searchSorted n right key ≤ n := by
  have := (List.takeWhile_prefix (l := List.range n) fun j => decide (right j < key)).length_le
  simpa [searchSorted] using this

theorem searchSorted_succ (n : Nat) (right : Nat → Int) (key : Int) :
    searchSorted (n + 1) right key =
      if searchSorted n right key = n then n + if right n < key then 1 else 0
      else searchSorted n right key := by
  have step : (List.range (n + 1)).takeWhile (fun j => decide (right j < key)) =
      if ((List.range n).takeWhile fun j => decide (right j < key)).length = (List.range n).length
      then List.range n ++ [n].takeWhile fun j => decide (right j < key)
      else (List.range n).takeWhile fun j => decide (right j < key) := by
    rw [List.range_succ, List.takeWhile_append]
  rw [searchSorted, step, List.length_range]
  by_cases whole : ((List.range n).takeWhile fun j => decide (right j < key)).length = n
  · rw [if_pos whole, if_pos (show searchSorted n right key = n from whole), List.length_append]
    by_cases below : right n < key <;> simp [below]
  · rw [if_neg whole, if_neg (show ¬searchSorted n right key = n from whole), searchSorted]

theorem searchSorted_below {n : Nat} (increasing : Increasing n right) (key : Int) {j : Nat}
    (small : j < n) : j < searchSorted n right key ↔ right j < key := by
  induction n generalizing j with
  | zero => cases small
  | succ n ih =>
    have before := @ih fun i j lt le => increasing i j lt (by omega)
    have bound := searchSorted_le n right key
    rw [searchSorted_succ]
    by_cases last : j = n
    · subst last
      split
      next => split <;> omega
      next stops =>
        have first := (before (j := searchSorted j right key) (by omega)).not.mp (by omega)
        have above := increasing (searchSorted j right key) j (by omega) small
        omega
    · split
      next whole =>
        have own := before (j := j) (by omega)
        omega
      next => exact before (by omega)

def hitsFrom (nl nr : Nat) (left right : Nat → Int) (i : Nat) : List (Nat × Nat) :=
  ((List.range' i (nl - i)).filter fun i => decide (searchSorted nr right (left i) < nr ∧
    right (searchSorted nr right (left i)) = left i)).map
      fun i => (i, searchSorted nr right (left i))

theorem hitsFrom_hit {i j : Nat} (inside : i < nl) (small : j < nr)
    (pos : searchSorted nr right (left i) = j) (same : right j = left i) :
    hitsFrom nl nr left right i = (i, j) :: hitsFrom nl nr left right (i + 1) := by
  rw [hitsFrom, show nl - i = nl - (i + 1) + 1 by omega, List.range'_succ, List.filter_cons,
    if_pos (by simp [pos, small, same]), List.map_cons, pos]
  rfl

theorem hitsFrom_miss {i : Nat} (inside : i < nl)
    (misses : ¬(searchSorted nr right (left i) < nr ∧
      right (searchSorted nr right (left i)) = left i)) :
    hitsFrom nl nr left right i = hitsFrom nl nr left right (i + 1) := by
  rw [hitsFrom, show nl - i = nl - (i + 1) + 1 by omega, List.range'_succ, List.filter_cons,
    if_neg (by simpa using misses)]
  rfl

theorem joinLoop_eq (leftUp : Increasing nl left) (rightUp : Increasing nr right) (i j : Nat)
    (out : List (Nat × Nat))
    (ahead : ∀ k, i ≤ k → k < nl → j ≤ searchSorted nr right (left k)) :
    joinLoop nl nr left right i j out = out ++ hitsFrom nl nr left right i := by
  induction i, j, out using joinLoop.induct nl nr left right with
  | case1 i j out inside same ih =>
    have least := ahead i (Nat.le_refl i) inside.1
    have pos : searchSorted nr right (left i) = j := by
      have := (searchSorted_below rightUp (left i) inside.2).not.mpr (by omega)
      omega
    rw [joinLoop, if_pos inside, if_pos same, ih ?_, hitsFrom_hit inside.1 inside.2 pos same.symm,
      List.append_assoc]
    · rfl
    · intro k le small
      have above := leftUp i k (by omega) small
      exact (searchSorted_below rightUp (left k) inside.2).mpr (by omega)
  | case2 i j out inside differs lt ih =>
    have least := ahead i (Nat.le_refl i) inside.1
    have pos : searchSorted nr right (left i) = j := by
      have := (searchSorted_below rightUp (left i) inside.2).not.mpr (by omega)
      omega
    rw [joinLoop, if_pos inside, if_neg differs, if_pos lt,
      ih fun k le small => ahead k (by omega) small, hitsFrom_miss inside.1]
    rw [pos]
    exact fun hit => differs hit.2.symm
  | case3 i j out inside differs ge ih =>
    rw [joinLoop, if_pos inside, if_neg differs, if_neg ge, ih]
    intro k le small
    have above : left i ≤ left k := by
      by_cases own : i = k
      · rw [own]
      · exact Int.le_of_lt (leftUp i k (by omega) small)
    exact (searchSorted_below rightUp (left k) inside.2).mpr (by omega)
  | case4 i j out ends =>
    have none_left : hitsFrom nl nr left right i = [] := by
      rw [hitsFrom, List.map_eq_nil_iff, List.filter_eq_nil_iff]
      intro k member
      obtain ⟨offset, small, rfl⟩ := List.mem_range'.mp member
      have least := ahead (i + 1 * offset) (by omega) (by omega)
      simp only [decide_eq_true_eq]
      omega
    rw [joinLoop, if_neg ends, none_left, List.append_nil]

theorem joinSorted_eq (leftUp : Increasing nl left) (rightUp : Increasing nr right) :
    joinSortedCodon nl nr left right = npJoinKeys nl nr left right := by
  have loop := joinLoop_eq leftUp rightUp 0 0 [] fun k _ _ => Nat.zero_le _
  have hits : ((List.range nl).filter fun i => decide (searchSorted nr right (left i) < nr ∧
        right (searchSorted nr right (left i)) = left i)) =
      (List.range nl).filter fun i =>
        if nr = 0 then false
        else decide (searchSorted nr right (left i) < nr ∧
          right (min (searchSorted nr right (left i)) (max 0 (nr - 1))) = left i) := by
    apply List.filter_congr
    intro i _
    split
    next empty => simp [empty]
    next =>
      by_cases small : searchSorted nr right (left i) < nr
      · rw [Nat.min_eq_left (by omega)]
      · simp [small]
  simp only [joinSortedCodon, npJoinKeys, loop, List.nil_append, hitsFrom, Nat.sub_zero,
    ← List.range_eq_range', ← hits, List.map_map]
  simp [comp_def]

end Join

section Grid

variable {values : Nat → Exact} {cells : Nat → Int} {size : Nat}

def finiteRows (values : Nat → Exact) (n : Nat) : List Nat :=
  (List.range n).filter fun i => !(values i).isNan

def inCell (cells : Nat → Int) (c : Nat) (rows : List Nat) : List Nat :=
  rows.filter fun r => (cells r).toNat == c

theorem bincountWidth_eq {index : List Nat} (small : ∀ c ∈ index, c < size) :
    bincountWidth size index = size := by
  induction index with
  | nil => rfl
  | cons c rest ih =>
    have first := small c (.head _)
    rw [bincountWidth, List.foldl_cons, max_eq_left (by omega)]
    exact ih fun other member => small other (.tail _ member)

theorem cleared_grid (memory : GridState) :
    let cleared : GridState := (List.range size).foldl
      (fun state c => ⟨update state.grid c (.num 0), update state.cnt c 0⟩) memory
    ∀ c, c < size → cleared.grid c = .num 0 ∧ cleared.cnt c = 0 := by
  refine range_loop size (I := fun n (state : GridState) =>
    ∀ c, c < n → state.grid c = .num 0 ∧ state.cnt c = 0) (by simp) ?_
  intro n state _ zero c small
  by_cases last : c = n
  · simp [last]
  · simp only [update_of_ne last]
    exact zero c (by omega)

theorem gridLoop_spec (values : Nat → Exact) {n : Nat}
    (inRange : ∀ i, i < n → 0 ≤ cells i ∧ cells i < size)
    (cleared : GridState) (zero : ∀ c, c < size → cleared.grid c = .num 0 ∧ cleared.cnt c = 0) :
    ∃ state used, (List.range n).foldl (gridStep cells values size) (some (cleared, 0)) =
        some (state, used) ∧
      ∀ c, c < size →
        state.grid c = ((inCell cells c (finiteRows values n)).map values).foldl .add (.num 0) ∧
        state.cnt c = (inCell cells c (finiteRows values n)).length := by
  refine range_loop n (I := fun n (reached : Option (GridState × Nat)) =>
    ∃ state used, reached = some (state, used) ∧
      ∀ c, c < size →
        state.grid c = ((inCell cells c (finiteRows values n)).map values).foldl .add (.num 0) ∧
        state.cnt c = (inCell cells c (finiteRows values n)).length) ?_ ?_
  · exact ⟨cleared, 0, rfl, zero⟩
  · intro i reached small invariant
    obtain ⟨state, used, rfl, each⟩ := invariant
    obtain ⟨lower, upper⟩ := inRange i small
    cases own : (values i).isNan with
    | true =>
      have same : finiteRows values (i + 1) = finiteRows values i := by
        simp [finiteRows, List.range_succ, own]
      exact ⟨state, used, by simp [gridStep, own], by rw [same]; exact each⟩
    | false =>
      have more : finiteRows values (i + 1) = finiteRows values i ++ [i] := by
        simp [finiteRows, List.range_succ, own]
      refine ⟨_, _, by
        rw [gridStep, own, if_neg (by simp), if_neg (by omega)], ?_⟩
      intro c inside
      rw [more]
      by_cases same : (cells i).toNat = c
      · have before := each c inside
        subst same
        simp [inCell, List.filter_append, List.foldl_append] at before ⊢
        simp [before.1, before.2]
      · have differs : c ≠ (cells i).toNat := Ne.symm same
        simpa [inCell, List.filter_append, same, update_of_ne differs]
          using each c inside

theorem means_spec (cnt : Nat → Nat) (grid : Nat → Exact) (c : Nat) (small : c < size) :
    (List.range size).foldl (meanStep cnt) grid c =
      if 0 < cnt c then (grid c).divNat (cnt c) else .nan := by
  have loop : (∀ c, c < size → (List.range size).foldl (meanStep cnt) grid c =
        if 0 < cnt c then (grid c).divNat (cnt c) else .nan) ∧
      ∀ c, size ≤ c → (List.range size).foldl (meanStep cnt) grid c = grid c := by
    refine range_loop size (I := fun n (means : Nat → Exact) =>
      (∀ c, c < n → means c = if 0 < cnt c then (grid c).divNat (cnt c) else .nan) ∧
        ∀ c, n ≤ c → means c = grid c) (by simp) ?_
    intro n means _ invariant
    constructor
    · intro c below
      by_cases last : c = n
      · simp [meanStep, last, invariant.2 n (Nat.le_refl n)]
      · rw [meanStep, update_of_ne last]
        exact invariant.1 c (by omega)
    · intro c above
      rw [meanStep, update_of_ne (by omega)]
      exact invariant.2 c (by omega)
  exact loop.1 c small

theorem gridMean_eq {n : Nat} (inRange : ∀ i, i < n → 0 ≤ cells i ∧ cells i < size)
    (memory : GridState) :
    (gridMeanC n cells values size memory).map (fun reached => front size reached.2) =
      some (npGridMean n cells values size) := by
  obtain ⟨state, used, ran, each⟩ := gridLoop_spec values inRange _ (cleared_grid memory)
  have width : bincountWidth size ((finiteRows values n).map fun i => (cells i).toNat) = size := by
    apply bincountWidth_eq
    intro c member
    obtain ⟨i, inside, rfl⟩ := List.mem_map.mp member
    obtain ⟨lower, upper⟩ := inRange i (List.mem_range.mp (List.mem_filter.mp inside).1)
    omega
  have sums : ufuncAt .add (List.replicate size (.num 0))
      (((finiteRows values n).map fun i => (cells i).toNat).zip
        ((finiteRows values n).map values)) =
      (List.range size).map fun c =>
        ((inCell cells c (finiteRows values n)).map values).foldl .add (.num 0) := by
    rw [List.zip_map', ufuncAt_rows]
    rfl
  rw [gridMeanC, ran, Option.map_some, Option.map_some, Option.some.injEq, npGridMean]
  have rows : ((List.range n).filter fun i => !(values i).isNan) = finiteRows values n := rfl
  simp only [rows, width, sums]
  rw [List.zip_map', List.map_map, front]
  apply List.map_congr_left
  intro c member
  have inside := List.mem_range.mp member
  have counted : ((finiteRows values n).map fun i => (cells i).toNat).count c = state.cnt c := by
    rw [(each c inside).2]
    simp [inCell, List.count_eq_length_filter, List.filter_map, comp_def]
  rw [means_spec state.cnt state.grid c inside, (each c inside).1]
  simp only [comp_apply, counted]
  split
  next some_row => rw [Nat.max_eq_left (by omega)]
  next => rfl

end Grid

/-- The compiled kernels refine the NumPy reference, in exact arithmetic and whatever the buffers
hold before. -/
theorem kernels_refine_numpy :
    (∀ (keys : Nat → BitVec 64) (values : Nat → Exact) (mask : Option (Nat → Bool)) (n : Nat)
      (memory : ReduceMemory),
      groupReduceCodon keys values mask n memory = npGroupReduce keys values mask n) ∧
    (∀ (nl nr : Nat) (left right : Nat → Int), Increasing nl left → Increasing nr right →
      joinSortedCodon nl nr left right = npJoinKeys nl nr left right) ∧
    (∀ (n : Nat) (cells : Nat → Int) (values : Nat → Exact) (size : Nat) (memory : GridState),
      (∀ i, i < n → 0 ≤ cells i ∧ cells i < size) →
      (gridMeanC n cells values size memory).map (fun reached => front size reached.2) =
        some (npGridMean n cells values size)) :=
  ⟨groupReduce_eq, fun _ _ _ _ => joinSorted_eq, fun _ _ _ _ memory inRange =>
    gridMean_eq inRange memory⟩

theorem kernels_refine_numpy_small (memory : ReduceMemory) (grid : GridState) :
    groupReduceCodon (fun i => if i = 1 then -1#64 else 2#64)
        (fun i => if i = 2 then .nan else .num i) none 3 memory =
      ([-1#64, 2#64], [1, 2], [.num 1, .nan], [.num 1, .nan]) ∧
    joinSortedCodon 3 2 (fun i => i) (fun j => 2 * j) = ([0, 2], [0, 1]) ∧
    (gridMeanC 2 (fun _ => 1) (fun i => .num i) 2 grid).map (fun reached => front 2 reached.2) =
      some [.nan, .num (1 / 2)] := by
  obtain ⟨reduced, joined, gridded⟩ := kernels_refine_numpy
  refine ⟨(reduced _ _ _ _ memory).trans (by decide +kernel),
    (joined _ _ _ _ ?_ ?_).trans (by decide +kernel),
    (gridded _ _ _ _ grid ?_).trans (by decide +kernel)⟩
  · intro i j lt _
    exact Int.ofNat_lt.mpr lt
  · intro i j lt _
    show (2 : Int) * i < 2 * j
    omega
  · intro i _
    exact ⟨by decide, by decide⟩

end PerfStats.Metrics
