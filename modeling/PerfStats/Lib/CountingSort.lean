import PerfStats.Lib.Selection

/-! Counting sort of a buffer into another, and the radix sort that repeats it over the digits of a
key. -/

namespace PerfStats.Lib

open Function

section Buffers

variable {α : Type*}

def front (m : Nat) (buffer : Nat → α) : List α := (List.range m).map buffer

theorem front_succ (m : Nat) (buffer : Nat → α) :
    front (m + 1) buffer = front m buffer ++ [buffer m] := by
  simp [front, List.range_succ]

theorem front_length (m : Nat) (buffer : Nat → α) : (front m buffer).length = m := by simp [front]

theorem front_congr {m : Nat} {buffer other : Nat → α} (same : ∀ i, i < m → buffer i = other i) :
    front m buffer = front m other := by
  apply List.map_congr_left
  intro i member
  exact same i (List.mem_range.mp member)

theorem front_update {m at_ : Nat} (beyond : m ≤ at_) (buffer : Nat → α) (a : α) :
    front m (update buffer at_ a) = front m buffer :=
  front_congr fun i small => update_of_ne (by omega) _ _

theorem front_push (m : Nat) (buffer : Nat → α) (a : α) :
    front (m + 1) (update buffer m a) = front m buffer ++ [a] := by
  rw [front_succ, front_update (Nat.le_refl m), update_self]

theorem range_loop {σ : Type*} {step : σ → Nat → σ} {I : Nat → σ → Prop} {s : σ} (m : Nat)
    (initial : I 0 s) (kept : ∀ i t, i < m → I i t → I (i + 1) (step t i)) :
    I m ((List.range m).foldl step s) := by
  have upto : ∀ n, n ≤ m → I n ((List.range n).foldl step s) := by
    intro n
    induction n with
    | zero => exact fun _ => initial
    | succ n ih =>
      intro le
      rw [List.range_succ, List.foldl_append]
      exact kept n _ (by omega) (ih (by omega))
  exact upto m (Nat.le_refl m)

end Buffers

section Pass

variable {α : Type*} (digit : α → Nat)

def zeroCells (buckets : Nat) (cnt : Nat → Nat) : Nat → Nat :=
  (List.range buckets).foldl (fun cnt b => update cnt b 0) cnt

def tally (m : Nat) (src : Nat → α) (cnt : Nat → Nat) : Nat → Nat :=
  (List.range m).foldl
    (fun cnt i => update cnt (digit (src i)) (cnt (digit (src i)) + 1)) cnt

def offsetStep (state : (Nat → Nat) × Nat) (b : Nat) : (Nat → Nat) × Nat :=
  (update state.1 b state.2, state.2 + state.1 b)

def offsets (buckets : Nat) (cnt : Nat → Nat) : (Nat → Nat) × Nat :=
  (List.range buckets).foldl offsetStep (cnt, 0)

def scatterStep (src : Nat → α) (state : (Nat → α) × (Nat → Nat)) (i : Nat) :
    (Nat → α) × (Nat → Nat) :=
  let d := digit (src i)
  (update state.1 (state.2 d) (src i), update state.2 d (state.2 d + 1))

def scatter (m : Nat) (src dst : Nat → α) (cnt : Nat → Nat) : (Nat → α) × (Nat → Nat) :=
  (List.range m).foldl (scatterStep digit src) (dst, cnt)

variable {digit}

def bucket (digit : α → Nat) (b : Nat) (l : List α) : List α := l.filter fun a => digit a == b

def byDigit (digit : α → Nat) (buckets : Nat) (l : List α) : List α :=
  (List.range buckets).flatMap fun b => bucket digit b l

theorem byDigit_succ (buckets : Nat) (l : List α) :
    byDigit digit (buckets + 1) l = byDigit digit buckets l ++ bucket digit buckets l := by
  simp [byDigit, List.range_succ]

variable {buckets : Nat} {dst : Nat → α} {cnt : Nat → Nat} {l : List α}

theorem byDigit_perm (small : ∀ a ∈ l, digit a < buckets) : (byDigit digit buckets l).Perm l := by
  refine (flatMap_filter_perm (fun b a => digit a == b) ?_).trans (List.Perm.of_eq ?_)
  · refine List.nodup_range.imp ?_
    intro b other differs a _ here
    have own : digit a = b := by simpa using here
    simp [own, differs]
  · apply List.filter_eq_self.mpr
    intro a member
    simpa using small a member

theorem zeroCells_eq (buckets : Nat) (cnt : Nat → Nat) :
    ∀ b, b < buckets → zeroCells buckets cnt b = 0 := by
  refine range_loop buckets (I := fun n (c : Nat → Nat) => ∀ b, b < n → c b = 0) (by simp) ?_
  intro n c _ zero b small
  by_cases same : b = n
  · simp [same]
  · rw [update_of_ne same]
    exact zero b (by omega)

theorem tally_eq (m : Nat) (src : Nat → α) (cnt : Nat → Nat) (b : Nat) :
    tally digit m src cnt b = cnt b + (bucket digit b (front m src)).length := by
  refine range_loop m
    (I := fun n (c : Nat → Nat) => c b = cnt b + (bucket digit b (front n src)).length)
    (by simp [front, bucket]) ?_
  intro n c _ counted
  by_cases same : digit (src n) = b
  · rw [same, update_self, counted, front_succ]
    simp [bucket, same, Nat.add_assoc]
  · simpa [front_succ, bucket, same, update_of_ne (Ne.symm same)] using counted

theorem offsets_eq (counted : ∀ b, b < buckets → cnt b = (bucket digit b l).length) :
    ∀ b, b < buckets → (offsets buckets cnt).1 b = (byDigit digit b l).length := by
  have loop : (∀ b, b < buckets → (offsets buckets cnt).1 b = (byDigit digit b l).length) ∧
      (∀ b, buckets ≤ b → (offsets buckets cnt).1 b = cnt b) ∧
      (offsets buckets cnt).2 = (byDigit digit buckets l).length := by
    refine range_loop buckets (I := fun n (state : (Nat → Nat) × Nat) =>
      (∀ b, b < n → state.1 b = (byDigit digit b l).length) ∧
      (∀ b, n ≤ b → state.1 b = cnt b) ∧ state.2 = (byDigit digit n l).length)
      ⟨by simp, by simp, by simp [byDigit]⟩ ?_
    intro n state small invariant
    obtain ⟨below, above, total⟩ := invariant
    refine ⟨?_, ?_, ?_⟩
    · intro b le
      by_cases same : b = n
      · simp [offsetStep, same, total]
      · simpa [offsetStep, update_of_ne same] using below b (by omega)
    · intro b le
      simpa [offsetStep, update_of_ne (show b ≠ n by omega)] using above b (by omega)
    · simp only [offsetStep, total, above n (Nat.le_refl n), counted n small, byDigit_succ,
        List.length_append]
  exact loop.1

def Scattered (digit : α → Nat) (buckets : Nat) (offset : Nat → Nat) (dst : Nat → α) (l : List α) :
    Prop :=
  ∀ b, b < buckets → ∀ j a, (bucket digit b l)[j]? = some a → dst (offset b + j) = a

theorem byDigit_grows (digit : α → Nat) {b other : Nat} (l : List α) (lt : b < other) :
    (byDigit digit b l).length + (bucket digit b l).length ≤ (byDigit digit other l).length := by
  rw [← List.length_append, ← byDigit_succ]
  induction other with
  | zero => cases lt
  | succ other ih =>
    by_cases last : b = other
    · rw [last]
    · rw [byDigit_succ other, List.length_append]
      omega

theorem bucket_grows (digit : α → Nat) {n m : Nat} (le : n ≤ m) (src : Nat → α) (b : Nat) :
    (bucket digit b (front n src)).length ≤ (bucket digit b (front m src)).length :=
  (((List.range_sublist.mpr le).map src).filter _).length_le

theorem bucket_front_succ (n : Nat) (src : Nat → α) (b : Nat) :
    bucket digit b (front (n + 1) src) =
      bucket digit b (front n src) ++ if digit (src n) = b then [src n] else [] := by
  by_cases same : digit (src n) = b <;> simp [front_succ, bucket, same]

theorem scatter_placed {m : Nat} {src : Nat → α} (small : ∀ i, i < m → digit (src i) < buckets)
    (counted : ∀ b, b < buckets → cnt b = (byDigit digit b (front m src)).length) :
    Scattered digit buckets cnt (scatter digit m src dst cnt).1 (front m src) := by
  have loop : (∀ b, b < buckets →
        (scatter digit m src dst cnt).2 b = cnt b + (bucket digit b (front m src)).length) ∧
      Scattered digit buckets cnt (scatter digit m src dst cnt).1 (front m src) := by
    refine range_loop m (I := fun n (state : (Nat → α) × (Nat → Nat)) =>
      (∀ b, b < buckets → state.2 b = cnt b + (bucket digit b (front n src)).length) ∧
      Scattered digit buckets cnt state.1 (front n src)) ⟨by simp [front, bucket], ?_⟩ ?_
    · intro b _ j a here
      simp [front, bucket] at here
    intro n state inside invariant
    obtain ⟨next, placed⟩ := invariant
    have position := next (digit (src n)) (small n inside)
    have room := bucket_grows digit inside src (digit (src n))
    rw [bucket_front_succ, if_pos rfl, List.length_append, List.length_singleton] at room
    constructor
    · intro b le
      rw [bucket_front_succ]
      by_cases same : digit (src n) = b
      · simp [scatterStep, same, next b le, Nat.add_assoc]
      · simpa [scatterStep, same, update_of_ne (Ne.symm same)] using next b le
    · intro b le j a here
      have fits := bucket_grows digit (Nat.le_of_lt inside) src b
      rw [bucket_front_succ] at here
      by_cases old : j < (bucket digit b (front n src)).length
      · rw [List.getElem?_append_left old] at here
        have apart : cnt b + j ≠ state.2 (digit (src n)) := by
          rw [position]
          by_cases same : digit (src n) = b
          · rw [same]
            omega
          · have own := counted b le
            have other := counted (digit (src n)) (small n inside)
            cases Nat.lt_or_gt_of_ne same with
            | inl below =>
              have := byDigit_grows digit (front m src) below
              omega
            | inr above =>
              have := byDigit_grows digit (front m src) above
              omega
        exact (update_of_ne apart _ _).trans (placed b le j a here)
      · rw [List.getElem?_append_right (by omega)] at here
        by_cases same : digit (src n) = b
        · rw [if_pos same, List.getElem?_singleton] at here
          split at here
          next last =>
            cases here
            have j_eq : cnt b + j = state.2 (digit (src n)) := by
              rw [position, same]
              omega
            rw [j_eq]
            exact update_self ..
          next => cases here
        · simp [if_neg same] at here
  exact loop.2

theorem placed_front {offset : Nat → Nat} (placed : Scattered digit buckets offset dst l)
    (counted : ∀ b, b < buckets → offset b = (byDigit digit b l).length) :
    front (byDigit digit buckets l).length dst = byDigit digit buckets l := by
  have upto : ∀ n, n ≤ buckets → front (byDigit digit n l).length dst = byDigit digit n l := by
    intro n
    induction n with
    | zero => exact fun _ => rfl
    | succ n ih =>
      intro le
      have here := placed n (by omega)
      rw [counted n (by omega)] at here
      have last : (List.range (bucket digit n l).length).map
          (fun j => dst ((byDigit digit n l).length + j)) = bucket digit n l := by
        apply List.ext_getElem
        · simp
        · intro j _ small
          simpa using here j _ (List.getElem?_eq_getElem small)
      rw [byDigit_succ, List.length_append, front, List.range_add, List.map_append, List.map_map]
      exact congrArg₂ (· ++ ·) (ih (by omega)) last
  exact upto buckets le_rfl

theorem scatter_front {m : Nat} {src : Nat → α} (small : ∀ i, i < m → digit (src i) < buckets) :
    front m (scatter digit m src dst
      (offsets buckets (tally digit m src (zeroCells buckets cnt))).1).1 =
      byDigit digit buckets (front m src) := by
  have tallied : ∀ b, b < buckets → tally digit m src (zeroCells buckets cnt) b =
      (bucket digit b (front m src)).length := by
    intro b le
    rw [tally_eq, zeroCells_eq buckets cnt b le, Nat.zero_add]
  have counted := offsets_eq tallied
  have length : (byDigit digit buckets (front m src)).length = m := by
    rw [(byDigit_perm ?_).length_eq, front_length]
    intro a member
    obtain ⟨i, inside, rfl⟩ := List.mem_map.mp member
    exact small i (List.mem_range.mp inside)
  have placed : Scattered digit buckets _ (scatter digit m src dst _).1 (front m src) :=
    scatter_placed small counted
  have moved := placed_front placed counted
  rwa [length] at moved

end Pass

section Radix

variable {α : Type*} (key : α → Nat) (R : α → α → Prop)

def OrderedMod (n : Nat) (a b : α) : Prop :=
  key a % n < key b % n ∨ key a % n = key b % n ∧ R a b

variable {key R}

variable {base : Nat} {l : List α} {n : Nat}

theorem ordered_one (ordered : l.Pairwise R) : l.Pairwise (OrderedMod key R 1) :=
  ordered.imp fun related => .inr ⟨by rw [Nat.mod_one, Nat.mod_one], related⟩

theorem orderedMod_mul {a b : α} (positive : 0 < n)
    (upper : key a / n % base < key b / n % base ∨
      key a / n % base = key b / n % base ∧ OrderedMod key R n a b) :
    OrderedMod key R (n * base) a b := by
  have first := Nat.mod_lt (key a) positive
  simp only [OrderedMod, Nat.mod_mul]
  cases upper with
  | inl lt =>
    left
    have := Nat.mul_le_mul_left n (Nat.succ_le_of_lt lt)
    rw [Nat.mul_succ] at this
    omega
  | inr same =>
    rw [same.1]
    cases same.2 with
    | inl lt => exact .inl (by omega)
    | inr equal => exact .inr ⟨by rw [equal.1], equal.2⟩

theorem byDigit_ordered (positive : 0 < n) (ordered : l.Pairwise (OrderedMod key R n)) :
    (byDigit (fun a => key a / n % base) base l).Pairwise (OrderedMod key R (n * base)) := by
  refine List.pairwise_flatMap.mpr ⟨?_, ?_⟩
  · intro b _
    refine (ordered.filter _).imp_of_mem ?_
    intro first second here there related
    have own : key first / n % base = b := by simpa using (List.mem_filter.mp here).2
    have other : key second / n % base = b := by simpa using (List.mem_filter.mp there).2
    exact orderedMod_mul positive (.inr ⟨by rw [own, other], related⟩)
  · refine List.pairwise_lt_range.imp ?_
    intro b later lt first here second there
    have own : key first / n % base = b := by simpa using (List.mem_filter.mp here).2
    have other : key second / n % base = later := by simpa using (List.mem_filter.mp there).2
    exact orderedMod_mul positive (.inl (by rw [own, other]; exact lt))

theorem constant_ordered {b : Nat} (positive : 0 < n)
    (constant : ∀ a ∈ l, key a / n % base = b) (ordered : l.Pairwise (OrderedMod key R n)) :
    l.Pairwise (OrderedMod key R (n * base)) := by
  refine ordered.imp_of_mem ?_
  intro first second here there related
  exact orderedMod_mul positive
    (.inr ⟨by rw [constant first here, constant second there], related⟩)

theorem ordered_of_small (small : ∀ a ∈ l, key a < n)
    (ordered : l.Pairwise (OrderedMod key R n)) :
    l.Pairwise fun a b => key a < key b ∨ key a = key b ∧ R a b := by
  refine ordered.imp_of_mem ?_
  intro first second here there related
  simpa only [OrderedMod, Nat.mod_eq_of_lt (small first here),
    Nat.mod_eq_of_lt (small second there)] using related

end Radix

end PerfStats.Lib
