import Mathlib

/-! Open addressing: a search that follows a probe sequence, with slots of removed entries on the
way. -/

namespace PerfStats.Lib

open Function

section Walk

theorem geometric {R : Type*} [Monoid R] {a : R} {y : Nat → R}
    (step : ∀ n, y (n + 1) = a * y n) (n : Nat) : y n = a ^ n * y 0 := by
  induction n with
  | zero => simp
  | succ n ih => rw [step, ih, pow_succ', mul_assoc]

theorem isUnit_four_mul_add_one (m x : Nat) : IsUnit ((4 * x + 1 : Nat) : ZMod (2 ^ (m + 2))) := by
  rw [ZMod.isUnit_iff_coprime]
  apply Nat.Coprime.pow_right
  rw [Nat.coprime_two_right]
  exact ⟨2 * x, by omega⟩

variable {x : Nat → Nat}

theorem walk_injOn {m : Nat}
    (step : ∀ n, x (n + 1) ≡ 5 * x n + 1 [MOD 2 ^ m]) {j k : Nat} (first : j < 2 ^ m)
    (second : k < 2 ^ m) (same : x j ≡ x k [MOD 2 ^ m]) : j = k := by
  have four : 2 ^ (m + 2) = 4 * 2 ^ m := by rw [pow_add, Nat.mul_comm]; rfl
  -- `4 x + 1` turns the affine walk into multiplication by five
  have lift : ∀ a b : Nat, a ≡ b [MOD 2 ^ m] →
      ((4 * a + 1 : Nat) : ZMod (2 ^ (m + 2))) = ((4 * b + 1 : Nat) : ZMod (2 ^ (m + 2))) := by
    intro a b near
    rw [ZMod.natCast_eq_natCast_iff, four]
    exact (Nat.ModEq.mul_left' 4 near).add_right 1
  have grown : ∀ n, ((4 * x (n + 1) + 1 : Nat) : ZMod (2 ^ (m + 2))) =
      5 * ((4 * x n + 1 : Nat) : ZMod (2 ^ (m + 2))) := by
    intro n
    rw [lift _ _ (step n)]
    push_cast
    ring
  have powers := lift _ _ same
  have power := geometric (y := fun n => ((4 * x n + 1 : Nat) : ZMod (2 ^ (m + 2)))) grown
  rw [power j, power k] at powers
  have cancelled := (isUnit_four_mul_add_one m (x 0)).mul_right_cancel powers
  exact pow_injOn_Iio_orderOf (by simpa [ZMod.orderOf_five] using first)
    (by simpa [ZMod.orderOf_five] using second) cancelled

theorem walk_surj {m : Nat}
    (step : ∀ n, x (n + 1) ≡ 5 * x n + 1 [MOD 2 ^ m]) {r : Nat} (slot : r < 2 ^ m) :
    ∃ n < 2 ^ m, x n % 2 ^ m = r := by
  have positive : 0 < 2 ^ m := Nat.two_pow_pos m
  let visit : Fin (2 ^ m) → Fin (2 ^ m) := fun n => ⟨x n % 2 ^ m, Nat.mod_lt _ positive⟩
  have injective : Injective visit := by
    intro j k same
    exact Fin.ext (walk_injOn step j.isLt k.isLt (Fin.mk.inj same))
  rcases Finite.surjective_of_injective injective ⟨r, slot⟩ with ⟨n, reached⟩
  exact ⟨n, n.isLt, Fin.mk.inj reached⟩

theorem late_walk_surj {m start : Nat}
    (step : ∀ n, start ≤ n → x (n + 1) ≡ 5 * x n + 1 [MOD 2 ^ m]) {r : Nat} (slot : r < 2 ^ m) :
    ∃ n < start + 2 ^ m, x n % 2 ^ m = r := by
  have shifted : ∀ n, x (start + (n + 1)) ≡ 5 * x (start + n) + 1 [MOD 2 ^ m] :=
    fun n => step (start + n) (by omega)
  rcases walk_surj (x := fun n => x (start + n)) shifted slot with ⟨n, less, reached⟩
  exact ⟨start + n, by omega, reached⟩

end Walk

section Tables

/-- A slot: never used, left by a removed entry, or holding the entry of a key. -/
inductive Cell (κ : Type*) where
  | unused
  | dead
  | live (k : κ)
  deriving DecidableEq

variable {κ : Type*}

def Stops (cell : Nat → Cell κ) (probe : Nat → Nat) (k : κ) (n : Nat) : Prop :=
  cell (probe n) = .unused ∨ cell (probe n) = .live k

/-- The slot of `k`: where it is, else the first slot on the way that an entry may take. -/
def search [DecidableEq κ] (cell : Nat → Cell κ) (probe : Nat → Nat) (k : κ) :
    Nat → Nat → Option Nat → Option Nat
  | 0, _, _ => none
  | fuel + 1, n, dead =>
    match cell (probe n) with
    | .unused => some (dead.getD (probe n))
    | .dead => search cell probe k fuel (n + 1) (dead <|> some (probe n))
    | .live other => if other = k then some (probe n) else search cell probe k fuel (n + 1) dead

/-- An entry for `k` at `t` would be found: no slot before it on its way is unused. -/
def Free (cell : Nat → Cell κ) (probe : Nat → Nat) (t : Nat) : Prop :=
  ∃ n, probe n = t ∧ (cell t = .unused ∨ cell t = .dead) ∧ ∀ j < n, cell (probe j) ≠ .unused

structure Placed (cell : Nat → Cell κ) (probe : κ → Nat → Nat) : Prop where
  path : ∀ s k, cell s = .live k → ∃ n, probe k n = s ∧ ∀ j < n, cell (probe k j) ≠ .unused
  single : ∀ s t k, cell s = .live k → cell t = .live k → s = t

variable {cell : Nat → Cell κ}

section Search

variable [DecidableEq κ] {probe : Nat → Nat} {k : κ} {fuel n m : Nat} {dead : Option Nat}

theorem search_none (never : ∀ j, n ≤ j → j < n + fuel → ¬ Stops cell probe k j) :
    search cell probe k fuel n dead = none := by
  induction fuel generalizing n dead with
  | zero => rfl
  | succ fuel ih =>
    have here : ¬ Stops cell probe k n := never n (by omega) (by omega)
    have later : ∀ j, n + 1 ≤ j → j < n + 1 + fuel → ¬ Stops cell probe k j :=
      fun j above below => never j (by omega) (by omega)
    rw [search]
    cases found : cell (probe n) with
    | unused => exact absurd (.inl found) here
    | dead => exact ih later
    | live other =>
      have differs : other ≠ k := by
        rintro rfl
        exact here (.inr found)
      simp only [if_neg differs]
      exact ih later

theorem search_hit (from_here : n ≤ m) (inside : m < n + fuel)
    (before : ∀ j, n ≤ j → j < m → ¬ Stops cell probe k j) (hit : cell (probe m) = .live k) :
    search cell probe k fuel n dead = some (probe m) := by
  induction fuel generalizing n dead with
  | zero => omega
  | succ fuel ih =>
    rw [search]
    rcases Nat.eq_or_lt_of_le from_here with rfl | later
    · simp [hit]
    · have here : ¬ Stops cell probe k n := before n (by omega) later
      have rest : ∀ dead, search cell probe k fuel (n + 1) dead = some (probe m) :=
        fun dead => ih later (by omega) fun j above below => before j (by omega) below
      cases found : cell (probe n) with
      | unused => exact absurd (.inl found) here
      | dead => exact rest _
      | live other =>
        have differs : other ≠ k := by
          rintro rfl
          exact here (.inr found)
        simp only [if_neg differs]
        exact rest _

theorem search_miss (from_here : n ≤ m) (inside : m < n + fuel)
    (before : ∀ j, n ≤ j → j < m → ¬ Stops cell probe k j) (miss : cell (probe m) = .unused) :
    ∃ t, search cell probe k fuel n dead = some t ∧
      (dead = some t ∨
        ∃ j ≤ m, probe j = t ∧ (cell t = .unused ∨ cell t = .dead) ∧ (dead = none)) := by
  induction fuel generalizing n dead with
  | zero => omega
  | succ fuel ih =>
    rw [search]
    rcases Nat.eq_or_lt_of_le from_here with rfl | later
    · cases dead with
      | none => exact ⟨probe n, by simp [miss], .inr ⟨n, le_rfl, rfl, .inl miss, rfl⟩⟩
      | some first => exact ⟨first, by simp [miss], .inl rfl⟩
    · have here : ¬ Stops cell probe k n := before n (by omega) later
      have rest := fun dead => @ih (n + 1) dead later (by omega)
        fun j above below => before j (by omega) below
      cases found : cell (probe n) with
      | unused => exact absurd (.inl found) here
      | dead =>
        rcases rest (dead <|> some (probe n)) with ⟨t, result, origin⟩
        refine ⟨t, result, ?_⟩
        cases dead with
        | none =>
          rcases origin with same | ⟨_, _, _, _, impossible⟩
          · have taken : probe n = t := by simpa using same
            exact .inr ⟨n, from_here, taken, .inr (taken ▸ found), rfl⟩
          · simp at impossible
        | some first =>
          rcases origin with same | ⟨_, _, _, _, impossible⟩
          · exact .inl (by simpa using same)
          · simp at impossible
      | live other =>
        have differs : other ≠ k := by
          rintro rfl
          exact here (.inr found)
        simp only [if_neg differs]
        exact rest dead

end Search

theorem first_stop {probe : Nat → Nat} {k : κ} {bound : Nat}
    (stop : ∃ n < bound, Stops cell probe k n) :
    ∃ m < bound, Stops cell probe k m ∧ ∀ j < m, ¬ Stops cell probe k j := by
  classical
  rcases stop with ⟨n, inside, stops⟩
  have some_turn : ∃ n, Stops cell probe k n := ⟨n, stops⟩
  have least : Nat.find some_turn ≤ n := Nat.find_min' some_turn stops
  exact ⟨Nat.find some_turn, by omega, Nat.find_spec some_turn,
    fun j less => Nat.find_min some_turn less⟩

section Placement

variable {probe : κ → Nat → Nat} {k : κ} {s t bound : Nat}

theorem placed_of_unused (probe : κ → Nat → Nat) (fresh : ∀ s, cell s = .unused ∨ cell s = .dead) :
    Placed cell probe := by
  have never : ∀ s k, cell s ≠ .live k := by
    intro s k stored
    rcases fresh s with free | free <;> simp [free] at stored
  exact ⟨fun s k stored => absurd stored (never s k),
    fun s _ k stored => absurd stored (never s k)⟩

theorem Placed.lookup_stored [DecidableEq κ] (placed : Placed cell probe)
    (stored : cell s = .live k) (stop : ∃ n < bound, Stops cell (probe k) k n) :
    search cell (probe k) k bound 0 none = some s := by
  rcases first_stop stop with ⟨m, inside, stops, first⟩
  have hit : cell (probe k m) = .live k := by
    rcases stops with unused | hit
    · -- the way to `s` has no unused slot, so the search would have met `s` before
      rcases placed.path s k stored with ⟨n, reached, used⟩
      rcases Nat.lt_trichotomy n m with less | rfl | more
      · exact absurd (.inr (by rw [reached, stored])) (first n less)
      · rw [reached, stored] at unused
        exact absurd unused (by simp)
      · exact absurd unused (used m more)
    · exact hit
  have within : m < 0 + bound := by omega
  rw [search_hit (Nat.zero_le m) within (fun j _ less => first j less) hit]
  exact congrArg some (placed.single _ _ k hit stored)

theorem lookup_absent [DecidableEq κ] (absent : ∀ s, cell s ≠ .live k)
    (stop : ∃ n < bound, Stops cell (probe k) k n) :
    ∃ t, search cell (probe k) k bound 0 none = some t ∧ Free cell (probe k) t := by
  rcases first_stop stop with ⟨m, inside, stops, first⟩
  have unused : cell (probe k m) = .unused := stops.resolve_right (absent _)
  have within : m < 0 + bound := by omega
  rcases @search_miss κ cell _ (probe k) k bound 0 m none (Nat.zero_le m) within
    (fun j _ less => first j less) unused with ⟨t, result, origin⟩
  rcases origin with impossible | ⟨j, upto, reached, free, _⟩
  · simp at impossible
  · exact ⟨t, result, j, reached, free, fun i less used => first i (by omega) (.inl used)⟩

theorem lookup_none [DecidableEq κ] (never : ¬ ∃ n < bound, Stops cell (probe k) k n) :
    search cell (probe k) k bound 0 none = none :=
  search_none fun j _ below stops => never ⟨j, by omega, stops⟩

theorem Placed.place (placed : Placed cell probe) (absent : ∀ s, cell s ≠ .live k)
    (free : Free cell (probe k) t) : Placed (update cell t (.live k)) probe := by
  have still : ∀ s, cell s ≠ .unused → update cell t (.live k) s ≠ .unused := by
    intro s used
    by_cases here : s = t
    · simp [here]
    · rwa [update_of_ne here]
  have back : ∀ s other, update cell t (.live k) s = .live other →
      s = t ∧ other = k ∨ s ≠ t ∧ cell s = .live other := by
    intro s other stored
    by_cases here : s = t
    · subst here
      rw [update_self, Cell.live.injEq] at stored
      exact .inl ⟨rfl, stored.symm⟩
    · rw [update_of_ne here] at stored
      exact .inr ⟨here, stored⟩
  constructor
  · intro s other stored
    rcases back s other stored with ⟨rfl, rfl⟩ | ⟨_, before⟩
    · rcases free with ⟨n, reached, _, used⟩
      exact ⟨n, reached, fun j less => still _ (used j less)⟩
    · rcases placed.path s other before with ⟨n, reached, used⟩
      exact ⟨n, reached, fun j less => still _ (used j less)⟩
  · intro s s' other first second
    rcases back s other first with ⟨rfl, rfl⟩ | ⟨_, before⟩
    · rcases back s' other second with ⟨rfl, _⟩ | ⟨_, before'⟩
      · rfl
      · exact absurd before' (absent s')
    · rcases back s' other second with ⟨rfl, rfl⟩ | ⟨_, before'⟩
      · exact absurd before (absent s)
      · exact placed.single s s' other before before'

theorem Placed.bury (placed : Placed cell probe) :
    Placed (update cell t .dead) probe := by
  have back : ∀ s other, update cell t .dead s = .live other → cell s = .live other := by
    intro s other stored
    by_cases here : s = t
    · simp [here] at stored
    · rwa [update_of_ne here] at stored
  constructor
  · intro s other stored
    rcases placed.path s other (back s other stored) with ⟨n, reached, used⟩
    refine ⟨n, reached, fun j less => ?_⟩
    by_cases here : probe other j = t
    · simp [here]
    · rw [update_of_ne here]
      exact used j less
  · intro s s' other first second
    exact placed.single s s' other (back s other first) (back s' other second)

end Placement

end Tables

end PerfStats.Lib
