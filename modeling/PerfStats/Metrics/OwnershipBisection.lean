import PerfStats.Lib.Dict
import PerfStats.Lib.Runs

namespace PerfStats.Metrics

open Lib

section Model

/-- A row of `host_data`: its time in microseconds, and whether it is in the scope of the job. -/
structure ScopedRow where
  timeUs : ℤ
  inScope : Bool
  deriving DecidableEq, Repr

/-- A `timedelta` divided by an integer: to the nearest microsecond, a half to the even one. -/
def divideAndRound (a b : ℤ) : ℤ :=
  let q := a / b
  let r := 2 * (a % b)
  if b < r ∨ (r = b ∧ q % 2 = 1) then q + 1 else q

def midpoint (a b : ℤ) : ℤ := a + divideAndRound (b - a) 2

def probed (rows : List ScopedRow) : Option ℤ → Option ℤ × Bool
  | none => (none, false)
  | some t => (some t, rows.any fun row => decide (row.timeUs = t) && row.inScope)

/-- `earliest_in`: the first sample in `[a, b)`. -/
def earliestIn (rows : List ScopedRow) (a b : ℤ) : Option ℤ × Bool :=
  probed rows ((rows.map ScopedRow.timeUs).filter fun t => decide (a ≤ t ∧ t < b)).min?

/-- `latest_in`: the last sample in `(a, b]`. -/
def latestIn (rows : List ScopedRow) (a b : ℤ) : Option ℤ × Bool :=
  probed rows ((rows.map ScopedRow.timeUs).filter fun t => decide (a < t ∧ t ≤ b)).max?

def wide (s : ℤ × ℤ) : Bool := decide (1 < s.2 - s.1)

/-- A turn of the loop for the first owned sample, which is in `(lo, hi]`. -/
def firstStep (rows : List ScopedRow) (s : ℤ × ℤ) : ℤ × ℤ :=
  let mid := midpoint s.1 s.2
  match latestIn rows s.1 mid with
  | (some t, true) => (s.1, t)
  | _ => (mid, s.2)

/-- A turn of the loop for the last owned sample, which is in `[lo, hi)`. -/
def lastStep (rows : List ScopedRow) (s : ℤ × ℤ) : ℤ × ℤ :=
  let mid := midpoint s.1 s.2
  match earliestIn rows mid s.2 with
  | (some t, true) => (t, s.2)
  | _ => (s.1, mid)

def scopedTimes (fuel : Nat) (rows : List ScopedRow) (start stop : ℤ) :
    Except Unit (Option ℤ × Option ℤ) :=
  match earliestIn rows (midpoint start stop) (stop + 1) with
  | (some anchor, true) =>
    (loop wide (firstStep rows) fuel (start - 1, anchor)).bind fun below =>
      (loop wide (lastStep rows) fuel (anchor, stop + 1)).map fun above =>
        (some below.2, some above.1)
  | _ => .ok (none, none)

/-- `first_last_scoped_times` for a job: the rows that each host has in `host_data`. -/
def firstLastScopedTimes {κ : Type*} [DecidableEq κ] (fuel : Nat) (table : κ → List ScopedRow)
    (hosts : List κ) (start stop : ℤ) : Except Unit (Dict κ (Option ℤ × Option ℤ)) :=
  hosts.foldlM (fun out host =>
    (scopedTimes fuel (table host) start stop).map fun bounds => out.set host bounds) .empty

end Model

section Samples

variable {rows : List ScopedRow} {a b t : ℤ}

def OwnedAt (rows : List ScopedRow) (t : ℤ) : Prop := ∃ row ∈ rows, row.timeUs = t ∧ row.inScope

def SampleAt (rows : List ScopedRow) (t : ℤ) : Prop := ∃ row ∈ rows, row.timeUs = t

def Contiguous (rows : List ScopedRow) (start stop : ℤ) : Prop :=
  ∀ s t u, OwnedAt rows s → SampleAt rows t → OwnedAt rows u → start ≤ s → s ≤ t → t ≤ u →
    u ≤ stop → OwnedAt rows t

theorem OwnedAt.sample (owned : OwnedAt rows t) : SampleAt rows t := by
  obtain ⟨row, member, here, _⟩ := owned
  exact ⟨row, member, here⟩

theorem any_owned :
    (rows.any fun row => decide (row.timeUs = t) && row.inScope) = true ↔ OwnedAt rows t := by
  simp [OwnedAt]

theorem sample_mem : t ∈ rows.map ScopedRow.timeUs ↔ SampleAt rows t := by simp [SampleAt]

theorem probed_spec {found : Option ℤ} {p : ℤ → Prop} [DecidablePred p] {near : ℤ → ℤ → Prop}
    (empty : found = none → (rows.map ScopedRow.timeUs).filter p = [])
    (nearest : ∀ t, found = some t → t ∈ (rows.map ScopedRow.timeUs).filter p ∧
      ∀ u ∈ (rows.map ScopedRow.timeUs).filter p, near u t) :
    (∃ t, probed rows found = (some t, true) ∧ OwnedAt rows t ∧ p t) ∨
      (probed rows found).2 = false ∧
        ∀ u, SampleAt rows u → p u → ∃ t, near u t ∧ p t ∧ SampleAt rows t ∧ ¬ OwnedAt rows t := by
  have listed : ∀ {u}, SampleAt rows u → p u → u ∈ (rows.map ScopedRow.timeUs).filter p :=
    fun sample inside => List.mem_filter.mpr ⟨sample_mem.mpr sample, decide_eq_true inside⟩
  cases found with
  | none =>
    refine .inr ⟨rfl, fun u sample inside => ?_⟩
    have member := listed sample inside
    rw [empty rfl] at member
    cases member
  | some t =>
    obtain ⟨member, nearer⟩ := nearest t rfl
    obtain ⟨sample, inside⟩ := List.mem_filter.mp member
    unfold probed
    dsimp only
    by_cases owned : OwnedAt rows t
    · rw [any_owned.mpr owned]
      exact .inl ⟨t, rfl, owned, of_decide_eq_true inside⟩
    · refine .inr ⟨Bool.eq_false_of_not_eq_true (any_owned.not.mpr owned), fun u other within => ?_⟩
      exact ⟨t, nearer u (listed other within), of_decide_eq_true inside, sample_mem.mp sample, owned⟩

theorem latestIn_spec (rows : List ScopedRow) (a b : ℤ) :
    (∃ t, latestIn rows a b = (some t, true) ∧ OwnedAt rows t ∧ a < t ∧ t ≤ b) ∨
      (latestIn rows a b).2 = false ∧
        ∀ u, SampleAt rows u → a < u ∧ u ≤ b →
          ∃ t, u ≤ t ∧ (a < t ∧ t ≤ b) ∧ SampleAt rows t ∧ ¬ OwnedAt rows t :=
  probed_spec List.max?_eq_none_iff.mp fun _ found => List.max?_eq_some_iff.mp found

theorem earliestIn_spec (rows : List ScopedRow) (a b : ℤ) :
    (∃ t, earliestIn rows a b = (some t, true) ∧ OwnedAt rows t ∧ a ≤ t ∧ t < b) ∨
      (earliestIn rows a b).2 = false ∧
        ∀ u, SampleAt rows u → a ≤ u ∧ u < b →
          ∃ t, t ≤ u ∧ (a ≤ t ∧ t < b) ∧ SampleAt rows t ∧ ¬ OwnedAt rows t :=
  probed_spec List.min?_eq_none_iff.mp fun _ found => List.min?_eq_some_iff.mp found

end Samples

section Halving

variable {rows : List ScopedRow} {start stop anchor : ℤ} {s : ℤ × ℤ} {a b : ℤ}

theorem midpoint_inside (wide : 1 < b - a) : a < midpoint a b ∧ midpoint a b < b := by
  unfold midpoint divideAndRound
  dsimp only
  split <;> omega

theorem midpoint_between (le : a ≤ b) : a ≤ midpoint a b ∧ midpoint a b ≤ b := by
  unfold midpoint divideAndRound
  dsimp only
  split <;> omega

theorem midpoint_reversed (lt : b < a) : b + 1 ≤ midpoint a b := by
  unfold midpoint divideAndRound
  dsimp only
  split <;> omega

structure FirstKept (rows : List ScopedRow) (start stop anchor : ℤ) (s : ℤ × ℤ) : Prop where
  low : start ≤ s.1 + 1
  ordered : s.1 < s.2
  high : s.2 ≤ anchor
  owned : OwnedAt rows s.2
  none_below : Contiguous rows start stop → ∀ t, OwnedAt rows t → start ≤ t → s.1 < t

structure LastKept (rows : List ScopedRow) (start stop anchor : ℤ) (s : ℤ × ℤ) : Prop where
  low : anchor ≤ s.1
  ordered : s.1 < s.2
  high : s.2 ≤ stop + 1
  owned : OwnedAt rows s.1
  none_above : Contiguous rows start stop → ∀ t, OwnedAt rows t → t ≤ stop → t < s.2

theorem firstStep_kept (kept : FirstKept rows start stop anchor s) (inside : anchor ≤ stop)
    (goes : wide s = true) : FirstKept rows start stop anchor (firstStep rows s) ∧
      ((firstStep rows s).2 - (firstStep rows s).1).toNat < (s.2 - s.1).toNat := by
  have gap : 1 < s.2 - s.1 := of_decide_eq_true goes
  obtain ⟨above, below⟩ := midpoint_inside gap
  obtain ⟨low, ordered, high, owned, none_below⟩ := kept
  unfold firstStep
  dsimp only
  obtain ⟨t, found, is_owned, after, before⟩ | ⟨unowned, skipped⟩ :=
    latestIn_spec rows s.1 (midpoint s.1 s.2)
  · rw [found]
    exact ⟨⟨low, after, by dsimp only; omega, is_owned, none_below⟩, by dsimp only; omega⟩
  · split
    · next found =>
        rw [found] at unowned
        cases unowned
    · refine ⟨⟨by dsimp only; omega, below, high, owned, ?_⟩, by dsimp only; omega⟩
      intro contiguous t is_owned started
      -- an owned sample in the interval would make the unowned one beside it owned
      by_contra short
      have later := none_below contiguous t is_owned started
      obtain ⟨u, from_t, ⟨_, upto⟩, sample, free⟩ := skipped t is_owned.sample ⟨later, by omega⟩
      exact free (contiguous t u s.2 is_owned sample owned started from_t (by omega) (by omega))

theorem lastStep_kept (kept : LastKept rows start stop anchor s) (inside : start ≤ anchor)
    (goes : wide s = true) : LastKept rows start stop anchor (lastStep rows s) ∧
      ((lastStep rows s).2 - (lastStep rows s).1).toNat < (s.2 - s.1).toNat := by
  have gap : 1 < s.2 - s.1 := of_decide_eq_true goes
  obtain ⟨above, below⟩ := midpoint_inside gap
  obtain ⟨low, ordered, high, owned, none_above⟩ := kept
  unfold lastStep
  dsimp only
  obtain ⟨t, found, is_owned, after, before⟩ | ⟨unowned, skipped⟩ :=
    earliestIn_spec rows (midpoint s.1 s.2) s.2
  · rw [found]
    exact ⟨⟨by dsimp only; omega, before, high, is_owned, none_above⟩, by dsimp only; omega⟩
  · split
    · next found =>
        rw [found] at unowned
        cases unowned
    · refine ⟨⟨low, above, by dsimp only; omega, owned, ?_⟩, by dsimp only; omega⟩
      intro contiguous t is_owned ended
      by_contra long
      have earlier := none_above contiguous t is_owned ended
      obtain ⟨u, upto, ⟨from_mid, _⟩, sample, free⟩ := skipped t is_owned.sample ⟨by omega, earlier⟩
      exact free (contiguous s.1 u t owned sample is_owned (by omega) (by omega) upto ended)

end Halving

section Bounds

variable {rows : List ScopedRow} {start stop anchor : ℤ}

/-- What the loops come to: owned samples of the window, and where the owned ones are one run, its
first and last. -/
structure BoundsRight (rows : List ScopedRow) (start stop first last : ℤ) : Prop where
  first_owned : OwnedAt rows first
  last_owned : OwnedAt rows last
  inside : start ≤ first ∧ first ≤ last ∧ last ≤ stop
  exact : Contiguous rows start stop → ∀ t, OwnedAt rows t → start ≤ t → t ≤ stop →
    first ≤ t ∧ t ≤ last

theorem scopedTimes_anchored
    (here : earliestIn rows (midpoint start stop) (stop + 1) = (some anchor, true)) :
    ∃ first last, BoundsRight rows start stop first last ∧
      ∀ fuel, (stop - start + 2).toNat ≤ fuel →
        scopedTimes fuel rows start stop = .ok (some first, some last) := by
  obtain ⟨t, found, owned, above, below⟩ | ⟨unowned, _⟩ :=
    earliestIn_spec rows (midpoint start stop) (stop + 1)
  · rw [here] at found
    cases found
    have forward : start ≤ stop := by
      by_contra reversed
      have := midpoint_reversed (a := start) (b := stop) (by omega)
      omega
    have middle := midpoint_between forward
    have first_starts : FirstKept rows start stop anchor (start - 1, anchor) :=
      ⟨by dsimp only; omega, by dsimp only; omega, le_rfl, owned,
        fun _ t _ started => by dsimp only; omega⟩
    have last_starts : LastKept rows start stop anchor (anchor, stop + 1) :=
      ⟨le_rfl, below, le_rfl, owned, fun _ t _ ended => by dsimp only; omega⟩
    obtain ⟨below_end, first_kept, first_halts, first_runs⟩ :=
      loop_measured (fun s : ℤ × ℤ => (s.2 - s.1).toNat) first_starts
        fun s kept goes => firstStep_kept kept (by omega) goes
    obtain ⟨above_end, last_kept, last_halts, last_runs⟩ :=
      loop_measured (fun s : ℤ × ℤ => (s.2 - s.1).toNat) last_starts
        fun s kept goes => lastStep_kept kept (by omega) goes
    have first_close : ¬ 1 < below_end.2 - below_end.1 := of_decide_eq_false first_halts
    have last_close : ¬ 1 < above_end.2 - above_end.1 := of_decide_eq_false last_halts
    obtain ⟨first_low, first_ordered, first_high, first_owned, none_below⟩ := first_kept
    obtain ⟨last_low, last_ordered, last_high, last_owned, none_above⟩ := last_kept
    refine ⟨below_end.2, above_end.1, ⟨first_owned, last_owned, by omega, ?_⟩, ?_⟩
    · intro contiguous t is_owned started ended
      have := none_below contiguous t is_owned started
      have := none_above contiguous t is_owned ended
      omega
    · intro fuel enough
      unfold scopedTimes
      rw [here]
      dsimp only
      rw [first_runs fuel (by dsimp only; omega), last_runs fuel (by dsimp only; omega)]
      rfl
  · rw [here] at unowned
    cases unowned

def OwnsMiddle (rows : List ScopedRow) (start stop : ℤ) : Prop :=
  ∃ anchor, OwnedAt rows anchor ∧ midpoint start stop ≤ anchor ∧ anchor ≤ stop ∧
    ∀ t, SampleAt rows t → midpoint start stop ≤ t → anchor ≤ t

def HostRight (rows : List ScopedRow) (start stop : ℤ) (bounds : Option ℤ × Option ℤ) : Prop :=
  (OwnsMiddle rows start stop → ∃ first last, bounds = (some first, some last) ∧
    BoundsRight rows start stop first last) ∧
  (¬ OwnsMiddle rows start stop → bounds = (none, none))

theorem ownsMiddle_iff : OwnsMiddle rows start stop ↔
    ∃ anchor, earliestIn rows (midpoint start stop) (stop + 1) = (some anchor, true) := by
  obtain ⟨t, found, owned, above, below⟩ | ⟨unowned, skipped⟩ :=
    earliestIn_spec rows (midpoint start stop) (stop + 1)
  · refine iff_of_true ⟨t, owned, above, by omega, fun u sample late => ?_⟩ ⟨t, found⟩
    by_contra earlier
    unfold earliestIn at found
    cases least : ((rows.map ScopedRow.timeUs).filter fun t =>
        decide (midpoint start stop ≤ t ∧ t < stop + 1)).min? with
    | none =>
      rw [least] at found
      cases found
    | some v =>
      rw [least] at found
      have same : v = t := Option.some.inj (congrArg Prod.fst found)
      have le := (List.min?_eq_some_iff.mp least).2 u (List.mem_filter.mpr
        ⟨sample_mem.mpr sample, decide_eq_true ⟨late, by omega⟩⟩)
      omega
  · refine iff_of_false (fun owns => ?_) fun found => ?_
    · obtain ⟨anchor, owned, late, inside, nearest⟩ := owns
      obtain ⟨u, upto, ⟨from_middle, _⟩, sample, free⟩ :=
        skipped anchor owned.sample ⟨late, by omega⟩
      have same : anchor = u := le_antisymm (nearest u sample from_middle) upto
      exact free (same ▸ owned)
    · obtain ⟨anchor, here⟩ := found
      rw [here] at unowned
      cases unowned

theorem scopedTimes_right (rows : List ScopedRow) (start stop : ℤ) :
    ∃ bounds, HostRight rows start stop bounds ∧ ∀ fuel, (stop - start + 2).toNat ≤ fuel →
      scopedTimes fuel rows start stop = .ok bounds := by
  by_cases owns : OwnsMiddle rows start stop
  · obtain ⟨anchor, here⟩ := ownsMiddle_iff.mp owns
    obtain ⟨first, last, right, runs⟩ := scopedTimes_anchored here
    exact ⟨_, ⟨fun _ => ⟨first, last, rfl, right⟩, fun other => absurd owns other⟩, runs⟩
  · refine ⟨(none, none), ⟨fun other => absurd other owns, fun _ => rfl⟩, fun fuel _ => ?_⟩
    unfold scopedTimes
    split
    · next anchor here => exact absurd (ownsMiddle_iff.mpr ⟨anchor, here⟩) owns
    · rfl

/-- Both loops end within as many turns as the window has microseconds, on owned samples: the first
and the last where those are one run. -/
theorem bisection_bounds {κ : Type*} [DecidableEq κ] (table : κ → List ScopedRow) (hosts : List κ)
    (start stop : ℤ) :
    ∃ out, (∀ fuel, (stop - start + 2).toNat ≤ fuel →
        firstLastScopedTimes fuel table hosts start stop = .ok out) ∧
      ∀ host ∈ hosts, ∃ bounds, out.get? host = some bounds ∧
        HostRight (table host) start stop bounds := by
  choose bounds right runs using fun host => scopedTimes_right (table host) start stop
  refine ⟨hosts.foldl (fun out host => out.set host (bounds host)) .empty, ?_, ?_⟩
  · intro fuel enough
    have folded : ∀ out : Dict κ (Option ℤ × Option ℤ),
        hosts.foldlM (fun out host =>
          (scopedTimes fuel (table host) start stop).map fun bounds => out.set host bounds) out =
          .ok (hosts.foldl (fun out host => out.set host (bounds host)) out) := by
      induction hosts with
      | nil => exact fun _ => rfl
      | cons host hosts ih =>
        intro out
        rw [List.foldlM_cons, runs host fuel enough, List.foldl_cons, ← ih]
        rfl
    exact folded .empty
  · intro host member
    refine ⟨bounds host, ?_, right host⟩
    induction hosts using List.reverseRecOn with
    | nil => cases member
    | append_singleton hosts last ih =>
      rw [List.foldl_append, List.foldl_cons, List.foldl_nil, Dict.get?_set]
      split
      · next same => rw [same]
      · next other =>
          obtain before | here := List.mem_append.mp member
          · exact ih before
          · exact absurd (List.mem_singleton.mp here) other

def jobInWindow : List ScopedRow :=
  [(10, false), (70, true), (130, true), (190, true), (250, false)].map fun row => ⟨row.1, row.2⟩

theorem bisection_bounds_window : ∃ out,
    firstLastScopedTimes 400 (fun _ : Unit => jobInWindow) [()] 0 300 = .ok out ∧
      ∃ bounds, out.get? () = some bounds ∧ HostRight jobInWindow 0 300 bounds := by
  obtain ⟨out, runs, right⟩ := bisection_bounds (fun _ : Unit => jobInWindow) [()] 0 300
  exact ⟨out, runs 400 (by decide), right () (by decide)⟩

example : scopedTimes 400 jobInWindow 0 300 = .ok (some 70, some 190) := by decide +kernel

end Bounds

end PerfStats.Metrics
