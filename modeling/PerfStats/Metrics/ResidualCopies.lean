import PerfStats.Metrics.Segments

namespace PerfStats.Metrics

open Lib

section Model

def maxSaneCounterRate : ℚ := 10 ^ 13

def maxSaneCounterDelta : ℚ := 10 ^ 17

def saneCounterAbsLimit (valueKey : String) : ℚ :=
  if valueKey = "delta" then maxSaneCounterDelta else maxSaneCounterRate

/-- A row of `host_data` as a dictionary, with the one value that is reduced. -/
structure ResidualRow (H T E : Type*) where
  host : H
  time : T
  event : E
  dev : Option (List Char)
  value : Option Exact
  deriving DecidableEq

variable {H T E : Type*}

def ResidualRow.group (row : ResidualRow H T E) : H × T × E := (row.host, row.time, row.event)

/-- `str(row.get("dev") or "").startswith("j:")`. -/
def jobCopy (dev : Option (List Char)) : Bool := "j:".toList.isPrefixOf (dev.getD [])

def keptValue (limit : ℚ) : Option Exact → Option Exact
  | none => none
  | some val => if val.isNan || val.absReaches limit then none else some val

def largestOf : List Exact → Exact
  | [] => .nan
  | first :: rest => rest.foldl (fun largest val => if largest.lt val then val else largest) first

/-- One group of `collapse_residual_sample_copies`. -/
def collapseItems (limit : ℚ) (items : List (ResidualRow H T E)) : Option Exact :=
  let hardware := items.filter fun row => !jobCopy row.dev
  let chosen := if hardware.isEmpty then items.filter fun row => jobCopy row.dev else hardware
  let vals := chosen.filterMap fun row => keptValue limit row.value
  if vals.isEmpty then none
  else some (if hardware.isEmpty then largestOf vals else vals.foldl .add (.num 0))

/-- The groups with their reduced values. -/
def collapseResidualSampleCopies [DecidableEq H] [DecidableEq T] [DecidableEq E]
    (rows : List (ResidualRow H T E)) (valueKey : String) : List ((H × T × E) × Exact) :=
  (groupBy ResidualRow.group (fun group items =>
    (collapseItems (saneCounterAbsLimit valueKey) items).map fun reduced => (group, reduced))
    rows).filterMap id

def ResidualRow.column (row : ResidualRow H T E) : Exact := row.value.getD .nan

/-- `finite_mask(values, limit=sane_counter_abs_limit(column))`. -/
def ResidualRow.finite (valueKey : String) (row : ResidualRow H T E) : Bool :=
  finiteMask (some (saneCounterAbsLimit valueKey)) false row.column

end Model

section Agreement

variable {H T E : Type*} {limit : ℚ}

theorem keptValue_eq (raw : Option Exact) :
    keptValue limit raw =
      if finiteMask (some limit) false (raw.getD .nan) then some (raw.getD .nan) else none := by
  cases raw with
  | none => rfl
  | some val =>
    unfold keptValue finiteMask
    cases val with
    | nan => rfl
    | negInf => rfl
    | posInf => rfl
    | num q =>
      by_cases below : |q| < limit
      · have short : ¬ limit ≤ |q| := not_le.mpr below
        simp [Exact.isNan, Exact.absBelow, Exact.absReaches, below, short]
      · have reaches : limit ≤ |q| := not_lt.mp below
        simp [Exact.isNan, Exact.absBelow, Exact.absReaches, below, reaches]

theorem filterMap_kept (items : List (ResidualRow H T E)) :
    items.filterMap (fun row => keptValue limit row.value) =
      (items.filter fun row => finiteMask (some limit) false row.column).map
        ResidualRow.column := by
  induction items with
  | nil => rfl
  | cons row items ih =>
    rw [List.filterMap_cons, List.filter_cons, keptValue_eq, ih]
    unfold ResidualRow.column
    split
    · next none_kept =>
        split at none_kept
        · cases none_kept
        · next beyond => rw [if_neg beyond]
    · next kept =>
        split at kept
        · next within =>
            cases kept
            rw [if_pos within, List.map_cons]
        · cases kept

theorem maximum_of_numbers {largest val : Exact} (one : largest.isNan = false)
    (other : val.isNan = false) :
    largest.maximum val = if largest.lt val then val else largest := by
  unfold Exact.maximum
  rw [one, other]
  rfl

theorem largestOf_eq {vals : List Exact} (some_value : vals ≠ [])
    (numbers : ∀ val ∈ vals, val.isNan = false) :
    largestOf vals = vals.foldl .maximum .negInf := by
  cases vals with
  | nil => exact absurd rfl some_value
  | cons first rest =>
    rw [List.foldl_cons, Exact.maximum_negInf, largestOf]
    obtain ⟨is_number, others⟩ := List.forall_mem_cons.mp numbers
    clear some_value numbers
    induction rest generalizing first with
    | nil => rfl
    | cons val rest ih =>
      obtain ⟨this, rest_numbers⟩ := List.forall_mem_cons.mp others
      rw [List.foldl_cons, List.foldl_cons, maximum_of_numbers is_number this]
      apply ih _ _ rest_numbers
      split
      · exact this
      · exact is_number

theorem finite_number {val : Exact} (finite : finiteMask (some limit) false val = true) :
    val.isNan = false := by
  cases val with
  | nan => cases finite
  | _ => rfl

def MaskedHardware (valueKey : String) (items : List (ResidualRow H T E)) : Prop :=
  (∃ row ∈ items, jobCopy row.dev = false) ∧
    (∀ row ∈ items, jobCopy row.dev = false → row.finite valueKey = false) ∧
    ∃ row ∈ items, jobCopy row.dev = true ∧ row.finite valueKey = true

variable {valueKey : String} {devId : Option (List Char) → ℤ}

theorem masked_filters {items : List (ResidualRow H T E)}
    (signed : ∀ row ∈ items, devId row.dev < 0 ↔ jobCopy row.dev = true) :
    items.filter (fun row => row.finite valueKey && decide (0 ≤ devId row.dev)) =
        (items.filter fun row => !jobCopy row.dev).filter (ResidualRow.finite valueKey) ∧
      items.filter (fun row => row.finite valueKey && decide (devId row.dev < 0)) =
        (items.filter fun row => jobCopy row.dev).filter (ResidualRow.finite valueKey) := by
  constructor
  · rw [List.filter_filter]
    apply List.filter_congr
    intro row member
    have sign := signed row member
    cases copy : jobCopy row.dev with
    | false =>
      rw [copy] at sign
      have hardware : 0 ≤ devId row.dev := not_lt.mp fun below => nomatch sign.mp below
      rw [decide_eq_true hardware]
      rfl
    | true =>
      rw [decide_eq_false (not_le.mpr (sign.mpr copy))]
      rfl
  · rw [List.filter_filter]
    apply List.filter_congr
    intro row member
    congr 1
    rw [Bool.eq_iff_iff, decide_eq_true_iff]
    exact signed row member

theorem filter_ne_nil {α : Type*} {l : List α} {p : α → Bool} :
    l.filter p ≠ [] ↔ ∃ a ∈ l, p a = true := by
  rw [ne_eq, List.filter_eq_nil_iff]
  simp only [not_forall, not_not, exists_prop]

theorem maskedHardware_iff {items : List (ResidualRow H T E)} :
    MaskedHardware valueKey items ↔ (items.filter fun row => !jobCopy row.dev) ≠ [] ∧
      (items.filter fun row => !jobCopy row.dev).filter (ResidualRow.finite valueKey) = [] ∧
      (items.filter fun row => jobCopy row.dev).filter (ResidualRow.finite valueKey) ≠ [] := by
  unfold MaskedHardware
  rw [filter_ne_nil, filter_ne_nil, List.filter_eq_nil_iff]
  simp only [List.mem_filter, Bool.not_eq_true', and_imp, and_assoc, Bool.not_eq_true]

theorem collapseItems_eq (items : List (ResidualRow H T E)) :
    collapseItems (saneCounterAbsLimit valueKey) items =
      if (items.filter fun row => !jobCopy row.dev) = [] then
        if (items.filter fun row => jobCopy row.dev).filter (ResidualRow.finite valueKey) = [] then
          none
        else some ((((items.filter fun row => jobCopy row.dev).filter
          (ResidualRow.finite valueKey)).map ResidualRow.column).foldl .maximum .negInf)
      else
        if (items.filter fun row => !jobCopy row.dev).filter (ResidualRow.finite valueKey) = [] then
          none
        else some ((((items.filter fun row => !jobCopy row.dev).filter
          (ResidualRow.finite valueKey)).map ResidualRow.column).foldl .add (.num 0)) := by
  have kept : ∀ chosen : List (ResidualRow H T E), (chosen.filterMap fun row =>
      keptValue (saneCounterAbsLimit valueKey) row.value) =
        (chosen.filter (ResidualRow.finite valueKey)).map ResidualRow.column := filterMap_kept
  unfold collapseItems
  simp only [kept, List.isEmpty_iff, List.map_eq_nil_iff]
  split
  · split
    · rfl
    · next some_copy =>
        congr 1
        apply largestOf_eq
        · exact fun nothing => some_copy (List.map_eq_nil_iff.mp nothing)
        · intro val member
          obtain ⟨row, inside, same⟩ := List.mem_map.mp member
          rw [← same]
          exact finite_number (List.mem_filter.mp inside).2
  · rfl

theorem collapseItems_eq_iff {items : List (ResidualRow H T E)}
    (signed : ∀ row ∈ items, devId row.dev < 0 ↔ jobCopy row.dev = true) :
    reducedCopies (fun row => devId row.dev) ResidualRow.column (ResidualRow.finite valueKey) items =
        collapseItems (saneCounterAbsLimit valueKey) items ↔ ¬ MaskedHardware valueKey items := by
  obtain ⟨hw, j⟩ := @masked_filters H T E valueKey devId items signed
  rw [maskedHardware_iff, collapseItems_eq]
  unfold reducedCopies
  rw [hw, j]
  by_cases no_hardware : (items.filter fun row => !jobCopy row.dev) = []
  · rw [no_hardware, List.filter_nil, if_pos rfl, if_neg (not_not.mpr rfl), ite_not]
    exact iff_of_true rfl fun masked => masked.1 rfl
  · rw [if_neg no_hardware]
    by_cases masked : (items.filter fun row => !jobCopy row.dev).filter
        (ResidualRow.finite valueKey) = []
    · rw [if_pos masked, if_neg (not_not.mpr masked)]
      by_cases copies : (items.filter fun row => jobCopy row.dev).filter
          (ResidualRow.finite valueKey) = []
      · rw [if_neg (not_not.mpr copies)]
        exact iff_of_true rfl fun all => all.2.2 copies
      · rw [if_pos copies]
        exact iff_of_false nofun fun fine => fine ⟨no_hardware, masked, copies⟩
    · rw [if_pos masked, if_neg masked]
      exact iff_of_true rfl fun all => masked all.2.1

variable [DecidableEq H] [DecidableEq T] [DecidableEq E] {rows : List (ResidualRow H T E)}

theorem mem_collapseResidualSampleCopies {group : H × T × E} {reduced : Exact} :
    (group, reduced) ∈ collapseResidualSampleCopies rows valueKey ↔
      (∃ row ∈ rows, row.group = group) ∧
        collapseItems (saneCounterAbsLimit valueKey) (series ResidualRow.group group rows) =
          some reduced := by
  unfold collapseResidualSampleCopies groupBy
  rw [List.mem_filterMap]
  constructor
  · intro found
    obtain ⟨entry, member, same⟩ := found
    obtain ⟨other, present, built⟩ := List.mem_map.mp member
    rw [← built] at same
    obtain ⟨value, here, pair⟩ := Option.map_eq_some_iff.mp same
    cases pair
    exact ⟨(mem_firstKeys _).mp present, here⟩
  · intro found
    refine ⟨_, List.mem_map_of_mem ((mem_firstKeys _).mpr found.1), ?_⟩
    dsimp only [id_eq]
    rw [found.2]
    rfl

section Packed

variable {key : H × T × E → BitVec 64}
  (apart : ∀ row ∈ rows, ∀ other ∈ rows, key row.group = key other.group → row.group = other.group)
  {row : ResidualRow H T E}

include apart

theorem series_packed (member : row ∈ rows) :
    series (fun other => key other.group) (key row.group) rows =
      series ResidualRow.group row.group rows := by
  apply List.filter_congr
  intro other present
  rw [decide_eq_decide]
  constructor
  · exact apart other present row member
  · exact congrArg key

theorem mem_packed_samples (member : row ∈ rows) {reduced : Exact} :
    (key row.group, reduced) ∈
        (collapseResidualSampleCopies rows valueKey).map (fun out => (key out.1, out.2)) ↔
      collapseItems (saneCounterAbsLimit valueKey) (series ResidualRow.group row.group rows) =
        some reduced := by
  rw [List.mem_map]
  constructor
  · intro found
    obtain ⟨⟨group, value⟩, present, same⟩ := found
    obtain ⟨same_key, same_value⟩ := Prod.mk.inj same
    obtain ⟨⟨other, inside, own⟩, here⟩ := mem_collapseResidualSampleCopies.mp present
    rw [← own] at same_key here
    rw [← apart other inside row member same_key, here]
    exact congrArg some same_value
  · intro here
    exact ⟨(row.group, reduced),
      mem_collapseResidualSampleCopies.mpr ⟨⟨row, member, rfl⟩, here⟩, rfl⟩

end Packed

end Agreement

section Runs

def overflownDisk : List (ResidualRow Nat Nat String) :=
  [⟨0, 7, "rd", some "sda".toList, some (.num (10 ^ 13))⟩,
    ⟨0, 7, "rd", some "j:42".toList, some (.num 5)⟩]

def secondDisk : List (ResidualRow Nat Nat String) :=
  ⟨0, 7, "rd", some "sdb".toList, some (.num 3)⟩ :: overflownDisk

def packedGroup (group : Nat × Nat × String) : BitVec 64 :=
  .ofNat 64 (group.1 * 2 ^ 48 + group.2.2.length * 2 ^ 32 + group.2.1)

def signOfDev (dev : Option (List Char)) : ℤ := if jobCopy dev then -1 else 1

theorem signOfDev_neg (dev : Option (List Char)) : signOfDev dev < 0 ↔ jobCopy dev = true := by
  unfold signOfDev
  split
  · next copy => exact iff_of_true (by decide) copy
  · next hardware => exact iff_of_false (by decide) hardware

end Runs

end PerfStats.Metrics
