import PerfStats.Lib.Binary64
import PerfStats.Lib.ExactFloat

namespace PerfStats.Frame

open Lib

section Model

def wrap48Events : List String :=
  ["aperf", "arm_int16_ops", "arm_int8_ops", "cycles_unhalted_core", "cycles_unhalted_ref",
    "dram_act_count", "dram_cas_reads", "dram_cas_writes", "dram_chan0_bytes", "dram_chan1_bytes",
    "dram_chan2_bytes", "dram_chan3_bytes", "dram_pre_count_miss",
    "fp_arith_inst_retired_128b_packed_double", "fp_arith_inst_retired_128b_packed_single",
    "fp_arith_inst_retired_256b_packed_double", "fp_arith_inst_retired_256b_packed_single",
    "fp_arith_inst_retired_512b_packed_double", "fp_arith_inst_retired_512b_packed_single",
    "fp_arith_inst_retired_scalar_double", "fp_arith_inst_retired_scalar_single", "hbm_cas_reads",
    "hbm_cas_writes", "instr_retired", "instr_retired_any", "l1d_replacement", "ls_dispatch",
    "mem_load_uops_retired_l1_hit", "mem_load_uops_retired_l2_hit",
    "mem_load_uops_retired_llc_hit", "mperf", "retired_branch_instr", "retired_instructions",
    "retired_misp_branch_instr"]

def eventMultiplier (typ event : String) : ℚ :=
  if typ = "host_ib" ∧
      event ∈ ["port_rcv_data", "port_xmit_data", "sw_rx_bytes", "sw_tx_bytes"] then 4
  else if typ = "host_block" ∧ event ∈ ["rd_sectors", "wr_sectors"] then 512
  else 1

structure SeriesCarry where
  timeS : ℚ
  value : Option Exact

/-- A stored row of one series; `time` is its key. -/
structure SeriesRow (τ : Type*) where
  time : τ
  timeS : ℚ
  value : Option Exact
  delta : Option Exact
  arc : Option Exact

structure RowFix (τ : Type*) where
  time : τ
  event : String
  delta : Option ℚ
  arc : Option ℚ

structure RealRounding where
  round : Exact → Exact
  idempotent : ∀ x, round (round x) = round x
  number : ∀ x, x ≠ .nan → round x ≠ .nan

def nodeDelta (typ event : String) (prev value : Option Exact) : Option ℚ :=
  match prev.bind Exact.number, value.bind Exact.number with
  | some prev, some value =>
    let diff := value - prev
    if diff < 0 then
      if event ∉ wrap48Events then none
      else some ((diff + ⌈-diff / 2 ^ 48⌉ * 2 ^ 48) * eventMultiplier typ event)
    else some (diff * eventMultiplier typ event)
  | _, _ => none

def asReal (real : RealRounding) : Option Exact → Option Exact
  | none | some .nan => none
  | some x => some (real.round x)

def recomputed (typ event : String) (carry : Option SeriesCarry) (timeS : ℚ)
    (value : Option Exact) : Option ℚ × Option ℚ :=
  match carry with
  | none => (none, none)
  | some carry =>
    let delta := nodeDelta typ event carry.value value
    let dt := timeS - carry.timeS
    (delta, delta.bind fun delta => if 0 < dt then some (delta / dt) else none)

variable {τ : Type*}

def planSeries (real : RealRounding) (typ event : String) :
    List (SeriesRow τ) → Option SeriesCarry → List (RowFix τ) × Option SeriesCarry
  | [], carry => ([], carry)
  | row :: rest, carry =>
    let pair := recomputed typ event carry row.timeS row.value
    let later := planSeries real typ event rest (some ⟨row.timeS, row.value⟩)
    if (asReal real row.delta, asReal real row.arc) ≠
        (asReal real (pair.1.map .num), asReal real (pair.2.map .num)) then
      (⟨row.time, event, pair.1, pair.2⟩ :: later.1, later.2)
    else later

def planSlices (real : RealRounding) (typ event : String) :
    List (List (SeriesRow τ)) → Option SeriesCarry → List (RowFix τ) × Option SeriesCarry
  | [], carry => ([], carry)
  | slice :: rest, carry =>
    let first := planSeries real typ event slice carry
    let later := planSlices real typ event rest first.2
    (first.1 ++ later.1, later.2)

/-- What the `UPDATE` with the fixes leaves of a row: it joins on the key, and casts to `real`. -/
def SeriesRow.repaired [DecidableEq τ] (real : RealRounding) (fixes : List (RowFix τ))
    (row : SeriesRow τ) : SeriesRow τ :=
  match fixes.find? fun fix => fix.time = row.time with
  | none => row
  | some fix =>
    { row with
      delta := asReal real (fix.delta.map .num)
      arc := asReal real (fix.arc.map .num) }

def trueIncrease (counters : List (BitVec 48 × BitVec 48)) : Nat :=
  (counters.map fun c => (c.2 - c.1).toNat).sum

def counterSum (counters : List (BitVec 48)) : Nat := (counters.map BitVec.toNat).sum

end Model

section Slices

variable {τ : Type*} {real : RealRounding} {typ event : String}

theorem planSeries_append (xs ys : List (SeriesRow τ)) (carry : Option SeriesCarry) :
    planSeries real typ event (xs ++ ys) carry =
      ((planSeries real typ event xs carry).1 ++
          (planSeries real typ event ys (planSeries real typ event xs carry).2).1,
        (planSeries real typ event ys (planSeries real typ event xs carry).2).2) := by
  induction xs generalizing carry with
  | nil => rfl
  | cons row rest ih =>
    simp only [List.cons_append, planSeries, ih]
    split <;> rfl

theorem planSlices_eq (slices : List (List (SeriesRow τ))) (carry : Option SeriesCarry) :
    planSlices real typ event slices carry = planSeries real typ event slices.flatten carry := by
  induction slices generalizing carry with
  | nil => rfl
  | cons slice rest ih => rw [planSlices, ih, List.flatten_cons, planSeries_append]

theorem fix_time {rows : List (SeriesRow τ)} {carry : Option SeriesCarry} {fix : RowFix τ}
    (member : fix ∈ (planSeries real typ event rows carry).1) :
    fix.time ∈ rows.map SeriesRow.time := by
  induction rows generalizing carry with
  | nil => cases member
  | cons row rest ih =>
    rw [planSeries] at member
    split at member
    · obtain rfl | later := List.mem_cons.mp member
      · exact .head _
      · exact .tail _ (ih later)
    · exact .tail _ (ih member)

end Slices

section Repaired

variable {τ : Type*} [DecidableEq τ] {real : RealRounding} {typ event : String}

theorem asReal_twice (x : Option Exact) : asReal real (asReal real x) = asReal real x := by
  have rounded : ∀ x : Exact, x ≠ .nan → asReal real (some (real.round x)) = some (real.round x) := by
    intro x number
    have still := real.number x number
    have twice := real.idempotent x
    unfold asReal
    split
    · next none_ => cases none_
    · next nan => exact absurd (Option.some.inj nan) still
    · next same =>
        cases same
        rw [twice]
  cases x with
  | none => rfl
  | some x =>
    cases x with
    | nan => rfl
    | negInf | posInf | num _ => exact rounded _ (by simp)

theorem repaired_series (fixes : List (RowFix τ)) (row : SeriesRow τ) :
    (row.repaired real fixes).time = row.time ∧ (row.repaired real fixes).timeS = row.timeS ∧
      (row.repaired real fixes).value = row.value := by
  unfold SeriesRow.repaired
  split <;> exact ⟨rfl, rfl, rfl⟩

theorem plan_repaired (rows : List (SeriesRow τ)) (carry : Option SeriesCarry)
    (keys : (rows.map SeriesRow.time).Nodup) (earlier : List (RowFix τ))
    (apart : ∀ fix ∈ earlier, fix.time ∉ rows.map SeriesRow.time) :
    (planSeries real typ event
      (rows.map (SeriesRow.repaired real (earlier ++ (planSeries real typ event rows carry).1)))
      carry).1 = [] := by
  induction rows generalizing carry earlier with
  | nil => rfl
  | cons row rest ih =>
    obtain ⟨fresh, keys⟩ := List.nodup_cons.mp keys
    have before : earlier.find? (fun fix => decide (fix.time = row.time)) = none := by
      rw [List.find?_eq_none]
      intro fix member same
      exact apart fix member (by rw [of_decide_eq_true same]; exact .head _)
    have rest_apart : ∀ fix ∈ earlier, fix.time ∉ rest.map SeriesRow.time :=
      fun fix member inside => apart fix member (.tail _ inside)
    rw [planSeries]
    split
    · next wrong =>
        rw [List.append_cons]
        have others := @ih (some ⟨row.timeS, row.value⟩) keys
          (earlier ++ [⟨row.time, event, (recomputed typ event carry row.timeS row.value).1,
            (recomputed typ event carry row.timeS row.value).2⟩]) (by
          intro fix member
          obtain old | own := List.mem_append.mp member
          · exact rest_apart fix old
          · rw [List.mem_singleton.mp own]
            exact fresh)
        rw [List.map_cons, planSeries, (repaired_series _ row).2.1, (repaired_series _ row).2.2,
          if_neg]
        · exact others
        · rw [not_not, SeriesRow.repaired, List.append_assoc, List.find?_append, before,
            Option.none_or, List.singleton_append, List.find?_cons_of_pos (by simp)]
          rw [asReal_twice, asReal_twice]
    · next right =>
        have others := @ih (some ⟨row.timeS, row.value⟩) keys earlier rest_apart
        have kept : row.repaired real (earlier ++
            (planSeries real typ event rest (some ⟨row.timeS, row.value⟩)).1) = row := by
          rw [SeriesRow.repaired, List.find?_append, before, Option.none_or,
            List.find?_eq_none.mpr]
          intro fix member same
          exact fresh (of_decide_eq_true same ▸ fix_time member)
        rw [List.map_cons, kept, planSeries, if_neg right]
        exact others

end Repaired

section Wraps

theorem sums_wrap (counters : List (BitVec 48 × BitVec 48)) :
    ∃ wraps : Nat, counterSum (counters.map Prod.fst) + trueIncrease counters =
      counterSum (counters.map Prod.snd) + wraps * 2 ^ 48 := by
  induction counters with
  | nil => exact ⟨0, rfl⟩
  | cons c rest ih =>
    obtain ⟨wraps, sum⟩ := ih
    have step : c.1.toNat + (c.2 - c.1).toNat =
        c.2.toNat + (if c.2.toNat < c.1.toNat then 1 else 0) * 2 ^ 48 := by
      rw [BitVec.toNat_sub]
      split <;> omega
    refine ⟨wraps + if c.2.toNat < c.1.toNat then 1 else 0, ?_⟩
    simp only [counterSum, trueIncrease, List.map_cons, List.sum_cons] at sum ⊢
    omega

theorem nodeDelta_wraps (typ : String) {event : String} (wide : event ∈ wrap48Events)
    (counters : List (BitVec 48 × BitVec 48)) (slow : trueIncrease counters < 2 ^ 48) :
    nodeDelta typ event (some (.num (counterSum (counters.map Prod.fst))))
        (some (.num (counterSum (counters.map Prod.snd)))) =
      some (trueIncrease counters * eventMultiplier typ event) := by
  obtain ⟨wraps, sum⟩ := sums_wrap counters
  have sum : (counterSum (counters.map Prod.snd) : ℚ) - counterSum (counters.map Prod.fst) =
      trueIncrease counters - wraps * 2 ^ 48 := by
    have cast : (counterSum (counters.map Prod.fst) : ℚ) + trueIncrease counters =
        counterSum (counters.map Prod.snd) + wraps * 2 ^ 48 := by exact_mod_cast sum
    linarith
  have small : (trueIncrease counters : ℚ) < 2 ^ 48 := by exact_mod_cast slow
  unfold nodeDelta
  simp only [Option.bind_some, Exact.number]
  rw [sum]
  split
  · next falls =>
      have multiple : ⌈-((trueIncrease counters : ℚ) - wraps * 2 ^ 48) / 2 ^ 48⌉ = wraps := by
        rw [Int.ceil_eq_iff]
        constructor
        · rw [lt_div_iff₀ (by positivity)]
          push_cast
          linarith
        · rw [div_le_iff₀ (by positivity)]
          push_cast
          linarith
      rw [multiple]
      push_cast
      rw [sub_add_cancel]
  · next rises =>
      have none_ : wraps = 0 := by
        by_contra some_
        have one : (1 : ℚ) ≤ wraps := by exact_mod_cast Nat.one_le_iff_ne_zero.mpr some_
        linarith
      rw [none_, Nat.cast_zero, zero_mul, sub_zero]

/-- A series is planned alike in slices and as a whole, and stored fixes leave nothing to fix. -/
theorem jstamp_repair_exact {τ : Type*} [DecidableEq τ] (real : RealRounding)
    (typ event : String) :
    (∀ (slices : List (List (SeriesRow τ))) (carry : Option SeriesCarry),
        planSlices real typ event slices carry =
          planSeries real typ event slices.flatten carry) ∧
      (∀ (rows : List (SeriesRow τ)) (carry : Option SeriesCarry),
        (rows.map SeriesRow.time).Nodup →
          (planSeries real typ event
            (rows.map (SeriesRow.repaired real (planSeries real typ event rows carry).1))
            carry).1 = []) ∧
      ∀ counters : List (BitVec 48 × BitVec 48), event ∈ wrap48Events →
        trueIncrease counters < 2 ^ 48 →
          nodeDelta typ event (some (.num (counterSum (counters.map Prod.fst))))
              (some (.num (counterSum (counters.map Prod.snd)))) =
            some (trueIncrease counters * eventMultiplier typ event) := by
  refine ⟨planSlices_eq, fun rows carry keys => ?_, fun counters wide slow =>
    nodeDelta_wraps typ wide counters slow⟩
  exact @plan_repaired τ _ real typ event rows carry keys []
    fun _ member => absurd member List.not_mem_nil

/-- The nearest number of 24 binary digits, ties to even, before the range of a `real`. -/
def nearestReal (q : ℚ) : ℚ :=
  let ulp := max (Int.log 2 |q| - 23) (-149)
  Binary64.roundHalfEven (q / 2 ^ ulp) * 2 ^ ulp

def float32 : RealRounding where
  round
    | .num q => .num (if nearestReal (nearestReal q) = nearestReal q then nearestReal q else q)
    | x => x
  idempotent := by
    rintro (_ | _ | q | _)
    case num =>
      by_cases still : nearestReal (nearestReal q) = nearestReal q
      · dsimp only
        rw [if_pos still, still, if_pos still]
      · dsimp only
        rw [if_neg still, if_neg still]
    all_goals rfl
  number := by
    rintro (_ | _ | q | _) other
    case nan => exact absurd rfl other
    all_goals nofun

def wrappedRows : List (SeriesRow Nat) :=
  [⟨0, 0, some (.num (2 ^ 48 - 1)), none, none⟩, ⟨1, 3, some (.num 4), none, none⟩]

theorem jstamp_repair_exact_wrapped :
    (planSeries float32 "amd64_pmc" "instr_retired" wrappedRows none).1.length = 1 ∧
      (planSeries float32 "amd64_pmc" "instr_retired"
        (wrappedRows.map (SeriesRow.repaired float32
          (planSeries float32 "amd64_pmc" "instr_retired" wrappedRows none).1)) none).1 = [] :=
  ⟨by decide +kernel, (jstamp_repair_exact float32 _ _).2.1 wrappedRows none (by decide)⟩

end Wraps

end PerfStats.Frame
