import PerfStats.Feed.Schema
import PerfStats.Frame.Delta

namespace PerfStats.Frame

open Lib

section Port

def counterKey (host type dev event : Str) : Str :=
  host ++ Char.ofNat 0 :: (type ++ Char.ofNat 0 :: (dev ++ Char.ofNat 0 :: event))

namespace HwRow

def counterKey (r : HwRow) : Str := Frame.counterKey r.host r.type r.dev r.event

/-- An entry of `combo`; equal ones stay in row order, as the index in it has them. -/
def comboKey (r : HwRow) : Str ×ₗ ℚ := toLex (r.counterKey, r.time)

def colsDelta (r : HwRow) (prev : Option RawEntry) : Cell :=
  match r.value, prev.bind RawEntry.value with
  | some value, some before =>
    let delta := value - before
    if delta < 0 then
      let modulus : ℚ := 2 ^ r.wid
      if modulus * (1 / 2) ≤ value - delta ∧ -modulus < delta then
        some ((modulus + delta) * r.mult)
      else none
    else some (delta * r.mult)
  | _, _ => none

def withColsDelta (r : HwRow) (prev : Option RawEntry) : DeltaRow :=
  ⟨r.time, r.host, r.jid, r.type, r.dev, r.event, r.unit, r.value, r.colsDelta prev⟩

end HwRow

def applyCounterDeltasCols (rows : List HwRow) (carryRaw : Dict Str RawEntry) :
    List DeltaRow × Dict Str RawEntry :=
  let sorted := sortBy HwRow.comboKey rows
  (adjacent HwRow.counterKey HwRow.entry HwRow.withColsDelta carryRaw.get? none sorted,
    (runEnds HwRow.counterKey sorted).foldl (fun carry r => carry.set r.counterKey r.entry) carryRaw)

theorem comboKey_sorted (rows : List HwRow) :
    (sortBy HwRow.comboKey rows).Pairwise fun a b => a.counterKey ≤ b.counterKey := by
  apply (sortBy_pairwise HwRow.comboKey rows).imp
  intro a b below
  exact (Prod.Lex.le_iff.mp below).elim le_of_lt fun same => same.1.le

theorem applyCounterDeltasCols_rows (rows : List HwRow) (carryRaw : Dict Str RawEntry) :
    (applyCounterDeltasCols rows carryRaw).1 =
      scan HwRow.counterKey HwRow.entry HwRow.withColsDelta carryRaw.get?
        (sortBy HwRow.comboKey rows) := by
  -- keys are compared as lists in the pass, by their order in the rule
  unfold applyCounterDeltasCols
  convert adjacent_eq_scan HwRow.counterKey HwRow.entry HwRow.withColsDelta carryRaw.get?
    (comboKey_sorted rows)

end Port

section Wrap

def FitsWidth (wid : Nat) (value : ℚ) : Prop := 0 ≤ value ∧ value < 2 ^ wid

/-- The increase of a counter of width `wid` from `prev` to `cur`; missing over a reset. -/
def counterIncrease (wid : Nat) (prev cur : ℚ) : Cell :=
  if prev ≤ cur then some (cur - prev)
  else if 2 ^ wid / 2 ≤ prev then some (cur - prev + 2 ^ wid)
  else none

theorem counterIncrease_nonneg {wid : Nat} {prev cur d : ℚ} (before : FitsWidth wid prev)
    (now : FitsWidth wid cur) (increase : counterIncrease wid prev cur = some d) : 0 ≤ d := by
  unfold counterIncrease at increase
  split at increase
  next up =>
    cases increase
    linarith
  next =>
    split at increase
    next =>
      cases increase
      linarith [before.2, now.1]
    next => cases increase

theorem wrapCorrect_eq_increase {wid : Nat} {prev cur : ℚ} (before : FitsWidth wid prev)
    (now : FitsWidth wid cur) :
    wrapCorrect (some cur) wid (some (cur - prev)) = counterIncrease wid prev cur := by
  unfold wrapCorrect counterIncrease
  dsimp only
  by_cases up : prev ≤ cur
  · rw [if_neg (by linarith), if_pos up]
  · have short : -(2 : ℚ) ^ wid < cur - prev := by linarith [before.2, now.1]
    have back : cur - (cur - prev) = prev := by ring
    rw [if_pos (by linarith), if_neg up, back]
    by_cases top : (2 : ℚ) ^ wid / 2 ≤ prev
    · rw [if_pos ⟨top, short⟩, if_pos top, add_comm]
    · rw [if_neg fun both => top both.1, if_neg top]

variable {r : HwRow} {prev : Option RawEntry}

theorem delta_eq_increase {cur last : ℚ} (value : r.value = some cur)
    (previous : prev.bind RawEntry.value = some last) (before : FitsWidth r.wid last)
    (now : FitsWidth r.wid cur) :
    r.delta prev = Cell.scale r.mult (counterIncrease r.wid last cur) := by
  obtain ⟨entry, rfl, stored⟩ := Option.bind_eq_some_iff.mp previous
  unfold HwRow.delta
  rw [Option.elim_some, value, stored]
  exact congrArg (Cell.scale r.mult) (wrapCorrect_eq_increase before now)

theorem colsDelta_eq_delta (r : HwRow) (prev : Option RawEntry) :
    r.colsDelta prev = r.delta prev := by
  unfold HwRow.colsDelta HwRow.delta wrapCorrect
  cases value : r.value with
  | none => cases prev <;> rfl
  | some cur =>
    cases prev with
    | none => rfl
    | some entry =>
      cases stored : entry.value with
      | none => simp [Cell.sub, Cell.scale, stored]
      | some last =>
        simp only [Option.bind_some, Option.elim_some, stored, Cell.sub, Option.map_some,
          mul_one_div]
        split
        · split <;> rfl
        · rfl

theorem compileSchemaToken_mult (token : Str) : 0 ≤ (Feed.compileSchemaToken token).mult := by
  refine List.foldlRecOn (motive := fun key : Feed.SchemaKey => 0 ≤ key.mult) _ _ zero_le_one ?_
  intro key nonneg ele _
  have width : ∀ wid, 0 ≤ ({ key with wid := wid } : Feed.SchemaKey).mult := fun _ => nonneg
  unfold Feed.SchemaKey.option
  dsimp only
  have kept : ∀ k : Feed.SchemaKey, 0 ≤ k.mult → ∀ digits : Option Nat,
      0 ≤ digits.elim k.mult fun value => (value : ℚ) := by
    intro k nonneg digits
    cases digits with
    | none => exact nonneg
    | some value => exact Nat.cast_nonneg value
  have first : 0 ≤ (if (Text.contains (lit "W=") ele &&
      Feed.allDigits (Feed.lstripChars (lit "W=") ele)) = true then
        { key with wid := (Feed.decimal (Feed.lstripChars (lit "W=") ele)).getD key.wid }
      else key).mult := by
    split
    · exact width _
    · exact nonneg
  split
  · exact kept _ first _
  · exact first

theorem compileSchemaToken_wid (token : Str)
    (unsized : ∀ ele ∈ (Text.splitOn ',' token).tail, Text.contains (lit "W=") ele = false) :
    (Feed.compileSchemaToken token).wid = 64 := by
  refine List.foldlRecOn (motive := fun key : Feed.SchemaKey => key.wid = 64) _ _ rfl ?_
  intro key wid ele member
  unfold Feed.SchemaKey.option
  rw [unsized ele member, Bool.false_and, if_neg Bool.false_ne_true]
  split
  · exact wid
  · exact wid

def previousEntry {κ : Type} [DecidableEq κ] (key : HwRow → κ) (raw : κ → Option RawEntry)
    (before : List HwRow) (r : HwRow) : Option RawEntry :=
  ((series key (key r) before).getLast?.map HwRow.entry).or (raw (key r))

/-- Where the value of a row and the one its key last had fit its width, its delta is the counter's
increase times its multiplier, in the delta stage and in the port. -/
theorem counter_deltas_corrected (rows : List HwRow) (raw : Dict SeriesKey RawEntry)
    (carryRaw : Dict Str RawEntry) :
    (∀ before r after cur last, sortBy HwRow.sortKey rows = before ++ r :: after →
      r.value = some cur →
      (previousEntry HwRow.key raw.get? before r).bind RawEntry.value = some last →
      FitsWidth r.wid last → FitsWidth r.wid cur →
        (applyCounterDeltas rows raw).1[before.length]?.map DeltaRow.delta =
          some (Cell.scale r.mult (counterIncrease r.wid last cur))) ∧
    (∀ before r after cur last, sortBy HwRow.comboKey rows = before ++ r :: after →
      r.value = some cur →
      (previousEntry HwRow.counterKey carryRaw.get? before r).bind RawEntry.value = some last →
      FitsWidth r.wid last → FitsWidth r.wid cur →
        (applyCounterDeltasCols rows carryRaw).1[before.length]?.map DeltaRow.delta =
          some (Cell.scale r.mult (counterIncrease r.wid last cur))) ∧
    (∀ wid last cur d, FitsWidth wid last → FitsWidth wid cur →
      counterIncrease wid last cur = some d → 0 ≤ d) ∧
    (∀ token, 0 ≤ (Feed.compileSchemaToken token).mult) ∧
    ∀ token, (∀ ele ∈ (Text.splitOn ',' token).tail, Text.contains (lit "W=") ele = false) →
      (Feed.compileSchemaToken token).wid = 64 := by
  refine ⟨?_, ?_, fun _ _ _ _ => counterIncrease_nonneg, compileSchemaToken_mult,
    compileSchemaToken_wid⟩
  · intro before r after cur last split value previous fits now
    rw [applyCounterDeltas_rows, split, scan_getElem?, Option.map_some, Option.some_inj]
    exact delta_eq_increase value previous fits now
  · intro before r after cur last split value previous fits now
    rw [applyCounterDeltasCols_rows, split, scan_getElem?, Option.map_some, Option.some_inj]
    exact (colsDelta_eq_delta r _).trans (delta_eq_increase value previous fits now)

def wrappedRow (time value : ℚ) : HwRow :=
  ⟨time, lit "c1", lit "-", lit "ib", lit "d0", lit "bytes", some value, 8, 64, lit "B"⟩

theorem counter_deltas_corrected_wrapped :
    (applyCounterDeltas [wrappedRow 1 200, wrappedRow 2 4] .empty).1[1]?.map DeltaRow.delta =
      some (some (60 * 64)) := by
  have corrected := (counter_deltas_corrected [wrappedRow 1 200, wrappedRow 2 4] .empty .empty).1
    [wrappedRow 1 200] (wrappedRow 2 4) [] 4 200 (by decide +kernel) rfl (by decide +kernel)
    (by norm_num [FitsWidth, wrappedRow]) (by norm_num [FitsWidth, wrappedRow])
  refine corrected.trans ?_
  norm_num [counterIncrease, wrappedRow, Cell.scale]

theorem counter_deltas_scaled :
    (¬ ∀ (rows : List HwRow) (before : List HwRow) r after cur last,
      sortBy HwRow.sortKey rows = before ++ r :: after → r.value = some cur →
      (previousEntry HwRow.key Dict.empty.get? before r).bind RawEntry.value = some last →
      FitsWidth r.wid last → FitsWidth r.wid cur → last ≤ cur →
        (applyCounterDeltas rows .empty).1[before.length]?.map DeltaRow.delta =
          some (some (cur - last))) ∧
    (Feed.compileSchemaToken (lit "MemFree")).wid = 64 ∧
    counterIncrease (Feed.compileSchemaToken (lit "MemFree")).wid (2 ^ 63) 0 = some (2 ^ 63) := by
  refine ⟨fun always => ?_, by decide +kernel, ?_⟩
  · have plain := always [wrappedRow 1 4, wrappedRow 2 10] [wrappedRow 1 4] (wrappedRow 2 10) [] 10 4
      (by decide +kernel) rfl (by decide +kernel) (by norm_num [FitsWidth, wrappedRow])
      (by norm_num [FitsWidth, wrappedRow]) (by norm_num)
    exact absurd plain (by decide +kernel)
  · rw [show (Feed.compileSchemaToken (lit "MemFree")).wid = 64 by decide +kernel]
    norm_num [counterIncrease]

end Wrap

end PerfStats.Frame
