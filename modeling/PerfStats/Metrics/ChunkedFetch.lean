import PerfStats.Lib.Runs
import PerfStats.Lib.Selection
import PerfStats.Metrics.HostData
import PerfStats.Metrics.HostNames

namespace PerfStats.Metrics

open Text Lib

structure TimeBounds where
  gte : Option Int
  gt : Option Int
  lte : Option Int
  lt : Option Int
deriving DecidableEq, Repr

/-- A time filter: `time__slots` with `time__slot_s`, `time__in`, or bounds. -/
inductive TimeFilter where
  | slots (times : List Int) (slotS : Int)
  | exact (times : List Int)
  | bounds (window : TimeBounds)
deriving DecidableEq, Repr

def second : Int := 1000000

def TimeBounds.holds (window : TimeBounds) (time : Int) : Bool :=
  window.gte.all (fun gte => decide (gte ≤ time)) && window.gt.all (fun gt => decide (gt < time)) &&
    window.lte.all (fun lte => decide (time ≤ lte)) && window.lt.all fun lt => decide (time < lt)

def inSlot (slotS time t0 : Int) : Bool := decide (t0 ≤ time ∧ time < t0 + slotS * second)

def TimeFilter.holds : TimeFilter → Int → Bool
  | .slots times slotS, time => times.any (inSlot slotS time)
  | .exact times, time => times.contains time
  | .bounds window, time => window.holds time

section Chunks

/-- The halves of a span: `timedelta(seconds=span_s / 2.0)` rounds to a microsecond. -/
structure Halving where
  half : Int → Int
  inside : ∀ span, 0 < span → 0 ≤ half span ∧ half span < span

def halfEven : Halving where
  half span := span / 2 + if span % 2 = 1 ∧ span / 2 % 2 = 1 then 1 else 0
  inside span positive := by split <;> omega

def sliceUs (sliceS : Int) : Int := max 60 (if sliceS = 0 then 3600 else sliceS) * second

theorem sliceUs_pos (sliceS : Int) : 0 < sliceUs sliceS :=
  Int.mul_pos (by omega) (by decide)

/-- The slices of a window from `cur` on: half open, and the last one closed. -/
def windowSlices (sliceS lte cur : Int) : List TimeFilter :=
  if cur < lte then
    if lte ≤ cur + sliceUs sliceS then [.bounds ⟨some cur, none, some lte, none⟩]
    else
      .bounds ⟨some cur, none, none, some (cur + sliceUs sliceS)⟩ ::
        windowSlices sliceS lte (cur + sliceUs sliceS)
  else []
termination_by (lte - cur).toNat
decreasing_by
  have := sliceUs_pos sliceS
  omega

def timesPerChunk (sliceS : Int) : Nat :=
  (max 1 (max 60 (if sliceS = 0 then 3600 else sliceS) / 60)).toNat

def iterAggregateTimeFilterChunks (sliceS : Int) : TimeFilter → List TimeFilter
  | .slots times slotS => (slices (timesPerChunk sliceS) times).map (.slots · slotS)
  | .exact times => (slices (timesPerChunk sliceS) times).map .exact
  | .bounds window =>
    if window = ⟨none, none, none, none⟩ then []
    else
      match window.gte, window.lte with
      | some gte, some lte => windowSlices sliceS lte gte
      | _, _ => [.bounds window]

def splitTimeFilterForTimeout (halving : Halving) : TimeFilter → Option (TimeFilter × TimeFilter)
  | .slots times slotS =>
    if times.length < 2 then none
    else
      let mid := max 1 (times.length / 2)
      some (.slots (times.take mid) slotS, .slots (times.drop mid) slotS)
  | .exact times =>
    if times.length < 2 then none
    else
      let mid := max 1 (times.length / 2)
      some (.exact (times.take mid), .exact (times.drop mid))
  | .bounds window =>
    match window.gte, window.lte.or window.lt with
    | some gte, some upper =>
      if upper - gte < 120 * second then none
      else
        let mid := gte + halving.half (upper - gte)
        -- the right half ends at `time__lte` whatever ended the window
        some (.bounds ⟨some gte, none, some mid, none⟩,
          .bounds ⟨none, some mid, some upper, none⟩)
    | _, _ => none

end Chunks

section Hosts

def coerceHostQueryBatchSize : Option Int → Nat
  | none => 16
  | some size => if size < 1 then 16 else size.toNat

def iterAcctHostBatches (hosts : List Str) (batchSize : Option Int) : List (List Str) :=
  slices (coerceHostQueryBatchSize batchSize) (listifyAcctHosts hosts)

def iterHostTimeQueryChunks (hosts : List Str) (filter : TimeFilter) (batchSize : Option Int)
    (sliceS : Int) : List (List Str × TimeFilter) :=
  let hostList := listifyAcctHosts hosts
  if hostList.isEmpty then []
  else
    let cut := iterAggregateTimeFilterChunks sliceS filter
    let timeChunks := if cut.isEmpty then [filter] else cut
    timeChunks.flatMap fun chunk =>
      (iterAcctHostBatches hostList batchSize).map fun hosts => (hosts, chunk)

end Hosts

section Statements

structure JobScope where
  jid : Str
  shared : Bool
  jobScopedTypes : List Str
  jobScoped : Bool
  exclusiveHosts : List Str

def JobScope.exclusive (scope : JobScope) : List Str :=
  if scope.jobScoped then scope.exclusiveHosts else []

structure FetchedRow where
  time : Int
  host : Option Str
  type : Option Str
  event : Option Str
  dev : Option Str
  value : Option (BitVec 32)
  arc : Option (BitVec 32)
  delta : Option (BitVec 32)
  owned : Bool
deriving DecidableEq, Repr

/-- The last conjunct of the statement; `exclusive` are the hosts of the statement's own batch that
the job holds alone. -/
def inScope (scope : JobScope) (exclusive : List Str) (row : HostDataRow) : Bool :=
  if !scope.jobScoped then true
  else if scope.shared then
    jobHostDataScope scope.jid exclusive row ||
      row.type.any fun type => !scope.jobScopedTypes.contains type
  else jobHostDataScope scope.jid exclusive row

def fetchedRow (scope : JobScope) (exclusive : List Str) (row : HostDataRow) : FetchedRow :=
  ⟨row.time, row.host, row.type, row.event, row.dev, row.value, row.arc, row.delta,
    !(scope.shared && scope.jobScoped) || jobHostDataOwned scope.jid exclusive row⟩

def onHosts (hosts : List Str) (row : HostDataRow) : Bool := row.host.any hosts.contains

/-- The rows of one `COPY`: a slot filter is a join with its slots, inside their outer window. -/
def copyRows (scope : JobScope) (table : List HostDataRow) (hosts : List Str)
    (filter : TimeFilter) : Option (List FetchedRow) :=
  let exclusive := hosts.filter scope.exclusive.contains
  let takes := fun row => onHosts hosts row && inScope scope exclusive row
  match filter with
  | .slots [] _ => none
  | .slots (first :: rest) slotS =>
    some (((first :: rest).flatMap fun t0 => table.filter fun row =>
        inSlot slotS row.time t0 && takes row &&
          decide (rest.foldl min first ≤ row.time ∧
            row.time < rest.foldl max first + slotS * second)).map
      (fetchedRow scope exclusive))
  | filter =>
    some ((table.filter fun row => filter.holds row.time && takes row).map
      (fetchedRow scope exclusive))

end Statements

section Retry

def namedHosts (hosts : List Str) : List Str := hosts.filter fun host => !host.isEmpty

theorem namedHosts_length (hosts : List Str) : (namedHosts hosts).length ≤ hosts.length :=
  List.length_filter_le _ _

def mergeRows {ρ : Type} : Option (List ρ) → Option (List ρ) → Option (List ρ)
  | some left, some right => some (left ++ right)
  | _, _ => none

def TimeFilter.extent : TimeFilter → Nat
  | .slots times _ => times.length
  | .exact times => times.length
  | .bounds window =>
    match window.gte, window.lte.or window.lt with
    | some gte, some upper => (upper - gte).toNat
    | _, _ => 0

theorem split_extent {halving : Halving} {filter left right : TimeFilter}
    (splits : splitTimeFilterForTimeout halving filter = some (left, right)) :
    left.extent < filter.extent ∧ right.extent < filter.extent := by
  cases filter with
  | slots times slotS =>
    simp only [splitTimeFilterForTimeout] at splits
    split at splits
    next => cases splits
    next long =>
      cases splits
      simp only [TimeFilter.extent, List.length_take, List.length_drop]
      omega
  | exact times =>
    simp only [splitTimeFilterForTimeout] at splits
    split at splits
    next => cases splits
    next long =>
      cases splits
      simp only [TimeFilter.extent, List.length_take, List.length_drop]
      omega
  | bounds window =>
    simp only [splitTimeFilterForTimeout] at splits
    split at splits
    next gte upper begins ends =>
      split at splits
      next => cases splits
      next long =>
        have positive : 0 < upper - gte := by
          have : (0 : Int) < 120 * second := by decide
          omega
        have inside := halving.inside (upper - gte) positive
        cases splits
        simp only [TimeFilter.extent, begins, ends, Option.or_none]
        omega
    next => cases splits

/-- `run` on the hosts and the filter; `timesOut` says which calls the statement timeout cancels: no
two of a fetch have the same arguments. -/
def runWithHostTimeTimeoutRetry {ρ : Type} (halving : Halving)
    (timesOut : List Str → TimeFilter → Nat → Bool)
    (run : List Str → TimeFilter → Option (List ρ)) (hosts : List Str) (filter : TimeFilter) :
    Option (List ρ) :=
  let hostList := namedHosts hosts
  if hostList.isEmpty then some []
  else
    match run hostList filter with
    | none => none
    | some rows =>
      if timesOut hostList filter 0 = false then some rows
      else if 1 < hostList.length then
        let mid := max 1 (hostList.length / 2)
        mergeRows (runWithHostTimeTimeoutRetry halving timesOut run (hostList.take mid) filter)
          (runWithHostTimeTimeoutRetry halving timesOut run (hostList.drop mid) filter)
      else
        match _splits : splitTimeFilterForTimeout halving filter with
        | some (left, right) =>
          mergeRows (runWithHostTimeTimeoutRetry halving timesOut run hostList left)
            (runWithHostTimeTimeoutRetry halving timesOut run hostList right)
        | none => if timesOut hostList filter 1 then none else some rows
termination_by hosts.length + filter.extent
decreasing_by
  all_goals
    have shorter := namedHosts_length hosts
  · rename_i several
    change 1 < (namedHosts hosts).length at several
    simp only [List.length_take]
    omega
  · rename_i several
    change 1 < (namedHosts hosts).length at several
    simp only [List.length_drop]
    omega
  · have := split_extent _splits
    omega
  · have := split_extent _splits
    omega

/-- The statements that `fetch_job_frame` runs, before any of them is bisected. -/
def fetchChunks (iniSliceS : Int) (hosts : List Str) (filter : TimeFilter)
    (batchSize sliceS : Option Int) : List (List Str × TimeFilter) :=
  iterHostTimeQueryChunks (namedHosts hosts) filter (some (batchSize.getD 8))
    (sliceS.getD (min iniSliceS 900))

def fetchJobFrame (halving : Halving) (timesOut : List Str → TimeFilter → Nat → Bool)
    (iniSliceS : Int) (scope : JobScope) (table : List HostDataRow) (hosts : List Str)
    (filter : TimeFilter) (batchSize sliceS : Option Int) : Option (List FetchedRow) :=
  (fetchChunks iniSliceS hosts filter batchSize sliceS).foldr
    (fun chunk rest => mergeRows
      (runWithHostTimeTimeoutRetry halving timesOut (copyRows scope table) chunk.1 chunk.2) rest)
    (some [])

end Retry

section Selection

variable (scope : JobScope) (table : List HostDataRow)

def pickedRows (hosts : List Str) (times : Int → Bool) : List FetchedRow :=
  (table.filter fun row =>
      times row.time && (onHosts hosts row && inScope scope scope.exclusive row)).map
    (fetchedRow scope scope.exclusive)

def selectedRows (hosts : List Str) (filter : TimeFilter) : List FetchedRow :=
  pickedRows scope table hosts filter.holds

variable {scope table}

variable {hosts : List Str} (times : Int → Bool)

theorem pickedRows_or {early late both : Int → Bool}
    (apart : ∀ time, early time = true → late time = false)
    (whole : ∀ time, (early time || late time) = both time) :
    (pickedRows scope table hosts early ++ pickedRows scope table hosts late).Perm
      (pickedRows scope table hosts both) := by
  rw [pickedRows, pickedRows, ← List.map_append]
  have parts := filter_append_of_apart (l := table)
    (p := fun row => early row.time && (onHosts hosts row && inScope scope scope.exclusive row))
    (q := fun row => late row.time && (onHosts hosts row && inScope scope scope.exclusive row))
    fun row _ first => by simp_all
  refine (parts.map _).trans (List.Perm.of_eq ?_)
  simp only [← Bool.and_or_distrib_right, whole, pickedRows]

theorem pickedRows_hosts {first second : List Str} (apart : ∀ host ∈ first, host ∉ second) :
    (pickedRows scope table first times ++ pickedRows scope table second times).Perm
      (pickedRows scope table (first ++ second) times) := by
  have either : ∀ row,
      onHosts (first ++ second) row = (onHosts first row || onHosts second row) := by
    intro row
    cases named : row.host <;> simp [onHosts, named]
  rw [pickedRows, pickedRows, ← List.map_append]
  have parts := filter_append_of_apart (l := table)
    (p := fun row => times row.time && (onHosts first row && inScope scope scope.exclusive row))
    (q := fun row => times row.time && (onHosts second row && inScope scope scope.exclusive row))
    fun row _ here => by
      cases named : row.host with
      | none => simp [onHosts, named]
      | some host =>
        have inside : host ∈ first := by simp_all [onHosts]
        simp [onHosts, named, apart host inside]
  refine (parts.map _).trans (List.Perm.of_eq ?_)
  simp only [← Bool.and_or_distrib_left, ← Bool.and_or_distrib_right, either, pickedRows]

theorem pickedRows_none : pickedRows scope table [] times = [] := by
  have nowhere : ∀ row, onHosts [] row = false := by
    intro row
    cases named : row.host <;> simp [onHosts, named]
  simp [pickedRows, nowhere]

theorem pickedRows_batches {batches : List (List Str)} (distinct : batches.flatten.Nodup) :
    (batches.flatMap fun hosts => pickedRows scope table hosts times).Perm
      (pickedRows scope table batches.flatten times) := by
  induction batches with
  | nil => simp [pickedRows_none]
  | cons batch rest ih =>
    obtain ⟨-, others, apart⟩ := List.nodup_append'.mp distinct
    exact ((ih others).append_left _).trans (pickedRows_hosts times fun host => @apart host)

theorem inScope_batch {row : HostDataRow} (member : onHosts hosts row = true) :
    inScope scope (hosts.filter scope.exclusive.contains) row =
      inScope scope scope.exclusive row := by
  simp only [inScope, jobHostDataScope, untaggedOn_filter member]

theorem fetchedRow_batch {row : HostDataRow} (member : onHosts hosts row = true) :
    fetchedRow scope (hosts.filter scope.exclusive.contains) row =
      fetchedRow scope scope.exclusive row := by
  simp only [fetchedRow, jobHostDataOwned, untaggedOn_filter member]

theorem least_le {first time : Int} {rest : List Int} (member : time ∈ first :: rest) :
    rest.foldl min first ≤ time ∧ time ≤ rest.foldl max first := by
  have below : ∀ (l : List Int) (least : Int),
      l.foldl min least ≤ least ∧ ∀ t ∈ l, l.foldl min least ≤ t := by
    intro l
    induction l with
    | nil => simp
    | cons head tail ih =>
      intro least
      obtain ⟨le, each⟩ := ih (min least head)
      simp only [List.foldl_cons, List.forall_mem_cons]
      exact ⟨le.trans (min_le_left _ _), le.trans (min_le_right _ _), each⟩
  have above : ∀ (l : List Int) (most : Int),
      most ≤ l.foldl max most ∧ ∀ t ∈ l, t ≤ l.foldl max most := by
    intro l
    induction l with
    | nil => simp
    | cons head tail ih =>
      intro most
      obtain ⟨le, each⟩ := ih (max most head)
      simp only [List.foldl_cons, List.forall_mem_cons]
      exact ⟨(le_max_left _ _).trans le, (le_max_right _ _).trans le, each⟩
  cases List.mem_cons.mp member with
  | inl same =>
    rw [same]
    exact ⟨(below rest first).1, (above rest first).1⟩
  | inr later => exact ⟨(below rest first).2 time later, (above rest first).2 time later⟩

def Spaced (slotS : Int) (times : List Int) : Prop :=
  times.Pairwise fun a b => a + slotS * second ≤ b ∨ b + slotS * second ≤ a

theorem copyRows_picked {filter : TimeFilter} {rows : List FetchedRow}
    (spaced : ∀ times slotS, filter = .slots times slotS → Spaced slotS times)
    (ran : copyRows scope table hosts filter = some rows) :
    rows.Perm (selectedRows scope table hosts filter) := by
  have whole : ∀ times : Int → Bool,
      ((table.filter fun row => times row.time && (onHosts hosts row &&
          inScope scope (hosts.filter scope.exclusive.contains) row)).map
        (fetchedRow scope (hosts.filter scope.exclusive.contains))) =
      pickedRows scope table hosts times := by
    intro times
    have same : (table.filter fun row => times row.time && (onHosts hosts row &&
          inScope scope (hosts.filter scope.exclusive.contains) row)) =
        table.filter fun row => times row.time &&
          (onHosts hosts row && inScope scope scope.exclusive row) := by
      apply List.filter_congr
      intro row _
      cases here : onHosts hosts row with
      | true => rw [inScope_batch here]
      | false => simp
    rw [same, pickedRows]
    apply List.map_congr_left
    intro row member
    exact fetchedRow_batch (by simp_all)
  cases filter with
  | exact times =>
    simp only [copyRows, Option.some.injEq] at ran
    rw [← ran, selectedRows, whole]
  | bounds window =>
    simp only [copyRows, Option.some.injEq] at ran
    rw [← ran, selectedRows, whole]
  | slots times slotS =>
    cases times with
    | nil => simp [copyRows] at ran
    | cons first rest =>
      simp only [copyRows, Option.some.injEq] at ran
      rw [← ran, selectedRows, ← whole]
      refine List.Perm.map _ ?_
      refine (flatMap_filter_perm _ ?_).trans (List.Perm.of_eq ?_)
      · refine (spaced _ _ rfl).imp ?_
        intro a b apart row _ here
        simp only [inSlot, Bool.and_eq_true, decide_eq_true_eq, Bool.and_eq_false_iff,
          decide_eq_false_iff_not] at here ⊢
        left
        left
        omega
      · apply List.filter_congr
        intro row _
        apply Bool.eq_iff_iff.mpr
        simp only [List.any_eq_true, Bool.and_eq_true, TimeFilter.holds]
        constructor
        · intro some_slot
          obtain ⟨t0, member, ⟨inside, taken⟩, -⟩ := some_slot
          exact ⟨⟨t0, member, inside⟩, taken⟩
        · intro some_slot
          obtain ⟨⟨t0, member, inside⟩, taken⟩ := some_slot
          refine ⟨t0, member, ⟨inside, taken⟩, ?_⟩
          obtain ⟨least, most⟩ := least_le member
          simp only [inSlot, decide_eq_true_eq] at inside ⊢
          omega

end Selection

section Bisection

variable {halving : Halving}

def TimeFilter.openEnd : TimeFilter → Option Int
  | .bounds ⟨some _, none, none, some lt⟩ => some lt
  | _ => none

inductive Shaped : TimeFilter → Prop where
  | slots {slotS : Int} {times : List Int} : Spaced slotS times → Shaped (.slots times slotS)
  | exact {times : List Int} : times.Nodup → Shaped (.exact times)
  | closed (gte lte : Int) : Shaped (.bounds ⟨some gte, none, some lte, none⟩)
  | halfOpen (gte lt : Int) : Shaped (.bounds ⟨some gte, none, none, some lt⟩)
  | rightHalf (gt lte : Int) : Shaped (.bounds ⟨none, some gt, some lte, none⟩)

theorem Shaped.spaced {filter : TimeFilter} (shape : Shaped filter) (times : List Int) (slotS : Int)
    (same : filter = .slots times slotS) : Spaced slotS times := by
  cases shape with
  | slots spaced =>
    cases same
    exact spaced
  | _ => cases same

variable {hosts : List Str} {filter : TimeFilter}

theorem Shaped.openEnd_apart (shape : Shaped filter) (time : Int)
    (holds : filter.holds time = true) : (filter.openEnd == some time) = false := by
  cases shape with
  | halfOpen gte lt =>
    simp only [TimeFilter.holds, TimeBounds.holds, Option.all_some, Option.all_none,
      Bool.and_eq_true, decide_eq_true_eq] at holds
    have differs : lt ≠ time := by omega
    simp [TimeFilter.openEnd, differs]
  | _ => simp [TimeFilter.openEnd]

/-- A bisection over the time: two halves that share no time, and make up the filter with the end
that it left out. -/
structure Halves (filter left right : TimeFilter) : Prop where
  leftShape : Shaped left
  rightShape : Shaped right
  leftClosed : left.openEnd = none
  rightClosed : right.openEnd = none
  apart : ∀ time, left.holds time = true → right.holds time = false
  whole : ∀ time, (left.holds time || right.holds time) =
    (filter.holds time || filter.openEnd == some time)

theorem inSlot_apart {slotS time a b : Int}
    (apart : a + slotS * second ≤ b ∨ b + slotS * second ≤ a) (holds : inSlot slotS time a = true) :
    inSlot slotS time b = false := by
  simp only [inSlot, decide_eq_true_eq, decide_eq_false_iff_not] at holds ⊢
  omega

theorem slots_apart {slotS time : Int} {first later : List Int}
    (spaced : Spaced slotS (first ++ later)) (holds : (first.any (inSlot slotS time)) = true) :
    later.any (inSlot slotS time) = false := by
  obtain ⟨t0, member, inside⟩ := List.any_eq_true.mp holds
  apply List.any_eq_false.mpr
  intro other present
  simp [inSlot_apart ((List.pairwise_append.mp spaced).2.2 t0 member other present) inside]

theorem bounds_halves {gte upper : Int} (long : ¬upper - gte < 120 * second)
    (whole : ∀ time, (decide (gte ≤ time) && decide (time ≤ upper)) =
      (filter.holds time || filter.openEnd == some time)) :
    Halves filter (.bounds ⟨some gte, none, some (gte + halving.half (upper - gte)), none⟩)
      (.bounds ⟨none, some (gte + halving.half (upper - gte)), some upper, none⟩) := by
  have positive : 0 < upper - gte := by
    have : (0 : Int) < 120 * second := by decide
    omega
  have inside := halving.inside (upper - gte) positive
  refine ⟨.closed _ _, .rightHalf _ _, rfl, rfl, ?_, ?_⟩
  · intro time holds
    simp only [TimeFilter.holds, TimeBounds.holds, Option.all_some, Option.all_none,
      Bool.and_true, Bool.true_and, Bool.and_eq_true, Bool.and_eq_false_iff, decide_eq_true_eq,
      decide_eq_false_iff_not] at holds ⊢
    omega
  · intro time
    rw [← whole]
    simp only [TimeFilter.holds, TimeBounds.holds, Option.all_some, Option.all_none, Bool.and_true,
      Bool.true_and]
    apply Bool.eq_iff_iff.mpr
    simp only [Bool.or_eq_true, Bool.and_eq_true, decide_eq_true_eq]
    omega

theorem split_halves {left right : TimeFilter} (shape : Shaped filter)
    (splits : splitTimeFilterForTimeout halving filter = some (left, right)) :
    Halves filter left right := by
  cases shape with
  | @slots slotS times spaced =>
    simp only [splitTimeFilterForTimeout] at splits
    split at splits
    next => cases splits
    next =>
      cases splits
      have cut := List.take_append_drop (max 1 (times.length / 2)) times
      rw [← cut] at spaced
      obtain ⟨front, back, -⟩ := List.pairwise_append.mp spaced
      refine ⟨.slots front, .slots back, rfl, rfl, fun time => slots_apart spaced, ?_⟩
      intro time
      simp only [TimeFilter.holds, TimeFilter.openEnd, Option.none_beq_some, Bool.or_false]
      rw [← List.any_append, cut]
  | @exact times distinct =>
    simp only [splitTimeFilterForTimeout] at splits
    split at splits
    next => cases splits
    next =>
      cases splits
      have cut := List.take_append_drop (max 1 (times.length / 2)) times
      rw [← cut] at distinct
      obtain ⟨front, back, apart⟩ := List.nodup_append'.mp distinct
      refine ⟨.exact front, .exact back, rfl, rfl, ?_, ?_⟩
      · intro time holds
        simp only [TimeFilter.holds, List.contains_eq_mem, decide_eq_true_eq,
          decide_eq_false_iff_not] at holds ⊢
        exact apart holds
      · intro time
        simp only [TimeFilter.holds, TimeFilter.openEnd, Option.none_beq_some, Bool.or_false,
          List.contains_eq_mem, ← Bool.decide_or, ← List.mem_append, cut]
  | closed gte lte =>
    simp only [splitTimeFilterForTimeout, Option.or_none] at splits
    split at splits
    next => cases splits
    next long =>
      cases splits
      apply bounds_halves long
      simp [TimeFilter.holds, TimeBounds.holds, TimeFilter.openEnd]
  | halfOpen gte lt =>
    simp only [splitTimeFilterForTimeout, Option.none_or] at splits
    split at splits
    next => cases splits
    next long =>
      cases splits
      apply bounds_halves long
      intro time
      have positive : (0 : Int) < 120 * second := by decide
      simp only [TimeFilter.holds, TimeBounds.holds, TimeFilter.openEnd, Option.all_some,
        Option.all_none, Bool.and_true, Option.some_beq_some]
      apply Bool.eq_iff_iff.mpr
      simp only [Bool.or_eq_true, Bool.and_eq_true, decide_eq_true_eq, beq_iff_eq]
      omega
  | rightHalf gt lte => simp [splitTimeFilterForTimeout] at splits

def cutHosts (halving : Halving) (timesOut : List Str → TimeFilter → Nat → Bool) (hosts : List Str)
    (filter : TimeFilter) : List Str :=
  if timesOut hosts filter 0 = false then []
  else if 1 < hosts.length then
    cutHosts halving timesOut (hosts.take (max 1 (hosts.length / 2))) filter ++
      cutHosts halving timesOut (hosts.drop (max 1 (hosts.length / 2))) filter
  else if (splitTimeFilterForTimeout halving filter).isSome then hosts
  else []
termination_by hosts.length
decreasing_by
  all_goals
    simp only [List.length_take, List.length_drop]
    omega

theorem mem_cutHosts {timesOut : List Str → TimeFilter → Nat → Bool}
    {host : Str}
    (member : host ∈ cutHosts halving timesOut hosts filter) : host ∈ hosts := by
  induction hosts using cutHosts.induct halving timesOut filter with
  | case1 hosts quick => simp [cutHosts, quick] at member
  | case2 hosts slow several front back =>
    rw [cutHosts, if_neg slow, if_pos several] at member
    cases List.mem_append.mp member with
    | inl early => exact List.mem_of_mem_take (front early)
    | inr late => exact List.mem_of_mem_drop (back late)
  | case3 hosts slow single splits =>
    rw [cutHosts, if_neg slow, if_neg single, if_pos splits] at member
    exact member
  | case4 hosts slow single splits => simp [cutHosts, slow, single, splits] at member

variable {scope : JobScope} {table : List HostDataRow} {halving : Halving}
  {timesOut : List Str → TimeFilter → Nat → Bool}

variable (scope table halving timesOut) in
/-- The rows read again: those at the end of a half-open slice, on the hosts whose statement over it
is bisected. -/
def rereadRows (hosts : List Str) (filter : TimeFilter) : List FetchedRow :=
  pickedRows scope table (cutHosts halving timesOut hosts filter) fun time =>
    filter.openEnd == some time

theorem rereadRows_closed (closed : filter.openEnd = none) :
    rereadRows scope table halving timesOut hosts filter = [] := by
  simp [rereadRows, closed, pickedRows]

theorem rereadRows_uncut (uncut : cutHosts halving timesOut hosts filter = []) :
    rereadRows scope table halving timesOut hosts filter = [] := by
  rw [rereadRows, uncut, pickedRows_none]

theorem mergeRows_some {ρ : Type} {left right : Option (List ρ)} {rows : List ρ}
    (merged : mergeRows left right = some rows) :
    ∃ first later, left = some first ∧ right = some later ∧ rows = first ++ later := by
  cases left with
  | none => cases merged
  | some first =>
    cases right with
    | none => cases merged
    | some later => exact ⟨first, later, rfl, rfl, (Option.some.inj merged).symm⟩

theorem namedHosts_of_named (named : ∀ host ∈ hosts, host ≠ []) : namedHosts hosts = hosts := by
  apply List.filter_eq_self.mpr
  intro host member
  simp [named host member]

inductive Fetched {ρ : Type} (halving : Halving) (timesOut : List Str → TimeFilter → Nat → Bool)
    (run : List Str → TimeFilter → Option (List ρ)) (hosts : List Str) (filter : TimeFilter)
    (rows : List ρ) : Prop where
  | answered (reads : run hosts filter = some rows)
      (uncut : cutHosts halving timesOut hosts filter = [])
  | overHosts {mid : Nat} {first later : List ρ} (early : 0 < mid) (late : mid < hosts.length)
      (front : runWithHostTimeTimeoutRetry halving timesOut run (hosts.take mid) filter =
        some first)
      (back : runWithHostTimeTimeoutRetry halving timesOut run (hosts.drop mid) filter =
        some later)
      (merged : rows = first ++ later)
      (cut : cutHosts halving timesOut hosts filter =
        cutHosts halving timesOut (hosts.take mid) filter ++
          cutHosts halving timesOut (hosts.drop mid) filter)
  | overTime {left right : TimeFilter} {first later : List ρ}
      (splits : splitTimeFilterForTimeout halving filter = some (left, right))
      (front : runWithHostTimeTimeoutRetry halving timesOut run hosts left = some first)
      (back : runWithHostTimeTimeoutRetry halving timesOut run hosts right = some later)
      (merged : rows = first ++ later)
      (cut : cutHosts halving timesOut hosts filter = hosts)

theorem retry_fetched {ρ : Type} {run : List Str → TimeFilter → Option (List ρ)} {rows : List ρ}
    (named : ∀ host ∈ hosts, host ≠ [])
    (some_host : hosts ≠ [])
    (ran : runWithHostTimeTimeoutRetry halving timesOut run hosts filter = some rows) :
    Fetched halving timesOut run hosts filter rows := by
  rw [runWithHostTimeTimeoutRetry] at ran
  simp only [namedHosts_of_named named, List.isEmpty_iff, if_neg some_host] at ran
  split at ran
  next => cases ran
  next read reads =>
    split at ran
    next quick =>
      cases ran
      exact .answered reads (by simp [cutHosts, quick])
    next slow =>
      split at ran
      next several =>
        obtain ⟨first, later, front, back, merged⟩ := mergeRows_some ran
        exact .overHosts (by omega) (by omega) front back merged
          (by rw [cutHosts, if_neg slow, if_pos several])
      next single =>
        split at ran
        next left right splits =>
          obtain ⟨first, later, front, back, merged⟩ := mergeRows_some ran
          exact .overTime splits front back merged
            (by simp [cutHosts, slow, single, splits])
        next whole =>
          split at ran
          next => cases ran
          next =>
            cases ran
            exact .answered reads (by simp [cutHosts, slow, single, whole])

theorem retry_rows {rows : List FetchedRow}
    (named : ∀ host ∈ hosts, host ≠ []) (distinct : hosts.Nodup) (shape : Shaped filter)
    (ran : runWithHostTimeTimeoutRetry halving timesOut (copyRows scope table) hosts filter =
      some rows) :
    rows.Perm (selectedRows scope table hosts filter ++
      rereadRows scope table halving timesOut hosts filter) := by
  -- a bisection makes the hosts or the filter smaller
  induction size : hosts.length + filter.extent using Nat.strong_induction_on
    generalizing hosts filter rows with
  | _ size ih =>
    by_cases empty : hosts = []
    · subst empty
      rw [runWithHostTimeTimeoutRetry] at ran
      cases ran
      simp [selectedRows, pickedRows_none, rereadRows, cutHosts]
    · cases retry_fetched named empty ran with
      | answered reads uncut =>
        rw [rereadRows_uncut uncut, List.append_nil]
        exact copyRows_picked shape.spaced reads
      | @overHosts mid first later early late front back merged cut =>
        have parts : hosts.take mid ++ hosts.drop mid = hosts := List.take_append_drop mid hosts
        have apart : ∀ host ∈ hosts.take mid, host ∉ hosts.drop mid := by
          rw [← parts] at distinct
          intro host member
          exact (List.nodup_append'.mp distinct).2.2 member
        have left := ih _ (by simp only [List.length_take]; omega)
          (fun host member => named host (List.mem_of_mem_take member))
          (distinct.sublist (List.take_sublist _ _)) shape front rfl
        have right := ih _ (by simp only [List.length_drop]; omega)
          (fun host member => named host (List.mem_of_mem_drop member))
          (distinct.sublist (List.drop_sublist _ _)) shape back rfl
        have chosen : (pickedRows scope table (hosts.take mid) filter.holds ++
            pickedRows scope table (hosts.drop mid) filter.holds).Perm
            (pickedRows scope table hosts filter.holds) := by
          simpa only [parts] using pickedRows_hosts filter.holds apart
        have again : (rereadRows scope table halving timesOut (hosts.take mid) filter ++
            rereadRows scope table halving timesOut (hosts.drop mid) filter).Perm
            (rereadRows scope table halving timesOut hosts filter) := by
          simp only [rereadRows, cut]
          exact pickedRows_hosts _ fun host member other =>
            apart host (mem_cutHosts member) (mem_cutHosts other)
        exact append_pairs_of merged left right chosen again
      | @overTime earlier following first later splits front back merged cut =>
        have halves := split_halves shape splits
        obtain ⟨shorter, shorterToo⟩ := split_extent splits
        have left := ih _ (by omega) named distinct halves.leftShape front rfl
        have right := ih _ (by omega) named distinct halves.rightShape back rfl
        rw [rereadRows_closed halves.leftClosed, List.append_nil] at left
        rw [rereadRows_closed halves.rightClosed, List.append_nil] at right
        have both : (selectedRows scope table hosts earlier ++
            selectedRows scope table hosts following).Perm _ :=
          pickedRows_or halves.apart halves.whole
        have parted : (selectedRows scope table hosts filter ++
            pickedRows scope table hosts fun time => filter.openEnd == some time).Perm _ :=
          pickedRows_or shape.openEnd_apart fun _ => rfl
        rw [merged, rereadRows, cut]
        exact (left.append right).trans (both.trans parted.symm)

end Bisection

section Whole

inductive JobTimeFilter : TimeFilter → Prop where
  | window (gte lte : Int) : JobTimeFilter (.bounds ⟨some gte, none, some lte, none⟩)
  | exact {times : List Int} : times.Nodup → JobTimeFilter (.exact times)
  | slots {slotS : Int} {times : List Int} : Spaced slotS times → JobTimeFilter (.slots times slotS)

structure Parts (filter : TimeFilter) (cuts : List TimeFilter) : Prop where
  shaped : ∀ cut ∈ cuts, Shaped cut
  apart : cuts.Pairwise fun a b => ∀ time, a.holds time = true → b.holds time = false
  whole : ∀ time, (cuts.any fun cut => cut.holds time) = filter.holds time

variable {hosts : List Str} {filter : TimeFilter}

theorem Parts.single (shape : Shaped filter) : Parts filter [filter] :=
  ⟨by simpa using shape, List.pairwise_singleton _ _, by simp⟩

theorem Parts.cons {filter first rest : TimeFilter} {cuts : List TimeFilter}
    (parts : Parts rest cuts) (shape : Shaped first)
    (apart : ∀ time, first.holds time = true → rest.holds time = false)
    (whole : ∀ time, (first.holds time || rest.holds time) = filter.holds time) :
    Parts filter (first :: cuts) := by
  refine ⟨List.forall_mem_cons.mpr ⟨shape, parts.shaped⟩,
    List.pairwise_cons.mpr ⟨?_, parts.apart⟩, ?_⟩
  · intro cut member time holds
    have outside := apart time holds
    rw [← parts.whole, List.any_eq_false] at outside
    simpa using outside cut member
  · intro time
    rw [List.any_cons, parts.whole, whole]

theorem windowSlices_parts (sliceS lte cur : Int) (begins : cur < lte) :
    Parts (.bounds ⟨some cur, none, some lte, none⟩) (windowSlices sliceS lte cur) := by
  induction cur using windowSlices.induct sliceS lte with
  | case1 cur _ last =>
    rw [windowSlices, if_pos begins, if_pos last]
    exact .single (.closed cur lte)
  | case2 cur _ more ih =>
    rw [windowSlices, if_pos begins, if_neg more]
    have positive := sliceUs_pos sliceS
    refine (ih (by omega)).cons (.halfOpen cur _) ?_ ?_
    · intro time holds
      simp only [TimeFilter.holds, TimeBounds.holds, Option.all_some, Option.all_none,
        Bool.and_true, Bool.and_eq_true, Bool.and_eq_false_iff, decide_eq_true_eq,
        decide_eq_false_iff_not] at holds ⊢
      omega
    · intro time
      simp only [TimeFilter.holds, TimeBounds.holds, Option.all_some, Option.all_none,
        Bool.and_true]
      apply Bool.eq_iff_iff.mpr
      simp only [Bool.or_eq_true, Bool.and_eq_true, decide_eq_true_eq]
      omega
  | case3 cur ends => exact absurd begins ends

theorem slots_parts {slotS : Int} {times : List Int} (spaced : Spaced slotS times) (n : Nat) :
    Parts (.slots times slotS) ((slices n times).map (.slots · slotS)) := by
  have flat := slices_flatten n times
  rw [← flat] at spaced
  obtain ⟨each, between⟩ := List.pairwise_flatten.mp spaced
  refine ⟨?_, ?_, ?_⟩
  · intro cut member
    obtain ⟨slice, inside, rfl⟩ := List.mem_map.mp member
    exact .slots (each slice inside)
  · refine List.pairwise_map.mpr (between.imp ?_)
    intro first later apart time holds
    obtain ⟨t0, member, inside⟩ := List.any_eq_true.mp holds
    apply List.any_eq_false.mpr
    intro other present
    simp [inSlot_apart (apart t0 member other present) inside]
  · intro time
    rw [List.any_map, TimeFilter.holds]
    conv_rhs => rw [← flat, List.any_flatten]
    rfl

theorem exact_parts {times : List Int} (distinct : times.Nodup) (n : Nat) :
    Parts (.exact times) ((slices n times).map .exact) := by
  have flat := slices_flatten n times
  rw [← flat] at distinct
  obtain ⟨each, between⟩ := List.nodup_flatten.mp distinct
  refine ⟨?_, ?_, ?_⟩
  · intro cut member
    obtain ⟨slice, inside, rfl⟩ := List.mem_map.mp member
    exact .exact (each slice inside)
  · refine List.pairwise_map.mpr (between.imp ?_)
    intro first later apart time holds
    simp only [TimeFilter.holds, List.contains_eq_mem, decide_eq_true_eq,
      decide_eq_false_iff_not] at holds ⊢
    exact apart holds
  · intro time
    apply Bool.eq_iff_iff.mpr
    conv_rhs => rw [TimeFilter.holds, ← flat]
    simp only [List.any_map, List.any_eq_true, Function.comp_apply, TimeFilter.holds,
      List.contains_eq_mem, decide_eq_true_eq, List.mem_flatten]

theorem JobTimeFilter.shaped (job : JobTimeFilter filter) : Shaped filter := by
  cases job with
  | window gte lte => exact .closed gte lte
  | exact distinct => exact .exact distinct
  | slots spaced => exact .slots spaced

theorem timeChunks_parts (job : JobTimeFilter filter) (sliceS : Int) :
    Parts filter (if (iterAggregateTimeFilterChunks sliceS filter).isEmpty then [filter]
      else iterAggregateTimeFilterChunks sliceS filter) := by
  split
  next => exact .single job.shaped
  next some_chunk =>
    cases job with
    | window gte lte =>
      by_cases begins : gte < lte
      · simpa [iterAggregateTimeFilterChunks] using windowSlices_parts sliceS lte gte begins
      · simp [iterAggregateTimeFilterChunks, windowSlices, begins] at some_chunk
    | exact distinct => exact exact_parts distinct _
    | slots spaced => exact slots_parts spaced _

variable {scope : JobScope} {table : List HostDataRow} {halving : Halving}
  {timesOut : List Str → TimeFilter → Nat → Bool}

theorem listify_named (hosts : List Str) :
    listifyAcctHosts (namedHosts hosts) = listifyAcctHosts hosts := by
  have flat : (namedHosts hosts).flatMap normScalar = hosts.flatMap normScalar := by
    induction hosts with
    | nil => rfl
    | cons host rest ih =>
      cases host with
      | nil => simpa [namedHosts, normScalar, strip, lstrip, rstrip] using ih
      | cons c cs => simpa [namedHosts] using ih
  rw [listifyAcctHosts, flat, listifyAcctHosts]

theorem mem_chunk (job : JobTimeFilter filter)
    {batchSize : Option Int} {sliceS : Int} {chunk : List Str × TimeFilter}
    (member : chunk ∈ iterHostTimeQueryChunks hosts filter batchSize sliceS) :
    (∀ host ∈ chunk.1, host ≠ []) ∧ chunk.1.Nodup ∧ Shaped chunk.2 := by
  simp only [iterHostTimeQueryChunks] at member
  split at member
  next => cases member
  next =>
    obtain ⟨cut, present, inside⟩ := List.mem_flatMap.mp member
    obtain ⟨batch, taken, rfl⟩ := List.mem_map.mp inside
    have flat := slices_flatten (coerceHostQueryBatchSize batchSize) (listifyAcctHosts hosts)
    rw [iterAcctHostBatches, listify_listify] at taken
    have part : ∀ host ∈ batch, host ∈ listifyAcctHosts hosts := by
      intro host there
      rw [← flat]
      exact List.mem_flatten.mpr ⟨batch, taken, there⟩
    have distinct := listify_nodup hosts
    rw [← flat, List.nodup_flatten] at distinct
    exact ⟨fun host there => (listify_clean (part host there)).named, distinct.1 batch taken,
      (timeChunks_parts job sliceS).shaped cut present⟩

theorem chunks_selected (job : JobTimeFilter filter) (batchSize : Option Int) (sliceS : Int) :
    ((iterHostTimeQueryChunks hosts filter batchSize sliceS).flatMap fun chunk =>
        selectedRows scope table chunk.1 chunk.2).Perm
      (selectedRows scope table (listifyAcctHosts hosts) filter) := by
  simp only [iterHostTimeQueryChunks, iterAcctHostBatches, listify_listify]
  split
  next empty => simp [selectedRows, List.isEmpty_iff.mp empty, pickedRows_none]
  next =>
    have parts := timeChunks_parts job sliceS
    have flat := slices_flatten (coerceHostQueryBatchSize batchSize) (listifyAcctHosts hosts)
    have distinct := listify_nodup hosts
    rw [← flat] at distinct
    have batched : ∀ cut : TimeFilter,
        ((slices (coerceHostQueryBatchSize batchSize) (listifyAcctHosts hosts)).flatMap
          fun batch => selectedRows scope table batch cut).Perm
        (selectedRows scope table (listifyAcctHosts hosts) cut) := by
      intro cut
      simpa only [flat, selectedRows] using pickedRows_batches cut.holds distinct
    simp only [List.flatMap_assoc, List.flatMap_map]
    refine (List.Perm.flatMap_left _ fun cut _ => batched cut).trans ?_
    have mapped : ∀ cuts : List TimeFilter,
        (cuts.flatMap fun cut => selectedRows scope table (listifyAcctHosts hosts) cut) =
          (cuts.flatMap fun cut => table.filter fun row => cut.holds row.time &&
            (onHosts (listifyAcctHosts hosts) row && inScope scope scope.exclusive row)).map
              (fetchedRow scope scope.exclusive) := fun _ => List.map_flatMap.symm
    rw [mapped]
    refine List.Perm.map _ ((flatMap_filter_perm _ ?_).trans (List.Perm.of_eq ?_))
    · refine parts.apart.imp ?_
      intro a b apart row _ holds
      simp only [Bool.and_eq_true] at holds
      simp [apart row.time holds.1]
    · apply List.filter_congr
      intro row _
      rw [← parts.whole]
      generalize
        (onHosts (listifyAcctHosts hosts) row && inScope scope scope.exclusive row) = takes
      cases takes <;> simp

theorem foldr_merge {ρ : Type} {chunks : List (List Str × TimeFilter)}
    {fetch : List Str × TimeFilter → Option (List ρ)}
    {chosen again : List Str × TimeFilter → List ρ}
    {rows : List ρ}
    (each : ∀ chunk ∈ chunks, ∀ part, fetch chunk = some part →
      part.Perm (chosen chunk ++ again chunk))
    (ran : chunks.foldr (fun chunk rest => mergeRows (fetch chunk) rest) (some []) = some rows) :
    rows.Perm (chunks.flatMap chosen ++ chunks.flatMap again) := by
  induction chunks generalizing rows with
  | nil =>
    cases ran
    exact List.Perm.refl _
  | cons chunk rest ih =>
    obtain ⟨first, later, here, behind, merged⟩ := mergeRows_some ran
    have front := each chunk (.head _) first here
    have back := ih (fun other member => each other (.tail _ member)) behind
    exact append_pairs_of merged front back (List.Perm.refl _) (List.Perm.refl _)

def ReadAgain (scope : JobScope) (halving : Halving)
    (timesOut : List Str → TimeFilter → Nat → Bool) (chunk : List Str × TimeFilter)
    (row : HostDataRow) : Prop :=
  chunk.2.openEnd = some row.time ∧
    onHosts (cutHosts halving timesOut chunk.1 chunk.2) row = true ∧
    inScope scope scope.exclusive row = true

theorem rereadRows_nil_iff (chunk : List Str × TimeFilter) :
    rereadRows scope table halving timesOut chunk.1 chunk.2 = [] ↔
      ∀ row ∈ table, ¬ReadAgain scope halving timesOut chunk row := by
  simp only [rereadRows, pickedRows, List.map_eq_nil_iff, List.filter_eq_nil_iff, Bool.and_eq_true,
    beq_iff_eq, ReadAgain]

theorem fetched_rows {iniSliceS : Int}
    {batchSize sliceS : Option Int} {rows : List FetchedRow} (job : JobTimeFilter filter)
    (fetched : fetchJobFrame halving timesOut iniSliceS scope table hosts filter batchSize sliceS =
      some rows) :
    rows.Perm (selectedRows scope table (listifyAcctHosts hosts) filter ++
      (fetchChunks iniSliceS hosts filter batchSize sliceS).flatMap fun chunk =>
        rereadRows scope table halving timesOut chunk.1 chunk.2) := by
  have chosen : ((fetchChunks iniSliceS hosts filter batchSize sliceS).flatMap fun chunk =>
      selectedRows scope table chunk.1 chunk.2).Perm
      (selectedRows scope table (listifyAcctHosts (namedHosts hosts)) filter) :=
    chunks_selected job _ _
  rw [listify_named] at chosen
  refine (foldr_merge ?_ fetched).trans (chosen.append_right _)
  intro chunk member part ran
  obtain ⟨named, distinct, shape⟩ := mem_chunk job member
  exact retry_rows named distinct shape ran

def quarterSlice : TimeFilter := .bounds ⟨some 0, none, none, some (900 * second)⟩

def halfHour : TimeFilter := .bounds ⟨some 0, none, some (1800 * second), none⟩

def loneScope : JobScope := ⟨lit "7", false, [], true, []⟩

def sampleAt (time : Int) : HostDataRow :=
  ⟨time, some (lit "a"), some (lit "7"), some (lit "host_cpu"), some (lit "user"), none, none, none,
    none⟩

def readAt (time : Int) : FetchedRow :=
  ⟨time, some (lit "a"), some (lit "host_cpu"), some (lit "user"), none, none, none, none, true⟩

def firstTimesOut (_ : List Str) (filter : TimeFilter) (attempt : Nat) : Bool :=
  filter == quarterSlice && attempt == 0

end Whole

end PerfStats.Metrics
