import PerfStats.Lib.CountingSort
import PerfStats.Lib.ExactFloat

/-! The reductions of the metrics: the compiled kernels beside the NumPy functions they stand for.
-/

namespace PerfStats.Metrics

open Lib Function

section RadixSort

abbrev KeyRow := BitVec 64 × Nat

def radixBuckets : Nat := 65536

def radixDigit (shift : Nat) (pair : KeyRow) : Nat := ((pair.1 >>> shift) &&& 65535#64).toNat

/-- The two pairs of buffers: `k` with `v`, and `kt` with `vt`. -/
inductive Buffer where
  | given
  | spare
deriving DecidableEq

structure RadixState where
  given : Nat → KeyRow
  spare : Nat → KeyRow
  cnt : Nat → Nat
  src : Buffer
  dst : Buffer
  ended : Nat

def RadixState.read (state : RadixState) : Buffer → Nat → KeyRow
  | .given => state.given
  | .spare => state.spare

def RadixState.write (state : RadixState) (pairs : Nat → KeyRow) : Buffer → RadixState
  | .given => { state with given := pairs }
  | .spare => { state with spare := pairs }

def RadixState.swap (state : RadixState) (pairs : Nat → KeyRow) (cnt : Nat → Nat) : RadixState :=
  { state.write pairs state.dst with
    cnt := cnt
    src := state.dst
    dst := state.src
    ended := 1 - state.ended }

def radixPass (m shift : Nat) (state : RadixState) : RadixState :=
  let src := state.read state.src
  let cnt := tally (radixDigit shift) m src (zeroCells radixBuckets state.cnt)
  if (List.range radixBuckets).any fun b => cnt b == m then { state with cnt := cnt }
  else
    let moved :=
      scatter (radixDigit shift) m src (state.read state.dst) (offsets radixBuckets cnt).1
    state.swap moved.1 moved.2

def radixLoop (m : Nat) (hi : BitVec 64) (state : RadixState) (shift : Nat) : RadixState :=
  if hi >>> shift = 0 ∧ 0 < shift then state
  else if 64 ≤ shift + 16 then radixPass m shift state
  else radixLoop m hi (radixPass m shift state) (shift + 16)
termination_by 64 - shift

def largestKey (m : Nat) (pairs : Nat → KeyRow) : BitVec 64 :=
  (List.range m).foldl (fun hi i => if hi < (pairs i).1 then (pairs i).1 else hi) 0

def radixSortPairs (m : Nat) (given spare : Nat → KeyRow) (cnt : Nat → Nat) : RadixState :=
  if m < 2 then ⟨given, spare, cnt, .given, .spare, 0⟩
  else radixLoop m (largestKey m given) ⟨given, spare, cnt, .given, .spare, 0⟩ 0

end RadixSort

section GroupReduce

variable (keys : Nat → BitVec 64) (values : Nat → Exact) (mask : Option (Nat → Bool))

def takesRow (mask : Option (Nat → Bool)) (i : Nat) : Bool := mask.all fun mask => mask i

structure Collected where
  pairs : Nat → KeyRow
  m : Nat
  negative : Bool

def collectStep (state : Collected) (i : Nat) : Collected :=
  if takesRow mask i then
    ⟨update state.pairs state.m (keys i, i), state.m + 1,
      state.negative || (keys i).slt 0⟩
  else state

def signFlip : BitVec 64 := 1#64 <<< 63

def flipStep (pairs : Nat → KeyRow) (i : Nat) : Nat → KeyRow :=
  update pairs i ((pairs i).1 ^^^ signFlip, (pairs i).2)

structure Group where
  key : BitVec 64
  count : Nat
  sum : Exact
  largest : Exact
deriving DecidableEq, Repr

/-- The output buffers; `groups` is `g + 1`. -/
structure Reduced where
  out : Nat → Group
  groups : Nat
  cur : BitVec 64

def reduceStep (sorted : Nat → KeyRow) (state : Reduced) (j : Nat) : Reduced :=
  let r := (sorted j).2
  let ku := (sorted j).1
  let val := values r
  if state.groups = 0 ∨ ku ≠ state.cur then
    ⟨update state.out state.groups ⟨keys r, 1, val, val⟩, state.groups + 1, ku⟩
  else
    let group := state.out (state.groups - 1)
    -- a NaN stays the maximum of its group
    let largest :=
      if val.isNan || (!group.largest.isNan && group.largest.lt val) then val else group.largest
    { state with
      out := update state.out (state.groups - 1)
        ⟨group.key, group.count + 1, group.sum.add val, largest⟩ }

structure ReduceMemory where
  given : Nat → KeyRow
  spare : Nat → KeyRow
  cnt : Nat → Nat
  out : Nat → Group

/-- The number of groups, and the output buffers. -/
def groupReduceC (n : Nat) (memory : ReduceMemory) : Nat × (Nat → Group) :=
  let collected := (List.range n).foldl (collectStep keys mask) ⟨memory.given, 0, false⟩
  let m := collected.m
  if m = 0 then (0, memory.out)
  else
    let pairs :=
      if collected.negative then (List.range m).foldl flipStep collected.pairs
      else collected.pairs
    let state := radixSortPairs m pairs memory.spare memory.cnt
    let sorted := if state.ended = 0 then state.given else state.spare
    let reduced := (List.range m).foldl (reduceStep keys values sorted) ⟨memory.out, 0, 0⟩
    (reduced.groups, reduced.out)

abbrev Reduction := List (BitVec 64) × List Nat × List Exact × List Exact

/-- `codon_bridge.group_reduce`. -/
def groupReduceCodon (n : Nat) (memory : ReduceMemory) : Reduction :=
  let groups := front (groupReduceC keys values mask n memory).1
    (groupReduceC keys values mask n memory).2
  (groups.map (·.key), groups.map (·.count), groups.map (·.sum), groups.map (·.largest))

def npUnique (keys : List (BitVec 64)) : List (BitVec 64) :=
  keys.dedup.insertionSort fun a b => a.toInt ≤ b.toInt

def ufuncAt (op : Exact → Exact → Exact) (cells : List Exact) (indexed : List (Nat × Exact)) :
    List Exact :=
  indexed.foldl (fun cells entry => cells.modify entry.1 (op · entry.2)) cells

def npGroupReduce (n : Nat) : Reduction :=
  let rows := (List.range n).filter (takesRow mask)
  let taken := rows.map keys
  if taken.isEmpty then ([], [], [], [])
  else
    let uniq := npUnique taken
    let indexed := (taken.map fun key => uniq.idxOf key).zip (rows.map values)
    (uniq, uniq.map fun key => taken.count key,
      ufuncAt .add (List.replicate uniq.length (.num 0)) indexed,
      ufuncAt .maximum (List.replicate uniq.length .negInf) indexed)

end GroupReduce

section Grid

/-- The buffers of `grid_mean_c`. -/
structure GridState where
  grid : Nat → Exact
  cnt : Nat → Nat

def gridStep (cells : Nat → Int) (values : Nat → Exact) (size : Nat)
    (state : Option (GridState × Nat)) (i : Nat) : Option (GridState × Nat) :=
  match state with
  | none => none
  | some (state, used) =>
    if (values i).isNan then some (state, used)
    else if cells i < 0 ∨ size ≤ cells i then none
    else
      let c := (cells i).toNat
      some (⟨update state.grid c ((state.grid c).add (values i)),
        update state.cnt c (state.cnt c + 1)⟩, used + 1)

def meanStep (cnt : Nat → Nat) (grid : Nat → Exact) (c : Nat) : Nat → Exact :=
  update grid c (if 0 < cnt c then (grid c).divNat (cnt c) else .nan)

/-- How many rows landed in a cell (`none` for `-1`) and the grid. -/
def gridMeanC (n : Nat) (cells : Nat → Int) (values : Nat → Exact) (size : Nat)
    (memory : GridState) : Option (Nat × (Nat → Exact)) :=
  let cleared : GridState := (List.range size).foldl
    (fun state c => ⟨update state.grid c (.num 0), update state.cnt c 0⟩) memory
  ((List.range n).foldl (gridStep cells values size) (some (cleared, 0))).map fun state =>
    (state.2, (List.range size).foldl (meanStep state.1.cnt) state.1.grid)

def bincountWidth (size : Nat) (index : List Nat) : Nat :=
  index.foldl (fun width c => max width (c + 1)) size

def npGridMean (n : Nat) (cells : Nat → Int) (values : Nat → Exact) (size : Nat) : List Exact :=
  let rows := (List.range n).filter fun i => !(values i).isNan
  let index := rows.map fun i => (cells i).toNat
  let width := bincountWidth size index
  let sums := ufuncAt .add (List.replicate width (.num 0)) (index.zip (rows.map values))
  let cnt := (List.range width).map fun c => index.count c
  (sums.zip cnt).map fun cell => if 0 < cell.2 then cell.1.divNat (max cell.2 1) else .nan

end Grid

section Join

/-- The loop of `join_sorted_c`, with the filled part of its output buffers. -/
def joinLoop (nl nr : Nat) (left right : Nat → Int) (i j : Nat) (out : List (Nat × Nat)) :
    List (Nat × Nat) :=
  if i < nl ∧ j < nr then
    if left i = right j then joinLoop nl nr left right (i + 1) (j + 1) (out ++ [(i, j)])
    else if left i < right j then joinLoop nl nr left right (i + 1) j out
    else joinLoop nl nr left right i (j + 1) out
  else out
termination_by (nl - i) + (nr - j)

/-- `codon_bridge.join_sorted`. -/
def joinSortedCodon (nl nr : Nat) (left right : Nat → Int) : List Nat × List Nat :=
  let hits := joinLoop nl nr left right 0 0 []
  (hits.map Prod.fst, hits.map Prod.snd)

def searchSorted (n : Nat) (sorted : Nat → Int) (key : Int) : Nat :=
  ((List.range n).takeWhile fun j => decide (sorted j < key)).length

def npJoinKeys (nl nr : Nat) (left right : Nat → Int) : List Nat × List Nat :=
  let pos := fun i => searchSorted nr right (left i)
  let hit := fun i => decide (pos i < nr ∧ right (min (pos i) (max 0 (nr - 1))) = left i)
  let leftIdx := (List.range nl).filter fun i => if nr = 0 then false else hit i
  (leftIdx, leftIdx.map pos)

end Join

section Sorted

def sortKey (pair : KeyRow) : Nat := pair.1.toNat

def rowsBefore (first second : KeyRow) : Prop := first.2 < second.2

theorem radixDigit_eq (shift : Nat) (pair : KeyRow) :
    radixDigit shift pair = sortKey pair / 2 ^ shift % radixBuckets := by
  have mask : (65535 : Nat) = 2 ^ 16 - 1 := by decide
  rw [radixDigit, BitVec.toNat_and, BitVec.toNat_ushiftRight, Nat.shiftRight_eq_div_pow,
    show (65535#64).toNat = 65535 from rfl, mask, Nat.and_two_pow_sub_one_eq_mod]
  rfl

/-- The state of the sort of `l`, before the pass at `shift`: the flag names the buffers that the
source pointers are at. -/
structure RadixRight (m : Nat) (l : List KeyRow) (shift : Nat) (state : RadixState) : Prop where
  pointers : (state.ended = 0 ∧ state.src = .given ∧ state.dst = .spare) ∨
    (state.ended = 1 ∧ state.src = .spare ∧ state.dst = .given)
  entries : (front m (state.read state.src)).Perm l
  ordered : (front m (state.read state.src)).Pairwise
    (OrderedMod sortKey rowsBefore (2 ^ shift))

variable {m shift : Nat} {l : List KeyRow} {state : RadixState}

theorem read_swap (state : RadixState) (pairs : Nat → KeyRow) (cnt : Nat → Nat) :
    (state.swap pairs cnt).read (state.swap pairs cnt).src = pairs := by
  cases here : state.dst <;> simp [RadixState.swap, RadixState.write, RadixState.read, here]

theorem swap_pointers {state : RadixState}
    (pointers : (state.ended = 0 ∧ state.src = .given ∧ state.dst = .spare) ∨
      (state.ended = 1 ∧ state.src = .spare ∧ state.dst = .given)) (pairs : Nat → KeyRow)
    (cnt : Nat → Nat) :
    ((state.swap pairs cnt).ended = 0 ∧ (state.swap pairs cnt).src = .given ∧
      (state.swap pairs cnt).dst = .spare) ∨
    ((state.swap pairs cnt).ended = 1 ∧ (state.swap pairs cnt).src = .spare ∧
      (state.swap pairs cnt).dst = .given) := by
  cases pointers with
  | inl given => exact .inr ⟨by simp [RadixState.swap, given.1], given.2.2, given.2.1⟩
  | inr spare => exact .inl ⟨by simp [RadixState.swap, spare.1], spare.2.2, spare.2.1⟩

theorem radixPass_right (right : RadixRight m l shift state) :
    RadixRight m l (shift + 16) (radixPass m shift state) := by
  have digits : radixDigit shift = fun pair => sortKey pair / 2 ^ shift % radixBuckets := by
    funext pair
    exact radixDigit_eq shift pair
  have positive : 0 < 2 ^ shift := Nat.two_pow_pos shift
  have power : 2 ^ (shift + 16) = 2 ^ shift * radixBuckets := by
    rw [Nat.pow_add]
    rfl
  have small : ∀ pair, radixDigit shift pair < radixBuckets := by
    intro pair
    rw [radixDigit_eq]
    exact Nat.mod_lt _ (by decide)
  simp only [radixPass]
  split
  next constant =>
    obtain ⟨b, inside, all⟩ := List.any_eq_true.mp constant
    refine ⟨right.pointers, right.entries, ?_⟩
    rw [power]
    refine constant_ordered (b := b) positive ?_ right.ordered
    have length : (bucket (radixDigit shift) b (front m (state.read state.src))).length =
        (front m (state.read state.src)).length := by
      have counted : tally (radixDigit shift) m (state.read state.src)
          (zeroCells radixBuckets state.cnt) b = m := by simpa using all
      rw [tally_eq, zeroCells_eq _ _ _ (List.mem_range.mp inside), Nat.zero_add] at counted
      rw [counted, front_length]
    intro pair member
    have own := List.length_filter_eq_length_iff.mp length pair member
    rw [← radixDigit_eq]
    simpa using own
  next =>
    have moved : front m (scatter (radixDigit shift) m (state.read state.src)
        (state.read state.dst) (offsets radixBuckets (tally (radixDigit shift) m
          (state.read state.src) (zeroCells radixBuckets state.cnt))).1).1 =
        byDigit (radixDigit shift) radixBuckets (front m (state.read state.src)) :=
      scatter_front fun i _ => small (state.read state.src i)
    have ordered : (byDigit (fun pair => sortKey pair / 2 ^ shift % radixBuckets) radixBuckets
        (front m (state.read state.src))).Pairwise
        (OrderedMod sortKey rowsBefore (2 ^ shift * radixBuckets)) :=
      byDigit_ordered positive right.ordered
    rw [← digits, ← power, ← moved] at ordered
    refine ⟨swap_pointers right.pointers _ _, ?_, ?_⟩
    · rw [read_swap, moved]
      exact (byDigit_perm fun pair _ => small pair).trans right.entries
    · rw [read_swap]
      exact ordered

theorem largestKey_spec (m : Nat) (pairs : Nat → KeyRow) :
    ∀ i, i < m → (pairs i).1 ≤ largestKey m pairs := by
  refine range_loop m (I := fun n (hi : BitVec 64) => ∀ i, i < n → (pairs i).1 ≤ hi) (by simp) ?_
  intro n hi _ below i small
  by_cases last : i = n
  · subst last
    split
    next => exact BitVec.le_refl _
    next le => exact BitVec.not_lt.mp le
  · have old := below i (by omega)
    split
    next lt => exact Nat.le_of_lt (Nat.lt_of_le_of_lt old lt)
    next => exact old

structure SortRight (m : Nat) (l : List KeyRow) (state : RadixState) : Prop where
  entries : (front m (if state.ended = 0 then state.given else state.spare)).Perm l
  ordered : (front m (if state.ended = 0 then state.given else state.spare)).Pairwise
    fun a b => sortKey a < sortKey b ∨ sortKey a = sortKey b ∧ rowsBefore a b

theorem RadixRight.sorted (right : RadixRight m l shift state)
    (small : ∀ pair ∈ l, sortKey pair < 2 ^ shift) : SortRight m l state := by
  have entries := right.entries
  have ordered := ordered_of_small
    (fun pair member => small pair (right.entries.mem_iff.mp member)) right.ordered
  cases right.pointers with
  | inl given =>
    rw [given.2.1] at entries ordered
    exact ⟨by rw [if_pos given.1]; exact entries, by rw [if_pos given.1]; exact ordered⟩
  | inr spare =>
    have flag : ¬state.ended = 0 := by rw [spare.1]; decide
    rw [spare.2.1] at entries ordered
    exact ⟨by rw [if_neg flag]; exact entries, by rw [if_neg flag]; exact ordered⟩

theorem radixLoop_sorted {hi : BitVec 64} (bounded : ∀ pair ∈ l, pair.1 ≤ hi)
    (right : RadixRight m l shift state) : SortRight m l (radixLoop m hi state shift) := by
  induction state, shift using radixLoop.induct m hi with
  | case1 state shift ends =>
    rw [radixLoop, if_pos ends]
    refine right.sorted fun pair member => ?_
    have zero : hi.toNat / 2 ^ shift = 0 := by
      have := congrArg BitVec.toNat ends.1
      rwa [BitVec.toNat_ushiftRight, Nat.shiftRight_eq_div_pow] at this
    have below := (Nat.div_eq_zero_iff_lt (Nat.two_pow_pos shift)).mp zero
    exact Nat.lt_of_le_of_lt (bounded pair member) below
  | case2 state shift more last =>
    rw [radixLoop, if_neg more, if_pos last]
    refine (radixPass_right right).sorted fun pair _ => ?_
    exact Nat.lt_of_lt_of_le pair.1.isLt (Nat.pow_le_pow_right (by decide) last)
  | case3 state shift more again ih =>
    rw [radixLoop, if_neg more, if_neg again]
    exact ih (radixPass_right right)

theorem radixSortPairs_sorted {given : Nat → KeyRow} (spare : Nat → KeyRow) (cnt : Nat → Nat)
    (ordered : (front m given).Pairwise rowsBefore) :
    SortRight m (front m given) (radixSortPairs m given spare cnt) := by
  have start : RadixRight m (front m given) 0 ⟨given, spare, cnt, .given, .spare, 0⟩ :=
    ⟨.inl ⟨rfl, rfl, rfl⟩, List.Perm.refl _, by rw [Nat.pow_zero]; exact ordered_one ordered⟩
  rw [radixSortPairs]
  split
  next few =>
    refine ⟨by simp, ?_⟩
    obtain rfl | rfl : m = 0 ∨ m = 1 := by omega
    · simp [front]
    · simp [front]
  next =>
    refine radixLoop_sorted ?_ start
    intro pair member
    obtain ⟨i, inside, rfl⟩ := List.mem_map.mp member
    exact largestKey_spec m given i (List.mem_range.mp inside)

end Sorted

end PerfStats.Metrics
