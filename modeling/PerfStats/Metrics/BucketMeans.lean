import PerfStats.Metrics.SumPerSample

namespace PerfStats.Metrics

open Lib Function

section Model

variable {ρ : Type*}

def joinKeys (left right : List (BitVec 64)) : List Nat × List Nat :=
  npJoinKeys left.length right.length (fun i => (left.getD i 0).toInt)
    fun j => (right.getD j 0).toInt

def npAssign (cells : List Exact) (index : List Nat) (values : List Exact) : List Exact :=
  (index.zip values).foldl (fun cells entry => cells.set entry.1 entry.2) cells

def keyedMeans (rows : List ρ) (key : ρ → BitVec 64) (value : ρ → Exact) :
    List (BitVec 64) × List Exact :=
  let all := npGroupReduce (column rows 0 key) (column rows .nan value) none rows.length
  let fin := groupReduce rows key value fun r => !(value r).isNan
  let joined := joinKeys all.1 fin.1
  let means := joined.2.map fun r => (fin.2.2.1.getD r .nan).divNat (fin.2.1.getD r 0)
  (all.1, npAssign (List.replicate all.1.length .nan) joined.1 means)

structure TimedValue where
  hostId : ℤ
  timeUs : ℤ
  value : Exact

def fiveMinUs : ℤ := 300 * 1000000

def TimedValue.bucket (row : TimedValue) : ℤ := row.timeUs / fiveMinUs

def packBucket (host bucket : ℤ) : BitVec 64 :=
  BitVec.ofInt 64 host <<< timeBits ||| BitVec.ofInt 64 bucket

def TimedValue.bucketKey (row : TimedValue) : BitVec 64 := packBucket row.hostId row.bucket

/-- The error of `np.bincount`. -/
def negativeMinlength : String := "'minlength' must not be negative"

def negativeElement : String := "'list' argument must have no negative elements"

def hostStarts (hosts : List (BitVec 64)) : List Bool :=
  true :: List.zipWith (fun before host => decide (host ≠ before)) hosts hosts.tail

def bucketHostMeans (rows : List TimedValue) (conv : ℚ) :
    Except String (List (BitVec 64) × List Exact) :=
  if rows.isEmpty then .ok ([], [])
  else
    let (keys, means) := keyedMeans rows TimedValue.bucketKey TimedValue.value
    let hosts := keys.map fun key => key.sshiftRight timeBits
    if hosts.any fun host => decide (host.toInt < 0) then
      -- `bincount` looks at `minlength`, the last host and one, before it looks at the hosts
      .error (if hosts.all fun host => decide (host.toInt + 1 < 0) then negativeMinlength
        else negativeElement)
    else
      let keep := List.zipWith (fun first host => !(first && decide (1 < hosts.count host)))
        (hostStarts hosts) hosts
      let kept := (((hosts.zip means).zip keep).filter Prod.snd).map fun cell =>
        (cell.1.1, cell.1.2.scale conv)
      .ok (keyedMeans kept Prod.fst Prod.snd)

inductive HostAggregate where
  | mean
  | sum

def HostAggregate.fold (hostAggregate : HostAggregate) (perHost : List Exact) : Exact :=
  let fin := perHost.filter fun v => !v.isNan
  if fin.isEmpty then .nan
  else match hostAggregate with
    | .sum => fin.foldl Exact.add (.num 0)
    | .mean => (fin.foldl Exact.add (.num 0)).divNat fin.length

/-- `bucketed_job_value`: none without rows. -/
def bucketedJobValue (rows : List TimedValue) (conv : ℚ) (hostAggregate : HostAggregate) :
    Except String (Option Exact) :=
  if rows.isEmpty then .ok none
  else do
    let (_, perHost) ← bucketHostMeans rows conv
    if perHost.isEmpty then return none else return some (hostAggregate.fold perHost)

end Model

section Spec

def distinctSorted (l : List ℤ) : List ℤ := l.dedup.insertionSort (· ≤ ·)

def ofHost (rows : List TimedValue) (host : ℤ) : List TimedValue :=
  series TimedValue.hostId host rows

def keptBuckets (own : List TimedValue) : List ℤ :=
  let buckets := distinctSorted (own.map TimedValue.bucket)
  if 1 < buckets.length then buckets.tail else buckets

def bucketMean (own : List TimedValue) (bucket : ℤ) : Exact :=
  Exact.mean ((series TimedValue.bucket bucket own).map TimedValue.value)

def hostMean (conv : ℚ) (own : List TimedValue) : Exact :=
  Exact.mean ((keptBuckets own).map fun bucket => (bucketMean own bucket).scale conv)

def meanOf (l : List ℚ) : Option ℚ := if l = [] then none else some (l.sum / l.length)

def numbers (rows : List TimedValue) : List ℚ := rows.filterMap fun row => row.value.number

def fiveMinuteMean (conv : ℚ) (own : List TimedValue) : Exact :=
  let means := (keptBuckets own).filterMap fun bucket =>
    meanOf (numbers (series TimedValue.bucket bucket own))
  (meanOf means).elim .nan fun mean => .num (conv * mean)

end Spec

section Means

variable {ρ : Type*} {key : ρ → BitVec 64} {value : ρ → Exact} {rows : List ρ}
  {right : List (BitVec 64)}

theorem unmasked (rows : List ρ) (key : ρ → BitVec 64) (value : ρ → Exact) :
    npGroupReduce (column rows 0 key) (column rows .nan value) none rows.length =
      groupReduce rows key value fun _ => true := by
  have same : (List.range rows.length).filter (takesRow none) =
      (List.range rows.length).filter (takesRow (some (column rows false fun _ => true))) := by
    apply List.filter_congr
    intro i inside
    have taken : column rows false (fun _ => true) i = true := column_of (List.mem_range.mp inside)
    exact taken.symm
  unfold groupReduce npGroupReduce
  rw [same]

theorem groupReduce_counts {mask : ρ → Bool} : (groupReduce rows key value mask).2.1 =
    (npUnique ((rows.filter mask).map key)).map fun k => ((rows.filter mask).map key).count k := by
  have keys := takenRows_column rows mask 0 key
  unfold groupReduce npGroupReduce
  rw [← takenRows]
  dsimp only
  rw [keys]
  split
  · next empty =>
      rw [List.isEmpty_iff.mp empty]
      rfl
  · rfl

theorem count_eq_series (rows : List ρ) (k : BitVec 64) :
    (rows.map key).count k = (series key k rows).length := by
  rw [List.count, List.countP_map, series, List.countP_eq_length_filter]
  congr 1

theorem hit_iff (ordered : right.Pairwise fun a b => a.toInt < b.toInt)
    (k : BitVec 64) :
    (searchSorted right.length (fun j => (right.getD j 0).toInt) k.toInt < right.length ∧
      (right.getD (min (searchSorted right.length (fun j => (right.getD j 0).toInt) k.toInt)
        (max 0 (right.length - 1))) 0).toInt = k.toInt) ↔ k ∈ right := by
  constructor
  · intro hit
    obtain ⟨inside, same⟩ := hit
    rw [Nat.min_eq_left (by omega), List.getD_eq_getElem _ _ inside] at same
    rw [← BitVec.eq_of_toInt_eq same]
    exact List.getElem_mem inside
  · intro member
    have inside := List.idxOf_lt_length_of_mem member
    rw [searchSorted_key ordered member, Nat.min_eq_left (by omega),
      List.getD_eq_getElem _ _ inside, List.getElem_idxOf inside]
    exact ⟨inside, rfl⟩

theorem joinKeys_eq (left : List (BitVec 64))
    (ordered : right.Pairwise fun a b => a.toInt < b.toInt) :
    joinKeys left right =
      (((List.range left.length).filter fun i => decide (left.getD i 0 ∈ right)),
        ((List.range left.length).filter fun i => decide (left.getD i 0 ∈ right)).map
          fun i => right.idxOf (left.getD i 0)) := by
  have hits : ((List.range left.length).filter fun i => if right.length = 0 then false else
      decide (searchSorted right.length (fun j => (right.getD j 0).toInt) (left.getD i 0).toInt
        < right.length ∧ (right.getD (min (searchSorted right.length
          (fun j => (right.getD j 0).toInt) (left.getD i 0).toInt) (max 0 (right.length - 1)))
            0).toInt = (left.getD i 0).toInt)) =
      (List.range left.length).filter fun i => decide (left.getD i 0 ∈ right) := by
    apply List.filter_congr
    intro i _
    split
    · next empty =>
        rw [List.eq_nil_of_length_eq_zero empty]
        rfl
    · exact decide_eq_decide.mpr (hit_iff ordered (left.getD i 0))
  unfold joinKeys npJoinKeys
  dsimp only
  rw [hits]
  refine Prod.ext rfl (List.map_congr_left fun i member => ?_)
  exact searchSorted_key ordered (of_decide_eq_true (List.mem_filter.mp member).2)

theorem npAssign_places {n : Nat} {places : List Nat} (inside : ∀ i ∈ places, i < n)
    (f : Nat → Exact) :
    npAssign (List.replicate n .nan) places (places.map f) =
      (List.range n).map fun i => if i ∈ places then f i else .nan := by
  have zipped : places.zip (places.map f) = places.map fun i => (i, f i) := by
    have pairs : (places.map id).zip (places.map f) = places.map fun i => (i, f i) := List.zip_map'
    rwa [List.map_id] at pairs
  unfold npAssign
  rw [zipped]
  clear zipped
  induction places using List.reverseRecOn with
  | nil => simp [List.map_const']
  | append_singleton places last ih =>
    rw [List.map_append, List.foldl_append,
      ih fun i member => inside i (List.mem_append_left _ member)]
    apply List.ext_getElem
    · simp
    · intro j _ small
      by_cases own : last = j
      · simp [own]
      · have other : j ≠ last := fun same => own same.symm
        simp [own, other]

theorem mean_of_key (k : BitVec 64) : Exact.mean ((series key k rows).map value) =
    if k ∈ npUnique ((rows.filter fun r => !(value r).isNan).map key) then
      (((series key k (rows.filter fun r => !(value r).isNan)).map value).foldl Exact.add
        (.num 0)).divNat (((rows.filter fun r => !(value r).isNan).map key).count k)
    else .nan := by
  have there : ((series key k rows).map value).filter (fun v => !v.isNan) =
      (series key k (rows.filter fun r => !(value r).isNan)).map value := by
    rw [List.filter_map, series_filter]
    rfl
  have none : (series key k (rows.filter fun r => !(value r).isNan)).isEmpty = true ↔
      k ∉ npUnique ((rows.filter fun r => !(value r).isNan).map key) := by
    rw [mem_npUnique, List.isEmpty_iff, mem_keys_iff, series_filter, not_not]
  unfold Exact.mean
  dsimp only
  rw [there, count_eq_series, List.isEmpty_map, List.length_map]
  by_cases member : k ∈ npUnique ((rows.filter fun r => !(value r).isNan).map key)
  · rw [if_pos member, if_neg fun empty => none.mp empty member]
  · rw [if_neg member, if_pos (none.mpr member)]

theorem keyedMeans_eq (rows : List ρ) (key : ρ → BitVec 64) (value : ρ → Exact) :
    keyedMeans rows key value = (npUnique (rows.map key), (npUnique (rows.map key)).map fun k =>
      Exact.mean ((series key k rows).map value)) := by
  obtain ⟨allKeys, -, -⟩ := @groupReduce_cells ρ key value (fun _ => true) rows
  obtain ⟨finKeys, finSums, -⟩ := @groupReduce_cells ρ key value (fun r => !(value r).isNan) rows
  have finCounts := @groupReduce_counts ρ key value rows fun r => !(value r).isNan
  rw [List.filter_true] at allKeys
  unfold keyedMeans
  dsimp only
  rw [unmasked, allKeys, finKeys, finSums, finCounts, joinKeys_eq _ (npUnique_ordered _)]
  rw [List.map_map, npAssign_places fun i member => List.mem_range.mp (List.mem_filter.mp member).1]
  refine Prod.ext rfl ?_
  apply List.ext_getElem
  · simp
  · intro i inside _
    have small : i < (npUnique (rows.map key)).length := by simpa using inside
    have own : (npUnique (rows.map key)).getD i 0 = (npUnique (rows.map key))[i] :=
      List.getD_eq_getElem _ _ small
    rw [List.getElem_map, List.getElem_map, List.getElem_range, mean_of_key]
    simp only [List.mem_filter, List.mem_range, small, true_and, decide_eq_true_iff, own,
      comp_apply]
    split
    · next member =>
        have place := List.idxOf_lt_length_of_mem member
        rw [List.getD_eq_getElem _ _ (by rwa [List.length_map]),
          List.getD_eq_getElem _ _ (by rwa [List.length_map]), List.getElem_map, List.getElem_map,
          List.getElem_idxOf place]
    · rfl

end Means

section Keys

structure HostFits (host : ℤ) : Prop where
  nonneg : 0 ≤ host
  below : host < 2 ^ 31

structure BucketFits (bucket : ℤ) : Prop where
  nonneg : 0 ≤ bucket
  below : bucket < 2 ^ 32

variable {host host' bucket bucket' : ℤ}

theorem packBucket_toNat {host bucket : Nat} (h : host < 2 ^ 31) (b : bucket < 2 ^ 32) :
    (packBucket host bucket).toNat = host * 2 ^ 32 + bucket := by
  have low : (BitVec.ofInt 64 (bucket : ℤ)).toNat = bucket := by
    rw [BitVec.ofInt_natCast, BitVec.toNat_ofNat, Nat.mod_eq_of_lt (by omega)]
  unfold packBucket
  rw [BitVec.or_comm, show timeBits = 32 from rfl, put_part (by rw [low]; exact b) h (by decide),
    low, Nat.add_comm]

theorem packBucket_toInt (h : HostFits host) (b : BucketFits bucket) :
    (packBucket host bucket).toInt = host * 2 ^ 32 + bucket := by
  obtain ⟨low, high⟩ := h
  obtain ⟨low', high'⟩ := b
  lift host to ℕ using low
  lift bucket to ℕ using low'
  have small : host * 2 ^ 32 + bucket < 2 ^ 63 := by omega
  rw [toInt_of_toNat (packBucket_toNat (by omega) (by omega)) small]
  push_cast
  rfl

theorem ofInt_host (h : HostFits host) : (BitVec.ofInt 64 host).toInt = host := by
  obtain ⟨low, high⟩ := h
  lift host to ℕ using low
  refine toInt_of_toNat ?_ (by omega)
  rw [BitVec.ofInt_natCast, BitVec.toNat_ofNat, Nat.mod_eq_of_lt (by omega)]

theorem host_of_packBucket (h : HostFits host) (b : BucketFits bucket) :
    (packBucket host bucket).sshiftRight timeBits = BitVec.ofInt 64 host := by
  obtain ⟨low, high⟩ := h
  obtain ⟨low', high'⟩ := b
  lift host to ℕ using low
  lift bucket to ℕ using low'
  have value : (packBucket host bucket).toNat = host * 2 ^ 32 + bucket :=
    packBucket_toNat (by omega) (by omega)
  apply BitVec.eq_of_toNat_eq
  rw [show timeBits = 32 from rfl, sshiftRight_toNat value (by omega), BitVec.ofInt_natCast,
    BitVec.toNat_ofNat, Nat.mod_eq_of_lt (by omega)]
  omega

theorem packBucket_lt (h : HostFits host) (b : BucketFits bucket) (h' : HostFits host')
    (b' : BucketFits bucket') :
    (packBucket host bucket).toInt < (packBucket host' bucket').toInt ↔
      host < host' ∨ host = host' ∧ bucket < bucket' := by
  obtain ⟨low, high⟩ := b
  obtain ⟨low', high'⟩ := b'
  rw [packBucket_toInt h ⟨low, high⟩, packBucket_toInt h' ⟨low', high'⟩]
  omega

theorem packBucket_inj (h : HostFits host) (b : BucketFits bucket) (h' : HostFits host')
    (b' : BucketFits bucket') :
    packBucket host bucket = packBucket host' bucket' ↔ host = host' ∧ bucket = bucket' := by
  constructor
  · intro same
    have equal := congrArg BitVec.toInt same
    rw [packBucket_toInt h b, packBucket_toInt h' b'] at equal
    obtain ⟨low, high⟩ := b
    obtain ⟨low', high'⟩ := b'
    omega
  · intro same
    rw [same.1, same.2]

theorem distinctSorted_ordered (l : List ℤ) : (distinctSorted l).Pairwise (· < ·) := by
  have sorted := List.pairwise_insertionSort (fun a b : ℤ => a ≤ b) l.dedup
  have distinct : (distinctSorted l).Nodup :=
    ((List.perm_insertionSort _ l.dedup).nodup_iff).mpr (List.nodup_dedup l)
  exact (sorted.and distinct).imp fun both => lt_of_le_of_ne both.1 both.2

theorem mem_distinctSorted {l : List ℤ} {n : ℤ} : n ∈ distinctSorted l ↔ n ∈ l := by
  rw [distinctSorted, List.mem_insertionSort, List.mem_dedup]

theorem eq_npUnique {keys taken : List (BitVec 64)}
    (ordered : keys.Pairwise fun a b => a.toInt < b.toInt)
    (same : ∀ k, k ∈ keys ↔ k ∈ taken) : npUnique taken = keys := by
  have distinct : keys.Nodup :=
    ordered.imp fun lt equal => absurd (congrArg BitVec.toInt equal) (Int.ne_of_lt lt)
  have perm : (npUnique taken).Perm keys :=
    (List.perm_ext_iff_of_nodup (taken_nodup taken) distinct).mpr fun k =>
      mem_npUnique.trans (same k).symm
  exact perm.eq_of_pairwise (fun a b _ _ lt gt => absurd (lt.trans gt) (lt_irrefl _))
    (npUnique_ordered taken) ordered

end Keys

section Kept

variable {ι : Type*} {host : BitVec 64} {count : BitVec 64 → Nat}

def keptFrom (count : BitVec 64 → Nat) (before : BitVec 64) :
    List (BitVec 64 × Exact) → List (BitVec 64 × Exact)
  | [] => []
  | cell :: rest =>
    if cell.1 ≠ before ∧ 1 < count cell.1 then keptFrom count cell.1 rest
    else cell :: keptFrom count cell.1 rest

theorem keep_eq_keptFrom (before : BitVec 64) (cells : List (BitVec 64 × Exact)) :
    ((cells.zip (List.zipWith (fun first host => !(first && decide (1 < count host)))
        (List.zipWith (fun before host => decide (host ≠ before))
          (before :: cells.map Prod.fst) (cells.map Prod.fst))
        (cells.map Prod.fst))).filter Prod.snd).map Prod.fst = keptFrom count before cells := by
  induction cells generalizing before with
  | nil => rfl
  | cons cell rest ih =>
    have later := ih cell.1
    rw [List.map_cons, List.zipWith_cons_cons, List.zipWith_cons_cons, List.zip_cons_cons,
      List.filter_cons, keptFrom]
    by_cases dropped : cell.1 ≠ before ∧ 1 < count cell.1
    · have off : (!(decide (cell.1 ≠ before) && decide (1 < count cell.1))) = false := by
        simp [dropped.1, dropped.2]
      simp only [off, if_pos dropped, Bool.false_eq_true, if_false]
      exact later
    · have kept : (!(decide (cell.1 ≠ before) && decide (1 < count cell.1))) = true := by
        rw [Bool.not_eq_true', ← Bool.decide_and, decide_eq_false_iff_not]
        exact dropped
      simp only [kept, if_neg dropped, if_true, List.map_cons]
      rw [later]

theorem hostStarts_eq {before : BitVec 64} {hosts : List (BitVec 64)} (some_host : hosts ≠ [])
    (fresh : before ∉ hosts) :
    hostStarts hosts =
      List.zipWith (fun before host => decide (host ≠ before)) (before :: hosts) hosts := by
  cases hosts with
  | nil => exact absurd rfl some_host
  | cons first rest =>
    have other : first ≠ before := fun same => fresh (same ▸ (.head _))
    rw [hostStarts, List.zipWith_cons_cons, decide_eq_true other]
    rfl

theorem keptFrom_same (vals : List Exact) (rest : List (BitVec 64 × Exact)) :
    keptFrom count host (vals.map (fun v => (host, v)) ++ rest) =
      vals.map (fun v => (host, v)) ++ keptFrom count host rest := by
  induction vals with
  | nil => rfl
  | cons v vals ih =>
    rw [List.map_cons, List.cons_append, keptFrom, if_neg fun dropped => dropped.1 rfl, ih]
    rfl

theorem keptFrom_blocks {code : ι → BitVec 64} {vals : ι → List Exact} {l : List ι}
    {before : BitVec 64} (distinct : (l.map code).Nodup) (fresh : before ∉ l.map code)
    (filled : ∀ i ∈ l, vals i ≠ [])
    (counted : ∀ i ∈ l, count (code i) = (vals i).length) :
    keptFrom count before (l.flatMap fun i => (vals i).map fun v => (code i, v)) =
      l.flatMap fun i =>
        (if 1 < (vals i).length then (vals i).tail else vals i).map fun v => (code i, v) := by
  induction l generalizing before with
  | nil => rfl
  | cons i l ih =>
    obtain ⟨own, later⟩ := List.nodup_cons.mp distinct
    have rest := ih later own (fun j member => filled j (.tail i member))
      fun j member => counted j (.tail i member)
    have other : code i ≠ before := fun same => fresh (same ▸ (.head _))
    have number := counted i (.head _)
    rw [List.flatMap_cons, List.flatMap_cons]
    cases shape : vals i with
    | nil => exact absurd shape (filled i (.head _))
    | cons v more =>
      rw [shape] at number
      rw [List.map_cons, List.cons_append, keptFrom, number, keptFrom_same, rest]
      by_cases several : 1 < (v :: more).length
      · rw [if_pos ⟨other, several⟩, if_pos several, List.tail_cons]
      · rw [if_neg fun dropped => several dropped.2, if_neg several]
        rfl

end Kept

section Fold

def hostsOf (rows : List TimedValue) : List ℤ := distinctSorted (rows.map TimedValue.hostId)

structure KeysFit (rows : List TimedValue) : Prop where
  hosts : ∀ row ∈ rows, HostFits row.hostId
  buckets : ∀ row ∈ rows, BucketFits row.bucket

variable {rows : List TimedValue} {conv : ℚ} {host bucket : ℤ}

theorem mem_bucketsOf : bucket ∈ distinctSorted ((ofHost rows host).map TimedValue.bucket) ↔
    ∃ row ∈ rows, row.hostId = host ∧ row.bucket = bucket := by
  rw [mem_distinctSorted, List.mem_map]
  constructor
  · intro found
    obtain ⟨row, own, same⟩ := found
    obtain ⟨member, here⟩ := (mem_series TimedValue.hostId).mp own
    exact ⟨row, member, here, same⟩
  · intro found
    obtain ⟨row, member, here, same⟩ := found
    exact ⟨row, (mem_series TimedValue.hostId).mpr ⟨member, here⟩, same⟩

theorem mem_hostsOf : host ∈ hostsOf rows ↔ ∃ row ∈ rows, row.hostId = host := by
  rw [hostsOf, mem_distinctSorted, List.mem_map]

theorem buckets_ne_nil (member : host ∈ hostsOf rows) :
    distinctSorted ((ofHost rows host).map TimedValue.bucket) ≠ [] := by
  obtain ⟨row, inside, same⟩ := mem_hostsOf.mp member
  exact List.ne_nil_of_mem (mem_bucketsOf.mpr ⟨row, inside, same, rfl⟩)

theorem keptBuckets_ne_nil (member : host ∈ hostsOf rows) :
    keptBuckets (ofHost rows host) ≠ [] := by
  unfold keptBuckets
  dsimp only
  split
  · next several =>
      intro empty
      have short := congrArg List.length empty
      rw [List.length_tail, List.length_nil] at short
      omega
  · exact buckets_ne_nil member

theorem cells_hosts {cells : List (BitVec 64 × Exact)} {vals : ℤ → List Exact}
    (blocks : cells = (hostsOf rows).flatMap fun host =>
      (vals host).map fun v => (BitVec.ofInt 64 host, v)) :
    ∀ code ∈ cells.map Prod.fst, ∃ host ∈ hostsOf rows, BitVec.ofInt 64 host = code := by
  intro code inside
  obtain ⟨cell, here, rfl⟩ := List.mem_map.mp inside
  rw [blocks] at here
  obtain ⟨host, member, block⟩ := List.mem_flatMap.mp here
  obtain ⟨v, -, rfl⟩ := List.mem_map.mp block
  exact ⟨host, member, rfl⟩

theorem cells_ne_nil {cells : List (BitVec 64 × Exact)} (filled : ¬rows.isEmpty = true)
    (blocks : cells = (hostsOf rows).flatMap fun host =>
      ((distinctSorted ((ofHost rows host).map TimedValue.bucket)).map
        (bucketMean (ofHost rows host))).map fun v => (BitVec.ofInt 64 host, v)) :
    cells.map Prod.fst ≠ [] := by
  obtain ⟨row, inside⟩ := List.exists_mem_of_ne_nil rows fun empty =>
    filled (List.isEmpty_iff.mpr empty)
  have member : row.hostId ∈ hostsOf rows := mem_hostsOf.mpr ⟨row, inside, rfl⟩
  obtain ⟨bucket, here⟩ := List.exists_mem_of_ne_nil _ (buckets_ne_nil member)
  intro empty
  rw [List.map_eq_nil_iff.mp empty] at blocks
  refine List.ne_nil_of_mem (List.mem_flatMap.mpr ⟨row.hostId, member, List.mem_map_of_mem
    (List.mem_map_of_mem here)⟩) blocks.symm

namespace KeysFit

theorem host_fits (fit : KeysFit rows) (member : host ∈ hostsOf rows) : HostFits host := by
  obtain ⟨row, inside, rfl⟩ := mem_hostsOf.mp member
  exact fit.hosts row inside

theorem bucket_fits (fit : KeysFit rows)
    (member : bucket ∈ distinctSorted ((ofHost rows host).map TimedValue.bucket)) :
    BucketFits bucket := by
  obtain ⟨row, inside, -, rfl⟩ := mem_bucketsOf.mp member
  exact fit.buckets row inside

theorem keys (fit : KeysFit rows) : npUnique (rows.map TimedValue.bucketKey) =
    (hostsOf rows).flatMap fun host =>
      (distinctSorted ((ofHost rows host).map TimedValue.bucket)).map (packBucket host) := by
  apply eq_npUnique
  · rw [List.pairwise_flatMap]
    constructor
    · intro host member
      rw [List.pairwise_map]
      refine (distinctSorted_ordered _).imp_of_mem fun {b b'} here here' lt => ?_
      exact (packBucket_lt (fit.host_fits member) (fit.bucket_fits here) (fit.host_fits member)
        (fit.bucket_fits here')).mpr (.inr ⟨rfl, lt⟩)
    · refine (distinctSorted_ordered _).imp_of_mem fun {h h'} member member' lt => ?_
      intro k inside k' inside'
      obtain ⟨b, here, rfl⟩ := List.mem_map.mp inside
      obtain ⟨b', here', rfl⟩ := List.mem_map.mp inside'
      exact (packBucket_lt (fit.host_fits member) (fit.bucket_fits here) (fit.host_fits member')
        (fit.bucket_fits here')).mpr (.inl lt)
  · intro k
    rw [List.mem_flatMap, List.mem_map]
    constructor
    · intro found
      obtain ⟨host, -, inside⟩ := found
      obtain ⟨b, here, rfl⟩ := List.mem_map.mp inside
      obtain ⟨row, member, rfl, rfl⟩ := mem_bucketsOf.mp here
      exact ⟨row, member, rfl⟩
    · intro found
      obtain ⟨row, member, rfl⟩ := found
      exact ⟨row.hostId, mem_hostsOf.mpr ⟨row, member, rfl⟩,
        List.mem_map_of_mem (mem_bucketsOf.mpr ⟨row, member, rfl, rfl⟩)⟩

theorem rows_of_key (fit : KeysFit rows) (h : HostFits host) (b : BucketFits bucket) :
    series TimedValue.bucketKey (packBucket host bucket) rows =
      series TimedValue.bucket bucket (ofHost rows host) := by
  unfold ofHost series
  rw [List.filter_filter]
  apply List.filter_congr
  intro row member
  rw [← Bool.decide_and, decide_eq_decide]
  exact (packBucket_inj (fit.hosts row member) (fit.buckets row member) h b).trans and_comm

theorem cells (fit : KeysFit rows) :
    ((npUnique (rows.map TimedValue.bucketKey)).map fun key => key.sshiftRight timeBits).zip
        ((npUnique (rows.map TimedValue.bucketKey)).map fun k =>
          Exact.mean ((series TimedValue.bucketKey k rows).map TimedValue.value)) =
      (hostsOf rows).flatMap fun host =>
        ((distinctSorted ((ofHost rows host).map TimedValue.bucket)).map
          (bucketMean (ofHost rows host))).map fun v => (BitVec.ofInt 64 host, v) := by
  rw [List.zip_map', fit.keys, List.map_flatMap]
  apply List.flatMap_congr
  intro host member
  rw [List.map_map, List.map_map]
  apply List.map_congr_left
  intro b here
  have h := fit.host_fits member
  have fits := fit.bucket_fits here
  simp only [comp_apply, host_of_packBucket h fits, fit.rows_of_key h fits, bucketMean]

theorem codes_nodup (fit : KeysFit rows) :
    ((hostsOf rows).map fun host => BitVec.ofInt 64 host).Nodup := by
  refine List.Nodup.map_on ?_ ((distinctSorted_ordered _).imp fun lt => ne_of_lt lt)
  intro h member h' member' same
  rw [← ofInt_host (fit.host_fits member), same, ofInt_host (fit.host_fits member')]

theorem no_negative (fit : KeysFit rows) {codes : List (BitVec 64)}
    (members : ∀ code ∈ codes, ∃ host ∈ hostsOf rows, BitVec.ofInt 64 host = code) :
    ¬(codes.any fun code => decide (code.toInt < 0)) = true := by
  intro negative
  obtain ⟨code, inside, below⟩ := List.any_eq_true.mp negative
  obtain ⟨host, member, rfl⟩ := members code inside
  have below := of_decide_eq_true below
  rw [ofInt_host (fit.host_fits member)] at below
  exact absurd (fit.host_fits member).nonneg (Int.not_le.mpr below)

theorem minus_one_fresh (fit : KeysFit rows) {codes : List (BitVec 64)}
    (members : ∀ code ∈ codes, ∃ host ∈ hostsOf rows, BitVec.ofInt 64 host = code) :
    (-1 : BitVec 64) ∉ codes := by
  intro inside
  apply fit.no_negative members
  exact List.any_eq_true.mpr ⟨-1, inside, by decide⟩

theorem kept (fit : KeysFit rows) (cells : List (BitVec 64 × Exact))
    (blocks : cells = (hostsOf rows).flatMap fun host =>
      ((distinctSorted ((ofHost rows host).map TimedValue.bucket)).map
        (bucketMean (ofHost rows host))).map fun v => (BitVec.ofInt 64 host, v)) :
    keptFrom (fun host => (cells.map Prod.fst).count host) (-1) cells =
      (hostsOf rows).flatMap fun host =>
        ((keptBuckets (ofHost rows host)).map (bucketMean (ofHost rows host))).map
          fun v => (BitVec.ofInt 64 host, v) := by
  have counted : ∀ host ∈ hostsOf rows, (cells.map Prod.fst).count (BitVec.ofInt 64 host) =
      ((distinctSorted ((ofHost rows host).map TimedValue.bucket)).map
        (bucketMean (ofHost rows host))).length := by
    intro host member
    rw [count_eq_series, blocks, series_flatMap Prod.fst fit.codes_nodup _ member, List.length_map]
    intro h _ cell inside
    obtain ⟨v, -, rfl⟩ := List.mem_map.mp inside
    rfl
  have fresh : (-1 : BitVec 64) ∉ (hostsOf rows).map fun host => BitVec.ofInt 64 host :=
    fit.minus_one_fresh fun code inside => List.mem_map.mp inside
  have filled : ∀ host ∈ hostsOf rows,
      (distinctSorted ((ofHost rows host).map TimedValue.bucket)).map
        (bucketMean (ofHost rows host)) ≠ [] :=
    fun host member empty => buckets_ne_nil member (List.map_eq_nil_iff.mp empty)
  have dropped := @keptFrom_blocks _ (fun host => (cells.map Prod.fst).count host) _ _ _ _
    fit.codes_nodup fresh filled counted
  rw [← blocks] at dropped
  rw [dropped]
  apply List.flatMap_congr
  intro host _
  unfold keptBuckets
  dsimp only
  rw [List.length_map]
  split
  · simp only [List.map_tail]
  · rfl

theorem per_host (fit : KeysFit rows) (vals : List TimedValue → List Exact)
    (filled : ∀ host ∈ hostsOf rows, vals (ofHost rows host) ≠ []) :
    keyedMeans ((hostsOf rows).flatMap fun host => (vals (ofHost rows host)).map
        fun v => (BitVec.ofInt 64 host, v)) Prod.fst Prod.snd =
      ((hostsOf rows).map fun host => BitVec.ofInt 64 host,
        (hostsOf rows).map fun host => Exact.mean (vals (ofHost rows host))) := by
  have codes : npUnique (((hostsOf rows).flatMap fun host => (vals (ofHost rows host)).map
      fun v => (BitVec.ofInt 64 host, v)).map Prod.fst) =
      (hostsOf rows).map fun host => BitVec.ofInt 64 host := by
    apply eq_npUnique
    · rw [List.pairwise_map]
      refine (distinctSorted_ordered _).imp_of_mem fun {h h'} member member' lt => ?_
      rwa [ofInt_host (fit.host_fits member), ofInt_host (fit.host_fits member')]
    · intro k
      rw [List.mem_map, List.mem_map]
      constructor
      · intro found
        obtain ⟨host, member, rfl⟩ := found
        obtain ⟨v, inside⟩ := List.exists_mem_of_ne_nil _ (filled host member)
        exact ⟨(_, v), List.mem_flatMap.mpr ⟨host, member, List.mem_map_of_mem inside⟩, rfl⟩
      · intro found
        obtain ⟨cell, inside, rfl⟩ := found
        obtain ⟨host, member, block⟩ := List.mem_flatMap.mp inside
        obtain ⟨v, -, rfl⟩ := List.mem_map.mp block
        exact ⟨host, member, rfl⟩
  rw [keyedMeans_eq, codes, List.map_map]
  refine Prod.ext rfl (List.map_congr_left fun host member => ?_)
  rw [comp_apply, series_flatMap Prod.fst fit.codes_nodup _ member, List.map_map]
  · exact congrArg Exact.mean (List.map_id _)
  · intro h _ cell inside
    obtain ⟨v, -, rfl⟩ := List.mem_map.mp inside
    rfl

end KeysFit

theorem bucketHostMeans_eq (fit : KeysFit rows) (conv : ℚ) : bucketHostMeans rows conv =
    .ok ((hostsOf rows).map fun host => BitVec.ofInt 64 host,
      (hostsOf rows).map fun host => hostMean conv (ofHost rows host)) := by
  unfold bucketHostMeans
  split
  · next empty =>
      rw [List.isEmpty_iff.mp empty]
      rfl
  next filled =>
  rw [keyedMeans_eq]
  dsimp only
  have blocks := fit.cells
  have firsts := List.map_fst_zip
    (show ((npUnique (rows.map TimedValue.bucketKey)).map fun key => key.sshiftRight timeBits).length
      ≤ ((npUnique (rows.map TimedValue.bucketKey)).map fun k => Exact.mean
        ((series TimedValue.bucketKey k rows).map TimedValue.value)).length by
      rw [List.length_map, List.length_map])
  generalize ((npUnique (rows.map TimedValue.bucketKey)).map fun key =>
    key.sshiftRight timeBits).zip ((npUnique (rows.map TimedValue.bucketKey)).map fun k =>
      Exact.mean ((series TimedValue.bucketKey k rows).map TimedValue.value)) = cells
    at blocks firsts ⊢
  have members := cells_hosts blocks
  rw [← firsts, if_neg (fit.no_negative members), hostStarts_eq (cells_ne_nil filled blocks)
    (fit.minus_one_fresh members)]
  have folded : ((cells.zip (List.zipWith
      (fun first host => !(first && decide (1 < (cells.map Prod.fst).count host)))
      (List.zipWith (fun before host => decide (host ≠ before))
        (-1 :: cells.map Prod.fst) (cells.map Prod.fst))
      (cells.map Prod.fst))).filter Prod.snd).map (fun cell => (cell.1.1, cell.1.2.scale conv)) =
      (hostsOf rows).flatMap fun host => ((keptBuckets (ofHost rows host)).map fun bucket =>
        (bucketMean (ofHost rows host) bucket).scale conv).map fun v => (BitVec.ofInt 64 host, v) := by
    have scaled := congrArg (List.map fun cell => (cell.1, cell.2.scale conv))
      ((keep_eq_keptFrom (-1) cells).trans (fit.kept cells blocks))
    rw [List.map_map, List.map_flatMap] at scaled
    refine scaled.trans (List.flatMap_congr fun host _ => ?_)
    simp only [List.map_map, comp_def]
  rw [folded, fit.per_host fun own => (keptBuckets own).map fun bucket =>
    (bucketMean own bucket).scale conv]
  · rfl
  · exact fun host member empty => keptBuckets_ne_nil member (List.map_eq_nil_iff.mp empty)

end Fold

section Numbers

variable {own : List TimedValue} {conv : ℚ} {rows rows' : List TimedValue}

theorem distinctSorted_congr {l l' : List ℤ} (same : ∀ n, n ∈ l ↔ n ∈ l') :
    distinctSorted l = distinctSorted l' := by
  have distinct : ∀ l, (distinctSorted l).Nodup := fun l =>
    (distinctSorted_ordered l).imp fun lt => ne_of_lt lt
  have perm : (distinctSorted l).Perm (distinctSorted l') :=
    (List.perm_ext_iff_of_nodup (distinct l) (distinct l')).mpr fun n =>
      mem_distinctSorted.trans ((same n).trans mem_distinctSorted.symm)
  exact perm.eq_of_pairwise (fun a b _ _ lt gt => absurd (lt.trans gt) (lt_irrefl _))
    (distinctSorted_ordered l) (distinctSorted_ordered l')

theorem hostMean_perm {own' : List TimedValue} (perm : own.Perm own') :
    hostMean conv own = hostMean conv own' := by
  have buckets : keptBuckets own = keptBuckets own' := by
    unfold keptBuckets
    rw [distinctSorted_congr fun n => (perm.map TimedValue.bucket).mem_iff]
  unfold hostMean
  rw [buckets]
  congr 1
  apply List.map_congr_left
  intro bucket _
  have rows : (series TimedValue.bucket bucket own).Perm (series TimedValue.bucket bucket own') :=
    perm.filter _
  unfold bucketMean
  rw [Exact.mean_perm (rows.map TimedValue.value)]

theorem hostsOf_perm (perm : rows.Perm rows') :
    hostsOf rows = hostsOf rows' :=
  distinctSorted_congr fun _ => (perm.map TimedValue.hostId).mem_iff

theorem KeysFit.perm (fit : KeysFit rows)
    (perm : rows.Perm rows') : KeysFit rows' :=
  ⟨fun row member => fit.hosts row (perm.mem_iff.mpr member),
    fun row member => fit.buckets row (perm.mem_iff.mpr member)⟩

theorem mean_numbers {vals : List Exact} (plain : ∀ v ∈ vals, v = .nan ∨ ∃ q, v = .num q) :
    Exact.mean vals = (meanOf (vals.filterMap Exact.number)).elim .nan .num := by
  have there : vals.filter (fun v => !v.isNan) = (vals.filterMap Exact.number).map .num := by
    induction vals with
    | nil => rfl
    | cons v vals ih =>
      have later := ih fun w member => plain w (.tail v member)
      rcases plain v (.head _) with rfl | ⟨q, rfl⟩
      · exact later
      · rw [List.filter_cons, List.filterMap_cons]
        exact congrArg (Exact.num q :: ·) later
  have summed : ∀ (l : List ℚ) (a : ℚ), (l.map Exact.num).foldl Exact.add (.num a) =
      .num (a + l.sum) := by
    intro l
    induction l with
    | nil => simp
    | cons q l ih =>
      intro a
      rw [List.map_cons, List.foldl_cons, List.sum_cons, ← add_assoc]
      exact ih (a + q)
  unfold Exact.mean meanOf
  dsimp only
  rw [there, summed, zero_add, List.length_map, List.isEmpty_map]
  by_cases empty : vals.filterMap Exact.number = []
  · rw [empty]
    rfl
  · rw [if_neg empty, if_neg fun none => empty (List.isEmpty_iff.mp none)]
    rfl

theorem bucketMean_numbers (plain : ∀ row ∈ own, row.value = .nan ∨ ∃ q, row.value = .num q)
    (bucket : ℤ) : bucketMean own bucket =
      (meanOf (numbers (series TimedValue.bucket bucket own))).elim .nan .num := by
  unfold bucketMean numbers
  rw [mean_numbers, List.filterMap_map]
  · rfl
  · intro v member
    obtain ⟨row, inside, rfl⟩ := List.mem_map.mp member
    exact plain row ((mem_series TimedValue.bucket).mp inside).1

theorem meanOf_scaled (l : List ℚ) (conv : ℚ) :
    meanOf (l.map fun q => q * conv) = (meanOf l).map fun q => conv * q := by
  by_cases empty : l = []
  · rw [empty]
    rfl
  · unfold meanOf
    rw [if_neg empty, if_neg fun none => empty (List.map_eq_nil_iff.mp none),
      List.sum_map_mul_right, List.map_id', List.length_map, Option.map_some, mul_div_right_comm,
      mul_comm]

theorem hostMean_numbers (plain : ∀ row ∈ own, row.value = .nan ∨ ∃ q, row.value = .num q) :
    hostMean conv own = fiveMinuteMean conv own := by
  have scaled : ∀ bucket, (bucketMean own bucket).scale conv =
      (meanOf (numbers (series TimedValue.bucket bucket own))).elim .nan
        fun q => .num (q * conv) := by
    intro bucket
    rw [bucketMean_numbers plain]
    cases meanOf (numbers (series TimedValue.bucket bucket own)) <;> rfl
  have found : ((keptBuckets own).map fun bucket => (bucketMean own bucket).scale conv).filterMap
      Exact.number = ((keptBuckets own).filterMap fun bucket =>
        meanOf (numbers (series TimedValue.bucket bucket own))).map fun q => q * conv := by
    rw [List.filterMap_map, List.map_filterMap]
    apply List.filterMap_congr
    intro bucket _
    rw [comp_apply, scaled]
    cases meanOf (numbers (series TimedValue.bucket bucket own)) <;> rfl
  unfold hostMean fiveMinuteMean
  rw [mean_numbers, found, meanOf_scaled]
  · dsimp only
    rw [Option.elim_map]
    rfl
  · intro v member
    obtain ⟨bucket, -, rfl⟩ := List.mem_map.mp member
    rw [scaled]
    cases meanOf (numbers (series TimedValue.bucket bucket own)) with
    | none => exact .inl rfl
    | some q => exact .inr ⟨_, rfl⟩

/-- The five-minute fold: an entry for each host that has a row, in the order of the hosts, made of
that host's rows alone and in no order. -/
theorem bucket_host_means_folded (rows : List TimedValue) (conv : ℚ) (fit : KeysFit rows) :
    bucketHostMeans rows conv = .ok ((hostsOf rows).map fun host => BitVec.ofInt 64 host,
      (hostsOf rows).map fun host => hostMean conv (ofHost rows host)) ∧
    (hostsOf rows).Pairwise (· < ·) ∧
    (∀ host, host ∈ hostsOf rows ↔ ∃ row ∈ rows, row.hostId = host) ∧
    (∀ own : List TimedValue, (∀ row ∈ own, row.value = .nan ∨ ∃ q, row.value = .num q) →
      hostMean conv own = fiveMinuteMean conv own) ∧
    (∀ own own' : List TimedValue, own.Perm own' → hostMean conv own = hostMean conv own') ∧
    ∀ rows', rows.Perm rows' → bucketHostMeans rows' conv = bucketHostMeans rows conv := by
  refine ⟨bucketHostMeans_eq fit conv, distinctSorted_ordered _, fun host => mem_hostsOf,
    fun own => hostMean_numbers, fun own own' => hostMean_perm, fun rows' perm => ?_⟩
  rw [bucketHostMeans_eq fit, bucketHostMeans_eq (fit.perm perm), hostsOf_perm perm]
  have means : ∀ host, hostMean conv (ofHost rows' host) = hostMean conv (ofHost rows host) :=
    fun host => hostMean_perm (perm.symm.filter _)
  simp only [means]

def foldRows : List TimedValue :=
  [⟨7, 10, .num 7⟩, ⟨2, 300000000, .nan⟩, ⟨2, 0, .num 1⟩, ⟨2, 600000000, .num 10⟩,
    ⟨2, 600000001, .num 20⟩]

theorem gap_folded : bucketHostMeans foldRows 2 = .ok ([2, 7], [.num 30, .num 14]) := by
  have fit : KeysFit foldRows := by
    constructor
    · intro row member
      fin_cases member <;> exact ⟨by decide, by decide⟩
    · intro row member
      fin_cases member <;> exact ⟨by decide, by decide⟩
  rw [(bucket_host_means_folded foldRows 2 fit).1]
  decide +kernel

/-- A time whose bucket does not fit in its bits is read as another host, and a host that does not
fit in its own as a negative one. -/
theorem late_row_moves :
    bucketHostMeans [⟨0, 2 ^ 32 * fiveMinUs, .num 1⟩] 1 = .ok ([1], [.num 1]) ∧
      hostsOf [⟨0, 2 ^ 32 * fiveMinUs, .num 1⟩] = [0] ∧
      bucketHostMeans [⟨2 ^ 31, 0, .num 1⟩] 1 = .error negativeMinlength := by decide +kernel

end Numbers

end PerfStats.Metrics
