import PerfStats.Metrics.NamedAnswers

namespace PerfStats.Metrics

open Lib

section Agreement

def Agrees {α β : Type*} (same : α → β → Prop) : Except String α → Except String β → Prop
  | .ok a, .ok b => same a b
  | .error e, .error e' => e = e'
  | _, _ => False

variable {index index' : FrameIndex}

structure SameByName (index index' : FrameIndex) : Prop where
  series : index.frame.series = index'.frame.series
  rows : (index.frame.rows.map index.frame.named).Perm (index'.frame.rows.map index'.frame.named)
  shared : index.shared = index'.shared
  residualTypes : index.residualTypes = index'.residualTypes
  gpu : index.gpuAffinityDevs = index'.gpuAffinityDevs
  first : index.frame.devs[0]? = some ""
  first' : index'.frame.devs[0]? = some ""
  few : index.frame.hosts.length ≤ 2 ^ 16
  few' : index'.frame.hosts.length ≤ 2 ^ 16

namespace SameByName

variable (same : SameByName index index')

include same

theorem hostWide (typ : String) : index.hostWide typ = index'.hostWide typ := by
  unfold FrameIndex.hostWide
  rw [same.series, same.shared, same.residualTypes]

theorem query (options : SumOptions) (col : ValueColumn) (typ : String)
    (events : Option (List String)) :
    index.query options col typ events = index'.query options col typ events := by
  unfold FrameIndex.query
  rw [same.hostWide, same.gpu, same.series]

theorem hostTimeKeys_agree : Agrees
    (fun keys keys' => (keys.map index.frame.nameSample).Perm (keys'.map index'.frame.nameSample))
    (hostTimeKeys index) (hostTimeKeys index') := by
  obtain ⟨keys, made, distinct, members⟩ := hostTimeKeys_named same.few
  obtain ⟨keys', made', distinct', members'⟩ := hostTimeKeys_named same.few'
  rw [made, made']
  refine (List.perm_ext_iff_of_nodup distinct distinct').mpr fun key => ?_
  rw [members, members']
  exact exists_congr fun row => and_congr_left fun _ => same.rows.mem_iff

theorem sums_agree {options : SumOptions} {col : ValueColumn} {typ : String}
    {events : Option (List String)} (hosts : index.frame.hosts.length < 2 ^ 15)
    (hosts' : index'.frame.hosts.length < 2 ^ 15)
    (devices : options.byDev = true → index.frame.devs.length ≤ 2 ^ 15)
    (devices' : options.byDev = true → index'.frame.devs.length ≤ 2 ^ 15)
    (hardware : (index.query options col typ events).NoListedCopy
      (index.frame.rows.map index.frame.named)) :
    Agrees (fun table table' =>
        (table.map index.frame.nameSum).Perm (table'.map index'.frame.nameSum))
      (sumPerSample index options col typ events) (sumPerSample index' options col typ events) := by
  have one := same.query options col typ events
  have hardware' : (index'.query options col typ events).NoListedCopy
      (index'.frame.rows.map index'.frame.named) := by
    rw [← one]
    intro orm filtered row member
    exact hardware orm filtered row (same.rows.mem_iff.mpr member)
  obtain ⟨right, wrong⟩ := sumPerSample_named hosts same.first devices hardware
  obtain ⟨right', wrong'⟩ := sumPerSample_named hosts' same.first' devices' hardware'
  rw [← one, ← fits_perm same.rows] at right' wrong'
  by_cases fits : (index.query options col typ events).Fits (index.frame.rows.map index.frame.named)
  · obtain ⟨table, made, distinct, members⟩ := right fits
    obtain ⟨table', made', distinct', members'⟩ := right' fits
    rw [made, made']
    refine (List.perm_ext_iff_of_nodup distinct distinct').mpr fun entry => ?_
    rw [members, members']
    exact ⟨answers_perm same.rows, answers_perm same.rows.symm⟩
  · rw [wrong fits, wrong' fits]
    rfl

theorem seriesDelta_agree (typ : String) (sid : Nat) :
    seriesDelta index typ sid = seriesDelta index' typ sid := by
  have scopes : ∀ wide, (namedScope wide index.frame.series[sid]?
      (index.frame.rows.map index.frame.named)).Perm (namedScope wide index'.frame.series[sid]?
        (index'.frame.rows.map index'.frame.named)) := by
    intro wide
    rw [← same.series]
    exact same.rows.filter _
  cases wide : index.hostWide typ with
  | true =>
    obtain ⟨entries, made, distinct, members⟩ := seriesDelta_named same.few wide sid
    obtain ⟨entries', made', distinct', members'⟩ := seriesDelta_named same.few'
      ((same.hostWide typ).symm.trans wide) sid
    have perm : entries.Perm entries' := by
      refine (List.perm_ext_iff_of_nodup distinct distinct').mpr fun entry => ?_
      rw [members, members', reducedCopies_perm ((scopes true).filter _)]
    rw [made, made', sumOfSome_perm (perm.map Prod.snd)]
  | false =>
    have narrow' := (same.hostWide typ).symm.trans wide
    have deltas : ∀ i : FrameIndex, i.hostWide typ = false →
        ((i.seriesScope typ sid).filter fun row => saneDelta row.delta).map FrameRow.delta =
          ((namedScope false i.frame.series[sid]? (i.frame.rows.map i.frame.named)).filter
            fun row => saneDelta row.delta).map NamedRow.delta := by
      intro i narrow
      rw [← narrow, ← seriesScope_named, ← map_filter_named (fun _ _ => rfl), List.map_map]
      rfl
    rw [seriesDelta_plain wide, seriesDelta_plain narrow', deltas index wide,
      deltas index' narrow', sumOfSome_perm (((scopes false).filter _).map _)]

theorem deltas_agree (typ : String) (events : List String) :
    deltaSumByEvent index typ events = deltaSumByEvent index' typ events := by
  unfold deltaSumByEvent JobFrame.seriesIds
  rw [same.series]
  congr 1
  funext out sid
  rw [same.seriesDelta_agree]

end SameByName

end Agreement

section Fetched

def hostCount (rows : List (DecodedRow Str)) : Nat := (rows.map DecodedRow.hostId).dedup.length

def timeCount (rows : List (DecodedRow Str)) : Nat := (rows.map DecodedRow.timeUs).dedup.length

def deviceCount (rows : List (DecodedRow Str)) : Nat :=
  ([] :: rows.map DecodedRow.devId).dedup.length

structure AnswerAlike (rows : List (DecodedRow Str)) (index index' : FrameIndex) : Prop where
  samples : Agrees
    (fun keys keys' => (keys.map index.frame.nameSample).Perm (keys'.map index'.frame.nameSample))
    (hostTimeKeys index) (hostTimeKeys index')
  sums : ∀ options col typ events, hostCount rows < 2 ^ 15 →
    (options.byDev = true → deviceCount rows ≤ 2 ^ 15) →
    (index.query options col typ events).NoListedCopy (rows.map DecodedRow.named) →
    Agrees (fun table table' =>
        (table.map index.frame.nameSum).Perm (table'.map index'.frame.nameSum))
      (sumPerSample index options col typ events) (sumPerSample index' options col typ events)
  deltas : ∀ typ events,
    deltaSumByEvent index typ events = deltaSumByEvent index' typ events

/-- However rows are split and ordered, the frames pass their contract with the rows given; where
the keys fit, they answer alike. -/
theorem fetch_order_free (unset unset' : Nat → Nat) (chunks chunks' : List (List (DecodedRow Str)))
    (same : chunks.flatten.Perm chunks'.flatten) :
    ∃ data data', frameFromChunks unset chunks = some data ∧
      frameFromChunks unset' chunks' = some data' ∧
      checkContract data = .ok () ∧ checkContract data' = .ok () ∧
      data.series = data'.series ∧
      (data.rows.map data.named).Perm (chunks.flatten.map DecodedRow.named) ∧
      (data'.rows.map data'.named).Perm (chunks.flatten.map DecodedRow.named) ∧
      (hostCount chunks.flatten ≤ 2 ^ 16 → timeCount chunks.flatten ≤ 2 ^ 31 →
        ∃ frame frame' : JobFrame, frame.data = data ∧ frame'.data = data' ∧
          ∀ shared residualTypes gpu,
            AnswerAlike chunks.flatten ⟨frame, shared, residualTypes, gpu⟩
              ⟨frame', shared, residualTypes, gpu⟩) := by
  obtain ⟨data, _, built, placed⟩ := frameFromChunks_placed unset chunks
  obtain ⟨data', _, built', placed'⟩ := frameFromChunks_placed unset' chunks'
  have series : data.series = data'.series := by
    rw [placed.series, placed'.series, seriesOf_perm same]
  have named' : (data'.rows.map data'.named).Perm (chunks.flatten.map DecodedRow.named) :=
    placed'.named.trans (same.symm.map _)
  refine ⟨data, data', built, built', placed.checked, placed'.checked, series, placed.named,
    named', ?_⟩
  intro few_hosts few_times
  obtain ⟨frame, is_data⟩ := placed.frame (by rw [placed.times_length]; exact few_times)
  obtain ⟨frame', is_data'⟩ := placed'.frame (by
    rw [placed'.times_length, ← (same.map DecodedRow.timeUs).dedup.length_eq]
    exact few_times)
  refine ⟨frame, frame', is_data, is_data', ?_⟩
  subst is_data is_data'
  have hosts : frame.hosts.length = hostCount chunks.flatten := placed.hosts_length
  have hosts' : frame'.hosts.length = hostCount chunks.flatten := by
    unfold hostCount
    rw [(same.map DecodedRow.hostId).dedup.length_eq]
    exact placed'.hosts_length
  intro shared residualTypes gpu
  have both : SameByName ⟨frame, shared, residualTypes, gpu⟩
      ⟨frame', shared, residualTypes, gpu⟩ := {
    series := series
    rows := placed.named.trans named'.symm
    shared := rfl
    residualTypes := rfl
    gpu := rfl
    first := placed.firstDev
    first' := placed'.firstDev
    few := hosts.trans_le few_hosts
    few' := hosts'.trans_le few_hosts }
  refine ⟨both.hostTimeKeys_agree, ?_, both.deltas_agree⟩
  intro options col typ events fewer devices hardware
  refine both.sums_agree (hosts.trans_lt fewer) (hosts'.trans_lt fewer) ?_ ?_ ?_
  · intro by_dev
    exact le_of_eq_of_le placed.devs_length (devices by_dev)
  · intro by_dev
    refine le_of_eq_of_le placed'.devs_length ?_
    rw [← ((same.map DecodedRow.devId).cons []).dedup.length_eq]
    exact devices by_dev
  · intro orm filtered row member
    exact hardware orm filtered row (placed.named.mem_iff.mp member)

end Fetched

section Runs

def unitRow (host typ dev : String) : DecodedRow Str :=
  ⟨5, host.toList, typ.toList, lit "busy", dev.toList, true, none, some 0x3f800000, none⟩

def grantedRow : DecodedRow Str := unitRow "n0" "gpu" "g1"

def copiedRow : DecodedRow Str := unitRow "n1" "gpu" "j:42"

theorem two_orders_answer_alike :
    ∃ data data', frameFromChunks (fun _ => 7) [[grantedRow], [copiedRow]] = some data ∧
      frameFromChunks (fun _ => 8) [[copiedRow], [grantedRow]] = some data' ∧
      checkContract data = .ok () ∧ checkContract data' = .ok () ∧
      data.series = data'.series ∧
      (data.rows.map data.named).Perm ([grantedRow, copiedRow].map DecodedRow.named) ∧
      (data'.rows.map data'.named).Perm ([grantedRow, copiedRow].map DecodedRow.named) ∧
      ∃ frame frame' : JobFrame,
        frame.data = data ∧ frame'.data = data' ∧ ∀ shared residualTypes gpu,
          AnswerAlike [grantedRow, copiedRow] ⟨frame, shared, residualTypes, gpu⟩
            ⟨frame', shared, residualTypes, gpu⟩ := by
  obtain ⟨data, data', built, built', checked, checked', series, rows, rows', alike⟩ :=
    fetch_order_free (fun _ => 7) (fun _ => 8) [[grantedRow], [copiedRow]]
      [[copiedRow], [grantedRow]] (List.Perm.swap _ _ _)
  exact ⟨data, data', built, built', checked, checked', series, rows, rows',
    alike (by decide +kernel) (by decide +kernel)⟩

def grantedFirst : JobFrame where
  rows := [⟨5, 0, 0, 1, true, .nan, .num 1, .nan⟩, ⟨5, 1, 0, -2, true, .nan, .num 1, .nan⟩]
  hosts := ["n0", "n1"]
  series := [("gpu", "busy")]
  devs := ["", "g1", "j:42"]
  sorted := by decide +kernel
  seriesIn := by decide +kernel
  hostIn := by decide +kernel
  devIn := by decide +kernel
  seriesOnce := by decide +kernel
  hostsOnce := by decide +kernel
  devsOnce := by decide +kernel
  timesFit := by decide +kernel

def copiedFirst : JobFrame where
  rows := [⟨5, 0, 0, -1, true, .nan, .num 1, .nan⟩, ⟨5, 1, 0, 2, true, .nan, .num 1, .nan⟩]
  hosts := ["n1", "n0"]
  series := [("gpu", "busy")]
  devs := ["", "j:42", "g1"]
  sorted := by decide +kernel
  seriesIn := by decide +kernel
  hostIn := by decide +kernel
  devIn := by decide +kernel
  seriesOnce := by decide +kernel
  hostsOnce := by decide +kernel
  devsOnce := by decide +kernel
  timesFit := by decide +kernel

def listedHosts : GpuAffinity := .byHost [("n0", ["g1"]), ("n1", [])]

theorem granted_first_fetched :
    frameFromChunks (fun _ => 7) [[grantedRow], [copiedRow]] = some grantedFirst.data := by
  decide +kernel

theorem copied_first_fetched :
    frameFromChunks (fun _ => 7) [[copiedRow], [grantedRow]] = some copiedFirst.data := by
  decide +kernel

theorem device_of_last {rows : List (DecodedRow Str)} {row : DecodedRow Str}
    (new : row.devId ∉ [] :: rows.map DecodedRow.devId)
    (hardware : ¬ jobDevPrefix <+: row.devId) :
    (codeRow (fetchedNames [rows, [row]]) row).devId =
      ([] :: rows.map DecodedRow.devId).dedup.length := by
  have in_order : [rows, [row]].flatten.flatMap DecodedRow.keys =
      (rows.flatMap DecodedRow.keys ++
        [(.host, row.hostId), (.type, row.typeId), (.event, row.eventId)]) ++
          [(.dev, row.devId)] := by
    simp [DecodedRow.keys]
  generalize earlier : rows.flatMap DecodedRow.keys ++
    [(.host, row.hostId), (.type, row.typeId), (.event, row.eventId)] = keys at in_order
  generalize before_is : nameInterner.internAll .fresh keys = before
  have settled : before.Settled := by
    rw [← before_is]
    exact NameInterner.internAll_settled NameInterner.fresh_settled keys
  have names : ∀ name, name ∈ before.names .dev ↔ name ∈ [] :: rows.map DecodedRow.devId := by
    intro name
    have first : name ∈ NameInterner.fresh.names .dev ↔ name = [] := List.mem_singleton
    rw [← before_is, NameInterner.mem_names_internAll, ← earlier, first]
    simp only [List.mem_append, List.mem_flatMap, List.mem_cons, List.not_mem_nil, or_false,
      Prod.mk.injEq, List.mem_map, mem_keys, reduceCtorEq, false_and]
    rw [or_comm]
    simp only [eq_comm]
  have count : (before.names .dev).length = ([] :: rows.map DecodedRow.devId).dedup.length := by
    refine List.Perm.length_eq ?_
    rw [List.perm_ext_iff_of_nodup (before.names_nodup settled) (List.nodup_dedup _)]
    intro name
    rw [names, List.mem_dedup]
  have numbered : (before.intern (.dev, row.devId)).1 = (before.names .dev).length := by
    have code := NameTable.intern_new ((names _).not.mpr new)
    exact code.trans (if_neg hardware)
  have given := nameInterner.assigned before (.dev, row.devId)
  have state : fetchedNames [rows, [row]] = (nameInterner.intern before (.dev, row.devId)).2 := by
    unfold fetchedNames
    rw [in_order, nameInterner.internAll_concat, before_is]
  unfold codeRow DecodedRow.map
  rw [state, ← count, ← numbered]
  exact congrArg (Option.getD · 0) given

def otherRows (count : Nat) : List (DecodedRow Str) :=
  (List.range count).map fun n => unitRow "n0" "ib" (strokes (n + 1))

theorem otherRows_devices (count : Nat) :
    ([] :: (otherRows count).map DecodedRow.devId).Nodup := by
  have devs : (otherRows count).map DecodedRow.devId =
      (List.range count).map fun n => List.replicate (n + 1) 'x' := by
    unfold otherRows
    rw [List.map_map]
    exact List.map_congr_left fun n _ => String.toList_ofList
  rw [devs]
  refine List.nodup_cons.mpr ⟨?_, List.nodup_range.map ?_⟩
  · intro empty
    obtain ⟨n, _, same⟩ := List.mem_map.mp empty
    cases same
  · intro n m same
    have sizes := congrArg List.length same
    rw [List.length_replicate, List.length_replicate] at sizes
    exact Nat.succ.inj sizes

theorem granted_new (count : Nat) :
    grantedRow.devId ∉ [] :: (otherRows count).map DecodedRow.devId := by
  intro found
  obtain empty | inside := List.mem_cons.mp found
  · exact absurd empty (by decide)
  · obtain ⟨row, member, same⟩ := List.mem_map.mp inside
    obtain ⟨n, _, rfl⟩ := List.mem_map.mp member
    have texts : List.replicate (n + 1) 'x' = lit "g1" := (String.toList_ofList).symm.trans same
    have head := congrArg List.head? texts
    rw [List.replicate_succ, List.head?_cons] at head
    exact absurd head (by decide)

theorem granted_devices (count : Nat) :
    (codeRow (fetchedNames [[grantedRow], otherRows count]) grantedRow).devId = 1 ∧
      (codeRow (fetchedNames [otherRows count, [grantedRow]]) grantedRow).devId = count + 1 := by
  constructor
  · have early : nameInterner.ident (nameInterner.internAll .fresh grantedRow.keys)
        (.dev, grantedRow.devId) = some 1 := by decide +kernel
    have kept := nameInterner.kept_all ((otherRows count).flatMap DecodedRow.keys) early
    have state : fetchedNames [[grantedRow], otherRows count] = nameInterner.internAll
        (nameInterner.internAll .fresh grantedRow.keys)
          ((otherRows count).flatMap DecodedRow.keys) := by
      unfold fetchedNames
      rw [← nameInterner.internAll_append]
      simp
    rw [state]
    exact congrArg (Option.getD · 0) kept
  · rw [device_of_last (granted_new count) (by decide), (otherRows_devices count).dedup,
      List.length_cons, List.length_map, otherRows, List.length_map, List.length_range]
    rfl

theorem dedup_of_constant {α : Type*} [DecidableEq α] {l : List α} {a : α}
    (all : ∀ x ∈ l, x = a) : l.dedup.length ≤ 1 := by
  have one : l.dedup ⊆ [a] := fun x member =>
    List.mem_singleton.mpr (all x (List.mem_dedup.mp member))
  exact ((List.nodup_dedup l).subperm one).length_le

variable {rows : List (DecodedRow Str)} {place : DecodedRow Str → FrameRow} {frame : JobFrame}

theorem mem_gpuSample (placed : Placed rows frame.data place) {row : FrameRow} :
    row ∈ sampleRows ⟨frame, false, [], none⟩ { byDev := true } .arc "gpu" none ↔
      ∃ given ∈ rows, place given = row ∧ given.typeId = lit "gpu" ∧ given.owned = true := by
  have kept : ∀ given ∈ rows, (frame.selects "gpu" none (place given) = true ↔
      given.typeId = lit "gpu") := by
    intro given member
    have series : frame.series[(place given).seriesId]? = some (namedPair given.pair) :=
      placed.seriesNamed member
    unfold JobFrame.selects
    rw [series]
    show (String.ofList given.typeId == "gpu" && true) = true ↔ _
    rw [Bool.and_true, beq_iff_eq]
    exact ⟨fun same => String.ofList_injective (same.trans String.ofList_toList.symm),
      fun same => by rw [same]; exact String.ofList_toList⟩
  unfold sampleRows FrameIndex.scope FrameIndex.hostWide passesFilters
  simp only [Bool.and_false, Bool.false_and, Bool.false_or, decide_true, Bool.true_or,
    List.filter_true, List.mem_filter, Bool.and_eq_true]
  constructor
  · intro found
    obtain ⟨member, selected, owned⟩ := found
    obtain ⟨given, inside, rfl⟩ := placed.of_rows member
    exact ⟨given, inside, rfl, (kept given inside).mp selected,
      (placed.others given).2.1.symm.trans owned⟩
  · intro found
    obtain ⟨given, inside, rfl, typ, owned⟩ := found
    exact ⟨placed.perm.mem_iff.mpr (List.mem_map_of_mem inside), (kept given inside).mpr typ,
      (placed.others given).2.1.trans owned⟩

theorem fetched_at_once {chunks : List (List (DecodedRow Str))}
    (all : ∀ row ∈ chunks.flatten, row.hostId = lit "n0" ∧ row.timeUs = 5) :
    ∃ frame : JobFrame, ∃ sid : DecodedRow Str → Nat,
      frameFromChunks (fun _ => 7) chunks = some frame.data ∧ frame.hosts.length < 2 ^ 15 ∧
      Placed chunks.flatten frame.data fun row =>
        frameRow (codeRow (fetchedNames chunks) row) (sid row) := by
  obtain ⟨data, sid, built, placed⟩ := frameFromChunks_placed (fun _ => 7) chunks
  have hosts : (chunks.flatten.map DecodedRow.hostId).dedup.length ≤ 1 := by
    apply dedup_of_constant
    intro host member
    obtain ⟨row, inside, rfl⟩ := List.mem_map.mp member
    exact (all row inside).1
  have times : (chunks.flatten.map DecodedRow.timeUs).dedup.length ≤ 1 := by
    apply dedup_of_constant
    intro time member
    obtain ⟨row, inside, rfl⟩ := List.mem_map.mp member
    exact (all row inside).2
  obtain ⟨frame, rfl⟩ := placed.frame (by
    rw [placed.times_length]
    exact times.trans (by decide))
  refine ⟨frame, sid, built, ?_, placed⟩
  exact lt_of_eq_of_lt placed.hosts_length (lt_of_le_of_lt hosts (by decide))

theorem mem_otherRows {count : Nat} {row : DecodedRow Str} (member : row ∈ otherRows count) :
    row.typeId = lit "ib" ∧ row.hostId = lit "n0" ∧ row.timeUs = 5 := by
  obtain ⟨n, _, rfl⟩ := List.mem_map.mp member
  exact ⟨rfl, rfl, rfl⟩

theorem device_beyond_bits {count : Nat} (large : 2 ^ 15 ≤ count + 1) :
    ∃ frame frame' : JobFrame,
      frameFromChunks (fun _ => 7) [[grantedRow], otherRows count] = some frame.data ∧
      frameFromChunks (fun _ => 7) [otherRows count, [grantedRow]] = some frame'.data ∧
      (∃ table, sumPerSample ⟨frame, false, [], none⟩ { byDev := true } .arc "gpu" none =
        .ok table) ∧
      sumPerSample ⟨frame', false, [], none⟩ { byDev := true } .arc "gpu" none =
        .error outOfRange := by
  obtain ⟨first, last⟩ := granted_devices count
  have members : ∀ row ∈ [[grantedRow], otherRows count].flatten,
      row = grantedRow ∨ row ∈ otherRows count := by
    intro row member
    simpa using member
  have members' : ∀ row ∈ [otherRows count, [grantedRow]].flatten,
      row = grantedRow ∨ row ∈ otherRows count := by
    intro row member
    simpa [or_comm] using member
  have constant : ∀ row, row = grantedRow ∨ row ∈ otherRows count →
      row.hostId = lit "n0" ∧ row.timeUs = 5 := by
    intro row either
    obtain rfl | other := either
    · exact ⟨rfl, rfl⟩
    · exact (mem_otherRows other).2
  obtain ⟨frame, sid, built, few, placed⟩ := fetched_at_once fun row member =>
    constant row (members row member)
  obtain ⟨frame', sid', built', few', placed'⟩ := fetched_at_once fun row member =>
    constant row (members' row member)
  refine ⟨frame, frame', built, built', ?_, ?_⟩
  · have fits : PartsFit ⟨frame, false, [], none⟩ { byDev := true } "gpu"
        (sampleRows ⟨frame, false, [], none⟩ { byDev := true } .arc "gpu" none) := by
      intro row member
      obtain ⟨given, inside, rfl, typ, _⟩ := (mem_gpuSample placed).mp member
      obtain rfl | other := members given inside
      · show -2 ^ 15 ≤ (codeRow _ grantedRow).devId ∧ (codeRow _ grantedRow).devId < 2 ^ 15
        rw [first]
        decide
      · exact absurd ((mem_otherRows other).1.symm.trans typ) (by decide)
    obtain ⟨table, made, _⟩ := (sum_per_sample_right ⟨frame, false, [], none⟩ { byDev := true } .arc
      "gpu" none few (fun orm => SampleMode.noConfusion orm)).1 fits
    exact ⟨table, made⟩
  · refine (sum_per_sample_right ⟨frame', false, [], none⟩ { byDev := true } .arc "gpu" none few'
      (fun orm => SampleMode.noConfusion orm)).2 ?_
    intro fits
    have own := fits _ ((mem_gpuSample placed').mpr ⟨grantedRow, by simp, rfl, rfl, rfl⟩)
    have small : (codeRow (fetchedNames [otherRows count, [grantedRow]]) grantedRow).devId <
      2 ^ 15 := own.2
    omega

/-- The order of rows is in a sum by device where a device is beyond its bits, and in one with the
device filter where a copy is on a listed host. -/
theorem fetch_order_shows :
    (∃ frame frame' : JobFrame,
      frameFromChunks (fun _ => 7) [[grantedRow], otherRows 32767] = some frame.data ∧
      frameFromChunks (fun _ => 7) [otherRows 32767, [grantedRow]] = some frame'.data ∧
      (∃ table, sumPerSample ⟨frame, false, [], none⟩ { byDev := true } .arc "gpu" none =
        .ok table) ∧
      sumPerSample ⟨frame', false, [], none⟩ { byDev := true } .arc "gpu" none =
        .error outOfRange) ∧
    frameFromChunks (fun _ => 7) [[grantedRow], [copiedRow]] = some grantedFirst.data ∧
    frameFromChunks (fun _ => 7) [[copiedRow], [grantedRow]] = some copiedFirst.data ∧
    sumPerSample ⟨grantedFirst, false, [], some listedHosts⟩ { mode := .orm, devFilter := true }
      .arc "gpu" none = .ok [⟨0, 5, .num 1, none⟩, ⟨1, 5, .num 1, none⟩] ∧
    sumPerSample ⟨copiedFirst, false, [], some listedHosts⟩ { mode := .orm, devFilter := true }
      .arc "gpu" none = .ok [⟨1, 5, .num 1, none⟩] := by
  refine ⟨device_beyond_bits (by norm_num), granted_first_fetched, copied_first_fetched, ?_, ?_⟩
  · decide +kernel
  · decide +kernel

end Runs

end PerfStats.Metrics
