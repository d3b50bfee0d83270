import PerfStats.Lib.Batching
import PerfStats.Lib.Keyed
import PerfStats.Text

namespace PerfStats.Archive

open Text
open Lib

section Paths

def basename (path : Str) : Str := (path.reverse.takeWhile (· ≠ '/')).reverse

def dirname (path : Str) : Str :=
  let head := (path.reverse.dropWhile (· ≠ '/')).reverse
  if head.all (· = '/') then head else (head.reverse.dropWhile (· = '/')).reverse

/-- One component in the loop of `os.path.normpath`. -/
def normStep (absolute : Bool) (done : List Str) (part : Str) : List Str :=
  if part.isEmpty || part = lit "." then done
  else if part ≠ lit ".." || (!absolute && done.isEmpty) || done.getLast? = some (lit "..") then
    done ++ [part]
  else done.dropLast

def normBasename (path : Str) : Str :=
  let absolute := path.head? = some '/'
  match ((splitOn '/' path).foldl (normStep absolute) []).getLast? with
  | some part => part
  | none => if absolute then [] else lit "."

def hostDirIsInternal (hostDir : Str) : Bool :=
  let base := normBasename hostDir
  base.isEmpty || base = lit "." || base = lit ".." || startsWith (lit ".") base

def isLockName (name : Str) : Bool :=
  (lit ".fnctl.lock").isSuffixOf name || (lit ".lock").isSuffixOf name

end Paths

section Walk

variable {χ : Type}

/-- What `datetime.fromtimestamp` gives: a local time in microseconds, or what it raises. -/
inductive Stamp (χ : Type) where
  | time (moment : Int)
  | valueError (exc : χ)
  | other (exc : χ)

structure FindStatsRecord where
  path : Str
  mtime : Int
  inode : Nat

structure DatedRecord where
  record : FindStatsRecord
  fdateMtime : Int
  fdateName : Option Int
  sortEpoch : Int

/-- What one look at a tree gives: the records, and the inode of `current` of each host. -/
structure RawTree where
  records : List FindStatsRecord
  currentInodes : Str → Option Nat

variable (fromtimestamp : Int → Stamp χ)

def dateRecord (record : FindStatsRecord) : Except χ DatedRecord :=
  match fromtimestamp record.mtime with
  | .time mtime =>
    match parseInt (basename record.path) with
    | none => .ok ⟨record, mtime, none, record.mtime⟩
    | some epoch =>
      match fromtimestamp epoch with
      | .time date => .ok ⟨record, mtime, some date, epoch⟩
      | .valueError _ => .ok ⟨record, mtime, none, record.mtime⟩
      | .other exc => .error exc
  | .valueError exc => .error exc
  | .other exc => .error exc

def eligible (suffix : Str) (currentInodes : Str → Option Nat) (record : FindStatsRecord) : Bool :=
  let name := basename record.path
  let hostDir := dirname record.path
  !hostDirIsInternal hostDir && suffix.isSuffixOf (basename hostDir) &&
    !(startsWith (lit ".") name || startsWith (lit "current") name) && !isLockName name &&
    currentInodes hostDir ≠ some record.inode

def microsecondsPerDay : Int := 86400000000

def dateInRange (startdate enddate date : Int) : Bool :=
  !(date ≤ startdate - microsecondsPerDay || date > enddate)

def DatedRecord.inRange (startdate enddate : Int) (dated : DatedRecord) : Bool :=
  dateInRange startdate enddate dated.fdateMtime ||
    dated.fdateName.any (dateInRange startdate enddate)

def selectRecords (suffix : Str) (startdate enddate : Int) (currentInodes : Str → Option Nat) :
    List FindStatsRecord → Except χ (List DatedRecord)
  | [] => .ok []
  | record :: rest =>
    if eligible suffix currentInodes record then
      match dateRecord fromtimestamp record with
      | .error exc => .error exc
      | .ok dated =>
        match selectRecords suffix startdate enddate currentInodes rest with
        | .error exc => .error exc
        | .ok selected =>
          .ok (if dated.inRange startdate enddate then dated :: selected else selected)
    else selectRecords suffix startdate enddate currentInodes rest

/-- `filter_and_sort_find_records` between two dates. -/
def filterAndSort (records : List FindStatsRecord) (hostNameExt : Str) (startdate enddate : Int)
    (currentInodes : Str → Option Nat) : Except χ (List FindStatsRecord) :=
  let suffix := strip hostNameExt
  if suffix.isEmpty then .ok []
  else
    match selectRecords fromtimestamp suffix startdate enddate currentInodes records with
    | .error exc => .error exc
    | .ok selected => .ok ((sortBy DatedRecord.sortEpoch selected).map (·.record))

def walkClosedRawRecords (tree : RawTree) (startdate enddate : Int) (hostNameExt : Str) :
    Except χ (List FindStatsRecord) :=
  if (strip hostNameExt).isEmpty then .ok []
  else filterAndSort fromtimestamp tree.records hostNameExt startdate enddate tree.currentInodes

structure WalkRequest where
  directory : Str
  startdate : Int
  enddate : Int
  hostNameExt : Str

inductive WalkError (χ : Type) where
  | raised (exc : χ)
  | aborted

abbrev WalkOutcome (χ : Type) := Except (WalkError χ) (List Str)

/-- How the look at the tree of one group ends: with the tree, with an `Exception`, or with an
exception that is none, which leaves the whole walk. -/
inductive GroupEnd (χ : Type) where
  | found (tree : RawTree)
  | raises (exc : χ)
  | leaves (exc : χ)

def groupKey (entry : Nat × WalkRequest) : Str × Str := (entry.2.directory, entry.2.hostNameExt)

def minStart : List (Nat × WalkRequest) → Int
  | [] => 0
  | entry :: rest => rest.foldl (fun least other => min least other.2.startdate) entry.2.startdate

def maxEnd : List (Nat × WalkRequest) → Int
  | [] => 0
  | entry :: rest => rest.foldl (fun most other => max most other.2.enddate) entry.2.enddate

def splitRecords (records : List FindStatsRecord) (hostNameExt : Str) :
    List (Nat × WalkRequest) → Except χ (List (Nat × List Str))
  | [] => .ok []
  | entry :: rest =>
    match filterAndSort fromtimestamp records hostNameExt entry.2.startdate entry.2.enddate
      (fun _ => none) with
    | .error exc => .error exc
    | .ok own =>
      match splitRecords records hostNameExt rest with
      | .error exc => .error exc
      | .ok answers => .ok ((entry.1, own.map (·.path)) :: answers)

def walkForGroup (group : List (Nat × WalkRequest)) (hostNameExt : Str) (tree : RawTree) :
    Except χ (List (Nat × List Str)) :=
  match walkClosedRawRecords fromtimestamp tree (minStart group) (maxEnd group) hostNameExt with
  | .error exc => .error exc
  | .ok records => splitRecords fromtimestamp records hostNameExt group

def failGroup (group : List (Nat × WalkRequest)) (exc : χ) (out : Nat → Option (WalkOutcome χ)) :
    Nat → Option (WalkOutcome χ) :=
  fun id => if id ∈ group.map (·.1) then some (.error (.raised exc)) else out id

def answerGroup (answers : List (Nat × List Str)) (out : Nat → Option (WalkOutcome χ)) :
    Nat → Option (WalkOutcome χ) :=
  fun id =>
    match answers.lookup id with
    | some paths => some (.ok paths)
    | none => out id

def walkGroup (batch : List (Nat × WalkRequest)) (met : Str × Str → GroupEnd χ)
    (out : Nat → Option (WalkOutcome χ)) (key : Str × Str) :
    Except (WalkOutcome χ) (Nat → Option (WalkOutcome χ)) :=
  match met key with
  | .leaves exc => .error (.error (.raised exc))
  | .raises exc => .ok (failGroup (series groupKey key batch) exc out)
  | .found tree =>
    match walkForGroup fromtimestamp (series groupKey key batch) key.2 tree with
    | .error exc => .ok (failGroup (series groupKey key batch) exc out)
    | .ok answers => .ok (answerGroup answers out)

def walkBatch (batch : List (Nat × WalkRequest)) (met : Str × Str → GroupEnd χ) :
    Except (WalkOutcome χ) (Nat → Option (WalkOutcome χ)) :=
  (firstKeys groupKey batch).foldlM (walkGroup fromtimestamp batch met) fun _ => none

def collectStep : Batching WalkRequest (WalkOutcome χ) (Str × Str → GroupEnd χ) →
    BatchEvent WalkRequest (Str × Str → GroupEnd χ) →
    Batching WalkRequest (WalkOutcome χ) (Str × Str → GroupEnd χ) :=
  batchStep (.error .aborted) (walkBatch fromtimestamp)

def ownWalk (met : GroupEnd χ) (request : WalkRequest) : WalkOutcome χ :=
  match met with
  | .leaves exc => .error (.raised exc)
  | .raises exc => .error (.raised exc)
  | .found tree =>
    match walkClosedRawRecords fromtimestamp tree request.startdate request.enddate
      request.hostNameExt with
    | .error exc => .error (.raised exc)
    | .ok records => .ok (records.map (·.path))

end Walk

section Ranges

variable {χ : Type} {fromtimestamp : Int → Stamp χ} {record : FindStatsRecord} {suffix : Str}
  {currentInodes : Str → Option Nat} {all : List DatedRecord} {startdate enddate first last : Int}

def dateAll (fromtimestamp : Int → Stamp χ) (suffix : Str) (currentInodes : Str → Option Nat) :
    List FindStatsRecord → Except χ (List DatedRecord)
  | [] => .ok []
  | record :: rest =>
    if eligible suffix currentInodes record then
      match dateRecord fromtimestamp record with
      | .error exc => .error exc
      | .ok dated => (dateAll fromtimestamp suffix currentInodes rest).map (dated :: ·)
    else dateAll fromtimestamp suffix currentInodes rest

theorem selectRecords_eq (suffix : Str) (startdate enddate : Int)
    (currentInodes : Str → Option Nat) (records : List FindStatsRecord) :
    selectRecords fromtimestamp suffix startdate enddate currentInodes records =
      (dateAll fromtimestamp suffix currentInodes records).map
        (List.filter (DatedRecord.inRange startdate enddate)) := by
  induction records with
  | nil => rfl
  | cons record rest ih =>
    rw [selectRecords, dateAll, ih]
    split
    next =>
      cases dateRecord fromtimestamp record with
      | error exc => rfl
      | ok dated =>
        cases dateAll fromtimestamp suffix currentInodes rest with
        | error exc => rfl
        | ok all => simp only [Except.map, List.filter_cons]
    next => rfl

theorem dateRecord_record {dated : DatedRecord}
    (dates : dateRecord fromtimestamp record = .ok dated) : dated.record = record := by
  unfold dateRecord at dates
  split at dates
  next =>
    split at dates
    next => cases dates; rfl
    next =>
      split at dates
      next => cases dates; rfl
      next => cases dates; rfl
      next => cases dates
  next => cases dates
  next => cases dates

theorem eligible_anywhere
    (here : eligible suffix currentInodes record = true) :
    eligible suffix (fun _ => none) record = true := by
  simp only [eligible, Bool.and_eq_true] at here ⊢
  exact ⟨here.1, by simp⟩

theorem dateAll_mem
    {records : List FindStatsRecord}
    (dates : dateAll fromtimestamp suffix currentInodes records = .ok all) :
    ∀ dated ∈ all, eligible suffix (fun _ => none) dated.record = true ∧
      dateRecord fromtimestamp dated.record = .ok dated := by
  induction records generalizing all with
  | nil =>
    cases dates
    nofun
  | cons record rest ih =>
    rw [dateAll] at dates
    split at dates
    next fits =>
      cases here : dateRecord fromtimestamp record with
      | error exc =>
        rw [here] at dates
        cases dates
      | ok first =>
        rw [here] at dates
        cases later : dateAll fromtimestamp suffix currentInodes rest with
        | error exc =>
          rw [later] at dates
          cases dates
        | ok others =>
          rw [later] at dates
          cases dates
          intro dated member
          rcases List.mem_cons.mp member with same | old
          · rw [same, dateRecord_record here]
            exact ⟨eligible_anywhere fits, here⟩
          · exact ih later dated old
    next => exact ih dates

theorem dateAll_again
    (fits : ∀ dated ∈ all, eligible suffix (fun _ => none) dated.record = true ∧
      dateRecord fromtimestamp dated.record = .ok dated) :
    dateAll fromtimestamp suffix (fun _ => none) (all.map (·.record)) = .ok all := by
  induction all with
  | nil => rfl
  | cons dated rest ih =>
    obtain ⟨first, again⟩ := fits dated (.head _)
    rw [List.map_cons, dateAll, if_pos first, again,
      ih fun other member => fits other (.tail _ member)]
    rfl

theorem inRange_of_within {dated : DatedRecord}
    (begins : first ≤ startdate) (ends : enddate ≤ last)
    (inside : dated.inRange startdate enddate = true) : dated.inRange first last = true := by
  have date : ∀ moment, dateInRange startdate enddate moment = true →
      dateInRange first last moment = true := by
    intro moment within
    simp only [dateInRange, Bool.not_eq_true', Bool.or_eq_false_iff, decide_eq_false_iff_not]
      at within ⊢
    omega
  simp only [DatedRecord.inRange, Bool.or_eq_true, Option.any_eq_true] at inside ⊢
  rcases inside with mtime | ⟨name, there, within⟩
  · exact .inl (date _ mtime)
  · exact .inr ⟨name, there, date name within⟩

theorem filter_of_walk (fromtimestamp : Int → Stamp χ) (tree : RawTree) (hostNameExt : Str)
    (begins : first ≤ startdate) (ends : enddate ≤ last) :
    (match walkClosedRawRecords fromtimestamp tree first last hostNameExt with
      | .error exc => .error exc
      | .ok records =>
        filterAndSort fromtimestamp records hostNameExt startdate enddate fun _ => none) =
      walkClosedRawRecords fromtimestamp tree startdate enddate hostNameExt := by
  unfold walkClosedRawRecords
  by_cases blank : (strip hostNameExt).isEmpty
  · simp [blank, filterAndSort]
  · simp only [filterAndSort, if_neg blank, selectRecords_eq]
    cases dates : dateAll fromtimestamp (strip hostNameExt) tree.currentInodes tree.records with
    | error exc => rfl
    | ok all =>
      simp only [Except.map]
      have known := dateAll_mem dates
      rw [dateAll_again]
      · simp only [filter_sortBy, List.filter_filter]
        have inner : all.filter (fun dated =>
            dated.inRange startdate enddate && dated.inRange first last) =
              all.filter (DatedRecord.inRange startdate enddate) := by
          apply List.filter_congr
          intro dated _
          cases inside : dated.inRange startdate enddate with
          | false => rfl
          | true => rw [inRange_of_within begins ends inside, Bool.true_and]
        rw [inner, sortBy_of_pairwise _ (sortBy_pairwise _ _)]
      · intro dated member
        exact known dated (List.mem_of_mem_filter ((sortBy_perm _ _).mem_iff.mp member))

end Ranges

section Groups

variable {χ : Type} {fromtimestamp : Int → Stamp χ} {entry : Nat × WalkRequest}
  {records : List FindStatsRecord} {answers : List (Nat × List Str)}

theorem foldl_min_le (entries : List (Nat × WalkRequest)) (least : Int) :
    entries.foldl (fun least other => min least other.2.startdate) least ≤ least ∧
      ∀ entry ∈ entries,
        entries.foldl (fun least other => min least other.2.startdate) least ≤
          entry.2.startdate := by
  induction entries generalizing least with
  | nil => exact ⟨Int.le_refl _, nofun⟩
  | cons head tail ih =>
    obtain ⟨low, all⟩ := ih (min least head.2.startdate)
    refine ⟨Int.le_trans low (min_le_left _ _), ?_⟩
    intro entry member
    rcases List.mem_cons.mp member with same | old
    · rw [same]
      exact Int.le_trans low (min_le_right _ _)
    · exact all entry old

theorem le_foldl_max (entries : List (Nat × WalkRequest)) (most : Int) :
    most ≤ entries.foldl (fun most other => max most other.2.enddate) most ∧
      ∀ entry ∈ entries, entry.2.enddate ≤
        entries.foldl (fun most other => max most other.2.enddate) most := by
  induction entries generalizing most with
  | nil => exact ⟨Int.le_refl _, nofun⟩
  | cons head tail ih =>
    obtain ⟨high, all⟩ := ih (max most head.2.enddate)
    refine ⟨Int.le_trans (le_max_left _ _) high, ?_⟩
    intro entry member
    rcases List.mem_cons.mp member with same | old
    · rw [same]
      exact Int.le_trans (le_max_right _ _) high
    · exact all entry old

variable {batch group : List (Nat × WalkRequest)} {hostNameExt : Str}
    {met : Str × Str → GroupEnd χ}

theorem minStart_le
    (member : entry ∈ group) : minStart group ≤ entry.2.startdate := by
  cases group with
  | nil => cases member
  | cons head tail =>
    obtain ⟨low, all⟩ := foldl_min_le tail head.2.startdate
    rcases List.mem_cons.mp member with same | old
    · rw [same]
      exact low
    · exact all entry old

theorem le_maxEnd
    (member : entry ∈ group) : entry.2.enddate ≤ maxEnd group := by
  cases group with
  | nil => cases member
  | cons head tail =>
    obtain ⟨high, all⟩ := le_foldl_max tail head.2.enddate
    rcases List.mem_cons.mp member with same | old
    · rw [same]
      exact high
    · exact all entry old

theorem splitRecords_lookup
    (splits : splitRecords fromtimestamp records hostNameExt group = .ok answers)
    (distinct : (group.map (·.1)).Nodup) :
    (∀ entry ∈ group, ∃ own, filterAndSort fromtimestamp records hostNameExt entry.2.startdate
      entry.2.enddate (fun _ => none) = .ok own ∧
        answers.lookup entry.1 = some (own.map (·.path))) ∧
      ∀ id, id ∉ group.map (·.1) → answers.lookup id = none := by
  induction group generalizing answers with
  | nil =>
    cases splits
    exact ⟨nofun, fun _ _ => rfl⟩
  | cons entry rest ih =>
    rw [splitRecords] at splits
    cases here : filterAndSort fromtimestamp records hostNameExt entry.2.startdate
        entry.2.enddate (fun _ => none) with
    | error exc =>
      rw [here] at splits
      cases splits
    | ok own =>
      rw [here] at splits
      cases later : splitRecords fromtimestamp records hostNameExt rest with
      | error exc =>
        rw [later] at splits
        cases splits
      | ok others =>
        rw [later] at splits
        cases splits
        rw [List.map_cons, List.nodup_cons] at distinct
        obtain ⟨found, absent⟩ := ih later distinct.2
        constructor
        · intro other member
          rcases List.mem_cons.mp member with same | old
          · rw [same]
            exact ⟨own, here, by simp⟩
          · obtain ⟨paths, filtered, there⟩ := found other old
            refine ⟨paths, filtered, ?_⟩
            have differs : other.1 ≠ entry.1 := by
              intro same
              exact distinct.1 (by rw [← same]; exact List.mem_map_of_mem old)
            rw [List.lookup_cons, beq_eq_false_iff_ne.mpr differs]
            exact there
        · intro id outside
          rw [List.map_cons, List.mem_cons, not_or] at outside
          rw [List.lookup_cons, beq_eq_false_iff_ne.mpr outside.1]
          exact absent id outside.2

theorem splitRecords_ok
    (filters : ∀ entry ∈ group, ∃ own, filterAndSort fromtimestamp records hostNameExt
      entry.2.startdate entry.2.enddate (fun _ => none) = .ok own) :
    ∃ answers, splitRecords fromtimestamp records hostNameExt group = .ok answers := by
  induction group with
  | nil => exact ⟨[], rfl⟩
  | cons entry rest ih =>
    obtain ⟨own, here⟩ := filters entry (.head _)
    obtain ⟨answers, later⟩ := ih fun other member => filters other (.tail _ member)
    exact ⟨_, by rw [splitRecords, here, later]⟩

theorem walk_raises_alike (tree : RawTree) (hostNameExt : Str) (startdate enddate first last : Int)
    {exc : χ}
    (raises : walkClosedRawRecords fromtimestamp tree first last hostNameExt = .error exc) :
    walkClosedRawRecords fromtimestamp tree startdate enddate hostNameExt = .error exc := by
  unfold walkClosedRawRecords at raises ⊢
  by_cases blank : (strip hostNameExt).isEmpty
  · simp [blank] at raises
  · simp only [filterAndSort, if_neg blank, selectRecords_eq] at raises ⊢
    cases dates : dateAll fromtimestamp (strip hostNameExt) tree.currentInodes tree.records with
    | error other =>
      rw [dates] at raises
      exact raises
    | ok all =>
      rw [dates] at raises
      cases raises

theorem walkForGroup_ok {tree : RawTree}
    (distinct : (group.map (·.1)).Nodup)
    (same : ∀ entry ∈ group, entry.2.hostNameExt = hostNameExt)
    (walks : walkForGroup fromtimestamp group hostNameExt tree = .ok answers) :
    (∀ entry ∈ group, ∃ paths, answers.lookup entry.1 = some paths ∧
      ownWalk fromtimestamp (.found tree) entry.2 = .ok paths) ∧
      ∀ id, id ∉ group.map (·.1) → answers.lookup id = none := by
  unfold walkForGroup at walks
  split at walks
  next => cases walks
  next records wide =>
    obtain ⟨found, absent⟩ := splitRecords_lookup walks distinct
    refine ⟨?_, absent⟩
    intro entry member
    obtain ⟨own, filtered, there⟩ := found entry member
    have narrow := filter_of_walk fromtimestamp tree hostNameExt
      (minStart_le member) (le_maxEnd member)
    rw [wide] at narrow
    refine ⟨_, there, ?_⟩
    rw [ownWalk, same entry member, ← narrow]
    simp only [filtered]

theorem walkForGroup_error {tree : RawTree}
    {exc : χ} (same : ∀ entry ∈ group, entry.2.hostNameExt = hostNameExt)
    (walks : walkForGroup fromtimestamp group hostNameExt tree = .error exc) :
    ∀ entry ∈ group, ownWalk fromtimestamp (.found tree) entry.2 = .error (.raised exc) := by
  intro entry member
  unfold walkForGroup at walks
  split at walks
  next other wide =>
    cases walks
    rw [ownWalk, same entry member, walk_raises_alike tree hostNameExt _ _ _ _ wide]
  next records wide =>
    -- where the walk goes through, so does every filter of its records
    have filters : ∀ other ∈ group, ∃ own, filterAndSort fromtimestamp records hostNameExt
        other.2.startdate other.2.enddate (fun _ => none) = .ok own := by
      intro other belongs
      have narrow := filter_of_walk fromtimestamp tree hostNameExt
        (minStart_le belongs) (le_maxEnd belongs)
      rw [wide] at narrow
      cases filtered : filterAndSort fromtimestamp records hostNameExt other.2.startdate
          other.2.enddate (fun _ => none) with
      | ok own => exact ⟨own, rfl⟩
      | error exc =>
        simp only [filtered] at narrow
        rw [walk_raises_alike tree hostNameExt _ _ _ _ narrow.symm] at wide
        cases wide
    obtain ⟨answers, splits⟩ := splitRecords_ok filters
    rw [splits] at walks
    cases walks

theorem walkGroup_spec {out after : Nat → Option (WalkOutcome χ)} {key : Str × Str}
    (distinct : (batch.map (·.1)).Nodup)
    (walks : walkGroup fromtimestamp batch met out key = .ok after) :
    ∀ entry ∈ batch, after entry.1 = if groupKey entry = key then
      some (ownWalk fromtimestamp (met key) entry.2) else out entry.1 := by
  intro entry member
  have inside : entry.1 ∈ (series groupKey key batch).map (·.1) ↔ groupKey entry = key := by
    constructor
    · intro there
      obtain ⟨other, belongs, same⟩ := List.mem_map.mp there
      obtain ⟨present, equal⟩ := (mem_series groupKey).mp belongs
      rw [← List.inj_on_of_nodup_map distinct present member same]
      exact equal
    · intro same
      exact List.mem_map_of_mem ((mem_series groupKey).mpr ⟨member, same⟩)
  have grouped : groupKey entry = key → entry ∈ series groupKey key batch :=
    fun same => (mem_series groupKey).mpr ⟨member, same⟩
  have ungrouped : ((series groupKey key batch).map (·.1)).Nodup :=
    distinct.sublist (List.filter_sublist.map _)
  have suffix : ∀ other ∈ series groupKey key batch, other.2.hostNameExt = key.2 := by
    intro other belongs
    rw [← ((mem_series groupKey).mp belongs).2]
    rfl
  have failing : ∀ exc, (groupKey entry = key →
      ownWalk fromtimestamp (met key) entry.2 = .error (.raised exc)) →
      failGroup (series groupKey key batch) exc out entry.1 = if groupKey entry = key then
        some (ownWalk fromtimestamp (met key) entry.2) else out entry.1 := by
    intro exc own
    rw [failGroup]
    simp only [inside]
    split
    next same => rw [own same]
    next => rfl
  unfold walkGroup at walks
  split at walks
  next => cases walks
  next exc raises =>
    cases walks
    exact failing exc fun _ => by rw [raises]; rfl
  next tree found =>
    split at walks
    next exc raises =>
      cases walks
      refine failing exc fun same => ?_
      rw [found]
      exact walkForGroup_error suffix raises entry (grouped same)
    next answers walked =>
      cases walks
      obtain ⟨answered, absent⟩ := walkForGroup_ok ungrouped suffix walked
      rw [answerGroup]
      split_ifs with same
      · obtain ⟨paths, there, own⟩ := answered entry (grouped same)
        rw [there, found, own]
      · rw [absent entry.1 fun there => same (inside.mp there)]

theorem walkBatch_spec
    {results : Nat → Option (WalkOutcome χ)} (distinct : (batch.map (·.1)).Nodup)
    (walks : walkBatch fromtimestamp batch met = .ok results) :
    ∀ entry ∈ batch,
      results entry.1 = some (ownWalk fromtimestamp (met (groupKey entry)) entry.2) := by
  have rounds : ∀ (keys : List (Str × Str)) (out after : Nat → Option (WalkOutcome χ)),
      keys.foldlM (walkGroup fromtimestamp batch met) out = .ok after → ∀ entry ∈ batch,
        after entry.1 = if groupKey entry ∈ keys then
          some (ownWalk fromtimestamp (met (groupKey entry)) entry.2) else out entry.1 := by
    intro keys
    induction keys with
    | nil =>
      intro out after same entry _
      cases same
      simp
    | cons key keys ih =>
      intro out after taken entry member
      rw [List.foldlM_cons] at taken
      cases first : walkGroup fromtimestamp batch met out key with
      | error left =>
        rw [first] at taken
        cases taken
      | ok middle =>
        rw [first] at taken
        rw [ih middle after taken entry member, walkGroup_spec distinct first entry member]
        by_cases later : groupKey entry ∈ keys
        · simp [later]
        · by_cases same : groupKey entry = key
          · simp [same]
          · simp [later, same]
  intro entry member
  rw [rounds _ _ _ walks entry member,
    if_pos ((mem_firstKeys groupKey).mpr ⟨entry, member, rfl⟩)]

theorem walkBatch_left
    {left : WalkOutcome χ} (walks : walkBatch fromtimestamp batch met = .error left) :
    ∃ entry ∈ batch, ∃ exc, met (groupKey entry) = .leaves exc ∧ left = .error (.raised exc) := by
  have rounds : ∀ (keys : List (Str × Str)) (out : Nat → Option (WalkOutcome χ)),
      keys.foldlM (walkGroup fromtimestamp batch met) out = .error left →
        ∃ key ∈ keys, ∃ exc, met key = .leaves exc ∧ left = .error (.raised exc) := by
    intro keys
    induction keys with
    | nil =>
      nofun
    | cons key keys ih =>
      intro out taken
      rw [List.foldlM_cons] at taken
      cases first : walkGroup fromtimestamp batch met out key with
      | error other =>
        rw [first] at taken
        cases taken
        refine ⟨key, .head _, ?_⟩
        unfold walkGroup at first
        split at first
        next exc leaves =>
          cases first
          exact ⟨exc, leaves, rfl⟩
        next => cases first
        next =>
          split at first
          next => cases first
          next => cases first
      | ok middle =>
        rw [first] at taken
        obtain ⟨other, member, found⟩ := ih middle taken
        exact ⟨other, .tail _ member, found⟩
  obtain ⟨key, member, exc, leaves, same⟩ := rounds _ _ walks
  obtain ⟨entry, present, rfl⟩ := (mem_firstKeys groupKey).mp member
  exact ⟨entry, present, exc, leaves, same⟩

variable (fromtimestamp) in
theorem walkBatch_leaves {exc : χ} (member : entry ∈ batch)
    (leaves : met (groupKey entry) = .leaves exc) :
    ∃ left, walkBatch fromtimestamp batch met = .error left := by
  have rounds : ∀ (keys : List (Str × Str)) (out : Nat → Option (WalkOutcome χ)),
      groupKey entry ∈ keys →
        ∃ left, keys.foldlM (walkGroup fromtimestamp batch met) out = .error left := by
    intro keys
    induction keys with
    | nil => exact fun _ there => absurd there List.not_mem_nil
    | cons key keys ih =>
      intro out there
      rw [List.foldlM_cons]
      cases first : walkGroup fromtimestamp batch met out key with
      | error left => exact ⟨left, rfl⟩
      | ok middle =>
        rcases List.mem_cons.mp there with same | later
        · rw [← same, walkGroup, leaves] at first
          cases first
        · exact ih middle later
  exact rounds _ _ ((mem_firstKeys groupKey).mpr ⟨entry, member, rfl⟩)

end Groups

section Runs

variable {χ : Type}

/-- The state of `_BatchedClosedRawWalk`, with the calls that were made. -/
abbrev CollectState (χ : Type) := Batching WalkRequest (WalkOutcome χ) (Str × Str → GroupEnd χ)

abbrev CollectEvent (χ : Type) := BatchEvent WalkRequest (Str × Str → GroupEnd χ)

def WasLeft (served : Served WalkRequest (WalkOutcome χ) (Str × Str → GroupEnd χ)) (exc : χ) : Prop :=
  ∃ entry ∈ served.batch, served.met (groupKey entry) = .leaves exc

/-- Answers are of walks that began after the call; an abort has a group that left a walk raised by
its leader; ends stay, and nothing is left behind. -/
structure CollectRight (fromtimestamp : Int → Stamp χ) (state : CollectState χ) : Prop where
  answered : ∀ id served, state.phase id = .returned served →
    ∃ request, state.requests[id]? = some request ∧ (id, request) ∈ served.batch ∧
      id < served.start ∧
      (served.outcome = ownWalk fromtimestamp (served.met (groupKey (id, request))) request ∨
        served.outcome = .error .aborted ∧ ∃ exc, WasLeft served exc)
  raised : ∀ id served, state.phase id = .raised served →
    id < served.start ∧ ∃ exc, served.outcome = .error (.raised exc) ∧ WasLeft served exc
  aborted : ∀ id served exc, state.phase id = .returned served → WasLeft served exc →
    served.outcome = .error .aborted
  left : ∀ id batch start met entry exc, state.phase id = .leading batch start → entry ∈ batch →
    met (groupKey entry) = .leaves exc →
      ∃ served, (collectStep fromtimestamp state (.finish id met)).phase id = .raised served ∧
        served.batch = batch ∧ served.met = met
  once : ∀ id event, (state.phase id).ended = true → state.phase id ≠ .absent →
    (collectStep fromtimestamp state event).phase id = state.phase id
  goes_on : ∀ id, (state.phase id).ended = false → ∃ event, state.Moves event
  ends : ∀ events : List (CollectEvent χ),
    Throughout (collectStep fromtimestamp) Batching.Moves state events →
      events.length ≤ state.rank
  clean : (∀ id, (state.phase id).ended = true) → state.pending = [] ∧
    ∀ id served, state.done id = some served → ∃ own, state.phase id = .raised own

/-- In every run of any number of calls. -/
theorem collect_serves (fromtimestamp : Int → Stamp χ) (events : List (CollectEvent χ)) :
    CollectRight fromtimestamp (events.foldl (collectStep fromtimestamp) .fresh) := by
  have right : BatchRight (.error .aborted) (walkBatch fromtimestamp)
      (events.foldl (collectStep fromtimestamp) .fresh) :=
    batch_run_right fresh_batchRight events
  refine ⟨?_, ?_, ?_, ?_, fun id event ended present => ended_stays right ended present event, ?_,
    fun later moves => steps_bounded right later moves, ended_clean right⟩
  · intro id served returned
    have answers := right.returned id served returned
    obtain ⟨entry, member, same⟩ := List.mem_map.mp answers.member
    have own : entry = (id, entry.2) := by rw [← same]
    refine ⟨entry.2, by rw [← same]; exact answers.made entry member, own ▸ member, answers.later,
      ?_⟩
    rw [answers.outcome, ← own, ← same]
    cases walks : walkBatch fromtimestamp served.batch served.met with
    | ok results =>
      refine .inl ?_
      rw [outcomeOf, walkBatch_spec answers.distinct walks entry member]
      rfl
    | error left =>
      obtain ⟨other, present, exc, leaves, -⟩ := walkBatch_left walks
      exact .inr ⟨rfl, exc, other, present, leaves⟩
  · intro id served raised
    have leaves := right.raised id served raised
    obtain ⟨other, present, exc, left, same⟩ := walkBatch_left leaves.outcome
    exact ⟨leaves.later, exc, same, other, present, left⟩
  · rintro id served exc returned ⟨entry, member, leaves⟩
    obtain ⟨left, walks⟩ := walkBatch_leaves fromtimestamp member leaves
    rw [(right.returned id served returned).outcome, walks, outcomeOf]
  · intro id batch start met entry exc leading member leaves
    obtain ⟨left, walks⟩ := walkBatch_leaves fromtimestamp member leaves
    exact ⟨⟨start, batch, met, left⟩, finish_raises leading walks, rfl, rfl⟩
  · intro id going
    have : Nonempty (Str × Str → GroupEnd χ) := ⟨fun _ => .found ⟨[], fun _ => none⟩⟩
    exact someone_moves right going

def hostsIn (directory : Str) : WalkRequest := ⟨directory, 0, microsecondsPerDay, lit "h"⟩

/-- The tree of `a` is never read to its end. -/
def leftAt (key : Str × Str) : GroupEnd Nat :=
  if key.1 = lit "a" then .leaves 143 else .found ⟨[], fun _ => none⟩

def leftWalk : List (CollectEvent Nat) :=
  [.call (hostsIn (lit "c")), .call (hostsIn (lit "a")), .call (hostsIn (lit "b")),
    .finish 0 leftAt, .wake 1, .finish 1 leftAt, .wake 2, .answer 2]

theorem left_walk_fails_others :
    ¬ ∀ (fromtimestamp : Int → Stamp Nat) (events : List (CollectEvent Nat)) (id : Nat)
        (served : Served WalkRequest (WalkOutcome Nat) (Str × Str → GroupEnd Nat))
        (request : WalkRequest),
      (events.foldl (collectStep fromtimestamp) Batching.fresh).phase id = .returned served →
        (id, request) ∈ served.batch →
          served.outcome = ownWalk fromtimestamp (served.met (groupKey (id, request))) request := by
  intro always
  have same := always (fun _ => .time 0) leftWalk 2
    ⟨3, [(1, hostsIn (lit "a")), (2, hostsIn (lit "b"))], leftAt, .error .aborted⟩
    (hostsIn (lit "b")) rfl (by simp)
  have own : ownWalk (fun _ => Stamp.time 0) (leftAt (groupKey (2, hostsIn (lit "b"))))
      (hostsIn (lit "b")) = .ok [] := rfl
  cases same

end Runs

end PerfStats.Archive
