import PerfStats.Lib.Dict
import PerfStats.Num

/-!
# The archive gate, path by path and batched

`stats_file_head_ingested_in_db`, `build_head_ingest_ready_set` and `filter_paths_head_ingested`
(`sync_timedb_ingest_readiness.py`) over the probes of `sync_timedb_host_itimes.py`. No cache entry
is there at first, and one that a call makes holds what the query would answer again. The batched
gate takes the seconds of a host together over all paths that are asked for.
-/

namespace PerfStats.Archive

open Lib

abbrev HostSecond := Str × Nat

structure GateFile where
  activeSegment : Bool
  fileCompleteMark : Bool
  zeroHostMark : Bool
  head : HostSecond
  tail : HostSecond

/-- The settings and the rows of `host_data`. A scan can overflow, or fail in a bounded way. -/
structure GateWorld where
  gateEnabled : Bool
  liveOn : Bool
  rows : List (Str × ℚ)
  overflows : Str → Nat → Nat → Bool

variable (world : GateWorld)

def GateWorld.secondPresent (mark : HostSecond) : Bool :=
  world.rows.any fun row => decide (row.1 = mark.1 ∧ (mark.2 : ℚ) ≤ row.2 ∧ row.2 < mark.2 + 1)

def GateWorld.pathHeadTailReadyInDb (file : GateFile) : Bool :=
  if world.secondPresent file.head then
    if file.head = file.tail then true else world.secondPresent file.tail
  else false

def GateFile.marked (file : GateFile) : Bool := file.fileCompleteMark || file.zeroHostMark

def GateWorld.statsFileHeadIngestedInDb (file : GateFile) : Bool :=
  if !world.gateEnabled then true
  else if file.activeSegment then false
  else if file.marked then true
  else !world.liveOn && world.pathHeadTailReadyInDb file

abbrev SecondsByHost := Dict Str (List Nat)

def addSeconds (byHost : SecondsByHost) (entry : Str × List Nat) : SecondsByHost :=
  byHost.set entry.1 (((byHost.get? entry.1).getD []) ∪ entry.2)

/-- `head_tail_identity_as_gate_identities` of one path. -/
def gateIdentities (file : GateFile) : SecondsByHost :=
  addSeconds (addSeconds .empty (file.head.1, [file.head.2])) (file.tail.1, [file.tail.2])

/-- `host_recent_timestamps_cached` from `low` to before `high`; `none` is the overflow. -/
def GateWorld.hostRecentTimestamps (host : Str) (low high : Nat) : Option (List Int) :=
  if world.overflows host low high then none
  else some ((world.rows.filter fun row =>
    decide (row.1 = host ∧ (low : ℚ) ≤ row.2 ∧ row.2 < (high : ℚ))).map fun row => truncate row.2)

/-- `host_sampled_timestamp_seconds_all_present`. -/
def GateWorld.hostTimestampSecondsAllPresent (host : Str) (seconds : List Nat) : Bool :=
  match seconds.min?, seconds.max? with
  | some low, some high =>
    match world.hostRecentTimestamps host low (high + 1) with
    | none => seconds.all fun second => world.secondPresent (host, second)
    | some times => seconds.all fun second => decide ((second : Int) ∈ times)
  | _, _ => false

def secondsByHost (files : Str → GateFile) (closedPaths : List Str) : SecondsByHost :=
  (closedPaths.filter fun path => !(files path).activeSegment).foldl
    (fun byHost path => (gateIdentities (files path)).entries.foldl addSeconds byHost) .empty

def GateWorld.hostsOk (byHost : SecondsByHost) (file : GateFile) : Bool :=
  (gateIdentities file).entries.all fun entry =>
    (byHost.get? entry.1).elim false (world.hostTimestampSecondsAllPresent entry.1)

def GateWorld.buildHeadIngestReadySet (files : Str → GateFile) (closedPaths : List Str) :
    List Str :=
  if !world.gateEnabled then closedPaths
  else closedPaths.filter fun path =>
    !(files path).activeSegment &&
      ((!world.liveOn && world.hostsOk (secondsByHost files closedPaths) (files path)) ||
        (files path).marked)

/-- `filter_paths_head_ingested` with gate identities. -/
def GateWorld.filterPathsBatched (files : Str → GateFile) (paths : List Str) :
    List Str × List Str :=
  let ready := world.buildHeadIngestReadySet files paths
  (paths.filter (· ∈ ready), paths.filter (· ∉ ready))

/-- `filter_paths_head_ingested` without them. -/
def GateWorld.filterPathsEach (files : Str → GateFile) (paths : List Str) :
    List Str × List Str :=
  paths.partition fun path => world.statsFileHeadIngestedInDb (files path)

def GateWorld.SharedHostsReady (files : Str → GateFile) (paths : List Str) : Prop :=
  ∀ path ∈ paths, (files path).activeSegment = false → (files path).marked = false →
    world.secondPresent (files path).head = true → world.secondPresent (files path).tail = true →
    ∀ other ∈ paths, (files other).activeSegment = false →
      ∀ mark ∈ [(files other).head, (files other).tail],
        mark.1 ∈ [(files path).head.1, (files path).tail.1] → world.secondPresent mark = true

section Gate

variable {world : GateWorld} {files : Str → GateFile} {paths : List Str} {path host : Str}
  {byHost : SecondsByHost} {second : Nat} {seconds : List Nat}

def SecondNoted (byHost : SecondsByHost) (host : Str) (second : Nat) : Prop :=
  second ∈ (byHost.get? host).getD []

theorem secondNoted_addSeconds (entry : Str × List Nat) :
    SecondNoted (addSeconds byHost entry) host second ↔
      SecondNoted byHost host second ∨ entry.1 = host ∧ second ∈ entry.2 := by
  rw [SecondNoted, SecondNoted, addSeconds, Dict.get?_set]
  by_cases same : host = entry.1
  · subst same
    simp
  · simp [same, Ne.symm same]

theorem secondNoted_iff_entry :
    (∃ entry ∈ byHost.entries, entry.1 = host ∧ second ∈ entry.2) ↔ SecondNoted byHost host second := by
  constructor
  · rintro ⟨⟨_, taken⟩, member, rfl, inside⟩
    rw [SecondNoted, Dict.get?_eq_some.mpr member]
    exact inside
  · intro noted
    rw [SecondNoted] at noted
    cases found : byHost.get? host with
    | none => simp [found] at noted
    | some taken =>
      rw [found] at noted
      exact ⟨(host, taken), Dict.get?_eq_some.mp found, rfl, noted⟩

theorem secondNoted_foldl (entries : List (Str × List Nat)) (byHost : SecondsByHost) :
    SecondNoted (entries.foldl addSeconds byHost) host second ↔
      SecondNoted byHost host second ∨ ∃ entry ∈ entries, entry.1 = host ∧ second ∈ entry.2 := by
  induction entries generalizing byHost with
  | nil => simp
  | cons entry rest ih =>
    rw [List.foldl_cons, ih, secondNoted_addSeconds, or_assoc]
    simp

theorem secondNoted_gateIdentities (file : GateFile) :
    SecondNoted (gateIdentities file) host second ↔ (host, second) ∈ [file.head, file.tail] := by
  rw [gateIdentities, secondNoted_addSeconds, secondNoted_addSeconds]
  simp [SecondNoted, Prod.ext_iff, eq_comm]

theorem secondNoted_secondsByHost (files : Str → GateFile) (paths : List Str) :
    SecondNoted (secondsByHost files paths) host second ↔
      ∃ other ∈ paths, (files other).activeSegment = false ∧
        (host, second) ∈ [(files other).head, (files other).tail] := by
  have all : ∀ (l : List Str) (byHost : SecondsByHost),
      SecondNoted (l.foldl (fun byHost path =>
        (gateIdentities (files path)).entries.foldl addSeconds byHost) byHost) host second ↔
      SecondNoted byHost host second ∨
        ∃ other ∈ l, (host, second) ∈ [(files other).head, (files other).tail] := by
    intro l
    induction l with
    | nil => simp
    | cons path rest ih =>
      intro byHost
      rw [List.foldl_cons, ih, secondNoted_foldl, secondNoted_iff_entry, secondNoted_gateIdentities, or_assoc]
      simp only [List.mem_cons, exists_eq_or_imp]
  rw [secondsByHost, all]
  simp [SecondNoted, and_assoc]

theorem allPresent_iff (host : Str) (some_ : seconds ≠ []) :
    world.hostTimestampSecondsAllPresent host seconds = true ↔
      ∀ second ∈ seconds, world.secondPresent (host, second) = true := by
  obtain ⟨low, least⟩ := Option.ne_none_iff_exists'.mp (mt List.min?_eq_none_iff.mp some_)
  obtain ⟨high, most⟩ := Option.ne_none_iff_exists'.mp (mt List.max?_eq_none_iff.mp some_)
  simp only [GateWorld.hostTimestampSecondsAllPresent, least, most]
  unfold GateWorld.hostRecentTimestamps
  split
  · next times none_ => simp
  · next times found =>
    split at found
    · cases found
    · cases found
      rw [List.all_eq_true]
      refine forall₂_congr fun second member => ?_
      have above : low ≤ second := (List.min?_eq_some_iff.mp least).2 second member
      have below : second ≤ high := (List.max?_eq_some_iff.mp most).2 second member
      simp only [decide_eq_true_eq, List.mem_map, List.mem_filter, GateWorld.secondPresent,
        List.any_eq_true]
      have least : (low : ℚ) ≤ second := by exact_mod_cast above
      have most : (second : ℚ) + 1 ≤ (high + 1 : Nat) := by exact_mod_cast Nat.succ_le_succ below
      constructor
      · rintro ⟨row, ⟨stored, same, late, -⟩, whole⟩
        rw [truncate_nonneg (low.cast_nonneg.trans late)] at whole
        obtain ⟨begun, ended⟩ := Int.floor_eq_iff.mp whole
        exact ⟨row, stored, same, by exact_mod_cast begun, by exact_mod_cast ended⟩
      · rintro ⟨row, stored, same, begun, ended⟩
        refine ⟨row, ⟨stored, same, least.trans begun, ended.trans_le most⟩, ?_⟩
        rw [truncate_nonneg (second.cast_nonneg.trans begun), Int.floor_eq_iff]
        exact ⟨by exact_mod_cast begun, by exact_mod_cast ended⟩

theorem hostsOk_iff (member : path ∈ paths) (closed : (files path).activeSegment = false) :
    world.hostsOk (secondsByHost files paths) (files path) = true ↔
      ∀ other ∈ paths, (files other).activeSegment = false →
        ∀ mark ∈ [(files other).head, (files other).tail],
          mark.1 ∈ [(files path).head.1, (files path).tail.1] → world.secondPresent mark = true := by
  have known : ∀ host, (∃ entry ∈ (gateIdentities (files path)).entries, entry.1 = host) ↔
      host ∈ [(files path).head.1, (files path).tail.1] := by
    intro host
    rw [← List.mem_map, ← not_iff_not, ← Dict.get?_eq_none]
    simp only [gateIdentities, addSeconds, Dict.get?_set, Dict.get?_empty]
    by_cases last : host = (files path).tail.1
    · simp [last]
    · by_cases first : host = (files path).head.1
      · simp [← first, last]
      · simp [last, first]
  have probe : ∀ host ∈ [(files path).head.1, (files path).tail.1],
      ((secondsByHost files paths).get? host).elim false
        (world.hostTimestampSecondsAllPresent host) = true ↔
      ∀ second, SecondNoted (secondsByHost files paths) host second →
        world.secondPresent (host, second) = true := by
    intro host own
    have some_ : ∃ second, SecondNoted (secondsByHost files paths) host second := by
      simp only [List.mem_cons, List.not_mem_nil, or_false] at own
      rcases own with rfl | rfl
      · exact ⟨(files path).head.2, (secondNoted_secondsByHost files paths).mpr
          ⟨path, member, closed, .head _⟩⟩
      · exact ⟨(files path).tail.2, (secondNoted_secondsByHost files paths).mpr
          ⟨path, member, closed, .tail _ (.head _)⟩⟩
    obtain ⟨one, noted⟩ := some_
    simp only [SecondNoted] at noted ⊢
    cases found : (secondsByHost files paths).get? host with
    | none => simp [found] at noted
    | some seconds =>
      rw [found, Option.getD_some] at noted
      exact allPresent_iff host (List.ne_nil_of_mem noted)
  rw [GateWorld.hostsOk, List.all_eq_true]
  constructor
  · intro ok other there open_ mark inside shared
    obtain ⟨entry, present, same⟩ := (known mark.1).mpr shared
    have answer := ok entry present
    rw [same] at answer
    exact (probe mark.1 shared).mp answer mark.2
      ((secondNoted_secondsByHost files paths).mpr ⟨other, there, open_, inside⟩)
  · intro all entry present
    refine (probe entry.1 ((known entry.1).mp ⟨entry, present, rfl⟩)).mpr fun second noted => ?_
    obtain ⟨other, there, open_, inside⟩ := (secondNoted_secondsByHost files paths).mp noted
    exact all other there open_ _ inside ((known entry.1).mp ⟨entry, present, rfl⟩)

theorem pathHeadTailReady_iff (world : GateWorld) (file : GateFile) :
    world.pathHeadTailReadyInDb file = true ↔
      world.secondPresent file.head = true ∧ world.secondPresent file.tail = true := by
  unfold GateWorld.pathHeadTailReadyInDb
  split
  · next present =>
    split
    · next same => simp [present, ← same]
    · simp [present]
  · next absent => simp [absent]

theorem mem_readySet (world : GateWorld) (files : Str → GateFile) (member : path ∈ paths) :
    path ∈ world.buildHeadIngestReadySet files paths ↔
      world.gateEnabled = false ∨ (files path).activeSegment = false ∧
        (world.liveOn = false ∧
          world.hostsOk (secondsByHost files paths) (files path) = true ∨
            (files path).marked = true) := by
  unfold GateWorld.buildHeadIngestReadySet
  cases gate : world.gateEnabled with
  | false => simpa using member
  | true => simp [member]

theorem ingestedInDb_iff (world : GateWorld) (file : GateFile) :
    world.statsFileHeadIngestedInDb file = true ↔
      world.gateEnabled = false ∨ file.activeSegment = false ∧
        (world.liveOn = false ∧ world.pathHeadTailReadyInDb file = true ∨ file.marked = true) := by
  unfold GateWorld.statsFileHeadIngestedInDb
  cases world.gateEnabled <;> cases file.activeSegment <;> cases file.marked <;> simp

end Gate

/-- The two gates return the same lists exactly when the gate is off, the live ingest is on, or no
path that has its seconds shares a host with a missing one. -/
theorem gatesAgree_iff (world : GateWorld) (files : Str → GateFile) (paths : List Str) :
    world.filterPathsBatched files paths = world.filterPathsEach files paths ↔
      world.gateEnabled = false ∨ world.liveOn = true ∨ world.SharedHostsReady files paths := by
  have pointwise : world.filterPathsBatched files paths = world.filterPathsEach files paths ↔
      ∀ path ∈ paths, (path ∈ world.buildHeadIngestReadySet files paths ↔
        world.statsFileHeadIngestedInDb (files path) = true) := by
    rw [GateWorld.filterPathsBatched, GateWorld.filterPathsEach, List.partition_eq_filter_filter,
      Prod.mk.injEq]
    constructor
    · rintro ⟨ready, -⟩ path member
      have kept := congrArg (path ∈ ·) ready
      simpa [member] using kept
    · intro each
      constructor
      · refine List.filter_congr fun path member => ?_
        rw [Bool.eq_iff_iff, decide_eq_true_eq]
        exact each path member
      · refine List.filter_congr fun path member => ?_
        rw [Bool.eq_iff_iff, decide_eq_true_eq, Function.comp_apply, Bool.not_eq_true',
          ← Bool.not_eq_true]
        exact not_congr (each path member)
  rw [pointwise]
  cases gate : world.gateEnabled with
  | false => simp +contextual [mem_readySet, ingestedInDb_iff, gate]
  | true =>
    cases live : world.liveOn with
    | true => simp +contextual [mem_readySet, ingestedInDb_iff, gate, live]
    | false =>
      simp only [reduceCtorEq, false_or]
      constructor
      · intro each path member closed unmarked head tail
        have ready := (each path member).mpr ((ingestedInDb_iff world _).mpr
          (.inr ⟨closed, .inl ⟨live, (pathHeadTailReady_iff world _).mpr ⟨head, tail⟩⟩⟩))
        rw [mem_readySet world files member] at ready
        simp only [gate, closed, live, unmarked, reduceCtorEq, false_or, or_false, true_and]
          at ready
        exact (hostsOk_iff member closed).mp ready
      · intro shared path member
        rw [mem_readySet world files member, ingestedInDb_iff, pathHeadTailReady_iff]
        refine or_congr_right (and_congr_right fun closed => ?_)
        by_cases marked : (files path).marked = true
        · simp [marked]
        · rw [Bool.not_eq_true] at marked
          simp only [marked, live, true_and, reduceCtorEq, or_false]
          rw [hostsOk_iff member closed]
          constructor
          · intro all
            exact ⟨all path member closed _ (.head _) (.head _),
              all path member closed _ (.tail _ (.head _))
                (.tail _ (.head _))⟩
          · rintro ⟨head, tail⟩
            exact shared path member closed marked head tail

private def gateFile (second : Nat) : GateFile :=
  ⟨false, false, false, (lit "n1", second), (lit "n1", second)⟩

private def oneRow : GateWorld := ⟨true, false, [(lit "n1", 1)], fun _ _ _ => false⟩

/-- The seconds of the first file are stored: alone it is ready, together with a file of the same
host whose seconds are missing it is not. -/
theorem gates_part : ¬∀ (files : Str → GateFile) (paths : List Str),
    oneRow.filterPathsBatched files paths = oneRow.filterPathsEach files paths := by
  intro agree
  have one := agree (fun path => if path = lit "/a/1" then gateFile 1 else gateFile 2)
    [lit "/a/1", lit "/a/2"]
  exact absurd one (by decide +kernel)

end PerfStats.Archive
