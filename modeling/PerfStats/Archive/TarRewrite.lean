import PerfStats.Archive.Listing

namespace PerfStats.Archive

open Text
open Lib

section Rebuild

/-- One turn of the copy loop: what is appended before it, whether its checkpoint yields, and which
commands succeed. -/
structure CopyTurn where
  arrivals : List TarEntry
  stops : Bool
  tarRead : Bool
  tarWritten : Bool
  zstRead : Bool
  zstWritten : Bool

/-- What happens around a rebuild. Either listing of the check may fail; what follows the
replacement raises nothing. -/
structure RebuildEnv where
  admitted : Bool
  staged : Bool
  turn : Nat → CopyTurn
  verified : Bool
  late : List TarEntry
  locked : Bool
  stops : Bool
  sourceListed : Bool
  rewriteListed : Bool
  replaced : Bool

inductive RewriteResult where
  | done
  | failed
  | raised
  deriving DecidableEq

structure RewriteOutcome where
  before : List TarEntry
  after : List TarEntry
  result : RewriteResult
  deriving DecidableEq

def extractNamed (entries : List TarEntry) (name : Str) : Option TarEntry :=
  (entries.filter fun entry => entry.isFile && decide (entry.name = name)).getLast?

/-- One source of `_copy_union_member_into_tar`. -/
def copyFrom (entries : List TarEntry) (name : Str) (size : Nat) (read written : Bool) :
    Option TarEntry :=
  if read then
    match extractNamed entries name with
    | none => none
    | some entry => if entry.data.length = size && written then some entry else none
  else none

/-- From the tar, else from the sealed archive. -/
def copyUnionMemberIntoTar (tar : List TarEntry) (zst : Option (List TarEntry)) (name : Str)
    (size : Nat) (turn : CopyTurn) : Option TarEntry :=
  match copyFrom tar name size turn.tarRead turn.tarWritten with
  | some entry => some entry
  | none =>
    match zst with
    | none => none
    | some entries => copyFrom entries name size turn.zstRead turn.zstWritten

def copyMembers (env : RebuildEnv) (zst : Option (List TarEntry)) :
    Nat → List (Str × Nat) → List TarEntry → List TarEntry →
    List TarEntry × (RewriteResult ⊕ List TarEntry)
  | _, [], tar, copies => (tar, .inr copies)
  | i, (name, size) :: rest, tar, copies =>
    let tar := tar ++ (env.turn i).arrivals
    if (env.turn i).stops then (tar, .inl .raised)
    else
      match copyUnionMemberIntoTar tar zst name size (env.turn i) with
      | none => (tar, .inl .failed)
      | some entry => copyMembers env zst (i + 1) rest tar (copies ++ [entry])

def rewriteKeepsSourceMemberNames (sourceListed rewriteListed : Bool)
    (source rewrite : List TarEntry) : Bool :=
  sourceListed && rewriteListed && (memberSizes source).entries.all fun entry =>
    ((memberSizes rewrite).get? entry.1).isSome

/-- `sorted(union_members)`, with the sizes. -/
def sortedMembers (union : MemberMap) : List (Str × Nat) :=
  union.entries.mergeSort fun a b => decide (a.1 ≤ b.1)

def rebuildDailyTarMemberUnionInPlace (env : RebuildEnv) (union : MemberMap) (tar : List TarEntry)
    (zst : Option (List TarEntry)) : RewriteOutcome :=
  if union.entries = [] then ⟨tar, tar, .failed⟩
  else if !env.admitted then ⟨tar, tar, .failed⟩
  else if !env.staged then ⟨tar, tar, .raised⟩
  else
    match copyMembers env zst 0 (sortedMembers union) tar [] with
    | (tar, .inl result) => ⟨tar, tar, result⟩
    | (tar, .inr copies) =>
      if !env.verified then ⟨tar, tar, .failed⟩
      else
        let tar := tar ++ env.late
        if !env.locked then ⟨tar, tar, .failed⟩
        else if env.stops then ⟨tar, tar, .raised⟩
        else if !rewriteKeepsSourceMemberNames env.sourceListed env.rewriteListed tar copies then
          ⟨tar, tar, .raised⟩
        else if !env.replaced then ⟨tar, tar, .failed⟩
        else ⟨tar, copies, .done⟩

/-- A rewrite that returns true has every name in no smaller a size; one that returns false or
raises leaves the tar. -/
def RewriteSafe (outcome : RewriteOutcome) : Prop :=
  if outcome.result = .done then
    ∀ entry ∈ outcome.before, entry.isFile = true → ∃ kept ∈ outcome.after,
      kept.isFile = true ∧ kept.name = entry.name ∧ entry.data.length ≤ kept.data.length
  else outcome.after = outcome.before

def arrived (env : RebuildEnv) : Nat → Nat → List TarEntry
  | _, 0 => []
  | i, turns + 1 => (env.turn i).arrivals ++ arrived env (i + 1) turns

def CopiesAll (env : RebuildEnv) (zst : Option (List TarEntry)) :
    Nat → List (Str × Nat) → List TarEntry → Prop
  | _, [], _ => True
  | i, (name, size) :: rest, tar =>
    (env.turn i).stops = false ∧
      copyUnionMemberIntoTar (tar ++ (env.turn i).arrivals) zst name size (env.turn i) ≠ none ∧
      CopiesAll env zst (i + 1) rest (tar ++ (env.turn i).arrivals)

def appendedSince (env : RebuildEnv) (union : MemberMap) : List TarEntry :=
  arrived env 0 (sortedMembers union).length ++ env.late

structure Replaces (env : RebuildEnv) (union : MemberMap) (tar : List TarEntry)
    (zst : Option (List TarEntry)) : Prop where
  some_member : union.entries ≠ []
  admitted : env.admitted = true
  staged : env.staged = true
  copies : CopiesAll env zst 0 (sortedMembers union) tar
  verified : env.verified = true
  locked : env.locked = true
  passes : env.stops = false
  listed : env.sourceListed = true ∧ env.rewriteListed = true
  names : ∀ entry ∈ tar ++ appendedSince env union, entry.isFile = true →
    (union.get? entry.name).isSome
  replaced : env.replaced = true

variable {env : RebuildEnv} {zst : Option (List TarEntry)} {union : MemberMap}
  {tar : List TarEntry}

variable {made : List TarEntry} {name : Str} {size : Nat} {entry : TarEntry}
  {entries : List TarEntry} {members : List (Str × Nat)}

theorem extractNamed_eq
    (found : extractNamed entries name = some entry) : entry.isFile = true ∧ entry.name = name := by
  have member := List.mem_of_getLast? found
  rw [List.mem_filter, Bool.and_eq_true, decide_eq_true_eq] at member
  exact member.2

theorem copyFrom_eq {read written : Bool}
    (copied : copyFrom entries name size read written = some entry) :
    entry.isFile = true ∧ entry.name = name ∧ entry.data.length = size := by
  rw [copyFrom] at copied
  split at copied
  next =>
    split at copied
    next => cases copied
    next found =>
      split at copied
      next fits =>
        cases copied
        rw [Bool.and_eq_true, decide_eq_true_eq] at fits
        exact ⟨(extractNamed_eq found).1, (extractNamed_eq found).2, fits.1⟩
      next => cases copied
  next => cases copied

theorem copyUnionMember_eq {turn : CopyTurn}
    (copied : copyUnionMemberIntoTar tar zst name size turn = some entry) :
    entry.isFile = true ∧ entry.name = name ∧ entry.data.length = size := by
  unfold copyUnionMemberIntoTar at copied
  split at copied
  next found =>
    cases copied
    exact copyFrom_eq found
  next =>
    split at copied
    next => cases copied
    next => exact copyFrom_eq copied

theorem copyMembers_all {i : Nat} (copies : List TarEntry)
    (all : CopiesAll env zst i members tar) :
    ∃ made, copyMembers env zst i members tar copies =
        (tar ++ arrived env i members.length, .inr (copies ++ made)) ∧
      made.map (fun entry => (entry.name, entry.data.length)) = members ∧
      ∀ entry ∈ made, entry.isFile = true := by
  induction members generalizing i tar copies with
  | nil => exact ⟨[], by simp [copyMembers, arrived], rfl, by simp⟩
  | cons member rest ih =>
    obtain ⟨name, size⟩ := member
    obtain ⟨goes, copied, later⟩ := all
    cases found : copyUnionMemberIntoTar (tar ++ (env.turn i).arrivals) zst name size
        (env.turn i) with
    | none => exact absurd found copied
    | some entry =>
      obtain ⟨file, rfl, rfl⟩ := copyUnionMember_eq found
      obtain ⟨made, equal, alike, files⟩ := ih (copies ++ [entry]) later
      refine ⟨entry :: made, ?_, by rw [List.map_cons, alike], ?_⟩
      · simp [copyMembers, goes, found, equal, arrived]
      · intro other member
        cases member with
        | head => exact file
        | tail _ later => exact files other later

theorem copyMembers_stopped {i : Nat} (copies : List TarEntry)
    (stopped : ¬ CopiesAll env zst i members tar) :
    ∃ grown result, copyMembers env zst i members tar copies = (grown, .inl result) ∧
      result ≠ .done := by
  induction members generalizing i tar copies with
  | nil => exact absurd True.intro stopped
  | cons member rest ih =>
    obtain ⟨name, size⟩ := member
    by_cases stops : (env.turn i).stops = true
    · exact ⟨tar ++ (env.turn i).arrivals, .raised, by simp [copyMembers, stops], by decide⟩
    · have goes : (env.turn i).stops = false := by simpa using stops
      cases found : copyUnionMemberIntoTar (tar ++ (env.turn i).arrivals) zst name size
          (env.turn i) with
      | none =>
        exact ⟨tar ++ (env.turn i).arrivals, .failed, by simp [copyMembers, goes, found],
          by decide⟩
      | some entry =>
        have later : ¬ CopiesAll env zst (i + 1) rest (tar ++ (env.turn i).arrivals) := by
          intro all
          exact stopped ⟨goes, by simp [found], all⟩
        obtain ⟨grown, result, equal, other⟩ := ih (copies ++ [entry]) later
        exact ⟨grown, result, by simp [copyMembers, goes, found, equal], other⟩

theorem mem_sortedMembers {member : Str × Nat} :
    member ∈ sortedMembers union ↔ union.get? member.1 = some member.2 := by
  rw [sortedMembers, List.mem_mergeSort, Dict.get?_eq_some]

def Copies (union : MemberMap) (made : List TarEntry) : Prop :=
  made.map (fun entry => (entry.name, entry.data.length)) = sortedMembers union ∧
    ∀ entry ∈ made, entry.isFile = true

theorem Copies.copied (copies : Copies union made) (listed : union.get? name = some size) :
    ∃ kept ∈ made, kept.isFile = true ∧ kept.name = name ∧ kept.data.length = size := by
  have member : (name, size) ∈ sortedMembers union := mem_sortedMembers.mpr listed
  rw [← copies.1] at member
  obtain ⟨kept, inside, alike⟩ := List.mem_map.mp member
  cases alike
  exact ⟨kept, inside, copies.2 kept inside, rfl, rfl⟩

theorem Copies.listed (copies : Copies union made) {kept : TarEntry}
    (member : kept ∈ made) : union.get? kept.name = some kept.data.length := by
  have inside := List.mem_map_of_mem (f := fun entry => (entry.name, entry.data.length)) member
  rw [copies.1] at inside
  exact mem_sortedMembers.mp inside

theorem keepsNames_iff (env : RebuildEnv) {source : List TarEntry} (copies : Copies union made) :
    rewriteKeepsSourceMemberNames env.sourceListed env.rewriteListed source made = true ↔
      (env.sourceListed = true ∧ env.rewriteListed = true) ∧
        ∀ entry ∈ source, entry.isFile = true → (union.get? entry.name).isSome := by
  have names : ∀ name, ((memberSizes made).get? name).isSome ↔ (union.get? name).isSome := by
    intro name
    rw [Option.isSome_iff_exists, Option.isSome_iff_exists]
    constructor
    · intro ⟨size, found⟩
      obtain ⟨kept, member, file, rfl, rfl⟩ := memberSizes_mem found
      exact ⟨_, copies.listed member⟩
    · intro ⟨size, found⟩
      obtain ⟨kept, member, file, rfl, rfl⟩ := copies.copied found
      obtain ⟨size, noted, -⟩ := le_memberSizes member file
      exact ⟨size, noted⟩
  rw [rewriteKeepsSourceMemberNames, Bool.and_eq_true, Bool.and_eq_true, List.all_eq_true]
  constructor
  · intro ⟨listed, all⟩
    refine ⟨listed, ?_⟩
    intro entry member file
    obtain ⟨size, noted, -⟩ := le_memberSizes member file
    exact (names _).mp (all (entry.name, size) (Dict.get?_eq_some.mp noted))
  · intro ⟨listed, all⟩
    refine ⟨listed, ?_⟩
    intro member inside
    obtain ⟨entry, there, file, name, -⟩ := memberSizes_mem (Dict.get?_eq_some.mpr inside)
    exact (names _).mpr (name ▸ all entry there file)

theorem rebuild_replaces (replaces : Replaces env union tar zst) :
    ∃ made, Copies union made ∧ rebuildDailyTarMemberUnionInPlace env union tar zst =
      ⟨tar ++ appendedSince env union, made, .done⟩ := by
  obtain ⟨made, equal, copies⟩ := copyMembers_all [] replaces.copies
  refine ⟨made, copies, ?_⟩
  have kept := (keepsNames_iff env copies).mpr ⟨replaces.listed, replaces.names⟩
  rw [appendedSince] at kept
  simp [rebuildDailyTarMemberUnionInPlace, replaces.some_member, replaces.admitted, replaces.staged,
    equal, replaces.verified, replaces.locked, replaces.passes, kept, replaces.replaced,
    appendedSince]

theorem rebuild_leaves (stays : ¬ Replaces env union tar zst) :
    (rebuildDailyTarMemberUnionInPlace env union tar zst).result ≠ .done ∧
      (rebuildDailyTarMemberUnionInPlace env union tar zst).after =
        (rebuildDailyTarMemberUnionInPlace env union tar zst).before := by
  unfold rebuildDailyTarMemberUnionInPlace
  by_cases empty : union.entries = []
  · simp [empty]
  by_cases admitted : env.admitted = true
  swap
  · simp [empty, admitted]
  by_cases staged : env.staged = true
  swap
  · simp [empty, admitted, staged]
  by_cases all : CopiesAll env zst 0 (sortedMembers union) tar
  swap
  · obtain ⟨grown, result, equal, other⟩ := copyMembers_stopped [] all
    simp [empty, admitted, staged, equal, other]
  obtain ⟨made, equal, copies⟩ := copyMembers_all [] all
  by_cases verified : env.verified = true
  swap
  · simp [empty, admitted, staged, equal, verified]
  by_cases locked : env.locked = true
  swap
  · simp [empty, admitted, staged, equal, verified, locked]
  by_cases stops : env.stops = true
  · simp [empty, admitted, staged, equal, verified, locked, stops]
  by_cases kept : rewriteKeepsSourceMemberNames env.sourceListed env.rewriteListed
      (tar ++ (arrived env 0 (sortedMembers union).length ++ env.late)) made = true
  swap
  · simp [empty, admitted, staged, equal, verified, locked, stops, kept]
  by_cases replaced : env.replaced = true
  · have names := (keepsNames_iff env copies).mp kept
    exact absurd ⟨empty, admitted, staged, all, verified, locked, by simpa using stops, names.1,
      names.2, replaced⟩ stays
  · simp [empty, admitted, staged, equal, verified, locked, stops, kept, replaced]

/-- Where the rebuild gets to the replacement, nothing appended since the union map was taken is
larger than the map says. -/
def MapStillGood (env : RebuildEnv) (union : MemberMap) (tar : List TarEntry)
    (zst : Option (List TarEntry)) : Prop :=
  Replaces env union tar zst → ∀ entry ∈ appendedSince env union, entry.isFile = true →
    ∀ size, union.get? entry.name = some size → entry.data.length ≤ size

theorem rebuild_safe_iff (env : RebuildEnv) (union : MemberMap) (tar : List TarEntry)
    (zst : Option (List TarEntry))
    (taken : ∀ entry ∈ tar, entry.isFile = true → ∃ size,
      union.get? entry.name = some size ∧ entry.data.length ≤ size) :
    RewriteSafe (rebuildDailyTarMemberUnionInPlace env union tar zst) ↔
      MapStillGood env union tar zst := by
  by_cases replaces : Replaces env union tar zst
  swap
  · obtain ⟨other, stays⟩ := rebuild_leaves replaces
    rw [RewriteSafe, if_neg other]
    constructor
    · intro _ reached
      exact absurd reached replaces
    · intro _
      exact stays
  · obtain ⟨made, copies, equal⟩ := rebuild_replaces replaces
    rw [equal, RewriteSafe]
    constructor
    · intro safe _ entry member file size listed
      obtain ⟨kept, inside, keptFile, name, le⟩ := safe entry (List.mem_append_right _ member) file
      have same := copies.listed inside
      rw [name, listed] at same
      cases same
      exact le
    · intro good entry member file
      have listed : ∃ size, union.get? entry.name = some size ∧ entry.data.length ≤ size := by
        rcases List.mem_append.mp member with first | later
        · exact taken entry first file
        · obtain ⟨size, found⟩ := Option.isSome_iff_exists.mp (replaces.names entry member file)
          exact ⟨size, found, good replaces entry later file size found⟩
      obtain ⟨size, found, le⟩ := listed
      obtain ⟨kept, inside, keptFile, name, rfl⟩ := copies.copied found
      exact ⟨kept, inside, keptFile, name, le⟩

end Rebuild

section Dedupe

/-- One entry of the first pass of `_rewrite_daily_tar_largest_member_wins`. -/
def keepStep (keep : Dict Str (Nat × Nat)) (entry : TarEntry × Nat) :
    Dict Str (Nat × Nat) :=
  if !entry.1.isFile then keep
  else
    match keep.get? entry.1.name with
    | none => keep.set entry.1.name (entry.1.data.length, entry.2)
    | some prev =>
      if prev.1 < entry.1.data.length ∨ (entry.1.data.length = prev.1 ∧ prev.2 < entry.2) then
        keep.set entry.1.name (entry.1.data.length, entry.2)
      else keep

/-- `file_keep`: size and index of the file to keep of each name. -/
def fileKeep (entries : List TarEntry) : Dict Str (Nat × Nat) :=
  entries.zipIdx.foldl keepStep Dict.empty

def isKept (entries : List TarEntry) (entry : TarEntry × Nat) : Bool :=
  !entry.1.isFile || ((fileKeep entries).get? entry.1.name).map Prod.snd == some entry.2

def largestMemberWins (entries : List TarEntry) : List TarEntry :=
  (entries.zipIdx.filter (isKept entries)).map Prod.fst

structure DedupeEnv where
  locked : Bool
  walked : Bool
  stopsFirst : Bool
  stopsLater : Bool
  verified : Bool
  sourceListed : Bool
  rewriteListed : Bool
  replaced : Bool

def dedupeTarKeepLargestFilePerMember (env : DedupeEnv) (tar : List TarEntry) : RewriteOutcome :=
  let rewrite := largestMemberWins tar
  if !env.locked then ⟨tar, tar, .failed⟩
  else if !env.walked then ⟨tar, tar, .failed⟩
  else if env.stopsFirst then ⟨tar, tar, .raised⟩
  else if (tar.filter (·.isFile)).length = (fileKeep tar).size then ⟨tar, tar, .done⟩
  else if env.stopsLater then ⟨tar, tar, .raised⟩
  else if !env.verified ||
      !rewriteKeepsSourceMemberNames env.sourceListed env.rewriteListed tar rewrite then
    ⟨tar, tar, .failed⟩
  else if !env.replaced then ⟨tar, tar, .failed⟩
  else ⟨tar, rewrite, .done⟩

def LastLargest (entries : List TarEntry) (entry : TarEntry) : Prop :=
  ∃ front back, entries = front ++ entry :: back ∧
    (∀ other ∈ front, other.isFile = true → other.name = entry.name →
      other.data.length ≤ entry.data.length) ∧
    ∀ other ∈ back, other.isFile = true → other.name = entry.name →
      other.data.length < entry.data.length

structure OnePerName (before after : List TarEntry) : Prop where
  distinct : ((after.filter (·.isFile)).map (·.name)).Nodup
  largest : ∀ kept ∈ after, kept.isFile = true → LastLargest before kept
  all : ∀ entry ∈ before, entry.isFile = true →
    ∃ kept ∈ after, kept.isFile = true ∧ kept.name = entry.name

def DedupeSafe (outcome : RewriteOutcome) : Prop :=
  outcome.after = outcome.before ∨ OnePerName outcome.before outcome.after

def Noted (entries : List TarEntry) (name : Str) : Option (Nat × Nat) → Prop
  | none => ∀ entry ∈ entries, entry.isFile = true → entry.name ≠ name
  | some (size, i) => ∃ front entry back, entries = front ++ entry :: back ∧ front.length = i ∧
      entry.isFile = true ∧ entry.name = name ∧ entry.data.length = size ∧
      (∀ other ∈ front, other.isFile = true → other.name = name → other.data.length ≤ size) ∧
      ∀ other ∈ back, other.isFile = true → other.name = name → other.data.length < size

variable {entries : List TarEntry} {name : Str}

theorem Noted.skip {note : Option (Nat × Nat)} (last : TarEntry) (noted : Noted entries name note)
    (aside : last.isFile = true → last.name = name → ∃ prev, note = some prev ∧
      last.data.length < prev.1) : Noted (entries ++ [last]) name note := by
  cases note with
  | none =>
    intro entry member file same
    rcases List.mem_append.mp member with earlier | here
    · exact noted entry earlier file same
    · cases List.mem_singleton.mp here
      obtain ⟨prev, absurd_none, -⟩ := aside file same
      cases absurd_none
  | some prev =>
    obtain ⟨front, entry, back, rfl, index, file, same, size, front_le, back_lt⟩ := noted
    refine ⟨front, entry, back ++ [last], by simp, index, file, same, size, front_le, ?_⟩
    intro other member otherFile otherName
    rcases List.mem_append.mp member with earlier | here
    · exact back_lt other earlier otherFile otherName
    · cases List.mem_singleton.mp here
      obtain ⟨_, found, less⟩ := aside otherFile otherName
      cases found
      exact less

theorem Noted.take {last : TarEntry} (file : last.isFile = true)
    (largest : ∀ other ∈ entries, other.isFile = true → other.name = last.name →
      other.data.length ≤ last.data.length) :
    Noted (entries ++ [last]) last.name (some (last.data.length, entries.length)) :=
  ⟨entries, last, [], rfl, rfl, file, rfl, rfl, largest, by simp⟩

theorem Noted.le {size i : Nat}
    (noted : Noted entries name (some (size, i))) {other : TarEntry} (member : other ∈ entries)
    (file : other.isFile = true) (same : other.name = name) : other.data.length ≤ size := by
  obtain ⟨front, entry, back, rfl, -, -, -, length, front_le, back_lt⟩ := noted
  rcases List.mem_append.mp member with before | later
  · exact front_le other before file same
  · rcases List.mem_cons.mp later with rfl | after
    · exact Nat.le_of_eq length
    · exact Nat.le_of_lt (back_lt other after file same)

theorem fileKeep_noted (entries : List TarEntry) (name : Str) :
    Noted entries name ((fileKeep entries).get? name) := by
  induction entries using List.reverseRecOn with
  | nil =>
    nofun
  | append_singleton before last ih =>
    have step : fileKeep (before ++ [last]) = keepStep (fileKeep before) (last, before.length) := by
      simp [fileKeep, List.zipIdx_append]
    rw [step, keepStep]
    by_cases file : last.isFile = true
    swap
    · simp only [file, Bool.not_false, if_true]
      apply Noted.skip last ih
      intro isFile
      exact absurd isFile file
    simp only [file, Bool.not_true, Bool.false_eq_true, if_false]
    by_cases same : last.name = name
    · rw [same]
      cases found : (fileKeep before).get? name with
      | none =>
        rw [found] at ih
        rw [Dict.get?_set_self, ← same]
        apply Noted.take file
        intro other member otherFile otherName
        exact absurd (otherName.trans same) (ih other member otherFile)
      | some prev =>
        rw [found] at ih
        dsimp only
        split
        next wins =>
          rw [Dict.get?_set_self, ← same]
          apply Noted.take file
          intro other member otherFile otherName
          have le := ih.le member otherFile (otherName.trans same)
          omega
        next loses =>
          rw [found]
          apply Noted.skip last ih
          intro _ _
          refine ⟨prev, rfl, ?_⟩
          obtain ⟨front, entry, back, equal, index, -⟩ := ih
          have inside : prev.2 < before.length := by
            rw [equal, List.length_append, List.length_cons, index]
            omega
          omega
    · have other : ∀ value, ((fileKeep before).set last.name value).get? name =
          (fileKeep before).get? name := fun value =>
        Dict.get?_set_of_ne _ (fun equal => same equal.symm) value
      have kept := ih.skip last fun _ equal => absurd equal same
      split
      next => rwa [other]
      next =>
        split
        next => rwa [other]
        next => exact kept

theorem mem_largestMemberWins {kept : TarEntry} : kept ∈ largestMemberWins entries ↔
      ∃ i, (kept, i) ∈ entries.zipIdx ∧ isKept entries (kept, i) = true := by
  rw [largestMemberWins, List.mem_map]
  constructor
  · intro ⟨entry, member, same⟩
    rw [List.mem_filter] at member
    exact ⟨entry.2, same ▸ member.1, same ▸ member.2⟩
  · intro ⟨i, member, keeps⟩
    exact ⟨(kept, i), List.mem_filter.mpr ⟨member, keeps⟩, rfl⟩

theorem isKept_file {entry : TarEntry × Nat}
    (file : entry.1.isFile = true) : isKept entries entry = true ↔
      ∃ size, (fileKeep entries).get? entry.1.name = some (size, entry.2) := by
  rw [isKept, file]
  cases (fileKeep entries).get? entry.1.name with
  | none => simp
  | some prev => simp [Prod.ext_iff]

theorem noted_at {size i : Nat} {entry : TarEntry}
    (noted : Noted entries name (some (size, i))) (member : (entry, i) ∈ entries.zipIdx) :
    entry.name = name ∧ LastLargest entries entry := by
  obtain ⟨front, other, back, rfl, rfl, file, same, length, front_le, back_lt⟩ := noted
  have here := List.mem_zipIdx_iff_getElem?.mp member
  rw [List.getElem?_append_right le_rfl, Nat.sub_self, List.getElem?_cons_zero,
    Option.some_inj] at here
  subst here
  refine ⟨same, front, back, rfl, ?_, ?_⟩
  · intro entry member isFile equal
    exact length ▸ front_le entry member isFile (equal.trans same)
  · intro entry member isFile equal
    exact length ▸ back_lt entry member isFile (equal.trans same)

theorem largestMemberWins_onePerName (entries : List TarEntry) :
    OnePerName entries (largestMemberWins entries) := by
  refine ⟨?_, ?_, ?_⟩
  · have files : (largestMemberWins entries).filter (·.isFile) =
        ((entries.zipIdx.filter (isKept entries)).filter fun entry => entry.1.isFile).map
          Prod.fst := by
      rw [largestMemberWins, List.filter_map]
      rfl
    rw [files, List.map_map]
    have indexed : ((entries.zipIdx.filter (isKept entries)).filter
        fun entry => entry.1.isFile).Nodup := by
      apply List.Nodup.filter
      apply List.Nodup.filter
      exact List.Nodup.of_map Prod.snd (by simp [List.nodup_range'])
    apply List.Nodup.map_on _ indexed
    intro a memberA b memberB same
    rw [List.mem_filter, List.mem_filter] at memberA memberB
    obtain ⟨sizeA, notedA⟩ := (isKept_file memberA.2).mp memberA.1.2
    obtain ⟨sizeB, notedB⟩ := (isKept_file memberB.2).mp memberB.1.2
    have name : a.1.name = b.1.name := same
    rw [name, notedB] at notedA
    have index : b.2 = a.2 := (Prod.mk.inj (Option.some_inj.mp notedA)).2
    have entryA := List.mem_zipIdx_iff_getElem?.mp memberA.1.1
    have entryB := List.mem_zipIdx_iff_getElem?.mp memberB.1.1
    rw [← index, entryB] at entryA
    exact Prod.ext (Option.some_inj.mp entryA).symm index.symm
  · intro kept member file
    obtain ⟨i, inside, keeps⟩ := mem_largestMemberWins.mp member
    obtain ⟨size, found⟩ := (isKept_file file).mp keeps
    have noted := fileKeep_noted entries kept.name
    rw [found] at noted
    exact (noted_at noted inside).2
  · intro entry member file
    have noted := fileKeep_noted entries entry.name
    cases found : (fileKeep entries).get? entry.name with
    | none =>
      rw [found] at noted
      exact absurd rfl (noted entry member file)
    | some prev =>
      rw [found] at noted
      obtain ⟨front, other, back, equal, index, otherFile, name, -⟩ := noted
      refine ⟨other, mem_largestMemberWins.mpr ⟨prev.2, ?_, ?_⟩, otherFile, name⟩
      · apply List.mem_zipIdx_iff_getElem?.mpr
        rw [equal, ← index, List.getElem?_append_right le_rfl, Nat.sub_self,
          List.getElem?_cons_zero]
      · exact (isKept_file otherFile).mpr ⟨prev.1, by rw [name, found]⟩

theorem dedupe_safe (env : DedupeEnv) (tar : List TarEntry) :
    DedupeSafe (dedupeTarKeepLargestFilePerMember env tar) := by
  unfold dedupeTarKeepLargestFilePerMember
  dsimp only
  repeat' split
  all_goals first
    | exact .inl rfl
    | exact .inr (largestMemberWins_onePerName tar)

end Dedupe

section Result

theorem union_taken (tar : List TarEntry) (zstMembers : MemberMap) :
    ∀ entry ∈ tar, entry.isFile = true → ∃ size,
      (archiveMemberMapsUnion (memberSizes tar) zstMembers).get? entry.name = some size ∧
        entry.data.length ≤ size := by
  intro entry member file
  obtain ⟨size, found, le⟩ := le_memberSizes member file
  obtain ⟨larger, listed, le'⟩ := le_union zstMembers found
  exact ⟨larger, listed, le_trans le le'⟩

/-- The rewrites lose no appended member just where the union map is still good at the replacement;
the removal of repeated names never does. -/
theorem tar_rewrites_safe_iff (env : RebuildEnv) (dedupeEnv : DedupeEnv) (tar other : List TarEntry)
    (zst : Option (List TarEntry)) (zstMembers : MemberMap) :
    RewriteSafe (rebuildDailyTarMemberUnionInPlace env
        (archiveMemberMapsUnion (memberSizes tar) zstMembers) tar zst) ∧
        DedupeSafe (dedupeTarKeepLargestFilePerMember dedupeEnv other) ↔
      MapStillGood env (archiveMemberMapsUnion (memberSizes tar) zstMembers) tar zst := by
  rw [rebuild_safe_iff _ _ _ _ (union_taken tar zstMembers)]
  exact and_iff_left (dedupe_safe dedupeEnv other)

def grownEnv : RebuildEnv :=
  ⟨true, true, fun _ => ⟨[], false, true, true, true, true⟩, true, [⟨lit "b", [1, 2], true⟩], true,
    false, true, true, true⟩

def grownTar : List TarEntry := [⟨lit "b", [1], true⟩]

def grownZst : List TarEntry := [⟨lit "a", [1], true⟩]

theorem grown_sorted :
    sortedMembers (archiveMemberMapsUnion (memberSizes grownTar) (memberSizes grownZst)) =
      [(lit "a", 1), (lit "b", 1)] := by
  have entries : (archiveMemberMapsUnion (memberSizes grownTar) (memberSizes grownZst)).entries =
      [(lit "a", 1), (lit "b", 1)] := by decide +kernel
  exact List.mergeSort_of_pairwise (by decide +kernel)

theorem rebuild_loses_growth :
    ¬ ∀ (env : RebuildEnv) (tar : List TarEntry) (zst : Option (List TarEntry))
      (zstMembers : MemberMap), RewriteSafe (rebuildDailyTarMemberUnionInPlace env
        (archiveMemberMapsUnion (memberSizes tar) zstMembers) tar zst) := by
  intro safe
  have lost := safe grownEnv grownTar (some grownZst) (memberSizes grownZst)
  have outcome : rebuildDailyTarMemberUnionInPlace grownEnv
      (archiveMemberMapsUnion (memberSizes grownTar) (memberSizes grownZst)) grownTar
      (some grownZst) = ⟨grownTar ++ [⟨lit "b", [1, 2], true⟩], grownZst ++ grownTar, .done⟩ := by
    rw [rebuildDailyTarMemberUnionInPlace, grown_sorted]
    decide +kernel
  rw [outcome, RewriteSafe, if_pos rfl] at lost
  obtain ⟨kept, member, -, name, le⟩ := lost ⟨lit "b", [1, 2], true⟩ (by simp) rfl
  simp only [grownTar, grownZst, List.cons_append, List.nil_append, List.mem_cons,
    List.not_mem_nil, or_false] at member
  obtain rfl | rfl := member
  · exact absurd name (by decide)
  · exact absurd le (by decide)

end Result

end PerfStats.Archive
