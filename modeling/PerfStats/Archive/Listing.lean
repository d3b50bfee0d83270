import PerfStats.Archive.Seal
import PerfStats.Archive.TarFormat

namespace PerfStats.Archive

open Text
open Lib

structure TarEntry where
  name : Str
  data : Bytes
  isFile : Bool
  deriving DecidableEq

def keepLarger (sizes : MemberMap) (name : Str) (size : Nat) : MemberMap :=
  match sizes.get? name with
  | none => sizes.set name size
  | some prev => if prev < size then sizes.set name size else sizes

/-- `_read_tar_file_member_sizes_unlocked` of a tar that can be listed. -/
def memberSizes (entries : List TarEntry) : MemberMap :=
  (entries.filter (·.isFile)).foldl
    (fun sizes entry => keepLarger sizes entry.name entry.data.length) Dict.empty

def archiveMemberMapsUnion (tarMembers zstMembers : MemberMap) : MemberMap :=
  tarMembers.entries.foldl
    (fun union entry =>
      match union.get? entry.1 with
      | none => union.set entry.1 entry.2
      | some prev => if prev ≤ entry.2 then union.set entry.1 entry.2 else union)
    zstMembers

theorem get?_keepLarger (sizes : MemberMap) (name other : Str) (size : Nat) :
    (keepLarger sizes name size).get? other =
      if other = name then some (max ((sizes.get? name).getD 0) size) else sizes.get? other := by
  unfold keepLarger
  split
  next absent => simp [Dict.get?_set, absent]
  next prev found =>
    split
    next larger =>
      rw [Dict.get?_set, found, Option.getD_some, Nat.max_eq_right (Nat.le_of_lt larger)]
    next smaller =>
      split
      next same => rw [same, found, Option.getD_some, Nat.max_eq_left (Nat.le_of_not_lt smaller)]
      next => rfl

theorem memberSizes_append_one (entries : List TarEntry) (entry : TarEntry) :
    memberSizes (entries ++ [entry]) = if entry.isFile then
      keepLarger (memberSizes entries) entry.name entry.data.length else memberSizes entries := by
  by_cases file : entry.isFile
  · simp [memberSizes, file]
  · simp [memberSizes, file]

theorem le_memberSizes {entries : List TarEntry} {entry : TarEntry} (member : entry ∈ entries)
    (file : entry.isFile = true) :
    ∃ size, (memberSizes entries).get? entry.name = some size ∧ entry.data.length ≤ size := by
  induction entries using List.reverseRecOn with
  | nil => cases member
  | append_singleton before last ih =>
    rw [memberSizes_append_one]
    rcases List.mem_append.mp member with earlier | here
    · obtain ⟨size, found, le⟩ := ih earlier
      split
      · rw [get?_keepLarger]
        split
        next same =>
          refine ⟨_, rfl, ?_⟩
          rw [← same, found]
          exact le_trans le (Nat.le_max_left _ _)
        next => exact ⟨size, found, le⟩
      · exact ⟨size, found, le⟩
    · cases List.mem_singleton.mp here
      rw [if_pos file, get?_keepLarger, if_pos rfl]
      exact ⟨_, rfl, Nat.le_max_right _ _⟩

theorem memberSizes_mem {entries : List TarEntry} {name : Str} {size : Nat}
    (found : (memberSizes entries).get? name = some size) :
    ∃ entry ∈ entries, entry.isFile = true ∧ entry.name = name ∧ entry.data.length = size := by
  induction entries using List.reverseRecOn generalizing size with
  | nil => cases found
  | append_singleton before last ih =>
    have earlier : (memberSizes before).get? name = some size → ∃ entry ∈ before ++ [last],
        entry.isFile = true ∧ entry.name = name ∧ entry.data.length = size := by
      intro there
      obtain ⟨entry, member, rest⟩ := ih there
      exact ⟨entry, List.mem_append_left _ member, rest⟩
    rw [memberSizes_append_one] at found
    split at found
    next file =>
      rw [get?_keepLarger] at found
      split at found
      next same =>
        have largest := Option.some_inj.mp found
        by_cases larger : ((memberSizes before).get? last.name).getD 0 ≤ last.data.length
        · rw [Nat.max_eq_right larger] at largest
          exact ⟨last, by simp, file, same.symm, largest⟩
        · rw [Nat.max_eq_left (Nat.le_of_not_le larger)] at largest
          cases there : (memberSizes before).get? last.name with
          | none => simp [there] at larger
          | some prev =>
            rw [there, Option.getD_some] at largest
            apply earlier
            rw [same, there, largest]
      next => exact earlier found
    next => exact earlier found

theorem le_union {tarMembers : MemberMap} (zstMembers : MemberMap) {name : Str} {size : Nat}
    (found : tarMembers.get? name = some size) :
    ∃ larger, (archiveMemberMapsUnion tarMembers zstMembers).get? name = some larger ∧
      size ≤ larger := by
  have member := Dict.get?_eq_some.mp found
  rw [archiveMemberMapsUnion]
  generalize tarMembers.entries = entries at member
  induction entries using List.reverseRecOn with
  | nil => cases member
  | append_singleton before last ih =>
    rw [List.foldl_append, List.foldl_cons, List.foldl_nil]
    rcases List.mem_append.mp member with earlier | here
    · obtain ⟨larger, there, le⟩ := ih earlier
      split
      next absent =>
        rw [Dict.get?_set]
        split
        next same => rw [← same, there] at absent; cases absent
        next => exact ⟨larger, there, le⟩
      next prev noted =>
        split
        next grows =>
          rw [Dict.get?_set]
          split
          next same =>
            rw [← same, there] at noted
            cases noted
            exact ⟨_, rfl, le_trans le grows⟩
          next => exact ⟨larger, there, le⟩
        next => exact ⟨larger, there, le⟩
    · cases List.mem_singleton.mp here
      split
      next absent => exact ⟨size, Dict.get?_set_self _ _ _, le_rfl⟩
      next prev noted =>
        split
        next => exact ⟨size, Dict.get?_set_self _ _ _, le_rfl⟩
        next less => exact ⟨prev, noted, Nat.le_of_not_le less⟩

section Merging

def larger : Option Nat → Option Nat → Option Nat
  | none, b => b
  | some a, none => some a
  | some a, some b => some (max a b)

variable (sizes : MemberMap) (a : Option Nat)

@[simp] theorem larger_none : larger a none = a := by
  cases a <;> rfl

@[simp] theorem none_larger : larger none a = a := rfl

theorem larger_assoc (b c : Option Nat) : larger (larger a b) c = larger a (larger b c) := by
  cases a <;> cases b <;> cases c <;> simp [larger, Nat.max_assoc]

theorem larger_comm (b : Option Nat) : larger a b = larger b a := by
  cases a <;> cases b <;> simp [larger, Nat.max_comm]

@[simp] theorem larger_self : larger a a = a := by
  cases a <;> simp [larger]

theorem get?_keepLarger_larger (name other : Str) (size : Nat) :
    (keepLarger sizes name size).get? other =
      if other = name then larger (sizes.get? other) (some size) else sizes.get? other := by
  rw [get?_keepLarger]
  split
  next same =>
    rw [same]
    cases sizes.get? name <;> simp [larger]
  next => rfl

theorem memberSizes_append (entries more : List TarEntry) (name : Str) :
    (memberSizes (entries ++ more)).get? name =
      larger ((memberSizes entries).get? name) ((memberSizes more).get? name) := by
  induction more using List.reverseRecOn with
  | nil => simp [memberSizes]
  | append_singleton before last ih =>
    rw [← List.append_assoc, memberSizes_append_one, memberSizes_append_one]
    split
    next =>
      rw [get?_keepLarger_larger, get?_keepLarger_larger, ih]
      split
      · rw [larger_assoc]
      · rfl
    next => exact ih

def mergeMembers (sizes added : MemberMap) : MemberMap :=
  added.entries.foldl (fun sizes entry => keepLarger sizes entry.1 entry.2) sizes

theorem get?_foldl_keepLarger (entries : List (Str × Nat)) (distinct : (entries.map (·.1)).Nodup)
    (sizes : MemberMap) (name : Str) :
    (entries.foldl (fun sizes entry => keepLarger sizes entry.1 entry.2) sizes).get? name =
      larger (sizes.get? name) ((entries.find? fun entry => decide (entry.1 = name)).map (·.2)) := by
  induction entries generalizing sizes with
  | nil => simp
  | cons entry rest ih =>
    obtain ⟨fresh, later⟩ := List.nodup_cons.mp distinct
    rw [List.foldl_cons, ih later, get?_keepLarger_larger]
    by_cases same : name = entry.1
    · have absent : rest.find? (fun entry => decide (entry.1 = name)) = none := by
        rw [List.find?_eq_none]
        intro other member equal
        apply fresh
        dsimp only
        rw [← same, ← of_decide_eq_true equal]
        exact List.mem_map_of_mem member
      rw [absent, if_pos same, List.find?_cons_of_pos (by simp [same])]
      simp
    · rw [if_neg same, List.find?_cons_of_neg (by simpa using fun equal => same equal.symm)]

theorem get?_mergeMembers (added : MemberMap) (name : Str) :
    (mergeMembers sizes added).get? name = larger (sizes.get? name) (added.get? name) :=
  get?_foldl_keepLarger added.entries added.distinct sizes name

end Merging

end PerfStats.Archive
