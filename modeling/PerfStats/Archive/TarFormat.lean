import PerfStats.Lib.FileWrites
import PerfStats.Lib.Records
import PerfStats.Text

/-! Tar files as their readers see them. -/

namespace PerfStats.Archive

open Text
open Lib

section Headers

/-- What stands where a header is read: a zero block, a short one, no header, an extended header
that none follows, or a member whose data begins after `used` bytes. -/
inductive HeaderRead where
  | ended
  | short
  | invalid
  | broken (used : Nat)
  | member (name : Str) (size used : Nat)
  deriving DecidableEq

def blockSize : Nat := 512

/-- The tar library: its header reader, and the header it builds for a name without a null
character, a size and a number of dots. -/
structure TarCodec where
  read : Bytes → HeaderRead
  tobuf : Str → Nat → Nat → Option Bytes
  read_short : ∀ s, s.length < blockSize → read s = .short
  read_zeros : ∀ rest, read (zeros blockSize ++ rest) = .ended
  read_broken : ∀ s used, read s = .broken used → 0 < used
  read_member : ∀ s name size used, read s = .member name size used →
    0 < used ∧ used ≤ s.length ∧ ∀ rest, read (s.take used ++ rest) = .member name size used
  read_tobuf : ∀ name size pad header rest, '\x00' ∉ name → tobuf name size pad = some header →
    read (header ++ rest) = .member name size header.length

/-- The bytes that fill up the last block: `-end % BLOCK`. -/
def blockPad (size : Nat) : Nat := (blockSize - size % blockSize) % blockSize

theorem blockPad_add (start size : Nat) (aligned : start % 4096 = 0) :
    blockPad (start + size) = blockPad size := by
  rw [blockPad, blockPad, blockSize]
  omega

structure Member where
  name : Str
  data : Bytes
  deriving DecidableEq

variable (tar : TarCodec)

def readMember (s : Bytes) : Option (Member × Nat) :=
  match tar.read s with
  | .member name size used =>
    if used + (size + blockPad size) ≤ s.length then
      some (⟨name, (s.drop used).take size⟩, used + (size + blockPad size))
    else none
  | _ => none

variable {tar} {s rest : Bytes} {member : Member} {n : Nat}

theorem readMember_eq (found : readMember tar s = some (member, n)) :
    ∃ size used, tar.read s = .member member.name size used ∧ n = used + (size + blockPad size) ∧
      n ≤ s.length ∧ member.data = (s.drop used).take size := by
  rw [readMember] at found
  split at found
  next name size used read =>
    split at found
    next inside =>
      cases found
      exact ⟨size, used, read, rfl, inside, rfl⟩
    next => cases found
  next => cases found

theorem readMember_bounded (s : Bytes) (member : Member) (n : Nat)
    (found : readMember tar s = some (member, n)) : 0 < n ∧ n ≤ s.length := by
  obtain ⟨size, used, read, length, inside, -⟩ := readMember_eq found
  have := (tar.read_member s _ size used read).1
  omega

theorem readMember_front (s : Bytes) (member : Member) (n : Nat) (rest : Bytes)
    (found : readMember tar s = some (member, n)) :
    readMember tar (s.take n ++ rest) = some (member, n) := by
  obtain ⟨size, used, read, length, inside, data⟩ := readMember_eq found
  have header : used ≤ n := by omega
  have again : tar.read (s.take n ++ rest) = .member member.name size used := by
    have split : s.take n ++ rest = s.take used ++ ((s.take n).drop used ++ rest) := by
      rw [← List.append_assoc, ← List.take_append_drop used (s.take n), List.take_take,
        Nat.min_eq_left header, List.drop_append_of_le_length (by simp; omega)]
      simp
    rw [split]
    exact (tar.read_member s _ size used read).2.2 _
  have enough : used + (size + blockPad size) ≤ (s.take n ++ rest).length := by
    rw [List.length_append, List.length_take]
    omega
  have same : ((s.take n ++ rest).drop used).take size = (s.drop used).take size := by
    rw [List.drop_append_of_le_length (by simp; omega), List.drop_take,
      List.take_append_of_le_length (by simp; omega), List.take_take, Nat.min_eq_left (by omega)]
  rw [readMember, again]
  dsimp only
  rw [if_pos enough, same, ← data, ← length]

def memberReader (tar : TarCodec) : RecordReader UInt8 Member :=
  ⟨readMember tar, readMember_bounded, readMember_front⟩

theorem readMember_none (s : Bytes) (stop : ∀ name size used, tar.read s ≠ .member name size used) :
    readMember tar s = none := by
  cases found : readMember tar s with
  | none => rfl
  | some record =>
    obtain ⟨size, used, read, -⟩ := readMember_eq found
    exact absurd read (stop _ _ _)

theorem records_stop (stop : ∀ name size used, tar.read s ≠ .member name size used) :
    (memberReader tar).records s = ([], 0) :=
  RecordReader.records_stop (readMember_none s stop)

theorem records_member (found : readMember tar s = some (member, n)) :
    (memberReader tar).records s = (member :: ((memberReader tar).records (s.drop n)).1,
      n + ((memberReader tar).records (s.drop n)).2) :=
  RecordReader.records_next found

end Headers

section Walks

variable (tar : TarCodec)

def tarMembers (s : Bytes) : List Member := ((memberReader tar).records s).1

/-- `none` where the walk fails. It ends at a zero block, a short one and, behind the
first header, at a block that is no header. -/
def logicalEnd (s : Bytes) : Option Nat :=
  if s.length = 0 then some 0
  else
    let size := ((memberReader tar).records s).2
    match tar.read (s.drop size) with
    | .ended => some size
    | .short | .invalid => if size = 0 then none else some size
    | .broken _ => none
    | .member _ _ _ => none

def skipped : HeaderRead → Option Nat
  | .invalid => some blockSize
  | .broken used => some used
  | _ => none

theorem skipped_shorter {tar : TarCodec} {s : Bytes} {more : Nat}
    (skips : skipped (tar.read s) = some more) : (s.drop more).length < s.length := by
  have long : ¬ s.length < blockSize := by
    intro less
    rw [tar.read_short _ less] at skips
    cases skips
  rw [blockSize] at long
  rw [List.length_drop]
  cases read : tar.read s with
  | invalid =>
    rw [read] at skips
    cases skips
    rw [blockSize]
    omega
  | broken used =>
    have := tar.read_broken _ used read
    rw [read] at skips
    cases skips
    omega
  | ended | short | member => rw [read] at skips; cases skips

/-- The listing of GNU tar, which looks for the next header behind what it cannot read: a member is
readable where it is listed. -/
def listedMembers (s : Bytes) : List Member :=
  let size := ((memberReader tar).records s).2
  tarMembers tar s ++
    match found : skipped (tar.read (s.drop size)) with
    | none => []
    | some more =>
      have : ((s.drop size).drop more).length < s.length := by
        have shorter := skipped_shorter found
        rw [List.length_drop (l := s)] at shorter
        omega
      listedMembers ((s.drop size).drop more)
termination_by s.length
decreasing_by exact this

variable {tar} {s rest : Bytes} {n : Nat}

theorem logicalEnd_eq (found : logicalEnd tar s = some n) :
    n = ((memberReader tar).records s).2 := by
  rw [logicalEnd] at found
  split at found
  next empty =>
    cases found
    have le := RecordReader.records_le (R := memberReader tar) s
    omega
  next =>
    dsimp only at found
    split at found
    next => exact (Option.some_inj.mp found).symm
    next =>
      split at found
      next => cases found
      next => exact (Option.some_inj.mp found).symm
    next =>
      split at found
      next => cases found
      next => exact (Option.some_inj.mp found).symm
    next => cases found
    next => cases found

theorem logicalEnd_le (found : logicalEnd tar s = some n) : n ≤ s.length :=
  logicalEnd_eq found ▸ RecordReader.records_le s

theorem tarMembers_append (found : logicalEnd tar s = some n) (rest : Bytes) :
    tarMembers tar (s.take n ++ rest) = tarMembers tar s ++ tarMembers tar rest := by
  rw [logicalEnd_eq found, tarMembers, RecordReader.records_append]
  rfl

theorem listedMembers_eq (tar : TarCodec) (s : Bytes) : listedMembers tar s = tarMembers tar s ++
    ((skipped (tar.read (s.drop ((memberReader tar).records s).2))).elim [] fun more =>
      listedMembers tar ((s.drop ((memberReader tar).records s).2).drop more)) := by
  rw [listedMembers]
  dsimp only
  split
  next none => rw [none]; rfl
  next found => rw [found]; rfl

theorem listedMembers_append (found : logicalEnd tar s = some n) (rest : Bytes) :
    listedMembers tar (s.take n ++ rest) = tarMembers tar s ++ listedMembers tar rest := by
  have inside := logicalEnd_le found
  have length : (s.take n).length = n := List.length_take_of_le inside
  have behind : ∀ m, (s.take n ++ rest).drop (n + m) = rest.drop m := by
    intro m
    rw [← List.drop_drop, List.drop_left' length]
  rw [listedMembers_eq tar (s.take n ++ rest), tarMembers_append found, listedMembers_eq tar rest,
    List.append_assoc]
  have records := RecordReader.records_append (R := memberReader tar) s rest
  rw [← logicalEnd_eq found] at records
  rw [records, behind]

theorem listedMembers_stop (read : tar.read s = .ended ∨ tar.read s = .short) :
    listedMembers tar s = [] := by
  have records : (memberReader tar).records s = ([], 0) := by
    apply records_stop
    intro name size used member
    rw [member] at read
    cases read with
    | inl ended => cases ended
    | inr short => cases short
  rw [listedMembers_eq, tarMembers, records, List.drop_zero]
  cases read with
  | inl ended => rw [ended]; rfl
  | inr short => rw [short]; rfl

theorem zeros_read (n : Nat) : tar.read (zeros n) = .ended ∨ tar.read (zeros n) = .short := by
  by_cases less : n < blockSize
  · right
    apply tar.read_short
    rwa [zeros_length]
  · left
    have split : zeros n = zeros blockSize ++ zeros (n - blockSize) := by
      rw [zeros_append, Nat.add_sub_of_le (Nat.le_of_not_lt less)]
    rw [split]
    exact tar.read_zeros _

theorem listedMembers_zeros (n : Nat) : listedMembers tar (zeros n) = [] :=
  listedMembers_stop (zeros_read n)

theorem tarMembers_zeros (n : Nat) : tarMembers tar (zeros n) = [] := by
  have listed := listedMembers_eq tar (zeros n)
  rw [listedMembers_zeros] at listed
  exact (List.append_eq_nil_iff.mp listed.symm).1

end Walks

section Members

variable (tar : TarCodec)

/-- `build_member_header`: the comment record grows until the data begins on an `ALIGN` boundary,
sixteen times at most. -/
def buildMemberHeaderFrom (name : Str) (size offset : Nat) : Nat → Nat → Option Bytes
  | 0, _ => none
  | tries + 1, pad =>
    match tar.tobuf name size pad with
    | none => none
    | some header =>
      let need := (4096 - (offset + header.length) % 4096) % 4096
      if need = 0 then some header
      else buildMemberHeaderFrom name size offset tries (pad + need)

def buildMemberHeader (name : Str) (size offset : Nat) : Option Bytes :=
  buildMemberHeaderFrom tar name size offset 16 0

def memberBytes (header data : Bytes) : Bytes := header ++ data ++ zeros (blockPad data.length)

variable {tar} {name : Str} {size offset : Nat} {header : Bytes}

theorem buildMemberHeaderFrom_built {tries pad : Nat}
    (built : buildMemberHeaderFrom tar name size offset tries pad = some header) :
    (∃ dots, tar.tobuf name size dots = some header) ∧ (offset + header.length) % 4096 = 0 := by
  induction tries generalizing pad with
  | zero => cases built
  | succ tries ih =>
    rw [buildMemberHeaderFrom] at built
    split at built
    next => cases built
    next made =>
      dsimp only at built
      split at built
      next aligned =>
        cases built
        exact ⟨⟨pad, made⟩, by omega⟩
      next => exact ih built

theorem buildMemberHeader_read (built : buildMemberHeader tar name size offset = some header)
    (clean : '\x00' ∉ name) (rest : Bytes) :
    tar.read (header ++ rest) = .member name size header.length := by
  obtain ⟨⟨dots, made⟩, -⟩ := buildMemberHeaderFrom_built built
  exact tar.read_tobuf name size dots header rest clean made

theorem readMember_bytes {data : Bytes}
    (read : ∀ rest, tar.read (header ++ rest) = .member name data.length header.length)
    (rest : Bytes) : readMember tar (memberBytes header data ++ rest) =
      some (⟨name, data⟩, (memberBytes header data).length) := by
  have split : memberBytes header data ++ rest =
      header ++ (data ++ (zeros (blockPad data.length) ++ rest)) := by
    simp [memberBytes]
  have length : (memberBytes header data).length =
      header.length + (data.length + blockPad data.length) := by
    simp [memberBytes]
  have enough : header.length + (data.length + blockPad data.length) ≤
      (memberBytes header data ++ rest).length := by
    rw [List.length_append, length]
    omega
  have again := read (data ++ (zeros (blockPad data.length) ++ rest))
  rw [← split] at again
  rw [readMember, again]
  dsimp only
  rw [if_pos enough, split, List.drop_left, List.take_left, length]

theorem tarMembers_member {s : Bytes} {member : Member} {n : Nat}
    (found : readMember tar s = some (member, n)) :
    tarMembers tar s = member :: tarMembers tar (s.drop n) := by
  rw [tarMembers, records_member found]
  rfl

theorem listedMembers_member {s : Bytes} {member : Member} {n : Nat}
    (found : readMember tar s = some (member, n)) :
    listedMembers tar s = member :: listedMembers tar (s.drop n) := by
  rw [listedMembers_eq, tarMembers_member found, records_member found, listedMembers_eq tar (s.drop n),
    ← List.drop_drop]
  rfl

end Members

end PerfStats.Archive
