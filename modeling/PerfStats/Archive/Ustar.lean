import PerfStats.Archive.TarAppend

namespace PerfStats.Archive

open Text
open Lib

section Blocks

inductive BlockRead where
  | short
  | ended
  | invalid
  | header (flag : UInt8) (name : Str) (size : Nat)
  deriving DecidableEq

/-- `nts`: a field up to its first null character. -/
def fieldText (field : Bytes) : Str :=
  (field.takeWhile (· ≠ 0)).map fun byte => Char.ofNat byte.toNat

def fieldNumber (field : Bytes) : Option Nat :=
  let digits := strip (fieldText field)
  if digits.all fun c => '0' ≤ c && c ≤ '7' then
    some (digits.foldl (fun total c => 8 * total + digitValue c) 0)
  else none

def slice (block : Bytes) (start stop : Nat) : Bytes := (block.take stop).drop start

def checksum (block : Bytes) : Nat :=
  256 + ((slice block 0 148).map UInt8.toNat).sum + ((slice block 156 512).map UInt8.toNat).sum

def parseBlock (block : Bytes) : BlockRead :=
  if block.all (· == 0) then .ended
  else if fieldNumber (slice block 148 156) ≠ some (checksum block) then .invalid
  else
    match fieldNumber (slice block 124 136) with
    | none => .invalid
    | some size => .header (block.getD 156 0) (fieldText (slice block 0 100)) size

def readBlock (s : Bytes) : BlockRead :=
  if s.length < blockSize then .short else parseBlock (s.take blockSize)

def extended : UInt8 := 120

def readUstar (s : Bytes) : HeaderRead :=
  match readBlock s with
  | .short => .short
  | .ended => .ended
  | .invalid => .invalid
  | .header flag name size =>
    if flag = extended then
      let used := blockSize + (size + blockPad size)
      match readBlock (s.drop used) with
      | .header second name size =>
        if second = extended then .broken (used + blockSize)
        else .member name size (used + blockSize)
      | _ => .broken (used + blockSize)
    else .member name size blockSize

def asciiBytes (s : Str) : Bytes := s.map fun c => UInt8.ofNat c.toNat

def field (width : Nat) (s : Str) : Bytes :=
  (asciiBytes s).take width ++ zeros (width - s.length)

def numberField (width n : Nat) : Bytes :=
  let digits := Nat.toDigits 8 n
  asciiBytes (List.replicate (width - 1 - digits.length) '0' ++ digits) ++ [0]

def headerAround (name : Str) (size : Nat) (flag : UInt8) (sum : Bytes) : Bytes :=
  field 100 name ++ numberField 8 420 ++ numberField 8 0 ++ numberField 8 0 ++
    numberField 12 size ++ numberField 12 0 ++ sum ++ [flag] ++ zeros 100 ++
    asciiBytes (lit "ustar") ++ [0] ++ asciiBytes (lit "00") ++ zeros 64 ++ numberField 8 0 ++
    numberField 8 0 ++ zeros 167

def headerBlock (name : Str) (size : Nat) (flag : UInt8) : Bytes :=
  headerAround name size flag
    (numberField 7 (checksum (headerAround name size flag (zeros 8))) ++ asciiBytes (lit " "))

def commentRecord (dots : Nat) : Bytes :=
  let rest := lit " comment=" ++ List.replicate dots '.' ++ lit "\n"
  let size := (fun n => rest.length + (Nat.toDigits 10 n).length)^[3] rest.length
  asciiBytes (Nat.toDigits 10 size ++ rest)

def ustarHeader (name : Str) (size dots : Nat) : Bytes :=
  let comment := commentRecord dots
  headerBlock (lit "././@PaxHeader") comment.length extended ++ comment ++
    zeros (blockPad comment.length) ++ headerBlock name size 48

variable {s rest : Bytes} {n : Nat}

theorem readBlock_long (read : readBlock s ≠ .short) : blockSize ≤ s.length := by
  by_contra less
  apply read
  rw [readBlock, if_pos (Nat.lt_of_not_le less)]

theorem readBlock_take (long : blockSize ≤ s.length) (enough : blockSize ≤ n) (rest : Bytes) :
    readBlock (s.take n ++ rest) = readBlock s := by
  have reach : blockSize ≤ (s.take n).length := by
    rw [List.length_take]
    omega
  have same : (s.take n ++ rest).take blockSize = s.take blockSize := by
    rw [List.take_append_of_le_length reach, List.take_take, Nat.min_eq_left enough]
  have longer : ¬ (s.take n ++ rest).length < blockSize := by
    rw [List.length_append]
    omega
  rw [readBlock, readBlock, if_neg longer, if_neg (Nat.not_lt_of_le long), same]

theorem readUstar_short (s : Bytes) (less : s.length < blockSize) : readUstar s = .short := by
  rw [readUstar, readBlock, if_pos less]

theorem readUstar_zeros (rest : Bytes) : readUstar (zeros blockSize ++ rest) = .ended := by
  have long : ¬ (zeros blockSize ++ rest).length < blockSize := by
    rw [List.length_append, zeros_length]
    omega
  have front : (zeros blockSize ++ rest).take blockSize = zeros blockSize :=
    List.take_left' (zeros_length blockSize)
  have blank : (zeros blockSize).all (· == 0) = true := by
    rw [List.all_eq_true]
    intro byte member
    exact beq_iff_eq.mpr (List.eq_of_mem_replicate member)
  rw [readUstar, readBlock, if_neg long, front, parseBlock, if_pos blank]

theorem readUstar_broken (s : Bytes) (used : Nat) (read : readUstar s = .broken used) :
    0 < used := by
  have positive : 0 < blockSize := by decide
  rw [readUstar] at read
  split at read
  next => cases read
  next => cases read
  next => cases read
  next =>
    split at read
    next =>
      dsimp only at read
      split at read
      next =>
        split at read
        next =>
          cases read
          omega
        next => cases read
      next =>
        cases read
        omega
    next => cases read

theorem readUstar_member (s : Bytes) (name : Str) (size used : Nat)
    (read : readUstar s = .member name size used) :
    0 < used ∧ used ≤ s.length ∧ ∀ rest, readUstar (s.take used ++ rest) = .member name size used := by
  have positive : 0 < blockSize := by decide
  rw [readUstar] at read
  split at read
  next => cases read
  next => cases read
  next => cases read
  next flag first firstSize block =>
    have long := readBlock_long (s := s) (by rw [block]; exact BlockRead.noConfusion)
    split at read
    next isExtended =>
      dsimp only at read
      split at read
      next second name size again =>
        split at read
        next => cases read
        next plain =>
          cases read
          have reach := readBlock_long (s := s.drop _) (by
            rw [again]
            exact BlockRead.noConfusion)
          rw [List.length_drop] at reach
          refine ⟨by omega, by omega, ?_⟩
          intro rest
          have behind : (s.take (blockSize + (firstSize + blockPad firstSize) + blockSize) ++
              rest).drop (blockSize + (firstSize + blockPad firstSize)) =
              (s.drop (blockSize + (firstSize + blockPad firstSize))).take blockSize ++
                rest := by
            rw [List.drop_append_of_le_length (by rw [List.length_take]; omega),
              List.drop_take, Nat.add_sub_cancel_left]
          rw [readUstar, readBlock_take long (by omega), block]
          dsimp only
          rw [if_pos isExtended, behind, readBlock_take
            (by rw [List.length_drop]; omega) le_rfl, again]
          dsimp only
          rw [if_neg plain]
      next => cases read
    next plain =>
      cases read
      refine ⟨positive, long, ?_⟩
      intro rest
      rw [readUstar, readBlock_take long le_rfl, block]
      dsimp only
      rw [if_neg plain]

def buildUstar (name : Str) (size dots : Nat) : Option Bytes :=
  let header := ustarHeader name size dots
  if readUstar header = .member name size header.length then some header else none

theorem readUstar_build (name : Str) (size dots : Nat) (header rest : Bytes)
    (built : buildUstar name size dots = some header) :
    readUstar (header ++ rest) = .member name size header.length := by
  rw [buildUstar] at built
  split at built
  next read =>
    cases built
    have again := (readUstar_member _ name size _ read).2.2 rest
    rwa [List.take_length] at again
  next => cases built

def ustar : TarCodec where
  read := readUstar
  tobuf := buildUstar
  read_short := readUstar_short
  read_zeros := readUstar_zeros
  read_broken := readUstar_broken
  read_member := readUstar_member
  read_tobuf name size dots header rest _ built := readUstar_build name size dots header rest built

end Blocks

section Hidden

def hiddenTar : Bytes :=
  headerBlock (lit "a") 0 48 ++ List.replicate 512 255 ++
    (headerBlock (lit "b") 1 48 ++ [120] ++ zeros 511) ++ zeros 1024

def hiddenSource : Source := ⟨lit "/c", [1], by decide⟩

theorem hidden_first : readMember ustar hiddenTar = some (⟨lit "a", []⟩, 512) := by decide +kernel

theorem hidden_damage : ustar.read (hiddenTar.drop 512) = .invalid := by decide +kernel

theorem hidden_second :
    readMember ustar ((hiddenTar.drop 512).drop 512) = some (⟨lit "b", [120]⟩, 1024) := by
  decide +kernel

theorem hidden_stop (name : Str) (size used : Nat) :
    ustar.read (hiddenTar.drop 512) ≠ .member name size used := by
  rw [hidden_damage]
  exact HeaderRead.noConfusion

theorem hidden_records :
    (memberReader ustar).records hiddenTar = ([⟨lit "a", []⟩], 512) := by
  rw [records_member hidden_first, records_stop hidden_stop]
  rfl

theorem hidden_end : logicalEnd ustar hiddenTar = some 512 := by
  have long : ¬ hiddenTar.length = 0 := by decide +kernel
  rw [logicalEnd, if_neg long, hidden_records]
  dsimp only
  rw [hidden_damage]
  rfl

theorem hidden_listed :
    listedMembers ustar hiddenTar ≠ tarMembers ustar hiddenTar := by
  rw [listedMembers_eq, hidden_records]
  rw [hidden_damage]
  change _ ++ listedMembers ustar ((hiddenTar.drop 512).drop blockSize) ≠ _
  rw [blockSize, listedMembers_member hidden_second]
  intro same
  exact List.cons_ne_nil _ _ (List.append_right_eq_self.mp same)

theorem append_loses_hidden :
    ¬ CrashAtomic id ustar ⟨some ⟨1, hiddenTar⟩, none⟩ 2 [some hiddenSource] := by
  intro atomic
  exact hidden_listed (atomic.nothingBehind ⟨1, hiddenTar⟩ 512 (by simp) rfl hidden_end)

end Hidden

end PerfStats.Archive
