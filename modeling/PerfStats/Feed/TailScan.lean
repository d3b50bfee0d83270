import PerfStats.Lib.Utf8
import PerfStats.Text

namespace PerfStats.Feed

open Lib Text Utf8

abbrev Identity := Str × Str × Str

def digitLineIdentity (s : Str) : Option Identity :=
  match split s with
  | t :: jid :: host :: _ => some (t, jid, host)
  | _ => none

section TailScan

-- `str.isdigit` of one character
variable (isdigit : Char → Bool)

def digitLed (line : Str) : Bool := (lstrip line).head?.elim false isdigit

def lineIdentity (line : Str) : Option Identity :=
  if digitLed isdigit line then digitLineIdentity (lstrip line) else none

def parseLastTimestampLine (lines : List Str) : Option Identity :=
  lines.reverse.findSome? fun line => if line = [] then none else lineIdentity isdigit line

def rawIdentity (raw : Utf8.Bytes) : Option Identity :=
  if raw = [] then none else lineIdentity isdigit (decode raw)

def scanBlocks (carry : Utf8.Bytes) : List (Nat × Utf8.Bytes) → Option Identity
  | [] => none
  | (offset, rawBlock) :: rest =>
    let (carry, parts) := cutBlock 10 carry offset rawBlock
    match parts.reverse.findSome? (rawIdentity isdigit) with
    | some parsed => some parsed
    | none => scanBlocks carry rest

/-- `max(4096, int(tail_read_bytes))`. -/
def chunkSize (tailReadBytes : Int) : ℕ+ := ⟨max 4096 tailReadBytes.toNat, by omega⟩

/-- `none` is a file that is not there, in the argument, and `(None, None, None)` in the answer. -/
def parseLastTimestampLineStreaming (statsFile : Option Utf8.Bytes) (tailReadBytes : Int) :
    Option Identity :=
  match statsFile with
  | none => none
  | some content => scanBlocks isdigit [] (blocks content (chunkSize tailReadBytes) content.length)

def rawDigitLine (raw : Utf8.Bytes) : Option Str :=
  if raw = [] then none
  else if digitLed isdigit (decode raw) then some (decode raw) else none

def collectParts (maxLines : Int) (collected : List Str) : List Utf8.Bytes → List Str
  | [] => collected
  | raw :: rest =>
    if maxLines ≤ collected.length then collected
    else collectParts maxLines (collected ++ (rawDigitLine isdigit raw).toList) rest

def collectBlocks (maxLines : Int) (collected : List Str) (carry : Utf8.Bytes) :
    List (Nat × Utf8.Bytes) → List Str
  | [] => collected
  | (offset, rawBlock) :: rest =>
    if maxLines ≤ collected.length then collected
    else
      let (carry, parts) := cutBlock 10 carry offset rawBlock
      collectBlocks maxLines (collectParts isdigit maxLines collected parts.reverse) carry rest

def collectTailTimestampLines (statsFile : Option Utf8.Bytes) (maxLines tailReadBytes : Int) :
    List Str :=
  match statsFile with
  | none => []
  | some content =>
    if content.length = 0 ∨ maxLines ≤ 0 then []
    else
      collectBlocks isdigit maxLines [] []
        (blocks content (chunkSize tailReadBytes) content.length)

def decodedLines (content : Utf8.Bytes) : List Str := (decode content).splitOn '\n'

variable {isdigit}

theorem lineIdentity_nil : lineIdentity isdigit [] = none := rfl

theorem rawIdentity_eq (raw : Utf8.Bytes) :
    rawIdentity isdigit raw = lineIdentity isdigit (decode raw) := by
  unfold rawIdentity
  split
  · next empty =>
      rw [empty]
      rfl
  · rfl

theorem rawDigitLine_eq (raw : Utf8.Bytes) :
    rawDigitLine isdigit raw =
      Option.guard (fun line => digitLed isdigit line) (decode raw) := by
  unfold rawDigitLine
  split
  · next empty =>
      rw [empty]
      rfl
  · rfl

theorem parseLastTimestampLine_eq (lines : List Str) :
    parseLastTimestampLine isdigit lines =
      (lines.filterMap (lineIdentity isdigit)).getLast? := by
  have same : (fun line => if line = [] then none else lineIdentity isdigit line) =
      lineIdentity isdigit := by
    funext line
    split
    · next empty => rw [empty, lineIdentity_nil]
    · rfl
  rw [parseLastTimestampLine, same, List.getLast?_eq_head?_reverse, ← List.filterMap_reverse,
    List.head?_filterMap]

theorem scanBlocks_eq (carry : Utf8.Bytes) (pieces : List (Nat × Utf8.Bytes)) :
    scanBlocks isdigit carry pieces =
      (linesBack 10 carry pieces).findSome? (rawIdentity isdigit) := by
  induction pieces generalizing carry with
  | nil => rfl
  | cons piece rest ih =>
    rw [linesBack, List.findSome?_append]
    unfold scanBlocks
    dsimp only
    cases (cutBlock 10 carry piece.1 piece.2).2.reverse.findSome? (rawIdentity isdigit) with
    | none => exact ih _
    | some parsed => rfl

theorem collectParts_eq (maxLines : Int) {collected : List Str}
    (short : (collected.length : Int) ≤ maxLines) (parts : List Utf8.Bytes) :
    collectParts isdigit maxLines collected parts =
      (collected ++ parts.filterMap (rawDigitLine isdigit)).take maxLines.toNat := by
  induction parts generalizing collected with
  | nil => rw [collectParts, List.filterMap_nil, List.append_nil, List.take_of_length_le (by omega)]
  | cons raw rest ih =>
    unfold collectParts
    split
    · next full => rw [List.take_append_of_le_length (by omega), List.take_of_length_le (by omega)]
    · next room =>
        cases found : rawDigitLine isdigit raw with
        | none => simpa [found] using ih short
        | some line =>
          have more : ((collected ++ [line]).length : Int) ≤ maxLines := by
            rw [List.length_append, List.length_singleton]
            omega
          simpa [found] using ih more

theorem take_take_append {α : Type*} (front back : List α) (n : Nat) :
    (front.take n ++ back).take n = (front ++ back).take n := by
  by_cases long : n ≤ front.length
  · rw [List.take_append_of_le_length long,
      List.take_append_of_le_length (by rw [List.length_take]; omega), List.take_take, min_self]
  · rw [List.take_of_length_le (le_of_not_ge long)]

theorem collectBlocks_eq (maxLines : Int) {collected : List Str}
    (short : (collected.length : Int) ≤ maxLines) (carry : Utf8.Bytes)
    (pieces : List (Nat × Utf8.Bytes)) :
    collectBlocks isdigit maxLines collected carry pieces =
      (collected ++ (linesBack 10 carry pieces).filterMap (rawDigitLine isdigit)).take
        maxLines.toNat := by
  induction pieces generalizing collected carry with
  | nil =>
    rw [collectBlocks, linesBack, List.filterMap_nil, List.append_nil,
      List.take_of_length_le (by omega)]
  | cons piece rest ih =>
    unfold collectBlocks
    split
    · next full => rw [List.take_append_of_le_length (by omega), List.take_of_length_le (by omega)]
    · next room =>
        dsimp only
        have here := @collectParts_eq isdigit maxLines collected short
          (cutBlock 10 carry piece.1 piece.2).2.reverse
        have bounded : ((collectParts isdigit maxLines collected
            (cutBlock 10 carry piece.1 piece.2).2.reverse).length : Int) ≤ maxLines := by
          rw [here, List.length_take]
          omega
        rw [ih bounded, here, linesBack, List.filterMap_append, ← List.append_assoc,
          take_take_append]

variable (content : Utf8.Bytes)

theorem linesBack_file (chunk : ℕ+) (some_ : 0 < content.length) :
    linesBack 10 [] (blocks content chunk content.length) = (content.splitOn 10).reverse := by
  rw [linesBack_blocks content chunk some_, List.take_length, List.append_nil]

theorem decodedLines_eq :
    decodedLines content = (content.splitOn 10).map decode := splitOn_decode content

theorem parseLastTimestampLineStreaming_eq (content : Utf8.Bytes) (tailReadBytes : Int) :
    parseLastTimestampLineStreaming isdigit (some content) tailReadBytes =
      parseLastTimestampLine isdigit (decodedLines content) := by
  rw [parseLastTimestampLine_eq, decodedLines_eq, List.filterMap_map]
  by_cases empty : content = []
  · subst empty
    rw [parseLastTimestampLineStreaming]
    simp [blocks, scanBlocks, decode, run, finish, lineIdentity_nil]
  · have same : lineIdentity isdigit ∘ decode = rawIdentity isdigit := by
      funext raw
      exact (rawIdentity_eq raw).symm
    rw [parseLastTimestampLineStreaming, scanBlocks_eq, linesBack_file content _ (List.length_pos_of_ne_nil empty), same,
      List.getLast?_eq_head?_reverse, ← List.filterMap_reverse, List.head?_filterMap]

theorem collectTailTimestampLines_eq (maxLines tailReadBytes : Int) :
    collectTailTimestampLines isdigit (some content) maxLines tailReadBytes =
      ((decodedLines content).filter (digitLed isdigit)).reverse.take maxLines.toNat := by
  have same : (content.splitOn 10).filterMap (rawDigitLine isdigit) =
      ((content.splitOn 10).map decode).filter (digitLed isdigit) := by
    rw [← List.filterMap_eq_filter, List.filterMap_map]
    apply List.filterMap_congr
    intro raw member
    exact rawDigitLine_eq raw
  rw [collectTailTimestampLines, decodedLines_eq, ← same, ← List.filterMap_reverse]
  split
  · next none_ =>
      cases none_ with
      | inl empty =>
        rw [List.eq_nil_of_length_eq_zero empty]
        simp [rawDigitLine]
      | inr short => rw [Int.toNat_of_nonpos short, List.take_zero]
  · next some_ =>
      have bounds : 0 < content.length ∧ 0 ≤ maxLines := by omega
      rw [collectBlocks_eq maxLines (by simpa using bounds.2), linesBack_file content _ bounds.1,
        List.nil_append]

/-- The tail scan finds the last header of the file, and the collection its last digit-led lines,
headers or not, the last one first. -/
theorem tail_scan_corrected (isdigit : Char → Bool) (content : Utf8.Bytes)
    (tailReadBytes maxLines : Int) :
    parseLastTimestampLineStreaming isdigit (some content) tailReadBytes =
        parseLastTimestampLine isdigit (decodedLines content) ∧
      parseLastTimestampLineStreaming isdigit (some content) tailReadBytes =
        ((decodedLines content).filterMap (lineIdentity isdigit)).getLast? ∧
      (collectTailTimestampLines isdigit (some content) maxLines tailReadBytes).reverse =
        ((decodedLines content).filter (digitLed isdigit)).rtake maxLines.toNat := by
  have found := @parseLastTimestampLineStreaming_eq isdigit content tailReadBytes
  refine ⟨found, ?_, ?_⟩
  · rw [found, parseLastTimestampLine_eq]
  · rw [collectTailTimestampLines_eq, List.rtake_eq_reverse_take_reverse]

private def ascii (text : String) : Utf8.Bytes := text.toList.map fun c => UInt8.ofNat c.toNat

theorem tail_collection_reversed :
    collectTailTimestampLines isDigit (some (ascii "1 a b\n2 c d\n")) 2 65536 ≠
        ((decodedLines (ascii "1 a b\n2 c d\n")).filter fun line =>
          (lineIdentity isDigit line).isSome).rtake 2 ∧
      collectTailTimestampLines isDigit (some (ascii "1 a b\n2 c\n")) 1 65536 ≠
        ((decodedLines (ascii "1 a b\n2 c\n")).filter fun line =>
          (lineIdentity isDigit line).isSome).rtake 1 := by
  rw [collectTailTimestampLines_eq, collectTailTimestampLines_eq]
  decide

end TailScan

end PerfStats.Feed
