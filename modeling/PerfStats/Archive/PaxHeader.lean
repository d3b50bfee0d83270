import PerfStats.Archive.Ustar
import PerfStats.Double

namespace PerfStats.Archive.Pax

open Text
open Lib

section Writing

inductive NameChar where
  | char (c : Char)
  | escaped (byte : UInt8) (high : 128 ≤ byte.toNat)

abbrev Name := List NameChar

namespace NameChar

def isAscii : NameChar → Bool
  | char c => c.toNat < 128
  | escaped .. => false

def spelled : NameChar → Bool
  | char _ => true
  | escaped .. => false

def encode : NameChar → Bytes
  | char c => String.utf8EncodeChar c
  | escaped byte _ => [byte]

def replaced : NameChar → UInt8
  | char c => if c.toNat < 128 then UInt8.ofNat c.toNat else 63
  | escaped .. => 63

end NameChar

def ofText (s : Str) : Name := s.map .char

def encoded (s : Name) : Bytes := s.flatMap NameChar.encode

structure Fields where
  name : Name
  mode : Nat
  uid : Nat
  gid : Nat
  size : Nat
  mtime : Nat
  flag : UInt8
  uname : Name
  gname : Name

/-- What `os.fstat` and the owner tables say of a member; the time is a finite float. -/
structure TarInfo where
  name : Name
  uname : Name
  gname : Name
  stMode : Nat
  uid : UInt32
  gid : UInt32
  size : UInt64
  early : Bool
  mtime : Binary64.Magnitude

def stn (s : Name) (length : Nat) : Bytes :=
  (s.map NameChar.replaced).take length ++ zeros (length - s.length)

namespace Fields

variable (f : Fields)

def before : List Bytes :=
  [stn f.name 100, numberField 8 (f.mode % 4096), numberField 8 f.uid, numberField 8 f.gid,
    numberField 12 f.size, numberField 12 f.mtime]

def after : List Bytes :=
  [[f.flag], zeros 100, asciiBytes (lit "ustar") ++ [0] ++ asciiBytes (lit "00"), stn f.uname 32,
    stn f.gname 32, zeros 8, zeros 8, zeros 155, zeros 12]

def sum : Nat :=
  256 + (f.before.flatten.map UInt8.toNat).sum + (f.after.flatten.map UInt8.toNat).sum

def block : Bytes := (f.before ++ [numberField 7 f.sum ++ [32]] ++ f.after).flatten

/-- `itn` raises for a number that is too large for its field. -/
def Fits : Prop := f.uid < 8 ^ 7 ∧ f.gid < 8 ^ 7 ∧ f.size < 8 ^ 11 ∧ f.mtime < 8 ^ 11

instance : Decidable f.Fits := inferInstanceAs (Decidable (_ ∧ _))

def createHeader : Option Bytes := if f.Fits then some f.block else none

end Fields

def digits (n : Nat) : Nat := (decimalText n).length

/-- The loop for a record's own length, which counts its digits: `l` is the length of the rest. -/
def recordLength (l : Nat) : Nat → Nat → Option Nat
  | 0, _ => none
  | turns + 1, p => if l + digits p = p then some p else recordLength l turns (l + digits p)

def recordOf (p : Nat) (keyword value : Bytes) : Bytes :=
  asciiBytes (decimalText p) ++ (32 :: (keyword ++ (61 :: (value ++ [10]))))

def paxRecords : List (Str × Name) → Option Bytes
  | [] => some []
  | (keyword, value) :: rest => do
    let p ← recordLength (keyword.length + (encoded value).length + 3) 4 0
    let more ← paxRecords rest
    some (recordOf p (asciiBytes keyword) (encoded value) ++ more)

def optional (unneeded : Prop) [Decidable unneeded] (hname : Str) (s : Name) : List (Str × Name) :=
  if unneeded then [] else [(hname, s)]

def hdrcharset (headers : List (Str × Name)) : List (Str × Name) :=
  optional (headers.all fun h => h.2.all NameChar.spelled) (lit "hdrcharset")
    (ofText (lit "BINARY"))

example : paxRecords [(lit "hdrcharset", ofText (lit "BINARY"))] =
    some (asciiBytes (lit "21 hdrcharset=BINARY\n")) := by decide

namespace TarInfo

variable (info : TarInfo)

def date : Double := .finite info.early info.mtime

def ustarTime : Nat :=
  let val := Binary64.roundHalfEven (if info.early then -info.mtime.1 else info.mtime.1)
  if 0 ≤ val ∧ val < 8 ^ 11 then val.toNat else 0

def textHeader (hname : Str) (s : Name) (length : Nat) : List (Str × Name) :=
  optional (s.all NameChar.isAscii ∧ s.length ≤ length) hname s

def numberHeader (hname : Str) (n digits : Nat) : List (Str × Name) :=
  optional (n < 8 ^ (digits - 1)) hname (ofText (decimalText n))

def paxHeaders : List (Str × Name) :=
  textHeader (lit "path") info.name 100 ++ (textHeader (lit "uname") info.uname 32 ++
    (textHeader (lit "gname") info.gname 32 ++ (numberHeader (lit "uid") info.uid.toNat 8 ++
      (numberHeader (lit "gid") info.gid.toNat 8 ++ (numberHeader (lit "size") info.size.toNat 12 ++
        [(lit "mtime", ofText info.date.repr)])))))

def fitted (n digits : Nat) : Nat := if n < 8 ^ (digits - 1) then n else 0

def ustarFields : Fields :=
  ⟨info.name, info.stMode, fitted info.uid.toNat 8, fitted info.gid.toNat 8,
    fitted info.size.toNat 12, info.ustarTime, 48, info.uname, info.gname⟩

def extendedFields (length : Nat) : Fields :=
  ⟨ofText (lit "././@PaxHeader"), 0, 0, 0, length, 0, extended, [], []⟩

def headers (pad : Nat) : List (Str × Name) :=
  (lit "comment", ofText (List.replicate pad '.')) :: info.paxHeaders

/-- `tobuf(PAX_FORMAT, "utf-8", "surrogateescape")`, with a comment of `pad` dots. -/
def tobuf (pad : Nat) : Option Bytes := do
  let payload ← paxRecords (hdrcharset (info.headers pad) ++ info.headers pad)
  let front ← (extendedFields payload.length).createHeader
  let back ← info.ustarFields.createHeader
  some (front ++ (payload ++ (zeros (blockPad payload.length) ++ back)))

def buildFrom (offset : Nat) : Nat → Nat → Option Bytes
  | 0, _ => none
  | tries + 1, pad => do
    let hdr ← info.tobuf pad
    let need := (4096 - (offset + hdr.length) % 4096) % 4096
    if need = 0 then some hdr else buildFrom offset tries (pad + need)

/-- `none` is the `RuntimeError` behind the sixteenth try, or an error of `tobuf`. -/
def buildMemberHeader (offset : Nat) : Option Bytes := info.buildFrom offset 16 0

end TarInfo

end Writing

section Reading

def textOf (bytes : Bytes) : Str := bytes.map fun byte => Char.ofNat byte.toNat

def nts (field : Bytes) : Bytes := field.takeWhile (· ≠ 0)

structure Header where
  flag : UInt8
  name : Bytes
  mode : Nat
  size : Nat
  mtime : Nat

def readHeader (block : Bytes) : Option Header :=
  if fieldNumber (slice block 148 156) = some (checksum block) then do
    let mode ← fieldNumber (slice block 100 108)
    let size ← fieldNumber (slice block 124 136)
    let mtime ← fieldNumber (slice block 136 148)
    let name := nts (slice block 0 100)
    let directory := nts (slice block 345 500)
    some ⟨(slice block 156 157).headD 0,
      if directory = [] then name else directory ++ 47 :: name, mode, size, mtime⟩
  else none

def readRecord (s : Bytes) : Option ((Bytes × Bytes) × Nat) :=
  let digits := s.takeWhile fun b => 48 ≤ b ∧ b ≤ 57
  let n := Nat.ofDigitChars 10 (textOf digits) 0
  let body := (s.take n).drop (digits.length + 1)
  let keyword := body.takeWhile (· ≠ 61)
  let value := (body.drop (keyword.length + 1)).dropLast
  if n ≤ s.length ∧ body = keyword ++ 61 :: (value ++ [10]) ∧ s.getD digits.length 0 = 32 then
    some ((keyword, value), n)
  else none

def readRecords : Nat → Bytes → Option (List (Bytes × Bytes))
  | _, [] => some []
  | 0, _ => none
  | turns + 1, s => do
    let (record, n) ← readRecord s
    let more ← readRecords turns (s.drop n)
    some (record :: more)

def lookup (keyword : Str) (records : List (Bytes × Bytes)) (found : Option Bytes) :
    Option Bytes :=
  records.foldl (fun found r => if r.1 = asciiBytes keyword then some r.2 else found) found

structure Decoded where
  name : Bytes
  size : Nat
  mode : Nat
  mtime : Option Double

def decode (header : Bytes) : Option Decoded := do
  let front ← readHeader (header.take blockSize)
  if front.flag = extended then
    let payload := (header.drop blockSize).take front.size
    let records ← readRecords payload.length payload
    let rest := header.drop (blockSize + (front.size + blockPad front.size))
    let back ← readHeader (rest.take blockSize)
    some ⟨(lookup (lit "path") records none).getD back.name,
      ((lookup (lit "size") records none).map fun v =>
        Nat.ofDigitChars 10 (textOf v) 0).getD back.size,
      back.mode,
      match lookup (lit "mtime") records none with
      | some v => Double.parse (textOf v)
      | none => Double.ofInt back.mtime⟩
  else some ⟨front.name, front.size, front.mode, Double.ofInt front.mtime⟩

end Reading

section Lengths

theorem digits_le_iff {n k : Nat} (some_ : 0 < k) : digits n ≤ k ↔ n < 10 ^ k :=
  Nat.length_toDigits_le_iff (by decide) some_

theorem digits_pos (n : Nat) : 0 < digits n := Nat.length_toDigits_pos

theorem lt_pow_digits (n : Nat) : n < 10 ^ digits n := (digits_le_iff (digits_pos n)).mp le_rfl

theorem digits_mono {m n : Nat} (le : m ≤ n) : digits m ≤ digits n :=
  (digits_le_iff (digits_pos n)).mpr (le.trans_lt (lt_pow_digits n))

theorem recordLength_ends (l : Nat) : ∃ p, recordLength l 4 0 = some p ∧ p = l + digits p := by
  have first : digits 0 = 1 := rfl
  have grown := digits_mono (show l + 1 ≤ l + digits (l + 1) by have := digits_pos (l + 1); omega)
  have below := lt_pow_digits (l + 1)
  have power : digits (l + 1) < 10 ^ digits (l + 1) := Nat.lt_pow_self (by decide)
  have next : digits (l + digits (l + 1)) ≤ digits (l + 1) + 1 := by
    rw [digits_le_iff (by omega), pow_succ]
    omega
  have settled : digits (l + digits (l + digits (l + 1))) = digits (l + digits (l + 1)) := by
    obtain same | more : digits (l + digits (l + 1)) = digits (l + 1) ∨
        digits (l + digits (l + 1)) = digits (l + 1) + 1 := by omega
    · rw [same, same]
    · apply le_antisymm
      · rw [more, digits_le_iff (by omega), pow_succ]
        omega
      · exact digits_mono (by omega)
  have turn (turns p : Nat) : recordLength l (turns + 1) p =
      if l + digits p = p then some p else recordLength l turns (l + digits p) := rfl
  rw [turn, first, if_neg (by omega), turn, turn, turn, settled, if_pos rfl]
  split_ifs with one two
  · exact ⟨_, rfl, one.symm⟩
  · exact ⟨_, rfl, two.symm⟩
  · exact ⟨_, rfl, by rw [settled]⟩

theorem recordLength_least {l k p : Nat} (some_ : 0 < k) (room : l + k < 10 ^ k) {turns from_ : Nat}
    (start : digits from_ ≤ k) (found : recordLength l turns from_ = some p) : digits p ≤ k := by
  induction turns generalizing from_ with
  | zero => cases found
  | succ turns ih =>
    rw [recordLength] at found
    split at found
    · cases found
      exact start
    · exact ih ((digits_le_iff some_).mpr (by omega)) found

theorem recordLength_mono {l l' p p' : Nat} (le : l ≤ l') (own : p' = l' + digits p')
    (found : recordLength l 4 0 = some p) : digits p ≤ digits p' := by
  refine recordLength_least (digits_pos p') ?_ (digits_mono (Nat.zero_le p')) found
  have below := lt_pow_digits p'
  omega

end Lengths

section Records

theorem byte_toNat {c : Char} (ascii : c.toNat < 128) : (UInt8.ofNat c.toNat).toNat = c.toNat := by
  rw [UInt8.toNat_ofNat']
  omega

theorem textOf_asciiBytes {s : Str} (ascii : ∀ c ∈ s, c.toNat < 128) :
    textOf (asciiBytes s) = s := by
  rw [textOf, asciiBytes, List.map_map]
  conv_rhs => rw [← List.map_id s]
  apply List.map_congr_left
  intro c member
  rw [Function.comp_apply, byte_toNat (ascii c member), Char.ofNat_toNat, id]

theorem asciiBytes_length (s : Str) : (asciiBytes s).length = s.length := List.length_map _

theorem encoded_ofText {s : Str} (ascii : ∀ c ∈ s, c.toNat < 128) :
    encoded (ofText s) = asciiBytes s := by
  induction s with
  | nil => rfl
  | cons c s ih =>
    have plain : String.utf8EncodeChar c = [UInt8.ofNat c.toNat] :=
      if_pos (Nat.le_of_lt_succ (ascii c (.head _)))
    have tail := ih fun d member => ascii d (.tail c member)
    change String.utf8EncodeChar c ++ encoded (ofText s) = _
    rw [plain, tail]
    rfl

theorem digit_bounds {c : Char} (digit : isDigit c = true) : 48 ≤ c.toNat ∧ c.toNat ≤ 57 := by
  simpa [isDigit_archived, asciiDigit, Char.le_def, UInt32.le_iff_toNat_le] using digit

theorem decimalText_ascii (n : Nat) : ∀ c ∈ decimalText n, c.toNat < 128 := fun c member => by
  have bounds := digit_bounds (decimalText_digits n c member)
  omega

theorem number_read (n : Nat) :
    Nat.ofDigitChars 10 (textOf (asciiBytes (decimalText n))) 0 = n := by
  rw [textOf_asciiBytes (decimalText_ascii n)]
  exact Nat.ofDigitChars_ten_toDigits

variable {keyword value : Bytes} {p : Nat}

theorem recordOf_length (own : p = keyword.length + value.length + 3 + digits p) :
    (recordOf p keyword value).length = p := by
  simp only [recordOf, List.length_append, List.length_cons, asciiBytes_length, List.length_nil]
  rw [digits] at own
  omega

theorem readRecord_recordOf (own : p = keyword.length + value.length + 3 + digits p)
    (plain : 61 ∉ keyword) (rest : Bytes) :
    readRecord (recordOf p keyword value ++ rest) = some ((keyword, value), p) := by
  have number : ((recordOf p keyword value ++ rest).takeWhile fun b => decide (48 ≤ b ∧ b ≤ 57)) =
      asciiBytes (decimalText p) := by
    rw [recordOf, List.append_assoc, List.takeWhile_append_of_pos]
    · rw [List.cons_append, List.takeWhile_cons_of_neg (by decide), List.append_nil]
    · intro b member
      obtain ⟨c, inside, rfl⟩ := List.mem_map.mp member
      have bounds := digit_bounds (decimalText_digits p c inside)
      have byte := byte_toNat (decimalText_ascii p c inside)
      simp only [UInt8.le_iff_toNat_le, byte]
      exact decide_eq_true bounds
  have taken : (recordOf p keyword value ++ rest).take p = recordOf p keyword value :=
    List.take_left' (recordOf_length own)
  have body : (recordOf p keyword value).drop ((asciiBytes (decimalText p)).length + 1) =
      keyword ++ (61 :: (value ++ [10])) := by
    rw [recordOf, ← List.drop_drop, List.drop_left, List.drop_one, List.tail_cons]
  have word : (keyword ++ (61 :: (value ++ [10]))).takeWhile (· ≠ 61) = keyword := by
    have other : ∀ b ∈ keyword, decide (b ≠ 61) = true := fun b member =>
      decide_eq_true (by rintro rfl; exact plain member)
    rw [List.takeWhile_append_of_pos other, List.takeWhile_cons_of_neg (by decide),
      List.append_nil]
  have field : ((keyword ++ (61 :: (value ++ [10]))).drop (keyword.length + 1)).dropLast = value := by
    rw [← List.drop_drop, List.drop_left, List.drop_one, List.tail_cons, List.dropLast_concat]
  have blank : (recordOf p keyword value ++ rest).getD (asciiBytes (decimalText p)).length 0 = 32 := by
    rw [recordOf, List.append_assoc, List.getD_append_right _ _ _ _ le_rfl, Nat.sub_self]
    rfl
  have reach : p ≤ (recordOf p keyword value ++ rest).length := by
    rw [List.length_append, recordOf_length own]
    exact Nat.le_add_right _ _
  unfold readRecord
  dsimp only
  rw [number, number_read, taken, body, word, field, if_pos ⟨reach, rfl, blank⟩]

def weight (h : Str × Name) : Nat := h.1.length + (encoded h.2).length + 13

def pair (h : Str × Name) : Bytes × Bytes := (asciiBytes h.1, encoded h.2)

theorem paxRecords_read {headers : List (Str × Name)}
    (plain : ∀ h ∈ headers, 61 ∉ asciiBytes h.1) (room : (headers.map weight).sum < 10 ^ 10) :
    ∃ records, paxRecords headers = some records ∧ headers.length ≤ records.length ∧
      records.length ≤ (headers.map weight).sum ∧
      ∀ turns ≥ headers.length, readRecords turns records =
        some (headers.map pair) := by
  induction headers with
  | nil => exact ⟨[], rfl, le_rfl, le_rfl, fun turns _ => by cases turns <;> rfl⟩
  | cons h headers ih =>
    rw [List.map_cons, List.sum_cons, weight] at room
    obtain ⟨more, written, least, most, again⟩ :=
      ih (fun h' member => plain h' (.tail h member)) (by omega)
    obtain ⟨p, ends, own⟩ := recordLength_ends (h.1.length + (encoded h.2).length + 3)
    have small := recordLength_least (by decide)
      (show _ + 10 < 10 ^ 10 by omega) (by decide) ends
    have positive := digits_pos p
    have own' : p = (asciiBytes h.1).length + (encoded h.2).length + 3 + digits p := by
      rw [asciiBytes_length]
      exact own
    have length := recordOf_length own'
    refine ⟨recordOf p (asciiBytes h.1) (encoded h.2) ++ more, ?_, ?_, ?_, ?_⟩
    · obtain ⟨keyword, value⟩ := h
      rw [paxRecords, ends, written]
      rfl
    · rw [List.length_append, length, List.length_cons]
      omega
    · rw [List.length_append, length, List.map_cons, List.sum_cons, weight]
      omega
    · intro turns enough
      obtain ⟨turns, rfl⟩ : ∃ t, turns = t + 1 := ⟨turns - 1, by
        rw [List.length_cons] at enough
        omega⟩
      have read := readRecord_recordOf own' (plain h (.head _)) more
      have cut : (recordOf p (asciiBytes h.1) (encoded h.2) ++ more).drop p = more :=
        List.drop_left' length
      obtain ⟨b, s, cons⟩ : ∃ b s, recordOf p (asciiBytes h.1) (encoded h.2) ++ more = b :: s := by
        apply List.exists_cons_of_ne_nil
        intro none_
        have zero := congrArg List.length none_
        rw [List.length_append, length, List.length_nil] at zero
        omega
      rw [cons] at read cut ⊢
      rw [readRecords, read]
      · change (readRecords turns ((b :: s).drop p)).bind _ = _
        rw [cut, again turns (Nat.le_of_succ_le_succ enough)]
        rfl
      · exact List.cons_ne_nil b s

theorem paxRecords_append (front back : List (Str × Name)) : paxRecords (front ++ back) =
    (paxRecords front).bind fun first => (paxRecords back).map (first ++ ·) := by
  induction front with
  | nil =>
    rw [List.nil_append, paxRecords, Option.bind_some]
    exact Option.map_id'.symm
  | cons h front ih =>
    obtain ⟨keyword, value⟩ := h
    rw [List.cons_append, paxRecords, paxRecords, ih]
    cases recordLength _ 4 0 <;> cases paxRecords front <;> cases paxRecords back <;>
      simp

end Records

section Blocks

def IsOctal (c : Char) : Prop := 48 ≤ c.toNat ∧ c.toNat ≤ 55

theorem octal_digits (n : Nat) : ∀ c ∈ Nat.toDigits 8 n, IsOctal c := by
  induction n using Nat.strongRecOn with
  | ind n ih =>
    have small : ∀ d < 8, IsOctal (Nat.digitChar d) := by
      simp only [IsOctal]
      decide
    rw [Nat.toDigits_eq_if (by decide)]
    split
    · next one =>
        intro c member
        rw [List.mem_singleton.mp member]
        exact small n one
    · next more =>
        intro c member
        rcases List.mem_append.mp member with front | last
        · exact ih (n / 8) (by omega) c front
        · rw [List.mem_singleton.mp last]
          exact small _ (Nat.mod_lt n (by decide))

variable {w n : Nat}

theorem numberField_length (some_ : 1 < w) (room : n < 8 ^ (w - 1)) :
    (numberField w n).length = w := by
  have most : (Nat.toDigits 8 n).length ≤ w - 1 :=
    (Nat.length_toDigits_le_iff (by decide) (by omega)).mpr room
  simp only [numberField, List.length_append, asciiBytes_length, List.length_replicate,
    List.length_singleton]
  omega

theorem nts_front {bytes rest : Bytes} (clean : 0 ∉ bytes) (stop : nts rest = []) :
    nts (bytes ++ rest) = bytes := by
  have own : ∀ b ∈ bytes, decide (b ≠ 0) = true := fun b member =>
    decide_eq_true (by rintro rfl; exact clean member)
  rw [nts] at stop ⊢
  rw [List.takeWhile_append_of_pos own, stop, List.append_nil]

theorem nts_zeros (k : Nat) : nts (zeros k) = [] := by cases k <;> rfl

theorem zero_not_ascii {s : Str} (ascii : ∀ c ∈ s, c.toNat < 128) (clean : '\x00' ∉ s) :
    0 ∉ asciiBytes s := by
  intro member
  obtain ⟨c, inside, same⟩ := List.mem_map.mp member
  have zero : c.toNat = 0 := by
    rw [← byte_toNat (ascii c inside), same]
    rfl
  have nul : c = '\x00' := by rw [← Char.ofNat_toNat c, zero]
  exact clean (nul ▸ inside)

theorem fieldNumber_numberField (rest : Bytes) :
    fieldNumber (numberField w n ++ rest) = some n := by
  let text := List.replicate (w - 1 - (Nat.toDigits 8 n).length) '0' ++ Nat.toDigits 8 n
  have octal : ∀ c ∈ text, IsOctal c := by
    intro c member
    rcases List.mem_append.mp member with front | own
    · rw [List.eq_of_mem_replicate front]
      exact ⟨le_rfl, by decide⟩
    · exact octal_digits n c own
  have ascii : ∀ c ∈ text, c.toNat < 128 := fun c member => by
    have bounds := octal c member
    rw [IsOctal] at bounds
    omega
  have clean : '\x00' ∉ text := fun member => absurd (octal _ member) (by unfold IsOctal; decide)
  have solid : ∀ c ∈ text, isSpace c = false := fun c member => by
    refine isSpace_of_isDigit ?_
    have bounds := octal c member
    rw [IsOctal] at bounds
    simp [isDigit_archived, asciiDigit, Char.le_def, UInt32.le_iff_toNat_le]
    exact ⟨bounds.1, bounds.2.trans (by decide)⟩
  have read : strip (fieldText (numberField w n ++ rest)) = text := by
    change strip (textOf (nts ((asciiBytes text ++ [0]) ++ rest))) = text
    rw [List.append_assoc, nts_front (zero_not_ascii ascii clean) rfl, textOf_asciiBytes ascii,
      strip_of_no_space solid]
  have all : (text.all fun c => '0' ≤ c && c ≤ '7') = true := by
    rw [List.all_eq_true]
    intro c member
    simpa [Char.le_def, UInt32.le_iff_toNat_le, IsOctal] using octal c member
  have value : Nat.ofDigitChars 8 text 0 = n := by
    rw [Nat.ofDigitChars_append, Nat.ofDigitChars_replicate_zero, Nat.mul_zero]
    exact Nat.ofDigitChars_toDigits (by decide) (by decide)
  unfold fieldNumber
  dsimp only
  rw [read, if_pos all]
  exact congrArg some value

theorem stn_length (s : Name) (length : Nat) : (stn s length).length = length := by
  simp only [stn, List.length_append, List.length_take, List.length_map, zeros_length]
  omega

theorem nts_stn {s : Name} {length : Nat} (ascii : s.all NameChar.isAscii = true)
    (clean : NameChar.char '\x00' ∉ s) (short : s.length ≤ length) :
    nts (stn s length) = encoded s := by
  obtain ⟨text, rfl, plain⟩ : ∃ text, s = ofText text ∧ ∀ c ∈ text, c.toNat < 128 := by
    induction s with
    | nil => exact ⟨[], rfl, fun c member => absurd member List.not_mem_nil⟩
    | cons c s ih =>
      rw [List.all_cons, Bool.and_eq_true] at ascii
      obtain ⟨text, rfl, plain⟩ := ih ascii.2
        (fun member => clean (.tail c member)) (Nat.le_of_succ_le short)
      cases c with
      | char c =>
        refine ⟨c :: text, rfl, fun d member => ?_⟩
        rcases List.mem_cons.mp member with rfl | inside
        · exact of_decide_eq_true ascii.1
        · exact plain d inside
      | escaped byte high => cases ascii.1
  have replaced : (ofText text).map NameChar.replaced = asciiBytes text := by
    rw [ofText, List.map_map]
    apply List.map_congr_left
    intro c member
    exact if_pos (plain c member)
  have clean' : '\x00' ∉ text := fun member => clean (List.mem_map_of_mem member)
  have fits : (asciiBytes text).length ≤ length := by
    rw [asciiBytes_length]
    simpa [ofText] using short
  rw [stn, replaced, List.take_of_length_le fits, nts_front (zero_not_ascii plain clean') (nts_zeros _),
    encoded_ofText plain]

theorem slice_parts {parts : List Bytes} {widths : List Nat}
    (sized : parts.map List.length = widths) (i j : Nat) (order : i ≤ j) :
    slice parts.flatten (widths.take i).sum (widths.take j).sum =
      ((parts.take j).drop i).flatten := by
  have cut (k : Nat) : (widths.take k).sum = (parts.take k).flatten.length := by
    rw [← sized, List.length_flatten, List.map_take]
  have halves (l : List Bytes) (k : Nat) : l.flatten = (l.take k).flatten ++ (l.drop k).flatten := by
    rw [← List.flatten_append, List.take_append_drop]
  have front := halves (parts.take j) i
  rw [List.take_take, Nat.min_eq_left order] at front
  rw [slice, cut, cut, halves parts j, List.take_left, front, List.drop_left]

end Blocks

section Headers

variable {f : Fields}

theorem byteSum_le (bytes : Bytes) : (bytes.map UInt8.toNat).sum ≤ bytes.length * 255 := by
  have each : ∀ n ∈ bytes.map UInt8.toNat, n ≤ 255 := by
    intro n member
    obtain ⟨b, -, rfl⟩ := List.mem_map.mp member
    exact Nat.le_of_lt_succ b.toNat_lt
  simpa using List.sum_le_card_nsmul _ 255 each

def widths : List Nat := [100, 8, 8, 8, 12, 12, 8, 1, 100, 8, 32, 32, 8, 8, 155, 12]

theorem Fields.before_widths (fits : f.Fits) :
    f.before.map List.length = [100, 8, 8, 8, 12, 12] := by
  obtain ⟨uid, gid, size, mtime⟩ := fits
  have mode : f.mode % 4096 < 8 ^ (8 - 1) := (Nat.mod_lt _ (by decide)).trans (by decide)
  simp only [Fields.before, List.map_cons, List.map_nil, stn_length,
    numberField_length (by decide) mode, numberField_length (w := 8) (by decide) uid,
    numberField_length (w := 8) (by decide) gid,
    numberField_length (w := 12) (by decide) size,
    numberField_length (w := 12) (by decide) mtime]

theorem Fields.after_widths (f : Fields) :
    f.after.map List.length = [1, 100, 8, 32, 32, 8, 8, 155, 12] := by
  simp only [Fields.after, List.map_cons, List.map_nil, stn_length, zeros_length]
  rfl

theorem Fields.widths (fits : f.Fits) :
    (f.before ++ [numberField 7 f.sum ++ [32]] ++ f.after).map List.length = Pax.widths := by
  have front := byteSum_le f.before.flatten
  have back := byteSum_le f.after.flatten
  rw [List.length_flatten, Fields.before_widths fits] at front
  rw [List.length_flatten, f.after_widths] at back
  have room : f.sum < 8 ^ (7 - 1) := by
    simp only [List.sum_cons, List.sum_nil] at front back
    rw [Fields.sum]
    omega
  rw [List.map_append, List.map_append, Fields.before_widths fits, f.after_widths, List.map_singleton,
    List.length_append, numberField_length (by decide) room]
  rfl

theorem Fields.block_length (fits : f.Fits) : f.block.length = blockSize := by
  rw [Fields.block, List.length_flatten, Fields.widths fits]
  rfl

theorem readHeader_block (fits : f.Fits) :
    readHeader f.block =
      some ⟨f.flag, nts (stn f.name 100), f.mode % 4096, f.size, f.mtime⟩ := by
  have runs := slice_parts (Fields.widths fits)
  have front : slice f.block 0 148 = f.before.flatten := runs 0 6 (by decide)
  have back : slice f.block 156 512 = f.after.flatten := runs 7 16 (by decide)
  have part {start stop : Nat} {field : Bytes} (run : slice f.block start stop = field ++ []) :
      slice f.block start stop = field := run.trans (List.append_nil field)
  have name : slice f.block 0 100 = stn f.name 100 := part (runs 0 1 (by decide))
  have mode : slice f.block 100 108 = numberField 8 (f.mode % 4096) := part (runs 1 2 (by decide))
  have size : slice f.block 124 136 = numberField 12 f.size := part (runs 4 5 (by decide))
  have mtime : slice f.block 136 148 = numberField 12 f.mtime := part (runs 5 6 (by decide))
  have sum : slice f.block 148 156 = numberField 7 f.sum ++ [32] := part (runs 6 7 (by decide))
  have directory : slice f.block 345 500 = zeros 155 := part (runs 14 15 (by decide))
  have flag : slice f.block 156 157 = [f.flag] := part (runs 7 8 (by decide))
  have right : checksum f.block = f.sum := by rw [checksum, front, back, Fields.sum]
  have read (w n : Nat) : fieldNumber (numberField w n) = some n := by
    rw [← List.append_nil (numberField w n), fieldNumber_numberField]
  rw [readHeader, sum, fieldNumber_numberField, right, if_pos rfl, mode, size, mtime, name,
    directory, nts_zeros, flag, read, read, read]
  rfl

end Headers

section Headers

/-- The keywords of a member's records; none has a `=` in it. -/
def keywords : List Str :=
  [lit "hdrcharset", lit "comment", lit "path", lit "uname", lit "gname", lit "uid", lit "gid",
    lit "size", lit "mtime"]

variable {c : Prop} [Decidable c] {k keyword : Str} {v : Name} {found : Option Bytes}

theorem mem_optional (known : k ∈ keywords) : ∀ h ∈ optional c k v, h.1 ∈ keywords := by
  unfold optional
  split <;> simp [known]

theorem weight_optional : ((optional c k v).map weight).sum ≤ weight (k, v) := by
  unfold optional
  split <;> simp

theorem lookup_other (other : asciiBytes k ≠ asciiBytes keyword) :
    lookup keyword ((optional c k v).map pair) found = found := by
  unfold optional
  split <;> simp [lookup, pair, other]

theorem lookup_own : lookup k ((optional c k v).map pair) found =
    if c then found else some (encoded v) := by
  unfold optional
  split <;> simp [lookup, pair]

theorem lookup_append (front back : List (Bytes × Bytes)) :
    lookup k (front ++ back) found = lookup k back (lookup k front found) := List.foldl_append

end Headers

namespace TarInfo

variable {info : TarInfo}

theorem repr_ascii (x : Double) : ∀ c ∈ x.repr, c.toNat < 128 := by
  intro c member
  rcases Double.repr_printed x c member with digit | other
  · have bounds := digit_bounds digit
    omega
  · have all : ['.', 'e', '+', '-', 'i', 'n', 'f', 'a'].all (·.toNat < 128) = true := rfl
    exact of_decide_eq_true (List.all_eq_true.mp all c other)

theorem encoded_date : encoded (ofText info.date.repr) = asciiBytes info.date.repr :=
  encoded_ofText (repr_ascii _)

theorem encoded_dots (pad : Nat) :
    encoded (ofText (List.replicate pad '.')) = asciiBytes (List.replicate pad '.') :=
  encoded_ofText fun c member => by
    rw [List.eq_of_mem_replicate member]
    decide

def Short (info : TarInfo) : Prop :=
  (encoded info.name).length + (encoded info.uname).length + (encoded info.gname).length +
    info.date.repr.length < 2 ^ 32

theorem paxHeaders_keywords : ∀ h ∈ info.paxHeaders, h.1 ∈ keywords := by
  simp only [paxHeaders, textHeader, numberHeader, List.mem_append, or_imp, forall_and]
  refine ⟨mem_optional (by decide), mem_optional (by decide), mem_optional (by decide),
    mem_optional (by decide), mem_optional (by decide), mem_optional (by decide), ?_⟩
  intro h member
  rw [List.mem_singleton.mp member]
  exact (by decide : lit "mtime" ∈ keywords)

theorem paxHeaders_weight (short : info.Short) :
    (info.paxHeaders.map weight).sum < 2 ^ 32 + 256 := by
  have number (k : Str) {n : Nat} (small : n < 2 ^ 64) :
      weight (k, ofText (decimalText n)) ≤ k.length + 33 := by
    have digits : (decimalText n).length ≤ 20 :=
      (digits_le_iff (by decide)).mpr (small.trans (by decide))
    simp only [weight, encoded_ofText (decimalText_ascii n), asciiBytes_length]
    omega
  have uid := number (lit "uid") (n := info.uid.toNat) (by have := info.uid.toNat_lt; omega)
  have gid := number (lit "gid") (n := info.gid.toNat) (by have := info.gid.toNat_lt; omega)
  have size := number (lit "size") info.size.toNat_lt
  have date : weight (lit "mtime", ofText info.date.repr) = info.date.repr.length + 18 := by
    have key : (lit "mtime").length = 5 := rfl
    simp only [weight, encoded_date, asciiBytes_length]
    omega
  rw [Short] at short
  simp only [paxHeaders, textHeader, numberHeader, List.map_append, List.sum_append]
  refine lt_of_le_of_lt (Nat.add_le_add weight_optional (Nat.add_le_add weight_optional
    (Nat.add_le_add weight_optional (Nat.add_le_add weight_optional (Nat.add_le_add weight_optional
      (Nat.add_le_add weight_optional (List.sum_singleton.le))))))) ?_
  have path : (lit "path").length = 4 := rfl
  have owner : (lit "uname").length = 5 := rfl
  have group : (lit "gname").length = 5 := rfl
  have ids : (lit "uid").length = 3 ∧ (lit "gid").length = 3 ∧ (lit "size").length = 4 :=
    ⟨rfl, rfl, rfl⟩
  dsimp only [weight] at uid gid size date ⊢
  omega

end TarInfo

section Members

variable {info : TarInfo}

theorem fitted_lt {n digits : Nat} : TarInfo.fitted n digits < 8 ^ (digits - 1) := by
  unfold TarInfo.fitted
  split
  · assumption
  · exact Nat.pow_pos (by decide)

theorem ustarFields_fits : info.ustarFields.Fits := by
  refine ⟨fitted_lt, fitted_lt, fitted_lt, ?_⟩
  change info.ustarTime < 8 ^ 11
  unfold TarInfo.ustarTime
  dsimp only
  generalize Binary64.roundHalfEven _ = val
  split <;> omega

theorem headers_plain (info : TarInfo) (pad : Nat) :
    ∀ h ∈ hdrcharset info.paxHeaders ++ info.headers pad, 61 ∉ asciiBytes h.1 := by
  have plain : ∀ k ∈ keywords, 61 ∉ asciiBytes k := by decide
  intro h member
  apply plain
  rcases List.mem_append.mp member with charset | own
  · exact mem_optional (by decide) h charset
  · rcases List.mem_cons.mp own with rfl | other
    · exact (by decide : lit "comment" ∈ keywords)
    · exact TarInfo.paxHeaders_keywords h other

theorem headers_weight (short : info.Short) (pad : Nat) :
    ((hdrcharset info.paxHeaders ++ info.headers pad).map weight).sum < 2 ^ 32 + 512 + pad := by
  have rest := TarInfo.paxHeaders_weight short
  have charset : ((hdrcharset info.paxHeaders).map weight).sum ≤
      weight (lit "hdrcharset", ofText (lit "BINARY")) := weight_optional
  have known : weight (lit "hdrcharset", ofText (lit "BINARY")) = 29 := by decide
  have comment : (lit "comment").length = 7 := rfl
  rw [List.map_append, List.sum_append, TarInfo.headers, List.map_cons, List.sum_cons, weight,
    TarInfo.encoded_dots, asciiBytes_length, List.length_replicate]
  dsimp only
  omega

theorem headers_said (info : TarInfo) (pad : Nat) :
    let records := (hdrcharset info.paxHeaders ++ info.headers pad).map pair
    lookup (lit "path") records none =
        (if info.name.all NameChar.isAscii ∧ info.name.length ≤ 100 then none
          else some (encoded info.name)) ∧
      lookup (lit "size") records none =
        (if info.size.toNat < 8 ^ 11 then none
          else some (asciiBytes (decimalText info.size.toNat))) ∧
      lookup (lit "mtime") records none = some (asciiBytes info.date.repr) := by
  have comment : info.headers pad =
      optional False (lit "comment") (ofText (List.replicate pad '.')) ++ info.paxHeaders := rfl
  have date : [(lit "mtime", ofText info.date.repr)] =
      optional False (lit "mtime") (ofText info.date.repr) := rfl
  have charset (k : Str) (other : asciiBytes (lit "hdrcharset") ≠ asciiBytes k) :
      lookup k ((hdrcharset info.paxHeaders).map pair) none = none := lookup_other other
  generalize hdrcharset info.paxHeaders = front at charset
  rw [comment, TarInfo.paxHeaders, date, ← TarInfo.encoded_date,
    ← encoded_ofText (decimalText_ascii _)]
  simp (disch := decide) only [TarInfo.textHeader, TarInfo.numberHeader, List.map_append,
    lookup_append, charset, lookup_other, lookup_own, if_false]
  exact ⟨trivial, trivial, trivial⟩

variable (info) in
def TarInfo.decoded : Decoded :=
  ⟨encoded info.name, info.size.toNat, info.stMode % 4096, some info.date⟩

theorem ustar_name (clean : NameChar.char '\x00' ∉ info.name) :
    (if info.name.all NameChar.isAscii ∧ info.name.length ≤ 100 then none
      else some (encoded info.name)).getD (nts (stn info.name 100)) = encoded info.name := by
  split
  · next short => exact nts_stn short.1 clean short.2
  · rfl

theorem ustar_size : ((if info.size.toNat < 8 ^ 11 then none
      else some (asciiBytes (decimalText info.size.toNat))).map fun v =>
        Nat.ofDigitChars 10 (textOf v) 0).getD (TarInfo.fitted info.size.toNat 12) =
    info.size.toNat := by
  unfold TarInfo.fitted
  split
  · rfl
  · exact number_read _

theorem blockPad_fills (size : Nat) : (size + blockPad size) % 512 = 0 := by
  unfold blockPad blockSize
  omega

/-- The header that a comment of `pad` dots gives, as long as the records make it. -/
structure Made (info : TarInfo) (others pad p : Nat) (hdr : Bytes) : Prop where
  ends : recordLength (pad + 10) 4 0 = some p
  own : p = pad + 10 + digits p
  built : info.tobuf pad = some hdr
  length : hdr.length = 1024 + (others + p + blockPad (others + p))
  read : decode hdr = some info.decoded

theorem tobuf_made (short : info.Short) (clean : NameChar.char '\x00' ∉ info.name) :
    ∃ others, ∀ pad ≤ 65536, ∃ p hdr, Made info others pad p hdr := by
  refine ⟨((paxRecords (hdrcharset info.paxHeaders)).getD []).length +
    ((paxRecords info.paxHeaders).getD []).length, fun pad room => ?_⟩
  have weights := headers_weight short pad
  obtain ⟨payload, written, counted, most, again⟩ :=
    paxRecords_read (headers_plain info pad) (by omega)
  obtain ⟨p, ends, own⟩ := recordLength_ends (pad + 10)
  have length : payload.length = ((paxRecords (hdrcharset info.paxHeaders)).getD []).length +
      ((paxRecords info.paxHeaders).getD []).length + p := by
    have parts := written
    rw [paxRecords_append, TarInfo.headers, paxRecords, TarInfo.encoded_dots, asciiBytes_length,
      List.length_replicate] at parts
    obtain ⟨front, charset, parts⟩ := Option.bind_eq_some_iff.mp parts
    obtain ⟨back, behind, rfl⟩ := Option.map_eq_some_iff.mp parts
    obtain ⟨p', ends', parts⟩ := Option.bind_eq_some_iff.mp behind
    obtain ⟨more, others, parts⟩ := Option.bind_eq_some_iff.mp parts
    have key : (lit "comment").length + pad + 3 = pad + 10 := by
      rw [show (lit "comment").length = 7 from rfl]
      omega
    rw [key, ends, Option.some.injEq] at ends'
    subst ends'
    cases parts
    have whole := @recordOf_length (asciiBytes (lit "comment"))
      (asciiBytes (List.replicate pad '.')) p (by
        rw [asciiBytes_length, asciiBytes_length, List.length_replicate, key]
        exact own)
    rw [charset, others, List.length_append, List.length_append, whole, Option.getD_some,
      Option.getD_some]
    omega
  have fits : (TarInfo.extendedFields payload.length).Fits := by
    have least : (0 : Nat) < 8 ^ 7 ∧ (0 : Nat) < 8 ^ 11 := by decide
    have room : payload.length < 8 ^ 11 := by omega
    exact ⟨least.1, least.1, room, least.2⟩
  have extendedLength := Fields.block_length fits
  have ustarLength := Fields.block_length (@ustarFields_fits info)
  refine ⟨p, (TarInfo.extendedFields payload.length).block ++ (payload ++
    (zeros (blockPad payload.length) ++ info.ustarFields.block)), ends, own, ?_, ?_, ?_⟩
  · have same : hdrcharset (info.headers pad) = hdrcharset info.paxHeaders := by
      have dots : (ofText (List.replicate pad '.')).all NameChar.spelled = true := by
        simp [ofText, NameChar.spelled]
      rw [hdrcharset, TarInfo.headers, List.all_cons, dots, Bool.true_and, hdrcharset]
    have front : (TarInfo.extendedFields payload.length).createHeader = some _ := if_pos fits
    have back : info.ustarFields.createHeader = some _ := if_pos ustarFields_fits
    simp only [TarInfo.tobuf, same, written, front, back, Option.bind_eq_bind, Option.bind_some]
  · rw [List.length_append, List.length_append, List.length_append, extendedLength, ustarLength,
      zeros_length, length]
    unfold blockSize
    omega
  · have rest : ((TarInfo.extendedFields payload.length).block ++ (payload ++
        (zeros (blockPad payload.length) ++ info.ustarFields.block))).drop
          (blockSize + (payload.length + blockPad payload.length)) = info.ustarFields.block := by
      rw [← List.append_assoc, ← List.append_assoc]
      apply List.drop_left'
      rw [List.length_append, List.length_append, extendedLength, zeros_length]
      omega
    have payloadCut : (((TarInfo.extendedFields payload.length).block ++ (payload ++
        (zeros (blockPad payload.length) ++ info.ustarFields.block))).drop blockSize).take
          payload.length = payload := by
      rw [List.drop_left' extendedLength, List.take_left]
    obtain ⟨path, size, mtime⟩ := headers_said info pad
    have stated : (TarInfo.extendedFields payload.length).size = payload.length := rfl
    have date : Double.parse (textOf (asciiBytes info.date.repr)) = some info.date := by
      rw [textOf_asciiBytes (TarInfo.repr_ascii _), Double.parse_repr]
    have marked : (TarInfo.extendedFields payload.length).flag = extended := rfl
    unfold decode
    rw [List.take_left' extendedLength, readHeader_block fits]
    simp only [Option.bind_eq_bind, Option.bind_some]
    rw [if_pos marked, stated, payloadCut,
      again _ counted, Option.bind_some, rest, List.take_of_length_le ustarLength.le,
      readHeader_block ustarFields_fits, Option.bind_some, path, size, mtime]
    dsimp only
    rw [date, TarInfo.decoded]
    congr
    · exact ustar_name clean
    · exact ustar_size

theorem buildFrom_aligned {others block : Nat}
    (made : ∀ pad ≤ 65536, ∃ p hdr, Made info others pad p hdr)
    {tries pad p : Nat} (room : pad + 4096 * tries ≤ 65536)
    (ends : recordLength (pad + 10) 4 0 = some p) (enough : 7 ≤ tries + digits p) :
    ∃ hdr, info.buildFrom (512 * block) tries pad = some hdr ∧
      (512 * block + hdr.length) % 4096 = 0 ∧ decode hdr = some info.decoded := by
  induction tries generalizing pad p with
  | zero =>
    have few := recordLength_least (k := 5) (by decide) (by omega) (by decide) ends
    omega
  | succ tries ih =>
    obtain ⟨p', hdr, ends', own, built, length, read⟩ := made pad (by omega)
    cases ends.symm.trans ends'
    have few := recordLength_least (k := 5) (by decide) (by omega) (by decide) ends
    rw [TarInfo.buildFrom, built]
    simp only [Option.bind_eq_bind, Option.bind_some]
    split
    · next aligned => exact ⟨hdr, rfl, by omega, read⟩
    · next apart =>
        have fills := blockPad_fills (others + p)
        set need := (4096 - (512 * block + hdr.length) % 4096) % 4096
        obtain ⟨p', hdr', ends', own', built', length', read'⟩ := made (pad + need) (by omega)
        have grown := recordLength_mono (show pad + 10 ≤ pad + need + 10 by omega) own' ends
        obtain same | more := grown.eq_or_lt
        · obtain ⟨tries, rfl⟩ : ∃ t, tries = t + 1 := ⟨tries - 1, by omega⟩
          have moved : p' = p + need := by omega
          have aligned : (4096 - (512 * block + hdr'.length) % 4096) % 4096 = 0 := by
            have kept : blockPad (others + (p + need)) = blockPad (others + p) := by
              unfold blockPad blockSize
              omega
            rw [moved, kept] at length'
            omega
          refine ⟨hdr', ?_, by omega, read'⟩
          rw [TarInfo.buildFrom, built']
          simp only [Option.bind_eq_bind, Option.bind_some]
          rw [if_pos aligned]
        · exact ih (by omega) ends' (by omega)

end Members

/-- For every member and every start of a block, the header is built within the tries, ends on a
boundary and is read back as the member. -/
theorem buildMemberHeader_faithful (info : TarInfo) (block : Nat) (short : info.Short)
    (clean : NameChar.char '\x00' ∉ info.name) :
    ∃ hdr, info.buildMemberHeader (512 * block) = some hdr ∧
      (512 * block + hdr.length) % 4096 = 0 ∧ decode hdr = some info.decoded := by
  obtain ⟨others, made⟩ := tobuf_made short clean
  obtain ⟨p, -, ends, -, -, -, -⟩ := made 0 (by decide)
  have positive := digits_pos p
  exact buildFrom_aligned made (by decide) ends (by omega)

def epoch : Binary64.Magnitude := ⟨0, le_rfl, by positivity, Binary64.nearest_zero⟩

theorem buildMemberHeader_accent : ∃ hdr,
    (TarInfo.mk [.char 'é'] [] [] 33188 0 0 1 false epoch).buildMemberHeader (512 * 1) = some hdr ∧
      (512 * 1 + hdr.length) % 4096 = 0 ∧
      decode hdr = some ⟨[195, 169], 1, 420, some (.finite false epoch)⟩ :=
  buildMemberHeader_faithful ⟨[.char 'é'], [], [], 33188, 0, 0, 1, false, epoch⟩ 1
    (by unfold TarInfo.Short; decide +kernel) (by simp)

end PerfStats.Archive.Pax
