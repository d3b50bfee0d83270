import PerfStats.Ingest.CopyEncoders

namespace PerfStats.Ingest

open Lib Lib.Binary64 Lib.Calendar Text CopyText
open Metrics (utf8 decodeUtf8 decodeUtf8_utf8)
open PerfStats.Double (Printed digitsValue)

section Moments

def takeNumber (width : Nat) (s : Str) : Option (ℤ × Str) :=
  if (s.take width).length = width ∧ (s.take width).all isDigit then
    some (digitsValue (s.take width), s.drop width)
  else none

def expect (c : Char) : Str → Option Str
  | d :: rest => if d = c then some rest else none
  | [] => none

def readMoment (s : Str) : Option Moment := do
  let (year, s) ← takeNumber 4 s
  let (month, s) ← (expect '-' s).bind (takeNumber 2)
  let (day, s) ← (expect '-' s).bind (takeNumber 2)
  let (hour, s) ← (expect 'T' s).bind (takeNumber 2)
  let (minute, s) ← (expect ':' s).bind (takeNumber 2)
  let (second, s) ← (expect ':' s).bind (takeNumber 2)
  let (micro, s) ← ((expect '.' s).bind (takeNumber 6)).or (some (0, s))
  if s = lit "+00:00" then
    moment? (daysOf ⟨year, month, day⟩ * 86400000000 + hour * 3600000000 + minute * 60000000 +
      second * 1000000 + micro)
  else none

theorem padded_length {width : Nat} {n : ℤ} (positive : 0 < width) (small : n.natAbs < 10 ^ width) :
    (padded width n).length = width := by
  have short : (decimalText n.natAbs).length ≤ width := by
    rw [decimalText, Nat.length_toDigits_le_iff (by decide) positive]
    exact small
  rw [padded, List.length_append, List.length_replicate]
  omega

theorem padded_digits (width : Nat) (n : ℤ) : ∀ c ∈ padded width n, isDigit c = true :=
  List.forall_mem_append.mpr ⟨Double.zeros_digits _, decimalText_digits _⟩

theorem padded_value (width : Nat) (n : ℤ) : digitsValue (padded width n) = n.natAbs := by
  have value : digitsValue (decimalText n.natAbs) = n.natAbs := Nat.ofDigitChars_ten_toDigits
  rw [padded, Double.digitsValue_append, Double.digitsValue_zeros, Nat.mul_zero, Nat.zero_add, value]

theorem takeNumber_padded {width : Nat} {n : ℤ} (positive : 0 < width) (least : 0 ≤ n)
    (small : n < 10 ^ width) (rest : Str) :
    takeNumber width (padded width n ++ rest) = some (n, rest) := by
  have below : n.natAbs < 10 ^ width := by
    have same : (n.natAbs : ℤ) < ((10 ^ width : ℕ) : ℤ) := by
      rw [Int.natAbs_of_nonneg least]
      exact_mod_cast small
    exact_mod_cast same
  have length := padded_length positive below
  have front : (padded width n ++ rest).take width = padded width n := List.take_left' length
  have back : (padded width n ++ rest).drop width = rest := List.drop_left' length
  have digits : (padded width n).all isDigit = true :=
    List.all_eq_true.mpr (padded_digits width n)
  rw [takeNumber, front, back, if_pos ⟨length, digits⟩, padded_value, Int.natAbs_of_nonneg least]

theorem expect_padded {width : Nat} {n : ℤ} (c : Char) (positive : 0 < width) (least : 0 ≤ n)
    (small : n < 10 ^ width) (rest : Str) :
    (expect c (c :: (padded width n ++ rest))).bind (takeNumber width) = some (n, rest) := by
  rw [expect, if_pos rfl, Option.bind_some, takeNumber_padded positive least small]

theorem moment?_micros (m : Moment) : moment? m.micros = some m := by
  rw [moment?, dif_pos ⟨m.first, m.last⟩]

theorem readMoment_isoformat (m : Moment) : readMoment (isoformat 'T' m) = some m := by
  have first := m.first
  have last := m.last
  have years := @year_bounds (m.micros / 86400000000) (by omega) (by omega)
  have dates := dateOf_bounds (m.micros / 86400000000)
  have back := daysOf_dateOf (m.micros / 86400000000)
  have year : yearText (dateOf (m.micros / 86400000000)).year =
      padded 4 (dateOf (m.micros / 86400000000)).year := by
    rw [yearText, if_neg (by omega)]
  have whole : m.micros / 86400000000 * 86400000000 +
      m.micros % 86400000000 / 3600000000 * 3600000000 +
      m.micros % 86400000000 / 60000000 % 60 * 60000000 +
      m.micros % 86400000000 / 1000000 % 60 * 1000000 + m.micros % 1000000 = m.micros := by omega
  have micro : ((expect '.' ((if m.micros % 1000000 = 0 then [] else fractionText m.micros) ++
      lit "+00:00")).bind (takeNumber 6)).or
        (some (0, (if m.micros % 1000000 = 0 then [] else fractionText m.micros) ++ lit "+00:00")) =
      some (m.micros % 1000000, lit "+00:00") := by
    by_cases even : m.micros % 1000000 = 0
    · rw [if_pos even, even]
      rfl
    · rw [if_neg even, fractionText, List.cons_append,
        expect_padded '.' (by omega) (by omega) (by omega)]
      rfl
  unfold readMoment isoformat secondsText
  simp only [year, List.append_assoc, List.cons_append, bind]
  simp (disch := omega) only [takeNumber_padded, expect_padded, Option.bind_some, micro]
  rw [back, whole, if_pos True.intro, moment?_micros]

end Moments

section Bodies

inductive DbValue where
  | null
  | text (s : Str)
  | real (x : Double)
  | moment (m : Moment)
  | integer (n : Int)
deriving DecidableEq

def readBody {γ : Type} (columns : List γ) (readField : γ → CopyText.Field → Option DbValue)
    (body : Bytes) : Option (List (List DbValue)) := do
  let text ← decodeUtf8 body
  let rows ← read text
  rows.mapM fun fields =>
    if fields.length = columns.length then
      (columns.zip fields).mapM fun entry => readField entry.1 entry.2
    else none

theorem copyBody_literals (rows : List (List CopyText.Field)) :
    copyBody (rows.map fun fields => fields.map literal) = utf8 (write rows) := by
  rw [copyBody, List.flatMap_map]
  rfl

theorem readBody_copyBody {γ ι : Type} {columns : List γ} (some_ : columns ≠ [])
    {readField : γ → CopyText.Field → Option DbValue} {rows : List ι}
    {field : ι → γ → CopyText.Field} {value : ι → γ → DbValue}
    (clean : ∀ i ∈ rows, ∀ col ∈ columns, ∀ text, field i col = some text → '\x00' ∉ text)
    (each : ∀ i ∈ rows, ∀ col ∈ columns, readField col (field i col) = some (value i col)) :
    readBody columns readField (copyBody (rows.map fun i => columns.map fun col =>
      literal (field i col))) = some (rows.map fun i => columns.map (value i)) := by
  have written : (rows.map fun i => columns.map fun col => literal (field i col)) =
      (rows.map fun i => columns.map (field i)).map fun fields => fields.map literal := by
    simp [Function.comp_def]
  have read : read (write (rows.map fun i => columns.map (field i))) =
      some (rows.map fun i => columns.map (field i)) := by
    apply read_write
    · intro row member
      obtain ⟨i, -, rfl⟩ := List.mem_map.mp member
      simpa using some_
    · intro row member text inside
      obtain ⟨i, here, rfl⟩ := List.mem_map.mp member
      obtain ⟨col, there, same⟩ := List.mem_map.mp inside
      exact clean i here col there text same
  have zipped : ∀ i, columns.zip (columns.map (field i)) = columns.map fun col => (col, field i col) := by
    intro i
    exact List.map_prod_left_eq_zip.symm
  rw [readBody, written, copyBody_literals, decodeUtf8_utf8]
  simp only [bind, Option.bind_some, read]
  rw [mapM_eq_some_iff, List.map_map, List.map_map]
  refine List.map_congr_left fun i here => ?_
  simp only [Function.comp_apply]
  rw [if_pos (List.length_map ..), zipped, mapM_eq_some_iff, List.map_map, List.map_map]
  exact List.map_congr_left fun col there => each i here col there

end Bodies

section Characters

theorem printed_plain {c : Char} (printed : Printed c) :
    c ∉ ['\\', '\t', '\n', '\r'] ∧ c ≠ '\x00' := by
  have other : (['\\', '\t', '\n', '\r', '\x00'].all fun d => !decide (Printed d)) = true := by
    decide
  have plain : ∀ d ∈ ['\\', '\t', '\n', '\r', '\x00'], ¬ Printed d := fun d inside =>
    by simpa using List.all_eq_true.mp other d inside
  constructor
  · exact fun inside => plain c (List.mem_append_left ['\x00'] inside) printed
  · exact fun same => plain '\x00' (by decide) (same ▸ printed)

theorem padded_printed (width : Nat) (n : ℤ) : ∀ c ∈ padded width n, Printed c :=
  fun c member => .inl (padded_digits width n c member)

theorem integerText_printed (n : Int) : ∀ c ∈ integerText n, Printed c := by
  unfold integerText
  split
  · exact List.forall_mem_cons.mpr ⟨.inr (by decide), Double.decimalText_printed _⟩
  · exact Double.decimalText_printed _

theorem isoformat_mem (sep : Char) (m : Moment) :
    ∀ c ∈ isoformat sep m, c = sep ∨ c = ':' ∨ Printed c := by
  have number : ∀ width n, ∀ c ∈ padded width n, c = sep ∨ c = ':' ∨ Printed c :=
    fun width n c member => .inr (.inr (padded_printed width n c member))
  have dash : '-' = sep ∨ '-' = ':' ∨ Printed '-' := .inr (.inr (.inr (by decide)))
  have year : ∀ y, ∀ c ∈ yearText y, c = sep ∨ c = ':' ∨ Printed c := by
    intro y
    unfold yearText
    split
    · exact List.forall_mem_cons.mpr ⟨dash, number 3 y⟩
    · exact number 4 y
  have fraction : ∀ c ∈ (if m.micros % 1000000 = 0 then [] else fractionText m.micros),
      c = sep ∨ c = ':' ∨ Printed c := by
    split
    · exact nofun
    · exact List.forall_mem_cons.mpr ⟨.inr (.inr (.inr (by decide))), number 6 _⟩
  have zone : ∀ c ∈ lit "+00:00", c = sep ∨ c = ':' ∨ Printed c := by
    have inside : ((lit "+00:00").all fun c => decide (c = ':' ∨ Printed c)) = true := by decide
    exact fun c member => .inr (of_decide_eq_true (List.all_eq_true.mp inside c member))
  have colon : ':' = sep ∨ ':' = ':' ∨ Printed ':' := .inr (.inl rfl)
  have middle : sep = sep ∨ sep = ':' ∨ Printed sep := .inl rfl
  refine List.forall_mem_append.mpr ⟨List.forall_mem_append.mpr ⟨year _, ?_⟩,
    List.forall_mem_append.mpr ⟨fraction, zone⟩⟩
  have after : ∀ {mark : Char} {rest : Str} (n : ℤ), (mark = sep ∨ mark = ':' ∨ Printed mark) →
      (∀ c ∈ rest, c = sep ∨ c = ':' ∨ Printed c) →
      ∀ c ∈ mark :: (padded 2 n ++ rest), c = sep ∨ c = ':' ∨ Printed c := fun n first later =>
    List.forall_mem_cons.mpr ⟨first, List.forall_mem_append.mpr ⟨number 2 n, later⟩⟩
  exact after _ dash (after _ dash (after _ middle (after _ colon
    (List.forall_mem_cons.mpr ⟨colon, number 2 _⟩))))

theorem str_clean {value : PyValue} (clean : ∀ s, value = .text s → '\x00' ∉ s) :
    '\x00' ∉ value.str := by
  have printed : ∀ {text : Str}, (∀ c ∈ text, Printed c) → '\x00' ∉ text :=
    fun all inside => (printed_plain (all _ inside)).2 rfl
  cases value with
  | none_ => exact (by decide : '\x00' ∉ lit "None")
  | na => exact (by decide : '\x00' ∉ lit "<NA>")
  | bool b => cases b <;> decide
  | int n => exact printed (integerText_printed n)
  | float x => exact printed (Double.repr_printed x)
  | text s => exact clean s rfl
  | moment m =>
    intro inside
    rcases isoformat_mem ' ' m _ inside with same | same | all
    · cases same
    · cases same
    · exact (printed_plain all).2 rfl

end Characters

section Tables

variable {ι γ : Type} {rows : List ι} {columns : List γ}

variable {table : List (List Str)}

theorem table_eq {f : ι → γ → Option Str}
    (done : (rows.mapM fun i => columns.mapM (f i)) = some table) :
    table = rows.map fun i => columns.map fun col => (f i col).getD [] :=
  mapM_some (fun i _ row => mapM_some (fun col _ cell => by rw [cell]; rfl) row) done

theorem table_each {f : ι → γ → Option Str}
    (done : (rows.mapM fun i => columns.mapM (f i)) = some table) :
    ∀ i ∈ rows, ∀ col ∈ columns, ∃ literal, f i col = some literal := by
  intro i here
  obtain ⟨row, made⟩ := mapM_each done i here
  exact mapM_each made

theorem table_read (some_ : columns ≠ []) {readField : γ → CopyText.Field → Option DbValue}
    {field : ι → γ → Option CopyText.Field} {value : ι → γ → DbValue}
    (made : (rows.mapM fun i => columns.mapM fun col => (field i col).map literal) =
      some table)
    (each : ∀ i ∈ rows, ∀ col ∈ columns, ∀ found, field i col = some found →
      readField col found = some (value i col) ∧ ∀ text, found = some text → '\x00' ∉ text) :
    readBody columns readField (copyBody table) = some (rows.map fun i => columns.map (value i)) := by
  have fields : ∀ i ∈ rows, ∀ col ∈ columns, ∃ found, field i col = some found := by
    intro i here col there
    obtain ⟨literal, same⟩ := table_each made i here col there
    obtain ⟨found, own, -⟩ := Option.map_eq_some_iff.mp same
    exact ⟨found, own⟩
  have written : table = rows.map fun i => columns.map fun col =>
      literal ((field i col).getD none) := by
    rw [table_eq made]
    refine List.map_congr_left fun i here => List.map_congr_left fun col there => ?_
    obtain ⟨found, own⟩ := fields i here col there
    rw [own]
    rfl
  rw [written]
  apply readBody_copyBody some_
  · intro i here col there
    obtain ⟨found, own⟩ := fields i here col there
    rw [own]
    exact (each i here col there found own).2
  · intro i here col there
    obtain ⟨found, own⟩ := fields i here col there
    rw [own]
    exact (each i here col there found own).1

end Tables

section Host

def hostReadField (col : HostColumn) : CopyText.Field → Option DbValue
  | none => some .null
  | some text =>
    match col with
    | .time => (readMoment text).map .moment
    | .value | .delta | .arc => (Double.parse text).map .real
    | .host | .jid | .type | .dev | .event | .unit => some (.text text)

def hostValue (col : HostColumn) (value : PyValue) : DbValue :=
  match col with
  | .time =>
    match toPydatetimeOrNone value with
    | some (.moment m) => .moment m
    | _ => .null
  | .jid => if value.notna ∧ value.str ≠ lit "-" then .text value.str else .null
  | .dev => .text (copyDevText value)
  | .value | .delta | .arc =>
    if value.notna then (value.toFloat.map DbValue.real).getD .null else .null
  | .host | .type | .event | .unit =>
    match value with
    | .none_ => .null
    | .bool b => .text (if b then lit "t" else lit "f")
    | .moment m => .text (isoformat 'T' m)
    | value => .text value.str

def HostPlain (col : HostColumn) (value : PyValue) : Prop :=
  (∀ s, value = .text s → '\x00' ∉ s) ∧
    (col ∈ [.host, .type, .event, .unit] → value ≠ .na ∧ value ≠ .float .nan)

def hostTable (cols : HostColumns) : List (List DbValue) :=
  (List.range cols.rows).map fun i => hostDataCopyColumns.map fun col =>
    hostValue col (cols.cell i col)

variable {col : HostColumn} {value cell : PyValue}

theorem toPydatetime_cases (done : toPydatetimeOrNone value = some cell) :
    cell = .none_ ∨ ∃ m, cell = .moment m := by
  have made : ∀ {found : Option Moment}, found.map PyValue.moment = some cell →
      ∃ m, cell = .moment m := by
    intro found same
    obtain ⟨m, -, rfl⟩ := Option.map_eq_some_iff.mp same
    exact ⟨m, rfl⟩
  unfold toPydatetimeOrNone at done
  split at done
  · exact .inl (Option.some.inj done).symm
  · exact .inl (Option.some.inj done).symm
  · exact .inr ⟨_, (Option.some.inj done).symm⟩
  · split at done
    · exact .inl (Option.some.inj done).symm
    · exact .inr (made done)
  · exact .inr (made done)

theorem isoformat_clean (sep : Char) (other : sep ≠ '\x00') (m : Moment) :
    '\x00' ∉ isoformat sep m := by
  intro inside
  rcases isoformat_mem sep m _ inside with same | same | all
  · exact other same.symm
  · cases same
  · exact (printed_plain all).2 rfl

theorem copyDevText_clean (clean : '\x00' ∉ value.str) : '\x00' ∉ copyDevText value := by
  unfold copyDevText
  split
  · dsimp only
    split
    · exact List.not_mem_nil
    · exact fun inside => clean (mem_strip inside)
  · exact List.not_mem_nil

theorem hostField_read (done : hostFrameCell col value = some cell) (plain : HostPlain col value) :
    hostReadField col (sqlText cell) = some (hostValue col value) ∧
      ∀ text, sqlText cell = some text → '\x00' ∉ text := by
  have clean := str_clean plain.1
  have number : (if value.notna then value.toFloat.map PyValue.float else some .none_) = some cell →
      (∀ text, sqlText cell = some text → '\x00' ∉ text) ∧
        ((sqlText cell = none ∧ value.notna = false) ∨
          ∃ x, sqlText cell = some x.repr ∧ value.notna = true ∧ value.toFloat = some x) := by
    intro made
    split at made
    · next present =>
        obtain ⟨x, number, rfl⟩ := Option.map_eq_some_iff.mp made
        refine ⟨fun text same inside => ?_, .inr ⟨x, rfl, present, number⟩⟩
        cases same
        exact (printed_plain (Double.repr_printed x _ inside)).2 rfl
    · next missing =>
        cases made
        exact ⟨fun text same => (by cases same),
          .inl ⟨rfl, Bool.eq_false_of_not_eq_true missing⟩⟩
  cases col with
  | time =>
    have moment := toPydatetime_cases done
    have same : toPydatetimeOrNone value = some cell := done
    rcases moment with rfl | ⟨m, rfl⟩
    · refine ⟨?_, nofun⟩
      rw [hostValue, same]
      rfl
    · refine ⟨?_, fun text same => ?_⟩
      · rw [hostValue, same, sqlText, hostReadField, readMoment_isoformat]
        rfl
      · cases same
        exact isoformat_clean 'T' (by decide) m
  | jid =>
    cases done
    rw [hostValue]
    split
    · exact ⟨rfl, fun text same => by cases same; exact clean⟩
    · exact ⟨rfl, nofun⟩
  | dev =>
    cases done
    exact ⟨rfl, fun text same => by cases same; exact copyDevText_clean clean⟩
  | value | delta | arc =>
    obtain ⟨safe, kind⟩ := number done
    refine ⟨?_, safe⟩
    rcases kind with ⟨null, missing⟩ | ⟨x, text, present, float⟩
    · rw [null, hostValue, missing]
      rfl
    · rw [text, hostValue, if_pos present, float, hostReadField, Double.parse_repr]
      rfl
  | host | type | event | unit =>
    have kept := plain.2 (by decide)
    cases done
    cases value with
    | none_ => exact ⟨rfl, nofun⟩
    | na => exact absurd rfl kept.1
    | bool b => exact ⟨rfl, fun text same => by cases same; cases b <;> decide⟩
    | moment m => exact ⟨rfl, fun text same => by cases same; exact isoformat_clean 'T' (by decide) m⟩
    | int n => exact ⟨rfl, fun text same => by cases same; exact clean⟩
    | float x => exact ⟨rfl, fun text same => by cases same; exact clean⟩
    | text s => exact ⟨rfl, fun text same => by cases same; exact clean⟩

theorem host_body_read {cols : HostColumns} {body : Bytes}
    (done : hostColumnsToCopyBytes cols false = some body)
    (plain : ∀ i < cols.rows, ∀ col, HostPlain col (cols.cell i col)) :
    readBody hostDataCopyColumns hostReadField body = some (hostTable cols) := by
  unfold hostColumnsToCopyBytes at done
  split at done
  · next none_ =>
      cases done
      rw [hostTable, none_]
      rfl
  · obtain ⟨table, made, rfl⟩ := Option.map_eq_some_iff.mp done
    have literals : ∀ i col, hostLiteral false col (cols.cell i col) =
        ((hostFrameCell col (cols.cell i col)).map sqlText).map literal :=
      fun i col => (Option.map_map _ _ _).symm
    simp only [literals] at made
    refine table_read (by decide) made fun i here col _ found own => ?_
    obtain ⟨cell, same, rfl⟩ := Option.map_eq_some_iff.mp own
    exact hostField_read same (plain i (List.mem_range.mp here) col)

end Host

section Proc

def readInteger (text : Str) : Option Int :=
  match digitPart (sign text).2 with
  | some (size, _, []) => some ((sign text).1 * size)
  | _ => none

def procReadField (col : ProcColumn) : CopyText.Field → Option DbValue
  | none => some .null
  | some text => if col.textual then some (.text text) else (readInteger text).map .integer

def procValue (col : ProcColumn) (value : PyValue) : DbValue :=
  match value with
  | .none_ => .null
  | .float x =>
    if x.isNan then .null
    else
      match floatInt x with
      | some n => if col.textual then .text (integerText n) else .integer n
      | none => .null
  | .int n => if col.textual then .text (integerText n) else .integer n
  | .bool b => .text (if b then lit "t" else lit "f")
  | value => .text value.str

def ProcPlain (col : ProcColumn) (value : PyValue) : Prop :=
  (∀ s, value = .text s → '\x00' ∉ s) ∧ value ≠ .na ∧
    (col.textual = false → value = .none_ ∨ (∃ n, value = .int n) ∨ ∃ x, value = .float x)

def procTable (cols : ProcCopyColumns) (n : Nat) : List (List DbValue) :=
  (List.range n).map fun i => procDataCopyColumns.map fun col => procValue col (cols.cell i col)

variable {col : ProcColumn} {value : PyValue}

theorem readInteger_integerText (n : Int) : readInteger (integerText n) = some n := by
  unfold readInteger integerText
  by_cases negative : n < 0
  · have size : (-1 : ℤ) * n.natAbs = n := by omega
    have cut : sign ('-' :: decimalText n.natAbs) = (-1, decimalText n.natAbs) := rfl
    rw [if_pos negative, cut]
    rw [digitPart_decimalText]
    exact congrArg some size
  · have size : (1 : ℤ) * n.natAbs = n := by omega
    obtain ⟨c, rest, shape⟩ := List.exists_cons_of_ne_nil (decimalText_word n.natAbs).1
    have digit : isDigit c = true :=
      decimalText_digits n.natAbs c (by rw [shape]; exact List.mem_cons_self)
    have cut : sign (decimalText n.natAbs) = (1, decimalText n.natAbs) := by
      rw [shape, sign_of_digit digit]
    rw [if_neg negative, cut]
    rw [digitPart_decimalText]
    exact congrArg some size

def procField (col : ProcColumn) (value : PyValue) : Option CopyText.Field :=
  (if col.passthrough then some value else procCopyScalar value).bind procSqlText

theorem procField_eq (col : ProcColumn) (value : PyValue) :
    procField col value = procSqlText value := by
  cases pass : col.passthrough with
  | true => rw [procField, pass, if_pos rfl, Option.bind_some]
  | false =>
    rw [procField, pass, if_neg Bool.false_ne_true]
    cases value with
    | float x =>
      cases missing : x.isNan with
      | true => simp [procCopyScalar, procSqlText, missing]
      | false =>
        cases cut : floatInt x with
        | none => simp [procCopyScalar, procSqlText, missing, cut]
        | some n => simp [procCopyScalar, procSqlText, missing, cut, PyValue.str]
    | none_ | na | bool _ | int _ | text _ | moment _ => rfl

theorem procField_read {field : CopyText.Field} (done : procSqlText value = some field)
    (plain : ProcPlain col value) : procReadField col field = some (procValue col value) ∧
      ∀ text, field = some text → '\x00' ∉ text := by
  have integer : ∀ n, procReadField col (some (integerText n)) =
      some (if col.textual then .text (integerText n) else .integer n) := by
    intro n
    rw [procReadField, readInteger_integerText]
    split <;> rfl
  have clean : ∀ n, '\x00' ∉ integerText n := fun n inside =>
    (printed_plain (integerText_printed n _ inside)).2 rfl
  have textual : value ≠ .none_ → (∀ n, value ≠ .int n) → (∀ x, value ≠ .float x) →
      col.textual = true := by
    intro some_ integers floats
    refine Bool.eq_true_of_not_eq_false fun metric => ?_
    rcases plain.2.2 metric with same | ⟨n, same⟩ | ⟨x, same⟩
    · exact some_ same
    · exact integers n same
    · exact floats x same
  have taken : col.textual = true → ∀ text, procReadField col (some text) = some (.text text) :=
    fun own text => if_pos own
  cases value with
  | none_ =>
    cases done
    exact ⟨rfl, nofun⟩
  | na => exact absurd rfl plain.2.1
  | int n =>
    cases done
    exact ⟨integer n, fun text same => by cases same; exact clean n⟩
  | float x =>
    rw [procSqlText] at done
    rw [procValue]
    split at done
    · next missing =>
        cases done
        rw [if_pos missing]
        exact ⟨rfl, nofun⟩
    · next present =>
        obtain ⟨n, cut, rfl⟩ := Option.map_eq_some_iff.mp done
        rw [if_neg present, cut]
        exact ⟨integer n, fun text same => by cases same; exact clean n⟩
  | bool b =>
    have own := textual nofun nofun
      nofun
    cases done
    exact ⟨taken own _, fun text same => by cases same; cases b <;> decide⟩
  | text s =>
    have own := textual nofun nofun
      nofun
    cases done
    exact ⟨taken own _, fun text same => by cases same; exact plain.1 s rfl⟩
  | moment m =>
    have own := textual nofun nofun
      nofun
    cases done
    exact ⟨taken own _, fun text same => by cases same; exact isoformat_clean ' ' (by decide) m⟩

theorem proc_body_read {cols : ProcCopyColumns} {n : Nat} {body : Bytes}
    (done : procRows cols false n = some body)
    (plain : ∀ i < n, ∀ col, ProcPlain col (cols.cell i col)) :
    readBody procDataCopyColumns procReadField body = some (procTable cols n) := by
  unfold procRows at done
  split at done
  · next none_ =>
      cases done
      rw [procTable, none_]
      rfl
  · obtain ⟨table, made, rfl⟩ := Option.map_eq_some_iff.mp done
    have literals : ∀ i col, procLiteral false col (cols.cell i col) =
        (procSqlText (cols.cell i col)).map literal := fun i col =>
      congrArg (Option.map literal) (procField_eq col (cols.cell i col))
    simp only [literals] at made
    exact table_read (by decide) made fun i here col _ found own =>
      procField_read own (plain i (List.mem_range.mp here) col)

end Proc

end PerfStats.Ingest
