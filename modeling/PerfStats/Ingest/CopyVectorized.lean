import PerfStats.Ingest.CopyFaithful

namespace PerfStats.Ingest

open Lib Lib.Binary64

section Columns

variable {γ : Type}

theorem zipRows_eq {columns : List γ} {n : Nat} {column : γ → Option (List Str)}
    {literal : Nat → γ → Option Str} {cols table : List (List Str)}
    (vector : columns.mapM column = some cols)
    (made : ((List.range n).mapM fun i => columns.mapM (literal i)) = some table)
    (same : ∀ col ∈ columns, ∀ texts, column col = some texts → ∀ i < n, ∀ text,
      literal i col = some text → texts[i]? = some text) : zipRows n cols = table := by
  have whole : cols = columns.map fun col => (column col).getD [] :=
    mapM_some (fun col _ done => by rw [done]; rfl) vector
  rw [zipRows, table_eq made, whole]
  refine List.map_congr_left fun i here => ?_
  rw [List.map_map]
  refine List.map_congr_left fun col there => ?_
  obtain ⟨texts, done⟩ := mapM_each vector col there
  obtain ⟨text, cell⟩ := table_each made i here col there
  have found := same col there texts done i (List.mem_range.mp here) text cell
  simp only [Function.comp_apply, done, cell, Option.getD_some, List.getD_eq_getElem?_getD, found]

theorem takeLiterals_eq (literal : PyValue → Str) (values : List PyValue) :
    takeLiterals literal values =
      values.map fun value => literal (if value.notna then value else .float .nan) := by
  have taken : ∀ {seen : List PyValue} {value : PyValue}, value ∈ seen →
      (seen.eraseDups.map literal).getD (seen.eraseDups.idxOf value) [] = literal value := by
    intro seen value member
    have found := List.getElem?_idxOf (List.mem_eraseDups.mpr member)
    rw [List.getD_eq_getElem?_getD, List.getElem?_map, found]
    rfl
  unfold takeLiterals factorize
  dsimp only
  rw [List.map_map, List.map_map]
  refine List.map_congr_left fun value here => ?_
  have seen := List.mem_map_of_mem (f := fun value => if value.notna then value else .float .nan) here
  exact taken seen

theorem takeLiterals_get {literal : PyValue → Str} {values : List PyValue} {i : Nat}
    {value : PyValue} (there : values[i]? = some value) : (takeLiterals literal values)[i]? =
      some (literal (if value.notna then value else .float .nan)) := by
  rw [takeLiterals_eq, List.getElem?_map, there]
  rfl

theorem Frame.cell_of {frame : Frame γ} {col : γ} {series : Series}
    (own : frame.columns col = some series) {i : Nat} (inside : i < frame.length) :
    ∃ value, series.tolist[i]? = some value ∧
      ((frame.lists col).bind fun values => values[i]?).getD .none_ = value := by
  have bound : i < series.tolist.length := by
    rw [frame.full own]
    exact inside
  have there := List.getElem?_eq_getElem bound
  refine ⟨_, there, ?_⟩
  rw [Frame.lists, own, Option.map_some, Option.getD_some, Option.bind_some, there, Option.getD_some]

theorem missing_cases {value : PyValue} (missing : value.notna = false) :
    value = .none_ ∨ value = .na ∨ value = .float .nan := by
  cases value with
  | none_ => exact .inl rfl
  | na => exact .inr (.inl rfl)
  | float x =>
    cases x with
    | nan => exact .inr (.inr rfl)
    | finite _ _ | inf _ => cases missing
  | bool _ | int _ | text _ | moment _ => cases missing

theorem literal_plain {text : Str} (plain : ∀ c ∈ text, c = 'T' ∨ c = ':' ∨ Double.Printed c) :
    CopyText.literal (some text) = text := by
  apply CopyText.escape_of_plain
  intro c member
  rcases plain c member with rfl | rfl | printed
  · decide
  · decide
  · exact (printed_plain printed).1

theorem literal_printed {text : Str} (printed : ∀ c ∈ text, Double.Printed c) :
    CopyText.literal (some text) = text :=
  literal_plain fun c member => .inr (.inr (printed c member))

end Columns

section Micros

def SameMicros (x : Double) : Prop :=
  ∀ secs, x.value = some secs → roundHalfEven (nearest (secs * 1000000)) = splitMicros secs

theorem truncate_near (q : ℚ) : |q - truncate q| < 1 := by
  have low := Int.floor_le q
  have high := Int.lt_floor_add_one q
  have low' := Int.floor_le (-q)
  have high' := Int.lt_floor_add_one (-q)
  unfold truncate
  split
  · push_cast
    rw [abs_lt]
    constructor <;> linarith
  · rw [abs_lt]
    constructor <;> linarith

theorem sameMicros_of_near {x : Double} {secs : ℚ} {k : ℤ} (value : x.value = some secs)
    (early : |secs * 1000000| < 2 ^ 52) (near : |secs * 1000000 - k| < 1 / 4) : SameMicros x := by
  have error : ∀ {q : ℚ} {n : ℤ}, |q| < 2 ^ n → -1021 ≤ n → n ≤ 52 → |nearest q - q| ≤ 1 / 4 := by
    intro q n below least most
    have bound := nearest_below below least
    have half : (2 : ℚ) ^ (-1 : ℤ) = 1 / 2 := by norm_num
    have small : (2 : ℚ) ^ (n - 53) ≤ 1 / 2 :=
      (zpow_le_zpow_right₀ (by norm_num) (by omega)).trans_eq half
    linarith
  have rounded : ∀ {q : ℚ} {j : ℤ}, |nearest q - q| ≤ 1 / 4 → |q - j| < 1 / 4 →
      roundHalfEven (nearest q) = j := by
    intro q j first second
    apply roundHalfEven_of_near
    calc |nearest q - j| = |(nearest q - q) + (q - j)| := by rw [sub_add_sub_cancel]
      _ ≤ |nearest q - q| + |q - j| := abs_add_le _ _
      _ < 1 / 2 := by linarith
  intro other same
  rw [value] at same
  cases same
  have product : roundHalfEven (nearest (secs * 1000000)) = k :=
    rounded (error (n := 52) early (by omega) (by omega)) near
  have part : |(secs - truncate secs) * 1000000| < 2 ^ (20 : ℤ) := by
    have close := truncate_near secs
    norm_num
    linarith
  have near' : |(secs - truncate secs) * 1000000 - (k - truncate secs * 1000000 : ℤ)| < 1 / 4 := by
    have equal : (secs - truncate secs) * 1000000 - (k - truncate secs * 1000000 : ℤ) =
        secs * 1000000 - k := by
      push_cast
      ring
    rw [equal]
    exact near
  have fraction := rounded (error part (by omega) (by omega)) near'
  rw [product, splitMicros, fraction]
  omega

theorem micros_of_moment? {micros : ℤ} {m : Moment} (made : moment? micros = some m) :
    micros = m.micros := by
  unfold moment? at made
  split at made
  · cases made
    rfl
  · cases made

theorem productMicros_eq {x : Double} {m : Moment} (same : SameMicros x)
    (made : fromtimestamp x = some m) : productMicros x = some m.micros := by
  obtain ⟨secs, value, inside⟩ := Option.bind_eq_some_iff.mp made
  have micros := (same secs value).trans (micros_of_moment? inside)
  have first := m.first
  have last := m.last
  have fits : decide (-2 ^ 63 < m.micros ∧ m.micros < 2 ^ 63) = true := decide_eq_true (by omega)
  rw [productMicros, value, Option.map_some, micros, Option.filter_some, if_pos fits]

theorem stampText_eq (m : Moment) : stampText (some m.micros) = isoformat 'T' m :=
  List.append_assoc _ _ _

end Micros

section Host

/-- The column encoder keeps with the cell encoder: times round alike, and no missing text but NaN
stands where texts are taken as they are. -/
structure HostAgrees (col : HostColumn) (values : List PyValue) : Prop where
  times : col = .time → ∀ value ∈ values, ∀ x, value.toFloat = some x → SameMicros x
  texts : col ∈ [.host, .type, .event, .unit] → .none_ ∉ values ∧ .na ∉ values

variable {col : HostColumn} {series : Series} {texts : List Str} {i : Nat} {value : PyValue}
  {literal : Str}

theorem time_literal {m : Moment} (own : hostLiteral false .time value = some literal)
    (made : toPydatetimeOrNone value = some (.moment m)) : literal = isoformat 'T' m := by
  have same : hostLiteral false .time value = (toPydatetimeOrNone value).map sqlLiteral := rfl
  rw [same, made] at own
  cases own
  exact literal_plain (isoformat_mem 'T' m)

theorem vectorTimes_get (made : vectorTimes series = some texts)
    (there : series.tolist[i]? = some value) (own : hostLiteral false .time value = some literal)
    (agrees : HostAgrees .time series.tolist) : texts[i]? = some literal := by
  have alike := agrees.times rfl value (List.mem_of_getElem? there)
  have found : ∃ cell, toPydatetimeOrNone value = some cell := by
    obtain ⟨cell, done, -⟩ := Option.map_eq_some_iff.mp own
    exact ⟨cell, done⟩
  obtain ⟨cell, done⟩ := found
  cases series with
  | objects _ => cases made
  | moments ms =>
    obtain ⟨time, here, rfl⟩ : ∃ time, ms[i]? = some time ∧
        (time.map PyValue.moment).getD .na = value := by
      simpa [Series.tolist] using there
    have all := congrArg (fun l : List (Option Str) => l[i]?) (mapM_eq_some_iff.mp made)
    simp only [List.getElem?_map, here, Option.map_some] at all
    cases time with
    | none =>
      obtain ⟨text, -, same⟩ := Option.map_eq_some_iff.mp all.symm
      cases same
    | some m =>
      obtain ⟨text, here', same⟩ := Option.map_eq_some_iff.mp all.symm
      cases same
      rw [here', time_literal own rfl]
      exact congrArg some (stampText_eq m)
  | floats xs =>
    obtain ⟨x, here, rfl⟩ : ∃ x, xs[i]? = some x ∧ PyValue.float x = value := by
      simpa [Series.tolist] using there
    rw [vectorTimes] at made
    split at made
    · cases made
    · next plain =>
        cases made
        have number : ¬ x.isNan = true := fun nan =>
          plain (List.any_eq_true.mpr ⟨x, List.mem_of_getElem? here, nan⟩)
        rw [toPydatetimeOrNone, if_neg number] at done
        obtain ⟨m, time, rfl⟩ := Option.map_eq_some_iff.mp done
        have moment : toPydatetimeOrNone (.float x) = some (.moment m) := by
          rw [toPydatetimeOrNone, if_neg number, time]
          rfl
        rw [List.getElem?_map, here, Option.map_some, productMicros_eq (alike x rfl) time,
          stampText_eq, time_literal own moment]
  | ints ns =>
    obtain ⟨n, here, rfl⟩ : ∃ n, ns[i]? = some n ∧ PyValue.int n = value := by
      simpa [Series.tolist] using there
    cases made
    have moment : toPydatetimeOrNone (.int n) =
        ((Double.ofInt n).bind fromtimestamp).map .moment := rfl
    rw [moment] at done
    obtain ⟨m, time, rfl⟩ := Option.map_eq_some_iff.mp done
    obtain ⟨x, float, inside⟩ := Option.bind_eq_some_iff.mp time
    have coerced : Series.coerced (.int n) = x := by
      rw [Series.coerced, float]
      rfl
    rw [List.getElem?_map, here, Option.map_some, coerced, productMicros_eq (alike x float) inside,
      stampText_eq, time_literal own (moment.trans (by rw [time]; rfl))]

theorem numbers_get {xs : List Double} (made : series.numbers = some xs)
    (there : series.tolist[i]? = some value) : xs[i]? = some (Series.coerced value) ∧
      (value.notna = false ∨ (∃ n, value = .int n) ∨ ∃ x, value = .float x) := by
  cases series with
  | moments _ => cases made
  | floats ys =>
    cases made
    obtain ⟨x, here, rfl⟩ : ∃ x, xs[i]? = some x ∧ PyValue.float x = value := by
      simpa [Series.tolist] using there
    exact ⟨here, .inr (.inr ⟨x, rfl⟩)⟩
  | ints ns =>
    cases made
    obtain ⟨n, here, rfl⟩ : ∃ n, ns[i]? = some n ∧ PyValue.int n = value := by
      simpa [Series.tolist] using there
    exact ⟨by rw [List.getElem?_map, here]; rfl, .inr (.inl ⟨n, rfl⟩)⟩
  | objects values =>
    have here : values[i]? = some value := there
    rw [Series.numbers] at made
    split at made
    · next kinds =>
        cases made
        have own := List.all_eq_true.mp kinds value (List.mem_of_getElem? here)
        refine ⟨by rw [List.getElem?_map, here]; rfl, ?_⟩
        cases value with
        | int n => exact .inr (.inl ⟨n, rfl⟩)
        | float x => exact .inr (.inr ⟨x, rfl⟩)
        | none_ | na => exact .inl rfl
        | bool _ | text _ | moment _ => cases own
    · cases made

theorem numberLiteral_eq {x : Double} (number : x.isNan = false) :
    numberLiteral x = sqlLiteral (.float x) := by
  rw [numberLiteral, number, if_neg Bool.false_ne_true]
  exact (literal_printed (Double.repr_printed x)).symm

theorem ofInt_number {n : Int} {x : Double} (made : Double.ofInt n = some x) : x.isNan = false := by
  obtain ⟨size, -, rfl⟩ := Option.map_eq_some_iff.mp made
  rfl

theorem measure_get (made : (series.numbers.map fun xs => xs.map numberLiteral) = some texts)
    (there : series.tolist[i]? = some value)
    (own : (if value.notna then value.toFloat.map PyValue.float else some .none_).map sqlLiteral =
      some literal) : texts[i]? = some literal := by
  obtain ⟨xs, numbers, rfl⟩ := Option.map_eq_some_iff.mp made
  obtain ⟨here, kind⟩ := numbers_get numbers there
  rw [List.getElem?_map, here, Option.map_some]
  cases present : value.notna with
  | false =>
    rw [present, if_neg Bool.false_ne_true] at own
    cases own
    rcases missing_cases present with rfl | rfl | rfl <;> rfl
  | true =>
    rw [present, if_pos rfl] at own
    rcases kind with missing | ⟨n, rfl⟩ | ⟨x, rfl⟩
    · rw [present] at missing
      cases missing
    · obtain ⟨cell, made', rfl⟩ := Option.map_eq_some_iff.mp own
      obtain ⟨x, float, rfl⟩ := Option.map_eq_some_iff.mp made'
      have float' : Double.ofInt n = some x := float
      have coerced : Series.coerced (.int n) = x := by
        rw [Series.coerced, float']
        rfl
      rw [coerced, numberLiteral_eq (ofInt_number float')]
    · have number : x.isNan = false := by simpa [PyValue.notna] using present
      cases own
      exact congrArg some (numberLiteral_eq number)

theorem text_get {f : PyValue → Str} (there : series.tolist[i]? = some value)
    (own : f (if value.notna then value else .float .nan) = literal) :
    (takeLiterals f series.tolist)[i]? = some literal := by
  rw [takeLiterals_get there, own]

theorem hostVectorColumn_get (made : hostVectorColumn col series = some texts)
    (there : series.tolist[i]? = some value) (own : hostLiteral false col value = some literal)
    (agrees : HostAgrees col series.tolist) : texts[i]? = some literal := by
  have literal_of : (hostFrameCell col value).map sqlLiteral = some literal := own
  have same_text : ∀ other, hostFrameCell col other = hostFrameCell col value →
      hostTextLiteral col other = literal := by
    intro other same
    rw [hostTextLiteral, same, literal_of]
    rfl
  have textual : ∀ {f : PyValue → Str},
      (if series.isTextual then some (takeLiterals f series.tolist) else none) = some texts →
      texts = takeLiterals f series.tolist := by
    intro f same
    split at same
    · exact (Option.some.inj same).symm
    · cases same
  cases col with
  | time => exact vectorTimes_get made there own agrees
  | value | delta | arc => exact measure_get made there own
  | jid | dev =>
    obtain rfl := textual made
    apply text_get there
    cases present : value.notna with
    | true => exact same_text value rfl
    | false =>
      apply same_text
      rcases missing_cases present with rfl | rfl | rfl <;> rfl
  | host | type | event | unit =>
    obtain rfl := textual made
    have plain := agrees.texts (by decide)
    have member := List.mem_of_getElem? there
    apply text_get there
    cases present : value.notna with
    | true => exact same_text value rfl
    | false =>
      apply same_text
      rcases missing_cases present with rfl | rfl | rfl
      · exact absurd member plain.1
      · exact absurd member plain.2
      · rfl

theorem host_vectorized_eq {frame : Frame HostColumn} {slow fast : Bytes}
    (vector : hostFrameToCopyBytesVectorized frame = some fast)
    (cells : hostFramePerCell frame = some slow)
    (agrees : ∀ col series, frame.columns col = some series → HostAgrees col series.tolist) :
    fast = slow := by
  unfold hostFrameToCopyBytesVectorized at vector
  unfold hostFramePerCell at cells
  split at vector
  · next empty =>
      rw [if_pos empty] at cells
      exact Option.some.inj (vector.symm.trans cells)
  · next some_ =>
      obtain ⟨cols, columns, rfl⟩ := Option.map_eq_some_iff.mp vector
      have series_of : ∀ col ∈ hostDataCopyColumns, ∃ series, frame.columns col = some series := by
        intro col there
        obtain ⟨texts, done⟩ := mapM_each columns col there
        obtain ⟨series, own, -⟩ := Option.bind_eq_some_iff.mp done
        exact ⟨series, own⟩
      have rows : HostColumns.rows frame.lists = frame.length := by
        obtain ⟨series, own⟩ := series_of .time (by decide)
        have length : ((Frame.lists frame HostColumn.time).map List.length).getD 0 = frame.length := by
          rw [Frame.lists, own]
          exact frame.full own
        rw [HostColumns.rows, length, if_neg some_]
      rw [if_neg some_, hostColumnsToCopyBytes, rows, if_neg some_] at cells
      obtain ⟨table, made, rfl⟩ := Option.map_eq_some_iff.mp cells
      apply congrArg copyBody
      refine zipRows_eq columns made fun col _ texts done i inside text cell => ?_
      obtain ⟨series, own, vector_col⟩ := Option.bind_eq_some_iff.mp done
      obtain ⟨value, there, same⟩ := Frame.cell_of own inside
      rw [HostColumns.cell, same] at cell
      exact hostVectorColumn_get vector_col there cell (agrees col series own)

end Host

section Proc

variable {col : ProcColumn} {series : Series} {texts : List Str} {i : Nat} {value : PyValue}
  {literal : Str}

theorem procLiteral_eq (col : ProcColumn) (value : PyValue) :
    procLiteral false col value = (procSqlText value).map CopyText.literal :=
  congrArg (Option.map CopyText.literal) (procField_eq col value)

theorem procTextLiteral_eq (value : PyValue) :
    procTextLiteral value = ((procSqlText value).map CopyText.literal).getD [] := by
  have device : (procCopyScalar value).bind procSqlText = procSqlText value :=
    procField_eq .device value
  rw [procTextLiteral, device]

theorem vectorMetrics_get (made : vectorMetrics series = some texts)
    (there : series.tolist[i]? = some value)
    (own : (procSqlText value).map CopyText.literal = some literal) :
    texts[i]? = some literal := by
  cases series with
  | moments _ | objects _ => cases made
  | ints ns =>
    obtain ⟨n, here, rfl⟩ : ∃ n, ns[i]? = some n ∧ PyValue.int n = value := by
      simpa [Series.tolist] using there
    cases made
    cases own
    rw [List.getElem?_map, here, PyValue.str, literal_printed (integerText_printed n)]
    rfl
  | floats xs =>
    obtain ⟨x, here, rfl⟩ : ∃ x, xs[i]? = some x ∧ PyValue.float x = value := by
      simpa [Series.tolist] using there
    rw [vectorMetrics] at made
    split at made
    · cases made
    · cases made
      rw [List.getElem?_map, here, Option.map_some]
      rw [procSqlText] at own
      split at own
      · next missing =>
          cases x with
          | nan =>
            cases own
            rfl
          | finite _ _ | inf _ => cases missing
      · obtain ⟨field, made', rfl⟩ := Option.map_eq_some_iff.mp own
        obtain ⟨n, cut, rfl⟩ := Option.map_eq_some_iff.mp made'
        rw [cut, literal_printed (integerText_printed n)]
        rfl

theorem procVectorColumn_get (made : procVectorColumn col series = some texts)
    (there : series.tolist[i]? = some value) (own : procLiteral false col value = some literal)
    (agrees : col.textual = true → .na ∉ series.tolist) : texts[i]? = some literal := by
  rw [procLiteral_eq] at own
  unfold procVectorColumn at made
  split at made
  · next textual =>
      split at made
      · cases made
        have same_text : ∀ other, procSqlText other = procSqlText value →
            procTextLiteral other = literal := by
          intro other same
          rw [procTextLiteral_eq, same, own]
          rfl
        apply text_get there
        cases present : value.notna with
        | true => exact same_text value rfl
        | false =>
          apply same_text
          rcases missing_cases present with rfl | rfl | rfl
          · rfl
          · exact absurd (List.mem_of_getElem? there) (agrees textual)
          · rfl
      · cases made
  · exact vectorMetrics_get made there own

theorem proc_vectorized_eq {frame : Frame ProcColumn} {slow fast : Bytes}
    (vector : procFrameToCopyBytesVectorized frame = some fast)
    (cells : procFramePerCell frame = some slow)
    (agrees : ∀ col series, frame.columns col = some series → col.textual = true →
      .na ∉ series.tolist) : fast = slow := by
  unfold procFrameToCopyBytesVectorized at vector
  unfold procFramePerCell procRows at cells
  split at vector
  · next empty =>
      rw [if_pos empty] at cells
      exact Option.some.inj (vector.symm.trans cells)
  · next some_ =>
      obtain ⟨cols, columns, rfl⟩ := Option.map_eq_some_iff.mp vector
      rw [if_neg some_] at cells
      obtain ⟨table, made, rfl⟩ := Option.map_eq_some_iff.mp cells
      apply congrArg copyBody
      refine zipRows_eq columns made fun col _ texts done i inside text cell => ?_
      obtain ⟨series, own, vector_col⟩ := Option.bind_eq_some_iff.mp done
      obtain ⟨value, there, same⟩ := Frame.cell_of own inside
      rw [ProcCopyColumns.cell, same] at cell
      exact procVectorColumn_get vector_col there cell (agrees col series own)

end Proc

section Faithful

/-- Both tables are read back as the values of their cells, rows of different values differ, and a
body of the column encoders is that of the cell encoders. -/
theorem copy_text_faithful :
    (∀ (cols : HostColumns) (body : Bytes), hostColumnsToCopyBytes cols false = some body →
      (∀ i < cols.rows, ∀ col, HostPlain col (cols.cell i col)) →
      readBody hostDataCopyColumns hostReadField body = some (hostTable cols)) ∧
    (∀ (cols : ProcCopyColumns) (n : Nat) (body : Bytes), procRows cols false n = some body →
      (∀ i < n, ∀ col, ProcPlain col (cols.cell i col)) →
      readBody procDataCopyColumns procReadField body = some (procTable cols n)) ∧
    (∀ (cols others : HostColumns) (body body' : Bytes),
      hostColumnsToCopyBytes cols false = some body →
      hostColumnsToCopyBytes others false = some body' →
      (∀ i < cols.rows, ∀ col, HostPlain col (cols.cell i col)) →
      (∀ i < others.rows, ∀ col, HostPlain col (others.cell i col)) →
      hostTable cols ≠ hostTable others → body ≠ body') ∧
    (∀ (cols others : ProcCopyColumns) (n n' : Nat) (body body' : Bytes),
      procRows cols false n = some body → procRows others false n' = some body' →
      (∀ i < n, ∀ col, ProcPlain col (cols.cell i col)) →
      (∀ i < n', ∀ col, ProcPlain col (others.cell i col)) →
      procTable cols n ≠ procTable others n' → body ≠ body') ∧
    (∀ (frame : Frame HostColumn) (fast slow : Bytes),
      hostFrameToCopyBytesVectorized frame = some fast → hostFramePerCell frame = some slow →
      (∀ col series, frame.columns col = some series → HostAgrees col series.tolist) →
      fast = slow) ∧
    (∀ (frame : Frame ProcColumn) (fast slow : Bytes),
      procFrameToCopyBytesVectorized frame = some fast → procFramePerCell frame = some slow →
      (∀ col series, frame.columns col = some series → col.textual = true →
        .na ∉ series.tolist) → fast = slow) ∧
    (∀ (x : Double) (secs : ℚ) (k : ℤ), x.value = some secs → |secs * 1000000| < 2 ^ 52 →
      |secs * 1000000 - k| < 1 / 4 → SameMicros x) := by
  refine ⟨fun cols body done plain => host_body_read done plain,
    fun cols n body done plain => proc_body_read done plain, ?_, ?_,
    fun frame fast slow vector cells agrees => host_vectorized_eq vector cells agrees,
    fun frame fast slow vector cells agrees => proc_vectorized_eq vector cells agrees,
    fun x secs k value early near => sameMicros_of_near value early near⟩
  · intro cols others body body' done done' plain plain' differ same
    have back := congrArg (readBody hostDataCopyColumns hostReadField) same
    rw [host_body_read done plain, host_body_read done' plain'] at back
    exact differ (Option.some.inj back)
  · intro cols others n n' body body' done done' plain plain' differ same
    have back := congrArg (readBody procDataCopyColumns procReadField) same
    rw [proc_body_read done plain, proc_body_read done' plain'] at back
    exact differ (Option.some.inj back)

private def sampleCell (event : PyValue) : HostColumn → PyValue
  | .time => .int 1700000000
  | .host => .text (lit "c001")
  | .jid => .text (lit "-")
  | .type => .text (lit "cpu")
  | .dev => .text (lit "0")
  | .event => event
  | .unit => .text (lit "\\N")
  | .value => .float (.rounded false (1 / 10))
  | .delta => .float .nan
  | .arc => .none_

private def oneRow (cell : HostColumn → PyValue) : HostColumns := fun col => some [cell col]

private def sampleSeries (time : Double) (event : PyValue) : HostColumn → Option Series
  | .time => some (.floats [time])
  | .event => some (.objects [event])
  | .value | .delta | .arc => some (.floats [.nan])
  | col => some (.objects [sampleCell event col])

private theorem sampleSeries_full (time : Double) (event : PyValue) {col : HostColumn}
    {series : Series} (own : sampleSeries time event col = some series) :
    series.tolist.length = 1 := by
  cases col <;> cases own <;> rfl

private def sampleFrame (time : Double) (event : PyValue) : Frame HostColumn :=
  ⟨1, sampleSeries time event, sampleSeries_full time event⟩

private def procCell (uid : PyValue) : ProcColumn → PyValue
  | .jid => .text (lit "1")
  | .host => .text (lit "c001")
  | .proc => .text (lit "a.out")
  | .uid => uid
  | _ => .none_

private def procRow (cell : ProcColumn → PyValue) : ProcCopyColumns := fun col => some [cell col]

private def procSeries (col : ProcColumn) : Option Series :=
  if col.textual then some (.objects [procCell .none_ col]) else some (.floats [.nan])

private theorem procSeries_full {col : ProcColumn} {series : Series}
    (own : procSeries col = some series) : series.tolist.length = 1 := by
  unfold procSeries at own
  split at own <;> cases own <;> rfl

private def procFrame : Frame ProcColumn := ⟨1, procSeries, procSeries_full⟩

private theorem some_getD {body : Option Bytes} (made : body.isSome = true) :
    body = some (body.getD []) := by
  cases body with
  | none => cases made
  | some body => rfl

private theorem sample_plain {s : Str} (clean : '\x00' ∉ s) :
    ∀ i < (oneRow (sampleCell (.text s))).rows, ∀ col,
      HostPlain col ((oneRow (sampleCell (.text s))).cell i col) := by
  intro i inside col
  have first : i = 0 := Nat.lt_one_iff.mp inside
  subst first
  have texts : ∀ {t : Str}, '\x00' ∉ t → HostPlain col (.text t) := fun clean =>
    ⟨fun s same => (by cases same; exact clean), fun _ => ⟨fun same => (by cases same),
      fun same => (by cases same)⟩⟩
  have others : ∀ {value : PyValue}, (∀ s, value ≠ .text s) →
      col ∉ [.host, .type, .event, .unit] → HostPlain col value := fun other free =>
    ⟨fun s same => absurd same (other s), fun inside => absurd inside free⟩
  cases col with
  | time | value | delta | arc => exact others nofun (by decide)
  | event => exact texts clean
  | host | jid | type | dev | unit => exact texts (by decide)

private theorem proc_plain (n : Int) : ∀ i < 1, ∀ col,
    ProcPlain col ((procRow (procCell (.int n))).cell i col) := by
  intro i inside col
  have first : i = 0 := Nat.lt_one_iff.mp inside
  subst first
  have missing : ProcPlain col .none_ :=
    ⟨fun s same => (by cases same), fun same => (by cases same), fun _ => .inl rfl⟩
  have texts : ∀ {t : Str}, '\x00' ∉ t → col.textual = true → ProcPlain col (.text t) :=
    fun clean textual => ⟨fun s same => (by cases same; exact clean), fun same => (by cases same),
      fun metric => absurd (textual.symm.trans metric) (by decide)⟩
  cases col with
  | jid | host | proc => exact texts (by decide) rfl
  | uid => exact ⟨fun s same => (by cases same), fun same => (by cases same),
      fun _ => .inr (.inl ⟨n, rfl⟩)⟩
  | _ => exact missing

theorem copy_text_faithful_sample :
    readBody hostDataCopyColumns hostReadField
        ((hostColumnsToCopyBytes (oneRow (sampleCell (.text (lit "a\tb")))) false).getD []) =
      some (hostTable (oneRow (sampleCell (.text (lit "a\tb"))))) ∧
    readBody procDataCopyColumns procReadField
        ((procRows (procRow (procCell (.int 7))) false 1).getD []) =
      some (procTable (procRow (procCell (.int 7))) 1) ∧
    (hostColumnsToCopyBytes (oneRow (sampleCell (.text (lit "a\tb")))) false).getD [] ≠
      (hostColumnsToCopyBytes (oneRow (sampleCell (.text (lit "a\\tb")))) false).getD [] ∧
    (procRows (procRow (procCell (.int 7))) false 1).getD [] ≠
      (procRows (procRow (procCell (.int 8))) false 1).getD [] ∧
    (hostFrameToCopyBytesVectorized
        (sampleFrame (.rounded false (1700000000 + 1 / 4)) (.text (lit "user")))).getD [] =
      (hostFramePerCell
        (sampleFrame (.rounded false (1700000000 + 1 / 4)) (.text (lit "user")))).getD [] ∧
    (procFrameToCopyBytesVectorized procFrame).getD [] = (procFramePerCell procFrame).getD [] := by
  have one : '\x00' ∉ lit "a\tb" := by decide
  have two : '\x00' ∉ lit "a\\tb" := by decide
  obtain ⟨host, proc, hosts, procs, hostFrames, procFrames, near⟩ := copy_text_faithful
  refine ⟨host _ _ (some_getD (by decide +kernel)) (sample_plain one),
    proc _ _ _ (some_getD (by decide +kernel)) (proc_plain 7),
    hosts _ _ _ _ (some_getD (by decide +kernel)) (some_getD (by decide +kernel))
      (sample_plain one) (sample_plain two) (by decide +kernel),
    procs _ _ _ _ _ _ (some_getD (by decide +kernel)) (some_getD (by decide +kernel))
      (proc_plain 7) (proc_plain 8) (by decide +kernel),
    hostFrames _ _ _ (some_getD (by decide +kernel)) (some_getD (by decide +kernel)) ?_,
    procFrames _ _ _ (some_getD (by decide +kernel)) (some_getD (by decide +kernel)) ?_⟩
  · intro col series own
    have time : SameMicros (.rounded false (1700000000 + 1 / 4)) :=
      near _ (1700000000 + 1 / 4) 1700000000250000 (by decide +kernel) (by norm_num) (by norm_num)
    refine ⟨fun same value member x float => ?_, fun kind => ?_⟩
    · subst same
      cases own
      rw [List.mem_singleton.mp member] at float
      cases float
      exact time
    · cases col <;> cases own <;> decide
  · intro col series own textual
    cases col <;> cases own <;> decide

/-- Idle and missing jobs are written alike, as are metrics of one whole part; the column encoder
takes a missing event for NaN and rounds a time the other way. -/
theorem copy_text_not_faithful :
    hostColumnsToCopyBytes (oneRow (sampleCell .none_)) false =
      hostColumnsToCopyBytes (oneRow fun col =>
        if col = .jid then .none_ else sampleCell .none_ col) false ∧
    procRows (procRow (procCell (.float (.rounded false (3 / 2))))) false 1 =
      procRows (procRow (procCell (.int 1))) false 1 ∧
    (hostColumnsToCopyBytes (oneRow (sampleCell (.text ['\x00']))) false).bind
      (readBody hostDataCopyColumns hostReadField) = none ∧
    hostReadField .event (sqlText (.float .nan)) = some (.text (lit "nan")) ∧
    hostFrameToCopyBytesVectorized (sampleFrame (.rounded false 1700000000) .none_) ≠
      hostFramePerCell (sampleFrame (.rounded false 1700000000) .none_) ∧
    hostFrameToCopyBytesVectorized
        (sampleFrame (.rounded false (1700000000 + 6 / 2 ^ 22)) (.text (lit "user"))) ≠
      hostFramePerCell
        (sampleFrame (.rounded false (1700000000 + 6 / 2 ^ 22)) (.text (lit "user"))) := by
  refine ⟨by decide +kernel, by decide +kernel, by decide +kernel, by decide +kernel,
    by decide +kernel, by decide +kernel⟩

end Faithful

end PerfStats.Ingest
