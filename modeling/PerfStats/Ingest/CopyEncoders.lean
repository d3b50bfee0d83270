import PerfStats.Double
import PerfStats.Lib.Calendar
import PerfStats.Lib.CopyText
import PerfStats.Metrics.CopyFields

namespace PerfStats.Ingest

open Lib Lib.Binary64 Lib.Calendar
open Metrics (utf8)

section Values

structure Moment where
  micros : ℤ
  first : -62135596800000000 ≤ micros
  last : micros < 253402300800000000
deriving DecidableEq

/-- A Python value; `na` is `pd.NA`, and a moment is a timestamp or a datetime. -/
inductive PyValue where
  | none_
  | na
  | bool (b : Bool)
  | int (n : Int)
  | float (x : Double)
  | text (s : Str)
  | moment (m : Moment)
deriving DecidableEq

def moment? (micros : ℤ) : Option Moment :=
  if inside : -62135596800000000 ≤ micros ∧ micros < 253402300800000000 then
    some ⟨micros, inside.1, inside.2⟩
  else none

def integerText (n : Int) : Str :=
  if n < 0 then '-' :: Text.decimalText n.natAbs else Text.decimalText n.natAbs

def padded (width : Nat) (n : ℤ) : Str :=
  List.replicate (width - (Text.decimalText n.natAbs).length) '0' ++ Text.decimalText n.natAbs

/-- `%04d`. -/
def yearText (year : ℤ) : Str := if year < 0 then '-' :: padded 3 year else padded 4 year

def secondsText (sep : Char) (micros : ℤ) : Str :=
  let date := dateOf (micros / 86400000000)
  let rest := micros % 86400000000
  yearText date.year ++ '-' :: (padded 2 date.month ++ '-' :: (padded 2 date.day ++
    sep :: (padded 2 (rest / 3600000000) ++ ':' :: (padded 2 (rest / 60000000 % 60) ++
      ':' :: padded 2 (rest / 1000000 % 60)))))

def fractionText (micros : ℤ) : Str := '.' :: padded 6 (micros % 1000000)

/-- `isoformat(sep)`, which leaves the fraction of a whole second out. -/
def isoformat (sep : Char) (m : Moment) : Str :=
  secondsText sep m.micros ++
    ((if m.micros % 1000000 = 0 then [] else fractionText m.micros) ++ lit "+00:00")

namespace PyValue

def str : PyValue → Str
  | none_ => lit "None"
  | na => lit "<NA>"
  | bool b => if b then lit "True" else lit "False"
  | int n => integerText n
  | float x => x.repr
  | text s => s
  | moment m => isoformat ' ' m

def notna : PyValue → Bool
  | none_ | na => false
  | float x => !x.isNan
  | _ => true

/-- `float(value)`; `none` is an exception. -/
def toFloat : PyValue → Option Double
  | bool b => Double.ofInt (if b then 1 else 0)
  | int n => Double.ofInt n
  | float x => some x
  | text s => Double.parse s
  | _ => none

end PyValue

/-- The microseconds of `datetime.fromtimestamp`: the fraction is scaled by itself. -/
def splitMicros (secs : ℚ) : ℤ :=
  truncate secs * 1000000 + roundHalfEven (nearest ((secs - truncate secs) * 1000000))

def fromtimestamp (x : Double) : Option Moment := x.value.bind fun secs => moment? (splitMicros secs)

/-- The outer `none` is an exception. -/
def toPydatetimeOrNone : PyValue → Option PyValue
  | .none_ | .na => some .none_
  | .moment m => some (.moment m)
  | .float x => if x.isNan then some .none_ else (fromtimestamp x).map .moment
  | value => (value.toFloat.bind fromtimestamp).map .moment

def copyBody (rows : List (List Str)) : Bytes :=
  utf8 (rows.flatMap fun fields => List.intercalate ['\t'] fields ++ ['\n'])

end Values

section Host

inductive HostColumn where
  | time | host | jid | type | dev | event | unit | value | delta | arc
deriving DecidableEq

def hostDataCopyColumns : List HostColumn :=
  [.time, .host, .jid, .type, .dev, .event, .unit, .value, .delta, .arc]

/-- What `_sql_literal` escapes; `none` for NULL. -/
def sqlText : PyValue → CopyText.Field
  | .none_ => none
  | .bool b => some (if b then lit "t" else lit "f")
  | .moment m => some (isoformat 'T' m)
  | value => some value.str

def sqlLiteral (value : PyValue) : Str := CopyText.literal (sqlText value)

def copyDevText (value : PyValue) : Str :=
  if value.notna then
    let text := Text.strip value.str
    if text = [] ∨ Text.lower text = lit "nan" then [] else text
  else []

/-- `none` is an exception. -/
def hostFrameCell (col : HostColumn) (value : PyValue) : Option PyValue :=
  match col with
  | .time => toPydatetimeOrNone value
  | .jid => some (if value.notna ∧ value.str ≠ lit "-" then .text value.str else .none_)
  | .dev => some (.text (copyDevText value))
  | .value | .delta | .arc => if value.notna then value.toFloat.map .float else some .none_
  | .host | .type | .event | .unit => some value

def hostLiteral (cellsNormalized : Bool) (col : HostColumn) (value : PyValue) : Option Str :=
  (if cellsNormalized then some value else hostFrameCell col value).map sqlLiteral

abbrev HostColumns := HostColumn → Option (List PyValue)

def HostColumns.rows (cols : HostColumns) : Nat :=
  let n := ((cols .time).map List.length).getD 0
  if n = 0 then (hostDataCopyColumns.map fun col => ((cols col).map List.length).getD 0).foldl max 0
  else n

/-- The cell of a row; missing columns and short ones are filled with `None`. -/
def HostColumns.cell (cols : HostColumns) (i : Nat) (col : HostColumn) : PyValue :=
  ((cols col).bind fun values => values[i]?).getD .none_

/-- `none` is an exception. -/
def hostColumnsToCopyBytes (cols : HostColumns) (cellsNormalized : Bool) : Option Bytes :=
  if cols.rows = 0 then some []
  else
    ((List.range cols.rows).mapM fun i => hostDataCopyColumns.mapM fun col =>
      hostLiteral cellsNormalized col (cols.cell i col)).map copyBody

end Host

section Frames

inductive Series where
  | floats (xs : List Double)
  | ints (ns : List Int)
  | moments (ms : List (Option Moment))
  | objects (values : List PyValue)

namespace Series

/-- A missing time is read as `na`, which is treated alike. -/
def tolist : Series → List PyValue
  | floats xs => xs.map .float
  | ints ns => ns.map .int
  | moments ms => ms.map fun m => (m.map PyValue.moment).getD .na
  | objects values => values

/-- `infer_dtype` is `string` or `empty`. -/
def isTextual : Series → Bool
  | objects values => values.all fun value => !value.notna || (match value with
      | .text _ => true
      | _ => false)
  | _ => false

/-- One cell of `pd.to_numeric(errors="coerce")`. -/
def coerced : PyValue → Double
  | .int n => (Double.ofInt n).getD .nan
  | .float x => x
  | _ => .nan

/-- The numbers of a measure column; `none` where the types are mixed with others. -/
def numbers : Series → Option (List Double)
  | floats xs => some xs
  | ints ns => some (ns.map fun n => coerced (.int n))
  | moments _ => none
  | objects values =>
    if values.all fun value => !value.notna || (match value with
      | .int _ | .float _ => true
      | _ => false) then some (values.map coerced)
    else none

end Series

/-- `pd.factorize(use_na_sentinel=False)`: a missing value of an object column becomes NaN. -/
def factorize (values : List PyValue) : List Nat × List PyValue :=
  let seen := values.map fun value => if value.notna then value else .float .nan
  (seen.map fun value => seen.eraseDups.idxOf value, seen.eraseDups)

def takeLiterals (literal : PyValue → Str) (values : List PyValue) : List Str :=
  let (codes, uniques) := factorize values
  let lit_ := uniques.map literal
  codes.map fun code => lit_.getD code []

/-- `np.rint(secs * 1e6)` as an `int64`; what does not fit is NaT. -/
def productMicros (x : Double) : Option ℤ :=
  (x.value.map fun secs => roundHalfEven (nearest (secs * 1000000))).filter fun micros =>
    decide (-2 ^ 63 < micros ∧ micros < 2 ^ 63)

/-- `np.datetime_as_string`, in seconds where that is all. -/
def datetimeAsString : Option ℤ → Str
  | some micros =>
    secondsText 'T' micros ++ (if micros % 1000000 = 0 then [] else fractionText micros)
  | none => lit "NaT"

def stampText (micros : Option ℤ) : Str := datetimeAsString micros ++ lit "+00:00"

/-- The time column; `none` sends the frame to the other encoder. -/
def vectorTimes : Series → Option (List Str)
  | .moments ms => ms.mapM fun m => m.map fun m => stampText (some m.micros)
  | .floats xs =>
    if xs.any Double.isNan then none else some (xs.map fun x => stampText (productMicros x))
  | .ints ns => some (ns.map fun n => stampText (productMicros (Series.coerced (.int n))))
  | .objects _ => none

def numberLiteral (x : Double) : Str := if x.isNan then lit "\\N" else x.repr

def hostTextLiteral (col : HostColumn) (value : PyValue) : Str :=
  ((hostFrameCell col value).map sqlLiteral).getD []

def hostVectorColumn (col : HostColumn) (series : Series) : Option (List Str) :=
  match col with
  | .time => vectorTimes series
  | .value | .delta | .arc => series.numbers.map fun xs => xs.map numberLiteral
  | .host | .jid | .type | .dev | .event | .unit =>
    if series.isTextual then some (takeLiterals (hostTextLiteral col) series.tolist) else none

structure Frame (γ : Type) where
  length : Nat
  columns : γ → Option Series
  full : ∀ {col series}, columns col = some series → series.tolist.length = length

def zipRows (n : Nat) (cols : List (List Str)) : List (List Str) :=
  (List.range n).map fun i => cols.map fun col => col.getD i []

/-- `none` sends the frame to the other encoder. -/
def hostFrameToCopyBytesVectorized (frame : Frame HostColumn) : Option Bytes :=
  if frame.length = 0 then some []
  else
    (hostDataCopyColumns.mapM fun col => (frame.columns col).bind (hostVectorColumn col)).map
      fun cols => copyBody (zipRows frame.length cols)

def Frame.lists {γ : Type} (frame : Frame γ) (col : γ) : Option (List PyValue) :=
  some (((frame.columns col).map Series.tolist).getD (List.replicate frame.length .none_))

def hostFramePerCell (frame : Frame HostColumn) : Option Bytes :=
  if frame.length = 0 then some [] else hostColumnsToCopyBytes frame.lists false

def hostFrameToCopyBytes (frame : Frame HostColumn) : Option Bytes :=
  match hostFrameToCopyBytesVectorized frame with
  | some fast => some fast
  | none => hostFramePerCell frame

end Frames

section Proc

inductive ProcColumn where
  | jid | host | proc | device
  | uid | vmPeak | vmSize | vmLck | vmHwm | vmRss | vmData | vmStk | vmExe | vmLib | vmPte | vmSwap
  | threads
deriving DecidableEq

def procDataCopyColumns : List ProcColumn :=
  [.jid, .host, .proc, .device, .uid, .vmPeak, .vmSize, .vmLck, .vmHwm, .vmRss, .vmData, .vmStk,
    .vmExe, .vmLib, .vmPte, .vmSwap, .threads]

/-- `_PROC_PASSTHROUGH_COLUMNS`. -/
def ProcColumn.passthrough : ProcColumn → Bool
  | .jid | .host | .proc => true
  | _ => false

def ProcColumn.textual : ProcColumn → Bool
  | .jid | .host | .proc | .device => true
  | _ => false

/-- `int(x)`; `none` is an exception. -/
def floatInt (x : Double) : Option Int := x.value.map truncate

/-- `none` is an exception. -/
def procCopyScalar : PyValue → Option PyValue
  | .float x => if x.isNan then some .none_ else (floatInt x).map .int
  | value => some value

/-- What `_sql_literal` of the proc module escapes: floats lose their fraction. -/
def procSqlText : PyValue → Option CopyText.Field
  | .none_ => some none
  | .bool b => some (some (if b then lit "t" else lit "f"))
  | .float x => if x.isNan then some none else (floatInt x).map fun n => some (integerText n)
  | value => some (some value.str)

def procLiteral (cellsNormalized : Bool) (col : ProcColumn) (value : PyValue) : Option Str :=
  ((if cellsNormalized || col.passthrough then some value else procCopyScalar value).bind
    procSqlText).map CopyText.literal

abbrev ProcCopyColumns := ProcColumn → Option (List PyValue)

def ProcCopyColumns.cell (cols : ProcCopyColumns) (i : Nat) (col : ProcColumn) : PyValue :=
  ((cols col).bind fun values => values[i]?).getD .none_

def procRows (cols : ProcCopyColumns) (cellsNormalized : Bool) (n : Nat) : Option Bytes :=
  if n = 0 then some []
  else
    ((List.range n).mapM fun i => procDataCopyColumns.mapM fun col =>
      procLiteral cellsNormalized col (cols.cell i col)).map copyBody

/-- The number of rows is that of the processes. -/
def procColumnsToCopyBytes (cols : ProcCopyColumns) (cellsNormalized : Bool) : Option Bytes :=
  procRows cols cellsNormalized (((cols .proc).map List.length).getD 0)

def vectorMetrics : Series → Option (List Str)
  | .ints ns => some (ns.map integerText)
  | .floats xs =>
    if xs.any fun x => !x.isNan && (x.value.map fun q => decide (9000000000000000000 ≤ |q|)).getD true
    then none
    else some (xs.map fun x => ((floatInt x).map integerText).getD (lit "\\N"))
  | .moments _ | .objects _ => none

def procTextLiteral (value : PyValue) : Str :=
  (((procCopyScalar value).bind procSqlText).map CopyText.literal).getD []

def procVectorColumn (col : ProcColumn) (series : Series) : Option (List Str) :=
  if col.textual then
    if series.isTextual then some (takeLiterals procTextLiteral series.tolist) else none
  else vectorMetrics series

/-- `none` sends the frame to the other encoder. -/
def procFrameToCopyBytesVectorized (frame : Frame ProcColumn) : Option Bytes :=
  if frame.length = 0 then some []
  else
    (procDataCopyColumns.mapM fun col => (frame.columns col).bind (procVectorColumn col)).map
      fun cols => copyBody (zipRows frame.length cols)

def procFramePerCell (frame : Frame ProcColumn) : Option Bytes :=
  procRows frame.lists false frame.length

def procFrameToCopyBytes (frame : Frame ProcColumn) : Option Bytes :=
  match procFrameToCopyBytesVectorized frame with
  | some fast => some fast
  | none => procFramePerCell frame

end Proc

end PerfStats.Ingest
