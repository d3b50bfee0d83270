import PerfStats.Feed.Schema

/-! `IncrementalStatsParser`. `Context` is what a line can be read against; a line
changes it and emits at most one thing, which the parser's buffers then take in. -/

namespace PerfStats.Feed

open Lib Text

/-- One row of `_stats_cols`. -/
structure StatsRow where
  time : ℚ
  host : Str
  jid : Str
  type : Str
  dev : Str
  event : Str
  value : Num
  wid : Nat
  mult : ℚ
  unit : Str
  deriving DecidableEq, Repr

structure Tags where
  time : ℚ
  host : Str
  jid : Str
  deriving DecidableEq, Repr

inductive MarkBody where
  | jobs (jids : List Str)
  | affinity (jid cpus gpus cg : Str)
  deriving DecidableEq, Repr

structure Mark where
  body : MarkBody
  bound : Option (ℚ × Str)
  deriving DecidableEq, Repr

abbrev ProcKey := Str × Str × Str

structure ProcRow where
  time : ℚ
  host : Str
  jid : Str
  proc : Str
  device : Str
  fields : Dict Str (Option Int)
  deriving DecidableEq

def ProcRow.key (r : ProcRow) : ProcKey := (r.jid, r.host, r.proc)

structure Context where
  startIdx : Nat
  exclude : List Str
  lineIndex : Nat
  schema : Dict Str (List Str)
  bare : Dict Str (List Str)
  fastBare : Dict Str (List Str)
  insert : Bool
  tags : Option Tags
  armShared : Bool
  sampleShared : Bool

def Context.init (startIdx : Nat) (exclude : List Str) : Context :=
  { startIdx, exclude, lineIndex := 0, schema := .empty, bare := .empty, fastBare := .empty,
    insert := false, tags := none, armShared := false, sampleShared := false }

inductive Emit where
  | nothing
  | rows (rows : List StatsRow)
  | proc (row : ProcRow)
  | mark (mark : Mark)
  | bind (time : ℚ) (host : Str)
  deriving DecidableEq

/-- A job id a row can be stamped with: not empty, `-` or `0`. -/
def stampable (jid : Str) : Bool := decide (jid ≠ [] ∧ jid ≠ lit "-" ∧ jid ≠ lit "0")

def sharedRowDev (dev type jid : Str) (shared : Bool) : Str :=
  if type ∈ gpuStatsTypes then dev
  else if !stampable jid then dev
  else if type = hostMemJobType then
    if startsWith (lit "j:") dev then dev.take 64 else (lit "j:" ++ jid).take 64
  else if !shared then dev
  else (lit "j:" ++ jid).take 64 ++ jobStampDevSep :: dev

variable [Interpreter]

/-- `_append_compiled_stats_columns`: a line of another length than its schema, or with a
value that is no number, is dropped. -/
def compiledStatsRows (tags : Tags) (type dev : Str) (compiled : List SchemaKey)
    (vals : List Str) : List StatsRow :=
  if vals.length ≠ compiled.length then []
  else
    match vals.mapM Num.parse with
    | none => []
    | some values => (compiled.zip values).map fun (k, value) =>
      ⟨tags.time, tags.host, tags.jid, type, dev, k.event, value, k.wid, k.mult, k.unit⟩

/-- `_append_vals_dict_columns`. -/
def valsDictRows (tags : Tags) (type dev : Str) (vals : Dict Str Str) : List StatsRow :=
  compiledStatsRows tags type dev (compileSchemaTokens (vals.entries.map Prod.fst))
    (vals.entries.map Prod.snd)

inductive Tier where
  | legacy
  | fast
  | full
  deriving DecidableEq, Repr

def tierMarker : List Str → Tier × List Str
  | v :: rest =>
    if v = lit "@fast" then (.fast, rest)
    else if v = lit "@full" then (.full, rest)
    else (.legacy, v :: rest)
  | [] => (.legacy, [])

def procValue (raw : Str) : Except ParseError (Option Int) :=
  match parseInt raw with
  | some n => .ok (some n)
  | none =>
    match Num.parse raw with
    | some (.fin q) => .ok (some (truncate q))
    | some .nan => .ok none
    | some _ => .error .overflowError
    | none => .ok none

def procFields : List Str → List Str → Except ParseError (Dict Str (Option Int))
  | bare, vals =>
    (bare.zip vals).foldlM (fun fields (key, raw) =>
      if key ∈ hostProcKeys then do
        let value ← procValue raw
        return fields.set key value
      else .ok fields) .empty

def nullableIntMax : Option Int → Option Int → Option Int
  | none, right => right
  | left, none => left
  | some left, some right => some (max left right)

/-- The later row wins, peaks keep the larger value. -/
def mergeProcRowDicts (earlier later : ProcRow) : ProcRow :=
  { later with
    fields := later.fields.entries.foldl (fun fields (key, value) =>
      if key ∈ hostProcPeakKeys then
        fields.set key (nullableIntMax ((fields.get? key).getD none) value)
      else fields.set key value) earlier.fields }

namespace Context

def procSchemaKeys (c : Context) (type : Str) : List Str :=
  match c.schema.get? type with
  | some (k :: rest) => k :: rest
  | _ =>
    match c.schema.get? (lit "host_proc") with
    | some (k :: rest) => k :: rest
    | _ =>
      match c.schema.get? (lit "proc") with
      | some (k :: rest) => k :: rest
      | _ => hostProcKeys

def procBareKeysFor (c : Context) (type : Str) (fast : Bool) : List Str × Context :=
  match (if fast then c.fastBare else c.bare).get? type with
  | some bare => (bare, c)
  | none =>
    let full := c.procSchemaKeys type
    if fast then
      let keys := match (c.schema.get? type).map fastSchemaKeys with
        | some (k :: rest) => k :: rest
        | _ => fastSchemaKeys full
      let bare := compileSchemaBareNames keys
      (bare, { c with fastBare := c.fastBare.set type bare })
    else
      let bare := compileSchemaBareNames full
      (bare, { c with bare := c.bare.set type bare })

def feedProc (c : Context) (tags : Tags) (type dev : Str) (vals : List Str) :
    Except ParseError (Context × Emit) := do
  let (tier, vals) := tierMarker vals
  let (bare, c) := c.procBareKeysFor type (decide (tier = .fast))
  let fields ← procFields bare vals
  return (c, .proc ⟨tags.time, tags.host, tags.jid, (splitOn '/' dev).headD [], dev, fields⟩)

def hardwareRows (c : Context) (tags : Tags) (type dev : Str) (vals : List Str) :
    Except ParseError (List StatsRow) :=
  match c.schema.get? type with
  | none => .ok []
  | some tokens =>
    let (tier, vals) := tierMarker vals
    let legacy := schemaNeedsLegacyHardwareDecode type tokens
    if tier = .fast then
      if legacy then .ok []
      else
        .ok (compiledStatsRows tags type (sharedRowDev dev type tags.jid c.sampleShared)
          (compileSchemaTokens (fastSchemaKeys tokens)) vals)
    else if legacy then do
      let out := legacyOutputType type
      let dev := sharedRowDev dev out tags.jid c.sampleShared
      match ← decodeCounterLine type tokens vals with
      | none => return []
      | some events => return valsDictRows tags out dev events
    else
      .ok (compiledStatsRows tags type (sharedRowDev dev type tags.jid c.sampleShared)
        (compileSchemaTokens tokens) vals)

def feedRow (c : Context) (tags : Tags) (s : Str) : Except ParseError (Context × Emit) :=
  match split s with
  | type :: dev :: v :: vals =>
    if type ∈ c.exclude then .ok (c, .nothing)
    else if type = lit "proc" ∨ type = lit "host_proc" then c.feedProc tags type dev (v :: vals)
    else do return (c, .rows (← c.hardwareRows tags type dev (v :: vals)))
  | _ => .ok (c, .nothing)

def sampleTime (t : Str) : Option ℚ :=
  match Num.parse t with
  | some (.fin q) => if 0 ≤ q ∧ q < maxSampleTime then some q else none
  | _ => none

def feedHeader (c : Context) (s : Str) : Context × Emit :=
  match split s with
  | t :: jid :: host :: _ =>
    match sampleTime t with
    | none => ({ c with insert := false }, .nothing)
    | some time =>
      ({ c with
        insert := true
        tags := some ⟨time, host, jid⟩
        sampleShared := c.armShared && stampable jid
        armShared := false }, .bind time host)
  | _ => (c, .nothing)

/-- A `!` line; one without keys cannot be unpacked, and `int` may refuse a width. -/
def feedSchema (c : Context) (s : Str) : Except ParseError (Context × Emit) :=
  match split s with
  | label :: event :: events =>
    let type := label.drop 1
    let tokens := event :: events
    if tokens.any schemaTokenUnread then .error .valueError
    else
      .ok ({ c with
        schema := c.schema.set type tokens
        bare := c.bare.set type (compileSchemaBareNames tokens)
        fastBare := c.fastBare.set type (compileSchemaBareNames (fastSchemaKeys tokens)) },
        .nothing)
  | _ => .error .valueError

def afterFirstWord (s : Str) : Str := lstrip (s.dropWhile (!isSpace ·))

def parseJobsJids (line : Str) : List Str :=
  let text := strip line
  let rest := afterFirstWord text
  if startsWith (lit "%jobs") text && startsWith (lit "jids=") rest then
    ((splitOn ',' (rest.drop 5)).map strip).filter fun jid =>
      decide (jid ≠ [] ∧ jid ≠ lit "-" ∧ jid ≠ lit "0" ∧ jid.length ≤ 32 ∧ ' ' ∉ jid)
  else []

def markFields (words : List Str) : Dict Str Str :=
  words.foldl (fun fields word =>
    if '=' ∈ word then
      fields.set (word.takeWhile (· ≠ '=')) ((word.dropWhile (· ≠ '=')).drop 1)
    else fields) .empty

def parseAffinityMark (line : Str) : Option MarkBody :=
  let text := strip line
  let fields := markFields (split text).tail
  let jid := strip ((fields.get? (lit "jid")).getD [])
  if startsWith (lit "%affinity") text then
    if jid = [] ∨ jid = lit "-" ∨ jid = lit "0" ∨ 32 < jid.length then none
    else some (.affinity jid ((fields.get? (lit "cpus")).getD [])
      ((fields.get? (lit "gpus")).getD (lit "-")) ((fields.get? (lit "cg")).getD (lit "sched")))
  else none

/-- `_queue_mark`: with a header open the mark is bound to it at once. -/
def queueMark (c : Context) (body : MarkBody) : Context × Emit :=
  match c.tags with
  | none => (c, .mark ⟨body, none⟩)
  | some tags =>
    match body with
    | .jobs _ =>
      ({ c with sampleShared := stampable tags.jid },
        .mark ⟨body, some (tags.time, tags.host)⟩)
    | .affinity .. => (c, .mark ⟨body, some (tags.time, tags.host)⟩)

def notePercentMark (c : Context) (s : Str) : Context × Emit :=
  if startsWith (lit "%jobs") s then
    match parseJobsJids s with
    | [] => (c, .nothing)
    | jid :: jids => { c with armShared := true }.queueMark (.jobs (jid :: jids))
  else if startsWith (lit "%affinity") s then
    match parseAffinityMark s with
    | none => (c, .nothing)
    | some body => c.queueMark body
  else (c, .nothing)

def tick (c : Context) : Context := { c with lineIndex := c.lineIndex + 1 }

def feedLine (c : Context) (line : Str) : Except ParseError (Context × Emit) :=
  match lstrip line with
  | [] => .ok (c.tick, .nothing)
  | first :: rest =>
    if isAlpha first && c.insert then
      match c.tags with
      | none => .ok (c.tick, .nothing)
      | some tags => c.tick.feedRow tags (first :: rest)
    else if decide (c.startIdx ≤ c.lineIndex) && isDigit first then
      .ok (c.tick.feedHeader (first :: rest))
    else if first = '!' then c.tick.feedSchema (first :: rest)
    else if first = '%' then .ok (c.tick.notePercentMark (first :: rest))
    else .ok (c.tick, .nothing)

end Context

structure Parser where
  context : Context
  cols : List StatsRow
  procByKey : Dict ProcKey ProcRow
  marks : List Mark

namespace Parser

def init (startIdx : Nat) (exclude : List Str) : Parser :=
  ⟨.init startIdx exclude, [], .empty, []⟩

def mergeProc (procByKey : Dict ProcKey ProcRow) (row : ProcRow) : Dict ProcKey ProcRow :=
  procByKey.set row.key ((procByKey.get? row.key).elim row fun earlier =>
    mergeProcRowDicts earlier row)

def bindPendingMarks (marks : List Mark) (time : ℚ) (host : Str) : List Mark :=
  marks.map fun m => { m with bound := some (m.bound.getD (time, host)) }

def store (p : Parser) : Emit → Parser
  | .nothing => p
  | .rows rows => { p with cols := p.cols ++ rows }
  | .proc row => { p with procByKey := mergeProc p.procByKey row }
  | .mark m => { p with marks := p.marks ++ [m] }
  | .bind time host => { p with marks := bindPendingMarks p.marks time host }

def feedLine (p : Parser) (line : Str) : Except ParseError Parser := do
  let (context, emit) ← p.context.feedLine line
  return { p.store emit with context }

def feedLines (p : Parser) (lines : List Str) : Except ParseError Parser := lines.foldlM feedLine p

end Parser

end PerfStats.Feed
