import PerfStats.Monitor.Tier
import PerfStats.Words

namespace PerfStats.Monitor

open Text

section Schema

inductive SeType where
  | plain
  | event
  | control
deriving DecidableEq, Repr

/-- An entry of a schema, as `parse_schema_entry` takes it from a word cut at commas. -/
structure SchemaEntry where
  key : Str
  type : SeType
  unit : Option Str
  width : Nat
  tier : CollectTier
  word : Word key
  no_comma : ',' ∉ key
  unit_solid : ∀ u ∈ unit, ',' ∉ u ∧ ∀ c ∈ u, isSpace c = false

structure StatsType where
  name : Str
  entries : List SchemaEntry
  word : Word name
  letter : ∀ c ∈ name.head?, isAlpha c = true

def byteLength (s : Str) : Nat := (s.map Char.utf8Size).sum

def SchemaEntry.options (se : SchemaEntry) : List Str :=
  (match se.type with
    | .plain => []
    | .event => [lit "E"]
    | .control => [lit "C"]) ++
  (match se.unit with
    | none => []
    | some u => [lit "U=" ++ u]) ++
  (if se.width = 0 then [] else [lit "W=" ++ decimalText se.width]) ++
  (if se.tier = .slow then [lit "R=S"] else [])

def appendOption (tmp : Option Str) (opt : Str) : Option Str :=
  tmp.bind fun text =>
    if byteLength text + byteLength (',' :: opt) < 96 then some (text ++ ',' :: opt) else none

/-- Where the text does not fit, `buf` is not written. -/
def schemaEntrySuffix (se : SchemaEntry) : Option Str := se.options.foldl appendOption (some [])

def emitOneSchemaEntry (se : SchemaEntry) : Option Str :=
  (schemaEntrySuffix se).map fun suffix => ' ' :: se.key ++ suffix

/-- `none` where an entry's suffix is not to be had. -/
def emitSchemaLine (type : StatsType) : Option Str := do
  let entries ← type.entries.mapM emitOneSchemaEntry
  return '!' :: type.name ++ entries.flatten ++ ['\n']

structure Banner where
  prog : Str
  vers : Str
  nodename : Str
  sysname : Str
  machine : Str
  release : Str
  version : Str
  uptime : Nat
  capabilitySlug : Option Str

def emitPropertyBanner (b : Banner) : List Str :=
  [b.prog ++ lit " " ++ b.vers, lit "hostname " ++ b.nodename,
    lit "uname " ++ b.sysname ++ lit " " ++ b.machine ++ lit " " ++ b.release ++ lit " " ++ b.version,
    lit "uptime " ++ decimalText b.uptime].map (fun line => '$' :: line ++ ['\n']) ++
  match b.capabilitySlug with
  | none => []
  | some slug => if slug = [] then [] else ['$' :: lit "build " ++ slug ++ ['\n']]

def statsWrHdr (b : Banner) (types : List StatsType) : Option (List Str) := do
  let schema ← types.mapM emitSchemaLine
  return emitPropertyBanner b ++ schema

end Schema

section Rows

structure Stats where
  type : StatsType
  dev : Str
  val : List UInt64
  sized : val.length = type.entries.length

def rowKeyEmitted (tier : StatsRowTier) (se : SchemaEntry) : Bool :=
  decide (tier ≠ .fast) || decide (se.tier = .fast)

def rowTierToken : StatsRowTier → Str
  | .fast => lit " @fast"
  | .full => lit " @full"
  | .legacy => []

def Stats.emitted (stats : Stats) (tier : StatsRowTier) : List (SchemaEntry × UInt64) :=
  (stats.type.entries.zip stats.val).filter fun e => rowKeyEmitted tier e.1

def rowText (stats : Stats) (tier : StatsRowTier) : Str :=
  stats.type.name ++ ' ' :: stats.dev ++ rowTierToken tier ++
    (stats.emitted tier).flatMap fun e => ' ' :: decimalText e.2.toNat

/-- The row where it fits. -/
def snprintfStatsRowTier (cap : Nat) (stats : Stats) (tier : StatsRowTier) : Option Str :=
  if byteLength (rowText stats tier) < cap then some (rowText stats tier) else none

/-- All of its attempts have the same room. -/
def appendTypeRow (rowLineCap : Nat) (stats : Stats) (tier : StatsRowTier) : Option Str :=
  let need := byteLength stats.type.name + 1 + byteLength stats.dev + 4 +
    24 * stats.type.entries.length
  (snprintfStatsRowTier (max rowLineCap (max need 256)) stats tier).map (· ++ ['\n'])

def appendTypeRowFallback (stats : Stats) (tier : StatsRowTier) : Str := rowText stats tier ++ ['\n']

def rowLine (rowLineCap : Nat) (stats : Stats) (tier : StatsRowTier) : Str :=
  (appendTypeRow rowLineCap stats tier).getD (appendTypeRowFallback stats tier)

theorem rowLine_eq (rowLineCap : Nat) (stats : Stats) (tier : StatsRowTier) :
    rowLine rowLineCap stats tier = rowText stats tier ++ ['\n'] := by
  rw [rowLine, appendTypeRow, snprintfStatsRowTier]
  split <;> rfl

end Rows

end PerfStats.Monitor
