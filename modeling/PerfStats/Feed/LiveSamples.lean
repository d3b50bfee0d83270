import PerfStats.Feed.Resume
import PerfStats.Feed.Tolerance

/-! The live worker of listend, which keeps the schema and the carries of a host and reads every
payload with a parser of its own. -/

namespace PerfStats.Feed

open Lib PerfStats.Frame Text

def isLineBreak (c : Char) : Bool :=
  (10 ≤ c.toNat && c.toNat ≤ 13) || (28 ≤ c.toNat && c.toNat ≤ 30) || c.toNat == 0x85 ||
    c.toNat == 0x2028 || c.toNat == 0x2029

def splitlines : Str → List Str
  | [] => []
  | '\r' :: '\n' :: rest => [] :: splitlines rest
  | c :: rest =>
    if isLineBreak c then [] :: splitlines rest
    else
      match splitlines rest with
      | [] => [[c]]
      | line :: lines => (c :: line) :: lines

def fileLines : Str → List Str
  | [] => []
  | c :: rest =>
    if c = '\n' then ['\n'] :: fileLines rest
    else
      match fileLines rest with
      | [] => [[c]]
      | line :: lines => (c :: line) :: lines

def isMeasurement (line : Str) : Bool := (lstrip line).head?.elim false isAlpha

def isBangLine (line : Str) : Bool := decide ((lstrip line).head? = some '!')

/-- `sample_measurement_types` from some line on. -/
def measurementTypesFrom : Bool → List Str → List Str
  | _, [] => []
  | sawTs, line :: rest =>
    if isDigitLine line then measurementTypesFrom true rest
    else if sawTs && isMeasurement line then
      (split (lstrip line)).headD [] :: measurementTypesFrom sawTs rest
    else measurementTypesFrom sawTs rest

def sampleMeasurementTypes (message : Str) : List Str :=
  measurementTypesFrom false (splitlines message)

def schemaCoversMeasurementTypes (schema : Dict Str (List Str)) (types : List Str) : Bool :=
  types.all fun type => decide (ProcType type) || (schema.get? type).isSome

def payloadHasSchemaBang (message : Str) : Bool := (splitlines message).any isBangLine

def noteBangLine (schema : Dict Str (List Str)) (line : Str) : Dict Str (List Str) :=
  if isBangLine line then
    match split (lstrip line) with
    | label :: event :: events => schema.set (label.drop 1) (event :: events)
    | _ => schema
  else schema

def parseSchemaFromBangLines (message : Str) : Dict Str (List Str) :=
  (splitlines message).foldl noteBangLine .empty

/-- `compile_injected_schema`; the schema of the fast tier is that of the slow one, filtered. -/
def Context.compileInjectedSchema (c : Context) (schema : Dict Str (List Str)) :
    Except ParseError Context :=
  if schema.entries.any fun e => e.2.any schemaTokenUnread then .error .valueError
  else
    .ok { c with
      schema
      bare := schema.entries.foldl (fun bare e => bare.set e.1 (compileSchemaBareNames e.2)) c.bare
      fastBare := schema.entries.foldl
        (fun bare e => bare.set e.1 (compileSchemaBareNames (fastSchemaKeys e.2))) c.fastBare }

section Worker

variable (exclude : List Str)

def parseSample (schema : Dict Str (List Str)) (message : Str) :
    Except ParseError (Option Parser) :=
  let types := sampleMeasurementTypes message
  if types = [] ∨ schemaCoversMeasurementTypes schema types = false then .ok none
  else do
    let context ← (Context.init 0 exclude).compileInjectedSchema schema
    match { Parser.init 0 exclude with context }.feedLines (splitlines message) with
    | .error _ => return none
    | .ok p =>
      if (types.any fun type => !decide (ProcType type)) ∧ p.cols = [] then return none
      else if p.cols = [] ∧ p.procByKey.entries = [] then return none
      else return some p

structure LiveSample where
  parsed : Option Parser
  rows : List HostRow

def LiveSample.skipped : LiveSample := ⟨none, []⟩

def ingestMonitorSampleText (schema : Dict Str (List Str)) (carry : DeltaCarry) (message : Str) :
    Except ParseError (LiveSample × DeltaCarry) := do
  match ← parseSample exclude schema message with
  | none => return (.skipped, carry)
  | some p =>
    let (rows, carry) := computeDeltasAndArcChunk (p.cols.map StatsRow.hw) carry
    return (⟨some p, rows⟩, carry)

structure LiveHost where
  schema : Dict Str (List Str)
  seeded : Bool
  carry : DeltaCarry

namespace LiveHost

def fresh : LiveHost := ⟨.empty, false, .empty⟩

def replaceSchema (w : LiveHost) (schema : Dict Str (List Str)) : LiveHost :=
  if schema.entries = [] then w else { w with schema }

def ensureSchemaSeed (w : LiveHost) (seed : Dict Str (List Str)) : LiveHost :=
  if w.seeded then w
  else if w.schema.entries = [] then { w with seeded := true }.replaceSchema seed
  else { w with seeded := true }

def handle (seed : Dict Str (List Str)) (w : LiveHost) (message : Str) :
    Except ParseError (LiveHost × LiveSample) :=
  if message.head? = some '$' then
    .ok ({ w.replaceSchema (parseSchemaFromBangLines message) with seeded := true }, .skipped)
  else
    let w := w.ensureSchemaSeed seed
    let w :=
      if payloadHasSchemaBang message then w.replaceSchema (parseSchemaFromBangLines message)
      else w
    if w.schema.entries = [] then .ok (w, .skipped)
    else do
      let (sample, carry) ← ingestMonitorSampleText exclude w.schema w.carry message
      return ({ w with carry }, sample)

end LiveHost

end Worker

/-- What of a payload the archive has where only the samples that were taken in count: without
its measurements when it was skipped. -/
def archived (message : Str) (sample : LiveSample) : Str :=
  if sample.parsed.isSome then message
  else ((fileLines message).filter (!isMeasurement ·)).flatten

def archiveOf (messages : List Str) (samples : List LiveSample) : Str :=
  (List.zipWith archived messages samples).flatten

end PerfStats.Feed
