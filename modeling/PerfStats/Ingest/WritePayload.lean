import PerfStats.Lib.Runs
import PerfStats.Text

/-! Persisting one parsed payload: bulk statements by slices, the row-by-row fallback, and the jid
invalidation. -/

namespace PerfStats.Ingest

open Lib

structure Row (κ : Type) where
  key : κ
  jid : Option Str
  deriving DecidableEq, Repr

/-- What a bulk statement meets. `unavailable` covers a lost database and the
per-file deadline, which are raised to the caller. -/
inductive BulkFault where
  | none
  | error
  | unavailable
  deriving DecidableEq, Repr

inductive RowFault where
  | none
  | desync
  | error
  deriving DecidableEq, Repr

structure Faults where
  reconnect : BulkFault
  procBatch : Nat → BulkFault
  hostBatch : Nat → BulkFault
  procRow : Nat → Nat → RowFault
  hostRow : Nat → Nat → RowFault
  cacheRaises : Bool

variable {κ : Type} [DecidableEq κ]

def keys (rows : List (Row κ)) : Finset κ := (rows.map Row.key).toFinset

theorem mem_keys {rows : List (Row κ)} {k : κ} : k ∈ keys rows ↔ ∃ r ∈ rows, r.key = k := by
  simp [keys]

def writeBatches : (Nat → BulkFault) → List (List (Row κ)) → Finset κ → Finset κ × BulkFault
  | _, [], db => (db, .none)
  | fault, batch :: rest, db =>
    match fault 0 with
    | .none => writeBatches (fun i => fault (i + 1)) rest (db ∪ keys batch)
    | met => (db, met)

inductive SaveResult (κ : Type) where
  | stored (db : Finset κ)
  | duplicate
  | raised (desync : Bool)

def saveRow (upsert : Bool) (fault : RowFault) (row : Row κ) (db : Finset κ) : SaveResult κ :=
  match fault with
  | .none => if !upsert && decide (row.key ∈ db) then .duplicate else .stored (insert row.key db)
  | .desync => .raised true
  | .error => .raised false

structure LoopResult (κ : Type) where
  db : Finset κ
  uniqueViolations : Nat
  nonIntegrityErrors : Nat

def LoopResult.violation (r : LoopResult κ) : LoopResult κ :=
  { r with uniqueViolations := r.uniqueViolations + 1 }

def LoopResult.failure (r : LoopResult κ) : LoopResult κ :=
  { r with nonIntegrityErrors := r.nonIntegrityErrors + 1 }

/-- The first desync resets the connection and retries its
row; a failed retry or a later desync ends the loop. -/
def insertRowsIndividually (upsert : Bool) :
    (Nat → Nat → RowFault) → Bool → List (Row κ) → Finset κ → LoopResult κ
  | _, _, [], db => ⟨db, 0, 0⟩
  | fault, resetUsed, row :: rest, db =>
    let rest := fun resetUsed db =>
      insertRowsIndividually upsert (fun i => fault (i + 1)) resetUsed rest db
    match saveRow upsert (fault 0 0) row db with
    | .stored db => rest resetUsed db
    | .duplicate => (rest resetUsed db).violation
    | .raised desync =>
      if !resetUsed && desync then
        match saveRow upsert (fault 0 1) row db with
        | .stored db => rest true db
        | .duplicate => (rest true db).violation
        | .raised _ => ⟨db, 0, 1⟩
      else if desync then ⟨db, 0, 1⟩
      else (rest resetUsed db).failure

inductive Stats (κ : Type) where
  | frame (rows : List (Row κ))
  | mapping (rows : List (Row κ))
  | copyBytes (hostCopy procCopy : List (Row κ))

structure Payload (κ : Type) where
  stats : Stats κ
  procStats : List (Row κ)

def Payload.hostRows (p : Payload κ) : List (Row κ) :=
  match p.stats with
  | .frame rows => rows
  | .mapping rows => rows
  | .copyBytes hostCopy _ => hostCopy

def Payload.procRows (p : Payload κ) : List (Row κ) :=
  match p.stats with
  | .copyBytes _ procCopy => procCopy ++ p.procStats
  | _ => p.procStats

structure Settings where
  emit : Str
  copyHost : Bool
  copyProc : Bool
  sliceRows : Nat
  needArchival : Bool

structure Database (κ : Type) where
  host : Finset κ
  proc : Finset κ

inductive WriteError where
  | databaseUnavailable
  | codonCopyFailed
  | reconnectFailed
  deriving DecidableEq, Repr

/-- What the call returns, the tables after it, and the jids handed to
`mark_jids_metrics_dirty`. -/
structure Written (κ : Type) where
  needArchival : Bool
  ingestOk : Bool
  db : Database κ
  dirty : List Str

def frameJids (rows : List (Row κ)) : List Str :=
  (rows.filterMap Row.jid).filter fun j => decide (j ≠ lit "-")

def mappingJids (rows : List (Row κ)) : List Str :=
  (rows.filterMap Row.jid).filter fun j =>
    decide (j ≠ [] ∧ j ∉ [lit "-", lit "nan", lit "None"])

/-- The jids `_invalidate_jid_caches` collects; a mapping meant for the ORM arm was
turned into a frame before. -/
def Payload.invalidationJids (p : Payload κ) (copyHost : Bool) : List Str :=
  (match p.stats with
    | .frame rows => frameJids rows
    | .mapping rows => if copyHost then mappingJids rows else frameJids rows
    | .copyBytes _ _ => []) ++ frameJids p.procStats

def invalidateJidCaches (jids : List Str) (cacheRaises : Bool) : List Str :=
  if cacheRaises then [] else jids

def ingestOkFromHostWritePath : Option Bool → Bool
  | none => true
  | some individualNeedArchival => individualNeedArchival

/-- The rows the row-by-row path reads from `stats`; COPY bodies have no `time` column. -/
def Stats.individualRows : Stats κ → List (Row κ)
  | .frame rows => rows
  | .mapping rows => rows
  | .copyBytes _ _ => []

def bulkWrite (reconnect : BulkFault) (fault : Nat → BulkFault) (step : Nat) (rows : List (Row κ))
    (db : Finset κ) : Finset κ × BulkFault :=
  match reconnect with
  | .none => writeBatches fault (slices step rows) db
  | met => (db, met)

def writeInsert (p : Payload κ) (faults : Faults) (db : Database κ) :
    Except WriteError (Written κ) :=
  match faults.reconnect with
  | .none =>
    let proc := insertRowsIndividually true faults.procRow false p.procStats db.proc
    let host := insertRowsIndividually false faults.hostRow false p.stats.individualRows db.host
    .ok ⟨decide (host.nonIntegrityErrors = 0), true, ⟨host.db, proc.db⟩, []⟩
  | _ => .error .reconnectFailed

def writeCopyBytes (hostCopy procCopy : List (Row κ)) (settings : Settings) (faults : Faults)
    (db : Database κ) : Except WriteError (Written κ) :=
  match bulkWrite faults.reconnect faults.hostBatch settings.sliceRows hostCopy db.host with
  | (_, .unavailable) => .error .databaseUnavailable
  | (_, .error) => .error .codonCopyFailed
  | (host, .none) =>
    match writeBatches faults.procBatch (slices settings.sliceRows procCopy) db.proc with
    | (_, .unavailable) => .error .databaseUnavailable
    | (_, .error) => .error .codonCopyFailed
    | (proc, .none) => .ok ⟨settings.needArchival, true, ⟨host, proc⟩, []⟩

def writeHost (rows : List (Row κ)) (settings : Settings) (faults : Faults) (db : Finset κ) :
    Except WriteError (Finset κ × Option Bool) :=
  match writeBatches faults.hostBatch (slices settings.sliceRows rows) db with
  | (host, .none) => .ok (host, none)
  | (_, .unavailable) => .error .databaseUnavailable
  | (host, .error) =>
    let loop := insertRowsIndividually false faults.hostRow false rows host
    .ok (loop.db, some (decide (loop.nonIntegrityErrors = 0)))

def writeProc (rows : List (Row κ)) (settings : Settings) (faults : Faults) (db : Finset κ) :
    Except WriteError (Finset κ) :=
  match bulkWrite faults.reconnect faults.procBatch settings.sliceRows rows db with
  | (proc, .none) => .ok proc
  | (_, .unavailable) => .error .databaseUnavailable
  | (proc, .error) => .ok (insertRowsIndividually true faults.procRow false rows proc).db

def writeFrames (p : Payload κ) (settings : Settings) (faults : Faults) (db : Database κ) :
    Except WriteError (Written κ) := do
  let proc ← writeProc p.procStats settings faults db.proc
  let (host, individual) ← writeHost p.hostRows settings faults db.host
  let dirty := invalidateJidCaches (p.invalidationJids settings.copyHost) faults.cacheRaises
  return ⟨individual.getD settings.needArchival, ingestOkFromHostWritePath individual,
    ⟨host, proc⟩, dirty⟩

def writeStatsPayloadToDb (p : Payload κ) (settings : Settings) (faults : Faults)
    (db : Database κ) : Except WriteError (Written κ) :=
  if settings.emit = lit "insert" then writeInsert p faults db
  else
    match p.stats with
    | .copyBytes hostCopy procCopy => writeCopyBytes hostCopy procCopy settings faults db
    | _ => writeFrames p settings faults db

end PerfStats.Ingest
