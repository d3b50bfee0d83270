import PerfStats.Num

/-! Band-encoded ingest scores of the job store. A score below
`catchupScoreBase` is hot; above it the calendar day is the stride index. -/

namespace PerfStats.JobStore

inductive Kind where
  | discover
  | ingest
  | append
  | dayClose
  deriving DecidableEq, Repr

/-- `JOB_KINDS_LIST`: every kind but ingest is a FIFO list. -/
def Kind.isList (kind : Kind) : Bool := decide (kind ≠ .ingest)

inductive Band where
  | hot
  | catchup
  deriving DecidableEq, Repr

def catchupScoreBase : Int := 10 ^ 15

def scoreStride : Int := 10 ^ 6

def ingestPenaltyStep : Int := scoreStride / 4

def decodeIngestBand (score : ℚ) : Band :=
  if score < catchupScoreBase then .hot else .catchup

def lastOrdinal : Int := 3652059

def decodeCatchupCalendarDay (score : ℚ) : Option Int :=
  match decodeIngestBand score with
  | .hot => none
  | .catchup =>
    let ordinal := ⌊(score - catchupScoreBase) / scoreStride⌋
    if 1 ≤ ordinal ∧ ordinal ≤ lastOrdinal then some ordinal else none

def penalizeIngestScore (score : Option ℚ) : ℚ :=
  let value := match score with
    | none => catchupScoreBase
    | some s => truncate s
  let lastInDay := value - value % scoreStride + scoreStride - 1
  ((min (value + ingestPenaltyStep) lastInDay : Int) : ℚ)

/-- The window of a ranged claim; `none` is an infinite bound. -/
structure ScoreRange where
  lo : Option ℚ
  hi : Option ℚ
  deriving DecidableEq, Repr

def ScoreRange.holds (range : ScoreRange) (score : ℚ) : Bool :=
  (range.lo.all fun lo => decide (lo ≤ score)) && (range.hi.all fun hi => decide (score ≤ hi))

inductive StoreError where
  | ownerTokenRequired
  | maxNTooSmall
  | unknownBand (band : Str)
  | notAListKind (kind : Kind)
  deriving DecidableEq, Repr

def ingestScoreRange (band : Str) : Except StoreError ScoreRange :=
  let text := Text.lower (Text.strip band)
  if text = lit "hot" then .ok ⟨none, some (catchupScoreBase - 1)⟩
  else if text = lit "catchup" then .ok ⟨some catchupScoreBase, none⟩
  else .error (.unknownBand band)

structure LeaseOwner where
  nonce : Str
  hostname : Str
  bootId : Str
  pid : Option Int
  deriving DecidableEq, Repr

def parseLeaseOwner (ownerToken : Str) : LeaseOwner :=
  let parts := Text.splitOn ':' ownerToken
  let pid := if 2 ≤ parts.length then parts.getLast?.bind Text.parseInt else none
  if 4 ≤ parts.length then
    ⟨parts.headD [], parts.getD (parts.length - 3) [], parts.getD (parts.length - 2) [], pid⟩
  else ⟨parts.headD [], [], [], pid⟩

/-- Host and boot names are stored with `:` and `|` replaced by `_`. -/
def tokenField (s : Str) : Str := Text.replaceChar '|' '_' (Text.replaceChar ':' '_' s)

def leaseOwnerIsLocallyEvaluable (owner : LeaseOwner) (hostname bootId : Str) : Bool :=
  owner.hostname ≠ [] ∧ owner.bootId ≠ [] ∧ owner.hostname = tokenField hostname ∧
    owner.bootId = tokenField bootId

end PerfStats.JobStore
