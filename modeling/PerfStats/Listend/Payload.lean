import PerfStats.Num

namespace PerfStats.Listend

open Text

def splitAtMost (sep : Char) : Nat → Str → List Str
  | 0, s => [s]
  | count + 1, s =>
    match s.dropWhile (· ≠ sep) with
    | [] => [s]
    | _ :: rest => s.takeWhile (· ≠ sep) :: splitAtMost sep count rest

def archiveHintPeekBytes : Nat := 4096

def minPlausibleUnixSeconds : Int := 1000000000

def plausibleUnixSecondsToken (token : Str) : Except Unit (Option Int) :=
  match Num.parse token with
  | none | some .nan => .ok none
  | some .inf | some .ninf => .error ()
  | some (.fin q) => .ok (if truncate q < minPlausibleUnixSeconds then none else some (truncate q))

def leadingToken (line : Str) : Str := (split line).headD []

def firstPlausible : List Str → Except Unit (Option Int)
  | [] => .ok none
  | line :: rest =>
    if ((lstrip line).head?.map isDigit).getD false then do
      match ← plausibleUnixSecondsToken (leadingToken (lstrip line)) with
      | some second => return some second
      | none => firstPlausible rest
    else firstPlausible rest

def isHintBlank (c : Char) : Bool :=
  c = ' ' || c = '\t' || c = '\n' || c = '\r' || c.toNat == 11 || c.toNat == 12

def readHint (lines : Str → List Str) (payload : Str) : Except Unit (Bool × Option Int) :=
  match payload.dropWhile isHintBlank with
  | [] => .ok (false, none)
  | c :: rest =>
    if c = '$' then (firstPlausible (lines (c :: rest)).tail).map fun second => (true, second)
    else (plausibleUnixSecondsToken (leadingToken ((lines (c :: rest)).headD []))).map
      fun second => (false, second)

def peekMonitorDollarAndUnixSecond (message : Str) : Except Unit (Bool × Option Int) :=
  readHint (splitAtMost '\n' 16) (message.take archiveHintPeekBytes)

def sampleSecond (message : Str) : Option Int :=
  match readHint (splitOn '\n') message with
  | .ok (_, second) => second
  | .error _ => none

/-- `none` is its `ValueError`. -/
def parseHostFromMonitorPayload (message : Str) : Option Str :=
  match message.dropWhile isHintBlank with
  | [] => none
  | c :: rest =>
    let lines := splitAtMost '\n' 2 (c :: rest)
    if c = '$' then if lines.length < 2 then none else (split (lines.getD 1 []))[1]?
    else (split (lines.headD []))[2]?

def getFirstTimestampSeconds (text : Str) : Option Int :=
  match firstPlausible (splitOn '\n' (replaceChar '\r' '\n' text)) with
  | .ok second => second
  | .error _ => none

end PerfStats.Listend
