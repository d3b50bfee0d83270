import PerfStats.Feed.HeadReaders

namespace PerfStats.Feed

open Lib Text

section Resolve

variable [Interpreter]

/-- What start resolution reads besides the lines, which are given or read from the file. -/
structure StartWorld where
  given : Bool
  stored : Str → Int → Bool
  overflows : Str → Int → Bool
  liveOn : Bool
  large : Bool
  tailWindowLines : Int

inductive StartAnswer where
  | quarantine
  | ingestFrom (index : Nat)
  | dbSkip
deriving DecidableEq

def shiftSecond (second delta : Int) : Except ParseError Int :=
  if -62135596800 ≤ second + delta ∧ second + delta < 253402300800 then .ok (second + delta)
  else .error .overflowError

section Scans

variable (present : Int → Except ParseError Bool)

/-- `_timestamp_present_for_duplicate` of a line; `none` when the scan passes the line by. -/
def linePresent (line : Str) : Except ParseError (Option Bool) :=
  if isDigitLine line then do
    match ← digitLineUnixSecond (lstrip line) with
    | none => return none
    | some second => return some (← present second)
  else .ok none

/-- `find_processing_start_index` and its streaming form; `none` stands for `-1`. -/
def findStartProbing : Nat → Nat → List Str → Except ParseError (Option Nat)
  | _, _, [] => .ok none
  | i, last, line :: rest => do
      match ← linePresent present line with
      | none => findStartProbing (i + 1) last rest
      | some true => findStartProbing (i + 1) i rest
      | some false => return some last

/-- The loop of `tail_window_timestamps_all_present_streaming`. -/
def tailAllPresent : List Str → Except ParseError Bool
  | [] => .ok true
  | line :: rest => do
      match ← linePresent present line with
      | some false => return false
      | _ => tailAllPresent rest

def Shielded (lines : List Str) : Prop :=
  ∀ before line after, lines = before ++ line :: after →
    (∃ err, linePresent present line = .error err) →
      ∃ earlier ∈ before, linePresent present earlier = .ok (some false)

end Scans

namespace StartWorld

variable (w : StartWorld)

/-- `head_timestamp_present_in_db` and `host_timestamp_second_present_in_db`. -/
def secondPresent (host : Str) (second : Int) : Except ParseError Bool := do
  let low ← fromTimestamp second
  let _ ← shiftSecond low 1
  return w.stored host second

def windowProbe (host : Str) (head second : Int) : Except ParseError Bool :=
  if w.overflows host head then w.secondPresent host second
  else .ok (decide (head - 172800 ≤ second ∧ second < head + 259200) && w.stored host second)

def window (head : Int) : Except ParseError Unit := do
  let _ ← shiftSecond head (-172800)
  let _ ← shiftSecond head 259200

def linesRead (lines : List Str) : List Str := if w.given then lines else lines.map asciiLine

def tryDbCompleteHeadTailFastPath (host : Str) (lines : List Str) : Except ParseError Bool :=
  if w.liveOn then .ok false
  else
    match parseLastTimestampLine isDigit lines with
    | none => .ok false
    | some (t, _, tailHost) => do
        let tailUnix ← wholeSecond t
        let _ ← fromTimestamp tailUnix
        w.secondPresent (strip (if tailHost = [] then host else tailHost)) tailUnix

/-- `_collect_tail_timestamp_lines`. -/
def tailLines (lines : List Str) : List Str :=
  (lines.filter isDigitLine).reverse.take w.tailWindowLines.toNat

def tryDbCompleteTailWindowFastPath (host : Str) (head : Int) (lines : List Str) :
    Except ParseError Bool :=
  if w.liveOn || !w.large then .ok false
  else do
    window head
    if w.tailLines lines = [] then return false
    tailAllPresent (w.windowProbe host head) (w.tailLines lines)

def duplicateWindowStartIndex (host : Str) (head : Int) (lines : List Str) :
    Except ParseError (Option Nat) := do
  window head
  findStartProbing (w.windowProbe host head) 0 0 (w.linesRead lines)

def resolveStored (host : Str) (head : Int) (lines : List Str) : Except ParseError StartAnswer := do
  if ← w.tryDbCompleteHeadTailFastPath host lines then return .dbSkip
  if ← w.tryDbCompleteTailWindowFastPath host head lines then return .dbSkip
  match ← w.duplicateWindowStartIndex host head lines with
  | none => return .dbSkip
  | some index => return .ingestFrom index

def resolveStreamingIngestStart (lines : List Str) : Except ParseError StartAnswer :=
  match parseFirstTimestampLine (w.linesRead lines) with
  | none => .ok .quarantine
  | some (t, _, host) =>
    if host = [] then .ok .quarantine
    else do
      let host := strip host
      let head ← fromTimestamp (← wholeSecond t)
      if ← w.secondPresent host head then w.resolveStored host head lines
      else return .ingestFrom 0

def Dated (t : Str) (second : Int) : Prop :=
  wholeSecond t = .ok second ∧ -62135596800 ≤ second ∧ second < 253402300799

def TailStored (host : Str) (lines : List Str) : Prop :=
  w.liveOn = false ∧ ∃ t jid tailHost second,
    parseLastTimestampLine isDigit lines = some (t, jid, tailHost) ∧ Dated t second ∧
      w.stored (strip (if tailHost = [] then host else tailHost)) second = true

def WindowStored (host : Str) (head : Int) (lines : List Str) : Prop :=
  w.liveOn = false ∧ w.large = true ∧ w.tailLines lines ≠ [] ∧
    ∀ line ∈ w.tailLines lines, linePresent (w.windowProbe host head) line ≠ .ok (some false)

structure CalmScans (host : Str) (head : Int) (lines : List Str) : Prop where
  low : -62135596800 ≤ head - 172800
  high : head + 259200 < 253402300800
  tail : w.liveOn = false → w.large = true →
    Shielded (w.windowProbe host head) (w.tailLines lines)
  all : w.WindowStored host head lines ∨ Shielded (w.windowProbe host head) (w.linesRead lines)

def SoundStart (lines : List Str) : Prop :=
  ∀ t jid host, parseFirstTimestampLine (w.linesRead lines) = some (t, jid, host) →
    ∃ head, Dated t head ∧ (w.stored host head = true →
      (w.liveOn = false → ∀ t jid tailHost,
        parseLastTimestampLine isDigit lines = some (t, jid, tailHost) →
          ∃ second, Dated t second) ∧
      (w.TailStored host lines ∨ w.CalmScans host head lines))

end StartWorld

section Returns

variable {present : Int → Except ParseError Bool} {line : Str} {rest lines : List Str}

def Returns {α : Type} (x : Except ParseError α) : Prop := ∃ a, x = .ok a

omit [Interpreter] in
theorem returns_bind {α β : Type} {x : Except ParseError α} {f : α → Except ParseError β} :
    Returns (x >>= f) ↔ ∃ a, x = .ok a ∧ Returns (f a) := by
  cases x with
  | error err => simp [Returns, bind, Except.bind]
  | ok a => simp [bind, Except.bind]

omit [Interpreter] in
theorem returns_ok {α : Type} (a : α) : Returns (.ok a) := ⟨a, rfl⟩

theorem shielded_nil : Shielded present [] := by
  intro before line after split
  simp at split

theorem shielded_cons {answer : Option Bool} (read : linePresent present line = .ok answer) :
    Shielded present (line :: rest) ↔ answer = some false ∨ Shielded present rest := by
  constructor
  · intro shielded
    rw [or_iff_not_imp_left]
    intro there before other after split raises
    obtain ⟨earlier, member, absent⟩ := shielded (line :: before) other after
      (by rw [split]; rfl) raises
    rcases List.mem_cons.mp member with rfl | inside
    · exact absurd (Except.ok.inj (read.symm.trans absent)) there
    · exact ⟨earlier, inside, absent⟩
  · rintro cases_ before other after split ⟨err, raises⟩
    cases before with
    | nil =>
      obtain ⟨rfl, -⟩ := List.cons.inj split
      rw [read] at raises
      cases raises
    | cons first before =>
      obtain ⟨rfl, tail⟩ := List.cons.inj split
      rcases cases_ with rfl | shielded
      · exact ⟨line, .head _, read⟩
      · obtain ⟨earlier, inside, absent⟩ := shielded before other after tail ⟨err, raises⟩
        exact ⟨earlier, .tail _ inside, absent⟩

theorem not_shielded {err : ParseError} (raises : linePresent present line = .error err) :
    ¬Shielded present (line :: rest) := by
  intro shielded
  obtain ⟨earlier, member, -⟩ := shielded [] line rest rfl ⟨err, raises⟩
  cases member

theorem findStart_returns (i last : Nat) :
    Returns (findStartProbing present i last lines) ↔ Shielded present lines := by
  induction lines generalizing i last with
  | nil => exact iff_of_true ⟨_, rfl⟩ shielded_nil
  | cons line rest ih =>
    rw [findStartProbing, returns_bind]
    cases read : linePresent present line with
    | error err => simp [not_shielded read]
    | ok answer =>
      rw [shielded_cons read]
      rcases answer with _ | _ | _
      · simpa using ih (i + 1) last
      · simp [Returns, pure, Except.pure]
      · simpa using ih (i + 1) i

theorem tailAll_returns : Returns (tailAllPresent present lines) ↔ Shielded present lines := by
  induction lines with
  | nil => exact iff_of_true ⟨_, rfl⟩ shielded_nil
  | cons line rest ih =>
    rw [tailAllPresent, returns_bind]
    cases read : linePresent present line with
    | error err => simp [not_shielded read]
    | ok answer =>
      rw [shielded_cons read]
      rcases answer with _ | _ | _
      · simpa using ih
      · simp [Returns, pure, Except.pure]
      · simpa using ih

theorem tailAll_true {answer : Bool} (done : tailAllPresent present lines = .ok answer) :
    answer = true ↔ ∀ line ∈ lines, linePresent present line ≠ .ok (some false) := by
  induction lines with
  | nil => simp [← Except.ok.inj done]
  | cons line rest ih =>
    rw [tailAllPresent] at done
    cases read : linePresent present line with
    | error err => simp [read, bind, Except.bind] at done
    | ok found =>
      rw [read] at done
      rcases found with _ | _ | _
      · simpa [read] using ih done
      · simp [← Except.ok.inj done, read]
      · simpa [read] using ih done

end Returns

namespace StartWorld

variable {w : StartWorld} {t host : Str} {head : Int} {lines : List Str}

theorem dated_ok (dated : Dated t head) : wholeSecond t = .ok head ∧
    fromTimestamp head = .ok head ∧ w.secondPresent host head = .ok (w.stored host head) := by
  obtain ⟨read, low, high⟩ := dated
  have date : fromTimestamp head = .ok head := if_pos ⟨low, by omega⟩
  have next : shiftSecond head 1 = .ok (head + 1) := if_pos ⟨by omega, by omega⟩
  exact ⟨read, date, by rw [secondPresent, date]; simp [bind, Except.bind, next, pure, Except.pure]⟩

omit [Interpreter] in
theorem fromTimestamp_eq {second date : Int} (found : fromTimestamp second = .ok date) :
    date = second ∧ -62135596800 ≤ second ∧ second < 253402300800 := by
  unfold fromTimestamp at found
  split at found
  · next range => exact ⟨(Except.ok.inj found).symm, range⟩
  · split at found <;> cases found

omit [Interpreter] in
theorem shiftSecond_returns {second delta : Int} : Returns (shiftSecond second delta) ↔
    -62135596800 ≤ second + delta ∧ second + delta < 253402300800 := by
  unfold shiftSecond
  split
  · next range => exact iff_of_true ⟨_, rfl⟩ range
  · next range => exact iff_of_false (fun ⟨_, found⟩ => by cases found) range

theorem dated_of_probe {second date : Int} (read : wholeSecond t = .ok second)
    (found : fromTimestamp second = .ok date) (probed : Returns (w.secondPresent host date)) :
    date = second ∧ Dated t second := by
  obtain ⟨rfl, low, -⟩ := fromTimestamp_eq found
  rw [secondPresent, returns_bind] at probed
  obtain ⟨_, same, rest⟩ := probed
  obtain ⟨rfl, -, -⟩ := fromTimestamp_eq same
  obtain ⟨_, next, -⟩ := returns_bind.mp rest
  have late := (shiftSecond_returns.mp ⟨_, next⟩).2
  exact ⟨rfl, read, low, by omega⟩

theorem headTail_returns : Returns (w.tryDbCompleteHeadTailFastPath host lines) ↔
    (w.liveOn = false → ∀ t jid tailHost,
      parseLastTimestampLine isDigit lines = some (t, jid, tailHost) →
        ∃ second, Dated t second) := by
  unfold tryDbCompleteHeadTailFastPath
  cases live : w.liveOn with
  | true => simp [returns_ok]
  | false =>
    rcases last : parseLastTimestampLine isDigit lines with _ | ⟨t, jid, tailHost⟩
    · simp [returns_ok]
    · simp only [Bool.false_eq_true, if_false, returns_bind, true_imp_iff, Option.some.injEq,
        Prod.mk.injEq]
      constructor
      · rintro ⟨second, read, date, found, probed⟩ _ _ _ ⟨rfl, -, -⟩
        have same := (fromTimestamp_eq found).1
        exact ⟨second, (dated_of_probe read found (same ▸ probed)).2⟩
      · intro dates
        obtain ⟨second, dated⟩ := dates t jid tailHost ⟨rfl, rfl, rfl⟩
        obtain ⟨read, found, probed⟩ := @dated_ok _ w t (strip
          (if tailHost = [] then host else tailHost)) second dated
        exact ⟨second, read, second, found, _, probed⟩

theorem headTail_true {answer : Bool}
    (done : w.tryDbCompleteHeadTailFastPath host lines = .ok answer) :
    answer = true ↔ w.TailStored host lines := by
  unfold tryDbCompleteHeadTailFastPath at done
  unfold TailStored
  cases live : w.liveOn with
  | true =>
    rw [live] at done
    simp [← Except.ok.inj done]
  | false =>
    rw [live] at done
    rcases last : parseLastTimestampLine isDigit lines with _ | ⟨t, jid, tailHost⟩
    · rw [last] at done
      simp [← Except.ok.inj done]
    · rw [last] at done
      have back : Returns _ := ⟨_, done⟩
      simp only [Bool.false_eq_true, if_false, returns_bind] at back
      obtain ⟨second, read, date, found, probed⟩ := back
      have same := (fromTimestamp_eq found).1
      have dated := (dated_of_probe read found (same ▸ probed)).2
      obtain ⟨-, -, looked⟩ := @dated_ok _ w t (strip
        (if tailHost = [] then host else tailHost)) second dated
      simp only [Bool.false_eq_true, if_false, read, found, looked, bind, Except.bind] at done
      rw [← Except.ok.inj done]
      constructor
      · intro stored
        exact ⟨rfl, t, jid, tailHost, second, rfl, dated, stored⟩
      · rintro ⟨-, _, _, _, other, same, ⟨again, -⟩, stored⟩
        obtain ⟨rfl, rfl, rfl⟩ := same
        cases read.symm.trans again
        exact stored

theorem window_returns (dated : Dated t head) : Returns (window head) ↔
    -62135596800 ≤ head - 172800 ∧ head + 259200 < 253402300800 := by
  obtain ⟨-, low, high⟩ := dated
  have range : Returns (window head) ↔
      Returns (shiftSecond head (-172800)) ∧ Returns (shiftSecond head 259200) := by
    simp only [window, returns_bind]
    constructor
    · rintro ⟨a, first, b, second, -⟩
      exact ⟨⟨a, first⟩, b, second⟩
    · rintro ⟨⟨a, first⟩, b, second⟩
      exact ⟨a, first, b, second, returns_ok ()⟩
  rw [range, shiftSecond_returns, shiftSecond_returns]
  omega

theorem duplicate_returns : Returns (w.duplicateWindowStartIndex host head lines) ↔
    Returns (window head) ∧ Shielded (w.windowProbe host head) (w.linesRead lines) := by
  rw [duplicateWindowStartIndex, returns_bind]
  simp only [findStart_returns]
  exact exists_and_right

theorem tailWindow_returns : Returns (w.tryDbCompleteTailWindowFastPath host head lines) ↔
    (w.liveOn = false → w.large = true →
      Returns (window head) ∧ Shielded (w.windowProbe host head) (w.tailLines lines)) := by
  unfold tryDbCompleteTailWindowFastPath
  by_cases used : w.liveOn = false ∧ w.large = true
  · simp only [used.1, used.2, Bool.not_true, Bool.or_self, Bool.false_eq_true, if_false,
      returns_bind, true_imp_iff]
    by_cases empty : w.tailLines lines = []
    · simp only [empty, if_true, shielded_nil, and_true]
      exact exists_congr fun _ => and_iff_left ⟨_, rfl⟩
    · simp only [empty, if_false]
      exact (exists_congr fun _ => and_congr_right fun _ => tailAll_returns).trans exists_and_right
  · have unused : (w.liveOn || !w.large) = true := by
      cases live : w.liveOn <;> cases large : w.large <;> simp_all
    rw [if_pos unused]
    exact iff_of_true ⟨_, rfl⟩ fun live large => absurd ⟨live, large⟩ used

theorem tailWindow_true {answer : Bool}
    (done : w.tryDbCompleteTailWindowFastPath host head lines = .ok answer) :
    answer = true ↔ w.WindowStored host head lines := by
  unfold tryDbCompleteTailWindowFastPath at done
  unfold WindowStored
  split at done
  · next unused =>
    rw [← Except.ok.inj done]
    rcases Bool.or_eq_true_iff.mp unused with live | small
    · simp [live]
    · simp [(Bool.not_eq_true' _).mp small]
  · next used =>
    simp only [Bool.or_eq_true, Bool.not_eq_true', not_or, Bool.not_eq_true,
      Bool.not_eq_false] at used
    obtain ⟨_, opened, -⟩ := returns_bind.mp ⟨answer, done⟩
    rw [opened] at done
    by_cases empty : w.tailLines lines = []
    · simp only [empty, if_true] at done
      simp [← Except.ok.inj done, empty]
    · simp only [empty, if_false] at done
      simpa [used.1, used.2, empty] using tailAll_true done

theorem resolveStored_returns (dated : Dated t head) :
    Returns (w.resolveStored host head lines) ↔
      (w.liveOn = false → ∀ t jid tailHost,
        parseLastTimestampLine isDigit lines = some (t, jid, tailHost) →
          ∃ second, Dated t second) ∧
      (w.TailStored host lines ∨ w.CalmScans host head lines) := by
  rw [resolveStored, returns_bind, ← @headTail_returns _ w host lines]
  constructor
  · rintro ⟨stored, tail, rest⟩
    refine ⟨⟨stored, tail⟩, ?_⟩
    cases stored with
    | true => exact .inl ((headTail_true tail).mp rfl)
    | false =>
      obtain ⟨all, window, rest⟩ := returns_bind.mp rest
      have calm := tailWindow_returns.mp ⟨all, window⟩
      cases all with
      | true =>
        have stored := (tailWindow_true window).mp rfl
        obtain ⟨low, high⟩ := (window_returns dated).mp (calm stored.1 stored.2.1).1
        exact .inr ⟨low, high, fun live large => (calm live large).2, .inl stored⟩
      | false =>
        obtain ⟨start, scan, -⟩ := returns_bind.mp rest
        obtain ⟨opened, shielded⟩ := duplicate_returns.mp ⟨start, scan⟩
        obtain ⟨low, high⟩ := (window_returns dated).mp opened
        exact .inr ⟨low, high, fun live large => (calm live large).2, .inr shielded⟩
  · rintro ⟨⟨stored, tail⟩, either⟩
    refine ⟨stored, tail, ?_⟩
    cases stored with
    | true => exact returns_ok _
    | false =>
      have calm := either.resolve_left fun stored =>
        Bool.false_ne_true ((headTail_true tail).mpr stored)
      have opened := (window_returns dated).mpr ⟨calm.low, calm.high⟩
      obtain ⟨all, window⟩ := (@tailWindow_returns _ w host head lines).mpr fun live large =>
        ⟨opened, calm.tail live large⟩
      refine returns_bind.mpr ⟨all, window, ?_⟩
      cases all with
      | true => exact returns_ok _
      | false =>
        have shielded := calm.all.resolve_left fun stored =>
          Bool.false_ne_true ((tailWindow_true window).mpr stored)
        obtain ⟨start, scan⟩ := duplicate_returns.mpr ⟨opened, shielded⟩
        refine returns_bind.mpr ⟨start, scan, ?_⟩
        cases start <;> exact returns_ok _

end StartWorld

end Resolve

example : ∀ line ∈ [lit "² 3 n1", lit "253402300799.99999 3 n1"],
    @StartWorld.resolveStreamingIngestStart latin
      ⟨true, fun _ _ => false, fun _ _ => false, false, false, 0⟩ [line] = .error .valueError := by
  decide +kernel

end PerfStats.Feed
