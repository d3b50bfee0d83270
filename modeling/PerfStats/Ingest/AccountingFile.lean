import PerfStats.Archive.SidecarLock
import PerfStats.Feed.LiveSamples

namespace PerfStats.Ingest

open Lib Archive Function

section Text

def universalNewlines : Str → Str
  | [] => []
  | '\r' :: '\n' :: rest => '\n' :: universalNewlines rest
  | c :: rest => (if c = '\r' then '\n' else c) :: universalNewlines rest

def encodeText (content : Str) : Utf8.Bytes := content.flatMap String.utf8EncodeChar

def readText (bytes : Utf8.Bytes) : Str := universalNewlines (Utf8.decode bytes)

def countAccountingContentLines (content : Str) : Nat := (Feed.splitlines content).length

def hasJobRows (content : Str) : Bool :=
  decide (2 ≤ ((Feed.splitlines content).filter fun line => !(Text.strip line).isEmpty).length)

theorem splitlines_break {c : Char} (breaks : Feed.isLineBreak c = true) (rest : Str)
    (single : c ≠ '\r' ∨ rest.head? ≠ some '\n') :
    Feed.splitlines (c :: rest) = [] :: Feed.splitlines rest := by
  rw [Feed.splitlines, if_pos breaks]
  intro _ first second
  subst first second
  simp at single

theorem splitlines_universal (content : Str) :
    Feed.splitlines (universalNewlines content) = Feed.splitlines content := by
  have newline : ∀ rest, Feed.splitlines ('\n' :: rest) = [] :: Feed.splitlines rest :=
    fun rest => splitlines_break (by decide) rest (.inl (by decide))
  induction content using universalNewlines.induct with
  | case1 => rfl
  | case2 rest ih => rw [universalNewlines, Feed.splitlines, newline, ih]
  | case3 c rest other ih =>
    rw [universalNewlines]
    · by_cases mac : c = '\r'
      · subst mac
        rw [if_pos rfl, newline, ih, splitlines_break (by decide) rest]
        right
        intro head
        cases rest with
        | nil => cases head
        | cons d rest => exact other rest rfl (congrArg (· :: rest) (Option.some.inj head))
      · rw [if_neg mac, Feed.splitlines, Feed.splitlines, ih]
        · exact fun _ same => absurd same mac
        · exact fun _ same => absurd same mac
    · exact other

theorem count_written (content : Str) :
    countAccountingContentLines (readText (encodeText content)) =
      countAccountingContentLines content := by
  unfold countAccountingContentLines readText encodeText
  rw [Utf8.decode_encode, splitlines_universal]

end Text

section Model

inductive ReadVerdict where
  | longEnough
  | shrinks
  | unread
deriving DecidableEq

/-- Where a call of `persist_accounting_daily_file` stands. -/
inductive DailyPlace where
  | idle
  | isFile
  | readLock
  | readUnlock (verdict : ReadVerdict)
  | makeDirs
  | writeLock
  | writeTmp (left : Utf8.Bytes)
  | replace
  | writeUnlock
deriving DecidableEq

/-- A process with its call: the body, how many were put in place when it checked the file, and
whether it has replaced the file. -/
structure DailyCall where
  content : Str
  place : DailyPlace
  seen : Nat
  replaced : Bool

/-- The daily file, the temporary one, the processes, and in order the bodies put in place and the
calls that raised `AccountingFileShrinkError`. -/
structure DailyWorld (ι : Type) where
  lock : LockWorld ι
  file : Option Utf8.Bytes
  tmp : Option Utf8.Bytes
  calls : ι → DailyCall
  placed : List Str
  shrunk : List DailyCall

/-- A process goes on, in the lock (`lock` has the inode of a new sidecar, if any) or in the body; a
write flushes some bytes. -/
inductive DailyTurn where
  | call (content : Str)
  | lock (fresh : Option Nat)
  | goes (flushed : Nat)
  | fails
  | dies

namespace DailyCall

def idle : DailyCall := ⟨[], .idle, 0, false⟩

def goto (call : DailyCall) (place : DailyPlace) : DailyCall := { call with place := place }

end DailyCall

variable {ι : Type} [Fintype ι] [DecidableEq ι]

def lockAct : Option Nat → LockTurn
  | some fresh => .goes fresh
  | none => .fails

namespace DailyWorld

def put (world : DailyWorld ι) (i : ι) (call : DailyCall) : DailyWorld ι :=
  { world with calls := update world.calls i call }

/-- `_read_accounting_file_line_count`, without the lock. -/
def lineCount (world : DailyWorld ι) : Nat :=
  world.file.elim 0 fun bytes => countAccountingContentLines (readText bytes)

def held (world : DailyWorld ι) (i : ι) (mode : LockMode) : Bool :=
  decide ((world.lock.clients i).place = .held ∧ (world.lock.clients i).goal = some mode)

def lockTurn (world : DailyWorld ι) (i : ι) (turn : LockTurn) : DailyWorld ι :=
  { world with lock := Archive.lockTurn world.lock i turn }

def acquire (world : DailyWorld ι) (i : ι) (fresh : Option Nat) : DailyWorld ι :=
  if (world.lock.clients i).place = .held then world
  else
    let after := world.lockTurn i (lockAct fresh)
    if (after.lock.clients i).place = .idle then after.put i .idle else after

def release (world : DailyWorld ι) (i : ι) (fresh : Option Nat) (next : DailyPlace) :
    DailyWorld ι :=
  let after := world.lockTurn i (lockAct fresh)
  if (after.lock.clients i).place = .idle then after.put i ((world.calls i).goto next) else after

end DailyWorld

def dailyStep (world : DailyWorld ι) (entry : ι × DailyTurn) : DailyWorld ι :=
  let i := entry.1
  let call := world.calls i
  match call.place, entry.2 with
  | _, .dies => (world.lockTurn i .dies).put i .idle
  | .idle, .call content =>
    if hasJobRows content then world.put i ⟨content, .isFile, 0, false⟩ else world
  | .isFile, .goes _ =>
    if world.file.isSome then
      (world.lockTurn i (.call (some .sh))).put i (call.goto .readLock)
    else world.put i { call with place := .makeDirs, seen := world.placed.length }
  | .readLock, .lock fresh => world.acquire i fresh
  | .readLock, .goes _ =>
    if world.held i .sh then
      if countAccountingContentLines call.content < world.lineCount then
        world.put i (call.goto (.readUnlock .shrinks))
      else world.put i
        { call with place := .readUnlock .longEnough, seen := world.placed.length }
    else world
  -- the file cannot be read
  | .readLock, .fails =>
    if world.held i .sh then world.put i (call.goto (.readUnlock .unread)) else world
  | .readUnlock verdict, .lock fresh =>
    let after := world.release i fresh (if verdict = .longEnough then .makeDirs else .idle)
    if verdict = .shrinks ∧ (after.calls i).place = .idle then
      { after with shrunk := after.shrunk ++ [call] }
    else after
  | .makeDirs, .goes _ => (world.lockTurn i (.call (some .ex))).put i (call.goto .writeLock)
  | .makeDirs, .fails => world.put i .idle
  | .writeLock, .lock fresh => world.acquire i fresh
  -- opening the temporary file empties it
  | .writeLock, .goes _ =>
    if world.held i .ex then
      { world with tmp := some [] }.put i (call.goto (.writeTmp (encodeText call.content)))
    else world
  | .writeLock, .fails => if world.held i .ex then world.put i (call.goto .writeUnlock) else world
  | .writeTmp left, .goes flushed =>
    { world with tmp := world.tmp.map (· ++ left.take flushed) }.put i
      (call.goto (if left.drop flushed = [] then .replace else .writeTmp (left.drop flushed)))
  | .writeTmp _, .fails => world.put i (call.goto .writeUnlock)
  | .replace, .goes _ =>
    match world.tmp with
    | some bytes =>
      { world with
        file := some bytes
        tmp := none
        placed := world.placed ++ [call.content] }.put i
          { call with place := .writeUnlock, replaced := true }
    | none => world.put i (call.goto .writeUnlock)
  | .replace, .fails => world.put i (call.goto .writeUnlock)
  | .writeUnlock, .lock fresh => world.release i fresh .idle
  | _, _ => world

def dailyStart (sidecar : Option Nat) (file tmp : Option Utf8.Bytes) : DailyWorld ι :=
  ⟨⟨sidecar, fun _ => .idle⟩, file, tmp, fun _ => .idle, [], []⟩

end Model

section Invariant

variable {ι : Type} [DecidableEq ι]

def fileAfter (file : Option Utf8.Bytes) (placed : List Str) : Option Utf8.Bytes :=
  placed.getLast?.elim file fun body => some (encodeText body)

def linesOf (file : Option Utf8.Bytes) : Nat :=
  file.elim 0 fun bytes => countAccountingContentLines (readText bytes)

namespace DailyPlace

def left? : DailyPlace → Option Utf8.Bytes
  | writeTmp left => some left
  | replace => some []
  | _ => none

def Checked : DailyPlace → Prop
  | readUnlock verdict => verdict = .longEnough
  | makeDirs | writeLock | writeTmp _ | replace => True
  | _ => False

def Before : DailyPlace → Prop
  | idle | writeUnlock => False
  | _ => True

end DailyPlace

def DailyCall.Passed (file : Option Utf8.Bytes) (placed : List Str) (call : DailyCall) : Prop :=
  call.seen ≤ placed.length ∧
    linesOf (fileAfter file (placed.take call.seen)) ≤ countAccountingContentLines call.content

structure DailyRight (file : Option Utf8.Bytes) (world : DailyWorld ι) : Prop where
  lock : LockRight world.lock
  writes : ∀ i left, (world.calls i).place.left? = some left → world.held i .ex = true ∧
    ∃ done, world.tmp = some done ∧ done ++ left = encodeText (world.calls i).content
  current : world.file = fileAfter file world.placed
  checked : ∀ i, (world.calls i).place.Checked → (world.calls i).Passed file world.placed
  before : ∀ i, (world.calls i).place.Before → (world.calls i).replaced = false
  shrunk : ∀ call ∈ world.shrunk, call.replaced = false

variable {file : Option Utf8.Bytes} {world : DailyWorld ι} {i : ι}

omit [DecidableEq ι] in
theorem lineCount_eq (world : DailyWorld ι) : world.lineCount = linesOf world.file := rfl

theorem linesOf_encoded (body : Str) :
    linesOf (some (encodeText body)) = countAccountingContentLines body := count_written body

theorem fileAfter_append (file : Option Utf8.Bytes) (placed : List Str) (body : Str) :
    fileAfter file (placed ++ [body]) = some (encodeText body) := by
  rw [fileAfter, List.getLast?_append]
  rfl

variable {call : DailyCall}

theorem DailyCall.Passed.later {placed : List Str}
    (passed : call.Passed file placed) (body : Str) : call.Passed file (placed ++ [body]) := by
  obtain ⟨seen, lines⟩ := passed
  refine ⟨by rw [List.length_append]; omega, ?_⟩
  rwa [List.take_append_of_le_length seen]

theorem DailyRight.moved (right : DailyRight file world) {lock : LockWorld ι}
    (lockRight : LockRight lock) (others : ∀ j, j ≠ i → lock.clients j = world.lock.clients j)
    (idle : call.place.left? = none) (checked : call.place.Checked → call.Passed file world.placed)
    (before : call.place.Before → call.replaced = false) :
    DailyRight file ({ world with lock := lock }.put i call) where
  lock := lockRight
  writes := by
    intro j left writing
    by_cases same : j = i
    · rw [same] at writing
      simp [DailyWorld.put, idle] at writing
    · simp only [DailyWorld.put, update_of_ne same] at writing ⊢
      obtain ⟨held, rest⟩ := right.writes j left writing
      refine ⟨?_, rest⟩
      unfold DailyWorld.held at held ⊢
      rwa [others j same]
  current := right.current
  checked := by
    intro j is
    by_cases same : j = i
    · rw [same] at is ⊢
      simp only [DailyWorld.put, update_self] at is ⊢
      exact checked is
    · simp only [DailyWorld.put, update_of_ne same] at is ⊢
      exact right.checked j is
  before := by
    intro j is
    by_cases same : j = i
    · rw [same] at is ⊢
      simp only [DailyWorld.put, update_self] at is ⊢
      exact before is
    · simp only [DailyWorld.put, update_of_ne same] at is ⊢
      exact right.before j is
  shrunk := right.shrunk

theorem DailyRight.goes (right : DailyRight file world)
    (idle : call.place.left? = none) (checked : call.place.Checked → call.Passed file world.placed)
    (before : call.place.Before → call.replaced = false) :
    DailyRight file (world.put i call) :=
  right.moved right.lock (fun _ _ => rfl) idle checked before

omit [DecidableEq ι] in
theorem held_holds {mode : LockMode} (held : world.held i mode = true) :
    (world.lock.clients i).Holds mode := by
  obtain ⟨place, goal⟩ := of_decide_eq_true held
  exact ⟨goal, by rw [place]; trivial⟩

omit [DecidableEq ι] in
theorem DailyRight.alone (right : DailyRight file world) (held : world.held i .ex = true) {j : ι}
    (other : j ≠ i) : (world.calls j).place.left? = none := by
  cases writing : (world.calls j).place.left? with
  | none => rfl
  | some left =>
    have second := held_holds (right.writes j left writing).1
    exact absurd second (right.lock.exclusive i j .ex (Ne.symm other) (held_holds held))

theorem DailyRight.wrote (right : DailyRight file world) (held : world.held i .ex = true)
    {done : Utf8.Bytes} (left : Utf8.Bytes) {place : DailyPlace} (goesOn : place.left? = some left)
    (whole : done ++ left = encodeText (world.calls i).content)
    (checked : (world.calls i).place.Checked) (before : (world.calls i).place.Before) :
    DailyRight file ({ world with tmp := some done }.put i ((world.calls i).goto place)) where
  lock := right.lock
  writes := by
    intro j rest writing
    by_cases same : j = i
    · rw [same] at writing ⊢
      simp only [DailyWorld.put, update_self, DailyCall.goto, goesOn,
        Option.some.injEq] at writing ⊢
      exact ⟨held, done, rfl, writing ▸ whole⟩
    · simp only [DailyWorld.put, update_of_ne same] at writing
      rw [right.alone held same] at writing
      cases writing
  current := right.current
  checked := by
    intro j is
    by_cases same : j = i
    · rw [same]
      simp only [DailyWorld.put, update_self]
      exact right.checked i checked
    · simp only [DailyWorld.put, update_of_ne same] at is ⊢
      exact right.checked j is
  before := by
    intro j is
    by_cases same : j = i
    · rw [same]
      simp only [DailyWorld.put, update_self]
      exact right.before i before
    · simp only [DailyWorld.put, update_of_ne same] at is ⊢
      exact right.before j is
  shrunk := right.shrunk

theorem DailyRight.replaces (right : DailyRight file world)
    (here : (world.calls i).place = .replace) :
    world.tmp = some (encodeText (world.calls i).content) ∧
    DailyRight file ({ world with
      file := some (encodeText (world.calls i).content)
      tmp := none
      placed := world.placed ++ [(world.calls i).content] }.put i
        { world.calls i with place := .writeUnlock, replaced := true }) := by
  obtain ⟨held, done, there, whole⟩ := right.writes i [] (by rw [here]; rfl)
  rw [List.append_nil] at whole
  refine ⟨whole ▸ there, ?_⟩
  constructor
  · exact right.lock
  · intro j left writing
    by_cases same : j = i
    · rw [same] at writing
      simp [DailyWorld.put, DailyPlace.left?] at writing
    · simp only [DailyWorld.put, update_of_ne same] at writing
      rw [right.alone held same] at writing
      cases writing
  · exact (fileAfter_append file world.placed _).symm
  · intro j is
    by_cases same : j = i
    · rw [same] at is
      simp [DailyWorld.put, DailyPlace.Checked] at is
    · simp only [DailyWorld.put, update_of_ne same] at is ⊢
      exact (right.checked j is).later _
  · intro j is
    by_cases same : j = i
    · rw [same] at is
      simp [DailyWorld.put, DailyPlace.Before] at is
    · simp only [DailyWorld.put, update_of_ne same] at is ⊢
      exact right.before j is
  · exact right.shrunk

variable [Fintype ι]

theorem DailyRight.locks (right : DailyRight file world) (i : ι) (turn : LockTurn)
    (idle : call.place.left? = none)
    (checked : call.place.Checked → call.Passed file world.placed)
    (before : call.place.Before → call.replaced = false) :
    DailyRight file ((world.lockTurn i turn).put i call) :=
  right.moved (lockTurn_right right.lock i turn) (fun _ other => lockTurn_other other turn) idle
    checked before

theorem DailyRight.locked (right : DailyRight file world) (i : ι) (turn : LockTurn)
    (idle : (world.calls i).place.left? = none) : DailyRight file (world.lockTurn i turn) := by
  have same := right.locks i turn idle (right.checked i) (right.before i)
  have self : (world.lockTurn i turn).put i (world.calls i) = world.lockTurn i turn := by
    have calls : (world.lockTurn i turn).calls = world.calls := rfl
    unfold DailyWorld.put
    rw [calls, update_eq_self]
    rfl
  rwa [self] at same

theorem DailyRight.acquired (right : DailyRight file world) (i : ι) (fresh : Option Nat)
    (idle : (world.calls i).place.left? = none) : DailyRight file (world.acquire i fresh) := by
  unfold DailyWorld.acquire
  dsimp only
  split
  · exact right
  split
  · exact right.locks i _ rfl False.elim False.elim
  · exact right.locked i _ idle

theorem DailyRight.released (right : DailyRight file world) (i : ι) (fresh : Option Nat)
    (next : DailyPlace) (idle : (world.calls i).place.left? = none) (quiet : next.left? = none)
    (checked : next.Checked → (world.calls i).place.Checked)
    (before : next.Before → (world.calls i).place.Before) :
    DailyRight file (world.release i fresh next) := by
  unfold DailyWorld.release
  dsimp only
  split
  · exact right.locks i _ quiet (fun is => right.checked i (checked is))
      fun is => right.before i (before is)
  · exact right.locked i _ idle

theorem dailyStep_right (right : DailyRight file world) (entry : ι × DailyTurn) :
    DailyRight file (dailyStep world entry) := by
  obtain ⟨i, turn⟩ := entry
  unfold dailyStep
  dsimp only
  split
  case h_1 => exact right.locks i .dies rfl False.elim False.elim
  case h_2 =>
    split
    · exact right.goes rfl False.elim fun _ => rfl
    · exact right
  case h_3 here =>
    have before := right.before i (by rw [here]; trivial)
    split
    · exact right.locks i _ rfl False.elim fun _ => before
    · next missing =>
        refine right.goes rfl (fun _ => ⟨le_rfl, ?_⟩) fun _ => before
        rw [List.take_length, ← right.current, Option.not_isSome_iff_eq_none.mp missing]
        exact Nat.zero_le _
  case h_4 here => exact right.acquired i _ (by rw [here]; rfl)
  case h_5 here =>
    have before := right.before i (by rw [here]; trivial)
    split
    · split
      · exact right.goes rfl (fun same => ReadVerdict.noConfusion same) fun _ => before
      · next long =>
          refine right.goes rfl (fun _ => ⟨le_rfl, ?_⟩) fun _ => before
          rw [List.take_length, ← right.current]
          exact Nat.not_lt.mp long
    · exact right
  case h_6 here =>
    split
    · exact right.goes rfl (fun same => ReadVerdict.noConfusion same)
        fun _ => right.before i (by rw [here]; trivial)
    · exact right
  case h_7 verdict fresh here =>
    have after := right.released i fresh (if verdict = .longEnough then .makeDirs else .idle)
      (by rw [here]; rfl) (by split <;> rfl) (by rw [here]; split <;> simp_all [DailyPlace.Checked])
      (by rw [here]; exact fun _ => trivial)
    generalize (if verdict = ReadVerdict.longEnough then DailyPlace.makeDirs else .idle) = next
      at after ⊢
    split
    · refine { after with shrunk := ?_ }
      intro call member
      rcases List.mem_append.mp member with old | own
      · exact after.shrunk call old
      · rw [List.mem_singleton.mp own]
        exact right.before i (by rw [here]; trivial)
    · exact after
  case h_8 here =>
    exact right.locks i _ rfl (fun _ => right.checked i (by rw [here]; trivial))
      fun _ => right.before i (by rw [here]; trivial)
  case h_9 => exact right.goes rfl False.elim False.elim
  case h_10 here => exact right.acquired i _ (by rw [here]; rfl)
  case h_11 here =>
    split
    · next held =>
        exact right.wrote held _ rfl (List.nil_append _) (by rw [here]; trivial)
          (by rw [here]; trivial)
    · exact right
  case h_12 here =>
    split
    · exact right.goes rfl False.elim False.elim
    · exact right
  case h_13 left flushed here =>
    obtain ⟨held, done, there, whole⟩ := right.writes i left (by rw [here]; rfl)
    rw [there]
    refine right.wrote held (left.drop flushed) ?_ ?_ (by rw [here]; trivial)
      (by rw [here]; trivial)
    · split
      · next empty => rw [empty]; rfl
      · rfl
    · rw [List.append_assoc, List.take_append_drop, whole]
  case h_14 => exact right.goes rfl False.elim False.elim
  case h_15 here =>
    obtain ⟨there, after⟩ := right.replaces here
    rw [there]
    exact after
  case h_16 => exact right.goes rfl False.elim False.elim
  case h_17 here => exact right.released i _ _ (by rw [here]; rfl) rfl False.elim False.elim
  case h_18 => exact right

end Invariant

section Growth

variable {ι : Type} [DecidableEq ι] [Fintype ι]

def dailyRun (world : DailyWorld ι) (turns : List (ι × DailyTurn)) : DailyWorld ι :=
  turns.foldl dailyStep world

def Grows (world : DailyWorld ι) (entry : ι × DailyTurn) : Prop :=
  world.lineCount ≤ (dailyStep world entry).lineCount

def Replaces (world : DailyWorld ι) : ι × DailyTurn → Prop
  | (i, .goes _) => (world.calls i).place = .replace
  | _ => False

instance (world : DailyWorld ι) : DecidablePred (Replaces world)
  | (i, .goes _) => inferInstanceAs (Decidable ((world.calls i).place = .replace))
  | (_, .call _) | (_, .lock _) | (_, .fails) | (_, .dies) => inferInstanceAs (Decidable False)

def NotOvertaken (world : DailyWorld ι) (entry : ι × DailyTurn) : Prop :=
  Replaces world entry → ∀ body ∈ world.placed.drop (world.calls entry.1).seen,
    countAccountingContentLines body ≤ countAccountingContentLines (world.calls entry.1).content

def Chain (file : Option Utf8.Bytes) (placed : List Str) : Prop :=
  ∀ a b, a ≤ b → b ≤ placed.length →
    linesOf (fileAfter file (placed.take a)) ≤ linesOf (fileAfter file (placed.take b))

variable {file : Option Utf8.Bytes} {world : DailyWorld ι} {entry : ι × DailyTurn}
  {placed : List Str}

omit [DecidableEq ι] [Fintype ι] in
theorem Chain.append {body : Str} (chain : Chain file placed)
    (long : linesOf (fileAfter file placed) ≤ countAccountingContentLines body) :
    Chain file (placed ++ [body]) := by
  intro a b le inside
  rw [List.length_append, List.length_singleton] at inside
  by_cases last : b = placed.length + 1
  · have whole : (placed ++ [body]).take b = placed ++ [body] := by
      apply List.take_of_length_le
      rw [List.length_append, List.length_singleton, last]
    rw [whole, fileAfter_append, linesOf_encoded]
    by_cases same : a = placed.length + 1
    · rw [show (placed ++ [body]).take a = placed ++ [body] by rw [same, ← last, whole],
        fileAfter_append, linesOf_encoded]
    · rw [List.take_append_of_le_length (by omega)]
      have early := chain a placed.length (by omega) le_rfl
      rw [List.take_length] at early
      exact early.trans long
  · rw [List.take_append_of_le_length (by omega), List.take_append_of_le_length (by omega)]
    exact chain a b le (by omega)

theorem quiet_step (quiet : ¬Replaces world entry) :
    (dailyStep world entry).file = world.file ∧
      (dailyStep world entry).placed = world.placed := by
  have acquired : ∀ i fresh, (world.acquire i fresh).file = world.file ∧
      (world.acquire i fresh).placed = world.placed := by
    intro i fresh
    unfold DailyWorld.acquire
    dsimp only
    split
    · exact ⟨rfl, rfl⟩
    · split <;> exact ⟨rfl, rfl⟩
  have released : ∀ i fresh next, (world.release i fresh next).file = world.file ∧
      (world.release i fresh next).placed = world.placed := by
    intro i fresh next
    unfold DailyWorld.release
    dsimp only
    split <;> exact ⟨rfl, rfl⟩
  obtain ⟨i, turn⟩ := entry
  unfold dailyStep
  dsimp only
  split
  case h_4 => exact acquired i _
  case h_10 => exact acquired i _
  case h_17 => exact released i _ _
  case h_7 verdict fresh _ =>
    have kept := released i fresh (if verdict = .longEnough then .makeDirs else .idle)
    generalize (if verdict = ReadVerdict.longEnough then DailyPlace.makeDirs else .idle) = next at kept ⊢
    split
    · exact kept
    · exact kept
  case h_15 here => exact absurd here quiet
  all_goals repeat' split
  all_goals exact ⟨rfl, rfl⟩

theorem replacing_step (right : DailyRight file world) (replaces : Replaces world entry) :
    (dailyStep world entry).lineCount =
        countAccountingContentLines (world.calls entry.1).content ∧
      (dailyStep world entry).placed = world.placed ++ [(world.calls entry.1).content] ∧
      (world.calls entry.1).Passed file world.placed := by
  obtain ⟨i, turn⟩ := entry
  cases turn with
  | goes flushed =>
    have here : (world.calls i).place = .replace := replaces
    have passed := right.checked i (by rw [here]; trivial)
    obtain ⟨there, -⟩ := right.replaces here
    unfold dailyStep
    simp only [here, there]
    exact ⟨linesOf_encoded _, rfl, passed⟩
  | call => exact replaces.elim
  | lock => exact replaces.elim
  | fails => exact replaces.elim
  | dies => exact replaces.elim

theorem grows_iff (right : DailyRight file world) (chain : Chain file world.placed) :
    Grows world entry ↔ NotOvertaken world entry := by
  by_cases replaces : Replaces world entry
  · obtain ⟨lines, -, seen, passed⟩ := replacing_step right replaces
    unfold Grows NotOvertaken
    rw [lines, lineCount_eq, right.current]
    constructor
    · intro grows _ body member
      obtain ⟨k, inside, rfl⟩ := List.getElem_of_mem member
      rw [List.length_drop] at inside
      have there := chain ((world.calls entry.1).seen + k + 1) world.placed.length (by omega) le_rfl
      rw [List.take_length, List.take_add_one, List.getElem?_eq_getElem (by omega),
        Option.toList_some, fileAfter_append, linesOf_encoded] at there
      rw [List.getElem_drop]
      exact there.trans grows
    · intro all
      rcases List.eq_nil_or_concat (world.placed.drop (world.calls entry.1).seen) with none | ⟨early, last, shape⟩
      · have whole : world.placed.take (world.calls entry.1).seen = world.placed :=
          List.take_of_length_le (List.drop_eq_nil_iff.mp none)
        rwa [whole] at passed
      · rw [List.concat_eq_append] at shape
        have split := List.take_append_drop (world.calls entry.1).seen world.placed
        rw [shape, ← List.append_assoc] at split
        rw [← split, fileAfter_append, linesOf_encoded]
        exact all replaces last (by rw [shape]; exact List.mem_append_right _ (.head _))
  · refine iff_of_true ?_ fun is => absurd is replaces
    unfold Grows
    rw [lineCount_eq, lineCount_eq, (quiet_step replaces).1]

theorem chain_kept (right : DailyRight file world) (chain : Chain file world.placed)
    (grows : Grows world entry) : Chain file (dailyStep world entry).placed := by
  by_cases replaces : Replaces world entry
  · obtain ⟨lines, placed, -⟩ := replacing_step right replaces
    rw [placed]
    refine chain.append ?_
    rw [← right.current, ← lineCount_eq, ← lines]
    exact grows
  · rw [(quiet_step replaces).2]
    exact chain

theorem dailyStart_right (sidecar : Option Nat) (file tmp : Option Utf8.Bytes) :
    DailyRight file (dailyStart sidecar file tmp : DailyWorld ι) where
  lock := lockRun_right sidecar []
  writes := by
    intro i left writing
    cases writing
  current := rfl
  checked := fun _ is => is.elim
  before := fun _ is => is.elim
  shrunk := by
    nofun

def bodies (turns : List (ι × DailyTurn)) : List Str :=
  turns.filterMap fun entry => match entry.2 with
    | .call content => some content
    | _ => none

structure FromCalls (turns : List (ι × DailyTurn)) (world : DailyWorld ι) : Prop where
  busy : ∀ i, (world.calls i).place ≠ .idle → (world.calls i).content ∈ bodies turns
  placed : ∀ body ∈ world.placed, body ∈ bodies turns

section Bodies

omit [Fintype ι] in
theorem put_other {i j : ι} (other : j ≠ i) (world : DailyWorld ι) (call : DailyCall) :
    (world.put i call).calls j = world.calls j := update_of_ne other _ _

theorem step_other {i j : ι} (other : j ≠ i) (world : DailyWorld ι) (turn : DailyTurn) :
    (dailyStep world (i, turn)).calls j = world.calls j := by
  have acquired : ∀ fresh, (world.acquire i fresh).calls j = world.calls j := by
    intro fresh
    unfold DailyWorld.acquire
    dsimp only
    split
    · rfl
    split
    · exact put_other other _ _
    · rfl
  have released : ∀ fresh next, (world.release i fresh next).calls j = world.calls j := by
    intro fresh next
    unfold DailyWorld.release
    dsimp only
    split
    · exact put_other other _ _
    · rfl
  unfold dailyStep
  dsimp only
  split
  case h_4 => exact acquired _
  case h_10 => exact acquired _
  case h_17 => exact released _ _
  case h_7 verdict fresh _ =>
    have kept := released fresh (if verdict = .longEnough then .makeDirs else .idle)
    generalize (if verdict = ReadVerdict.longEnough then DailyPlace.makeDirs else .idle) = next
      at kept ⊢
    split
    · exact kept
    · exact kept
  all_goals repeat' split
  all_goals first
    | rfl
    | exact put_other other _ _

omit [Fintype ι] in
theorem content_of_put {i : ι} {world world' : DailyWorld ι} {call : DailyCall}
    (same : call.content = (world.calls i).content) :
    ((world'.put i call).calls i).content = (world.calls i).content := by
  rw [DailyWorld.put]
  simpa using same

theorem step_call (world : DailyWorld ι) (i j : ι) (turn : DailyTurn) :
    ((dailyStep world (i, turn)).calls j).place = .idle ∨
      ((dailyStep world (i, turn)).calls j).content = (world.calls j).content ∧
        (world.calls j).place ≠ .idle ∨
      turn = .call ((dailyStep world (i, turn)).calls j).content := by
  by_cases other : j = i
  · subst other
    by_cases idle : (world.calls j).place = .idle
    · cases turn with
      | call content =>
        by_cases rows : hasJobRows content
        · right; right
          simp [dailyStep, idle, rows, DailyWorld.put]
        · left
          simp [dailyStep, idle, rows]
      | dies => exact .inl (by simp [dailyStep, DailyWorld.put, DailyCall.idle])
      | lock => exact .inl (by simp [dailyStep, idle])
      | goes => exact .inl (by simp [dailyStep, idle])
      | fails => exact .inl (by simp [dailyStep, idle])
    · have acquired : ∀ fresh, ((world.acquire j fresh).calls j).place = .idle ∨
          ((world.acquire j fresh).calls j).content = (world.calls j).content := by
        intro fresh
        unfold DailyWorld.acquire
        dsimp only
        split
        · exact .inr rfl
        split
        · exact .inl (by simp [DailyWorld.put, DailyCall.idle])
        · exact .inr rfl
      have released : ∀ fresh next,
          ((world.release j fresh next).calls j).content = (world.calls j).content := by
        intro fresh next
        unfold DailyWorld.release
        dsimp only
        split
        · exact content_of_put rfl
        · rfl
      have kept : ((dailyStep world (j, turn)).calls j).place = .idle ∨
          ((dailyStep world (j, turn)).calls j).content = (world.calls j).content := by
        unfold dailyStep
        dsimp only
        split
        case h_1 => exact .inl (by simp [DailyWorld.put, DailyCall.idle])
        case h_2 here => exact absurd here idle
        case h_4 => exact acquired _
        case h_9 => exact .inl (by simp [DailyWorld.put, DailyCall.idle])
        case h_10 => exact acquired _
        case h_17 => exact .inr (released _ _)
        case h_7 verdict fresh _ =>
          have same := released fresh (if verdict = .longEnough then .makeDirs else .idle)
          generalize (if verdict = ReadVerdict.longEnough then DailyPlace.makeDirs else .idle) =
            next at same ⊢
          split
          · exact .inr same
          · exact .inr same
        all_goals repeat' split
        all_goals first
          | exact .inr rfl
          | exact .inr (content_of_put rfl)
      exact kept.imp id fun same => .inl ⟨same, idle⟩
  · rw [step_other other]
    by_cases idle : (world.calls j).place = .idle
    · exact .inl idle
    · exact .inr (.inl ⟨rfl, idle⟩)

theorem FromCalls.step {turns : List (ι × DailyTurn)} {world : DailyWorld ι}
    {file : Option Utf8.Bytes} (calls : FromCalls turns world) (right : DailyRight file world)
    (entry : ι × DailyTurn) : FromCalls (turns ++ [entry]) (dailyStep world entry) := by
  have grown : ∀ body ∈ bodies turns, body ∈ bodies (turns ++ [entry]) := by
    intro body member
    unfold bodies
    rw [List.filterMap_append]
    exact List.mem_append_left _ member
  constructor
  · intro i busy
    rcases step_call world entry.1 i entry.2 with idle | kept | called
    · exact absurd idle busy
    · rw [show entry = (entry.1, entry.2) from rfl, kept.1]
      exact grown _ (calls.busy i kept.2)
    · unfold bodies
      rw [List.filterMap_append]
      refine List.mem_append_right _ ?_
      rw [List.filterMap_cons, called]
      exact .head _
  · intro body member
    by_cases replaces : Replaces world entry
    · rw [(replacing_step right replaces).2.1] at member
      rcases List.mem_append.mp member with old | own
      · exact grown body (calls.placed body old)
      · rw [List.mem_singleton.mp own]
        refine grown _ (calls.busy entry.1 fun idle => ?_)
        obtain ⟨i, turn⟩ := entry
        cases turn with
        | goes flushed => exact DailyPlace.noConfusion (idle.symm.trans replaces)
        | call => exact replaces
        | lock => exact replaces
        | fails => exact replaces
        | dies => exact replaces
    · rw [(quiet_step replaces).2] at member
      exact grown body (calls.placed body member)

theorem run_bodies (sidecar : Option Nat) (file tmp : Option Utf8.Bytes)
    (turns : List (ι × DailyTurn)) :
    FromCalls turns (dailyRun (dailyStart sidecar file tmp) turns) := by
  induction turns using List.reverseRecOn with
  | nil =>
    refine ⟨fun _ busy => absurd rfl busy, fun body member => ?_⟩
    cases member
  | append_singleton turns entry ih =>
    have right : DailyRight file (dailyRun (dailyStart sidecar file tmp) turns) :=
      foldl_kept (dailyStart_right sidecar file tmp) fun _ entry right =>
        dailyStep_right right entry
    unfold dailyRun at ih right ⊢
    rw [List.foldl_append]
    exact ih.step right entry

end Bodies

/-- The line count never falls exactly when no call replaces a file that outgrew its body since its
check; the file is the first one or the whole body of one call. -/
theorem daily_file_grows_iff (sidecar : Option Nat) (file tmp : Option Utf8.Bytes)
    (turns : List (ι × DailyTurn)) :
    (Throughout dailyStep Grows (dailyStart sidecar file tmp) turns ↔
      Throughout dailyStep NotOvertaken (dailyStart sidecar file tmp) turns) ∧
    ((dailyRun (dailyStart sidecar file tmp) turns).file = file ∨ ∃ body ∈ bodies turns,
      (dailyRun (dailyStart sidecar file tmp) turns).file = some (encodeText body)) ∧
    ∀ call ∈ (dailyRun (dailyStart sidecar file tmp) turns).shrunk, call.replaced = false := by
  have start := dailyStart_right (ι := ι) sidecar file tmp
  have right : DailyRight file (dailyRun (dailyStart sidecar file tmp) turns) :=
    foldl_kept start fun _ entry right => dailyStep_right right entry
  refine ⟨?_, ?_, right.shrunk⟩
  · have chain : Chain file (dailyStart sidecar file tmp : DailyWorld ι).placed := by
      intro a b le inside
      have last : b = 0 := Nat.le_zero.mp inside
      have first : a = 0 := Nat.le_zero.mp (last ▸ le)
      rw [first, last]
    refine throughout_congr (K := fun world => DailyRight file world ∧ Chain file world.placed)
      ⟨start, chain⟩ (fun world entry kept grows => ?_) fun world entry kept => ?_
    · exact ⟨dailyStep_right kept.1 entry, chain_kept kept.1 kept.2 grows⟩
    · exact grows_iff kept.1 kept.2
  · rw [right.current]
    have calls := run_bodies sidecar file tmp turns
    rcases List.eq_nil_or_concat (dailyRun (dailyStart sidecar file tmp) turns).placed with
      none | ⟨early, last, shape⟩
    · rw [none]
      exact .inl rfl
    · rw [List.concat_eq_append] at shape
      have member : last ∈ (dailyRun (dailyStart sidecar file tmp) turns).placed := by
        rw [shape]
        exact List.mem_append_right early (.head _)
      rw [shape, fileAfter_append]
      exact .inr ⟨last, calls.placed last member, rfl⟩

def lockTurns (i : Fin 2) (n : Nat) : List (Fin 2 × DailyTurn) := List.replicate n (i, .lock (some 1))

def writes (i : Fin 2) : List (Fin 2 × DailyTurn) :=
  (i, .goes 0) :: lockTurns i 4 ++ [(i, .goes 0), (i, .goes 99), (i, .goes 0)] ++ lockTurns i 5

def twoPosts : List (Fin 2 × DailyTurn) :=
  [(0, .call (lit "JobID\n1\n")), (0, .goes 0), (1, .call (lit "JobID\n1\n2\n")), (1, .goes 0)]

theorem shorter_body_wins :
    (dailyRun (dailyStart none none none) (twoPosts ++ writes 1)).file =
        some (encodeText (lit "JobID\n1\n2\n")) ∧
      (dailyRun (dailyStart none none none) (twoPosts ++ writes 1 ++ writes 0)).file =
        some (encodeText (lit "JobID\n1\n")) ∧
      (dailyRun (dailyStart none none none) (twoPosts ++ writes 1)).lineCount = 3 ∧
      (dailyRun (dailyStart none none none) (twoPosts ++ writes 1 ++ writes 0)).lineCount = 2 := by
  decide +kernel

end Growth

end PerfStats.Ingest
