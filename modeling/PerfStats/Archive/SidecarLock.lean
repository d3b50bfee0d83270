import PerfStats.Lib.Runs
import PerfStats.Text

namespace PerfStats.Archive

open Function

section Paths

def lockSuffix : Str := lit ".fnctl.lock"

def targetPath (path : Str) : Str :=
  if _long : lockSuffix.isSuffixOf path ∧ 0 < path.length then
    targetPath (path.take (path.length - lockSuffix.length))
  else path
termination_by path.length
decreasing_by
  have some : 0 < lockSuffix.length := by decide
  simp only [List.length_take]
  omega

def lockPath (path : Str) : Str := targetPath path ++ lockSuffix

end Paths

inductive LockMode where
  | sh
  | ex
deriving DecidableEq

/-- The next call of a process; `reset` places are those of `_maybe_reset_stale_lock_file`. -/
inductive LockPlace where
  | idle
  | resetExists
  | resetOpen
  | resetLock
  | resetCurrent
  | resetUnlink
  | resetClose
  | openFile
  | lock
  | current
  | retryClose
  | held
  | releaseCurrent
  | releaseUnlink
  | unlock
  | close
deriving DecidableEq

/-- A process: the lock it wants, `none` for a cleanup, its open sidecar by inode, and the flock on
it. -/
structure LockClient where
  goal : Option LockMode
  place : LockPlace
  fd : Option Nat
  flocked : Option LockMode
deriving DecidableEq

structure LockWorld (ι : Type) where
  name : Option Nat
  clients : ι → LockClient

inductive LockTurn where
  | call (goal : Option LockMode)
  | goes (fresh : Nat)
  | fails
  | dies

namespace LockClient

def idle : LockClient := ⟨none, .idle, none, none⟩

def goto (client : LockClient) (place : LockPlace) : LockClient := { client with place := place }

def closed (client : LockClient) (place : LockPlace) : LockClient :=
  { client with place := place, fd := none, flocked := none }

def behindReset (client : LockClient) : LockPlace :=
  if client.goal.isSome then .openFile else .idle

end LockClient

section Step

variable {ι : Type} [Fintype ι] [DecidableEq ι]

namespace LockWorld

def put (world : LockWorld ι) (i : ι) (client : LockClient) : LockWorld ι :=
  { world with clients := update world.clients i client }

/-- `flock` with `LOCK_NB`: an exclusive lock is alone on its inode. -/
def Free (world : LockWorld ι) (i : ι) (mode : LockMode) : Prop :=
  ∀ j, j ≠ i → (world.clients j).fd = (world.clients i).fd →
    (world.clients j).flocked = none ∨ (mode = .sh ∧ (world.clients j).flocked = some .sh)

instance (world : LockWorld ι) (i : ι) (mode : LockMode) : Decidable (world.Free i mode) :=
  inferInstanceAs (Decidable (∀ j, j ≠ i → (world.clients j).fd = (world.clients i).fd →
    (world.clients j).flocked = none ∨ (mode = .sh ∧ (world.clients j).flocked = some .sh)))

/-- `open(lock_path, "a+")`: a missing sidecar is created on an inode nothing refers to. -/
def openSidecar (world : LockWorld ι) (i : ι) (fresh : Nat) (place : LockPlace) : LockWorld ι :=
  match world.name with
  | some inode => world.put i { world.clients i with place := place, fd := some inode }
  | none =>
    if ∀ j, (world.clients j).fd ≠ some fresh then
      { world with name := some fresh }.put i
        { world.clients i with place := place, fd := some fresh }
    else world

def flock (world : LockWorld ι) (i : ι) (mode : LockMode) (taken refused : LockPlace) :
    LockWorld ι :=
  if world.Free i mode then
    world.put i { world.clients i with place := taken, flocked := some mode }
  else world.put i ((world.clients i).goto refused)

/-- `_sidecar_is_current`. -/
def check (world : LockWorld ι) (i : ι) (same other : LockPlace) : LockWorld ι :=
  world.put i ((world.clients i).goto (if world.name = (world.clients i).fd then same else other))

/-- `os.remove(lock_path)`: it removes the name, whatever it names by now. -/
def unlink (world : LockWorld ι) (i : ι) (place : LockPlace) : LockWorld ι :=
  { world with name := none }.put i ((world.clients i).goto place)

end LockWorld

/-- One call of process `i`, or its end: a dead process has no open file. -/
def lockTurn (world : LockWorld ι) (i : ι) (turn : LockTurn) : LockWorld ι :=
  let client := world.clients i
  match client.place, turn with
  | _, .dies => world.put i .idle
  | .idle, .call goal => world.put i ⟨goal, .resetExists, none, none⟩
  | .resetExists, .goes _ =>
    world.put i (client.goto (if world.name.isSome then .resetOpen else client.behindReset))
  -- the sidecar is younger than the expiry
  | .resetExists, .fails => world.put i (client.goto client.behindReset)
  | .resetOpen, .goes fresh => world.openSidecar i fresh .resetLock
  | .resetOpen, .fails => world.put i (client.goto client.behindReset)
  | .resetLock, .goes _ => world.flock i .ex .resetCurrent .resetClose
  | .resetLock, .fails => world.put i (client.goto .resetClose)
  | .resetCurrent, .goes _ => world.check i .resetUnlink .resetClose
  | .resetCurrent, .fails => world.put i (client.goto .resetClose)
  | .resetUnlink, .goes _ => world.unlink i .resetClose
  | .resetUnlink, .fails => world.put i (client.goto .resetClose)
  | .resetClose, .goes _ => world.put i (client.closed client.behindReset)
  | .resetClose, .fails => world.put i (client.closed client.behindReset)
  | .openFile, .goes fresh => world.openSidecar i fresh .lock
  | .openFile, .fails => world.put i .idle
  | .lock, .goes _ => world.flock i (client.goal.getD .ex) .current .retryClose
  | .lock, .fails => world.put i (client.goto .retryClose)
  | .current, .goes _ => world.check i .held .retryClose
  | .current, .fails => world.put i (client.goto .retryClose)
  | .retryClose, .goes _ => world.put i (client.closed .resetExists)
  -- an error other than contention, or the time is up
  | .retryClose, .fails => world.put i .idle
  | .held, .goes _ =>
    world.put i (client.goto (if client.goal = some .ex then .releaseCurrent else .unlock))
  | .releaseCurrent, .goes _ => world.check i .releaseUnlink .unlock
  | .releaseCurrent, .fails => world.put i (client.goto .unlock)
  | .releaseUnlink, .goes _ => world.unlink i .unlock
  | .releaseUnlink, .fails => world.put i (client.goto .unlock)
  | .unlock, .goes _ => world.put i { client with place := .close, flocked := none }
  | .unlock, .fails => world.put i (client.goto .close)
  | .close, .goes _ => world.put i .idle
  | .close, .fails => world.put i .idle
  | _, _ => world

def lockRun (name : Option Nat) (turns : List (ι × LockTurn)) : LockWorld ι :=
  turns.foldl (fun world (i, turn) => lockTurn world i turn) ⟨name, fun _ => .idle⟩

end Step

section Exclusion

open LockClient

variable {ι : Type} [DecidableEq ι] {world : LockWorld ι} {i : ι}

namespace LockClient

/-- A process holds its lock behind the check: a writer until it unlinks the sidecar, a reader until
it unlocks. -/
def Holds (client : LockClient) (mode : LockMode) : Prop :=
  client.goal = some mode ∧
    match client.place with
    | .held | .releaseCurrent | .releaseUnlink => True
    | .unlock => mode = .sh
    | _ => False

def Checked (client : LockClient) : Prop :=
  client.place = .resetUnlink ∨ ∃ mode, client.Holds mode

def Fits (client : LockClient) : Prop :=
  match client.place with
  | .idle | .resetExists | .resetOpen => client.fd = none ∧ client.flocked = none
  | .openFile => client.fd = none ∧ client.flocked = none ∧ client.goal.isSome
  | .resetLock => client.fd.isSome ∧ client.flocked = none
  | .lock => client.fd.isSome ∧ client.flocked = none ∧ client.goal.isSome
  | .resetCurrent | .resetUnlink => client.fd.isSome ∧ client.flocked = some .ex
  | .resetClose | .retryClose | .close => client.fd.isSome
  | .current | .held | .unlock =>
    client.fd.isSome ∧ client.goal.isSome ∧ client.flocked = client.goal
  | .releaseCurrent | .releaseUnlink =>
    client.fd.isSome ∧ client.goal = some .ex ∧ client.flocked = some .ex

end LockClient

/-- Two locks on one inode are shared ones, and who has checked the sidecar has locked the inode
it names. -/
structure LockRight (world : LockWorld ι) : Prop where
  fits : ∀ i, (world.clients i).Fits
  apart : ∀ i j, i ≠ j → (world.clients i).fd = (world.clients j).fd →
    (world.clients i).flocked = some .ex → (world.clients j).flocked = none
  checked : ∀ i, (world.clients i).Checked → (world.clients i).fd = world.name

variable {client : LockClient} {place taken refused : LockPlace} {mode : LockMode}

theorem LockRight.put (right : LockRight world) (fits : client.Fits)
    (alone : ∀ j, j ≠ i → (world.clients j).fd = client.fd →
      (client.flocked = some .ex → (world.clients j).flocked = none) ∧
        ((world.clients j).flocked = some .ex → client.flocked = none))
    (checked : client.Checked → client.fd = world.name) : LockRight (world.put i client) := by
  constructor
  · intro j
    by_cases same : j = i
    · rw [same]
      simpa [LockWorld.put] using fits
    · simpa [LockWorld.put, same] using right.fits j
  · intro j k different
    by_cases first : j = i
    · have other : k ≠ i := fun is => different (first.trans is.symm)
      rw [first]
      simp only [LockWorld.put, update_self, update_of_ne other]
      exact fun fd => (alone k other fd.symm).1
    · by_cases second : k = i
      · rw [second]
        simp only [LockWorld.put, update_self, update_of_ne first]
        exact fun fd => (alone j first fd).2
      · simp only [LockWorld.put, update_of_ne first, update_of_ne second]
        exact right.apart j k different
  · intro j
    by_cases same : j = i
    · rw [same]
      simpa [LockWorld.put] using checked
    · simpa [LockWorld.put, same] using right.checked j

theorem LockRight.unlocked (right : LockRight world) (fits : client.Fits)
    (flocked : client.flocked = none) (checked : ¬client.Checked) :
    LockRight (world.put i client) :=
  right.put fits (fun _ _ _ => ⟨fun locked => by simp [flocked] at locked, fun _ => flocked⟩)
    fun is => absurd is checked

theorem LockRight.goto (right : LockRight world) (fits : ((world.clients i).goto place).Fits)
    (checked : ((world.clients i).goto place).Checked → (world.clients i).fd = world.name) :
    LockRight (world.put i ((world.clients i).goto place)) := by
  refine right.put fits (fun j other fd => ⟨fun locked => ?_, fun locked => ?_⟩) checked
  · exact right.apart i j (Ne.symm other) fd.symm locked
  · exact right.apart j i other fd locked

theorem LockRight.check (right : LockRight world)
    (same : ((world.clients i).goto taken).Fits) (other : ((world.clients i).goto refused).Fits)
    (unchecked : ¬((world.clients i).goto refused).Checked) :
    LockRight (world.check i taken refused) := by
  unfold LockWorld.check
  split
  · next current => exact right.goto same fun _ => current.symm
  · exact right.goto other fun is => absurd is unchecked

theorem Checked.locked (fits : client.Fits) (checked : client.Checked) :
    client.fd.isSome ∧ client.flocked ≠ none := by
  rcases checked with reset | ⟨mode, goal, place⟩
  · rw [Fits, reset] at fits
    exact ⟨fits.1, by rw [fits.2]; simp⟩
  · cases here : client.place <;> simp_all [Fits]

theorem LockRight.unlink (right : LockRight world) (checked : (world.clients i).Checked)
    (locked : (world.clients i).flocked = some .ex) (fits : ((world.clients i).goto place).Fits)
    (unchecked : ¬((world.clients i).goto place).Checked) : LockRight (world.unlink i place) := by
  have others : ∀ j, j ≠ i → ¬(world.clients j).Checked := by
    intro j other is
    have same : (world.clients i).fd = (world.clients j).fd := by
      rw [right.checked i checked, right.checked j is]
    exact (Checked.locked (right.fits j) is).2 (right.apart i j (Ne.symm other) same locked)
  have moved := right.goto fits fun is => absurd is unchecked
  refine ⟨moved.fits, moved.apart, fun j is => ?_⟩
  by_cases same : j = i
  · rw [same] at is
    exact absurd (by simpa [LockWorld.unlink, LockWorld.put] using is) unchecked
  · exact absurd (by simpa [LockWorld.unlink, LockWorld.put, same] using is) (others j same)

theorem idle_right (right : LockRight world) : LockRight (world.put i .idle) :=
  right.unlocked ⟨rfl, rfl⟩ rfl (by simp [Checked, Holds, idle])

theorem LockRight.behindReset (right : LockRight world) (goal : Option LockMode) :
    LockRight (world.put i
      ⟨goal, if goal.isSome then .openFile else .idle, none, none⟩) := by
  refine right.unlocked ?_ rfl ?_
  · cases goal <;> simp [Fits]
  · cases goal <;> simp [Checked, Holds]

section Calls

variable [Fintype ι]

theorem LockRight.flock (right : LockRight world)
    (locked : ({ world.clients i with place := taken, flocked := some mode } : LockClient).Fits)
    (left : ((world.clients i).goto refused).Fits)
    (unchecked : ¬({ world.clients i with
      place := taken, flocked := some mode } : LockClient).Checked ∧
      ¬((world.clients i).goto refused).Checked) :
    LockRight (world.flock i mode taken refused) := by
  unfold LockWorld.flock
  split
  · next free =>
      refine right.put locked (fun j other fd => ?_) fun is => absurd is unchecked.1
      rcases free j other fd with none | ⟨shared, also⟩
      · refine ⟨fun _ => none, fun exclusive => ?_⟩
        rw [none] at exclusive
        cases exclusive
      · refine ⟨fun exclusive => ?_, fun exclusive => ?_⟩
        · rw [shared] at exclusive
          cases exclusive
        · rw [also] at exclusive
          cases exclusive
  · exact right.goto left fun is => absurd is unchecked.2

theorem LockRight.openSidecar (right : LockRight world) (fresh : Nat)
    (unlocked : (world.clients i).flocked = none)
    (fits : ∀ inode, ({ world.clients i with
      place := place, fd := some inode } : LockClient).Fits)
    (unchecked : ∀ inode, ¬({ world.clients i with
      place := place, fd := some inode } : LockClient).Checked) :
    LockRight (world.openSidecar i fresh place) := by
  unfold LockWorld.openSidecar
  split
  · next inode _ => exact right.unlocked (fits inode) unlocked (unchecked inode)
  · next missing =>
      split
      · have named : LockRight { world with name := some fresh } := by
          refine ⟨right.fits, right.apart, fun j checked => ?_⟩
          have opened := (Checked.locked (right.fits j) checked).1
          rw [right.checked j checked, missing] at opened
          cases opened
        exact named.unlocked (fits fresh) unlocked (unchecked fresh)
      · exact right

theorem behindReset_eq (client : LockClient) (closed : client.fd = none ∧ client.flocked = none) :
    client.goto client.behindReset =
      ⟨client.goal, if client.goal.isSome then .openFile else .idle, none, none⟩ := by
  rw [goto, behindReset, ← closed.1, ← closed.2]

theorem goes_right (right : LockRight world) (i : ι) (fresh : Nat) :
    LockRight (lockTurn world i (.goes fresh)) := by
  have fits := right.fits i
  have checked := right.checked i
  unfold lockTurn
  cases here : (world.clients i).place <;> simp only [Fits, here] at fits ⊢
  case idle => exact right
  case resetExists =>
    split
    · refine right.goto ?_ ?_
      · simpa [Fits, goto] using fits
      · simp [Checked, Holds, goto]
    · rw [behindReset_eq _ fits]
      exact right.behindReset _
  case resetOpen =>
    refine right.openSidecar fresh fits.2 ?_ ?_
    · intro inode
      exact ⟨rfl, fits.2⟩
    · simp [Checked, Holds]
  case resetLock =>
    refine right.flock ⟨fits.1, rfl⟩ fits.1 ?_
    simp [Checked, Holds, goto]
  case resetCurrent =>
    refine right.check fits fits.1 ?_
    simp [Checked, Holds, goto]
  case resetUnlink =>
    refine right.unlink (.inl here) fits.2 fits.1 ?_
    simp [Checked, Holds, goto]
  case resetClose => exact right.behindReset _
  case openFile =>
    refine right.openSidecar fresh fits.2.1 ?_ ?_
    · intro inode
      exact ⟨rfl, fits.2⟩
    · simp [Checked, Holds]
  case lock =>
    obtain ⟨goal, is⟩ := Option.isSome_iff_exists.mp fits.2.2
    rw [is, Option.getD_some]
    refine right.flock ⟨fits.1, fits.2.2, is.symm⟩ fits.1 ?_
    simp [Checked, Holds, goto]
  case current =>
    refine right.check fits fits.1 ?_
    simp [Checked, Holds, goto]
  case retryClose =>
    refine right.unlocked ⟨rfl, rfl⟩ rfl ?_
    simp [Checked, Holds, closed]
  case held =>
    obtain ⟨opened, wants, locked⟩ := fits
    obtain ⟨goal, is⟩ := Option.isSome_iff_exists.mp wants
    have seen : (world.clients i).Checked := .inr ⟨goal, is, by rw [here]; trivial⟩
    split
    · next writer => exact right.goto ⟨opened, writer, locked.trans writer⟩ fun _ => checked seen
    · exact right.goto ⟨opened, wants, locked⟩ fun _ => checked seen
  case releaseCurrent =>
    refine right.check fits ⟨fits.1, by simp [goto, fits.2.1], ?_⟩ ?_
    · exact fits.2.2.trans fits.2.1.symm
    · simp [Checked, Holds, goto, fits.2.1]
  case releaseUnlink =>
    refine right.unlink (.inr ⟨.ex, fits.2.1, by rw [here]; trivial⟩) fits.2.2
      ⟨fits.1, by simp [goto, fits.2.1], fits.2.2.trans fits.2.1.symm⟩ ?_
    simp [Checked, Holds, goto, fits.2.1]
  case unlock =>
    refine right.unlocked fits.1 rfl ?_
    simp [Checked, Holds]
  case close => exact idle_right right

theorem fails_right (right : LockRight world) (i : ι) : LockRight (lockTurn world i .fails) := by
  have fits := right.fits i
  unfold lockTurn
  cases here : (world.clients i).place <;> simp only [Fits, here] at fits ⊢
  case idle => exact right
  case resetExists =>
    rw [behindReset_eq _ fits]
    exact right.behindReset _
  case resetOpen =>
    rw [behindReset_eq _ fits]
    exact right.behindReset _
  case resetClose => exact right.behindReset _
  case openFile => exact idle_right right
  case retryClose => exact idle_right right
  case close => exact idle_right right
  case held => exact right
  case releaseCurrent =>
    refine right.goto ⟨fits.1, by simp [goto, fits.2.1], ?_⟩ ?_
    · exact fits.2.2.trans fits.2.1.symm
    · simp [Checked, Holds, goto, fits.2.1]
  case releaseUnlink =>
    refine right.goto ⟨fits.1, by simp [goto, fits.2.1], ?_⟩ ?_
    · exact fits.2.2.trans fits.2.1.symm
    · simp [Checked, Holds, goto, fits.2.1]
  -- every other call that fails closes the sidecar next
  all_goals
    refine right.goto fits.1 ?_
    simp [Checked, Holds, goto]

theorem lockTurn_right (right : LockRight world) (i : ι) (turn : LockTurn) :
    LockRight (lockTurn world i turn) := by
  cases turn with
  | goes fresh => exact goes_right right i fresh
  | fails => exact fails_right right i
  | dies => cases (world.clients i).place <;> exact idle_right right
  | call goal =>
    unfold lockTurn
    cases here : (world.clients i).place <;> simp only [here]
    case idle =>
      refine right.unlocked ?_ rfl ?_
      · simp [Fits]
      · simp [Checked, Holds]
    all_goals exact right

theorem lockRun_right (name : Option Nat) (turns : List (ι × LockTurn)) :
    LockRight (lockRun name turns) := by
  refine Lib.foldl_kept ⟨fun _ => ⟨rfl, rfl⟩, ?_, ?_⟩ fun _ turn right => lockTurn_right right _ _
  · nofun
  · intro _ checked
    simp [Checked, Holds, idle] at checked

def Exclusive (world : LockWorld ι) : Prop :=
  ∀ i j mode, i ≠ j → (world.clients i).Holds .ex → ¬(world.clients j).Holds mode

omit [Fintype ι] [DecidableEq ι] in
theorem LockRight.exclusive (right : LockRight world) : Exclusive world := by
  intro i j mode apart writer other
  have named : ∀ k mode, (world.clients k).Holds mode → (world.clients k).fd = world.name :=
    fun k mode holds => right.checked k (.inr ⟨mode, holds⟩)
  have same := (named i .ex writer).trans (named j mode other).symm
  have locked : (world.clients i).flocked = some .ex := by
    have fits := right.fits i
    obtain ⟨goal, place⟩ := writer
    cases here : (world.clients i).place <;> simp_all [Fits]
  have unlocked := right.apart i j apart same locked
  exact (Checked.locked (right.fits j) (.inr ⟨mode, other⟩)).2 unlocked

theorem lockTurn_other {j : ι} (other : j ≠ i) (turn : LockTurn) :
    (lockTurn world i turn).clients j = world.clients j := by
  have put : ∀ (world' : LockWorld ι) (client : LockClient), world'.clients j = world.clients j →
      (world'.put i client).clients j = world.clients j := by
    intro world' client same
    simp only [LockWorld.put, update_of_ne other, same]
  have sidecar : ∀ fresh place, (world.openSidecar i fresh place).clients j = world.clients j := by
    intro fresh place
    unfold LockWorld.openSidecar
    split
    · exact put world _ rfl
    · split
      · exact put _ _ rfl
      · rfl
  have lock : ∀ mode taken refused,
      (world.flock i mode taken refused).clients j = world.clients j := by
    intro mode taken refused
    unfold LockWorld.flock
    split
    · exact put world _ rfl
    · exact put world _ rfl
  unfold lockTurn
  dsimp only
  split
  all_goals first
    | rfl
    | exact put world _ rfl
    | exact sidecar _ _
    | exact lock _ _ _

/-- Whatever sidecar is left over and however the processes interleave, who holds the sidecar lock
has locked the inode that the path names. -/
theorem sidecar_lock_excludes {ι : Type} [Fintype ι] [DecidableEq ι] (name : Option Nat)
    (turns : List (ι × LockTurn)) : Exclusive (lockRun name turns) :=
  (lockRun_right name turns).exclusive

end Calls

end Exclusion

end PerfStats.Archive
