import PerfStats.Lib.Dict
import PerfStats.Lib.Runs
import PerfStats.Text

namespace PerfStats.Archive

open Text
open Lib

section Gate

/-- The limits of the INI file, and the estimate for a sealed day, 0 where nothing is sealed. -/
structure SpaceConfig where
  pressureFreeBytes : Nat
  minFreeBytes : Nat
  sealedEstimate : Str → Nat

/-- A held reservation; `left` is what the restore behind it still has to write. -/
structure Reservation where
  nbytes : Nat
  tar : Str
  base : Nat
  left : Nat
deriving DecidableEq

structure SpaceGap where
  admissions : Nat
  writes : Nat
deriving DecidableEq

/-- Where a thread is in `admit_restore` and in the restore behind it. -/
inductive AdmitStep where
  | growthFree
  | growthLock (free : Option Nat)
  | reserveFree
  | reserveList (free : Nat) (gap : SpaceGap)
  | reserveSum (free : Nat) (gap : SpaceGap) (acc : Nat) (todo : List Reservation)
  | claimFree (gap : SpaceGap) (steady : Bool)
  | claimLock (free : Option Nat) (gap : SpaceGap) (steady : Bool)
  | claimBase (pressure : Bool) (gap : SpaceGap) (steady : Bool)
  | claim (pressure : Bool) (base : Nat) (gap : SpaceGap) (steady : Bool)
  | admitted
  | restoring
deriving DecidableEq

structure Admission where
  tar : Str
  need : Nat
  step : AdmitStep
deriving DecidableEq

/-- The disk, the module's state and the threads; behind them what the admissions so far have done.
-/
structure SpaceState where
  free : Nat
  tars : Dict Str Nat
  temps : Dict Str Nat
  pressure : Bool
  reserved : Dict Str Reservation
  expanded : Finset Str
  threads : Dict Nat Admission
  admissions : Nat
  writes : Nat
  lastBefore : Option Int
  pressed : Finset Str

inductive RestoreMode where
  | growth
  | finish
deriving DecidableEq

inductive SpaceAct where
  | begin_ (tar : Str) (mode : RestoreMode)
  | readFree (fails : Bool)
  | go
  | write (bytes : Nat)
  | publish
  | dropTemp
  | release
deriving DecidableEq

inductive SpaceEvent where
  | thread (thread : Nat) (act : SpaceAct)
  | refreshPressure (free : Option Nat)
  | removeTar (tar : Str)
deriving DecidableEq

/-- The flag behind `under_pressure`, by the free space it read. -/
def pressureAfter (config : SpaceConfig) (free : Option Nat) (pressure : Bool) : Bool :=
  let threshold := config.pressureFreeBytes
  match if 0 < threshold then free else some 0 with
  | none => pressure
  | some free =>
    if 0 < threshold ∧ free < threshold then true
    else if threshold = 0 ∨ 2 * threshold ≤ free then false
    else pressure

def restoreKey (tar : Str) : Str := lit "restore:" ++ tar

variable (config : SpaceConfig)

def SpaceState.tarSize (state : SpaceState) (tar : Str) : Nat := (state.tars.get? tar).getD 0

/-- `_tar_bytes_on_disk`. -/
def SpaceState.onDisk (state : SpaceState) (tar : Str) : Nat :=
  state.tarSize tar + (state.temps.get? tar).getD 0

def SpaceState.remaining (state : SpaceState) (held : Reservation) : Nat :=
  held.nbytes - (state.onDisk held.tar - held.base)

def SpaceState.reservedBytes (state : SpaceState) : Nat :=
  ((state.reserved.entries.map Prod.snd).map state.remaining).sum

/-- `fits_hard_reserve`, read in one step. -/
def SpaceState.fits (state : SpaceState) (need : Nat) : Bool :=
  decide ((config.minFreeBytes : Int) ≤
    (state.free : Int) - state.reservedBytes - need - (need / 2 : Nat))

def SpaceState.spare (state : SpaceState) : Int :=
  (state.free : Int) - state.reserved.total fun _ held => held.left

/-- `restore_bytes_estimate`. -/
def SpaceState.estimate (state : SpaceState) (tar : Str) : Nat :=
  if 0 < state.tarSize tar then 0 else config.sealedEstimate tar

def SpaceState.live (state : SpaceState) : Finset Str :=
  state.expanded.filter fun tar => (state.tars.get? tar).isSome ∨
    (state.reserved.get? tar).isSome ∨ (state.reserved.get? (restoreKey tar)).isSome

def SpaceState.goto (state : SpaceState) (thread : Nat) (own : Admission) (step : AdmitStep) :
    SpaceState :=
  { state with threads := state.threads.set thread { own with step := step } }

def SpaceState.leave (state : SpaceState) (thread : Nat) : SpaceState :=
  { state with threads := state.threads.erase thread }

/-- `try_claim_restore_slot` under its lock. -/
def SpaceState.claimSlot (state : SpaceState) (thread : Nat) (own : Admission) (pressure : Bool)
    (base : Nat) : SpaceState :=
  if pressure && !(state.live.erase own.tar = ∅) then
    { state.leave thread with expanded := state.live }
  else
    { state.goto thread own .admitted with
      expanded := insert own.tar (if pressure then state.live else state.expanded)
      reserved := state.reserved.set (restoreKey own.tar) ⟨own.need, own.tar, base, own.need⟩
      admissions := state.admissions + 1
      lastBefore := some state.spare
      pressed := if state.pressure then insert own.tar state.pressed
        else state.pressed.erase own.tar }

/-- One step of `admit_restore` that reads no free space, or of `reserving` behind it. -/
def SpaceState.goOn (state : SpaceState) (thread : Nat) (own : Admission) : SpaceState :=
  match own.step with
  | .growthLock free =>
    let pressure := pressureAfter config free state.pressure
    if pressure then { state.leave thread with pressure := pressure }
    else { state.goto thread own .reserveFree with pressure := pressure }
  | .reserveList free gap =>
    state.goto thread own (.reserveSum free gap 0 (state.reserved.entries.map Prod.snd))
  | .reserveSum free gap acc (held :: todo) =>
    state.goto thread own (.reserveSum free gap (acc + state.remaining held) todo)
  | .reserveSum free gap acc [] =>
    let left : Int := (free : Int) - acc - own.need - (own.need / 2 : Nat)
    if (config.minFreeBytes : Int) ≤ left then
      state.goto thread own (.claimFree gap (decide (gap.writes = state.writes)))
    else state.leave thread
  | .claimLock free gap steady =>
    let pressure := pressureAfter config free state.pressure
    { state.goto thread own (.claimBase pressure gap steady) with pressure := pressure }
  | .claimBase pressure gap steady =>
    state.goto thread own (.claim pressure (state.onDisk own.tar) gap steady)
  | .claim pressure base _ _ => state.claimSlot thread own pressure base
  | .admitted =>
    let held := (state.reserved.get? (restoreKey own.tar)).elim own.need Reservation.left
    { state.goto thread own .restoring with
      reserved := state.reserved.set (restoreKey own.tar)
        ⟨state.estimate config own.tar, own.tar, state.onDisk own.tar, held⟩ }
  | _ => state

def SpaceState.readFree (state : SpaceState) (thread : Nat) (own : Admission) (fails : Bool) :
    SpaceState :=
  let free := if fails then none else some state.free
  match own.step with
  | .growthFree => state.goto thread own (.growthLock free)
  | .reserveFree =>
    match free with
    | none => state.leave thread
    | some free => state.goto thread own (.reserveList free ⟨state.admissions, state.writes⟩)
  | .claimFree gap steady => state.goto thread own (.claimLock free gap steady)
  | _ => state

def SpaceState.restore (state : SpaceState) (thread : Nat) (own : Admission) :
    SpaceAct → SpaceState
  | .write bytes =>
    match state.reserved.get? (restoreKey own.tar) with
    | some held =>
      if bytes ≤ held.left ∧ bytes ≤ state.free then
        { state with
          free := state.free - bytes
          temps := state.temps.set own.tar ((state.temps.get? own.tar).getD 0 + bytes)
          reserved := state.reserved.set (restoreKey own.tar)
            { held with left := held.left - bytes }
          writes := state.writes + 1 }
      else state
    | none => state
  | .publish =>
    match state.temps.get? own.tar with
    | some size =>
      { state with
        free := state.free + state.tarSize own.tar
        tars := state.tars.set own.tar size
        temps := state.temps.erase own.tar }
    | none => state
  | .dropTemp =>
    { state with
      free := state.free + (state.temps.get? own.tar).getD 0
      temps := state.temps.erase own.tar }
  | .release => { state.leave thread with reserved := state.reserved.erase (restoreKey own.tar) }
  | _ => state

def spaceStep (state : SpaceState) : SpaceEvent → SpaceState
  | .thread thread act =>
    match state.threads.get? thread with
    | none =>
      match act with
      | .begin_ tar mode =>
        if state.threads.entries.any fun other => other.2.tar == tar then state
        else
          let need := state.estimate config tar
          if need = 0 then state
          else
            let step := if mode = .finish then .reserveFree else .growthFree
            { state with threads := state.threads.set thread ⟨tar, need, step⟩ }
      | _ => state
    | some own =>
      match act with
      | .begin_ _ _ => state
      | .readFree fails => state.readFree thread own fails
      | .go => state.goOn config thread own
      | act => if own.step = .restoring then state.restore thread own act else state
  | .refreshPressure free => { state with pressure := pressureAfter config free state.pressure }
  | .removeTar tar =>
    { state with
      free := state.free + state.tarSize tar
      tars := state.tars.erase tar }

end Gate

open SpaceState

section Promise

variable (config : SpaceConfig)

def SpaceState.Holds (state : SpaceState) (tar : Str) : Prop :=
  (state.reserved.get? (restoreKey tar)).isSome ∨ (state.tars.get? tar).isSome

structure SpaceKept (state : SpaceState) : Prop where
  reserve : ∀ before, state.lastBefore = some before → (config.minFreeBytes : Int) ≤ before →
    (config.minFreeBytes : Int) ≤ state.spare
  slot : ∀ a ∈ state.pressed, ∀ b ∈ state.pressed, state.Holds a → state.Holds b → a = b

/-- A claim that succeeds claims on what still holds: the day fits, or no restore was admitted or
wrote meanwhile; and no other day has the slot of the pressure. -/
def ClaimsFresh (state : SpaceState) : SpaceEvent → Prop
  | .thread thread .go => ∀ own pressure base gap steady,
      state.threads.get? thread = some own → own.step = .claim pressure base gap steady →
        pressure = false ∨ state.live.erase own.tar = ∅ →
          (state.fits config own.need = true ∨
            gap.admissions = state.admissions ∧ steady = true) ∧
            (state.pressure = true → pressure = true ∨ state.live.erase own.tar = ∅)
  | _ => True

instance (state : SpaceState) (event : SpaceEvent) : Decidable (ClaimsFresh config state event) :=
  match event with
  | .thread thread .go =>
    match found : state.threads.get? thread with
    | none => isTrue fun own _ _ _ _ here => by rw [found] at here; cases here
    | some own => decidable_of_iff
        ((match own.step with
          | .claim pressure _ gap steady =>
            decide (pressure = false ∨ state.live.erase own.tar = ∅ →
              (state.fits config own.need = true ∨
                gap.admissions = state.admissions ∧ steady = true) ∧
                (state.pressure = true → pressure = true ∨ state.live.erase own.tar = ∅))
          | _ => true) = true)
        (by
          constructor
          · intro right own' pressure base gap steady here is
            rw [found] at here
            cases here
            rw [is] at right
            exact of_decide_eq_true right
          · intro right
            split
            · next is => exact decide_eq_true (right own _ _ _ _ found is)
            · rfl)
  | .thread _ (.begin_ _ _) | .thread _ (.readFree _) | .thread _ (.write _) | .thread _ .publish
  | .thread _ .dropTemp | .thread _ .release | .refreshPressure _ | .removeTar _ => isTrue trivial

end Promise

section Books

variable {config : SpaceConfig} {state after : SpaceState} {own : Admission}
  {tars temps : Dict Str Nat}

def StepRight (config : SpaceConfig) (state : SpaceState) (own : Admission) : AdmitStep → Prop
  | .reserveList free gap =>
    (gap.admissions ≤ state.admissions ∧ gap.writes ≤ state.writes) ∧
      (gap.admissions = state.admissions → gap.writes = state.writes → free ≤ state.free)
  | .reserveSum free gap acc todo =>
    (gap.admissions ≤ state.admissions ∧ gap.writes ≤ state.writes) ∧
      (gap.admissions = state.admissions → gap.writes = state.writes →
        (free : Int) - acc - (todo.map state.remaining).sum ≤ state.spare)
  | .claimFree gap steady | .claimLock _ gap steady | .claimBase _ gap steady =>
    gap.admissions ≤ state.admissions ∧
      (steady = true → gap.admissions = state.admissions →
        (config.minFreeBytes : Int) + own.need ≤ state.spare)
  | .claim _ base gap steady =>
    (gap.admissions ≤ state.admissions ∧
      (steady = true → gap.admissions = state.admissions →
        (config.minFreeBytes : Int) + own.need ≤ state.spare)) ∧ state.onDisk own.tar ≤ base
  | .admitted | .restoring => ∃ held, state.reserved.get? (restoreKey own.tar) = some held ∧
      (own.step = .admitted → held.nbytes = own.need)
  | _ => True

structure ThreadRight (config : SpaceConfig) (state : SpaceState) (own : Admission) : Prop where
  estimated : own.need = config.sealedEstimate own.tar
  unwritten : own.step ≠ .restoring → state.tarSize own.tar = 0
  step : StepRight config state own own.step

structure SpaceBooks (config : SpaceConfig) (state : SpaceState) : Prop where
  threads : ∀ thread own, state.threads.get? thread = some own → ThreadRight config state own
  apart : ∀ thread other own own', state.threads.get? thread = some own →
    state.threads.get? other = some own' → own.tar = own'.tar → thread = other
  entries : ∀ key held, state.reserved.get? key = some held →
    key = restoreKey held.tar ∧ held.left ≤ state.remaining held ∧ held.tar ∈ state.expanded
  restored : ∀ tar ∈ state.pressed, (state.tars.get? tar).isSome → tar ∈ state.expanded
  reserve : state.lastBefore ≠ none → (config.minFreeBytes : Int) ≤ state.spare
  slot : ∀ a ∈ state.pressed, ∀ b ∈ state.pressed, state.Holds a → state.Holds b → a = b

theorem SpaceBooks.kept (books : SpaceBooks config state) : SpaceKept config state where
  reserve before last _ := books.reserve (by rw [last]; exact Option.some_ne_none _)
  slot := books.slot

theorem restoreKey_inj {a b : Str} (same : restoreKey a = restoreKey b) : a = b :=
  List.append_cancel_left same

structure Eases (state after : SpaceState) : Prop where
  admissions : state.admissions ≤ after.admissions
  writes : state.writes ≤ after.writes
  quiet : after.admissions = state.admissions → after.writes = state.writes →
    state.free ≤ after.free ∧ ∀ held, state.remaining held ≤ after.remaining held
  spare : after.admissions = state.admissions → state.spare ≤ after.spare

theorem ThreadRight.ease (right : ThreadRight config state own) (eases : Eases state after)
    (unwritten : state.tarSize own.tar = 0 → after.tarSize own.tar = 0)
    (shrinks : after.onDisk own.tar ≤ state.onDisk own.tar)
    (kept : after.reserved.get? (restoreKey own.tar) = state.reserved.get? (restoreKey own.tar)) :
    ThreadRight config after own where
  estimated := right.estimated
  unwritten early := unwritten (right.unwritten early)
  step := by
    have before := right.step
    have more := eases.admissions
    have later := eases.writes
    cases step : own.step with
    | growthFree | growthLock _ | reserveFree => trivial
    | reserveList free gap =>
      rw [step] at before
      refine ⟨⟨by have := before.1; omega, by have := before.1; omega⟩, fun same wrote => ?_⟩
      have := before.1
      have quiet := eases.quiet (by omega) (by omega)
      exact le_trans (before.2 (by omega) (by omega)) quiet.1
    | reserveSum free gap acc todo =>
      rw [step] at before
      refine ⟨⟨by have := before.1; omega, by have := before.1; omega⟩, fun same wrote => ?_⟩
      have := before.1
      have quiet := eases.quiet (by omega) (by omega)
      have grown : (todo.map state.remaining).sum ≤ (todo.map after.remaining).sum :=
        List.sum_le_sum fun held _ => quiet.2 held
      have bound := before.2 (by omega) (by omega)
      have spare := eases.spare (by omega)
      omega
    | claimFree gap steady | claimLock _ gap steady | claimBase _ gap steady =>
      rw [step] at before
      refine ⟨by have := before.1; omega, fun calm same => ?_⟩
      have := before.1
      exact le_trans (before.2 calm (by omega)) (eases.spare (by omega))
    | claim _ base gap steady =>
      rw [step] at before
      refine ⟨⟨by have := before.1.1; omega, fun calm same => ?_⟩, le_trans shrinks before.2⟩
      have := before.1.1
      exact le_trans (before.1.2 calm (by omega)) (eases.spare (by omega))
    | admitted | restoring =>
      rw [step] at before
      obtain ⟨held, found, asked⟩ := before
      exact ⟨held, kept.trans found, asked⟩

theorem Eases.freed (admissions : after.admissions = state.admissions)
    (writes : after.writes = state.writes) (free : state.free ≤ after.free)
    (disk : ∀ tar, after.onDisk tar ≤ state.onDisk tar)
    (owed : (after.reserved.total fun _ held => held.left) ≤
      state.reserved.total fun _ held => held.left) : Eases state after where
  admissions := admissions.ge
  writes := writes.ge
  quiet _ _ := ⟨free, fun held => Nat.sub_le_sub_left (Nat.sub_le_sub_right (disk _) _) _⟩
  spare _ := by
    simp only [SpaceState.spare]
    omega

theorem SpaceBooks.flag (books : SpaceBooks config state) (pressure : Bool) :
    SpaceBooks config { state with pressure := pressure } where
  threads thread own held :=
    (books.threads thread own held).ease (Eases.freed rfl rfl le_rfl (fun _ => le_rfl) le_rfl) id le_rfl rfl
  apart := books.apart
  entries := books.entries
  restored := books.restored
  reserve := books.reserve
  slot := books.slot

variable {thread : Nat} {tar : Str}

theorem SpaceBooks.goto_apart (books : SpaceBooks config state) {step : AdmitStep}
    (found : state.threads.get? thread = some own) :
    ∀ a b own' own'', (state.goto thread own step).threads.get? a = some own' →
      (state.goto thread own step).threads.get? b = some own'' → own'.tar = own''.tar → a = b := by
  intro a b own' own'' first second same
  simp only [goto, Dict.get?_set] at first second
  split at first <;> split at second
  · next one two => rw [one, two]
  · next one _ =>
      cases first
      exact one.trans (books.apart thread b own own'' found second same)
  · next _ two =>
      cases second
      exact (books.apart a thread own' own first found same).trans two.symm
  · exact books.apart a b own' own'' first second same

theorem SpaceBooks.leave_apart (books : SpaceBooks config state) (thread : Nat) :
    ∀ a b own' own'', (state.leave thread).threads.get? a = some own' →
      (state.leave thread).threads.get? b = some own'' → own'.tar = own''.tar → a = b := by
  intro a b own' own'' first second same
  simp only [leave, Dict.get?_erase] at first second
  split at first
  · cases first
  · split at second
    · cases second
    · exact books.apart a b own' own'' first second same

theorem moved_books {step : AdmitStep} (books : SpaceBooks config state)
    (found : state.threads.get? thread = some own) (early : own.step ≠ .restoring)
    (right : StepRight config state { own with step := step } step) :
    SpaceBooks config (state.goto thread own step) where
  threads other own' held := by
    simp only [goto, Dict.get?_set] at held
    split at held
    · cases held
      refine ⟨(books.threads thread own found).estimated, fun _ => ?_, ?_⟩
      · exact (books.threads thread own found).unwritten early
      · cases step <;> exact right
    · exact (books.threads other own' held).ease (Eases.freed rfl rfl le_rfl (fun _ => le_rfl) le_rfl) id le_rfl rfl
  apart := books.goto_apart found
  entries := books.entries
  restored := books.restored
  reserve := books.reserve
  slot := books.slot

theorem SpaceBooks.left (books : SpaceBooks config state) (thread : Nat) :
    SpaceBooks config (state.leave thread) where
  threads other own' held := by
    simp only [leave, Dict.get?_erase] at held
    split at held
    · cases held
    · exact (books.threads other own' held).ease (Eases.freed rfl rfl le_rfl (fun _ => le_rfl) le_rfl) id le_rfl rfl
  apart := books.leave_apart thread
  entries := books.entries
  restored := books.restored
  reserve := books.reserve
  slot := books.slot

theorem SpaceBooks.key_apart (books : SpaceBooks config state) {other : Nat}
    {own' : Admission} (found : state.threads.get? thread = some own)
    (held : state.threads.get? other = some own') (different : other ≠ thread) :
    own'.tar ≠ own.tar ∧ restoreKey own'.tar ≠ restoreKey own.tar := by
  have tars : own'.tar ≠ own.tar := fun same =>
    different (books.apart other thread own' own held found same)
  exact ⟨tars, fun same => tars (restoreKey_inj same)⟩

theorem SpaceBooks.live_of_holds (books : SpaceBooks config state)
    (pressed : tar ∈ state.pressed) (holds : state.Holds tar) : tar ∈ state.live := by
  rw [live, Finset.mem_filter]
  rcases holds with held | there
  · obtain ⟨entry, found⟩ := Option.isSome_iff_exists.mp held
    obtain ⟨key, _, expanded⟩ := books.entries _ _ found
    rw [← restoreKey_inj key] at expanded
    exact ⟨expanded, .inr (.inr held)⟩
  · exact ⟨books.restored tar pressed there, .inl there⟩

theorem claimed_books {base : Nat} {pressure steady : Bool} {gap : SpaceGap}
    (books : SpaceBooks config state) (found : state.threads.get? thread = some own)
    (step : own.step = .claim pressure base gap steady)
    (open_ : pressure = false ∨ state.live.erase own.tar = ∅)
    (room : (config.minFreeBytes : Int) + own.need ≤ state.spare)
    (tested : state.pressure = true → pressure = true ∨ state.live.erase own.tar = ∅) :
    SpaceBooks config (state.claimSlot thread own pressure base) := by
  have right := books.threads thread own found
  have known := right.step
  rw [step] at known
  have kept : ∀ tar ∈ state.expanded, (state.tars.get? tar).isSome ∨
      (state.reserved.get? (restoreKey tar)).isSome →
      tar ∈ insert own.tar (if pressure then state.live else state.expanded) := by
    intro tar expanded alive
    refine Finset.mem_insert_of_mem ?_
    split
    · rw [live, Finset.mem_filter]
      exact ⟨expanded, alive.imp_right .inr⟩
    · exact expanded
  have succeeds : (pressure && !(state.live.erase own.tar = ∅)) = false := by
    rcases open_ with off | empty
    · simp [off]
    · simp [empty]
  have elsewhere : ∀ tar, tar ≠ own.tar →
      (state.reserved.set (restoreKey own.tar) ⟨own.need, own.tar, base, own.need⟩).get?
        (restoreKey tar) = state.reserved.get? (restoreKey tar) :=
    fun tar apart => Dict.get?_set_of_ne _ (fun key => apart (restoreKey_inj key)) _
  simp only [claimSlot, succeeds, Bool.false_eq_true, if_false]
  refine ⟨fun other own' held => ?_, books.goto_apart found, fun key entry held => ?_,
    fun tar pressed there => ?_, fun _ => ?_, fun a first b second holdsA holdsB => ?_⟩
  · simp only [goto, Dict.get?_set] at held
    split at held
    · cases held
      exact ⟨right.estimated, fun _ => right.unwritten (by rw [step]; simp),
        ⟨own.need, own.tar, base, own.need⟩, Dict.get?_set_self _ _ _, fun _ => rfl⟩
    · next different =>
        refine (books.threads other own' held).ease ⟨Nat.le_succ _, le_rfl,
          fun counted => ?_, fun counted => ?_⟩ id le_rfl
          (Dict.get?_set_of_ne _ (books.key_apart found held different).2 _)
        · simp at counted
        · simp at counted
  · simp only [Dict.get?_set] at held
    split at held
    · next own_ =>
        cases held
        refine ⟨own_, ?_, Finset.mem_insert_self _ _⟩
        have grown := known.2
        simp only [remaining, onDisk, tarSize, goto]
          at grown ⊢
        omega
    · obtain ⟨named, left, expanded⟩ := books.entries key entry held
      refine ⟨named, left, kept _ expanded (.inr ?_)⟩
      rw [← named, held, Option.isSome_some]
  · by_cases mine : tar = own.tar
    · rw [mine]
      exact Finset.mem_insert_self _ _
    · refine kept tar (books.restored tar ?_ there) (.inl there)
      simp only at pressed
      split at pressed
      · exact (Finset.mem_insert.mp pressed).resolve_left mine
      · exact Finset.mem_of_mem_erase pressed
  · have more := Dict.total_set_le (fun (_ : Str) (held : Reservation) => held.left) state.reserved
      (restoreKey own.tar) ⟨own.need, own.tar, base, own.need⟩
    simp only [spare, goto] at room more ⊢
    omega
  · have before : ∀ tar, tar ≠ own.tar → (Holds { state.goto thread own .admitted with
        expanded := insert own.tar (if pressure then state.live else state.expanded)
        reserved := state.reserved.set (restoreKey own.tar) ⟨own.need, own.tar, base, own.need⟩
        admissions := state.admissions + 1
        lastBefore := some state.spare
        pressed := if state.pressure then insert own.tar state.pressed
          else state.pressed.erase own.tar } tar) → state.Holds tar := by
      intro tar apart holds
      simp only [Holds, elsewhere tar apart] at holds
      exact holds
    cases flag : state.pressure with
    | false =>
      simp only [flag, Bool.false_eq_true, if_false, Finset.mem_erase] at first second
      exact books.slot a first.2 b second.2 (before a first.1 holdsA) (before b second.1 holdsB)
    | true =>
      have none_ : state.live.erase own.tar = ∅ := by
        rcases tested flag with seen | empty
        · rcases open_ with off | empty
          · rw [seen] at off
            cases off
          · exact empty
        · exact empty
      have alone : ∀ tar ∈ state.pressed, tar ≠ own.tar → ¬state.Holds tar := by
        intro tar pressed apart holds
        have inside := Finset.mem_erase.mpr ⟨apart, books.live_of_holds pressed holds⟩
        rw [none_] at inside
        exact absurd inside (Finset.notMem_empty tar)
      simp only [flag, if_true, Finset.mem_insert] at first second
      have only : ∀ tar, tar = own.tar ∨ tar ∈ state.pressed →
          (tar ≠ own.tar → state.Holds tar) → tar = own.tar := by
        intro tar pressed holds
        by_contra apart
        exact alone tar (pressed.resolve_left apart) apart (holds apart)
      have mineA := only a first fun apart => before a apart holdsA
      exact mineA.trans (only b second fun apart => before b apart holdsB).symm

theorem SpaceBooks.owed_le (books : SpaceBooks config state) :
    (state.reserved.total fun _ held => held.left) ≤ state.reservedBytes := by
  have below : (state.reserved.total fun _ held => held.left) ≤
      state.reserved.total fun _ held => state.remaining held := by
    apply Dict.total_le
    intro entry member
    exact (books.entries _ _ (Dict.get?_eq_some.mpr member)).2.1
  calc (state.reserved.total fun _ held => held.left)
      ≤ state.reserved.total fun _ held => state.remaining held := below
    _ = state.reservedBytes := by
      rw [reservedBytes, List.map_map]
      rfl

theorem SpaceBooks.room (books : SpaceBooks config state) {need : Nat}
    (fits : state.fits config need = true) :
    (config.minFreeBytes : Int) + need ≤ state.spare := by
  have owed := books.owed_le
  have bound := of_decide_eq_true fits
  simp only [spare]
  omega

theorem SpaceBooks.pruned (books : SpaceBooks config state) :
    SpaceBooks config { state with expanded := state.live } where
  threads thread own held := (books.threads thread own held).ease
    (Eases.freed rfl rfl le_rfl (fun _ => le_rfl) le_rfl) id le_rfl rfl
  apart := books.apart
  entries key held found := by
    obtain ⟨named, left, expanded⟩ := books.entries key held found
    refine ⟨named, left, Finset.mem_filter.mpr ⟨expanded, .inr (.inr ?_)⟩⟩
    rw [← named, found, Option.isSome_some]
  restored tar pressed there :=
    Finset.mem_filter.mpr ⟨books.restored tar pressed there, .inl there⟩
  reserve := books.reserve
  slot := books.slot

structure Touches (state after : SpaceState) (tar : Str) : Prop where
  tars : ∀ other, other ≠ tar → after.tars.get? other = state.tars.get? other
  temps : ∀ other, other ≠ tar → after.temps.get? other = state.temps.get? other
  reserved : ∀ key, key ≠ restoreKey tar → after.reserved.get? key = state.reserved.get? key
  expanded : after.expanded = state.expanded
  pressed : after.pressed = state.pressed
  lastBefore : after.lastBefore = state.lastBefore
  admissions : after.admissions = state.admissions
  eases : Eases state after

theorem Touches.tarSize {other : Str} (touches : Touches state after tar)
    (apart : other ≠ tar) : after.tarSize other = state.tarSize other := by
  rw [SpaceState.tarSize, touches.tars other apart, SpaceState.tarSize]

theorem Touches.onDisk {other : Str} (touches : Touches state after tar)
    (apart : other ≠ tar) : after.onDisk other = state.onDisk other := by
  rw [SpaceState.onDisk, touches.tarSize apart, touches.temps other apart, SpaceState.onDisk]

theorem SpaceBooks.touched (books : SpaceBooks config state) (touches : Touches state after tar)
    (others : ∀ thread own, after.threads.get? thread = some own → own.tar ≠ tar →
      state.threads.get? thread = some own)
    (mine : ∀ thread own, after.threads.get? thread = some own → own.tar = tar →
      ThreadRight config after own)
    (apart : ∀ a b own own', after.threads.get? a = some own → after.threads.get? b = some own' →
      own.tar = own'.tar → a = b)
    (entry : ∀ held, after.reserved.get? (restoreKey tar) = some held →
      held.tar = tar ∧ held.left ≤ after.remaining held ∧ tar ∈ state.expanded)
    (holds : after.Holds tar → state.Holds tar)
    (there : (after.tars.get? tar).isSome → (state.tars.get? tar).isSome ∨ tar ∈ state.expanded) :
    SpaceBooks config after where
  threads thread own held := by
    by_cases same : own.tar = tar
    · exact mine thread own held same
    · refine (books.threads thread own (others thread own held same)).ease touches.eases ?_ ?_ ?_
      · rw [touches.tarSize same]
        exact id
      · rw [touches.onDisk same]
      · exact touches.reserved _ fun key => same (restoreKey_inj key)
  apart := apart
  entries key held found := by
    rw [touches.expanded]
    by_cases own : key = restoreKey tar
    · rw [own] at found ⊢
      obtain ⟨named, left, expanded⟩ := entry held found
      exact ⟨by rw [named], left, named ▸ expanded⟩
    · rw [touches.reserved key own] at found
      obtain ⟨named, left, expanded⟩ := books.entries key held found
      refine ⟨named, ?_, expanded⟩
      rw [remaining, touches.onDisk fun same => own (by rw [named, same])]
      exact left
  restored other pressed held := by
    rw [touches.pressed] at pressed
    rw [touches.expanded]
    by_cases same : other = tar
    · rw [same] at pressed held ⊢
      exact (there held).elim (books.restored tar pressed) id
    · rw [touches.tars other same] at held
      exact books.restored other pressed held
  reserve last := by
    rw [touches.lastBefore] at last
    exact le_trans (books.reserve last) (touches.eases.spare touches.admissions)
  slot a first b second holdsA holdsB := by
    rw [touches.pressed] at first second
    have back : ∀ other, after.Holds other → state.Holds other := by
      intro other held
      by_cases same : other = tar
      · rw [same] at held ⊢
        exact holds held
      · rw [Holds, touches.tars other same,
          touches.reserved _ fun key => same (restoreKey_inj key)] at held
        exact held
    exact books.slot a first b second (back a holdsA) (back b holdsB)

theorem SpaceBooks.restores (books : SpaceBooks config state)
    (found : state.threads.get? thread = some own) (step : own.step = .restoring)
    (touches : Touches state after own.tar) (threads : after.threads = state.threads)
    (entry : ∃ held, after.reserved.get? (restoreKey own.tar) = some held ∧ held.tar = own.tar ∧
      held.left ≤ after.remaining held) :
    SpaceBooks config after := by
  have right := books.threads thread own found
  have known := right.step
  rw [step] at known
  obtain ⟨old, reserved, _⟩ := known
  obtain ⟨held, now, named, left⟩ := entry
  have expanded : own.tar ∈ state.expanded := by
    obtain ⟨key, _, expanded⟩ := books.entries _ _ reserved
    rw [restoreKey_inj key]
    exact expanded
  have present : state.Holds own.tar := .inl (by rw [reserved, Option.isSome_some])
  refine books.touched touches (fun other own' held _ => threads ▸ held)
    (fun other own' mine same => ?_) (by rw [threads]; exact books.apart)
    (fun other is => ?_) (fun _ => present) (fun _ => .inr expanded)
  · rw [threads] at mine
    have only := books.apart other thread own' own mine found same
    rw [only, found] at mine
    cases mine
    refine ⟨right.estimated, fun early => absurd step early, ?_⟩
    rw [step]
    exact ⟨held, now, fun admitted => by rw [step] at admitted; cases admitted⟩
  · rw [now] at is
    cases is
    exact ⟨named, left, expanded⟩

theorem SpaceBooks.restoring_held (books : SpaceBooks config state)
    (found : state.threads.get? thread = some own) (step : own.step = .restoring) :
    ∃ held, state.reserved.get? (restoreKey own.tar) = some held ∧ held.tar = own.tar ∧
      held.left ≤ state.remaining held := by
  have known := (books.threads thread own found).step
  rw [step] at known
  obtain ⟨held, reserved, _⟩ := known
  obtain ⟨key, left, _⟩ := books.entries _ _ reserved
  exact ⟨held, reserved, (restoreKey_inj key).symm, left⟩

theorem wrote_books {bytes : Nat} (books : SpaceBooks config state)
    (found : state.threads.get? thread = some own) (step : own.step = .restoring) :
    SpaceBooks config (state.restore thread own (.write bytes)) := by
  obtain ⟨held, reserved, named, left⟩ := books.restoring_held found step
  simp only [restore, reserved]
  split
  · next fits =>
      have total := Dict.total_set_old (fun (_ : Str) (held : Reservation) => held.left)
        reserved { held with left := held.left - bytes }
      refine books.restores found step ⟨fun _ _ => rfl,
        fun other apart => Dict.get?_set_of_ne _ apart _,
        fun key apart => Dict.get?_set_of_ne _ apart _, rfl, rfl, rfl, rfl,
        ⟨le_rfl, Nat.le_succ _, fun _ wrote => by simp at wrote, fun _ => ?_⟩⟩ rfl
        ⟨_, Dict.get?_set_self _ _ _, named, ?_⟩
      · simp only [spare] at total ⊢
        omega
      · simp only [remaining, onDisk, tarSize, named,
          Dict.get?_set_self, Option.getD_some] at left ⊢
        omega
  · exact books

theorem onDisk_le {tar : Str} (elsewhere : ∀ other, other ≠ tar →
      after.tars.get? other = state.tars.get? other ∧
        after.temps.get? other = state.temps.get? other)
    (here : after.onDisk tar ≤ state.onDisk tar) (other : Str) :
    after.onDisk other ≤ state.onDisk other := by
  by_cases same : other = tar
  · rw [same]
    exact here
  · obtain ⟨tars, temps⟩ := elsewhere other same
    rw [onDisk, onDisk, tarSize, tarSize, tars, temps]

theorem SpaceBooks.restore_frees (books : SpaceBooks config state)
    (found : state.threads.get? thread = some own) (step : own.step = .restoring) {free : Nat}
    (more : state.free ≤ free)
    (others : ∀ other, other ≠ own.tar → tars.get? other = state.tars.get? other ∧
      temps.get? other = state.temps.get? other)
    (here : (tars.get? own.tar).getD 0 + (temps.get? own.tar).getD 0 ≤ state.onDisk own.tar) :
    SpaceBooks config { state with free := free, tars := tars, temps := temps } := by
  obtain ⟨held, reserved, named, left⟩ := books.restoring_held found step
  have disk := @onDisk_le state { state with free := free, tars := tars, temps := temps } own.tar
    others here
  refine books.restores found step ⟨fun other apart => (others other apart).1,
    fun other apart => (others other apart).2, fun _ _ => rfl, rfl, rfl, rfl, rfl,
    Eases.freed rfl rfl more disk le_rfl⟩ rfl ⟨held, reserved, named, ?_⟩
  exact le_trans left (Nat.sub_le_sub_left (Nat.sub_le_sub_right (disk _) _) _)

theorem published_books (books : SpaceBooks config state)
    (found : state.threads.get? thread = some own) (step : own.step = .restoring) :
    SpaceBooks config (state.restore thread own .publish) := by
  simp only [restore]
  split
  · next size temp =>
      refine books.restore_frees found step (Nat.le_add_right _ _) (fun other apart =>
        ⟨Dict.get?_set_of_ne _ apart _, Dict.get?_erase_of_ne _ apart⟩) ?_
      simp only [Dict.get?_set_self, Dict.get?_erase_self, onDisk, temp,
        Option.getD_some, Option.getD_none]
      omega
  · exact books

theorem dropped_books (books : SpaceBooks config state)
    (found : state.threads.get? thread = some own) (step : own.step = .restoring) :
    SpaceBooks config (state.restore thread own .dropTemp) := by
  refine books.restore_frees found step (Nat.le_add_right _ _) (fun other apart =>
    ⟨rfl, Dict.get?_erase_of_ne _ apart⟩) ?_
  simp only [Dict.get?_erase_self, onDisk, tarSize, Option.getD_none]
  omega

theorem released_books (books : SpaceBooks config state)
    (found : state.threads.get? thread = some own) (step : own.step = .restoring) :
    SpaceBooks config (state.restore thread own .release) := by
  obtain ⟨held, reserved, named, _⟩ := books.restoring_held found step
  have present : state.Holds own.tar := .inl (by rw [reserved, Option.isSome_some])
  refine books.touched ⟨fun _ _ => rfl, fun _ _ => rfl,
    fun key apart => Dict.get?_erase_of_ne _ apart, rfl, rfl, rfl, rfl, Eases.freed rfl rfl
      le_rfl (fun _ => le_rfl) (Dict.total_erase_le _ _ _)⟩
    (fun other own' mine _ => ?_) (fun other own' mine same => ?_) (books.leave_apart thread)
    (fun entry is => ?_) (fun _ => present) .inl
  · simp only [restore, leave, Dict.get?_erase] at mine
    split at mine
    · cases mine
    · exact mine
  · simp only [restore, leave, Dict.get?_erase] at mine
    split at mine
    · cases mine
    · next different => exact absurd (books.apart other thread own' own mine found same) different
  · simp only [restore, Dict.get?_erase_self] at is
    cases is

theorem taken_books (books : SpaceBooks config state)
    (found : state.threads.get? thread = some own) (step : own.step = .admitted) :
    SpaceBooks config (state.goOn config thread own) := by
  have right := books.threads thread own found
  have known := right.step
  rw [step] at known
  obtain ⟨held, reserved, asked⟩ := known
  obtain ⟨key, left, expanded⟩ := books.entries _ _ reserved
  have named := restoreKey_inj key
  rw [← named] at expanded
  have missing := right.unwritten (by rw [step]; simp)
  have estimate : state.estimate config own.tar = own.need := by
    rw [estimate, missing, right.estimated]
    rfl
  have present : state.Holds own.tar := .inl (by rw [reserved, Option.isSome_some])
  have total := Dict.total_set_old (fun (_ : Str) (held : Reservation) => held.left) reserved
    ⟨own.need, own.tar, state.onDisk own.tar, held.left⟩
  have within : held.left ≤ own.need := by
    rw [← asked step]
    exact le_trans left (Nat.sub_le _ _)
  simp only [goOn, step, reserved, Option.elim_some, estimate]
  refine books.touched ⟨fun _ _ => rfl, fun _ _ => rfl,
    fun key apart => Dict.get?_set_of_ne _ apart _, rfl, rfl, rfl, rfl, Eases.freed rfl rfl
      le_rfl (fun _ => le_rfl) (by simp only at total ⊢; omega)⟩
    (fun other own' mine apart => ?_) (fun other own' mine same => ?_) (books.goto_apart found)
    (fun entry is => ?_) (fun _ => present) .inl
  · simp only [goto, Dict.get?_set] at mine
    split at mine
    · cases mine
      exact absurd rfl apart
    · exact mine
  · simp only [goto, Dict.get?_set] at mine
    split at mine
    · cases mine
      exact ⟨right.estimated, fun early => absurd rfl early,
        _, Dict.get?_set_self _ _ _, fun admitted => by cases admitted⟩
    · next different => exact absurd (books.apart other thread own' own mine found same) different
  · simp only [Dict.get?_set_self] at is
    cases is
    refine ⟨rfl, ?_, expanded⟩
    simp only [remaining, onDisk, tarSize, goto]
    omega

theorem removed_books (books : SpaceBooks config state) (tar : Str) :
    SpaceBooks config (spaceStep config state (.removeTar tar)) := by
  have disk : ∀ other, (spaceStep config state (.removeTar tar)).onDisk other ≤
      state.onDisk other := by
    refine @onDisk_le state _ tar
      (fun other apart => ⟨Dict.get?_erase_of_ne _ apart, rfl⟩) ?_
    simp only [spaceStep, onDisk, tarSize, Dict.get?_erase_self,
      Option.getD_none]
    omega
  have eases : Eases state (spaceStep config state (.removeTar tar)) :=
    Eases.freed rfl rfl (Nat.le_add_right _ _) disk le_rfl
  have gone : (spaceStep config state (.removeTar tar)).tarSize tar = 0 := by
    simp [spaceStep, tarSize]
  refine books.touched ⟨fun other apart => Dict.get?_erase_of_ne _ apart, fun _ _ => rfl,
    fun _ _ => rfl, rfl, rfl, rfl, rfl, eases⟩ (fun _ _ held _ => held)
    (fun other own mine same => ?_) books.apart (fun entry held => ?_)
    (fun holds => ?_) (fun there => ?_)
  · exact (books.threads other own mine).ease eases (fun _ => by rw [same]; exact gone) (disk _) rfl
  · obtain ⟨key, left, expanded⟩ := books.entries _ _ held
    have named := restoreKey_inj key
    refine ⟨named.symm, ?_, named ▸ expanded⟩
    exact le_trans left (Nat.sub_le_sub_left (Nat.sub_le_sub_right (disk _) _) _)
  · exact holds.imp_right fun there => by simp [spaceStep] at there
  · simp [spaceStep] at there

theorem went_books (books : SpaceBooks config state)
    (found : state.threads.get? thread = some own)
    (fresh : ClaimsFresh config state (.thread thread .go)) :
    SpaceBooks config (state.goOn config thread own) := by
  have right := books.threads thread own found
  have known := right.step
  cases step : own.step with
  | growthFree | reserveFree | claimFree _ _ | restoring =>
    simp only [goOn, step]
    exact books
  | growthLock free =>
    simp only [goOn, step]
    split
    · exact (books.left thread).flag _
    · exact (moved_books books found (by simp [step]) (by trivial)).flag _
  | reserveList free gap =>
    rw [step] at known
    simp only [goOn, step]
    refine moved_books books found (by simp [step]) ⟨known.1, fun same wrote => ?_⟩
    have read := known.2 same wrote
    have owed := books.owed_le
    simp only [reservedBytes] at owed
    simp only [spare]
    omega
  | reserveSum free gap acc todo =>
    rw [step] at known
    cases todo with
    | cons held todo =>
      simp only [goOn, step]
      refine moved_books books found (by simp [step]) ⟨known.1, fun same wrote => ?_⟩
      have bound := known.2 same wrote
      simp only [List.map_cons, List.sum_cons] at bound
      omega
    | nil =>
      simp only [goOn, step]
      split
      · next fits =>
          refine moved_books books found (by simp [step])
            ⟨known.1.1, fun steady same => ?_⟩
          have bound := known.2 same (of_decide_eq_true steady)
          simp only [List.map_nil, List.sum_nil] at bound
          have asked : (config.minFreeBytes : Int) + own.need ≤ state.spare := by omega
          exact asked
      · exact books.left thread
  | claimLock free gap steady =>
    rw [step] at known
    simp only [goOn, step]
    exact (moved_books books found (by simp [step]) known).flag _
  | claimBase pressure gap steady =>
    rw [step] at known
    simp only [goOn, step]
    exact moved_books books found (by simp [step]) ⟨known, le_rfl⟩
  | claim pressure base gap steady =>
    rw [step] at known
    simp only [goOn, step]
    by_cases open_ : pressure = false ∨ state.live.erase own.tar = ∅
    · obtain ⟨now, tested⟩ := fresh own pressure base gap steady found step open_
      refine claimed_books books found step open_ ?_ tested
      rcases now with fits | ⟨same, calm⟩
      · exact books.room fits
      · exact known.1.2 calm same
    · have denied : (pressure && !(state.live.erase own.tar = ∅)) = true := by
        obtain ⟨on, held⟩ := not_or.mp open_
        simp [Bool.eq_true_of_not_eq_false on, held]
      rw [claimSlot, if_pos denied]
      exact books.pruned.left thread
  | admitted => exact taken_books books found step

theorem read_books {fails : Bool} (books : SpaceBooks config state)
    (found : state.threads.get? thread = some own) :
    SpaceBooks config (state.readFree thread own fails) := by
  have known := (books.threads thread own found).step
  unfold readFree
  cases step : own.step with
  | growthFree => exact moved_books books found (by simp [step]) (by trivial)
  | reserveFree =>
    cases fails with
    | true => exact books.left thread
    | false =>
      exact moved_books books found (by simp [step])
        ⟨⟨le_rfl, le_rfl⟩, fun _ _ => le_rfl⟩
  | claimFree gap steady =>
    rw [step] at known
    exact moved_books books found (by simp [step]) known
  | _ => exact books

theorem begun_books {mode : RestoreMode}
    (books : SpaceBooks config state) (idle : state.threads.get? thread = none) :
    SpaceBooks config (spaceStep config state (.thread thread (.begin_ tar mode))) := by
  simp only [spaceStep, idle]
  split
  · exact books
  · next alone =>
      split
      · exact books
      · next wanted =>
          have missing : state.tarSize tar = 0 := by
            by_contra there
            exact wanted (if_pos (Nat.pos_of_ne_zero there))
          have free : ∀ other own, state.threads.get? other = some own → own.tar ≠ tar := by
            intro other own held same
            refine alone (List.any_eq_true.mpr ⟨_, Dict.get?_eq_some.mp held, ?_⟩)
            exact beq_iff_eq.mpr same
          refine ⟨fun other own held => ?_, fun a b own own' first second same => ?_,
            books.entries, books.restored, books.reserve, books.slot⟩
          · simp only [Dict.get?_set] at held
            split at held
            · cases held
              refine ⟨?_, fun _ => missing, ?_⟩
              · simp only [estimate, missing, lt_irrefl, if_false]
              · cases mode <;> trivial
            · exact (books.threads other own held).ease (Eases.freed rfl rfl le_rfl
                (fun _ => le_rfl) le_rfl) id le_rfl rfl
          · simp only [Dict.get?_set] at first second
            split at first <;> split at second
            · next one two => rw [one, two]
            · cases first
              exact absurd same.symm (free b own' second)
            · cases second
              exact absurd same (free a own first)
            · exact books.apart a b own own' first second same

theorem spaceStep_books {event : SpaceEvent} (books : SpaceBooks config state)
    (fresh : ClaimsFresh config state event) : SpaceBooks config (spaceStep config state event) := by
  cases event with
  | refreshPressure free => exact books.flag _
  | removeTar tar => exact removed_books books tar
  | thread thread act =>
    cases found : state.threads.get? thread with
    | none =>
      cases act with
      | begin_ tar mode => exact begun_books books found
      | _ =>
        simp only [spaceStep, found]
        exact books
    | some own =>
      cases act with
      | begin_ _ _ =>
        simp only [spaceStep, found]
        exact books
      | readFree fails =>
        simp only [spaceStep, found]
        exact read_books books found
      | go =>
        simp only [spaceStep, found]
        exact went_books books found fresh
      | write bytes =>
        simp only [spaceStep, found]
        split
        · next step => exact wrote_books books found step
        · exact books
      | publish =>
        simp only [spaceStep, found]
        split
        · next step => exact published_books books found step
        · exact books
      | dropTemp =>
        simp only [spaceStep, found]
        split
        · next step => exact dropped_books books found step
        · exact books
      | release =>
        simp only [spaceStep, found]
        split
        · next step => exact released_books books found step
        · exact books

def SpaceState.idle (free : Nat) (tars temps : Dict Str Nat) : SpaceState where
  free := free
  tars := tars
  temps := temps
  pressure := false
  reserved := .empty
  expanded := ∅
  threads := .empty
  admissions := 0
  writes := 0
  lastBefore := none
  pressed := ∅

theorem idle_books {free : Nat} :
    SpaceBooks config (.idle free tars temps) where
  threads thread own held := by cases held
  apart a b own own' first := by cases first
  entries key held found := by cases found
  restored tar pressed := absurd pressed (Finset.notMem_empty tar)
  reserve last := absurd rfl last
  slot a pressed := absurd pressed (Finset.notMem_empty a)

end Books

section Result

/-- However the steps of the threads interleave, as long as the claims that succeed are made on what
is still so. -/
theorem restore_admission_kept (config : SpaceConfig) (free : Nat) (tars temps : Dict Str Nat)
    (events : List SpaceEvent)
    (fresh : Throughout (spaceStep config) (ClaimsFresh config) (.idle free tars temps) events)
    (early later : List SpaceEvent) (split : events = early ++ later) :
    SpaceKept config (early.foldl (spaceStep config) (.idle free tars temps)) := by
  rw [split, throughout_append] at fresh
  exact (fresh.1.kept idle_books fun _ _ => spaceStep_books).kept

private def twoDays : SpaceConfig where
  pressureFreeBytes := 0
  minFreeBytes := 40
  sealedEstimate _ := 30

private def untilClaim (thread : Nat) : List SpaceEvent :=
  [.begin_ (lit (if thread = 0 then "a.tar" else "b.tar")) .finish, .readFree false, .go, .go,
    .readFree false, .go, .go].map (.thread thread)

private def bothChecked : List SpaceEvent :=
  untilClaim 0 ++ untilClaim 1 ++ [.thread 0 .go, .thread 1 .go]

private def oneAfterAnother : List SpaceEvent :=
  untilClaim 0 ++ [.go, .go, .write 20, .publish, .release].map (.thread 0) ++
    [.removeTar (lit "a.tar")] ++ untilClaim 1 ++ [.thread 1 .go]

theorem restore_admission_kept_in_turn :
    (oneAfterAnother.foldl (spaceStep twoDays) (.idle 90 .empty .empty)).lastBefore = some 90 ∧
      SpaceKept twoDays (oneAfterAnother.foldl (spaceStep twoDays) (.idle 90 .empty .empty)) :=
  ⟨by decide +kernel, restore_admission_kept twoDays 90 .empty .empty oneAfterAnother
    (by decide +kernel) oneAfterAnother [] (List.append_nil _).symm⟩

theorem restore_admission_breaks :
    let state := bothChecked.foldl (spaceStep twoDays) (.idle 90 .empty .empty)
    state.lastBefore = some 60 ∧ state.spare = 30 ∧ ¬SpaceKept twoDays state := by
  have last : (bothChecked.foldl (spaceStep twoDays) (.idle 90 .empty .empty)).lastBefore =
      some 60 := by decide +kernel
  have spare : (bothChecked.foldl (spaceStep twoDays) (.idle 90 .empty .empty)).spare = 30 := by
    decide +kernel
  refine ⟨last, spare, fun kept => ?_⟩
  have bound := kept.reserve 60 last (by decide)
  exact absurd bound (by decide)

end Result

end PerfStats.Archive
