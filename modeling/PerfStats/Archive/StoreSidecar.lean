import PerfStats.Archive.MembersStore
import PerfStats.Lib.Runs

namespace PerfStats.Archive

open Text Function

section Sidecar

structure DayDocument where
  identities : Str → Option MemberMap
  daySkip : Option DaySkip
  degraded : Bool
  dedupeHint : Bool

/-- What `persist_day` takes under the lock. -/
def dayDocument (shard : DayShard Str) : DayDocument where
  identities := fun identity =>
    if shard.complete identity then (shard.members identity).map (·.members) else none
  daySkip := shard.daySkip
  degraded := shard.degraded
  dedupeHint := shard.dedupeHint

def loadSkip (skip : Option DaySkip) : Option DaySkip :=
  match skip with
  | some skip => if skip.kind.isEmpty then none else some ⟨skip.kind, skip.detail, none⟩
  | none => none

def loadDay (file : Option DayDocument) : DayShard Str :=
  match file with
  | some document =>
    { DayShard.empty with
      members := fun identity => (document.identities identity).map (StoredMap.mk 0)
      complete := fun identity => (document.identities identity).isSome
      daySkip := loadSkip document.daySkip
      degraded := document.degraded
      dedupeHint := document.dedupeHint }
  | none => .empty

/-- The calls that take the lock once; `merge_members` loops. -/
inductive StoreCall where
  | tryBegin (thread : Nat) (identity : Str)
  | finishPopulate (identity : Str) (members : Option MemberMap) (complete : Bool)
  | storeComplete (identity : Str) (members : MemberMap) (sawDuplicates : Bool)
  | clearIncomplete (identity : Str)
  | invalidate (identity : Str)
  | setDaySkip (kind detail : Str) (now : Nat)
  | touchDaySkip (now : Nat)
  | clearDaySkip
  | setDegraded
  | clearDegraded
  | clearDedupeHint

def StoreCall.change (shard : DayShard Str) : StoreCall → DayShard Str
  | .tryBegin thread identity => (tryBeginPopulate shard thread identity).2
  | .finishPopulate identity members complete =>
    Archive.finishPopulate shard identity members complete
  | .storeComplete identity members sawDuplicates =>
    Archive.storeComplete shard identity members sawDuplicates
  | .clearIncomplete identity => Archive.clearIncomplete shard identity
  | .invalidate identity => invalidateIdentity shard identity
  | .setDaySkip kind detail now => Archive.setDaySkip shard kind detail now
  | .touchDaySkip now => Archive.touchDaySkip shard now
  | .clearDaySkip => Archive.clearDaySkip shard
  | .setDegraded => Archive.setDegraded shard
  | .clearDegraded => Archive.clearDegraded shard
  | .clearDedupeHint => Archive.clearDedupeHint shard

/-- The calls that go on to `persist_day`. -/
def StoreCall.persists (shard : DayShard Str) : StoreCall → Bool
  | .tryBegin _ _ => false
  | .finishPopulate _ _ complete => complete
  | .clearIncomplete _ => false
  | .touchDaySkip _ => shard.daySkip.isSome
  | _ => true

/-- Where a thread is: out of the store, in the loop of a merge, behind a change, behind a snapshot
that is not written. -/
inductive SidecarPhase where
  | idle
  | mergeLoop (identity : Str) (incoming : MemberMap) (sawDuplicates : Bool)
  | mergeRead (identity : Str) (incoming : MemberMap) (sawDuplicates : Bool)
      (seen : Option StoredMap)
  | changed
  | writing (document : DayDocument) (turn : Nat)

structure SidecarState where
  shard : DayShard Str
  file : Option DayDocument
  phase : Nat → SidecarPhase
  taken : Nat
  landed : Nat

inductive SidecarEvent where
  | call (thread : Nat) (call : StoreCall)
  | merge (thread : Nat) (identity : Str) (incoming : MemberMap) (sawDuplicates : Bool)
  | mergeRead (thread : Nat)
  | mergeCommit (thread : Nat)
  | snapshot (thread : Nat)
  | write (thread : Nat)

def SidecarState.goto (state : SidecarState) (thread : Nat) (phase : SidecarPhase) :
    SidecarState :=
  { state with phase := update state.phase thread phase }

def sidecarStep (state : SidecarState) : SidecarEvent → SidecarState
  | .call thread call =>
    match state.phase thread with
    | .idle =>
      let phase := if call.persists state.shard then .changed else .idle
      { state.goto thread phase with shard := call.change state.shard }
    | _ => state
  | .merge thread identity incoming sawDuplicates =>
    match state.phase thread with
    | .idle => if incoming.entries.isEmpty then state
        else state.goto thread (.mergeLoop identity incoming sawDuplicates)
    | _ => state
  | .mergeRead thread =>
    match state.phase thread with
    | .mergeLoop identity incoming sawDuplicates =>
      state.goto thread
        (.mergeRead identity incoming sawDuplicates (state.shard.members identity))
    | _ => state
  | .mergeCommit thread =>
    match state.phase thread with
    | .mergeRead identity incoming sawDuplicates seen =>
      match mergeCommit state.shard identity incoming sawDuplicates seen with
      | some shard => { state.goto thread .changed with shard := shard }
      | none => state.goto thread (.mergeLoop identity incoming sawDuplicates)
    | _ => state
  | .snapshot thread =>
    match state.phase thread with
    | .changed =>
      { state.goto thread (.writing (dayDocument state.shard) (state.taken + 1)) with
        taken := state.taken + 1 }
    | _ => state
  | .write thread =>
    match state.phase thread with
    | .writing document turn =>
      { state.goto thread .idle with file := some document, landed := turn }
    | _ => state

/-- A store that is loaded from what is there of its file. -/
def openSidecar (file : Option DayDocument) : SidecarState :=
  ⟨loadDay file, file, fun _ => .idle, 0, 0⟩

def freshSidecar : SidecarState := ⟨.empty, none, fun _ => .idle, 0, 0⟩

def SidecarState.Quiet (state : SidecarState) : Prop := ∀ thread, state.phase thread = .idle

structure SameStore (loaded running : DayShard Str) : Prop where
  maps : ∀ identity, loaded.lookupCompleteMap identity = running.lookupCompleteMap identity
  daySkip : loaded.daySkip = running.daySkip
  degraded : loaded.degraded = running.degraded
  dedupeHint : loaded.dedupeHint = running.dedupeHint

def PersistsChange (state : SidecarState) : SidecarEvent → Prop
  | .call _ (.finishPopulate identity (some _) false) => state.shard.complete identity = false
  | _ => True

end Sidecar

section Documents

variable {shard : DayShard Str}

theorem dayDocument_congr {next : DayShard Str}
    (identities : ∀ identity, next.complete identity = true ∨ shard.complete identity = true →
      next.complete identity = shard.complete identity ∧
        next.members identity = shard.members identity)
    (daySkip : next.daySkip = shard.daySkip) (degraded : next.degraded = shard.degraded)
    (dedupeHint : next.dedupeHint = shard.dedupeHint) : dayDocument next = dayDocument shard := by
  have same : (dayDocument next).identities = (dayDocument shard).identities := by
    funext identity
    simp only [dayDocument]
    by_cases complete : next.complete identity = true ∨ shard.complete identity = true
    · rw [(identities identity complete).1, (identities identity complete).2]
    · rw [not_or] at complete
      rw [if_neg complete.1, if_neg complete.2]
  rw [dayDocument, dayDocument, DayDocument.mk.injEq]
  exact ⟨same, daySkip, degraded, dedupeHint⟩

theorem change_unpersisted {call : StoreCall} (silent : call.persists shard = false)
    (good : ∀ identity members, call = .finishPopulate identity (some members) false →
      shard.complete identity = false) :
    dayDocument (call.change shard) = dayDocument shard := by
  cases call with
  | tryBegin thread identity =>
    simp only [StoreCall.change, tryBeginPopulate]
    split
    · rfl
    · rfl
  | finishPopulate identity members complete =>
    cases complete with
    | true => cases silent
    | false =>
      cases members with
      | none => rfl
      | some members =>
        have incomplete := good identity members rfl
        refine dayDocument_congr ?_ rfl rfl rfl
        intro other complete
        refine ⟨rfl, update_of_ne ?_ _ _⟩
        intro same
        rw [same] at complete
        exact Bool.false_ne_true (incomplete.symm.trans (complete.elim id id))
  | clearIncomplete identity =>
    simp only [StoreCall.change, clearIncomplete]
    split
    next => rfl
    next incomplete =>
      refine dayDocument_congr ?_ rfl rfl rfl
      intro other complete
      refine ⟨rfl, update_of_ne ?_ _ _⟩
      intro same
      rw [same] at complete
      exact incomplete (complete.elim id id)
  | touchDaySkip now =>
    have unset : shard.daySkip = none := by simpa [StoreCall.persists] using silent
    simp [StoreCall.change, touchDaySkip, dayDocument, unset]
  | _ => cases silent

def Stamped (shard : DayShard Str) : Prop :=
  ∀ skip, shard.daySkip = some skip → skip.setAt.isSome = true

theorem change_stamped (stamped : Stamped shard) (call : StoreCall) :
    Stamped (call.change shard) := by
  intro skip set
  cases call with
  | tryBegin thread identity =>
    simp only [StoreCall.change, tryBeginPopulate] at set
    split at set
    · exact stamped skip set
    · exact stamped skip set
  | finishPopulate identity members complete =>
    refine stamped skip ?_
    cases members with
    | none => cases complete <;> exact set
    | some members => cases complete <;> exact set
  | storeComplete identity members sawDuplicates => exact stamped skip set
  | clearIncomplete identity =>
    simp only [StoreCall.change, clearIncomplete] at set
    split at set
    · exact stamped skip set
    · exact stamped skip set
  | invalidate identity => exact stamped skip set
  | setDaySkip kind detail now =>
    cases set
    rfl
  | touchDaySkip now =>
    obtain ⟨before, -, rfl⟩ := Option.map_eq_some_iff.mp set
    rfl
  | clearDaySkip => cases set
  | setDegraded => exact stamped skip set
  | clearDegraded => exact stamped skip set
  | clearDedupeHint => exact stamped skip set

theorem loadSkip_eq_iff (stamped : Stamped shard) :
    loadSkip shard.daySkip = shard.daySkip ↔ shard.daySkip = none := by
  cases set : shard.daySkip with
  | none => simp [loadSkip]
  | some skip =>
    have time := stamped skip set
    simp only [loadSkip, reduceCtorEq, iff_false]
    intro same
    split at same
    next => cases same
    next =>
      rw [← Option.some.inj same] at time
      cases time

theorem load_document_iff (stamped : Stamped shard) :
    SameStore (loadDay (some (dayDocument shard))) shard ↔
      shard.daySkip = none ∧
        ∀ identity, shard.complete identity = true → (shard.members identity).isSome = true := by
  have maps : ∀ identity,
      (loadDay (some (dayDocument shard))).lookupCompleteMap identity =
        shard.lookupCompleteMap identity ↔
      (shard.complete identity = true → (shard.members identity).isSome = true) := by
    intro identity
    cases complete : shard.complete identity with
    | false => simp [loadDay, dayDocument, DayShard.lookupCompleteMap, complete]
    | true =>
      cases stored : shard.members identity with
      | none => simp [loadDay, dayDocument, DayShard.lookupCompleteMap, complete, stored]
      | some map => simp [loadDay, dayDocument, DayShard.lookupCompleteMap, complete, stored]
  constructor
  · intro same
    exact ⟨(loadSkip_eq_iff stamped).mp same.daySkip,
      fun identity => (maps identity).mp (same.maps identity)⟩
  · intro holds
    exact ⟨fun identity => (maps identity).mpr (holds.2 identity),
      (loadSkip_eq_iff stamped).mpr holds.1, rfl, rfl⟩

end Documents

section Right

/-- `newest` is the newest snapshot; it is of the store as it is unless some thread is behind a
change. -/
structure SidecarRight (state : SidecarState) (newest : DayDocument) : Prop where
  current : (∃ thread, state.phase thread = .changed) ∨ dayDocument state.shard = newest
  pending : ∀ thread document turn, state.phase thread = .writing document turn →
    turn ≤ state.taken ∧ (turn = state.taken → document = newest)
  file : state.landed = state.taken → state.file.getD (dayDocument .empty) = newest
  landed : state.landed ≤ state.taken
  stamped : Stamped state.shard

variable {state : SidecarState} {newest : DayDocument}

theorem SidecarRight.goto (right : SidecarRight state newest) {thread : Nat} {phase : SidecarPhase}
    {shard : DayShard Str} (differs : state.phase thread ≠ .changed)
    (silent : phase = .changed ∨ dayDocument shard = dayDocument state.shard)
    (not_writing : ∀ document turn, phase ≠ .writing document turn) (stamped : Stamped shard) :
    SidecarRight { state.goto thread phase with shard := shard } newest := by
  refine ⟨?_, ?_, right.file, right.landed, stamped⟩
  · cases silent with
    | inl changed =>
      refine .inl ⟨thread, ?_⟩
      rw [changed]
      exact update_self ..
    | inr same =>
      rcases right.current with ⟨other, behind⟩ | current
      · refine .inl ⟨other, ?_⟩
        have others : other ≠ thread := by
          intro equal
          rw [equal] at behind
          exact differs behind
        exact (update_of_ne others _ _).trans behind
      · exact .inr (same.trans current)
  · intro other document turn here
    by_cases same : other = thread
    · subst same
      rw [show SidecarState.phase _ other = phase from update_self ..] at here
      exact absurd here (not_writing document turn)
    · refine right.pending other document turn (Eq.trans ?_ here)
      exact (update_of_ne same _ _).symm

theorem mergeCommit_stamped {shard next : DayShard Str} {identity : Str} {incoming : MemberMap}
    {sawDuplicates : Bool} {seen : Option StoredMap} (stamped : Stamped shard)
    (commits : mergeCommit shard identity incoming sawDuplicates seen = some next) :
    Stamped next := by
  unfold mergeCommit at commits
  split at commits
  next =>
    cases commits
    exact stamped
  next => cases commits

theorem snapshot_right (right : SidecarRight state newest) (thread : Nat) :
    SidecarRight
      { state.goto thread (.writing (dayDocument state.shard) (state.taken + 1)) with
        taken := state.taken + 1 }
      (dayDocument state.shard) := by
  have landed := right.landed
  refine ⟨.inr rfl, ?_, ?_, Nat.le_succ_of_le landed, right.stamped⟩
  · intro other document turn here
    by_cases same : other = thread
    · subst same
      rw [show SidecarState.phase _ other = _ from update_self ..] at here
      cases here
      exact ⟨le_rfl, fun _ => rfl⟩
    · rw [show SidecarState.phase _ other = _ from update_of_ne same _ _] at here
      have earlier := (right.pending other document turn here).1
      exact ⟨Nat.le_succ_of_le earlier,
        fun equal => absurd equal (Nat.ne_of_lt (Nat.lt_succ_of_le earlier))⟩
  · intro equal
    exact absurd equal (Nat.ne_of_lt (Nat.lt_succ_of_le landed))

theorem write_right (right : SidecarRight state newest) {thread turn : Nat}
    {document : DayDocument} (here : state.phase thread = .writing document turn) :
    SidecarRight { state.goto thread .idle with file := some document, landed := turn } newest := by
  obtain ⟨known, last⟩ := right.pending thread document turn here
  have moved : SidecarRight { state.goto thread .idle with shard := state.shard } newest :=
    right.goto (by simp [here]) (.inr rfl) (fun _ _ => by simp) right.stamped
  exact ⟨moved.current, moved.pending, last, known, right.stamped⟩

theorem sidecarStep_right (right : SidecarRight state newest) {event : SidecarEvent}
    (good : PersistsChange state event) :
    ∃ newest, SidecarRight (sidecarStep state event) newest := by
  cases event with
  | call thread call =>
    cases here : state.phase thread with
    | idle =>
      simp only [sidecarStep, here]
      refine ⟨newest, right.goto (by simp [here]) ?_ ?_ (change_stamped right.stamped call)⟩
      · cases persists : call.persists state.shard with
        | true => exact .inl rfl
        | false =>
          refine .inr (change_unpersisted persists ?_)
          intro identity members same
          rw [same] at good
          exact good
      · intro document turn
        split <;> simp
    | _ => exact ⟨newest, by simpa only [sidecarStep, here] using right⟩
  | merge thread identity incoming sawDuplicates =>
    cases here : state.phase thread with
    | idle =>
      simp only [sidecarStep, here]
      split
      next => exact ⟨newest, right⟩
      next =>
        exact ⟨newest, right.goto (by simp [here]) (.inr rfl) (fun _ _ => by simp)
          right.stamped⟩
    | _ => exact ⟨newest, by simpa only [sidecarStep, here] using right⟩
  | mergeRead thread =>
    cases here : state.phase thread with
    | mergeLoop identity incoming sawDuplicates =>
      simp only [sidecarStep, here]
      exact ⟨newest, right.goto (by simp [here]) (.inr rfl) (fun _ _ => by simp) right.stamped⟩
    | _ => exact ⟨newest, by simpa only [sidecarStep, here] using right⟩
  | mergeCommit thread =>
    cases here : state.phase thread with
    | mergeRead identity incoming sawDuplicates seen =>
      simp only [sidecarStep, here]
      split
      next shard commits =>
        exact ⟨newest, right.goto (by simp [here]) (.inl rfl) (fun _ _ => by simp)
          (mergeCommit_stamped right.stamped commits)⟩
      next =>
        exact ⟨newest, right.goto (by simp [here]) (.inr rfl) (fun _ _ => by simp)
          right.stamped⟩
    | _ => exact ⟨newest, by simpa only [sidecarStep, here] using right⟩
  | snapshot thread =>
    cases here : state.phase thread with
    | changed =>
      simp only [sidecarStep, here]
      exact ⟨_, snapshot_right right thread⟩
    | _ => exact ⟨newest, by simpa only [sidecarStep, here] using right⟩
  | write thread =>
    cases here : state.phase thread with
    | writing document turn =>
      simp only [sidecarStep, here]
      exact ⟨newest, write_right right here⟩
    | _ => exact ⟨newest, by simpa only [sidecarStep, here] using right⟩

end Right

section Runs

theorem dayDocument_loaded {document : DayDocument} (unset : document.daySkip = none) :
    dayDocument (loadDay (some document)) = document := by
  obtain ⟨identities, daySkip, degraded, dedupeHint⟩ := document
  cases unset
  rw [dayDocument, DayDocument.mk.injEq]
  refine ⟨funext fun identity => ?_, rfl, rfl, rfl⟩
  cases listed : identities identity <;> simp [loadDay, listed]

theorem openSidecar_right {file : Option DayDocument}
    (unset : ∀ document ∈ file, document.daySkip = none) :
    SidecarRight (openSidecar file) (file.getD (dayDocument .empty)) := by
  refine ⟨.inr ?_, (fun _ _ _ writes => by cases writes), fun _ => rfl, le_rfl, ?_⟩
  · cases file with
    | none => rfl
    | some document => exact dayDocument_loaded (unset document rfl)
  · intro skip set
    cases file with
    | none => cases set
    | some document =>
      have none_ : loadSkip document.daySkip = none := by rw [unset document rfl]; rfl
      cases none_.symm.trans set

theorem sidecar_run_right {state : SidecarState} {newest : DayDocument}
    (right : SidecarRight state newest) (events : List SidecarEvent)
    (good : Lib.Throughout sidecarStep PersistsChange state events) :
    ∃ newest, SidecarRight (events.foldl sidecarStep state) newest := by
  induction events generalizing state newest with
  | nil => exact ⟨newest, right⟩
  | cons event later ih =>
    obtain ⟨next, after⟩ := sidecarStep_right right good.1
    exact ih after good.2

theorem loadDay_getD (file : Option DayDocument) :
    loadDay (some (file.getD (dayDocument .empty))) = loadDay file := by
  cases file with
  | none => rfl
  | some document => rfl

/-- Once every call has returned and the newest snapshot was written last, the file gives the store
back if and only if no skip is set and each complete identity has a map. -/
theorem sidecar_gives_store_iff (file : Option DayDocument)
    (unset : ∀ document ∈ file, document.daySkip = none) (events : List SidecarEvent)
    (good : Lib.Throughout sidecarStep PersistsChange (openSidecar file) events)
    (quiet : (events.foldl sidecarStep (openSidecar file)).Quiet)
    (ordered : (events.foldl sidecarStep (openSidecar file)).landed =
      (events.foldl sidecarStep (openSidecar file)).taken) :
    SameStore (loadDay (events.foldl sidecarStep (openSidecar file)).file)
        (events.foldl sidecarStep (openSidecar file)).shard ↔
      (events.foldl sidecarStep (openSidecar file)).shard.daySkip = none ∧
        ∀ identity, (events.foldl sidecarStep (openSidecar file)).shard.complete identity = true →
          ((events.foldl sidecarStep (openSidecar file)).shard.members identity).isSome = true := by
  obtain ⟨newest, right⟩ := sidecar_run_right (openSidecar_right unset) events good
  have current := right.current.resolve_left fun behind => by
    obtain ⟨thread, changed⟩ := behind
    rw [quiet thread] at changed
    cases changed
  rw [← loadDay_getD, right.file ordered, ← current]
  exact load_document_iff right.stamped

def callsOnce (call : StoreCall) : List SidecarEvent := [.call 0 call, .snapshot 0, .write 0]

theorem callsOnce_quiet {call : StoreCall} (persists : call.persists .empty = true) :
    ((callsOnce call).foldl sidecarStep freshSidecar).Quiet := by
  intro thread
  simp [callsOnce, sidecarStep, freshSidecar, SidecarState.goto, persists]

def firstMap : MemberMap := Lib.Dict.empty.set (lit "host/1") 11

theorem sidecar_gives_store_iff_stored :
    SameStore
        (loadDay ((callsOnce (.storeComplete (lit "t1") firstMap false)).foldl sidecarStep
          freshSidecar).file)
        ((callsOnce (.storeComplete (lit "t1") firstMap false)).foldl sidecarStep
          freshSidecar).shard := by
  refine (sidecar_gives_store_iff none (fun _ held => by cases held)
    (callsOnce (.storeComplete (lit "t1") firstMap false)) ⟨trivial, trivial, trivial, trivial⟩
    (callsOnce_quiet rfl) rfl).mpr ⟨rfl, ?_⟩
  intro identity complete
  by_cases same : identity = lit "t1"
  · subst same
    rfl
  · simp [callsOnce, sidecarStep, openSidecar, loadDay, SidecarState.goto, StoreCall.change,
      StoreCall.persists, storeComplete, DayShard.dropStale, DayShard.noteDuplicates, DayShard.mark,
      DayShard.put, DayShard.empty, same] at complete

theorem sidecar_loses_set_at :
    ¬ ∀ events : List SidecarEvent, (events.foldl sidecarStep freshSidecar).Quiet →
      SameStore (loadDay (events.foldl sidecarStep freshSidecar).file)
        (events.foldl sidecarStep freshSidecar).shard := by
  intro always
  have same := always (callsOnce (.setDaySkip (lit "read_error") (lit "zstd") 7))
    (callsOnce_quiet rfl)
  exact absurd same.daySkip (by decide)

end Runs

end PerfStats.Archive
