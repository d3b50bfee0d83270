import PerfStats.Archive.MembersStore
import PerfStats.Lib.Runs

namespace PerfStats.Archive

open Text Function

section Populate

/-- Where a thread is: in a scan, behind `store_complete` or a failure, or in the loop of
`merge_members`, before and after its read. -/
inductive PopulatePhase where
  | idle
  | scanning (identity : Str) (begun : Nat)
  | published (identity : Str)
  | failing (identity : Str)
  | mergeLoop (identity : Str) (incoming : MemberMap)
  | mergeRead (identity : Str) (incoming : MemberMap) (seen : Option StoredMap)

/-- The identity between a `try_begin_populate` that succeeded and its `finish_populate`. -/
def PopulatePhase.populating : PopulatePhase → Option Str
  | .scanning identity _ => some identity
  | .published identity => some identity
  | .failing identity => some identity
  | _ => none

structure ScanRecord where
  identity : Str
  begun : Nat
  members : MemberMap

structure MergeRecord where
  identity : Str
  turn : Nat
  members : MemberMap

structure PopulateState where
  shard : DayShard Str
  phase : Nat → PopulatePhase
  scans : List ScanRecord
  merges : List MergeRecord

inductive PopulateEvent where
  | tryBegin (thread : Nat) (identity : Str)
  | storeComplete (thread : Nat) (members : MemberMap) (sawDuplicates : Bool)
  | fail (thread : Nat)
  | finish (thread : Nat)
  | merge (thread : Nat) (identity : Str) (incoming : MemberMap)
  | mergeRead (thread : Nat)
  | mergeCommit (thread : Nat) (sawDuplicates : Bool)
  | clearIncomplete (thread : Nat) (identity : Str)
  | invalidate (thread : Nat) (identity : Str)

def PopulateState.goto (state : PopulateState) (thread : Nat) (phase : PopulatePhase) :
    PopulateState :=
  { state with phase := update state.phase thread phase }

/-- One step of one thread: the steps of `populate_archive_members` and of the store's methods. -/
def populateStep (state : PopulateState) : PopulateEvent → PopulateState
  | .tryBegin thread identity =>
    match state.phase thread with
    | .idle =>
      let begun := tryBeginPopulate state.shard thread identity
      if begun.1 then
        { state.goto thread (.scanning identity state.merges.length) with shard := begun.2 }
      else state
    | _ => state
  | .storeComplete thread members sawDuplicates =>
    match state.phase thread with
    | .scanning identity begun =>
      { state.goto thread (.published identity) with
        shard := storeComplete state.shard identity members sawDuplicates
        scans := ⟨identity, begun, members⟩ :: state.scans }
    | _ => state
  | .fail thread =>
    match state.phase thread with
    | .scanning identity _ | .published identity =>
      { state.goto thread (.failing identity) with shard := setDegraded state.shard }
    | _ => state
  | .finish thread =>
    match state.phase thread with
    | .published identity =>
      { state.goto thread .idle with shard := finishPopulate state.shard identity none true }
    | .failing identity =>
      { state.goto thread .idle with shard := finishPopulate state.shard identity none false }
    | _ => state
  | .merge thread identity incoming =>
    match state.phase thread with
    | .idle => if incoming.entries.isEmpty then state
        else state.goto thread (.mergeLoop identity incoming)
    | _ => state
  | .mergeRead thread =>
    match state.phase thread with
    | .mergeLoop identity incoming =>
      state.goto thread (.mergeRead identity incoming (state.shard.members identity))
    | _ => state
  | .mergeCommit thread sawDuplicates =>
    match state.phase thread with
    | .mergeRead identity incoming seen =>
      match mergeCommit state.shard identity incoming sawDuplicates seen with
      | some shard =>
        { state.goto thread .idle with
          shard := shard
          merges := ⟨identity, state.merges.length, incoming⟩ :: state.merges }
      | none => state.goto thread (.mergeLoop identity incoming)
    | _ => state
  | .clearIncomplete thread identity =>
    match state.phase thread with
    | .idle => { state with shard := clearIncomplete state.shard identity }
    | _ => state
  | .invalidate thread identity =>
    match state.phase thread with
    | .idle => { state with shard := invalidateIdentity state.shard identity }
    | _ => state

def freshPopulate : PopulateState := ⟨.empty, fun _ => .idle, [], []⟩

def Covered (scans : List ScanRecord) (merges : List MergeRecord) (identity : Str)
    (map : MemberMap) : Prop :=
  ∃ scan ∈ scans, scan.identity = identity ∧ Contains map scan.members ∧
    ∀ merge ∈ merges, merge.identity = identity → scan.begun ≤ merge.turn →
      Contains map merge.members

structure SingleFlight (state : PopulateState) : Prop where
  one : ∀ identity first second, (state.phase first).populating = some identity →
    (state.phase second).populating = some identity → first = second
  own : ∀ identity thread owner, (state.phase thread).populating = some identity →
    state.shard.populateOwner identity = some owner → owner = thread
  covered : ∀ identity map, state.shard.lookupCompleteMap identity = some map →
    Covered state.scans state.merges identity map

def KeepsOwners (state : PopulateState) : PopulateEvent → Prop
  | .mergeCommit thread _ =>
    ∀ identity incoming seen, state.phase thread = .mergeRead identity incoming seen →
      state.shard.unmoved identity seen = true → state.shard.complete identity = true
  | .clearIncomplete _ identity =>
    state.shard.complete identity = true ∨ state.shard.populateOwner identity = none
  | .invalidate _ identity => state.shard.populateOwner identity = none
  | _ => True

end Populate

section Right

def FlightRight (shard : DayShard Str) (merges : List MergeRecord) : PopulatePhase → Prop
  | .scanning identity begun =>
    shard.complete identity = false ∧
      ∀ merge ∈ merges, merge.identity = identity → merge.turn < begun
  | .published identity => shard.complete identity = true
  | .mergeRead identity _ seen => SeenBefore shard identity seen
  | _ => True

structure PopulateRight (state : PopulateState) : Prop where
  numbered : Numbered state.shard
  owners : ∀ thread identity, (state.phase thread).populating = some identity ↔
    state.shard.populateOwner identity = some thread
  phases : ∀ thread, FlightRight state.shard state.merges (state.phase thread)
  turns : ∀ merge ∈ state.merges, merge.turn < state.merges.length
  covered : ∀ identity map, state.shard.lookupCompleteMap identity = some map →
    Covered state.scans state.merges identity map

structure LeavesOthers (state next : PopulateState) (thread : Nat) : Prop where
  follows : Follows state.shard next.shard
  phase : ∀ other, other ≠ thread → next.phase other = state.phase other
  owner : ∀ other identity, other ≠ thread →
    (next.shard.populateOwner identity = some other ↔
      state.shard.populateOwner identity = some other)
  complete : ∀ other identity, other ≠ thread →
    state.shard.populateOwner identity = some other →
    next.shard.complete identity = state.shard.complete identity
  merges : ∀ merge ∈ next.merges, merge ∈ state.merges ∨
    state.shard.complete merge.identity = true

variable {state next : PopulateState} {thread : Nat} {thread : Nat}

theorem PopulateRight.singleFlight (right : PopulateRight state) : SingleFlight state := by
  refine ⟨?_, ?_, right.covered⟩
  · intro identity first second one two
    exact Option.some.inj (((right.owners first identity).mp one).symm.trans
      ((right.owners second identity).mp two))
  · intro identity thread owner populating owned
    exact Option.some.inj (owned.symm.trans ((right.owners thread identity).mp populating))

theorem LeavesOthers.right (leaves : LeavesOthers state next thread) (right : PopulateRight state)
    {other : Nat} (differs : other ≠ thread) :
    FlightRight next.shard next.merges (next.phase other) := by
  rw [leaves.phase other differs]
  have before := right.phases other
  have owned : ∀ identity, (state.phase other).populating = some identity →
      next.shard.complete identity = state.shard.complete identity := by
    intro identity populating
    exact leaves.complete other identity differs ((right.owners other identity).mp populating)
  cases here : state.phase other with
  | scanning identity begun =>
    rw [here] at before owned
    obtain ⟨incomplete, earlier⟩ := before
    refine ⟨(owned identity rfl).trans incomplete, ?_⟩
    intro merge member same
    cases leaves.merges merge member with
    | inl old => exact earlier merge old same
    | inr complete =>
      rw [same, incomplete] at complete
      cases complete
  | published identity =>
    rw [here] at before owned
    exact (owned identity rfl).trans before
  | mergeRead identity incoming seen =>
    rw [here] at before
    exact leaves.follows.seen before
  | idle => exact True.intro
  | failing identity => exact True.intro
  | mergeLoop identity incoming => exact True.intro

theorem PopulateRight.advance (right : PopulateRight state) (thread : Nat)
    (leaves : LeavesOthers state next thread)
    (own : FlightRight next.shard next.merges (next.phase thread))
    (ownership : ∀ identity, (next.phase thread).populating = some identity ↔
      next.shard.populateOwner identity = some thread)
    (turns : ∀ merge ∈ next.merges, merge.turn < next.merges.length)
    (covered : ∀ identity map, next.shard.lookupCompleteMap identity = some map →
      Covered next.scans next.merges identity map) : PopulateRight next := by
  refine ⟨leaves.follows.numbered right.numbered, ?_, ?_, turns, covered⟩
  · intro other identity
    by_cases same : other = thread
    · rw [same]
      exact ownership identity
    · rw [leaves.phase other same, leaves.owner other identity same]
      exact right.owners other identity
  · intro other
    by_cases same : other = thread
    · rw [same]
      exact own
    · exact leaves.right right same

theorem goto_self (state : PopulateState) (thread : Nat) (phase : PopulatePhase) :
    (state.goto thread phase).phase thread = phase := update_self ..

theorem goto_other (state : PopulateState) {thread other : Nat} (phase : PopulatePhase)
    (differs : other ≠ thread) : (state.goto thread phase).phase other = state.phase other :=
  update_of_ne differs _ _

theorem PopulateRight.goto (right : PopulateRight state) (phase : PopulatePhase)
    (same : phase.populating = (state.phase thread).populating)
    (own : FlightRight state.shard state.merges phase) :
    PopulateRight (state.goto thread phase) := by
  refine right.advance thread
    ⟨.refl _, fun other => goto_other state phase, fun _ _ _ => Iff.rfl, fun _ _ _ _ => rfl,
      fun _ => .inl⟩ ?_ ?_ right.turns right.covered
  · rw [goto_self]
    exact own
  · intro identity
    rw [goto_self, same]
    exact right.owners thread identity

theorem PopulateRight.degrade (right : PopulateRight state) :
    PopulateRight { state with shard := setDegraded state.shard } := by
  refine ⟨right.numbered, right.owners, ?_, right.turns, right.covered⟩
  intro thread
  have before := right.phases thread
  cases here : state.phase thread with
  | _ =>
    rw [here] at before
    exact before

variable {identity : Str}

theorem tryBegin_right (right : PopulateRight state)
    (here : state.phase thread = .idle)
    (begins : (tryBeginPopulate state.shard thread identity).1 = true) :
    PopulateRight { state.goto thread (.scanning identity state.merges.length) with
      shard := (tryBeginPopulate state.shard thread identity).2 } := by
  obtain ⟨free, incomplete, after⟩ := tryBegin_begins begins
  have unowned : ∀ other, state.shard.populateOwner other ≠ some thread := by
    intro other owned
    have populating := (right.owners thread other).mpr owned
    rw [here] at populating
    cases populating
  rw [after]
  refine right.advance thread ⟨(Follows.refl state.shard).like rfl rfl,
    fun other => goto_other state _, ?_, fun _ _ _ _ => rfl, fun _ => .inl⟩ ?_ ?_ right.turns
    right.covered
  · intro other kept differs
    by_cases same : kept = identity
    · subst same
      simp [free, differs.symm]
    · simp [same]
  · rw [show PopulateState.phase _ thread = _ from goto_self state thread _]
    exact ⟨incomplete, fun merge member _ => right.turns merge member⟩
  · intro other
    rw [show PopulateState.phase _ thread = _ from goto_self state thread _]
    by_cases same : other = identity
    · subst same
      simp [PopulatePhase.populating]
    · simp [PopulatePhase.populating, same, Ne.symm same, unowned other]

theorem PopulateRight.owner_iff (right : PopulateRight state)
    (here : (state.phase thread).populating = some identity) (other : Str) :
    state.shard.populateOwner other = some thread ↔ other = identity := by
  rw [← right.owners thread other, here]
  exact ⟨fun same => (Option.some.inj same).symm, fun same => congrArg some same.symm⟩

theorem storeComplete_right (right : PopulateRight state) {thread begun : Nat}
    (members : MemberMap) (sawDuplicates : Bool)
    (here : state.phase thread = .scanning identity begun) :
    PopulateRight { state.goto thread (.published identity) with
      shard := storeComplete state.shard identity members sawDuplicates
      scans := ⟨identity, begun, members⟩ :: state.scans } := by
  have populating : (state.phase thread).populating = some identity := by rw [here]; rfl
  have before := right.phases thread
  rw [here] at before
  refine right.advance thread
    ⟨storeComplete_follows state.shard identity members sawDuplicates,
      fun other => goto_other state _, fun _ _ _ => Iff.rfl, ?_, fun _ => .inl⟩ ?_ ?_ right.turns ?_
  · intro other kept differs owned
    refine complete_storeComplete ?_ (by rw [owned]; exact Option.some_ne_none other)
    intro same
    exact differs (Option.some.inj (owned.symm.trans ((right.owner_iff populating kept).mpr same)))
  · rw [show PopulateState.phase _ thread = _ from goto_self state thread _]
    exact complete_storeComplete_self state.shard identity members sawDuplicates
  · intro other
    rw [show PopulateState.phase _ thread = _ from goto_self state thread _]
    exact ⟨fun same => (right.owner_iff populating other).mpr (Option.some.inj same).symm,
      fun owned => congrArg some ((right.owner_iff populating other).mp owned).symm⟩
  · intro other map found
    rcases lookup_storeComplete found with ⟨rfl, rfl⟩ | ⟨-, old⟩
    · refine ⟨_, .head _, rfl, contains_refl map, ?_⟩
      intro merge member same since
      exact absurd (before.2 merge member same) (Nat.not_lt.mpr since)
    · obtain ⟨scan, member, rest⟩ := right.covered other map old
      exact ⟨scan, .tail _ member, rest⟩

theorem finish_right (right : PopulateRight state)
    {complete : Bool} (here : (state.phase thread).populating = some identity)
    (kept : ∀ other, other ≠ identity → state.shard.populateOwner other ≠ none →
      (finishPopulate state.shard identity none complete).complete other =
        state.shard.complete other)
    (owner : (finishPopulate state.shard identity none complete).populateOwner =
      update state.shard.populateOwner identity none)
    (maps : ∀ other map,
      (finishPopulate state.shard identity none complete).lookupCompleteMap other = some map →
        state.shard.lookupCompleteMap other = some map) :
    PopulateRight { state.goto thread .idle with
      shard := finishPopulate state.shard identity none complete } := by
  have own : ∀ other, state.shard.populateOwner other = some thread ↔ other = identity :=
    right.owner_iff here
  refine right.advance thread ⟨finishPopulate_follows state.shard identity none complete,
    fun other => goto_other state _, ?_, ?_, fun _ => .inl⟩ ?_ ?_ right.turns
    (fun other map found => right.covered other map (maps other map found))
  · intro other name differs
    rw [owner]
    by_cases same : name = identity
    · simp [same, (own identity).mpr rfl, differs.symm]
    · simp [same]
  · intro other name differs owned
    refine kept name ?_ (by rw [owned]; exact Option.some_ne_none other)
    intro same
    exact differs (Option.some.inj (owned.symm.trans ((own name).mpr same)))
  · rw [show PopulateState.phase _ thread = _ from goto_self state thread _]
    exact True.intro
  · intro other
    rw [show PopulateState.phase _ thread = _ from goto_self state thread _, owner]
    by_cases same : other = identity
    · simp [same, PopulatePhase.populating]
    · simp [same, PopulatePhase.populating, own other]

theorem finish_published_right (right : PopulateRight state)
    (here : state.phase thread = .published identity) :
    PopulateRight { state.goto thread .idle with
      shard := finishPopulate state.shard identity none true } := by
  have complete := right.phases thread
  rw [here] at complete
  refine finish_right right (by rw [here]; rfl) ?_ rfl fun other map => lookup_finish complete
  intro other differs owned
  have kept : ((state.shard.mark identity).release identity).populateOwner other ≠ none := by
    simpa [DayShard.release, DayShard.mark, differs] using owned
  rw [finishPopulate, if_pos rfl, DayShard.putGiven, complete_dropStale identity kept]
  simp [DayShard.release, DayShard.mark, differs]

theorem finish_failing_right (right : PopulateRight state)
    (here : state.phase thread = .failing identity) :
    PopulateRight { state.goto thread .idle with
      shard := finishPopulate state.shard identity none false } :=
  finish_right right (by rw [here]; rfl) (fun _ _ _ => rfl) rfl fun _ _ found => found

theorem mergeCommit_right (right : PopulateRight state)
    {incoming : MemberMap} {seen : Option StoredMap} {sawDuplicates : Bool} {shard : DayShard Str}
    (here : state.phase thread = .mergeRead identity incoming seen)
    (commits : mergeCommit state.shard identity incoming sawDuplicates seen = some shard)
    (complete : state.shard.complete identity = true) :
    PopulateRight { state.goto thread .idle with
      shard := shard
      merges := ⟨identity, state.merges.length, incoming⟩ :: state.merges } := by
  obtain ⟨unmoved, rfl⟩ := mergeCommit_eq commits
  have before := right.phases thread
  rw [here] at before
  have current := seen_eq before unmoved
  refine right.advance thread ⟨mergeCommit_follows commits,
    fun other => goto_other state _, fun _ _ _ => Iff.rfl, ?_, ?_⟩ ?_ ?_ ?_ ?_
  · intro other kept differs owned
    by_cases same : kept = identity
    · subst same
      exact (complete_storeComplete_self state.shard kept _ sawDuplicates).trans complete.symm
    · exact complete_storeComplete same (by rw [owned]; exact Option.some_ne_none other)
  · intro merge member
    rcases List.mem_cons.mp member with rfl | old
    · exact .inr complete
    · exact .inl old
  · rw [show PopulateState.phase _ thread = _ from goto_self state thread _]
    exact True.intro
  · intro other
    have idle := right.owners thread other
    rw [here] at idle
    rw [show PopulateState.phase _ thread = _ from goto_self state thread _]
    exact idle
  · intro merge member
    rcases List.mem_cons.mp member with rfl | old
    · exact Nat.lt_succ_self _
    · exact Nat.lt_succ_of_lt (right.turns merge old)
  · intro other map found
    rcases lookup_storeComplete found with ⟨rfl, rfl⟩ | ⟨differs, old⟩
    · have held : state.shard.lookupCompleteMap other =
          some ((seen.map (·.members)).getD Lib.Dict.empty) := by
        rw [DayShard.lookupCompleteMap, if_pos complete, current]
      obtain ⟨scan, member, same, scanned, merged⟩ := right.covered other _ held
      have grown := contains_merge ((seen.map (·.members)).getD Lib.Dict.empty) incoming
      refine ⟨scan, member, same, grown.1.trans scanned, ?_⟩
      intro merge there same since
      rcases List.mem_cons.mp there with rfl | earlier
      · exact grown.2
      · exact grown.1.trans (merged merge earlier same since)
    · obtain ⟨scan, member, same, scanned, merged⟩ := right.covered other map old
      refine ⟨scan, member, same, scanned, ?_⟩
      intro merge there names since
      rcases List.mem_cons.mp there with rfl | earlier
      · exact absurd names.symm differs
      · exact merged merge earlier names since

theorem drop_right (right : PopulateRight state) {shard : DayShard Str}
    (here : state.phase thread = .idle) (free : state.shard.populateOwner identity = none)
    (follows : Follows state.shard shard)
    (owner : shard.populateOwner = update state.shard.populateOwner identity none)
    (complete : ∀ other, other ≠ identity → shard.complete other = state.shard.complete other)
    (maps : ∀ other map, shard.lookupCompleteMap other = some map →
      state.shard.lookupCompleteMap other = some map) :
    PopulateRight { state with shard := shard } := by
  have same : shard.populateOwner = state.shard.populateOwner := by
    rw [owner, ← free, update_eq_self]
  refine right.advance thread ⟨follows, fun _ _ => rfl, ?_, ?_, fun _ => .inl⟩ ?_ ?_
    right.turns (fun other map found => right.covered other map (maps other map found))
  · intro other name _
    rw [same]
  · intro other name _ owned
    refine complete name ?_
    intro names
    rw [names, free] at owned
    cases owned
  · rw [here]
    exact True.intro
  · intro name
    rw [same]
    exact right.owners thread name

theorem populateStep_right (right : PopulateRight state) {event : PopulateEvent}
    (good : KeepsOwners state event) : PopulateRight (populateStep state event) := by
  cases event with
  | tryBegin thread identity =>
    cases here : state.phase thread with
    | idle =>
      simp only [populateStep, here]
      split
      next begins => exact tryBegin_right right here begins
      next => exact right
    | _ => simpa only [populateStep, here] using right
  | storeComplete thread members sawDuplicates =>
    cases here : state.phase thread with
    | scanning identity begun =>
      simp only [populateStep, here]
      exact storeComplete_right right members sawDuplicates here
    | _ => simpa only [populateStep, here] using right
  | fail thread =>
    cases here : state.phase thread with
    | scanning identity begun =>
      simp only [populateStep, here]
      exact (right.goto (.failing identity) (by rw [here]; rfl) True.intro).degrade
    | published identity =>
      simp only [populateStep, here]
      exact (right.goto (.failing identity) (by rw [here]; rfl) True.intro).degrade
    | _ => simpa only [populateStep, here] using right
  | finish thread =>
    cases here : state.phase thread with
    | published identity =>
      simp only [populateStep, here]
      exact finish_published_right right here
    | failing identity =>
      simp only [populateStep, here]
      exact finish_failing_right right here
    | _ => simpa only [populateStep, here] using right
  | merge thread identity incoming =>
    cases here : state.phase thread with
    | idle =>
      simp only [populateStep, here]
      split
      next => exact right
      next => exact right.goto (.mergeLoop identity incoming) (by rw [here]; rfl) True.intro
    | _ => simpa only [populateStep, here] using right
  | mergeRead thread =>
    cases here : state.phase thread with
    | mergeLoop identity incoming =>
      simp only [populateStep, here]
      exact right.goto (.mergeRead identity incoming _) (by rw [here]; rfl)
        (seen_now right.numbered identity)
    | _ => simpa only [populateStep, here] using right
  | mergeCommit thread sawDuplicates =>
    cases here : state.phase thread with
    | mergeRead identity incoming seen =>
      simp only [populateStep, here]
      split
      next shard commits =>
        exact mergeCommit_right right here commits
          (good identity incoming seen here (mergeCommit_eq commits).1)
      next => exact right.goto (.mergeLoop identity incoming) (by rw [here]; rfl) True.intro
    | _ => simpa only [populateStep, here] using right
  | clearIncomplete thread identity =>
    cases here : state.phase thread with
    | idle =>
      simp only [populateStep, here]
      cases complete : state.shard.complete identity with
      | true => simpa [clearIncomplete, complete] using right
      | false =>
        have free := good.resolve_left (by simp [complete])
        refine drop_right right here free (clearIncomplete_follows state.shard identity) ?_ ?_
          fun other map => lookup_clearIncomplete
        · rw [clearIncomplete, if_neg (by simp [complete])]
          rfl
        · intro other _
          rw [clearIncomplete, if_neg (by simp [complete])]
          rfl
    | _ => simpa only [populateStep, here] using right
  | invalidate thread identity =>
    cases here : state.phase thread with
    | idle =>
      simp only [populateStep, here]
      refine drop_right right here good (invalidateIdentity_follows state.shard identity) rfl ?_
        fun other map => lookup_invalidateIdentity
      intro other differs
      exact update_of_ne differs _ _
    | _ => simpa only [populateStep, here] using right

end Right

section Runs

theorem freshPopulate_right : PopulateRight freshPopulate := by
  refine ⟨?_, ?_, fun _ => True.intro, ?_, ?_⟩
  · nofun
  · intro thread identity
    simp [freshPopulate, PopulatePhase.populating, DayShard.empty]
  · nofun
  · nofun

theorem populate_run_right {state : PopulateState} (right : PopulateRight state)
    (events : List PopulateEvent) (good : Lib.Throughout populateStep KeepsOwners state events) :
    PopulateRight (events.foldl populateStep state) := by
  induction events generalizing state with
  | nil => exact right
  | cons event later ih => exact ih (populateStep_right right good.1) good.2

/-- In every run that drops no identity being filled and merges into complete maps only, each
identity has one owner and each complete map covers a scan. -/
theorem populate_single_flight (events : List PopulateEvent)
    (good : Lib.Throughout populateStep KeepsOwners freshPopulate events) :
    SingleFlight (events.foldl populateStep freshPopulate) :=
  (populate_run_right freshPopulate_right events good).singleFlight

def scannedMap : MemberMap := Lib.Dict.empty.set (lit "host/1") 11

def appendedMap : MemberMap := Lib.Dict.empty.set (lit "host/2") 22

def scanThenMerge : List PopulateEvent :=
  [.tryBegin 0 (lit "t1"), .tryBegin 1 (lit "t1"), .storeComplete 0 scannedMap false, .finish 0,
    .merge 1 (lit "t1") appendedMap, .mergeRead 1, .mergeCommit 1 false, .invalidate 2 (lit "t1")]

theorem populate_single_flight_scan_then_merge :
    Lib.Throughout populateStep KeepsOwners freshPopulate scanThenMerge ∧
      SingleFlight (scanThenMerge.foldl populateStep freshPopulate) := by
  have good : Lib.Throughout populateStep KeepsOwners freshPopulate scanThenMerge := by
    refine ⟨trivial, trivial, trivial, trivial, trivial, trivial, ?_, ?_, trivial⟩
    · intro identity incoming seen here _
      cases here
      decide
    · show DayShard.populateOwner _ _ = none
      decide
  exact ⟨good, populate_single_flight scanThenMerge good⟩

def droppedOwner : List PopulateEvent :=
  [.tryBegin 0 (lit "t1"), .invalidate 1 (lit "t1"), .tryBegin 2 (lit "t1")]

theorem dropped_owner_is_doubled :
    ¬ ∀ events : List PopulateEvent, SingleFlight (events.foldl populateStep freshPopulate) := by
  intro always
  exact absurd ((always droppedOwner).one (lit "t1") 0 2 (by decide) (by decide)) (by decide)

end Runs

end PerfStats.Archive
