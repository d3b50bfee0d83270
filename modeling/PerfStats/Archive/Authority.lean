import PerfStats.Archive.Listing
import PerfStats.Lib.Runs

namespace PerfStats.Archive

open Text

section Cache

/-- The versions of the tar so far, each told by its size and modification time; `none` where there
is no tar. -/
structure TarHistory where
  now : Nat
  version : Nat → Option (List TarEntry)

def TarHistory.current (history : TarHistory) : Option (List TarEntry) := history.version history.now

def TarHistory.change (history : TarHistory) (next : Option (List TarEntry)) : TarHistory :=
  ⟨history.now + 1, Function.update history.version (history.now + 1) next⟩

/-- `(size, mtime_ns, members)` -/
structure CachedMap where
  stat : Option Nat
  members : MemberMap

/-- Where a thread is; `stamp` and `load` are behind a stat, `drop` on the way to drop the map. -/
inductive AuthorityPhase where
  | idle
  | appended (own : Nat) (added : List TarEntry)
  | stamped (own stamp : Nat) (added : List TarEntry)
  | rewritten
  | looked (seen : Nat)
  | missed (seen : Nat)
  | scanned (stat : Nat) (members : MemberMap)

structure CacheAnswer where
  looked : Nat
  answered : Nat
  members : MemberMap

structure AuthorityState where
  history : TarHistory
  cache : Option CachedMap
  phase : Nat → AuthorityPhase
  answers : List CacheAnswer

/-- One step of one thread; `trim` drops the entry to keep the cache small. -/
inductive AuthorityEvent where
  | append (thread : Nat) (added : List TarEntry)
  | stamp (thread : Nat)
  | merge (thread : Nat)
  | rewrite (thread : Nat) (next : Option (List TarEntry))
  | invalidate (thread : Nat)
  | look (thread : Nat)
  | answer (thread : Nat)
  | scan (thread : Nat)
  | scanFailed (thread : Nat)
  | scanRaised (thread : Nat)
  | store (thread : Nat)
  | trim

def AuthorityState.goto (state : AuthorityState) (thread : Nat) (phase : AuthorityPhase) :
    AuthorityState :=
  { state with phase := Function.update state.phase thread phase }

def statOf (history : TarHistory) (v : Nat) : Option Nat :=
  if (history.version v).isSome then some v else none

def listing (history : TarHistory) (v : Nat) : MemberMap :=
  memberSizes ((history.version v).getD [])

/-- `update_mutable_tar_authority_after_append`, from the stat on. -/
def mergeAppended (cache : Option CachedMap) (stamp : Nat) (added : List TarEntry) :
    Option CachedMap :=
  cache.map fun cached => ⟨some stamp, mergeMembers cached.members (memberSizes added)⟩

/-- The cache part of `get_mutable_tar_authority_member_map`. -/
def answerFromCache (cache : Option CachedMap) (stat : Option Nat) : Option MemberMap :=
  match cache with
  | none => none
  | some cached => if cached.stat = stat then some cached.members else none

def authorityStep (state : AuthorityState) : AuthorityEvent → AuthorityState
  | .append thread added =>
    match state.phase thread with
    | .idle =>
      let next := state.history.current.getD [] ++ added
      { state.goto thread (.appended (state.history.now + 1) added) with
        history := state.history.change (some next) }
    | _ => state
  | .stamp thread =>
    match state.phase thread with
    | .appended own added =>
      if state.history.current.isSome then
        state.goto thread (.stamped own state.history.now added)
      else state.goto thread .rewritten
    | _ => state
  | .merge thread =>
    match state.phase thread with
    | .stamped _ stamp added =>
      { state.goto thread .idle with cache := mergeAppended state.cache stamp added }
    | _ => state
  | .rewrite thread next =>
    match state.phase thread with
    | .idle => { state.goto thread .rewritten with history := state.history.change next }
    | _ => state
  | .invalidate thread =>
    match state.phase thread with
    | .rewritten => { state.goto thread .idle with cache := none }
    | _ => state
  | .look thread =>
    match state.phase thread with
    | .idle => state.goto thread (.looked state.history.now)
    | _ => state
  | .answer thread =>
    match state.phase thread with
    | .looked v =>
      match answerFromCache state.cache (statOf state.history v) with
      | some members =>
        { state.goto thread .idle with
          answers := ⟨v, state.history.now, members⟩ :: state.answers }
      | none =>
        if (state.history.version v).isSome then state.goto thread (.missed v)
        else { state.goto thread .idle with cache := some ⟨none, Lib.Dict.empty⟩ }
    | _ => state
  | .scan thread =>
    match state.phase thread with
    | .missed v =>
      -- where the file is gone by now its stat is the one taken first
      let stat := (statOf state.history state.history.now).getD v
      state.goto thread (.scanned stat (listing state.history state.history.now))
    | _ => state
  | .scanFailed thread =>
    match state.phase thread with
    | .missed _ => { state.goto thread .idle with cache := none }
    | _ => state
  | .scanRaised thread =>
    match state.phase thread with
    | .missed _ => state.goto thread .idle
    | _ => state
  | .store thread =>
    match state.phase thread with
    | .scanned stat members => { state.goto thread .idle with cache := some ⟨some stat, members⟩ }
    | _ => state
  | .trim => { state with cache := none }

def freshAuthority (tar : Option (List TarEntry)) : AuthorityState :=
  ⟨⟨0, fun _ => tar⟩, none, fun _ => .idle, []⟩

end Cache

section Right

def Lists (history : TarHistory) (members : MemberMap) (v : Nat) : Prop :=
  ∀ name, members.get? name = (listing history v).get? name

def MadeBy (history : TarHistory) (own : Nat) (added : List TarEntry) : Prop :=
  0 < own ∧ own ≤ history.now ∧
    history.version own = some ((history.version (own - 1)).getD [] ++ added)

def Extends (history : TarHistory) (own v : Nat) : Prop :=
  ∃ entries more, history.version own = some entries ∧ history.version v = some (entries ++ more)

def ListsSince (history : TarHistory) (members : MemberMap) (first upTo : Nat) : Prop :=
  ∃ v, first ≤ v ∧ v ≤ upTo ∧ upTo ≤ history.now ∧ Lists history members v

def PhaseRight (history : TarHistory) : AuthorityPhase → Prop
  | .idle => True
  | .appended own added => MadeBy history own added
  | .stamped own stamp added => MadeBy history own added ∧ own ≤ stamp ∧ stamp ≤ history.now
  | .rewritten => True
  | .looked v => v ≤ history.now
  | .missed v => v ≤ history.now
  | .scanned stat members => ListsSince history members stat history.now

def CacheRight (history : TarHistory) (cached : CachedMap) : Prop :=
  match cached.stat with
  | none => ∀ name, cached.members.get? name = none
  | some stat => ListsSince history cached.members stat history.now

def AnswerRight (history : TarHistory) (answer : CacheAnswer) : Prop :=
  ListsSince history answer.members answer.looked answer.answered

structure AuthorityRight (state : AuthorityState) : Prop where
  cache : ∀ cached, state.cache = some cached → CacheRight state.history cached
  phase : ∀ thread, PhaseRight state.history (state.phase thread)
  answers : ∀ answer ∈ state.answers, AnswerRight state.history answer

/-- What a merge into a cached map meets: the map has the version right before the append and the
stat the one behind it, or the map lists that append and its stat is no older. -/
def MergesInOrder (state : AuthorityState) : AuthorityEvent → Prop
  | .merge thread =>
    ∀ own stamp added cached, state.phase thread = .stamped own stamp added →
      state.cache = some cached → ∃ v, v ≤ state.history.now ∧
        Lists state.history cached.members v ∧
        (v + 1 = own ∧ stamp = own ∨ stamp ≤ v ∧ Extends state.history own v)
  | _ => True

variable {history : TarHistory} {state : AuthorityState} {v : Nat} {added : List TarEntry}

theorem change_version (old : v ≤ history.now) (next : Option (List TarEntry)) :
    (history.change next).version v = history.version v := by
  exact Function.update_of_ne (by omega) _ _

theorem Lists.change {members : MemberMap} (lists : Lists history members v)
    (old : v ≤ history.now) (next : Option (List TarEntry)) :
    Lists (history.change next) members v := by
  intro name
  rw [lists name, listing, listing, change_version old]

theorem ListsSince.change {members : MemberMap} {first upTo : Nat}
    (lists : ListsSince history members first upTo) (next : Option (List TarEntry)) :
    ListsSince (history.change next) members first upTo := by
  obtain ⟨v, since, reached, old, equal⟩ := lists
  exact ⟨v, since, reached, Nat.le_succ_of_le old, equal.change (Nat.le_trans reached old) next⟩

theorem ListsSince.later {members : MemberMap} {first upTo later : Nat}
    (lists : ListsSince history members first upTo) (le : upTo ≤ later)
    (old : later ≤ history.now) : ListsSince history members first later := by
  obtain ⟨v, since, reached, -, equal⟩ := lists
  exact ⟨v, since, Nat.le_trans reached le, old, equal⟩

theorem PhaseRight.change {phase : AuthorityPhase} (right : PhaseRight history phase)
    (next : Option (List TarEntry)) : PhaseRight (history.change next) phase := by
  have made : ∀ own added, MadeBy history own added → MadeBy (history.change next) own added := by
    intro own added made
    obtain ⟨positive, old, equal⟩ := made
    refine ⟨positive, Nat.le_succ_of_le old, ?_⟩
    rw [change_version old, change_version (by omega), equal]
  cases phase with
  | idle => exact right
  | appended own added => exact made own added right
  | stamped own stamp added =>
    exact ⟨made own added right.1, right.2.1, Nat.le_succ_of_le right.2.2⟩
  | rewritten => exact right
  | looked v => exact Nat.le_succ_of_le right
  | missed v => exact Nat.le_succ_of_le right
  | scanned stat members =>
    exact (ListsSince.change right next).later (Nat.le_succ _) le_rfl

theorem CacheRight.change {cached : CachedMap} (right : CacheRight history cached)
    (next : Option (List TarEntry)) : CacheRight (history.change next) cached := by
  unfold CacheRight at right ⊢
  split at right
  next => exact right
  next => exact (right.change next).later (Nat.le_succ _) le_rfl

theorem AuthorityRight.goto (right : AuthorityRight state) (thread : Nat) (phase : AuthorityPhase)
    (moves : PhaseRight state.history phase) {cache : Option CachedMap}
    (cached : ∀ entry, cache = some entry → CacheRight state.history entry) :
    AuthorityRight { state.goto thread phase with cache := cache } := by
  refine ⟨cached, ?_, right.answers⟩
  intro other
  by_cases same : other = thread
  · subst same
    simpa [AuthorityState.goto] using moves
  · simpa [AuthorityState.goto, same] using right.phase other

theorem AuthorityRight.change (right : AuthorityRight state) (next : Option (List TarEntry)) :
    AuthorityRight { state with history := state.history.change next } := by
  refine ⟨?_, ?_, ?_⟩
  · intro cached here
    exact (right.cache cached here).change next
  · intro thread
    exact (right.phase thread).change next
  · intro answer member
    exact ListsSince.change (right.answers answer member) next

theorem merged_lists {own : Nat} {members : MemberMap}
    (made : MadeBy history own added) (lists : Lists history members v)
    (follows : v + 1 = own) : Lists history (mergeMembers members (memberSizes added)) own := by
  intro name
  obtain ⟨positive, old, equal⟩ := made
  have before : own - 1 = v := by omega
  rw [get?_mergeMembers, lists name, listing, listing, equal, before, Option.getD_some,
    memberSizes_append]

theorem merged_again {own : Nat} {members : MemberMap}
    (made : MadeBy history own added) (lists : Lists history members v)
    (extended : Extends history own v) :
    Lists history (mergeMembers members (memberSizes added)) v := by
  intro name
  obtain ⟨entries, more, first, second⟩ := extended
  have equal := made.2.2
  rw [first] at equal
  cases equal
  rw [get?_mergeMembers, lists name, listing, second, Option.getD_some, memberSizes_append,
    memberSizes_append]
  generalize (memberSizes _).get? name = a
  generalize (memberSizes added).get? name = b
  generalize (memberSizes more).get? name = c
  rw [larger_assoc a b c, larger_assoc, larger_assoc, larger_comm c b, ← larger_assoc b b c,
    larger_self]

theorem merge_right (right : AuthorityRight state) {thread own stamp : Nat}
    (here : state.phase thread = .stamped own stamp added)
    (good : MergesInOrder state (.merge thread)) :
    ∀ entry, mergeAppended state.cache stamp added = some entry →
      CacheRight state.history entry := by
  intro entry merged
  obtain ⟨cached, present, rfl⟩ := Option.map_eq_some_iff.mp merged
  have phase := right.phase thread
  rw [here] at phase
  obtain ⟨made, stamped, old⟩ := phase
  obtain ⟨v, known, lists, order⟩ := good own stamp added cached here present
  rcases order with ⟨follows, rfl⟩ | ⟨since, extended⟩
  · exact ⟨stamp, le_rfl, old, le_rfl, merged_lists made lists follows⟩
  · exact ⟨v, since, known, le_rfl, merged_again made lists extended⟩

theorem answer_right (right : AuthorityRight state) {members : MemberMap}
    (old : v ≤ state.history.now)
    (answers : answerFromCache state.cache (statOf state.history v) = some members) :
    ListsSince state.history members v state.history.now := by
  unfold answerFromCache at answers
  split at answers
  next => cases answers
  next cached present =>
    split at answers
    next same =>
      cases answers
      have fits := right.cache cached present
      unfold CacheRight at fits
      rw [same, statOf] at fits
      cases there : state.history.version v with
      | none =>
        rw [there] at fits
        refine ⟨v, Nat.le_refl v, old, le_rfl, ?_⟩
        intro name
        rw [listing, there]
        exact fits name
      | some entries =>
        rw [there] at fits
        exact fits
    next => cases answers

theorem authorityStep_right (right : AuthorityRight state) {event : AuthorityEvent}
    (good : MergesInOrder state event) : AuthorityRight (authorityStep state event) := by
  cases event with
  | append thread added =>
    cases here : state.phase thread with
    | idle =>
      simp only [authorityStep, here]
      refine (right.change (some (state.history.current.getD [] ++ added))).goto thread
        (.appended (state.history.now + 1) added) ?_ ?_
      · refine ⟨Nat.succ_pos _, le_rfl, ?_⟩
        simp [TarHistory.change, TarHistory.current]
      · intro cached present
        exact (right.cache cached present).change _
    | _ => simpa only [authorityStep, here] using right
  | stamp thread =>
    cases here : state.phase thread with
    | appended own added =>
      have made := right.phase thread
      rw [here] at made
      simp only [authorityStep, here]
      split
      · exact right.goto thread (.stamped own state.history.now added)
          ⟨made, made.2.1, le_rfl⟩ right.cache
      · exact right.goto thread .rewritten True.intro right.cache
    | _ => simpa only [authorityStep, here] using right
  | merge thread =>
    cases here : state.phase thread with
    | stamped own stamp added =>
      simp only [authorityStep, here]
      exact right.goto thread .idle True.intro (merge_right right here good)
    | _ => simpa only [authorityStep, here] using right
  | rewrite thread next =>
    cases here : state.phase thread with
    | idle =>
      simp only [authorityStep, here]
      refine (right.change next).goto thread .rewritten True.intro ?_
      intro cached present
      exact (right.cache cached present).change next
    | _ => simpa only [authorityStep, here] using right
  | invalidate thread =>
    cases here : state.phase thread with
    | rewritten =>
      simp only [authorityStep, here]
      exact right.goto thread .idle True.intro (by simp)
    | _ => simpa only [authorityStep, here] using right
  | look thread =>
    cases here : state.phase thread with
    | idle =>
      simp only [authorityStep, here]
      exact right.goto thread (.looked state.history.now) le_rfl right.cache
    | _ => simpa only [authorityStep, here] using right
  | answer thread =>
    cases here : state.phase thread with
    | looked v =>
      have old := right.phase thread
      rw [here] at old
      simp only [authorityStep, here]
      split
      next members answers =>
        have moved := right.goto thread .idle True.intro right.cache
        refine ⟨moved.cache, moved.phase, ?_⟩
        intro answer member
        rcases List.mem_cons.mp member with rfl | earlier
        · exact answer_right right old answers
        · exact right.answers answer earlier
      next =>
        split
        · exact right.goto thread (.missed v) old right.cache
        · refine right.goto thread .idle True.intro ?_
          intro entry made
          cases made
          intro name
          rfl
    | _ => simpa only [authorityStep, here] using right
  | scan thread =>
    cases here : state.phase thread with
    | missed v =>
      have old := right.phase thread
      rw [here] at old
      simp only [authorityStep, here]
      refine right.goto thread (.scanned _ _)
        ⟨state.history.now, ?_, le_rfl, le_rfl, fun _ => rfl⟩ right.cache
      rw [statOf]
      split
      · exact le_rfl
      · exact old
    | _ => simpa only [authorityStep, here] using right
  | scanFailed thread =>
    cases here : state.phase thread with
    | missed v =>
      simp only [authorityStep, here]
      exact right.goto thread .idle True.intro (by simp)
    | _ => simpa only [authorityStep, here] using right
  | scanRaised thread =>
    cases here : state.phase thread with
    | missed v =>
      simp only [authorityStep, here]
      exact right.goto thread .idle True.intro right.cache
    | _ => simpa only [authorityStep, here] using right
  | store thread =>
    cases here : state.phase thread with
    | scanned stat members =>
      have lists := right.phase thread
      rw [here] at lists
      simp only [authorityStep, here]
      refine right.goto thread .idle True.intro ?_
      intro entry made
      cases made
      exact lists
    | _ => simpa only [authorityStep, here] using right
  | trim => exact ⟨by simp [authorityStep], right.phase, right.answers⟩

end Right

section Runs

theorem fresh_right (tar : Option (List TarEntry)) : AuthorityRight (freshAuthority tar) :=
  ⟨by simp [freshAuthority], fun _ => True.intro, by simp [freshAuthority]⟩

theorem authority_run_right {state : AuthorityState} (right : AuthorityRight state)
    (events : List AuthorityEvent) (good : Lib.Throughout authorityStep MergesInOrder state events) :
    AuthorityRight (events.foldl authorityStep state) := by
  induction events generalizing state with
  | nil => exact right
  | cons event later ih => exact ih (authorityStep_right right good.1) good.2

/-- In every run whose updates merge in order, each answer from the cache is the listing of the tar
as it was at some time of the lookup. -/
theorem authority_answers_exact (tar : Option (List TarEntry)) (events : List AuthorityEvent)
    (good : Lib.Throughout authorityStep MergesInOrder (freshAuthority tar) events) :
    ∀ answer ∈ (events.foldl authorityStep (freshAuthority tar)).answers,
      AnswerRight (events.foldl authorityStep (freshAuthority tar)).history answer :=
  (authority_run_right (fresh_right tar) events good).answers

def appendedA : TarEntry := ⟨lit "a", [1], true⟩

def appendedB : TarEntry := ⟨lit "b", [1], true⟩

def oneAppend : List AuthorityEvent :=
  [.look 0, .answer 0, .scan 0, .store 0, .append 1 [appendedA], .stamp 1, .merge 1, .look 0,
    .answer 0]

theorem authority_answers_exact_one_append :
    Lib.Throughout authorityStep MergesInOrder (freshAuthority (some [])) oneAppend ∧
      ∀ answer ∈ (oneAppend.foldl authorityStep (freshAuthority (some []))).answers,
        AnswerRight (oneAppend.foldl authorityStep (freshAuthority (some []))).history answer := by
  have good : Lib.Throughout authorityStep MergesInOrder (freshAuthority (some [])) oneAppend := by
    refine ⟨trivial, trivial, trivial, trivial, trivial, trivial, ?_, trivial, trivial, trivial⟩
    intro own stamp added cached here present
    cases here
    cases present
    exact ⟨0, Nat.zero_le _, fun _ => rfl, .inl ⟨rfl, rfl⟩⟩
  exact ⟨good, authority_answers_exact (some []) oneAppend good⟩

def twoAppends : List AuthorityEvent :=
  [.look 0, .answer 0, .scan 0, .store 0, .append 1 [appendedA], .append 2 [appendedB], .stamp 1,
    .merge 1, .look 0, .answer 0]

theorem authority_misses_append :
    ¬ ∀ (tar : Option (List TarEntry)) (events : List AuthorityEvent),
      ∀ answer ∈ (events.foldl authorityStep (freshAuthority tar)).answers,
        AnswerRight (events.foldl authorityStep (freshAuthority tar)).history answer := by
  intro always
  obtain ⟨v, since, reached, -, lists⟩ := always (some []) twoAppends _ (.head _)
  have last : v = 2 := Nat.le_antisymm reached since
  subst last
  exact absurd (lists (lit "b")) (by decide)

end Runs

end PerfStats.Archive
