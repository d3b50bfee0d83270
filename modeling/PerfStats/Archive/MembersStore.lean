import PerfStats.Archive.Listing

namespace PerfStats.Archive

open Text Function

section Shard

structure StoredMap where
  object : Nat
  members : MemberMap

structure DaySkip where
  kind : Str
  detail : Str
  setAt : Option Nat
  deriving DecidableEq

structure DayShard (ι : Type) where
  members : ι → Option StoredMap
  complete : ι → Bool
  daySkip : Option DaySkip
  degraded : Bool
  dedupeHint : Bool
  populateOwner : ι → Option Nat
  nextObject : Nat

variable {ι : Type} [DecidableEq ι]

def DayShard.empty : DayShard ι :=
  ⟨fun _ => none, fun _ => false, none, false, false, fun _ => none, 0⟩

def DayShard.put (shard : DayShard ι) (identity : ι) (members : MemberMap) : DayShard ι :=
  { shard with
    members := update shard.members identity (some ⟨shard.nextObject, members⟩)
    nextObject := shard.nextObject + 1 }

def DayShard.mark (shard : DayShard ι) (identity : ι) : DayShard ι :=
  { shard with complete := update shard.complete identity true }

/-- `shard.populate_owner.pop(ident, None)` -/
def DayShard.release (shard : DayShard ι) (identity : ι) : DayShard ι :=
  { shard with populateOwner := update shard.populateOwner identity none }

def DayShard.drop (shard : DayShard ι) (identity : ι) : DayShard ι :=
  { shard with members := update shard.members identity none }

/-- What `_drop_stale_identities_locked` drops: only an identity that has a map. -/
def DayShard.isStale (shard : DayShard ι) (keep identity : ι) : Bool :=
  identity ≠ keep && (shard.members identity).isSome && (shard.populateOwner identity).isNone

/-- `_drop_stale_identities_locked` -/
def DayShard.dropStale (shard : DayShard ι) (keep : ι) : DayShard ι :=
  { shard with
    members := fun identity => if shard.isStale keep identity then none else shard.members identity
    complete := fun identity => !shard.isStale keep identity && shard.complete identity }

def DayShard.noteDuplicates (shard : DayShard ι) (sawDuplicates : Bool) : DayShard ι :=
  { shard with dedupeHint := shard.dedupeHint || sawDuplicates }

def DayShard.lookupCompleteMap (shard : DayShard ι) (identity : ι) : Option MemberMap :=
  if shard.complete identity then
    some (((shard.members identity).map (·.members)).getD Lib.Dict.empty)
  else none

def tryBeginPopulate (shard : DayShard ι) (thread : Nat) (identity : ι) : Bool × DayShard ι :=
  if (shard.populateOwner identity).isSome || shard.complete identity then (false, shard)
  else
    (true,
      { shard with populateOwner := update shard.populateOwner identity (some thread) })

def DayShard.putGiven (shard : DayShard ι) (identity : ι) (members : Option MemberMap) : DayShard ι :=
  match members with
  | some members => shard.put identity members
  | none => shard

def finishPopulate (shard : DayShard ι) (identity : ι) (members : Option MemberMap)
    (complete : Bool) : DayShard ι :=
  let stored := shard.putGiven identity members
  if complete then ((stored.mark identity).release identity).dropStale identity
  else stored.release identity

def storeComplete (shard : DayShard ι) (identity : ι) (members : MemberMap)
    (sawDuplicates : Bool) : DayShard ι :=
  (((shard.put identity members).mark identity).noteDuplicates sawDuplicates).dropStale identity

/-- `shard.members.get(ident) is members_ref` -/
def DayShard.unmoved (shard : DayShard ι) (identity : ι) (seen : Option StoredMap) : Bool :=
  (shard.members identity).map (·.object) = seen.map (·.object)

/-- The second half of a round of the loop in `merge_members`, `none` where it goes round again. -/
def mergeCommit (shard : DayShard ι) (identity : ι) (incoming : MemberMap) (sawDuplicates : Bool)
    (seen : Option StoredMap) : Option (DayShard ι) :=
  if shard.unmoved identity seen then
    let current := mergeMembers ((seen.map (·.members)).getD Lib.Dict.empty) incoming
    some { (((shard.put identity current).mark identity).noteDuplicates
      sawDuplicates).dropStale identity with degraded := false }
  else none

def clearIncomplete (shard : DayShard ι) (identity : ι) : DayShard ι :=
  if shard.complete identity then shard else (shard.drop identity).release identity

def invalidateIdentity (shard : DayShard ι) (identity : ι) : DayShard ι :=
  let dropped := (shard.drop identity).release identity
  { dropped with complete := update dropped.complete identity false }

def setDaySkip (shard : DayShard ι) (kind detail : Str) (now : Nat) : DayShard ι :=
  { shard with daySkip := some ⟨kind, detail, some now⟩ }

def touchDaySkip (shard : DayShard ι) (now : Nat) : DayShard ι :=
  { shard with daySkip := shard.daySkip.map fun skip => { skip with setAt := some now } }

def clearDaySkip (shard : DayShard ι) : DayShard ι := { shard with daySkip := none }

def setDegraded (shard : DayShard ι) : DayShard ι := { shard with degraded := true }

def clearDegraded (shard : DayShard ι) : DayShard ι := { shard with degraded := false }

def clearDedupeHint (shard : DayShard ι) : DayShard ι := { shard with dedupeHint := false }

end Shard

open DayShard

section Contained

def Contains (map members : MemberMap) : Prop :=
  ∀ name size, members.get? name = some size → ∃ held, map.get? name = some held ∧ size ≤ held

theorem contains_refl (map : MemberMap) : Contains map map :=
  fun _ size there => ⟨size, there, le_rfl⟩

theorem contains_merge (map incoming : MemberMap) :
    Contains (mergeMembers map incoming) map ∧ Contains (mergeMembers map incoming) incoming := by
  constructor
  · intro name size there
    rw [get?_mergeMembers, there]
    cases incoming.get? name with
    | none => exact ⟨size, rfl, le_rfl⟩
    | some added => exact ⟨max size added, rfl, Nat.le_max_left _ _⟩
  · intro name size there
    rw [get?_mergeMembers, there]
    cases map.get? name with
    | none => exact ⟨size, rfl, le_rfl⟩
    | some held => exact ⟨max held size, rfl, Nat.le_max_right _ _⟩

theorem Contains.trans {first second third : MemberMap} (left : Contains first second)
    (right : Contains second third) : Contains first third := by
  intro name size there
  obtain ⟨between, held, le⟩ := right name size there
  obtain ⟨last, there, more⟩ := left name between held
  exact ⟨last, there, Nat.le_trans le more⟩

theorem Contains.merge {map added : MemberMap} (contains : Contains map added) (name : Str) :
    (mergeMembers map added).get? name = map.get? name := by
  rw [get?_mergeMembers]
  cases there : added.get? name with
  | none => exact larger_none _
  | some size =>
    obtain ⟨held, found, le⟩ := contains name size there
    rw [found]
    exact congrArg some (Nat.max_eq_left le)

end Contained

section Follows

variable {ι : Type}

structure Follows (shard next : DayShard ι) : Prop where
  objects : shard.nextObject ≤ next.nextObject
  members : ∀ identity stored, next.members identity = some stored →
    shard.members identity = some stored ∨
      shard.nextObject ≤ stored.object ∧ stored.object < next.nextObject

def Numbered (shard : DayShard ι) : Prop :=
  ∀ identity stored, shard.members identity = some stored → stored.object < shard.nextObject

def SeenBefore (shard : DayShard ι) (identity : ι) (seen : Option StoredMap) : Prop :=
  ∀ stored, seen = some stored → stored.object < shard.nextObject ∧
    ∀ present, shard.members identity = some present → present.object = stored.object →
      present = stored

variable {shard next last : DayShard ι} {identity : ι}

theorem Follows.refl (shard : DayShard ι) : Follows shard shard :=
  ⟨le_rfl, fun _ _ there => .inl there⟩

theorem Follows.trans (first : Follows shard next) (second : Follows next last) :
    Follows shard last := by
  refine ⟨Nat.le_trans first.objects second.objects, ?_⟩
  intro identity stored present
  cases second.members identity stored present with
  | inl before =>
    cases first.members identity stored before with
    | inl earlier => exact .inl earlier
    | inr fresh => exact .inr ⟨fresh.1, Nat.lt_of_lt_of_le fresh.2 second.objects⟩
  | inr fresh => exact .inr ⟨Nat.le_trans first.objects fresh.1, fresh.2⟩

theorem Follows.numbered (follows : Follows shard next) (numbered : Numbered shard) :
    Numbered next := by
  intro identity stored present
  cases follows.members identity stored present with
  | inl before => exact Nat.lt_of_lt_of_le (numbered identity stored before) follows.objects
  | inr fresh => exact fresh.2

theorem Follows.seen (follows : Follows shard next) {seen : Option StoredMap}
    (before : SeenBefore shard identity seen) : SeenBefore next identity seen := by
  intro stored same
  obtain ⟨old, equal⟩ := before stored same
  refine ⟨Nat.lt_of_lt_of_le old follows.objects, ?_⟩
  intro present there object
  cases follows.members identity present there with
  | inl kept => exact equal present kept object
  | inr fresh => omega

theorem seen_now (numbered : Numbered shard) (identity : ι) :
    SeenBefore shard identity (shard.members identity) := by
  intro stored same
  refine ⟨numbered identity stored same, ?_⟩
  intro present there _
  exact Option.some.inj (there.symm.trans same)

theorem seen_eq {seen : Option StoredMap} (before : SeenBefore shard identity seen)
    (unmoved : shard.unmoved identity seen = true) : seen = shard.members identity := by
  have same := of_decide_eq_true unmoved
  cases there : shard.members identity with
  | none =>
    rw [there, Option.map_none] at same
    exact Option.map_eq_none_iff.mp same.symm
  | some present =>
    rw [there, Option.map_some] at same
    obtain ⟨stored, rfl, object⟩ := Option.map_eq_some_iff.mp same.symm
    rw [(before stored rfl).2 present there object.symm]

theorem Follows.like (follows : Follows shard next) (members : last.members = next.members)
    (objects : last.nextObject = next.nextObject) : Follows shard last := by
  refine ⟨?_, ?_⟩
  · rw [objects]
    exact follows.objects
  · rw [members, objects]
    exact follows.members

variable [DecidableEq ι]

theorem put_follows (shard : DayShard ι) (identity : ι) (members : MemberMap) :
    Follows shard (shard.put identity members) := by
  refine ⟨Nat.le_succ _, ?_⟩
  intro other stored present
  simp only [put, update_apply] at present
  split at present
  next =>
    cases present
    exact .inr ⟨le_rfl, Nat.lt_succ_self _⟩
  next => exact .inl present

theorem drop_follows (shard : DayShard ι) (identity : ι) : Follows shard (shard.drop identity) := by
  refine ⟨le_rfl, ?_⟩
  intro other stored present
  simp only [drop, update_apply] at present
  split at present
  next => cases present
  next => exact .inl present

theorem dropStale_follows (follows : Follows shard next) (keep : ι) :
    Follows shard (next.dropStale keep) := by
  refine follows.trans ⟨le_rfl, ?_⟩
  intro other stored present
  simp only [dropStale] at present
  split at present
  next => cases present
  next => exact .inl present

theorem tryBeginPopulate_follows (shard : DayShard ι) (thread : Nat) (identity : ι) :
    Follows shard (tryBeginPopulate shard thread identity).2 := by
  rw [tryBeginPopulate]
  split
  · exact .refl shard
  · exact (Follows.refl shard).like rfl rfl

theorem putGiven_follows (shard : DayShard ι) (identity : ι) (members : Option MemberMap) :
    Follows shard (shard.putGiven identity members) := by
  cases members with
  | none => exact .refl shard
  | some members => exact put_follows shard identity members

theorem finishPopulate_follows (shard : DayShard ι) (identity : ι) (members : Option MemberMap)
    (complete : Bool) : Follows shard (finishPopulate shard identity members complete) := by
  have stored := putGiven_follows shard identity members
  cases complete with
  | false => exact stored.like rfl rfl
  | true =>
    have marked : Follows shard
        (((shard.putGiven identity members).mark identity).release identity) :=
      stored.like rfl rfl
    exact dropStale_follows marked identity

theorem storeComplete_follows (shard : DayShard ι) (identity : ι) (members : MemberMap)
    (sawDuplicates : Bool) :
    Follows shard (storeComplete shard identity members sawDuplicates) := by
  have marked : Follows shard
      (((shard.put identity members).mark identity).noteDuplicates sawDuplicates) :=
    (put_follows shard identity members).like rfl rfl
  exact dropStale_follows marked identity

theorem mergeCommit_follows {incoming : MemberMap} {sawDuplicates : Bool}
    {seen : Option StoredMap}
    (commits : mergeCommit shard identity incoming sawDuplicates seen = some next) :
    Follows shard next := by
  unfold mergeCommit at commits
  split at commits
  next =>
    cases commits
    exact (storeComplete_follows shard identity _ sawDuplicates).like rfl rfl
  next => cases commits

theorem clearIncomplete_follows (shard : DayShard ι) (identity : ι) :
    Follows shard (clearIncomplete shard identity) := by
  rw [clearIncomplete]
  split
  · exact .refl shard
  · exact (drop_follows shard identity).like rfl rfl

theorem invalidateIdentity_follows (shard : DayShard ι) (identity : ι) :
    Follows shard (invalidateIdentity shard identity) := (drop_follows shard identity).like rfl rfl

end Follows

section Lookups

variable {ι : Type} [DecidableEq ι] {shard next : DayShard ι} {identity other : ι}
  {map : MemberMap}

theorem lookup_dropStale (shard : DayShard ι) (keep identity : ι) :
    (shard.dropStale keep).lookupCompleteMap identity =
      if shard.isStale keep identity then none else shard.lookupCompleteMap identity := by
  simp only [lookupCompleteMap, dropStale]
  by_cases stale : shard.isStale keep identity <;> simp [stale]

theorem complete_dropStale (keep : ι) (owned : shard.populateOwner identity ≠ none) :
    (shard.dropStale keep).complete identity = shard.complete identity := by
  cases owner : shard.populateOwner identity with
  | none => exact absurd owner owned
  | some thread => simp [dropStale, isStale, owner]

theorem complete_dropStale_self (shard : DayShard ι) (keep : ι) :
    (shard.dropStale keep).complete keep = shard.complete keep := by
  simp [dropStale, isStale]

variable {sawDuplicates : Bool}

theorem lookup_storeComplete {members : MemberMap}
    (found : (storeComplete shard identity members sawDuplicates).lookupCompleteMap other =
      some map) :
    other = identity ∧ map = members ∨
      other ≠ identity ∧ shard.lookupCompleteMap other = some map := by
  rw [storeComplete, lookup_dropStale] at found
  split at found
  next => cases found
  next =>
    by_cases same : other = identity
    · subst same
      simpa [lookupCompleteMap, noteDuplicates, mark, put]
        using found.symm
    · refine .inr ⟨same, ?_⟩
      simpa [lookupCompleteMap, noteDuplicates, mark, put,
        same] using found

theorem complete_storeComplete {members : MemberMap}
    (differs : other ≠ identity) (owned : shard.populateOwner other ≠ none) :
    (storeComplete shard identity members sawDuplicates).complete other =
      shard.complete other := by
  have kept : (((shard.put identity members).mark identity).noteDuplicates
      sawDuplicates).populateOwner other ≠ none := owned
  rw [storeComplete, complete_dropStale identity kept]
  simp [noteDuplicates, mark, put, differs]

theorem complete_storeComplete_self (shard : DayShard ι) (identity : ι) (members : MemberMap)
    (sawDuplicates : Bool) :
    (storeComplete shard identity members sawDuplicates).complete identity = true := by
  rw [storeComplete, complete_dropStale_self]
  simp [noteDuplicates, mark, put]

theorem mergeCommit_eq {incoming : MemberMap} {seen : Option StoredMap}
    (commits : mergeCommit shard identity incoming sawDuplicates seen = some next) :
    shard.unmoved identity seen = true ∧ next = clearDegraded (storeComplete shard identity
      (mergeMembers ((seen.map (·.members)).getD Lib.Dict.empty) incoming) sawDuplicates) := by
  unfold mergeCommit at commits
  split at commits
  next unmoved =>
    cases commits
    exact ⟨unmoved, rfl⟩
  next => cases commits

theorem tryBegin_begins {thread : Nat}
    (begins : (tryBeginPopulate shard thread identity).1 = true) :
    shard.populateOwner identity = none ∧ shard.complete identity = false ∧
      (tryBeginPopulate shard thread identity).2 =
        { shard with
          populateOwner := update shard.populateOwner identity (some thread) } := by
  unfold tryBeginPopulate at begins ⊢
  split at begins
  next => cases begins
  next free =>
    rw [if_neg free]
    simpa [Option.isSome_iff_ne_none] using free

theorem lookup_finish (complete : shard.complete identity = true)
    (found : (finishPopulate shard identity none true).lookupCompleteMap other = some map) :
    shard.lookupCompleteMap other = some map := by
  have same : shard.mark identity = shard := by
    rw [mark, ← complete, update_eq_self]
  rw [finishPopulate, if_pos rfl, putGiven, same, lookup_dropStale] at found
  split at found
  next => cases found
  next => exact found

theorem lookup_clearIncomplete
    (found : (clearIncomplete shard identity).lookupCompleteMap other = some map) :
    shard.lookupCompleteMap other = some map := by
  unfold clearIncomplete at found
  split at found
  next => exact found
  next incomplete =>
    by_cases same : other = identity
    · subst same
      simp [lookupCompleteMap, release, drop, incomplete] at found
    · simpa [lookupCompleteMap, release, drop, same] using found

theorem lookup_invalidateIdentity
    (found : (invalidateIdentity shard identity).lookupCompleteMap other = some map) :
    shard.lookupCompleteMap other = some map := by
  by_cases same : other = identity
  · subst same
    simp [lookupCompleteMap, invalidateIdentity] at found
  · simpa [lookupCompleteMap, invalidateIdentity, release, drop,
      same] using found

end Lookups

end PerfStats.Archive
