import PerfStats.Archive.MembersStore
import PerfStats.Lib.Runs

namespace PerfStats.Archive

open Text Function

section Maps

/-- The sealed file and the tar; a version stands for modification time and size. -/
structure DailyFiles where
  sealedFile : Option Nat
  tarFile : Option Nat
  content : Nat → List TarEntry
  nextVersion : Nat

/-- `_daily_archive_members_cache_key`, and the identity of the members store that it gives. -/
structure ArchiveKey where
  sealedIdentity : Option Nat
  tarIdentity : Option Nat
  deriving DecidableEq

def DailyFiles.key (files : DailyFiles) : ArchiveKey := ⟨files.sealedFile, files.tarFile⟩

def ArchiveKey.listed (key : ArchiveKey) : Option Nat :=
  match key.tarIdentity with
  | some version => some version
  | none => key.sealedIdentity

def DailyFiles.listing (files : DailyFiles) (file : Option Nat) : MemberMap :=
  match file with
  | some version => memberSizes (files.content version)
  | none => Lib.Dict.empty

def DailyFiles.written (files : DailyFiles) (entries : List TarEntry) : DailyFiles :=
  { files with
    content := update files.content files.nextVersion entries
    nextVersion := files.nextVersion + 1 }

def DailyFiles.changeTar (files : DailyFiles) (next : Option (List TarEntry)) : DailyFiles :=
  match next with
  | some entries => { files.written entries with tarFile := some files.nextVersion }
  | none => { files with tarFile := none }

def DailyFiles.changeSealed (files : DailyFiles) (next : Option (List TarEntry)) : DailyFiles :=
  match next with
  | some entries => { files.written entries with sealedFile := some files.nextVersion }
  | none => { files with sealedFile := none }

def DailyFiles.append (files : DailyFiles) (added : List TarEntry) : DailyFiles :=
  files.changeTar (some (((files.tarFile.map files.content).getD []) ++ added))

/-- Where a thread is. A map that waits for its key is kept with the file it lists; each key is read
in two stats. -/
inductive MapPhase where
  | idle
  | labelling (members : MemberMap) (file : Option Nat)
  | labellingHalf (members : MemberMap) (file sealedIdentity : Option Nat)
  | labelled (members : MemberMap) (file : Option Nat) (key : ArchiveKey)
  | keyHalf (sealedIdentity : Option Nat)
  | keyed (key : ArchiveKey)
  | resolved (key : ArchiveKey) (hasSealed : Bool)
  | chosen (key : ArchiveKey) (useTar : Bool)
  | scanning (key : ArchiveKey) (useTar : Bool)
  | scanned (key : ArchiveKey) (members : MemberMap) (file : Option Nat)
  | published (key : ArchiveKey) (members : MemberMap) (file : Option Nat)
  | failed (key : ArchiveKey)
  | appended (added : MemberMap)
  | appendHalf (added : MemberMap) (sealedIdentity : Option Nat)
  | appendKeyed (added : MemberMap) (key : ArchiveKey)
  | appendRead (added : MemberMap) (key : ArchiveKey) (seen : Option StoredMap)
  | merged (added : MemberMap)
  | mergedHalf (added : MemberMap) (sealedIdentity : Option Nat)
  | mergedKeyed (added : MemberMap) (key : ArchiveKey)

structure MapState where
  files : DailyFiles
  cache : ArchiveKey → Option MemberMap
  shard : DayShard ArchiveKey
  phase : Nat → MapPhase

inductive MapEvent where
  | changeTar (next : Option (List TarEntry))
  | changeSealed (next : Option (List TarEntry))
  | append (thread : Nat) (added : List TarEntry)
  | scanTar (thread : Nat)
  | statSealed (thread : Nat)
  | statTar (thread : Nat)
  | storeCache (thread : Nat)
  | lookup (thread : Nat)
  | clearStale (thread : Nat)
  | resolveSealed (thread : Nat)
  | choose (thread : Nat)
  | tryBegin (thread : Nat)
  | scan (thread : Nat)
  | storeComplete (thread : Nat) (sawDuplicates : Bool)
  | finish (thread : Nat)
  | fail (thread : Nat)
  | fallback (thread : Nat) (useTar : Bool)
  | mergeRead (thread : Nat)
  | mergeCommit (thread : Nat) (sawDuplicates : Bool)
  | mergeCache (thread : Nat)
  | leave (thread : Nat)
  | invalidate (keys : List ArchiveKey)
  | trim (key : ArchiveKey)

def MapState.goto (state : MapState) (thread : Nat) (phase : MapPhase) : MapState :=
  { state with phase := update state.phase thread phase }

/-- The first stat of `_daily_archive_members_cache_key`. -/
def statSealed (identity : Option Nat) : MapPhase → MapPhase
  | .idle => .keyHalf identity
  | .labelling members file => .labellingHalf members file identity
  | .appended added => .appendHalf added identity
  | .merged added => .mergedHalf added identity
  | phase => phase

def statTar (identity : Option Nat) : MapPhase → MapPhase
  | .keyHalf first => .keyed ⟨first, identity⟩
  | .labellingHalf members file first => .labelled members file ⟨first, identity⟩
  | .appendHalf added first => .appendKeyed added ⟨first, identity⟩
  | .mergedHalf added first => .mergedKeyed added ⟨first, identity⟩
  | phase => phase

/-- The file that a scan reads, `none` where it is not there. -/
def scanSource (files : DailyFiles) (useTar : Bool) : Option Nat :=
  if useTar then files.tarFile else files.sealedFile

def mapStep (state : MapState) : MapEvent → MapState
  | .changeTar next => { state with files := state.files.changeTar next }
  | .changeSealed next => { state with files := state.files.changeSealed next }
  | .append thread added =>
    match state.phase thread with
    | .idle =>
      { state.goto thread (.appended (memberSizes added)) with
        files := state.files.append added }
    | _ => state
  | .scanTar thread =>
    match state.phase thread with
    | .idle =>
      state.goto thread
        (.labelling (state.files.listing state.files.tarFile) state.files.tarFile)
    | _ => state
  | .statSealed thread => state.goto thread (statSealed state.files.sealedFile (state.phase thread))
  | .statTar thread => state.goto thread (statTar state.files.tarFile (state.phase thread))
  | .storeCache thread =>
    match state.phase thread with
    | .labelled members _ key =>
      { state.goto thread .idle with cache := update state.cache key (some members) }
    | _ => state
  | .lookup thread =>
    match state.phase thread with
    | .keyed key | .chosen key _ =>
      match state.shard.lookupCompleteMap key with
      | some members => state.goto thread (.labelling members key.listed)
      | none => state
    | _ => state
  | .clearStale thread =>
    match state.phase thread with
    | .keyed key => { state with shard := clearIncomplete state.shard key }
    | _ => state
  | .resolveSealed thread =>
    match state.phase thread with
    | .keyed key => state.goto thread (.resolved key state.files.sealedFile.isSome)
    | _ => state
  | .choose thread =>
    match state.phase thread with
    | .resolved key hasSealed =>
      if state.files.tarFile.isSome then state.goto thread (.chosen key true)
      else if hasSealed then state.goto thread (.chosen key false)
      else state.goto thread (.labelling Lib.Dict.empty none)
    | _ => state
  | .tryBegin thread =>
    match state.phase thread with
    | .chosen key useTar =>
      let begun := tryBeginPopulate state.shard thread key
      if begun.1 then { state.goto thread (.scanning key useTar) with shard := begun.2 }
      else state
    | _ => state
  | .scan thread =>
    match state.phase thread with
    | .scanning key useTar =>
      match scanSource state.files useTar with
      | some version =>
        state.goto thread
          (.scanned key (state.files.listing (some version)) (some version))
      | none => state
    | _ => state
  | .storeComplete thread sawDuplicates =>
    match state.phase thread with
    | .scanned key members file =>
      { state.goto thread (.published key members file) with
        shard := storeComplete state.shard key members sawDuplicates }
    | _ => state
  | .finish thread =>
    match state.phase thread with
    | .published key members file =>
      { state.goto thread (.labelling members file) with
        shard := finishPopulate state.shard key none true }
    | _ => state
  | .fail thread =>
    match state.phase thread with
    | .scanning key _ | .scanned key _ _ | .published key _ _ =>
      { state.goto thread (.failed key) with
        shard := finishPopulate (setDegraded state.shard) key none false }
    | _ => state
  | .fallback thread useTar =>
    match state.phase thread with
    | .failed key => state.goto thread (.chosen key useTar)
    | _ => state
  | .mergeRead thread =>
    match state.phase thread with
    | .appendKeyed added key =>
      if added.entries.isEmpty then state.goto thread .idle
      else state.goto thread (.appendRead added key (state.shard.members key))
    | _ => state
  | .mergeCommit thread sawDuplicates =>
    match state.phase thread with
    | .appendRead added key seen =>
      match mergeCommit state.shard key added sawDuplicates seen with
      | some shard => { state.goto thread (.merged added) with shard := shard }
      | none => state.goto thread (.appendKeyed added key)
    | _ => state
  | .mergeCache thread =>
    match state.phase thread with
    | .mergedKeyed added key =>
      { state.goto thread .idle with
        cache := update state.cache key
          ((state.cache key).map (mergeMembers · added)) }
    | _ => state
  | .leave thread =>
    match state.phase thread with
    | .scanning _ _ | .scanned _ _ _ | .published _ _ _ => state
    | _ => state.goto thread .idle
  | .invalidate keys =>
    { state with
      cache := fun _ => none
      shard := keys.foldl invalidateIdentity state.shard }
  | .trim key => { state with cache := update state.cache key none }

def freshMaps (sealedFile tarFile : Option (List TarEntry)) : MapState where
  files := (DailyFiles.changeSealed ⟨none, none, fun _ => [], 0⟩ sealedFile).changeTar tarFile
  cache := fun _ => none
  shard := .empty
  phase := fun _ => .idle

def Known (files : DailyFiles) (file : Option Nat) : Prop :=
  ∀ version, file = some version → version < files.nextVersion

def ListsFile (files : DailyFiles) (members : MemberMap) (file : Option Nat) : Prop :=
  Known files file ∧ ∀ name, members.get? name = (files.listing file).get? name

structure MapsTrue (state : MapState) : Prop where
  cache : ∀ key members, state.cache key = some members →
    ListsFile state.files members key.listed
  store : ∀ key members, state.shard.lookupCompleteMap key = some members →
    ListsFile state.files members key.listed

/-- A map is kept under a key whose archive lists as the file read, a fill ends with its map there,
and a merge adds what the archive of its key has. -/
def KeysMatch (state : MapState) : MapEvent → Prop
  | .storeCache thread =>
    ∀ members file key, state.phase thread = .labelled members file key → key.listed = file
  | .storeComplete thread _ =>
    ∀ key members file, state.phase thread = .scanned key members file → key.listed = file
  | .finish thread =>
    ∀ key members file, state.phase thread = .published key members file →
      state.shard.complete key = true
  | .mergeCommit thread _ =>
    ∀ added key seen, state.phase thread = .appendRead added key seen →
      Contains (state.files.listing key.listed) added ∧
        (state.shard.complete key = false →
          Contains added (state.files.listing key.listed))
  | .mergeCache thread =>
    ∀ added key, state.phase thread = .mergedKeyed added key →
      Contains (state.files.listing key.listed) added
  | _ => True

end Maps

section Files

structure Grows (files next : DailyFiles) : Prop where
  versions : files.nextVersion ≤ next.nextVersion
  content : ∀ version, version < files.nextVersion → next.content version = files.content version

variable {files next : DailyFiles} {members : MemberMap} {file : Option Nat}

theorem Grows.refl (files : DailyFiles) : Grows files files :=
  ⟨le_rfl, fun _ _ => rfl⟩

theorem Grows.known (grows : Grows files next) (known : Known files file) : Known next file :=
  fun version same => Nat.lt_of_lt_of_le (known version same) grows.versions

theorem Grows.lists (grows : Grows files next) (lists : ListsFile files members file) :
    ListsFile next members file := by
  obtain ⟨known, equal⟩ := lists
  refine ⟨grows.known known, ?_⟩
  cases file with
  | none => exact equal
  | some version =>
    intro name
    rw [equal name, DailyFiles.listing, DailyFiles.listing, grows.content version (known _ rfl)]

theorem written_grows (files : DailyFiles) (entries : List TarEntry) :
    Grows files (files.written entries) := by
  refine ⟨Nat.le_succ _, ?_⟩
  intro version old
  exact update_of_ne (Nat.ne_of_lt old) _ _

theorem changeTar_grows (files : DailyFiles) (next : Option (List TarEntry)) :
    Grows files (files.changeTar next) := by
  cases next with
  | none => exact ⟨le_rfl, fun _ _ => rfl⟩
  | some entries => exact ⟨(written_grows files entries).versions, (written_grows files entries).content⟩

theorem changeSealed_grows (files : DailyFiles) (next : Option (List TarEntry)) :
    Grows files (files.changeSealed next) := by
  cases next with
  | none => exact ⟨le_rfl, fun _ _ => rfl⟩
  | some entries => exact ⟨(written_grows files entries).versions, (written_grows files entries).content⟩

def FilesKnown (files : DailyFiles) : Prop :=
  Known files files.sealedFile ∧ Known files files.tarFile

theorem changeTar_known (known : FilesKnown files) (next : Option (List TarEntry)) :
    FilesKnown (files.changeTar next) := by
  cases next with
  | none => exact ⟨known.1, nofun⟩
  | some entries =>
    refine ⟨(written_grows files entries).known known.1, ?_⟩
    intro version same
    cases same
    exact Nat.lt_succ_self _

theorem changeSealed_known (known : FilesKnown files) (next : Option (List TarEntry)) :
    FilesKnown (files.changeSealed next) := by
  cases next with
  | none => exact ⟨nofun, known.2⟩
  | some entries =>
    refine ⟨?_, (written_grows files entries).known known.2⟩
    intro version same
    cases same
    exact Nat.lt_succ_self _

theorem lists_listing (known : Known files file) : ListsFile files (files.listing file) file :=
  ⟨known, fun _ => rfl⟩

theorem key_known {sealedIdentity tarIdentity : Option Nat} (first : Known files sealedIdentity)
    (second : Known files tarIdentity) :
    Known files (ArchiveKey.listed ⟨sealedIdentity, tarIdentity⟩) := by
  cases tarIdentity with
  | none => exact first
  | some version => exact second

theorem ListsFile.merge {added : MemberMap} (lists : ListsFile files members file)
    (contains : Contains (files.listing file) added) :
    ListsFile files (mergeMembers members added) file := by
  refine ⟨lists.1, ?_⟩
  intro name
  rw [get?_mergeMembers, lists.2 name, ← get?_mergeMembers, contains.merge]

theorem lists_added {added : MemberMap} (known : Known files file)
    (contains : Contains (files.listing file) added)
    (contained : Contains added (files.listing file)) :
    ListsFile files (mergeMembers Lib.Dict.empty added) file := by
  refine ⟨known, ?_⟩
  intro name
  rw [get?_mergeMembers, show (Lib.Dict.empty : MemberMap).get? name = none from rfl, none_larger]
  cases here : added.get? name with
  | none =>
    cases there : (files.listing file).get? name with
    | none => rfl
    | some size =>
      obtain ⟨held, found, -⟩ := contained name size there
      rw [here] at found
      cases found
  | some size =>
    obtain ⟨held, found, le⟩ := contains name size here
    obtain ⟨back, again, ge⟩ := contained name held found
    rw [here] at again
    cases again
    rw [found, Nat.le_antisymm le ge]

end Files

section Marked

def Marked (shard : DayShard ArchiveKey) : Prop :=
  ∀ key, (shard.members key).isSome = true → shard.complete key = true

variable {shard next : DayShard ArchiveKey}

theorem Marked.dropStale (marked : Marked shard) (keep : ArchiveKey) :
    Marked (shard.dropStale keep) := by
  intro key stored
  simp only [DayShard.dropStale] at stored ⊢
  by_cases stale : shard.isStale keep key
  · simp [stale] at stored
  · simpa [stale] using marked key (by simpa [stale] using stored)

theorem storeComplete_marked (marked : Marked shard) (key : ArchiveKey) (members : MemberMap)
    (sawDuplicates : Bool) : Marked (storeComplete shard key members sawDuplicates) := by
  refine Marked.dropStale ?_ key
  intro other stored
  by_cases same : other = key
  · simp [DayShard.noteDuplicates, DayShard.mark, same]
  · simp only [DayShard.noteDuplicates, DayShard.mark, DayShard.put, update_of_ne same]
      at stored ⊢
    exact marked other stored

theorem mergeCommit_marked (marked : Marked shard) {key : ArchiveKey} {incoming : MemberMap}
    {sawDuplicates : Bool} {seen : Option StoredMap}
    (commits : mergeCommit shard key incoming sawDuplicates seen = some next) : Marked next := by
  obtain ⟨-, rfl⟩ := mergeCommit_eq commits
  exact storeComplete_marked marked key _ sawDuplicates

theorem finishPopulate_marked (marked : Marked shard) (key : ArchiveKey) (complete : Bool) :
    Marked (finishPopulate shard key none complete) := by
  cases complete with
  | false => exact marked
  | true =>
    refine Marked.dropStale ?_ key
    intro other stored
    by_cases same : other = key
    · simp [DayShard.release, DayShard.mark, same]
    · simpa [DayShard.putGiven, DayShard.release, DayShard.mark, same] using marked other stored

theorem tryBegin_marked (marked : Marked shard) (thread : Nat) (key : ArchiveKey) :
    Marked (tryBeginPopulate shard thread key).2 := by
  rw [tryBeginPopulate]
  split
  · exact marked
  · exact marked

theorem clearIncomplete_marked (marked : Marked shard) (key : ArchiveKey) :
    Marked (clearIncomplete shard key) := by
  rw [clearIncomplete]
  split
  · exact marked
  · intro other stored
    by_cases same : other = key
    · simp [DayShard.release, DayShard.drop, same] at stored
    · simp only [DayShard.release, DayShard.drop, update_of_ne same] at stored ⊢
      exact marked other stored

theorem invalidateIdentity_marked (marked : Marked shard) (key : ArchiveKey) :
    Marked (invalidateIdentity shard key) := by
  intro other stored
  by_cases same : other = key
  · simp [invalidateIdentity, DayShard.release, DayShard.drop, same] at stored
  · simp only [invalidateIdentity, DayShard.release, DayShard.drop, update_of_ne same]
      at stored ⊢
    exact marked other stored

theorem invalidate_keys (marked : Marked shard) (keys : List ArchiveKey) :
    Follows shard (keys.foldl invalidateIdentity shard) ∧
      Marked (keys.foldl invalidateIdentity shard) ∧
      ∀ key members, (keys.foldl invalidateIdentity shard).lookupCompleteMap key = some members →
        shard.lookupCompleteMap key = some members := by
  induction keys generalizing shard with
  | nil => exact ⟨.refl shard, marked, fun _ _ found => found⟩
  | cons key keys ih =>
    obtain ⟨follows, kept, maps⟩ := ih (invalidateIdentity_marked marked key)
    exact ⟨(invalidateIdentity_follows shard key).trans follows, kept,
      fun other members found => lookup_invalidateIdentity (maps other members found)⟩

end Marked

section Right

def MapPhaseRight (files : DailyFiles) (shard : DayShard ArchiveKey) : MapPhase → Prop
  | .labelling members file | .labellingHalf members file _ | .labelled members file _
  | .scanned _ members file | .published _ members file => ListsFile files members file
  | .appendHalf _ sealedIdentity => Known files sealedIdentity
  | .appendKeyed _ key => Known files key.listed
  | .appendRead _ key seen => Known files key.listed ∧ SeenBefore shard key seen
  | _ => True

structure MapsRight (state : MapState) : Prop where
  files : FilesKnown state.files
  numbered : Numbered state.shard
  marked : Marked state.shard
  phases : ∀ thread, MapPhaseRight state.files state.shard (state.phase thread)
  trusted : MapsTrue state

variable {state next : MapState}

variable {phase : MapPhase} {files : DailyFiles} {cache : ArchiveKey → Option MemberMap}
  {shard : DayShard ArchiveKey}

theorem MapPhaseRight.later {files nextFiles : DailyFiles} {shard nextShard : DayShard ArchiveKey}
    (right : MapPhaseRight files shard phase) (grows : Grows files nextFiles)
    (follows : Follows shard nextShard) : MapPhaseRight nextFiles nextShard phase := by
  cases phase with
  | labelling members file => exact grows.lists right
  | labellingHalf members file first => exact grows.lists right
  | labelled members file key => exact grows.lists right
  | scanned key members file => exact grows.lists right
  | published key members file => exact grows.lists right
  | appendHalf added first => exact grows.known right
  | appendKeyed added key => exact grows.known right
  | appendRead added key seen => exact ⟨grows.known right.1, follows.seen right.2⟩
  | _ => exact True.intro

theorem MapsRight.goto (right : MapsRight state) (thread : Nat) (phase : MapPhase)
    (grows : Grows state.files files) (known : FilesKnown files)
    (follows : Follows state.shard shard)
    (marked : Marked shard)
    (moves : MapPhaseRight files shard phase)
    (cached : ∀ key members, cache key = some members → ListsFile files members key.listed)
    (stored : ∀ key members, shard.lookupCompleteMap key = some members →
      ListsFile files members key.listed) :
    MapsRight ⟨files, cache, shard, update state.phase thread phase⟩ := by
  refine ⟨known, follows.numbered right.numbered, marked, ?_, cached, stored⟩
  intro other
  by_cases same : other = thread
  · subst same
    simpa using moves
  · simpa [same] using (right.phases other).later grows follows

theorem MapsRight.move (right : MapsRight state) (thread : Nat) (phase : MapPhase)
    (moves : MapPhaseRight state.files state.shard phase) : MapsRight (state.goto thread phase) :=
  right.goto thread phase (.refl _) right.files (.refl _) right.marked moves right.trusted.cache
    right.trusted.store

theorem MapsRight.restore (right : MapsRight state) (thread : Nat) (phase : MapPhase)
    (follows : Follows state.shard shard)
    (marked : Marked shard)
    (moves : MapPhaseRight state.files shard phase)
    (stored : ∀ key members, shard.lookupCompleteMap key = some members →
      ListsFile state.files members key.listed) :
    MapsRight { state.goto thread phase with shard := shard } :=
  right.goto thread phase (.refl _) right.files follows marked moves right.trusted.cache stored

theorem MapsRight.recache (right : MapsRight state) (thread : Nat) (phase : MapPhase)
    (moves : MapPhaseRight state.files state.shard phase)
    (cached : ∀ key members, cache key = some members →
      ListsFile state.files members key.listed) :
    MapsRight { state.goto thread phase with cache := cache } :=
  right.goto thread phase (.refl _) right.files (.refl _) right.marked moves cached right.trusted.store

theorem MapsRight.refile (right : MapsRight state)
    (grows : Grows state.files files) (known : FilesKnown files) :
    MapsRight { state with files := files } :=
  ⟨known, right.numbered, right.marked, fun thread => (right.phases thread).later grows (.refl _),
    fun key members found => grows.lists (right.trusted.cache key members found),
    fun key members found => grows.lists (right.trusted.store key members found)⟩

theorem statSealed_right
    (right : MapPhaseRight files shard phase) (known : FilesKnown files) :
    MapPhaseRight files shard (statSealed files.sealedFile phase) := by
  cases phase with
  | labelling members file => exact right
  | appended added => exact known.1
  | idle => exact True.intro
  | merged added => exact True.intro
  | _ => exact right

theorem statTar_right
    (right : MapPhaseRight files shard phase) (known : FilesKnown files) :
    MapPhaseRight files shard (statTar files.tarFile phase) := by
  cases phase with
  | labellingHalf members file first => exact right
  | appendHalf added first => exact key_known right known.2
  | keyHalf first => exact True.intro
  | mergedHalf added first => exact True.intro
  | _ => exact right

theorem storeComplete_maps (right : MapsRight state) {key : ArchiveKey} {members : MemberMap}
    {sawDuplicates : Bool} (lists : ListsFile state.files members key.listed) :
    ∀ other map,
      (storeComplete state.shard key members sawDuplicates).lookupCompleteMap other = some map →
        ListsFile state.files map other.listed := by
  intro other map found
  cases lookup_storeComplete found with
  | inl own =>
    rw [own.1, own.2]
    exact lists
  | inr old => exact right.trusted.store other map old.2

theorem merged_map_lists (right : MapsRight state) {thread : Nat} {added : MemberMap}
    {key : ArchiveKey} {seen : Option StoredMap} {sawDuplicates : Bool}
    (here : state.phase thread = .appendRead added key seen)
    (good : KeysMatch state (.mergeCommit thread sawDuplicates))
    (unmoved : state.shard.unmoved key seen = true) :
    ListsFile state.files
      (mergeMembers ((seen.map (·.members)).getD Lib.Dict.empty) added) key.listed := by
  have phase := right.phases thread
  rw [here] at phase
  obtain ⟨known, before⟩ := phase
  have current := seen_eq before unmoved
  obtain ⟨contains, alone⟩ := good added key seen here
  cases complete : state.shard.complete key with
  | true =>
    have held : state.shard.lookupCompleteMap key =
        some ((seen.map (·.members)).getD Lib.Dict.empty) := by
      rw [DayShard.lookupCompleteMap, if_pos complete, current]
    exact (right.trusted.store key _ held).merge contains
  | false =>
    have absent : state.shard.members key = none := by
      cases stored : state.shard.members key with
      | none => rfl
      | some map =>
        have marked := right.marked key (by rw [stored]; rfl)
        rw [complete] at marked
        cases marked
    rw [current, absent]
    exact lists_added known contains (alone complete)

theorem mapStep_right (right : MapsRight state) {event : MapEvent} (good : KeysMatch state event) :
    MapsRight (mapStep state event) := by
  cases event with
  | changeTar next =>
    exact right.refile (changeTar_grows state.files next) (changeTar_known right.files next)
  | changeSealed next =>
    exact right.refile (changeSealed_grows state.files next) (changeSealed_known right.files next)
  | append thread added =>
    cases here : state.phase thread with
    | idle =>
      simp only [mapStep, here]
      have filed : MapsRight { state with files := state.files.append added } :=
        right.refile (changeTar_grows state.files _) (changeTar_known right.files _)
      exact filed.move thread (.appended (memberSizes added)) True.intro
    | _ => simpa only [mapStep, here] using right
  | scanTar thread =>
    cases here : state.phase thread with
    | idle =>
      simp only [mapStep, here]
      exact right.move thread (.labelling _ _) (lists_listing right.files.2)
    | _ => simpa only [mapStep, here] using right
  | statSealed thread =>
    exact right.move thread _ (statSealed_right (right.phases thread) right.files)
  | statTar thread => exact right.move thread _ (statTar_right (right.phases thread) right.files)
  | storeCache thread =>
    cases here : state.phase thread with
    | labelled members file key =>
      have lists := right.phases thread
      rw [here] at lists
      simp only [mapStep, here]
      refine right.recache thread .idle True.intro ?_
      intro other map found
      by_cases same : other = key
      · subst same
        rw [update_self] at found
        cases found
        rw [good members file other here]
        exact lists
      · rw [update_of_ne same] at found
        exact right.trusted.cache other map found
    | _ => simpa only [mapStep, here] using right
  | lookup thread =>
    have moves : ∀ key, MapsRight (match state.shard.lookupCompleteMap key with
        | some members => state.goto thread (.labelling members key.listed)
        | none => state) := by
      intro key
      split
      next members found =>
        exact right.move thread (.labelling members key.listed)
          (right.trusted.store key members found)
      next => exact right
    cases here : state.phase thread with
    | keyed key =>
      simp only [mapStep, here]
      exact moves key
    | chosen key useTar =>
      simp only [mapStep, here]
      exact moves key
    | _ => simpa only [mapStep, here] using right
  | clearStale thread =>
    cases here : state.phase thread with
    | keyed key =>
      simp only [mapStep, here]
      have same : state.goto thread (.keyed key) = state := by
        rw [MapState.goto, ← here, update_eq_self]
      rw [← same]
      exact right.restore thread (.keyed key) (clearIncomplete_follows state.shard key)
        (clearIncomplete_marked right.marked key) True.intro
        fun other map found => right.trusted.store other map (lookup_clearIncomplete found)
    | _ => simpa only [mapStep, here] using right
  | resolveSealed thread =>
    cases here : state.phase thread with
    | keyed key =>
      simp only [mapStep, here]
      exact right.move thread (.resolved _ _) True.intro
    | _ => simpa only [mapStep, here] using right
  | choose thread =>
    cases here : state.phase thread with
    | resolved key hasSealed =>
      simp only [mapStep, here]
      split
      next => exact right.move thread (.chosen _ _) True.intro
      next =>
        split
        next => exact right.move thread (.chosen _ _) True.intro
        next =>
          exact right.move thread (.labelling _ none)
            (lists_listing nofun)
    | _ => simpa only [mapStep, here] using right
  | tryBegin thread =>
    cases here : state.phase thread with
    | chosen key useTar =>
      simp only [mapStep, here]
      split
      next begins =>
        refine right.restore thread (.scanning key useTar)
          (tryBeginPopulate_follows state.shard thread key)
          (tryBegin_marked right.marked thread key) True.intro ?_
        intro other map found
        rw [(tryBegin_begins begins).2.2] at found
        exact right.trusted.store other map found
      next => exact right
    | _ => simpa only [mapStep, here] using right
  | scan thread =>
    cases here : state.phase thread with
    | scanning key useTar =>
      simp only [mapStep, here]
      split
      next version source =>
        refine right.move thread (.scanned _ _ _) (lists_listing ?_)
        rw [← source, scanSource]
        split
        · exact right.files.2
        · exact right.files.1
      next => exact right
    | _ => simpa only [mapStep, here] using right
  | storeComplete thread sawDuplicates =>
    cases here : state.phase thread with
    | scanned key members file =>
      have lists := right.phases thread
      rw [here] at lists
      simp only [mapStep, here]
      refine right.restore thread (.published key members file)
        (storeComplete_follows state.shard key members sawDuplicates)
        (storeComplete_marked right.marked key members sawDuplicates) lists
        (storeComplete_maps right ?_)
      rw [good key members file here]
      exact lists
    | _ => simpa only [mapStep, here] using right
  | finish thread =>
    cases here : state.phase thread with
    | published key members file =>
      have lists := right.phases thread
      rw [here] at lists
      simp only [mapStep, here]
      exact right.restore thread (.labelling members file)
        (finishPopulate_follows state.shard key none true)
        (finishPopulate_marked right.marked key true) lists
        fun other map found => right.trusted.store other map
          (lookup_finish (good key members file here) found)
    | _ => simpa only [mapStep, here] using right
  | fail thread =>
    have fails : ∀ key, MapsRight { state.goto thread (.failed key) with
        shard := finishPopulate (setDegraded state.shard) key none false } := by
      intro key
      exact right.restore thread (.failed key) ((Follows.refl state.shard).like rfl rfl)
        right.marked True.intro right.trusted.store
    cases here : state.phase thread with
    | scanning key useTar =>
      simp only [mapStep, here]
      exact fails key
    | scanned key members file =>
      simp only [mapStep, here]
      exact fails key
    | published key members file =>
      simp only [mapStep, here]
      exact fails key
    | _ => simpa only [mapStep, here] using right
  | fallback thread useTar =>
    cases here : state.phase thread with
    | failed key =>
      simp only [mapStep, here]
      exact right.move thread (.chosen _ _) True.intro
    | _ => simpa only [mapStep, here] using right
  | mergeRead thread =>
    cases here : state.phase thread with
    | appendKeyed added key =>
      have known := right.phases thread
      rw [here] at known
      simp only [mapStep, here]
      split
      next => exact right.move thread .idle True.intro
      next =>
        exact right.move thread (.appendRead _ _ _)
          ⟨known, seen_now right.numbered key⟩
    | _ => simpa only [mapStep, here] using right
  | mergeCommit thread sawDuplicates =>
    cases here : state.phase thread with
    | appendRead added key seen =>
      have phase := right.phases thread
      rw [here] at phase
      simp only [mapStep, here]
      split
      next shard commits =>
        obtain ⟨unmoved, same⟩ := mergeCommit_eq commits
        refine right.restore thread (.merged added) (mergeCommit_follows commits)
          (mergeCommit_marked right.marked commits) True.intro ?_
        rw [same]
        exact storeComplete_maps right (merged_map_lists right here good unmoved)
      next => exact right.move thread (.appendKeyed _ _) phase.1
    | _ => simpa only [mapStep, here] using right
  | mergeCache thread =>
    cases here : state.phase thread with
    | mergedKeyed added key =>
      simp only [mapStep, here]
      refine right.recache thread .idle True.intro ?_
      intro other map found
      by_cases same : other = key
      · subst same
        rw [update_self] at found
        obtain ⟨cached, present, rfl⟩ := Option.map_eq_some_iff.mp found
        exact (right.trusted.cache other cached present).merge (good added other here)
      · rw [update_of_ne same] at found
        exact right.trusted.cache other map found
    | _ => simpa only [mapStep, here] using right
  | leave thread =>
    cases here : state.phase thread with
    | scanning key useTar => simpa only [mapStep, here] using right
    | scanned key members file => simpa only [mapStep, here] using right
    | published key members file => simpa only [mapStep, here] using right
    | _ =>
      simp only [mapStep, here]
      exact right.move thread .idle True.intro
  | invalidate keys =>
    obtain ⟨follows, marked, maps⟩ := invalidate_keys right.marked keys
    exact ⟨right.files, follows.numbered right.numbered, marked,
      fun thread => (right.phases thread).later (.refl _) follows, by simp [mapStep],
      fun key members found => right.trusted.store key members (maps key members found)⟩
  | trim key =>
    refine ⟨right.files, right.numbered, right.marked, right.phases, ?_, right.trusted.store⟩
    intro other map found
    by_cases same : other = key
    · simp [mapStep, same] at found
    · exact right.trusted.cache other map (by simpa [mapStep, same] using found)

end Right

section Runs

theorem freshMaps_right (sealedFile tarFile : Option (List TarEntry)) :
    MapsRight (freshMaps sealedFile tarFile) := by
  refine ⟨?_, ?_, ?_, fun _ => True.intro, ?_, ?_⟩
  · refine changeTar_known (changeSealed_known ⟨?_, ?_⟩ sealedFile) tarFile
    · nofun
    · nofun
  · nofun
  · nofun
  · nofun
  · nofun

theorem map_run_right {state : MapState} (right : MapsRight state) (events : List MapEvent)
    (good : Lib.Throughout mapStep KeysMatch state events) :
    MapsRight (events.foldl mapStep state) := by
  induction events generalizing state with
  | nil => exact right
  | cons event later ih => exact ih (mapStep_right right good.1) good.2

/-- In every run that keeps to `KeysMatch`, each map is the listing of the archive with its key. -/
theorem identity_maps_true (sealedFile tarFile : Option (List TarEntry)) (events : List MapEvent)
    (good : Lib.Throughout mapStep KeysMatch (freshMaps sealedFile tarFile) events) :
    MapsTrue (events.foldl mapStep (freshMaps sealedFile tarFile)) :=
  (map_run_right (freshMaps_right sealedFile tarFile) events good).trusted

def storedEntry : TarEntry := ⟨lit "host/1", [1], true⟩

def laterEntry : TarEntry := ⟨lit "host/2", [2, 2], true⟩

def firstAppend : List MapEvent :=
  [.append 0 [storedEntry], .statSealed 0, .statTar 0, .mergeRead 0, .mergeCommit 0 false,
    .scanTar 1, .statSealed 1, .statTar 1, .storeCache 1, .statSealed 0, .statTar 0, .mergeCache 0]

theorem identity_maps_true_first_append :
    Lib.Throughout mapStep KeysMatch (freshMaps none none) firstAppend ∧
      MapsTrue (firstAppend.foldl mapStep (freshMaps none none)) := by
  have good : Lib.Throughout mapStep KeysMatch (freshMaps none none) firstAppend := by
    refine ⟨trivial, trivial, trivial, trivial, ?_, trivial, trivial, trivial, ?_, trivial, trivial,
      ?_, trivial⟩
    · intro added key seen here
      cases here
      exact ⟨contains_refl _, fun _ => contains_refl _⟩
    · intro members file key here
      cases here
      rfl
    · intro added key here
      cases here
      exact contains_refl _
  exact ⟨good, identity_maps_true none none firstAppend good⟩

def fillThenAppend : List MapEvent :=
  [.statSealed 0, .statTar 0, .resolveSealed 0, .choose 0, .tryBegin 0, .scan 0,
    .storeComplete 0 false, .finish 0, .append 1 [laterEntry], .statSealed 1, .statTar 1,
    .mergeRead 1, .mergeCommit 1 false]

theorem append_makes_partial_map :
    ¬ ∀ (sealedFile tarFile : Option (List TarEntry)) (events : List MapEvent)
        (members : MemberMap),
      (events.foldl mapStep (freshMaps sealedFile tarFile)).shard.lookupCompleteMap
          (events.foldl mapStep (freshMaps sealedFile tarFile)).files.key = some members →
        ListsFile (events.foldl mapStep (freshMaps sealedFile tarFile)).files members
          (events.foldl mapStep (freshMaps sealedFile tarFile)).files.key.listed := by
  intro always
  have lists := always none (some [storedEntry]) fillThenAppend _ rfl
  exact absurd (lists.2 (lit "host/1")) (by decide)

end Runs

end PerfStats.Archive
