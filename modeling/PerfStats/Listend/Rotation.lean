import PerfStats.Lib.Dict
import PerfStats.Lib.Raising
import PerfStats.Lib.Runs
import PerfStats.Listend.Payload

/-! The archive directory of one host: `current`, the digit-named epoch files, and the appends of
the worker that owns the host. -/

namespace PerfStats.Listend

open Lib

/-- The descriptor a worker keeps open on `current`, and the size it counts along. -/
structure Sticky where
  inode : Nat
  size : Nat
  deriving DecidableEq, Repr

/-- A host directory: the inode of `current`, those of the digit names, their contents, and what the
worker remembers. -/
structure HostDir where
  current : Option Nat
  epochs : Dict Nat Nat
  content : Nat → Str
  nextInode : Nat
  digitEpochLinkCache : Option (Nat × Nat)
  sticky : Option Sticky

structure Faults where
  makedirs : Bool
  lock : Bool
  flock : Bool
  read : Bool
  safetyLink : Bool
  unlink : Bool
  open_ : Bool
  newLink : Bool
  write : Option Nat
  /-- The lock sidecar was replaced, so the kept descriptor is given up. -/
  sidecarMoved : Bool
  deriving DecidableEq, Repr

def Faults.none : Faults :=
  ⟨false, false, false, false, false, false, false, false, Option.none, false⟩

namespace HostDir

def initial : HostDir := ⟨none, .empty, fun _ => [], 0, none, none⟩

def textOf (d : HostDir) (inode : Option Nat) : Str := (inode.map d.content).getD []

def link (d : HostDir) (name inode : Nat) : HostDir :=
  { d with epochs := d.epochs.set name inode }

/-- `_remember_digit_epoch_link`. -/
def remember (d : HostDir) (name inode : Nat) : HostDir :=
  { d with digitEpochLinkCache := some (name, inode) }

def append (d : HostDir) (inode : Nat) (text : Str) : HostDir :=
  { d with content := Function.update d.content inode (d.content inode ++ text) }

def create (d : HostDir) : HostDir :=
  { d with
    current := some d.nextInode
    content := Function.update d.content d.nextInode []
    nextInode := d.nextInode + 1 }

/-- `_release_sticky_archive_writer`. -/
def release (d : HostDir) : HostDir := { d with sticky := none }

def cacheHit (d : HostDir) (inode : Nat) : Bool :=
  match d.digitEpochLinkCache with
  | some (name, cached) => cached = inode && d.epochs.get? name = some cached
  | none => false

end HostDir

section Calls

abbrev Archive (α : Type) := Raising HostDir α

open Raising

def currentIsHardlinkedToDigitEpoch : Archive Bool := do
  let d ← get
  match d.current with
  | none => pure false
  | some inode =>
    if d.cacheHit inode then pure true
    else
      match d.epochs.entries.find? fun e => e.2 = inode with
      | some (name, _) => do
          modify fun d => d.remember name inode
          pure true
      | none => do
          modify fun d => { d with digitEpochLinkCache := none }
          pure false

def digitEpochNameMaxAttempts : Nat := 10000

def linkCurrentWalk (fails : Bool) (step : Int) : Nat → Int → Archive Nat
  | 0, _ => raise
  | attempts + 1, ts =>
    if ts ≤ 0 then raise
    else do
      let d ← get
      match d.epochs.get? ts.toNat, d.current with
      | some inode, current =>
        if current = some inode then do
          modify fun d => d.remember ts.toNat inode
          pure ts.toNat
        else linkCurrentWalk fails step attempts (ts + step)
      | none, none => raise
      | none, some inode => do
          attempt fails
          modify fun d => (d.link ts.toNat inode).remember ts.toNat inode
          pure ts.toNat

def linkCurrentToUniqueDigitEpoch (fails : Bool) (start step : Int) : Archive Nat :=
  linkCurrentWalk fails step digitEpochNameMaxAttempts start

def ensureCurrentHardlinkedToTimestamp (faults : Faults) (cutoff : Int) : Archive Nat := do
  let d ← get
  match if faults.read then none else getFirstTimestampSeconds (d.textOf d.current) with
  | none => raise
  | some first =>
    if min first (cutoff - 1) ≤ 0 then raise
    else linkCurrentToUniqueDigitEpoch faults.safetyLink (min first (cutoff - 1)) (-1)

/-- `write` of `open(current_path, ...)`: all of the text, or some of it and an error. -/
def writeText (faults : Faults) (inode : Nat) (text : Str) : Archive Unit :=
  match faults.write with
  | none => modify fun d => d.append inode text
  | some count => do
      modify fun d => (d.append inode (text.take count)).release
      raise

def ensureHardlinked (faults : Faults) (wall : Int) : Archive Unit := do
  let linked ← currentIsHardlinkedToDigitEpoch
  if linked then pure ()
  else do
    let _ ← ensureCurrentHardlinkedToTimestamp faults wall
    let relinked ← currentIsHardlinkedToDigitEpoch
    attempt !relinked

/-- A rotation gives up `current`, once a digit name holds its inode. -/
def closeCurrent (faults : Faults) (wall : Int) : Archive Unit := do
  let d ← get
  if d.current = none then pure ()
  else do
    ensureHardlinked faults wall
    attempt faults.unlink
    modify fun d => { d with current := none }

/-- A rotation starts the new `current`, which a digit name holds from its first second on. -/
def startCurrent (faults : Faults) (wall : Int) (text : Str) : Archive Nat := do
  attempt faults.open_
  modify HostDir.create
  let d ← get
  match d.current with
  | none => raise
  | some inode => do
      writeText faults inode text
      let written ← get
      let first :=
        if faults.read then none else getFirstTimestampSeconds (written.textOf written.current)
      linkCurrentToUniqueDigitEpoch faults.newLink (first.getD wall) 1

def rotate (faults : Faults) (wall : Int) (text : Str) : Archive Nat := do
  modify HostDir.release
  attempt faults.makedirs
  attempt faults.lock
  closeCurrent faults wall
  let _ ← startCurrent faults wall text
  pure 0

/-- `open(current_path, "ab")` and the sidecar: the descriptor to keep. -/
def openSticky (faults : Faults) : Archive Sticky := do
  modify HostDir.release
  attempt faults.open_
  modify fun d => if d.current = none then d.create else d
  attempt faults.lock
  let d ← get
  match d.current with
  | none => raise
  | some inode => do
      let st : Sticky := ⟨inode, (d.content inode).length⟩
      modify fun d => { d with sticky := some st }
      pure st

def takeSticky (faults : Faults) : Archive Sticky := do
  let d ← get
  match if faults.sidecarMoved then none else d.sticky with
  | some st => pure st
  | none => openSticky faults

/-- The offset of the text in `current`. -/
def stickyAppendSampleBytes (faults : Faults) (text : Str) : Archive Nat := do
  let st ← takeSticky faults
  attempt faults.flock
  writeText faults st.inode text
  modify fun d => { d with sticky := some { st with size := st.size + text.length } }
  pure st.size

/-- What `append_monitor_payload_to_archive` returns. -/
structure ArchiveAppendResult where
  host : Str
  offset : Nat
  length : Nat
  deriving DecidableEq, Repr

def appendHere (message : Str) (wall : Int) (faults : Faults) : Archive Nat :=
  if message.head? = some '$' then rotate faults wall message
  else stickyAppendSampleBytes faults message

/-- A call as the directory of `host` sees it: one for another host only makes the worker give up
its descriptor. -/
def appendMonitorPayloadToArchive (host message : Str) (wall : Int) (faults : Faults) :
    Archive ArchiveAppendResult := do
  attempt (message = [])
  match parseHostFromMonitorPayload message with
  | none => raise
  | some parsed =>
    if parsed = host then do
      let offset ← appendHere message wall faults
      pure ⟨parsed, offset, message.length⟩
    else do
      modify HostDir.release
      pure ⟨parsed, 0, message.length⟩

end Calls

section Growth

/-- No digit name is re-pointed, no file loses text, and `current` is dropped only behind a
digit name. -/
structure Grows (d e : HostDir) : Prop where
  fresh : d.nextInode ≤ e.nextInode
  epochs : ∀ name inode, d.epochs.get? name = some inode → e.epochs.get? name = some inode
  content : ∀ inode, inode < d.nextInode → d.content inode <+: e.content inode
  current : ∀ inode, d.current = some inode →
    e.current = some inode ∨ ∃ name, e.epochs.get? name = some inode

theorem Grows.refl (d : HostDir) : Grows d d :=
  ⟨le_rfl, fun _ _ => id, fun _ _ => List.prefix_refl _, fun _ => .inl⟩

theorem Grows.trans {d e f : HostDir} (first : Grows d e) (second : Grows e f) : Grows d f where
  fresh := first.fresh.trans second.fresh
  epochs name inode here := second.epochs name inode (first.epochs name inode here)
  content inode old := (first.content inode old).trans
    (second.content inode (Nat.lt_of_lt_of_le old first.fresh))
  current inode here := by
    rcases first.current inode here with still | ⟨name, closed⟩
    · exact second.current inode still
    · exact .inr ⟨name, second.epochs name inode closed⟩

/-- Every name is of a file, no file has two digit names, and the kept descriptor is of
`current` and counts its size. -/
structure Wf (d : HostDir) : Prop where
  epochs_lt : ∀ name inode, d.epochs.get? name = some inode → inode < d.nextInode
  current_lt : ∀ inode, d.current = some inode → inode < d.nextInode
  single : ∀ a b inode, d.epochs.get? a = some inode → d.epochs.get? b = some inode → a = b
  sticky : ∀ st, d.sticky = some st →
    d.current = some st.inode ∧ st.size = (d.content st.inode).length

def Linked (d : HostDir) : Prop :=
  ∃ inode name, d.current = some inode ∧ d.epochs.get? name = some inode

theorem Wf.initial : Wf .initial where
  epochs_lt _ _ here := by simp [HostDir.initial] at here
  current_lt _ here := by simp [HostDir.initial] at here
  single _ _ _ here := by simp [HostDir.initial] at here
  sticky _ here := by simp [HostDir.initial] at here

variable {d : HostDir}

theorem Wf.release (wf : Wf d) : Wf d.release :=
  ⟨wf.epochs_lt, wf.current_lt, wf.single, fun _ here => by simp [HostDir.release] at here⟩

theorem Grows.release : Grows d d.release :=
  ⟨le_rfl, fun _ _ => id, fun _ _ => List.prefix_refl _, fun _ => .inl⟩

theorem Wf.recache (wf : Wf d) (cache : Option (Nat × Nat)) :
    Wf { d with digitEpochLinkCache := cache } :=
  ⟨wf.epochs_lt, wf.current_lt, wf.single, wf.sticky⟩

theorem Grows.recache (cache : Option (Nat × Nat)) :
    Grows d { d with digitEpochLinkCache := cache } :=
  ⟨le_rfl, fun _ _ => id, fun _ _ => List.prefix_refl _, fun _ => .inl⟩

theorem Wf.link (wf : Wf d) {name inode : Nat} (current : d.current = some inode)
    (unlinked : ¬ Linked d) : Wf (d.link name inode) := by
  have none_ : ∀ other, d.epochs.get? other ≠ some inode :=
    fun other here => unlinked ⟨inode, other, current, here⟩
  refine ⟨?_, wf.current_lt, ?_, wf.sticky⟩
  · intro other target here
    simp only [HostDir.link, Dict.get?_set] at here
    split at here
    · cases here
      exact wf.current_lt inode current
    · exact wf.epochs_lt other target here
  · intro a b target first second
    simp only [HostDir.link, Dict.get?_set] at first second
    split at first <;> split at second
    next one two => exact one.trans two.symm
    · cases first
      exact absurd second (none_ b)
    · cases second
      exact absurd first (none_ a)
    · exact wf.single a b target first second

theorem Grows.link {name inode : Nat} (unused : d.epochs.get? name = none) :
    Grows d (d.link name inode) := by
  refine ⟨le_rfl, fun other target here => ?_, fun _ _ => List.prefix_refl _, fun _ => .inl⟩
  have apart : other ≠ name := by
    rintro rfl
    simp [unused] at here
  simpa [HostDir.link, Dict.get?_set, apart] using here

theorem Wf.create (wf : Wf d) (sticky : d.sticky = none) : Wf d.create := by
  refine ⟨?_, ?_, wf.single, ?_⟩
  · intro name inode here
    exact Nat.lt_succ_of_lt (wf.epochs_lt name inode here)
  · intro inode here
    cases here
    exact Nat.lt_succ_self _
  · intro st here
    simp [HostDir.create, sticky] at here

theorem Grows.create (absent : d.current = none) : Grows d d.create := by
  refine ⟨Nat.le_succ _, fun _ _ => id, fun inode old => ?_, ?_⟩
  · simp [HostDir.create, Nat.ne_of_lt old]
  · intro inode here
    simp [absent] at here

theorem unlinked_create (wf : Wf d) : ¬ Linked d.create := by
  rintro ⟨inode, name, current, linked⟩
  cases current
  exact Nat.lt_irrefl _ (wf.epochs_lt name _ linked)

theorem Grows.append (inode : Nat) (text : Str) : Grows d (d.append inode text) := by
  refine ⟨le_rfl, fun _ _ => id, fun other _ => ?_, fun _ => .inl⟩
  by_cases same : other = inode
  · subst same
    simp [HostDir.append]
  · simp [HostDir.append, same]

theorem Wf.append (wf : Wf d) (inode : Nat) (text : Str) : Wf (d.append inode text).release :=
  ⟨wf.epochs_lt, wf.current_lt, wf.single, fun _ here => by simp [HostDir.release] at here⟩

theorem Wf.drop (wf : Wf d) (sticky : d.sticky = none) : Wf { d with current := none } where
  epochs_lt := wf.epochs_lt
  current_lt _ here := by simp at here
  single := wf.single
  sticky _ here := by simp [sticky] at here

theorem Grows.drop (linked : Linked d) : Grows d { d with current := none } := by
  refine ⟨le_rfl, fun _ _ => id, fun _ _ => List.prefix_refl _, ?_⟩
  rcases linked with ⟨inode, name, current, linked⟩
  intro other here
  cases current.symm.trans here
  exact .inr ⟨name, linked⟩

end Growth

section Specs

variable {d : HostDir}

theorem cacheHit_iff {inode : Nat} (hit : d.cacheHit inode = true) :
    ∃ name, d.epochs.get? name = some inode := by
  unfold HostDir.cacheHit at hit
  split at hit
  next name cached _ =>
    simp only [Bool.and_eq_true, decide_eq_true_eq] at hit
    exact ⟨name, hit.1 ▸ hit.2⟩
  · cases hit

theorem hardlinked_spec : Ensures d currentIsHardlinkedToDigitEpoch
    (fun linked t => (∃ cache, t = { d with digitEpochLinkCache := cache }) ∧
      (linked = true ↔ Linked d)) fun _ => False := by
  apply Ensures.read
  split
  next absent =>
    refine Ensures.pure ⟨⟨_, rfl⟩, iff_of_false Bool.false_ne_true fun linked => ?_⟩
    rcases linked with ⟨inode, _, current, _⟩
    rw [absent] at current
    cases current
  next inode current =>
    split
    next hit =>
      rcases cacheHit_iff hit with ⟨name, here⟩
      exact Ensures.pure ⟨⟨_, rfl⟩, fun _ => ⟨inode, name, current, here⟩, fun _ => rfl⟩
    · split
      next name other found =>
        have same : other = inode := by simpa using List.find?_some found
        subst same
        have here := Dict.get?_eq_some.mpr (List.mem_of_find?_eq_some found)
        apply Ensures.update
        exact Ensures.pure ⟨⟨_, rfl⟩, fun _ => ⟨_, name, current, here⟩, fun _ => rfl⟩
      next missing =>
        apply Ensures.update
        refine Ensures.pure ⟨⟨_, rfl⟩, iff_of_false Bool.false_ne_true fun linked => ?_⟩
        rcases linked with ⟨other, name, again, here⟩
        cases current.symm.trans again
        have absent := List.find?_eq_none.mp missing _ (Dict.get?_eq_some.mp here)
        simp at absent

theorem linkCurrentWalk_spec {fails : Bool} {step : Int} {attempts : Nat} {ts : Int} :
    Ensures d (linkCurrentWalk fails step attempts ts)
      (fun name t => ∃ inode, d.current = some inode ∧
        (d.epochs.get? name = some inode ∧ t = d.remember name inode ∨
          d.epochs.get? name = none ∧ t = (d.link name inode).remember name inode))
      fun t => t = d := by
  induction attempts generalizing ts with
  | zero => exact Ensures.raise rfl
  | succ attempts ih =>
    unfold linkCurrentWalk
    split
    · exact Ensures.raise rfl
    apply Ensures.read
    split
    next inode taken =>
      split
      next same =>
        apply Ensures.update
        exact Ensures.pure ⟨inode, same, .inl ⟨taken, rfl⟩⟩
      · exact ih
    · exact Ensures.raise rfl
    next inode free current =>
      refine Ensures.fallible rfl fun _ => ?_
      apply Ensures.update
      exact Ensures.pure ⟨inode, current, .inr ⟨free, rfl⟩⟩

theorem linkCurrent_kept {fails : Bool} {step ts : Int} (wf : Wf d) (unlinked : ¬ Linked d) :
    Ensures d (linkCurrentToUniqueDigitEpoch fails ts step)
      (fun _ t => Wf t ∧ Grows d t ∧ Linked t ∧ t.current = d.current ∧ t.content = d.content ∧
        t.sticky = d.sticky)
      fun t => t = d := by
  refine linkCurrentWalk_spec.weaken (fun name t ended => ?_) fun t => id
  rcases ended with ⟨inode, current, ⟨named, -⟩ | ⟨free, rfl⟩⟩
  · exact absurd ⟨inode, name, current, named⟩ unlinked
  · have linked : (d.link name inode).epochs.get? name = some inode := by
      simp [HostDir.link]
    exact ⟨(wf.link current unlinked).recache _, (Grows.link free).trans (Grows.recache _),
      ⟨inode, name, current, linked⟩, rfl, rfl, rfl⟩

structure Stays (d t : HostDir) : Prop where
  wf : Wf t
  grows : Grows d t

theorem Stays.refl (wf : Wf d) : Stays d d := ⟨wf, Grows.refl d⟩

theorem Stays.next {t u : HostDir} (stays : Stays d t) (more : Stays t u) : Stays d u :=
  ⟨more.wf, stays.grows.trans more.grows⟩

variable {faults : Faults} {wall : Int} {text : Str}

theorem ensureCurrent_kept {cutoff : Int} (wf : Wf d) (unlinked : ¬ Linked d) :
    Ensures d (ensureCurrentHardlinkedToTimestamp faults cutoff)
      (fun _ t => Stays d t ∧ t.sticky = d.sticky) (Stays d) := by
  apply Ensures.read
  split
  · exact Ensures.raise (.refl wf)
  · split
    · exact Ensures.raise (.refl wf)
    · refine (linkCurrent_kept wf unlinked).weaken (fun _ t kept => ?_) fun t same => ?_
      · exact ⟨⟨kept.1, kept.2.1⟩, kept.2.2.2.2.2⟩
      · rw [same]
        exact .refl wf

theorem ensureHardlinked_spec (wf : Wf d) (sticky : d.sticky = none) :
    Ensures d (ensureHardlinked faults wall)
      (fun _ t => Stays d t ∧ Linked t ∧ t.sticky = none) (Stays d) := by
  have recached : ∀ {t : HostDir} cache, Wf t → Stays t { t with digitEpochLinkCache := cache } :=
    fun cache wf => ⟨wf.recache cache, Grows.recache cache⟩
  apply Ensures.bind (hardlinked_spec.weaken (fun _ _ => id) fun _ => False.elim)
  rintro linked _ ⟨⟨cache, rfl⟩, linked_iff⟩
  split
  next yes => exact Ensures.pure ⟨recached cache wf, linked_iff.mp yes, sticky⟩
  next no =>
    have stays := recached cache wf
    have unlinked : ¬ Linked { d with digitEpochLinkCache := cache } :=
      fun linked => no (linked_iff.mpr linked)
    apply Ensures.bind ((ensureCurrent_kept stays.wf unlinked).weaken (fun _ _ => id)
      fun _ => stays.next)
    rintro _ t ⟨ensured, kept⟩
    apply Ensures.bind (hardlinked_spec.weaken (fun _ _ => id) fun _ => False.elim)
    rintro relinked _ ⟨⟨cache', rfl⟩, relinked_iff⟩
    have all := (stays.next ensured).next (recached cache' ensured.wf)
    refine Ensures.attempt (fun again => ⟨all, relinked_iff.mp (by simpa using again), ?_⟩) all
    exact kept.trans sticky

theorem closeCurrent_spec (wf : Wf d) (sticky : d.sticky = none) :
    Ensures d (closeCurrent faults wall)
      (fun _ t => Stays d t ∧ t.current = none ∧ t.sticky = none) (Stays d) := by
  apply Ensures.read
  split
  next absent => exact Ensures.pure ⟨.refl wf, absent, sticky⟩
  · apply Ensures.bind (ensureHardlinked_spec wf sticky)
    rintro _ t ⟨stays, linked, released⟩
    refine Ensures.fallible stays fun _ => ?_
    exact Ensures.modify
      ⟨stays.next ⟨stays.wf.drop released, Grows.drop linked⟩, rfl, released⟩

theorem writeText_spec {inode : Nat} (wf : Wf d) :
    Ensures d (writeText faults inode text) (fun _ t => t = d.append inode text)
      fun t => Stays d t ∧ t.current = d.current := by
  unfold writeText
  split
  · exact Ensures.modify rfl
  · apply Ensures.update
    exact Ensures.raise ⟨⟨wf.append _ _, (Grows.append _ _).trans Grows.release⟩, rfl⟩

/-- What a call that returned has done: its text is in `current` from the offset on. -/
def Written (text : Str) (offset : Nat) (t : HostDir) : Prop :=
  ∃ inode, t.current = some inode ∧ ((t.content inode).drop offset).take text.length = text

theorem startCurrent_spec (wf : Wf d) (absent : d.current = none) (sticky : d.sticky = none) :
    Ensures d (startCurrent faults wall text)
      (fun _ t => Stays d t ∧ Linked t ∧ Written text 0 t) (Stays d) := by
  have created : Stays d d.create := ⟨wf.create sticky, Grows.create absent⟩
  refine Ensures.fallible (.refl wf) fun _ => ?_
  apply Ensures.update
  apply Ensures.read
  split
  · exact Ensures.raise created
  next inode current =>
    apply Ensures.bind ((writeText_spec created.wf).weaken (fun _ _ => id)
      fun _ kept => created.next kept.1)
    rintro _ _ rfl
    have released : (d.create.append inode text).sticky = none := sticky
    have same : (d.create.append inode text).release = d.create.append inode text := by
      simp only [HostDir.release, ← released]
    have written : Stays d (d.create.append inode text) :=
      created.next ⟨same ▸ created.wf.append inode text, Grows.append inode text⟩
    have unlinked : ¬ Linked (d.create.append inode text) := unlinked_create wf
    refine (linkCurrent_kept written.wf unlinked).weaken (fun _ t kept => ?_) fun t same => ?_
    · rcases kept with ⟨wf', grows, linked, still, content, -⟩
      refine ⟨written.next ⟨wf', grows⟩, linked, inode, still.trans current, ?_⟩
      cases current
      simp [content, HostDir.append, HostDir.create]
    · rw [same]
      exact written

theorem rotate_spec (wf : Wf d) : Ensures d (rotate faults wall text)
      (fun offset t => Stays d t ∧ Linked t ∧ Written text offset t) (Stays d) := by
  have released : Stays d d.release := ⟨wf.release, Grows.release⟩
  refine Ensures.fallible released fun _ => ?_
  refine Ensures.fallible released fun _ => ?_
  apply Ensures.bind ((closeCurrent_spec released.wf rfl).weaken (fun _ _ => id)
    fun _ => released.next)
  rintro _ t ⟨closed, absent, sticky⟩
  have closed := released.next closed
  apply Ensures.bind ((startCurrent_spec closed.wf absent sticky).weaken (fun _ _ => id)
    fun _ => closed.next)
  rintro _ u ⟨started, linked, written⟩
  exact Ensures.pure ⟨closed.next started, linked, written⟩

structure Steady (d t : HostDir) : Prop extends Stays d t where
  still : ∀ inode, d.current = some inode → t.current = some inode

theorem Steady.next {t u : HostDir} (steady : Steady d t) (more : Steady t u) : Steady d u :=
  ⟨steady.toStays.next more.toStays, fun inode here => more.still inode (steady.still inode here)⟩

theorem Steady.linked {t : HostDir} (steady : Steady d t) (linked : Linked d) : Linked t := by
  rcases linked with ⟨inode, name, current, named⟩
  exact ⟨inode, name, steady.still inode current, steady.grows.epochs name inode named⟩

theorem openSticky_spec (wf : Wf d) :
    Ensures d (openSticky faults) (fun st t => Steady d t ∧ t.sticky = some st) (Steady d) := by
  have released : Steady d d.release := ⟨⟨wf.release, Grows.release⟩, fun _ => id⟩
  refine Ensures.fallible released fun _ => ?_
  apply Ensures.update
  have opened : Steady d (if d.release.current = none then d.release.create else d.release) := by
    split
    next absent =>
      exact released.next ⟨⟨wf.release.create rfl, Grows.create absent⟩,
        fun inode here => by simp [absent] at here⟩
    · exact released
  generalize (if d.release.current = none then d.release.create else d.release) = t at opened ⊢
  refine Ensures.fallible opened fun _ => ?_
  apply Ensures.read
  split
  · exact Ensures.raise opened
  next inode current =>
    apply Ensures.update
    refine Ensures.pure ⟨opened.next ⟨⟨⟨opened.wf.epochs_lt, opened.wf.current_lt,
      opened.wf.single, fun st here => ?_⟩, ?_⟩, fun _ => id⟩, rfl⟩
    · cases here
      exact ⟨current, rfl⟩
    · exact ⟨le_rfl, fun _ _ => id, fun _ _ => List.prefix_refl _, fun _ => .inl⟩

theorem takeSticky_spec (wf : Wf d) :
    Ensures d (takeSticky faults) (fun st t => Steady d t ∧ t.sticky = some st) (Steady d) := by
  apply Ensures.read
  split
  next st kept =>
    split at kept
    · cases kept
    · exact Ensures.pure ⟨⟨.refl wf, fun _ => id⟩, kept⟩
  · exact openSticky_spec wf

theorem stickyAppend_spec (wf : Wf d) : Ensures d (stickyAppendSampleBytes faults text)
      (fun offset t => Steady d t ∧ Written text offset t) (Steady d) := by
  apply Ensures.bind (takeSticky_spec wf)
  rintro st t ⟨taken, sticky⟩
  rcases taken.wf.sticky st sticky with ⟨current, size⟩
  refine Ensures.fallible taken fun _ => ?_
  apply Ensures.bind ((writeText_spec taken.wf).weaken (fun _ _ => id) fun _ kept =>
    taken.next ⟨kept.1, fun inode here => kept.2.trans here⟩)
  rintro _ _ rfl
  apply Ensures.update
  have content : (t.append st.inode text).content st.inode = t.content st.inode ++ text := by
    simp [HostDir.append]
  refine Ensures.pure ⟨taken.next ⟨⟨⟨taken.wf.epochs_lt, taken.wf.current_lt, taken.wf.single,
    fun kept here => ?_⟩, ?_⟩, fun _ => id⟩, st.inode, current, ?_⟩
  · cases here
    exact ⟨current, by rw [content, List.length_append, size]⟩
  · exact ⟨le_rfl, fun _ _ => id, (Grows.append st.inode text).content, fun _ => .inl⟩
  · rw [content, size]
    simp

end Specs

section Runs

inductive Call where
  | append (message : Str) (wall : Int) (faults : Faults)
  /-- The worker starts anew on the directory it left. -/
  | restart

def HostDir.call (host : Str) (d : HostDir) : Call → Option ArchiveAppendResult × HostDir
  | .append message wall faults =>
    (appendMonitorPayloadToArchive host message wall faults).outcome d
  | .restart => (none, { d with digitEpochLinkCache := none, sticky := none })

abbrev Log := List (Call × Option ArchiveAppendResult)

def HostDir.calls (host : Str) (d : HostDir) : List Call → Log × HostDir
  | [] => ([], d)
  | call :: rest =>
    let (result, t) := d.call host call
    let (log, u) := t.calls host rest
    ((call, result) :: log, u)

def CallStep (host : Str) (d : HostDir) (label : Call × Option ArchiveAppendResult)
    (t : HostDir) : Prop := d.call host label.1 = (label.2, t)

theorem calls_run (host : Str) (d : HostDir) (calls : List Call) :
    Run (CallStep host) d (d.calls host calls).1 (d.calls host calls).2 := by
  induction calls generalizing d with
  | nil => exact .start
  | cons call rest ih => exact (ih _).head rfl

def Appended (host : Str) (log : Log) (message : Str) : Prop :=
  ∃ wall faults result, (Call.append message wall faults, some result) ∈ log ∧ result.host = host

def isRotationOf (host message : Str) : Bool :=
  message.head? = some '$' && parseHostFromMonitorPayload message = some host

def rotated (host : Str) (log : Log) : Bool :=
  log.foldl (fun before label =>
    match label with
    | (.append message _ _, result) => if isRotationOf host message then result.isSome else before
    | (.restart, _) => before) false

def HeldText (d : HostDir) (text : Str) : Prop :=
  ∃ inode, (d.current = some inode ∨ ∃ name, d.epochs.get? name = some inode) ∧
    text <:+: d.content inode

def InEpoch (d : HostDir) (text : Str) : Prop :=
  ∃ name inode, d.epochs.get? name = some inode ∧ text <:+: d.content inode

theorem HeldText.grows {d t : HostDir} {text : Str} (held : HeldText d text) (wf : Wf d)
    (grows : Grows d t) : HeldText t text := by
  rcases held with ⟨inode, place, part⟩
  have old : inode < d.nextInode := by
    rcases place with current | ⟨name, named⟩
    · exact wf.current_lt inode current
    · exact wf.epochs_lt name inode named
  refine ⟨inode, ?_, part.trans (grows.content inode old).isInfix⟩
  rcases place with current | ⟨name, named⟩
  · exact grows.current inode current
  · exact .inr ⟨name, grows.epochs name inode named⟩

theorem Written.held {d : HostDir} {text : Str} {offset : Nat} (written : Written text offset d) :
    HeldText d text := by
  rcases written with ⟨inode, current, range⟩
  refine ⟨inode, .inl current, ?_⟩
  have part : ((d.content inode).drop offset).take text.length <:+: d.content inode :=
    (List.take_prefix _ _).isInfix.trans (List.drop_suffix _ _).isInfix
  rwa [range] at part

theorem HeldText.inEpoch {d : HostDir} {text : Str} (held : HeldText d text) (linked : Linked d) :
    InEpoch d text := by
  rcases held with ⟨inode, current | ⟨name, named⟩, part⟩
  · rcases linked with ⟨other, name, same, named⟩
    cases current.symm.trans same
    exact ⟨name, inode, named, part⟩
  · exact ⟨name, inode, named, part⟩

theorem append_spec {d : HostDir} {host message : Str} {wall : Int} {faults : Faults}
    (wf : Wf d) :
    Ensures d (appendMonitorPayloadToArchive host message wall faults)
      (fun result t => Stays d t ∧ (result.host = host → Written message result.offset t) ∧
        (isRotationOf host message = true → Linked t) ∧ (Linked d → Linked t))
      fun t => Stays d t ∧ (isRotationOf host message = false → Linked d → Linked t) := by
  have unchanged : Stays d d ∧ (isRotationOf host message = false → Linked d → Linked d) :=
    ⟨.refl wf, fun _ => id⟩
  refine Ensures.fallible unchanged fun _ => ?_
  split
  · exact Ensures.raise unchanged
  next parsed parse =>
    split
    next here =>
      subst here
      unfold appendHere
      split
      next dollar =>
        have rotation : isRotationOf parsed message = true := by simp [isRotationOf, dollar, parse]
        apply Ensures.bind ((rotate_spec wf).weaken (fun _ _ => id)
          fun t stays => ⟨stays, fun other => by simp [rotation] at other⟩)
        rintro offset t ⟨stays, linked, written⟩
        exact Ensures.pure ⟨stays, fun _ => written, fun _ => linked, fun _ => linked⟩
      next plain =>
        have other : isRotationOf parsed message ≠ true := by simp [isRotationOf, plain]
        apply Ensures.bind ((stickyAppend_spec wf).weaken (fun _ _ => id)
          fun t steady => ⟨steady.toStays, fun _ => steady.linked⟩)
        rintro offset t ⟨steady, written⟩
        exact Ensures.pure ⟨steady.toStays, fun _ => written,
          fun rotation => absurd rotation other, steady.linked⟩
    next elsewhere =>
      have other : isRotationOf host message ≠ true := by simp [isRotationOf, parse, elsewhere]
      apply Ensures.update
      exact Ensures.pure ⟨⟨wf.release, Grows.release⟩, fun here => absurd here elsewhere,
        fun rotation => absurd rotation other, id⟩

structure Kept (host : Str) (log : Log) (d : HostDir) : Prop where
  wf : Wf d
  held : ∀ message, Appended host log message → HeldText d message
  linked : rotated host log = true → Linked d

theorem rotated_snoc (host : Str) (log : Log) (label : Call × Option ArchiveAppendResult) :
    rotated host (log ++ [label]) = match label with
      | (.append message _ _, result) =>
        if isRotationOf host message then result.isSome else rotated host log
      | (.restart, _) => rotated host log := by
  rcases label with ⟨call | _, result⟩ <;> simp [rotated]

theorem Kept.grows {host : Str} {log : Log} {d t : HostDir}
    {label : Call × Option ArchiveAppendResult} (kept : Kept host log d) (stays : Stays d t)
    (new : ∀ message, Appended host [label] message → HeldText t message)
    (linked : rotated host (log ++ [label]) = true → Linked t) : Kept host (log ++ [label]) t := by
  refine ⟨stays.wf, ?_, linked⟩
  rintro message ⟨wall, faults, result, member, mine⟩
  rcases List.mem_append.mp member with old | last
  · exact (kept.held message ⟨wall, faults, result, old, mine⟩).grows kept.wf stays.grows
  · exact new message ⟨wall, faults, result, last, mine⟩

theorem Kept.call {host : Str} {log : Log} {d t : HostDir}
    {label : Call × Option ArchiveAppendResult} (kept : Kept host log d)
    (taken : CallStep host d label t) : Kept host (log ++ [label]) t ∧ Grows d t := by
  rcases label with ⟨call, result⟩
  cases call with
  | restart =>
    cases taken
    have stays : Stays d { d with digitEpochLinkCache := none, sticky := none } :=
      ⟨⟨kept.wf.epochs_lt, kept.wf.current_lt, kept.wf.single, fun _ here => by simp at here⟩,
        ⟨le_rfl, fun _ _ => id, fun _ _ => List.prefix_refl _, fun _ => .inl⟩⟩
    refine ⟨kept.grows stays ?_ fun rotation => ?_, stays.grows⟩
    · rintro message ⟨wall, faults, result, member, mine⟩
      simp at member
    · rw [rotated_snoc] at rotation
      exact kept.linked rotation
  | append message wall faults =>
    have spec := (@append_spec d host message wall faults kept.wf).outcome taken
    cases result with
    | none =>
      rcases spec with ⟨stays, linked⟩
      refine ⟨kept.grows stays ?_ fun rotation => ?_, stays.grows⟩
      · rintro text ⟨_, _, result, member, mine⟩
        simp at member
      · rw [rotated_snoc] at rotation
        cases here : isRotationOf host message with
        | true => simp [here] at rotation
        | false => exact linked here (kept.linked (by simpa [here] using rotation))
    | some result =>
      rcases spec with ⟨stays, written, rotates, linked⟩
      refine ⟨kept.grows stays ?_ fun rotation => ?_, stays.grows⟩
      · rintro text ⟨_, _, other, member, mine⟩
        cases List.mem_singleton.mp member
        exact (written mine).held
      · rw [rotated_snoc] at rotation
        cases here : isRotationOf host message with
        | true => exact rotates here
        | false => exact linked (kept.linked (by simpa [here] using rotation))

theorem Kept.run {host : Str} {log : Log} {d : HostDir}
    (run : Run (CallStep host) .initial log d) : Kept host log d :=
  run.logged (I := Kept host) ⟨.initial, fun _ ⟨_, _, _, member, _⟩ => by simp at member,
    fun rotation => by simp [rotated] at rotation⟩ fun _ _ _ _ kept taken => (kept.call taken).1

theorem grows_run {host : Str} {log : Log} {d t : HostDir} (kept : Wf d)
    (run : Run (CallStep host) d log t) : Grows d t := by
  have both : Kept host [] d → Grows d t := fun start =>
    (run.logged (I := fun log t => Kept host log t ∧ Grows d t) ⟨start, Grows.refl d⟩
      fun _ _ _ _ before taken =>
        ⟨(before.1.call taken).1, before.2.trans (before.1.call taken).2⟩).2
  exact both ⟨kept, fun _ ⟨_, _, _, member, _⟩ => by simp at member,
    fun rotation => by simp [rotated] at rotation⟩

/-- The text of every append that returned is in the directory, under a digit name if the last
rotation returned; then `current` is one such file. -/
structure ArchiveKept (host : Str) (log : Log) (d : HostDir) : Prop where
  held : ∀ message, Appended host log message → HeldText d message
  inEpoch : rotated host log = true → ∀ message, Appended host log message → InEpoch d message
  atMostOne : ∀ a b inode, d.current = some inode → d.epochs.get? a = some inode →
    d.epochs.get? b = some inode → a = b
  linked : rotated host log = true → Linked d

def EpochsKept (d t : HostDir) : Prop :=
  ∀ name inode, d.epochs.get? name = some inode →
    t.epochs.get? name = some inode ∧ d.content inode <+: t.content inode

/-- Over every sequence of appends, with any of their file operations failing. -/
theorem archive_kept (host : Str) (calls more : List Call) :
    ArchiveKept host (HostDir.initial.calls host calls).1 (HostDir.initial.calls host calls).2 ∧
      EpochsKept (HostDir.initial.calls host calls).2
        ((HostDir.initial.calls host calls).2.calls host more).2 := by
  have kept := Kept.run (calls_run host .initial calls)
  have grows := grows_run kept.wf (calls_run host _ more)
  refine ⟨⟨kept.held, fun rotation message appended => ?_, fun a b inode _ => ?_, kept.linked⟩, ?_⟩
  · exact (kept.held message appended).inEpoch (kept.linked rotation)
  · exact kept.wf.single a b inode
  · exact fun name inode named => ⟨grows.epochs name inode named,
      grows.content inode (kept.wf.epochs_lt name inode named)⟩

instance (d : HostDir) : Decidable (Linked d) :=
  decidable_of_iff (∃ e ∈ d.epochs.entries, d.current = some e.2)
    ⟨fun ⟨e, member, current⟩ => ⟨e.2, e.1, current, Dict.get?_eq_some.mpr member⟩,
      fun ⟨inode, name, current, named⟩ => ⟨(name, inode), Dict.get?_eq_some.mp named, current⟩⟩

instance (d : HostDir) (text : Str) : Decidable (InEpoch d text) :=
  decidable_of_iff (∃ e ∈ d.epochs.entries, text <:+: d.content e.2)
    ⟨fun ⟨e, member, part⟩ => ⟨e.1, e.2, Dict.get?_eq_some.mpr member, part⟩,
      fun ⟨name, inode, named, part⟩ => ⟨(name, inode), Dict.get?_eq_some.mp named, part⟩⟩

def sampleOf (second : String) : Str := lit second ++ lit " 1 c001 x\n"

def rotationAt (second : String) (faults : Faults) : Call :=
  .append (lit "$v 3\n1 c001\n" ++ sampleOf second) 1710000900 faults

def plainFirst : List Call := [.append (sampleOf "1710000001") 1710000900 .none]

def failedLink : List Call :=
  [rotationAt "1710000001" .none, rotationAt "1710000301" { Faults.none with newLink := true },
    .append (sampleOf "1710000601") 1710000900 .none]

/-- After a plain first payload `current` has no digit name; and behind a rotation whose last link
failed an append returns without one. -/
theorem current_without_epoch :
    ((HostDir.initial.calls (lit "c001") plainFirst).2.current = some 0 ∧
      ¬ Linked (HostDir.initial.calls (lit "c001") plainFirst).2) ∧
    (HostDir.initial.calls (lit "c001") failedLink).1.map (fun label => label.2.isSome) =
      [true, false, true] ∧
    ¬ InEpoch (HostDir.initial.calls (lit "c001") failedLink).2 (sampleOf "1710000601") := by
  decide +kernel

end Runs

end PerfStats.Listend
