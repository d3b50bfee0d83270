import PerfStats.Lib.Runs

/-! The entry stores of several processes that share one write-behind sidecar. -/

namespace PerfStats.Archive

section EntryStores

variable {ι κ ν : Type*}

/-- A value and the tick of the `set` or `replace_all` that stored it; no step reads the tick. -/
structure SidecarEntry (ν : Type*) where
  value : ν
  tick : Nat
  deriving DecidableEq

/-- What `_write` takes under `_lock`, and what it saved once the file lock is released. -/
structure WriteSnapshot (κ ν : Type*) where
  mine : κ → Option (SidecarEntry ν)
  dead : κ → Bool
  removed : κ → Nat
  merged : Option (κ → Option (SidecarEntry ν))

/-- `removed` is the tick of the last removal of a key by this process; no step reads it. -/
structure WriteBehindEntryStore (κ ν : Type*) where
  entries : Option (κ → Option (SidecarEntry ν))
  tombstones : κ → Bool
  writing : Option (WriteSnapshot κ ν)
  removed : κ → Nat

namespace WriteBehindEntryStore

def new : WriteBehindEntryStore κ ν := ⟨none, fun _ => false, none, fun _ => 0⟩

variable (store : WriteBehindEntryStore κ ν) (file : κ → Option (SidecarEntry ν)) (tick : Nat)

def ensureLoaded : κ → Option (SidecarEntry ν) := store.entries.getD file

def set [DecidableEq κ] (key : κ) (value : ν) : WriteBehindEntryStore κ ν :=
  { store with
    entries := some (Function.update (store.ensureLoaded file) key (some ⟨value, tick⟩))
    tombstones := Function.update store.tombstones key false }

def bury (doomed : κ → Bool) : WriteBehindEntryStore κ ν :=
  { store with
    tombstones := fun key => store.tombstones key || doomed key
    removed := fun key => if doomed key then tick else store.removed key }

def removeIf (predicate : κ → ν → Bool) : WriteBehindEntryStore κ ν :=
  let entries := store.ensureLoaded file
  let doomed := fun key => (entries key).any fun entry => predicate key entry.value
  { store.bury tick doomed with
    entries := some fun key => if doomed key then none else entries key }

def replaceAll (contents : κ → Option ν) : WriteBehindEntryStore κ ν :=
  let old := store.ensureLoaded file
  { store.bury tick fun key => (old key).isSome && (contents key).isNone with
    entries := some fun key => (contents key).map fun value => ⟨value, tick⟩ }

/-- The first part of `_write`; `_io_lock` keeps a second one out. -/
def snapshot : WriteBehindEntryStore κ ν :=
  match store.writing with
  | some _ => store
  | none =>
    { store with
      entries := some (store.ensureLoaded file)
      writing := some ⟨store.ensureLoaded file, store.tombstones, store.removed, none⟩ }

/-- What a snapshot makes of the file: `merged.update(mine)` over the keys that are not dead. -/
def merge (taken : WriteSnapshot κ ν) (key : κ) : Option (SidecarEntry ν) :=
  match taken.mine key with
  | some entry => some entry
  | none => if taken.dead key then none else file key

/-- The last part of `_write`, once `merged` is saved. -/
def adopt (dead : κ → Bool) (merged : κ → Option (SidecarEntry ν)) :
    WriteBehindEntryStore κ ν :=
  let live := store.ensureLoaded file
  { store with
    entries := some fun key =>
      if (live key).isNone && !store.tombstones key then merged key else live key
    tombstones := fun key => store.tombstones key && !dead key
    writing := none }

end WriteBehindEntryStore

/-- `gone` and `newest` are the ticks of the newest removal and the newest value that were flushed;
no step reads them. -/
structure SharedSidecar (ι κ ν : Type*) where
  stores : ι → WriteBehindEntryStore κ ν
  file : κ → Option (SidecarEntry ν)
  clock : Nat
  gone : κ → Nat
  newest : κ → Nat

/-- The calls of one process and the parts of its writes; `load` is the first read, `fail` a load or
a save that raises, `restart` a crash. -/
inductive SidecarUse (κ ν : Type*) where
  | load
  | set (key : κ) (value : ν)
  | removeIf (predicate : κ → ν → Bool)
  | replaceAll (contents : κ → Option ν)
  | snapshot
  | save
  | finish
  | fail
  | restart

def bootSidecar (contents : κ → Option ν) : SharedSidecar ι κ ν where
  stores := fun _ => .new
  file := fun key => (contents key).map fun value => ⟨value, 1⟩
  clock := 2
  gone := fun _ => 0
  newest := fun _ => 0

def Converged (shared : SharedSidecar ι κ ν) : Prop :=
  ∀ key entry, shared.file key = some entry →
    shared.gone key < entry.tick ∧ shared.newest key ≤ entry.tick

variable [DecidableEq ι]

def SharedSidecar.put (shared : SharedSidecar ι κ ν) (process : ι)
    (store : WriteBehindEntryStore κ ν) : SharedSidecar ι κ ν :=
  { shared with stores := Function.update shared.stores process store, clock := shared.clock + 1 }

/-- The second part of `_write`: the load, the merge and the save under the file lock. -/
def SharedSidecar.save (shared : SharedSidecar ι κ ν) (process : ι) (taken : WriteSnapshot κ ν) :
    SharedSidecar ι κ ν :=
  let merged := WriteBehindEntryStore.merge shared.file taken
  let store := { shared.stores process with writing := some { taken with merged := some merged } }
  { shared.put process store with
    file := merged
    gone := fun key => max (shared.gone key) (taken.removed key)
    newest := fun key => max (shared.newest key) ((taken.mine key).elim 0 (·.tick)) }

def sharedStep [DecidableEq κ] (shared : SharedSidecar ι κ ν) (event : ι × SidecarUse κ ν) :
    SharedSidecar ι κ ν :=
  let store := shared.stores event.1
  match event.2 with
  | .load => shared.put event.1 { store with entries := some (store.ensureLoaded shared.file) }
  | .set key value => shared.put event.1 (store.set shared.file shared.clock key value)
  | .removeIf predicate => shared.put event.1 (store.removeIf shared.file shared.clock predicate)
  | .replaceAll contents => shared.put event.1 (store.replaceAll shared.file shared.clock contents)
  | .snapshot => shared.put event.1 (store.snapshot shared.file)
  | .save =>
    match store.writing with
    | some ⟨mine, dead, removed, none⟩ => shared.save event.1 ⟨mine, dead, removed, none⟩
    | _ => shared
  | .finish =>
    match store.writing with
    | some ⟨_, dead, _, some merged⟩ => shared.put event.1 (store.adopt shared.file dead merged)
    | _ => shared
  | .fail => shared.put event.1 { store with writing := none }
  | .restart => shared.put event.1 .new

end EntryStores

def staleFlush : List (Nat × SidecarUse Nat Nat) :=
  [(0, .load), (1, .load), (0, .removeIf fun key _ => key == 7), (0, .snapshot), (0, .save),
    (0, .finish), (1, .set 8 1), (1, .snapshot), (1, .save), (1, .finish)]

def staleValue : List (Nat × SidecarUse Nat Nat) :=
  [(0, .load), (1, .load), (0, .set 7 2), (0, .snapshot), (0, .save), (0, .finish), (1, .snapshot),
    (1, .save)]

theorem write_behind_resurrects :
    (¬ ∀ (contents : Nat → Option Nat) (events : List (Nat × SidecarUse Nat Nat)) key entry,
      (events.foldl sharedStep (bootSidecar contents)).file key = some entry →
        (events.foldl sharedStep (bootSidecar contents)).gone key < entry.tick) ∧
    ¬ ∀ (contents : Nat → Option Nat) (events : List (Nat × SidecarUse Nat Nat)) key entry,
      (events.foldl sharedStep (bootSidecar contents)).file key = some entry →
        (events.foldl sharedStep (bootSidecar contents)).newest key ≤ entry.tick := by
  constructor
  · intro always
    exact absurd (always (fun key => if key = 7 then some 1 else none) staleFlush 7 ⟨1, 1⟩
      (by decide)) (by decide)
  · intro always
    exact absurd (always (fun key => if key = 7 then some 1 else none) staleValue 7 ⟨1, 1⟩
      (by decide)) (by decide)

end PerfStats.Archive
