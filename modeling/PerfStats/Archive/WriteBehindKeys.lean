import PerfStats.Archive.WriteBehind

namespace PerfStats.Archive

open Lib Function

section Model

variable {ι κ ν : Type*}

structure KeyWrite (ν : Type*) where
  mine : Option (SidecarEntry ν)
  dead : Bool
  removed : Nat
  merged : Option (Option (SidecarEntry ν))

structure KeyStore (ν : Type*) where
  live : Option (SidecarEntry ν)
  tombstone : Bool
  removed : Nat
  writing : Option (KeyWrite ν)

def KeyStore.new : KeyStore ν := ⟨none, false, 0, none⟩

/-- What a process has changed of a key and not yet written: its value is not that of the file, or
it has a tombstone and no value. -/
def KeyStore.Unwritten (store : KeyStore ν) (file : Option (SidecarEntry ν)) : Prop :=
  if store.live = none then store.tombstone = true else store.live ≠ file

structure KeyStore.Unknown (store : KeyStore ν) : Prop where
  live : store.live = none
  tombstone : store.tombstone = false
  writing : ∀ taken ∈ store.writing,
    taken.mine = none ∧ taken.dead = false ∧ taken.merged.join = none

structure KeyWorld (ι ν : Type*) where
  stores : ι → KeyStore ν
  file : Option (SidecarEntry ν)
  clock : Nat
  gone : Nat
  newest : Nat

def WriteSnapshot.view (taken : WriteSnapshot κ ν) (key : κ) : KeyWrite ν :=
  ⟨taken.mine key, taken.dead key, taken.removed key, taken.merged.map fun merged => merged key⟩

namespace WriteBehindEntryStore

def view (store : WriteBehindEntryStore κ ν) (key : κ) : KeyStore ν :=
  ⟨store.entries.bind fun entries => entries key, store.tombstones key, store.removed key,
    store.writing.map fun taken => taken.view key⟩

end WriteBehindEntryStore

def SharedSidecar.view (shared : SharedSidecar ι κ ν) (key : κ) : KeyWorld ι ν :=
  ⟨fun process => (shared.stores process).view key, shared.file key, shared.clock, shared.gone key,
    shared.newest key⟩

namespace SidecarUse

def Reads (store : WriteBehindEntryStore κ ν) : SidecarUse κ ν → Prop
  | .save => True
  | .finish | .fail | .restart => False
  | _ => store.entries = none

def Changes (entries : κ → Option (SidecarEntry ν)) (key : κ) : SidecarUse κ ν → Prop
  | .set other _ => key = other
  | .removeIf predicate => (entries key).any (fun entry => predicate key entry.value) = true
  | .replaceAll contents => (entries key).isSome = true ∨ (contents key).isSome = true
  | _ => False

def Removes (entries : κ → Option (SidecarEntry ν)) (key : κ) : SidecarUse κ ν → Prop
  | .removeIf predicate => (entries key).any (fun entry => predicate key entry.value) = true
  | .replaceAll contents => (entries key).isSome = true ∧ contents key = none
  | _ => False

end SidecarUse

/-- A process reads the file while no other has an unwritten change of a key in it, changes no key
that another knows of, and removes none whose tombstone it writes. -/
structure Alone (shared : SharedSidecar ι κ ν) (event : ι × SidecarUse κ ν) : Prop where
  reads : event.2.Reads (shared.stores event.1) → ∀ key, (shared.file key).isSome = true →
    ∀ other, other ≠ event.1 → ¬((shared.stores other).view key).Unwritten (shared.file key)
  changes : ∀ key,
    event.2.Changes ((shared.stores event.1).ensureLoaded shared.file) key →
      ∀ other, other ≠ event.1 → ((shared.stores other).view key).Unknown
  removes : ∀ key,
    event.2.Removes ((shared.stores event.1).ensureLoaded shared.file) key →
      ∀ taken ∈ (shared.stores event.1).writing, taken.dead key = false

variable [DecidableEq ι]

namespace KeyWorld

variable (w : KeyWorld ι ν)

def put (process : ι) (store : KeyStore ν) : KeyWorld ι ν :=
  { w with stores := update w.stores process store }

def later : KeyWorld ι ν := { w with clock := w.clock + 1 }

def merge (taken : KeyWrite ν) : Option (SidecarEntry ν) :=
  taken.mine.or (if taken.dead then none else w.file)

def save (process : ι) (taken : KeyWrite ν) : KeyWorld ι ν :=
  { w.put process
      { w.stores process with writing := some { taken with merged := some (w.merge taken) } } with
    file := w.merge taken
    gone := max w.gone taken.removed
    newest := max w.newest (taken.mine.elim 0 (·.tick)) }

def adopt (process : ι) (taken : KeyWrite ν) (merged : Option (SidecarEntry ν)) : KeyStore ν :=
  let store := w.stores process
  { store with
    live := if store.live.isNone && !store.tombstone then merged else store.live
    tombstone := store.tombstone && !taken.dead
    writing := none }

end KeyWorld

end Model

section Invariant

variable {ι ν : Type*} {w : KeyWorld ι ν} {process : ι} {store : KeyStore ν} {taken : KeyWrite ν}
  {entry : SidecarEntry ν} {merged : Option (SidecarEntry ν)}

structure Fresh (w : KeyWorld ι ν) (entry : SidecarEntry ν) : Prop where
  gone : w.gone < entry.tick
  newest : w.newest ≤ entry.tick
  early : entry.tick < w.clock

structure MineRight (w : KeyWorld ι ν) (process : ι) (taken : KeyWrite ν)
    (entry : SidecarEntry ν) : Prop extends Fresh w entry where
  same : w.file = some entry ∨ (w.stores process).Unwritten w.file
  removed : taken.removed < entry.tick
  others : ∀ other, other ≠ process → (w.stores other).removed < entry.tick
  stale : taken.dead = true → (w.stores process).removed < entry.tick
  moved : (w.stores process).live = some entry ∨
    (w.stores process).live = none ∧ (w.stores process).tombstone = true ∨
      ∃ next, (w.stores process).live = some next ∧ entry.tick < next.tick

structure WriteRight (w : KeyWorld ι ν) (process : ι) (taken : KeyWrite ν) : Prop where
  removed : taken.removed ≤ (w.stores process).removed
  mine : taken.merged = none → ∀ entry, taken.mine = some entry → MineRight w process taken entry
  dead : taken.merged = none → taken.mine = none → taken.dead = true →
    (w.stores process).Unwritten w.file
  kept : taken.merged = none → taken.mine = none → taken.dead = false → ∀ entry,
    w.file = some entry → taken.removed < entry.tick
  settled : taken.merged ≠ none → taken.dead = true → ∀ entry, w.file = some entry →
    (w.stores process).removed < entry.tick
  merged : ∀ entry, taken.merged = some (some entry) → w.file = some entry

/-- Of the processes only one knows of a key with an unwritten change; everyone else has the value of
the file. -/
structure KeyRight (w : KeyWorld ι ν) : Prop where
  file : ∀ entry, w.file = some entry → Fresh w entry
  gone : w.gone < w.clock
  newest : w.newest < w.clock
  removed : ∀ process, (w.stores process).removed < w.clock
  alone : ∀ process, (w.stores process).Unwritten w.file → ∀ other, other ≠ process →
    (w.stores other).Unknown
  live : ∀ process entry, (w.stores process).live = some entry →
    Fresh w entry ∧ ∀ other, (w.stores other).removed < entry.tick
  outlived : ∀ entry, w.file = some entry → ∀ process,
    (w.stores process).removed < entry.tick ∨ (w.stores process).Unwritten w.file
  write : ∀ process taken, (w.stores process).writing = some taken → WriteRight w process taken

theorem KeyStore.Unknown.written (unknown : store.Unknown) (file : Option (SidecarEntry ν)) :
    ¬store.Unwritten file := by
  rw [KeyStore.Unwritten, if_pos unknown.live, unknown.tombstone]
  exact Bool.false_ne_true

theorem new_unknown : (KeyStore.new : KeyStore ν).Unknown := ⟨rfl, rfl, fun _ h => by cases h⟩

theorem unwritten_or_same (live : store.live = some entry)
    (file : Option (SidecarEntry ν)) : file = some entry ∨ store.Unwritten file := by
  by_cases same : file = some entry
  · exact .inl same
  · refine .inr ?_
    rw [KeyStore.Unwritten, if_neg (by rw [live]; simp), live]
    exact fun is => same is.symm

theorem unwritten_of_tombstone (live : store.live = none) (tombstone : store.tombstone = true)
    (file : Option (SidecarEntry ν)) : store.Unwritten file := by
  rw [KeyStore.Unwritten, if_pos live]
  exact tombstone

theorem unwritten_of_ne {file : Option (SidecarEntry ν)}
    (live : store.live = some entry) (apart : file ≠ some entry) : store.Unwritten file :=
  (unwritten_or_same live file).resolve_left apart

theorem KeyRight.copy (right : KeyRight w) {other : ι} (apart : other ≠ process)
    (unwritten : (w.stores process).Unwritten w.file)
    (writes : (w.stores other).writing = some taken) :
    taken.mine = none ∧ taken.dead = false ∧ taken.merged.join = none :=
  (right.alone process unwritten other apart).writing taken writes

variable [DecidableEq ι]

theorem put_self_clock {clock : Nat} :
    ({ w.put process store with clock := clock } : KeyWorld ι ν).stores process = store :=
  update_self ..

theorem put_other_clock {other : ι} (apart : other ≠ process) {clock : Nat} :
    ({ w.put process store with clock := clock } : KeyWorld ι ν).stores other = w.stores other :=
  update_of_ne apart ..

theorem KeyRight.of_put (right : KeyRight w) {clock : Nat} (later : w.clock ≤ clock)
    (owner : store.Unwritten w.file → ∀ other, other ≠ process → (w.stores other).Unknown)
    (copies : ∀ other, other ≠ process → (w.stores other).Unwritten w.file → store.Unknown)
    (removed : store.removed < clock)
    (lower : store.removed ≤ (w.stores process).removed ∨
      ∀ other, other ≠ process → (w.stores other).Unknown)
    (live : ∀ entry, store.live = some entry → Fresh { w with clock := clock } entry ∧
      store.removed < entry.tick ∧
        ∀ other, other ≠ process → (w.stores other).removed < entry.tick)
    (outlived : ∀ entry, w.file = some entry →
      store.removed < entry.tick ∨ store.Unwritten w.file)
    (write : ∀ taken, store.writing = some taken →
      WriteRight { w.put process store with clock := clock } process taken) :
    KeyRight { w.put process store with clock := clock } := by
  have self := @put_self_clock _ _ w process store _ clock
  have others := fun other apart => @put_other_clock _ _ w process store _ other apart clock
  have fresh : ∀ entry, Fresh w entry → Fresh { w.put process store with clock := clock } entry :=
    fun entry fresh => ⟨fresh.gone, fresh.newest, fresh.early.trans_le later⟩
  -- a removal of `process` stays below the values that another process holds
  have below : ∀ other, other ≠ process → ∀ entry, ((w.stores other).live = some entry ∨
      ∃ taken ∈ (w.stores other).writing, taken.merged = none ∧ taken.mine = some entry) →
        store.removed < entry.tick := by
    intro other apart entry held
    rcases lower with less | unknown
    · rcases held with live | ⟨taken, writes, unsaved, mine⟩
      · exact less.trans_lt ((right.live other entry live).2 process)
      · exact less.trans_lt
          (((right.write other taken writes).mine unsaved entry mine).others process apart.symm)
    · rcases held with live | ⟨taken, writes, _, mine⟩
      · rw [(unknown other apart).live] at live
        cases live
      · rw [((unknown other apart).writing taken writes).1] at mine
        cases mine
  constructor
  case file => exact fun entry held => fresh entry (right.file entry held)
  case gone => exact right.gone.trans_le later
  case newest => exact right.newest.trans_le later
  case removed =>
    intro other
    by_cases here : other = process
    · rw [here, self]
      exact removed
    · rw [others other here]
      exact (right.removed other).trans_le later
  case alone =>
    intro first unwritten other apart
    by_cases here : first = process
    · subst here
      rw [self] at unwritten
      rw [others other apart]
      exact owner unwritten other apart
    · rw [others first here] at unwritten
      by_cases there : other = process
      · rw [there, self]
        exact copies first here unwritten
      · rw [others other there]
        exact right.alone first unwritten other apart
  case live =>
    intro other entry held
    by_cases here : other = process
    · rw [here, self] at held
      obtain ⟨fresh, own, rest⟩ := live entry held
      refine ⟨⟨fresh.gone, fresh.newest, fresh.early⟩, fun third => ?_⟩
      by_cases there : third = process
      · rw [there, self]
        exact own
      · rw [others third there]
        exact rest third there
    · rw [others other here] at held
      obtain ⟨before, rest⟩ := right.live other entry held
      refine ⟨fresh entry before, fun third => ?_⟩
      by_cases there : third = process
      · rw [there, self]
        exact below other here entry (.inl held)
      · rw [others third there]
        exact rest third
  case outlived =>
    intro entry held other
    by_cases here : other = process
    · rw [here, self]
      exact outlived entry held
    · rw [others other here]
      exact right.outlived entry held other
  case write =>
    intro other taken writes
    by_cases here : other = process
    · subst here
      rw [self] at writes
      exact write taken writes
    · rw [others other here] at writes
      have old := right.write other taken writes
      constructor
      case removed => rw [others other here]; exact old.removed
      case mine =>
        intro unsaved entry held
        have mine := old.mine unsaved entry held
        refine ⟨fresh entry mine.toFresh, ?_, mine.removed, fun third differs => ?_, ?_, ?_⟩
        · rw [others other here]; exact mine.same
        · by_cases there : third = process
          · rw [there, self]
            exact below other here entry (.inr ⟨taken, writes, unsaved, held⟩)
          · rw [others third there]
            exact mine.others third differs
        · rw [others other here]; exact mine.stale
        · rw [others other here]; exact mine.moved
      case dead => rw [others other here]; exact old.dead
      case kept => exact old.kept
      case settled => rw [others other here]; exact old.settled
      case merged => exact old.merged

omit [DecidableEq ι] in
theorem KeyRight.later (right : KeyRight w) : KeyRight w.later := by
  have fresh : ∀ entry, Fresh w entry → Fresh w.later entry :=
    fun entry fresh => ⟨fresh.gone, fresh.newest, Nat.lt_succ_of_lt fresh.early⟩
  refine ⟨fun entry held => fresh entry (right.file entry held), Nat.lt_succ_of_lt right.gone,
    Nat.lt_succ_of_lt right.newest, fun other => Nat.lt_succ_of_lt (right.removed other),
    right.alone, fun other entry held => ?_, right.outlived, fun other taken writes => ?_⟩
  · exact ⟨fresh entry (right.live other entry held).1, (right.live other entry held).2⟩
  · have old := right.write other taken writes
    refine ⟨old.removed, fun unsaved entry held => ?_, old.dead, old.kept, old.settled, old.merged⟩
    have mine := old.mine unsaved entry held
    exact ⟨fresh entry mine.toFresh, mine.same, mine.removed, mine.others, mine.stale, mine.moved⟩

theorem KeyRight.read (right : KeyRight w) (settled : w.file.isSome = true →
      ∀ other, other ≠ process → ¬(w.stores other).Unwritten w.file) :
    KeyRight (w.put process { KeyStore.new with live := w.file }) := by
  have written : ¬({ KeyStore.new with live := w.file } : KeyStore ν).Unwritten w.file := by
    unfold KeyStore.Unwritten
    split
    · exact Bool.false_ne_true
    · exact fun apart => apart rfl
  refine right.of_put le_rfl (fun unwritten => absurd unwritten written) ?_
    (Nat.zero_lt_of_lt right.gone) (.inl (Nat.zero_le _)) ?_ ?_ fun _ h => by cases h
  · intro other apart unwritten
    cases held : w.file with
    | none => exact new_unknown
    | some entry => exact absurd unwritten (settled (by rw [held]; rfl) other apart)
  · intro entry held
    have held : w.file = some entry := held
    have fresh := right.file entry held
    refine ⟨⟨fresh.gone, fresh.newest, fresh.early⟩, Nat.zero_lt_of_lt fresh.gone, ?_⟩
    intro other apart
    have still := settled (by rw [held]; rfl) other apart
    exact (right.outlived entry held other).resolve_right still
  · exact fun entry held => .inl (Nat.zero_lt_of_lt (right.file entry held).gone)

theorem KeyRight.put (right : KeyRight w) (process : ι) (value : ν) (tombstone : Bool)
    (alone : ∀ other, other ≠ process → (w.stores other).Unknown) :
    KeyRight (w.put process { w.stores process with
      live := some ⟨value, w.clock⟩, tombstone := tombstone }).later := by
  have unwritten : KeyStore.Unwritten { w.stores process with
      live := some ⟨value, w.clock⟩, tombstone := tombstone } w.file := by
    refine unwritten_of_ne rfl fun same => ?_
    exact absurd (right.file _ same).early (lt_irrefl w.clock)
  refine right.of_put (Nat.le_succ _) (fun _ => alone)
    (fun other apart still => absurd still ((alone other apart).written _))
    (Nat.lt_succ_of_lt (right.removed process)) (.inl le_rfl) ?_ (fun _ _ => .inr unwritten) ?_
  · intro entry held
    cases held
    exact ⟨⟨right.gone, right.newest.le, Nat.lt_succ_self _⟩, right.removed process,
      fun other _ => right.removed other⟩
  · intro taken writes
    have old := right.write process taken writes
    constructor
    case removed => rw [put_self_clock]; exact old.removed
    case mine =>
      intro unsaved entry held
      have mine := old.mine unsaved entry held
      refine ⟨⟨mine.gone, mine.newest, Nat.lt_succ_of_lt mine.early⟩, ?_, mine.removed, ?_, ?_, ?_⟩
      · rw [put_self_clock]; exact .inr unwritten
      · intro other apart
        rw [put_other_clock apart]
        exact mine.others other apart
      · rw [put_self_clock]; exact mine.stale
      · rw [put_self_clock]; exact .inr (.inr ⟨_, rfl, mine.early⟩)
    case dead => rw [put_self_clock]; exact fun _ _ _ => unwritten
    case kept => exact old.kept
    case settled => rw [put_self_clock]; exact old.settled
    case merged => exact old.merged

theorem KeyRight.drop (right : KeyRight w) (process : ι)
    (alone : ∀ other, other ≠ process → (w.stores other).Unknown)
    (kept : ∀ taken ∈ (w.stores process).writing, taken.dead = false) :
    KeyRight (w.put process { w.stores process with
      live := none, tombstone := true, removed := w.clock }).later := by
  have unwritten : KeyStore.Unwritten { w.stores process with
      live := none, tombstone := true, removed := w.clock } w.file :=
    unwritten_of_tombstone rfl rfl _
  refine right.of_put (Nat.le_succ _) (fun _ => alone)
    (fun other apart still => absurd still ((alone other apart).written _))
    (Nat.lt_succ_self _) (.inr alone) (fun _ h => by cases h) (fun _ _ => .inr unwritten) ?_
  intro taken writes
  have old := right.write process taken writes
  have alive : taken.dead = false := kept taken writes
  constructor
  case removed => rw [put_self_clock]; exact (old.removed.trans_lt (right.removed process)).le
  case mine =>
    intro unsaved entry held
    have mine := old.mine unsaved entry held
    refine ⟨⟨mine.gone, mine.newest, Nat.lt_succ_of_lt mine.early⟩, ?_, mine.removed, ?_, ?_, ?_⟩
    · rw [put_self_clock]; exact .inr unwritten
    · intro other apart
      rw [put_other_clock apart]
      exact mine.others other apart
    · intro dead
      rw [alive] at dead
      cases dead
    · rw [put_self_clock]; exact .inr (.inl ⟨rfl, rfl⟩)
  case dead => rw [put_self_clock]; exact fun _ _ _ => unwritten
  case kept => exact old.kept
  case settled =>
    intro _ dead
    rw [alive] at dead
    cases dead
  case merged => exact old.merged

theorem KeyRight.snapshot (right : KeyRight w) (process : ι) :
    KeyRight (w.put process { w.stores process with
      writing := some ⟨(w.stores process).live, (w.stores process).tombstone,
        (w.stores process).removed, none⟩ }) := by
  refine right.of_put le_rfl (right.alone process) ?_ (right.removed process) (.inl le_rfl)
    (fun entry held => ?_) (fun entry held => right.outlived entry held process) ?_
  · intro other apart unwritten
    have unknown := right.alone other unwritten process apart.symm
    refine ⟨unknown.live, unknown.tombstone, fun taken writes => ?_⟩
    cases Option.mem_some_iff.mp writes
    exact ⟨unknown.live, unknown.tombstone, rfl⟩
  · obtain ⟨fresh, rest⟩ := right.live process entry held
    exact ⟨⟨fresh.gone, fresh.newest, fresh.early⟩, rest process, fun other _ => rest other⟩
  · intro taken writes
    cases Option.some.inj writes
    refine ⟨?_, fun _ entry held => ?_, fun _ unheld dead => ?_, fun _ unheld alive entry held => ?_,
      fun saved => absurd rfl saved, fun _ h => by cases h⟩
    · rw [put_self_clock]
    · obtain ⟨fresh, rest⟩ := right.live process entry held
      refine ⟨⟨fresh.gone, fresh.newest, fresh.early⟩, ?_, rest process, fun other apart => ?_, ?_, ?_⟩
      · rw [put_self_clock]
        exact unwritten_or_same held _
      · rw [put_other_clock apart]
        exact rest other
      · rw [put_self_clock]
        exact fun _ => rest process
      · rw [put_self_clock]
        exact .inl held
    · rw [put_self_clock]
      exact unwritten_of_tombstone unheld dead _
    · refine (right.outlived entry held process).resolve_right ?_
      rw [KeyStore.Unwritten, if_pos unheld, show (w.stores process).tombstone = false from alive]
      exact Bool.false_ne_true

omit [DecidableEq ι] in
theorem adopt_live :
    (w.adopt process taken merged).live = (w.stores process).live ∨
      (w.stores process).live = none ∧ (w.stores process).tombstone = false ∧
        (w.adopt process taken merged).live = merged := by
  unfold KeyWorld.adopt
  dsimp only
  split
  · next takes =>
      rw [Bool.and_eq_true, Option.isNone_iff_eq_none, Bool.not_eq_true'] at takes
      exact .inr ⟨takes.1, takes.2, rfl⟩
  · exact .inl rfl

theorem KeyRight.finish (right : KeyRight w)
    (writes : (w.stores process).writing = some taken) (saved : taken.merged = some merged) :
    KeyRight (w.put process (w.adopt process taken merged)) := by
  have write := right.write process taken writes
  have file : ∀ entry, merged = some entry → w.file = some entry :=
    fun entry held => write.merged entry (by rw [saved, held])
  -- a copy of the file that is taken up is no change, and nobody else has one
  have alone : ∀ entry, merged = some entry → ∀ other, other ≠ process →
      ¬(w.stores other).Unwritten w.file := by
    intro entry held other apart unwritten
    have copied := (right.copy apart.symm unwritten writes).2.2
    rw [saved, held] at copied
    cases copied
  have before : (w.adopt process taken merged).Unwritten w.file →
      (w.stores process).Unwritten w.file := by
    intro unwritten
    rcases @adopt_live _ _ w process taken merged with same | ⟨live, tombstone, adopted⟩
    · by_cases live : (w.stores process).live = none
      · rw [KeyStore.Unwritten, if_pos (same.trans live)] at unwritten
        exact unwritten_of_tombstone live (Bool.and_eq_true_iff.mp unwritten).1 _
      · rw [KeyStore.Unwritten, if_neg (by rw [same]; exact live), same] at unwritten
        rw [KeyStore.Unwritten, if_neg live]
        exact unwritten
    · cases held : merged with
      | none =>
        rw [KeyStore.Unwritten, if_pos (adopted.trans held)] at unwritten
        have still := (Bool.and_eq_true_iff.mp unwritten).1
        rw [tombstone] at still
        cases still
      | some entry =>
        rw [KeyStore.Unwritten, if_neg (by rw [adopted, held]; simp), adopted, held] at unwritten
        exact absurd (file entry held).symm unwritten
  refine right.of_put le_rfl (fun unwritten => right.alone process (before unwritten)) ?_
    (right.removed process) (.inl le_rfl) ?_ ?_ fun _ h => by cases h
  · intro other apart unwritten
    have unknown := right.alone other unwritten process apart.symm
    refine ⟨?_, ?_, fun _ h => by cases h⟩
    · rcases @adopt_live _ _ w process taken merged with same | ⟨_, _, adopted⟩
      · exact same.trans unknown.live
      · cases held : merged with
        | none =>
          subst held
          exact adopted
        | some entry => exact absurd unwritten (alone entry held other apart)
    · show ((w.stores process).tombstone && !taken.dead) = false
      rw [unknown.tombstone, Bool.false_and]
  · intro entry held
    rcases @adopt_live _ _ w process taken merged with same | ⟨live, tombstone, adopted⟩
    · obtain ⟨fresh, rest⟩ := right.live process entry (same.symm.trans held)
      exact ⟨⟨fresh.gone, fresh.newest, fresh.early⟩, rest process, fun other _ => rest other⟩
    · have there := adopted.symm.trans held
      have fresh := right.file entry (file entry there)
      have own : ¬(w.stores process).Unwritten w.file := by
        rw [KeyStore.Unwritten, if_pos live, tombstone]
        exact Bool.false_ne_true
      have outlived := right.outlived entry (file entry there)
      exact ⟨⟨fresh.gone, fresh.newest, fresh.early⟩, (outlived process).resolve_right own,
        fun other apart => (outlived other).resolve_right (alone entry there other apart)⟩
  · intro entry held
    rcases right.outlived entry held process with above | unwritten
    · exact .inl above
    · by_cases dead : taken.dead = true
      · exact .inl (write.settled (by rw [saved]; simp) dead entry held)
      · refine .inr ?_
        have same : (w.adopt process taken merged).live = (w.stores process).live := by
          rcases @adopt_live _ _ w process taken merged with same | ⟨live, tombstone, _⟩
          · exact same
          · rw [KeyStore.Unwritten, if_pos live, tombstone] at unwritten
            cases unwritten
        unfold KeyStore.Unwritten at unwritten ⊢
        rw [same]
        show if (w.stores process).live = none then
          ((w.stores process).tombstone && !taken.dead) = true else _
        rw [Bool.eq_false_of_not_eq_true dead, Bool.not_false, Bool.and_true]
        exact unwritten

omit [DecidableEq ι] in
theorem merge_cases (w : KeyWorld ι ν) (taken : KeyWrite ν) :
    (∃ entry, taken.mine = some entry ∧ w.merge taken = some entry) ∨
      taken.mine = none ∧ taken.dead = true ∧ w.merge taken = none ∨
        taken.mine = none ∧ taken.dead = false ∧ w.merge taken = w.file := by
  unfold KeyWorld.merge
  cases taken.mine with
  | some entry => exact .inl ⟨entry, rfl, rfl⟩
  | none =>
    cases taken.dead with
    | true => exact .inr (.inl ⟨rfl, rfl, rfl⟩)
    | false => exact .inr (.inr ⟨rfl, rfl, rfl⟩)

theorem KeyRight.save (right : KeyRight w)
    (writes : (w.stores process).writing = some taken) (unsaved : taken.merged = none)
    (settled : w.file.isSome = true →
      ∀ other, other ≠ process → ¬(w.stores other).Unwritten w.file) :
    KeyRight (w.save process taken) := by
  have write := right.write process taken writes
  have cases_ := merge_cases w taken
  have self : (w.save process taken).stores process =
      { w.stores process with writing := some { taken with merged := some (w.merge taken) } } :=
    update_self ..
  have others : ∀ other, other ≠ process →
      (w.save process taken).stores other = w.stores other := fun other apart => update_of_ne apart ..
  have removed : ∀ other, ((w.save process taken).stores other).removed =
      (w.stores other).removed := by
    intro other
    by_cases here : other = process
    · rw [here, self]
    · rw [others other here]
  -- a save that changes the file is of the only process that knows of the key
  have changed : w.merge taken = w.file ∨ (w.stores process).Unwritten w.file := by
    rcases cases_ with ⟨entry, mine, same⟩ | ⟨mine, dead, _⟩ | ⟨_, _, same⟩
    · rw [same]
      exact (write.mine unsaved entry mine).same.imp_left Eq.symm
    · exact .inr (write.dead unsaved mine dead)
    · exact .inl same
  have elsewhere : ∀ other, other ≠ process → ¬(w.stores other).Unknown →
      w.merge taken = w.file := by
    intro other apart known
    refine changed.resolve_right fun unwritten => ?_
    exact known (right.alone process unwritten other apart)
  have mine_file : ∀ other, other ≠ process → ¬(w.stores other).Unknown → ∀ entry,
      taken.mine = some entry → w.file = some entry := by
    intro other apart known entry mine
    refine (write.mine unsaved entry mine).same.resolve_right fun unwritten => ?_
    exact known (right.alone process unwritten other apart)
  have fresh : ∀ entry, Fresh w entry → (w.stores process).removed < entry.tick →
      (∀ own, taken.mine = some own → own.tick ≤ entry.tick) →
        Fresh (w.save process taken) entry := by
    intro entry fresh above newer
    refine ⟨max_lt fresh.gone (write.removed.trans_lt above), max_le fresh.newest ?_, fresh.early⟩
    cases mine : taken.mine with
    | none => exact Nat.zero_le _
    | some own => exact newer own mine
  constructor
  case file =>
    intro entry held
    have held : w.merge taken = some entry := held
    rcases cases_ with ⟨own, mine, same⟩ | ⟨_, _, same⟩ | ⟨mine, alive, same⟩
    · cases same.symm.trans held
      have right := write.mine unsaved entry mine
      refine ⟨max_lt right.gone right.removed, max_le right.newest ?_, right.early⟩
      rw [mine]
      exact le_rfl
    · cases same.symm.trans held
    · have there := same.symm.trans held
      have before := right.file entry there
      refine ⟨max_lt before.gone (write.kept unsaved mine alive entry there),
        max_le before.newest ?_, before.early⟩
      rw [mine]
      exact Nat.zero_le _
  case gone => exact max_lt right.gone (write.removed.trans_lt (right.removed process))
  case newest =>
    refine max_lt right.newest ?_
    cases mine : taken.mine with
    | none => exact Nat.zero_lt_of_lt right.gone
    | some own => exact (write.mine unsaved own mine).early
  case removed =>
    intro other
    rw [removed]
    exact right.removed other
  case alone =>
    intro first unwritten other apart
    by_cases here : first = process
    · subst here
      rw [others other apart]
      rcases changed with same | before
      · refine right.alone first ?_ other apart
        rw [self] at unwritten
        have unwritten : KeyStore.Unwritten (w.stores first) (w.merge taken) := unwritten
        rwa [same] at unwritten
      · exact right.alone first before other apart
    · have known : ¬(w.stores first).Unknown := by
        intro unknown
        rw [others first here] at unwritten
        exact unknown.written _ unwritten
      have same := elsewhere first here known
      have before : (w.stores first).Unwritten w.file := by
        rw [others first here] at unwritten
        have unwritten : KeyStore.Unwritten (w.stores first) (w.merge taken) := unwritten
        rwa [same] at unwritten
      by_cases there : other = process
      · subst there
        have unknown := right.alone first before other apart
        obtain ⟨mine, dead, _⟩ := unknown.writing taken writes
        rw [self]
        refine ⟨unknown.live, unknown.tombstone, fun later writes => ?_⟩
        cases Option.some.inj writes
        refine ⟨mine, dead, ?_⟩
        show (some (w.merge taken)).join = none
        rw [same]
        cases held : w.file with
        | none => rfl
        | some entry => exact absurd before (settled (by rw [held]; rfl) first here)
      · rw [others other there]
        exact right.alone first before other apart
  case live =>
    intro other entry held
    have live : (w.stores other).live = some entry := by
      by_cases here : other = process
      · rw [here, self] at held
        rw [here]
        exact held
      · rwa [others other here] at held
    obtain ⟨before, rest⟩ := right.live other entry live
    refine ⟨fresh entry before (rest process) fun own mine => ?_, fun third => ?_⟩
    · by_cases here : other = process
      · subst here
        rcases (write.mine unsaved own mine).moved with same | ⟨gone, _⟩ | ⟨next, same, less⟩
        · cases same.symm.trans live
          exact le_rfl
        · cases gone.symm.trans live
        · cases same.symm.trans live
          exact less.le
      · have known : ¬(w.stores other).Unknown := by
          intro unknown
          cases unknown.live.symm.trans live
        have there := mine_file other here known own mine
        refine (unwritten_or_same live w.file).elim (fun same => ?_) fun unwritten => ?_
        · cases same.symm.trans there
          exact le_rfl
        · cases mine.symm.trans (right.copy (Ne.symm here) unwritten writes).1
    · rw [removed]
      exact rest third
  case outlived =>
    intro entry held other
    have held : w.merge taken = some entry := held
    rw [removed]
    have kept : w.merge taken = w.file → (w.stores other).removed < entry.tick ∨
        ((w.save process taken).stores other).Unwritten (w.save process taken).file := by
      intro same
      refine (right.outlived entry (same.symm.trans held) other).imp_right fun unwritten => ?_
      show KeyStore.Unwritten _ (w.merge taken)
      rw [same]
      by_cases here : other = process
      · rw [here, self]
        rw [here] at unwritten
        exact unwritten
      · rw [others other here]
        exact unwritten
    rcases cases_ with ⟨own, mine, same⟩ | ⟨_, _, same⟩ | ⟨_, _, same⟩
    · cases same.symm.trans held
      have right_ := write.mine unsaved entry mine
      by_cases here : other = process
      · subst here
        rw [self]
        rcases right_.moved with live | ⟨live, tombstone⟩ | ⟨next, live, less⟩
        · exact .inl ((right.live other entry live).2 other)
        · exact .inr (unwritten_of_tombstone live tombstone _)
        · refine .inr (unwritten_of_ne live fun is => ?_)
          have is : w.merge taken = some next := is
          cases is.symm.trans held
          exact absurd less (lt_irrefl _)
      · exact .inl (right_.others other here)
    · cases same.symm.trans held
    · exact kept same
  case write =>
    intro other taken' writes'
    by_cases here : other = process
    · subst here
      rw [self] at writes'
      cases Option.some.inj writes'
      refine ⟨by rw [removed]; exact write.removed, (fun h => by cases h), (fun h => by cases h),
        (fun h => by cases h), fun _ dead entry held => ?_,
        fun entry held => Option.some.inj held⟩
      have held : w.merge taken = some entry := held
      rw [removed]
      rcases cases_ with ⟨own, mine, same⟩ | ⟨_, _, same⟩ | ⟨_, alive, _⟩
      · cases same.symm.trans held
        exact (write.mine unsaved entry mine).stale dead
      · cases same.symm.trans held
      · rw [show taken.dead = true from dead] at alive
        cases alive
    · rw [others other here] at writes'
      have old := right.write other taken' writes'
      have unchanged : ¬(taken'.mine = none ∧ taken'.dead = false ∧ taken'.merged.join = none) →
          w.merge taken = w.file := by
        intro copied
        exact elsewhere other here fun unknown => copied (unknown.writing taken' writes')
      constructor
      case removed => rw [removed]; exact old.removed
      case mine =>
        intro unsaved' entry held
        have mine := old.mine unsaved' entry held
        have same := unchanged fun copied => by rw [copied.1] at held; cases held
        have known : ¬(w.stores other).Unknown := by
          intro unknown
          cases (unknown.writing taken' writes').1.symm.trans held
        refine ⟨fresh entry mine.toFresh (mine.others process (Ne.symm here)) fun own ownMine => ?_,
          ?_, mine.removed, fun third differs => ?_, ?_, ?_⟩
        · have there := mine_file other here known own ownMine
          refine mine.same.elim (fun same => ?_) fun unwritten => ?_
          · cases same.symm.trans there
            exact le_rfl
          · cases ownMine.symm.trans (right.copy (Ne.symm here) unwritten writes).1
        · rw [others other here]
          show w.merge taken = _ ∨ KeyStore.Unwritten _ (w.merge taken)
          rw [same]
          exact mine.same
        · rw [removed]
          exact mine.others third differs
        · rw [removed]
          exact mine.stale
        · rw [others other here]
          exact mine.moved
      case dead =>
        intro unsaved' unheld dead
        have same := unchanged fun copied => by rw [copied.2.1] at dead; cases dead
        rw [others other here]
        show KeyStore.Unwritten _ (w.merge taken)
        rw [same]
        exact old.dead unsaved' unheld dead
      case kept =>
        intro unsaved' unheld alive entry held
        have held : w.merge taken = some entry := held
        rcases cases_ with ⟨own, mine, same⟩ | ⟨_, _, same⟩ | ⟨_, _, same⟩
        · cases same.symm.trans held
          exact old.removed.trans_lt ((write.mine unsaved entry mine).others other here)
        · cases same.symm.trans held
        · exact old.kept unsaved' unheld alive entry (same.symm.trans held)
      case settled =>
        intro saved dead entry held
        have same := unchanged fun copied => by rw [copied.2.1] at dead; cases dead
        have held : w.merge taken = some entry := held
        rw [removed]
        exact old.settled saved dead entry (same.symm.trans held)
      case merged =>
        intro entry held
        have same := unchanged fun copied => by
          rw [held] at copied
          cases copied.2.2
        exact same.trans (old.merged entry held)

theorem KeyRight.fail (right : KeyRight w) :
    KeyRight (w.put process { w.stores process with writing := none }) := by
  refine right.of_put le_rfl (right.alone process) ?_ (right.removed process) (.inl le_rfl) ?_
    (fun entry held => right.outlived entry held process) fun _ h => by cases h
  · intro other apart unwritten
    have unknown := right.alone other unwritten process apart.symm
    exact ⟨unknown.live, unknown.tombstone, fun _ h => by cases h⟩
  · intro entry held
    obtain ⟨fresh, rest⟩ := right.live process entry held
    exact ⟨⟨fresh.gone, fresh.newest, fresh.early⟩, rest process, fun other _ => rest other⟩

theorem KeyRight.restart (right : KeyRight w) : KeyRight (w.put process .new) :=
  right.of_put le_rfl (fun unwritten => absurd unwritten (new_unknown.written _))
    (fun _ _ _ => new_unknown) (Nat.zero_lt_of_lt right.gone) (.inl (Nat.zero_le _)) fun _ h => by cases h
    (fun entry held => .inl (Nat.zero_lt_of_lt (right.file entry held).gone)) fun _ h => by cases h

end Invariant

section Shared

variable {ι κ ν : Type*} {shared : SharedSidecar ι κ ν} {process : ι} {key : κ} {w : KeyWorld ι ν}
  {store : WriteBehindEntryStore κ ν} {taken : WriteSnapshot κ ν}

structure SharedRight (shared : SharedSidecar ι κ ν) : Prop where
  blank : ∀ process, (shared.stores process).entries = none → shared.stores process = .new
  keys : ∀ key, KeyRight (shared.view key)

def WriteBehindEntryStore.loaded (store : WriteBehindEntryStore κ ν)
    (file : κ → Option (SidecarEntry ν)) : WriteBehindEntryStore κ ν :=
  { store with entries := some (store.ensureLoaded file) }

theorem bootSidecar_right (contents : κ → Option ν) :
    SharedRight (bootSidecar (ι := ι) contents) := by
  refine ⟨fun _ _ => rfl, fun key => ?_⟩
  have first : ∀ entry, (bootSidecar (ι := ι) contents).file key = some entry → entry.tick = 1 := by
    intro entry held
    obtain ⟨value, _, rfl⟩ := Option.map_eq_some_iff.mp held
    rfl
  constructor
  case file =>
    intro entry held
    have tick := first entry held
    exact ⟨by rw [tick]; exact Nat.zero_lt_one, Nat.zero_le _, by rw [tick]; exact Nat.one_lt_two⟩
  case gone => exact Nat.zero_lt_two
  case newest => exact Nat.zero_lt_two
  case removed => exact fun _ => Nat.zero_lt_two
  case alone => exact fun _ _ _ _ => new_unknown
  case live => exact fun _ _ held => by cases held
  case outlived =>
    intro entry held _
    exact .inl (by rw [first entry held]; exact Nat.zero_lt_one)
  case write => exact fun _ _ writes => by cases writes

variable [DecidableEq ι]

@[simp]
theorem put_stores_self {store : KeyStore ν} :
    (w.put process store).stores process = store := update_self ..

theorem put_stores_other {store : KeyStore ν} {other : ι}
    (apart : other ≠ process) : (w.put process store).stores other = w.stores other :=
  update_of_ne apart ..

@[simp]
theorem put_put {store next : KeyStore ν} :
    (w.put process store).put process next = w.put process next := by
  simp [KeyWorld.put]

theorem view_put :
    (shared.put process store).view key =
      ((shared.view key).put process (store.view key)).later := by
  have stores : (fun other => (update shared.stores process store other).view key) =
      update (fun other => (shared.stores other).view key) process (store.view key) := by
    funext other
    by_cases here : other = process
    · rw [here, update_self, update_self]
    · rw [update_of_ne here, update_of_ne here]
  simp only [SharedSidecar.put, SharedSidecar.view, KeyWorld.put, KeyWorld.later, stores]

omit [DecidableEq ι] in
theorem view_merge :
    WriteBehindEntryStore.merge shared.file taken key =
      (shared.view key).merge (taken.view key) := by
  simp only [WriteBehindEntryStore.merge, KeyWorld.merge, WriteSnapshot.view, SharedSidecar.view]
  cases taken.mine key <;> rfl

theorem view_save :
    (shared.save process taken).view key =
      ((shared.view key).save process (taken.view key)).later := by
  have stores : (fun other => (((shared.save process taken).stores other).view key)) =
      ((shared.view key).save process (taken.view key)).stores := by
    funext other
    by_cases here : other = process
    · subst here
      simp [SharedSidecar.save, SharedSidecar.put, KeyWorld.save, KeyWorld.put, SharedSidecar.view,
        WriteBehindEntryStore.view, WriteSnapshot.view, view_merge]
    · simp [SharedSidecar.save, SharedSidecar.put, KeyWorld.save, KeyWorld.put, SharedSidecar.view,
        update_of_ne here]
  have file : (shared.save process taken).file key =
      ((shared.view key).save process (taken.view key)).file := view_merge
  show KeyWorld.mk _ _ _ _ _ = _
  rw [stores, file]
  rfl

theorem SharedRight.loaded (right : SharedRight shared)
    (settled : (shared.stores process).entries = none → ∀ key, (shared.file key).isSome = true →
      ∀ other, other ≠ process → ¬((shared.stores other).view key).Unwritten (shared.file key)) :
    KeyRight ((shared.view key).put process
      (((shared.stores process).loaded shared.file).view key)) := by
  cases entries : (shared.stores process).entries with
  | none =>
    have same : ((shared.stores process).loaded shared.file).view key =
        { KeyStore.new with live := shared.file key } := by
      rw [right.blank process entries]
      rfl
    rw [same]
    exact KeyRight.read (right.keys key) (settled entries key)
  | some held =>
    have same : ((shared.stores process).loaded shared.file).view key =
        (shared.view key).stores process := by
      simp [WriteBehindEntryStore.loaded, WriteBehindEntryStore.ensureLoaded,
        WriteBehindEntryStore.view, SharedSidecar.view, entries]
    rw [same, KeyWorld.put, update_eq_self]
    exact right.keys key

theorem KeyRight.valued (value : ν) (tombstone : Bool)
    (right : KeyRight ((shared.view key).put process
      (((shared.stores process).loaded shared.file).view key)))
    (alone : ∀ other, other ≠ process → ((shared.stores other).view key).Unknown)
    (valued : store.view key =
      { ((shared.stores process).loaded shared.file).view key with
        live := some ⟨value, shared.clock⟩, tombstone := tombstone }) :
    KeyRight ((shared.put process store).view key) := by
  have after := KeyRight.put right process value tombstone fun other apart => by
    rw [put_stores_other apart]
    exact alone other apart
  rw [put_stores_self, put_put] at after
  rw [view_put, valued]
  exact after

theorem KeyRight.dropped
    (right : KeyRight ((shared.view key).put process
      (((shared.stores process).loaded shared.file).view key)))
    (alone : ∀ other, other ≠ process → ((shared.stores other).view key).Unknown)
    (kept : ∀ taken ∈ (shared.stores process).writing, taken.dead key = false)
    (dropped : store.view key =
      { ((shared.stores process).loaded shared.file).view key with
        live := none, tombstone := true, removed := shared.clock }) :
    KeyRight ((shared.put process store).view key) := by
  have after := KeyRight.drop right process (fun other apart => by
    rw [put_stores_other apart]
    exact alone other apart) (by
    rw [put_stores_self]
    intro taken writes
    obtain ⟨before, there, rfl⟩ := Option.mem_map.mp writes
    exact kept before there)
  rw [put_stores_self, put_put] at after
  rw [view_put, dropped]
  exact after

theorem KeyRight.untouched
    (right : KeyRight ((shared.view key).put process
      (((shared.stores process).loaded shared.file).view key)))
    (untouched : store.view key = ((shared.stores process).loaded shared.file).view key) :
    KeyRight ((shared.put process store).view key) := by
  rw [view_put, untouched]
  exact KeyRight.later right

variable [DecidableEq κ]

theorem sharedStep_right (right : SharedRight shared) {event : ι × SidecarUse κ ν}
    (alone : Alone shared event) : SharedRight (sharedStep shared event) := by
  rcases event with ⟨process, use⟩
  have keeps : ∀ store : WriteBehindEntryStore κ ν, (store.entries = none → store = .new) →
      ∀ other, ((shared.put process store).stores other).entries = none →
        (shared.put process store).stores other = .new := by
    intro store blank other
    by_cases here : other = process
    · subst here
      rw [show (shared.put other store).stores other = store from update_self ..]
      exact blank
    · rw [show (shared.put process store).stores other = shared.stores other from
        update_of_ne here ..]
      exact right.blank other
  have loaded : use.Reads (shared.stores process) = ((shared.stores process).entries = none) →
      ∀ key, KeyRight ((shared.view key).put process
        (((shared.stores process).loaded shared.file).view key)) := by
    intro reads key
    exact SharedRight.loaded right fun entries key there => alone.reads (reads ▸ entries) key there
  cases use with
  | load =>
    refine ⟨keeps _ (fun unheld => by cases unheld), fun key => ?_⟩
    exact KeyRight.untouched (loaded rfl key) rfl
  | set other value =>
    refine ⟨keeps _ (fun unheld => by cases unheld), fun key => ?_⟩
    by_cases here : key = other
    · subst here
      refine KeyRight.valued value false (loaded rfl key)
        (alone.changes key rfl) ?_
      simp [WriteBehindEntryStore.set, WriteBehindEntryStore.loaded, WriteBehindEntryStore.view]
    · refine KeyRight.untouched (loaded rfl key) ?_
      simp [WriteBehindEntryStore.set, WriteBehindEntryStore.loaded, WriteBehindEntryStore.view,
        update_of_ne here]
  | removeIf predicate =>
    refine ⟨keeps _ (fun unheld => by cases unheld), fun key => ?_⟩
    cases doomed : ((shared.stores process).ensureLoaded shared.file key).any
        fun entry => predicate key entry.value with
    | true =>
      refine KeyRight.dropped (loaded rfl key) (alone.changes key doomed) (alone.removes key doomed) ?_
      simp [WriteBehindEntryStore.removeIf, WriteBehindEntryStore.bury,
        WriteBehindEntryStore.loaded, WriteBehindEntryStore.view, doomed]
    | false =>
      refine KeyRight.untouched (loaded rfl key) ?_
      simp [WriteBehindEntryStore.removeIf, WriteBehindEntryStore.bury,
        WriteBehindEntryStore.loaded, WriteBehindEntryStore.view, doomed]
  | replaceAll contents =>
    refine ⟨keeps _ (fun unheld => by cases unheld), fun key => ?_⟩
    cases given : contents key with
    | some value =>
      refine KeyRight.valued value ((shared.stores process).tombstones key)
        (loaded rfl key) (alone.changes key (.inr (by rw [given]; rfl))) ?_
      simp [WriteBehindEntryStore.replaceAll, WriteBehindEntryStore.bury,
        WriteBehindEntryStore.loaded, WriteBehindEntryStore.view, given]
    | none =>
      cases old : (shared.stores process).ensureLoaded shared.file key with
      | some entry =>
        have there : ((shared.stores process).ensureLoaded shared.file key).isSome = true := by
          rw [old]
          rfl
        refine KeyRight.dropped (loaded rfl key) (alone.changes key (.inl there))
          (alone.removes key ⟨there, given⟩) ?_
        simp [WriteBehindEntryStore.replaceAll, WriteBehindEntryStore.bury,
          WriteBehindEntryStore.loaded, WriteBehindEntryStore.view, given, old]
      | none =>
        refine KeyRight.untouched (loaded rfl key) ?_
        simp [WriteBehindEntryStore.replaceAll, WriteBehindEntryStore.bury,
          WriteBehindEntryStore.loaded, WriteBehindEntryStore.view, given, old]
  | snapshot =>
    cases writes : (shared.stores process).writing with
    | some taken =>
      have same : (shared.stores process).snapshot shared.file = shared.stores process := by
        rw [WriteBehindEntryStore.snapshot, writes]
      refine ⟨keeps _ ?_, fun key => ?_⟩
      · rw [same]
        exact right.blank process
      · show KeyRight ((shared.put process _).view key)
        rw [same, view_put, KeyWorld.put]
        show KeyRight (KeyWorld.later { shared.view key with
          stores := update (shared.view key).stores process ((shared.view key).stores process) })
        rw [update_eq_self]
        exact KeyRight.later (right.keys key)
    | none =>
      refine ⟨keeps _ fun unheld => by simp [WriteBehindEntryStore.snapshot, writes] at unheld,
        fun key => ?_⟩
      have after := KeyRight.snapshot (loaded rfl key) process
      rw [put_stores_self, put_put] at after
      show KeyRight ((shared.put process _).view key)
      rw [view_put]
      convert KeyRight.later after using 3
      simp [WriteBehindEntryStore.snapshot, writes, WriteBehindEntryStore.loaded,
        WriteBehindEntryStore.view, WriteSnapshot.view]
  | save =>
    simp only [sharedStep]
    split
    next mine dead removed writes =>
      refine ⟨keeps _ fun unheld => ?_, fun key => ?_⟩
      · rw [right.blank process unheld] at writes
        cases writes
      · rw [view_save]
        refine KeyRight.later (KeyRight.save (right.keys key) ?_ rfl (alone.reads trivial key))
        show Option.map _ _ = _
        rw [writes]
        rfl
    next => exact right
  | finish =>
    simp only [sharedStep]
    split
    next mine dead removed merged writes =>
      refine ⟨keeps _ fun unheld => (by cases unheld), fun key => ?_⟩
      rw [view_put]
      have held : ((shared.view key).stores process).writing =
          some ⟨mine key, dead key, removed key, some (merged key)⟩ := by
        show Option.map _ _ = _
        rw [writes]
        rfl
      cases entries : (shared.stores process).entries with
      | none =>
        rw [right.blank process entries] at writes
        cases writes
      | some old =>
        convert KeyRight.later (KeyRight.finish (right.keys key) held rfl) using 3
        simp [WriteBehindEntryStore.adopt, WriteBehindEntryStore.ensureLoaded, KeyWorld.adopt,
          WriteBehindEntryStore.view, SharedSidecar.view, entries]
    next => exact right
  | fail =>
    refine ⟨keeps _ fun unheld => ?_, fun key => ?_⟩
    · rw [right.blank process unheld]
      rfl
    · show KeyRight ((shared.put process _).view key)
      rw [view_put]
      exact KeyRight.later (KeyRight.fail (right.keys key))
  | restart =>
    refine ⟨keeps _ fun _ => rfl, fun key => ?_⟩
    rw [show sharedStep shared (process, .restart) = shared.put process .new from rfl, view_put]
    exact KeyRight.later (KeyRight.restart (right.keys key))

/-- In every run whose calls keep to `Alone`, the file never holds an entry that a flushed removal
or a newer flushed value of its key has overtaken. -/
theorem write_behind_converges_alone (contents : κ → Option ν) {events : List (ι × SidecarUse κ ν)}
    (alone : Throughout sharedStep Alone (bootSidecar contents) events) :
    ∀ early later, events = early ++ later →
      Converged (early.foldl sharedStep (bootSidecar contents)) := by
  rintro early later rfl
  have right : SharedRight (early.foldl sharedStep (bootSidecar contents)) :=
    (throughout_append.mp alone).1.kept (bootSidecar_right contents)
      fun _ _ right alone => sharedStep_right right alone
  intro key entry held
  have fresh := (right.keys key).file entry held
  exact ⟨fresh.gone, fresh.newest⟩

end Shared

section Decides

variable {ι κ ν : Type*} [DecidableEq ν]

instance (store : KeyStore ν) (file : Option (SidecarEntry ν)) : Decidable (store.Unwritten file) :=
  inferInstanceAs (Decidable (ite _ _ _))

instance (store : KeyStore ν) : Decidable store.Unknown :=
  decidable_of_iff (store.live = none ∧ store.tombstone = false ∧
      ∀ taken ∈ store.writing, taken.mine = none ∧ taken.dead = false ∧ taken.merged.join = none)
    ⟨fun ⟨live, tombstone, writing⟩ => ⟨live, tombstone, writing⟩,
      fun unknown => ⟨unknown.live, unknown.tombstone, unknown.writing⟩⟩

variable [DecidableEq κ] [Fintype κ] [DecidableEq ι] [Fintype ι]

instance (store : WriteBehindEntryStore κ ν) : ∀ use : SidecarUse κ ν, Decidable (use.Reads store)
  | .save => isTrue trivial
  | .finish | .fail | .restart => isFalse id
  | .load | .set _ _ | .removeIf _ | .replaceAll _ | .snapshot =>
    decidable_of_iff (store.entries.isNone = true) Option.isNone_iff_eq_none

instance (entries : κ → Option (SidecarEntry ν)) (key : κ) :
    ∀ use : SidecarUse κ ν, Decidable (use.Changes entries key)
  | .set other _ => inferInstanceAs (Decidable (key = other))
  | .removeIf _ => inferInstanceAs (Decidable (_ = true))
  | .replaceAll _ => inferInstanceAs (Decidable (_ ∨ _))
  | .load | .snapshot | .save | .finish | .fail | .restart => isFalse id

instance (entries : κ → Option (SidecarEntry ν)) (key : κ) :
    ∀ use : SidecarUse κ ν, Decidable (use.Removes entries key)
  | .removeIf _ => inferInstanceAs (Decidable (_ = true))
  | .replaceAll _ => inferInstanceAs (Decidable (_ ∧ _))
  | .load | .set _ _ | .snapshot | .save | .finish | .fail | .restart => isFalse id

instance (shared : SharedSidecar ι κ ν) (event : ι × SidecarUse κ ν) :
    Decidable (Alone shared event) :=
  decidable_of_iff (_ ∧ _ ∧ _) ⟨fun ⟨reads, changes, removes⟩ => ⟨reads, changes, removes⟩,
    fun alone => ⟨alone.reads, alone.changes, alone.removes⟩⟩

end Decides

def sharedFlushes : List (Bool × SidecarUse Bool Nat) :=
  [(false, .load), (true, .load), (false, .set true 5), (false, .snapshot), (false, .save),
    (false, .finish), (true, .snapshot), (true, .save), (true, .restart),
    (false, .removeIf fun key _ => key), (false, .snapshot), (false, .save), (false, .finish),
    (true, .load), (true, .snapshot), (true, .save), (true, .finish)]

def sharedContents : Bool → Option Nat
  | true => none
  | false => some 1

theorem write_behind_converges_alone_two :
    Converged (sharedFlushes.foldl sharedStep (bootSidecar sharedContents)) := by
  have alone : Throughout sharedStep Alone (bootSidecar sharedContents) sharedFlushes := by
    decide +kernel
  exact write_behind_converges_alone sharedContents alone sharedFlushes [] (List.append_nil _).symm

end PerfStats.Archive
