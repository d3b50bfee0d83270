import PerfStats.JobStore.Shadows
import PerfStats.Lib.Failing
import PerfStats.Lib.Json

namespace PerfStats.JobStore

open Lib

section Documents

def Kind.text : Kind → Str
  | .discover => lit "discover"
  | .ingest => lit "ingest"
  | .append => lit "append"
  | .dayClose => lit "day_close"

def kindOfText (text : Str) : Option Kind :=
  [Kind.discover, .ingest, .append, .dayClose].find? fun kind => decide (kind.text = text)

def jobKindsList : List Kind := [.discover, .append, .dayClose]

/-- `f"{kind}|{ident}"`. -/
def payloadKey (key : JobKey) : Str := key.1.text ++ '|' :: key.2

def splitBar : Str → Option (Str × Str)
  | [] => none
  | c :: rest => if c = '|' then some ([], rest) else (splitBar rest).map fun p => (c :: p.1, p.2)

def persistenceContractVersion : ℚ := 9

def jobStoreSnapshotSchemaVersion : Int := 1

structure SnapshotParts where
  ingest : Json
  lists : Json
  pending : Json
  payloads : Json

def kindArrays (items : Kind → List Str) : Json :=
  .obj (jobKindsList.map fun kind => (kind.text, .arr ((items kind).map .str)))

def Store.snapshotParts (s : Store) : SnapshotParts where
  ingest := .ofDict .num s.shadowIngest
  lists := kindArrays s.shadowLists
  pending := kindArrays fun kind => (s.shadowPending kind).sort (· ≤ ·)
  payloads := .obj (s.shadowPayloads.entries.map fun e => (payloadKey e.1, .ofDict .str e.2))

def Store.snapshotMembers (s : Store) : List (Str × Json) :=
  [(lit "contract_version", .num persistenceContractVersion),
    (lit "schema_version", .num jobStoreSnapshotSchemaVersion),
    (lit "ingest", s.snapshotParts.ingest), (lit "lists", s.snapshotParts.lists),
    (lit "pending", s.snapshotParts.pending), (lit "payloads", s.snapshotParts.payloads)]

/-- The document `save_persistence_document` writes for the durable shadow. -/
def Store.snapshotDocument (s : Store) : Json := .obj s.snapshotMembers

/-- Orphan rows go, then the shadow is copied out. -/
def Store.persistWrite (s : Store) : Store × Json :=
  (s.persistPrune, s.persistPrune.snapshotDocument)

/-- What `load` may raise; a score that is not finite is not modelled. -/
inductive LoadError where
  | attributeError
  | typeError
  | valueError
  | nonFinite
  deriving DecidableEq, Repr

/-- Absent, or an integer that is the current version. -/
def schemaVersionOk : Option Json → Bool
  | none => true
  | some .null => true
  | some (.bool value) => value
  | some (.num value) => decide (truncate value = jobStoreSnapshotSchemaVersion)
  | some (.str text) => decide (Text.parseInt text = some jobStoreSnapshotSchemaVersion)
  | some (.arr _) => false
  | some (.obj _) => false

def validateEnvelope : Json → Bool
  | .obj members =>
    let raw := Dict.ofList members
    schemaVersionOk (raw.get? (lit "schema_version")) &&
      match raw.get? (lit "ingest") with
      | none => true
      | some .null => true
      | some (.obj _) => true
      | some _ => false
  | _ => false

/-- `none` is a file that is missing or no JSON. -/
def loadPersistenceDocument (file : Option Json) : SnapshotParts :=
  let raw : Dict Str Json := match file with
    | some (.obj members) => if validateEnvelope (.obj members) then .ofList members else .empty
    | _ => .empty
  let part (name : Str) : Json := .orElse (raw.get? name) (.obj [])
  ⟨part (lit "ingest"), part (lit "lists"), part (lit "pending"), part (lit "payloads")⟩

end Documents

section Reading

def floatOf : Json → Except LoadError ℚ
  | .bool value => .ok (if value then 1 else 0)
  | .num value => .ok value
  | .str text =>
    match Num.parse text with
    | some (.fin q) => .ok q
    | some _ => .error .nonFinite
    | none => .error .valueError
  | _ => .error .typeError

/-- `str(value)`; only texts are their own. -/
def strOf (pyStr : Json → Str) : Json → Str
  | .str text => text
  | value => pyStr value

def iterate : Json → Except LoadError (List Json)
  | .arr items => .ok items
  | .str text => .ok (text.map fun c => .str [c])
  | .obj members => .ok ((Dict.ofList members).entries.map fun e => .str e.1)
  | _ => .error .typeError

def fieldOf (name : Str) : Json → Except LoadError (Option Json)
  | .obj members => .ok ((Dict.ofList members).get? name)
  | _ => .error .attributeError

variable (pyStr : Json → Str)

def kindItems (part : Json) (kind : Kind) : Except LoadError (List Str) := do
  let found ← fieldOf kind.text part
  let items ← iterate (.orElse found (.arr []))
  return items.map (strOf pyStr)

def listItems (part : Json) : Except LoadError (Kind → List Str) := do
  let discover ← kindItems pyStr part .discover
  let append ← kindItems pyStr part .append
  let dayClose ← kindItems pyStr part .dayClose
  return fun
    | .discover => discover
    | .append => append
    | .dayClose => dayClose
    | .ingest => []

def scoreItems : Json → Except LoadError (List (Str × ℚ))
  | .obj members => (Dict.ofList members).entries.mapM fun e => (floatOf e.2).map (e.1, ·)
  | _ => .error .attributeError

def payloadRow (e : Str × Json) : Option (JobKey × Dict Str Str) :=
  match e.2 with
  | .obj fields => do
      let (kindText, ident) ← splitBar e.1
      let kind ← kindOfText kindText
      return ((kind, ident), .ofList ((Dict.ofList fields).entries.map fun f =>
        (f.1, strOf pyStr f.2)))
  | _ => none

def payloadRows : Json → List (JobKey × Dict Str Str)
  | .obj members => (Dict.ofList members).entries.filterMap (payloadRow pyStr)
  | _ => []

/-- What `load` builds before it takes the lock. -/
structure Built where
  ingest : Dict Str ℚ
  lists : Kind → List Str
  pending : Kind → Finset Str
  payloads : Dict JobKey (Dict Str Str)

def buildSnapshot (file : Option Json) : Except LoadError Built := do
  let parts := loadPersistenceDocument file
  let scores ← scoreItems parts.ingest
  let lists ← listItems pyStr parts.lists
  let pending ← listItems pyStr parts.pending
  return {
    ingest := .ofList scores
    lists := lists
    pending := fun kind => (pending kind).toFinset
    payloads := .ofList (payloadRows pyStr parts.payloads) }

end Reading

namespace Store

def ingestRebuildHeaps (s : Store) : Store :=
  s.ingest.entries.foldl (fun s e => s.ingestHeapPush e.1 e.2)
    { s with ingestHeapHot := .empty, ingestHeapCatchup := .empty, ingestHeapCatchupMax := .empty }

def rebuildShadow (s : Store) : Store :=
  { s with
    shadowIngest := s.ingest
    shadowLists := s.lists
    shadowPending := s.pending
    shadowPayloads := s.payloads.filter fun key _ => s.queuedIdentities key }

def rebuildIngestBandCounts (s : Store) : Store :=
  { s with
    ingestHotN := s.ingest.count fun score => decide (decodeIngestBand score = .hot)
    ingestCatchupN := s.ingest.count fun score => !decide (decodeIngestBand score = .hot) }

/-- The part of `load` under the lock. -/
def restore (s : Store) (built : Built) : Store :=
  let s := { s with ingest := built.ingest }.ingestRebuildHeaps
  let s := { s with
    lists := built.lists
    pending := built.pending
    payloads := built.payloads
    inflight := fun _ => .empty
    leases := .empty }
  let s := { s with payloads := s.payloads.filter fun key _ => s.queuedIdentities key }
  s.rebuildShadow.rebuildIngestBandCounts

/-- `load`: where reading the document raises, nothing was assigned yet. -/
def load (pyStr : Json → Str) (file : Option Json) (s : Store) : Store × Option LoadError :=
  match buildSnapshot pyStr file with
  | .ok built => (s.restore built, none)
  | .error e => (s, some e)

end Store

section Written

variable (pyStr : Json → Str) (s : Store)

theorem mapM_ok {α β ε : Type*} {f : β → Except ε α} {g : α → β} {l : List α}
    (each : ∀ a ∈ l, f (g a) = .ok a) : (l.map g).mapM f = .ok l := by
  induction l with
  | nil => rfl
  | cons a l ih =>
    rw [List.map_cons, List.mapM_cons, each a (.head _),
      ih fun b member => each b (.tail a member)]
    rfl

theorem splitBar_append {front : Str} (plain : '|' ∉ front) (behind : Str) :
    splitBar (front ++ '|' :: behind) = some (front, behind) := by
  induction front with
  | nil => rfl
  | cons c front ih =>
    have other : c ≠ '|' := fun same => plain (same ▸ (.head _))
    rw [List.cons_append, splitBar, if_neg other,
      ih fun member => plain (.tail c member)]
    rfl

theorem kindText_plain (kind : Kind) : '|' ∉ kind.text := by cases kind <;> decide +kernel

theorem kindOfText_text (kind : Kind) : kindOfText kind.text = some kind := by
  cases kind <;> decide +kernel

theorem splitBar_payloadKey (key : JobKey) :
    splitBar (payloadKey key) = some (key.1.text, key.2) :=
  splitBar_append (kindText_plain key.1) key.2

theorem payloadKey_injective : Function.Injective payloadKey := by
  intro key other same
  have parts := congrArg splitBar same
  rw [splitBar_payloadKey, splitBar_payloadKey, Option.some.injEq, Prod.mk.injEq] at parts
  have kinds := congrArg kindOfText parts.1
  rw [kindOfText_text, kindOfText_text] at kinds
  exact Prod.ext (Option.some.inj kinds) parts.2

theorem scoreItems_ofDict (d : Dict Str ℚ) : scoreItems (.ofDict .num d) = .ok d.entries := by
  rw [Json.ofDict, scoreItems, Json.read_ofDict]
  exact mapM_ok fun _ _ => rfl

theorem kindItems_written (items : Kind → List Str) {kind : Kind} (list : kind ∈ jobKindsList) :
    kindItems pyStr (kindArrays items) kind = .ok (items kind) := by
  have distinct : ((jobKindsList.map fun kind =>
      (kind.text, Json.arr ((items kind).map .str))).map Prod.fst).Nodup := by
    exact (by decide +kernel : (jobKindsList.map Kind.text).Nodup)
  have found := Dict.get?_ofList distinct (List.mem_map_of_mem list)
  have texts : ((items kind).map Json.str).map (strOf pyStr) = items kind := by
    rw [List.map_map]
    exact List.map_id _
  simp only [kindItems, kindArrays, fieldOf, found, bind, Except.bind, Json.orElse_arr, iterate,
    texts, pure, Except.pure]

theorem listItems_written (items : Kind → List Str) :
    ∃ read, listItems pyStr (kindArrays items) = .ok read ∧
      ∀ kind, kind.isList = true → read kind = items kind := by
  have each : ∀ kind, kind ∈ jobKindsList → kindItems pyStr (kindArrays items) kind =
      .ok (items kind) := fun kind => kindItems_written pyStr items
  rw [listItems, each .discover (by decide), each .append (by decide), each .dayClose (by decide)]
  refine ⟨_, rfl, fun kind list => ?_⟩
  cases kind with
  | ingest => cases list
  | _ => rfl

theorem payloadRows_written (rows : Dict JobKey (Dict Str Str)) :
    payloadRows pyStr (.obj (rows.entries.map fun e => (payloadKey e.1, .ofDict .str e.2))) =
      rows.entries := by
  have distinct : ((rows.entries.map fun e => (payloadKey e.1, Json.ofDict .str e.2)).map
      Prod.fst).Nodup := by
    rw [List.map_map]
    exact (List.map_map (g := payloadKey) (f := Prod.fst) (l := rows.entries)) ▸
      rows.distinct.map payloadKey_injective
  rw [payloadRows, Dict.entries_ofList distinct, List.filterMap_map]
  have each : ∀ e ∈ rows.entries, (payloadRow pyStr ∘ fun e : JobKey × Dict Str Str =>
      (payloadKey e.1, Json.ofDict .str e.2)) e = some e := by
    rintro ⟨key, fields⟩ _
    have texts : (fields.entries.map fun f => (f.1, Json.str f.2)).map
        (fun f => (f.1, strOf pyStr f.2)) = fields.entries := by
      rw [List.map_map]
      exact List.map_id _
    simp only [Function.comp, payloadRow, Json.ofDict, splitBar_payloadKey, Json.read_ofDict, texts,
      Dict.ofList_entries, kindOfText_text, Option.bind_eq_bind, Option.bind_some, Option.pure_def]
  exact (List.filterMap_congr each).trans List.filterMap_some

structure Written (s : Store) (built : Built) : Prop where
  ingest : built.ingest = s.shadowIngest
  lists : ∀ kind, kind.isList = true → built.lists kind = s.shadowLists kind
  pending : ∀ kind, kind.isList = true → built.pending kind = s.shadowPending kind
  payloads : built.payloads = s.shadowPayloads

theorem snapshotMembers_get? {name : Str} {value : Json}
    (member : (name, value) ∈ s.snapshotMembers) :
    (Dict.ofList s.snapshotMembers).get? name = some value := by
  refine Dict.get?_ofList ?_ member
  change [lit "contract_version", lit "schema_version", lit "ingest", lit "lists", lit "pending",
    lit "payloads"].Nodup
  decide +kernel

theorem loadPersistenceDocument_written :
    loadPersistenceDocument (some s.snapshotDocument) = s.snapshotParts := by
  have version : (Dict.ofList s.snapshotMembers).get? (lit "schema_version") = _ :=
    snapshotMembers_get? s (.tail _ (.head _))
  have ingest : (Dict.ofList s.snapshotMembers).get? (lit "ingest") = _ :=
    snapshotMembers_get? s (.tail _ (.tail _ (.head _)))
  have lists : (Dict.ofList s.snapshotMembers).get? (lit "lists") = _ :=
    snapshotMembers_get? s (.tail _ (.tail _ (.tail _ (.head _))))
  have pending : (Dict.ofList s.snapshotMembers).get? (lit "pending") = _ :=
    snapshotMembers_get? s (.tail _ (.tail _ (.tail _ (.tail _ (.head _)))))
  have payloads : (Dict.ofList s.snapshotMembers).get? (lit "payloads") = _ :=
    snapshotMembers_get? s (.tail _ (.tail _ (.tail _ (.tail _ (.tail _ (.head _))))))
  have current : schemaVersionOk (some (.num jobStoreSnapshotSchemaVersion)) = true := by
    decide +kernel
  have valid : validateEnvelope (.obj s.snapshotMembers) = true := by
    simp only [validateEnvelope, version, ingest, current, Store.snapshotParts, Json.ofDict,
      Bool.and_self]
  simp only [loadPersistenceDocument, Store.snapshotDocument, valid, if_true, ingest, lists,
    pending, payloads]
  simp only [Store.snapshotParts, Json.ofDict, kindArrays, Json.orElse_obj]

theorem buildSnapshot_written :
    ∃ built, buildSnapshot pyStr (some s.snapshotDocument) = .ok built ∧ Written s built := by
  obtain ⟨lists, readLists, sameLists⟩ := listItems_written pyStr s.shadowLists
  obtain ⟨pending, readPending, samePending⟩ :=
    listItems_written pyStr fun kind => (s.shadowPending kind).sort (· ≤ ·)
  have rows := payloadRows_written pyStr s.shadowPayloads
  rw [buildSnapshot, loadPersistenceDocument_written]
  simp only [Store.snapshotParts, scoreItems_ofDict, readLists, readPending, rows, bind,
    Except.bind, pure, Except.pure, Dict.ofList_entries]
  refine ⟨_, rfl, rfl, sameLists, fun kind list => ?_, rfl⟩
  change (pending kind).toFinset = s.shadowPending kind
  rw [samePending kind list, Finset.sort_toFinset]

end Written

section Restored

variable {s t : Store} {built : Built}

theorem pushes_frame (l : List (Str × ℚ)) (s : Store) : ∃ hot catchup youngest,
    l.foldl (fun s e => s.ingestHeapPush e.1 e.2) s =
      { s with
        ingestHeapHot := hot
        ingestHeapCatchup := catchup
        ingestHeapCatchupMax := youngest } := by
  induction l generalizing s with
  | nil => exact ⟨_, _, _, rfl⟩
  | cons e l ih =>
    obtain ⟨hot, catchup, youngest, same⟩ := ih (s.ingestHeapPush e.1 e.2)
    exact ⟨hot, catchup, youngest, same⟩

theorem pushes_armed {l : List (Str × ℚ)} (live : ∀ e ∈ l, s.ingest.get? e.1 = some e.2) {j : Str}
    (covered : s.Armed j ∨ j ∈ l.map Prod.fst) :
    (l.foldl (fun s e => s.ingestHeapPush e.1 e.2) s).Armed j := by
  induction l generalizing s with
  | nil => exact covered.resolve_right List.not_mem_nil
  | cons e l ih =>
    apply ih (s := s.ingestHeapPush e.1 e.2)
      fun f member => live f (.tail e member)
    obtain before | member := covered
    · exact .inl before.push
    · obtain here | later := List.mem_cons.mp member
      · subst here
        exact .inl (Store.armed_push_self (live e (.head _)))
      · exact .inr later

theorem rebuilt_armed (s : Store) (j : Str) : s.ingestRebuildHeaps.Armed j := by
  apply pushes_armed fun e member => Dict.get?_eq_some.mpr member
  cases found : s.ingest.get? j with
  | none => exact .inl (Store.armed_of_absent found)
  | some score => exact .inr (List.mem_map.mpr ⟨(j, score), Dict.get?_eq_some.mp found, rfl⟩)

def Built.queued (built : Built) (key : JobKey) : Bool :=
  if key.1 = .ingest then (built.ingest.get? key.2).isSome else decide (key.2 ∈ built.lists key.1)

structure Rebuilt (built : Built) (t : Store) : Prop where
  ingest : t.ingest = built.ingest
  lists : t.lists = built.lists
  pending : t.pending = built.pending
  inflight : t.inflight = fun _ => .empty
  leases : t.leases = .empty
  payloads : t.payloads = built.payloads.filter fun key _ => built.queued key
  hotN : t.ingestHotN = built.ingest.count (Store.inBand .hot)
  catchupN : t.ingestCatchupN = built.ingest.count (Store.inBand .catchup)
  shadowIngest : t.shadowIngest = built.ingest
  shadowLists : t.shadowLists = built.lists
  shadowPending : t.shadowPending = built.pending
  shadowPayloads : ∀ key, t.shadowPayloads.get? key = t.payloads.get? key
  armed : ∀ j, t.Armed j

theorem restore_rebuilt (s : Store) (built : Built) : Rebuilt built (s.restore built) := by
  obtain ⟨hot, catchup, youngest, same⟩ := pushes_frame built.ingest.entries
    { s with
      ingest := built.ingest
      ingestHeapHot := .empty
      ingestHeapCatchup := .empty
      ingestHeapCatchupMax := .empty }
  have armed := rebuilt_armed { s with ingest := built.ingest }
  have heaps : { s with ingest := built.ingest }.ingestRebuildHeaps = _ := same
  rw [heaps] at armed
  unfold Store.restore
  rw [heaps]
  refine ⟨rfl, rfl, rfl, rfl, rfl, rfl, rfl, ?_, rfl, rfl, rfl, fun key => ?_, fun j => ?_⟩
  · change built.ingest.count (fun score => !decide (decodeIngestBand score = .hot)) = _
    refine congrArg built.ingest.count (funext fun score => ?_)
    rw [Store.inBand]
    cases decodeIngestBand score <;> rfl
  · change ((built.payloads.filter fun key _ => built.queued key).filter
      fun key _ => built.queued key).get? key =
        (built.payloads.filter fun key _ => built.queued key).get? key
    rw [Dict.get?_filter _ _ key, Dict.get?_filter]
    cases built.payloads.get? key with
    | none => rfl
    | some fields => cases built.queued key <;> simp
  · exact (armed j).congr rfl rfl rfl rfl

theorem Rebuilt.consistent (rebuilt : Rebuilt built t) : t.Consistent where
  exclusive := by
    intro i _
    rw [rebuilt.inflight]
    rfl
  leased := by
    intro i
    rw [rebuilt.leases, rebuilt.inflight]
    rfl
  hotCount := by rw [rebuilt.hotN, rebuilt.ingest]
  catchupCount := by rw [rebuilt.catchupN, rebuilt.ingest]
  shadowScores := by
    intro i
    rw [rebuilt.shadowIngest, rebuilt.ingest]
  shadowRows := by
    intro i
    rw [rebuilt.shadowPayloads, rebuilt.payloads, Dict.get?_filter, rebuilt.ingest, Built.queued,
      if_pos rfl]
    cases (built.ingest.get? i).isSome <;> simp
  armed := rebuilt.armed

end Restored

section Loads

variable {pyStr : Json → Str} {file : Option Json} {s t : Store} {built : Built}

/-- The queues of a document agree: where `load` reads them, the pending set of a kind has the
members of its list, each once. -/
def Mirrors (pyStr : Json → Str) (file : Option Json) : Prop :=
  ∀ kind, kind.isList = true → ∀ queued waiting,
    kindItems pyStr (loadPersistenceDocument file).lists kind = .ok queued →
      kindItems pyStr (loadPersistenceDocument file).pending kind = .ok waiting →
        queued.Nodup ∧ ∀ i, i ∈ waiting ↔ i ∈ queued

structure Reloaded (s t : Store) : Prop where
  scores : ∀ i, t.ingest.get? i = s.ingest.get? i
  lists : ∀ kind, kind.isList = true → t.lists kind = s.lists kind
  rows : ∀ key, t.payloads.get? key =
    if s.queuedIdentities key then s.payloads.get? key else none
  leases : t.leases = .empty
  inflight : t.inflight = fun _ => .empty
  sound : t.Sound

theorem Rebuilt.sound_iff (rebuilt : Rebuilt built t) : t.Sound ↔
    ∀ kind, kind.isList = true →
      (built.lists kind).Nodup ∧ ∀ i, i ∈ built.pending kind ↔ i ∈ built.lists kind := by
  constructor
  · intro sound kind list
    have tidy := sound.tidy kind list
    refine ⟨rebuilt.lists ▸ tidy.single, fun i => ?_⟩
    rw [← rebuilt.pending, ← rebuilt.lists]
    exact tidy.mirrored i
  · intro agrees
    refine ⟨rebuilt.consistent, fun kind list => ?_, fun kind list => ?_⟩
    · obtain ⟨single, mirrored⟩ := agrees kind list
      refine ⟨⟨rebuilt.lists ▸ single, fun i _ => ?_⟩, fun i => ?_⟩
      · rw [rebuilt.inflight]
        rfl
      · rw [rebuilt.pending, rebuilt.lists]
        exact mirrored i
    · refine ⟨?_, ?_, fun i _ => rebuilt.shadowPayloads _⟩
      · rw [rebuilt.shadowLists, rebuilt.lists]
      · rw [rebuilt.shadowPending, rebuilt.pending]

theorem listItems_ok {part : Json} {items : Kind → List Str}
    (read : listItems pyStr part = .ok items) {kind : Kind} (list : kind.isList = true) :
    kindItems pyStr part kind = .ok (items kind) := by
  obtain ⟨discover, first, read⟩ := bind_ok read
  obtain ⟨append, second, read⟩ := bind_ok read
  obtain ⟨dayClose, third, read⟩ := bind_ok read
  cases read
  cases kind with
  | discover => exact first
  | ingest => cases list
  | append => exact second
  | dayClose => exact third

theorem buildSnapshot_queues (read : buildSnapshot pyStr file = .ok built) {kind : Kind}
    (list : kind.isList = true) : ∃ waiting,
      kindItems pyStr (loadPersistenceDocument file).lists kind = .ok (built.lists kind) ∧
        kindItems pyStr (loadPersistenceDocument file).pending kind = .ok waiting ∧
          built.pending kind = waiting.toFinset := by
  obtain ⟨scores, _, read⟩ := bind_ok read
  obtain ⟨lists, queued, read⟩ := bind_ok read
  obtain ⟨pending, waiting, read⟩ := bind_ok read
  cases read
  exact ⟨pending kind, listItems_ok queued list, listItems_ok waiting list, rfl⟩

theorem load_sound_iff (sound : s.Sound) :
    (s.load pyStr file).1.Sound ↔ ((s.load pyStr file).2 = none → Mirrors pyStr file) := by
  unfold Store.load
  cases read : buildSnapshot pyStr file with
  | error e => exact iff_of_true sound nofun
  | ok built =>
    have returns : ((none : Option LoadError) = none → Mirrors pyStr file) ↔
        Mirrors pyStr file := forall_prop_of_true rfl
    refine (restore_rebuilt s built).sound_iff.trans (Iff.trans ?_ returns.symm)
    refine forall₂_congr fun kind list => ?_
    obtain ⟨waiting, lists, pending, same⟩ := buildSnapshot_queues read list
    simp only [lists, pending, Except.ok.injEq, same, List.mem_toFinset]
    constructor
    · intro agrees queued read first second
      exact first ▸ second ▸ agrees
    · exact fun all => all _ _ rfl rfl

theorem sound_shadowRow (sound : s.Sound) {key : JobKey} (queued : s.queuedIdentities key = true) :
    s.shadowPayloads.get? key = s.payloads.get? key := by
  obtain ⟨kind, i⟩ := key
  unfold Store.queuedIdentities at queued
  split at queued
  · next ingest =>
      subst ingest
      rw [sound.shadowRows, if_pos queued]
  · next list => exact (sound.shadowed kind (isList_iff.mpr list)).rows i (of_decide_eq_true queued)

theorem load_written (sound : s.Sound) (u : Store) :
    (u.load pyStr (some s.persistWrite.2)).2 = none ∧
      Reloaded s (u.load pyStr (some s.persistWrite.2)).1 := by
  obtain ⟨built, read, written⟩ := buildSnapshot_written pyStr s.persistPrune
  have pruned : s.persistPrune.Sound := @perform_sound s _ 0 .persist _ sound trivial rfl
  have rebuilt := restore_rebuilt u built
  have loaded : u.load pyStr (some s.persistWrite.2) = (u.restore built, none) := by
    rw [Store.load, Store.persistWrite, read]
  have lists : ∀ kind, kind.isList = true → built.lists kind = s.lists kind := fun kind list =>
    (written.lists kind list).trans (pruned.shadowed kind list).lists
  have pending : ∀ kind, kind.isList = true → built.pending kind = s.pending kind :=
    fun kind list => (written.pending kind list).trans (pruned.shadowed kind list).pending
  have scores : ∀ i, built.ingest.get? i = s.ingest.get? i := fun i => by
    rw [written.ingest]
    exact pruned.shadowScores i
  rw [loaded]
  refine ⟨rfl, ⟨fun i => ?_, fun kind list => ?_, fun key => ?_, rebuilt.leases, rebuilt.inflight,
    rebuilt.sound_iff.mpr fun kind list => ?_⟩⟩
  · rw [rebuilt.ingest, scores]
  · rw [rebuilt.lists, lists kind list]
  · have queued : built.queued key = s.queuedIdentities key := by
      unfold Built.queued Store.queuedIdentities
      by_cases ingest : key.1 = .ingest
      · rw [if_pos ingest, if_pos ingest, scores]
      · rw [if_neg ingest, if_neg ingest, lists key.1 (isList_iff.mpr ingest)]
    rw [rebuilt.payloads, Dict.get?_filter, queued, written.payloads]
    cases held : s.queuedIdentities key with
    | false => simp
    | true =>
      rw [sound_shadowRow pruned held, Store.persistPrune_payloads (.inl held)]
      cases s.payloads.get? key <;> rfl
  · rw [lists kind list, pending kind list]
    exact ⟨(sound.tidy kind list).single, (sound.tidy kind list).mirrored⟩

end Loads

section Restarts

structure Durable where
  store : Store
  written : List Json

inductive DurableEvent where
  | call (call : Call)
  | reorderList (kind : Kind) (ordered : List Str)
  | restart (written : Nat)

def DurableEvent.Dedupes : DurableEvent → Prop
  | .call asked => asked.Dedupes
  | _ => True

/-- A call, where `_persist_write` also copies the shadow out, a new order of a queue, or a new
process that loads a document or finds none. -/
def Durable.Steps (pyStr : Json → Str) (d : Durable) (event : DurableEvent) (d' : Durable) : Prop :=
  match event with
  | .call .persist => d' = ⟨d.store.persistWrite.1, d.written ++ [d.store.persistWrite.2]⟩
  | .call asked => ∃ fuel answer, d.store.perform fuel asked = some (d'.store, answer) ∧
      d'.written = d.written
  | .reorderList kind ordered => d' = ⟨(d.store.reorderList kind ordered).1, d.written⟩
  | .restart n => d' = ⟨(Store.empty.load pyStr d.written[n]?).1, d.written⟩

def DedupingSteps (pyStr : Json → Str) (d : Durable) (event : DurableEvent) (d' : Durable) : Prop :=
  event.Dedupes ∧ d.Steps pyStr event d'

def Durable.boot : Durable := ⟨.empty, []⟩

variable {pyStr : Json → Str} {d d' : Durable} {log : List DurableEvent}

def Durable.Sound (d : Durable) : Prop :=
  d.store.Sound ∧ ∀ document ∈ d.written, ∃ s : Store, s.Sound ∧ document = s.persistWrite.2

theorem load_missing_sound : (Store.empty.load pyStr none).1.Sound := by
  refine (load_sound_iff empty_sound).mpr fun _ kind _ queued waiting lists pending => ?_
  cases lists
  cases pending
  exact ⟨List.nodup_nil, fun _ => Iff.rfl⟩

theorem durable_step_sound {event : DurableEvent} (sound : d.Sound) (dedupes : event.Dedupes)
    (taken : d.Steps pyStr event d') : d'.Sound := by
  obtain ⟨good, documents⟩ := sound
  cases event with
  | call asked =>
    have performed : ∀ fuel answer, d.store.perform fuel asked = some (d'.store, answer) →
        d'.store.Sound := fun _ _ done => perform_sound good dedupes done
    cases asked with
    | persist =>
      cases taken
      refine ⟨performed 0 .done rfl, fun document member => ?_⟩
      obtain before | here := List.mem_append.mp member
      · exact documents document before
      · exact ⟨d.store, good, List.mem_singleton.mp here⟩
    | _ =>
      obtain ⟨fuel, answer, done, same⟩ := taken
      exact ⟨performed fuel answer done, same ▸ documents⟩
  | reorderList kind ordered =>
    cases taken
    exact ⟨reorderList_sound good kind ordered, documents⟩
  | restart n =>
    cases taken
    refine ⟨?_, documents⟩
    cases found : d.written[n]? with
    | none => exact load_missing_sound
    | some document =>
      obtain ⟨s, written, rfl⟩ := documents document (List.mem_of_getElem? found)
      exact (load_written written .empty).2.sound

theorem durable_run_sound (run : Run (DedupingSteps pyStr) .boot log d) : d.Sound := by
  apply run.invariant (I := Durable.Sound)
  · exact ⟨empty_sound, nofun⟩
  · exact fun before event after sound step => durable_step_sound sound step.1 step.2

def Durable.advance (pyStr : Json → Str) (d : Durable) : DurableEvent → Durable
  | .call .persist => ⟨d.store.persistWrite.1, d.written ++ [d.store.persistWrite.2]⟩
  | .call asked => ⟨((d.store.perform 0 asked).map Prod.fst).getD d.store, d.written⟩
  | .reorderList kind ordered => ⟨(d.store.reorderList kind ordered).1, d.written⟩
  | .restart n => ⟨(Store.empty.load pyStr d.written[n]?).1, d.written⟩

def Durable.Answers (d : Durable) : DurableEvent → Prop
  | .call asked => (d.store.perform 0 asked).isSome = true
  | _ => True

instance : DecidablePred DurableEvent.Dedupes := fun event =>
  match event with
  | .call (.enqueueList _ _ dedupe _) => inferInstanceAs (Decidable (dedupe = true))
  | .call (.zaddIngest ..) | .call (.evictYoungestCatchupIngest _) | .call (.claimIngest ..)
  | .call (.claimList ..) | .call (.ack ..) | .call (.requeue ..) | .call (.reapExpiredInflight ..)
  | .call (.extendInflightDeadline ..) | .call (.renewJobLease ..)
  | .call (.writeJobPayloadField ..) | .call .persist | .reorderList .. | .restart _ =>
    isTrue trivial

instance (d : Durable) : DecidablePred d.Answers := fun event =>
  match event with
  | .call asked => inferInstanceAs (Decidable ((d.store.perform 0 asked).isSome = true))
  | .reorderList .. | .restart _ => isTrue trivial

theorem advance_steps {event : DurableEvent} (answers : d.Answers event) :
    d.Steps pyStr event (d.advance pyStr event) := by
  cases event with
  | call asked =>
    cases asked with
    | persist => rfl
    | _ =>
      obtain ⟨⟨s, answer⟩, done⟩ := Option.isSome_iff_exists.mp answers
      refine ⟨0, answer, ?_, rfl⟩
      simp only [Durable.advance, done, Option.map_some, Option.getD_some]
  | _ => rfl

theorem advance_run {Asked : DurableEvent → Prop} {events : List DurableEvent}
    (answers : Throughout (Durable.advance pyStr) (fun d event => Asked event ∧ d.Answers event)
      d events) :
    Run (fun d (event : DurableEvent) d' => Asked event ∧ d.Steps pyStr event d') d events
      (events.foldl (Durable.advance pyStr) d) := by
  induction events generalizing d with
  | nil => exact .start
  | cons event events ih => exact (ih answers.2).head ⟨answers.1.1, advance_steps answers.1.2⟩

private def restartEvents : List DurableEvent :=
  [.call (.enqueueList .append (lit "a") true 9), .call (.enqueueList .append (lit "b") true 9),
    .call (.writeJobPayloadField .append (lit "b") (lit "emit") (lit "1")),
    .call (.claimList .append (lit "w") 60 0), .call .persist, .restart 0]

private def twiceQueuedEvents : List DurableEvent :=
  [.call (.enqueueList .append (lit "a") false 9), .call (.enqueueList .append (lit "a") false 9),
    .call (.writeJobPayloadField .append (lit "a") (lit "emit") (lit "1")),
    .call (.claimList .append (lit "w") 60 0)]

end Restarts

end PerfStats.JobStore
