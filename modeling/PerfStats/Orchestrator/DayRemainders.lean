import PerfStats.Archive.ClosedRawWalk
import PerfStats.JobStore.ListQueues
import PerfStats.JobStore.Slots

namespace PerfStats.Orchestrator

open JobStore
open Lib

section Counters

-- The local calendar day of an epoch second, and of a file's mtime where its name has none.
variable (localDate : Int → Option Day) (mtimeDate : Str → Option Day)

def remainderDay (identity : Str) : Option Day :=
  let parts := Text.splitOn '|' identity
  let path := Text.join ['|'] (parts.take (max 1 (parts.length - 2)))
  if path = [] then none
  else ((Text.parseInt (Archive.basename path)).bind localDate).or (mtimeDate path)

structure DayLeft where
  ingest : Dict Day Nat
  append : Dict Day Nat

def DayLeft.none : DayLeft := ⟨.empty, .empty⟩

def dayRemainder (left : DayLeft) (kind : Kind) (day : Day) : Nat :=
  match kind with
  | .ingest => (left.ingest.get? day).getD 0
  | .append => (left.append.get? day).getD 0
  | _ => 0

def noteBucket (bucket : Dict Day Nat) (day : Day) (delta : Int) : Dict Day Nat :=
  let cur : Int := ((bucket.get? day).getD 0 : Nat) + delta
  if cur ≤ 0 then bucket.erase day else bucket.set day cur.toNat

def noteDayRemainder (left : DayLeft) (kind : Kind) (day : Day) (delta : Int) : DayLeft :=
  match kind with
  | .ingest => { left with ingest := noteBucket left.ingest day delta }
  | .append => { left with append := noteBucket left.append day delta }
  | _ => left

end Counters

section System

variable (dayOf : Str → Option Day)

def heldList (store : Store) (kind : Kind) : List Str :=
  let queued := if kind = .ingest then store.ingest.entries.map Prod.fst else store.lists kind
  (queued ++ (store.inflight kind).entries.map Prod.fst).dedup

def heldCount (store : Store) (kind : Kind) (day : Day) : Nat :=
  (heldList store kind).countP fun i => decide (dayOf i = some day)

def recountKind (kind : Kind) (identities : List Str) (left : DayLeft) : DayLeft :=
  identities.foldl (fun left i => (dayOf i).elim left fun day => noteDayRemainder left kind day 1)
    left

def rebuildDayRemainders (store : Store) : DayLeft :=
  recountKind dayOf .append (heldList store .append)
    (recountKind dayOf .ingest (heldList store .ingest) .none)

structure DayNote where
  kind : Kind
  day : Day
  up : Bool
deriving DecidableEq

def noteFor (kind : Kind) (identity : Str) (up : Bool) : List DayNote :=
  ((dayOf identity).map fun day => ⟨kind, day, up⟩).toList

def notesOf : Call × Answer → List DayNote
  | (.zaddIngest identity .., .count 1) => noteFor dayOf .ingest identity true
  | (.enqueueList .append identity .., .count (_ + 1)) => noteFor dayOf .append identity true
  | (.ack .ingest identity _, _) => noteFor dayOf .ingest identity false
  | (.ack .append identity _, _) => noteFor dayOf .append identity false
  | (.evictYoungestCatchupIngest _, .evicted (some gone)) => noteFor dayOf .ingest gone false
  | _ => []

structure DayState where
  world : World
  left : DayLeft
  notes : List DayNote

structure BootStore where
  store : Store
  consistent : store.Consistent
  tidy : Tidy .append store

def Action.Dedupes : Action → Prop
  | .call call => call.Dedupes
  | _ => True

inductive DayEvent where
  | act (fuel : Nat) (action : {action : Action // Action.Dedupes action})
  | note (index : Nat)
  | boot (snapshot : BootStore)

def DayState.boot (snapshot : BootStore) : DayState :=
  ⟨⟨snapshot.store, []⟩, rebuildDayRemainders dayOf snapshot.store, []⟩

def dayStep (state : DayState) : DayEvent → DayState
  | .act fuel action =>
    match state.world.step fuel action.1 with
    | none => state
    | some (world, answer) =>
      let owed := match action.1 with
        | .call call => notesOf dayOf (call, answer)
        | _ => []
      { state with world := world, notes := state.notes ++ owed }
  | .note index =>
    match state.notes[index]? with
    | none => state
    | some note =>
      { state with
        left := noteDayRemainder state.left note.kind note.day (if note.up then 1 else -1)
        notes := state.notes.eraseIdx index }
  | .boot snapshot => .boot dayOf snapshot

def NotesCounted (state : DayState) : DayEvent → Prop
  | .act _ ⟨.call (.ack kind identity owner), _⟩ =>
    kind = .ingest ∨ kind = .append → (dayOf identity).isSome = true →
      owner ≠ [] ∧ (state.world.store.ownedEntry kind identity owner).isSome = true
  | .note index => ∀ note ∈ state.notes[index]?, note.up = false →
      0 < dayRemainder state.left note.kind note.day
  | _ => True

instance (state : DayState) (event : DayEvent) : Decidable (NotesCounted dayOf state event) :=
  match event with
  | .act _ ⟨.call (.ack kind identity owner), _⟩ => inferInstanceAs (Decidable
      (kind = .ingest ∨ kind = .append → (dayOf identity).isSome = true →
        owner ≠ [] ∧ (state.world.store.ownedEntry kind identity owner).isSome = true))
  | .note index => inferInstanceAs (Decidable (∀ note ∈ state.notes[index]?, _ → _ < _))
  | .act _ ⟨.call (.zaddIngest ..), _⟩ | .act _ ⟨.call (.evictYoungestCatchupIngest _), _⟩
  | .act _ ⟨.call (.enqueueList ..), _⟩ | .act _ ⟨.call (.claimIngest ..), _⟩
  | .act _ ⟨.call (.claimList ..), _⟩ | .act _ ⟨.call (.requeue ..), _⟩
  | .act _ ⟨.call (.reapExpiredInflight ..), _⟩ | .act _ ⟨.call (.extendInflightDeadline ..), _⟩
  | .act _ ⟨.call (.renewJobLease ..), _⟩ | .act _ ⟨.call (.writeJobPayloadField ..), _⟩
  | .act _ ⟨.call .persist, _⟩ | .act _ ⟨.stealDeadOwnerLeases .., _⟩
  | .act _ ⟨.reconcileThisOwnerOrphanLeases .., _⟩ | .act _ ⟨.resumeRecovery _, _⟩ | .boot _ =>
    isTrue trivial

/-- Where no thread stands between a store call and its adjustment for a day, its count is the
number of its jobs. -/
def DayExact (state : DayState) : Prop :=
  ∀ kind, kind = .ingest ∨ kind = .append → ∀ day,
    (∀ note ∈ state.notes, note.kind ≠ kind ∨ note.day ≠ day) →
      dayRemainder state.left kind day = heldCount dayOf state.world.store kind day

end System

section Counting

variable {kind : Kind} {day : Day}

theorem dayRemainder_note {left : DayLeft} {k : Kind} {d : Day} {delta : Int}
    (own : k = .ingest ∨ k = .append) :
    dayRemainder (noteDayRemainder left kind day delta) k d =
      if k = kind ∧ d = day then ((dayRemainder left k d : Int) + delta).toNat
      else dayRemainder left k d := by
  have bucket : ∀ b : Dict Day Nat, ((noteBucket b day delta).get? d).getD 0 =
      if d = day then (((b.get? d).getD 0 : Nat) + delta : Int).toNat else (b.get? d).getD 0 := by
    intro b
    unfold noteBucket
    dsimp only
    split
    · next low =>
        rw [Dict.get?_erase]
        split
        · next same =>
            rw [same, Option.getD_none]
            omega
        · rfl
    · rw [Dict.get?_set]
      split
      · next same => rw [same, Option.getD_some]
      · rfl
  rcases own with rfl | rfl
  · cases kind <;> simp [noteDayRemainder, dayRemainder, bucket]
  · cases kind <;> simp [noteDayRemainder, dayRemainder, bucket]

variable (dayOf : Str → Option Day)

def tally (kind : Kind) (day : Day) (key : Option JobKey) : Nat :=
  key.elim 0 fun key => if key.1 = kind ∧ dayOf key.2 = some day then 1 else 0

def notesUp (notes : List DayNote) (kind : Kind) (day : Day) (up : Bool) : Nat :=
  notes.countP fun note => decide (note = ⟨kind, day, up⟩)

variable {dayOf}

theorem recountKind_other {k : Kind} (own : k = .ingest ∨ k = .append)
    (other : k ≠ kind) (identities : List Str) (left : DayLeft) :
    dayRemainder (recountKind dayOf kind identities left) k day = dayRemainder left k day := by
  induction identities generalizing left with
  | nil => rfl
  | cons i rest ih =>
    rw [recountKind, List.foldl_cons, ← recountKind, ih]
    cases dayOf i with
    | none => rfl
    | some d => rw [Option.elim_some, dayRemainder_note own, if_neg fun same => other same.1]

theorem recountKind_own (own : kind = .ingest ∨ kind = .append)
    (identities : List Str) (left : DayLeft) :
    dayRemainder (recountKind dayOf kind identities left) kind day =
      dayRemainder left kind day +
        identities.countP fun i => decide (dayOf i = some day) := by
  induction identities generalizing left with
  | nil => rfl
  | cons i rest ih =>
    rw [recountKind, List.foldl_cons, ← recountKind, ih, List.countP_cons]
    cases of : dayOf i with
    | none => simp
    | some d =>
      rw [Option.elim_some, dayRemainder_note own]
      by_cases same : day = d
      · simp only [same, and_self, if_true, decide_true]
        omega
      · have apart : ¬some d = some day := fun is => same (Option.some.inj is).symm
        simp [same, apart]

theorem rebuild_exact (store : Store) (own : kind = .ingest ∨ kind = .append) (day : Day) :
    dayRemainder (rebuildDayRemainders dayOf store) kind day =
      heldCount dayOf store kind day := by
  have zero : ∀ k, dayRemainder .none k day = 0 := by
    intro k
    cases k <;> rfl
  rcases own with rfl | rfl
  · rw [rebuildDayRemainders, recountKind_other (.inl rfl) (by simp), recountKind_own (.inl rfl),
      zero, Nat.zero_add]
    rfl
  · rw [rebuildDayRemainders, recountKind_own (.inr rfl), recountKind_other (.inr rfl) (by simp),
      zero, Nat.zero_add]
    rfl

def KindHolds (store : Store) (kind : Kind) (i : Str) : Prop :=
  if kind = .ingest then store.Holds i else store.ListHolds kind i

theorem mem_heldList {store : Store} {i : Str} :
    i ∈ heldList store kind ↔ KindHolds store kind i := by
  have keys : ∀ {ν : Type} (d : Dict Str ν), i ∈ d.entries.map Prod.fst ↔
      (d.get? i).isSome = true := by
    intro ν d
    rw [← not_iff_not, ← Dict.get?_eq_none, Option.not_isSome_iff_eq_none]
  unfold heldList KindHolds
  rw [List.mem_dedup, List.mem_append, keys]
  split
  · next ingest =>
      rw [keys, ingest]
      exact Iff.rfl
  · exact Iff.rfl

theorem heldCount_eq (store : Store) (kind : Kind) (day : Day) :
    heldCount dayOf store kind day =
      ((heldList store kind).toFinset.filter fun i => dayOf i = some day).card := by
  have distinct : (heldList store kind).Nodup := List.nodup_dedup _
  rw [heldCount, List.countP_eq_length_filter, ← List.toFinset_card_of_nodup (distinct.filter _)]
  congr 1
  ext i
  simp

theorem tally_cases (kind : Kind) (day : Day) (key : Option JobKey) :
    (∃ i, key = some (kind, i) ∧ dayOf i = some day ∧ tally dayOf kind day key = 1) ∨
      (∀ i, key = some (kind, i) → dayOf i ≠ some day) ∧ tally dayOf kind day key = 0 := by
  cases key with
  | none => exact .inr ⟨nofun, rfl⟩
  | some key =>
    obtain ⟨k, i⟩ := key
    by_cases here : k = kind ∧ dayOf i = some day
    · obtain ⟨rfl, of⟩ := here
      exact .inl ⟨i, rfl, of, by simp [tally, of]⟩
    · refine .inr ⟨fun j is of => here ?_, by simp [tally, here]⟩
      cases is
      exact ⟨rfl, of⟩

theorem entered_of_departed {label : Call × Answer} {key : JobKey}
    (gone : departed label = some key) : entered label = none := by
  unfold departed at gone
  split at gone
  · rfl
  · rfl
  · cases gone

theorem heldCount_step {s t : Store} {kind : Kind} {label : Call × Answer} (day : Day)
    (spec : HeldSpec kind (KindHolds s kind) (KindHolds t kind) label) :
    heldCount dayOf t kind day + tally dayOf kind day (departed label) =
      heldCount dayOf s kind day + tally dayOf kind day (entered label) := by
  obtain ⟨held, fresh, gone⟩ := spec
  rw [heldCount_eq, heldCount_eq]
  have member : ∀ store i, i ∈ (heldList store kind).toFinset.filter (fun i => dayOf i = some day) ↔
      KindHolds store kind i ∧ dayOf i = some day := by
    intro store i
    rw [Finset.mem_filter, List.mem_toFinset, mem_heldList]
  rcases tally_cases kind day (departed label) with ⟨i, is, of, one⟩ | ⟨apart, zero⟩
  · have none_ := entered_of_departed is
    have inside := (member s i).mpr ⟨gone i is, of⟩
    have same : (heldList t kind).toFinset.filter (fun i => dayOf i = some day) =
        ((heldList s kind).toFinset.filter fun i => dayOf i = some day).erase i := by
      ext j
      rw [member, Finset.mem_erase, member, held, none_, is]
      simp only [reduceCtorEq, or_false, ne_eq, Option.some.injEq, Prod.mk.injEq, true_and,
        eq_comm (a := i)]
      tauto
    have card := Finset.card_erase_add_one inside
    rw [same, one, none_]
    exact card
  · rcases tally_cases kind day (entered label) with ⟨i, is, of, one⟩ | ⟨apart', zero'⟩
    · have outside : i ∉ (heldList s kind).toFinset.filter fun i => dayOf i = some day :=
        fun inside => fresh i is ((member s i).mp inside).1
      have stays : departed label = none := by
        cases leaves : departed label with
        | none => rfl
        | some key =>
          rw [entered_of_departed leaves] at is
          cases is
      have same : (heldList t kind).toFinset.filter (fun i => dayOf i = some day) =
          insert i ((heldList s kind).toFinset.filter fun i => dayOf i = some day) := by
        ext j
        rw [member, Finset.mem_insert, member, held, is, stays]
        simp only [ne_eq, reduceCtorEq, not_false_eq_true, and_true, Option.some.injEq,
          Prod.mk.injEq, true_and, eq_comm (a := i)]
        constructor
        · rintro ⟨before | rfl, of'⟩
          · exact .inr ⟨before, of'⟩
          · exact .inl rfl
        · rintro (rfl | ⟨before, of'⟩)
          · exact ⟨.inr rfl, of⟩
          · exact ⟨.inl before, of'⟩
      rw [same, Finset.card_insert_of_notMem outside, zero, one]
    · have same : (heldList t kind).toFinset.filter (fun i => dayOf i = some day) =
          (heldList s kind).toFinset.filter fun i => dayOf i = some day := by
        ext j
        rw [member, member, held]
        constructor
        · rintro ⟨⟨before | is, _⟩, of⟩
          · exact ⟨before, of⟩
          · exact absurd of (apart' j is)
        · rintro ⟨before, of⟩
          exact ⟨⟨.inl before, fun is => apart j is of⟩, of⟩
      rw [same, zero, zero']

theorem noteFor_up {k : Kind} {i : Str} {up side : Bool} :
    notesUp (noteFor dayOf k i up) kind day side =
      if up = side then tally dayOf kind day (some (k, i)) else 0 := by
  unfold noteFor notesUp tally
  cases of : dayOf i with
  | none => simp [of]
  | some d =>
    by_cases same : up = side
    · by_cases own : k = kind ∧ d = day
      · simp [same, own, of]
      · rw [not_and_or] at own
        rcases own with other | other <;> simp [same, other, of]
    · simp [same]

theorem notesOf_up {label : Call × Answer} (day : Day) (own : kind = .ingest ∨ kind = .append)
    (acked : ∀ k i owner, label.1 = .ack k i owner → (k = .ingest ∨ k = .append) →
      (dayOf i).isSome = true → label.2 = .flag true)
    (listed : ∀ i dedupe cap n, label ≠ (.enqueueList .ingest i dedupe cap, .count (n + 1))) :
    notesUp (notesOf dayOf label) kind day true = tally dayOf kind day (entered label) ∧
      notesUp (notesOf dayOf label) kind day false = tally dayOf kind day (departed label) := by
  have quiet : ∀ k i, (k ≠ .ingest ∧ k ≠ .append) → tally dayOf kind day (some (k, i)) = 0 := by
    intro k i other
    have apart : k ≠ kind := by
      rintro rfl
      exact own.elim other.1 other.2
    simp [tally, apart]
  obtain ⟨call, answer⟩ := label
  cases call with
  | zaddIngest i q fingerprint overCap cap =>
    match answer with
    | .count 1 => exact ⟨noteFor_up, noteFor_up⟩
    | .count 0 | .count (n + 2) | .raised _ | .evicted _ | .claims _ | .flag _ | .identities _
    | .done => exact ⟨rfl, rfl⟩
  | evictYoungestCatchupIngest day =>
    match answer with
    | .evicted (some gone) => exact ⟨noteFor_up, noteFor_up⟩
    | .evicted none | .count _ | .raised _ | .claims _ | .flag _ | .identities _
    | .done => exact ⟨rfl, rfl⟩
  | enqueueList k i dedupe cap =>
    match answer with
    | .count (n + 1) =>
      cases k with
      | append => exact ⟨noteFor_up, noteFor_up⟩
      | ingest => exact absurd rfl (listed i dedupe cap n)
      | discover => exact ⟨(quiet _ _ (by simp)).symm, rfl⟩
      | dayClose => exact ⟨(quiet _ _ (by simp)).symm, rfl⟩
    | .count 0 | .evicted _ | .raised _ | .claims _ | .flag _ | .identities _
    | .done => cases k <;> exact ⟨rfl, rfl⟩
  | ack k i owner =>
    have only : k = .ingest ∨ k = .append →
        notesUp (noteFor dayOf k i false) kind day true =
            tally dayOf kind day (entered (.ack k i owner, answer)) ∧
          notesUp (noteFor dayOf k i false) kind day false =
            tally dayOf kind day (departed (.ack k i owner, answer)) := by
      intro counted
      refine ⟨noteFor_up, ?_⟩
      rw [noteFor_up, if_pos rfl]
      cases of : dayOf i with
      | none =>
        have zero : tally dayOf kind day (some (k, i)) = 0 := by simp [tally, of]
        rw [zero]
        match answer with
        | .flag true => exact zero.symm
        | .flag false | .count _ | .evicted _ | .raised _ | .claims _ | .identities _
        | .done => rfl
      | some d =>
        have done : answer = .flag true := acked k i owner rfl counted (by simp [of])
        rw [done]
        rfl
    cases k with
    | ingest => exact only (.inl rfl)
    | append => exact only (.inr rfl)
    | _ =>
      match answer with
      | .flag true => exact ⟨rfl, (quiet _ _ (by simp)).symm⟩
      | .flag false | .count _ | .evicted _ | .raised _ | .claims _ | .identities _
      | .done => exact ⟨rfl, rfl⟩
  | _ => exact ⟨rfl, rfl⟩

end Counting

section Books

variable {dayOf : Str → Option Day} {state : DayState}

structure DayBooks (dayOf : Str → Option Day) (state : DayState) : Prop where
  consistent : state.world.store.Consistent
  tidy : Tidy .append state.world.store
  counted : ∀ kind, kind = .ingest ∨ kind = .append → ∀ day,
    dayRemainder state.left kind day + notesUp state.notes kind day true =
      heldCount dayOf state.world.store kind day + notesUp state.notes kind day false

theorem DayBooks.exact (books : DayBooks dayOf state) : DayExact dayOf state := by
  intro kind own day quiet
  have none_ : ∀ up, notesUp state.notes kind day up = 0 := by
    intro up
    refine List.countP_eq_zero.mpr fun note member => ?_
    simp only [decide_eq_true_eq]
    rintro rfl
    exact (quiet _ member).elim (fun other => other rfl) fun other => other rfl
  have counted := books.counted kind own day
  rw [none_, none_] at counted
  exact counted

theorem boot_books (snapshot : BootStore) : DayBooks dayOf (.boot dayOf snapshot) where
  consistent := snapshot.consistent
  tidy := snapshot.tidy
  counted _ own day := rebuild_exact snapshot.store own day

theorem kindHolds_spec {s t : Store} {fuel : Nat} {call : Call} {answer : Answer}
    (good : s.Consistent) (tidy : Tidy .append s) (dedupes : call.Dedupes)
    (done : s.perform fuel call = some (t, answer)) {kind : Kind}
    (own : kind = .ingest ∨ kind = .append) :
    HeldSpec kind (KindHolds s kind) (KindHolds t kind) (call, answer) := by
  rcases own with rfl | rfl
  · exact (perform_ingest good done).2
  · exact (perform_queue (by simp) tidy dedupes done).2

theorem DayBooks.keeps {world : World} (books : DayBooks dayOf state)
    (ingest : state.world.store.Keeps world.store)
    (append : KeepsQueue .append state.world.store world.store) :
    DayBooks dayOf { state with world := world, notes := state.notes ++ [] } where
  consistent := ingest.1
  tidy := append.1
  counted kind own day := by
    have same : heldCount dayOf world.store kind day =
        heldCount dayOf state.world.store kind day := by
      rw [heldCount_eq, heldCount_eq]
      congr 2
      ext i
      rw [List.mem_toFinset, List.mem_toFinset, mem_heldList, mem_heldList]
      rcases own with rfl | rfl
      · exact ingest.2 i
      · exact append.2 i
    simp only [List.append_nil, same]
    exact books.counted kind own day

theorem called_books {fuel : Nat} {call : Call} {answer : Answer} {store : Store}
    (books : DayBooks dayOf state) (dedupes : call.Dedupes)
    (counted : NotesCounted dayOf state (.act fuel ⟨.call call, dedupes⟩))
    (done : state.world.store.perform fuel call = some (store, answer)) :
    DayBooks dayOf { state with
      world := { state.world with store := store }
      notes := state.notes ++ notesOf dayOf (call, answer) } where
  consistent := (perform_ingest books.consistent done).1
  tidy := (perform_queue (by simp) books.tidy dedupes done).1
  counted kind own day := by
    have moved := @heldCount_step dayOf _ _ _ _ day
      (kindHolds_spec books.consistent books.tidy dedupes done own)
    have listed : ∀ i dedupe cap n,
        (call, answer) ≠ (.enqueueList .ingest i dedupe cap, .count (n + 1)) := by
      rintro i dedupe cap n same
      cases same
      cases done
    have acked : ∀ k i owner, call = .ack k i owner → (k = .ingest ∨ k = .append) →
        (dayOf i).isSome = true → answer = .flag true := by
      rintro k i owner rfl kinds dated
      obtain ⟨named, owned⟩ := counted kinds dated
      obtain ⟨entry, held⟩ := Option.isSome_iff_exists.mp owned
      refine (congrArg Prod.snd (Option.some.inj done)).symm.trans ?_
      simp only [Store.ack, named, if_false, held]
      rfl
    obtain ⟨up, down⟩ := notesOf_up day own acked listed
    have before := books.counted kind own day
    have split : ∀ side, notesUp (state.notes ++ notesOf dayOf (call, answer)) kind day side =
        notesUp state.notes kind day side +
          notesUp (notesOf dayOf (call, answer)) kind day side :=
      fun side => List.countP_append
    simp only [split, up, down]
    omega

theorem noted_books {index : Nat} (books : DayBooks dayOf state)
    (counted : NotesCounted dayOf state (.note index)) :
    DayBooks dayOf (dayStep dayOf state (.note index)) := by
  simp only [dayStep]
  split
  · exact books
  · next note found =>
      refine ⟨books.consistent, books.tidy, fun kind own day => ?_⟩
      obtain ⟨inside, is⟩ := List.getElem?_eq_some_iff.mp found
      have parts : ∀ side, notesUp state.notes kind day side =
          notesUp (state.notes.eraseIdx index) kind day side +
            if note = ⟨kind, day, side⟩ then 1 else 0 := by
        intro side
        have perm := List.getElem_cons_eraseIdx_perm inside
        rw [notesUp, ← perm.countP_eq, List.countP_cons, is]
        simp [notesUp]
      have before := books.counted kind own day
      rw [parts, parts] at before
      have floor := counted note found
      obtain ⟨k, d, up⟩ := note
      simp only at floor ⊢
      rw [dayRemainder_note own]
      by_cases here : kind = k ∧ day = d
      · obtain ⟨rfl, rfl⟩ := here
        cases up with
        | true =>
          simp only [and_self, if_true, DayNote.mk.injEq, Bool.true_eq_false, and_false,
            if_false] at before ⊢
          omega
        | false =>
          have positive := floor rfl
          simp only [and_self, if_true, DayNote.mk.injEq, Bool.false_eq_true, and_false,
            if_false] at before ⊢
          omega
      · have apart : ∀ side, (⟨k, d, up⟩ : DayNote) ≠ ⟨kind, day, side⟩ := by
          rintro side same
          cases same
          exact here ⟨rfl, rfl⟩
        simp only [apart, if_false, here] at before ⊢
        exact before

theorem dayStep_books {event : DayEvent} (books : DayBooks dayOf state)
    (counted : NotesCounted dayOf state event) : DayBooks dayOf (dayStep dayOf state event) := by
  cases event with
  | boot snapshot => exact boot_books snapshot
  | note index => exact noted_books books counted
  | act fuel action =>
    obtain ⟨action, dedupes⟩ := action
    cases taken : state.world.step fuel action with
    | none =>
      simp only [dayStep, taken]
      exact books
    | some result =>
      simp only [dayStep, taken]
      cases action with
      | call call =>
        obtain ⟨⟨store, reply⟩, done, same⟩ := Option.map_eq_some_iff.mp taken
        cases same
        exact called_books books dedupes counted done
      | stealDeadOwnerLeases alive hostname bootId =>
        cases taken
        exact books.keeps (Store.Keeps.refl books.consistent) (.refl books.tidy)
      | reconcileThisOwnerOrphanLeases kind localIdentities ownerToken =>
        cases taken
        exact books.keeps (Store.Keeps.refl books.consistent) (.refl books.tidy)
      | resumeRecovery pass =>
        simp only [World.step] at taken
        split at taken
        · next call rest _ =>
            cases taken
            exact books.keeps (Store.requeue_keeps books.consistent _ _ _ _)
              (requeue_keepsQueue books.tidy (by simp) _ _ _ _)
        · cases taken

end Books

section Result

/-- In every state of a run from boot, restarts included. -/
theorem day_remainders_exact (localDate : Int → Option Day) (mtimeDate : Str → Option Day)
    (snapshot : BootStore) (events : List DayEvent)
    (counted : Throughout (dayStep (remainderDay localDate mtimeDate))
      (NotesCounted (remainderDay localDate mtimeDate))
      (.boot (remainderDay localDate mtimeDate) snapshot) events)
    (early later : List DayEvent) (split : events = early ++ later) :
    DayExact (remainderDay localDate mtimeDate)
      (early.foldl (dayStep (remainderDay localDate mtimeDate))
        (.boot (remainderDay localDate mtimeDate) snapshot)) := by
  rw [split, throughout_append] at counted
  exact (counted.1.kept (boot_books snapshot) fun _ _ => dayStep_books).exact

private def emptySnapshot : BootStore := ⟨.empty, Store.empty_consistent, tidy_empty .append⟩

private theorem november_range : (1 : Int) ≤ 738838 ∧ (738838 : Int) ≤ lastOrdinal := by decide

private def novemberDay : Day := ⟨738838, november_range⟩

private def november : Str → Option Day := remainderDay (fun _ => some novemberDay) fun _ => none

private def queuedAndClaimed : List DayEvent :=
  [.act 0 ⟨.call (.zaddIngest (lit "/a/h/1700000000") (10 ^ 15 + 738838 * 10 ^ 6) none false 10),
      trivial⟩,
    .note 0, .act 9 ⟨.call (.claimIngest (lit "catchup") (lit "w") 60 0 1), trivial⟩]

private def acked : List DayEvent :=
  [.act 0 ⟨.call (.ack .ingest (lit "/a/h/1700000000") (lit "w")), trivial⟩, .note 0]

theorem day_remainders_exact_acked :
    DayExact november
      ((queuedAndClaimed ++ acked).foldl (dayStep november) (.boot november emptySnapshot)) :=
  day_remainders_exact (fun _ => some novemberDay) (fun _ => none) emptySnapshot
    (queuedAndClaimed ++ acked) (by decide +kernel) (queuedAndClaimed ++ acked) []
    (List.append_nil _).symm

private def reaped : List DayEvent :=
  [.act 0 ⟨.call (.reapExpiredInflight .ingest 1000 10), trivial⟩]

theorem lost_owner_uncounts :
    let state := (queuedAndClaimed ++ reaped ++ acked).foldl (dayStep november)
      (.boot november emptySnapshot)
    state.notes = [] ∧ dayRemainder state.left .ingest novemberDay = 0 ∧
      heldCount november state.world.store .ingest novemberDay = 1 ∧ ¬DayExact november state := by
  intro state
  have quiet : state.notes = [] := by decide +kernel
  have zero : dayRemainder state.left .ingest novemberDay = 0 := by decide +kernel
  have one : heldCount november state.world.store .ingest novemberDay = 1 := by decide +kernel
  refine ⟨quiet, zero, one, fun exact_ => ?_⟩
  have same := exact_ .ingest (.inl rfl) novemberDay fun note member => by
    rw [quiet] at member
    cases member
  rw [zero, one] at same
  cases same

end Result

end PerfStats.Orchestrator
