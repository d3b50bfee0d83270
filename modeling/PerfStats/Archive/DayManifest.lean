import PerfStats.Lib.Dict
import PerfStats.Lib.Runs

namespace PerfStats.Archive

open Lib

section Model

inductive RemovalPhase where
  | verifying
  | verificationComplete
  | deleting
  | done
  deriving DecidableEq, Repr

/-- An entry of the manifest; `fingerprint` is the time and the size at the recording. -/
structure ManifestEntry (P : Type*) where
  path : P
  dailyGz : P
  status : String
  reason : String
  deleted : Bool
  fingerprint : Option (ℤ × ℤ)
  deleteReason : Option String
  deleteDeferred : Option String
  deleteFailed : Option String
  deriving DecidableEq, Repr

structure DayManifest (P : Type*) where
  phase : RemovalPhase
  verifiedCount : ℤ
  skippedCount : ℤ
  deletedCount : ℤ
  entries : Dict P (ManifestEntry P)

inductive RemoveEnd where
  | removed
  | contended
  | failed (error : String)
  deriving DecidableEq, Repr

/-- What a delete pass finds around the manifest; `maxDeletes` is 0 for no limit. The last five are
answers of the completion context. -/
structure DeletePass (P : Type*) where
  maxDeletes : Nat
  ghostOnDisk : P → Bool
  isFile : P → Bool
  fingerprint : P → Option (ℤ × ℤ)
  skipPath : P → Bool
  sealedMembers : Option (P → Bool)
  remove : P → RemoveEnd
  allTerminal : Bool
  onlyWaiting : Bool
  hasClosedRaw : Bool
  unmanifested : Bool
  marksDone : Bool

variable {P : Type*}

def ManifestEntry.verified (entry : ManifestEntry P) : Bool := entry.status == "verified"

def ManifestEntry.undeleted (entry : ManifestEntry P) : ManifestEntry P :=
  { entry with deleted := false, deleteFailed := none, deleteReason := none }

namespace DayManifest

/-- `_new_manifest`. -/
def new : DayManifest P := ⟨.verifying, 0, 0, 0, .empty⟩

variable [LinearOrder P] (m : DayManifest P)

def recordEntry (path dailyGz : P) (status reason : String) (fingerprint : Option (ℤ × ℤ)) :
    DayManifest P :=
  let entry : ManifestEntry P := ⟨path, dailyGz, status, reason, false, fingerprint, none, none, none⟩
  match m.entries.get? path with
  | some prior =>
    if prior.status = "verified" then m
    else if prior.status = status then m
    else if status = "verified" then
      { m with
        skippedCount := max 0 (m.skippedCount - 1)
        verifiedCount := m.verifiedCount + 1
        entries := m.entries.set path entry }
    else { m with entries := m.entries.set path entry }
  | none =>
    if status = "verified" then
      { m with verifiedCount := m.verifiedCount + 1, entries := m.entries.set path entry }
    else { m with skippedCount := m.skippedCount + 1, entries := m.entries.set path entry }

def edit (path : P) (change : ManifestEntry P → ManifestEntry P) : DayManifest P :=
  match m.entries.get? path with
  | some entry => { m with entries := m.entries.set path (change entry) }
  | none => m

end DayManifest

namespace DeletePass

variable (pass : DeletePass P)

/-- `_ghost_deleted_paths_on_disk`. -/
def ghosts (m : DayManifest P) : List P :=
  (m.entries.entries.filter fun e => e.2.verified && e.2.deleted && pass.ghostOnDisk e.1).map
    Prod.fst

variable [LinearOrder P]

/-- `needs_ghost_delete_retry` and `_prepare_ghost_delete_retry`. -/
def prepared (m : DayManifest P) : DayManifest P :=
  if (m.phase = .done ∨ m.phase = .deleting) ∧ pass.ghosts m ≠ [] then
    { (pass.ghosts m).foldl (fun m path => m.edit path ManifestEntry.undeleted) m with
      phase := .deleting }
  else m

def deletePresent (m : DayManifest P) (path : P) (entry : ManifestEntry P) :
    DayManifest P × Bool :=
  if entry.fingerprint ≠ pass.fingerprint path then
    (m.edit path fun entry =>
      { entry with
        status := "skipped_fingerprint_changed"
        reason := "fingerprint_changed_before_delete" }, false)
  else if pass.skipPath path then
    (m.edit path fun entry => { entry with deleteDeferred := some "active_ingest" }, false)
  else
    match pass.sealedMembers with
    | none =>
      (m.edit path fun entry =>
        { entry with deleteDeferred := some "sealed_copy_unproven" }, false)
    | some members =>
      if members path = false then
        (m.edit path fun entry =>
          { entry with
            status := "skipped_not_in_archive"
            reason := "not_in_sealed_archive_at_delete" }, false)
      else
        match pass.remove path with
        | .removed =>
          ({ m.edit path fun entry => { entry with deleted := true } with
            deletedCount := m.deletedCount + 1 }, true)
        | .contended =>
          (m.edit path fun entry =>
            { entry with deleteDeferred := some "write_lock_contended" }, false)
        | .failed error =>
          (m.edit path fun entry => { entry with deleteFailed := some error }, false)

/-- One path of the loop of `_apply_batch_delete_body`, with the deletions counted so far. -/
def visit (swept : DayManifest P × Nat) (path : P) : DayManifest P × Nat :=
  if pass.maxDeletes ≠ 0 ∧ pass.maxDeletes ≤ swept.2 then swept
  else
    match swept.1.entries.get? path with
    | none => swept
    | some entry =>
      if entry.status ≠ "verified" ∨ entry.deleted then swept
      else if pass.isFile path = false then
        (swept.1.edit path fun entry =>
          { entry with deleted := true, deleteReason := some "already_absent" }, swept.2 + 1)
      else
        ((pass.deletePresent swept.1 path entry).1,
          swept.2 + (pass.deletePresent swept.1 path entry).2.toNat)

def completed (m : DayManifest P) : RemovalPhase :=
  if m.entries.entries.any fun e => e.2.verified && !e.2.deleted then m.phase
  else if pass.allTerminal then .done
  else if pass.onlyWaiting && pass.hasClosedRaw then if pass.marksDone then .done else m.phase
  else if pass.unmanifested then .verifying
  else .verificationComplete

def paths (m : DayManifest P) : List P :=
  (m.entries.entries.map Prod.fst).mergeSort fun a b => decide (a ≤ b)

/-- `_apply_batch_delete_body`. -/
def apply (m : DayManifest P) : DayManifest P × Nat :=
  let m := pass.prepared m
  if m.phase = .verificationComplete ∨ m.phase = .deleting then
    let swept := (paths m).foldl pass.visit ({ m with phase := .deleting }, 0)
    ({ swept.1 with phase := pass.completed swept.1 }, swept.2)
  else (m, 0)

end DeletePass

/-- A call of `_record_entry`, a delete pass, or a method that sets the phase. -/
inductive ManifestEvent (P : Type*) where
  | record (path dailyGz : P) (status reason : String) (fingerprint : Option (ℤ × ℤ))
  | pass (pass : DeletePass P)
  | enter (phase : RemovalPhase)

def manifestStep [LinearOrder P] (m : DayManifest P) :
    ManifestEvent P → DayManifest P
  | .record path dailyGz status reason fingerprint =>
    m.recordEntry path dailyGz status reason fingerprint
  | .pass pass => (pass.apply m).1
  | .enter phase => { m with phase := phase }

end Model

section Properties

variable {P : Type*} {m : DayManifest P}

def verifiedEntries (m : DayManifest P) : Nat := m.entries.count ManifestEntry.verified

def skippedEntries (m : DayManifest P) : Nat := m.entries.count (! ManifestEntry.verified ·)

structure CountersMatch (m : DayManifest P) : Prop where
  verified : m.verifiedCount = verifiedEntries m
  skipped : m.skippedCount = skippedEntries m

structure CountersDrift (m : DayManifest P) : Prop where
  least : (verifiedEntries m : ℤ) ≤ m.verifiedCount
  skipped : m.verifiedCount = verifiedEntries m → m.skippedCount = skippedEntries m

theorem CountersDrift.match_iff (drift : CountersDrift m) :
    CountersMatch m ↔ m.verifiedCount = verifiedEntries m :=
  ⟨CountersMatch.verified, fun verified => ⟨verified, drift.skipped verified⟩⟩

structure Steady (m n : DayManifest P) : Prop where
  drift : CountersDrift n
  match_iff : CountersMatch n ↔ CountersMatch m

variable {n : DayManifest P}

theorem CountersDrift.steady (known : CountersDrift m)
    (shift : n.verifiedCount - verifiedEntries n = m.verifiedCount - verifiedEntries m)
    (skipped : m.skippedCount = skippedEntries m → n.skippedCount = skippedEntries n) :
    Steady m n := by
  have right_iff : n.verifiedCount = verifiedEntries n ↔ m.verifiedCount = verifiedEntries m := by
    omega
  have least := known.least
  have drift : CountersDrift n :=
    ⟨by omega, fun right => skipped (known.skipped (right_iff.mp right))⟩
  exact ⟨drift, by rw [drift.match_iff, known.match_iff, right_iff]⟩

theorem CountersDrift.steady_of_counts (known : CountersDrift m)
    (verified : n.verifiedCount + verifiedEntries m = m.verifiedCount + verifiedEntries n)
    (skipped : n.skippedCount + skippedEntries m = m.skippedCount + skippedEntries n) :
    Steady m n :=
  known.steady (by omega) fun right => by omega

theorem Steady.relabel {other : DayManifest P} (steady : Steady m n)
    (verified : other.verifiedCount = n.verifiedCount)
    (skipped : other.skippedCount = n.skippedCount) (entries : other.entries = n.entries) :
    Steady m other := by
  cases other
  cases verified
  cases skipped
  cases entries
  have least := steady.drift.least
  have drift := steady.drift.skipped
  refine ⟨⟨least, drift⟩, Iff.trans ⟨fun right => ?_, fun right => ?_⟩ steady.match_iff⟩
  · exact ⟨right.verified, right.skipped⟩
  · exact ⟨right.verified, right.skipped⟩

theorem Steady.with_ {condition : Prop} (steady : Steady m n)
    (met : condition) : CountersDrift n ∧ (CountersMatch n ↔ CountersMatch m ∧ condition) :=
  ⟨steady.drift, steady.match_iff.trans (and_iff_left met).symm⟩

theorem without {condition : Prop}
    (wrong : CountersDrift n ∧ ¬ CountersMatch n) (unmet : ¬ condition) :
    CountersDrift n ∧ (CountersMatch n ↔ CountersMatch m ∧ condition) :=
  ⟨wrong.1, iff_of_false wrong.2 fun both => unmet both.2⟩

variable [LinearOrder P]

theorem edit_counts {path : P} {entry : ManifestEntry P} (found : m.entries.get? path = some entry)
    (change : ManifestEntry P → ManifestEntry P) (p : ManifestEntry P → Bool) :
    (m.edit path change).entries.count p + (p entry).toNat =
      m.entries.count p + (p (change entry)).toNat := by
  unfold DayManifest.edit
  rw [found]
  exact Dict.count_set_old p found (change entry)

theorem edit_counters (path : P) (change : ManifestEntry P → ManifestEntry P) :
    (m.edit path change).verifiedCount = m.verifiedCount ∧
      (m.edit path change).skippedCount = m.skippedCount := by
  unfold DayManifest.edit
  split <;> exact ⟨rfl, rfl⟩

theorem edit_steady (known : CountersDrift m) (path : P)
    {change : ManifestEntry P → ManifestEntry P}
    (kept : ∀ entry, (change entry).verified = entry.verified) :
    Steady m (m.edit path change) := by
  cases found : m.entries.get? path with
  | none =>
    have same : m.edit path change = m := by
      unfold DayManifest.edit
      rw [found]
    rw [same]
    exact ⟨known, Iff.rfl⟩
  | some entry =>
    obtain ⟨verified_counter, skipped_counter⟩ := @edit_counters P m _ path change
    have verified := edit_counts found change ManifestEntry.verified
    have skipped := edit_counts found change (! ManifestEntry.verified ·)
    rw [kept] at verified skipped
    have verified_same : verifiedEntries (m.edit path change) = verifiedEntries m :=
      Nat.add_right_cancel verified
    have skipped_same : skippedEntries (m.edit path change) = skippedEntries m :=
      Nat.add_right_cancel skipped
    apply known.steady
    · rw [verified_counter, verified_same]
    · rw [skipped_counter, skipped_same]
      exact id

theorem edit_drops {path : P} {entry : ManifestEntry P} (found : m.entries.get? path = some entry)
    (known : CountersDrift m) {change : ManifestEntry P → ManifestEntry P}
    (before : entry.verified = true) (dropped : (change entry).verified = false) :
    CountersDrift (m.edit path change) ∧ ¬ CountersMatch (m.edit path change) := by
  have counts := edit_counts found change ManifestEntry.verified
  rw [before, dropped] at counts
  have counter := (@edit_counters P m _ path change).1
  have least := known.least
  have short : (verifiedEntries (m.edit path change) : ℤ) < (m.edit path change).verifiedCount := by
    have fewer : verifiedEntries (m.edit path change) + 1 = verifiedEntries m := counts
    omega
  exact ⟨⟨short.le, fun right => absurd right short.ne'⟩, fun right => short.ne' right.verified⟩

theorem recordEntry_steady (known : CountersDrift m) (path dailyGz : P) (status reason : String)
    (fingerprint : Option (ℤ × ℤ)) :
    Steady m (m.recordEntry path dailyGz status reason fingerprint) := by
  unfold DayManifest.recordEntry
  split
  · next prior found =>
      have verified := Dict.count_set_old ManifestEntry.verified found
        ⟨path, dailyGz, status, reason, false, fingerprint, none, none, none⟩
      have skipped := Dict.count_set_old (! ManifestEntry.verified ·) found
        ⟨path, dailyGz, status, reason, false, fingerprint, none, none, none⟩
      split
      · exact ⟨known, Iff.rfl⟩
      · next was_skipped =>
          have prior_skipped : prior.verified = false := beq_eq_false_iff_ne.mpr was_skipped
          rw [prior_skipped] at verified skipped
          split
          · exact ⟨known, Iff.rfl⟩
          · split
            · next is_verified =>
                rw [show ManifestEntry.verified _ = true from beq_iff_eq.mpr is_verified]
                  at verified skipped
                simp only [Bool.not_true, Bool.not_false, Bool.toNat_true, Bool.toNat_false]
                  at verified skipped
                apply known.steady
                · dsimp only [verifiedEntries] at verified ⊢
                  omega
                · intro right
                  dsimp only [skippedEntries] at skipped right ⊢
                  omega
            · next still_skipped =>
                rw [show ManifestEntry.verified _ = false from beq_eq_false_iff_ne.mpr still_skipped]
                  at verified skipped
                apply known.steady_of_counts <;> dsimp only [verifiedEntries, skippedEntries] <;> omega
  · next absent =>
      have verified := Dict.count_set_new ManifestEntry.verified absent
        ⟨path, dailyGz, status, reason, false, fingerprint, none, none, none⟩
      have skipped := Dict.count_set_new (! ManifestEntry.verified ·) absent
        ⟨path, dailyGz, status, reason, false, fingerprint, none, none, none⟩
      split
      · next is_verified =>
          rw [show ManifestEntry.verified _ = true from beq_iff_eq.mpr is_verified]
            at verified skipped
          simp only [Bool.not_true, Bool.toNat_true, Bool.toNat_false]
            at verified skipped
          apply known.steady_of_counts <;> dsimp only [verifiedEntries, skippedEntries] <;> omega
      · next is_skipped =>
          rw [show ManifestEntry.verified _ = false from beq_eq_false_iff_ne.mpr is_skipped]
            at verified skipped
          simp only [Bool.not_false, Bool.toNat_true, Bool.toNat_false]
            at verified skipped
          apply known.steady_of_counts <;> dsimp only [verifiedEntries, skippedEntries] <;> omega

def Proven (pass : DeletePass P) (path : P) (entry : ManifestEntry P) : Prop :=
  entry.fingerprint = pass.fingerprint path ∧
    (pass.skipPath path = false →
      ∀ members, pass.sealedMembers = some members → members path = true)

def Confirmed (pass : DeletePass P) (swept : DayManifest P × Nat) (path : P) : Prop :=
  ∀ entry, swept.1.entries.get? path = some entry → entry.status = "verified" →
    entry.deleted = false → (pass.maxDeletes = 0 ∨ swept.2 < pass.maxDeletes) →
    pass.isFile path = true → Proven pass path entry

theorem deletePresent_match (pass : DeletePass P) {path : P} {entry : ManifestEntry P}
    (found : m.entries.get? path = some entry) (verified : entry.verified = true)
    (known : CountersDrift m) : CountersDrift (pass.deletePresent m path entry).1 ∧
      (CountersMatch (pass.deletePresent m path entry).1 ↔
        CountersMatch m ∧ Proven pass path entry) := by
  have drops := fun change => @edit_drops P m _ path entry found known change verified
  unfold DeletePass.deletePresent
  split
  · next changed => exact without (drops _ rfl) fun proven => changed proven.1
  · next same =>
      have same := not_not.mp same
      split
      · next skipped =>
          refine Steady.with_ (edit_steady known path fun _ => rfl) ⟨same, fun unskipped => ?_⟩
          rw [unskipped] at skipped
          cases skipped
      · next unskipped =>
          have unskipped : pass.skipPath path = false := Bool.not_eq_true _ ▸ unskipped
          split
          · next no_map =>
              refine Steady.with_ (edit_steady known path fun _ => rfl) ⟨same, fun _ members there => ?_⟩
              rw [no_map] at there
              cases there
          · next members there =>
              split
              · next missing =>
                  refine without (drops _ rfl) fun proven => ?_
                  have inside := proven.2 unskipped members there
                  rw [missing] at inside
                  cases inside
              · next inside =>
                  have proven : Proven pass path entry := by
                    refine ⟨same, fun _ other found => ?_⟩
                    rw [there] at found
                    cases found
                    exact Bool.not_eq_false _ ▸ inside
                  refine Steady.with_ ?_ proven
                  split
                  · exact Steady.relabel (@edit_steady P m _ known path
                      (fun entry => { entry with deleted := true }) fun _ => rfl) rfl rfl rfl
                  · exact edit_steady known path fun _ => rfl
                  · exact edit_steady known path fun _ => rfl

theorem visit_match (pass : DeletePass P) (swept : DayManifest P × Nat) (path : P)
    (known : CountersDrift swept.1) : CountersDrift (pass.visit swept path).1 ∧
      (CountersMatch (pass.visit swept path).1 ↔
        CountersMatch swept.1 ∧ Confirmed pass swept path) := by
  have same : Steady swept.1 swept.1 := ⟨known, Iff.rfl⟩
  unfold DeletePass.visit
  split
  · next full =>
      refine same.with_ fun entry _ _ _ room => ?_
      omega
  · next room =>
      split
      · next absent =>
          refine same.with_ fun entry found => ?_
          rw [absent] at found
          cases found
      · next entry found =>
          have only : ∀ other, swept.1.entries.get? path = some other → other = entry := by
            intro other there
            rw [found] at there
            exact (Option.some.inj there).symm
          split
          · next passed =>
              refine same.with_ fun other there verified kept => ?_
              rw [only other there] at verified kept
              rcases passed with unverified | gone
              · exact absurd verified unverified
              · rw [kept] at gone
                cases gone
          · next owed =>
              obtain ⟨verified, kept⟩ := not_or.mp owed
              split
              · next absent =>
                  refine Steady.with_ (edit_steady known path fun _ => rfl) fun _ _ _ _ _ there => ?_
                  rw [absent] at there
                  cases there
              · next present =>
                  have proven : Confirmed pass swept path ↔ Proven pass path entry := by
                    constructor
                    · intro confirmed
                      exact confirmed entry found (not_not.mp verified) (Bool.not_eq_true _ ▸ kept)
                        (by omega) (Bool.not_eq_false _ ▸ present)
                    · intro proven other there _ _ _ _
                      rw [only other there]
                      exact proven
                  rw [proven]
                  exact deletePresent_match pass found (beq_iff_eq.mpr (not_not.mp verified)) known

theorem edits_steady (known : CountersDrift m) {change : ManifestEntry P → ManifestEntry P}
    (kept : ∀ entry, (change entry).verified = entry.verified) (paths : List P) :
    Steady m (paths.foldl (fun m path => m.edit path change) m) := by
  induction paths generalizing m with
  | nil => exact ⟨known, Iff.rfl⟩
  | cons path paths ih =>
    have first := edit_steady known path kept
    have rest := ih first.drift
    exact ⟨rest.drift, rest.match_iff.trans first.match_iff⟩

theorem prepared_steady (pass : DeletePass P) (known : CountersDrift m) :
    Steady m (pass.prepared m) := by
  unfold DeletePass.prepared
  split
  · exact Steady.relabel (@edits_steady P m _ known ManifestEntry.undeleted (fun _ => rfl)
      (pass.ghosts m)) rfl rfl rfl
  · exact ⟨known, Iff.rfl⟩

def PassConfirmed (pass : DeletePass P) (m : DayManifest P) : Prop :=
  (pass.prepared m).phase = .verificationComplete ∨ (pass.prepared m).phase = .deleting →
    Throughout pass.visit (Confirmed pass) ({ pass.prepared m with phase := .deleting }, 0)
      (DeletePass.paths (pass.prepared m))

omit [LinearOrder P] in
theorem entered_steady (known : CountersDrift m) (phase : RemovalPhase) :
    Steady m { m with phase := phase } := Steady.relabel ⟨known, Iff.rfl⟩ rfl rfl rfl

theorem apply_match (pass : DeletePass P) (known : CountersDrift m) :
    CountersDrift (pass.apply m).1 ∧
      (CountersMatch (pass.apply m).1 ↔ CountersMatch m ∧ PassConfirmed pass m) := by
  have ready := prepared_steady pass known
  unfold DeletePass.apply
  dsimp only
  split
  · next allowed =>
      have entered : Steady m { pass.prepared m with phase := .deleting } :=
        ready.relabel rfl rfl rfl
      have swept := throughout_iff (J := fun swept => CountersMatch swept.1)
        (K := fun swept => CountersDrift swept.1) (P := Confirmed pass)
        (s := ({ pass.prepared m with phase := .deleting }, 0))
        (l := DeletePass.paths (pass.prepared m)) entered.drift
        (fun swept path drift => (visit_match pass swept path drift).1)
        fun swept path drift => (visit_match pass swept path drift).2
      have drift := foldl_kept (K := fun swept => CountersDrift swept.1)
        (s := ({ pass.prepared m with phase := .deleting }, 0))
        (l := DeletePass.paths (pass.prepared m)) entered.drift
        fun swept path drift => (visit_match pass swept path drift).1
      have closed := fun phase => entered_steady drift phase
      refine ⟨(closed _).drift, (closed _).match_iff.trans (swept.trans
        (and_congr entered.match_iff ?_))⟩
      exact ⟨fun throughout _ => throughout, fun confirmed => confirmed allowed⟩
  · next barred => exact ready.with_ fun allowed => absurd allowed barred

def EventConfirmed (m : DayManifest P) : ManifestEvent P → Prop
  | .pass pass => PassConfirmed pass m
  | _ => True

theorem manifestStep_match (event : ManifestEvent P) (known : CountersDrift m) :
    CountersDrift (manifestStep m event) ∧
      (CountersMatch (manifestStep m event) ↔ CountersMatch m ∧ EventConfirmed m event) := by
  cases event with
  | record path dailyGz status reason fingerprint =>
    exact (recordEntry_steady known path dailyGz status reason fingerprint).with_ trivial
  | pass pass => exact apply_match pass known
  | enter phase => exact (entered_steady known phase).with_ trivial

omit [LinearOrder P] in
theorem new_match : CountersMatch (.new : DayManifest P) := ⟨rfl, rfl⟩

/-- The counters match the entries if and only if no pass came to an entry that it would delete and
whose file had changed or was missing in the member map. -/
theorem counters_match_iff (log : List (ManifestEvent P)) :
    CountersMatch (log.foldl manifestStep .new) ↔
      Throughout manifestStep EventConfirmed .new log := by
  rw [throughout_iff (J := CountersMatch) (K := CountersDrift) (P := EventConfirmed)
    ⟨new_match.verified.ge, fun _ => new_match.skipped⟩
    (fun m event known => (manifestStep_match event known).1)
    fun m event known => (manifestStep_match event known).2]
  exact and_iff_right new_match

theorem changed_file_miscounts :
    ¬ ∀ log : List (ManifestEvent Nat), CountersMatch (log.foldl manifestStep .new) := by
  intro claim
  have right := claim [.record 1 0 "verified" "" (some (5, 9)), .enter .verificationComplete,
    .pass ⟨0, fun _ => true, fun _ => true, fun _ => some (6, 9), fun _ => false, none,
      fun _ => .removed, false, false, true, false, false⟩]
  exact absurd right.verified (by decide +kernel)

end Properties

end PerfStats.Archive
