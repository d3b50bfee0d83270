import PerfStats.Archive.TarFormat

namespace PerfStats.Archive

open Text
open Lib

section Files

structure OpenTar where
  ino : Nat
  bytes : Bytes
  deriving DecidableEq

structure Journal (δ : Type*) where
  oldEnd : Nat
  oldSize : Nat
  ino : Nat
  tail : δ

inductive JournalFile (δ : Type*) where
  | corrupt
  | record (journal : Journal δ)

structure Place (δ : Type*) where
  tar : Option OpenTar
  journal : Option (JournalFile δ)

variable {δ : Type*}

/-- The file-system steps; the journal and a new tar are put in place at once, and `drop` removes
the journal or moves it aside. -/
inductive PlaceStep (δ : Type*) where
  | note (journal : Journal δ)
  | write (change : Write)
  | sync
  | link (tar : OpenTar)
  | drop

def PlaceStep.run : PlaceStep δ → Place δ → Place δ
  | .note journal, place => { place with journal := some (.record journal) }
  | .write change, place =>
    { place with tar := place.tar.map fun tar => ⟨tar.ino, change.run tar.bytes⟩ }
  | .sync, place => place
  | .link tar, place => { place with tar := some tar }
  | .drop, place => { place with journal := none }

inductive PlaceStep.Torn : PlaceStep δ → PlaceStep δ → Prop where
  | write (change : Write) (kept : Nat) : PlaceStep.Torn (.write change) (.write (change.part kept))

abbrev Halted (steps : List (PlaceStep δ)) (before after : Place δ) : Prop :=
  Cut PlaceStep.run PlaceStep.Torn steps before after

end Files

section Recovery

variable {δ : Type*} [DecidableEq δ] (sha256 : Bytes → δ)

/-- `_tail_sha256`, of the `TAIL_HASH_BYTES` bytes before the end. -/
def tailSha256 (file : Bytes) (stop : Nat) : δ := sha256 ((file.take stop).drop (stop - 4096))

/-- `_zero_tail`, with `ZERO_TAIL_MAX`. -/
def zeroTail (file : Bytes) (start : Nat) : Bool :=
  decide (file.length - start ≤ 1048576) && (file.drop start).all (· == 0)

def restoreOldEnd (oldEnd oldSize : Nat) : List (PlaceStep δ) :=
  [.write (.truncate oldEnd),
    if oldEnd < oldSize then .write (.truncate oldSize) else .write (.pwrite oldEnd (zeros 1024)),
    .sync]

inductive Recovery where
  | none
  | orphan
  | stale
  | corrupt
  | recovered
  deriving DecidableEq

/-- What it returns and the steps it takes. -/
def recoverInterruptedAppend (place : Place δ) : Recovery × List (PlaceStep δ) :=
  match place.journal with
  | .none => (.none, [])
  | some .corrupt => (.corrupt, [.drop])
  | some (.record journal) =>
    match place.tar with
    | .none => (.orphan, [.drop])
    | some tar =>
      if tar.ino ≠ journal.ino ∨ tar.bytes.length < journal.oldEnd ∨
          tailSha256 sha256 tar.bytes journal.oldEnd ≠ journal.tail then
        (.stale, [.drop])
      else (.recovered, restoreOldEnd journal.oldEnd journal.oldSize ++ [.drop])

def recovered (place : Place δ) : Place δ :=
  runAll PlaceStep.run (recoverInterruptedAppend sha256 place).2 place

inductive Recovers : Place δ → Place δ → Prop where
  | done (place : Place δ) : Recovers place (recovered sha256 place)
  | again {place between after : Place δ} :
      Halted (recoverInterruptedAppend sha256 place).2 place between →
      Recovers between after → Recovers place after

end Recovery

section Append

variable {δ : Type*} [DecidableEq δ] (sha256 : Bytes → δ) (tar : TarCodec)

structure Source where
  path : Str
  data : Bytes
  clean : '\x00' ∉ path

def Source.name (source : Source) : Str := source.path.dropWhile (· == '/')

def Source.member (source : Source) : Member := ⟨source.name, source.data⟩

/-- The writes, and whether every header could be built. Cloned and copied blocks
are the same bytes. -/
def writeMembers (offset : Nat) : List Source → List Write × Bool
  | [] => ([.pwrite offset (zeros 1024), .truncate (offset + 1024)], true)
  | source :: rest =>
    match buildMemberHeader tar source.name source.data.length offset with
    | none => ([], false)
    | some header =>
      let dataOff := offset + header.length
      let stop := dataOff + source.data.length
      let written := writeMembers (stop + blockPad stop) rest
      (.pwrite offset header :: .pwrite dataOff source.data ::
        .pwrite stop (zeros (blockPad stop)) :: written.1, written.2)

/-- The steps of an append: the unguarded ones, the guarded ones, the one that commits, and those
that undo. -/
structure AppendPlan (δ : Type*) where
  opening : List (PlaceStep δ)
  guarded : List (PlaceStep δ)
  commit : Option (PlaceStep δ)
  rollback : List (PlaceStep δ)

/-- What `clone_append` notes of the tar. -/
def appendJournal (file : OpenTar) (oldEnd : Nat) : Journal δ :=
  ⟨oldEnd, if zeroTail file.bytes oldEnd then file.bytes.length else 0, file.ino,
    tailSha256 sha256 file.bytes oldEnd⟩

/-- `clone_append`; a path that is no regular file or cannot be opened is `none`, and a new tar has
the identity `fresh`. -/
def cloneAppend (place : Place δ) (fresh : Nat) (paths : List (Option Source)) : AppendPlan δ :=
  let sources := paths.filterMap id
  if sources = [] then ⟨[], [], none, []⟩
  else
    let recovery := (recoverInterruptedAppend sha256 place).2
    match (recovered sha256 place).tar with
    | none =>
      let written := writeMembers tar 0 sources
      let file : OpenTar := ⟨fresh, runAll Write.run written.1 []⟩
      ⟨recovery, [], if written.2 then some (.link file) else none, []⟩
    | some file =>
      match logicalEnd tar file.bytes with
      | none => ⟨recovery, [], none, []⟩
      | some oldEnd =>
        let journal := appendJournal sha256 file oldEnd
        let written := writeMembers tar oldEnd sources
        ⟨recovery ++ [.note journal],
          .write (.truncate oldEnd) :: written.1.map .write ++ [.sync],
          if written.2 then some .drop else none,
          restoreOldEnd journal.oldEnd journal.oldSize ++ [.drop]⟩

inductive Attempt (plan : AppendPlan δ) (place : Place δ) : Bool → Place δ → Prop where
  | opening {after : Place δ} : Halted plan.opening place after → Attempt plan place false after
  | guarded {after : Place δ} :
      Halted plan.guarded (runAll PlaceStep.run plan.opening place) after →
      Attempt plan place false after
  | rolledBack {between after : Place δ} :
      Halted plan.guarded (runAll PlaceStep.run plan.opening place) between →
      Halted plan.rollback between after → Attempt plan place false after
  | committed {step : PlaceStep δ} : plan.commit = some step →
      Attempt plan place true
        (step.run (runAll PlaceStep.run plan.guarded (runAll PlaceStep.run plan.opening place)))

end Append

section Undone

variable {δ : Type*} [DecidableEq δ] (sha256 : Bytes → δ)

/-- The journal is of this very tar: of its inode, not past its end, and of the bytes before the
old end, as far as they are hashed. -/
def Owns (journal : Journal δ) (file : OpenTar) : Prop :=
  file.ino = journal.ino ∧ journal.oldEnd ≤ file.bytes.length ∧
    tailSha256 sha256 file.bytes journal.oldEnd = journal.tail

instance (journal : Journal δ) (file : OpenTar) : Decidable (Owns sha256 journal file) :=
  inferInstanceAs (Decidable (_ ∧ _ ∧ _))

def undone (journal : Journal δ) (file : OpenTar) : OpenTar :=
  ⟨file.ino, file.bytes.take journal.oldEnd ++
    zeros (if journal.oldEnd < journal.oldSize then journal.oldSize - journal.oldEnd else 1024)⟩

/-- The tar that counts: an append that its own journal says is not committed does not, and any
other journal says nothing. -/
def settledTar (place : Place δ) : Option OpenTar :=
  match place.tar, place.journal with
  | some file, some (.record journal) =>
    some (if Owns sha256 journal file then undone journal file else file)
  | file, _ => file

variable {sha256} {place after : Place δ} {journal : Journal δ} {file : OpenTar}

theorem settledTar_owned (present : place.tar = some file)
    (noted : place.journal = some (.record journal)) (owns : Owns sha256 journal file) :
    settledTar sha256 place = some (undone journal file) := by
  rw [settledTar, present, noted]
  dsimp only
  rw [if_pos owns]

theorem settledTar_none (gone : place.journal = none) : settledTar sha256 place = place.tar := by
  unfold settledTar
  rw [gone]
  cases place.tar <;> rfl

theorem recover_owned (present : place.tar = some file)
    (noted : place.journal = some (.record journal)) (owns : Owns sha256 journal file) :
    recoverInterruptedAppend sha256 place =
      (.recovered, restoreOldEnd journal.oldEnd journal.oldSize ++ [.drop]) := by
  obtain ⟨same, long, tail⟩ := owns
  unfold recoverInterruptedAppend
  rw [noted, present]
  dsimp only
  rw [if_neg]
  intro foreign
  cases foreign with
  | inl ino => exact ino same
  | inr rest =>
    cases rest with
    | inl less => omega
    | inr hash => exact hash tail

theorem recover_cases (sha256 : Bytes → δ) (place : Place δ) :
    (∃ file journal, place.tar = some file ∧ place.journal = some (.record journal) ∧
      Owns sha256 journal file) ∨
    settledTar sha256 place = place.tar ∧
      ((recoverInterruptedAppend sha256 place).2 = [] ∧ place.journal = none ∨
        (recoverInterruptedAppend sha256 place).2 = [.drop]) := by
  cases noted : place.journal with
  | none =>
    right
    refine ⟨settledTar_none noted, .inl ⟨?_, rfl⟩⟩
    simp [recoverInterruptedAppend, noted]
  | some note =>
    cases note with
    | corrupt =>
      right
      constructor
      · unfold settledTar
        rw [noted]
        cases place.tar <;> rfl
      · simp [recoverInterruptedAppend, noted]
    | record journal =>
      cases present : place.tar with
      | none =>
        right
        simp [settledTar, recoverInterruptedAppend, noted, present]
      | some file =>
        by_cases owns : Owns sha256 journal file
        · exact .inl ⟨file, journal, rfl, rfl, owns⟩
        · right
          constructor
          · unfold settledTar
            rw [noted, present]
            dsimp only
            rw [if_neg owns]
          · right
            unfold recoverInterruptedAppend
            rw [noted, present]
            dsimp only
            rw [if_pos]
            by_contra own
            apply owns
            rw [not_or, not_or, not_not, not_lt, not_not] at own
            exact own

end Undone

section Pending

variable {δ : Type*} {sha256 : Bytes → δ} {place after : Place δ} {journal : Journal δ}
  {file : OpenTar}

def Pending (journal : Journal δ) (file : OpenTar) (place : Place δ) : Prop :=
  place.journal = some (.record journal) ∧ ∃ bytes, place.tar = some ⟨file.ino, bytes⟩ ∧
    journal.oldEnd ≤ bytes.length ∧ bytes.take journal.oldEnd = file.bytes.take journal.oldEnd

theorem Pending.owns {bytes : Bytes} (owns : Owns sha256 journal file)
    (long : journal.oldEnd ≤ bytes.length)
    (same : bytes.take journal.oldEnd = file.bytes.take journal.oldEnd) :
    Owns sha256 journal ⟨file.ino, bytes⟩ := by
  refine ⟨owns.1, long, ?_⟩
  rw [tailSha256, same]
  exact owns.2.2

theorem Pending.settled [DecidableEq δ] (pending : Pending journal file place)
    (owns : Owns sha256 journal file) :
    settledTar sha256 place = some (undone journal file) := by
  obtain ⟨noted, bytes, present, long, same⟩ := pending
  rw [settledTar_owned present noted (Pending.owns owns long same), undone, undone]
  rw [same]

def PlaceStep.Past (n : Nat) : PlaceStep δ → Prop
  | .write change => change.Past n
  | .sync => True
  | _ => False

theorem Pending.step {step : PlaceStep δ} (past : step.Past journal.oldEnd)
    (pending : Pending journal file place) : Pending journal file (step.run place) := by
  obtain ⟨noted, bytes, present, long, same⟩ := pending
  cases step with
  | write change =>
    have kept := (show change.Past journal.oldEnd from past).take long
    refine ⟨noted, change.run bytes, ?_, kept.2, kept.1.trans same⟩
    simp [PlaceStep.run, present]
  | sync => exact ⟨noted, bytes, present, long, same⟩
  | note => cases past
  | link => cases past
  | drop => cases past

theorem Pending.halted {steps : List (PlaceStep δ)}
    (past : ∀ step ∈ steps, step.Past journal.oldEnd) (pending : Pending journal file place)
    (cut : Halted steps place after) : Pending journal file after := by
  apply cut.kept pending
  · intro step member place pending
    exact pending.step (past step member)
  · intro step member part tears place pending
    cases tears with
    | write change kept => exact pending.step (Write.Past.part (past _ member))

theorem restore_past (oldEnd oldSize : Nat) :
    ∀ step ∈ @restoreOldEnd δ oldEnd oldSize, step.Past oldEnd := by
  intro step member
  simp only [restoreOldEnd, List.mem_cons, List.not_mem_nil, or_false] at member
  obtain rfl | rfl | rfl := member
  · exact Nat.le_refl oldEnd
  · split
    next more => exact Nat.le_of_lt more
    next => exact Nat.le_refl oldEnd
  · exact True.intro

theorem restore_run (pending : Pending journal file place) :
    runAll PlaceStep.run (restoreOldEnd journal.oldEnd journal.oldSize) place =
      ⟨some (undone journal file), some (.record journal)⟩ := by
  obtain ⟨noted, bytes, present, long, same⟩ := pending
  have short : (file.bytes.take journal.oldEnd).length = journal.oldEnd := by
    rw [← same]
    exact List.length_take_of_le long
  have cut : (Write.truncate journal.oldEnd).run bytes = file.bytes.take journal.oldEnd := by
    rw [truncate_end _ long, same]
  have start : place = ⟨some ⟨file.ino, bytes⟩, some (.record journal)⟩ := by
    rw [← present, ← noted]
  by_cases more : journal.oldEnd < journal.oldSize
  · have grown : (Write.truncate journal.oldSize).run (file.bytes.take journal.oldEnd) =
        file.bytes.take journal.oldEnd ++ zeros (journal.oldSize - journal.oldEnd) := by
      rw [truncate_grow _ (by omega), short]
    simp [start, restoreOldEnd, more, runAll, PlaceStep.run, cut, grown, undone]
  · have ended : (Write.pwrite journal.oldEnd (zeros 1024)).run (file.bytes.take journal.oldEnd) =
        file.bytes.take journal.oldEnd ++ zeros 1024 := pwrite_at short
    simp [start, restoreOldEnd, more, runAll, PlaceStep.run, cut, ended, undone]

theorem stopped_drop (cut : Halted [.drop] place after) :
    after = place ∨ after = { place with journal := none } := by
  cases cut with
  | stop => exact .inl rfl
  | tear _ _ tears => cases tears
  | next done =>
    cases done
    exact .inr rfl

theorem Pending.restored [DecidableEq δ] (owns : Owns sha256 journal file)
    (pending : Pending journal file place)
    (cut : Halted (restoreOldEnd journal.oldEnd journal.oldSize ++ [.drop]) place after) :
    settledTar sha256 after = some (undone journal file) := by
  cases cut.append with
  | inl first => exact (Pending.halted (restore_past _ _) pending first).settled owns
  | inr last =>
    have whole := Pending.halted (restore_past _ journal.oldSize) pending (.all _ _)
    rw [restore_run pending] at last whole
    obtain rfl | rfl := stopped_drop last
    · exact whole.settled owns
    · exact settledTar_none rfl

theorem Pending.noted (present : place.tar = some file)
    (noted : place.journal = some (.record journal)) (long : journal.oldEnd ≤ file.bytes.length) :
    Pending journal file place := by
  refine ⟨noted, file.bytes, ?_, long, rfl⟩
  rw [present]

end Pending

section Recovering

variable {δ : Type*} [DecidableEq δ] {sha256 : Bytes → δ} {place after : Place δ}

theorem settled_halted (cut : Halted (recoverInterruptedAppend sha256 place).2 place after) :
    settledTar sha256 after = settledTar sha256 place := by
  cases recover_cases sha256 place with
  | inl own =>
    obtain ⟨file, journal, present, noted, owns⟩ := own
    rw [recover_owned present noted owns] at cut
    rw [Pending.restored owns (Pending.noted present noted owns.2.1) cut,
      settledTar_owned present noted owns]
  | inr other =>
    obtain ⟨same, steps⟩ := other
    cases steps with
    | inl quiet =>
      rw [quiet.1] at cut
      cases cut
      rfl
    | inr drop =>
      rw [drop] at cut
      obtain rfl | rfl := stopped_drop cut
      · rfl
      · rw [same]
        exact settledTar_none rfl

theorem recovered_eq (sha256 : Bytes → δ) (place : Place δ) :
    recovered sha256 place = ⟨settledTar sha256 place, none⟩ := by
  have counts := settled_halted (Cut.all (recoverInterruptedAppend sha256 place).2 place)
  have gone : (recovered sha256 place).journal = none := by
    cases recover_cases sha256 place with
    | inl own =>
      obtain ⟨file, journal, present, noted, owns⟩ := own
      rw [recovered, recover_owned present noted owns, runAll_append]
      rfl
    | inr other =>
      rw [recovered]
      cases other.2 with
      | inl quiet =>
        rw [quiet.1]
        exact quiet.2
      | inr drop =>
        rw [drop]
        rfl
  rw [← counts]
  change _ = Place.mk (settledTar sha256 (recovered sha256 place)) none
  rw [settledTar_none gone]
  cases left : recovered sha256 place with
  | mk tar journal =>
    rw [left] at gone
    dsimp only at gone
    rw [gone]

theorem recovers_eq (recovers : Recovers sha256 place after) :
    after = ⟨settledTar sha256 place, none⟩ := by
  induction recovers with
  | done place => exact recovered_eq sha256 place
  | again cut _ ih => rw [ih, settled_halted cut]

end Recovering

section Written

variable {δ : Type*} {sha256 : Bytes → δ} {tar : TarCodec} {file : OpenTar} {oldEnd : Nat}

theorem Source.name_clean (source : Source) : '\x00' ∉ source.name := by
  intro member
  exact source.clean ((List.dropWhile_sublist _).subset member)

theorem writeMembers_past {n : Nat} (offset : Nat) (sources : List Source) (past : n ≤ offset) :
    ∀ write ∈ (writeMembers tar offset sources).1, write.Past n := by
  induction sources generalizing offset with
  | nil =>
    intro write member
    simp only [writeMembers, List.mem_cons, List.not_mem_nil, or_false] at member
    obtain rfl | rfl := member
    · exact past
    · exact Nat.le_add_right_of_le past
  | cons source rest ih =>
    intro write member
    rw [writeMembers] at member
    split at member
    next => cases member
    next header built =>
      simp only [List.mem_cons] at member
      obtain rfl | rfl | rfl | later := member
      · exact past
      · exact Nat.le_add_right_of_le past
      · exact Nat.le_add_right_of_le (Nat.le_add_right_of_le past)
      · apply ih _ _ write later
        omega

theorem guarded_past (sources : List Source) : ∀ step ∈ ((PlaceStep.write
    (.truncate oldEnd) : PlaceStep δ) :: (writeMembers tar oldEnd sources).1.map .write ++ [.sync]),
    step.Past oldEnd := by
  intro step member
  simp only [List.cons_append, List.mem_cons, List.mem_append, List.mem_map,
    List.not_mem_nil, or_false] at member
  obtain rfl | ⟨write, member, rfl⟩ | rfl := member
  · exact Nat.le_refl oldEnd
  · exact writeMembers_past oldEnd sources (Nat.le_refl oldEnd) write member
  · exact True.intro

theorem writeMembers_run (sources : List Source) (file : Bytes) (offset : Nat)
    (length : file.length = offset) (built : (writeMembers tar offset sources).2 = true) :
    ∃ added, runAll Write.run (writeMembers tar offset sources).1 file = file ++ added ∧
      tarMembers tar added = sources.map Source.member ∧
      listedMembers tar added = sources.map Source.member := by
  induction sources generalizing file offset with
  | nil =>
    refine ⟨zeros 1024, ?_, tarMembers_zeros 1024, listedMembers_zeros 1024⟩
    rw [writeMembers, runAll_cons, runAll_cons, runAll_nil, pwrite_at length, truncate_end]
    · apply List.take_of_length_le
      simp [length]
    · simp [length]
  | cons source rest ih =>
    rw [writeMembers] at built ⊢
    split
    next none => rw [none] at built; cases built
    next header made =>
      rw [made] at built
      have aligned := (buildMemberHeaderFrom_built made).2
      have pad := blockPad_add (offset + header.length) source.data.length aligned
      have first : (file ++ header).length = offset + header.length := by
        rw [List.length_append, length]
      have second : (file ++ header ++ source.data).length =
          offset + header.length + source.data.length := by
        rw [List.length_append, first]
      have joined : file ++ header ++ source.data ++
          zeros (blockPad (offset + header.length + source.data.length)) =
            file ++ memberBytes header source.data := by
        simp [memberBytes, pad]
      have whole : (file ++ memberBytes header source.data).length =
          offset + header.length + source.data.length +
            blockPad (offset + header.length + source.data.length) := by
        rw [← joined, List.length_append, second, zeros_length]
      obtain ⟨added, written, walked, listed⟩ := ih _ _ whole built
      have read := readMember_bytes (buildMemberHeader_read made source.name_clean) added
      refine ⟨memberBytes header source.data ++ added, ?_, ?_, ?_⟩
      · rw [runAll_cons, runAll_cons, runAll_cons, pwrite_at length, pwrite_at first,
          pwrite_at second, joined, written, List.append_assoc]
      · rw [tarMembers_member read, List.drop_left, walked]
        rfl
      · rw [listedMembers_member read, List.drop_left, listed]
        rfl

theorem appendJournal_owns (sha256 : Bytes → δ) (long : oldEnd ≤ file.bytes.length) :
    Owns sha256 (appendJournal sha256 file oldEnd) file := ⟨rfl, long, rfl⟩

theorem runAll_writes (writes : List Write) (file : OpenTar) (note : Option (JournalFile δ)) :
    runAll PlaceStep.run (writes.map .write) ⟨some file, note⟩ =
      ⟨some ⟨file.ino, runAll Write.run writes file.bytes⟩, note⟩ := by
  induction writes generalizing file with
  | nil => rfl
  | cons write writes ih => exact ih ⟨file.ino, write.run file.bytes⟩

theorem attempt_idle {place between : Place δ}
    (attempt : Attempt ⟨[], [], none, []⟩ place false between) :
    between = place := by
  cases attempt with
  | opening cut =>
    cases cut
    rfl
  | guarded cut =>
    cases cut
    rfl
  | rolledBack cut back =>
    cases cut
    cases back
    rfl

def linkTar (tar : TarCodec) (fresh : Nat) (sources : List Source) : Option (PlaceStep δ) :=
  let written := writeMembers tar 0 sources
  if written.2 then some (.link ⟨fresh, runAll Write.run written.1 []⟩) else none

theorem linkTar_eq {fresh : Nat} {sources : List Source} {step : PlaceStep δ}
    (links : linkTar tar fresh sources = some step) :
    ∃ left, step = .link left ∧ tarMembers tar left.bytes = sources.map Source.member ∧
      listedMembers tar left.bytes = sources.map Source.member := by
  rw [linkTar] at links
  split at links
  next built =>
    cases links
    obtain ⟨added, written, walked, listed⟩ := writeMembers_run sources [] 0 rfl built
    refine ⟨_, rfl, ?_⟩
    rw [written, List.nil_append]
    exact ⟨walked, listed⟩
  next => cases links

end Written

section Outcomes

variable (tar : TarCodec)

/-- The tar once recovered: the bytes below the old end stay, and either reader finds the old
members, followed by the new ones where the append had committed. -/
def AtomicOutcome (sources : List Source) (committed : Bool) (old new : Option OpenTar) : Prop :=
  let added := if committed then sources.map Source.member else []
  match old, new with
  | none, none => committed = false
  | none, some left => committed = true ∧ tarMembers tar left.bytes = added ∧
      listedMembers tar left.bytes = added
  | some _, none => False
  | some file, some left => left.ino = file.ino ∧
      (∀ oldEnd, logicalEnd tar file.bytes = some oldEnd →
        left.bytes.take oldEnd = file.bytes.take oldEnd) ∧
      tarMembers tar left.bytes = tarMembers tar file.bytes ++ added ∧
      listedMembers tar left.bytes = listedMembers tar file.bytes ++ added

variable {δ : Type*} {tar} {file : OpenTar} {oldEnd : Nat}

variable {sources : List Source}

theorem outcome_same (old : Option OpenTar) : AtomicOutcome tar sources false old old := by
  cases old with
  | none => rfl
  | some file => simp [AtomicOutcome]

theorem outcome_undone {journal : Journal δ}
    (found : logicalEnd tar file.bytes = some journal.oldEnd) :
    AtomicOutcome tar sources false (some file) (some (undone journal file)) ↔
      listedMembers tar file.bytes = tarMembers tar file.bytes := by
  have whole : (file.bytes.take journal.oldEnd).length = journal.oldEnd :=
    List.length_take_of_le (logicalEnd_le found)
  have same : (undone journal file).bytes.take journal.oldEnd =
      file.bytes.take journal.oldEnd := by
    exact List.take_left' whole
  have walked : tarMembers tar (undone journal file).bytes = tarMembers tar file.bytes := by
    rw [undone]
    rw [tarMembers_append found, tarMembers_zeros, List.append_nil]
  have listed : listedMembers tar (undone journal file).bytes = tarMembers tar file.bytes := by
    rw [undone]
    rw [listedMembers_append found, listedMembers_zeros, List.append_nil]
  constructor
  · intro outcome
    have kept := outcome.2.2.2
    simp only [Bool.false_eq_true, if_false, List.append_nil] at kept
    exact kept.symm.trans listed
  · intro agree
    refine ⟨rfl, ?_, ?_, ?_⟩
    · intro oldEnd again
      rw [found] at again
      cases again
      exact same
    · simpa using walked
    · simpa [agree] using listed

theorem outcome_committed {added : Bytes} (found : logicalEnd tar file.bytes = some oldEnd)
    (walked : tarMembers tar added = sources.map Source.member)
    (listed : listedMembers tar added = sources.map Source.member)
    (agree : listedMembers tar file.bytes = tarMembers tar file.bytes) :
    AtomicOutcome tar sources true (some file)
      (some ⟨file.ino, file.bytes.take oldEnd ++ added⟩) := by
  refine ⟨rfl, ?_, ?_, ?_⟩
  · intro again foundAgain
    rw [found] at foundAgain
    cases foundAgain
    exact List.take_left' (List.length_take_of_le (logicalEnd_le found))
  · simp [tarMembers_append found, walked]
  · rw [listedMembers_append found, listed, agree]
    simp

end Outcomes

section Atomic

variable {δ : Type*} [DecidableEq δ] (sha256 : Bytes → δ) (tar : TarCodec)

/-- Whatever happens to an append, the recovery brings the tar to an atomic outcome; a journal of
another tar changes nothing. -/
structure CrashAtomic (place : Place δ) (fresh : Nat) (paths : List (Option Source)) : Prop where
  outcome : ∀ committed between after,
    Attempt (cloneAppend sha256 tar place fresh paths) place committed between →
      Recovers sha256 between after →
      AtomicOutcome tar (paths.filterMap id) committed (settledTar sha256 place) after.tar
  foreign : ∀ after, (∀ file journal, place.tar = some file →
    place.journal = some (.record journal) → ¬ Owns sha256 journal file) →
    Recovers sha256 place after → after.tar = place.tar

variable {sha256} {tar} {place between after : Place δ} {fresh : Nat} {paths : List (Option Source)}
  {file : OpenTar} {oldEnd : Nat} {sources : List Source}

theorem settled_recovered (place : Place δ) :
    settledTar sha256 (recovered sha256 place) = settledTar sha256 place := by
  rw [recovered_eq]
  exact settledTar_none rfl

theorem attempt_unwritten {commit : Option (PlaceStep δ)}
    (attempt : Attempt ⟨(recoverInterruptedAppend sha256 place).2, [], commit, []⟩ place false
      between) : settledTar sha256 between = settledTar sha256 place := by
  cases attempt with
  | opening cut => exact settled_halted cut
  | guarded cut =>
    cases cut
    exact settled_recovered place
  | rolledBack cut back =>
    cases cut
    cases back
    exact settled_recovered place

def inPlacePlan (sha256 : Bytes → δ) (tar : TarCodec) (place : Place δ) (file : OpenTar)
    (oldEnd : Nat) (sources : List Source) : AppendPlan δ :=
  let journal := appendJournal sha256 file oldEnd
  let written := writeMembers tar oldEnd sources
  ⟨(recoverInterruptedAppend sha256 place).2 ++ [.note journal],
    .write (.truncate oldEnd) :: written.1.map .write ++ [.sync],
    if written.2 then some .drop else none, restoreOldEnd journal.oldEnd journal.oldSize ++ [.drop]⟩

theorem opened (present : settledTar sha256 place = some file) (journal : Journal δ) :
    runAll PlaceStep.run ((recoverInterruptedAppend sha256 place).2 ++ [.note journal]) place =
      ⟨some file, some (.record journal)⟩ := by
  have start := recovered_eq sha256 place
  rw [present] at start
  rw [runAll_append]
  change PlaceStep.run (.note journal) (recovered sha256 place) = _
  rw [start]
  rfl

theorem attempt_inPlace (present : settledTar sha256 place = some file)
    (long : oldEnd ≤ file.bytes.length)
    (attempt : Attempt (inPlacePlan sha256 tar place file oldEnd sources) place false between) :
    settledTar sha256 between = settledTar sha256 place ∨
      settledTar sha256 between = some (undone (appendJournal sha256 file oldEnd) file) := by
  have owns := appendJournal_owns sha256 long
  have start : Pending (appendJournal sha256 file oldEnd) file
      (runAll PlaceStep.run (inPlacePlan sha256 tar place file oldEnd sources).opening place) := by
    rw [inPlacePlan, opened present]
    exact Pending.noted rfl rfl long
  cases attempt with
  | opening cut =>
    cases cut.append with
    | inl first => exact .inl (settled_halted first)
    | inr note =>
      cases note with
      | stop => exact .inl (settled_recovered place)
      | tear _ _ tears => cases tears
      | next done =>
        cases done
        right
        have pending := start
        rw [inPlacePlan, runAll_append] at pending
        exact pending.settled owns
  | guarded cut => exact .inr ((Pending.halted (guarded_past sources) start cut).settled owns)
  | rolledBack cut back =>
    exact .inr ((Pending.halted (guarded_past sources) start cut).restored owns back)

theorem attempt_committed (present : settledTar sha256 place = some file)
    (found : logicalEnd tar file.bytes = some oldEnd)
    (attempt : Attempt (inPlacePlan sha256 tar place file oldEnd sources) place true between) :
    ∃ added, between = ⟨some ⟨file.ino, file.bytes.take oldEnd ++ added⟩, none⟩ ∧
      tarMembers tar added = sources.map Source.member ∧
      listedMembers tar added = sources.map Source.member := by
  cases attempt with
  | committed commits =>
    simp only [inPlacePlan] at commits
    split at commits
    next built =>
      cases commits
      have long := logicalEnd_le found
      obtain ⟨added, written, walked, listed⟩ := writeMembers_run sources
        (file.bytes.take oldEnd) oldEnd (List.length_take_of_le long) built
      refine ⟨added, ?_, walked, listed⟩
      have cut : PlaceStep.run (.write (.truncate oldEnd))
          ⟨some file, some (.record (appendJournal sha256 file oldEnd))⟩ =
          ⟨some ⟨file.ino, file.bytes.take oldEnd⟩,
            some (.record (appendJournal sha256 file oldEnd))⟩ := by
        simp [PlaceStep.run, truncate_end _ long]
      rw [inPlacePlan]
      rw [opened present, List.cons_append, runAll_cons, cut, runAll_append, runAll_writes,
        written]
      rfl
    next => cases commits

theorem cloneAppend_inPlace (some_source : paths.filterMap id ≠ [])
    (present : settledTar sha256 place = some file)
    (found : logicalEnd tar file.bytes = some oldEnd) :
    cloneAppend sha256 tar place fresh paths =
      inPlacePlan sha256 tar place file oldEnd (paths.filterMap id) := by
  rw [cloneAppend]
  rw [if_neg some_source, recovered_eq, present]
  dsimp only
  rw [found]
  rfl

theorem cloneAppend_idle (idle : paths.filterMap id = []) :
    cloneAppend sha256 tar place fresh paths = ⟨[], [], none, []⟩ := by
  rw [cloneAppend]
  rw [if_pos idle]

theorem cloneAppend_unwalkable (some_source : paths.filterMap id ≠ [])
    (present : settledTar sha256 place = some file) (lost : logicalEnd tar file.bytes = none) :
    cloneAppend sha256 tar place fresh paths =
      ⟨(recoverInterruptedAppend sha256 place).2, [], none, []⟩ := by
  rw [cloneAppend]
  rw [if_neg some_source, recovered_eq, present]
  dsimp only
  rw [lost]

theorem cloneAppend_missing (some_source : paths.filterMap id ≠ [])
    (gone : settledTar sha256 place = none) :
    cloneAppend sha256 tar place fresh paths =
      ⟨(recoverInterruptedAppend sha256 place).2, [], linkTar tar fresh (paths.filterMap id), []⟩ := by
  rw [cloneAppend]
  rw [if_neg some_source, recovered_eq, gone]
  rfl

/-- The condition of the result: in a tar that is to be appended to, no member stands behind the
first block that is no header. -/
def NothingBehind (sha256 : Bytes → δ) (tar : TarCodec) (place : Place δ)
    (paths : List (Option Source)) : Prop :=
  ∀ file oldEnd, paths.filterMap id ≠ [] → settledTar sha256 place = some file →
    logicalEnd tar file.bytes = some oldEnd →
    listedMembers tar file.bytes = tarMembers tar file.bytes

theorem outcome_aborted (behind : NothingBehind sha256 tar place paths)
    (attempt : Attempt (cloneAppend sha256 tar place fresh paths) place false between) :
    AtomicOutcome tar (paths.filterMap id) false (settledTar sha256 place)
      (settledTar sha256 between) := by
  have same : settledTar sha256 between = settledTar sha256 place →
      AtomicOutcome tar (paths.filterMap id) false (settledTar sha256 place)
        (settledTar sha256 between) := by
    intro equal
    rw [equal]
    exact outcome_same _
  by_cases idle : paths.filterMap id = []
  · rw [cloneAppend_idle idle] at attempt
    apply same
    rw [attempt_idle attempt]
  · cases present : settledTar sha256 place with
    | none =>
      rw [cloneAppend_missing idle present] at attempt
      exact present ▸ same (attempt_unwritten attempt)
    | some file =>
      cases found : logicalEnd tar file.bytes with
      | none =>
        rw [cloneAppend_unwalkable idle present found] at attempt
        exact present ▸ same (attempt_unwritten attempt)
      | some oldEnd =>
        rw [cloneAppend_inPlace idle present found] at attempt
        cases attempt_inPlace present (logicalEnd_le found) attempt with
        | inl equal => exact present ▸ same equal
        | inr undoes =>
          rw [undoes]
          exact (outcome_undone found).mpr (behind file oldEnd idle present found)

theorem outcome_done (behind : NothingBehind sha256 tar place paths)
    (attempt : Attempt (cloneAppend sha256 tar place fresh paths) place true between) :
    AtomicOutcome tar (paths.filterMap id) true (settledTar sha256 place)
      (settledTar sha256 between) := by
  by_cases idle : paths.filterMap id = []
  · rw [cloneAppend_idle idle] at attempt
    cases attempt with
    | committed commits => cases commits
  · cases present : settledTar sha256 place with
    | none =>
      rw [cloneAppend_missing idle present] at attempt
      cases attempt with
      | committed commits =>
        obtain ⟨left, rfl, walked, listed⟩ := linkTar_eq commits
        have start := recovered_eq sha256 place
        change runAll PlaceStep.run (recoverInterruptedAppend sha256 place).2 place = _ at start
        rw [runAll_nil, start, settledTar_none rfl]
        exact ⟨rfl, walked, listed⟩
    | some file =>
      cases found : logicalEnd tar file.bytes with
      | none =>
        rw [cloneAppend_unwalkable idle present found] at attempt
        cases attempt with
        | committed commits => cases commits
      | some oldEnd =>
        rw [cloneAppend_inPlace idle present found] at attempt
        obtain ⟨added, rfl, walked, listed⟩ := attempt_committed present found attempt
        exact outcome_committed found walked listed (behind file oldEnd idle present found)

theorem CrashAtomic.nothingBehind (atomic : CrashAtomic sha256 tar place fresh paths) :
    NothingBehind sha256 tar place paths := by
  intro file oldEnd some_source present found
  have killed : Attempt (cloneAppend sha256 tar place fresh paths) place false
      ⟨some file, some (.record (appendJournal sha256 file oldEnd))⟩ := by
    rw [cloneAppend_inPlace some_source present found]
    apply Attempt.guarded
    rw [inPlacePlan, opened present]
    exact .stop _ _
  have counts : settledTar sha256 ⟨some file, some (.record (appendJournal sha256 file oldEnd))⟩ =
      some (undone (appendJournal sha256 file oldEnd) file) :=
    settledTar_owned rfl rfl (appendJournal_owns sha256 (logicalEnd_le found))
  have outcome := atomic.outcome false _ _ killed (.done _)
  rw [recovered_eq, counts, present] at outcome
  exact (outcome_undone found).mp outcome

theorem NothingBehind.crashAtomic (behind : NothingBehind sha256 tar place paths) :
    CrashAtomic sha256 tar place fresh paths := by
  constructor
  · intro committed between after attempt recovers
    rw [recovers_eq recovers]
    cases committed with
    | false => exact outcome_aborted behind attempt
    | true => exact outcome_done behind attempt
  · intro after foreign recovers
    rw [recovers_eq recovers]
    cases recover_cases sha256 place with
    | inl own =>
      obtain ⟨file, journal, present, noted, owns⟩ := own
      exact absurd owns (foreign file journal present noted)
    | inr other => exact other.1

/-- An append is crash-atomic just where no member of the tar it starts from stands behind a block
that is no header. -/
theorem append_atomic_iff (sha256 : Bytes → δ) (tar : TarCodec) (place : Place δ) (fresh : Nat)
    (paths : List (Option Source)) :
    CrashAtomic sha256 tar place fresh paths ↔ NothingBehind sha256 tar place paths :=
  ⟨CrashAtomic.nothingBehind, NothingBehind.crashAtomic⟩

end Atomic

end PerfStats.Archive
