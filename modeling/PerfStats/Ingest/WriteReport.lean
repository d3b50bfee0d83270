import PerfStats.Ingest.WritePayload

namespace PerfStats.Ingest

open Lib

section Faults

/-- The row loop ends at row `i`: a desync that is not the first, or whose retry fails. -/
def Breaks (fault : Nat → Nat → RowFault) (resetUsed : Bool) (i : Nat) : Prop :=
  fault i 0 = .desync ∧
    (resetUsed = true ∨ (∃ j < i, fault j 0 = .desync) ∨ fault i 1 ≠ .none)

def Saves (fault : Nat → Nat → RowFault) (resetUsed : Bool) (i : Nat) : Prop :=
  (∀ j ≤ i, ¬ Breaks fault resetUsed j) ∧ fault i 0 ≠ .error

def FailsWith (fault : Nat → BulkFault) (count : Nat) (met : BulkFault) : Prop :=
  ∃ i < count, fault i = met ∧ ∀ j < i, fault j = .none

variable (fault : Nat → Nat → RowFault) (used later : Bool)

theorem breaks_zero :
    Breaks fault used 0 ↔ fault 0 0 = .desync ∧ (used = true ∨ fault 0 1 ≠ .none) := by
  simp [Breaks]

theorem breaks_succ (i : Nat) (flag : later = true ↔ used = true ∨ fault 0 0 = .desync) :
    Breaks fault used (i + 1) ↔ Breaks (fun i => fault (i + 1)) later i := by
  have earlier : (∃ j < i + 1, fault j 0 = .desync) ↔
      fault 0 0 = .desync ∨ ∃ j < i, fault (j + 1) 0 = .desync := by
    constructor
    · intro found
      rcases found with ⟨j, small, desync⟩
      cases j with
      | zero => exact .inl desync
      | succ j => exact .inr ⟨j, by omega, desync⟩
    · intro found
      rcases found with desync | ⟨j, small, desync⟩
      · exact ⟨0, by omega, desync⟩
      · exact ⟨j + 1, by omega, desync⟩
  simp only [Breaks, earlier, flag, or_assoc]

theorem saves_zero : Saves fault used 0 ↔ ¬ Breaks fault used 0 ∧ fault 0 0 ≠ .error := by
  simp [Saves]

theorem saves_succ (i : Nat) (flag : later = true ↔ used = true ∨ fault 0 0 = .desync) :
    Saves fault used (i + 1) ↔
      ¬ Breaks fault used 0 ∧ Saves (fun i => fault (i + 1)) later i := by
  have split : (∀ j ≤ i + 1, ¬ Breaks fault used j) ↔
      ¬ Breaks fault used 0 ∧ ∀ j ≤ i, ¬ Breaks (fun i => fault (i + 1)) later j := by
    constructor
    · intro none
      refine ⟨none 0 (by omega), fun j small => ?_⟩
      rw [← breaks_succ fault used later j flag]
      exact none (j + 1) (by omega)
    · intro none j small
      cases j with
      | zero => exact none.1
      | succ j =>
        rw [breaks_succ fault used later j flag]
        exact none.2 j (by omega)
  simp only [Saves, split]
  tauto

theorem forall_saves_cons (count : Nat)
    (flag : later = true ↔ used = true ∨ fault 0 0 = .desync) :
    (∀ i < count + 1, Saves fault used i) ↔
      (¬ Breaks fault used 0 ∧ fault 0 0 ≠ .error) ∧
        ∀ i < count, Saves (fun i => fault (i + 1)) later i := by
  constructor
  · intro all
    refine ⟨(saves_zero fault used).mp (all 0 (by omega)), fun i small => ?_⟩
    exact ((saves_succ fault used later i flag).mp (all (i + 1) (by omega))).2
  · intro all i small
    cases i with
    | zero => exact (saves_zero fault used).mpr all.1
    | succ i => exact (saves_succ fault used later i flag).mpr ⟨all.1.1, all.2 i (by omega)⟩

theorem failsWith_succ (fault : Nat → BulkFault) (count : Nat) (met : BulkFault)
    (first : fault 0 = .none) (failure : met ≠ .none) :
    FailsWith fault (count + 1) met ↔ FailsWith (fun i => fault (i + 1)) count met := by
  constructor
  · intro found
    rcases found with ⟨i, small, fails, clean⟩
    cases i with
    | zero => exact absurd (first.symm.trans fails).symm failure
    | succ i => exact ⟨i, by omega, fails, fun j less => clean (j + 1) (by omega)⟩
  · intro found
    rcases found with ⟨i, small, fails, clean⟩
    refine ⟨i + 1, by omega, fails, fun j less => ?_⟩
    cases j with
    | zero => exact first
    | succ j => exact clean j (by omega)

theorem failsWith_of_first (fault : Nat → BulkFault) (count : Nat) (met : BulkFault)
    (first : fault 0 ≠ .none) : FailsWith fault (count + 1) met ↔ fault 0 = met := by
  constructor
  · intro found
    rcases found with ⟨i, _, fails, clean⟩
    cases i with
    | zero => exact fails
    | succ i => exact absurd (clean 0 (by omega)) first
  · intro fails
    exact ⟨0, by omega, fails, fun j less => absurd less (by omega)⟩

end Faults

variable {κ : Type}

def SavedBy (fault : Nat → Nat → RowFault) (resetUsed : Bool) (rows : List (Row κ)) (k : κ) :
    Prop :=
  ∃ i r, rows[i]? = some r ∧ r.key = k ∧ Saves fault resetUsed i

theorem savedBy_cons (fault : Nat → Nat → RowFault) (used later : Bool) (row : Row κ)
    (rest : List (Row κ)) (k : κ)
    (flag : later = true ↔ used = true ∨ fault 0 0 = .desync) :
    SavedBy fault used (row :: rest) k ↔
      ¬ Breaks fault used 0 ∧
        ((row.key = k ∧ fault 0 0 ≠ .error) ∨ SavedBy (fun i => fault (i + 1)) later rest k) := by
  constructor
  · intro found
    rcases found with ⟨i, r, present, same, saves⟩
    cases i with
    | zero =>
      simp only [List.getElem?_cons_zero, Option.some.injEq] at present
      rw [saves_zero] at saves
      exact ⟨saves.1, .inl ⟨present ▸ same, saves.2⟩⟩
    | succ i =>
      rw [saves_succ fault used later i flag] at saves
      exact ⟨saves.1, .inr ⟨i, r, present, same, saves.2⟩⟩
  · intro found
    rcases found with ⟨runs, ⟨same, fine⟩ | ⟨i, r, present, same, saves⟩⟩
    · exact ⟨0, row, rfl, same, (saves_zero fault used).mpr ⟨runs, fine⟩⟩
    · exact ⟨i + 1, r, present, same, (saves_succ fault used later i flag).mpr ⟨runs, saves⟩⟩

theorem savedBy_of_all (fault : Nat → Nat → RowFault) (used : Bool) (rows : List (Row κ))
    (all : ∀ i < rows.length, Saves fault used i) (r : Row κ) (member : r ∈ rows) :
    SavedBy fault used rows r.key := by
  rcases List.getElem?_of_mem member with ⟨i, at_i⟩
  exact ⟨i, r, at_i, rfl, all i (List.getElem?_eq_some_iff.mp at_i).1⟩

theorem mem_frameJids (rows : List (Row κ)) (j : Str) :
    j ∈ frameJids rows ↔ j ≠ lit "-" ∧ ∃ r ∈ rows, r.jid = some j := by
  simp only [frameJids, List.mem_filter, List.mem_filterMap, decide_eq_true_eq]
  tauto

def Payload.jids (p : Payload κ) : List Str :=
  ((p.hostRows ++ p.procRows).filterMap Row.jid).filter fun j => decide (j ≠ lit "-")

def Stats.isMapping : Stats κ → Bool
  | .mapping _ => true
  | _ => false

theorem mem_invalidationJids (p : Payload κ) (copyHost : Bool)
    (noCopy : ∀ hostCopy procCopy, p.stats ≠ .copyBytes hostCopy procCopy)
    (j : Str) (member : j ∈ p.jids) :
    j ∈ p.invalidationJids copyHost ↔
      (copyHost = true → p.stats.isMapping = true →
        j ∈ [[], lit "nan", lit "None"] → ∃ r ∈ p.procStats, r.jid = some j) := by
  simp only [Payload.jids, List.mem_filter, List.mem_filterMap, List.mem_append,
    decide_eq_true_eq] at member
  rcases member with ⟨⟨r, inside, hasJid⟩, notIdle⟩
  rw [Payload.invalidationJids, List.mem_append, mem_frameJids]
  cases stats : p.stats with
  | copyBytes hostCopy procCopy => exact absurd stats (noCopy _ _)
  | frame rows =>
    simp only [Payload.hostRows, Payload.procRows, stats] at inside
    have found : (∃ r ∈ rows, r.jid = some j) ∨ ∃ r ∈ p.procStats, r.jid = some j :=
      inside.imp (⟨r, ·, hasJid⟩) (⟨r, ·, hasJid⟩)
    simp only [mem_frameJids, Stats.isMapping, Bool.false_eq_true, false_imp_iff, implies_true,
      iff_true]
    exact found.imp (⟨notIdle, ·⟩) (⟨notIdle, ·⟩)
  | mapping rows =>
    simp only [Payload.hostRows, Payload.procRows, stats] at inside
    have found : (∃ r ∈ rows, r.jid = some j) ∨ ∃ r ∈ p.procStats, r.jid = some j :=
      inside.imp (⟨r, ·, hasJid⟩) (⟨r, ·, hasJid⟩)
    cases copyHost with
    | false =>
      simp only [Bool.false_eq_true, if_false, mem_frameJids, false_imp_iff, iff_true]
      exact found.imp (⟨notIdle, ·⟩) (⟨notIdle, ·⟩)
    | true =>
      simp only [if_true, mappingJids, List.mem_filter, List.mem_filterMap,
        decide_eq_true_eq, Stats.isMapping, List.mem_cons, List.not_mem_nil, or_false,
        forall_true_left]
      generalize (∃ r ∈ rows, r.jid = some j) = inHost at *
      generalize (∃ r ∈ p.procStats, r.jid = some j) = inProc at *
      tauto

variable [DecidableEq κ]

section Statements

def WrittenBy (fault : Nat → BulkFault) (batches : List (List (Row κ))) (k : κ) : Prop :=
  ∃ i batch, batches[i]? = some batch ∧ k ∈ keys batch ∧ ∀ j ≤ i, fault j = .none

variable (fault : Nat → BulkFault) (batches : List (List (Row κ))) (db : Finset κ)

theorem writtenBy_cons (batch : List (Row κ)) (rest : List (List (Row κ))) (k : κ) :
    WrittenBy fault (batch :: rest) k ↔
      fault 0 = .none ∧ (k ∈ keys batch ∨ WrittenBy (fun i => fault (i + 1)) rest k) := by
  constructor
  · intro found
    rcases found with ⟨i, b, present, member, clean⟩
    refine ⟨clean 0 (by omega), ?_⟩
    cases i with
    | zero =>
      simp only [List.getElem?_cons_zero, Option.some.injEq] at present
      exact .inl (present ▸ member)
    | succ i => exact .inr ⟨i, b, present, member, fun j small => clean (j + 1) (by omega)⟩
  · intro found
    rcases found with ⟨first, member | ⟨i, b, present, member, clean⟩⟩
    · refine ⟨0, batch, rfl, member, fun j small => ?_⟩
      rwa [Nat.le_zero.mp small]
    · refine ⟨i + 1, b, present, member, fun j small => ?_⟩
      cases j with
      | zero => exact first
      | succ j => exact clean j (by omega)

theorem mem_writeBatches (k : κ) :
    k ∈ (writeBatches fault batches db).1 ↔ k ∈ db ∨ WrittenBy fault batches k := by
  induction batches generalizing fault db with
  | nil => simp [writeBatches, WrittenBy]
  | cons batch rest ih =>
    rw [writtenBy_cons]
    cases first : fault 0 with
    | none =>
      simp only [writeBatches, first, ih, Finset.mem_union, true_and]
      tauto
    | error => simp [writeBatches, first]
    | unavailable => simp [writeBatches, first]

theorem writeBatches_clean :
    (writeBatches fault batches db).2 = .none ↔ ∀ i < batches.length, fault i = .none := by
  induction batches generalizing fault db with
  | nil => simp [writeBatches]
  | cons batch rest ih =>
    have split : (∀ i < (batch :: rest).length, fault i = .none) ↔
        fault 0 = .none ∧ ∀ i < rest.length, fault (i + 1) = .none := by
      rw [List.length_cons]
      constructor
      · intro clean
        exact ⟨clean 0 (by omega), fun i small => clean (i + 1) (by omega)⟩
      · intro clean i small
        cases i with
        | zero => exact clean.1
        | succ i => exact clean.2 i (by omega)
    rw [split]
    cases first : fault 0 with
    | none => simp only [writeBatches, first, ih, true_and]
    | error => simp [writeBatches, first]
    | unavailable => simp [writeBatches, first]

theorem writeBatches_fails (met : BulkFault) (failure : met ≠ .none) :
    (writeBatches fault batches db).2 = met ↔ FailsWith fault batches.length met := by
  induction batches generalizing fault db with
  | nil => simp [writeBatches, FailsWith, failure.symm]
  | cons batch rest ih =>
    by_cases first : fault 0 = .none
    · rw [List.length_cons, failsWith_succ fault _ met first failure]
      simp only [writeBatches, first, ih]
    · rw [List.length_cons, failsWith_of_first fault _ met first]
      cases h : fault 0 <;> simp_all [writeBatches]

theorem writtenBy_of_clean (step : Nat) (rows : List (Row κ))
    (clean : ∀ i < (slices step rows).length, fault i = .none) (r : Row κ) (member : r ∈ rows) :
    WrittenBy fault (slices step rows) r.key := by
  rw [← slices_flatten step rows, List.mem_flatten] at member
  rcases member with ⟨batch, present, inside⟩
  rcases List.getElem?_of_mem present with ⟨i, at_i⟩
  have small : i < (slices step rows).length := (List.getElem?_eq_some_iff.mp at_i).1
  exact ⟨i, batch, at_i, mem_keys.mpr ⟨r, inside, rfl⟩, fun j le => clean j (by omega)⟩

end Statements

section Loop

theorem insertRowsIndividually_cons (upsert : Bool) (fault : Nat → Nat → RowFault) (used : Bool)
    (row : Row κ) (rest : List (Row κ)) (db : Finset κ) :
    let result := insertRowsIndividually upsert fault used (row :: rest) db
    let tail := insertRowsIndividually upsert (fun i => fault (i + 1))
      (used || decide (fault 0 0 = .desync)) rest
    (Breaks fault used 0 ∧ result.db = db ∧ result.nonIntegrityErrors = 1) ∨
    (¬ Breaks fault used 0 ∧ fault 0 0 ≠ .error ∧
      result.db = (tail (insert row.key db)).db ∧
      result.nonIntegrityErrors = (tail (insert row.key db)).nonIntegrityErrors) ∨
    (¬ Breaks fault used 0 ∧ fault 0 0 = .error ∧ result.db = (tail db).db ∧
      result.nonIntegrityErrors = (tail db).nonIntegrityErrors + 1) := by
  intro result tail
  have kept : ∀ present : row.key ∈ db, insert row.key db = db := Finset.insert_eq_of_mem
  simp only [result, tail, breaks_zero]
  cases first : fault 0 0 with
  | none =>
    by_cases present : row.key ∈ db <;> cases upsert <;>
      simp [insertRowsIndividually, saveRow, first, present, kept, LoopResult.violation]
  | error => simp [insertRowsIndividually, saveRow, first, LoopResult.failure]
  | desync =>
    cases used with
    | true => simp [insertRowsIndividually, saveRow, first]
    | false =>
      cases again : fault 0 1 with
      | none =>
        by_cases present : row.key ∈ db <;> cases upsert <;>
          simp [insertRowsIndividually, saveRow, first, again, present, kept,
            LoopResult.violation]
      | desync => simp [insertRowsIndividually, saveRow, first, again]
      | error => simp [insertRowsIndividually, saveRow, first, again]

theorem mem_insertRowsIndividually (upsert : Bool) (fault : Nat → Nat → RowFault) (used : Bool)
    (rows : List (Row κ)) (db : Finset κ) (k : κ) :
    k ∈ (insertRowsIndividually upsert fault used rows db).db ↔
      k ∈ db ∨ SavedBy fault used rows k := by
  induction rows generalizing fault used db with
  | nil => simp [insertRowsIndividually, SavedBy]
  | cons row rest ih =>
    have flag : (used || decide (fault 0 0 = .desync)) = true ↔
        used = true ∨ fault 0 0 = .desync := by simp
    rw [savedBy_cons fault used _ row rest k flag]
    rcases insertRowsIndividually_cons upsert fault used row rest db with
      ⟨breaks, same, _⟩ | ⟨runs, fine, same, _⟩ | ⟨runs, error, same, _⟩
    · simp only [same, breaks]
      tauto
    · rw [same, ih, Finset.mem_insert]
      tauto
    · rw [same, ih]
      tauto

theorem insertRowsIndividually_errors (upsert : Bool) (fault : Nat → Nat → RowFault) (used : Bool)
    (rows : List (Row κ)) (db : Finset κ) :
    (insertRowsIndividually upsert fault used rows db).nonIntegrityErrors = 0 ↔
      ∀ i < rows.length, Saves fault used i := by
  induction rows generalizing fault used db with
  | nil => simp [insertRowsIndividually]
  | cons row rest ih =>
    have flag : (used || decide (fault 0 0 = .desync)) = true ↔
        used = true ∨ fault 0 0 = .desync := by simp
    rw [List.length_cons, forall_saves_cons fault used _ rest.length flag]
    rcases insertRowsIndividually_cons upsert fault used row rest db with
      ⟨breaks, _, count⟩ | ⟨runs, fine, _, count⟩ | ⟨runs, error, _, count⟩
    · rw [count]
      tauto
    · rw [count, ih]
      tauto
    · rw [count]
      constructor
      · intro zero
        omega
      · intro all
        exact absurd error all.1.2

end Loop

section Report

def Reported (p : Payload κ) (result : Except WriteError (Written κ)) : Prop :=
  ∀ w, result = .ok w → w.ingestOk = true →
    (∀ r ∈ p.hostRows, r.key ∈ w.db.host) ∧ (∀ r ∈ p.procRows, r.key ∈ w.db.proc) ∧
      ∀ j ∈ p.jids, j ∈ w.dirty

/-- `emit = "insert"`: the return value ignores row errors and no jid is passed on. -/
def InsertHolds (p : Payload κ) (faults : Faults) (db : Database κ) : Prop :=
  faults.reconnect = .none →
    (∀ r ∈ p.hostRows, r.key ∈ db.host ∨
      SavedBy faults.hostRow false p.stats.individualRows r.key) ∧
    (∀ r ∈ p.procRows, r.key ∈ db.proc ∨ SavedBy faults.procRow false p.procStats r.key) ∧
    p.jids = []

/-- COPY bodies: `procStats` is not written and no jid is passed on. -/
def CopyHolds (p : Payload κ) (hostCopy procCopy : List (Row κ)) (settings : Settings)
    (faults : Faults) (db : Database κ) : Prop :=
  faults.reconnect = .none →
    (∀ i < (slices settings.sliceRows hostCopy).length, faults.hostBatch i = .none) →
    (∀ i < (slices settings.sliceRows procCopy).length, faults.procBatch i = .none) →
    (∀ r ∈ p.procStats, r.key ∈ db.proc ∨ r.key ∈ keys procCopy) ∧ p.jids = []

def ProcStored (p : Payload κ) (settings : Settings) (faults : Faults) (db : Database κ) : Prop :=
  ∀ r ∈ p.procStats, r.key ∈ db.proc ∨
    (faults.reconnect = .none ∧
      WrittenBy faults.procBatch (slices settings.sliceRows p.procStats) r.key) ∨
    SavedBy faults.procRow false p.procStats r.key

/-- The data frame and mapping path: ok follows the host rows only, and a mapping's empty and
missing-like jids are not passed on. -/
def FrameHolds (p : Payload κ) (settings : Settings) (faults : Faults) (db : Database κ) : Prop :=
  faults.reconnect ≠ .unavailable →
    (faults.reconnect = .none → ¬ FailsWith faults.procBatch
      (slices settings.sliceRows p.procStats).length .unavailable) →
    ¬ FailsWith faults.hostBatch (slices settings.sliceRows p.hostRows).length .unavailable →
    (FailsWith faults.hostBatch (slices settings.sliceRows p.hostRows).length .error →
      ∀ i < p.hostRows.length, Saves faults.hostRow false i) →
    ProcStored p settings faults db ∧
      ∀ j ∈ p.jids, faults.cacheRaises = false ∧
        (settings.copyHost = true → p.stats.isMapping = true →
          j ∈ [[], lit "nan", lit "None"] → ∃ r ∈ p.procStats, r.jid = some j)

def HoldsWhen (p : Payload κ) (settings : Settings) (faults : Faults) (db : Database κ) : Prop :=
  if settings.emit = lit "insert" then InsertHolds p faults db
  else
    match p.stats with
    | .copyBytes hostCopy procCopy => CopyHolds p hostCopy procCopy settings faults db
    | _ => FrameHolds p settings faults db

theorem writeInsert_reported (p : Payload κ) (faults : Faults) (db : Database κ) :
    Reported p (writeInsert p faults db) ↔ InsertHolds p faults db := by
  cases reconnect : faults.reconnect with
  | error => simp [Reported, writeInsert, InsertHolds, reconnect]
  | unavailable => simp [Reported, writeInsert, InsertHolds, reconnect]
  | none =>
    simp only [Reported, writeInsert, InsertHolds, reconnect, Except.ok.injEq, forall_eq',
      mem_insertRowsIndividually, List.not_mem_nil, List.eq_nil_iff_forall_not_mem, forall_true_left]

theorem writeCopyBytes_eq (hostCopy procCopy : List (Row κ)) (settings : Settings)
    (faults : Faults) (db : Database κ) (w : Written κ) :
    writeCopyBytes hostCopy procCopy settings faults db = .ok w ↔
      faults.reconnect = .none ∧
      (∀ i < (slices settings.sliceRows hostCopy).length, faults.hostBatch i = .none) ∧
      (∀ i < (slices settings.sliceRows procCopy).length, faults.procBatch i = .none) ∧
      w = ⟨settings.needArchival, true,
        ⟨(writeBatches faults.hostBatch (slices settings.sliceRows hostCopy) db.host).1,
          (writeBatches faults.procBatch (slices settings.sliceRows procCopy) db.proc).1⟩, []⟩ := by
  rw [← writeBatches_clean _ _ db.host, ← writeBatches_clean _ _ db.proc]
  cases reconnect : faults.reconnect with
  | error => simp [writeCopyBytes, bulkWrite, reconnect]
  | unavailable => simp [writeCopyBytes, bulkWrite, reconnect]
  | none =>
    simp only [writeCopyBytes, bulkWrite, reconnect]
    rcases writeBatches faults.hostBatch (slices settings.sliceRows hostCopy) db.host with
      ⟨host, met⟩
    rcases writeBatches faults.procBatch (slices settings.sliceRows procCopy) db.proc with
      ⟨proc, after⟩
    cases met <;> cases after <;> simp [eq_comm]

theorem writeCopyBytes_reported (p : Payload κ) (hostCopy procCopy : List (Row κ))
    (body : p.stats = .copyBytes hostCopy procCopy) (settings : Settings) (faults : Faults)
    (db : Database κ) :
    Reported p (writeCopyBytes hostCopy procCopy settings faults db) ↔
      CopyHolds p hostCopy procCopy settings faults db := by
  have hostRows : p.hostRows = hostCopy := by simp [Payload.hostRows, body]
  have procRows : p.procRows = procCopy ++ p.procStats := by simp [Payload.procRows, body]
  constructor
  · intro reported reconnect hostClean procClean
    have written := (writeCopyBytes_eq hostCopy procCopy settings faults db _).mpr
      ⟨reconnect, hostClean, procClean, rfl⟩
    rcases reported _ written rfl with ⟨_, procStored, marked⟩
    refine ⟨fun r member => ?_, List.eq_nil_iff_forall_not_mem.mpr fun j member =>
      List.not_mem_nil (marked j member)⟩
    have stored := procStored r (procRows ▸ List.mem_append_right _ member)
    rw [mem_writeBatches] at stored
    rcases stored with before | ⟨i, batch, present, inside, _⟩
    · exact .inl before
    · rcases mem_keys.mp inside with ⟨q, inBatch, same⟩
      have inRows : q ∈ (slices settings.sliceRows procCopy).flatten :=
        List.mem_flatten.mpr ⟨batch, List.mem_of_getElem? present, inBatch⟩
      rw [slices_flatten] at inRows
      exact .inr (mem_keys.mpr ⟨q, inRows, same⟩)
  · intro holds w result _
    rcases (writeCopyBytes_eq hostCopy procCopy settings faults db w).mp result with
      ⟨reconnect, hostClean, procClean, rfl⟩
    rcases holds reconnect hostClean procClean with ⟨procStored, none⟩
    have copied : ∀ q ∈ procCopy, q.key ∈
        (writeBatches faults.procBatch (slices settings.sliceRows procCopy) db.proc).1 := by
      intro q member
      rw [mem_writeBatches]
      exact .inr (writtenBy_of_clean _ _ _ procClean q member)
    refine ⟨fun r member => ?_, fun r member => ?_, fun j member => ?_⟩
    · rw [hostRows] at member
      rw [mem_writeBatches]
      exact .inr (writtenBy_of_clean _ _ _ hostClean r member)
    · rw [procRows, List.mem_append] at member
      rcases member with member | member
      · exact copied r member
      · rcases procStored r member with before | inCopy
        · exact (mem_writeBatches _ _ _ _).mpr (.inl before)
        · rcases mem_keys.mp inCopy with ⟨q, inside, same⟩
          exact same ▸ copied q inside
    · rw [none] at member
      exact absurd member List.not_mem_nil

theorem writeProc_cases (rows : List (Row κ)) (settings : Settings) (faults : Faults)
    (db : Finset κ) :
    (writeProc rows settings faults db = .error .databaseUnavailable ∧
      (faults.reconnect = .unavailable ∨ (faults.reconnect = .none ∧ FailsWith faults.procBatch
        (slices settings.sliceRows rows).length .unavailable))) ∨
    ((faults.reconnect ≠ .unavailable ∧ (faults.reconnect = .none → ¬ FailsWith faults.procBatch
        (slices settings.sliceRows rows).length .unavailable)) ∧
      ∃ proc, writeProc rows settings faults db = .ok proc ∧
        ∀ r ∈ rows, r.key ∈ proc ↔ r.key ∈ db ∨
          (faults.reconnect = .none ∧
            WrittenBy faults.procBatch (slices settings.sliceRows rows) r.key) ∨
          SavedBy faults.procRow false rows r.key) := by
  cases reconnect : faults.reconnect with
  | unavailable => exact .inl ⟨by simp [writeProc, bulkWrite, reconnect], .inl rfl⟩
  | error =>
    refine .inr ⟨⟨by simp, by simp⟩, _, by simp only [writeProc, bulkWrite, reconnect]; rfl, ?_⟩
    simp [mem_insertRowsIndividually]
  | none =>
    rw [← writeBatches_fails _ _ db .unavailable (by simp)]
    have clean := writeBatches_clean faults.procBatch (slices settings.sliceRows rows) db
    have stored := mem_writeBatches faults.procBatch (slices settings.sliceRows rows) db
    simp only [writeProc, bulkWrite, reconnect]
    generalize writeBatches faults.procBatch (slices settings.sliceRows rows) db = bulk
      at clean stored ⊢
    rcases bulk with ⟨proc, met⟩
    cases met with
    | unavailable => exact .inl ⟨rfl, .inr ⟨trivial, rfl⟩⟩
    | none =>
      refine .inr ⟨⟨by simp, by simp⟩, proc, rfl, fun r member => ?_⟩
      have written := writtenBy_of_clean _ _ rows (clean.mp rfl) r member
      have inTable := (stored r.key).mpr (.inr written)
      exact ⟨fun _ => .inr (.inl ⟨trivial, written⟩), fun _ => inTable⟩
    | error =>
      refine .inr ⟨⟨by simp, by simp⟩, _, rfl, fun r _ => ?_⟩
      rw [mem_insertRowsIndividually, stored]
      tauto

theorem writeHost_cases (rows : List (Row κ)) (settings : Settings) (faults : Faults)
    (db : Finset κ) :
    (writeHost rows settings faults db = .error .databaseUnavailable ∧
      FailsWith faults.hostBatch (slices settings.sliceRows rows).length .unavailable) ∨
    (¬ FailsWith faults.hostBatch (slices settings.sliceRows rows).length .unavailable ∧
      ∃ host individual, writeHost rows settings faults db = .ok (host, individual) ∧
        (ingestOkFromHostWritePath individual = true ↔
          (FailsWith faults.hostBatch (slices settings.sliceRows rows).length .error →
            ∀ i < rows.length, Saves faults.hostRow false i)) ∧
        (ingestOkFromHostWritePath individual = true → ∀ r ∈ rows, r.key ∈ host)) := by
  rw [← writeBatches_fails _ _ db .unavailable (by simp),
    ← writeBatches_fails _ _ db .error (by simp)]
  have clean := writeBatches_clean faults.hostBatch (slices settings.sliceRows rows) db
  have stored := mem_writeBatches faults.hostBatch (slices settings.sliceRows rows) db
  simp only [writeHost]
  generalize writeBatches faults.hostBatch (slices settings.sliceRows rows) db = bulk
    at clean stored ⊢
  rcases bulk with ⟨host, met⟩
  cases met with
  | unavailable => exact .inl ⟨rfl, rfl⟩
  | none =>
    refine .inr ⟨by simp, host, none, rfl, by simp [ingestOkFromHostWritePath], ?_⟩
    intro _ r member
    exact (stored r.key).mpr (.inr (writtenBy_of_clean _ _ rows (clean.mp rfl) r member))
  | error =>
    have errors := insertRowsIndividually_errors false faults.hostRow false rows host
    refine .inr ⟨by simp, _, _, rfl, ?_, ?_⟩
    · simp only [ingestOkFromHostWritePath, decide_eq_true_eq, errors, forall_true_left]
    · intro ok r member
      simp only [ingestOkFromHostWritePath, decide_eq_true_eq] at ok
      rw [mem_insertRowsIndividually]
      exact .inr (savedBy_of_all _ _ _ (errors.mp ok) r member)

theorem writeFrames_reported (p : Payload κ)
    (noCopy : ∀ hostCopy procCopy, p.stats ≠ .copyBytes hostCopy procCopy)
    (settings : Settings) (faults : Faults) (db : Database κ) :
    Reported p (writeFrames p settings faults db) ↔ FrameHolds p settings faults db := by
  have procRows : p.procRows = p.procStats := by
    cases stats : p.stats with
    | copyBytes hostCopy procCopy => exact absurd stats (noCopy _ _)
    | frame rows => simp [Payload.procRows, stats]
    | mapping rows => simp [Payload.procRows, stats]
  rcases writeProc_cases p.procStats settings faults db.proc with
    ⟨failed, why⟩ | ⟨procRuns, proc, procOk, inProc⟩
  · have raised : writeFrames p settings faults db = .error .databaseUnavailable := by
      simp only [writeFrames, failed]; rfl
    simp only [Reported, raised, reduceCtorEq, false_imp_iff, implies_true, true_iff, FrameHolds]
    tauto
  rcases writeHost_cases p.hostRows settings faults db.host with
    ⟨failed, why⟩ | ⟨hostRuns, host, individual, hostOk, okIff, inHost⟩
  · have raised : writeFrames p settings faults db = .error .databaseUnavailable := by
      simp only [writeFrames, procOk, failed]; rfl
    simp only [Reported, raised, reduceCtorEq, false_imp_iff, implies_true, true_iff, FrameHolds]
    tauto
  have result : writeFrames p settings faults db =
      .ok ⟨individual.getD settings.needArchival, ingestOkFromHostWritePath individual,
        ⟨host, proc⟩,
        invalidateJidCaches (p.invalidationJids settings.copyHost) faults.cacheRaises⟩ := by
    simp only [writeFrames, procOk, hostOk]; rfl
  have stored : (∀ r ∈ p.procRows, r.key ∈ proc) ↔ ProcStored p settings faults db := by
    rw [procRows]
    exact forall₂_congr inProc
  have marked : (∀ j ∈ p.jids, j ∈ invalidateJidCaches (p.invalidationJids settings.copyHost)
      faults.cacheRaises) ↔ ∀ j ∈ p.jids, faults.cacheRaises = false ∧
        (settings.copyHost = true → p.stats.isMapping = true →
          j ∈ [[], lit "nan", lit "None"] → ∃ r ∈ p.procStats, r.jid = some j) := by
    refine forall₂_congr fun j member => ?_
    rw [← mem_invalidationJids p settings.copyHost noCopy j member]
    cases faults.cacheRaises <;> simp [invalidateJidCaches]
  simp only [Reported, result, Except.ok.injEq, forall_eq', okIff, stored, marked, FrameHolds]
  constructor
  · intro reported _ _ _ saved
    exact (reported saved).2
  · intro holds saved
    exact ⟨inHost (okIff.mpr saved), holds procRuns.1 procRuns.2 hostRuns saved⟩

/-- A report of ok can be relied on exactly on the inputs of `HoldsWhen`. -/
theorem writeStatsPayloadToDb_reported_iff (p : Payload κ) (settings : Settings) (faults : Faults)
    (db : Database κ) :
    Reported p (writeStatsPayloadToDb p settings faults db) ↔ HoldsWhen p settings faults db := by
  by_cases insert : settings.emit = lit "insert"
  · simp only [writeStatsPayloadToDb, HoldsWhen, insert, if_true]
    exact writeInsert_reported p faults db
  · simp only [writeStatsPayloadToDb, HoldsWhen, insert, if_false]
    cases stats : p.stats with
    | copyBytes hostCopy procCopy =>
      exact writeCopyBytes_reported p hostCopy procCopy stats settings faults db
    | frame rows => exact writeFrames_reported p (by simp [stats]) settings faults db
    | mapping rows => exact writeFrames_reported p (by simp [stats]) settings faults db

/-- One frame row of job 7 under `emit = "insert"`, whose save meets an error: the call
returns ok, the row is not stored, and job 7 is not marked. -/
theorem insert_reports_lost_row :
    ¬ ∀ (p : Payload Nat) settings faults db,
      Reported p (writeStatsPayloadToDb p settings faults db) := by
  intro always
  let failing : Faults := ⟨.none, fun _ => .none, fun _ => .none, fun _ _ => .none,
    fun _ _ => .error, false⟩
  have stored := (always ⟨.frame [⟨0, some (lit "7")⟩], []⟩
    ⟨lit "insert", true, true, 1, true⟩ failing ⟨∅, ∅⟩ _ rfl rfl).1 ⟨0, some (lit "7")⟩ (by decide)
  revert stored
  decide

end Report

end PerfStats.Ingest
