import PerfStats.Lib.Dict
import PerfStats.Lib.Failing
import PerfStats.Lib.Runs

namespace PerfStats.Ingest

open Lib

section Model

def columnsToRead : List String :=
  ["JobID", "User", "Account", "Start", "End", "Submit", "Partition", "Timelimit", "JobName",
    "State", "NNodes", "ReqCPUS", "NodeList"]

inductive JobId where
  | number (n : Int)
  | text (s : String)
deriving DecidableEq

def JobId.str : JobId → String
  | .number n => toString n
  | .text s => s

structure AcctRow (α : Type) where
  jid : JobId
  queue : Option String
  cells : α

structure AcctTable (α : Type) where
  columns : List String
  rows : List (AcctRow α)

structure AcctJob (δ : Type) where
  queue : Option String
  startTime : ℚ
  endTime : ℚ
  hostList : List String
  fields : δ
deriving DecidableEq

/-- A row of `job_data`: a job is computed once its metrics have been persisted. -/
structure JobRow (δ : Type) where
  job : AcctJob δ
  computed : Bool
  metricsDirtyAt : Option ℚ
deriving DecidableEq

abbrev JobData (δ : Type) := Dict String (JobRow δ)

structure AcctReading (α δ : Type) where
  times : List (AcctRow α) → Option String
  nodeList : AcctRow α → Option String
  nodeHours : List (AcctRow α) → Option String
  job : List (AcctRow α) → AcctRow α → Except String (AcctJob δ)

/-- What the database does: which queries and saves raise, and how many of the stamping statements
are executed. -/
structure JobDatabase where
  existing : Option String
  bulkFails : Bool
  saveFails : Nat → Bool
  counting : Option String
  stamped : Nat
  now : ℚ
  affinity : String → Bool

variable {α δ : Type}

/-- `df[~df["jid"].isin(jobs_in_db)]`, with the label of each row. -/
def notInDb (jobsInDb : List JobId) (rows : List (AcctRow α)) : List (AcctRow α × Nat) :=
  rows.zipIdx.filter fun r => decide (r.1.jid ∉ jobsInDb)

def matchingKeywords (debug : Bool) (keywords : List String) (queue : Option String) :
    List String :=
  match queue with
  | none => []
  | some cell => keywords.filter fun q => decide (q.toList <:+: cell.toList) && debug

def dropRestricted (debug : Bool) (keywords : List String) (rows : List (AcctRow α × Nat)) :
    List (AcctRow α × Nat) :=
  let restricted := (List.range rows.length).flatMap fun i =>
    match rows[i]? with
    | none => []
    | some r => (matchingKeywords debug keywords r.1.queue).map fun _ => i
  let labels := restricted.filterMap fun i => rows[i]?.map Prod.snd
  rows.filter fun r => decide (r.2 ∉ labels)

def keptRows (debug : Bool) (keywords : List String) (jobsInDb : List JobId)
    (table : AcctTable α) : List (AcctRow α) :=
  (dropRestricted debug keywords (notInDb jobsInDb table.rows)).map Prod.fst

/-- `job_data_instance_from_acct_row`, under the jid of the row. -/
def buildJob (reading : AcctReading α δ) (rows : List (AcctRow α)) (row : AcctRow α) :
    Except String (String × AcctJob δ) :=
  match reading.job rows row with
  | .ok job => .ok (row.jid.str, job)
  | .error exc => .error ("could not build job row jid=" ++ row.jid.str ++ ": " ++ exc)

def buildJobs (reading : AcctReading α δ) (rows : List (AcctRow α)) :
    Except String (List (String × AcctJob δ)) :=
  match reading.times rows, rows.findSome? reading.nodeList, reading.nodeHours rows with
  | some exc, _, _ => .error ("could not parse Start, End, or Submit: " ++ exc)
  | none, some message, _ => .error message
  | none, none, some exc => .error ("could not compute node hours from NNodes and runtime: " ++ exc)
  | none, none, none => rows.mapM (buildJob reading rows)

def newRow (job : AcctJob δ) : JobRow δ := ⟨job, false, none⟩

/-- One row of `bulk_create(objs, ignore_conflicts=True)`. -/
def insertIgnoring (stored : JobData δ) (obj : String × AcctJob δ) : JobData δ :=
  match stored.get? obj.1 with
  | some _ => stored
  | none => stored.set obj.1 (newRow obj.2)

def bulkCreate (stored : JobData δ) (objs : List (String × AcctJob δ)) : JobData δ :=
  objs.foldl insertIgnoring stored

/-- `_insert_job_data_individually`: a save with a primary key updates the row if there is one. The
second part are the jids that were saved. -/
def insertIndividually (saveFails : Nat → Bool) :
    Nat → List (String × AcctJob δ) → JobData δ → JobData δ × List String
  | _, [], stored => (stored, [])
  | k, obj :: rest, stored =>
    if saveFails k then insertIndividually saveFails (k + 1) rest stored
    else
      let (after, saved) :=
        insertIndividually saveFails (k + 1) rest (stored.set obj.1 (newRow obj.2))
      (after, obj.1 :: saved)

def AcctJob.overlaps (a b : AcctJob δ) : Bool :=
  a.hostList.any (fun host => decide (host ∈ b.hostList)) &&
    decide (a.startTime < b.endTime) && decide (b.startTime < a.endTime)

def stamps (affinity : String → Bool) (stored : JobData δ) (batch : List String) (jid : String)
    (row : JobRow δ) : Bool :=
  batch.any (fun j => ((stored.get? j).map fun other => row.job.overlaps other.job).getD false) &&
    decide (jid ∉ batch) && row.computed && row.metricsDirtyAt.isNone && !affinity jid

/-- One `UPDATE` of `mark_overlapping_jobs_metrics_dirty`. -/
def stampBatch (db : JobDatabase) (stored : JobData δ) (batch : List String) : JobData δ :=
  (stored.entries.filter fun e => stamps db.affinity stored batch e.1 e.2).foldl
    (fun after e => after.set e.1 { e.2 with metricsDirtyAt := some db.now }) stored

/-- `_notify_job_cache_after_acct_ingest`, as far as it changes `job_data`. -/
def notifyAfterIngest (db : JobDatabase) (inserted : List String) (stored : JobData δ) :
    JobData δ :=
  let ids := ((inserted.filter fun jid => jid ≠ "").dedup).mergeSort fun a b => decide (a ≤ b)
  ((slices 500 ids).take db.stamped).foldl (stampBatch db) stored

inductive AcctEnd where
  | failedBefore (message : String)
  | failedAfter (message : String)
  | returned (inserted : Nat)
deriving DecidableEq

def insertJobs (db : JobDatabase) (objs : List (String × AcctJob δ)) (stored : JobData δ) :
    JobData δ × AcctEnd :=
  if objs.isEmpty then (stored, .returned 0)
  else
    match db.existing with
    | some exc => (stored, .failedBefore ("database error checking existing jobs: " ++ exc))
    | none =>
      if db.bulkFails then
        let (after, saved) := insertIndividually db.saveFails 0 objs stored
        (notifyAfterIngest db saved after, .returned saved.length)
      else
        let after := bulkCreate stored objs
        match db.counting with
        | some exc =>
          (after, .failedAfter ("database error counting inserted jobs after bulk insert " ++
            "(rows may already be inserted): " ++ exc))
        | none =>
          let inserted := ((objs.map Prod.fst).dedup.filter fun jid =>
            (after.get? jid).isSome).filter fun jid => (stored.get? jid).isNone
          (notifyAfterIngest db inserted after, .returned inserted.length)

def syncAcctDataframe (reading : AcctReading α δ) (db : JobDatabase) (debug : Bool)
    (keywords : List String) (jobsInDb : List JobId) (table : AcctTable α) (stored : JobData δ) :
    JobData δ × AcctEnd :=
  let missing := columnsToRead.filter fun name => decide (name ∉ table.columns)
  if missing.isEmpty then
    match buildJobs reading (keptRows debug keywords jobsInDb table) with
    | .error message => (stored, .failedBefore message)
    | .ok objs => insertJobs db objs stored
  else
    (stored, .failedBefore ("missing required sacct columns: " ++ String.intercalate ", " missing))

end Model

section Rows

variable {α : Type} {debug : Bool} {keywords : List String}

def Unrestricted (debug : Bool) (keywords : List String) (row : AcctRow α) : Prop :=
  debug = true → ∀ cell, row.queue = some cell → ∀ q ∈ keywords, ¬ q.toList <:+: cell.toList

theorem matchingKeywords_eq_nil {row : AcctRow α} :
    matchingKeywords debug keywords row.queue = [] ↔ Unrestricted debug keywords row := by
  unfold matchingKeywords Unrestricted
  cases row.queue with
  | none => simp
  | some cell =>
    cases debug with
    | false => simp
    | true => simp [List.filter_eq_nil_iff]

theorem dropRestricted_eq {rows : List (AcctRow α × Nat)} (labelled : (rows.map Prod.snd).Nodup) :
    dropRestricted debug keywords rows =
      rows.filter fun r => decide (matchingKeywords debug keywords r.1.queue = []) := by
  refine List.filter_congr fun r mem => decide_eq_decide.mpr ?_
  rw [not_iff_comm]
  simp only [List.mem_filterMap, List.mem_flatMap, List.mem_range, Option.map_eq_some_iff]
  constructor
  · intro found
    obtain ⟨i, bound, here⟩ := List.getElem_of_mem mem
    refine ⟨i, ⟨i, bound, ?_⟩, r, ?_, rfl⟩
    · rw [List.getElem?_eq_getElem bound, here]
      obtain ⟨q, there⟩ := List.exists_mem_of_ne_nil _ found
      exact List.mem_map.mpr ⟨q, there, rfl⟩
    · rw [List.getElem?_eq_getElem bound, here]
  · rintro ⟨i, ⟨j, bound, matched⟩, r', here, label⟩
    have same : i = j := by
      cases there : rows[j]? with
      | none =>
        rw [there] at matched
        cases matched
      | some t =>
        rw [there] at matched
        obtain ⟨_, _, eq⟩ := List.mem_map.mp matched
        exact eq.symm
    subst same
    rw [here] at matched
    have twin : r' = r := List.inj_on_of_nodup_map labelled (List.mem_of_getElem? here) mem label
    rw [← twin]
    obtain ⟨q, there, -⟩ := List.mem_map.mp matched
    exact List.ne_nil_of_mem there

theorem keptRows_eq (debug : Bool) (keywords : List String) (jobsInDb : List JobId)
    (table : AcctTable α) :
    keptRows debug keywords jobsInDb table =
      (table.rows.filter fun r => decide (r.jid ∉ jobsInDb)).filter fun r =>
        decide (matchingKeywords debug keywords r.queue = []) := by
  have labelled : ((notInDb jobsInDb table.rows).map Prod.snd).Nodup := by
    refine List.Nodup.sublist (List.Sublist.map _ List.filter_sublist) ?_
    rw [List.zipIdx_map_snd]
    exact List.nodup_range'
  unfold keptRows
  rw [dropRestricted_eq labelled]
  unfold notInDb
  rw [List.filter_filter, List.filter_filter]
  have kept : ∀ p : AcctRow α → Bool,
      ((table.rows.zipIdx.filter fun r => p r.1).map Prod.fst) = table.rows.filter p := by
    intro p
    have whole := List.zipIdx_map_fst 0 table.rows
    conv_rhs => rw [← whole, List.filter_map]
    rfl
  exact kept fun r =>
    decide (matchingKeywords debug keywords r.queue = []) && decide (r.jid ∉ jobsInDb)

theorem mem_keptRows {jobsInDb : List JobId} {table : AcctTable α} {row : AcctRow α} :
    row ∈ keptRows debug keywords jobsInDb table ↔
      row ∈ table.rows ∧ row.jid ∉ jobsInDb ∧ Unrestricted debug keywords row := by
  rw [keptRows_eq]
  simp only [List.mem_filter, decide_eq_true_eq, matchingKeywords_eq_nil, and_assoc]

end Rows

section Database

variable {α δ : Type} {stored : JobData δ} {db : JobDatabase} {reading : AcctReading α δ}
  {rows : List (AcctRow α)} {before after : JobData δ}

theorem buildJob_ok {row : AcctRow α}
    {obj : String × AcctJob δ} :
    buildJob reading rows row = .ok obj ↔
      reading.job rows row = .ok obj.2 ∧ row.jid.str = obj.1 := by
  unfold buildJob
  cases reading.job rows row with
  | error exc => simp
  | ok job =>
    simp only [Except.ok.injEq, Prod.ext_iff]
    exact and_comm

variable {objs : List (String × AcctJob δ)}

theorem buildJobs_rows
    (built : buildJobs reading rows = .ok objs) :
    List.Forall₂ (fun row obj => reading.job rows row = .ok obj.2 ∧ row.jid.str = obj.1)
      rows objs := by
  unfold buildJobs at built
  split at built
  · cases built
  · cases built
  · cases built
  · refine (mapM_forall₂ built).imp fun row obj => buildJob_ok.mp

theorem get?_insertIgnoring (obj : String × AcctJob δ) (jid : String) :
    (insertIgnoring stored obj).get? jid =
      (stored.get? jid).or (if jid = obj.1 then some (newRow obj.2) else none) := by
  unfold insertIgnoring
  by_cases same : jid = obj.1
  · rw [if_pos same, same]
    cases found : stored.get? obj.1 with
    | some row => exact found
    | none => exact Dict.get?_set_self _ _ _
  · rw [if_neg same, Option.or_none]
    cases stored.get? obj.1 with
    | some row => rfl
    | none => exact Dict.get?_set_of_ne _ same _

theorem get?_bulkCreate (stored : JobData δ) (objs : List (String × AcctJob δ)) (jid : String) :
    (bulkCreate stored objs).get? jid =
      (stored.get? jid).or
        ((objs.find? fun obj => decide (jid = obj.1)).map fun obj => newRow obj.2) := by
  unfold bulkCreate
  induction objs generalizing stored with
  | nil => rw [List.foldl_nil, List.find?_nil, Option.map_none, Option.or_none]
  | cons obj rest ih =>
    rw [List.foldl_cons, ih, get?_insertIgnoring, Option.or_assoc, List.find?_cons]
    by_cases same : jid = obj.1
    · simp [same]
    · simp [same]

theorem insertIndividually_eq {saveFails : Nat → Bool} (saves : ∀ k, saveFails k = false) (k : Nat)
    (distinct : (objs.map Prod.fst).Nodup)
    (absent : ∀ obj ∈ objs, stored.get? obj.1 = none) :
    insertIndividually saveFails k objs stored = (bulkCreate stored objs, objs.map Prod.fst) := by
  induction objs generalizing stored k with
  | nil => rfl
  | cons obj rest ih =>
    have apart := List.nodup_cons.mp distinct
    have here := absent obj (.head _)
    have later : ∀ o ∈ rest, (stored.set obj.1 (newRow obj.2)).get? o.1 = none := by
      intro o mem
      rw [Dict.get?_set_of_ne]
      · exact absent o (.tail _ mem)
      · exact fun same => apart.1 (same ▸ List.mem_map_of_mem mem)
    have first : insertIgnoring stored obj = stored.set obj.1 (newRow obj.2) := by
      unfold insertIgnoring
      rw [here]
    rw [insertIndividually, if_neg (by rw [saves]; exact Bool.false_ne_true),
      ih (k + 1) apart.2 later]
    unfold bulkCreate
    rw [List.foldl_cons, first]
    rfl

/-- What the stamps may do: an unstamped row of a computed job without affinities may get one, if it
overlaps a job that was inserted. -/
structure Stamped (db : JobDatabase) (inserted : List String)
    (before after : JobData δ) : Prop where
  absent : ∀ jid, before.get? jid = none → after.get? jid = none
  kept : ∀ jid row, before.get? jid = some row → after.get? jid = some row ∨
    after.get? jid = some { row with metricsDirtyAt := some db.now } ∧
      row.metricsDirtyAt = none ∧ row.computed = true ∧ db.affinity jid = false ∧
      ∃ j ∈ inserted, ∃ other, before.get? j = some other ∧ row.job.overlaps other.job = true

theorem get?_foldl_rewrite {κ ν : Type} [DecidableEq κ] {f : κ × ν → ν} {l : List (κ × ν)}
    (distinct : (l.map Prod.fst).Nodup) (d : Dict κ ν) (k : κ) :
    (l.foldl (fun after e => after.set e.1 (f e)) d).get? k =
      ((l.find? fun e => decide (k = e.1)).map f).or (d.get? k) := by
  induction l generalizing d with
  | nil => rfl
  | cons e rest ih =>
    have apart := List.nodup_cons.mp distinct
    rw [List.foldl_cons, ih apart.2, Dict.get?_set, List.find?_cons]
    by_cases same : k = e.1
    · have none : (rest.find? fun e => decide (k = e.1)) = none := by
        refine List.find?_eq_none.mpr fun other mem there => apart.1 ?_
        rw [← same, of_decide_eq_true there]
        exact List.mem_map_of_mem mem
      rw [none, if_pos same, decide_eq_true same]
      rfl
    · simp [same]

theorem get?_stampBatch (db : JobDatabase) (stored : JobData δ) (batch : List String)
    (jid : String) :
    (stampBatch db stored batch).get? jid = (stored.get? jid).map fun row =>
      if stamps db.affinity stored batch jid row then { row with metricsDirtyAt := some db.now }
      else row := by
  unfold stampBatch
  have distinct : ((stored.entries.filter fun e =>
      stamps db.affinity stored batch e.1 e.2).map Prod.fst).Nodup :=
    stored.distinct.sublist (List.filter_sublist.map Prod.fst)
  rw [get?_foldl_rewrite distinct]
  cases entry : (stored.entries.filter fun e => stamps db.affinity stored batch e.1 e.2).find?
      fun e => decide (jid = e.1) with
  | some e =>
    obtain ⟨there, stamped⟩ := List.mem_filter.mp (List.mem_of_find?_eq_some entry)
    have hit := List.find?_some entry
    have key : jid = e.1 := of_decide_eq_true hit
    have found : stored.get? jid = some e.2 := by
      rw [key]
      exact Dict.get?_eq_some.mpr there
    rw [found, Option.map_some, Option.map_some, Option.some_or, key, if_pos stamped]
  | none =>
    rw [Option.map_none, Option.none_or]
    cases found : stored.get? jid with
    | none => rfl
    | some row =>
      rw [Option.map_some, if_neg]
      intro stamped
      refine List.find?_eq_none.mp entry (jid, row) ?_ (decide_eq_true rfl)
      exact List.mem_filter.mpr ⟨Dict.get?_eq_some.mp found, stamped⟩

theorem Stamped.refl (db : JobDatabase) (inserted : List String) (before : JobData δ) :
    Stamped db inserted before before where
  absent := fun _ none => none
  kept := fun _ _ found => Or.inl found

theorem Stamped.job {inserted : List String}
    (stamped : Stamped db inserted before after) {jid : String} {row : JobRow δ}
    (found : after.get? jid = some row) :
    ∃ first, before.get? jid = some first ∧ first.job = row.job := by
  cases earlier : before.get? jid with
  | none =>
    rw [stamped.absent jid earlier] at found
    cases found
  | some first =>
    refine ⟨first, rfl, ?_⟩
    rcases stamped.kept jid first earlier with same | ⟨same, -⟩
    · rw [found] at same
      rw [← Option.some.inj same]
    · rw [found] at same
      rw [Option.some.inj same]

theorem Stamped.batch {inserted batch : List String}
    (stamped : Stamped db inserted before after) (within : ∀ jid ∈ batch, jid ∈ inserted) :
    Stamped db inserted before (stampBatch db after batch) where
  absent := fun jid none => by rw [get?_stampBatch, stamped.absent jid none, Option.map_none]
  kept := fun jid row found => by
    rw [get?_stampBatch]
    rcases stamped.kept jid row found with same | ⟨same, unstamped, rest⟩
    · rw [same, Option.map_some]
      split
      · next now =>
        simp only [stamps, Bool.and_eq_true, List.any_eq_true, Bool.not_eq_true',
          Option.isNone_iff_eq_none] at now
        obtain ⟨⟨⟨⟨⟨j, mem, overlap⟩, -⟩, computed⟩, unstamped⟩, affinity⟩ := now
        refine Or.inr ⟨rfl, unstamped, computed, affinity, j, within j mem, ?_⟩
        cases there : after.get? j with
        | none =>
          rw [there] at overlap
          cases overlap
        | some other =>
          obtain ⟨first, earlier, job⟩ := stamped.job there
          rw [there] at overlap
          exact ⟨first, earlier, by rw [job]; exact overlap⟩
      · exact Or.inl rfl
    · rw [same, Option.map_some, if_neg]
      · exact Or.inr ⟨rfl, unstamped, rest⟩
      · intro again
        simp [stamps] at again

theorem notified_stamped (db : JobDatabase) (inserted : List String) (before : JobData δ) :
    Stamped db inserted before (notifyAfterIngest db inserted before) := by
  unfold notifyAfterIngest
  generalize ids : ((inserted.filter fun jid => jid ≠ "").dedup).mergeSort
    (fun a b => decide (a ≤ b)) = sorted
  have within : ∀ batch ∈ (slices 500 sorted).take db.stamped, ∀ jid ∈ batch, jid ∈ inserted := by
    intro batch mem jid there
    have listed : jid ∈ (slices 500 sorted).flatten :=
      List.mem_flatten.mpr ⟨batch, List.mem_of_mem_take mem, there⟩
    rw [slices_flatten, ← ids, List.mem_mergeSort, List.mem_dedup] at listed
    exact (List.mem_filter.mp listed).1
  have folded : ∀ batches : List (List String), (∀ batch ∈ batches, ∀ jid ∈ batch, jid ∈ inserted) →
      ∀ after, Stamped db inserted before after →
        Stamped db inserted before (batches.foldl (stampBatch db) after) := by
    intro batches
    induction batches with
    | nil => exact fun _ _ stamped => stamped
    | cons batch rest ih =>
      intro within after stamped
      exact ih (fun b mem => within b (.tail _ mem)) _
        (stamped.batch (within batch (.head _)))
  exact folded _ within before (Stamped.refl db inserted before)

def newOf (stored : JobData δ) (jids : List String) : List String :=
  jids.dedup.filter fun jid => (stored.get? jid).isNone

def Inserts (db : JobDatabase) (stored : JobData δ) (jids : List String) : Prop :=
  db.bulkFails = true →
    (∀ k, db.saveFails k = false) ∧ jids.Nodup ∧ ∀ jid ∈ jids, stored.get? jid = none

theorem isSome_bulkCreate (objs : List (String × AcctJob δ)) (jid : String) :
    ((bulkCreate stored objs).get? jid).isSome ↔
      (stored.get? jid).isSome ∨ jid ∈ objs.map Prod.fst := by
  rw [get?_bulkCreate, Option.isSome_or, Bool.or_eq_true, Option.isSome_map, List.find?_isSome]
  refine or_congr_right ?_
  simp only [decide_eq_true_eq, List.mem_map]
  exact exists_congr fun obj => and_congr_right fun _ => eq_comm

theorem insertJobs_cases (inserts : Inserts db stored (objs.map Prod.fst)) :
    (∃ message, insertJobs db objs stored = (stored, .failedBefore message)) ∨
      Stamped db (newOf stored (objs.map Prod.fst)) (bulkCreate stored objs)
          (insertJobs db objs stored).1 ∧
        (∀ message, (insertJobs db objs stored).2 ≠ .failedBefore message) ∧
        ∀ n, (insertJobs db objs stored).2 = .returned n →
          n = (newOf stored (objs.map Prod.fst)).length := by
  unfold insertJobs
  split
  · next none =>
    obtain rfl := List.isEmpty_iff.mp none
    refine Or.inr ⟨Stamped.refl _ _ _, fun _ eq => AcctEnd.noConfusion eq, fun n eq => ?_⟩
    cases eq
    rfl
  · split
    · exact Or.inl ⟨_, rfl⟩
    · split
      · next fails =>
        obtain ⟨saves, distinct, absent⟩ := inserts fails
        have fresh : ∀ obj ∈ objs, stored.get? obj.1 = none :=
          fun obj mem => absent obj.1 (List.mem_map_of_mem mem)
        have all : newOf stored (objs.map Prod.fst) = objs.map Prod.fst := by
          unfold newOf
          rw [distinct.dedup, List.filter_eq_self]
          exact fun jid mem => by rw [absent jid mem]; rfl
        rw [insertIndividually_eq saves 0 distinct fresh, all]
        refine Or.inr ⟨notified_stamped _ _ _, fun _ eq => AcctEnd.noConfusion eq, fun n eq => ?_⟩
        cases eq
        rfl
      · dsimp only
        split
        · exact Or.inr ⟨Stamped.refl _ _ _, fun _ eq => AcctEnd.noConfusion eq,
            fun _ eq => AcctEnd.noConfusion eq⟩
        · have counted : ((objs.map Prod.fst).dedup.filter fun jid =>
              ((bulkCreate stored objs).get? jid).isSome).filter
                (fun jid => (stored.get? jid).isNone) = newOf stored (objs.map Prod.fst) := by
            have there : ((objs.map Prod.fst).dedup.filter fun jid =>
                ((bulkCreate stored objs).get? jid).isSome) = (objs.map Prod.fst).dedup :=
              List.filter_eq_self.mpr fun jid mem =>
                (isSome_bulkCreate objs jid).mpr (Or.inr (List.mem_dedup.mp mem))
            rw [there]
            rfl
          rw [counted]
          refine Or.inr ⟨notified_stamped _ _ _, fun _ eq => AcctEnd.noConfusion eq, fun n eq => ?_⟩
          cases eq
          rfl

end Database

section Claim

variable {α δ : Type} {reading : AcctReading α δ} {db : JobDatabase} {debug : Bool}
variable {keywords : List String} {jobsInDb : List JobId} {table : AcctTable α}
variable {stored : JobData δ}

def newJids (debug : Bool) (keywords : List String) (table : AcctTable α) (stored : JobData δ) :
    List String :=
  newOf stored ((table.rows.filter fun row =>
    decide (matchingKeywords debug keywords row.queue = [])).map fun row => row.jid.str)

/-- A load adds one row for each new jid, built of one of its unrestricted rows, and changes no
other but for stamps; an error before the insert changes nothing. -/
structure AddsNewJobs (reading : AcctReading α δ) (db : JobDatabase) (debug : Bool)
    (keywords : List String) (table : AcctTable α) (stored : JobData δ)
    (out : JobData δ × AcctEnd) : Prop where
  failed : ∀ message, out.2 = .failedBefore message → out.1 = stored
  added : (∀ message, out.2 ≠ .failedBefore message) → ∀ jid,
    ((out.1.get? jid).isSome ↔ (stored.get? jid).isSome ∨ jid ∈ newJids debug keywords table stored)
  built : ∀ jid row, stored.get? jid = none → out.1.get? jid = some row →
    ∃ rows, ∃ line ∈ table.rows, Unrestricted debug keywords line ∧ line.jid.str = jid ∧
      reading.job rows line = .ok row.job ∧ row.computed = false ∧ row.metricsDirtyAt = none
  kept : ∀ jid row, stored.get? jid = some row → out.1.get? jid = some row ∨
    out.1.get? jid = some { row with metricsDirtyAt := some db.now } ∧
      row.metricsDirtyAt = none ∧ row.computed = true ∧ db.affinity jid = false ∧
      ∃ j, stored.get? j = none ∧ ∃ other, out.1.get? j = some other ∧
        row.job.overlaps other.job = true
  counted : ∀ n, out.2 = .returned n → n = (newJids debug keywords table stored).length

variable {objs : List (String × AcctJob δ)} {jid : String}

theorem mem_newOf {jids : List String} :
    jid ∈ newOf stored jids ↔ jid ∈ jids ∧ stored.get? jid = none := by
  unfold newOf
  rw [List.mem_filter, List.mem_dedup, Option.isNone_iff_eq_none]

theorem newOf_kept (contained : ∀ id ∈ jobsInDb, (stored.get? id.str).isSome) :
    (newOf stored ((keptRows debug keywords jobsInDb table).map fun row => row.jid.str)).Perm
      (newJids debug keywords table stored) := by
  refine (List.perm_ext_iff_of_nodup ?_ ?_).mpr fun jid => ?_
  · exact (List.nodup_dedup _).filter _
  · exact (List.nodup_dedup _).filter _
  · unfold newJids
    rw [mem_newOf, mem_newOf]
    refine and_congr_left fun absent => ?_
    simp only [List.mem_map, mem_keptRows, List.mem_filter, decide_eq_true_eq,
      matchingKeywords_eq_nil]
    refine exists_congr fun row => ⟨?_, ?_⟩
    · rintro ⟨⟨mem, -, free⟩, key⟩
      exact ⟨⟨mem, free⟩, key⟩
    · rintro ⟨⟨mem, free⟩, key⟩
      refine ⟨⟨mem, fun known => ?_, free⟩, key⟩
      have there := contained _ known
      rw [key, absent] at there
      cases there

theorem keys_of_rows {rows all : List (AcctRow α)}
    (built : List.Forall₂ (fun row obj => reading.job all row = .ok obj.2 ∧ row.jid.str = obj.1)
      rows objs) :
    objs.map Prod.fst = rows.map (fun row => row.jid.str) ∧
      ∀ obj ∈ objs, ∃ row ∈ rows, reading.job all row = .ok obj.2 ∧ row.jid.str = obj.1 := by
  induction built with
  | nil => exact ⟨rfl, fun _ mem => absurd mem List.not_mem_nil⟩
  | @cons row obj rows objs first _ ih =>
    refine ⟨?_, fun o mem => ?_⟩
    · rw [List.map_cons, List.map_cons, ih.1, first.2]
    · rcases List.mem_cons.mp mem with rfl | later
      · exact ⟨row, .head _, first⟩
      · obtain ⟨r, there, made⟩ := ih.2 o later
        exact ⟨r, .tail _ there, made⟩

theorem new_in_bulk {row : JobRow δ}
    (absent : stored.get? jid = none) (found : (bulkCreate stored objs).get? jid = some row) :
    ∃ obj ∈ objs, obj.1 = jid ∧ row = newRow obj.2 := by
  rw [get?_bulkCreate, absent, Option.none_or] at found
  obtain ⟨obj, first, rfl⟩ := Option.map_eq_some_iff.mp found
  have hit := List.find?_some first
  exact ⟨obj, List.mem_of_find?_eq_some first, (of_decide_eq_true hit).symm, rfl⟩

theorem new_unstamped {inserted : List String}
    {after : JobData δ} (stamped : Stamped db inserted (bulkCreate stored objs) after) {row : JobRow δ} (absent : stored.get? jid = none)
    (found : (bulkCreate stored objs).get? jid = some row) : after.get? jid = some row := by
  rcases stamped.kept jid row found with same | ⟨-, -, computed, -⟩
  · exact same
  · obtain ⟨obj, -, -, rfl⟩ := new_in_bulk absent found
    cases computed

theorem syncAcct_addsNewJobs (contained : ∀ id ∈ jobsInDb, (stored.get? id.str).isSome)
    (inserts : Inserts db stored
      ((keptRows debug keywords jobsInDb table).map fun row => row.jid.str)) :
    AddsNewJobs reading db debug keywords table stored
      (syncAcctDataframe reading db debug keywords jobsInDb table stored) := by
  have unchanged : ∀ message, AddsNewJobs reading db debug keywords table stored
      (stored, .failedBefore message) := by
    intro message
    refine ⟨fun _ _ => rfl, fun no => absurd rfl (no message), fun jid row absent found => ?_,
      fun jid row found => Or.inl found, fun n eq => AcctEnd.noConfusion eq⟩
    rw [absent] at found
    cases found
  unfold syncAcctDataframe
  dsimp only
  split
  · cases built : buildJobs reading (keptRows debug keywords jobsInDb table) with
    | error message => exact unchanged message
    | ok objs =>
      dsimp only
      have rows := buildJobs_rows built
      obtain ⟨keys, sources⟩ := keys_of_rows rows
      rw [← keys] at inserts
      rcases insertJobs_cases inserts with ⟨message, failed⟩ | ⟨stamped, returned, count⟩
      · rw [failed]
        exact unchanged message
      · rw [keys] at stamped count
        have new : (newOf stored ((keptRows debug keywords jobsInDb table).map fun row =>
            row.jid.str)).Perm (newJids debug keywords table stored) := newOf_kept contained
        refine ⟨fun message failed => absurd failed (returned message), fun _ jid => ?_,
          fun jid row absent found => ?_, fun jid row found => ?_, fun n eq => ?_⟩
        · have same : ((insertJobs db objs stored).1.get? jid).isSome ↔
              ((bulkCreate stored objs).get? jid).isSome := by
            cases there : (bulkCreate stored objs).get? jid with
            | none => rw [stamped.absent jid there]
            | some row => rcases stamped.kept jid row there with same | ⟨same, -⟩ <;> simp [same]
          rw [same, isSome_bulkCreate, keys, ← new.mem_iff, mem_newOf]
          cases stored.get? jid <;> simp
        · obtain ⟨first, there, -⟩ := stamped.job found
          obtain ⟨obj, mem, rfl, rfl⟩ := new_in_bulk absent there
          rw [new_unstamped stamped absent there] at found
          cases found
          obtain ⟨line, kept, made, key⟩ := sources obj mem
          obtain ⟨inside, -, free⟩ := mem_keptRows.mp kept
          exact ⟨_, line, inside, free, key, made, rfl, rfl⟩
        · have there : (bulkCreate stored objs).get? jid = some row := by
            rw [get?_bulkCreate, found, Option.some_or]
          rcases stamped.kept jid row there with same | ⟨same, unstamped, computed, rest⟩
          · exact Or.inl same
          · obtain ⟨affinity, j, mem, other, where', overlap⟩ := rest
            have absent := (mem_newOf.mp mem).2
            exact Or.inr ⟨same, unstamped, computed, affinity, j, absent, other,
              new_unstamped stamped absent where', overlap⟩
        · rw [count n eq, new.length_eq]
  · exact unchanged _

/-- The load of a table adds exactly the new jobs that are not restricted, and the same table loaded
again adds and changes nothing. -/
theorem accounting_adds_new_jobs (reading : AcctReading α δ) (db : JobDatabase) (debug : Bool)
    (keywords : List String) (jobsInDb : List JobId) (table : AcctTable α) (stored : JobData δ)
    (contained : ∀ id ∈ jobsInDb, (stored.get? id.str).isSome)
    (inserts : Inserts db stored
      ((keptRows debug keywords jobsInDb table).map fun row => row.jid.str)) :
    let first := syncAcctDataframe reading db debug keywords jobsInDb table stored
    AddsNewJobs reading db debug keywords table stored first ∧
      ((∀ message, first.2 ≠ .failedBefore message) →
        ∀ (db' : JobDatabase) (jobsInDb' : List JobId),
          (∀ id ∈ jobsInDb', (first.1.get? id.str).isSome) →
          Inserts db' first.1
            ((keptRows debug keywords jobsInDb' table).map fun row => row.jid.str) →
          let second := syncAcctDataframe reading db' debug keywords jobsInDb' table first.1
          (∀ jid, second.1.get? jid = first.1.get? jid) ∧ ∀ n, second.2 = .returned n → n = 0) := by
  intro first
  have adds : AddsNewJobs reading db debug keywords table stored first :=
    syncAcct_addsNewJobs contained inserts
  refine ⟨adds, fun returned db' jobsInDb' contained' inserts' => ?_⟩
  intro second
  have again : AddsNewJobs reading db' debug keywords table first.1 second :=
    syncAcct_addsNewJobs contained' inserts'
  have none : newJids debug keywords table first.1 = [] := by
    refine List.eq_nil_iff_forall_not_mem.mpr fun jid mem => ?_
    obtain ⟨listed, absent⟩ := mem_newOf.mp mem
    have there : (first.1.get? jid).isSome := by
      refine (adds.added returned jid).mpr ?_
      cases known : stored.get? jid with
      | some row => exact Or.inl rfl
      | none => exact Or.inr (mem_newOf.mpr ⟨listed, known⟩)
    rw [absent] at there
    cases there
  have same : ∀ jid, (second.1.get? jid).isSome ↔ (first.1.get? jid).isSome := by
    intro jid
    cases ended : second.2 with
    | failedBefore message => rw [again.failed message ended]
    | failedAfter message =>
      rw [again.added (fun m eq => by rw [ended] at eq; cases eq) jid, none]
      simp
    | returned n =>
      rw [again.added (fun m eq => by rw [ended] at eq; cases eq) jid, none]
      simp
  refine ⟨fun jid => ?_, fun n eq => by rw [again.counted n eq, none, List.length_nil]⟩
  cases found : first.1.get? jid with
  | none =>
    have absent := same jid
    rw [found] at absent
    simpa using absent
  | some row =>
    rcases again.kept jid row found with kept | ⟨-, -, -, -, j, absent, other, there, -⟩
    · exact kept
    · have added := same j
      rw [absent, there] at added
      simp at added

def oneJob (queue : String) : AcctTable Unit := ⟨columnsToRead, [⟨.number 601, some queue, ()⟩]⟩

def sameWindow : AcctReading Unit Unit where
  times := fun _ => none
  nodeList := fun _ => none
  nodeHours := fun _ => none
  job := fun _ row => .ok ⟨row.queue, 0, 10, ["node1"], ()⟩

def workingDatabase : JobDatabase := ⟨none, false, fun _ => false, none, 1, 99, fun _ => false⟩

def computedJob : JobData Unit :=
  Dict.empty.set "5" ⟨⟨some "batch", 0, 10, ["node1"], ()⟩, true, none⟩

theorem accounting_adds_a_batch_job :
    ((syncAcctDataframe sameWindow workingDatabase true ["secret"] [] (oneJob "batch")
      computedJob).1.get? "601").isSome := by
  have adds := (accounting_adds_new_jobs sameWindow workingDatabase true ["secret"] []
    (oneJob "batch") computedJob (fun _ mem => absurd mem List.not_mem_nil)
    (fun fails => Bool.noConfusion fails)).1
  have ended : (syncAcctDataframe sameWindow workingDatabase true ["secret"] [] (oneJob "batch")
      computedJob).2 = .returned 1 := by decide +kernel
  refine (adds.added (fun message eq => ?_) "601").mpr (Or.inr (by decide +kernel))
  cases eq

theorem restricted_job_added :
    "secret".toList <:+: "secret-batch".toList ∧
      ((syncAcctDataframe sameWindow workingDatabase false ["secret"] []
        (oneJob "secret-batch") computedJob).1.get? "601").isSome ∧
      (syncAcctDataframe sameWindow workingDatabase false ["secret"] []
        (oneJob "secret-batch") computedJob).1.get? "5" ≠ computedJob.get? "5" := by
  decide +kernel

end Claim

end PerfStats.Ingest
