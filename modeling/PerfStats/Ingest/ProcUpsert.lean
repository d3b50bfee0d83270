import PerfStats.Feed.Parser

namespace PerfStats.Ingest

open Lib Feed

section Emit

/-- A cell of a row dict or of a column; a null cell is `none` around it. -/
inductive ProcCell where
  | text (s : Str)
  | int (n : Int)
  | time (q : ℚ)
  deriving DecidableEq

def rowKeys (row : ProcRow) : List Str :=
  [lit "time", lit "host", lit "jid", lit "proc", lit "device"] ++
    row.fields.entries.map Prod.fst

def rowGet (row : ProcRow) (key : Str) : Option ProcCell :=
  if key = lit "time" then some (.time row.time)
  else if key = lit "host" then some (.text row.host)
  else if key = lit "jid" then some (.text row.jid)
  else if key = lit "proc" then some (.text row.proc)
  else if key = lit "device" then some (.text row.device)
  else (row.fields.get? key).join.map .int

abbrev ProcColumns := Dict Str (List (Option ProcCell))

/-- A column for every key that some row has. -/
def procRowsToColumns (rows : List ProcRow) : ProcColumns :=
  (rows.flatMap rowKeys).foldl (fun cols key => cols.set key (rows.map (rowGet · key))) .empty

/-- The rows of one flush, merged online: `_merge_proc_row_online`, `take_proc_stats`. -/
def takeProcStats (rows : List ProcRow) : List ProcRow :=
  (rows.foldl Parser.mergeProc .empty).entries.map Prod.snd

def dedupeProcStatsPeakMerge (rows : List ProcRow) : List ProcRow :=
  (rows.foldl (fun (byKey : Dict ProcKey ProcRow) row =>
    match byKey.get? row.key with
    | some earlier => byKey.set row.key (mergeProcRowDicts earlier row)
    | none => byKey.set row.key row) .empty).entries.map Prod.snd

end Emit

section Upsert

/-- A row of `proc_data_ingest_stage`: its unique key and the columns an upsert updates. -/
structure StageRow where
  key : ProcKey
  device : Option Str
  metrics : Str → Option Int

def textCell : Option ProcCell → Option Str
  | some (.text s) => some s
  | _ => none

def intCell : Option ProcCell → Option Int
  | some (.int n) => some n
  | _ => none

def columnCell (cols : ProcColumns) (key : Str) (i : Nat) : Option ProcCell :=
  (((cols.get? key).getD [])[i]?).join

def stageRow (cols : ProcColumns) (i : Nat) : StageRow where
  key := ((textCell (columnCell cols (lit "jid") i)).getD [],
    (textCell (columnCell cols (lit "host") i)).getD [],
    (textCell (columnCell cols (lit "proc") i)).getD [])
  device := textCell (columnCell cols (lit "device") i)
  metrics f := if f ∈ hostProcKeys then intCell (columnCell cols f i) else none

def stageRows (cols : ProcColumns) : List StageRow :=
  (List.range ((cols.get? (lit "proc")).getD []).length).map (stageRow cols)

@[ext] structure ProcData where
  device : Option Str
  metrics : Str → Option Int

abbrev ProcTable := ProcKey → Option ProcData

/-- The `SET` list; `GREATEST` ignores nulls as `_nullable_int_max` does. -/
def updated (old : ProcData) (new : StageRow) : ProcData where
  device := new.device
  metrics f :=
    if f ∈ hostProcKeys then
      if f ∈ hostProcPeakKeys then nullableIntMax (old.metrics f) (new.metrics f)
      else new.metrics f
    else old.metrics f

def rises (old new : Option Int) : Bool :=
  match old, new with
  | _, none => false
  | none, some _ => true
  | some old, some new => old < new

/-- The `WHERE` list. -/
def rewrites (old : ProcData) (new : StageRow) : Bool :=
  old.device ≠ new.device || hostProcKeys.any fun f =>
    if f ∈ hostProcPeakKeys then rises (old.metrics f) (new.metrics f)
    else old.metrics f ≠ new.metrics f

def upsertRow (table : ProcTable) (new : StageRow) : ProcTable :=
  Function.update table new.key <| some <|
    match table new.key with
    | none => ⟨new.device, new.metrics⟩
    | some old => if rewrites old new then updated old new else old

def keyWords (key : ProcKey) : List Str := [key.1, key.2.1, key.2.2]

/-- `_stage_upsert_sql`: the stage is read in key order. -/
def stageUpsert (table : ProcTable) (stage : List StageRow) : ProcTable :=
  (stage.insertionSort fun a b => keyWords a.key ≤ keyWords b.key).foldl upsertRow table

def flushProc (table : ProcTable) (rows : List ProcRow) : ProcTable :=
  stageUpsert table (stageRows (procRowsToColumns (takeProcStats rows)))

def batchProc (table : ProcTable) (rows : List ProcRow) : ProcTable :=
  stageUpsert table (stageRows (procRowsToColumns (dedupeProcStatsPeakMerge rows)))

end Upsert

section Cells

abbrev Field := Option (Option Int)

def mergeField (f : Str) (a b : Field) : Field :=
  match b with
  | none => a
  | some v => if f ∈ hostProcPeakKeys then some (nullableIntMax a.join v) else some v

theorem nullableIntMax_none (v : Option Int) : nullableIntMax v none = v := by cases v <;> rfl

theorem nullableIntMax_assoc (a b c : Option Int) :
    nullableIntMax (nullableIntMax a b) c = nullableIntMax a (nullableIntMax b c) := by
  cases a <;> cases b <;> cases c <;> simp [nullableIntMax, max_assoc]

theorem mergeField_assoc (f : Str) (a b c : Field) :
    mergeField f (mergeField f a b) c = mergeField f a (mergeField f b c) := by
  cases c with
  | none => rfl
  | some v =>
    by_cases peak : f ∈ hostProcPeakKeys
    · cases b with
      | none => cases v <;> simp [mergeField, peak, nullableIntMax]
      | some w => simp [mergeField, peak, nullableIntMax_assoc]
    · simp [mergeField, peak]

theorem mergeField_none (f : Str) (b : Field) : mergeField f none b = b := by
  rcases b with _ | v
  · rfl
  · by_cases peak : f ∈ hostProcPeakKeys
    · cases v <;> simp [mergeField, peak, nullableIntMax]
    · simp [mergeField, peak]

private def mergeEntry (fields : Dict Str (Option Int)) (e : Str × Option Int) :
    Dict Str (Option Int) :=
  if e.1 ∈ hostProcPeakKeys then
    fields.set e.1 (nullableIntMax ((fields.get? e.1).getD none) e.2)
  else fields.set e.1 e.2

private theorem get?_mergeEntry (fields : Dict Str (Option Int)) (e : Str × Option Int) (f : Str) :
    (mergeEntry fields e).get? f =
      mergeField f (fields.get? f) (if e.1 = f then some e.2 else none) := by
  unfold mergeEntry
  by_cases same : e.1 = f
  · subst same
    by_cases peak : e.1 ∈ hostProcPeakKeys
    · rcases fields.get? e.1 with _ | v <;> simp [peak, mergeField]
    · simp [peak, mergeField]
  · have apart : f ≠ e.1 := Ne.symm same
    by_cases peak : e.1 ∈ hostProcPeakKeys <;> simp [peak, same, mergeField, Dict.get?_set, apart]

private theorem get?_foldl_mergeEntry (l : List (Str × Option Int)) (fields : Dict Str (Option Int))
    (f : Str) (distinct : (l.map Prod.fst).Nodup) : (l.foldl mergeEntry fields).get? f =
      mergeField f (fields.get? f) ((l.find? fun e => decide (e.1 = f)).map Prod.snd) := by
  induction l generalizing fields with
  | nil => rfl
  | cons e rest ih =>
    rcases List.nodup_cons.mp distinct with ⟨fresh, distinct⟩
    rw [List.foldl_cons, ih _ distinct, get?_mergeEntry]
    by_cases same : e.1 = f
    · have absent : rest.find? (fun e => decide (e.1 = f)) = none := by
        apply List.find?_eq_none.mpr
        intro other member here
        exact fresh (same ▸ of_decide_eq_true here ▸ List.mem_map_of_mem member)
      simp [same, absent, mergeField]
    · simp [same, mergeField]

theorem get?_merge (earlier later : ProcRow) (f : Str) :
    (mergeProcRowDicts earlier later).fields.get? f =
      mergeField f (earlier.fields.get? f) (later.fields.get? f) :=
  get?_foldl_mergeEntry later.fields.entries earlier.fields f later.fields.distinct

end Cells

section Merge

def mergeRows : List ProcRow → Option ProcRow
  | [] => none
  | row :: rest => some (rest.foldl mergeProcRowDicts row)

variable {row : ProcRow} (rows : List ProcRow)

theorem mergeRows_append {l : List ProcRow} : mergeRows (l ++ [row]) =
    some ((mergeRows l).elim row fun earlier => mergeProcRowDicts earlier row) := by
  cases l <;> simp [mergeRows]

def ofKey (key : ProcKey) (rows : List ProcRow) : List ProcRow :=
  rows.filter fun row => row.key = key

theorem ofKey_append (key : ProcKey) (l m : List ProcRow) :
    ofKey key (l ++ m) = ofKey key l ++ ofKey key m := List.filter_append _ _

def fieldOf (f : Str) (rows : List ProcRow) : Field :=
  rows.foldl (fun field row => mergeField f field (row.fields.get? f)) none

theorem foldl_mergeField (f : Str) (a : Field) (rows : List ProcRow) :
    rows.foldl (fun field row => mergeField f field (row.fields.get? f)) a =
      mergeField f a (fieldOf f rows) := by
  induction rows using List.reverseRecOn with
  | nil => rfl
  | append_singleton rows row ih =>
    rw [fieldOf, List.foldl_append, List.foldl_append, ih]
    exact mergeField_assoc f a _ _

theorem fieldOf_append (f : Str) (l m : List ProcRow) :
    fieldOf f (l ++ m) = mergeField f (fieldOf f l) (fieldOf f m) := by
  rw [fieldOf, List.foldl_append]
  exact foldl_mergeField f _ m

theorem mergeRows_spec : match mergeRows rows with
    | none => rows = []
    | some row => (∀ f, row.fields.get? f = fieldOf f rows) ∧
        rows.getLast?.map ProcRow.device = some row.device ∧
          rows.getLast?.map ProcRow.key = some row.key := by
  induction rows using List.reverseRecOn with
  | nil => rfl
  | append_singleton rows row ih =>
    rw [mergeRows_append]
    rcases merged : mergeRows rows with _ | earlier
    · rw [merged] at ih
      simp [ih, fieldOf, mergeField_none]
    · rw [merged] at ih
      rcases ih with ⟨fields, -, -⟩
      refine ⟨fun f => ?_, by simp [mergeProcRowDicts], by simp [mergeProcRowDicts, ProcRow.key]⟩
      rw [fieldOf_append, ← fields f]
      simpa [fieldOf, mergeField_none] using get?_merge earlier row f

theorem get?_foldl_mergeProc (key : ProcKey) (rows : List ProcRow) :
    (rows.foldl Parser.mergeProc .empty).get? key = mergeRows (ofKey key rows) := by
  induction rows using List.reverseRecOn with
  | nil => rfl
  | append_singleton rows row ih =>
    rw [List.foldl_append, ofKey_append]
    by_cases same : row.key = key
    · subst same
      have mine : ofKey row.key [row] = [row] := by simp [ofKey]
      rw [mine, mergeRows_append, ← ih]
      simp [Parser.mergeProc]
    · have other : ofKey key [row] = [] := by simp [ofKey, same]
      rw [other, List.append_nil, ← ih]
      simp [Parser.mergeProc, Dict.get?_set, Ne.symm same]

theorem dedupe_eq_take : dedupeProcStatsPeakMerge rows = takeProcStats rows := by
  unfold dedupeProcStatsPeakMerge takeProcStats
  congr 3
  funext byKey row
  unfold Parser.mergeProc
  cases byKey.get? row.key <;> rfl

theorem key_of_merged {key : ProcKey} {rows : List ProcRow}
    (merged : mergeRows (ofKey key rows) = some row) : row.key = key := by
  have spec := mergeRows_spec (ofKey key rows)
  rw [merged] at spec
  rcases Option.map_eq_some_iff.mp spec.2.2 with ⟨last, present, same⟩
  have mine := List.mem_of_getLast? present
  rw [← same]
  exact of_decide_eq_true (List.mem_filter.mp mine).2

theorem mem_takeProcStats {rows : List ProcRow} :
    row ∈ takeProcStats rows ↔ mergeRows (ofKey row.key rows) = some row := by
  rw [← get?_foldl_mergeProc, Dict.get?_eq_some, takeProcStats, List.mem_map]
  constructor
  · rintro ⟨⟨key, merged⟩, member, rfl⟩
    have here := Dict.get?_eq_some.mpr member
    rw [get?_foldl_mergeProc] at here
    rwa [key_of_merged here]
  · intro member
    exact ⟨_, member, rfl⟩

theorem takeProcStats_distinct : ((takeProcStats rows).map ProcRow.key).Nodup := by
  let byKey : Dict ProcKey ProcRow := rows.foldl Parser.mergeProc .empty
  have keys : (takeProcStats rows).map ProcRow.key = byKey.entries.map Prod.fst := by
    rw [takeProcStats, List.map_map]
    apply List.map_congr_left
    rintro ⟨key, merged⟩ member
    have here := Dict.get?_eq_some.mpr member
    rw [get?_foldl_mergeProc] at here
    exact key_of_merged here
  rw [keys]
  exact byKey.distinct

end Merge

section Stage

variable {row : ProcRow}

theorem foldl_update_of_mem {κ ν : Type*} [DecidableEq κ] (l : List κ) (val : κ → ν)
    (last : κ → Option ν) (k : κ) :
    l.foldl (fun last a => Function.update last a (some (val a))) last k =
      if k ∈ l then some (val k) else last k := by
  induction l using List.reverseRecOn with
  | nil => simp
  | append_singleton l a ih =>
    by_cases same : k = a
    · simp [same]
    · simp [same, ih]

theorem get?_procRowsToColumns (rows : List ProcRow) (key : Str) :
    (procRowsToColumns rows).get? key =
      if key ∈ rows.flatMap rowKeys then some (rows.map (rowGet · key)) else none := by
  have written := Dict.get?_foldl_set (fun k : Str => k) (fun k => rows.map (rowGet · k))
    (rows.flatMap rowKeys) (.empty : ProcColumns)
  rw [procRowsToColumns, written]
  refine (foldl_update_of_mem _ (fun k => rows.map (rowGet · k)) _ key).trans ?_
  by_cases member : key ∈ rows.flatMap rowKeys
  · rw [if_pos member, if_pos member]
  · rw [if_neg member, if_neg member]
    rfl

theorem rowGet_absent {key : Str} (absent : key ∉ rowKeys row) :
    rowGet row key = none := by
  simp only [rowKeys, List.mem_append, List.mem_cons, List.not_mem_nil, or_false, not_or] at absent
  rcases absent with ⟨⟨time, host, jid, proc, device⟩, fields⟩
  rw [rowGet, if_neg time, if_neg host, if_neg jid, if_neg proc, if_neg device,
    Dict.get?_eq_none.mpr fields]
  rfl

theorem columnCell_rows {rows : List ProcRow} {i : Nat} (key : Str)
    (here : rows[i]? = some row) : columnCell (procRowsToColumns rows) key i = rowGet row key := by
  rw [columnCell, get?_procRowsToColumns]
  split
  · simp [here]
  next absent =>
    have missing : key ∉ rowKeys row := fun member =>
      absent (List.mem_flatMap.mpr ⟨row, List.mem_of_getElem? here, member⟩)
    simp [rowGet_absent missing]

theorem rowGet_field (row : ProcRow) {f : Str} (known : f ∈ hostProcKeys) :
    rowGet row f = (row.fields.get? f).join.map .int := by
  have apart : ∀ g ∈ hostProcKeys, g ≠ lit "time" ∧ g ≠ lit "host" ∧ g ≠ lit "jid" ∧
      g ≠ lit "proc" ∧ g ≠ lit "device" := by
    decide
  rcases apart f known with ⟨time, host, jid, proc, device⟩
  rw [rowGet, if_neg time, if_neg host, if_neg jid, if_neg proc, if_neg device]

def stageOf (row : ProcRow) : StageRow where
  key := row.key
  device := some row.device
  metrics f := if f ∈ hostProcKeys then (row.fields.get? f).join else none

theorem stageRow_rows {rows : List ProcRow} {i : Nat} (here : rows[i]? = some row) :
    stageRow (procRowsToColumns rows) i = stageOf row := by
  have jid : rowGet row (lit "jid") = some (.text row.jid) := rfl
  have host : rowGet row (lit "host") = some (.text row.host) := rfl
  have proc : rowGet row (lit "proc") = some (.text row.proc) := rfl
  have device : rowGet row (lit "device") = some (.text row.device) := rfl
  simp only [stageRow, columnCell_rows _ here, jid, host, proc, device, stageOf, textCell,
    Option.getD_some, ProcRow.key, StageRow.mk.injEq, true_and]
  funext f
  split
  next known =>
    rw [rowGet_field row known]
    cases (row.fields.get? f).join <;> rfl
  · rfl

theorem stageRows_columns (rows : List ProcRow) :
    stageRows (procRowsToColumns rows) = rows.map stageOf := by
  have count :
      (((procRowsToColumns rows).get? (lit "proc")).getD []).length = rows.length := by
    rw [get?_procRowsToColumns]
    cases rows with
    | nil => rfl
    | cons row rest => simp [rowKeys]
  rw [stageRows, count]
  apply List.ext_getElem (by simp)
  intro i before _
  have bound : i < rows.length := by simpa using before
  simpa using stageRow_rows (List.getElem?_eq_getElem bound)

end Stage

section Table

variable {stage : List StageRow}

def stored (old : Option ProcData) (new : StageRow) : ProcData :=
  match old with
  | none => ⟨new.device, new.metrics⟩
  | some old => if rewrites old new then updated old new else old

theorem foldl_upsertRow_other {key : ProcKey}
    (other : ∀ row ∈ stage, row.key ≠ key) (table : ProcTable) :
    stage.foldl upsertRow table key = table key := by
  induction stage generalizing table with
  | nil => rfl
  | cons row rest ih =>
    rw [List.foldl_cons, ih fun r member => other r (.tail _ member)]
    exact Function.update_of_ne (Ne.symm (other row (.head _))) _ _

theorem foldl_upsertRow_mem {row : StageRow} (member : row ∈ stage)
    (distinct : (stage.map StageRow.key).Nodup) (table : ProcTable) :
    stage.foldl upsertRow table row.key = some (stored (table row.key) row) := by
  induction stage generalizing table with
  | nil => cases member
  | cons head rest ih =>
    rcases List.nodup_cons.mp distinct with ⟨fresh, distinct⟩
    rw [List.foldl_cons]
    rcases List.mem_cons.mp member with rfl | later
    · have others : ∀ r ∈ rest, r.key ≠ row.key := fun r member same =>
        fresh (same ▸ List.mem_map_of_mem member)
      rw [foldl_upsertRow_other others]
      simp only [upsertRow, Function.update_self, stored]
    · have apart : row.key ≠ head.key := fun same =>
        fresh (same ▸ List.mem_map_of_mem later)
      rw [ih later distinct]
      simp [upsertRow, apart]

theorem flushProc_apply (table : ProcTable) (rows : List ProcRow) (key : ProcKey) :
    flushProc table rows key = match mergeRows (ofKey key rows) with
      | none => table key
      | some row => some (stored (table key) (stageOf row)) := by
  let stage := (takeProcStats rows).map stageOf
  let sorted := stage.insertionSort fun a b => keyWords a.key ≤ keyWords b.key
  have same : flushProc table rows = sorted.foldl upsertRow table := by
    rw [flushProc, stageRows_columns]
    rfl
  have perm : sorted.Perm stage := List.perm_insertionSort _ _
  have distinct : (sorted.map StageRow.key).Nodup := by
    rw [(perm.map StageRow.key).nodup_iff, List.map_map]
    exact takeProcStats_distinct rows
  rw [same]
  split
  next absent =>
    apply foldl_upsertRow_other
    intro new member here
    rcases List.mem_map.mp (perm.mem_iff.mp member) with ⟨row, present, rfl⟩
    have merged := mem_takeProcStats.mp present
    rw [show row.key = key from here, absent] at merged
    cases merged
  next row merged =>
    have mine := key_of_merged merged
    have present : row ∈ takeProcStats rows := by
      rw [mem_takeProcStats, mine]
      exact merged
    have member : stageOf row ∈ sorted := perm.mem_iff.mpr (List.mem_map_of_mem present)
    have result := foldl_upsertRow_mem member distinct table
    rw [← mine]
    exact result

end Table

section Stored

variable {old : ProcData} {new : StageRow}

theorem max_of_not_rises {a b : Option Int} (flat : rises a b = false) :
    nullableIntMax a b = a := by
  rcases a with _ | a <;> rcases b with _ | b
  · rfl
  · cases flat
  · rfl
  · have below : b ≤ a := by simpa [rises] using flat
    simp [nullableIntMax, max_eq_left below]

theorem stored_some : stored (some old) new = updated old new := by
  rw [stored]
  split
  · rfl
  next kept =>
    simp only [rewrites, Bool.or_eq_true, decide_eq_true_eq, List.any_eq_true, not_or, not_exists,
      not_and, ne_eq, Decidable.not_not] at kept
    rcases kept with ⟨device, metrics⟩
    refine ProcData.ext device (funext fun f => ?_)
    rw [updated]
    by_cases known : f ∈ hostProcKeys
    · have same := metrics f known
      by_cases peak : f ∈ hostProcPeakKeys
      · rw [if_pos peak, Bool.not_eq_true] at same
        simp only [known, peak, if_true]
        exact (max_of_not_rises same).symm
      · rw [if_neg peak] at same
        simpa [known, peak] using same
    · simp [known]

def metricOf (row : Option ProcData) (f : Str) : Option Int := row.bind fun row => row.metrics f

def putMetric (f : Str) (old new : Option Int) : Option Int :=
  if f ∈ hostProcKeys then if f ∈ hostProcPeakKeys then nullableIntMax old new else new else old

theorem metric_stored (old : Option ProcData) (row : ProcRow) (f : Str) :
    (stored old (stageOf row)).metrics f =
      putMetric f (metricOf old f) (row.fields.get? f).join := by
  rcases old with _ | old
  · by_cases known : f ∈ hostProcKeys
    · have empty : nullableIntMax none (row.fields.get? f).join = (row.fields.get? f).join := by
        cases (row.fields.get? f).join <;> rfl
      by_cases peak : f ∈ hostProcPeakKeys <;>
        simp [stored, stageOf, putMetric, metricOf, known, peak, empty]
    · simp [stored, stageOf, putMetric, metricOf, known]
  · rw [stored_some]
    by_cases known : f ∈ hostProcKeys <;> simp [updated, stageOf, putMetric, metricOf, known]

theorem device_stored (old : Option ProcData) (row : ProcRow) :
    (stored old (stageOf row)).device = some row.device := by
  rcases old with _ | old
  · rfl
  · rw [stored_some]
    rfl

end Stored

section Flushes

variable {table : ProcTable} {key : ProcKey} {f : Str} {flushes : List (List ProcRow)}
  {after : List (List ProcRow)}

theorem metric_flush (table : ProcTable) (rows : List ProcRow) (key : ProcKey) (f : Str) :
    metricOf (flushProc table rows key) f =
      if ofKey key rows = [] then metricOf (table key) f
      else putMetric f (metricOf (table key) f) (fieldOf f (ofKey key rows)).join := by
  have spec := mergeRows_spec (ofKey key rows)
  rw [flushProc_apply]
  rcases merged : mergeRows (ofKey key rows) with _ | row <;> rw [merged] at spec
  · rw [if_pos spec]
  · have some_ : ofKey key rows ≠ [] := by
      intro none_
      rw [none_] at merged
      cases merged
    rw [if_neg some_, ← spec.1 f]
    exact metric_stored _ row f

theorem join_mergeField_peak {f : Str} (peak : f ∈ hostProcPeakKeys) (a b : Field) :
    (mergeField f a b).join = nullableIntMax a.join b.join := by
  rcases b with _ | v
  · exact (nullableIntMax_none _).symm
  · simp [mergeField, peak]

theorem metric_flushes (flushes : List (List ProcRow)) (table : ProcTable)
    (settled : f ∉ hostProcKeys ∨ f ∈ hostProcPeakKeys) :
    metricOf (flushes.foldl flushProc table key) f =
      putMetric f (metricOf (table key) f) (fieldOf f (ofKey key flushes.flatten)).join := by
  induction flushes using List.reverseRecOn with
  | nil =>
    by_cases known : f ∈ hostProcKeys
    · have peak := settled.resolve_left (not_not_intro known)
      simp [putMetric, known, peak, fieldOf, ofKey, nullableIntMax_none]
    · simp [putMetric, known]
  | append_singleton flushes rows ih =>
    rw [List.foldl_append, List.foldl_cons, List.foldl_nil, metric_flush, ih,
      List.flatten_append, ofKey_append, fieldOf_append]
    have whole : ofKey key [rows].flatten = ofKey key rows := by simp
    rw [whole]
    by_cases none_ : ofKey key rows = []
    · rw [if_pos none_, none_]
      rfl
    · rw [if_neg none_]
      by_cases known : f ∈ hostProcKeys
      · have peak := settled.resolve_left (not_not_intro known)
        simp only [putMetric, known, peak, if_true, join_mergeField_peak peak,
          nullableIntMax_assoc]
      · simp [putMetric, known]

theorem flushes_other (none_ : ofKey key flushes.flatten = [])
    (table : ProcTable) : flushes.foldl flushProc table key = table key := by
  induction flushes generalizing table with
  | nil => rfl
  | cons rows rest ih =>
    rw [List.flatten_cons, ofKey_append, List.append_eq_nil_iff] at none_
    rw [List.foldl_cons, ih none_.2, flushProc_apply, none_.1]
    rfl

theorem last_flush (some_ : ofKey key flushes.flatten ≠ []) :
    ∃ before last after, flushes = before ++ last :: after ∧ ofKey key last ≠ [] ∧
      ofKey key after.flatten = [] := by
  induction flushes using List.reverseRecOn with
  | nil => exact absurd rfl some_
  | append_singleton flushes rows ih =>
    by_cases here : ofKey key rows = []
    · have earlier : ofKey key flushes.flatten ≠ [] := by
        intro none_
        apply some_
        simp [List.flatten_append, ofKey_append, none_, here]
      rcases ih earlier with ⟨before, last, after, rfl, mine, none_⟩
      refine ⟨before, last, after ++ [rows], by simp, mine, ?_⟩
      simp [List.flatten_append, ofKey_append, none_, here]
    · exact ⟨flushes, rows, [], rfl, here, rfl⟩

def carries (f : Str) (row : ProcRow) : Bool := (row.fields.get? f).isSome

def lastValue (key : ProcKey) (f : Str) (rows : List ProcRow) : Option Int :=
  (((ofKey key rows).filter (carries f)).getLast?.bind fun row => row.fields.get? f).join

theorem fieldOf_plain (plain : f ∉ hostProcPeakKeys) (rows : List ProcRow) :
    fieldOf f rows = (rows.filter (carries f)).getLast?.bind fun row => row.fields.get? f := by
  induction rows using List.reverseRecOn with
  | nil => rfl
  | append_singleton rows row ih =>
    rw [fieldOf_append, ih, List.filter_append]
    rcases here : row.fields.get? f with _ | v
    · simp [fieldOf, mergeField, here, carries]
    · simp [fieldOf, mergeField, here, carries, plain]

/-- Every metric that is no peak is carried again in the last flush of its key, or was null
or never carried before it. -/
def Restated (flushes : List (List ProcRow)) : Prop :=
  ∀ key, ∀ f ∈ hostProcKeys, f ∉ hostProcPeakKeys → ∀ before last after,
    flushes = before ++ last :: after → ofKey key last ≠ [] → ofKey key after.flatten = [] →
      (∃ row ∈ ofKey key last, carries f row = true) ∨ lastValue key f before.flatten = none

theorem join_mergeField_plain (plain : f ∉ hostProcPeakKeys) (a b : Field) :
    b.join = (mergeField f a b).join ↔ b.isSome = true ∨ a.join = none := by
  rcases b with _ | v
  · simp [mergeField, eq_comm]
  · simp [mergeField, plain]

theorem fieldOf_isSome (plain : f ∉ hostProcPeakKeys) (rows : List ProcRow) :
    (fieldOf f rows).isSome = true ↔ ∃ row ∈ rows, carries f row = true := by
  rw [fieldOf_plain plain]
  constructor
  · intro some_
    rcases Option.isSome_iff_exists.mp some_ with ⟨v, found⟩
    rcases Option.bind_eq_some_iff.mp found with ⟨row, last, -⟩
    exact ⟨row, List.mem_filter.mp (List.mem_of_getLast? last)⟩
  · rintro ⟨row, member, here⟩
    have inFilter : row ∈ rows.filter (carries f) := List.mem_filter.mpr ⟨member, here⟩
    rcases last : (rows.filter (carries f)).getLast? with _ | other
    · rw [List.getLast?_eq_none_iff.mp last] at inFilter
      cases inFilter
    · exact (List.mem_filter.mp (List.mem_of_getLast? last)).2

theorem merged_of_mine {rows : List ProcRow} (mine : ofKey key rows ≠ []) :
    ∃ row, mergeRows (ofKey key rows) = some row ∧
      (ofKey key rows).getLast?.map ProcRow.device = some row.device := by
  have spec := mergeRows_spec (ofKey key rows)
  rcases merged : mergeRows (ofKey key rows) with _ | row <;> rw [merged] at spec
  · exact absurd spec mine
  · exact ⟨row, rfl, spec.2.1⟩

variable {before : List (List ProcRow)} {last : List ProcRow}

theorem stored_at_last (table : ProcTable) (mine : ofKey key last ≠ []) :
    flushProc (before.foldl flushProc table) last key =
        flushProc table (before.flatten ++ last) key ↔
      ∀ f ∈ hostProcKeys, f ∉ hostProcPeakKeys →
        (∃ row ∈ ofKey key last, carries f row = true) ∨ lastValue key f before.flatten = none := by
  have whole : ofKey key (before.flatten ++ last) ≠ [] := by
    rw [ofKey_append]
    exact fun none_ => mine (List.append_eq_nil_iff.mp none_).2
  have metrics : ∀ f, metricOf (flushProc (before.foldl flushProc table) last key) f =
        metricOf (flushProc table (before.flatten ++ last) key) f ↔
      (f ∈ hostProcKeys → f ∉ hostProcPeakKeys →
        (∃ row ∈ ofKey key last, carries f row = true) ∨ lastValue key f before.flatten = none) := by
    intro f
    rw [metric_flush, if_neg mine, metric_flush, if_neg whole, ofKey_append, fieldOf_append]
    by_cases known : f ∈ hostProcKeys
    · by_cases peak : f ∈ hostProcPeakKeys
      · rw [metric_flushes before table (.inr peak)]
        simp [putMetric, known, peak, join_mergeField_peak, nullableIntMax_assoc]
      · rw [lastValue, ← fieldOf_plain peak, ← fieldOf_isSome peak]
        simpa [putMetric, known, peak] using join_mergeField_plain peak _ _
    · rw [metric_flushes before table (.inl known)]
      simp [putMetric, known]
  rcases merged_of_mine mine with ⟨left, leftMerged, leftDevice⟩
  rcases merged_of_mine whole with ⟨right, rightMerged, rightDevice⟩
  have device : left.device = right.device := by
    rw [ofKey_append, List.getLast?_append_of_ne_nil _ mine] at rightDevice
    exact Option.some.inj (leftDevice.symm.trans rightDevice)
  have leftStored : flushProc (before.foldl flushProc table) last key =
      some (stored (before.foldl flushProc table key) (stageOf left)) := by
    rw [flushProc_apply, leftMerged]
  have rightStored : flushProc table (before.flatten ++ last) key =
      some (stored (table key) (stageOf right)) := by
    rw [flushProc_apply, rightMerged]
  rw [leftStored, rightStored] at metrics ⊢
  rw [Option.some.injEq, ProcData.ext_iff, device_stored, device_stored, device, funext_iff]
  simp only [true_and]
  exact forall_congr' metrics

theorem foldl_flush_split (table : ProcTable)
    (none_ : ofKey key after.flatten = []) :
    (before ++ last :: after).foldl flushProc table key =
      flushProc (before.foldl flushProc table) last key := by
  rw [List.foldl_append, List.foldl_cons, flushes_other none_]

theorem batch_split (table : ProcTable)
    (none_ : ofKey key after.flatten = []) :
    batchProc table (before ++ last :: after).flatten key =
      flushProc table (before.flatten ++ last) key := by
  rw [batchProc, dedupe_eq_take, ← flushProc, flushProc_apply, flushProc_apply,
    List.flatten_append, List.flatten_cons, ← List.append_assoc, ofKey_append _ _ after.flatten,
    none_, List.append_nil]

/-- Flushing the rows part by part stores what the batch merge of all of them stores, from
any table, exactly when each last flush restates its plain fields. -/
theorem flushes_eq_batch_iff (table : ProcTable) (flushes : List (List ProcRow)) :
    flushes.foldl flushProc table = batchProc table flushes.flatten ↔ Restated flushes := by
  constructor
  · rintro same key f known plain before last after rfl mine none_
    have here := congrFun same key
    rw [foldl_flush_split table none_, batch_split table none_] at here
    exact (stored_at_last table mine).mp here f known plain
  · intro restated
    funext key
    by_cases none_ : ofKey key flushes.flatten = []
    · rw [flushes_other none_, batchProc, dedupe_eq_take, ← flushProc, flushProc_apply, none_]
      rfl
    · rcases last_flush none_ with ⟨before, last, after, rfl, mine, gone⟩
      rw [foldl_flush_split table gone, batch_split table gone]
      exact (stored_at_last table mine).mpr fun f known plain =>
        restated key f known plain before last after rfl mine gone

section Sparse

def rowOf (fields : Dict Str (Option Int)) : ProcRow :=
  ⟨1710000001, lit "c001", lit "7", lit "python", lit "python/1/0/0", fields⟩

def fullThenFast : List (List ProcRow) :=
  [[rowOf ((Dict.empty.set (lit "uid") (some 500)).set (lit "vm_size") (some 10))],
    [rowOf (Dict.empty.set (lit "vm_size") (some 12))]]

theorem fullThenFast_drops_uid :
    metricOf (fullThenFast.foldl flushProc (fun _ => none)
        (lit "7", lit "c001", lit "python")) (lit "uid") = none ∧
      metricOf (batchProc (fun _ => none) fullThenFast.flatten
        (lit "7", lit "c001", lit "python")) (lit "uid") = some 500 ∧
      fullThenFast.foldl flushProc (fun _ => none) ≠
        batchProc (fun _ => none) fullThenFast.flatten := by
  have flushed : metricOf (fullThenFast.foldl flushProc (fun _ => none)
      (lit "7", lit "c001", lit "python")) (lit "uid") = none := by decide +kernel
  have batched : metricOf (batchProc (fun _ => none) fullThenFast.flatten
      (lit "7", lit "c001", lit "python")) (lit "uid") = some 500 := by decide +kernel
  refine ⟨flushed, batched, fun same => ?_⟩
  rw [same, batched] at flushed
  cases flushed

end Sparse

end Flushes

end PerfStats.Ingest
