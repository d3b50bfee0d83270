import PerfStats.Feed.LiveAgreement

namespace PerfStats.Feed

open Lib PerfStats.Frame

def LiveSample.cols (s : LiveSample) : List StatsRow := s.parsed.elim [] Parser.cols

section Lines

def archivedLines (message : Str) (sample : LiveSample) : List Str :=
  if sample.parsed.isSome then splitlines message
  else (splitlines message).filter (!isMeasurement ·)

theorem isMeasurement_newline (line : Str) :
    isMeasurement (line ++ ['\n']) = isMeasurement line := by
  rw [isMeasurement, isMeasurement, lstrip_append_blank (by decide)]
  cases Text.lstrip line with
  | nil => rfl
  | cons first rest => rfl

theorem WholeLines.fileLines {m : Str} (whole : WholeLines m) :
    fileLines m = (splitlines m).map (· ++ ['\n']) := by
  obtain ⟨solid, joined⟩ := whole.lines
  conv_lhs => rw [← joined]
  exact fileLines_flatten solid

theorem WholeLines.archived {m : Str} (whole : WholeLines m) (sample : LiveSample) :
    archived m sample = ((archivedLines m sample).map (· ++ ['\n'])).flatten ∧
      ∀ line ∈ archivedLines m sample, '\n' ∉ line := by
  unfold Feed.archived archivedLines
  split
  · exact ⟨whole.lines.2.symm, whole.lines.1⟩
  · refine ⟨?_, fun line member => whole.lines.1 line (List.mem_filter.mp member).1⟩
    rw [whole.fileLines, List.filter_map]
    congr 3
    funext line
    exact congrArg not (isMeasurement_newline line)

theorem archiveOf_eq {messages : List Str} (whole : ∀ m ∈ messages, WholeLines m)
    (samples : List LiveSample) :
    archiveOf messages samples =
        ((List.zipWith archivedLines messages samples).flatten.map (· ++ ['\n'])).flatten ∧
      ∀ line ∈ (List.zipWith archivedLines messages samples).flatten, '\n' ∉ line := by
  induction messages generalizing samples with
  | nil => exact ⟨rfl, fun line member => absurd member List.not_mem_nil⟩
  | cons m rest ih =>
    obtain ⟨here, later⟩ := List.forall_mem_cons.mp whole
    cases samples with
    | nil => exact ⟨rfl, fun line member => absurd member List.not_mem_nil⟩
    | cons sample more =>
      obtain ⟨joined, solid⟩ := here.archived sample
      obtain ⟨joinedRest, solidRest⟩ := ih later more
      rw [archiveOf, List.zipWith_cons_cons, List.zipWith_cons_cons, List.flatten_cons,
        List.flatten_cons, List.map_append, List.flatten_append, ← joinedRest, ← joined]
      refine ⟨rfl, fun line member => ?_⟩
      cases List.mem_append.mp member with
      | inl first => exact solid line first
      | inr second => exact solidRest line second

theorem archiveOf_whole {messages : List Str} (whole : ∀ m ∈ messages, WholeLines m)
    {samples : List LiveSample} (count : samples.length = messages.length)
    (bare : ∀ pair ∈ messages.zip samples, pair.2.parsed = none →
      ∀ line ∈ splitlines pair.1, isMeasurement line = false) :
    archiveOf messages samples = messages.flatten := by
  rw [archiveOf, ← List.map_uncurry_zip_eq_zipWith]
  have same : (messages.zip samples).map (Function.uncurry archived) =
      (messages.zip samples).map Prod.fst := by
    apply List.map_congr_left
    intro pair member
    have own := whole pair.1 (List.of_mem_zip member).1
    obtain ⟨joined, -⟩ := own.archived pair.2
    have lines : archivedLines pair.1 pair.2 = splitlines pair.1 := by
      unfold archivedLines
      cases parsed : pair.2.parsed with
      | some p => rfl
      | none =>
        apply List.filter_eq_self.mpr
        intro line inside
        rw [bare pair member parsed line inside]
        rfl
    rw [lines, own.lines.2] at joined
    exact joined
  rw [same, List.map_fst_zip count.ge]

theorem foldl_filter_inert {α β : Type*} {f : β → α → β} {p : α → Bool}
    (inert : ∀ b a, p a = false → f b a = b) (l : List α) (b : β) :
    (l.filter p).foldl f b = l.foldl f b := by
  rw [List.foldl_filter]
  congr 1
  funext b a
  cases chosen : p a with
  | true => rfl
  | false => exact (inert b a chosen).symm

theorem foldl_archivedLines {β : Type*} {f : β → Str → β}
    (inert : ∀ b line, isMeasurement line = true → f b line = b) (m : Str) (sample : LiveSample)
    (b : β) : (archivedLines m sample).foldl f b = (splitlines m).foldl f b := by
  unfold archivedLines
  split
  · rfl
  · apply foldl_filter_inert
    intro b line letter
    exact inert b line (by simpa using letter)

end Lines

section Types

theorem mem_measurementTypesFrom {lines : List Str} {line : Str} (member : line ∈ lines)
    (letter : isMeasurement line = true) :
    Context.measuredType line ∈ measurementTypesFrom true lines := by
  have digit : isDigitLine line = false := by
    cases stripped : Text.lstrip line with
    | nil => simp [isDigitLine, stripped]
    | cons first rest =>
      have alpha : Text.isAlpha first = true := by simpa [isMeasurement, stripped] using letter
      simp [isDigitLine, stripped, Text.isDigit_of_isAlpha alpha]
  induction lines with
  | nil => cases member
  | cons other rest ih =>
    rw [measurementTypesFrom]
    cases List.mem_cons.mp member with
    | inl same =>
      subst same
      rw [if_neg (by rw [digit]; decide), if_pos (by rw [letter]; rfl)]
      exact .head _
    | inr later =>
      split
      · exact ih later
      · split
        · exact .tail _ (ih later)
        · exact ih later

theorem mem_sampleMeasurementTypes {lines : List Str} {line : Str}
    (headed : headerFirst lines = true)
    (member : line ∈ lines) (letter : isMeasurement line = true) :
    Context.measuredType line ∈ measurementTypesFrom false lines := by
  induction lines with
  | nil => cases member
  | cons other rest ih =>
    rw [headerFirst, Bool.or_eq_true] at headed
    have apart : isMeasurement other = false ∨ isFullHeader other = true := by
      cases headed with
      | inl full => exact .inr full
      | inr plain => exact .inl (by simpa using (Bool.and_eq_true_iff.mp plain).1)
    have inRest : line ∈ rest := by
      cases List.mem_cons.mp member with
      | inr later => exact later
      | inl same =>
        subst same
        cases apart with
        | inl plain => rw [plain] at letter; cases letter
        | inr full => rw [(measurement_first letter).2.2.1] at full; cases full
    rw [measurementTypesFrom]
    split
    · exact mem_measurementTypesFrom inRest letter
    · next digit =>
        apply ih _ inRest
        cases headed with
        | inl full => simp [isFullHeader, digit] at full
        | inr plain => exact (Bool.and_eq_true_iff.mp plain).2

end Types

section Schema

def Within (schema wider : Dict Str (List Str)) : Prop :=
  ∀ type tokens, schema.get? type = some tokens → wider.get? type = some tokens

theorem get?_noteBangLine (schema : Dict Str (List Str)) (line type : Str) :
    (noteBangLine schema line).get? type =
      ((noteBangLine .empty line).get? type).or (schema.get? type) := by
  unfold noteBangLine
  split
  · split
    · rw [Dict.get?_set, Dict.get?_set]
      split <;> rfl
    · rfl
  · rfl

theorem get?_foldl_noteBangLine (lines : List Str) (schema : Dict Str (List Str)) (type : Str) :
    (lines.foldl noteBangLine schema).get? type =
      ((lines.foldl noteBangLine .empty).get? type).or (schema.get? type) := by
  induction lines generalizing schema with
  | nil => rfl
  | cons line rest ih =>
    rw [List.foldl_cons, List.foldl_cons, ih, ih (noteBangLine .empty line),
      get?_noteBangLine schema, Option.or_assoc]

theorem get?_of_no_entries {schema : Dict Str (List Str)} (empty : schema.entries = [])
    (type : Str) : schema.get? type = none := by
  rw [Dict.get?, empty]
  rfl

theorem replaceSchema_within {w : LiveHost} {wider : Dict Str (List Str)}
    (within : Within w.schema wider) (message : Str) :
    Within (w.replaceSchema (parseSchemaFromBangLines message)).schema
      ((splitlines message).foldl noteBangLine wider) := by
  intro type tokens found
  rw [get?_foldl_noteBangLine]
  unfold LiveHost.replaceSchema at found
  split at found
  · next empty =>
      have none := get?_of_no_entries empty type
      rw [parseSchemaFromBangLines] at none
      rw [none]
      exact within type tokens found
  · rw [parseSchemaFromBangLines] at found
    rw [found]
    rfl

theorem replaceSchema_plain {message : Str} (plain : payloadHasSchemaBang message = false)
    (w : LiveHost) : w.replaceSchema (parseSchemaFromBangLines message) = w := by
  have none : parseSchemaFromBangLines message = .empty := foldl_noteBangLine_other plain
  rw [none]
  rfl

end Schema

section Boundary

variable {exclude : List Str} {seed : Dict Str (List Str)}

structure Boundary (exclude : List Str) (w : LiveHost) (armed : Bool) (c : Context) : Prop where
  started : c.startIdx = 0
  exclude : c.exclude = exclude
  schema : Within w.schema c.schema
  armed : c.armShared = armed

variable {w : LiveHost} {armed : Bool} {c c' : Context} {w' : LiveHost} {out : List Emit}

theorem feedLines_boundary {lines : List Str}
    (run : Traces Context.feedLine c lines out c') (started : c.startIdx = 0) :
    c'.startIdx = 0 ∧ c'.exclude = c.exclude ∧ c'.schema = lines.foldl noteBangLine c.schema ∧
      c'.armShared = armedBy c.armShared lines := by
  induction run with
  | nil => exact ⟨started, rfl, rfl, rfl⟩
  | cons taken _ ih =>
    have flags := Context.feedLine_flags started taken
    obtain ⟨start, exclude, schema, armed⟩ := ih ((feedLine_index taken).1.trans started)
    refine ⟨start, exclude.trans flags.exclude, ?_, ?_⟩
    · rw [schema, Context.feedLine_schema taken]
      rfl
    · rw [armed, flags.armed]
      rfl

theorem rowsOf_silent {lines : List Str} (run : Traces Context.feedLine c lines out c')
    (silent : ∀ line ∈ lines, isMeasurement line = false) : rowsOf out = [] := by
  induction run with
  | nil => rfl
  | cons taken _ ih =>
    obtain ⟨here, later⟩ := List.forall_mem_cons.mp silent
    rw [rowsOf_cons, Context.feedLine_silent (.inl here) taken, ih later]
    rfl

theorem parseSample_some {schema : Dict Str (List Str)} {message : Str} {p : Parser}
    (parsed : parseSample exclude schema message = .ok (some p)) :
    schemaCoversMeasurementTypes schema (sampleMeasurementTypes message) = true ∧
      ∃ d out, d.startIdx = 0 ∧ d.exclude = exclude ∧ d.schema = schema ∧ d.insert = false ∧
        d.armShared = false ∧ Traces Context.feedLine d (splitlines message) out p.context ∧
        p.cols = rowsOf out := by
  unfold parseSample at parsed
  dsimp only at parsed
  split at parsed
  · cases parsed
  · next covered =>
      rw [not_or, Bool.not_eq_false] at covered
      obtain ⟨d, compiled, parsed⟩ := bind_ok parsed
      unfold Context.compileInjectedSchema at compiled
      split at compiled
      · cases compiled
      · cases compiled
        split at parsed
        · cases parsed
        · next q fed =>
            have same : q = p := by
              split at parsed
              · cases parsed
              · split at parsed
                · cases parsed
                · cases parsed
                  rfl
            subst same
            obtain ⟨out, run, cols, -, -⟩ := Parser.feedLines_eq_ok.mp fed
            exact ⟨covered.2, _, out, rfl, rfl, rfl, rfl, rfl, run, cols⟩

theorem payload_rows {m : Str} {p : Parser} (boundary : Boundary exclude w armed c)
    (framed : Framed m)
    (shields : armed = true → shieldsMarks (splitlines m) = true)
    (parsed : parseSample exclude (w.replaceSchema (parseSchemaFromBangLines m)).schema m =
      .ok (some p))
    (run : Traces Context.feedLine c (splitlines m) out c') : rowsOf out = p.cols := by
  obtain ⟨covered, d, out', begun, excluded, schema, closed, unarmed, run', cols⟩ :=
    parseSample_some parsed
  have within := replaceSchema_within boundary.schema m
  have alike : Alike c d (splitlines m) := by
    refine ⟨boundary.started, begun, excluded.trans boundary.exclude.symm, ?_, ?_, framed.schema,
      .inl ⟨closed, fun _ => framed.headed, ?_⟩⟩
    · intro type tokens found
      rw [get?_foldl_noteBangLine, schema] at found
      cases told : ((splitlines m).foldl noteBangLine .empty).get? type with
      | some own =>
        rw [told, Option.some_or] at found
        rw [get?_foldl_noteBangLine, told, Option.some_or, found]
      | none =>
        rw [told, Option.none_or] at found
        exact within type tokens found
    · intro line member letter hardware
      have counted := mem_sampleMeasurementTypes framed.headed member letter
      have known := List.all_eq_true.mp covered _ counted
      rw [Bool.or_eq_true, decide_eq_true_eq] at known
      rw [schema]
      exact known.resolve_left hardware
    · rw [unarmed, boundary.armed]
      cases waiting : armed with
      | false => exact .inl rfl
      | true => exact .inr (shields waiting)
  rw [cols]
  exact (rowsOf_alike run run' alike).symm

theorem handle_cases {m : Str} {sample : LiveSample}
    (unseeded : w.seeded = true ∨ seed.entries = [] ∨ m.head? = some '$')
    (handled : w.handle exclude seed m = .ok (w', sample)) :
    w'.seeded = true ∧ w'.schema = (w.replaceSchema (parseSchemaFromBangLines m)).schema ∧
      computeDeltasAndArcChunk (sample.cols.map StatsRow.hw) w.carry = (sample.rows, w'.carry) ∧
      ∀ p, sample.parsed = some p →
        parseSample exclude (w.replaceSchema (parseSchemaFromBangLines m)).schema m =
          .ok (some p) := by
  have skip : ∀ carry, computeDeltasAndArcChunk (LiveSample.skipped.cols.map StatsRow.hw) carry =
      (LiveSample.skipped.rows, carry) := fun _ => rfl
  have kept : ∀ (v : LiveHost) (schema : Dict Str (List Str)),
      (v.replaceSchema schema).carry = v.carry ∧ (v.replaceSchema schema).seeded = v.seeded := by
    intro v schema
    unfold LiveHost.replaceSchema
    split <;> exact ⟨rfl, rfl⟩
  unfold LiveHost.handle at handled
  split at handled
  · cases handled
    refine ⟨rfl, rfl, ?_, nofun⟩
    rw [(kept w _).1]
    exact skip w.carry
  · next plain =>
      have first : (w.ensureSchemaSeed seed) = { w with seeded := true } := by
        unfold LiveHost.ensureSchemaSeed
        split
        · next seeded => rw [← seeded]
        · next fresh =>
            have none : seed.entries = [] := by
              cases unseeded with
              | inl seeded => exact absurd seeded fresh
              | inr other => exact other.resolve_right plain
            split
            · rw [LiveHost.replaceSchema, if_pos none]
            · rfl
      have replaced : (if payloadHasSchemaBang m then
          (w.ensureSchemaSeed seed).replaceSchema (parseSchemaFromBangLines m)
          else w.ensureSchemaSeed seed) =
          { w.replaceSchema (parseSchemaFromBangLines m) with seeded := true } := by
        have both : (w.ensureSchemaSeed seed).replaceSchema (parseSchemaFromBangLines m) =
            { w.replaceSchema (parseSchemaFromBangLines m) with seeded := true } := by
          rw [first]
          unfold LiveHost.replaceSchema
          split <;> rfl
        cases bang : payloadHasSchemaBang m with
        | true => exact both
        | false =>
          rw [replaceSchema_plain bang] at both
          exact both
      dsimp only at handled
      rw [replaced] at handled
      have carry := (kept w (parseSchemaFromBangLines m)).1
      split at handled
      · cases handled
        refine ⟨rfl, rfl, ?_, nofun⟩
        rw [carry]
        exact skip w.carry
      · obtain ⟨⟨taken, after⟩, ingested, done⟩ := bind_ok handled
        cases done
        obtain ⟨found, parsed, ingested⟩ := bind_ok ingested
        rw [carry] at ingested
        cases found with
        | none =>
          cases ingested
          exact ⟨rfl, rfl, skip w.carry, nofun⟩
        | some p =>
          cases ingested
          refine ⟨rfl, rfl, rfl, fun q same => ?_⟩
          cases same
          exact parsed

theorem handle_boundary {m : Str} {sample : LiveSample} (boundary : Boundary exclude w armed c)
    (framed : Framed m) (shields : armed = true → shieldsMarks (splitlines m) = true)
    (unseeded : w.seeded = true ∨ seed.entries = [] ∨ m.head? = some '$')
    (handled : w.handle exclude seed m = .ok (w', sample))
    (run : Traces Context.feedLine c (archivedLines m sample) out c') :
    rowsOf out = sample.cols ∧ Boundary exclude w' (armedBy armed (splitlines m)) c' := by
  obtain ⟨-, schema, -, parsed⟩ := handle_cases unseeded handled
  obtain ⟨started, excluded, read, waiting⟩ := feedLines_boundary run boundary.started
  constructor
  · cases taken : sample.parsed with
    | none =>
      have lines : archivedLines m sample = (splitlines m).filter (!isMeasurement ·) := by
        simp [archivedLines, taken]
      rw [lines] at run
      have nothing : sample.cols = [] := by simp [LiveSample.cols, taken]
      rw [nothing]
      apply rowsOf_silent run
      intro line member
      simpa using (List.mem_filter.mp member).2
    | some p =>
      have lines : archivedLines m sample = splitlines m := by simp [archivedLines, taken]
      rw [lines] at run
      have same : sample.cols = p.cols := by simp [LiveSample.cols, taken]
      rw [same]
      exact payload_rows boundary framed shields (parsed p taken) run
  · refine ⟨started, excluded.trans boundary.exclude, ?_, ?_⟩
    · rw [read, schema, foldl_archivedLines]
      · exact replaceSchema_within boundary.schema m
      · intro told line letter
        exact noteBangLine_other (measurement_first letter).1
    · rw [waiting, boundary.armed, armedBy, foldl_archivedLines]
      · rfl
      · intro armed line letter
        obtain ⟨-, unaccepted, -, plain, -⟩ := measurement_first letter
        simp [unaccepted, plain]

theorem handles_rows {messages : List Str} {samples : List LiveSample}
    (run : Traces (LiveHost.handle exclude seed) w messages samples w')
    (boundary : Boundary exclude w armed c)
    (unseeded : w.seeded = true ∨ seed.entries = [] ∨
      messages.head?.bind List.head? = some '$')
    (framed : ∀ m ∈ messages, Framed m)
    (apart : Throughout (fun armed m => armedBy armed (splitlines m))
      (fun armed m => armed = true → shieldsMarks (splitlines m) = true) armed messages)
    (read : Traces Context.feedLine c (List.zipWith archivedLines messages samples).flatten out
      c') : rowsOf out = samples.flatMap LiveSample.cols := by
  induction run generalizing armed c out with
  | nil =>
    cases read
    rfl
  | @cons w v _ m sample messages samples handled rest ih =>
    obtain ⟨here, later⟩ := List.forall_mem_cons.mp framed
    obtain ⟨d, first, more, reading, onward, rfl⟩ := read.split
    have quiet : w.seeded = true ∨ seed.entries = [] ∨ m.head? = some '$' := unseeded
    obtain ⟨rows, next⟩ := handle_boundary boundary here apart.1 quiet handled reading
    have seeded := (handle_cases quiet handled).1
    rw [rowsOf_append, rows, ih next (.inl seeded) later apart.2 onward]
    rfl

theorem handles_chunks {messages : List Str} {samples : List LiveSample}
    (run : Traces (LiveHost.handle exclude seed) w messages samples w')
    (unseeded : w.seeded = true ∨ seed.entries = [] ∨
      messages.head?.bind List.head? = some '$') :
    samples.flatMap LiveSample.rows =
      computeChunks (samples.map fun s => s.cols.map StatsRow.hw) w.carry := by
  induction run with
  | nil => rfl
  | @cons w v _ m sample messages samples handled rest ih =>
    have quiet : w.seeded = true ∨ seed.entries = [] ∨ m.head? = some '$' := unseeded
    obtain ⟨seeded, -, flush, -⟩ := handle_cases quiet handled
    rw [List.flatMap_cons, List.map_cons, computeChunks, flush, ih (.inl seeded)]

end Boundary

/-- Of payloads as the monitor writes them, in the order of their times, the live worker's rows are
those of the archive of all it took in. -/
theorem live_rows_archived {exclude : List Str} {seed : Dict Str (List Str)} {messages : List Str}
    {samples : List LiveSample} {w : LiveHost} {p : Parser}
    (run : Traces (LiveHost.handle exclude seed) .fresh messages samples w)
    (unseeded : seed.entries = [] ∨ messages.head?.bind List.head? = some '$')
    (framed : ∀ m ∈ messages, Framed m) (apart : MarksApart messages)
    (ordered : SeriesInOrder (samples.map fun s => s.cols.map StatsRow.hw))
    (read : (Parser.init 0 exclude).feedLines (fileLines (archiveOf messages samples)) = .ok p) :
    (samples.flatMap LiveSample.rows).Perm
        (computeDeltasAndArcChunk (p.cols.map StatsRow.hw) .empty).1 ∧
      ((∀ pair ∈ messages.zip samples, pair.2.parsed = none →
          ∀ line ∈ splitlines pair.1, isMeasurement line = false) →
        archiveOf messages samples = messages.flatten) := by
  have whole : ∀ m ∈ messages, WholeLines m := fun m member => (framed m member).toWholeLines
  refine ⟨?_, archiveOf_whole whole run.length_eq⟩
  obtain ⟨joined, solid⟩ := archiveOf_eq whole samples
  rw [joined, fileLines_flatten solid] at read
  obtain ⟨out, lines, cols, -, -⟩ := Parser.feedLines_eq_ok.mp read
  have boundary : Boundary exclude .fresh false (Context.init 0 exclude) :=
    ⟨rfl, rfl, nofun, rfl⟩
  have rows := handles_rows run boundary (.inr unseeded) framed apart (traces_newline.mp lines)
  have flushed := computeChunks_perm_series _ .empty ordered
  rw [handles_chunks run (.inr unseeded)]
  have together : (samples.map fun s => s.cols.map StatsRow.hw).flatten =
      p.cols.map StatsRow.hw := by
    rw [cols, rows, ← List.flatMap_def, ← List.map_flatMap]
    rfl
  rw [together] at flushed
  exact flushed

section Samples

def cpuPayload (time value : String) : Str :=
  lit time ++ lit " 7 n1\ncpu 0 " ++ lit value ++ ['\n']

theorem Framed.of_checks {m : Str}
    (plain : (m.all fun c => decide (c.toNat < 128) && (!isLineBreak c || decide (c = '\n'))) = true)
    (ended : m.getLast? = some '\n') (headed : headerFirst (splitlines m) = true)
    (schema : schemaFirst (splitlines m) = true) : Framed m := by
  have each := List.all_eq_true.mp plain
  refine ⟨⟨fun c member breaks => ?_, .inr ended⟩, fun c member => ?_, headed, schema⟩
  · have checked := each c member
    rw [breaks, Bool.and_eq_true] at checked
    simpa using checked.2
  · have checked := each c member
    rw [Bool.and_eq_true, decide_eq_true_eq] at checked
    exact checked.1

theorem feedLines_returns {p : Parser} {lines : List Str}
    (returns : (p.feedLines lines).toBool = true) : ∃ q, p.feedLines lines = .ok q := by
  cases fed : p.feedLines lines with
  | ok q => exact ⟨q, rfl⟩
  | error err =>
    rw [fed] at returns
    cases returns

theorem live_rows_archived_two :
    ∃ (samples : List LiveSample) (p : Parser), (Parser.init 0 []).feedLines
        (fileLines (lit "!cpu user\n" ++ cpuPayload "10" "5" ++ cpuPayload "20" "8")) = .ok p ∧
      (samples.flatMap LiveSample.rows).Perm
        (computeDeltasAndArcChunk (p.cols.map StatsRow.hw) .empty).1 ∧
      (samples.flatMap LiveSample.rows).map HostRow.delta = [none, some 3] := by
  obtain ⟨p, read⟩ := @feedLines_returns (.init 0 [])
    (fileLines (archiveOf [lit "!cpu user\n" ++ cpuPayload "10" "5", cpuPayload "20" "8"]
      (outputs (LiveHost.handle [] .empty) .fresh
        [lit "!cpu user\n" ++ cpuPayload "10" "5", cpuPayload "20" "8"]))) (by decide +kernel)
  have archive := live_rows_archived (Traces.of_outputs (by decide +kernel)) (.inl rfl)
    (List.forall_mem_cons.mpr ⟨.of_checks (by decide +kernel) (by decide) (by decide) (by decide),
      List.forall_mem_singleton.mpr
        (.of_checks (by decide +kernel) (by decide) (by decide) (by decide))⟩)
    ⟨by decide +kernel, by decide +kernel, trivial⟩ ⟨by decide +kernel, by decide +kernel⟩ read
  have same : archiveOf [lit "!cpu user\n" ++ cpuPayload "10" "5", cpuPayload "20" "8"]
      (outputs (LiveHost.handle [] .empty) .fresh
        [lit "!cpu user\n" ++ cpuPayload "10" "5", cpuPayload "20" "8"]) =
      lit "!cpu user\n" ++ cpuPayload "10" "5" ++ cpuPayload "20" "8" := by decide +kernel
  rw [same] at read
  exact ⟨_, p, read, archive.1, by decide +kernel⟩

/-- The sample of a payload that starts with `$` is in the archive alone, so the row after it
has a delta there and none from the live worker. -/
theorem live_rows_not_archived :
    ¬ ∀ (exclude : List Str) (seed : Dict Str (List Str)) (messages : List Str)
      (samples : List LiveSample) (w : LiveHost) (p : Parser),
      Traces (LiveHost.handle exclude seed) .fresh messages samples w →
      (Parser.init 0 exclude).feedLines (fileLines messages.flatten) = .ok p →
      ∀ live ∈ samples.flatMap LiveSample.rows,
        ∀ stored ∈ (computeDeltasAndArcChunk (p.cols.map StatsRow.hw) .empty).1,
          live.time = stored.time → live.key = stored.key → live.jid = stored.jid →
            live.value = stored.value ∧ live.delta = stored.delta ∧ live.arc = stored.arc := by
  intro claim
  obtain ⟨p, parsed, rows⟩ := ingestFrom_eq_ok.mp
    (show ingestFrom [] (fileLines (lit "$n1\n!cpu user\n" ++ cpuPayload "10" "5" ++
        cpuPayload "20" "8")) (some 0) =
      .ok [⟨10, lit "n1", lit "7", lit "cpu", [], lit "user", lit "#", some 5, none, none⟩,
        ⟨20, lit "n1", lit "7", lit "cpu", [], lit "user", lit "#", some 8, some 3,
          some (3 / 10)⟩] by decide +kernel)
  rw [computeDeltasAndArc_eq] at rows
  have same := claim [] .empty
    [lit "$n1\n!cpu user\n" ++ cpuPayload "10" "5", cpuPayload "20" "8"] _ _ p
    (Traces.of_outputs (by decide +kernel)) parsed
    ⟨20, lit "n1", lit "7", lit "cpu", [], lit "user", lit "#", some 8, none, none⟩
    (by decide +kernel)
    ⟨20, lit "n1", lit "7", lit "cpu", [], lit "user", lit "#", some 8, some 3, some (3 / 10)⟩
    (by rw [rows]; exact .tail _ (.head _)) rfl rfl rfl
  exact absurd same.2.1 (by decide)

end Samples

end PerfStats.Feed
