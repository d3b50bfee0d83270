import PerfStats.Feed.Parser
import PerfStats.Lib.Runs

namespace PerfStats.Feed

open Lib Text

variable [Interpreter]

namespace Context

/-- `_line_starts_time_sample`. -/
def startsSample (c : Context) (line : Str) : Bool :=
  (lstrip line).head?.elim false fun first =>
    isDigit first && decide (c.startIdx ≤ c.lineIndex)

def shortHeader (line : Str) : Bool :=
  (lstrip line).head?.elim false isDigit &&
    decide ((split (lstrip line)).length < 3)

def headerTags (line : Str) : Option Tags :=
  match split (lstrip line) with
  | t :: jid :: host :: _ => (sampleTime t).map fun time => ⟨time, host, jid⟩
  | _ => none

def acceptsHeader (c : Context) (line : Str) : Bool :=
  c.startsSample line && (headerTags line).isSome

def namesJobs (line : Str) : Bool :=
  startsWith (lit "%jobs") (lstrip line) &&
    !(parseJobsJids (lstrip line)).isEmpty

def opened (c : Context) (tags : Tags) : Context :=
  { c with
    insert := true
    tags := some tags
    sampleShared := c.armShared && stampable tags.jid
    armShared := false }

def marked (c : Context) (jobs : Bool) : Context :=
  { c with
    armShared := c.armShared || jobs
    sampleShared := if jobs then c.tags.elim c.sampleShared fun tags => stampable tags.jid
      else c.sampleShared }

inductive Effect (c : Context) (line : Str) : Context → Emit → Prop where
  | ignored (silent : c.startsSample line = false ∨ shortHeader line = true)
      (plain : namesJobs line = false) : Effect c line c.tick .nothing
  | rows (tags : Tags) (rows : List StatsRow) (inside : c.insert = true)
      (header : c.tags = some tags) (other : c.startsSample line = false)
      (plain : namesJobs line = false)
      (made : c.tick.feedRow tags (lstrip line) = .ok (c.tick, .rows rows)) :
      Effect c line c.tick (.rows rows)
  | proc (tags : Tags) (row : ProcRow) (bare fastBare : Dict Str (List Str))
      (inside : c.insert = true) (header : c.tags = some tags)
      (other : c.startsSample line = false) (plain : namesJobs line = false) :
      Effect c line { c.tick with bare, fastBare } (.proc row)
  | reject (starts : c.startsSample line = true) (long : shortHeader line = false)
      (refused : headerTags line = none) (plain : namesJobs line = false) :
      Effect c line { c.tick with insert := false } .nothing
  | accept (tags : Tags) (starts : c.startsSample line = true) (long : shortHeader line = false)
      (accepted : headerTags line = some tags) (plain : namesJobs line = false) :
      Effect c line (c.tick.opened tags) (.bind tags.time tags.host)
  | schema (schema bare fastBare : Dict Str (List Str)) (other : c.startsSample line = false)
      (plain : namesJobs line = false) (bang : (lstrip line).head? = some '!') :
      Effect c line { c.tick with schema, bare, fastBare } .nothing
  | mark (body : MarkBody) (other : c.startsSample line = false) :
      Effect c line (c.tick.marked (namesJobs line))
        (.mark ⟨body, c.tags.map fun tags => (tags.time, tags.host)⟩)

variable {c c' : Context} {line : Str}

theorem headerTags_short (short : shortHeader line = true) : headerTags line = none := by
  simp only [shortHeader, Bool.and_eq_true, decide_eq_true_eq] at short
  rcases words : split (lstrip line) with _ | ⟨t, _ | ⟨jid, _ | ⟨host, more⟩⟩⟩
  · simp [headerTags, words]
  · simp [headerTags, words]
  · simp [headerTags, words]
  · rw [words] at short
    simp only [List.length_cons] at short
    omega

omit [Interpreter] in
theorem namesJobs_head {first : Char} {rest : Str}
    (stripped : lstrip line = first :: rest) (other : first ≠ '%') :
    namesJobs line = false := by
  have apart : ¬ '%' = first := fun same => other same.symm
  simp [namesJobs, stripped, startsWith, lit, List.isPrefixOf, apart]

omit [Interpreter] in
theorem procBareKeysFor_cases (c : Context) (type : Str) (fast : Bool) :
    ∃ bare fastBare, (c.procBareKeysFor type fast).2 = { c with bare, fastBare } := by
  unfold procBareKeysFor
  split
  · exact ⟨c.bare, c.fastBare, rfl⟩
  · cases fast with
    | true => exact ⟨c.bare, _, rfl⟩
    | false => exact ⟨_, c.fastBare, rfl⟩

theorem feedProc_cases {tags : Tags} {type dev : Str} {vals : List Str} {e : Emit}
    (taken : c.feedProc tags type dev vals = .ok (c', e)) :
    ∃ row bare fastBare, e = .proc row ∧ c' = { c with bare, fastBare } := by
  simp only [feedProc] at taken
  rcases procBareKeysFor_cases c type (decide ((tierMarker vals).1 = .fast)) with
    ⟨bare, fastBare, same⟩
  cases fields : procFields (c.procBareKeysFor type (decide ((tierMarker vals).1 = .fast))).1
      (tierMarker vals).2 with
  | error err =>
    rw [fields] at taken
    cases taken
  | ok found =>
    rw [fields] at taken
    cases taken
    exact ⟨_, bare, fastBare, rfl, same⟩

theorem feedRow_cases {tags : Tags} {s : Str} {e : Emit}
    (taken : c.feedRow tags s = .ok (c', e)) :
    (c' = c ∧ e = .nothing) ∨ (∃ rows, c' = c ∧ e = .rows rows) ∨
      ∃ row bare fastBare, e = .proc row ∧ c' = { c with bare, fastBare } := by
  unfold feedRow at taken
  split at taken
  · split at taken
    · cases taken
      exact .inl ⟨rfl, rfl⟩
    · split at taken
      · exact .inr (.inr (feedProc_cases taken))
      · next type dev v vals _ _ _ =>
          cases made : c.hardwareRows tags type dev (v :: vals) with
          | error err =>
            rw [made] at taken
            cases taken
          | ok rows =>
            rw [made] at taken
            cases taken
            exact .inr (.inl ⟨rows, rfl, rfl⟩)
  · cases taken
    exact .inl ⟨rfl, rfl⟩

omit [Interpreter] in
theorem queueMark_eq (c : Context) (body : MarkBody) :
    c.queueMark body = ((match body with
      | .jobs _ => { c with
          sampleShared := c.tags.elim c.sampleShared fun tags => stampable tags.jid }
      | .affinity .. => c),
      .mark ⟨body, c.tags.map fun tags => (tags.time, tags.host)⟩) := by
  rcases c with ⟨_, _, _, _, _, _, _, tags, _, _⟩
  cases tags <;> cases body <;> rfl

omit [Interpreter] in
theorem notePercentMark_cases (c : Context) (line : Str) :
    (c.notePercentMark (lstrip line) = (c, .nothing) ∧ namesJobs line = false) ∨
      ∃ body, c.notePercentMark (lstrip line) = (c.marked (namesJobs line),
        .mark ⟨body, c.tags.map fun tags => (tags.time, tags.host)⟩) := by
  unfold notePercentMark namesJobs
  split
  · next jobs =>
      cases parseJobsJids (lstrip line) with
      | nil => exact .inl ⟨rfl, by simp⟩
      | cons jid jids => simp [queueMark_eq, jobs, marked]
  · next other =>
      split
      · cases found : parseAffinityMark (lstrip line) with
        | none => exact .inl ⟨rfl, by simp [other]⟩
        | some body =>
          cases body with
          | jobs jids =>
            simp only [parseAffinityMark] at found
            split at found
            · split at found <;> simp at found
            · simp at found
          | affinity jid cpus gpus cg => simp [queueMark_eq, other, marked]
      · exact .inl ⟨rfl, by simp [other]⟩

theorem feedHeader_effect {first : Char} {rest : Str}
    (stripped : lstrip line = first :: rest) (digit : isDigit first = true)
    (reached : c.startIdx ≤ c.lineIndex) :
    Effect c line (c.tick.feedHeader (first :: rest)).1 (c.tick.feedHeader (first :: rest)).2 := by
  have starts : c.startsSample line = true := by simp [startsSample, stripped, digit, reached]
  have plain : namesJobs line = false := by
    apply namesJobs_head stripped
    intro percent
    rw [percent] at digit
    simp at digit
  have short : shortHeader line = decide ((split (first :: rest)).length < 3) := by
    simp [shortHeader, stripped, digit]
  unfold feedHeader
  split
  · next t jid host more words =>
      have long : shortHeader line = false := by simp [short, words]
      have tags : headerTags line = (sampleTime t).map fun time => ⟨time, host, jid⟩ := by
        simp [headerTags, stripped, words]
      cases time : sampleTime t with
      | none => exact .reject starts long (by simp [tags, time]) plain
      | some time' => exact .accept ⟨time', host, jid⟩ starts long (by simp [tags, time]) plain
  · next few =>
      refine .ignored (.inr ?_) plain
      rw [short, decide_eq_true_eq]
      rcases words : split (first :: rest) with _ | ⟨t, _ | ⟨jid, _ | ⟨host, more⟩⟩⟩
      · simp
      · simp
      · simp
      · exact absurd words (few t jid host more)

theorem feedLine_effect {e : Emit}
    (taken : c.feedLine line = .ok (c', e)) : Effect c line c' e := by
  unfold feedLine at taken
  split at taken
  · next blank =>
      cases taken
      exact .ignored (.inl (by simp [startsSample, blank]))
        (by simp [namesJobs, blank, startsWith, lit])
  · next first rest stripped =>
      have starts : c.startsSample line =
          (isDigit first && decide (c.startIdx ≤ c.lineIndex)) := by
        simp [startsSample, stripped]
      split at taken
      · next letter =>
          rw [Bool.and_eq_true] at letter
          have other : c.startsSample line = false := by
            rw [starts, isDigit_of_isAlpha letter.1, Bool.false_and]
          have plain : namesJobs line = false := by
            apply namesJobs_head stripped
            intro percent
            rw [percent] at letter
            simp at letter
          cases header : c.tags with
          | none =>
            simp only [header] at taken
            cases taken
            exact .ignored (.inl other) plain
          | some tags =>
            simp only [header] at taken
            rcases feedRow_cases taken with
              ⟨rfl, rfl⟩ | ⟨rows, rfl, rfl⟩ | ⟨row, bare, fastBare, rfl, rfl⟩
            · exact .ignored (.inl other) plain
            · exact .rows tags rows letter.2 header other plain (stripped ▸ taken)
            · exact .proc tags row bare fastBare letter.2 header other plain
      · split at taken
        · next digit =>
            rw [Bool.and_eq_true, decide_eq_true_eq] at digit
            have effect := feedHeader_effect stripped digit.2 digit.1
            rw [Except.ok.inj taken] at effect
            exact effect
        · next early =>
            have other : c.startsSample line = false := by
              rw [starts, Bool.and_comm]
              exact Bool.eq_false_iff.mpr early
            split at taken
            · next bang =>
                have plain := namesJobs_head stripped (by rw [bang]; decide)
                unfold feedSchema at taken
                split at taken
                · dsimp only at taken
                  split at taken
                  · cases taken
                  · cases taken
                    exact .schema _ _ _ other plain (by simp [stripped, bang])
                · cases taken
            · split at taken
              · rw [← stripped] at taken
                rcases notePercentMark_cases c.tick line with ⟨same, plain⟩ | ⟨body, same⟩
                · rw [same] at taken
                  cases taken
                  exact .ignored (.inl other) plain
                · rw [same] at taken
                  cases taken
                  exact .mark body other
              · next percent =>
                  cases taken
                  exact .ignored (.inl other) (namesJobs_head stripped percent)

end Context

def StatsRow.tags (r : StatsRow) : Tags := ⟨r.time, r.host, r.jid⟩

variable {c : Context} {tags : Tags} {c' : Context}

theorem compiledStatsRows_made {type dev : Str} {compiled : List SchemaKey}
    {vals : List Str} : ∀ r ∈ compiledStatsRows tags type dev compiled vals,
      r.tags = tags ∧ r.type = type ∧ r.dev = dev := by
  intro r member
  unfold compiledStatsRows at member
  split at member
  · simp at member
  · split at member
    · simp at member
    · rcases List.mem_map.mp member with ⟨_, _, rfl⟩
      exact ⟨rfl, rfl, rfl⟩

theorem hardwareRows_made {type dev : Str} {vals : List Str}
    {rows : List StatsRow} (made : c.hardwareRows tags type dev vals = .ok rows) :
    ∀ r ∈ rows, r.tags = tags ∧ r.dev = sharedRowDev dev r.type tags.jid c.sampleShared := by
  have compiled : ∀ out keys vals, ∀ r ∈ compiledStatsRows tags out
      (sharedRowDev dev out tags.jid c.sampleShared) keys vals,
      r.tags = tags ∧ r.dev = sharedRowDev dev r.type tags.jid c.sampleShared := by
    intro out keys vals r member
    rcases compiledStatsRows_made r member with ⟨tags_eq, type_eq, dev_eq⟩
    exact ⟨tags_eq, by rw [dev_eq, type_eq]⟩
  unfold Context.hardwareRows at made
  split at made
  · cases made
    simp
  · next tokens _ =>
      dsimp only at made
      split at made
      · split at made
        · cases made
          simp
        · cases made
          exact compiled _ _ _
      · split at made
        · cases decoded : decodeCounterLine type tokens (tierMarker vals).2 with
          | error err =>
            rw [decoded] at made
            cases made
          | ok events =>
            rw [decoded] at made
            cases events with
            | none =>
              cases made
              simp
            | some events =>
              cases made
              exact compiled _ _ _
        · cases made
          exact compiled _ _ _

theorem feedRow_made {s : Str} {rows : List StatsRow}
    (made : c.feedRow tags s = .ok (c', .rows rows)) :
    ∀ r ∈ rows, r.tags = tags ∧ ∃ dev, (∀ ch ∈ dev, isSpace ch = false) ∧
      r.dev = sharedRowDev dev r.type tags.jid c.sampleShared := by
  unfold Context.feedRow at made
  split at made
  · next type dev v vals words =>
      split at made
      · cases made
      · split at made
        · rcases Context.feedProc_cases made with ⟨_, _, _, emit, _⟩
          cases emit
        · cases found : c.hardwareRows tags type dev (v :: vals) with
          | error err =>
            rw [found] at made
            cases made
          | ok rows' =>
            rw [found] at made
            cases made
            intro r member
            rcases hardwareRows_made found r member with ⟨tags_eq, dev_eq⟩
            exact ⟨tags_eq, dev, split_no_space (s := s) (by simp [words]), dev_eq⟩
  · cases made

theorem feedLine_index {line : Str} {e : Emit} (taken : c.feedLine line = .ok (c', e)) :
    c'.startIdx = c.startIdx ∧ c'.lineIndex = c.lineIndex + 1 := by
  have effect := Context.feedLine_effect taken
  cases effect <;> exact ⟨rfl, rfl⟩

theorem feedLines_index {lines : List Str} {out : List Emit}
    (run : Traces Context.feedLine c lines out c') :
    c'.startIdx = c.startIdx ∧ c'.lineIndex = c.lineIndex + lines.length := by
  induction run with
  | nil => exact ⟨rfl, rfl⟩
  | cons taken _ ih =>
    rcases feedLine_index taken with ⟨start, index⟩
    simp only [List.length_cons]
    omega

namespace Emit

def statsRows : Emit → List StatsRow
  | .rows made => made
  | _ => []

def intoProc (procByKey : Dict ProcKey ProcRow) : Emit → Dict ProcKey ProcRow
  | .proc row => Parser.mergeProc procByKey row
  | _ => procByKey

def intoMarks (marks : List Mark) : Emit → List Mark
  | .mark m => marks ++ [m]
  | .bind time host => Parser.bindPendingMarks marks time host
  | _ => marks

def isBind : Emit → Bool
  | .bind _ _ => true
  | _ => false

end Emit

def rowsOf (out : List Emit) : List StatsRow := out.flatMap Emit.statsRows

omit [Interpreter] in
theorem rowsOf_append (out more : List Emit) : rowsOf (out ++ more) = rowsOf out ++ rowsOf more :=
  List.flatMap_append

omit [Interpreter] in
theorem rowsOf_cons (e : Emit) (out : List Emit) : rowsOf (e :: out) = e.statsRows ++ rowsOf out :=
  rfl

namespace Parser

omit [Interpreter] in
@[simp] theorem store_cols (p : Parser) (e : Emit) : (p.store e).cols = p.cols ++ e.statsRows := by
  cases e <;> simp [store, Emit.statsRows]

omit [Interpreter] in
@[simp] theorem store_procByKey (p : Parser) (e : Emit) :
    (p.store e).procByKey = e.intoProc p.procByKey := by
  cases e <;> rfl

omit [Interpreter] in
@[simp] theorem store_marks (p : Parser) (e : Emit) : (p.store e).marks = e.intoMarks p.marks := by
  cases e <;> rfl

theorem feedLine_eq_ok {p q : Parser} {line : Str} :
    p.feedLine line = .ok q ↔
      ∃ c e, p.context.feedLine line = .ok (c, e) ∧ q = { p.store e with context := c } := by
  unfold feedLine
  cases p.context.feedLine line with
  | error err => simp [bind, Except.bind]
  | ok result =>
    rcases result with ⟨c, e⟩
    constructor
    · intro done
      cases done
      exact ⟨c, e, rfl, rfl⟩
    · intro found
      rcases found with ⟨_, _, same, rfl⟩
      cases same
      rfl

theorem feedLines_eq_ok {p q : Parser} {lines : List Str} :
    p.feedLines lines = .ok q ↔
      ∃ out, Traces Context.feedLine p.context lines out q.context ∧
        q.cols = p.cols ++ rowsOf out ∧ q.procByKey = out.foldl Emit.intoProc p.procByKey ∧
        q.marks = out.foldl Emit.intoMarks p.marks := by
  induction lines generalizing p with
  | nil =>
    constructor
    · intro done
      cases done
      exact ⟨[], .nil _, by simp [rowsOf], rfl, rfl⟩
    · intro found
      rcases found with ⟨out, run, cols, procs, marks⟩
      rcases q with ⟨context', qcols, qprocs, qmarks⟩
      cases run
      simp_all [feedLines, rowsOf]
      rfl
  | cons line rest ih =>
    have unfolded : p.feedLines (line :: rest) = p.feedLine line >>= fun t => t.feedLines rest :=
      List.foldlM_cons
    rw [unfolded]
    constructor
    · intro done
      cases first : p.feedLine line with
      | error err =>
        rw [first] at done
        cases done
      | ok t =>
        rw [first] at done
        rcases feedLine_eq_ok.mp first with ⟨c, e, taken, rfl⟩
        rcases ih.mp done with ⟨out, run, cols, procs, marks⟩
        exact ⟨e :: out, .cons taken run, by simp [cols, rowsOf_cons], by simp [procs],
          by simp [marks]⟩
    · intro found
      rcases found with ⟨out, run, cols, procs, marks⟩
      cases run with
      | @cons _ c _ _ e _ out taken run =>
        have first := feedLine_eq_ok.mpr ⟨c, e, taken, rfl⟩
        rw [first]
        refine ih.mpr ⟨out, run, ?_, ?_, ?_⟩
        · simpa [rowsOf_cons] using cols
        · simpa using procs
        · simpa using marks

end Parser

end PerfStats.Feed
