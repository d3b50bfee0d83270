import PerfStats.Feed.LineEnds
import PerfStats.Frame.ChunkSeries

namespace PerfStats.Feed

open Lib PerfStats.Frame Text

section Payload

def headerFirst : List Str → Bool
  | [] => true
  | line :: rest => isFullHeader line || (!isMeasurement line && headerFirst rest)

def schemaFirst : List Str → Bool
  | [] => true
  | line :: rest => if isMeasurement line then !rest.any isBangLine else schemaFirst rest

/-- A mark of an earlier payload makes no difference to the first sample: its own mark precedes its
rows, or its job cannot be named. -/
def shieldsMarks : List Str → Bool
  | [] => true
  | line :: rest =>
    match acceptedTags line with
    | some tags => !stampable tags.jid || marksFirst rest
    | none => Context.namesJobs line || shieldsMarks rest

def armedBy (armed : Bool) (lines : List Str) : Bool :=
  lines.foldl (fun armed line =>
    if (acceptedTags line).isSome then false else armed || Context.namesJobs line) armed

structure Framed (m : Str) : Prop extends WholeLines m where
  ascii : ∀ c ∈ m, c.toNat < 128
  headed : headerFirst (splitlines m) = true
  schema : schemaFirst (splitlines m) = true

def MarksApart (messages : List Str) : Prop :=
  Throughout (fun armed m => armedBy armed (splitlines m))
    (fun armed m => armed = true → shieldsMarks (splitlines m) = true) false messages

end Payload

namespace Context

variable {c c' : Context} {line : Str} {e : Emit}

theorem noteBangLine_words {schema : Dict Str (List Str)} {label event : Str} {events : List Str}
    (bang : (lstrip line).head? = some '!')
    (words : split (lstrip line) = label :: event :: events) :
    noteBangLine schema line = schema.set (label.drop 1) (event :: events) := by
  unfold noteBangLine isBangLine
  rw [if_pos (decide_eq_true bang), words]

theorem feedLine_schema (taken : c.feedLine line = .ok (c', e)) :
    c'.schema = noteBangLine c.schema line := by
  by_cases bang : (lstrip line).head? = some '!'
  · have same : ∀ {label event : Str} {events : List Str},
        split (lstrip line) = label :: event :: events →
        noteBangLine c.schema line = c.schema.set (label.drop 1) (event :: events) :=
      fun words => noteBangLine_words bang words
    cases stripped : lstrip line with
    | nil => simp [stripped] at bang
    | cons first rest =>
      rw [stripped] at bang same
      cases bang
      have read : c.tick.feedSchema ('!' :: rest) = .ok (c', e) := by
        simpa [feedLine, stripped] using taken
      unfold feedSchema at read
      split at read
      · next label event events words =>
          dsimp only at read
          split at read
          · cases read
          · cases read
            exact (same words).symm
      · cases read
  · unfold noteBangLine isBangLine
    rw [if_neg (by simpa using bang)]
    have effect := feedLine_effect taken
    cases effect with
    | schema _ _ _ _ _ here => exact absurd here bang
    | _ => rfl

theorem feedLine_measured {tags : Tags} (letter : isMeasurement line = true)
    (inside : c.insert = true) (header : c.tags = some tags) :
    c.feedLine line = c.tick.feedRow tags (lstrip line) := by
  cases stripped : lstrip line with
  | nil => simp [isMeasurement, stripped] at letter
  | cons first rest =>
    have alpha : isAlpha first = true := by simpa [isMeasurement, stripped] using letter
    simp only [feedLine, stripped, alpha, inside, header, Bool.and_self, if_true]

theorem feedLine_silent (quiet : isMeasurement line = false ∨ c.insert = false)
    (taken : c.feedLine line = .ok (c', e)) : e.statsRows = [] := by
  cases stripped : lstrip line with
  | nil =>
    simp only [feedLine, stripped] at taken
    cases taken
    rfl
  | cons first rest =>
    have outside : ¬ (isAlpha first && c.insert) = true := by
      cases quiet with
      | inl other =>
        simp only [isMeasurement, stripped, List.head?_cons, Option.elim_some] at other
        simp [other]
      | inr closed => simp [closed]
    rw [feedLine, stripped] at taken
    dsimp only at taken
    rw [if_neg outside] at taken
    split at taken
    · unfold feedHeader at taken
      split at taken
      · split at taken <;> cases taken <;> rfl
      · cases taken
        rfl
    · split at taken
      · unfold feedSchema at taken
        split at taken
        · dsimp only at taken
          split at taken
          · cases taken
          · cases taken
            rfl
        · cases taken
      · split at taken
        · rw [← stripped] at taken
          cases notePercentMark_cases c.tick line with
          | inl plain =>
            rw [plain.1] at taken
            cases taken
            rfl
          | inr marked =>
            obtain ⟨body, same⟩ := marked
            rw [same] at taken
            cases taken
            rfl
        · cases taken
          rfl

def measuredType (line : Str) : Str := (split (lstrip line)).headD []

theorem hardwareRows_congr {d : Context} {tags : Tags} {type dev : Str} {vals : List Str}
    (schema : d.schema.get? type = c.schema.get? type) (shared : d.sampleShared = c.sampleShared) :
    d.hardwareRows tags type dev vals = c.hardwareRows tags type dev vals := by
  rw [hardwareRows, hardwareRows, schema, shared]

theorem feedRow_statsRows {d d' : Context} {e' : Emit} {tags : Tags}
    (exclude : d.exclude = c.exclude) (shared : d.sampleShared = c.sampleShared)
    (schema : ¬ ProcType (measuredType line) →
      d.schema.get? (measuredType line) = c.schema.get? (measuredType line))
    (taken : c.feedRow tags (lstrip line) = .ok (c', e))
    (taken' : d.feedRow tags (lstrip line) = .ok (d', e')) :
    e'.statsRows = e.statsRows := by
  unfold measuredType at schema
  rw [feedRow] at taken taken'
  rw [exclude] at taken'
  split at taken
  · next type dev v vals words =>
      rw [words, List.headD_cons] at schema
      rw [words] at taken'
      dsimp only at taken'
      by_cases excluded : type ∈ c.exclude
      · rw [if_pos excluded] at taken taken'
        cases taken
        cases taken'
        rfl
      · rw [if_neg excluded] at taken taken'
        by_cases proc : type = lit "proc" ∨ type = lit "host_proc"
        · rw [if_pos proc] at taken taken'
          obtain ⟨_, _, _, rfl, _⟩ := feedProc_cases taken
          obtain ⟨_, _, _, rfl, _⟩ := feedProc_cases taken'
          rfl
        · rw [if_neg proc] at taken taken'
          rw [hardwareRows_congr (schema proc) shared] at taken'
          cases made : c.hardwareRows tags type dev (v :: vals) with
          | error err =>
            rw [made] at taken
            cases taken
          | ok rows =>
            rw [made] at taken taken'
            cases taken
            cases taken'
            rfl
  · next few =>
      split at taken'
      · next type dev v vals words => exact absurd words (few type dev v vals)
      · cases taken
        cases taken'
        rfl

end Context

section Alike

open Context

/-- Ahead of the first accepted header: the payload's parser is closed, the archive's may still be
in the last sample. -/
structure Ahead (c d : Context) (lines : List Str) : Prop where
  closed : d.insert = false
  waits : c.insert = true → headerFirst lines = true
  marks : d.armShared = c.armShared ∨ shieldsMarks lines = true

structure Inside (c d : Context) (lines : List Str) : Prop where
  insert : d.insert = c.insert
  tags : d.tags = c.tags
  tagged : c.tags.isSome = true
  armed : d.armShared = c.armShared
  shared : d.sampleShared = c.sampleShared ∨ marksFirst lines = true

/-- The archive's parser `c` and the payload's `d` give the same rows for the lines that are left.
-/
structure Alike (c d : Context) (lines : List Str) : Prop where
  started : c.startIdx = 0
  begun : d.startIdx = 0
  exclude : d.exclude = c.exclude
  schema : ∀ type tokens, (lines.foldl noteBangLine d.schema).get? type = some tokens →
    (lines.foldl noteBangLine c.schema).get? type = some tokens
  covered : ∀ line ∈ lines, isMeasurement line = true → ¬ ProcType (measuredType line) →
    (d.schema.get? (measuredType line)).isSome = true
  ordered : schemaFirst lines = true
  phase : Ahead c d lines ∨ Inside c d lines

variable {schema : Dict Str (List Str)}

theorem noteBangLine_other {line : Str}
    (other : isBangLine line = false) : noteBangLine schema line = schema := by
  rw [noteBangLine, if_neg (by rw [other]; decide)]

theorem foldl_noteBangLine_other {lines : List Str}
    (other : lines.any isBangLine = false) : lines.foldl noteBangLine schema = schema := by
  induction lines with
  | nil => rfl
  | cons line rest ih =>
    rw [List.any_cons, Bool.or_eq_false_iff] at other
    rw [List.foldl_cons, noteBangLine_other other.1, ih other.2]

theorem isSome_noteBangLine {type : Str} (line : Str) (known : (schema.get? type).isSome = true) :
    ((noteBangLine schema line).get? type).isSome = true := by
  unfold noteBangLine
  split
  · split
    · rw [Dict.get?_set]
      split
      · rfl
      · exact known
    · exact known
  · exact known

theorem measurement_first {line : Str} (letter : isMeasurement line = true) :
    isBangLine line = false ∧ acceptedTags line = none ∧ isFullHeader line = false ∧
      namesJobs line = false ∧ isBody line = true := by
  cases stripped : lstrip line with
  | nil => simp [isMeasurement, stripped] at letter
  | cons first rest =>
    have alpha : isAlpha first = true := by simpa [isMeasurement, stripped] using letter
    have digit := isDigit_of_isAlpha alpha
    have apart : ∀ {other : Char}, isAlpha other = false → first ≠ other := by
      intro other plain same
      rw [same, plain] at alpha
      cases alpha
    have noDigit : isDigitLine line = false := by simp [isDigitLine, stripped, digit]
    have noBang : first ≠ '!' := apart (by decide)
    exact ⟨by simp [isBangLine, stripped, noBang], by simp [acceptedTags, noDigit],
      by simp [isFullHeader, noDigit], namesJobs_head stripped (apart (by decide)),
      by simp [isBody, stripped, alpha]⟩

theorem schemaFirst_tail {line : Str} {rest : List Str}
    (ordered : schemaFirst (line :: rest) = true) :
    schemaFirst rest = true := by
  rw [schemaFirst] at ordered
  split at ordered
  · have none : rest.any isBangLine = false := by simpa using ordered
    clear ordered
    induction rest with
    | nil => rfl
    | cons other more ih =>
      rw [List.any_cons, Bool.or_eq_false_iff] at none
      rw [schemaFirst]
      split
      · rw [none.2]
        rfl
      · exact ih none.2
  · exact ordered

variable {c d c' d' : Context} {line : Str} {lines : List Str} {e e' : Emit}

theorem phase_unaccepted (unaccepted : acceptedTags line = none) (flags : Flags c line c')
    (flags' : Flags d line d') (phase : Ahead c d (line :: lines) ∨ Inside c d (line :: lines)) :
    Ahead c' d' lines ∨ Inside c' d' lines := by
  have insert := flags.insert
  have insert' := flags'.insert
  have tags := flags.tags
  have tags' := flags'.tags
  have armed := flags.armed
  have armed' := flags'.armed
  have shared := flags.shared
  have shared' := flags'.shared
  rw [unaccepted] at insert insert' tags tags' armed armed' shared shared'
  simp only [Option.isSome_none, Bool.false_eq_true, if_false, Option.none_or,
    Option.elim_none] at insert insert' tags tags' armed armed' shared shared'
  cases phase with
  | inl ahead =>
    left
    refine ⟨?_, ?_, ?_⟩
    · rw [insert', ahead.closed, ite_self]
    · intro inside
      rw [insert] at inside
      cases full : isFullHeader line with
      | true =>
        rw [full] at inside
        cases inside
      | false =>
        rw [full] at inside
        have waits := ahead.waits inside
        rw [headerFirst, full, Bool.false_or, Bool.and_eq_true] at waits
        exact waits.2
    · cases ahead.marks with
      | inl same => exact .inl (by rw [armed, armed', same])
      | inr shields =>
        rw [shieldsMarks, unaccepted] at shields
        cases names : namesJobs line with
        | true => exact .inl (by rw [armed, armed', names, Bool.or_true, Bool.or_true])
        | false =>
          rw [names] at shields
          exact .inr shields
  | inr inside =>
    right
    refine ⟨by rw [insert, insert', inside.insert], by rw [tags, tags', inside.tags],
      by rw [tags]; exact inside.tagged, by rw [armed, armed', inside.armed], ?_⟩
    rw [shared, shared', inside.tags]
    cases names : namesJobs line with
    | true =>
      left
      cases header : c.tags with
      | none =>
        have tagged := inside.tagged
        rw [header] at tagged
        cases tagged
      | some tags => rfl
    | false =>
      cases inside.shared with
      | inl same => exact .inl same
      | inr marks =>
        right
        rw [marksFirst, List.takeWhile_cons] at marks
        cases body : isBody line with
        | true => simp [body] at marks
        | false => simpa [body, names, marksFirst] using marks

theorem phase_accepted {tags : Tags} (accepted : acceptedTags line = some tags)
    (flags : Flags c line c') (flags' : Flags d line d')
    (phase : Ahead c d (line :: lines) ∨ Inside c d (line :: lines)) : Inside c' d' lines := by
  have insert := flags.insert
  have insert' := flags'.insert
  have opened := flags.tags
  have opened' := flags'.tags
  have armed := flags.armed
  have armed' := flags'.armed
  have shared := flags.shared
  have shared' := flags'.shared
  rw [accepted] at insert insert' opened opened' armed armed' shared shared'
  rw [Option.elim_some] at shared shared'
  refine ⟨by rw [insert, insert']; rfl, by rw [opened, opened']; rfl, by rw [opened]; rfl,
    by rw [armed, armed']; rfl, ?_⟩
  rw [shared, shared']
  cases phase with
  | inl ahead =>
    cases ahead.marks with
    | inl same => exact .inl (by rw [same])
    | inr shields =>
      rw [shieldsMarks, accepted, Bool.or_eq_true, Bool.not_eq_true'] at shields
      cases shields with
      | inl anonymous => exact .inl (by simp [anonymous])
      | inr marks => exact .inr marks
  | inr inside => exact .inl (by rw [inside.armed])

theorem feedLine_alike (alike : Alike c d (line :: lines)) (taken : c.feedLine line = .ok (c', e))
    (taken' : d.feedLine line = .ok (d', e')) :
    e'.statsRows = e.statsRows ∧ Alike c' d' lines := by
  have flags := feedLine_flags alike.started taken
  have flags' := feedLine_flags alike.begun taken'
  have schema := feedLine_schema taken
  have schema' := feedLine_schema taken'
  have quiet : isMeasurement line = true → c.insert = true → d.insert = true := by
    intro letter inside
    cases alike.phase with
    | inl ahead =>
      have waits := ahead.waits inside
      rw [headerFirst, (measurement_first letter).2.2.1, letter] at waits
      cases waits
    | inr same => rw [same.insert, inside]
  constructor
  · by_cases row : isMeasurement line = true ∧ c.insert = true
    · obtain ⟨letter, inside⟩ := row
      cases alike.phase with
      | inl ahead =>
        have opened := quiet letter inside
        rw [ahead.closed] at opened
        cases opened
      | inr same =>
        obtain ⟨tags, header⟩ := Option.isSome_iff_exists.mp same.tagged
        obtain ⟨-, -, -, names, body⟩ := measurement_first letter
        have shared : d.sampleShared = c.sampleShared := by
          cases same.shared with
          | inl equal => exact equal
          | inr marks => simp [marksFirst, body] at marks
        rw [feedLine_measured letter inside header] at taken
        rw [feedLine_measured letter (quiet letter inside) (same.tags.trans header)] at taken'
        apply feedRow_statsRows (c := c.tick) (d := d.tick) alike.exclude shared ?_ taken taken'
        intro hardware
        have known := alike.covered line (.head _) letter hardware
        obtain ⟨tokens, found⟩ := Option.isSome_iff_exists.mp known
        have last := alike.ordered
        rw [schemaFirst, if_pos letter, Bool.not_eq_true'] at last
        have kept : ∀ schema, (line :: lines).foldl noteBangLine schema = schema := by
          intro schema
          apply foldl_noteBangLine_other
          rw [List.any_cons, (measurement_first letter).1, last]
          rfl
        have same := alike.schema (measuredType line) tokens
        rw [kept, kept] at same
        exact found.trans (same found).symm
    · have silent : isMeasurement line = false ∨ c.insert = false := by
        rw [not_and_or, Bool.not_eq_true, Bool.not_eq_true] at row
        exact row
      have silent' : isMeasurement line = false ∨ d.insert = false := by
        cases silent with
        | inl other => exact .inl other
        | inr closed =>
          right
          cases alike.phase with
          | inl ahead => exact ahead.closed
          | inr same => rw [same.insert, closed]
      rw [feedLine_silent silent taken, feedLine_silent silent' taken']
  · refine ⟨(feedLine_index taken).1.trans alike.started,
      (feedLine_index taken').1.trans alike.begun,
      by rw [flags.exclude, flags'.exclude, alike.exclude], ?_, ?_,
      schemaFirst_tail alike.ordered, ?_⟩
    · rw [schema, schema']
      exact alike.schema
    · intro other member letter hardware
      rw [schema']
      exact isSome_noteBangLine line
        (alike.covered other (.tail line member) letter hardware)
    · cases accepted : acceptedTags line with
      | none => exact phase_unaccepted accepted flags flags' alike.phase
      | some tags => exact .inr (phase_accepted accepted flags flags' alike.phase)

theorem rowsOf_alike {out out' : List Emit} (run : Traces Context.feedLine c lines out c')
    (run' : Traces Context.feedLine d lines out' d') (alike : Alike c d lines) :
    rowsOf out' = rowsOf out := by
  induction run generalizing d out' with
  | nil =>
    cases run'
    rfl
  | cons taken _ ih =>
    cases run' with
    | cons taken' later =>
      obtain ⟨same, next⟩ := feedLine_alike alike taken taken'
      rw [rowsOf_cons, rowsOf_cons, same, ih later next]

end Alike

end PerfStats.Feed
