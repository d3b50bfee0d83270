import PerfStats.Feed.StreamedRows
import PerfStats.Monitor.TextDecoded

namespace PerfStats.Monitor

open Lib Feed Text

section Headers

theorem isDigitLine_word {first : Str} (word : Word first) (rest : List Str) :
    isDigitLine (wordLine first rest) = first.head?.elim false isDigit := by
  rw [isDigitLine, wordLine, List.append_assoc, lstrip_of_word word]
  obtain ⟨c, w, rfl⟩ := List.exists_cons_of_ne_nil word.1
  rfl

theorem rowLine_plain (rowLineCap : Nat) (stats : Stats) (tier : StatsRowTier) :
    isDigitLine (rowLine rowLineCap stats tier) = false := by
  rw [rowLine_eq, rowText_words, isDigitLine_word stats.type.word]
  obtain ⟨c, w, shape⟩ := List.exists_cons_of_ne_nil stats.type.word.1
  rw [shape]
  exact isDigit_of_isAlpha (stats.type.letter c (by rw [shape]; rfl))

theorem header_plain {b : Banner} {types : List StatsType} {lines : List Str}
    (written : statsWrHdr b types = some lines) : ∀ line ∈ lines, isDigitLine line = false := by
  obtain ⟨schema, all, done⟩ := Option.bind_eq_some_iff.mp written
  have each := mapM_some (fun t _ => emitSchemaLine_eq t) all
  rw [← Option.some.inj done, each]
  intro line member
  obtain banner | schema := List.mem_append.mp member
  · obtain ⟨rest, rfl⟩ := List.head?_eq_some_iff.mp (emitPropertyBanner_dollar b line banner)
    rfl
  · obtain ⟨t, _, rfl⟩ := List.mem_map.mp schema
    rfl

theorem plain_line {line : Str} (plain : isDigitLine line = false) :
    lineTime line = none ∧ Context.shortHeader line = false := by
  constructor
  · simp [lineTime, plain]
  · unfold isDigitLine at plain
    simp [Context.shortHeader, plain]

theorem stamp_line (stamp : Stamp) :
    lineTime (wordLine stamp.text [stamp.jid, stamp.host]) = some stamp.time ∧
      Context.shortHeader (wordLine stamp.text [stamp.jid, stamp.host]) = false := by
  obtain ⟨line, words⟩ := stamp.words
  have digit : isDigitLine (wordLine stamp.text [stamp.jid, stamp.host]) = true := by
    rw [isDigitLine_word stamp.text_word]
    obtain ⟨c, w, shape⟩ := List.exists_cons_of_ne_nil stamp.text_word.1
    rw [shape]
    exact stamp.digit c (by rw [shape]; rfl)
  constructor
  · simp [lineTime, digit, Context.headerTags, line, words, stamp.reads]
  · simp [Context.shortHeader, line, words]

theorem sample_lines (rowLineCap : Nat) (s : Sample) :
    (s.lines rowLineCap).filterMap lineTime = [s.stamp.time] ∧
      ∀ line ∈ s.lines rowLineCap, Context.shortHeader line = false := by
  have rows : ∀ line ∈ s.rows.map (rowLine rowLineCap · s.tier), isDigitLine line = false := by
    intro line member
    obtain ⟨stats, _, rfl⟩ := List.mem_map.mp member
    exact rowLine_plain rowLineCap stats s.tier
  constructor
  · have none_opens := List.filterMap_eq_nil_iff.mpr fun line member =>
      (plain_line (rows line member)).1
    rw [Sample.lines, List.filterMap_cons_none rfl, List.filterMap_cons_some (stamp_line s.stamp).1,
      none_opens]
  · intro line member
    obtain rfl | rfl | row : line = ['\n'] ∨ line = _ ∨ line ∈ _ := by
      simpa only [Sample.lines, List.mem_cons] using member
    · rfl
    · exact (stamp_line s.stamp).2
    · exact (plain_line (rows line row)).2

theorem samples_lines (rowLineCap : Nat) (samples : List Sample) :
    (samples.flatMap (Sample.lines rowLineCap)).filterMap lineTime =
      samples.map fun s => s.stamp.time := by
  induction samples with
  | nil => rfl
  | cons s samples ih =>
    rw [List.flatMap_cons, List.filterMap_append, (sample_lines rowLineCap s).1, ih]
    rfl

end Headers

/-- The samples that a monitor emits in the order of their times are streamed without an error, and
the rows of their deltas are those of everything that was emitted. -/
theorem monitor_text_streamed (limits : Limits) (rowLineCap : Nat) (b : Banner)
    (types : List StatsType) (samples : List Sample) (exclude : List Str)
    (names : (types.map StatsType.name).Nodup) (current : Current types)
    (asked : ∀ s ∈ samples, Rows types s.rows)
    (increasing : (samples.map fun s => s.stamp.time).Pairwise (· < ·)) (lines : List Str)
    (written : payloadLines rowLineCap b types samples = some lines) :
    ∃ s, parseStatsFileStreamingIncremental limits 0 exclude lines = .ok s ∧
      s.Lands (Frame.computeDeltasAndArc ((samples.flatMap fun s =>
        s.rows.flatMap (parsedRow exclude s.stamp s.tier)).map StatsRow.hw)) := by
  obtain ⟨header, made, rfl⟩ := Option.map_eq_some_iff.mp written
  obtain ⟨q, fed, follows, cols⟩ := feedHeader_spec b types exclude current.keyed names made
  obtain ⟨r, later, cols'⟩ := feedSamples_spec current asked follows rowLineCap
  have parsed := feedLines_append fed later
  have times : (header ++ samples.flatMap (Sample.lines rowLineCap)).filterMap lineTime =
      samples.map fun s => s.stamp.time := by
    rw [List.filterMap_append, samples_lines, List.filterMap_eq_nil_iff.mpr fun line member =>
      (plain_line (header_plain made line member)).1]
    rfl
  have long : ∀ line ∈ header ++ samples.flatMap (Sample.lines rowLineCap),
      Context.shortHeader line = false := by
    intro line member
    obtain front | behind := List.mem_append.mp member
    · exact (plain_line (header_plain made line front)).2
    · obtain ⟨s, _, inside⟩ := List.mem_flatMap.mp behind
      exact (sample_lines rowLineCap s).2 line inside
  obtain ⟨out, run, _⟩ := Parser.feedLines_eq_ok.mp parsed
  have ordered : (headerTimes (outputs Context.feedLine (.init 0 exclude)
      (header ++ samples.flatMap (Sample.lines rowLineCap)))).Pairwise (· < ·) := by
    rw [show outputs Context.feedLine (.init 0 exclude) _ = out from run.outputs_eq]
    exact (times ▸ increasing).sublist (headerTimes_sublist run)
  obtain ⟨s, streamed, rows⟩ :=
    streamed_rows_perm limits parsed ordered (unsplit_of_long long)
  rw [wholeRows, cols', cols, List.nil_append] at rows
  exact ⟨s, streamed, Stream.lands rows⟩

theorem later_words : Word (lit "20.500000") := by simp [Word, lit, isSpace]

theorem later_digit : ∀ c ∈ (lit "20.500000").head?, isDigit c = true := by
  simp [lit, isDigit_archived, asciiDigit]

theorem later_reads : Context.sampleTime (lit "20.500000") = some (41 / 2) := by decide +kernel

def laterStamp : Stamp :=
  { stampSample with
    text := lit "20.500000"
    time := 41 / 2
    text_word := later_words
    digit := later_digit
    reads := later_reads }

def twoFast : List Sample := [fastSample, { fastSample with stamp := laterStamp }]

theorem monitor_text_streamed_two : ∃ s,
    parseStatsFileStreamingIncremental ⟨1, none, 1, by decide⟩ 0 excludeTypes
        ((payloadLines 0 bannerSample [blockType] twoFast).getD []) = .ok s ∧
      (streamedRows s).length = 2 := by
  have written : payloadLines 0 bannerSample [blockType] twoFast =
      some ((payloadLines 0 bannerSample [blockType] twoFast).getD []) := by decide +kernel
  have asked : ∀ s ∈ twoFast, Rows [blockType] s.rows := fun s member => by
    obtain rfl | rfl : s = fastSample ∨ s = { fastSample with stamp := laterStamp } := by
      simpa [twoFast] using member
    all_goals exact ⟨by simp [fastSample], by simp [fastSample, Word, lit, isSpace]⟩
  obtain ⟨s, streamed, rows, _⟩ := monitor_text_streamed ⟨1, none, 1, by decide⟩ 0 bannerSample
    [blockType] twoFast excludeTypes (by simp) ⟨by simp [blockType], by decide +kernel⟩ asked
    (by decide +kernel) _ written
  exact ⟨s, streamed, rows.length_eq.trans (by decide +kernel)⟩

end PerfStats.Monitor
