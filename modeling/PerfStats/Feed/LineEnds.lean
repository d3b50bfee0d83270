import PerfStats.Feed.LiveSamples

namespace PerfStats.Feed

open Lib Text

section Blank

variable {b : Char}

theorem lstrip_append_blank (blank : isSpace b = true) (s : Str) :
    lstrip (s ++ [b]) = if lstrip s = [] then [] else lstrip s ++ [b] := by
  unfold lstrip
  rw [List.dropWhile_append]
  by_cases empty : s.dropWhile isSpace = []
  · simp [empty, blank]
  · simp [empty]

theorem rstrip_append_blank (blank : isSpace b = true) (s : Str) :
    rstrip (s ++ [b]) = rstrip s := by
  simp [rstrip, blank]

theorem strip_append_blank (blank : isSpace b = true) (s : Str) :
    strip (s ++ [b]) = strip s := by
  rw [strip, lstrip_append_blank blank]
  by_cases empty : lstrip s = []
  · rw [if_pos empty, strip, empty]
  · rw [if_neg empty, rstrip_append_blank blank]
    rfl

theorem split_append_blank (blank : isSpace b = true) (s : Str) :
    split (s ++ [b]) = split s := by
  have steps : splitStep (s ++ [b]) = splitStep s := by
    induction s with
    | nil => simp [splitStep, blank]
    | cons c rest ih => rw [List.cons_append, splitStep, splitStep, ih]
  rw [split, split, steps]

theorem startsWith_append_blank {pre : Str} (solid : b ∉ pre) (s : Str) :
    startsWith pre (s ++ [b]) = startsWith pre s := by
  rw [Bool.eq_iff_iff, startsWith, startsWith, List.isPrefixOf_iff_prefix,
    List.isPrefixOf_iff_prefix, List.prefix_concat_iff]
  constructor
  · intro either
    cases either with
    | inl same => exact absurd (same ▸ List.mem_append_right s (.head _)) solid
    | inr within => exact within
  · exact Or.inr

end Blank

namespace Context

variable {b : Char} (c : Context) (s : Str)

theorem parseAffinityMark_append (blank : isSpace b = true) :
    parseAffinityMark (s ++ [b]) = parseAffinityMark s := by
  rw [parseAffinityMark, parseAffinityMark, strip_append_blank blank]

theorem parseJobsJids_append (blank : isSpace b = true) :
    parseJobsJids (s ++ [b]) = parseJobsJids s := by
  rw [parseJobsJids, parseJobsJids, strip_append_blank blank]

theorem notePercentMark_newline :
    c.notePercentMark (s ++ ['\n']) = c.notePercentMark s := by
  have blank : isSpace '\n' = true := by decide
  rw [notePercentMark, notePercentMark, startsWith_append_blank (by decide) s,
    startsWith_append_blank (by decide) s, parseJobsJids_append s blank,
    parseAffinityMark_append s blank]

theorem feedLine_newline (line : Str) : c.feedLine (line ++ ['\n']) = c.feedLine line := by
  have blank : isSpace '\n' = true := by decide
  rw [feedLine, feedLine, lstrip_append_blank blank]
  cases stripped : lstrip line with
  | nil => rfl
  | cons first rest =>
    have words := split_append_blank blank (first :: rest)
    have marks := notePercentMark_newline c.tick (first :: rest)
    rw [if_neg (List.cons_ne_nil first rest)]
    rw [List.cons_append] at words marks ⊢
    have row : ∀ tags, c.tick.feedRow tags (first :: (rest ++ ['\n'])) =
        c.tick.feedRow tags (first :: rest) := by
      intro tags
      rw [feedRow, feedRow, words]
    have header : c.tick.feedHeader (first :: (rest ++ ['\n'])) =
        c.tick.feedHeader (first :: rest) := by
      rw [feedHeader, feedHeader, words]
    have schema : c.tick.feedSchema (first :: (rest ++ ['\n'])) =
        c.tick.feedSchema (first :: rest) := by
      rw [feedSchema, feedSchema, words]
    dsimp only
    rw [header, schema, marks]
    simp only [row]

end Context

theorem traces_newline {c c' : Context} {lines : List Str} {out : List Emit} :
    Traces Context.feedLine c (lines.map (· ++ ['\n'])) out c' ↔
      Traces Context.feedLine c lines out c' := by
  constructor
  · intro run
    induction lines generalizing c out with
    | nil => exact run
    | cons line rest ih =>
      cases run with
      | cons taken later =>
        rw [Context.feedLine_newline] at taken
        exact .cons taken (ih later)
  · intro run
    induction run with
    | nil => exact .nil _
    | cons taken _ ih =>
      rw [← Context.feedLine_newline] at taken
      exact .cons taken ih

section Lines

variable {c : Char} {rest : Str}

theorem fileLines_cons {line : Str} {lines : List Str} (other : c ≠ '\n')
    (cut : fileLines rest = line :: lines) : fileLines (c :: rest) = (c :: line) :: lines := by
  rw [fileLines, if_neg other, cut]

theorem fileLines_newline (line : Str) (solid : '\n' ∉ line) (rest : Str) :
    fileLines (line ++ '\n' :: rest) = (line ++ ['\n']) :: fileLines rest := by
  induction line with
  | nil => rfl
  | cons c line ih =>
    rw [List.mem_cons, not_or] at solid
    exact fileLines_cons (Ne.symm solid.1) (ih solid.2)

theorem fileLines_flatten {lines : List Str} (solid : ∀ line ∈ lines, '\n' ∉ line) :
    fileLines (lines.map (· ++ ['\n'])).flatten = lines.map (· ++ ['\n']) := by
  induction lines with
  | nil => rfl
  | cons line lines ih =>
    obtain ⟨here, later⟩ := List.forall_mem_cons.mp solid
    rw [List.map_cons, List.flatten_cons, List.append_assoc, List.singleton_append,
      fileLines_newline line here, ih later]

structure WholeLines (m : Str) : Prop where
  broken : ∀ c ∈ m, isLineBreak c = true → c = '\n'
  ended : m = [] ∨ m.getLast? = some '\n'

theorem splitlines_newline (rest : Str) : splitlines ('\n' :: rest) = [] :: splitlines rest := by
  rw [splitlines, if_pos (by decide)]
  intro more same
  exact absurd same (by decide)

theorem splitlines_cons {line : Str} {lines : List Str} (other : isLineBreak c = false)
    (cut : splitlines rest = line :: lines) : splitlines (c :: rest) = (c :: line) :: lines := by
  rw [splitlines, if_neg (by rw [other]; decide), cut]
  intro more same
  rw [same] at other
  exact absurd other (by decide)

theorem WholeLines.tail (whole : WholeLines (c :: rest)) : WholeLines rest where
  broken := fun d member => whole.broken d (.tail c member)
  ended := by
    cases rest with
    | nil => exact .inl rfl
    | cons d more =>
      right
      have last := whole.ended.resolve_left (List.cons_ne_nil c _)
      rwa [List.getLast?_cons_cons] at last

theorem WholeLines.lines {m : Str} (whole : WholeLines m) :
    (∀ line ∈ splitlines m, '\n' ∉ line) ∧ ((splitlines m).map (· ++ ['\n'])).flatten = m := by
  induction m with
  | nil => exact ⟨fun line member => absurd member List.not_mem_nil, rfl⟩
  | cons c rest ih =>
    obtain ⟨solid, joined⟩ := ih whole.tail
    by_cases newline : c = '\n'
    · rw [newline, splitlines_newline, List.map_cons, List.flatten_cons, joined]
      exact ⟨List.forall_mem_cons.mpr ⟨List.not_mem_nil, solid⟩, rfl⟩
    · have other : isLineBreak c = false := by
        rw [Bool.eq_false_iff]
        intro breaks
        exact newline (whole.broken c (.head _) breaks)
      cases cut : splitlines rest with
      | nil =>
        rw [cut] at joined
        have last := whole.ended.resolve_left (List.cons_ne_nil c rest)
        rw [← joined] at last
        exact absurd (Option.some.inj last) newline
      | cons line lines =>
        rw [cut] at solid joined
        rw [splitlines_cons other cut, List.map_cons, List.flatten_cons]
        refine ⟨List.forall_mem_cons.mpr ⟨?_, (List.forall_mem_cons.mp solid).2⟩, ?_⟩
        · rw [List.mem_cons, not_or]
          exact ⟨Ne.symm newline, solid line (.head _)⟩
        · rw [← joined]
          rfl

end Lines

end PerfStats.Feed
