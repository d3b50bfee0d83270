import PerfStats.Feed.LineEnds

namespace PerfStats.Feed

open Lib Text Context

section Model

/-- A record of `collect_marks`, with the time and host it gets. -/
structure CollectedMark where
  body : MarkBody
  bound : Option (Num × Str)
  deriving DecidableEq, Repr

/-- `for rec_p in pending`, where the pending records are those without a time. -/
def bindCollected (marks : List CollectedMark) (when_ : Num) (host : Str) : List CollectedMark :=
  marks.map fun m => { m with bound := some (m.bound.getD (when_, host)) }

/-- The time and host of a digit line, for `collect_marks`. -/
def collectHeader (line : Str) : Option (Num × Str) :=
  match split line with
  | t :: _ :: host :: _ => (Num.parse t).map fun when_ => (when_, host)
  | _ => none

/-- One turn of the loop of `collect_marks`. -/
def collectLine (marks : List CollectedMark) (raw : Str) : List CollectedMark :=
  match strip raw with
  | [] => marks
  | first :: rest =>
    if startsWith (lit "%jobs") (first :: rest) then
      match parseJobsJids (first :: rest) with
      | [] => marks
      | jid :: jids => marks ++ [⟨.jobs (jid :: jids), none⟩]
    else if startsWith (lit "%affinity") (first :: rest) then
      match parseAffinityMark (first :: rest) with
      | none => marks
      | some body => marks ++ [⟨body, none⟩]
    else if isDigit first then
      match collectHeader (first :: rest) with
      | none => marks
      | some (when_, host) => bindCollected marks when_ host
    else marks

def collectMarks (lines : List Str) : List CollectedMark := lines.foldl collectLine []

end Model

section Lines

def usableMark (line : Str) : Option MarkBody :=
  let line := strip line
  if startsWith (lit "%jobs") line then
    match parseJobsJids line with
    | [] => none
    | jid :: jids => some (.jobs (jid :: jids))
  else if startsWith (lit "%affinity") line then parseAffinityMark line
  else none

def ledByDigit (line : Str) : Bool := (lstrip line).head?.elim false isDigit

def opensSample (line : Str) : Option Tags :=
  if ledByDigit line then headerTags line else none

def namesSample (line : Str) : Option (Num × Str) :=
  if ledByDigit line then collectHeader (strip line) else none

theorem rstrip_append (s : Str) :
    ∃ blanks, s = rstrip s ++ blanks ∧ ∀ c ∈ blanks, isSpace c = true := by
  refine ⟨(s.reverse.takeWhile isSpace).reverse, ?_, ?_⟩
  · rw [rstrip, ← List.reverse_append, List.takeWhile_append_dropWhile, List.reverse_reverse]
  · intro c member
    exact List.mem_takeWhile_imp (List.mem_reverse.mp member)

theorem strip_alike {β : Type} {f : Str → β}
    (one : ∀ s b, isSpace b = true → f (s ++ [b]) = f s) (line : Str) :
    f (strip line) = f (lstrip line) := by
  have many : ∀ s blanks : Str, (∀ c ∈ blanks, isSpace c = true) → f (s ++ blanks) = f s := by
    intro s blanks
    induction blanks using List.reverseRecOn with
    | nil =>
      intro _
      rw [List.append_nil]
    | append_singleton blanks b ih =>
      intro all
      rw [← List.append_assoc, one _ b (all b (by simp)),
        ih fun c member => all c (List.mem_append_left _ member)]
  obtain ⟨blanks, cut, all⟩ := rstrip_append (lstrip line)
  calc
    f (strip line) = f (strip line ++ blanks) := (many _ blanks all).symm
    _ = f (lstrip line) := congrArg f cut.symm

theorem startsWith_strip {pre : Str} (solid : (pre.all fun c => !isSpace c) = true)
    (line : Str) :
    startsWith pre (strip line) = startsWith pre (lstrip line) := by
  apply strip_alike
  intro s b blank
  apply startsWith_append_blank
  intro member
  have other := List.all_eq_true.mp solid b member
  rw [blank] at other
  cases other

theorem jobs_strip (line : Str) : parseJobsJids (strip line) =
    parseJobsJids (lstrip line) :=
  strip_alike (fun s _ blank => parseJobsJids_append s blank) line

theorem affinity_strip (line : Str) : parseAffinityMark (strip line) =
    parseAffinityMark (lstrip line) :=
  strip_alike (fun s _ blank => parseAffinityMark_append s blank) line

theorem usableMark_eq (line : Str) : usableMark line =
    if startsWith (lit "%jobs") (lstrip line) then
      match parseJobsJids (lstrip line) with
      | [] => none
      | jid :: jids => some (.jobs (jid :: jids))
    else if startsWith (lit "%affinity") (lstrip line) then
      parseAffinityMark (lstrip line)
    else none := by
  rw [usableMark, startsWith_strip (by decide), startsWith_strip (by decide), jobs_strip,
    affinity_strip]

theorem head_strip (line : Str) : (strip line).head? = (lstrip line).head? := by
  obtain ⟨blanks, cut, all⟩ := rstrip_append (lstrip line)
  cases inner : strip line with
  | cons first rest =>
    rw [cut]
    change _ = (strip line ++ blanks).head?
    rw [inner]
    rfl
  | nil =>
    change lstrip line = strip line ++ blanks at cut
    rw [inner, List.nil_append] at cut
    cases front : lstrip line with
    | nil => rfl
    | cons first rest =>
      have solid := List.head?_dropWhile_not isSpace line
      rw [show line.dropWhile isSpace = first :: rest from front] at solid
      have blank := all first (by rw [← cut, front]; exact .head _)
      exact absurd blank (by simpa using solid)

theorem affinity_body {line : Str} {body : MarkBody}
    (found : parseAffinityMark line = some body) : ∃ jid cpus gpus cg,
      body = .affinity jid cpus gpus cg := by
  simp only [parseAffinityMark] at found
  split at found
  · split at found
    · cases found
    · cases found
      exact ⟨_, _, _, _, rfl⟩
  · cases found

theorem no_percent {first : Char} (digit : isDigit first = true) (rest : Str) :
    startsWith (lit "%jobs") (first :: rest) = false ∧
      startsWith (lit "%affinity") (first :: rest) = false := by
  have other : ¬ '%' = first := by
    intro same
    subst same
    revert digit
    decide
  simp [startsWith, lit, List.isPrefixOf, other]

theorem usableMark_digit {line : Str} (digit : ledByDigit line = true) :
    usableMark line = none := by
  rw [usableMark_eq]
  rw [ledByDigit] at digit
  cases front : lstrip line with
  | nil =>
    rw [front] at digit
    cases digit
  | cons first rest =>
    rw [front] at digit
    have apart := no_percent (show isDigit first = true from digit) rest
    simp only [apart.1, apart.2]
    rfl

end Lines

section Collected

variable {marks : List CollectedMark}

theorem collectLine_eq (marks : List CollectedMark) (line : Str) :
    collectLine marks line =
      (namesSample line).elim
        (marks ++ (usableMark line).toList.map fun body => ⟨body, none⟩)
        (fun found => bindCollected marks found.1 found.2) := by
  have same_head := head_strip line
  rw [collectLine]
  cases whole : strip line with
  | nil =>
    have empty : lstrip line = [] := by
      rw [whole] at same_head
      exact List.head?_eq_none_iff.mp same_head.symm
    have no_mark : usableMark line = none := by
      rw [usableMark, whole]
      rfl
    have no_sample : namesSample line = none := by
      rw [namesSample, ledByDigit, empty]
      rfl
    rw [no_mark, no_sample]
    simp
  | cons first rest =>
    have digit : ledByDigit line = isDigit first := by
      rw [ledByDigit, ← same_head, whole]
      rfl
    dsimp only
    by_cases led : isDigit first = true
    · have no_mark := usableMark_digit (digit.trans led)
      have found : namesSample line = collectHeader (first :: rest) := by
        rw [namesSample, digit, if_pos led, whole]
      have apart := no_percent led rest
      rw [no_mark, found, if_neg (by simp [apart.1]), if_neg (by simp [apart.2]), if_pos led]
      cases collectHeader (first :: rest) with
      | none => simp
      | some header => rfl
    · have no_sample : namesSample line = none := by
        rw [namesSample, digit, if_neg led]
      rw [no_sample, usableMark, whole]
      split
      · cases parseJobsJids (first :: rest) with
        | nil => simp
        | cons jid jids => rfl
      · split
        · cases parseAffinityMark (first :: rest) with
          | none => simp
          | some body => rfl
        · simp

def collectedOf : List Str → List CollectedMark
  | [] => []
  | line :: rest =>
    (usableMark line).toList.map (fun body => ⟨body, rest.findSome? namesSample⟩) ++
      collectedOf rest

def CollectedMark.settle (header : Option (Num × Str)) (m : CollectedMark) : CollectedMark :=
  { m with bound := m.bound <|> header }

theorem collect_fold (lines : List Str) (marks : List CollectedMark) :
    lines.foldl collectLine marks =
      marks.map (CollectedMark.settle (lines.findSome? namesSample)) ++ collectedOf lines := by
  induction lines generalizing marks with
  | nil =>
    have kept : CollectedMark.settle none = id := by
      funext m
      cases m with
      | mk body bound => simp [CollectedMark.settle]
    simp [collectedOf, kept]
  | cons line rest ih =>
    rw [List.foldl_cons, ih, collectLine_eq, collectedOf, List.findSome?_cons]
    cases found : namesSample line with
    | none => simp [CollectedMark.settle, Function.comp_def]
    | some header =>
      have no_mark : usableMark line = none := by
        apply usableMark_digit
        by_contra other
        rw [namesSample, if_neg other] at found
        cases found
      rw [no_mark]
      simp only [Option.elim_some, Option.toList_none, List.map_nil, List.nil_append,
        bindCollected, List.map_map]
      congr 1
      apply List.map_congr_left
      intro m _
      cases m with
      | mk body bound => cases bound <;> rfl

end Collected

section Parsed

variable {c c' : Context} {line : Str} {e : Emit}

def Tags.sample (tags : Tags) : ℚ × Str := (tags.time, tags.host)

structure MarkStep (c : Context) (line : Str) (c' : Context) (e : Emit) : Prop where
  start : c'.startIdx = 0
  tags : c'.tags = (opensSample line <|> c.tags)
  marks : ∀ marks, e.intoMarks marks = (opensSample line).elim
    (marks ++ (usableMark line).toList.map fun body => ⟨body, c.tags.map Tags.sample⟩)
    (fun tags => Parser.bindPendingMarks marks tags.time tags.host)

theorem markStep_plain (start : c'.startIdx = 0) (tags : c'.tags = c.tags)
    (marks : ∀ marks, e.intoMarks marks = marks) (opens : opensSample line = none)
    (mark : usableMark line = none) : MarkStep c line c' e := by
  refine ⟨start, by rw [tags, opens]; rfl, fun ms => ?_⟩
  rw [opens, mark, marks]
  simp

variable {first : Char} {rest : Str}

theorem not_opens_of_head
    (stripped : lstrip line = first :: rest) (other : isDigit first = false) :
    opensSample line = none := by
  have led : ledByDigit line = false := by
    rw [ledByDigit, stripped]
    exact other
  rw [opensSample, led]
  rfl

theorem no_mark_of_head (stripped : lstrip line = first :: rest) (other : first ≠ '%') :
    usableMark line = none := by
  have apart : ¬ '%' = first := fun same => other same.symm
  rw [usableMark_eq, stripped]
  simp [startsWith, lit, List.isPrefixOf, apart]

theorem markStep_header (start : c.startIdx = 0)
    (stripped : lstrip line = first :: rest) (digit : isDigit first = true) :
    MarkStep c line (c.tick.feedHeader (first :: rest)).1
      (c.tick.feedHeader (first :: rest)).2 := by
  have led : ledByDigit line = true := by
    rw [ledByDigit, stripped]
    exact digit
  have no_mark := usableMark_digit led
  have opens : opensSample line = headerTags line := by rw [opensSample, if_pos led]
  rw [headerTags, stripped] at opens
  unfold feedHeader
  split
  · next t jid host more words =>
      rw [words] at opens
      dsimp only at opens
      cases time : sampleTime t with
      | none =>
        rw [time] at opens
        exact markStep_plain start rfl (fun _ => rfl) opens no_mark
      | some time' =>
        rw [time] at opens
        refine ⟨start, by rw [opens]; rfl, fun marks => ?_⟩
        rw [opens]
        rfl
  · next few =>
      have short : opensSample line = none := by
        rw [opens]
        split
        · next t jid host more words => exact absurd words (few t jid host more)
        · rfl
      exact markStep_plain start rfl (fun _ => rfl) short no_mark

theorem markStep_percent (start : c.startIdx = 0) (stripped : lstrip line = '%' :: rest) :
    MarkStep c line (c.tick.notePercentMark ('%' :: rest)).1
      (c.tick.notePercentMark ('%' :: rest)).2 := by
  have opens : opensSample line = none := not_opens_of_head stripped (by decide)
  have mark := usableMark_eq line
  rw [stripped] at mark
  rw [notePercentMark]
  split at mark
  · next jobs =>
      rw [if_pos jobs]
      cases found : parseJobsJids ('%' :: rest) with
      | nil =>
        rw [found] at mark
        exact markStep_plain start rfl (fun _ => rfl) opens mark
      | cons jid jids =>
        rw [found] at mark
        dsimp only
        rw [queueMark_eq]
        refine ⟨start, by rw [opens]; rfl, fun marks => ?_⟩
        rw [opens, mark]
        rfl
  · next other =>
      rw [if_neg other]
      split at mark
      · next affinity =>
          rw [if_pos affinity]
          cases found : parseAffinityMark ('%' :: rest) with
          | none =>
            rw [found] at mark
            exact markStep_plain start rfl (fun _ => rfl) opens mark
          | some body =>
            rw [found] at mark
            obtain ⟨jid, cpus, gpus, cg, rfl⟩ := affinity_body found
            dsimp only
            rw [queueMark_eq]
            refine ⟨start, by rw [opens]; rfl, fun marks => ?_⟩
            rw [opens, mark]
            rfl
      · next neither =>
          rw [if_neg neither]
          exact markStep_plain start rfl (fun _ => rfl) opens mark

theorem feedRow_marks {tags : Tags} {s : Str} (taken : c.feedRow tags s = .ok (c', e)) :
    c'.startIdx = c.startIdx ∧ c'.tags = c.tags ∧ ∀ marks, e.intoMarks marks = marks := by
  rcases feedRow_cases taken with
    ⟨rfl, rfl⟩ | ⟨rows, rfl, rfl⟩ | ⟨row, bare, fastBare, rfl, rfl⟩
  · exact ⟨rfl, rfl, fun _ => rfl⟩
  · exact ⟨rfl, rfl, fun _ => rfl⟩
  · exact ⟨rfl, rfl, fun _ => rfl⟩

theorem feedLine_marks (start : c.startIdx = 0) (taken : c.feedLine line = .ok (c', e)) :
    MarkStep c line c' e := by
  unfold feedLine at taken
  split at taken
  · next blank =>
      cases taken
      have opens : opensSample line = none := by
        rw [opensSample, ledByDigit, blank]
        rfl
      have mark : usableMark line = none := by
        rw [usableMark_eq, blank]
        rfl
      exact markStep_plain start rfl (fun _ => rfl) opens mark
  · next first rest stripped =>
      split at taken
      · next letter =>
          rw [Bool.and_eq_true] at letter
          have opens := not_opens_of_head stripped (isDigit_of_isAlpha letter.1)
          have mark := no_mark_of_head stripped (by
            intro percent
            rw [percent] at letter
            exact absurd letter.1 (by decide))
          cases header : c.tags with
          | none =>
            simp only [header] at taken
            cases taken
            exact markStep_plain start rfl (fun _ => rfl) opens mark
          | some tags =>
            simp only [header] at taken
            obtain ⟨same, kept, silent⟩ := feedRow_marks taken
            exact markStep_plain (same.trans start) kept silent opens mark
      · split at taken
        · next digit =>
            rw [Bool.and_eq_true, decide_eq_true_eq] at digit
            have step := markStep_header start stripped digit.2
            rw [Except.ok.inj taken] at step
            exact step
        · next early =>
            have other : isDigit first = false := by
              rw [start] at early
              simpa using early
            have opens := not_opens_of_head stripped other
            split at taken
            · next bang =>
                have mark := no_mark_of_head stripped (by rw [bang]; decide)
                unfold feedSchema at taken
                split at taken
                · dsimp only at taken
                  split at taken
                  · cases taken
                  · cases taken
                    exact markStep_plain start rfl (fun _ => rfl) opens mark
                · cases taken
            · split at taken
              · next percent =>
                  subst percent
                  have step := markStep_percent start stripped
                  rw [Except.ok.inj taken] at step
                  exact step
              · next percent =>
                  cases taken
                  exact markStep_plain start rfl (fun _ => rfl) opens
                    (no_mark_of_head stripped percent)

def parsedOf (tags : Option Tags) : List Str → List Mark
  | [] => []
  | line :: rest =>
    (usableMark line).toList.map
      (fun body => ⟨body, (tags <|> rest.findSome? opensSample).map Tags.sample⟩) ++
      parsedOf (opensSample line <|> tags) rest

def Mark.settle (sample : Option Tags) (m : Mark) : Mark :=
  { m with bound := m.bound <|> sample.map Tags.sample }

theorem parsed_fold {lines : List Str} {out : List Emit} (start : c.startIdx = 0)
    (run : Traces feedLine c lines out c') (marks : List Mark) :
    out.foldl Emit.intoMarks marks =
      marks.map (Mark.settle (lines.findSome? opensSample)) ++ parsedOf c.tags lines := by
  induction run generalizing marks with
  | nil =>
    have kept : Mark.settle none = id := by
      funext m
      cases m with
      | mk body bound => simp [Mark.settle]
    simp [parsedOf, kept]
  | @cons c mid last line e rest out taken _ ih =>
    have step := feedLine_marks start taken
    rw [List.foldl_cons, ih step.start, step.marks, step.tags, parsedOf, List.findSome?_cons]
    cases opened : opensSample line with
    | none =>
      rw [Option.elim_none, List.map_append, List.append_assoc, List.map_map]
      congr 2
      apply List.map_congr_left
      intro body _
      cases c.tags <;> rfl
    | some tags =>
      have no_mark : usableMark line = none := by
        apply usableMark_digit
        by_contra other
        rw [opensSample, if_neg other] at opened
        cases opened
      rw [no_mark]
      simp only [Option.elim_some, Option.toList_none, List.map_nil, List.nil_append,
        Parser.bindPendingMarks, List.map_map]
      congr 1
      apply List.map_congr_left
      intro m _
      cases m with
      | mk body bound => cases bound <;> rfl

end Parsed

section Alike

def Mark.collected (m : Mark) : CollectedMark :=
  ⟨m.body, m.bound.map fun b => (.fin b.1, b.2)⟩

def Tags.named (tags : Tags) : Num × Str := (.fin tags.time, tags.host)

def openSample (tags : Option Tags) (lines : List Str) : Option Tags :=
  lines.foldl (fun tags line => opensSample line <|> tags) tags

/-- The first header behind each mark names the sample the mark stands in, or the first sample
to come where it stands in none. -/
def HeadersAlike (tags : Option Tags) (lines : List Str) : Prop :=
  ∀ before line after, lines = before ++ line :: after → (usableMark line).isSome = true →
    after.findSome? namesSample =
      (openSample tags before <|> after.findSome? opensSample).map Tags.named

theorem headersAlike_cons {tags : Option Tags} {line : Str} {rest : List Str} :
    HeadersAlike tags (line :: rest) ↔
      ((usableMark line).isSome = true → rest.findSome? namesSample =
        (tags <|> rest.findSome? opensSample).map Tags.named) ∧
      HeadersAlike (opensSample line <|> tags) rest := by
  constructor
  · intro alike
    constructor
    · exact alike [] line rest rfl
    · intro before mark after cut
      exact alike (line :: before) mark after (by rw [cut]; rfl)
  · intro both before mark after cut
    cases before with
    | nil =>
      obtain ⟨rfl, rfl⟩ := List.cons.inj cut
      exact both.1
    | cons head before =>
      obtain ⟨rfl, rfl⟩ := List.cons.inj cut
      exact both.2 before mark after rfl

theorem collected_eq_parsed_iff (lines : List Str) (tags : Option Tags) :
    collectedOf lines = (parsedOf tags lines).map Mark.collected ↔ HeadersAlike tags lines := by
  induction lines generalizing tags with
  | nil =>
    constructor
    · intro _ before mark after cut
      cases before <;> cases cut
    · intro _
      rfl
  | cons line rest ih =>
    rw [headersAlike_cons, ← ih, collectedOf, parsedOf, List.map_append]
    have pairs : ∀ o : Option Tags, (o.map Tags.sample).map (fun b => (Num.fin b.1, b.2)) =
        o.map Tags.named := by
      intro o
      cases o <;> rfl
    cases mark : usableMark line with
    | none => simp
    | some body =>
      simp only [Option.toList_some, List.map_cons, List.map_nil, List.cons_append,
        List.nil_append, List.cons.injEq, Option.isSome_some, forall_const, Mark.collected,
        CollectedMark.mk.injEq, true_and, pairs]

/-- `collect_marks` gives each mark the sample the parser gives it exactly where the first header
behind it has the time and host of that sample. -/
theorem marks_bound_alike_iff (exclude lines : List Str) (p : Parser)
    (read : (Parser.init 0 exclude).feedLines lines = .ok p) :
    collectMarks lines = p.marks.map Mark.collected ↔ HeadersAlike none lines := by
  obtain ⟨out, run, _, _, marks⟩ := Parser.feedLines_eq_ok.mp read
  have parsed := parsed_fold (c := init 0 exclude) rfl run []
  rw [marks, show (Parser.init 0 exclude).marks = [] from rfl, parsed, collectMarks, collect_fold]
  exact collected_eq_parsed_iff lines none

def markedSample : List Str :=
  [[], lit "1710000001.000000 7 hosta", lit "%jobs jids=7", lit "host_cpu 0 1"]

theorem marks_bound_alike_marked :
    ∃ p, (Parser.init 0 []).feedLines markedSample = .ok p ∧
      (collectMarks markedSample = p.marks.map Mark.collected ↔
        HeadersAlike none markedSample) := by
  have read : ((Parser.init 0 []).feedLines markedSample).toOption.isSome = true := by
    decide +kernel
  cases result : (Parser.init 0 []).feedLines markedSample with
  | error e =>
    rw [result] at read
    cases read
  | ok p => exact ⟨p, rfl, marks_bound_alike_iff [] markedSample p result⟩

theorem mark_left_unbound :
    ((Parser.init 0 []).feedLines markedSample).toOption.map Parser.marks =
        some [⟨.jobs [lit "7"], some (1710000001, lit "hosta")⟩] ∧
      collectMarks markedSample = [⟨.jobs [lit "7"], none⟩] ∧
      ¬ ∀ p, (Parser.init 0 []).feedLines markedSample = .ok p →
        collectMarks markedSample = p.marks.map Mark.collected := by
  have parsed : ((Parser.init 0 []).feedLines markedSample).toOption.map Parser.marks =
      some [⟨.jobs [lit "7"], some (1710000001, lit "hosta")⟩] := by decide +kernel
  have collected : collectMarks markedSample = [⟨.jobs [lit "7"], none⟩] := by decide +kernel
  refine ⟨parsed, collected, fun alike => ?_⟩
  cases result : (Parser.init 0 []).feedLines markedSample with
  | error e =>
    rw [result] at parsed
    cases parsed
  | ok p =>
    have same := alike p result
    rw [result] at parsed
    have marks : p.marks = [⟨.jobs [lit "7"], some (1710000001, lit "hosta")⟩] :=
      Option.some.inj parsed
    rw [collected, marks] at same
    cases same

end Alike

end PerfStats.Feed
