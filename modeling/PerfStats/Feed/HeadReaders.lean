import PerfStats.Feed.LiveSamples

namespace PerfStats.Feed

open Lib Text

/-- `iter_stats_file_lines` decodes as ASCII: each other byte is read as U+FFFD. -/
def asciiLine (line : Str) : Str :=
  line.flatMap fun c => if c.toNat < 128 then [c] else List.replicate c.utf8Size '\uFFFD'

def universalNewlines : Str → Str
  | '\r' :: '\n' :: rest => '\n' :: universalNewlines rest
  | c :: rest => (if c = '\r' then '\n' else c) :: universalNewlines rest
  | [] => []

/-- The lines of the file as `open(path)` reads them, in text mode. -/
def textModeLines (lines : List Str) : List Str :=
  lines.flatMap fun line => fileLines (universalNewlines line)

section Readers

variable [Interpreter]

def parseFirstTimestampLine (lines : List Str) : Option Identity :=
  lines.findSome? fun line =>
    if isDigitLine line then digitLineIdentity (lstrip line) else none

def parseFirstTimestampLineStreaming (lines : List Str) : Option Identity :=
  (lines.map asciiLine).findSome? fun line =>
    if isDigitLine line then digitLineIdentity (lstrip line) else none

def wholeSecond (t : Str) : Except ParseError Int :=
  match Num.parse t with
  | some (.fin q) => .ok (truncate q)
  | some .nan | none => .error .valueError
  | some .inf | some .ninf => .error .overflowError

/-- `datetime.fromtimestamp(second, tz=UTC)`: the years from 1 to 9999. -/
def fromTimestamp (second : Int) : Except ParseError Int :=
  if -62135596800 ≤ second ∧ second < 253402300800 then .ok second
  else if -2 ^ 63 ≤ second ∧ second < 2 ^ 63 then .error .valueError
  else .error .overflowError

def headLines : List Str → List Str
  | [] => []
  | line :: rest => if isDigitLine line then [line] else line :: headLines rest

def readStatsFileHeadIdentity (lines : List Str) : Except ParseError (Option (Str × Int)) :=
  match parseFirstTimestampLine (headLines (textModeLines lines)) with
  | none => .ok none
  | some (t, _, host) =>
    if host = [] then .ok none
    else do
      let timestampUtc ← fromTimestamp (← wholeSecond t)
      return some (strip host, timestampUtc)

def identitySecond : Option Identity → Except ParseError (Option (Str × Int))
  | none => .ok none
  | some (t, _, host) => do return some (host, ← wholeSecond t)

def firstAccepted (c : Context) : List Str → Option (Str × Int)
  | [] => none
  | line :: rest =>
    match c.feedLine line with
    | .error _ => none
    | .ok (next, _) =>
      if next.insert then next.tags.map fun tags => (tags.host, truncate tags.time)
      else firstAccepted next rest

def ReadersAgree (exclude lines : List Str) : Prop :=
  let accepted := firstAccepted (.init 0 exclude) lines
  readStatsFileHeadIdentity lines = .ok accepted ∧
    identitySecond (parseFirstTimestampLine lines) = .ok accepted ∧
      identitySecond (parseFirstTimestampLineStreaming lines) = .ok accepted

def refusesSchema (line : Str) : Bool :=
  isBangLine line && match split (lstrip line) with
    | _ :: event :: events => (event :: events).any schemaTokenUnread
    | _ => true

/-- No schema line that the parser refuses stands in front of the first full header. -/
def schemasRead : List Str → Bool
  | [] => true
  | line :: rest =>
    isFullHeader line || if refusesSchema line then !rest.any isFullHeader else schemasRead rest

def sampleOf (line : Str) : Option (Str × Int) :=
  (acceptedTags line).map fun tags => (tags.host, truncate tags.time)

/-- The sample that a reader names for the header it meets; it names none where it meets none. -/
def Names (named : Option (Str × Int)) (found : Option Str) : Prop :=
  found.elim (named = none) fun line => named.isSome = true ∧ sampleOf line = named

structure SoundHead (lines : List Str) (named : Option (Str × Int)) : Prop where
  schemas : schemasRead lines = true
  first : Names named (lines.find? isFullHeader)
  head : Names named (((textModeLines lines).find? isDigitLine).filter isFullHeader)
  streamed : Names named ((lines.map asciiLine).find? isFullHeader)

namespace Context

variable {c : Context} {line : Str}

theorem feedLine_start {next : Context} {e : Emit} (taken : c.feedLine line = .ok (next, e)) :
    next.startIdx = c.startIdx := by
  cases feedLine_effect taken <;> rfl

theorem feedLine_refused (refused : refusesSchema line = true) :
    ∃ err, c.feedLine line = .error err := by
  simp only [refusesSchema, isBangLine, Bool.and_eq_true, decide_eq_true_eq] at refused
  obtain ⟨bang, unread⟩ := refused
  obtain ⟨rest, stripped⟩ := List.head?_eq_some_iff.mp bang
  have fed : c.feedLine line = c.tick.feedSchema ('!' :: rest) := by
    simp [feedLine, stripped]
  rw [fed, feedSchema]
  rw [stripped] at unread
  cases words : split ('!' :: rest) with
  | nil => exact ⟨.valueError, rfl⟩
  | cons label tokens =>
    rw [words] at unread
    cases tokens with
    | nil => exact ⟨.valueError, rfl⟩
    | cons event events => exact ⟨.valueError, if_pos unread⟩

theorem feedLine_taken (outside : c.insert = false) (sound : refusesSchema line = false) :
    ∃ next e, c.feedLine line = .ok (next, e) := by
  unfold feedLine
  split
  · exact ⟨_, _, rfl⟩
  · next first rest stripped =>
    rw [outside, Bool.and_false, if_neg (by simp)]
    split
    · exact ⟨_, _, rfl⟩
    · split
      · next bang =>
        simp only [refusesSchema, isBangLine, stripped, bang, List.head?_cons, decide_true,
          Bool.true_and] at sound
        rw [bang, feedSchema]
        cases words : split ('!' :: rest) with
        | nil =>
          rw [words] at sound
          cases sound
        | cons label tokens =>
          rw [words] at sound
          cases tokens with
          | nil => cases sound
          | cons event events => exact ⟨_, _, if_neg (by simp [sound])⟩
      · split
        · exact ⟨_, _, rfl⟩
        · exact ⟨_, _, rfl⟩

end Context

section Agreement

variable {c : Context} {line : Str} {lines rest more : List Str} {t jid host : Str}
  {named : Option (Str × Int)}

omit [Interpreter] in
theorem split_ne_nil {s word : Str} (member : word ∈ split s) : word ≠ [] := by
  have finished : ∀ w ∈ (splitStep s).2, w ≠ [] := by
    clear member
    induction s with
    | nil => simp [splitStep]
    | cons c rest ih =>
      rw [splitStep]
      by_cases blank : isSpace c = true
      · by_cases empty : (splitStep rest).1 = []
        · simpa [blank, empty] using ih
        · simpa [blank, empty] using ih
      · simpa [blank] using ih
  change word ∈ (if (splitStep s).1 = [] then (splitStep s).2
    else (splitStep s).1 :: (splitStep s).2) at member
  split at member
  · exact finished word member
  · next current =>
    rcases List.mem_cons.mp member with rfl | earlier
    · exact current
    · exact finished word earlier

theorem digitLineIdentity_isSome (digit : isDigitLine line = true) :
    (digitLineIdentity (lstrip line)).isSome = isFullHeader line := by
  have led : (lstrip line).head?.elim false isDigit = true := digit
  rw [isFullHeader, digit, Context.shortHeader, led, digitLineIdentity]
  split
  · next words => simp [words]
  · next short =>
    rcases words : split (lstrip line) with _ | ⟨a, _ | ⟨b, _ | ⟨d, tail⟩⟩⟩
    · simp
    · simp
    · simp
    · exact absurd words (short a b d tail)

theorem fullHeader_words (full : isFullHeader line = true) :
    ∃ t jid host more, split (lstrip line) = t :: jid :: host :: more := by
  have digit : isDigitLine line = true := (Bool.and_eq_true _ _ ▸ full).1
  have found := digitLineIdentity_isSome digit
  rw [full, digitLineIdentity] at found
  split at found
  · next t jid host more words => exact ⟨t, jid, host, more, words⟩
  · cases found

theorem acceptedTags_full (short : isFullHeader line = false) : acceptedTags line = none := by
  rw [isFullHeader] at short
  unfold acceptedTags
  split
  · next digit => exact Context.headerTags_short (by simpa [digit] using short)
  · rfl

theorem wholeSecond_accepted {tags : Tags} (digit : isDigitLine line = true)
    (words : split (lstrip line) = t :: jid :: host :: more)
    (accepted : acceptedTags line = some tags) :
    wholeSecond t = .ok (truncate tags.time) ∧
      fromTimestamp (truncate tags.time) = .ok (truncate tags.time) ∧ tags.host = host := by
  rw [acceptedTags, if_pos digit] at accepted
  have below := (lineSecond_of_headerTags digit accepted).2
  rw [Context.headerTags, words] at accepted
  obtain ⟨time, read, rfl⟩ := Option.map_eq_some_iff.mp accepted
  obtain ⟨parsed, nonneg, -⟩ := sampleTime_range read
  refine ⟨by simp [wholeSecond, parsed], if_pos ⟨?_, below⟩, rfl⟩
  have floor := Int.floor_nonneg.mpr nonneg
  rw [truncate_nonneg nonneg]
  omega

theorem wholeSecond_late {second : Int} (digit : isDigitLine line = true)
    (words : split (lstrip line) = t :: jid :: host :: more) (refused : acceptedTags line = none)
    (read : wholeSecond t = .ok second) : 253402300800 ≤ second := by
  have dated : lineSecond line = some second := by
    unfold wholeSecond at read
    split at read
    · next q parsed =>
      cases read
      simp [lineSecond, digit, digitLineUnixSecond, words, parsed]
    all_goals cases read
  by_contra early
  obtain ⟨-, tags, found, -⟩ := headerTags_of_lineSecond dated (not_le.mp early)
  simp [acceptedTags, digit, found] at refused

theorem parseFirst_find (lines : List Str) : parseFirstTimestampLine lines =
    (lines.find? isFullHeader).bind fun line => digitLineIdentity (lstrip line) := by
  induction lines with
  | nil => rfl
  | cons line rest ih =>
    rw [parseFirstTimestampLine, List.findSome?_cons]
    by_cases digit : isDigitLine line = true
    · have some_ := digitLineIdentity_isSome digit
      rw [if_pos digit]
      cases full : isFullHeader line with
      | true =>
        rw [full] at some_
        obtain ⟨identity, found⟩ := Option.isSome_iff_exists.mp some_
        rw [found, List.find?_cons_of_pos full, Option.bind_some, found]
      | false =>
        rw [full, Option.isSome_eq_false_iff, Option.isNone_iff_eq_none] at some_
        rw [some_, List.find?_cons_of_neg (by simp [full])]
        exact ih
    · rw [if_neg digit, List.find?_cons_of_neg (by simp [isFullHeader, digit])]
      exact ih

theorem headLines_find (lines : List Str) :
    (headLines lines).find? isFullHeader = (lines.find? isDigitLine).filter isFullHeader := by
  induction lines with
  | nil => rfl
  | cons line rest ih =>
    rw [headLines]
    by_cases digit : isDigitLine line = true
    · rw [if_pos digit, List.find?_cons_of_pos digit]
      cases full : isFullHeader line <;> simp [full, Option.filter]
    · rw [if_neg digit, List.find?_cons_of_neg digit,
        List.find?_cons_of_neg (by simp [isFullHeader, digit]), ih]

omit [Interpreter] in
theorem header_host (words : split (lstrip line) = t :: jid :: host :: more) :
    strip host = host ∧ host ≠ [] :=
  ⟨strip_of_no_space (split_no_space (s := lstrip line) (by simp [words])),
    split_ne_nil (s := lstrip line) (by simp [words])⟩

theorem parseFirst_host (found : parseFirstTimestampLine lines = some (t, jid, host)) :
    host ≠ [] ∧ strip host = host := by
  rw [parseFirst_find, Option.bind_eq_some_iff] at found
  obtain ⟨line, listed, found⟩ := found
  obtain ⟨_, _, _, _, words⟩ := fullHeader_words (List.find?_some listed)
  rw [digitLineIdentity, words] at found
  cases found
  exact (header_host words).symm

theorem full_found {p : Str → Bool} (found : (lines.find? p).filter isFullHeader = some line) :
    isFullHeader line = true := (Option.filter_eq_some_iff.mp found).2

theorem reader_names {found : Option Str} (full : ∀ line ∈ found, isFullHeader line = true)
    (dated : ∀ sample ∈ named, sample.2 < 253402300800) :
    identitySecond (found.bind fun line => digitLineIdentity (lstrip line)) = .ok named ↔
      Names named found := by
  cases found with
  | none => exact ⟨fun read => (Except.ok.inj read).symm, fun unnamed => congrArg _ unnamed.symm⟩
  | some line =>
    have digit : isDigitLine line = true := (Bool.and_eq_true _ _ ▸ full line rfl).1
    obtain ⟨t, jid, host, more, words⟩ := fullHeader_words (full line rfl)
    rw [Option.bind_some, digitLineIdentity, words, Names, Option.elim_some, sampleOf]
    cases accepted : acceptedTags line with
    | some tags =>
      obtain ⟨read, -, same⟩ := wholeSecond_accepted digit words accepted
      simp only [identitySecond, read, bind, Except.bind, pure, Except.pure, Except.ok.injEq,
        Option.map_some, same]
      exact (and_iff_right_of_imp fun named_ => by rw [← named_]; rfl).symm
    | none =>
      refine iff_of_false (fun found => ?_) fun both => ?_
      · cases read : wholeSecond t with
        | error err => simp [identitySecond, read, bind, Except.bind] at found
        | ok second =>
          simp only [identitySecond, read, bind, Except.bind, pure, Except.pure,
            Except.ok.injEq] at found
          have late := wholeSecond_late digit words accepted read
          exact absurd (dated (host, second) found.symm) (not_lt.mpr late)
      · rw [← both.2] at both
        cases both.1

theorem head_names (lines : List Str) : readStatsFileHeadIdentity lines = .ok named ↔
    Names named (((textModeLines lines).find? isDigitLine).filter isFullHeader) := by
  rw [readStatsFileHeadIdentity, parseFirst_find, headLines_find]
  cases found : ((textModeLines lines).find? isDigitLine).filter isFullHeader with
  | none => exact ⟨fun read => (Except.ok.inj read).symm, fun unnamed => congrArg _ unnamed.symm⟩
  | some line =>
    have full := full_found found
    have digit : isDigitLine line = true := (Bool.and_eq_true _ _ ▸ full).1
    obtain ⟨t, jid, host, more, words⟩ := fullHeader_words full
    obtain ⟨solid, named_⟩ := header_host words
    rw [Option.bind_some, digitLineIdentity, words, Names, Option.elim_some, sampleOf]
    simp only [named_, if_false, solid]
    cases accepted : acceptedTags line with
    | some tags =>
      obtain ⟨read, dated, same⟩ := wholeSecond_accepted digit words accepted
      simp only [read, dated, bind, Except.bind, pure, Except.pure, Except.ok.injEq,
        Option.map_some, same]
      exact (and_iff_right_of_imp fun named_ => by rw [← named_]; rfl).symm
    | none =>
      refine iff_of_false (fun found => ?_) fun both => ?_
      · cases read : wholeSecond t with
        | error err => simp [read, bind, Except.bind] at found
        | ok second =>
          have late := wholeSecond_late digit words accepted read
          have undated : ∃ err, fromTimestamp second = .error err := by
            rw [fromTimestamp, if_neg (by omega)]
            split <;> exact ⟨_, rfl⟩
          obtain ⟨err, fails⟩ := undated
          simp [read, fails, bind, Except.bind] at found
      · rw [← both.2] at both
        cases both.1

theorem feedLine_quiet (started : c.startIdx = 0) (outside : c.insert = false)
    (sound : refusesSchema line = false) (short : isFullHeader line = false) :
    ∃ next, next.startIdx = 0 ∧ next.insert = false ∧
      firstAccepted c (line :: rest) = firstAccepted next rest := by
  obtain ⟨next, e, taken⟩ := Context.feedLine_taken outside sound
  have flags := Context.feedLine_flags started taken
  have stays : next.insert = false := by
    rw [flags.insert, acceptedTags_full short, short]
    exact outside
  refine ⟨next, (Context.feedLine_start taken).trans started, stays, ?_⟩
  rw [firstAccepted, taken]
  simp [stays]

theorem digit_sound (digit : isDigitLine line = true) : refusesSchema line = false := by
  have other : isBangLine line = false := by
    rw [isBangLine, decide_eq_false_iff_not]
    intro bang
    rw [isDigitLine, bang] at digit
    simp at digit
  rw [refusesSchema, other, Bool.false_and]

theorem firstAccepted_named (started : c.startIdx = 0) (outside : c.insert = false)
    (schemas : schemasRead lines = true) (names : Names named (lines.find? isFullHeader)) :
    firstAccepted c lines = named := by
  induction lines generalizing c with
  | nil => exact names.symm
  | cons line rest ih =>
    cases full : isFullHeader line with
    | true =>
      rw [List.find?_cons_of_pos full, Names, Option.elim_some, sampleOf] at names
      obtain ⟨some_, same⟩ := names
      rw [← same, Option.isSome_map] at some_
      obtain ⟨tags, accepted⟩ := Option.isSome_iff_exists.mp some_
      have digit : isDigitLine line = true := (Bool.and_eq_true _ _ ▸ full).1
      obtain ⟨next, e, taken⟩ := Context.feedLine_taken outside (digit_sound digit)
      have flags := Context.feedLine_flags started taken
      rw [firstAccepted, taken]
      simp [flags.insert, flags.tags, accepted, ← same]
    | false =>
      rw [List.find?_cons_of_neg (by simp [full])] at names
      rw [schemasRead, full, Bool.false_or] at schemas
      split at schemas
      · next refused =>
        obtain ⟨err, fails⟩ := Context.feedLine_refused (c := c) refused
        rw [List.find?_eq_none.mpr (by simpa using schemas)] at names
        rw [firstAccepted, fails]
        exact names.symm
      · next sound =>
        obtain ⟨next, begun, stays, quiet⟩ :=
          @feedLine_quiet _ c line rest started outside (by simpa using sound) full
        rw [quiet]
        exact ih begun stays schemas names

theorem firstAccepted_refused (started : c.startIdx = 0) (outside : c.insert = false)
    (schemas : schemasRead lines = false) :
    firstAccepted c lines = none ∧ lines.find? isFullHeader ≠ none := by
  induction lines generalizing c with
  | nil => cases schemas
  | cons line rest ih =>
    rw [schemasRead, Bool.or_eq_false_iff] at schemas
    obtain ⟨short, schemas⟩ := schemas
    rw [List.find?_cons_of_neg (by simp [short])]
    split at schemas
    · next refused =>
      obtain ⟨err, fails⟩ := Context.feedLine_refused (c := c) refused
      rw [firstAccepted, fails]
      refine ⟨rfl, fun none_ => ?_⟩
      rw [List.any_eq_false.mpr (List.find?_eq_none.mp none_)] at schemas
      cases schemas
    · next sound =>
      obtain ⟨next, begun, stays, quiet⟩ :=
        @feedLine_quiet _ c line rest started outside (by simpa using sound) short
      rw [quiet]
      exact ih begun stays schemas

theorem firstAccepted_dated (started : c.startIdx = 0) (outside : c.insert = false) :
    ∀ sample ∈ firstAccepted c lines, sample.2 < 253402300800 := by
  induction lines generalizing c with
  | nil => exact fun _ found => by cases found
  | cons line rest ih =>
    intro sample found
    rw [firstAccepted] at found
    split at found
    · cases found
    · next next e taken =>
      have flags := Context.feedLine_flags started taken
      split at found
      · next opens =>
        cases accepted : acceptedTags line with
        | none => simp [flags.insert, accepted, outside] at opens
        | some tags =>
          rw [flags.tags, accepted] at found
          cases found
          rw [acceptedTags] at accepted
          split at accepted
          · next digit => exact (lineSecond_of_headerTags digit accepted).2
          · cases accepted
      · next stays =>
        exact ih ((Context.feedLine_start taken).trans started) (by simpa using stays) sample found

end Agreement

/-- The readers of the first sample agree exactly when the head of the lines is sound. -/
theorem readersAgree_iff (exclude lines : List Str) :
    ReadersAgree exclude lines ↔ ∃ named, SoundHead lines named := by
  have dated := @firstAccepted_dated _ (.init 0 exclude) lines rfl rfl
  have listed : ∀ l : List Str, ∀ line ∈ l.find? isFullHeader, isFullHeader line = true :=
    fun _ _ found => List.find?_some found
  constructor
  · rintro ⟨head, first, streamed⟩
    rw [parseFirst_find, reader_names (listed _) dated] at first
    change identitySecond (parseFirstTimestampLine (lines.map asciiLine)) = _ at streamed
    rw [parseFirst_find, reader_names (listed _) dated] at streamed
    refine ⟨_, ?_, first, (head_names lines).mp head, streamed⟩
    by_contra refused
    obtain ⟨unnamed, some_⟩ := @firstAccepted_refused _ (.init 0 exclude) lines rfl rfl
      (Bool.eq_false_iff.mpr refused)
    obtain ⟨line, found⟩ := Option.ne_none_iff_exists'.mp some_
    rw [unnamed, found] at first
    cases first.1
  · rintro ⟨named, sound⟩
    have same := @firstAccepted_named _ (.init 0 exclude) lines named rfl rfl sound.schemas
      sound.first
    rw [same] at dated
    rw [ReadersAgree, same]
    refine ⟨(head_names lines).mpr sound.head, ?_, ?_⟩
    · rw [parseFirst_find, reader_names (listed _) dated]
      exact sound.first
    · change identitySecond (parseFirstTimestampLine (lines.map asciiLine)) = _
      rw [parseFirst_find, reader_names (listed _) dated]
      exact sound.streamed

end Readers

theorem readers_part : ¬ReadersAgree [] [lit "1700000000 12\n", lit "1700000001 12 n1\n"] := by
  rintro ⟨head, first, -⟩
  have none_ : readStatsFileHeadIdentity [lit "1700000000 12\n", lit "1700000001 12 n1\n"] =
      .ok none := by decide +kernel
  rw [← Except.ok.inj (none_.symm.trans head)] at first
  exact absurd first (by decide +kernel)

end PerfStats.Feed
