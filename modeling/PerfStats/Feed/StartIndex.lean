import PerfStats.Feed.Trace

namespace PerfStats.Feed

open Lib Text

variable [Interpreter]

/-- The unix second of a digit line; `int` of an infinite time raises. -/
def digitLineUnixSecond (s : Str) : Except ParseError (Option Int) :=
  match split s with
  | t :: _ :: _ :: _ =>
    match Num.parse t with
    | some (.fin q) => .ok (some (truncate q))
    | some .nan => .ok none
    | some _ => .error .overflowError
    | none => .ok none
  | _ => .ok none

def isDigitLine (line : Str) : Bool := (lstrip line).head?.elim false isDigit

def findStartFrom (present : Int → Bool) : Nat → Nat → List Str → Except ParseError (Option Nat)
  | _, _, [] => .ok none
  | i, last, line :: rest =>
    if isDigitLine line then do
      match ← digitLineUnixSecond (lstrip line) with
      | none => findStartFrom present (i + 1) last rest
      | some second =>
        if present second then findStartFrom present (i + 1) i rest else .ok (some last)
    else findStartFrom present (i + 1) last rest

/-- The start index; `none` stands for `-1`, every second is present. -/
def findProcessingStartIndex (present : Int → Bool) (lines : List Str) :
    Except ParseError (Option Nat) :=
  findStartFrom present 0 0 lines

def numberWords (line : Str) : List Str :=
  match lstrip line with
  | [] => []
  | first :: rest =>
    if isDigit first then (split (first :: rest)).take 1
    else if isAlpha first then (split (first :: rest)).drop 2
    else []

def Finite (word : Str) : Prop := Num.parse word ≠ some .inf ∧ Num.parse word ≠ some .ninf

def Exact (lines : List Str) : Prop := ∀ line ∈ lines, ∀ word ∈ numberWords line, Finite word

variable {present : Int → Bool} {lines : List Str} {line : Str} {last : Nat}

theorem digitLineUnixSecond_ok (digit : isDigitLine line = true)
    (exact : ∀ word ∈ numberWords line, Finite word) :
    ∃ second, digitLineUnixSecond (lstrip line) = .ok second := by
  unfold digitLineUnixSecond
  split
  · next t _ _ _ words =>
      have finite : Finite t := by
        apply exact
        cases stripped : lstrip line with
        | nil => simp [isDigitLine, stripped] at digit
        | cons first rest =>
          rw [stripped] at words
          simp only [isDigitLine, stripped, List.head?_cons, Option.elim_some] at digit
          simp [numberWords, stripped, digit, words]
      cases parsed : Num.parse t with
      | none => exact ⟨_, rfl⟩
      | some number =>
        cases number with
        | fin q => exact ⟨_, rfl⟩
        | nan => exact ⟨_, rfl⟩
        | inf => exact absurd parsed finite.1
        | ninf => exact absurd parsed finite.2
  · exact ⟨_, rfl⟩

theorem findStartFrom_ok (present : Int → Bool) (exact : Exact lines)
    (i last : Nat) : ∃ start, findStartFrom present i last lines = .ok start := by
  induction lines generalizing i last with
  | nil => exact ⟨none, rfl⟩
  | cons line rest ih =>
    have later : Exact rest := fun other member => exact other (.tail _ member)
    unfold findStartFrom
    split
    · next digit =>
      rcases digitLineUnixSecond_ok digit (exact line (by simp)) with ⟨second, found⟩
      rw [found]
      cases second with
      | none => exact ih later _ _
      | some second =>
        change ∃ start, (if present second then findStartFrom present (i + 1) i rest
          else .ok (some last)) = .ok start
        split
        · exact ih later _ _
        · exact ⟨_, rfl⟩
    · exact ih later _ _

def lineSecond (line : Str) : Option Int :=
  if isDigitLine line then
    match digitLineUnixSecond (lstrip line) with
    | .ok second => second
    | .error _ => none
  else none

theorem findStartFrom_cons {rest : List Str} {i : Nat}
    {start : Option Nat} (found : findStartFrom present i last (line :: rest) = .ok start) :
    (lineSecond line = none ∧ findStartFrom present (i + 1) last rest = .ok start) ∨
      ∃ second, lineSecond line = some second ∧
        ((present second = true ∧ findStartFrom present (i + 1) i rest = .ok start) ∨
          (present second = false ∧ start = some last)) := by
  unfold findStartFrom at found
  by_cases digit : isDigitLine line = true
  · rw [if_pos digit] at found
    simp only [lineSecond, digit, if_true]
    cases here : digitLineUnixSecond (lstrip line) with
    | error err =>
      rw [here] at found
      cases found
    | ok second =>
      rw [here] at found
      cases second with
      | none => exact .inl ⟨rfl, found⟩
      | some second =>
        refine .inr ⟨second, rfl, ?_⟩
        change (if present second then findStartFrom present (i + 1) i rest
          else .ok (some last)) = .ok start at found
        split at found
        · next known => exact .inl ⟨known, found⟩
        · next unknown =>
            cases found
            exact .inr ⟨Bool.eq_false_iff.mpr unknown, rfl⟩
  · rw [if_neg digit] at found
    exact .inl ⟨by simp [lineSecond, digit], found⟩

theorem findStartFrom_none {i : Nat} (through : findStartFrom present i last lines = .ok none) :
    ∀ second ∈ lines.filterMap lineSecond, present second = true := by
  induction lines generalizing i last with
  | nil => simp
  | cons line rest ih =>
    rcases findStartFrom_cons through with
      ⟨undated, onward⟩ | ⟨second, dated, ⟨known, onward⟩ | ⟨_, stopped⟩⟩
    · rw [List.filterMap_cons_none undated]
      exact ih onward
    · rw [List.filterMap_cons_some dated, List.forall_mem_cons]
      exact ⟨known, ih onward⟩
    · cases stopped

def Stops (present : Int → Bool) (lines : List Str) : Prop :=
  (lines.filterMap lineSecond).head?.map present = some false

structure StartsAt (present : Int → Bool) (before : List Str) (header : Str) (after : List Str) :
    Prop where
  known : ∀ second ∈ before.filterMap lineSecond, present second = true
  dated : ∃ second, lineSecond header = some second ∧ present second = true
  stops : Stops present after

theorem findStartFrom_spec {i start : Nat}
    (found : findStartFrom present i last lines = .ok (some start)) :
    (start = last ∧ Stops present lines) ∨ ∃ before header after,
      lines = before ++ header :: after ∧ start = i + before.length ∧
        StartsAt present before header after := by
  induction lines generalizing i last with
  | nil => cases found
  | cons line rest ih =>
    rcases findStartFrom_cons found with
      ⟨undated, onward⟩ | ⟨second, dated, ⟨present', onward⟩ | ⟨absent, stopped⟩⟩
    · rcases ih onward with ⟨same, stops⟩ | ⟨before, header, after, split, index, starts⟩
      · exact .inl ⟨same, by rwa [Stops, List.filterMap_cons_none undated]⟩
      · refine .inr ⟨line :: before, header, after, by simp [split], ?_, ?_⟩
        · rw [index, List.length_cons]
          omega
        · exact ⟨by simpa [List.filterMap_cons_none undated] using starts.known, starts.dated,
            starts.stops⟩
    · rcases ih onward with ⟨same, stops⟩ | ⟨before, header, after, split, index, starts⟩
      · exact .inr ⟨[], line, rest, rfl, by simp [same], by simp, ⟨second, dated, present'⟩, stops⟩
      · refine .inr ⟨line :: before, header, after, by simp [split], ?_, ?_⟩
        · rw [index, List.length_cons]
          omega
        · refine ⟨?_, starts.dated, starts.stops⟩
          rw [List.filterMap_cons_some dated, List.forall_mem_cons]
          exact ⟨present', starts.known⟩
    · cases stopped
      exact .inl ⟨rfl, by simp [Stops, List.filterMap_cons_some dated, absent]⟩

theorem headerTags_of_lineSecond {second : Int} (dated : lineSecond line = some second)
    (below : second < 253402300800) :
    isDigitLine line = true ∧
      ∃ tags, Context.headerTags line = some tags ∧ truncate tags.time = second := by
  unfold lineSecond at dated
  split at dated
  · next digit =>
      refine ⟨digit, ?_⟩
      cases stripped : lstrip line with
      | nil => simp [isDigitLine, stripped] at digit
      | cons first rest =>
        simp only [isDigitLine, stripped, List.head?_cons, Option.elim_some] at digit
        rcases split_cons (isSpace_of_isDigit digit) rest with ⟨word, words, words_eq⟩
        have solid : ∀ c ∈ first :: word, isSpace c = false :=
          split_no_space (s := first :: rest) (by simp [words_eq])
        rw [stripped, digitLineUnixSecond, words_eq] at dated
        rcases words with _ | ⟨jid, _ | ⟨host, more⟩⟩
        · cases dated
        · cases dated
        · cases parsed : Num.parse (first :: word) with
          | none => simp [parsed] at dated
          | some number =>
            cases number with
            | fin q =>
              simp only [parsed, Option.some.injEq] at dated
              have nonneg := Num.parse_nonneg digit solid parsed
              have early : q < maxSampleTime := by
                rw [← dated, truncate_nonneg nonneg, Int.floor_lt] at below
                exact_mod_cast below
              refine ⟨⟨q, host, jid⟩, ?_, dated⟩
              simp [Context.headerTags, stripped, words_eq, Context.sampleTime, parsed, nonneg,
                early]
            | inf => simp [parsed] at dated
            | ninf => simp [parsed] at dated
            | nan => simp [parsed] at dated
  · cases dated

theorem sampleTime_range {t : Str} {time : ℚ} (read : Context.sampleTime t = some time) :
    Num.parse t = some (.fin time) ∧ 0 ≤ time ∧ time < maxSampleTime := by
  unfold Context.sampleTime at read
  split at read
  · next q parsed =>
      split at read
      · next range =>
          cases read
          exact ⟨parsed, range⟩
      · cases read
  · cases read

theorem lineSecond_of_headerTags {tags : Tags} (digit : isDigitLine line = true)
    (accepted : Context.headerTags line = some tags) :
    lineSecond line = some (truncate tags.time) ∧ truncate tags.time < 253402300800 := by
  unfold Context.headerTags at accepted
  split at accepted
  · next t jid host more words =>
      rcases Option.map_eq_some_iff.mp accepted with ⟨time, read, rfl⟩
      rcases sampleTime_range read with ⟨parsed, nonneg, early⟩
      refine ⟨by simp [lineSecond, digit, digitLineUnixSecond, words, parsed], ?_⟩
      rw [truncate_nonneg nonneg, Int.floor_lt]
      exact_mod_cast early
  · cases accepted

def acceptedTags (line : Str) : Option Tags :=
  if isDigitLine line then Context.headerTags line else none

def isFullHeader (line : Str) : Bool := isDigitLine line && !Context.shortHeader line

namespace Context

variable {c c' : Context} {e : Emit}

theorem startsSample_eq (started : c.startIdx = 0) : c.startsSample line = isDigitLine line := by
  simp [startsSample, isDigitLine, started]

structure Flags (c : Context) (line : Str) (c' : Context) : Prop where
  exclude : c'.exclude = c.exclude
  insert : c'.insert =
    if (acceptedTags line).isSome then true else if isFullHeader line then false else c.insert
  tags : c'.tags = (acceptedTags line).or c.tags
  armed : c'.armShared =
    if (acceptedTags line).isSome then false else c.armShared || namesJobs line
  shared : c'.sampleShared = (acceptedTags line).elim
    (if namesJobs line then c.tags.elim c.sampleShared fun tags => stampable tags.jid
      else c.sampleShared)
    fun tags => c.armShared && stampable tags.jid

theorem feedLine_flags (started : c.startIdx = 0) (taken : c.feedLine line = .ok (c', e)) :
    Flags c line c' := by
  have effect := feedLine_effect taken
  have starts : c.startsSample line = isDigitLine line := startsSample_eq started
  have quiet : ∀ {d : Context}, acceptedTags line = none → isFullHeader line = false →
      d.exclude = c.exclude → d.insert = c.insert → d.tags = c.tags →
      d.armShared = (c.armShared || namesJobs line) →
      d.sampleShared = (if namesJobs line then
        c.tags.elim c.sampleShared fun tags => stampable tags.jid else c.sampleShared) →
      Flags c line d := by
    intro d unaccepted unopened exclude insert tags armed shared
    exact ⟨exclude, by rw [unaccepted, unopened]; exact insert, by rw [unaccepted]; exact tags,
      by rw [unaccepted]; exact armed, by rw [unaccepted]; exact shared⟩
  have closed : c.startsSample line = false →
      acceptedTags line = none ∧ isFullHeader line = false := by
    intro other
    rw [starts] at other
    simp [acceptedTags, isFullHeader, other]
  cases effect with
  | ignored silent plain =>
    have inert : acceptedTags line = none ∧ isFullHeader line = false := by
      cases silent with
      | inl other => exact closed other
      | inr short => simp [acceptedTags, isFullHeader, headerTags_short short, short]
    exact quiet inert.1 inert.2 rfl rfl rfl (by simp [plain, tick]) (by simp [plain, tick])
  | rows _ _ _ _ other plain =>
    exact quiet (closed other).1 (closed other).2 rfl rfl rfl (by simp [plain, tick])
      (by simp [plain, tick])
  | proc _ _ _ _ _ _ other plain =>
    exact quiet (closed other).1 (closed other).2 rfl rfl rfl (by simp [plain, tick])
      (by simp [plain, tick])
  | reject start long refused plain =>
    rw [starts] at start
    have unaccepted : acceptedTags line = none := by simp [acceptedTags, refused]
    have opened : isFullHeader line = true := by simp [isFullHeader, start, long]
    exact ⟨rfl, by rw [unaccepted, opened]; rfl, by rw [unaccepted]; rfl,
      by simp [unaccepted, plain, tick], by simp [unaccepted, plain, tick]⟩
  | accept tags start long accepted plain =>
    rw [starts] at start
    have found : acceptedTags line = some tags := by simp [acceptedTags, start, accepted]
    exact ⟨rfl, by rw [found]; rfl, by rw [found]; rfl, by rw [found]; rfl, by rw [found]; rfl⟩
  | schema _ _ _ other plain =>
    exact quiet (closed other).1 (closed other).2 rfl rfl rfl (by simp [plain, tick])
      (by simp [plain, tick])
  | mark body other => exact quiet (closed other).1 (closed other).2 rfl rfl rfl rfl rfl

end Context

end PerfStats.Feed
