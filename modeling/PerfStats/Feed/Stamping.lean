import PerfStats.Feed.Trace

namespace PerfStats.Feed

open Lib Text Context

def Stamped (jid dev : Str) : Prop :=
  startsWith ((lit "j:" ++ jid).take 64 ++ [jobStampDevSep]) dev = true

theorem stamped_sharedRowDev {dev type jid : Str} {shared : Bool}
    (plain : ∀ c ∈ dev, isSpace c = false) (cpu : type ∉ gpuStatsTypes)
    (device : type ≠ hostMemJobType) :
    Stamped jid (sharedRowDev dev type jid shared) ↔ stampable jid = true ∧ shared = true := by
  have raw : ¬ Stamped jid dev := by
    intro stamped
    have inside : jobStampDevSep ∈ dev := by
      apply (List.isPrefixOf_iff_prefix.mp stamped).subset
      simp
    exact absurd (plain _ inside) (by decide)
  cases named : stampable jid with
  | false => simpa [sharedRowDev, cpu, named] using raw
  | true =>
    cases shared with
    | false => simpa [sharedRowDev, cpu, device, named] using raw
    | true =>
      simp only [sharedRowDev, cpu, device, named, Stamped, startsWith, if_false,
        Bool.not_true, Bool.false_eq_true, and_self, iff_true, List.isPrefixOf_iff_prefix]
      exact ⟨dev, by simp⟩

section Flags

def isBody (line : Str) : Bool :=
  (lstrip line).head?.elim false fun c => isAlpha c || isDigit c

def marksFirst (lines : List Str) : Bool := (lines.takeWhile (!isBody ·)).any namesJobs

def carriesMark (before inside : List Str) : Bool := marksFirst before.reverse || marksFirst inside

def markedSince (startIdx : Nat) (before : List Str) : Bool :=
  (before.foldl (fun (i, marked) line =>
    (i + 1, if ({ init startIdx [] with lineIndex := i }).acceptsHeader line then false
      else marked || namesJobs line)) (0, false)).2

theorem acceptsHeader_congr {c d : Context} (start : c.startIdx = d.startIdx)
    (index : c.lineIndex = d.lineIndex) (line : Str) :
    c.acceptsHeader line = d.acceptsHeader line := by
  simp [acceptsHeader, startsSample, start, index]

theorem feedLine_armShared {c c' : Context} {line : Str} {e : Emit}
    (taken : c.feedLine line = .ok (c', e)) :
    c'.armShared = if c.acceptsHeader line then false else c.armShared || namesJobs line := by
  have effect := feedLine_effect taken
  cases effect with
  | ignored silent plain =>
    have refused : c.acceptsHeader line = false := by
      rcases silent with no | short
      · simp [acceptsHeader, no]
      · simp [acceptsHeader, headerTags_short short]
    simp [refused, plain, tick]
  | rows _ _ _ _ other plain => simp [acceptsHeader, other, plain, tick]
  | proc _ _ _ _ _ _ other plain => simp [acceptsHeader, other, plain, tick]
  | reject _ _ refused plain => simp [acceptsHeader, refused, plain, tick]
  | accept _ starts _ accepted => simp [acceptsHeader, starts, accepted, opened]
  | schema _ _ _ other plain => simp [acceptsHeader, other, plain, tick]
  | mark _ other => simp [acceptsHeader, other, marked, tick]

theorem armShared_eq {startIdx : Nat} {exclude before : List Str} {out : List Emit} {c : Context}
    (run : Traces feedLine (.init startIdx exclude) before out c) :
    c.armShared = markedSince startIdx before := by
  have general : ∀ {d : Context}, Traces feedLine d before out c → d.startIdx = startIdx →
      c.armShared = (before.foldl (fun (i, marked) line =>
        (i + 1, if ({ init startIdx [] with lineIndex := i }).acceptsHeader line then false
          else marked || namesJobs line)) (d.lineIndex, d.armShared)).2 := by
    clear run
    intro d run start
    induction run with
    | nil => rfl
    | cons taken _ ih =>
      rcases feedLine_index taken with ⟨kept, index⟩
      rw [ih (kept.trans start), List.foldl_cons, feedLine_armShared taken, index,
        acceptsHeader_congr (d := { init startIdx [] with lineIndex := _ }) start rfl]
  exact general run rfl

theorem marked_sampleShared {c : Context} {tags : Tags} (header : c.tags = some tags)
    (jobs : Bool) :
    (c.tick.marked jobs).sampleShared = if jobs then stampable tags.jid else c.sampleShared := by
  simp [marked, tick, header]

theorem sampleShared_eq {c c' : Context} {inside : List Str} {out : List Emit} {tags : Tags}
    (run : Traces feedLine c inside out c') (header : c.tags = some tags)
    (same : ∀ e ∈ out, e.isBind = false) (valid : c.sampleShared = true → stampable tags.jid = true) :
    c'.tags = some tags ∧
      (c'.sampleShared = true ↔
        stampable tags.jid = true ∧ (c.sampleShared = true ∨ inside.any namesJobs = true)) := by
  induction run with
  | nil => exact ⟨header, by simpa using fun shared => valid shared⟩
  | @cons c _ _ line _ _ _ taken rest ih =>
    have effect := feedLine_effect taken
    have later := fun e member => same e (.tail _ member)
    cases effect with
    | accept => exact absurd (same _ (.head _)) (by simp [Emit.isBind])
    | mark body other =>
      have shared := marked_sampleShared header (namesJobs line)
      have result := ih header later (by
        rw [shared]
        split
        · exact id
        · exact valid)
      refine ⟨result.1, result.2.trans ?_⟩
      rw [shared, List.any_cons]
      cases namesJobs line with
      | false => simp
      | true =>
        simp only [if_true, Bool.true_or, or_true, and_true, and_iff_left_iff_imp]
        exact .inl
    | ignored _ plain => simpa [plain, tick] using ih header later valid
    | rows _ _ _ _ _ plain => simpa [plain, tick] using ih header later valid
    | proc _ _ _ _ _ _ _ plain => simpa [plain, tick] using ih header later valid
    | reject _ _ _ plain => simpa [plain, tick] using ih header later valid
    | schema _ _ _ _ plain => simpa [plain, tick] using ih header later valid

theorem marksFirst_any {lines : List Str} (marked : marksFirst lines = true) :
    lines.any namesJobs = true := by
  rcases List.any_eq_true.mp marked with ⟨line, member, names⟩
  exact List.any_eq_true.mpr ⟨line, (List.takeWhile_sublist _).subset member, names⟩

theorem acceptsHeader_isBody {c : Context} {line : Str} (accepted : c.acceptsHeader line = true) :
    isBody line = true := by
  simp only [acceptsHeader, startsSample, Bool.and_eq_true] at accepted
  cases head : (lstrip line).head? with
  | none => simp [head] at accepted
  | some first =>
    simp only [head, Option.elim_some, Bool.and_eq_true] at accepted
    simp [isBody, head, accepted.1.1]

theorem markedSince_of_near {startIdx : Nat} {before : List Str}
    (near : marksFirst before.reverse = true) : markedSince startIdx before = true := by
  have general : ∀ (lines : List Str), marksFirst lines = true →
      ∀ state : Nat × Bool, (lines.foldr (fun line (state : Nat × Bool) =>
        (state.1 + 1,
          if ({ init startIdx [] with lineIndex := state.1 }).acceptsHeader line then false
          else state.2 || namesJobs line)) state).2 = true := by
    intro lines marked state
    induction lines with
    | nil => simp [marksFirst] at marked
    | cons line rest ih =>
      cases body : isBody line with
      | true => simp [marksFirst, body] at marked
      | false =>
        have refused : ∀ c : Context, c.acceptsHeader line = false := by
          intro c
          cases accepted : c.acceptsHeader line with
          | false => rfl
          | true => simp [acceptsHeader_isBody accepted] at body
        simp only [List.foldr_cons, refused, Bool.false_eq_true, if_false, Bool.or_eq_true]
        simp only [marksFirst, body, List.takeWhile_cons, Bool.not_false, if_true,
          List.any_cons, Bool.or_eq_true] at marked
        rcases marked with names | later
        · exact .inr names
        · exact .inl (ih later)
  have folded := general before.reverse near (0, false)
  rw [List.foldr_reverse] at folded
  exact folded

end Flags

section Property

variable (startIdx : Nat) (exclude : List Str)

/-- After `before`, `header` opens a sample with `tags`; `inside` stays in it, and `line`
then yields `rows`. -/
def RowsAt (before : List Str) (header : Str) (inside : List Str) (line : Str) (tags : Tags)
    (rows : List StatsRow) : Prop :=
  ∃ c opened c' last first out,
    Traces feedLine (.init startIdx exclude) before first c ∧
    c.feedLine header = .ok (opened, .bind tags.time tags.host) ∧ opened.tags = some tags ∧
    Traces feedLine opened inside out c' ∧ (∀ e ∈ out, e.isBind = false) ∧
    c'.feedLine line = .ok (last, .rows rows)

def StampingFollows (lines : List Str) : Prop :=
  ∀ before header inside line after tags rows,
    lines = before ++ header :: (inside ++ line :: after) →
    RowsAt startIdx exclude before header inside line tags rows →
    ∀ r ∈ rows, r.type ∉ gpuStatsTypes → r.type ≠ hostMemJobType →
      (Stamped tags.jid r.dev ↔ carriesMark before inside = true ∧ stampable tags.jid = true)

/-- A row with a `%jobs` mark right before its header belongs to a sample with a mark of its own. -/
def MarksOwned (lines : List Str) : Prop :=
  ∀ before header inside line after tags rows,
    lines = before ++ header :: (inside ++ line :: after) →
    RowsAt startIdx exclude before header inside line tags rows →
    ∀ r ∈ rows, r.type ∉ gpuStatsTypes → r.type ≠ hostMemJobType → stampable tags.jid = true →
      (markedSince startIdx before || inside.any namesJobs) = true →
        carriesMark before inside = true

variable {startIdx : Nat} {exclude : List Str}

theorem stamped_iff {before inside : List Str} {header line : Str} {tags : Tags}
    {rows : List StatsRow} (yields : RowsAt startIdx exclude before header inside line tags rows)
    {r : StatsRow} (member : r ∈ rows) (cpu : r.type ∉ gpuStatsTypes)
    (device : r.type ≠ hostMemJobType) :
    Stamped tags.jid r.dev ↔ stampable tags.jid = true ∧
      (markedSince startIdx before || inside.any namesJobs) = true := by
  rcases yields with ⟨c, opened, c', last, first, out, passed, accepted, tagged, run, same, yielded⟩
  have opening : opened = c.tick.opened tags := by
    generalize emitted : Emit.bind tags.time tags.host = e at accepted
    have effect := feedLine_effect accepted
    cases effect with
    | accept tags' =>
      simp only [opened, Option.some.injEq] at tagged
      rw [tagged]
    | _ => cases emitted
  subst opening
  have flag := (sampleShared_eq run rfl same (by
    simp only [opened, Bool.and_eq_true]
    exact fun both => both.2)).2
  have effect := feedLine_effect yielded
  cases effect with
  | rows tags' _ _ header' _ _ made =>
    have sameTags : tags' = tags := by
      have kept := (sampleShared_eq run rfl same (by
        simp only [opened, Bool.and_eq_true]
        exact fun both => both.2)).1
      rw [header', Option.some.injEq] at kept
      exact kept
    subst sameTags
    rcases feedRow_made made r member with ⟨_, dev, plain, dev_eq⟩
    rw [dev_eq, stamped_sharedRowDev plain cpu device]
    have armed : (c.tick.opened tags').sampleShared =
        (markedSince startIdx before && stampable tags'.jid) := by
      rw [← armShared_eq passed]
      rfl
    rw [armed] at flag
    simp only [tick, flag, Bool.and_eq_true, Bool.or_eq_true]
    tauto

/-- Stamping follows the sample exactly when no mark reaches a sample that is not its own. -/
theorem stampingFollows_iff (startIdx : Nat) (exclude lines : List Str) :
    StampingFollows startIdx exclude lines ↔ MarksOwned startIdx exclude lines := by
  constructor
  · intro follows before header inside line after tags rows lines_eq yields r member cpu device
      named marked
    have stamped := (stamped_iff yields member cpu device).mpr ⟨named, marked⟩
    exact ((follows before header inside line after tags rows lines_eq yields r member cpu
      device).mp stamped).1
  · intro owned before header inside line after tags rows lines_eq yields r member cpu device
    rw [stamped_iff yields member cpu device]
    constructor
    · intro stamped
      exact ⟨owned before header inside line after tags rows lines_eq yields r member cpu device
        stamped.1 stamped.2, stamped.1⟩
    · intro carried
      refine ⟨carried.2, ?_⟩
      rw [Bool.or_eq_true]
      have marks := carried.1
      simp only [carriesMark, Bool.or_eq_true] at marks
      exact marks.imp markedSince_of_near marksFirst_any

theorem mark_stamps_next_sample :
    ¬ StampingFollows 0 excludeTypes [lit "!cpu user", lit "100 7 hosta", lit "%jobs jids=7",
      lit "cpu 0 5", lit "200 7 hosta", lit "cpu 0 6"] := by
  intro follows
  let before := [lit "!cpu user", lit "100 7 hosta", lit "%jobs jids=7", lit "cpu 0 5"]
  let c := after feedLine (.init 0 excludeTypes) before
  let opened := after feedLine c [lit "200 7 hosta"]
  let row : StatsRow := ⟨200, lit "hosta", lit "7", lit "cpu", lit "j:7\x1f0", lit "user", .fin 6,
    64, 1, lit "#"⟩
  have passed : Traces feedLine (.init 0 excludeTypes) before
      (outputs feedLine (.init 0 excludeTypes) before) c := .of_outputs (by decide +kernel)
  have header : Traces feedLine c [lit "200 7 hosta"] [.bind 200 (lit "hosta")] opened :=
    (show outputs feedLine c [lit "200 7 hosta"] = [.bind 200 (lit "hosta")] by
      decide +kernel) ▸ Traces.of_outputs (by decide +kernel)
  have line : Traces feedLine opened [lit "cpu 0 6"] [.rows [row]]
      (after feedLine opened [lit "cpu 0 6"]) :=
    (show outputs feedLine opened [lit "cpu 0 6"] = [.rows [row]] by decide +kernel) ▸
      Traces.of_outputs (by decide +kernel)
  have yields : RowsAt 0 excludeTypes before (lit "200 7 hosta") [] (lit "cpu 0 6")
      ⟨200, lit "hosta", lit "7"⟩ [row] := by
    cases header with
    | cons accepted done =>
      cases done
      cases line with
      | cons yielded done =>
        exact ⟨c, _, _, _, _, [], passed, accepted, by decide +kernel, .nil _, by simp, yielded⟩
  have iff := follows before (lit "200 7 hosta") [] (lit "cpu 0 6") [] _ [row] rfl yields row
    (List.mem_singleton_self _) (by decide) (by decide)
  have carried := (iff.mp (show startsWith _ _ = true by decide)).1
  exact absurd carried (by decide +kernel)

end Property

end PerfStats.Feed
