import PerfStats.Feed.Replay
import PerfStats.Frame.Seed

namespace PerfStats.Feed

open Lib PerfStats.Frame Context

def StatsRow.hw (r : StatsRow) : HwRow :=
  ⟨r.time, r.host, r.jid, r.type, r.dev, r.event, r.value.cell, r.wid, r.mult, r.unit⟩

section Times

def Emit.headerTime : Emit → Option ℚ
  | .bind time _ => some time
  | _ => none

def headerTimes (out : List Emit) : List ℚ := out.filterMap Emit.headerTime

variable {c c' : Context} {lines : List Str} {out : List Emit}

theorem rows_ordered (run : Traces feedLine c lines out c')
    (increasing : (c.tags.toList.map Tags.time ++ headerTimes out).Pairwise (· < ·)) :
    (rowsOf out).Pairwise (fun a b => a.time ≤ b.time) ∧
      ∀ r ∈ rowsOf out, r.time ∈ c.tags.toList.map Tags.time ++ headerTimes out := by
  induction run with
  | nil => exact ⟨.nil, by simp [rowsOf]⟩
  | @cons c t _ line e lines out taken rest ih =>
    have effect := feedLine_effect taken
    have quiet : t.tags = c.tags → e.headerTime = none → e.statsRows = [] →
        (rowsOf (e :: out)).Pairwise (fun a b => a.time ≤ b.time) ∧
          ∀ r ∈ rowsOf (e :: out), r.time ∈ c.tags.toList.map Tags.time ++ headerTimes (e :: out) := by
      intro same silent empty
      rw [headerTimes, List.filterMap_cons_none silent, ← same] at increasing ⊢
      rw [rowsOf_cons, empty, List.nil_append]
      exact ih increasing
    cases effect with
    | rows tags rows _ header _ _ made =>
      have times : ∀ r ∈ rows, r.time = tags.time := fun r member =>
        congrArg Tags.time (feedRow_made made r member).1
      rcases ih increasing with ⟨ordered, members⟩
      have bounded : ∀ r ∈ rowsOf out, tags.time ≤ r.time := by
        intro r member
        have inTimes := members r member
        simp only [tick, header, Option.toList_some, List.map_cons, List.map_nil,
          List.cons_append, List.nil_append, List.mem_cons] at inTimes increasing
        rcases inTimes with same | later
        · exact same.ge
        · exact ((List.pairwise_cons.mp increasing).1 _ later).le
      refine ⟨List.pairwise_append.mpr ⟨?_, ordered, ?_⟩, ?_⟩
      · exact List.pairwise_of_forall_mem_list fun a ha b hb => by rw [times a ha, times b hb]
      · intro a ha b hb
        rw [times a ha]
        exact bounded b hb
      · intro r member
        rcases List.mem_append.mp member with here | later
        · simp [header, times r here]
        · exact members r later
    | accept tags =>
      rcases ih (List.pairwise_append.mp increasing).2.1 with ⟨ordered, members⟩
      refine ⟨ordered, fun r member => ?_⟩
      exact List.mem_append_right _ (members r member)
    | _ => exact quiet rfl rfl rfl

def lineTime (line : Str) : Option ℚ :=
  if isDigitLine line then (headerTags line).map Tags.time else none

theorem headerTimes_sublist (run : Traces feedLine c lines out c') :
    (headerTimes out).Sublist (lines.filterMap lineTime) := by
  induction run with
  | nil => exact .refl _
  | @cons c t _ line e lines out taken _ ih =>
    have later := ih.trans ((List.sublist_cons_self line lines).filterMap lineTime)
    have effect := feedLine_effect taken
    cases effect with
    | accept tags starts _ accepted =>
      have digit : isDigitLine line = true := by
        unfold startsSample at starts
        unfold isDigitLine
        cases head : (Text.lstrip line).head? <;> simp_all
      rw [List.filterMap_cons_some (by rw [lineTime, if_pos digit, accepted]; rfl)]
      exact ih.cons_cons tags.time
    | _ => exact later

theorem mem_headerTimes (run : Traces feedLine c lines out c') {time : ℚ}
    (member : time ∈ headerTimes out) :
    ∃ line ∈ lines, ∃ tags, isDigitLine line = true ∧ headerTags line = some tags ∧
      tags.time = time := by
  obtain ⟨line, inside, found⟩ := List.mem_filterMap.mp ((headerTimes_sublist run).subset member)
  unfold lineTime at found
  split at found
  · next digit =>
      obtain ⟨tags, accepted, same⟩ := Option.map_eq_some_iff.mp found
      exact ⟨line, inside, tags, digit, accepted, same⟩
  · cases found

theorem truncate_mono {a b : ℚ} (below : a ≤ b) : truncate a ≤ truncate b := by
  unfold truncate
  split
  · split
    · exact neg_le_neg (Int.floor_le_floor (neg_le_neg below))
    · next negative nonneg =>
        have low : 0 ≤ ⌊-a⌋ := Int.floor_nonneg.mpr (by linarith)
        have high : 0 ≤ ⌊b⌋ := Int.floor_nonneg.mpr (not_lt.mp nonneg)
        omega
  · split
    · next nonneg negative => exact absurd (below.trans_lt negative) nonneg
    · exact Int.floor_le_floor below

theorem lt_of_truncate_lt {a b : ℚ} (before : truncate a < truncate b) : a < b := by
  by_contra after
  exact absurd (truncate_mono (not_lt.mp after)) (not_le.mpr before)

theorem le_of_second_taken {times : List ℚ} {k : Nat} {time cut : ℚ}
    (increasing : (times.map truncate).Pairwise (· < ·)) (last : times[k]? = some cut)
    (member : time ∈ times) (taken : truncate time ∈ (times.take (k + 1)).map truncate) :
    time ≤ cut := by
  rcases List.mem_map.mp taken with ⟨stored, inTake, same⟩
  have distinct : (times.map truncate).Nodup := increasing.imp ne_of_lt
  have equal := List.inj_on_of_nodup_map distinct (List.mem_of_mem_take inTake) member same
  subst equal
  rcases List.mem_iff_getElem?.mp inTake with ⟨i, here⟩
  have index : i < k + 1 := by
    by_contra beyond
    rw [List.getElem?_take_eq_none (by omega)] at here
    cases here
  rw [List.getElem?_take_of_lt index] at here
  have ordered : times.Pairwise (· < ·) :=
    (List.pairwise_map.mp increasing).imp lt_of_truncate_lt
  rcases Nat.lt_or_eq_of_le (Nat.lt_succ_iff.mp index) with before | rfl
  · rcases List.getElem?_eq_some_iff.mp here with ⟨inside, rfl⟩
    rcases List.getElem?_eq_some_iff.mp last with ⟨inside', rfl⟩
    exact (List.pairwise_iff_getElem.mp ordered i k inside inside' before).le
  · rw [here] at last
    exact (Option.some.inj last).le

end Times

section Resume

variable (exclude : List Str)

def sampleTimes (lines : List Str) : List ℚ :=
  headerTimes (outputs feedLine (.init 0 exclude) lines)

def stored (k : Nat) (lines : List Str) (second : Int) : Bool :=
  decide (second ∈ ((sampleTimes exclude lines).take k).map truncate)

def ingestFrom (lines : List Str) : Option Nat → Except ParseError (List HostRow)
  | none => .ok []
  | some startIdx => do
      let p ← (Parser.init startIdx exclude).feedLines lines
      return computeDeltasAndArc (p.cols.map StatsRow.hw)

def Resumes (k : Nat) (lines : List Str) : Prop :=
  ∀ cut whole, (sampleTimes exclude lines)[k]? = some cut →
    ingestFrom exclude lines (some 0) = .ok whole →
    ∃ start resumed, findProcessingStartIndex (stored exclude (k + 1) lines) lines = .ok start ∧
      ingestFrom exclude lines start = .ok resumed ∧
      (rowsAfter cut resumed).Perm (rowsAfter cut whole)

structure StatsFile (lines : List Str) : Prop where
  increasing : ((sampleTimes exclude lines).map truncate).Pairwise (· < ·)
  exact : Exact lines

/-- The marks of the prefix arm the replayed sample as those since the header before it; or its job
cannot be named, or a mark of its own precedes its rows. -/
def StampsAlike (before : List Str) (tags : Tags) (after : List Str) : Prop :=
  before.any namesJobs = markedSince 0 before ∨ stampable tags.jid = false ∨
    marksFirst after = true

structure Reseeds (start cut : ℚ) (rows : List HwRow) : Prop where
  device : ∀ r ∈ rows, cut < r.time → (∃ q ∈ rows, q.time ≤ cut ∧ q.key = r.key) →
    ∃ q ∈ rows, start ≤ q.time ∧ q.time ≤ cut ∧ q.key = r.key
  collapsed : ∀ r ∈ rows, cut < r.time → (∃ q ∈ rows, q.time ≤ cut ∧ q.collapsed = r.collapsed) →
    ∃ q ∈ rows, start ≤ q.time ∧ q.time ≤ cut ∧ q.collapsed = r.collapsed

def SeedsLater (k : Nat) (lines : List Str) : Prop :=
  ∀ before header after tags cut whole, lines = before ++ header :: after →
    StartsAt (stored exclude (k + 1) lines) before header after →
    headerTags header = some tags → (sampleTimes exclude lines)[k]? = some cut →
    (Parser.init 0 exclude).feedLines lines = .ok whole →
    StampsAlike before tags after ∧ Reseeds tags.time cut (whole.cols.map StatsRow.hw)

variable {exclude : List Str}

theorem ingestFrom_eq_ok {lines : List Str} {startIdx : Nat} {rows : List HostRow} :
    ingestFrom exclude lines (some startIdx) = .ok rows ↔
      ∃ p, (Parser.init startIdx exclude).feedLines lines = .ok p ∧
        computeDeltasAndArc (p.cols.map StatsRow.hw) = rows := by
  simp only [ingestFrom]
  cases (Parser.init startIdx exclude).feedLines lines with
  | error err => simp [bind, Except.bind]
  | ok p => simp [bind, Except.bind, pure, Except.pure]

variable {whole : Parser}

theorem feedLines_from_header {before after : List Str} {header : Str} {tags : Tags}
    (parsed : (Parser.init 0 exclude).feedLines (before ++ header :: after) = .ok whole)
    (digit : isDigitLine header = true) (accepted : headerTags header = some tags)
    (exact : Exact after) (alike : StampsAlike before tags after) :
    ∃ first rest c d resumed,
      outputs feedLine (.init 0 exclude) (before ++ header :: after) =
        first ++ .bind tags.time tags.host :: rest ∧
      Traces feedLine (.init 0 exclude) before first c ∧
      Traces feedLine (c.tick.opened tags) after rest d ∧
      whole.cols = rowsOf first ++ rowsOf rest ∧
      (Parser.init before.length exclude).feedLines (before ++ header :: after) = .ok resumed ∧
      resumed.cols = rowsOf rest := by
  rcases Parser.feedLines_eq_ok.mp parsed with ⟨out, run, cols, _, _⟩
  have outputs_eq := run.outputs_eq
  rcases run.split with ⟨c, first, more, passed, onward, rfl⟩
  rcases feedLines_index passed with ⟨start, index⟩
  cases onward with
  | @cons _ t _ _ e _ rest taken onward =>
    have opening := feedLine_header (by rw [start]; exact Nat.zero_le _) digit accepted
    rw [opening] at taken
    cases taken
    have skips : Skips (.init 0 exclude) (.init before.length exclude) :=
      ⟨rfl, rfl, rfl, rfl, rfl⟩
    rcases traces_skipped skips (by simp [init]) passed with
      ⟨d, silent, skipped, skips, none, armed⟩
    rcases feedLines_index skipped with ⟨start', index'⟩
    have reached : d.startIdx ≤ d.lineIndex := by
      rw [start', index']
      simp [init]
    have flags : (d.tick.opened tags).sampleShared = (c.tick.opened tags).sampleShared ∨
        (marksFirst after = true ∧ (c.tick.opened tags).tags.isSome = true) := by
      have flag : c.armShared = markedSince 0 before := armShared_eq passed
      change (d.armShared && stampable tags.jid) = (c.armShared && stampable tags.jid) ∨ _
      rw [armed, flag]
      rcases alike with same | anonymous | marks
      · exact .inl (by simp [init, same])
      · exact .inl (by simp [anonymous])
      · exact .inr ⟨marks, rfl⟩
    have started : c.startIdx = 0 := start
    have caught : d.startIdx = c.lineIndex := by
      rw [start', index]
      exact (Nat.zero_add _).symm
    rcases traces_rebased (r := d.tick.opened tags) onward
      (show c.startIdx ≤ c.lineIndex + 1 by omega) (show d.startIdx ≤ c.lineIndex + 1 by omega)
      exact flags with ⟨r, out, replayed, rows⟩
    rw [← opened_rebased skips.ticked] at replayed
    refine ⟨first, rest, c, _, ⟨_, rowsOf rest, _, _⟩, outputs_eq, passed, onward, ?_,
      Parser.feedLines_eq_ok.mpr ⟨_, skipped.append (.cons (feedLine_header reached digit
        accepted) replayed), ?_, rfl, rfl⟩, rfl⟩
    · rw [cols, rowsOf_append, rowsOf_cons]
      rfl
    · rw [rowsOf_append, rowsOf_cons, none, rows]
      rfl

theorem times_around_header {before after : List Str} {header : Str} {tags : Tags}
    {first rest : List Emit} {c d : Context}
    (split : outputs feedLine (.init 0 exclude) (before ++ header :: after) =
      first ++ .bind tags.time tags.host :: rest)
    (passed : Traces feedLine (.init 0 exclude) before first c)
    (onward : Traces feedLine (c.tick.opened tags) after rest d)
    (ordered : (sampleTimes exclude (before ++ header :: after)).Pairwise (· < ·)) :
    (rowsOf first ++ rowsOf rest).Pairwise (fun a b => a.time ≤ b.time) ∧
      (∀ r ∈ rowsOf first, r.time < tags.time) ∧ ∀ r ∈ rowsOf rest, tags.time ≤ r.time := by
  have times : sampleTimes exclude (before ++ header :: after) =
      headerTimes first ++ tags.time :: headerTimes rest := by
    rw [sampleTimes, split, headerTimes, List.filterMap_append]
    rfl
  rw [times] at ordered
  rcases List.pairwise_append.mp ordered with ⟨early, late, apart⟩
  rcases rows_ordered passed early with ⟨orderedFirst, inFirst⟩
  rcases rows_ordered onward late with ⟨orderedRest, inRest⟩
  have before : ∀ r ∈ rowsOf first, r.time < tags.time := fun r member =>
    apart _ (inFirst r member) _ (.head _)
  have since : ∀ r ∈ rowsOf rest, tags.time ≤ r.time := by
    intro r member
    rcases List.mem_cons.mp (inRest r member) with same | later
    · exact same.ge
    · exact ((List.pairwise_cons.mp late).1 _ later).le
  refine ⟨List.pairwise_append.mpr ⟨orderedFirst, orderedRest, ?_⟩, before, since⟩
  intro a inFirst b inRest
  exact ((before a inFirst).trans_le (since b inRest)).le

theorem rowsAfter_of_reseeds {first rest : List HwRow} {start cut : ℚ}
    (ordered : (first ++ rest).Pairwise fun a b => a.time ≤ b.time)
    (before : ∀ r ∈ first, r.time < start) (since : ∀ r ∈ rest, start ≤ r.time)
    (stored : start ≤ cut) (reseeds : Reseeds start cut (first ++ rest)) :
    (rowsAfter cut (computeDeltasAndArc rest)).Perm
      (rowsAfter cut (computeDeltasAndArc (first ++ rest))) := by
  let replayed := rest.filter fun r => decide (r.time ≤ cut)
  let late := rest.filter fun r => !decide (r.time ≤ cut)
  have whole : replayed ++ late = rest :=
    filter_append_filter HwRow.time (fun t => decide (t ≤ cut))
      (fun t u below early => by simpa using below.trans (by simpa using early))
      (List.pairwise_append.mp ordered).2.1
  have again : ∀ q ∈ first ++ rest, start ≤ q.time → q.time ≤ cut → q ∈ replayed := by
    intro q member onward early
    rcases List.mem_append.mp member with inFirst | inRest
    · exact absurd (before q inFirst) (not_lt.mpr onward)
    · exact List.mem_filter.mpr ⟨inRest, by simpa using early⟩
  have lateRow : ∀ r ∈ late, r ∈ first ++ rest ∧ cut < r.time := by
    intro r member
    rcases List.mem_filter.mp member with ⟨inRest, after⟩
    exact ⟨List.mem_append_right _ inRest, by simpa using after⟩
  have skippedRow : ∀ q ∈ first, q ∈ first ++ rest ∧ q.time ≤ cut := fun q member =>
    ⟨List.mem_append_left _ member, ((before q member).trans_le stored).le⟩
  have seeded : Seeded first replayed late := by
    constructor
    · intro r member found
      rcases found with ⟨q, inFirst, same⟩
      rcases reseeds.device r (lateRow r member).1 (lateRow r member).2
        ⟨q, (skippedRow q inFirst).1, (skippedRow q inFirst).2, same⟩ with
        ⟨p, inRows, onward, early, key⟩
      exact ⟨p, again p inRows onward early, key⟩
    · intro r member found
      rcases found with ⟨q, inFirst, same⟩
      rcases reseeds.collapsed r (lateRow r member).1 (lateRow r member).2
        ⟨q, (skippedRow q inFirst).1, (skippedRow q inFirst).2, same⟩ with
        ⟨p, inRows, onward, early, key⟩
      exact ⟨p, again p inRows onward early, key⟩
  have replayedRow : ∀ q ∈ replayed, q.time ≤ cut := fun q member => by
    simpa using (List.mem_filter.mp member).2
  have apart : ∀ a ∈ first, ∀ b ∈ replayed ++ late, a.time < b.time := by
    rw [whole]
    intro a inFirst b inRest
    exact (before a inFirst).trans_le (since b inRest)
  have early : ∀ q ∈ first ++ replayed, q.time ≤ cut := fun q member =>
    (List.mem_append.mp member).elim (fun inFirst => (skippedRow q inFirst).2) (replayedRow q)
  have result : (rowsAfter cut (computeDeltasAndArc (replayed ++ late))).Perm
      (rowsAfter cut (computeDeltasAndArc (first ++ (replayed ++ late)))) :=
    computeDeltasAndArc_seeded (by rwa [whole]) apart
      (fun a inReplayed b inLate => (replayedRow a inReplayed).trans_lt (lateRow b inLate).2)
      early seeded
  rwa [whole] at result

theorem computeDeltasAndArc_time {rows : List HwRow} {r : HostRow}
    (member : r ∈ computeDeltasAndArc rows) : ∃ q ∈ rows, q.time = r.time := by
  rw [computeDeltasAndArc_eq, (computeChunk_spec _ _).1] at member
  exact arcPass_time (List.mem_filter.mp member).1

theorem rowsAfter_of_through {lines : List Str} {k : Nat} {cut : ℚ}
    (file : StatsFile exclude lines) (last : (sampleTimes exclude lines)[k]? = some cut)
    (parsed : (Parser.init 0 exclude).feedLines lines = .ok whole)
    (through : findProcessingStartIndex (stored exclude (k + 1) lines) lines = .ok none) :
    rowsAfter cut (computeDeltasAndArc (whole.cols.map StatsRow.hw)) = [] := by
  rcases Parser.feedLines_eq_ok.mp parsed with ⟨out, run, cols, _, _⟩
  have times : sampleTimes exclude lines = headerTimes out := congrArg headerTimes run.outputs_eq
  have ordered : (headerTimes out).Pairwise (· < ·) := by
    rw [← times]
    exact (List.pairwise_map.mp file.increasing).imp lt_of_truncate_lt
  apply List.filter_eq_nil_iff.mpr
  intro r member
  rcases computeDeltasAndArc_time member with ⟨q, inRows, same⟩
  rcases List.mem_map.mp inRows with ⟨row, inCols, rfl⟩
  have inTimes : row.time ∈ headerTimes out := by
    rw [cols] at inCols
    exact (rows_ordered run ordered).2 row inCols
  rcases mem_headerTimes run inTimes with ⟨line, inLines, tags, digit, accepted, time⟩
  have second := (lineSecond_of_headerTags digit accepted).1
  have present := findStartFrom_none through _ (List.mem_filterMap.mpr ⟨line, inLines, second⟩)
  rw [stored, decide_eq_true_eq, time] at present
  have early := le_of_second_taken file.increasing last (times ▸ inTimes) present
  rw [decide_eq_true_eq, ← same, not_lt]
  exact early

theorem stored_second_lt {lines : List Str} {k : Nat} {second : Int}
    (parsed : (Parser.init 0 exclude).feedLines lines = .ok whole)
    (present : second ∈ ((sampleTimes exclude lines).take k).map truncate) :
    second < 253402300800 := by
  rcases Parser.feedLines_eq_ok.mp parsed with ⟨out, run, _, _, _⟩
  rcases List.mem_map.mp present with ⟨time, inTake, rfl⟩
  have inTimes : time ∈ headerTimes out := run.outputs_eq ▸ List.mem_of_mem_take inTake
  rcases mem_headerTimes run inTimes with ⟨_, _, tags, digit, accepted, rfl⟩
  exact (lineSecond_of_headerTags digit accepted).2

/-- A resumed ingest yields the later rows of the whole ingest when the replayed sample has
every series they continue. -/
theorem resumes_of_seedsLater (exclude : List Str) (k : Nat) (lines : List Str)
    (file : StatsFile exclude lines) (seeds : SeedsLater exclude k lines) :
    Resumes exclude k lines := by
  intro cut whole last ingested
  rcases ingestFrom_eq_ok.mp ingested with ⟨p, parsed, rfl⟩
  rcases findStartFrom_ok (stored exclude (k + 1) lines) file.exact 0 0 with ⟨start, found⟩
  cases start with
  | none =>
    refine ⟨none, [], found, rfl, ?_⟩
    rw [rowsAfter_of_through file last parsed found]
    exact .nil
  | some start =>
    rcases findStartFrom_spec found with ⟨rfl, _⟩ | ⟨before, header, after, rfl, rfl, starts⟩
    · exact ⟨some 0, _, found, ingested, .refl _⟩
    · rcases starts.dated with ⟨second, dated, present⟩
      rw [stored, decide_eq_true_eq] at present
      have below := stored_second_lt parsed present
      rcases headerTags_of_lineSecond dated below with ⟨digit, tags, accepted, time⟩
      rcases seeds before header after tags cut p rfl starts accepted last parsed with
        ⟨alike, reseeds⟩
      have exact : Exact after := fun line member => file.exact line (by simp [member])
      rcases feedLines_from_header parsed digit accepted exact alike with
        ⟨first, rest, c, d, resumed, split, passed, onward, cols, taken, rows⟩
      have ordered := (List.pairwise_map.mp file.increasing).imp lt_of_truncate_lt
      rcases times_around_header split passed onward ordered with ⟨sorted, early, since⟩
      have stored_le : tags.time ≤ cut := by
        apply le_of_second_taken file.increasing last _ (time ▸ present)
        rw [sampleTimes, split, headerTimes, List.filterMap_append]
        exact List.mem_append_right _ (.head _)
      rw [cols, List.map_append] at reseeds
      rw [Nat.zero_add] at found
      refine ⟨some before.length, _, found, ingestFrom_eq_ok.mpr ⟨resumed, taken, rfl⟩, ?_⟩
      rw [rows, cols, List.map_append]
      apply rowsAfter_of_reseeds _ _ _ stored_le reseeds
      · rw [← List.map_append]
        exact List.pairwise_map.mpr sorted
      · intro r member
        rcases List.mem_map.mp member with ⟨row, inFirst, rfl⟩
        exact early row inFirst
      · intro r member
        rcases List.mem_map.mp member with ⟨row, inRest, rfl⟩
        exact since row inRest

def deviceFile (first second third : List String) : List Str :=
  lit "!cpu user" :: lit "100 7 hosta" :: first.map lit ++ lit "200 7 hosta" :: second.map lit ++
    lit "300 7 hosta" :: third.map lit

theorem resumes_kept_device :
    Resumes excludeTypes 1 (deviceFile ["cpu 0 5"] ["cpu 0 6"] ["cpu 0 8", "cpu 1 1"]) := by
  apply resumes_of_seedsLater
  · exact ⟨by decide +kernel, by unfold Exact Finite; decide +kernel⟩
  · intro before header after tags cut whole split starts accepted last parsed
    let lines := deviceFile ["cpu 0 5"] ["cpu 0 6"] ["cpu 0 8", "cpu 1 1"]
    have index : before.length = 3 := by
      rcases starts.dated with ⟨second, dated, present⟩
      have inside : before.length < 8 := by
        have length := congrArg List.length split
        rw [show (deviceFile ["cpu 0 5"] ["cpu 0 6"] ["cpu 0 8", "cpu 1 1"]).length = 8 from rfl,
          List.length_append, List.length_cons] at length
        omega
      have here : (lines[before.length]?.bind lineSecond).map (stored excludeTypes 2 lines) =
          some true := by
        rw [show lines = before ++ header :: after from split]
        simp [dated, ← present, split]
      have stops : ((lines.drop (before.length + 1)).filterMap lineSecond).head?.map
          (stored excludeTypes 2 lines) = some false := by
        have rest : lines.drop (before.length + 1) = after := by
          rw [show lines = before ++ header :: after from split, List.drop_append]
          simp
        rw [rest]
        exact starts.stops
      exact (show ∀ n < 8, (lines[n]?.bind lineSecond).map (stored excludeTypes 2 lines) = some true →
        ((lines.drop (n + 1)).filterMap lineSecond).head?.map (stored excludeTypes 2 lines) =
          some false → n = 3 by decide +kernel) _ inside here stops
    rcases List.append_inj (show lines.take 3 ++ lines.drop 3 = before ++ header :: after from split)
      (by rw [index]; rfl) with ⟨rfl, rest⟩
    cases rest
    have tags_eq := accepted.symm.trans
      (show _ = some (⟨200, lit "hosta", lit "7"⟩ : Tags) by decide +kernel)
    cases tags_eq
    have cut_eq := last.symm.trans (show _ = some 200 by decide +kernel)
    cases cut_eq
    rcases Parser.feedLines_eq_ok.mp parsed with ⟨out, run, cols, _, _⟩
    rw [← run.outputs_eq] at cols
    rw [cols]
    exact ⟨.inl (by decide +kernel), by decide +kernel, by decide +kernel⟩

theorem resumed_delta_missing :
    ¬ Resumes excludeTypes 1 (deviceFile ["cpu 0 5", "cpu 1 1"] ["cpu 1 2"] ["cpu 0 8"]) := by
  let row (time value : ℚ) (delta arc : Cell) : HostRow :=
    ⟨time, lit "hosta", lit "7", lit "cpu", [], lit "user", lit "#", some value, delta, arc⟩
  intro resumes
  rcases resumes 200 [row 100 6 none none, row 200 2 (some 1) (some (1 / 100)),
    row 300 8 (some 3) (some (3 / 100))] (by decide +kernel) (by decide +kernel) with
    ⟨start, resumed, found, taken, same⟩
  have start_eq := found.symm.trans (show _ = Except.ok (some 4) by decide +kernel)
  cases start_eq
  have resumed_eq := taken.symm.trans
    (show _ = Except.ok [row 200 2 none none, row 300 8 none none] by decide +kernel)
  cases resumed_eq
  exact absurd same (by decide +kernel)

end Resume

end PerfStats.Feed
