import PerfStats.Feed.StartIndex
import PerfStats.Feed.Stamping

namespace PerfStats.Feed

open Lib

namespace Context

def rebased (c r : Context) : Context :=
  { c with
    startIdx := r.startIdx, bare := r.bare, fastBare := r.fastBare, sampleShared := r.sampleShared }

section Proc

theorem procValue_ok {raw : Str} (finite : Finite raw) : ∃ value, procValue raw = .ok value := by
  cases whole : Text.parseInt raw with
  | some n => exact ⟨some n, by simp [procValue, whole]⟩
  | none =>
    cases parsed : Num.parse raw with
    | none => exact ⟨none, by simp [procValue, whole, parsed]⟩
    | some number =>
      cases number with
      | fin q => exact ⟨some (truncate q), by simp [procValue, whole, parsed]⟩
      | nan => exact ⟨none, by simp [procValue, whole, parsed]⟩
      | inf => exact absurd parsed finite.1
      | ninf => exact absurd parsed finite.2

theorem procFields_ok (bare : List Str) {vals : List Str} (exact : ∀ raw ∈ vals, Finite raw) :
    ∃ fields, procFields bare vals = .ok fields := by
  have general : ∀ (pairs : List (Str × Str)) (start : Dict Str (Option Int)),
      (∀ pair ∈ pairs, Finite pair.2) →
      ∃ fields, pairs.foldlM (fun fields pair =>
        if pair.1 ∈ hostProcKeys then do
          let value ← procValue pair.2
          return fields.set pair.1 value
        else (.ok fields : Except ParseError _)) start = .ok fields := by
    intro pairs
    induction pairs with
    | nil => exact fun start _ => ⟨start, rfl⟩
    | cons pair rest ih =>
      intro start finite
      have later := fun other member => finite other (.tail _ member)
      rcases pair with ⟨key, raw⟩
      rw [List.foldlM_cons]
      by_cases known : key ∈ hostProcKeys
      · rcases procValue_ok (finite (key, raw) (by simp)) with ⟨value, read⟩
        simp only [known, if_true, read]
        exact ih _ later
      · simp only [known, if_false]
        exact ih _ later
  apply general
  intro pair member
  exact exact pair.2 (List.of_mem_zip member).2

theorem tierMarker_subset (vals : List Str) : ∀ v ∈ (tierMarker vals).2, v ∈ vals := by
  intro v member
  cases vals with
  | nil => exact member
  | cons head rest =>
    by_cases fast : head = lit "@fast"
    · exact List.mem_cons_of_mem _ (by simpa [tierMarker, fast] using member)
    · by_cases full : head = lit "@full"
      · rw [tierMarker, if_neg fast, if_pos full] at member
        exact .tail _ member
      · rw [tierMarker, if_neg fast, if_neg full] at member
        exact member

theorem procBareKeysFor_rebased (c r : Context) (type : Str) (fast : Bool) :
    ∃ r', ((c.rebased r).procBareKeysFor type fast).2 = c.rebased r' ∧
      r'.startIdx = r.startIdx ∧ r'.sampleShared = r.sampleShared := by
  rcases procBareKeysFor_cases (c.rebased r) type fast with ⟨bare, fastBare, same⟩
  exact ⟨{ r with bare, fastBare }, same, rfl, rfl⟩

theorem feedProc_rebased (c r : Context) (tags : Tags) (type dev : Str) {vals : List Str}
    (exact : ∀ raw ∈ vals, Finite raw) :
    ∃ r' row, (c.rebased r).feedProc tags type dev vals = .ok (c.rebased r', .proc row) ∧
      r'.startIdx = r.startIdx ∧ r'.sampleShared = r.sampleShared := by
  rcases procBareKeysFor_rebased c r type (decide ((tierMarker vals).1 = .fast)) with
    ⟨r', same, start, shared⟩
  rcases procFields_ok ((c.rebased r).procBareKeysFor type (decide ((tierMarker vals).1 = .fast))).1
    (fun raw member => exact raw (tierMarker_subset vals raw member)) with ⟨fields, read⟩
  refine ⟨r', ⟨tags.time, tags.host, tags.jid, (Text.splitOn '/' dev).headD [], dev, fields⟩, ?_,
    start, shared⟩
  simp only [feedProc]
  rw [read, same]
  rfl

end Proc

section Step

variable {c c' r : Context} {line : Str} {e : Emit}

theorem feedRow_rebased {tags : Tags} {s : Str} (shared : r.sampleShared = c.sampleShared)
    (exact : ∀ raw ∈ (Text.split s).drop 2, Finite raw)
    (taken : c.feedRow tags s = .ok (c', e)) :
    ∃ r' e', (c.rebased r).feedRow tags s = .ok (c'.rebased r', e') ∧
      e'.statsRows = e.statsRows ∧ r'.startIdx = r.startIdx ∧
      r'.sampleShared = c'.sampleShared := by
  unfold feedRow at taken ⊢
  split at taken
  · next type dev v vals words =>
      split at taken
      · next excluded =>
          cases taken
          exact ⟨r, .nothing, if_pos excluded, rfl, rfl, shared⟩
      · next included =>
          rw [if_neg (show type ∉ (c.rebased r).exclude from included)]
          split at taken
          · next proc =>
              rw [if_pos proc]
              rcases feedProc_cases taken with ⟨row, bare, fastBare, rfl, rfl⟩
              rcases feedProc_rebased c r tags type dev
                (show ∀ raw ∈ v :: vals, Finite raw by simpa [words] using exact) with ⟨r', row', fed, start, kept⟩
              exact ⟨r', .proc row', fed, rfl, start, kept.trans shared⟩
          · next other =>
              rw [if_neg other]
              have same : (c.rebased r).hardwareRows tags type dev (v :: vals) =
                  c.hardwareRows tags type dev (v :: vals) := by
                simp only [hardwareRows, rebased, shared]
              rw [same]
              cases made : c.hardwareRows tags type dev (v :: vals) with
              | error err =>
                rw [made] at taken
                cases taken
              | ok rows =>
                rw [made] at taken
                cases taken
                exact ⟨r, .rows rows, rfl, rfl, rfl, shared⟩
  · cases taken
    exact ⟨r, .nothing, rfl, rfl, rfl, shared⟩

theorem feedHeader_rebased (c r : Context) (s : Str) :
    ∃ r', (c.rebased r).feedHeader s =
        ((c.feedHeader s).1.rebased r', (c.feedHeader s).2) ∧ r'.startIdx = r.startIdx ∧
      (r.sampleShared = c.sampleShared → r'.sampleShared = (c.feedHeader s).1.sampleShared) := by
  unfold feedHeader
  split
  · next t jid host more words =>
      cases sampleTime t with
      | none => exact ⟨r, rfl, rfl, id⟩
      | some time =>
        exact ⟨{ r with sampleShared := c.armShared && stampable jid }, rfl, rfl, fun _ => rfl⟩
  · exact ⟨r, rfl, rfl, id⟩

theorem feedSchema_rebased {s : Str} (taken : c.feedSchema s = .ok (c', e)) :
    ∃ r', (c.rebased r).feedSchema s = .ok (c'.rebased r', e) ∧ r'.startIdx = r.startIdx ∧
      r'.sampleShared = r.sampleShared ∧ c'.sampleShared = c.sampleShared ∧ e = .nothing := by
  unfold feedSchema at taken ⊢
  split at taken
  · next label event events words =>
      dsimp only at taken ⊢
      split at taken
      · cases taken
      · next compiles =>
          cases taken
          rw [if_neg compiles]
          exact ⟨{ r with
            bare := r.bare.set (label.drop 1) (compileSchemaBareNames (event :: events))
            fastBare := r.fastBare.set (label.drop 1)
              (compileSchemaBareNames (fastSchemaKeys (event :: events))) }, rfl, rfl, rfl, rfl, rfl⟩
  · cases taken

theorem queueMark_rebased (c r : Context) (body : MarkBody) :
    ∃ r', (c.rebased r).queueMark body =
        ((c.queueMark body).1.rebased r', (c.queueMark body).2) ∧ r'.startIdx = r.startIdx ∧
      (r.sampleShared = c.sampleShared ∨ ((∃ jids, body = .jobs jids) ∧ c.tags.isSome = true) →
        r'.sampleShared = (c.queueMark body).1.sampleShared) := by
  simp only [queueMark_eq]
  cases body with
  | jobs jids =>
    refine ⟨{ r with
      sampleShared := c.tags.elim r.sampleShared fun tags => stampable tags.jid }, rfl, rfl, ?_⟩
    intro alike
    cases header : c.tags with
    | none => simpa [header] using alike
    | some tags => rfl
  | affinity jid cpus gpus cg => exact ⟨r, rfl, rfl, by simp⟩

theorem notePercentMark_rebased (c r : Context) (line : Str) :
    ∃ r', (c.rebased r).notePercentMark (Text.lstrip line) =
        ((c.notePercentMark (Text.lstrip line)).1.rebased r',
          (c.notePercentMark (Text.lstrip line)).2) ∧ r'.startIdx = r.startIdx ∧
      (r.sampleShared = c.sampleShared ∨ (namesJobs line = true ∧ c.tags.isSome = true) →
        r'.sampleShared = (c.notePercentMark (Text.lstrip line)).1.sampleShared) := by
  unfold notePercentMark namesJobs
  by_cases jobs : Text.startsWith (lit "%jobs") (Text.lstrip line) = true
  · simp only [jobs, if_true]
    cases parseJobsJids (Text.lstrip line) with
    | nil => exact ⟨r, rfl, rfl, by simp⟩
    | cons jid jids =>
      rcases queueMark_rebased { c with armShared := true } r (.jobs (jid :: jids)) with
        ⟨r', same, start, shared⟩
      exact ⟨r', same, start, fun alike => shared (alike.imp_right fun both => ⟨⟨_, rfl⟩, both.2⟩)⟩
  · rw [if_neg jobs, if_neg jobs]
    split
    · cases parseAffinityMark (Text.lstrip line) with
      | none => exact ⟨r, rfl, rfl, by simp [jobs]⟩
      | some body =>
        rcases queueMark_rebased c r body with ⟨r', same, start, shared⟩
        exact ⟨r', same, start, fun alike => shared (.inl (by simpa [jobs] using alike))⟩
    · exact ⟨r, rfl, rfl, by simp [jobs]⟩

theorem feedLine_reached {first : Char} {rest : Str} (stripped : Text.lstrip line = first :: rest)
    (reached : c.startIdx ≤ c.lineIndex) :
    c.feedLine line =
      if (Text.isAlpha first && c.insert) = true then
        match c.tags with
        | none => .ok (c.tick, .nothing)
        | some tags => c.tick.feedRow tags (first :: rest)
      else if Text.isDigit first = true then .ok (c.tick.feedHeader (first :: rest))
      else if first = '!' then c.tick.feedSchema (first :: rest)
      else if first = '%' then .ok (c.tick.notePercentMark (first :: rest))
      else .ok (c.tick, .nothing) := by
  rw [feedLine, stripped]
  dsimp only
  generalize reads : decide (c.startIdx ≤ c.lineIndex) = live
  rw [decide_eq_true reached] at reads
  subst reads
  rfl

theorem feedLine_rebased (reached : c.startIdx ≤ c.lineIndex) (reached' : r.startIdx ≤ c.lineIndex)
    (exact : ∀ word ∈ numberWords line, Finite word)
    (alike : r.sampleShared = c.sampleShared ∨ isBody line = false)
    (taken : c.feedLine line = .ok (c', e)) :
    ∃ r' e', (c.rebased r).feedLine line = .ok (c'.rebased r', e') ∧
      e'.statsRows = e.statsRows ∧ r'.startIdx = r.startIdx ∧
      (r.sampleShared = c.sampleShared ∨ (namesJobs line = true ∧ c.tags.isSome = true) →
        r'.sampleShared = c'.sampleShared) := by
  cases stripped : Text.lstrip line with
  | nil =>
    have plain : namesJobs line = false := by simp [namesJobs, stripped, Text.startsWith, lit]
    simp only [feedLine, stripped] at taken ⊢
    cases taken
    exact ⟨r, .nothing, rfl, rfl, rfl, by simp [plain, tick]⟩
  | cons first rest =>
    rw [feedLine_reached stripped reached] at taken
    rw [feedLine_reached stripped reached']
    have body : isBody line = (Text.isAlpha first || Text.isDigit first) := by
      simp [isBody, stripped]
    have other : first ≠ '%' → (r.sampleShared = c.sampleShared ∨
        (namesJobs line = true ∧ c.tags.isSome = true) ↔ r.sampleShared = c.sampleShared) := by
      intro apart
      simp [namesJobs_head stripped apart]
    by_cases row : (Text.isAlpha first && c.insert) = true
    · have letter := (Bool.and_eq_true_iff.mp row).1
      have apart : first ≠ '%' := by
        intro same
        rw [same] at letter
        exact absurd letter (by decide)
      have shared : r.sampleShared = c.sampleShared := by simpa [body, letter] using alike
      rw [if_pos row] at taken
      rw [if_pos (show (Text.isAlpha first && (c.rebased r).insert) = true from row), other apart]
      cases header : c.tags with
      | none =>
        simp only [header] at taken
        cases taken
        simp only [show (c.rebased r).tags = none from header]
        exact ⟨r, .nothing, rfl, rfl, rfl, id⟩
      | some tags =>
        simp only [header] at taken
        simp only [show (c.rebased r).tags = some tags from header]
        rcases feedRow_rebased (c := c.tick) shared (s := first :: rest) (by
          simpa [numberWords, stripped, letter, Text.isDigit_of_isAlpha letter] using exact)
          taken with ⟨r', e', fed, rows, start, kept⟩
        exact ⟨r', e', fed, rows, start, fun _ => kept⟩
    · rw [if_neg row] at taken
      rw [if_neg (show ¬ (Text.isAlpha first && (c.rebased r).insert) = true from row)]
      by_cases digit : Text.isDigit first = true
      · have apart : first ≠ '%' := by
          intro same
          rw [same] at digit
          exact absurd digit (by decide)
        rw [if_pos digit] at taken ⊢
        rw [other apart]
        rcases feedHeader_rebased c.tick r (first :: rest) with ⟨r', same, start, kept⟩
        rw [Except.ok.inj taken] at same kept
        exact ⟨r', _, congrArg Except.ok same, rfl, start, kept⟩
      · rw [if_neg digit] at taken ⊢
        by_cases bang : first = '!'
        · rw [if_pos bang] at taken ⊢
          rw [other (by rw [bang]; decide)]
          rcases feedSchema_rebased (r := r) taken with ⟨r', fed, start, kept, same, rfl⟩
          refine ⟨r', .nothing, fed, rfl, start, fun shared => ?_⟩
          rw [kept, same, shared]
          rfl
        · rw [if_neg bang] at taken ⊢
          by_cases percent : first = '%'
          · rw [if_pos percent, ← stripped] at taken ⊢
            rcases notePercentMark_rebased c.tick r line with ⟨r', same, start, kept⟩
            rw [Except.ok.inj taken] at same kept
            exact ⟨r', _, congrArg Except.ok same, rfl, start, kept⟩
          · rw [if_neg percent] at taken ⊢
            cases taken
            rw [other percent]
            exact ⟨r, .nothing, rfl, rfl, rfl, id⟩

theorem feedLine_tagged (inside : c.tags.isSome = true)
    (taken : c.feedLine line = .ok (c', e)) : c'.tags.isSome = true := by
  have effect := feedLine_effect taken
  cases effect with
  | accept => rfl
  | _ => exact inside

theorem traces_rebased {lines : List Str} {out : List Emit}
    (run : Traces feedLine c lines out c') (reached : c.startIdx ≤ c.lineIndex)
    (reached' : r.startIdx ≤ c.lineIndex) (exact : Exact lines)
    (alike : r.sampleShared = c.sampleShared ∨
      (marksFirst lines = true ∧ c.tags.isSome = true)) :
    ∃ r' out', Traces feedLine (c.rebased r) lines out' (c'.rebased r') ∧
      rowsOf out' = rowsOf out := by
  induction run generalizing r with
  | nil => exact ⟨r, [], .nil _, rfl⟩
  | @cons c t u line e lines out taken rest ih =>
    have later : Exact lines := fun other member => exact other (.tail _ member)
    have here : r.sampleShared = c.sampleShared ∨ isBody line = false := by
      rcases alike with same | ⟨marks, _⟩
      · exact .inl same
      · cases body : isBody line with
        | true => simp [marksFirst, body] at marks
        | false => exact .inr rfl
    rcases feedLine_rebased reached reached' (exact line (by simp)) here taken with
      ⟨r', e', fed, rows, start, kept⟩
    rcases feedLine_index taken with ⟨startIdx, index⟩
    have next : r'.sampleShared = t.sampleShared ∨
        (marksFirst lines = true ∧ t.tags.isSome = true) := by
      rcases alike with same | ⟨marks, inside⟩
      · exact .inl (kept (.inl same))
      · have body : isBody line = false := by
          cases body : isBody line with
          | true => simp [marksFirst, body] at marks
          | false => rfl
        simp only [marksFirst, body, List.takeWhile_cons, Bool.not_false, if_true, List.any_cons,
          Bool.or_eq_true] at marks
        rcases marks with names | more
        · exact .inl (kept (.inr ⟨names, inside⟩))
        · exact .inr ⟨more, feedLine_tagged inside taken⟩
    rcases ih (by omega) (by omega) later next with ⟨last, more, run, same⟩
    exact ⟨last, e' :: more, .cons fed run, by rw [rowsOf_cons, rowsOf_cons, rows, same]⟩

structure Skips (c d : Context) : Prop where
  exclude : d.exclude = c.exclude
  lineIndex : d.lineIndex = c.lineIndex
  schema : d.schema = c.schema
  closed : d.insert = false
  untagged : d.tags = none

variable {d : Context}

theorem Skips.ticked (skips : Skips c d) : Skips c.tick d.tick :=
  ⟨skips.exclude, by simp [tick, skips.lineIndex], skips.schema, skips.closed, skips.untagged⟩

theorem feedLine_early {first : Char} {rest : Str}
    (stripped : Text.lstrip line = first :: rest) (closed : d.insert = false)
    (early : d.lineIndex < d.startIdx) :
    d.feedLine line =
      if first = '!' then d.tick.feedSchema (first :: rest)
      else if first = '%' then .ok (d.tick.notePercentMark (first :: rest))
      else .ok (d.tick, .nothing) := by
  have before : ¬ d.startIdx ≤ d.lineIndex := by omega
  simp [feedLine, stripped, closed, before]

theorem feedLine_skipped (skips : Skips c d) (early : d.lineIndex < d.startIdx)
    (taken : c.feedLine line = .ok (c', e)) :
    ∃ d' e', d.feedLine line = .ok (d', e') ∧ Skips c' d' ∧ e'.statsRows = [] ∧
      d'.armShared = (d.armShared || namesJobs line) := by
  have silent : (Text.lstrip line).head? ≠ some '!' → Skips c' d.tick := by
    intro apart
    have ticked := skips.ticked
    have effect := feedLine_effect taken
    cases effect with
    | schema _ _ _ _ _ bang => exact absurd bang apart
    | _ => exact ⟨ticked.exclude, ticked.lineIndex, ticked.schema, ticked.closed, ticked.untagged⟩
  cases stripped : Text.lstrip line with
  | nil =>
    have plain : namesJobs line = false := by simp [namesJobs, stripped, Text.startsWith, lit]
    exact ⟨d.tick, .nothing, by simp [feedLine, stripped], silent (by simp [stripped]), rfl,
      by simp [plain, tick]⟩
  | cons first rest =>
    rw [feedLine_early stripped skips.closed early]
    by_cases bang : first = '!'
    · have plain := namesJobs_head stripped (by rw [bang]; decide)
      rw [if_pos bang]
      have read : c.tick.feedSchema (first :: rest) = .ok (c', e) := by
        simpa [feedLine, stripped, bang] using taken
      unfold feedSchema at read ⊢
      split at read
      · next label event events words =>
          dsimp only at read ⊢
          split at read
          · cases read
          · next compiles =>
              cases read
              rw [if_neg compiles]
              refine ⟨_, _, rfl, ?_, rfl, by simp [plain, tick]⟩
              have ticked := skips.ticked
              exact ⟨ticked.exclude, ticked.lineIndex, by rw [ticked.schema], ticked.closed,
                ticked.untagged⟩
      · cases read
    · have unchanged := silent (by simpa [stripped] using bang)
      rw [if_neg bang]
      by_cases percent : first = '%'
      · rw [if_pos percent, ← stripped]
        rcases notePercentMark_cases d.tick line with ⟨same, plain⟩ | ⟨body, same⟩
        · rw [same]
          exact ⟨_, _, rfl, unchanged, rfl, by simp [plain, tick]⟩
        · rw [same]
          exact ⟨_, _, rfl, ⟨unchanged.exclude, unchanged.lineIndex, unchanged.schema,
            unchanged.closed, unchanged.untagged⟩, rfl, rfl⟩
      · rw [if_neg percent]
        exact ⟨_, _, rfl, unchanged, rfl, by simp [namesJobs_head stripped percent, tick]⟩

theorem traces_skipped {lines : List Str} {out : List Emit} (skips : Skips c d)
    (early : d.lineIndex + lines.length ≤ d.startIdx) (run : Traces feedLine c lines out c') :
    ∃ d' out', Traces feedLine d lines out' d' ∧ Skips c' d' ∧ rowsOf out' = [] ∧
      d'.armShared = (d.armShared || lines.any namesJobs) := by
  induction run generalizing d with
  | nil => exact ⟨d, [], .nil _, skips, rfl, by simp⟩
  | cons taken rest ih =>
    rw [List.length_cons] at early
    rcases feedLine_skipped skips (by omega) taken with ⟨t, e, fed, next, rows, armed⟩
    rcases feedLine_index fed with ⟨start, index⟩
    rcases ih next (by omega) with ⟨last, out, run, done, more, flag⟩
    refine ⟨last, e :: out, .cons fed run, done, by rw [rowsOf_cons, rows, more]; rfl, ?_⟩
    rw [flag, armed, List.any_cons, Bool.or_assoc]

theorem feedLine_header {tags : Tags} (reached : c.startIdx ≤ c.lineIndex)
    (digit : isDigitLine line = true) (accepted : headerTags line = some tags) :
    c.feedLine line = .ok (c.tick.opened tags, .bind tags.time tags.host) := by
  cases stripped : Text.lstrip line with
  | nil => simp [isDigitLine, stripped] at digit
  | cons first rest =>
    simp only [isDigitLine, stripped, List.head?_cons, Option.elim_some] at digit
    have other : ¬ (Text.isAlpha first && c.insert) = true := by
      intro letter
      have digit' := Text.isDigit_of_isAlpha (Bool.and_eq_true_iff.mp letter).1
      rw [digit] at digit'
      cases digit'
    rw [feedLine_reached stripped reached, if_neg other, if_pos digit]
    unfold headerTags at accepted
    rw [stripped] at accepted
    unfold feedHeader
    generalize Text.split (first :: rest) = words at accepted ⊢
    rcases words with _ | ⟨t, _ | ⟨jid, _ | ⟨host, more⟩⟩⟩
    · cases accepted
    · cases accepted
    · cases accepted
    · rcases Option.map_eq_some_iff.mp accepted with ⟨time, read, rfl⟩
      dsimp only
      rw [read]
      rfl

theorem opened_rebased (skips : Skips c d) (tags : Tags) :
    d.opened tags = (c.opened tags).rebased (d.opened tags) := by
  rcases d with ⟨_, _, _, _, _, _, _, _, _, _⟩
  rcases skips with ⟨rfl, rfl, rfl, rfl, rfl⟩
  rfl

end Step

end Context

end PerfStats.Feed
