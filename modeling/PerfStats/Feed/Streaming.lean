import PerfStats.Feed.Trace

/-! `parse_stats_file_streaming_incremental`: the file is read in batches of lines, and full buffers
are handed on where a new sample seems to start. -/

namespace PerfStats.Feed

open Lib

/-- `flush_rows`, `flush_max_bytes` and `line_batch_size`. -/
structure Limits where
  flushRows : Nat
  flushMaxBytes : Option Nat
  lineBatchSize : Nat
  positive : 0 < lineBatchSize

/-- One call of `on_chunk`. -/
structure Chunk where
  cols : List StatsRow
  procs : List ProcRow

/-- The loop's state; `chunks` and `delivered` are what has left it. -/
structure Stream where
  parser : Parser
  pendingFlush : Bool
  windowStart : Nat
  position : Nat
  chunks : List Chunk
  delivered : List Mark

namespace Parser

def hasRows (p : Parser) : Bool := !p.cols.isEmpty || decide (p.procByKey.size ≠ 0)

/-- `take_stats_columns` and `take_proc_stats_columns`. -/
def chunk (p : Parser) : Chunk := ⟨p.cols, p.procByKey.entries.map Prod.snd⟩

def emptied (p : Parser) : Parser := { p with cols := [], procByKey := .empty }

end Parser

namespace Stream

variable (limits : Limits)

def init (startIdx : Nat) (exclude : List Str) : Stream :=
  ⟨.init startIdx exclude, false, 0, 0, [], []⟩

def overLimit (batchEnd : Nat) (s : Stream) : Bool :=
  match limits.flushMaxBytes with
  | some bytes => decide (max 1 bytes ≤ batchEnd - s.windowStart)
  | none => decide (max 1 limits.flushRows ≤ s.parser.cols.length)

def flush (batchEnd : Nat) (s : Stream) (line : Str) : Stream :=
  if s.parser.context.startsSample line && (s.pendingFlush || s.overLimit limits batchEnd) then
    if s.parser.hasRows then
      { s with
        parser := s.parser.emptied
        chunks := s.chunks ++ [s.parser.chunk]
        windowStart := batchEnd
        pendingFlush := false }
    else { s with pendingFlush := false }
  else s

def feedLine (batchEnd : Nat) (s : Stream) (line : Str) : Except ParseError Stream := do
  let s := s.flush limits batchEnd line
  let parser ← s.parser.feedLine line
  let s := { s with parser }
  return { s with pendingFlush := s.pendingFlush || s.overLimit limits batchEnd }

/-- `take_ready_marks`, and their delivery. -/
def deliverMarks (s : Stream) : Stream :=
  { s with
    delivered := s.delivered ++ s.parser.marks.filter (·.bound.isSome)
    parser := { s.parser with marks := s.parser.marks.filter (!·.bound.isSome) } }

def feedBatch (s : Stream) (batch : List Str) : Except ParseError Stream := do
  let batchEnd := s.position + (batch.map List.length).sum
  let s ← batch.foldlM (feedLine limits batchEnd) s
  return { s with position := batchEnd }.deliverMarks

def finish (s : Stream) : Stream :=
  if s.parser.hasRows then
    { s with parser := s.parser.emptied, chunks := s.chunks ++ [s.parser.chunk] }.deliverMarks
  else s

end Stream

def parseStatsFileStreamingIncremental (limits : Limits) (startIdx : Nat) (exclude : List Str)
    (lines : List Str) : Except ParseError Stream := do
  let s ← (slices limits.lineBatchSize lines).foldlM (Stream.feedBatch limits)
    (.init startIdx exclude)
  return s.finish

section Samples

def samplesFrom : Nat → List Emit → List Nat
  | _, [] => []
  | n, e :: out =>
    let n := if e.isBind then n + 1 else n
    List.replicate e.statsRows.length n ++ samplesFrom n out

def headers (out : List Emit) : Nat := out.countP Emit.isBind

theorem samplesFrom_append (n : Nat) (out more : List Emit) :
    samplesFrom n (out ++ more) = samplesFrom n out ++ samplesFrom (n + headers out) more := by
  induction out generalizing n with
  | nil => simp [samplesFrom, headers]
  | cons e out ih =>
    simp only [List.cons_append, samplesFrom, ih, List.append_assoc, headers, List.countP_cons]
    congr 3
    split <;> omega

theorem samplesFrom_length (n : Nat) (out : List Emit) :
    (samplesFrom n out).length = (rowsOf out).length := by
  induction out generalizing n with
  | nil => rfl
  | cons e out ih => simp [samplesFrom, rowsOf_cons, ih]

theorem samplesFrom_bounds (n : Nat) (out : List Emit) :
    ∀ m ∈ samplesFrom n out, n ≤ m ∧ m ≤ n + headers out := by
  induction out generalizing n with
  | nil => simp [samplesFrom]
  | cons e out ih =>
    intro m member
    have later := ih (if e.isBind then n + 1 else n) m
    cases bind : e.isBind <;>
      simp only [samplesFrom, headers, List.countP_cons, bind, List.mem_append,
        List.mem_replicate, if_true, Bool.false_eq_true, if_false] at member later ⊢ <;>
      rcases member with ⟨_, rfl⟩ | member <;> grind

theorem quiet_of_closed {c c' : Context} {lines : List Str} {out : List Emit}
    (run : Traces Context.feedLine c lines out c') (closed : c.insert = false) (n : Nat) :
    n ∉ samplesFrom n out := by
  induction run generalizing n with
  | nil => simp [samplesFrom]
  | cons taken rest ih =>
    have effect := Context.feedLine_effect taken
    cases effect with
    | rows tags rows inside => simp [closed] at inside
    | proc tags row bare fastBare inside => simp [closed] at inside
    | accept tags =>
      intro member
      simp only [samplesFrom, Emit.isBind, Emit.statsRows, List.length_nil, List.replicate_zero,
        List.nil_append, if_true] at member
      have := (samplesFrom_bounds _ _ n member).1
      omega
    | ignored => simpa [samplesFrom, Emit.isBind, Emit.statsRows] using ih closed n
    | reject => simpa [samplesFrom, Emit.isBind, Emit.statsRows] using ih rfl n
    | schema => simpa [samplesFrom, Emit.isBind, Emit.statsRows] using ih closed n
    | mark => simpa [samplesFrom, Emit.isBind, Emit.statsRows] using ih closed n

end Samples

section Runs

variable {limits : Limits}

namespace Stream

inductive Steps (limits : Limits) : Stream → List Str → Stream → Prop where
  | nil (s : Stream) : Steps limits s [] s
  | line {s t u : Stream} {line : Str} {rest : List Str} (batchEnd : Nat) :
      s.feedLine limits batchEnd line = .ok t → Steps limits t rest u →
        Steps limits s (line :: rest) u
  | batch {s u : Stream} {lines : List Str} (position : Nat) :
      Steps limits { s with position }.deliverMarks lines u → Steps limits s lines u

variable {s : Stream} (batchEnd : Nat) {t u : Stream} {lines : List Str} {out : List Emit}
    {c : Context} {e : Emit}

theorem Steps.append {more : List Str} (run : Steps limits s lines t)
    (after : Steps limits t more u) : Steps limits s (lines ++ more) u := by
  induction run with
  | nil => exact after
  | line batchEnd taken _ ih => exact .line batchEnd taken (ih after)
  | batch position _ ih => exact .batch position (ih after)

@[simp] theorem flush_context (s : Stream) (line : Str) :
    (s.flush limits batchEnd line).parser.context = s.parser.context := by
  unfold flush
  split
  · split <;> rfl
  · rfl

@[simp] theorem flush_marks (s : Stream) (line : Str) :
    (s.flush limits batchEnd line).parser.marks = s.parser.marks := by
  unfold flush
  split
  · split <;> rfl
  · rfl

@[simp] theorem flush_delivered (s : Stream) (line : Str) :
    (s.flush limits batchEnd line).delivered = s.delivered := by
  unfold flush
  split
  · split <;> rfl
  · rfl

variable (limits) in
theorem flush_cases (s : Stream) (line : Str) :
    ((s.flush limits batchEnd line).parser.cols = s.parser.cols ∧
      (s.flush limits batchEnd line).chunks = s.chunks) ∨
    (s.parser.context.startsSample line = true ∧
      (s.flush limits batchEnd line).parser.cols = [] ∧
      (s.flush limits batchEnd line).chunks = s.chunks ++ [s.parser.chunk]) := by
  unfold flush
  split
  · next due =>
      rw [Bool.and_eq_true] at due
      split
      · exact .inr ⟨due.1, rfl, rfl⟩
      · exact .inl ⟨rfl, rfl⟩
  · exact .inl ⟨rfl, rfl⟩

theorem feedLine_eq_ok {batchEnd : Nat} {line : Str}
    (taken : s.feedLine limits batchEnd line = .ok t) :
    ∃ c e, s.parser.context.feedLine line = .ok (c, e) ∧ t.parser.context = c ∧
      t.parser.cols = (s.flush limits batchEnd line).parser.cols ++ e.statsRows ∧
      t.chunks = (s.flush limits batchEnd line).chunks ∧
      t.parser.marks = e.intoMarks s.parser.marks ∧ t.delivered = s.delivered := by
  dsimp only [feedLine] at taken
  cases fed : (s.flush limits batchEnd line).parser.feedLine line with
  | error err =>
    rw [fed] at taken
    cases taken
  | ok parser =>
    rw [fed] at taken
    cases taken
    rcases Parser.feedLine_eq_ok.mp fed with ⟨c, e, inner, rfl⟩
    rw [flush_context] at inner
    exact ⟨c, e, inner, rfl, by simp, rfl, by simp, by simp⟩

variable (limits) in
theorem feedLine_ok {line : Str} (inner : s.parser.context.feedLine line = .ok (c, e)) :
    ∃ t, s.feedLine limits batchEnd line = .ok t := by
  have fed := (Parser.feedLine_eq_ok (p := (s.flush limits batchEnd line).parser)).mpr
    ⟨c, e, by rw [flush_context]; exact inner, rfl⟩
  dsimp only [feedLine]
  rw [fed]
  exact ⟨_, rfl⟩

variable (limits) in
theorem feedLines_ok (run : Traces Context.feedLine s.parser.context lines out c) :
    ∃ t, lines.foldlM (feedLine limits batchEnd) s = .ok t ∧ Steps limits s lines t ∧
      t.parser.context = c := by
  induction lines generalizing s out with
  | nil =>
    cases run
    exact ⟨s, rfl, .nil s, rfl⟩
  | cons line rest ih =>
    cases run with
    | cons inner more =>
      rcases feedLine_ok limits batchEnd inner with ⟨t, taken⟩
      rcases feedLine_eq_ok taken with ⟨c', e', inner', context, _⟩
      rw [inner] at inner'
      cases inner'
      rw [← context] at more
      rcases ih more with ⟨u, folded, steps, last⟩
      refine ⟨u, ?_, .line batchEnd taken steps, last⟩
      rw [List.foldlM_cons, taken]
      exact folded

variable (limits) in
theorem feedBatch_ok {batch : List Str}
    (run : Traces Context.feedLine s.parser.context batch out c) :
    ∃ t, s.feedBatch limits batch = .ok t ∧ Steps limits s batch t ∧ t.parser.context = c := by
  rcases feedLines_ok limits (s.position + (batch.map List.length).sum) run with
    ⟨t, folded, steps, context⟩
  refine ⟨{ t with position := s.position + (batch.map List.length).sum }.deliverMarks, ?_, ?_,
    context⟩
  · dsimp only [feedBatch]
    rw [folded]
    rfl
  have ended := steps.append (.batch (s.position + (batch.map List.length).sum) (.nil _))
  rwa [List.append_nil] at ended

variable (limits) in
theorem feedBatches_ok {batches : List (List Str)}
    (run : Traces Context.feedLine s.parser.context batches.flatten out c) :
    ∃ t, batches.foldlM (feedBatch limits) s = .ok t ∧ Steps limits s batches.flatten t ∧
      t.parser.context = c := by
  induction batches generalizing s out with
  | nil =>
    cases run
    exact ⟨s, rfl, .nil s, rfl⟩
  | cons batch rest ih =>
    rcases Traces.split run with ⟨middle, first, more, before, after, _⟩
    rcases feedBatch_ok limits before with ⟨t, taken, steps, context⟩
    rw [← context] at after
    rcases ih after with ⟨u, folded, steps', last⟩
    refine ⟨u, ?_, steps.append steps', last⟩
    rw [List.foldlM_cons, taken]
    exact folded

theorem Steps.rows (steps : Steps limits s lines t)
    (run : Traces Context.feedLine s.parser.context lines out t.parser.context) :
    ∃ fresh, t.chunks = s.chunks ++ fresh ∧
      fresh.flatMap Chunk.cols ++ t.parser.cols = s.parser.cols ++ rowsOf out := by
  induction steps generalizing out with
  | nil s =>
    cases run
    exact ⟨[], by simp, by simp [rowsOf]⟩
  | batch position steps ih => exact ih run
  | @line s m t line rest batchEnd taken steps ih =>
    cases run with
    | cons inner more =>
      rcases feedLine_eq_ok taken with ⟨c, e, inner', context, cols, chunks, _⟩
      rw [inner] at inner'
      cases inner'
      rw [← context] at more
      rcases ih more with ⟨fresh, last, total⟩
      rw [rowsOf_cons]
      rcases flush_cases limits batchEnd s line with
        ⟨kept, same⟩ | ⟨_, emptied, pushed⟩
      · refine ⟨fresh, by rw [last, chunks, same], ?_⟩
        rw [total, cols, kept, List.append_assoc]
      · refine ⟨s.parser.chunk :: fresh, by rw [last, chunks, pushed]; simp, ?_⟩
        rw [List.flatMap_cons, List.append_assoc, total, cols, emptied]
        simp [Parser.chunk]

/-- Marks already delivered are bound, and the waiting ones are bound exactly when a
header has been accepted. -/
structure MarksKept (s : Stream) (marks : List Mark) : Prop where
  all : s.delivered ++ s.parser.marks = marks
  bound : ∀ m ∈ s.delivered, m.bound.isSome = true
  waiting : ∀ m ∈ s.parser.marks, m.bound.isSome = s.parser.context.tags.isSome

theorem bindPendingMarks_bound (marks : List Mark) (time : ℚ) (host : Str)
    (bound : ∀ m ∈ marks, m.bound.isSome = true) :
    Parser.bindPendingMarks marks time host = marks := by
  have same : ∀ m ∈ marks, { m with bound := some (m.bound.getD (time, host)) } = m := by
    intro m member
    rcases Option.isSome_iff_exists.mp (bound m member) with ⟨found, here⟩
    rcases m with ⟨body, at_⟩
    cases here
    rfl
  rw [Parser.bindPendingMarks, List.map_congr_left same, List.map_id']

theorem effect_marks {c' : Context} {line : Str} (effect : c.Effect line c' e) :
    (c'.tags = c.tags ∧ ∀ marks, e.intoMarks marks = marks) ∨
    (c'.tags = c.tags ∧ ∃ m, m.bound.isSome = c.tags.isSome ∧ e = .mark m) ∨
    (c'.tags.isSome = true ∧ ∃ time host, e = .bind time host) := by
  cases effect with
  | mark body => exact .inr (.inl ⟨rfl, _, by simp, rfl⟩)
  | accept tags => exact .inr (.inr ⟨rfl, _, _, rfl⟩)
  | _ => exact .inl ⟨rfl, fun _ => rfl⟩

theorem MarksKept.fed {marks : List Mark} {batchEnd : Nat} {line : Str} (kept : MarksKept s marks)
    (taken : s.feedLine limits batchEnd line = .ok t)
    (inner : s.parser.context.feedLine line = .ok (c, e)) :
    MarksKept t (e.intoMarks marks) := by
  rcases feedLine_eq_ok taken with ⟨c', e', inner', context, _, _, waiting, delivered⟩
  rw [inner] at inner'
  cases inner'
  rcases kept with ⟨rfl, bound, before⟩
  rcases effect_marks (Context.feedLine_effect inner) with
    ⟨tags, same⟩ | ⟨tags, m, queued, rfl⟩ | ⟨tags, time, host, rfl⟩
  · refine ⟨by rw [delivered, waiting, same, same], delivered ▸ bound, ?_⟩
    rw [waiting, same, context, tags]
    exact before
  · refine ⟨by rw [delivered, waiting]; simp [Emit.intoMarks], delivered ▸ bound, ?_⟩
    rw [waiting, context, tags]
    intro k member
    rcases List.mem_append.mp member with old | new
    · exact before k old
    · rw [List.mem_singleton.mp new, queued]
  · refine ⟨?_, delivered ▸ bound, ?_⟩
    · rw [delivered, waiting]
      simp only [Emit.intoMarks]
      rw [← bindPendingMarks_bound s.delivered time host bound]
      simp [Parser.bindPendingMarks]
    · rw [waiting, context, tags]
      intro k member
      rcases List.mem_map.mp member with ⟨m, _, rfl⟩
      rfl

theorem MarksKept.delivery {marks : List Mark} (kept : MarksKept s marks) (position : Nat) :
    MarksKept { s with position }.deliverMarks marks ∧
      { s with position }.deliverMarks.delivered = marks.filter (·.bound.isSome) := by
  rcases kept with ⟨rfl, bound, waiting⟩
  have ready : (s.delivered ++ s.parser.marks).filter (·.bound.isSome) =
      s.delivered ++ s.parser.marks.filter (·.bound.isSome) := by
    rw [List.filter_append, List.filter_eq_self.mpr bound]
  refine ⟨⟨?_, ?_, ?_⟩, ready.symm⟩
  · simp only [deliverMarks]
    cases tags : s.parser.context.tags.isSome with
    | true =>
      rw [List.filter_eq_self.mpr fun m member => (waiting m member).trans tags,
        List.filter_eq_nil_iff.mpr fun m member => by simp [waiting m member, tags]]
      simp
    | false =>
      rw [List.filter_eq_nil_iff.mpr fun m member => by simp [waiting m member, tags],
        List.filter_eq_self.mpr fun m member => by simp [waiting m member, tags]]
      simp
  · intro m member
    rcases List.mem_append.mp member with old | new
    · exact bound m old
    · exact (List.mem_filter.mp new).2
  · intro m member
    exact waiting m (List.mem_filter.mp member).1

theorem Steps.marks {s t : Stream} {lines : List Str} {out : List Emit} {marks : List Mark}
    (steps : Steps limits s lines t)
    (run : Traces Context.feedLine s.parser.context lines out t.parser.context)
    (kept : MarksKept s marks) : MarksKept t (out.foldl Emit.intoMarks marks) := by
  induction steps generalizing out marks with
  | nil s =>
    cases run
    exact kept
  | batch position steps ih => exact ih run (kept.delivery position).1
  | line batchEnd taken steps ih =>
    cases run with
    | cons inner more =>
      rcases feedLine_eq_ok taken with ⟨c, e, inner', context, _⟩
      rw [inner] at inner'
      cases inner'
      rw [← context] at more
      have last := ih more (kept.fed taken inner)
      exact last

/-- The sample numbers of chunks and buffer: no two pieces share one, and a sample that has left
with a chunk yields no more rows. -/
def Separate (s : Stream) (first rest : List Emit) : Prop :=
  ∃ (parts : List (List Nat)) (buffered : List Nat),
    parts.map List.length = s.chunks.map (fun chunk => chunk.cols.length) ∧
    buffered.length = s.parser.cols.length ∧
    parts.flatten ++ buffered = samplesFrom 0 first ∧
    (parts ++ [buffered]).Pairwise List.Disjoint ∧
    ∀ part ∈ parts, headers first ∈ part → headers first ∉ samplesFrom (headers first) rest

variable (limits) in
theorem Separate.flushed {first rest : List Emit} (separate : Separate s first rest)
    (batchEnd : Nat) (line : Str)
    (cut : s.parser.context.startsSample line = true → headers first ∈ samplesFrom 0 first →
      headers first ∉ samplesFrom (headers first) rest) :
    Separate (s.flush limits batchEnd line) first rest := by
  rcases separate with ⟨parts, buffered, sizes, size, whole, apart, gone⟩
  rcases flush_cases limits batchEnd s line with ⟨kept, same⟩ | ⟨starts, emptied, pushed⟩
  · exact ⟨parts, buffered, by rw [same]; exact sizes, by rw [kept]; exact size, whole, apart, gone⟩
  · refine ⟨parts ++ [buffered], [], ?_, by simp [emptied], by simp [whole], ?_, ?_⟩
    · simp [pushed, sizes, size, Parser.chunk]
    · exact List.pairwise_append.mpr ⟨apart, List.pairwise_singleton _ _, by simp⟩
    · intro part member inside
      rcases List.mem_append.mp member with old | new
      · exact gone part old inside
      · refine cut starts ?_
        rw [← whole, List.mem_append]
        exact .inr (List.mem_singleton.mp new ▸ inside)

theorem Separate.fed {first rest : List Emit}
    (separate : Separate s first (e :: rest)) (chunks : t.chunks = s.chunks)
    (cols : t.parser.cols = s.parser.cols ++ e.statsRows)
    (headerRows : e.isBind = true → e.statsRows = []) : Separate t (first ++ [e]) rest := by
  rcases separate with ⟨parts, buffered, sizes, size, whole, apart, gone⟩
  have below : ∀ part ∈ parts, ∀ m ∈ part, m ≤ headers first := by
    intro part member m inside
    have found : m ∈ samplesFrom 0 first := by
      rw [← whole, List.mem_append, List.mem_flatten]
      exact .inl ⟨part, member, inside⟩
    have bounds := (samplesFrom_bounds 0 first m found).2
    omega
  cases bind : e.isBind with
  | true =>
    have count : headers (first ++ [e]) = headers first + 1 := by simp [headers, bind]
    refine ⟨parts, buffered, by rw [chunks]; exact sizes, ?_, ?_, apart, ?_⟩
    · rw [size, cols, headerRows bind, List.append_nil]
    · rw [samplesFrom_append, whole]
      simp [samplesFrom, headerRows bind]
    · intro part member inside
      have bound := below part member _ inside
      omega
  | false =>
    have count : headers (first ++ [e]) = headers first := by simp [headers, bind]
    have later : samplesFrom (headers first) (e :: rest) =
        List.replicate e.statsRows.length (headers first) ++
          samplesFrom (headers first) rest := by
      simp [samplesFrom, bind]
    rw [later] at gone
    refine ⟨parts, buffered ++ List.replicate e.statsRows.length (headers first),
      by rw [chunks]; exact sizes, ?_, ?_, ?_, ?_⟩
    · rw [cols, List.length_append, List.length_append, List.length_replicate, size]
    · rw [samplesFrom_append, ← whole]
      simp [samplesFrom, bind]
    · rcases List.pairwise_append.mp apart with ⟨inner, _, outer⟩
      refine List.pairwise_append.mpr ⟨inner, List.pairwise_singleton _ _, ?_⟩
      intro part member last same m inside
      rw [List.mem_singleton.mp same, List.mem_append, List.mem_replicate]
      intro found
      rcases found with old | ⟨nonzero, rfl⟩
      · exact outer part member buffered (List.mem_singleton_self _) inside old
      · refine gone part member inside (List.mem_append.mpr (.inl ?_))
        exact List.mem_replicate.mpr ⟨nonzero, rfl⟩
    · intro part member inside
      rw [count] at inside ⊢
      exact fun found => gone part member inside (List.mem_append.mpr (.inr found))

theorem effect_headerRows {c' : Context} {line : Str} (effect : c.Effect line c' e) :
    e.isBind = true → e.statsRows = [] := by
  cases effect <;> simp [Emit.isBind, Emit.statsRows]

theorem Steps.separate {s t : Stream} {lines : List Str} {first out : List Emit}
    (steps : Steps limits s lines t)
    (run : Traces Context.feedLine s.parser.context lines out t.parser.context)
    (separate : Separate s first out)
    (cut : ∀ before line after seen c more, lines = before ++ line :: after →
      Traces Context.feedLine s.parser.context before seen c → out = seen ++ more →
      c.startsSample line = true → headers (first ++ seen) ∈ samplesFrom 0 (first ++ seen) →
      headers (first ++ seen) ∉ samplesFrom (headers (first ++ seen)) more) :
    Separate t (first ++ out) [] := by
  induction steps generalizing first out with
  | nil s =>
    cases run
    rw [List.append_nil]
    exact separate
  | batch position steps ih => exact ih run separate cut
  | @line s m t line rest batchEnd taken steps ih =>
    cases run with
    | @cons _ c _ _ e _ out inner more =>
      rcases feedLine_eq_ok taken with ⟨c', e', inner', context, cols, chunks, _⟩
      rw [inner] at inner'
      cases inner'
      have here := cut [] line rest [] s.parser.context (e :: out) rfl (.nil _) rfl
      rw [List.append_nil] at here
      have next := (separate.flushed limits batchEnd line here).fed chunks cols
        (effect_headerRows (Context.feedLine_effect inner))
      rw [← context] at more
      have last := ih more next (by
        intro before line' after seen c' rest' same passed split starts
        rw [List.append_assoc]
        refine cut (line :: before) line' after (e :: seen) c' rest' (by simp [same]) ?_
          (by simp [split]) starts
        exact .cons inner (context ▸ passed))
      rwa [List.append_assoc] at last

theorem Steps.split {more : List Str} (steps : Steps limits s (lines ++ more) u) :
    ∃ t, Steps limits s lines t ∧ Steps limits t more u := by
  generalize whole : lines ++ more = all at steps
  induction steps generalizing lines with
  | nil s =>
    rcases List.append_eq_nil_iff.mp whole with ⟨rfl, rfl⟩
    exact ⟨s, .nil s, .nil s⟩
  | batch position _ deeper =>
    rcases deeper whole with ⟨t, first, second⟩
    exact ⟨t, .batch position first, second⟩
  | @line s t u line rest batchEnd taken after ih =>
    cases lines with
    | nil =>
      cases whole
      exact ⟨s, .nil s, .line batchEnd taken after⟩
    | cons head tail =>
      cases whole
      rcases ih rfl with ⟨t, first, second⟩
      exact ⟨t, .line batchEnd taken first, second⟩

theorem Steps.uncons {line : Str} {rest : List Str} (steps : Steps limits s (line :: rest) u) :
    ∃ (s' : Stream) (batchEnd : Nat) (t : Stream), s'.parser.context = s.parser.context ∧ s'.parser.cols = s.parser.cols ∧
      s'.chunks = s.chunks ∧ s'.feedLine limits batchEnd line = .ok t ∧ Steps limits t rest u := by
  generalize whole : line :: rest = all at steps
  induction steps with
  | nil => cases whole
  | batch position _ deeper => exact deeper whole
  | @line s t u line' rest' batchEnd taken after _ =>
    cases whole
    exact ⟨s, batchEnd, t, rfl, rfl, rfl, taken, after⟩

theorem Steps.traced (steps : Steps limits s lines t) :
    ∃ out, Traces Context.feedLine s.parser.context lines out t.parser.context := by
  induction steps with
  | nil s => exact ⟨[], .nil _⟩
  | batch position _ ih => exact ih
  | line batchEnd taken _ ih =>
    rcases feedLine_eq_ok taken with ⟨c, e, inner, context, _⟩
    rcases ih with ⟨out, run⟩
    exact ⟨e :: out, .cons inner (context ▸ run)⟩

theorem Steps.idle (steps : Steps limits s [] t) : t.parser.cols = s.parser.cols := by
  generalize none : [] = lines at steps
  induction steps with
  | nil => rfl
  | batch position _ ih => exact ih none
  | line => cases none

theorem flush_one {limits : Limits} (one : limits.flushRows = 1)
    (rows : limits.flushMaxBytes = none) (batchEnd : Nat) (s : Stream) (line : Str)
    (starts : s.parser.context.startsSample line = true) :
    (s.flush limits batchEnd line).parser.cols = [] := by
  cases cols : s.parser.cols with
  | nil =>
    rcases flush_cases limits batchEnd s line with ⟨kept, _⟩ | ⟨_, emptied, _⟩
    · rw [kept, cols]
    · exact emptied
  | cons row more =>
    have full : s.overLimit limits batchEnd = true := by simp [overLimit, rows, one, cols]
    have present : s.parser.hasRows = true := by simp [Parser.hasRows, cols]
    simp [flush, starts, full, present, Parser.emptied]

end Stream

end Runs

section Conserved

variable (startIdx : Nat) (exclude : List Str)

def samplesOf (lines : List Str) : List Nat :=
  samplesFrom 0 (outputs Context.feedLine (.init startIdx exclude) lines)

def Conserved (limits : Limits) (lines : List Str) : Prop :=
  ∀ whole, (Parser.init startIdx exclude).feedLines lines = .ok whole →
    ∃ s, parseStatsFileStreamingIncremental limits startIdx exclude lines = .ok s ∧
      s.chunks.flatMap Chunk.cols = whole.cols ∧
      ((s.chunks.map fun chunk => chunk.cols.length).splitLengths
        (samplesOf startIdx exclude lines)).Pairwise List.Disjoint ∧
      s.delivered = whole.marks.filter (·.bound.isSome)

def Unsplit (lines : List Str) : Prop :=
  ∀ before line after, lines = before ++ line :: after → startIdx ≤ before.length →
    Context.shortHeader line = true →
      List.Disjoint (samplesOf startIdx exclude before)
        ((samplesOf startIdx exclude lines).drop (samplesOf startIdx exclude before).length)

variable {startIdx : Nat} {exclude : List Str} {limits : Limits}

theorem splitLengths_flatten {α : Type} (parts : List (List α)) (more : List α) :
    (parts.map List.length).splitLengths (parts.flatten ++ more) = parts := by
  induction parts with
  | nil => rfl
  | cons part rest ih => simp [List.splitLengths_cons, ih]

theorem splitLengths_append {α : Type} (sizes others : List Nat) (l more : List α)
    (exact : sizes.sum = l.length) :
    (sizes ++ others).splitLengths (l ++ more) = sizes.splitLengths l ++ others.splitLengths more := by
  induction sizes generalizing l with
  | nil =>
    rw [List.length_eq_zero_iff.mp exact.symm]
    rfl
  | cons size rest ih =>
    rw [List.sum_cons] at exact
    have enough : size ≤ l.length := by omega
    have left : rest.sum = (l.drop size).length := by
      rw [List.length_drop]
      omega
    simp only [List.cons_append, List.splitLengths_cons]
    rw [List.take_append_of_le_length enough, List.drop_append_of_le_length enough, ih _ left]

theorem cut_between_samples {lines : List Str} {out : List Emit} {last : Context}
    (run : Traces Context.feedLine (.init startIdx exclude) lines out last)
    (unsplit : Unsplit startIdx exclude lines) :
    ∀ before line after seen c more, lines = before ++ line :: after →
      Traces Context.feedLine (.init startIdx exclude) before seen c → out = seen ++ more →
      c.startsSample line = true → headers seen ∈ samplesFrom 0 seen →
      headers seen ∉ samplesFrom (headers seen) more := by
  intro before line after seen c more lines_eq passed out_eq starts inside
  rw [lines_eq] at run
  rcases Traces.split run with ⟨c', seen', more', passed', rest, out_eq'⟩
  rcases passed.det passed' with ⟨rfl, rfl⟩
  have more_eq : more = more' := List.append_cancel_left (out_eq ▸ out_eq')
  subst more_eq
  cases rest with
  | @cons _ c'' _ _ e _ tail taken rest =>
    have effect := Context.feedLine_effect taken
    have silent : e = .nothing → samplesFrom (headers seen) (e :: tail) =
        samplesFrom (headers seen) tail := by
      intro none
      simp [none, samplesFrom, Emit.isBind, Emit.statsRows]
    cases effect with
    | ignored either =>
      rcases either with no | short
      · simp [starts] at no
      · have index := feedLines_index passed
        have reached : startIdx ≤ before.length := by
          simp only [Context.init] at index
          simp only [Context.startsSample] at starts
          cases head : (Text.lstrip line).head? with
          | none => simp [head] at starts
          | some first =>
            simp only [head, Option.elim_some, Bool.and_eq_true, decide_eq_true_eq] at starts
            omega
        have apart := unsplit before line after lines_eq reached short
        simp only [samplesOf, passed.outputs_eq] at apart
        rw [lines_eq, run.outputs_eq, out_eq, samplesFrom_append, List.drop_left] at apart
        rw [Nat.zero_add] at apart
        exact fun found => apart inside found
    | reject => exact quiet_of_closed rest rfl _
    | accept tags =>
      intro member
      simp only [samplesFrom, Emit.isBind, Emit.statsRows, List.length_nil, List.replicate_zero,
        List.nil_append, if_true] at member
      have := (samplesFrom_bounds _ _ _ member).1
      omega
    | rows _ _ _ _ other => simp [starts] at other
    | proc _ _ _ _ _ _ other => simp [starts] at other
    | schema _ _ _ other => simp [starts] at other
    | mark _ other => simp [starts] at other

namespace Stream

theorem finish_rows (s : Stream) :
    s.finish.chunks.flatMap Chunk.cols = s.chunks.flatMap Chunk.cols ++ s.parser.cols := by
  unfold finish
  split
  · simp [deliverMarks, Parser.chunk]
  · next none =>
      have empty : s.parser.cols = [] := by
        simp only [Parser.hasRows, Bool.or_eq_true, not_or, Bool.not_eq_true, Bool.not_eq_false',
          List.isEmpty_iff] at none
        exact none.1
      simp [empty]

theorem Separate.finished {s : Stream} {out : List Emit} (separate : Separate s out []) :
    ((s.finish.chunks.map fun chunk => chunk.cols.length).splitLengths
      (samplesFrom 0 out)).Pairwise List.Disjoint := by
  rcases separate with ⟨parts, buffered, sizes, size, whole, apart, _⟩
  unfold finish
  split
  · have cut := splitLengths_flatten (parts ++ [buffered]) []
    simp only [List.map_append, List.map_cons, List.map_nil, List.flatten_append,
      List.flatten_cons, List.flatten_nil, List.append_nil, sizes, size, whole] at cut
    simp only [deliverMarks, List.map_append, List.map_cons, List.map_nil, Parser.chunk, cut]
    exact apart
  · have cut := splitLengths_flatten parts buffered
    rw [sizes, whole] at cut
    rw [cut]
    exact (List.pairwise_append.mp apart).1

theorem finish_delivered {s : Stream} {marks : List Mark} (kept : MarksKept s marks)
    (settled : s.delivered = marks.filter (·.bound.isSome)) :
    s.finish.delivered = marks.filter (·.bound.isSome) := by
  unfold finish
  split
  · have parserMarks : MarksKept { s with
        parser := s.parser.emptied, chunks := s.chunks ++ [s.parser.chunk] } marks :=
      ⟨kept.all, kept.bound, kept.waiting⟩
    exact (parserMarks.delivery s.position).2
  · exact settled

theorem feedBatches_delivered {s t : Stream} {batches : List (List Str)} {out : List Emit}
    {marks : List Mark} (run : Traces Context.feedLine s.parser.context batches.flatten out
      t.parser.context)
    (folded : batches.foldlM (feedBatch limits) s = .ok t) (kept : MarksKept s marks)
    (settled : s.delivered = marks.filter (·.bound.isSome)) :
    t.delivered = (out.foldl Emit.intoMarks marks).filter (·.bound.isSome) := by
  induction batches generalizing s out marks with
  | nil =>
    cases folded
    cases run
    exact settled
  | cons batch rest ih =>
    rcases Traces.split run with ⟨middle, first, more, before, after, rfl⟩
    rcases feedLines_ok limits (s.position + (batch.map List.length).sum) before with
      ⟨m, inner, steps, context⟩
    have taken : s.feedBatch limits batch =
        .ok { m with position := s.position + (batch.map List.length).sum }.deliverMarks := by
      dsimp only [feedBatch]
      rw [inner]
      rfl
    rw [List.foldlM_cons, taken] at folded
    have marksKept := (steps.marks (context ▸ before) kept).delivery
      (s.position + (batch.map List.length).sum)
    rw [List.foldl_append]
    rw [← context] at after
    have onward : rest.foldlM (feedBatch limits)
        { m with position := s.position + (batch.map List.length).sum }.deliverMarks = .ok t :=
      folded
    refine ih ?_ onward marksKept.1 marksKept.2
    exact after

end Stream

variable {c : Context} {line : Str} {lines : List Str}

theorem stream_ok (limits : Limits) {out : List Emit}
    (run : Traces Context.feedLine (.init startIdx exclude) lines out c) :
    ∃ t, (slices limits.lineBatchSize lines).foldlM (Stream.feedBatch limits)
        (.init startIdx exclude) = .ok t ∧
      parseStatsFileStreamingIncremental limits startIdx exclude lines = .ok t.finish ∧
      Stream.Steps limits (.init startIdx exclude) lines t ∧ t.parser.context = c := by
  have batches : Traces Context.feedLine (Stream.init startIdx exclude).parser.context
      (slices limits.lineBatchSize lines).flatten out c := by
    rw [slices_flatten]
    exact run
  rcases Stream.feedBatches_ok limits batches with ⟨t, folded, steps, context⟩
  rw [slices_flatten] at steps
  refine ⟨t, folded, ?_, steps, context⟩
  unfold parseStatsFileStreamingIncremental
  rw [folded]
  rfl

theorem conserved_of_unsplit (unsplit : Unsplit startIdx exclude lines) :
    Conserved startIdx exclude limits lines := by
  intro whole parsed
  rcases Parser.feedLines_eq_ok.mp parsed with ⟨out, run, cols, _, marks⟩
  rcases stream_ok limits run with ⟨t, folded, streamed, steps, context⟩
  rw [← context] at run
  have start : Stream.Separate (Stream.init startIdx exclude) [] out :=
    ⟨[], [], rfl, rfl, rfl, by simp, by simp⟩
  have separate := steps.separate run start (cut_between_samples run unsplit)
  have initial : Stream.MarksKept (Stream.init startIdx exclude) [] :=
    ⟨rfl, by simp [Stream.init], by simp [Stream.init, Parser.init]⟩
  refine ⟨t.finish, streamed, ?_, ?_, ?_⟩
  · rcases steps.rows run with ⟨fresh, chunks, total⟩
    rw [Stream.finish_rows, chunks, cols]
    simpa [Stream.init, Parser.init] using total
  · have samples : samplesOf startIdx exclude lines = samplesFrom 0 out :=
      congrArg _ (Traces.outputs_eq run)
    rw [samples]
    exact separate.finished
  · rw [marks]
    have batches := slices_flatten limits.lineBatchSize lines
    exact Stream.finish_delivered (steps.marks run initial)
      (Stream.feedBatches_delivered (batches.symm ▸ run) folded initial rfl)

theorem startsSample_of_short (short : Context.shortHeader line = true)
    (reached : c.startIdx ≤ c.lineIndex) : c.startsSample line = true := by
  simp only [Context.shortHeader, Bool.and_eq_true] at short
  cases head : (Text.lstrip line).head? with
  | none => simp [head] at short
  | some first =>
    rw [head] at short
    simp [Context.startsSample, head, short.1, reached]

theorem startsSample_silent {c' : Context} {e : Emit}
    (starts : c.startsSample line = true) (taken : c.feedLine line = .ok (c', e)) :
    e.statsRows = [] := by
  have effect := Context.feedLine_effect taken
  cases effect with
  | rows _ _ _ _ other => simp [starts] at other
  | _ => rfl

theorem emptied_at_short {limits : Limits} (one : limits.flushRows = 1)
    (rows : limits.flushMaxBytes = none) {s t : Stream}
    (steps : Stream.Steps limits s [line] t) (short : Context.shortHeader line = true)
    (reached : s.parser.context.startIdx ≤ s.parser.context.lineIndex) :
    t.parser.cols = [] := by
  rcases steps.uncons with ⟨s', batchEnd, u, context, _, _, taken, idle⟩
  have starts := startsSample_of_short short reached
  rw [← context] at starts
  rcases Stream.feedLine_eq_ok taken with ⟨c, e, inner, _, cols, _⟩
  rw [idle.idle, cols, startsSample_silent starts inner,
    Stream.flush_one one rows batchEnd s' line starts]
  rfl

theorem finish_chunks (s : Stream) : ∃ last, s.finish.chunks = s.chunks ++ last := by
  unfold Stream.finish
  split
  · exact ⟨_, rfl⟩
  · exact ⟨[], by simp⟩

theorem sum_sizes (chunks : List Chunk) :
    (chunks.map fun chunk => chunk.cols.length).sum = (chunks.flatMap Chunk.cols).length :=
  List.length_flatMap.symm

theorem disjoint_of_cut {before after : List Nat} (early late : List Chunk)
    (left : (early.flatMap Chunk.cols).length = before.length)
    (right : (late.flatMap Chunk.cols).length = after.length)
    (apart : (((early ++ late).map fun chunk => chunk.cols.length).splitLengths
      (before ++ after)).Pairwise List.Disjoint) : List.Disjoint before after := by
  rw [← sum_sizes] at left right
  rw [List.map_append, splitLengths_append _ _ _ _ left] at apart
  have across := (List.pairwise_append.mp apart).2.2
  intro n inBefore inAfter
  rw [← List.flatten_splitLengths before _ left.ge, List.mem_flatten] at inBefore
  rw [← List.flatten_splitLengths after _ right.ge, List.mem_flatten] at inAfter
  rcases inBefore with ⟨part, member, inside⟩
  rcases inAfter with ⟨part', member', inside'⟩
  exact across part member part' member' inside inside'

theorem unsplit_of_conserved {whole : Parser}
    (parsed : (Parser.init startIdx exclude).feedLines lines = .ok whole)
    (conserved : ∀ limits, Conserved startIdx exclude limits lines) :
    Unsplit startIdx exclude lines := by
  intro before line after lines_eq reached short n inBefore inAfter
  rcases Parser.feedLines_eq_ok.mp parsed with ⟨out, run, _⟩
  rcases conserved ⟨1, none, 1, by omega⟩ whole parsed with ⟨s, streamed, _, apart, _⟩
  rcases stream_ok ⟨1, none, 1, by omega⟩ run with ⟨t, _, streamed', steps, context⟩
  rw [streamed] at streamed'
  cases streamed'
  have samples : samplesOf startIdx exclude lines = samplesFrom 0 out :=
    congrArg _ (Traces.outputs_eq run)
  -- the run up to the short line, the short line, and the rest
  have cut : lines = (before ++ [line]) ++ after := by simp [lines_eq]
  rw [cut] at steps
  rcases steps.split with ⟨u, upTo, onward⟩
  rcases upTo.split with ⟨m, first, shortStep⟩
  rcases first.traced with ⟨seen, passed⟩
  rcases shortStep.traced with ⟨lineOut, linePassed⟩
  rcases onward.traced with ⟨more, rest⟩
  have parts := passed.append (linePassed.append rest)
  rw [← List.append_assoc, ← cut] at parts
  rcases run.det parts with ⟨rfl, _⟩
  have index := feedLines_index passed
  have reached' : m.parser.context.startIdx ≤ m.parser.context.lineIndex := by
    rw [index.1, index.2]
    simpa [Stream.init, Parser.init, Context.init] using reached
  have emptied : u.parser.cols = [] := emptied_at_short rfl rfl shortStep short reached'
  rcases upTo.rows (passed.append linePassed) with ⟨early, earlyChunks, earlyRows⟩
  rcases onward.rows rest with ⟨late, lateChunks, lateRows⟩
  rcases finish_chunks t with ⟨last, lastChunks⟩
  have earlyAll : early.flatMap Chunk.cols = rowsOf (seen ++ lineOut) := by
    simpa [emptied, Stream.init, Parser.init] using earlyRows
  have lateAll : (late ++ last).flatMap Chunk.cols = rowsOf more := by
    have finished := Stream.finish_rows t
    rw [lastChunks, List.flatMap_append, List.append_cancel_left_eq] at finished
    rw [List.flatMap_append, finished, lateRows, emptied, List.nil_append]
  have chunks : t.finish.chunks = early ++ (late ++ last) := by
    rw [lastChunks, lateChunks, earlyChunks]
    simp [Stream.init]
  have silent : samplesFrom (headers seen) lineOut = [] := by
    cases linePassed with
    | cons taken none =>
      cases none
      simp [samplesFrom, startsSample_silent (startsSample_of_short short reached') taken]
  have before_eq : samplesOf startIdx exclude before = samplesFrom 0 seen :=
    congrArg _ (Traces.outputs_eq passed)
  rw [before_eq] at inBefore inAfter
  rw [samples, ← List.append_assoc, samplesFrom_append, samplesFrom_append 0 seen] at apart inAfter
  rw [Nat.zero_add, silent, List.append_nil] at apart inAfter
  rw [List.drop_left] at inAfter
  rw [chunks] at apart
  refine disjoint_of_cut early (late ++ last) ?_ ?_ apart inBefore inAfter
  · rw [earlyAll, ← samplesFrom_length 0, samplesFrom_append, Nat.zero_add, silent, List.append_nil]
  · rw [lateAll, samplesFrom_length]

/-- Streaming conserves a file under every setting exactly when its parse raises or no short
digit line stands between two rows of one sample. -/
theorem streaming_conserved_iff (startIdx : Nat) (exclude lines : List Str) :
    (∀ limits, Conserved startIdx exclude limits lines) ↔
      ((∃ whole, (Parser.init startIdx exclude).feedLines lines = .ok whole) →
        Unsplit startIdx exclude lines) := by
  constructor
  · intro conserved parses
    rcases parses with ⟨whole, parsed⟩
    exact unsplit_of_conserved parsed conserved
  · intro unsplit limits whole parsed
    exact conserved_of_unsplit (unsplit ⟨whole, parsed⟩) whole parsed

theorem streaming_splits_sample :
    ¬ ∀ limits, Conserved 0 excludeTypes limits
      [lit "!cpu user", lit "100 7 hosta", lit "cpu 0 5", lit "12", lit "cpu 1 6"] := by
  intro conserved
  have parses : ((Parser.init 0 excludeTypes).feedLines
      [lit "!cpu user", lit "100 7 hosta", lit "cpu 0 5", lit "12", lit "cpu 1 6"]).toBool = true :=
    by decide +kernel
  rcases found : (Parser.init 0 excludeTypes).feedLines
      [lit "!cpu user", lit "100 7 hosta", lit "cpu 0 5", lit "12", lit "cpu 1 6"] with _ | whole
  · simp [found, Except.toBool] at parses
  have apart := unsplit_of_conserved found conserved
    [lit "!cpu user", lit "100 7 hosta", lit "cpu 0 5"] (lit "12") [lit "cpu 1 6"] rfl
    (by decide) (by decide)
  have samples : samplesOf 0 excludeTypes [lit "!cpu user", lit "100 7 hosta", lit "cpu 0 5"] = [1] ∧
      samplesOf 0 excludeTypes
        [lit "!cpu user", lit "100 7 hosta", lit "cpu 0 5", lit "12", lit "cpu 1 6"] = [1, 1] := by
    decide +kernel
  rw [samples.1, samples.2] at apart
  exact apart (List.mem_singleton_self 1) (by simp)

end Conserved

end PerfStats.Feed
