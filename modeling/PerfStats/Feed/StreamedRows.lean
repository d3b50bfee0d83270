import PerfStats.Feed.Resume
import PerfStats.Feed.Streaming
import PerfStats.Frame.ChunkSeries
import PerfStats.Ingest.InsertArms

namespace PerfStats.Feed

open Lib PerfStats.Frame

variable {exclude lines : List Str} {startIdx : Nat} {c d : Context} {out : List Emit}

/-- The times of sample `n`, if a run starts inside it, and of those behind it. -/
def timesFrom (tags : Option Tags) (out : List Emit) : List (Option ℚ) :=
  tags.map Tags.time :: (headerTimes out).map some

def TimedBy (times : List (Option ℚ)) (n m : Nat) (r : StatsRow) : Prop :=
  n ≤ m ∧ times[m - n]? = some (some r.time)

theorem rows_timed (run : Traces Context.feedLine c lines out d) (n : Nat) :
    List.Forall₂ (TimedBy (timesFrom c.tags out) n) (samplesFrom n out) (rowsOf out) := by
  induction run generalizing n with
  | nil => exact .nil
  | @cons c t _ line e lines out taken rest ih =>
    have effect := Context.feedLine_effect taken
    cases effect with
    | rows tags rows _ header _ _ made =>
      change List.Forall₂ _ (List.replicate rows.length n ++ _) (rows ++ _)
      rw [← List.map_const']
      refine List.rel_append (List.forall₂_map_left_iff.mpr ?_) (ih n)
      refine List.forall₂_same.mpr fun r member => ⟨le_rfl, ?_⟩
      have own : r.time = tags.time := congrArg Tags.time (feedRow_made made r member).1
      simp [timesFrom, header, own]
    | accept tags =>
      refine (ih (n + 1)).imp fun m r timed => ?_
      obtain ⟨below, named⟩ := timed
      refine ⟨by omega, ?_⟩
      rw [show m - n = (m - (n + 1)) + 1 by omega]
      exact named
    | _ => exact ih n

theorem samplesFrom_times (run : Traces Context.feedLine (.init startIdx exclude) lines out d)
    (increasing : (headerTimes out).Pairwise (· < ·)) :
    samplesFrom 0 out = (rowsOf out).map fun r => (timesFrom none out).idxOf (some r.time) := by
  have distinct : (timesFrom none out).Nodup := List.nodup_cons.mpr
    ⟨by simp, List.Nodup.map (Option.some_injective ℚ) (increasing.imp ne_of_lt)⟩
  have numbered := (rows_timed run 0).imp (S := fun m r => m = (timesFrom none out).idxOf (some r.time))
    fun m r timed => by
      obtain ⟨inside, here⟩ := List.getElem?_eq_some_iff.mp timed.2
      rw [← here]
      exact (distinct.idxOf_getElem _ inside).symm
  rw [← List.forall₂_map_right_iff, List.forall₂_eq_eq_eq] at numbered
  exact numbered

def streamedRows (s : Stream) : List HostRow :=
  computeChunks (s.chunks.map fun chunk => chunk.cols.map StatsRow.hw) .empty

def wholeRows (whole : Parser) : List HostRow := computeDeltasAndArc (whole.cols.map StatsRow.hw)

/-- The host rows of a stream are `rows`, and cut into batches, sent again and inserted by any arm
they leave what one write of `rows` leaves. -/
def Stream.Lands (s : Stream) (rows : List HostRow) : Prop :=
  (streamedRows s).Perm rows ∧
    ∀ (stored : HostRow → Ingest.HostRow) (table : Ingest.HostTable)
      (batches : List (Ingest.InsertArm × List Ingest.HostRow)),
      Ingest.RepeatsEqual table (rows.map stored) →
      (∀ row, row ∈ Ingest.batchRows batches ↔ row ∈ (streamedRows s).map stored) →
      Ingest.insertHostBatches table batches =
        Ingest.insertHostBatches table [(.frame, rows.map stored)]

theorem Stream.lands {s : Stream} {rows : List HostRow} (perm : (streamedRows s).Perm rows) :
    s.Lands rows := by
  refine ⟨perm, fun stored table batches equal sent => ?_⟩
  have same := fun row => (sent row).trans (perm.map stored).mem_iff
  exact (Ingest.batches_merged same).agrees equal (Ingest.batches_merged (by simp [Ingest.batchRows]))

theorem unsplit_of_long (long : ∀ line ∈ lines, Context.shortHeader line = false) :
    Unsplit startIdx exclude lines := by
  rintro before line after rfl _ short
  simp [long line (by simp)] at short

section Whole

variable (limits : Limits) {whole : Parser}
  (parsed : (Parser.init startIdx exclude).feedLines lines = .ok whole)
  (increasing :
    (headerTimes (outputs Context.feedLine (.init startIdx exclude) lines)).Pairwise (· < ·))
  (unsplit : Unsplit startIdx exclude lines)

include parsed increasing unsplit

theorem streamed_rows_perm :
    ∃ s, parseStatsFileStreamingIncremental limits startIdx exclude lines = .ok s ∧
      (streamedRows s).Perm (wholeRows whole) := by
  obtain ⟨s, streamed, cols, apart, _⟩ := @conserved_of_unsplit _ _ limits _ unsplit whole parsed
  obtain ⟨out, run, all, _⟩ := Parser.feedLines_eq_ok.mp parsed
  have same : outputs Context.feedLine (.init startIdx exclude) lines = out := run.outputs_eq
  rw [same] at increasing
  have ordered := (rows_ordered run increasing).1
  rw [samplesOf, same, samplesFrom_times run increasing] at apart
  let number := fun r : StatsRow => (timesFrom none out).idxOf (some r.time)
  have parts := splitLengths_flatten (s.chunks.map fun chunk => chunk.cols.map number) []
  rw [show rowsOf out = s.chunks.flatMap Chunk.cols from (cols.trans all).symm] at ordered apart
  simp only [List.append_nil, List.map_map, Function.comp_def, List.length_map,
    ← List.flatMap_def, ← List.map_flatMap] at parts
  rw [parts, List.pairwise_map] at apart
  have sorted := (List.pairwise_flatMap.mp ordered).2
  have file : CutAtSamples (s.chunks.map fun chunk => chunk.cols.map StatsRow.hw) := by
    constructor
    · rw [← List.flatMap_def, ← List.map_flatMap, List.pairwise_map]
      exact ordered
    · refine List.pairwise_map.mpr ((sorted.and apart).imp fun {xs ys} both => ?_)
      simp only [List.forall_mem_map]
      intro a inFirst b inLater
      refine lt_of_le_of_ne (both.1 a inFirst b inLater) fun same => ?_
      have alike : number a = number b :=
        congrArg (fun t => (timesFrom none out).idxOf (some t)) same
      exact both.2 (List.mem_map_of_mem inFirst) (alike ▸ List.mem_map_of_mem inLater)
  refine ⟨s, streamed, ?_⟩
  have rows := computeChunks_perm_series _ .empty file.inSeries
  rwa [← computeDeltasAndArc_eq, ← List.flatMap_def, ← List.map_flatMap, cols] at rows

/-- However a file is flushed, it gives the rows of the whole file. -/
theorem streamed_rows_whole :
    ∃ s, parseStatsFileStreamingIncremental limits startIdx exclude lines = .ok s ∧
      s.Lands (wholeRows whole) := by
  obtain ⟨s, streamed, rows⟩ := streamed_rows_perm limits parsed increasing unsplit
  exact ⟨s, streamed, Stream.lands rows⟩

end Whole

def twoSamples : List Str :=
  [lit "!cpu user", lit "100 7 hosta", lit "cpu 0 5", lit "200 7 hosta", lit "cpu 0 8"]

theorem streamed_rows_whole_two : ∃ whole s,
    (Parser.init 0 excludeTypes).feedLines twoSamples = .ok whole ∧
    parseStatsFileStreamingIncremental ⟨1, none, 1, by decide⟩ 0 excludeTypes twoSamples = .ok s ∧
      (streamedRows s).Perm (wholeRows whole) := by
  have parses : ((Parser.init 0 excludeTypes).feedLines twoSamples).toBool = true := by
    decide +kernel
  cases parsed : (Parser.init 0 excludeTypes).feedLines twoSamples with
  | error => simp [parsed, Except.toBool] at parses
  | ok whole =>
    obtain ⟨s, streamed, rows, _⟩ := streamed_rows_whole ⟨1, none, 1, by decide⟩ parsed
      (by decide +kernel) (unsplit_of_long (by decide))
    exact ⟨whole, s, rfl, streamed, rows⟩

end PerfStats.Feed
