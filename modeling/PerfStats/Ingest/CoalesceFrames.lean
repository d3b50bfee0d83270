import PerfStats.Lib.Dict
import PerfStats.Lib.FileWrites
import PerfStats.Text

namespace PerfStats.Ingest

open Lib

/-- What a frame carries as `stats`: COPY text, or rows of another shape. -/
inductive FrameStats (σ : Type*) where
  | copy (host proc : Bytes)
  | other (rows : σ)
  deriving DecidableEq

/-- A decoded parse frame; `fields` are the keys that nothing here looks at. -/
structure ParseFrame (σ μ ρ : Type*) where
  stats : FrameStats σ
  marks : List μ
  eof : Bool
  parsedHostRows : Option Int
  fields : Dict Str ρ

namespace FrameStats

variable {σ : Type*}

def hostCopy : FrameStats σ → Bytes
  | .copy host _ => host
  | .other _ => []

def procCopy : FrameStats σ → Bytes
  | .copy _ proc => proc
  | .other _ => []

def isCopy : FrameStats σ → Bool
  | .copy _ _ => true
  | .other _ => false

end FrameStats

variable {σ μ ρ : Type*}

namespace ParseFrame

def hostItems (f : ParseFrame σ μ ρ) : List (UInt8 ⊕ σ) :=
  match f.stats with
  | .copy host _ => host.map .inl
  | .other rows => [.inr rows]

def procPayload (f : ParseFrame σ μ ρ) : List Bytes :=
  if f.stats.procCopy = [] then [] else [f.stats.procCopy]

def emptyCopy (f : ParseFrame σ μ ρ) : Bool :=
  f.stats.isCopy && decide (f.stats.hostCopy = []) && decide (f.stats.procCopy = []) &&
    decide (f.parsedHostRows.getD 0 = 0)

def procOnly (f : ParseFrame σ μ ρ) : ParseFrame σ μ ρ :=
  { f with stats := .copy [] f.stats.procCopy, marks := [], eof := false, parsedHostRows := some 0 }

def procFrames (f : ParseFrame σ μ ρ) : List (ParseFrame σ μ ρ) :=
  if f.stats.procCopy = [] then [] else [f.procOnly]

def merge (pend : Option (ParseFrame σ μ ρ)) (f : ParseFrame σ μ ρ) : ParseFrame σ μ ρ :=
  let base := pend.elim { f with stats := .copy [] [], marks := [], parsedHostRows := none }
    fun p => { p with
      eof := f.eof
      fields := f.fields.entries.foldl (fun fields e => fields.set e.1 e.2) p.fields }
  { base with
    parsedHostRows := f.parsedHostRows.elim base.parsedHostRows fun parsed =>
      some (base.parsedHostRows.getD 0 + parsed)
    stats := .copy (base.stats.hostCopy ++ f.stats.hostCopy) []
    marks := base.marks ++ f.marks }

end ParseFrame

def popenParseFileFrames : List (ParseFrame σ μ ρ) → List (ParseFrame σ μ ρ)
  | [] => []
  | frame :: rest =>
    (if frame.eof && frame.emptyCopy then [] else [frame]) ++
      if frame.eof then [] else popenParseFileFrames rest

def coalesceFrom (minRows : Int) : Option (ParseFrame σ μ ρ) → Nat → List (ParseFrame σ μ ρ) →
    List (ParseFrame σ μ ρ)
  | pend, _, [] => pend.toList
  | pend, rows, frame :: rest =>
    if minRows ≤ 1 ∨ frame.stats.isCopy = false then
      pend.toList ++ frame :: coalesceFrom minRows none 0 rest
    else
      let proc := frame.procFrames
      let merged := ParseFrame.merge pend frame
      let rows := rows + frame.stats.hostCopy.count 10
      if minRows ≤ rows ∨ frame.eof = true then
        proc ++ merged :: coalesceFrom minRows none 0 rest
      else proc ++ coalesceFrom minRows (some merged) rows rest

def coalesceHostRows (minRows : Int) (frames : List (ParseFrame σ μ ρ)) :
    List (ParseFrame σ μ ρ) := coalesceFrom minRows none 0 frames

structure Carried (σ μ : Type*) where
  host : List (UInt8 ⊕ σ)
  proc : List Bytes
  marks : List μ
  parsed : Int
  ends : Nat

def carriedBy (frames : List (ParseFrame σ μ ρ)) : Carried σ μ :=
  ⟨frames.flatMap ParseFrame.hostItems, frames.flatMap ParseFrame.procPayload,
    frames.flatMap ParseFrame.marks, (frames.map fun f => f.parsedHostRows.getD 0).sum,
    frames.countP ParseFrame.eof⟩

section Carried

def Carried.append (a b : Carried σ μ) : Carried σ μ :=
  ⟨a.host ++ b.host, a.proc ++ b.proc, a.marks ++ b.marks, a.parsed + b.parsed, a.ends + b.ends⟩

def Carried.nothing : Carried σ μ := ⟨[], [], [], 0, 0⟩

theorem carriedBy_append (frames more : List (ParseFrame σ μ ρ)) :
    carriedBy (frames ++ more) = (carriedBy frames).append (carriedBy more) := by
  simp [carriedBy, Carried.append]

theorem carriedBy_cons (f : ParseFrame σ μ ρ) (rest : List (ParseFrame σ μ ρ)) :
    carriedBy (f :: rest) = (carriedBy [f]).append (carriedBy rest) :=
  carriedBy_append [f] rest

@[simp] theorem carriedBy_nil : carriedBy ([] : List (ParseFrame σ μ ρ)) = .nothing := rfl

@[simp] theorem Carried.nothing_append (a : Carried σ μ) : Carried.nothing.append a = a := by
  simp [Carried.append, Carried.nothing]

@[simp] theorem Carried.append_nothing (a : Carried σ μ) : a.append Carried.nothing = a := by
  simp [Carried.append, Carried.nothing]

theorem Carried.append_assoc (a b c : Carried σ μ) :
    (a.append b).append c = a.append (b.append c) := by
  simp [Carried.append, add_assoc]

end Carried

section Coalesce

variable {frame : ParseFrame σ μ ρ}

def Waiting (pend : Option (ParseFrame σ μ ρ)) : Prop :=
  ∀ p ∈ pend, p.stats.isCopy = true ∧ p.stats.procCopy = [] ∧ p.eof = false

theorem carriedBy_procFrames (f : ParseFrame σ μ ρ) :
    carriedBy f.procFrames = ⟨[], f.procPayload, [], 0, 0⟩ := by
  unfold ParseFrame.procFrames ParseFrame.procPayload
  by_cases none : f.stats.procCopy = []
  · rw [if_pos none, if_pos none]
    rfl
  · have own : f.procOnly.procPayload = [f.stats.procCopy] := if_neg none
    have carried : carriedBy [f.procOnly] = ⟨[], f.procOnly.procPayload, [], 0, 0⟩ := by
      simp only [carriedBy, List.flatMap_singleton]
      rfl
    rw [if_neg none, if_neg none, carried, own]

theorem carriedBy_merge {pend : Option (ParseFrame σ μ ρ)} (waiting : Waiting pend)
    (copy : frame.stats.isCopy = true) :
    carriedBy (frame.procFrames ++ [ParseFrame.merge pend frame]) =
      (carriedBy pend.toList).append (carriedBy [frame]) := by
  rw [carriedBy_append, carriedBy_procFrames]
  rcases frame with ⟨stats, marks, eof, parsed, fields⟩
  cases stats with
  | other rows => cases copy
  | copy host proc =>
    cases pend with
    | none =>
      cases parsed <;>
        simp [carriedBy, Carried.append, ParseFrame.merge, ParseFrame.hostItems,
          ParseFrame.procPayload, FrameStats.hostCopy, FrameStats.procCopy]
    | some p =>
      obtain ⟨isCopy, empty, unfinished⟩ := waiting p rfl
      rcases p with ⟨pstats, pmarks, peof, pparsed, pfields⟩
      cases pstats with
      | other rows => cases isCopy
      | copy phost pproc =>
        subst empty unfinished
        cases parsed <;>
          simp [carriedBy, Carried.append, ParseFrame.merge, ParseFrame.hostItems,
            ParseFrame.procPayload, FrameStats.hostCopy, FrameStats.procCopy]

variable (pend : Option (ParseFrame σ μ ρ))

theorem merge_eof (frame : ParseFrame σ μ ρ) : (ParseFrame.merge pend frame).eof = frame.eof := by
  cases pend <;> rfl

theorem waiting_merge
    (unfinished : frame.eof = false) : Waiting (some (ParseFrame.merge pend frame)) := by
  intro p same
  cases same
  exact ⟨rfl, rfl, (merge_eof pend frame).trans unfinished⟩

theorem coalesceFrom_carries (minRows : Int) (frames : List (ParseFrame σ μ ρ)) (rows : Nat)
    {pend : Option (ParseFrame σ μ ρ)} (waiting : Waiting pend) :
    carriedBy (coalesceFrom minRows pend rows frames) =
      (carriedBy pend.toList).append (carriedBy frames) := by
  induction frames generalizing pend rows with
  | nil => simp [coalesceFrom]
  | cons frame rest ih =>
    have idle : Waiting (none : Option (ParseFrame σ μ ρ)) := nofun
    rw [coalesceFrom, carriedBy_cons frame rest]
    by_cases passes : minRows ≤ 1 ∨ frame.stats.isCopy = false
    · rw [if_pos passes, carriedBy_append, carriedBy_cons, ih 0 idle]
      simp
    · rw [if_neg passes]
      rw [not_or, Bool.not_eq_false] at passes
      have merged := carriedBy_merge waiting passes.2
      dsimp only
      rw [← Carried.append_assoc, ← merged]
      split
      · rw [List.append_cons, carriedBy_append, ih 0 idle]
        simp
      · next stays =>
          rw [not_or, Bool.not_eq_true] at stays
          rw [carriedBy_append, ih _ (waiting_merge pend stays.2), carriedBy_append,
            Carried.append_assoc]
          rfl

theorem coalesceFrom_last (minRows : Int) (frames : List (ParseFrame σ μ ρ)) (rows : Nat)
    (pend : Option (ParseFrame σ μ ρ)) :
    (coalesceFrom minRows pend rows frames).getLast?.map ParseFrame.eof =
      (pend.toList ++ frames).getLast?.map ParseFrame.eof := by
  induction frames generalizing pend rows with
  | nil => simp [coalesceFrom]
  | cons frame rest ih =>
    rw [coalesceFrom]
    have after : ∀ (front : List (ParseFrame σ μ ρ)) (f : ParseFrame σ μ ρ) (n : Nat),
        f.eof = frame.eof →
        (front ++ f :: coalesceFrom minRows none n rest).getLast?.map ParseFrame.eof =
          (pend.toList ++ frame :: rest).getLast?.map ParseFrame.eof := by
      intro front f n same
      have tail := ih n none
      rw [Option.toList_none, List.nil_append] at tail
      rw [List.getLast?_append_cons, List.getLast?_append_cons, List.getLast?_cons,
        List.getLast?_cons, Option.map_some, Option.map_some]
      cases last : (coalesceFrom minRows none n rest).getLast? with
      | none =>
        rw [last] at tail
        rw [Option.map_eq_none_iff.mp tail.symm, Option.getD_none, Option.getD_none, same]
      | some g =>
        rw [last] at tail
        obtain ⟨h, found, equal⟩ := Option.map_eq_some_iff.mp tail.symm
        rw [found, Option.getD_some, Option.getD_some, equal]
    dsimp only
    split
    · exact after _ frame 0 rfl
    · split
      · exact after _ _ 0 (merge_eof pend frame)
      · rw [List.getLast?_append, Option.map_or, ih]
        have tail : ∀ f : ParseFrame σ μ ρ, f.eof = frame.eof →
            ((some f).toList ++ rest).getLast?.map ParseFrame.eof =
              (frame :: rest).getLast?.map ParseFrame.eof := by
          intro f same
          rw [Option.toList_some, List.singleton_append, List.getLast?_cons, List.getLast?_cons]
          cases rest.getLast? with
          | none => simp [same]
          | some g => rfl
        rw [tail _ (merge_eof pend frame), List.getLast?_append, Option.map_or, List.getLast?_cons]
        rfl

end Coalesce

section Worker

variable {front : List (ParseFrame σ μ ρ)}

def WorkerStream (sent : List (ParseFrame σ μ ρ)) : Prop :=
  ∃ front last, sent = front ++ [last] ∧ last.eof = true ∧ ∀ f ∈ front, f.eof = false

theorem popen_unfinished (unfinished : ∀ f ∈ front, f.eof = false)
    (rest : List (ParseFrame σ μ ρ)) :
    popenParseFileFrames (front ++ rest) = front ++ popenParseFileFrames rest := by
  induction front with
  | nil => rfl
  | cons f front ih =>
    obtain ⟨here, later⟩ := List.forall_mem_cons.mp unfinished
    rw [List.cons_append, popenParseFileFrames, here, ih later]
    rfl

theorem countP_eof_unfinished
    (unfinished : ∀ f ∈ front, f.eof = false) : front.countP ParseFrame.eof = 0 := by
  apply List.countP_eq_zero.mpr
  intro f member
  rw [unfinished f member]
  decide

theorem carriedBy_emptyCopy {f : ParseFrame σ μ ρ} (empty : f.emptyCopy = true) :
    f.hostItems = [] ∧ f.procPayload = [] ∧ f.parsedHostRows.getD 0 = 0 := by
  rcases f with ⟨stats, marks, eof, parsed, fields⟩
  simp only [ParseFrame.emptyCopy, Bool.and_eq_true, decide_eq_true_eq] at empty
  obtain ⟨⟨⟨copy, host⟩, proc⟩, counted⟩ := empty
  cases stats with
  | other rows => cases copy
  | copy own text =>
    subst host proc
    exact ⟨rfl, rfl, counted⟩

theorem final_of_carried {frames : List (ParseFrame σ μ ρ)}
    (once : frames.countP ParseFrame.eof = 1)
    (last : frames.getLast?.map ParseFrame.eof = some true) : WorkerStream frames := by
  obtain ⟨final, found, ends⟩ := Option.map_eq_some_iff.mp last
  obtain ⟨front, rfl⟩ := List.getLast?_eq_some_iff.mp found
  refine ⟨front, final, rfl, ends, ?_⟩
  rw [List.countP_append, List.countP_singleton, if_pos ends, Nat.add_eq_right,
    List.countP_eq_zero] at once
  intro f member
  exact Bool.eq_false_iff.mpr (once f member)

theorem coalesceHostRows_carries (minRows : Int) (frames : List (ParseFrame σ μ ρ)) :
    carriedBy (coalesceHostRows minRows frames) = carriedBy frames := by
  have idle : Waiting (none : Option (ParseFrame σ μ ρ)) := nofun
  have all := coalesceFrom_carries minRows frames 0 idle
  rwa [Option.toList_none, carriedBy_nil, Carried.nothing_append] at all

theorem popen_carries {sent : List (ParseFrame σ μ ρ)} (stream : WorkerStream sent) :
    ((∃ f ∈ sent, f.eof = true ∧ f.emptyCopy = true) ∧
        carriedBy (popenParseFileFrames sent) = { carriedBy sent with
          marks := (popenParseFileFrames sent).flatMap ParseFrame.marks, ends := 0 }) ∨
      ((∀ f ∈ sent, f.eof = true → f.emptyCopy = false) ∧ popenParseFileFrames sent = sent) := by
  obtain ⟨front, last, rfl, ends, unfinished⟩ := stream
  have handed : popenParseFileFrames (front ++ [last]) =
      front ++ if last.emptyCopy then [] else [last] := by
    rw [popen_unfinished unfinished, popenParseFileFrames, ends, Bool.true_and, if_pos rfl,
      List.append_nil]
  rw [handed]
  cases empty : last.emptyCopy with
  | true =>
    obtain ⟨noRows, noProc, uncounted⟩ := carriedBy_emptyCopy empty
    left
    refine ⟨⟨last, List.mem_append_right front (.head _), ends, empty⟩, ?_⟩
    simp [carriedBy, noRows, noProc, uncounted, countP_eof_unfinished unfinished]
  | false =>
    right
    refine ⟨?_, rfl⟩
    intro f member final
    cases List.mem_append.mp member with
    | inl early =>
      rw [unfinished f early] at final
      cases final
    | inr late => rw [List.mem_singleton.mp late, empty]

/-- Merged or not, frames carry the same rows, proc payloads, marks and counts in the same order,
and as many final frames. -/
theorem coalesced_stream (minRows : Int) (frames : List (ParseFrame σ μ ρ)) :
    carriedBy (coalesceHostRows minRows frames) = carriedBy frames ∧
      ∀ sent : List (ParseFrame σ μ ρ), WorkerStream sent → frames = popenParseFileFrames sent →
        (coalesceHostRows minRows frames).flatMap ParseFrame.hostItems =
            sent.flatMap ParseFrame.hostItems ∧
          (coalesceHostRows minRows frames).flatMap ParseFrame.procPayload =
            sent.flatMap ParseFrame.procPayload ∧
          ((coalesceHostRows minRows frames).map fun f => f.parsedHostRows.getD 0).sum =
            (sent.map fun f => f.parsedHostRows.getD 0).sum ∧
          ((∃ f ∈ sent, f.eof = true ∧ f.emptyCopy = true) →
            ∀ f ∈ coalesceHostRows minRows frames, f.eof = false) ∧
          ((∀ f ∈ sent, f.eof = true → f.emptyCopy = false) →
            frames = sent ∧ WorkerStream (coalesceHostRows minRows frames)) := by
  have own := coalesceHostRows_carries minRows frames
  refine ⟨own, fun sent stream handed => ?_⟩
  have host := congrArg Carried.host own
  have proc := congrArg Carried.proc own
  have parsed := congrArg Carried.parsed own
  have finals := congrArg Carried.ends own
  cases popen_carries stream with
  | inl withheld =>
    obtain ⟨⟨final, member, ends, empty⟩, carried⟩ := withheld
    rw [← handed] at carried
    rw [carried] at host proc parsed finals
    refine ⟨host, proc, parsed, ?_, ?_⟩
    · intro _ f inside
      exact Bool.eq_false_iff.mpr (List.countP_eq_zero.mp finals f inside)
    · intro held
      have kept := held final member ends
      rw [empty] at kept
      cases kept
  | inr passed =>
    obtain ⟨nonempty, same⟩ := passed
    rw [same] at handed
    subst handed
    refine ⟨host, proc, parsed, ?_, ?_⟩
    · intro found
      obtain ⟨f, member, final, empty⟩ := found
      rw [nonempty f member final] at empty
      cases empty
    · intro _
      obtain ⟨front, last, rfl, ends, unfinished⟩ := stream
      refine ⟨rfl, final_of_carried ?_ ?_⟩
      · refine finals.trans ?_
        change (front ++ [last]).countP ParseFrame.eof = 1
        rw [List.countP_append, countP_eof_unfinished unfinished, List.countP_singleton,
          if_pos ends]
      · have behind := coalesceFrom_last minRows (front ++ [last]) 0 none
        rw [Option.toList_none, List.nil_append, List.getLast?_concat, Option.map_some,
          ends] at behind
        exact behind

def rowFrame (eof : Bool) : ParseFrame Unit Unit Unit :=
  ⟨.copy [97, 10] [112, 10], [()], eof, some 1, .empty⟩

def blankFrame : ParseFrame Unit Unit Unit := ⟨.copy [] [], [], true, some 0, .empty⟩

theorem workerStream_two (last : ParseFrame Unit Unit Unit) (ends : last.eof = true) :
    WorkerStream [rowFrame false, last] :=
  ⟨[rowFrame false], last, rfl, ends, fun f member => by rw [List.mem_singleton.mp member]; rfl⟩

theorem coalesced_stream_two :
    WorkerStream (coalesceHostRows 5 [rowFrame false, rowFrame true]) ∧
      (coalesceHostRows 5 [rowFrame false, rowFrame true]).map (fun f => f.stats) =
        [.copy [] [112, 10], .copy [] [112, 10], .copy [97, 10, 97, 10] []] :=
  ⟨(((coalesced_stream 5 [rowFrame false, rowFrame true]).2 _
    (workerStream_two (rowFrame true) rfl) rfl).2.2.2.2 (by decide)).2, by decide⟩

theorem coalesced_stream_unfinished :
    ¬ ∀ (minRows : Int) (sent : List (ParseFrame Unit Unit Unit)), WorkerStream sent →
      WorkerStream (coalesceHostRows minRows (popenParseFileFrames sent)) := by
  intro claim
  obtain ⟨front, last, same, ends, -⟩ := claim 5 _ (workerStream_two blankFrame rfl)
  have unfinished : ∀ f ∈ coalesceHostRows 5 (popenParseFileFrames [rowFrame false, blankFrame]),
      f.eof = false := by decide
  have final := unfinished last (by rw [same]; exact List.mem_append_right front (.head _))
  rw [ends] at final
  cases final

end Worker

end PerfStats.Ingest
