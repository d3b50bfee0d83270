import PerfStats.Monitor.RingRuns

namespace PerfStats.Monitor

open Lib Lib.LinkHeap

section Payloads

structure Line where
  val : Bytes
  some_text : val ≠ []
  single : 10 ∉ val
  no_nul : 0 ∉ val

def Line.text (line : Line) : Bytes := line.val ++ [10]

/-- A payload: the lines of `stats_wr_hdr`, if called, and what `stats_buffer_collect` adds: a stamp
line, marks and rows. -/
structure DumpPayload where
  hdr : List Line
  stamp : Line
  rest : List Line
  dollar : ∀ line ∈ hdr.head?, line.val.head? = some 36
  digit : ∀ b ∈ stamp.val.head?, isDigitByte b = true

namespace DumpPayload

def hdrText (p : DumpPayload) : Bytes := p.hdr.flatMap Line.text

def sampleText (p : DumpPayload) : Bytes := (p.stamp :: p.rest).flatMap Line.text

/-- `sf_data`: in front of the stamp line stands a newline. -/
def text (p : DumpPayload) : Bytes := p.hdrText ++ 10 :: p.sampleText

end DumpPayload

end Payloads

section Dump

/-- The payloads that `save_file_ring_buffer` writes out, one node after the other. -/
def saveFrom (w : SfRingBuffer Bytes) : Nat → Option Addr → Except Unit Bytes
  | 0, _ => .error ()
  | fuel + 1, node => do
      let cell ← w.heap.read node
      if cell.forward = w.qFirst then return cell.val.takeWhile (· ≠ 0)
      let rest ← saveFrom w fuel cell.forward
      return cell.val.takeWhile (· ≠ 0) ++ rest

/-- Into a new file; an empty ring writes none. -/
def saveFileRingBuffer (w : SfRingBuffer Bytes) : Except Unit (Option Bytes) :=
  if w.qCount = 0 then .ok none
  else do
    let file ← saveFrom w w.qCount.toNat w.qFirst
    return some file

/-- Where `ring_buffer_load_file` is in its file. -/
structure Load where
  w : SfRingBuffer Bytes
  sfData : Bytes
  statsStart : Bool
  nStats : Nat

def loadLine (memory : Nat → Option Addr) (allowOverwrite : Bool) (s : Load) (line : Bytes) :
    Except Unit (Load × Bool) :=
  if line.head? = some 10 then
    if s.statsStart then do
      let (w, rc, _) ← ringBufferInsert some s.w s.sfData (-1) allowOverwrite (memory s.nStats)
      return ({ s with w := w, sfData := [], nStats := s.nStats + 1 }, decide (0 ≤ rc))
    else .ok (s, true)
  else .ok ({ s with sfData := s.sfData ++ line.takeWhile (· ≠ 0), statsStart := true }, true)

/-- The ring, `sf` and the flag when the file is read, or nothing where an insert failed. -/
def loadLines (memory : Nat → Option Addr) (allowOverwrite : Bool) :
    Load → List Bytes → Except Unit (Load × Bool)
  | s, [] => .ok (s, true)
  | s, line :: lines => do
      let (s, fine) ← loadLine memory allowOverwrite s line
      if fine then loadLines memory allowOverwrite s lines else return (s, false)

def ringBufferLoadFile (w : SfRingBuffer Bytes) (memory : Nat → Option Addr)
    (allowOverwrite : Bool) (file : Bytes) : Except Unit (SfRingBuffer Bytes × Int) := do
  let (s, fine) ← loadLines memory allowOverwrite ⟨w, [], false, 0⟩ (getlines file)
  if !fine then return (s.w, -1)
  let (w, rc, _) ← ringBufferInsert some s.w s.sfData (-1) allowOverwrite (memory s.nStats)
  return (w, rc)

end Dump

section Lines

theorem getlines_line {line rest : Bytes} (single : 10 ∉ line) :
    getlines (line ++ 10 :: rest) = (line ++ [10]) :: getlines rest := by
  induction line with
  | nil => rfl
  | cons b line ih =>
    have here : b ≠ 10 := fun same => single (same ▸ (.head _))
    have later := ih fun member => single (.tail b member)
    rw [List.cons_append, getlines, if_neg here, later]
    rfl

theorem getlines_lines (lines : List Line) (rest : Bytes) :
    getlines (lines.flatMap Line.text ++ rest) = lines.map Line.text ++ getlines rest := by
  induction lines with
  | nil => rfl
  | cons line lines ih =>
    rw [List.flatMap_cons, Line.text, List.append_assoc, List.append_assoc, List.singleton_append,
      getlines_line line.single, ih, List.map_cons]
    rfl

def DumpPayload.lines (p : DumpPayload) : List Bytes :=
  p.hdr.map Line.text ++ [10] :: (p.stamp :: p.rest).map Line.text

variable (p : DumpPayload)

theorem getlines_payload (rest : Bytes) :
    getlines (p.text ++ rest) = p.lines ++ getlines rest := by
  have blank : getlines (10 :: (p.sampleText ++ rest)) =
      [10] :: getlines (p.sampleText ++ rest) := rfl
  rw [DumpPayload.text, DumpPayload.hdrText, List.append_assoc, List.cons_append, getlines_lines,
    blank, DumpPayload.sampleText, getlines_lines, DumpPayload.lines, List.append_assoc]
  rfl

theorem getlines_payloads (ps : List DumpPayload) :
    getlines (ps.flatMap DumpPayload.text) = ps.flatMap DumpPayload.lines := by
  induction ps with
  | nil => rfl
  | cons p ps ih => rw [List.flatMap_cons, getlines_payload, ih, List.flatMap_cons]

theorem Line.no_zero (line : Line) : 0 ∉ line.text := by
  rw [Line.text, List.mem_append]
  rintro (member | member)
  · exact line.no_nul member
  · simp at member

theorem takeWhile_text (text : Bytes) (plain : 0 ∉ text) : text.takeWhile (· ≠ 0) = text := by
  rw [List.takeWhile_eq_self_iff]
  intro b member
  have other : b ≠ 0 := fun same => plain (same ▸ member)
  simpa using other

theorem DumpPayload.no_zero : 0 ∉ p.text := by
  rw [DumpPayload.text, List.mem_append, List.mem_cons]
  rintro (member | impossible | member)
  · obtain ⟨line, _, inside⟩ := List.mem_flatMap.mp member
    exact line.no_zero inside
  · simp at impossible
  · obtain ⟨line, _, inside⟩ := List.mem_flatMap.mp member
    exact line.no_zero inside

theorem solid_of_digit : ∀ b : UInt8, isDigitByte b = true → isSpaceByte b = false ∧ b ≠ 36 := by
  decide +kernel

theorem DumpPayload.sample_head : ∃ b text, p.sampleText = b :: text ∧ isDigitByte b = true := by
  obtain ⟨b, line, written⟩ := List.exists_cons_of_ne_nil p.stamp.some_text
  refine ⟨b, line ++ [10] ++ p.rest.flatMap Line.text, ?_, p.digit b (by rw [written]; rfl)⟩
  rw [DumpPayload.sampleText, List.flatMap_cons, Line.text, written]
  rfl

theorem DumpPayload.isSchema_iff : isSchemaPayload some p.text = true ↔ p.hdr ≠ [] := by
  rw [isSchemaPayload, decide_eq_true_iff, DumpPayload.text, DumpPayload.hdrText]
  cases header : p.hdr with
  | nil =>
    obtain ⟨b, text, stamp, digit⟩ := p.sample_head
    obtain ⟨solid, plain⟩ := solid_of_digit b digit
    rw [stamp]
    simp [show isSpaceByte 10 = true from rfl, solid, plain]
  | cons first lines =>
    obtain ⟨b, line, written⟩ := List.exists_cons_of_ne_nil first.some_text
    have dollar : b = 36 := by
      have given := p.dollar first (by rw [header]; rfl)
      rw [written] at given
      simpa using given
    rw [List.flatMap_cons, Line.text, written, dollar]
    simp [show isSpaceByte 36 = false from rfl]

end Lines

section Save

variable {w : SfRingBuffer Bytes} {l s t : List Addr}

theorem saveFrom_spec (linked : WellLinked w (s ++ t)) (some_left : t ≠ []) {fuel : Nat}
    (enough : t.length ≤ fuel) :
    saveFrom w fuel t.head? = .ok ((vals w.heap t).flatMap fun p => p.takeWhile (· ≠ 0)) := by
  induction t generalizing s fuel with
  | nil => exact absurd rfl some_left
  | cons a t ih =>
    obtain ⟨cell, found, _, forward, values⟩ := linked.ring.cell
    cases fuel with
    | zero => simp at enough
    | succ fuel =>
      rw [List.head?_cons, saveFrom]
      simp only [found, bind, Except.bind, pure, Except.pure]
      cases t with
      | nil =>
        have back : cell.forward = w.qFirst := by rw [forward, linked.first, List.nil_append]
        rw [if_pos back, values]
        simp [vals]
      | cons b t =>
        have ahead : cell.forward ≠ w.qFirst := by
          rw [forward, List.cons_append, List.head?_cons]
          exact linked.behind
        have later := ih (s := s ++ [a]) (by simpa using linked) (by simp)
          (show (b :: t).length ≤ fuel by simpa using enough)
        rw [List.head?_cons] at later
        rw [if_neg ahead, forward, List.cons_append, List.head?_cons, later, values]
        rfl

theorem saveFileRingBuffer_spec (linked : WellLinked w l) {ps : List DumpPayload}
    (held : pending w = ps.map DumpPayload.text) :
    saveFileRingBuffer w = .ok (if ps = [] then none else some (ps.flatMap DumpPayload.text)) := by
  have whole := linked.pending_eq
  have count := linked.count_pending
  rw [held, List.length_map] at count
  rw [saveFileRingBuffer]
  by_cases nothing : ps = []
  · rw [if_pos nothing, if_pos (by rw [count, nothing]; rfl)]
  · have some_nodes : l ≠ [] := by
      rintro rfl
      rw [held] at whole
      exact nothing (List.map_eq_nil_iff.mp whole)
    have some_held : w.qCount ≠ 0 := by
      rw [count]
      simpa using nothing
    have enough : l.length ≤ w.qCount.toNat := by
      rw [linked.count]
      simp
    have saved := saveFrom_spec (s := []) linked some_nodes enough
    rw [← linked.first, ← whole, held, List.flatMap_map] at saved
    have texts : (ps.flatMap fun p => p.text.takeWhile (· ≠ 0)) = ps.flatMap DumpPayload.text := by
      refine congrArg (List.flatMap · ps) (funext fun p => ?_)
      exact takeWhile_text p.text p.no_zero
    rw [if_neg nothing, if_neg some_held, saved]
    simp only [bind, Except.bind, pure, Except.pure]
    rw [texts]

end Save

section Load

/-- What is put in for the lines of a file: those between two blank ones, joined. A blank first line
is skipped; the last text is put in even if empty. -/
def cutLines : Bytes → Bool → List Bytes → List Bytes
  | acc, _, [] => [acc]
  | acc, started, line :: lines =>
    if line.head? = some 10 then
      if started then acc :: cutLines [] true lines else cutLines acc false lines
    else cutLines (acc ++ line.takeWhile (· ≠ 0)) true lines

variable {l : List Addr}

variable (alloc : Nat ↪ Addr) (allowOverwrite : Bool) {w : SfRingBuffer Bytes}

theorem calloc_given {n : Nat}
    (linked : WellLinked w l) (nodes : ∀ i, alloc i ∈ l → i < n) :
    callocNode w.heap (some (alloc n)) = some (alloc n) := by
  have unused : alloc n ∉ l := fun member => Nat.lt_irrefl _ (nodes _ member)
  have empty := (linked.ring.cells (alloc n)).not.mpr unused
  rw [callocNode, Option.filter_eq_some_iff]
  simpa [valOf] using empty

theorem nodes_append {n : Nat} (nodes : ∀ i, alloc i ∈ l → i < n) :
    ∀ i, alloc i ∈ l ++ [alloc n] → i < n + 1 := by
  intro i member
  obtain inside | last := List.mem_append.mp member
  · exact Nat.lt_succ_of_lt (nodes i inside)
  · have same : i = n := alloc.injective (List.mem_singleton.mp last)
    omega

theorem load_insert {n : Nat}
    (sf : Bytes) (linked : WellLinked w l) (nodes : ∀ i, alloc i ∈ l → i < n) :
    ∃ w', ringBufferInsert some w sf (-1) allowOverwrite (some (alloc n)) = .ok (w', 0, none) ∧
      WellLinked w' (l ++ [alloc n]) ∧ pending w' = pending w ++ [sf] := by
  have room : w.qCount = 0 ∨ ¬ ((-1 : Int) ≤ w.qCount ∧ (-1 : Int) ≠ -1) := .inr (by simp)
  obtain ⟨w', result, linked', values, _⟩ :=
    insert_new some linked sf room allowOverwrite (calloc_given alloc linked nodes)
  exact ⟨w', result, linked', values⟩

theorem loadLines_spec (lines : List Bytes)
    {s : Load} (linked : WellLinked s.w l) (nodes : ∀ i, alloc i ∈ l → i < s.nStats) :
    ∃ t l', loadLines (fun i => some (alloc i)) allowOverwrite s lines = .ok (t, true) ∧
      WellLinked t.w l' ∧ (∀ i, alloc i ∈ l' → i < t.nStats) ∧
      pending t.w ++ [t.sfData] = pending s.w ++ cutLines s.sfData s.statsStart lines := by
  induction lines generalizing s l with
  | nil => exact ⟨s, l, rfl, linked, nodes, rfl⟩
  | cons line lines ih =>
    rw [loadLines, loadLine, cutLines]
    by_cases blank : line.head? = some 10
    · rw [if_pos blank, if_pos blank]
      cases started : s.statsStart with
      | false =>
        have later := ih linked nodes
        rw [started] at later
        exact later
      | true =>
        obtain ⟨w, result, linked', values⟩ :=
          load_insert alloc allowOverwrite s.sfData linked nodes
        have later := ih (s := { s with w := w, sfData := [], nStats := s.nStats + 1 }) linked'
          (nodes_append alloc nodes)
        simp only [if_true, result, bind, Except.bind, pure, Except.pure, Int.le_refl,
          decide_true]
        rw [started, values, List.append_assoc] at later
        exact later
    · rw [if_neg blank, if_neg blank]
      exact ih (s := { s with
        sfData := s.sfData ++ line.takeWhile (· ≠ 0), statsStart := true }) linked nodes

theorem ringBufferLoadFile_spec (file : Bytes) :
    ∃ w l, ringBufferLoadFile .empty (fun i => some (alloc i)) allowOverwrite file = .ok (w, 0) ∧
      WellLinked w l ∧ pending w = cutLines [] false (getlines file) := by
  obtain ⟨s, l, result, linked, nodes, values⟩ :=
    loadLines_spec alloc allowOverwrite (getlines file)
      (s := ⟨(.empty : SfRingBuffer Bytes), [], false, 0⟩) .empty
      (fun i member => absurd member List.not_mem_nil)
  obtain ⟨w, inserted, linked', values'⟩ := load_insert alloc allowOverwrite s.sfData linked nodes
  refine ⟨w, _, ?_, linked', values'.trans values⟩
  rw [ringBufferLoadFile, result]
  simp only [bind, Except.bind, pure, Except.pure, inserted, Bool.not_true, Bool.false_eq_true,
    if_false]

end Load

section Replay

def dumpAndLoad (w : SfRingBuffer Bytes) (memory : Nat → Option Addr) (allowOverwrite : Bool) :
    Except Unit (SfRingBuffer Bytes × Int) := do
  match ← saveFileRingBuffer w with
  | none => return (.empty, 0)
  | some file => ringBufferLoadFile .empty memory allowOverwrite file

def DumpPayload.stripped (p : DumpPayload) : Bytes := p.text.dropWhile (· = 10)

def heldBack : Bytes → List DumpPayload → List Bytes
  | acc, [] => [acc]
  | acc, p :: ps => (acc ++ p.hdrText) :: heldBack p.sampleText ps

theorem Line.head_solid (line : Line) : line.text.head? ≠ some 10 := by
  obtain ⟨b, rest, written⟩ := List.exists_cons_of_ne_nil line.some_text
  rw [Line.text, written]
  intro same
  have newline : b = 10 := by simpa using same
  exact line.single (by rw [written, newline]; exact .head _)

variable (acc : Bytes) (p : DumpPayload) (ps : List DumpPayload)

theorem cutLines_close (lines : List Bytes) :
    cutLines acc true ([10] :: lines) = acc :: cutLines [] true lines := by
  rw [cutLines, List.head?_cons, if_pos rfl, if_pos rfl]

theorem cutLines_skip (lines : List Bytes) :
    cutLines acc false ([10] :: lines) = cutLines acc false lines := by
  rw [cutLines, List.head?_cons, if_pos rfl, if_neg Bool.false_ne_true]

theorem cutLines_lines (lines : List Line) (rest : List Bytes) :
    cutLines acc true (lines.map Line.text ++ rest) =
      cutLines (acc ++ lines.flatMap Line.text) true rest := by
  induction lines generalizing acc with
  | nil => simp
  | cons line lines ih =>
    rw [List.map_cons, List.cons_append, cutLines, if_neg line.head_solid, ih,
      takeWhile_text _ line.no_zero, List.flatMap_cons, List.append_assoc]

theorem cutLines_first (started : Bool) (line : Line) (lines : List Line) (rest : List Bytes) :
    cutLines acc started ((line :: lines).map Line.text ++ rest) =
      cutLines (acc ++ (line :: lines).flatMap Line.text) true rest := by
  rw [List.map_cons, List.cons_append, cutLines, if_neg line.head_solid,
    takeWhile_text _ line.no_zero, cutLines_lines, List.flatMap_cons, List.append_assoc]

theorem cutLines_payloads :
    cutLines acc true (ps.flatMap DumpPayload.lines) = heldBack acc ps := by
  induction ps generalizing acc with
  | nil => rfl
  | cons p ps ih =>
    rw [List.flatMap_cons, DumpPayload.lines, List.append_assoc, cutLines_lines, List.cons_append,
      cutLines_close, cutLines_first, List.nil_append]
    rw [heldBack, ← ih]
    rfl

theorem cutLines_file : cutLines [] false ((p :: ps).flatMap DumpPayload.lines) =
      (if p.hdr = [] then [] else [p.hdrText]) ++ heldBack p.sampleText ps := by
  rw [List.flatMap_cons, DumpPayload.lines, List.append_assoc]
  cases header : p.hdr with
  | nil =>
    rw [if_pos rfl, List.map_nil, List.nil_append, List.cons_append, cutLines_skip,
      cutLines_first, List.nil_append, cutLines_payloads]
    rfl
  | cons line lines =>
    rw [if_neg (List.cons_ne_nil line lines), cutLines_first, List.cons_append, cutLines_close,
      cutLines_first, cutLines_payloads, DumpPayload.hdrText, header]
    rfl

theorem heldBack_length : (heldBack acc ps).length = ps.length + 1 := by
  induction ps generalizing acc with
  | nil => rfl
  | cons p ps ih => rw [heldBack, List.length_cons, ih, List.length_cons]

theorem DumpPayload.hdrText_nil : p.hdrText = [] ↔ p.hdr = [] := by
  constructor
  · intro nothing
    rw [DumpPayload.hdrText, List.flatMap_eq_nil_iff] at nothing
    refine List.eq_nil_iff_forall_not_mem.mpr fun line member => ?_
    have empty := nothing line member
    rw [Line.text] at empty
    simp at empty
  · intro nothing
    rw [DumpPayload.hdrText, nothing, List.flatMap_nil]

theorem DumpPayload.stripped_plain (plain : p.hdr = []) : p.stripped = p.sampleText := by
  obtain ⟨b, text, stamp, digit⟩ := p.sample_head
  have solid : b ≠ 10 := by
    rintro rfl
    exact absurd digit (by decide)
  rw [DumpPayload.stripped, DumpPayload.text, p.hdrText_nil.mpr plain, List.nil_append, stamp,
    List.dropWhile_cons_of_pos (by simp), List.dropWhile_cons_of_neg (by simpa using solid)]

theorem heldBack_iff :
    heldBack acc ps = acc :: ps.map DumpPayload.stripped ↔ ∀ p ∈ ps, p.hdr = [] := by
  induction ps generalizing acc with
  | nil => simp [heldBack]
  | cons p ps ih =>
    rw [heldBack, List.map_cons, List.forall_mem_cons, List.cons.injEq]
    constructor
    · intro ⟨here, later⟩
      have plain : p.hdr = [] := by
        rw [← p.hdrText_nil]
        simpa using here
      rw [p.stripped_plain plain, ih] at later
      exact ⟨plain, later⟩
    · intro ⟨plain, later⟩
      rw [p.hdrText_nil.mpr plain, List.append_nil, p.stripped_plain plain, ih]
      exact ⟨rfl, later⟩

theorem cutLines_iff (some_held : ps ≠ []) :
    cutLines [] false (ps.flatMap DumpPayload.lines) = ps.map DumpPayload.stripped ↔
      ∀ p ∈ ps, p.hdr = [] := by
  cases ps with
  | nil => exact absurd rfl some_held
  | cons p ps =>
    rw [cutLines_file, List.map_cons, List.forall_mem_cons]
    by_cases plain : p.hdr = []
    · rw [if_pos plain, List.nil_append, p.stripped_plain plain, heldBack_iff]
      exact ⟨fun later => ⟨plain, later⟩, fun whole => whole.2⟩
    · rw [if_neg plain]
      constructor
      · intro same
        have longer := congrArg List.length same
        rw [List.length_append, heldBack_length, List.length_cons, List.length_cons,
          List.length_map] at longer
        simp at longer
      · intro whole
        exact absurd whole.1 plain

theorem DumpPayload.stripped_ne_nil : p.stripped ≠ [] := by
  obtain ⟨b, text, stamp, digit⟩ := p.sample_head
  intro nothing
  rw [DumpPayload.stripped, List.dropWhile_eq_nil_iff] at nothing
  have member : b ∈ p.text := by
    rw [DumpPayload.text, stamp]
    simp
  have newline : b = 10 := by simpa using nothing b member
  rw [newline] at digit
  exact absurd digit (by decide)

/-- The dump is read back as written, up to newlines in front of a payload and empty ones, exactly
where no payload in the ring starts with a schema. -/
theorem ring_dump_replays_iff (alloc : Nat ↪ Addr) (allowOverwrite : Bool)
    (w : SfRingBuffer Bytes) (l : List Addr) (ps : List DumpPayload) (linked : WellLinked w l)
    (held : pending w = ps.map DumpPayload.text) :
    ∃ w' l', dumpAndLoad w (fun i => some (alloc i)) allowOverwrite = .ok (w', 0) ∧
      WellLinked w' l' ∧
      ((pending w' = ps.map DumpPayload.stripped ∧ ∀ p ∈ pending w', p ≠ []) ↔
        ∀ p ∈ ps, isSchemaPayload some p.text = false) := by
  have plain_iff : (∀ p ∈ ps, isSchemaPayload some p.text = false) ↔ ∀ p ∈ ps, p.hdr = [] := by
    refine forall₂_congr fun p _ => ?_
    rw [← Bool.not_eq_true, p.isSchema_iff, not_not]
  have saved := saveFileRingBuffer_spec linked held
  rw [plain_iff]
  by_cases nothing : ps = []
  · refine ⟨.empty, [], ?_, .empty, ?_⟩
    · rw [dumpAndLoad, saved, if_pos nothing]
      rfl
    · rw [nothing]
      simp [WellLinked.empty.pending_eq, vals]
  · obtain ⟨w', l', result, linked', values⟩ :=
      ringBufferLoadFile_spec alloc allowOverwrite (ps.flatMap DumpPayload.text)
    rw [getlines_payloads] at values
    refine ⟨w', l', ?_, linked', ?_⟩
    · rw [dumpAndLoad, saved, if_neg nothing]
      exact result
    · rw [values, ← cutLines_iff ps nothing]
      refine ⟨fun whole => whole.1, fun same => ⟨same, fun text member => ?_⟩⟩
      rw [same] at member
      obtain ⟨p, _, rfl⟩ := List.mem_map.mp member
      exact p.stripped_ne_nil

def plainSample : DumpPayload where
  hdr := []
  stamp := ⟨[49, 32, 45, 32, 104], by decide, by decide, by decide⟩
  rest := [⟨[109, 101, 109, 32, 48, 32, 55], by decide, by decide, by decide⟩]
  dollar := by decide +kernel
  digit := by decide +kernel

def schemaSample : DumpPayload := { plainSample with
  hdr := [⟨[36, 104, 112, 99], by decide, by decide, by decide⟩,
    ⟨[33, 109, 101, 109, 32, 107], by decide, by decide, by decide⟩]
  dollar := by decide +kernel }

def ringOfOne (text : Bytes) : SfRingBuffer Bytes :=
  ⟨some 0, some 0, 0, 1, 0, 0, fun a => if a = 0 then some ⟨some 0, some 0, text⟩ else none⟩

theorem ringOfOne_linked (text : Bytes) : WellLinked (ringOfOne text) [0] := by
  refine ⟨⟨.singleton 0, ?_, by simp, fun a => ?_⟩, rfl, rfl, rfl⟩
  · intro z last a first
    obtain rfl : 0 = z := by simpa using last
    obtain rfl : 0 = a := by simpa using first
    exact ⟨rfl, rfl⟩
  · by_cases here : a = 0 <;> simp [ringOfOne, valOf, here]

theorem ring_dump_replays_iff_sample :
    ∃ w' l', dumpAndLoad (ringOfOne plainSample.text) (fun i => some i) false = .ok (w', 0) ∧
      WellLinked w' l' ∧
      ((pending w' = [plainSample].map DumpPayload.stripped ∧ ∀ p ∈ pending w', p ≠ []) ↔
        ∀ p ∈ [plainSample], isSchemaPayload some p.text = false) :=
  ring_dump_replays_iff (Function.Embedding.refl Nat) false _ [0] [plainSample]
    (ringOfOne_linked plainSample.text) rfl

def ringOf (ps : List DumpPayload) : Except Unit (SfRingBuffer Bytes) :=
  ps.zipIdx.foldlM (fun w p => do
    let inserted ← ringBufferInsert some w p.1.text (-1) false (some p.2)
    return inserted.1) .empty

def replayed (ps : List DumpPayload) : Except Unit (List Bytes) := do
  let w ← ringOf ps
  let (w, _) ← dumpAndLoad w (fun i => some i) false
  return pending w

theorem schema_split_off :
    (replayed [schemaSample]).toOption = some [schemaSample.hdrText, plainSample.sampleText] ∧
      (replayed [plainSample, schemaSample]).toOption =
        some [plainSample.sampleText ++ schemaSample.hdrText, plainSample.sampleText] ∧
      [schemaSample].map DumpPayload.stripped ≠
        [schemaSample.hdrText, plainSample.sampleText] ∧
      [plainSample, schemaSample].map DumpPayload.stripped ≠
        [plainSample.sampleText ++ schemaSample.hdrText, plainSample.sampleText] := by
  decide +kernel

end Replay

end PerfStats.Monitor
