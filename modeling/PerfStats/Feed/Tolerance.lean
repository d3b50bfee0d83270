import PerfStats.Lib.Failing
import PerfStats.Feed.TailScan
import PerfStats.Feed.StartIndex

namespace PerfStats.Feed

open Lib Text

section Tolerance

variable [Interpreter]

section Counters

/-- An infinite number that is no `int`; `int(float(raw))` of it raises. -/
def Infinite (raw : Str) : Prop := parseInt raw = none ∧ ¬ Finite raw

theorem procValue_returns (raw : Str) : (∃ v, procValue raw = .ok v) ↔ ¬ Infinite raw := by
  unfold procValue Infinite Finite
  cases parseInt raw with
  | some n => simp
  | none =>
    cases Num.parse raw with
    | none => simp
    | some number => cases number <;> simp

def procField (fields : Dict Str (Option Int)) (pair : Str × Str) :
    Except ParseError (Dict Str (Option Int)) :=
  if pair.1 ∈ hostProcKeys then do
    let value ← procValue pair.2
    return fields.set pair.1 value
  else .ok fields

theorem procFields_eq (bare vals : List Str) :
    procFields bare vals = (bare.zip vals).foldlM procField .empty := rfl

theorem procField_returns (fields : Dict Str (Option Int)) (pair : Str × Str) :
    (∃ next, procField fields pair = .ok next) ↔
      (pair.1 ∈ hostProcKeys → ¬ Infinite pair.2) := by
  unfold procField
  by_cases known : pair.1 ∈ hostProcKeys
  · rw [if_pos known, bind_returns, ← procValue_returns]
    constructor
    · intro returns _
      obtain ⟨value, read, -⟩ := returns
      exact ⟨value, read⟩
    · intro returns
      obtain ⟨value, read⟩ := returns known
      exact ⟨value, read, _, rfl⟩
  · rw [if_neg known]
    exact ⟨fun _ inside => absurd inside known, fun _ => ⟨fields, rfl⟩⟩

theorem procFields_returns (bare vals : List Str) :
    (∃ fields, procFields bare vals = .ok fields) ↔
      ∀ pair ∈ bare.zip vals, pair.1 ∈ hostProcKeys → ¬ Infinite pair.2 := by
  rw [procFields_eq]
  generalize Dict.empty = fields
  induction bare.zip vals generalizing fields with
  | nil => exact ⟨fun _ _ member => absurd member List.not_mem_nil, fun _ => ⟨fields, rfl⟩⟩
  | cons pair rest ih =>
    rw [List.foldlM_cons, bind_returns, List.forall_mem_cons, ← procField_returns fields]
    constructor
    · intro returns
      obtain ⟨next, read, later⟩ := returns
      exact ⟨⟨next, read⟩, (ih next).mp later⟩
    · intro returns
      obtain ⟨⟨next, read⟩, later⟩ := returns
      exact ⟨next, read, (ih next).mpr later⟩

/-- A counter has a name: a fixed one, or one from a control register in front of it; `seen` are the
registers so far. -/
def counterNamed (eventmap : EventMap) (seen : List Str) (eve : Str) : Prop :=
  if contains (lit "FIXED_CTR") eve then (eventmap.fixed.lookup eve).isSome = true
  else if contains (lit "CTR") eve then lstripChars (lit "CTR") eve ∈ seen
  else True

def countersNamed (eventmap : EventMap) : List Str → List Str → Prop
  | _, [] => True
  | seen, token :: rest =>
    let eve := schemaKeyBasename token
    if contains (lit "CTL") eve then
      countersNamed eventmap (lstripChars (lit "CTL") eve :: seen) rest
    else counterNamed eventmap seen eve ∧ countersNamed eventmap seen rest

def controlIndices : Nat → List Str → List Nat
  | _, [] => []
  | idx, token :: rest =>
    if contains (lit "CTL") (schemaKeyBasename token) then
      idx :: controlIndices (idx + 1) rest
    else controlIndices (idx + 1) rest

theorem step_counter (eventmap : EventMap) (vals : List Str) (token : Str) (scan : CounterScan)
    (idx : Nat) {seen : List Str} (known : ∀ name, (scan.names.get? name).isSome ↔ name ∈ seen)
    (counter : contains (lit "CTL") (schemaKeyBasename token) = false) :
    (counterNamed eventmap seen (schemaKeyBasename token) ∧
        ∃ next, scan.step eventmap vals idx token = .ok next ∧ next.names = scan.names ∧
          next.removed = scan.removed) ∨
      (¬ counterNamed eventmap seen (schemaKeyBasename token) ∧
        ∃ err, scan.step eventmap vals idx token = .error err) := by
  unfold CounterScan.step counterNamed
  simp only [counter, Bool.false_eq_true, if_false]
  split
  · cases eventmap.fixed.lookup (schemaKeyBasename token) with
    | some event => exact .inl ⟨rfl, _, rfl, rfl, rfl⟩
    | none => exact .inr ⟨by simp, _, rfl⟩
  · split
    · rw [← known]
      cases scan.names.get? (lstripChars (lit "CTR") (schemaKeyBasename token)) with
      | some event => exact .inl ⟨rfl, _, rfl, rfl, rfl⟩
      | none => exact .inr ⟨by simp, _, rfl⟩
    · exact .inl ⟨trivial, _, rfl, rfl, rfl⟩

theorem run_returns (eventmap : EventMap) (vals : List Str) (tokens : List Str) (scan : CounterScan)
    (idx : Nat) (seen : List Str) (known : ∀ name, (scan.names.get? name).isSome ↔ name ∈ seen) :
    ((∃ last, CounterScan.run eventmap vals scan idx tokens = .ok last) ↔
        countersNamed eventmap seen tokens) ∧
      ∀ last, CounterScan.run eventmap vals scan idx tokens = .ok last →
        last.removed = scan.removed ++ controlIndices idx tokens := by
  induction tokens generalizing scan idx seen with
  | nil =>
    refine ⟨by simp [CounterScan.run, countersNamed], fun last done => ?_⟩
    cases done
    simp [controlIndices]
  | cons token rest ih =>
    have plain : ∀ (next : CounterScan) (named : List Str),
        scan.step eventmap vals idx token = .ok next →
        (∀ name, (next.names.get? name).isSome ↔ name ∈ named) →
        ((∃ last, CounterScan.run eventmap vals scan idx (token :: rest) = .ok last) ↔
            countersNamed eventmap named rest) ∧
          ∀ last, CounterScan.run eventmap vals scan idx (token :: rest) = .ok last →
            last.removed = next.removed ++ controlIndices (idx + 1) rest := by
      intro next named stepped held
      rw [CounterScan.run, stepped]
      exact ih next (idx + 1) named held
    have raised : ∀ err, scan.step eventmap vals idx token = .error err →
        ∀ last, CounterScan.run eventmap vals scan idx (token :: rest) ≠ .ok last := by
      intro err stepped last done
      rw [CounterScan.run, stepped] at done
      cases done
    by_cases control : contains (lit "CTL") (schemaKeyBasename token) = true
    · have stepped : ∃ next, scan.step eventmap vals idx token = .ok next ∧
          next.removed = scan.removed ++ [idx] ∧ ∀ name, (next.names.get? name).isSome ↔
            name ∈ lstripChars (lit "CTL") (schemaKeyBasename token) :: seen := by
        refine ⟨_, if_pos control, rfl, fun name => ?_⟩
        rw [Dict.get?_set, List.mem_cons, ← known name]
        split <;> simp_all
      obtain ⟨next, stepped, cut, held⟩ := stepped
      obtain ⟨returns, removed⟩ := plain next _ stepped held
      refine ⟨?_, fun last done => ?_⟩
      · rw [countersNamed, if_pos control]
        exact returns
      · rw [removed last done, cut, controlIndices, if_pos control, List.append_assoc]
        rfl
    · have indices : controlIndices idx (token :: rest) = controlIndices (idx + 1) rest := by
        rw [controlIndices, if_neg control]
      rw [countersNamed, if_neg control, indices]
      cases step_counter eventmap vals token scan idx known (Bool.eq_false_iff.mpr control) with
      | inl taken =>
        obtain ⟨named, next, stepped, names, cut⟩ := taken
        obtain ⟨returns, removed⟩ := plain next seen stepped (by rw [names]; exact known)
        rw [cut] at removed
        exact ⟨returns.trans (iff_and_self.mpr fun _ => named), removed⟩
      | inr refused =>
        obtain ⟨unnamed, err, stepped⟩ := refused
        refine ⟨⟨fun returns => ?_, fun both => absurd both.1 unnamed⟩, fun last done => ?_⟩
        · obtain ⟨last, done⟩ := returns
          exact absurd done (raised err stepped last)
        · exact absurd done (raised err stepped last)

omit [Interpreter] in
theorem controlIndices_bounds (idx : Nat) (tokens : List Str) :
    (controlIndices idx tokens).Pairwise (· < ·) ∧ ∀ i ∈ controlIndices idx tokens, idx ≤ i := by
  induction tokens generalizing idx with
  | nil => exact ⟨.nil, fun i member => absurd member List.not_mem_nil⟩
  | cons token rest ih =>
    obtain ⟨ordered, above⟩ := ih (idx + 1)
    unfold controlIndices
    split
    · refine ⟨List.pairwise_cons.mpr ⟨fun i member => above i member, ordered⟩, fun i member => ?_⟩
      cases List.mem_cons.mp member with
      | inl same => exact same.ge
      | inr later => exact (Nat.le_succ idx).trans (above i later)
    · exact ⟨ordered, fun i member => (Nat.le_succ idx).trans (above i member)⟩

omit [Interpreter] in
theorem deleteIndices_returns {indices : List Nat} (ordered : indices.Pairwise (· > ·))
    (vals : List Str) :
    (∃ left, deleteIndices indices vals = .ok left) ↔ ∀ idx ∈ indices, idx < vals.length := by
  induction indices generalizing vals with
  | nil => simp [deleteIndices]
  | cons idx rest ih =>
    obtain ⟨largest, ordered⟩ := List.pairwise_cons.mp ordered
    rw [deleteIndices, List.forall_mem_cons]
    by_cases inside : idx < vals.length
    · rw [if_pos inside, ih ordered]
      have shorter : (vals.eraseIdx idx).length = vals.length - 1 := by
        rw [List.length_eraseIdx, if_pos inside]
      constructor
      · intro all
        refine ⟨inside, fun i member => ?_⟩
        have := all i member
        omega
      · intro all i member
        have := largest i member
        omega
    · rw [if_neg inside]
      simp [inside]

def Decodable (eventmap : EventMap) (tokens vals : List Str) : Prop :=
  countersNamed eventmap [] tokens ∧ ∀ idx ∈ controlIndices 0 tokens, idx < vals.length

theorem mapHardwareCounterVals_returns (tokens vals : List Str) (eventmap : EventMap) :
    (∃ events, mapHardwareCounterVals tokens vals eventmap = .ok events) ↔
      Decodable eventmap tokens vals := by
  have scanned := run_returns eventmap vals tokens ⟨.empty, [], []⟩ 0 [] (by simp)
  have backward : (controlIndices 0 tokens).reverse.Pairwise (· > ·) :=
    List.pairwise_reverse.mpr (controlIndices_bounds 0 tokens).1
  unfold mapHardwareCounterVals Decodable
  rw [bind_returns, ← scanned.1]
  constructor
  · intro returns
    obtain ⟨last, done, later⟩ := returns
    obtain ⟨left, deleted, -⟩ := bind_returns.mp later
    rw [scanned.2 last done, List.nil_append] at deleted
    refine ⟨⟨last, done⟩, fun idx member => ?_⟩
    exact (deleteIndices_returns backward vals).mp ⟨left, deleted⟩ idx (List.mem_reverse.mpr member)
  · intro decodable
    obtain ⟨⟨last, done⟩, inside⟩ := decodable
    refine ⟨last, done, bind_returns.mpr ?_⟩
    rw [scanned.2 last done, List.nil_append]
    obtain ⟨left, deleted⟩ := (deleteIndices_returns backward vals).mpr fun idx member =>
      inside idx (List.mem_reverse.mp member)
    exact ⟨left, deleted, _, rfl⟩

end Counters

def Emit.procRows : Emit → List ProcRow
  | .proc row => [row]
  | _ => []

section Rows

def ProcType (type : Str) : Prop := type = lit "proc" ∨ type = lit "host_proc"

instance (type : Str) : Decidable (ProcType type) := by unfold ProcType; infer_instance

def Context.rowKeys (c : Context) (type : Str) (vals : List Str) : Option (List Str) :=
  let fast := decide ((tierMarker vals).1 = .fast)
  if ProcType type then some (c.procBareKeysFor type fast).1
  else (c.schema.get? type).map fun tokens => if fast then fastSchemaKeys tokens else tokens

def Miscounted (c : Context) (type : Str) (vals : List Str) : Prop :=
  ∃ keys, c.rowKeys type vals = some keys ∧ (tierMarker vals).2.length ≠ keys.length

structure Legacy (c : Context) (type : Str) (vals tokens : List Str) (eventmap : EventMap) :
    Prop where
  hardware : ¬ ProcType type
  schema : c.schema.get? type = some tokens
  legacy : schemaNeedsLegacyHardwareDecode type tokens = true
  whole : (tierMarker vals).1 ≠ .fast
  mapped : eventmapsByType.lookup type = some eventmap

inductive RowFault (c : Context) (type : Str) (vals : List Str) : Prop where
  | infinite (keys : List Str) (pair : Str × Str) (proc : ProcType type)
      (read : c.rowKeys type vals = some keys) (member : pair ∈ keys.zip (tierMarker vals).2)
      (known : pair.1 ∈ hostProcKeys) (infinite : Infinite pair.2)
  | counted (proc : ProcType type) (other : Miscounted c type vals)
  | undecodable (tokens : List Str) (eventmap : EventMap)
      (legacy : Legacy c type vals tokens eventmap)
      (unnamed : ¬ Decodable eventmap tokens (tierMarker vals).2)
  | truncated (tokens : List Str) (eventmap : EventMap) (events : Dict Str Str)
      (legacy : Legacy c type vals tokens eventmap) (other : Miscounted c type vals)
      (decoded : mapHardwareCounterVals tokens (tierMarker vals).2 eventmap = .ok events)
      (left : events.entries ≠ [])
      (numeric : ∀ entry ∈ events.entries, (Num.parse entry.2).isSome = true)

theorem valsDictRows_eq_nil (tags : Tags) (type dev : Str) (events : Dict Str Str) :
    valsDictRows tags type dev events = [] ↔
      ¬ (events.entries ≠ [] ∧ ∀ entry ∈ events.entries, (Num.parse entry.2).isSome = true) := by
  have numeric : ((events.entries.map Prod.snd).mapM Num.parse).isSome = true ↔
      ∀ entry ∈ events.entries, (Num.parse entry.2).isSome = true := by
    rw [mapM_isSome, List.forall_mem_map]
  have sizes : (events.entries.map Prod.snd).length =
      (compileSchemaTokens (events.entries.map Prod.fst)).length := by
    simp [compileSchemaTokens]
  rw [valsDictRows, compiledStatsRows, if_neg (not_not.mpr sizes), ← numeric]
  cases read : (events.entries.map Prod.snd).mapM Num.parse with
  | none => simp
  | some values =>
    have count := mapM_length read
    have empty : (compileSchemaTokens (events.entries.map Prod.fst)).zip values = [] ↔
        events.entries = [] := by
      rw [← List.length_eq_zero_iff, List.length_zip, count, ← sizes, List.length_map, min_self,
        List.length_eq_zero_iff]
    simp [empty]

theorem compiledStatsRows_miscounted {tags : Tags} {type dev : Str} {compiled : List SchemaKey}
    {vals : List Str} (other : vals.length ≠ compiled.length) :
    compiledStatsRows tags type dev compiled vals = [] := if_pos other

section Hardware

variable {c : Context} {type : Str} {vals tokens : List Str}

omit [Interpreter] in
theorem miscounted_hardware (hardware : ¬ ProcType type)
    (schema : c.schema.get? type = some tokens) :
    Miscounted c type vals ↔ (tierMarker vals).2.length ≠
      (if (tierMarker vals).1 = .fast then fastSchemaKeys tokens else tokens).length := by
  simp [Miscounted, Context.rowKeys, hardware, schema]

theorem rowFault_hardware (hardware : ¬ ProcType type) (fault : RowFault c type vals) :
    ∃ tokens eventmap, Legacy c type vals tokens eventmap := by
  cases fault with
  | infinite _ _ proc => exact absurd proc hardware
  | counted proc => exact absurd proc hardware
  | undecodable tokens eventmap legacy => exact ⟨tokens, eventmap, legacy⟩
  | truncated tokens eventmap _ legacy => exact ⟨tokens, eventmap, legacy⟩

theorem decodeCounterLine_tolerated {eventmap : EventMap}
    (legacy : Legacy c type vals tokens eventmap) (tags : Tags) (out dev : Str) :
    (∃ events, decodeCounterLine type tokens (tierMarker vals).2 = .ok events ∧
      (Miscounted c type vals → events.elim [] (valsDictRows tags out dev) = [])) ↔
      ¬ RowFault c type vals := by
  have decoding : decodeCounterLine type tokens (tierMarker vals).2 =
      (mapHardwareCounterVals tokens (tierMarker vals).2 eventmap).map some := by
    rw [decodeCounterLine, legacy.mapped]
  rw [decoding]
  cases decoded : mapHardwareCounterVals tokens (tierMarker vals).2 eventmap with
  | error err =>
    refine ⟨fun found => ?_, fun sound => absurd ?_ sound⟩
    · obtain ⟨events, done, -⟩ := found
      cases done
    · apply RowFault.undecodable tokens eventmap legacy
      intro decodable
      obtain ⟨events, done⟩ := (mapHardwareCounterVals_returns _ _ _).mpr decodable
      rw [decoded] at done
      cases done
  | ok events =>
    refine ⟨fun found fault => ?_, fun sound => ⟨some events, rfl, fun other => ?_⟩⟩
    · obtain ⟨shown, done, quiet⟩ := found
      cases done
      cases fault with
      | infinite _ _ proc => exact legacy.hardware proc
      | counted proc => exact legacy.hardware proc
      | undecodable tokens' eventmap' legacy' unnamed =>
        cases legacy.schema.symm.trans legacy'.schema
        cases legacy.mapped.symm.trans legacy'.mapped
        exact unnamed ((mapHardwareCounterVals_returns _ _ _).mp ⟨events, decoded⟩)
      | truncated tokens' eventmap' events' legacy' other decoded' left numeric =>
        cases legacy.schema.symm.trans legacy'.schema
        cases legacy.mapped.symm.trans legacy'.mapped
        cases decoded.symm.trans decoded'
        exact (valsDictRows_eq_nil tags out dev events).mp (quiet other) ⟨left, numeric⟩
    · apply (valsDictRows_eq_nil tags out dev events).mpr
      intro both
      exact sound (.truncated tokens eventmap events legacy other decoded both.1 both.2)

theorem hardwareRows_tolerated (hardware : ¬ ProcType type) (tags : Tags) (dev : Str) :
    (∃ rows, c.hardwareRows tags type dev vals = .ok rows ∧
      (Miscounted c type vals → rows = [])) ↔ ¬ RowFault c type vals := by
  unfold Context.hardwareRows
  cases schema : c.schema.get? type with
  | none =>
    refine ⟨fun _ fault => ?_, fun _ => ⟨[], rfl, fun _ => rfl⟩⟩
    obtain ⟨tokens, eventmap, legacy⟩ := rowFault_hardware hardware fault
    rw [legacy.schema] at schema
    cases schema
  | some tokens =>
    have sound (plain : (tierMarker vals).1 = .fast ∨
        schemaNeedsLegacyHardwareDecode type tokens = false ∨
        eventmapsByType.lookup type = none) : ¬ RowFault c type vals := by
      intro fault
      obtain ⟨tokens', eventmap, legacy⟩ := rowFault_hardware hardware fault
      cases schema.symm.trans legacy.schema
      cases plain with
      | inl fast => exact legacy.whole fast
      | inr rest =>
        cases rest with
        | inl compiled =>
          rw [legacy.legacy] at compiled
          cases compiled
        | inr unmapped =>
          rw [legacy.mapped] at unmapped
          cases unmapped
    have count := @miscounted_hardware c type vals tokens hardware schema
    dsimp only
    by_cases fast : (tierMarker vals).1 = .fast
    · rw [if_pos fast] at count ⊢
      refine iff_of_true ?_ (sound (.inl fast))
      split
      · exact ⟨[], rfl, fun _ => rfl⟩
      · refine ⟨_, rfl, fun other => compiledStatsRows_miscounted ?_⟩
        simpa [compileSchemaTokens] using count.mp other
    · rw [if_neg fast] at count ⊢
      split
      · next legacy =>
          cases mapped : eventmapsByType.lookup type with
          | none =>
            refine iff_of_true ⟨[], ?_, fun _ => rfl⟩ (sound (.inr (.inr mapped)))
            rw [decodeCounterLine, mapped]
            rfl
          | some eventmap =>
            rw [← decodeCounterLine_tolerated ⟨hardware, schema, legacy, fast, mapped⟩ tags
              (legacyOutputType type)
              (sharedRowDev dev (legacyOutputType type) tags.jid c.sampleShared)]
            cases decodeCounterLine type tokens (tierMarker vals).2 with
            | error err =>
              constructor
              · intro found
                obtain ⟨rows, done, -⟩ := found
                cases done
              · intro found
                obtain ⟨events, done, -⟩ := found
                cases done
            | ok events =>
              constructor
              · intro found
                obtain ⟨rows, done, quiet⟩ := found
                refine ⟨events, rfl, fun other => ?_⟩
                cases events with
                | none => rfl
                | some events =>
                  cases done
                  exact quiet other
              · intro found
                obtain ⟨same, done, quiet⟩ := found
                cases done
                cases events with
                | none => exact ⟨[], rfl, fun _ => rfl⟩
                | some events => exact ⟨_, rfl, quiet⟩
      · next compiled =>
          refine iff_of_true ⟨_, rfl, fun other => compiledStatsRows_miscounted ?_⟩
            (sound (.inr (.inl (Bool.eq_false_iff.mpr compiled))))
          simpa [compileSchemaTokens] using count.mp other

end Hardware

structure PassedBy (c c' : Context) (e : Emit) : Prop where
  rows : e.statsRows = []
  procs : e.procRows = []
  schema : c'.schema = c.schema
  bare : c'.bare = c.bare
  fastBare : c'.fastBare = c.fastBare

omit [Interpreter] in
theorem passedBy_tick {c c' : Context} {e : Emit} : PassedBy c.tick c' e ↔ PassedBy c c' e :=
  ⟨fun passed => ⟨passed.rows, passed.procs, passed.schema, passed.bare, passed.fastBare⟩,
    fun passed => ⟨passed.rows, passed.procs, passed.schema, passed.bare, passed.fastBare⟩⟩

theorem feedProc_tolerated {c : Context} {type : Str} {vals : List Str} (proc : ProcType type)
    (tags : Tags) (dev : Str) :
    (∃ c' e, c.feedProc tags type dev vals = .ok (c', e) ∧
      (Miscounted c type vals → PassedBy c c' e)) ↔ ¬ RowFault c type vals := by
  have keys : c.rowKeys type vals =
      some (c.procBareKeysFor type (decide ((tierMarker vals).1 = .fast))).1 := if_pos proc
  constructor
  · intro found fault
    obtain ⟨c', e, taken, quiet⟩ := found
    cases fault with
    | infinite keys' pair _ read member known infinite =>
      cases keys.symm.trans read
      obtain ⟨fields, found, -⟩ := bind_returns.mp ⟨_, taken⟩
      exact (procFields_returns _ _).mp ⟨fields, found⟩ pair member known infinite
    | counted _ other =>
      obtain ⟨row, bare, fastBare, rfl, -⟩ := Context.feedProc_cases taken
      cases (quiet other).procs
    | undecodable _ _ legacy => exact legacy.hardware proc
    | truncated _ _ _ legacy => exact legacy.hardware proc
  · intro sound
    have finite : ∀ pair ∈ (c.procBareKeysFor type (decide ((tierMarker vals).1 = .fast))).1.zip
        (tierMarker vals).2, pair.1 ∈ hostProcKeys → ¬ Infinite pair.2 := by
      intro pair member known infinite
      exact sound (.infinite _ pair proc keys member known infinite)
    obtain ⟨fields, read⟩ := (procFields_returns _ _).mpr finite
    let row : ProcRow :=
      ⟨tags.time, tags.host, tags.jid, (splitOn '/' dev).headD [], dev, fields⟩
    refine ⟨(c.procBareKeysFor type (decide ((tierMarker vals).1 = .fast))).2, .proc row, ?_,
      fun other => absurd (.counted proc other) sound⟩
    rw [Context.feedProc]
    dsimp only
    rw [read]
    rfl

end Rows

section Lines

def Context.readRow (c : Context) (line : Str) : Option (Str × Str × List Str) :=
  match lstrip line with
  | [] => none
  | first :: rest =>
    if isAlpha first && c.insert && c.tags.isSome then
      match split (first :: rest) with
      | type :: dev :: v :: vals => if type ∈ c.exclude then none else some (type, dev, v :: vals)
      | _ => none
    else none

inductive Malformed (c : Context) (line : Str) : Prop where
  | keyless (bang : (lstrip line).head? = some '!')
      (few : (split (lstrip line)).length < 2)
  | header (digit : isDigitLine line = true)
      (rejected : digitLineIdentity (lstrip line) = none)
  | short (letter : (lstrip line).head?.elim false isAlpha = true)
      (few : (split (lstrip line)).length < 3)
  | miscounted (type dev : Str) (vals : List Str) (read : c.readRow line = some (type, dev, vals))
      (other : Miscounted c.tick type vals)

inductive Fault (c : Context) (line : Str) : Prop where
  | keyless (bang : (lstrip line).head? = some '!')
      (few : (split (lstrip line)).length < 2)
  | overlong (label : Str) (tokens : List Str) (bang : (lstrip line).head? = some '!')
      (words : split (lstrip line) = label :: tokens)
      (wide : tokens.any schemaTokenUnread = true)
  | row (type dev : Str) (vals : List Str) (read : c.readRow line = some (type, dev, vals))
      (fault : RowFault c.tick type vals)

variable {c : Context} {line : Str}

theorem readRow_head {row : Str × Str × List Str} (read : c.readRow line = some row) :
    ∃ first rest, lstrip line = first :: rest ∧ isAlpha first = true ∧
      c.insert = true ∧ c.tags.isSome = true ∧ row.1 ∉ c.exclude ∧
      split (first :: rest) = row.1 :: row.2.1 :: row.2.2 ∧ row.2.2 ≠ [] := by
  unfold Context.readRow at read
  split at read
  · cases read
  · next first rest stripped =>
      split at read
      · next open_ =>
          rw [Bool.and_eq_true, Bool.and_eq_true] at open_
          split at read
          · next words =>
              split at read
              · cases read
              · next kept =>
                  cases read
                  exact ⟨first, rest, stripped, open_.1.1, open_.1.2, open_.2, kept, words,
                    List.cons_ne_nil _ _⟩
          · cases read
      · cases read

theorem feedLine_letter {first : Char} {rest : Str} {tags : Tags}
    (stripped : lstrip line = first :: rest) (letter : isAlpha first = true)
    (inside : c.insert = true) (header : c.tags = some tags) :
    c.feedLine line = c.tick.feedRow tags (first :: rest) := by
  simp [Context.feedLine, stripped, letter, inside, header]

theorem feedLine_row {type dev : Str} {vals : List Str}
    (read : c.readRow line = some (type, dev, vals)) :
    (∃ c' e, c.feedLine line = .ok (c', e) ∧ (Miscounted c.tick type vals → PassedBy c c' e)) ↔
      ¬ RowFault c.tick type vals := by
  obtain ⟨first, rest, stripped, letter, inside, tagged, kept, words, some_⟩ := readRow_head read
  obtain ⟨tags, header⟩ := Option.isSome_iff_exists.mp tagged
  obtain ⟨v, more, rfl⟩ := List.exists_cons_of_ne_nil some_
  have kept' : type ∉ c.tick.exclude := kept
  simp only [← passedBy_tick (c := c)]
  rw [feedLine_letter stripped letter inside header, Context.feedRow, words]
  dsimp only
  rw [if_neg kept']
  by_cases proc : type = lit "proc" ∨ type = lit "host_proc"
  · rw [if_pos proc, ← feedProc_tolerated proc tags dev]
  · rw [if_neg proc, ← hardwareRows_tolerated proc tags dev]
    constructor
    · intro found
      obtain ⟨c', e, taken, quiet⟩ := found
      obtain ⟨rows, made, -⟩ := bind_returns.mp ⟨_, taken⟩
      rw [made] at taken
      cases taken
      exact ⟨rows, made, fun other => (quiet other).rows⟩
    · intro found
      obtain ⟨rows, made, quiet⟩ := found
      refine ⟨c.tick, .rows rows, ?_, fun other => ⟨quiet other, rfl, rfl, rfl, rfl⟩⟩
      rw [made]
      rfl

theorem feedLine_bang (bang : (lstrip line).head? = some '!') :
    (∃ c' e, c.feedLine line = .ok (c', e)) ↔
      2 ≤ (split (lstrip line)).length ∧
        (split (lstrip line)).tail.any schemaTokenUnread = false := by
  cases stripped : lstrip line with
  | nil =>
    rw [stripped] at bang
    cases bang
  | cons first rest =>
    rw [stripped] at bang
    cases bang
    have fed : c.feedLine line = c.tick.feedSchema ('!' :: rest) := by
      simp [Context.feedLine, stripped]
    rw [fed, Context.feedSchema]
    cases words : split ('!' :: rest) with
    | nil => simp
    | cons label tokens =>
      cases tokens with
      | nil => simp
      | cons token tokens =>
        dsimp only [List.tail_cons]
        cases wide : (token :: tokens).any schemaTokenUnread with
        | true => simp
        | false => simp

theorem feedHeader_passed (c : Context) (s : Str) :
    PassedBy c (c.feedHeader s).1 (c.feedHeader s).2 := by
  unfold Context.feedHeader
  split
  · next t _ _ _ _ =>
      cases Context.sampleTime t with
      | none => exact ⟨rfl, rfl, rfl, rfl, rfl⟩
      | some time => exact ⟨rfl, rfl, rfl, rfl, rfl⟩
  · exact ⟨rfl, rfl, rfl, rfl, rfl⟩

omit [Interpreter] in
theorem notePercentMark_passed (c : Context) (line : Str) :
    PassedBy c (c.notePercentMark (lstrip line)).1 (c.notePercentMark (lstrip line)).2 := by
  cases Context.notePercentMark_cases c line with
  | inl same =>
    rw [same.1]
    exact ⟨rfl, rfl, rfl, rfl, rfl⟩
  | inr found =>
    obtain ⟨body, same⟩ := found
    rw [same]
    exact ⟨rfl, rfl, rfl, rfl, rfl⟩

theorem feedLine_other (none_ : c.readRow line = none)
    (other : (lstrip line).head? ≠ some '!') :
    ∃ c' e, c.feedLine line = .ok (c', e) ∧ PassedBy c c' e := by
  have ticked : PassedBy c c.tick .nothing := ⟨rfl, rfl, rfl, rfl, rfl⟩
  unfold Context.feedLine
  split
  · exact ⟨_, _, rfl, ticked⟩
  · next first rest stripped =>
      split
      · next letter =>
          cases header : c.tags with
          | none => exact ⟨_, _, rfl, ticked⟩
          | some tags =>
            dsimp only
            unfold Context.feedRow
            split
            · next type dev v vals words =>
                have excluded : type ∈ c.tick.exclude := by
                  by_contra kept
                  have kept' : type ∉ c.exclude := kept
                  simp [Context.readRow, stripped, letter, header, words, kept'] at none_
                rw [if_pos excluded]
                exact ⟨_, _, rfl, ticked⟩
            · exact ⟨_, _, rfl, ticked⟩
      · split
        · exact ⟨_, _, rfl, passedBy_tick.mp (feedHeader_passed c.tick _)⟩
        · split
          · next bang => exact absurd (by rw [stripped, bang]; rfl) other
          · split
            · rw [← stripped]
              exact ⟨_, _, rfl, passedBy_tick.mp (notePercentMark_passed c.tick line)⟩
            · exact ⟨_, _, rfl, ticked⟩

def Tolerates (c : Context) (line : Str) : Prop :=
  ∃ c' e, c.feedLine line = .ok (c', e) ∧ (Malformed c line → PassedBy c c' e)

theorem readRow_bang (bang : (lstrip line).head? = some '!') : c.readRow line = none := by
  by_contra found
  obtain ⟨row, read⟩ := Option.ne_none_iff_exists'.mp found
  obtain ⟨first, rest, stripped, letter, -⟩ := readRow_head read
  rw [stripped] at bang
  cases bang
  simp at letter

theorem malformed_row {type dev : Str} {vals : List Str}
    (read : c.readRow line = some (type, dev, vals)) (malformed : Malformed c line) :
    Miscounted c.tick type vals := by
  obtain ⟨first, rest, stripped, letter, -, -, -, words, some_⟩ := readRow_head read
  cases malformed with
  | keyless bang =>
    rw [readRow_bang bang] at read
    cases read
  | header digit =>
    have number : isDigit first = true := by simpa [isDigitLine, stripped] using digit
    rw [isDigit_of_isAlpha letter] at number
    cases number
  | short _ few =>
    have some_ := List.length_pos_of_ne_nil some_
    rw [stripped, words] at few
    simp only [List.length_cons] at few
    dsimp only at some_
    omega
  | miscounted _ _ _ read' other =>
    cases read.symm.trans read'
    exact other

theorem malformed_bang (bang : (lstrip line).head? = some '!') (malformed : Malformed c line) :
    (split (lstrip line)).length < 2 := by
  cases malformed with
  | keyless _ few => exact few
  | header digit =>
    rw [isDigitLine, bang] at digit
    simp at digit
  | short letter =>
    rw [bang] at letter
    simp at letter
  | miscounted _ _ _ read =>
    rw [readRow_bang bang] at read
    cases read

theorem tolerates_iff (c : Context) (line : Str) : Tolerates c line ↔ ¬ Fault c line := by
  by_cases bang : (lstrip line).head? = some '!'
  · have returns := feedLine_bang (c := c) bang
    constructor
    · intro tolerated fault
      obtain ⟨c', e, taken, -⟩ := tolerated
      obtain ⟨long, narrow⟩ := returns.mp ⟨c', e, taken⟩
      cases fault with
      | keyless _ few => omega
      | overlong label tokens _ words wide =>
        rw [words, List.tail_cons, wide] at narrow
        cases narrow
      | row _ _ _ read =>
        rw [readRow_bang bang] at read
        cases read
    · intro sound
      have long : 2 ≤ (split (lstrip line)).length := by
        by_contra few
        exact sound (.keyless bang (by omega))
      have narrow : (split (lstrip line)).tail.any schemaTokenUnread = false := by
        apply Bool.eq_false_iff.mpr
        intro wide
        cases words : split (lstrip line) with
        | nil =>
          rw [words] at long
          cases long
        | cons label tokens =>
          rw [words] at wide
          exact sound (.overlong label tokens bang words wide)
      obtain ⟨c', e, taken⟩ := returns.mpr ⟨long, narrow⟩
      refine ⟨c', e, taken, fun malformed => ?_⟩
      have few := malformed_bang bang malformed
      omega
  · cases read : c.readRow line with
    | none =>
      obtain ⟨c', e, taken, passed⟩ := feedLine_other read bang
      refine iff_of_true ⟨c', e, taken, fun _ => passed⟩ fun fault => ?_
      cases fault with
      | keyless here => exact bang here
      | overlong _ _ here => exact bang here
      | row _ _ _ found =>
        rw [read] at found
        cases found
    | some row =>
      obtain ⟨type, dev, vals⟩ := row
      have rows := feedLine_row read
      constructor
      · intro tolerated fault
        obtain ⟨c', e, taken, quiet⟩ := tolerated
        cases fault with
        | keyless here => exact bang here
        | overlong _ _ here => exact bang here
        | row _ _ _ read' fault =>
          cases read.symm.trans read'
          refine rows.mp ⟨c', e, taken, fun other => quiet ?_⟩ fault
          exact .miscounted type dev vals read other
      · intro sound
        obtain ⟨c', e, taken, quiet⟩ := rows.mpr fun fault => sound (.row type dev vals read fault)
        exact ⟨c', e, taken, fun malformed => quiet (malformed_row read malformed)⟩

end Lines

def Parser.Tolerates (p : Parser) (line : Str) : Prop :=
  ∃ q e, p.feedLine line = .ok q ∧ p.context.feedLine line = .ok (q.context, e) ∧
    (Malformed p.context line →
      PassedBy p.context q.context e ∧ q.cols = p.cols ∧ q.procByKey = p.procByKey)

theorem parser_tolerates_iff (p : Parser) (line : Str) :
    p.Tolerates line ↔ Feed.Tolerates p.context line := by
  constructor
  · intro tolerated
    obtain ⟨q, e, -, taken, quiet⟩ := tolerated
    exact ⟨q.context, e, taken, fun malformed => (quiet malformed).1⟩
  · intro tolerated
    obtain ⟨c, e, taken, quiet⟩ := tolerated
    refine ⟨{ p.store e with context := c }, e, Parser.feedLine_eq_ok.mpr ⟨c, e, taken, rfl⟩, taken,
      fun malformed => ⟨quiet malformed, ?_, ?_⟩⟩
    · change (p.store e).cols = p.cols
      rw [Parser.store_cols, (quiet malformed).rows, List.append_nil]
    · change (p.store e).procByKey = p.procByKey
      have none_ := (quiet malformed).procs
      cases e with
      | proc row => cases none_
      | _ => rfl

/-- The parser tolerates exactly the lines that are not at fault. -/
theorem feed_line_tolerates_iff (p : Parser) (line : Str) :
    p.Tolerates line ↔ ¬ Fault p.context line := by
  rw [parser_tolerates_iff, tolerates_iff]

end Tolerance

theorem keyless_schema_raises : ¬ (Parser.init 0 excludeTypes).Tolerates (lit "!cpu") := by
  rw [parser_tolerates_iff, tolerates_iff, not_not]
  exact .keyless rfl (by decide)

end PerfStats.Feed
