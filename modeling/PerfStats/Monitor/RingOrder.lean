import PerfStats.Monitor.RingRuns

namespace PerfStats.Monitor

open Lib Lib.LinkHeap

variable {P : Type} {data : P → Option Bytes} {w w' : SfRingBuffer P} {l : List Addr}

section Ledger

abbrev Ledger (P : Type) := List (P × Bool)

def Ledger.overwritten (ledger : Ledger P) : List P := (ledger.filter fun e => e.2).map Prod.fst

def Ledger.kept (ledger : Ledger P) : List P := (ledger.filter fun e => !e.2).map Prod.fst

theorem Ledger.kept_append (ledger more : Ledger P) :
    Ledger.kept (ledger ++ more) = ledger.kept ++ more.kept := by
  simp only [Ledger.kept, List.filter_append, List.map_append]

theorem Ledger.overwritten_append (ledger more : Ledger P) :
    Ledger.overwritten (ledger ++ more) = ledger.overwritten ++ more.overwritten := by
  simp only [Ledger.overwritten, List.filter_append, List.map_append]

theorem Ledger.mark {ledger : Ledger P} {before behind : List P} {p : P}
    (stands : ledger.kept = before ++ p :: behind) :
    ∃ marked : Ledger P, marked.map Prod.fst = ledger.map Prod.fst ∧
      marked.kept = before ++ behind ∧ marked.overwritten.Perm (p :: ledger.overwritten) := by
  induction ledger generalizing before with
  | nil => simp [Ledger.kept] at stands
  | cons entry ledger ih =>
    obtain ⟨q, gone⟩ := entry
    cases gone with
    | true =>
      have rest : Ledger.kept ledger = before ++ p :: behind := stands
      obtain ⟨marked, same, kept, overwritten⟩ := ih rest
      refine ⟨(q, true) :: marked, by simp [same], kept, ?_⟩
      exact (overwritten.cons q).trans (List.Perm.swap p q _)
    | false =>
      have rest : q :: Ledger.kept ledger = before ++ p :: behind := stands
      cases before with
      | nil =>
        rw [List.nil_append, List.cons.injEq] at rest
        obtain ⟨rfl, rest⟩ := rest
        exact ⟨(q, true) :: ledger, rfl, rest, .refl _⟩
      | cons b before =>
        rw [List.cons_append, List.cons.injEq] at rest
        obtain ⟨rfl, rest⟩ := rest
        obtain ⟨marked, same, kept, overwritten⟩ := ih rest
        refine ⟨(q, false) :: marked, by simp [same], ?_, overwritten⟩
        exact congrArg (q :: ·) kept

end Ledger

section Outputs

def RingOutput.accepted : RingOutput P → List P
  | .inserted sf rc _ => if rc = 0 then [sf] else []
  | _ => []

def RingOutput.overwritten : RingOutput P → List P
  | .inserted _ _ closed => closed.toList
  | _ => []

/-- The payloads that an event took out: those of the messages it sent, each the text of a batch, or
the dropped one. -/
def RingOutput.Takes (data : P → Option Bytes) : RingOutput P → List P → Prop
  | .inserted _ _ _, taken => taken = []
  | .dropped closed, taken => taken = closed.toList
  | .sent messages processed, taken => processed = taken.length ∧
      ∃ parts : List (List P), List.Forall₂ (Merges data) parts messages ∧ parts.flatten = taken

def InOrder (data : P → Option Bytes) (out : List (RingOutput P)) (left : List P) : Prop :=
  ∃ (ledger : Ledger P) (taken : List (List P)),
    ledger.map Prod.fst = out.flatMap RingOutput.accepted ∧
    ledger.overwritten.Perm (out.flatMap RingOutput.overwritten) ∧
    List.Forall₂ (RingOutput.Takes data) out taken ∧
    ledger.kept = taken.flatten ++ left

variable {out : List (RingOutput P)} {left left' : List P}

theorem InOrder.start : InOrder data [] [] :=
  ⟨[], [], rfl, .refl _, .nil, rfl⟩

theorem InOrder.take (order : InOrder data out left) {o : RingOutput P} (taken : List P)
    (accepted : o.accepted = []) (overwritten : o.overwritten = []) (takes : o.Takes data taken)
    (front : left = taken ++ left') : InOrder data (out ++ [o]) left' := by
  obtain ⟨ledger, before, puts, gone, all, kept⟩ := order
  refine ⟨ledger, before ++ [taken], ?_, ?_, List.rel_append all (.cons takes .nil), ?_⟩
  · simp [puts, accepted]
  · simpa [overwritten] using gone
  · rw [kept, front, List.flatten_append, List.flatten_singleton, List.append_assoc]

theorem InOrder.add (order : InOrder data out left) (sf : P) :
    InOrder data (out ++ [.inserted sf 0 none]) (left ++ [sf]) := by
  obtain ⟨ledger, before, puts, gone, all, kept⟩ := order
  refine ⟨ledger ++ [(sf, false)], before ++ [[]], ?_, ?_, List.rel_append all (.cons rfl .nil), ?_⟩
  · simp [puts, RingOutput.accepted]
  · rw [Ledger.overwritten_append]
    simpa [Ledger.overwritten, RingOutput.overwritten] using gone
  · rw [Ledger.kept_append, kept, List.flatten_append]
    simp [Ledger.kept]

theorem InOrder.replace {before behind : List P} {p : P}
    (order : InOrder data out (before ++ p :: behind)) (sf : P) :
    InOrder data (out ++ [.inserted sf 0 (some p)]) (before ++ behind ++ [sf]) := by
  obtain ⟨ledger, earlier, puts, gone, all, kept⟩ := order
  rw [← List.append_assoc] at kept
  obtain ⟨marked, same, kept', gone'⟩ := Ledger.mark kept
  refine ⟨marked ++ [(sf, false)], earlier ++ [[]], ?_, ?_, List.rel_append all (.cons rfl .nil), ?_⟩
  · simp [same, puts, RingOutput.accepted]
  · have more : (p :: Ledger.overwritten ledger).Perm
        (out.flatMap RingOutput.overwritten ++ [p]) :=
      (gone.cons p).trans (List.perm_append_singleton p _).symm
    rw [Ledger.overwritten_append]
    simpa [Ledger.overwritten, RingOutput.overwritten] using gone'.trans more
  · rw [Ledger.kept_append, kept', List.flatten_append]
    simp [Ledger.kept]

end Outputs

section Steps

/-- An insert that is to overwrite finds a payload at the head that is no schema, or only the
last one is none, or all are. -/
def OldestGoes (data : P → Option Bytes) (maxBufferSize : Int) (w : SfRingBuffer P) :
    RingEvent P → Prop
  | .insert _ allowOverwrite _ =>
    allowOverwrite = true → maxBufferSize ≠ -1 → maxBufferSize ≤ w.qCount →
      let plain := (pending w).dropWhile (isSchemaPayload data)
      plain.length = (pending w).length ∨ plain.length ≤ 1
  | _ => True

def RingOutput.Spares (data : P → Option Bytes) (o : RingOutput P) : Prop :=
  ∀ p ∈ o.overwritten, isSchemaPayload data p = false

variable (data) in
theorem ringStep_spec (linked : WellLinked w l) (maxBufferSize : Int) (event : RingEvent P) :
    ∃ w' o l', ringStep data maxBufferSize w event = .ok (w', o) ∧ WellLinked w' l' ∧
      o.Spares data ∧
      (1 ≤ maxBufferSize → w.qCount ≤ maxBufferSize → w'.qCount ≤ maxBufferSize) ∧
      (OldestGoes data maxBufferSize w event → ∀ out, InOrder data out (pending w) →
        InOrder data (out ++ [o]) (pending w')) := by
  cases event with
  | insert sf allowOverwrite memory =>
    obtain ⟨w', rc, closed, l', result, linked', outcome⟩ :=
      ringBufferInsert_spec data linked sf maxBufferSize allowOverwrite memory
    refine ⟨w', .inserted sf rc closed, l', ?_, linked', ?_⟩
    · simp only [ringStep, result, bind, Except.bind, pure, Except.pure]
    · cases outcome with
      | refused same count =>
        refine ⟨by simp [RingOutput.Spares, RingOutput.overwritten], fun _ _ => by omega, ?_⟩
        intro _ out order
        exact order.take [] rfl rfl rfl same.symm
      | added grown count room =>
        refine ⟨by simp [RingOutput.Spares, RingOutput.overwritten], fun _ _ => by omega, ?_⟩
        intro _ out order
        rw [grown]
        exact order.add sf
      | overwrote before p behind held schemas plain now count some_held full bounded allowed =>
        refine ⟨?_, fun _ _ => by omega, ?_⟩
        · intro x member
          obtain rfl : x = p := by simpa [RingOutput.overwritten] using member
          exact plain
        · intro oldest out order
          have place := oldest allowed bounded full
          rw [held, List.dropWhile_append_of_pos schemas, List.dropWhile_cons_of_neg (by simp [plain]),
            List.length_append] at place
          -- nothing stands in front of the payload, or nothing behind it
          have same : behind ++ before = before ++ behind := by
            obtain first | last := place
            · have none_before : before = [] := List.length_eq_zero_iff.mp (by omega)
              rw [none_before, List.append_nil, List.nil_append]
            · rw [List.length_cons] at last
              have none_behind : behind = [] := List.length_eq_zero_iff.mp (by omega)
              rw [none_behind, List.append_nil, List.nil_append]
          rw [held] at order
          rw [now, same]
          exact order.replace sf
  | dropFirst =>
    obtain ⟨w', l', result, linked', rest⟩ := ringBufferDropFirst_spec linked
    have fewer : (pending w').length ≤ (pending w).length := by
      rw [rest, List.length_tail]
      omega
    refine ⟨w', .dropped (pending w).head?, l', ?_, linked', ?_, ?_, ?_⟩
    · simp only [ringStep, result, bind, Except.bind, pure, Except.pure]
    · simp [RingOutput.Spares, RingOutput.overwritten]
    · have count := linked.count_pending
      have count' := linked'.count_pending
      omega
    · intro _ out order
      refine order.take (pending w).head?.toList rfl rfl rfl ?_
      rw [rest]
      cases pending w <;> rfl
  | resend softMax broker maxBatches maxRuntimeUs =>
    have count := linked.count_pending
    obtain ⟨w', messages, processed, l', result, linked', parts, all, cut, total⟩ :=
      resendFrom_spec data linked softMax broker maxBatches maxRuntimeUs 0
        (show (pending w).length ≤ w.qCount.toNat by omega)
    refine ⟨w', .sent messages processed, l', ?_, linked', ?_, ?_, ?_⟩
    · simp only [ringStep, ringBufferResendLimited, result, bind, Except.bind, pure, Except.pure]
    · simp [RingOutput.Spares, RingOutput.overwritten]
    · have count' := linked'.count_pending
      rw [cut, List.length_append] at count
      omega
    · intro _ out order
      exact order.take parts.flatten rfl rfl ⟨total, parts, all, rfl⟩ cut

def ringAdvance (data : P → Option Bytes) (maxBufferSize : Int) (w : SfRingBuffer P)
    (event : RingEvent P) : SfRingBuffer P :=
  match ringStep data maxBufferSize w event with
  | .ok (w', _) => w'
  | .error _ => w

variable (data) in
theorem ring_runs (linked : WellLinked w l) (maxBufferSize : Int) (events : List (RingEvent P)) :
    ∃ more w' l', Traces (ringStep data maxBufferSize) w events more w' ∧ WellLinked w' l' ∧
      (∀ o ∈ more, o.Spares data) ∧
      (1 ≤ maxBufferSize → w.qCount ≤ maxBufferSize → w'.qCount ≤ maxBufferSize) ∧
      ∀ out, Throughout (ringAdvance data maxBufferSize) (OldestGoes data maxBufferSize) w events →
        InOrder data out (pending w) → InOrder data (out ++ more) (pending w') := by
  induction events generalizing w l with
  | nil =>
    refine ⟨[], w, l, .nil w, linked, by simp, fun _ fits => fits, fun out _ order => ?_⟩
    rw [List.append_nil]
    exact order
  | cons event events ih =>
    obtain ⟨mid, o, l', taken, linked', spares, fits, kept⟩ :=
      ringStep_spec data linked maxBufferSize event
    obtain ⟨more, w', l'', run, linked'', later, fits', kept'⟩ := ih linked'
    refine ⟨o :: more, w', l'', .cons taken run, linked'', ?_, ?_, ?_⟩
    · intro o' member
      obtain rfl | member := List.mem_cons.mp member
      · exact spares
      · exact later o' member
    · exact fun positive start => fits' positive (fits positive start)
    · intro out conditions order
      obtain ⟨here, rest⟩ := conditions
      rw [ringAdvance, taken] at rest
      have next := kept' (out ++ [o]) rest (kept here out order)
      rwa [List.append_assoc] at next

/-- At the end of every run the nodes form one ring of `q_count`; within a capacity, where each
overwrite finds the oldest payload, all are handed on in order. -/
theorem ring_buffer_runs (data : P → Option Bytes) (maxBufferSize : Int)
    (events : List (RingEvent P)) :
    ∃ out w nodes, Traces (ringStep data maxBufferSize) .empty events out w ∧
      WellLinked w nodes ∧
      (∀ p ∈ out.flatMap RingOutput.overwritten, isSchemaPayload data p = false) ∧
      (1 ≤ maxBufferSize → w.qCount ≤ maxBufferSize) ∧
      (Throughout (ringAdvance data maxBufferSize) (OldestGoes data maxBufferSize) .empty events →
        InOrder data out (pending w)) := by
  obtain ⟨out, w, nodes, run, linked, spares, fits, kept⟩ :=
    ring_runs data WellLinked.empty maxBufferSize events
  refine ⟨out, w, nodes, run, linked, ?_, ?_, ?_⟩
  · intro p member
    obtain ⟨o, among, closed⟩ := List.mem_flatMap.mp member
    exact spares o among p closed
  · intro positive
    exact fits positive (by change (0 : Int) ≤ _; omega)
  · exact fun conditions => kept [] conditions .start

end Steps

section Runs

def sendsAll : Broker := ⟨fun _ => 0, fun _ _ => true, fun _ => 0⟩

def drained : RingEvent Bytes := .resend 0 sendsAll (-1) (-1)

def samples : List (RingEvent Bytes) :=
  [.insert [97] true (some 1), .insert [98] true (some 2), .insert [99] true (some 3), drained]

theorem ring_buffer_runs_samples :
    ∃ out w nodes, Traces (ringStep some 2) .empty samples out w ∧
      WellLinked w nodes ∧
      (∀ p ∈ out.flatMap RingOutput.overwritten, isSchemaPayload some p = false) ∧
      w.qCount ≤ 2 ∧ InOrder some out (pending w) := by
  obtain ⟨out, w, nodes, run, linked, spares, fits, kept⟩ := ring_buffer_runs some 2 samples
  refine ⟨out, w, nodes, run, linked, spares, fits (by decide), kept ?_⟩
  refine ⟨fun _ _ full => absurd full (by decide), fun _ _ full => absurd full ?_,
    fun _ _ _ => .inl ?_, trivial, trivial⟩
  · decide +kernel
  · decide +kernel

def schemaFirst : List (RingEvent Bytes) :=
  [.insert [36] true (some 1), .insert [97] true (some 2), .insert [98] true (some 3),
    .insert [99] true (some 4), drained]

/-- The sample written over the first stands right, but the schema is now behind the second: the
first put in is sent second. And a ring of no capacity takes one. -/
theorem schema_sent_late :
    (∃ out w, Traces (ringStep some 3) .empty schemaFirst out w ∧
      ¬ InOrder some out (pending w)) ∧
    ∃ out w, Traces (ringStep (P := Bytes) some 0) .empty [.insert [97] true (some 1)] out w ∧
      0 < w.qCount := by
  constructor
  · have sent : outputs (ringStep some 3) .empty schemaFirst =
        [.inserted [36] 0 none, .inserted [97] 0 none, .inserted [98] 0 none,
          .inserted [99] 0 (some [97]),
          .sent [([98], [98]), ([36], [36]), ([99], [99])] 3] := by decide +kernel
    refine ⟨_, _, Traces.of_outputs (by rw [sent]; rfl), ?_⟩
    rw [sent]
    intro order
    obtain ⟨ledger, taken, puts, gone, all, kept⟩ := order
    have front : ledger.kept.head? = some [98] := by
      obtain _ | ⟨first, _ | ⟨second, _ | ⟨third, _ | ⟨fourth, _ | ⟨last, none_more⟩⟩⟩⟩⟩ := all
      cases none_more
      obtain ⟨_, parts, merged, rfl⟩ := last
      obtain _ | ⟨merges, _⟩ := merged
      have head := merges.1
      rw [kept, first, second, third, fourth]
      simp [head]
    change ledger.map Prod.fst = [[36], [97], [98], [99]] at puts
    change ledger.overwritten.Perm [[97]] at gone
    cases ledger with
    | nil => cases puts
    | cons entry ledger =>
      obtain ⟨p, overwritten⟩ := entry
      obtain rfl : p = [36] := (List.cons.inj puts).1
      cases overwritten with
      | false => simp [Ledger.kept] at front
      | true =>
        have member : [36] ∈ [[(97 : UInt8)]] := gone.mem_iff.mp (.head _)
        simp at member
  · exact ⟨_, _, Traces.of_outputs (by decide +kernel), by decide +kernel⟩

end Runs

end PerfStats.Monitor
