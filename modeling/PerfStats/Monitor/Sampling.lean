import PerfStats.Monitor.Tier
import PerfStats.Lib.Runs

namespace PerfStats.Monitor

open Lib

section Timing

/-- A C `double`; `none` where it is not finite. -/
abbrev Double := Option ℚ

structure Division where
  quotient : ℚ → ℚ → ℚ
  nonneg : ∀ a b, 0 ≤ a → 0 < b → 0 ≤ quotient a b

def normalizePeriod : Double → ℚ
  | none => 1
  | some period => if period ≤ 0 then 1 else period

/-- `monitor_collect_slow_slot`. -/
def slowSlot (d : Division) (now : Double) (period : Double) : Int :=
  ⌊d.quotient (max 0 (now.getD 0)) (normalizePeriod period)⌋

theorem normalizePeriod_pos (period : Double) : 0 < normalizePeriod period := by
  cases period with
  | none => exact one_pos
  | some period =>
    rw [normalizePeriod]
    split
    · exact one_pos
    · next positive => exact not_le.mp positive

theorem slowSlot_nonneg (d : Division) (now period : Double) : 0 ≤ slowSlot d now period :=
  Int.floor_nonneg.mpr (d.nonneg _ _ (le_max_left _ _) (normalizePeriod_pos period))

end Timing

section Daemon

structure Daemon where
  phase : CollectPhase
  lastSlowSlot : Int
  tierEnabled : Bool
  sampleFreq : Double
  sampleFreqSlow : Double
  enableSlowTier : Bool
  jobid : String

structure ConfFile where
  sampleFreq : Option Double
  sampleFreqSlow : Option Double
  enableSlowTier : Option Bool

def finalizeRuntimeSettings (s : Daemon) : Daemon :=
  let sampleFreq := max (1 / 10) (normalizePeriod s.sampleFreq)
  let slow := match s.sampleFreqSlow with
    | none => sampleFreq
    | some period => if period ≤ 0 then sampleFreq else max period sampleFreq
  { s with
    sampleFreq := some sampleFreq
    sampleFreqSlow := some slow
    tierEnabled := s.enableSlowTier }

/-- A file that cannot be opened leaves all as it is. -/
def readConfFile (s : Daemon) : Option ConfFile → Daemon
  | none => s
  | some file => finalizeRuntimeSettings { s with
      sampleFreq := file.sampleFreq.getD s.sampleFreq
      sampleFreqSlow := file.sampleFreqSlow.getD s.sampleFreqSlow
      enableSlowTier := file.enableSlowTier.getD s.enableSlowTier }

inductive MarkLine where
  | jobBegin (jid : String)
  | jobEnd (jid : String)
  | jobs (jids : String)
deriving DecidableEq

/-- A payload that was built: whether it has a header, its mark, and what its keys and rows
were decided by. -/
structure Payload where
  writeHdr : Bool
  mark : Option MarkLine
  tierEnabled : Bool
  phase : CollectPhase
deriving DecidableEq

def Payload.rowTier (p : Payload) : StatsRowTier := rowTierDecide p.writeHdr p.tierEnabled p.phase

def Payload.FullTier (p : Payload) : Prop :=
  (∀ tier, keyActive p.tierEnabled p.phase tier = true) ∧ p.rowTier = .full

def collectPhaseForTick (d : Division) (s : Daemon) (now : Double) : Daemon :=
  if !s.tierEnabled then { s with phase := .full }
  else
    let slot := slowSlot d now s.sampleFreqSlow
    if slot ≠ s.lastSlowSlot then { s with phase := .full, lastSlowSlot := slot }
    else { s with phase := .fastOnly }

/-- `monitor_daemon_collect_to_ring` behind the allocation of its buffer: where that fails it returns
and leaves the phase. A sample that cannot be `built` is dropped. -/
def collectToRing (s : Daemon) (writeHdr : Bool) (mark : Option MarkLine) (built : Bool) :
    Daemon × List Payload :=
  let s := if writeHdr then { s with phase := .full } else s
  (s, if built then [⟨writeHdr, mark, s.tierEnabled, s.phase⟩] else [])

/-- What happens to the daemon, with what the world adds: the clock, the payloads that get built, a
configuration, the job id file. -/
inductive DaemonEvent where
  | tick (now : Double) (built : List (Option String))
  | rotate (built : Bool)
  | hup (file : Option ConfFile) (built : Bool)
  | jobidFile (newJobid : String) (built : Bool)

/-- What comes of an event: the slot of a tick, as its period and its number where there are
tiers, and payloads. -/
structure DaemonOutput where
  slot : Option (Double × Int)
  payloads : List Payload

def applyJobidChange (s : Daemon) (newJobid : String) (built : Bool) : Daemon × List Payload :=
  if newJobid ≠ "-" then
    collectToRing { s with jobid := newJobid } false (some (.jobBegin newJobid)) built
  else collectToRing s true (some (.jobEnd s.jobid)) built

/-- `monitor_daemon_sample_timer_cb`. A build for shared nodes emits several payloads. -/
def sampleTimer (d : Division) (s : Daemon) (now : Double) (built : List (Option String)) :
    Daemon × DaemonOutput :=
  let s := collectPhaseForTick d s now
  let slot := (s.sampleFreqSlow, slowSlot d now s.sampleFreqSlow)
  (s, ⟨if s.tierEnabled then some slot else none,
    built.map fun jids => ⟨false, jids.map .jobs, s.tierEnabled, s.phase⟩⟩)

/-- `monitor_daemon_fd_cb`. -/
def jobidWatcher (s : Daemon) (newJobid : String) (built : Bool) : Daemon × DaemonOutput :=
  if s.jobid ≠ newJobid then
    let changed := applyJobidChange s newJobid built
    ({ changed.1 with jobid := newJobid }, ⟨none, changed.2⟩)
  else (s, ⟨none, []⟩)

/-- `monitor_daemon_signal_cb_hup`. -/
def reload (s : Daemon) (file : Option ConfFile) (built : Bool) : Daemon × DaemonOutput :=
  let s := readConfFile { s with lastSlowSlot := -1 } file
  let flushed := collectToRing s true none built
  (flushed.1, ⟨none, flushed.2⟩)

def daemonStep (d : Division) (s : Daemon) : DaemonEvent → Daemon × DaemonOutput
  | .tick now built => sampleTimer d s now built
  | .rotate built =>
    let flushed := collectToRing s true none built
    (flushed.1, ⟨none, flushed.2⟩)
  | .hup file built => reload s file built
  | .jobidFile newJobid built => jobidWatcher s newJobid built

def daemonStart (sampleFreq sampleFreqSlow : Double) (enableSlowTier : Bool) (jobid : String) :
    Daemon :=
  finalizeRuntimeSettings ⟨.full, -1, enableSlowTier, sampleFreq, sampleFreqSlow, enableSlowTier,
    jobid⟩

end Daemon

section Runs

variable {d : Division} {s t : Daemon} {event : DaemonEvent} {out : DaemonOutput}
  {log : List (DaemonEvent × DaemonOutput)}

def Payload.AtBoundary (p : Payload) : Prop :=
  p.writeHdr = true ∨ ∃ jid, p.mark = some (.jobBegin jid) ∨ p.mark = some (.jobEnd jid)

def Sampled (log : List (DaemonEvent × DaemonOutput)) (slot : Double × Int) : Prop :=
  ∃ o ∈ log, o.2.slot = some slot ∧ ∃ p ∈ o.2.payloads, p.FullTier

structure BoundariesFull (log : List (DaemonEvent × DaemonOutput)) : Prop where
  boundary : ∀ o ∈ log, ∀ p ∈ o.2.payloads, p.tierEnabled = true → p.AtBoundary → p.FullTier
  slots : ∀ o ∈ log, ∀ slot, o.2.slot = some slot → Sampled log slot

def DaemonEvent.Sound (d : Division) (s : Daemon) : DaemonEvent → Prop
  | .tick now built => s.tierEnabled = true → slowSlot d now s.sampleFreqSlow ≠ s.lastSlowSlot →
      built ≠ []
  | .jobidFile newJobid built => newJobid ≠ "-" → s.jobid ≠ newJobid → built = true →
      s.tierEnabled = true → s.phase = .full
  | _ => True

theorem Payload.full_of_phase {p : Payload} (tiers : p.tierEnabled = true)
    (full : p.phase = .full) :
    p.FullTier := by
  refine ⟨fun tier => ?_, ?_⟩
  · rw [full]
    exact keyActive_full p.tierEnabled tier
  · rw [Payload.rowTier, tiers, full]
    exact rowTierDecide_full p.writeHdr

theorem collectToRing_header (s : Daemon) (mark : Option MarkLine) (built : Bool) :
    ∀ p ∈ (collectToRing s true mark built).2, p.tierEnabled = true → p.FullTier := by
  intro p member tiers
  cases built with
  | false => simp [collectToRing] at member
  | true =>
    obtain rfl : p = _ := List.mem_singleton.mp member
    exact Payload.full_of_phase tiers rfl

/-- What a step does with the slot: it forgets the last one, it stays in it, or it opens one
and gets a full sample for it. -/
inductive SlotMove (s t : Daemon) (out : DaemonOutput) : Prop where
  | forgotten : t.lastSlowSlot = -1 → out.slot = none → SlotMove s t out
  | kept : t.lastSlowSlot = s.lastSlowSlot → t.sampleFreqSlow = s.sampleFreqSlow →
      (∀ slot, out.slot = some slot →
        s.lastSlowSlot ≠ -1 ∧ slot = (s.sampleFreqSlow, s.lastSlowSlot)) → SlotMove s t out
  | opened : out.slot = some (t.sampleFreqSlow, t.lastSlowSlot) →
      (∃ p ∈ out.payloads, p.FullTier) → SlotMove s t out

def FullAtBoundary (out : DaemonOutput) : Prop :=
  ∀ p ∈ out.payloads, p.tierEnabled = true → p.AtBoundary → p.FullTier

theorem sampleTimer_spec {now : Double} {built : List (Option String)}
    (sound : (DaemonEvent.tick now built).Sound d s) :
    FullAtBoundary (sampleTimer d s now built).2 ∧
      SlotMove s (sampleTimer d s now built).1 (sampleTimer d s now built).2 := by
  constructor
  · intro p member _ boundary
    obtain ⟨jids, _, rfl⟩ := List.mem_map.mp member
    obtain header | ⟨jid, marked⟩ := boundary
    · cases header
    · cases jids <;> simp at marked
  · cases tiers : s.tierEnabled with
    | false => refine .kept ?_ ?_ ?_ <;> simp [sampleTimer, collectPhaseForTick, tiers]
    | true =>
      by_cases opens : slowSlot d now s.sampleFreqSlow ≠ s.lastSlowSlot
      · refine .opened ?_ ?_
        · simp [sampleTimer, collectPhaseForTick, tiers, opens]
        · obtain ⟨jids, built, rfl⟩ := List.exists_cons_of_ne_nil (sound tiers opens)
          refine ⟨_, .head _, Payload.full_of_phase ?_ ?_⟩
          · simp [collectPhaseForTick, tiers, opens]
          · simp [collectPhaseForTick, tiers, opens]
      · have same := not_not.mp opens
        have some_slot : s.lastSlowSlot ≠ -1 := by
          have positive := slowSlot_nonneg d now s.sampleFreqSlow
          omega
        refine .kept ?_ ?_ ?_ <;>
          simp [sampleTimer, collectPhaseForTick, tiers, same, some_slot]

theorem jobidWatcher_spec {newJobid : String} {built : Bool}
    (sound : (DaemonEvent.jobidFile newJobid built).Sound d s) :
    FullAtBoundary (jobidWatcher s newJobid built).2 ∧
      SlotMove s (jobidWatcher s newJobid built).1 (jobidWatcher s newJobid built).2 := by
  rw [jobidWatcher]
  by_cases changed : s.jobid ≠ newJobid
  · rw [if_pos changed, applyJobidChange]
    by_cases begins : newJobid ≠ "-"
    · rw [if_pos begins]
      constructor
      · intro p member tiers _
        cases built with
        | false => simp [collectToRing] at member
        | true =>
          obtain rfl : p = _ := List.mem_singleton.mp member
          exact Payload.full_of_phase tiers (sound begins changed rfl tiers)
      · exact .kept rfl rfl (by simp)
    · rw [if_neg begins]
      constructor
      · exact fun p member tiers _ => collectToRing_header s _ built p member tiers
      · exact .kept rfl rfl (by simp)
  · rw [if_neg changed]
    exact ⟨by simp [FullAtBoundary], .kept rfl rfl (by simp)⟩

theorem reload_spec (s : Daemon) (file : Option ConfFile) (built : Bool) :
    FullAtBoundary (reload s file built).2 ∧
      SlotMove s (reload s file built).1 (reload s file built).2 := by
  constructor
  · exact fun p member tiers _ => collectToRing_header _ _ built p member tiers
  · cases file <;> exact .forgotten rfl rfl

theorem daemonStep_spec (sound : event.Sound d s) :
    FullAtBoundary (daemonStep d s event).2 ∧
      SlotMove s (daemonStep d s event).1 (daemonStep d s event).2 := by
  cases event with
  | tick now built => exact sampleTimer_spec sound
  | rotate built =>
    exact ⟨fun p member tiers _ => collectToRing_header s _ built p member tiers,
      .kept rfl rfl (by simp [daemonStep])⟩
  | hup file built => exact reload_spec s file built
  | jobidFile newJobid built => exact jobidWatcher_spec sound

def SoundStep (d : Division) (s : Daemon) (taken : DaemonEvent × DaemonOutput) (t : Daemon) : Prop :=
  daemonStep d s taken.1 = (t, taken.2) ∧ taken.1.Sound d s

theorem Sampled.more {slot : Double × Int} (sampled : Sampled log slot)
    (taken : DaemonEvent × DaemonOutput) : Sampled (log ++ [taken]) slot := by
  obtain ⟨o, member, there⟩ := sampled
  exact ⟨o, List.mem_append_left [taken] member, there⟩

theorem BoundariesFull.step {taken : DaemonEvent × DaemonOutput} (full : BoundariesFull log)
    (last : s.lastSlowSlot ≠ -1 → Sampled log (s.sampleFreqSlow, s.lastSlowSlot))
    (step : SoundStep d s taken t) :
    BoundariesFull (log ++ [taken]) ∧
      (t.lastSlowSlot ≠ -1 → Sampled (log ++ [taken]) (t.sampleFreqSlow, t.lastSlowSlot)) := by
  obtain ⟨result, sound⟩ := step
  have spec := daemonStep_spec sound
  rw [result] at spec
  obtain ⟨boundary, move⟩ := spec
  have old : ∀ o ∈ log, ∀ slot, o.2.slot = some slot → Sampled (log ++ [taken]) slot :=
    fun o member slot here => (full.slots o member slot here).more taken
  have whole : (∀ slot, taken.2.slot = some slot → Sampled (log ++ [taken]) slot) →
      BoundariesFull (log ++ [taken]) := by
    intro new
    constructor
    · intro o member
      obtain before | here := List.mem_append.mp member
      · exact full.boundary o before
      · rw [List.mem_singleton.mp here]
        exact boundary
    · intro o member
      obtain before | here := List.mem_append.mp member
      · exact old o before
      · rw [List.mem_singleton.mp here]
        exact new
  cases move with
  | forgotten unset none_here =>
    refine ⟨whole fun slot here => ?_, fun some_slot => absurd unset some_slot⟩
    rw [none_here] at here
    cases here
  | kept same freq here =>
    constructor
    · refine whole fun slot there => ?_
      obtain ⟨some_slot, rfl⟩ := here slot there
      exact (last some_slot).more taken
    · intro some_slot
      rw [same] at some_slot ⊢
      rw [freq]
      exact (last some_slot).more taken
  | opened here sampled =>
    have now : Sampled (log ++ [taken]) (t.sampleFreqSlow, t.lastSlowSlot) :=
      ⟨taken, by simp, here, sampled⟩
    refine ⟨whole fun slot there => ?_, fun _ => now⟩
    rw [here, Option.some.injEq] at there
    exact there ▸ now

/-- Where a job begins under a full phase only and each tick that opens a slot gets a payload,
boundary payloads are full and each slot with a tick has a full sample. -/
theorem boundary_payloads_full (d : Division) (sampleFreq sampleFreqSlow : Double)
    (enableSlowTier : Bool) (jobid : String) (log : List (DaemonEvent × DaemonOutput)) (t : Daemon)
    (run : Run (SoundStep d) (daemonStart sampleFreq sampleFreqSlow enableSlowTier jobid) log t) :
    BoundariesFull log := by
  have invariant := run.logged
    (I := fun log s => BoundariesFull log ∧
      (s.lastSlowSlot ≠ -1 → Sampled log (s.sampleFreqSlow, s.lastSlowSlot)))
    ⟨⟨by simp, by simp⟩, fun some_slot => absurd rfl some_slot⟩
    (fun log s u taken held step => held.1.step held.2 step)
  exact invariant.1

def exactDivision : Division := ⟨fun a b => a / b, fun _ _ a b => div_nonneg a b.le⟩

def daemonSample : Daemon := daemonStart (some 30) (some 600) true "-"

theorem sound_next (run : Run (SoundStep d) s log t) (event : DaemonEvent)
    (sound : event.Sound d t) :
    Run (SoundStep d) s (log ++ [(event, (daemonStep d t event).2)]) (daemonStep d t event).1 :=
  run.next ⟨rfl, sound⟩

theorem boundary_payloads_full_begin :
    ∃ log t, log.length = 3 ∧ Run (SoundStep exactDivision) daemonSample log t ∧
      BoundariesFull log := by
  have header := sound_next (d := exactDivision) (s := daemonSample) .start (.rotate true) trivial
  have tick := sound_next header (.tick (some 30) [none]) fun _ _ => List.cons_ne_nil none []
  have begins := sound_next tick (.jobidFile "7" true) fun _ _ _ _ => by decide +kernel
  exact ⟨_, _, rfl, begins, boundary_payloads_full _ _ _ _ _ _ _ begins⟩

def DaemonStep (d : Division) (s : Daemon) (taken : DaemonEvent × DaemonOutput) (t : Daemon) : Prop :=
  daemonStep d s taken.1 = (t, taken.2)

theorem daemon_next (run : Run (DaemonStep d) s log t) (event : DaemonEvent) :
    Run (DaemonStep d) s (log ++ [(event, (daemonStep d t event).2)]) (daemonStep d t event).1 :=
  run.next rfl

def fastTicked : Daemon :=
  let events : List DaemonEvent := [.rotate true, .tick (some 30) [none], .tick (some 60) [none]]
  events.foldl (fun s event => (daemonStep exactDivision s event).1) daemonSample

theorem job_begins_fast :
    ∃ log t, Run (DaemonStep exactDivision) daemonSample log t ∧ ¬ BoundariesFull log := by
  have header := daemon_next (d := exactDivision) (s := daemonSample) .start (.rotate true)
  have full := daemon_next header (.tick (some 30) [none])
  have fast := daemon_next full (.tick (some 60) [none])
  refine ⟨_, _, daemon_next fast (.jobidFile "7" true), fun whole => ?_⟩
  have begun : (daemonStep exactDivision fastTicked (.jobidFile "7" true)).2.payloads =
      [⟨false, some (.jobBegin "7"), true, .fastOnly⟩] := by decide +kernel
  have sample := whole.boundary (.jobidFile "7" true,
      (daemonStep exactDivision fastTicked (.jobidFile "7" true)).2)
    (List.mem_append_right _ (.head _))
  rw [begun] at sample
  have sparse := (sample _ (.head _) rfl (.inr ⟨"7", .inl rfl⟩)).2
  exact absurd sparse (by decide)

end Runs

end PerfStats.Monitor
