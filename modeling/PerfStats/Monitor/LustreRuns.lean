import PerfStats.Monitor.Lustre

namespace PerfStats.Monitor

open Lib Function

section Totals

def total (key : Bytes) (calls : List Call) : Nat :=
  ((calls.filter fun call => call.key = key).map fun call => call.val.toNat).sum

def Call.overwrites (key : Bytes) : Call → Bool
  | .set k _ => decide (k = key)
  | .inc _ _ => false

/-- What a key's value is off by: the amounts an overwrite drops, or, where nothing overwrites the
key, what the row had. -/
def stale (key : Bytes) (had : UInt64) (calls : List Call) : Nat :=
  match calls.reverse.dropWhile fun call => !call.overwrites key with
  | [] => had.toNat
  | _ :: before => total key before

variable {key : Bytes} {calls : List Call} {c : Collector} {tier : Tier} {row : Row} {call : Call}

theorem total_append (key : Bytes) (calls more : List Call) :
    total key (calls ++ more) = total key calls + total key more := by
  simp only [total, List.filter_append, List.map_append, List.sum_append]

theorem total_reverse (key : Bytes) (calls : List Call) :
    total key calls.reverse = total key calls := by
  simp only [total, List.filter_reverse, List.map_reverse, List.sum_reverse]

theorem total_cons (key : Bytes) (call : Call) (calls : List Call) :
    total key (call :: calls) = (if call.key = key then call.val.toNat else 0) + total key calls := by
  by_cases here : call.key = key <;> simp [total, here]

theorem active_of_full (c : Collector) (full : tier.isFull) (key : Bytes) :
    collectTierKeyActive c tier key = true := by
  rcases full with disabled | whole
  · simp [collectTierKeyActive, disabled]
  · simp [collectTierKeyActive, whole]

theorem statsWrite_at (full : tier.isFull) (known : c.hasKey key = true) (k : Bytes)
    (val : UInt64) : statsWrite c tier row k val key = if k = key then val else row key := by
  rw [statsWrite]
  by_cases here : k = key
  · subst here
    rw [if_pos ⟨known, active_of_full c full k⟩, if_pos rfl, update_self]
  · rw [if_neg here]
    split
    · exact update_of_ne (fun same => here same.symm) _ _
    · rfl

theorem Call.key_of_overwrites (overwrites : call.overwrites key = true) :
    call.key = key := by
  cases call with
  | set k val => simpa [Call.overwrites, Call.key] using overwrites
  | inc k val => simp [Call.overwrites] at overwrites

theorem Call.run_overwriting (full : tier.isFull) (known : c.hasKey key = true)
    (overwrites : call.overwrites key = true) : call.run c tier row key = call.val := by
  cases call with
  | set k val =>
    have same : k = key := Call.key_of_overwrites overwrites
    rw [Call.run, statsWrite_at full known, if_pos same, Call.val]
  | inc k val => simp [Call.overwrites] at overwrites

theorem Call.run_adding (full : tier.isFull) (known : c.hasKey key = true)
    (adds : call.overwrites key = false) :
    call.run c tier row key = row key + if call.key = key then call.val else 0 := by
  cases call with
  | set k val =>
    have other : ¬ k = key := by simpa [Call.overwrites] using adds
    rw [Call.run, statsWrite_at full known, if_neg other, Call.key, if_neg other, UInt64.add_zero]
  | inc k val =>
    rw [Call.run, statsWrite_at full known, Call.key, Call.val]
    by_cases same : k = key
    · rw [if_pos same, if_pos same, same]
    · rw [if_neg same, if_neg same, UInt64.add_zero]

theorem run_adding (full : tier.isFull) (known : c.hasKey key = true)
    (adds : ∀ call ∈ calls, call.overwrites key = false) :
    (calls.foldl (Call.run c tier) row key).toNat =
      ((row key).toNat + total key calls) % 2 ^ 64 := by
  induction calls generalizing row with
  | nil =>
    have small := (row key).toNat_lt
    exact (Nat.mod_eq_of_lt small).symm
  | cons call calls ih =>
    have here := adds call (.head _)
    have later : ∀ call ∈ calls, call.overwrites key = false := by
      intro call member
      exact adds call (.tail _ member)
    rw [List.foldl_cons, ih later, Call.run_adding full known here, UInt64.toNat_add, total_cons,
      Nat.mod_add_mod, Nat.add_assoc]
    by_cases same : call.key = key
    · rw [if_pos same, if_pos same]
    · rw [if_neg same, if_neg same]
      rfl

theorem stale_cases (key : Bytes) (had : UInt64) (calls : List Call) :
    (∀ call ∈ calls, call.overwrites key = false) ∧ stale key had calls = had.toNat ∨
    ∃ before call later, calls = before ++ call :: later ∧ call.overwrites key = true ∧
      (∀ call ∈ later, call.overwrites key = false) ∧ stale key had calls = total key before := by
  rw [stale]
  have parts := List.takeWhile_append_dropWhile (p := fun call => !Call.overwrites key call)
    (l := calls.reverse)
  have kept : ∀ call ∈ calls.reverse.takeWhile fun call => !Call.overwrites key call,
      call.overwrites key = false := by
    intro call member
    simpa using List.mem_takeWhile_imp member
  cases rest : calls.reverse.dropWhile fun call => !Call.overwrites key call with
  | nil =>
    rw [rest, List.append_nil] at parts
    rw [parts] at kept
    exact .inl ⟨fun call member => kept call (List.mem_reverse.mpr member), rfl⟩
  | cons call before =>
    rw [rest] at parts
    have overwrites : call.overwrites key = true := by
      have first := List.head?_dropWhile_not (fun call => !Call.overwrites key call) calls.reverse
      simpa [rest] using first
    refine .inr ⟨before.reverse, call,
      (calls.reverse.takeWhile fun call => !Call.overwrites key call).reverse, ?_, overwrites,
      fun call member => kept call (List.mem_reverse.mp member), ?_⟩
    · have back := congrArg List.reverse parts
      simpa using back.symm
    · exact (total_reverse key before).symm

theorem value_eq_total_iff (full : tier.isFull) (known : c.hasKey key = true) :
    (calls.foldl (Call.run c tier) row key).toNat = total key calls ↔
      stale key (row key) calls = 0 ∧ total key calls < 2 ^ 64 := by
  have word := (calls.foldl (Call.run c tier) row key).toNat_lt
  have had := (row key).toNat_lt
  rcases stale_cases key (row key) calls with
    ⟨adds, off⟩ | ⟨before, call, later, rfl, overwrites, adds, off⟩
  · rw [run_adding full known adds] at word ⊢
    omega
  · have left : ((before ++ call :: later).foldl (Call.run c tier) row key).toNat =
        (call.val.toNat + total key later) % 2 ^ 64 := by
      rw [List.foldl_append, List.foldl_cons, run_adding full known adds,
        Call.run_overwriting full known overwrites]
    have whole : total key (before ++ call :: later) =
        total key before + (call.val.toNat + total key later) := by
      rw [total_append, total_cons, if_pos (Call.key_of_overwrites overwrites)]
    omega

end Totals

section Ticks

variable {c : Collector} {tier : Tier} {s : Lustre}

def Lustre.row (s : Lustre) (mnt : Bytes) : Row :=
  if s.stCurrentDict.dTable.any fun e => decide (e.dKey = some mnt) then s.rows mnt else 0

def Collector.callsFor (c : Collector) (mnt : Bytes) (reads : List Read) : List Call :=
  (reads.filter fun read => read.1 = mnt).flatMap fun read => c.fileCalls read.2

abbrev Lustre.Sane (s : Lustre) : Prop := WellFormed id .strhash s.stCurrentDict

theorem any_iff_holds {d : Dict Bytes} {p : Bytes} :
    (d.dTable.any fun e => decide (e.dKey = some p)) = true ↔ Holds d p := by
  rw [List.any_eq_true]
  constructor
  · intro present
    obtain ⟨e, member, key⟩ := present
    obtain ⟨slot, _, rfl⟩ := entryAt_of_mem member
    exact ⟨slot, by simpa using key⟩
  · intro holds
    obtain ⟨slot, present⟩ := holds
    exact ⟨_, (mem_of_key present).2, by simpa using present⟩

theorem Lustre.row_of_holds {mnt : Bytes} (holds : Holds s.stCurrentDict mnt) :
    s.row mnt = s.rows mnt := if_pos (any_iff_holds.mpr holds)

theorem Lustre.row_of_not {mnt : Bytes} (absent : ¬ Holds s.stCurrentDict mnt) : s.row mnt = 0 :=
  if_neg (fun present => absent (any_iff_holds.mp present))

theorem getCurrentStats_spec (obd : Obd) (dev : Bytes) (sane : s.Sane) :
    ∃ t found, getCurrentStats s obd dev = .ok (t, found) ∧ t.Sane ∧
      (∀ mnt, t.row mnt = s.row mnt) ∧ (found = true → Holds t.stCurrentDict dev) := by
  rw [getCurrentStats]
  cases at_key : dictEntryRef id s.stCurrentDict (dictStrhash dev) dev with
  | none => exact ⟨s, false, rfl, sane, fun _ => rfl, by simp⟩
  | some ent =>
    have slot := (dictEntryRef_cases (h := .strhash) sane.sound at_key).2.2
    cases key : (entryAt s.stCurrentDict.dTable ent).dKey with
    | some p =>
      refine ⟨s, true, by simp only [key], sane, fun _ => rfl, fun _ => ⟨ent, ?_⟩⟩
      obtain ⟨q, present, same⟩ | ⟨_, free⟩ := slot
      · rw [present, ← same, id]
      · obtain ⟨_, _, kind, _⟩ := free
        rw [key_of_free kind sane.sound] at key
        cases key
    | none =>
      have absent : ¬ Holds s.stCurrentDict dev := by
        obtain ⟨q, present, _⟩ | ⟨absent, _⟩ := slot
        · rw [key] at present
          cases present
        · intro holds
          obtain ⟨t, live⟩ := (@holds_text Bytes Bytes id .strhash _ dev sane.sound).mp
            ⟨dev, holds, rfl⟩
          exact absent t live
      by_cases created : obd.created = true
      · obtain ⟨d, rc, result, sane', outcome⟩ :=
          dictEntrySet_spec (h := .strhash) obd.memory sane (p := dev) at_key
        simp only [key, if_pos created]
        change dictEntrySet id obd.memory s.stCurrentDict ent (dictStrhash dev) dev = _ at result
        rw [result]
        obtain ⟨rfl, stored, _⟩ | ⟨rfl, same, _⟩ := outcome
        · refine ⟨_, true, rfl, sane', fun mnt => ?_, fun _ => (stored dev).mpr (.inl rfl)⟩
          by_cases here : mnt = dev
          · subst here
            rw [Lustre.row_of_not absent, Lustre.row_of_holds ((stored mnt).mpr (.inl rfl))]
            exact update_self _ _ _
          · have rest : Holds d mnt ↔ Holds s.stCurrentDict mnt := by
              rw [stored]
              simp [here]
            by_cases holds : Holds s.stCurrentDict mnt
            · rw [Lustre.row_of_holds holds, Lustre.row_of_holds (rest.mpr holds)]
              exact update_of_ne here _ _
            · rw [Lustre.row_of_not holds, Lustre.row_of_not fun there => holds (rest.mp there)]
        · refine ⟨_, false, rfl, sane', fun mnt => ?_, by simp⟩
          by_cases holds : Holds s.stCurrentDict mnt
          · rw [Lustre.row_of_holds holds, Lustre.row_of_holds ((same mnt).mpr holds)]
          · rw [Lustre.row_of_not holds, Lustre.row_of_not fun there => holds ((same mnt).mp there)]
      · exact ⟨s, false, by simp only [key, if_neg created], sane, fun _ => rfl, by simp⟩

theorem Collector.each_spec (c : Collector) (tier : Tier) (obd : Obd) (sane : s.Sane) :
    ∃ t reads, c.each tier s obd = .ok (t, reads) ∧ t.Sane ∧
      ∀ mnt, t.row mnt = (c.callsFor mnt reads).foldl (Call.run c tier) (s.row mnt) := by
  rw [Collector.each]
  split
  · exact ⟨s, [], rfl, sane, fun _ => rfl⟩
  · cases obd.mnt with
    | none => exact ⟨s, [], rfl, sane, fun _ => rfl⟩
    | some dev =>
      obtain ⟨t, found, result, sane', same, there⟩ := getCurrentStats_spec obd dev sane
      simp only [result, bind, Except.bind]
      cases found with
      | false => exact ⟨t, [], rfl, sane', fun mnt => same mnt⟩
      | true =>
        cases c.statsNames.findSome? obd.files with
        | none => exact ⟨t, [], rfl, sane', fun mnt => same mnt⟩
        | some content =>
          have holds := there rfl
          refine ⟨_, _, rfl, sane', fun mnt => ?_⟩
          by_cases here : mnt = dev
          · subst here
            have calls : c.callsFor mnt [(mnt, content)] = c.fileCalls content := by
              simp [Collector.callsFor]
            rw [calls, ← same, Lustre.row_of_holds holds, Lustre.row_of_holds (by exact holds)]
            exact update_self _ _ _
          · have calls : c.callsFor mnt [(dev, content)] = [] := by
              simp [Collector.callsFor, Ne.symm here]
            rw [calls, ← same, List.foldl_nil]
            by_cases present : Holds t.stCurrentDict mnt
            · rw [Lustre.row_of_holds present, Lustre.row_of_holds (by exact present)]
              exact update_of_ne here _ _
            · rw [Lustre.row_of_not present, Lustre.row_of_not (by exact present)]

theorem Collector.collect_spec (c : Collector) (tier : Tier) (obds : List Obd) (sane : s.Sane) :
    ∃ t reads, c.collect tier s obds = .ok (t, reads) ∧ t.Sane ∧
      ∀ mnt, t.row mnt = (c.callsFor mnt reads).foldl (Call.run c tier) (s.row mnt) := by
  induction obds generalizing s with
  | nil => exact ⟨s, [], rfl, sane, fun _ => rfl⟩
  | cons obd rest ih =>
    obtain ⟨mid, read, first, sane', there⟩ := c.each_spec tier obd sane
    obtain ⟨t, reads, later, sane'', whole⟩ := ih sane'
    refine ⟨t, read ++ reads, ?_, sane'', fun mnt => ?_⟩
    · rw [Collector.collect, first]
      simp only [bind, Except.bind, later]
      rfl
    · rw [whole, there, ← List.foldl_append]
      simp only [Collector.callsFor, List.filter_append, List.flatMap_append]

theorem Collector.prepare_spec (c : Collector) (memory : Nat → Bool) :
    ∃ t, c.step s (.prepare memory) = .ok (t, []) ∧ (t.stEnabled = true → t.Sane) := by
  obtain ⟨made, result, new⟩ := @dictInit_spec Bytes Bytes id .strhash memory 0
  rw [Collector.step, result]
  cases made with
  | none => exact ⟨.initial, rfl, by simp [Lustre.initial]⟩
  | some d => exact ⟨_, rfl, fun _ => (new d rfl).1⟩

theorem Collector.step_spec (c : Collector) (event : Event) (sane : s.stEnabled = true → s.Sane) :
    ∃ t reads, c.step s event = .ok (t, reads) ∧ (t.stEnabled = true → t.Sane) := by
  cases event with
  | prepare memory =>
    obtain ⟨t, result, sane'⟩ := c.prepare_spec (s := s) memory
    exact ⟨t, [], result, sane'⟩
  | tick tier obds =>
    rw [Collector.step]
    split
    · next enabled =>
        obtain ⟨t, reads, result, sane', _⟩ := c.collect_spec tier obds (sane enabled)
        exact ⟨t, reads, result, fun _ => sane'⟩
    · exact ⟨s, [], rfl, sane⟩

def Collector.advance (c : Collector) (s : Lustre) (event : Event) : Lustre :=
  match c.step s event with
  | .ok (t, _) => t
  | .error _ => s

def SumsRight (c : Collector) (s : Lustre) : Event → Prop
  | .tick tier obds => tier.isFull → s.stEnabled = true →
      ∃ t reads, c.step s (.tick tier obds) = .ok (t, reads) ∧ ∀ mnt key, c.hasKey key = true →
        (t.row mnt key).toNat = total key (c.callsFor mnt reads)
  | .prepare _ => True

/-- A full tick finds zero under each key that no call overwrites, puts nothing there before the
last overwrite, and its amounts fit the word. -/
def StartsClean (c : Collector) (s : Lustre) : Event → Prop
  | .tick tier obds => tier.isFull → s.stEnabled = true →
      ∀ t reads, c.step s (.tick tier obds) = .ok (t, reads) → ∀ mnt key, c.hasKey key = true →
        stale key (s.row mnt key) (c.callsFor mnt reads) = 0 ∧
          total key (c.callsFor mnt reads) < 2 ^ 64
  | .prepare _ => True

theorem sumsRight_iff (event : Event) (sane : s.stEnabled = true → s.Sane) :
    SumsRight c s event ↔ StartsClean c s event := by
  cases event with
  | prepare memory => exact Iff.rfl
  | tick tier obds =>
    constructor
    · intro right full enabled t reads result mnt key known
      obtain ⟨t', reads', again, sums⟩ := right full enabled
      rw [result, Except.ok.injEq, Prod.mk.injEq] at again
      obtain ⟨rfl, rfl⟩ := again
      obtain ⟨t', reads', same, _, rows⟩ := c.collect_spec tier obds (sane enabled)
      rw [Collector.step, if_pos enabled, same, Except.ok.injEq, Prod.mk.injEq] at result
      obtain ⟨rfl, rfl⟩ := result
      have value := sums mnt key known
      rw [rows] at value
      exact (value_eq_total_iff full known).mp value
    · intro clean full enabled
      obtain ⟨t, reads, same, _, rows⟩ := c.collect_spec tier obds (sane enabled)
      have result : c.step s (.tick tier obds) = .ok (t, reads) := by
        rw [Collector.step, if_pos enabled, same]
      refine ⟨t, reads, result, fun mnt key known => ?_⟩
      rw [rows]
      exact (value_eq_total_iff full known).mpr (clean full enabled t reads result mnt key known)

theorem Collector.runs (c : Collector) (events : List Event)
    (sane : s.stEnabled = true → s.Sane) : ∃ out t, Traces c.step s events out t := by
  induction events generalizing s with
  | nil => exact ⟨[], s, .nil s⟩
  | cons event events ih =>
    obtain ⟨mid, reads, taken, sane'⟩ := c.step_spec event sane
    obtain ⟨out, t, rest⟩ := ih sane'
    exact ⟨reads :: out, t, .cons taken rest⟩

/-- Every run goes through, and each full tick leaves the sums of its own files exactly where it
starts clean: nothing is carried along, and no sum is overwritten. -/
theorem lustre_sums_iff (c : Collector) (events : List Event) :
    (∃ out t, Traces c.step .initial events out t) ∧
    (Throughout c.advance (SumsRight c) .initial events ↔
      Throughout c.advance (StartsClean c) .initial events) := by
  have start : Lustre.initial.stEnabled = true → Lustre.initial.Sane := by simp [Lustre.initial]
  constructor
  · exact c.runs events start
  · apply throughout_congr (K := fun s : Lustre => s.stEnabled = true → s.Sane) start
    · intro s event sane _
      obtain ⟨t, reads, taken, sane'⟩ := c.step_spec event sane
      rw [Collector.advance, taken]
      exact sane'
    · intro s event sane
      exact sumsRight_iff event sane

end Ticks

section Collectors

def obdOf (name file content : String) : Obd where
  name := bytesOf name
  mnt := some (bytesOf "/scratch")
  files := fun f => if f = bytesOf file then some (bytesOf content) else none
  created := true
  memory := granted

def fullTick (obds : List Obd) : Event := .tick ⟨true, true⟩ obds

def oscObds : List Obd :=
  [obdOf "OST0000" "osc_stats" "req_waittime 5 samples [usec] 1 2 9\n"]

def mdcObds : List Obd :=
  [obdOf "MDT0000" "md_stats" "close 3 samples [reqs]\n",
    obdOf "MDT0001" "md_stats" "close 4 samples [reqs]\n"]

def leavesSum (c : Collector) (s : Lustre) (obds : List Obd) (mnt key : Bytes) : Bool :=
  match c.step s (fullTick obds) with
  | .ok (t, reads) => decide ((t.row mnt key).toNat = total key (c.callsFor mnt reads))
  | .error _ => false

theorem not_sumsRight {c : Collector} {s : Lustre} {obds : List Obd} (mnt key : Bytes)
    (enabled : s.stEnabled = true) (known : c.hasKey key = true)
    (wrong : leavesSum c s obds mnt key = false) : ¬ SumsRight c s (fullTick obds) := by
  intro right
  obtain ⟨t, reads, result, sums⟩ := right (.inr rfl) enabled
  have value := sums mnt key known
  rw [leavesSum, fullTick, result] at wrong
  simp [value] at wrong

/-- Two ticks over one unchanged `osc_stats` file leave ten requests for five; of two metadata
targets of a mount only the last is left. -/
theorem lustre_sums_wrong :
    ¬ Throughout Collector.osc.advance (SumsRight .osc) .initial
        [.prepare granted, fullTick oscObds, fullTick oscObds] ∧
    ¬ Throughout Collector.mdc.advance (SumsRight .mdc) .initial
        [.prepare granted, fullTick mdcObds] := by
  constructor
  · intro all
    apply not_sumsRight (bytesOf "/scratch") (bytesOf "reqs") _ _ _ all.2.2.1
    · decide +kernel
    · decide +kernel
    · decide +kernel
  · intro all
    apply not_sumsRight (bytesOf "/scratch") (bytesOf "mds_close") _ _ _ all.2.1
    · decide +kernel
    · decide +kernel
    · decide +kernel

end Collectors

end PerfStats.Monitor
