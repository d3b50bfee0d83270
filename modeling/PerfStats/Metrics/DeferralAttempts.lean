import PerfStats.Lib.Dict
import PerfStats.Lib.Runs

namespace PerfStats.Metrics

open Lib

section Model

structure DeferralSettings where
  retryS : ℚ
  quarantineS : ℚ
  maxAgeS : ℚ
  maxRetries : Int

def deferredRetryAfterS (settings : DeferralSettings) (attempts : Nat) (ageS : ℚ) : ℚ × Bool :=
  if settings.maxRetries ≤ attempts ∨ settings.maxAgeS ≤ ageS then (settings.quarantineS, true)
  else (min settings.quarantineS (settings.retryS * 2 ^ (attempts - 1)), false)

def mergeDeferredRetryAt (existing : Option ℚ) (candidate : ℚ) : ℚ :=
  match existing with
  | none => candidate
  | some retryAt => min retryAt candidate

structure DeferredMeta where
  firstSeen : ℚ
  attempts : Nat
deriving DecidableEq

/-- One call of `_defer_not_ready_jid`: the attempts it counts and the delay it comes to. -/
structure Deferral (κ : Type*) where
  jid : κ
  attempts : Nat
  ageS : ℚ
  retryAfter : ℚ
deriving DecidableEq

/-- The producer's dictionaries; `verdicts` and `deferrals` list what has happened so far. -/
structure Producer (κ : Type*) where
  deferredNotReady : Dict κ ℚ
  deferredMeta : Dict κ DeferredMeta
  verdicts : List (κ × Bool)
  deferrals : List (Deferral κ)

def Producer.start (κ : Type*) : Producer κ := ⟨Dict.empty, Dict.empty, [], []⟩

/-- What a fill does with a candidate: it is listed, and it gets a verdict. The backfill lane skips
a not-ready one without a notice. -/
inductive Probe (κ : Type*) where
  | listed (jid : κ) (now : ℚ)
  | verdict (jid : κ) (ready : Bool)

def Probe.hit? {κ : Type*} : Probe κ → Option κ
  | .verdict jid false => some jid
  | _ => none

def Probe.ready? {κ : Type*} : Probe κ → Option κ
  | .verdict jid true => some jid
  | _ => none

def Probe.verdict? {κ : Type*} : Probe κ → Option (κ × Bool)
  | .verdict jid ready => some (jid, ready)
  | _ => none

variable {κ : Type*} [DecidableEq κ]

namespace Producer

def rememberCandidate (s : Producer κ) (jid : κ) (now : ℚ) : Producer κ :=
  match s.deferredMeta.get? jid with
  | some _ => s
  | none => { s with deferredMeta := s.deferredMeta.set jid ⟨now, 0⟩ }

def deferNotReadyJid (settings : DeferralSettings) (s : Producer κ) (jid : κ) (now : ℚ) :
    Producer κ :=
  let entry := (s.deferredMeta.get? jid).getD ⟨now, 0⟩
  let attempts := entry.attempts + 1
  let ageS := max 0 (now - entry.firstSeen)
  let retryAfter := (deferredRetryAfterS settings attempts ageS).1
  { s with
    deferredMeta := s.deferredMeta.set jid { entry with attempts := attempts }
    deferredNotReady := s.deferredNotReady.set jid
      (mergeDeferredRetryAt (s.deferredNotReady.get? jid) (now + retryAfter))
    deferrals := s.deferrals ++ [⟨jid, attempts, ageS, retryAfter⟩] }

/-- One call of `_fill_ready_queue`. -/
def fill (s : Producer κ) : List (Probe κ) → Producer κ
  | [] => s
  | .listed jid now :: rest => (s.rememberCandidate jid now).fill rest
  | .verdict jid ready :: rest => { s with verdicts := s.verdicts ++ [(jid, ready)] }.fill rest

/-- `for jid, rt in deferred_hits`; `clock` has the time of each call in the round. -/
def deferHits (settings : DeferralSettings) (clock : Nat → ℚ) (k : Nat) (s : Producer κ) :
    List κ → Producer κ
  | [] => s
  | jid :: rest => (s.deferNotReadyJid settings jid (clock k)).deferHits settings clock (k + 1) rest

/-- `for candidate in local_ready: deferred_meta.pop(candidate.jid, None)`. -/
def popReady (s : Producer κ) (ready : List κ) : Producer κ :=
  { s with deferredMeta := s.deferredMeta.filter fun jid _ => decide (jid ∉ ready) }

end Producer

def readinessProbeTargetMin : Int := 64

/-- What a round finds; the verdicts of its fills are arbitrary, the first is for the deferred and
rescanned candidates alone. -/
structure ProducerRound (κ : Type*) where
  now : ℚ
  rescan : List κ
  probeCap : Int
  queueRoom : Int
  extraFill : List κ → List (Probe κ)
  listingFill : List (Probe κ)
  clock : Nat → ℚ

namespace ProducerRound

variable (r : ProducerRound κ) (s : Producer κ)

/-- The producer behind the `deferred_not_ready.pop` of the due jids. -/
def dueTaken : Producer κ :=
  { s with deferredNotReady := s.deferredNotReady.filter fun _ retryAt => decide (r.now < retryAt) }

def extraCandidates : List κ :=
  let due := s.deferredNotReady.filter fun _ retryAt => decide (retryAt ≤ r.now)
  let waiting := (r.dueTaken s).deferredNotReady
  let rescanDue :=
    if waiting.entries.isEmpty then r.rescan
    else r.rescan.filter fun jid => decide ((waiting.get? jid).getD 0 ≤ r.now)
  (due.entries.map Prod.fst ++ rescanDue).foldl (fun seen jid => if jid ∈ seen then seen else seen ++ [jid]) []

def probeTarget : Int := max readinessProbeTargetMin (min r.probeCap r.queueRoom)

def extraProbes : List (Probe κ) :=
  if (r.extraCandidates s).isEmpty then [] else r.extraFill (r.extraCandidates s)

def extraSuffices : Bool :=
  !(r.extraCandidates s).isEmpty &&
    decide (r.probeTarget ≤ ((r.extraProbes s).filterMap Probe.ready?).length)

/-- `_producer_loop`, one round. -/
def run (settings : DeferralSettings) : Producer κ :=
  let extra := r.extraProbes s
  let hits := extra.filterMap Probe.hit?
  let ready := extra.filterMap Probe.ready?
  let filled := ((r.dueTaken s).fill extra).deferHits settings r.clock 0 hits
  if r.extraSuffices s then filled.popReady ready
  else
    let hits' := hits ++ r.listingFill.filterMap Probe.hit?
    let ready' := ready ++ r.listingFill.filterMap Probe.ready?
    ((filled.fill r.listingFill).deferHits settings r.clock hits.length hits').popReady ready'

end ProducerRound

end Model

section Counting

/-- How many not-ready verdicts follow the last ready one; `n` are counted before. -/
def sinceReady : Nat → List Bool → Nat
  | n, [] => n
  | _, true :: rest => sinceReady 0 rest
  | n, false :: rest => sinceReady (n + 1) rest

def verdictNumbers : Nat → List Bool → List Nat
  | _, [] => []
  | _, true :: rest => verdictNumbers 0 rest
  | n, false :: rest => (n + 1) :: verdictNumbers (n + 1) rest

variable (n : Nat) {v : List Bool}

theorem sinceReady_append (v w : List Bool) :
    sinceReady n (v ++ w) = sinceReady (sinceReady n v) w := by
  induction v generalizing n with
  | nil => rfl
  | cons ready rest ih => cases ready <;> exact ih _

theorem verdictNumbers_append (v w : List Bool) :
    verdictNumbers n (v ++ w) = verdictNumbers n v ++ verdictNumbers (sinceReady n v) w := by
  induction v generalizing n with
  | nil => rfl
  | cons ready rest ih =>
    cases ready with
    | true => exact ih 0
    | false => exact congrArg ((n + 1) :: ·) (ih (n + 1))

theorem verdictNumbers_length (v : List Bool) : (verdictNumbers n v).length = v.count false := by
  induction v generalizing n with
  | nil => rfl
  | cons ready rest ih => cases ready <;> simp [verdictNumbers, ih]

def upFrom (n count : Nat) : List Nat := (List.range count).map fun i => n + i + 1

theorem upFrom_length (count : Nat) : (upFrom n count).length = count := by simp [upFrom]

theorem upFrom_succ (count : Nat) : upFrom n (count + 1) = (n + 1) :: upFrom (n + 1) count := by
  unfold upFrom
  rw [List.range_succ_eq_map, List.map_cons, List.map_map]
  refine congrArg₂ _ (by omega) (List.map_congr_left fun i _ => ?_)
  simp only [Function.comp_apply]
  omega

theorem upFrom_add (a b : Nat) : upFrom n (a + b) = upFrom n a ++ upFrom (n + a) b := by
  unfold upFrom
  rw [List.range_add, List.map_append, List.map_map]
  refine congrArg _ (List.map_congr_left fun i _ => ?_)
  simp only [Function.comp_apply]
  omega

/-- The verdicts of a round come to what its deferrals make of them: the ready ones are last, or
nothing counts before one with a not-ready behind. -/
structure Settles (n : Nat) (v : List Bool) : Prop where
  last : true ∈ v → v.getLast? = some true
  behind : ∀ early late, v = early ++ true :: late → false ∈ late → n + early.count false = 0

theorem settles_nil : Settles n [] where
  last := fun mem => absurd mem List.not_mem_nil
  behind := fun early late split => absurd split (by simp)

theorem settles_notReady {n : Nat} {rest : List Bool} :
    Settles n (false :: rest) ↔ Settles (n + 1) rest := by
  constructor
  · intro settles
    refine ⟨fun mem => ?_, fun early late split mem => ?_⟩
    · have last := settles.last (.tail _ mem)
      rwa [List.getLast?_cons_of_ne_nil (List.ne_nil_of_mem mem)] at last
    · have none := settles.behind (false :: early) late (by rw [split, List.cons_append]) mem
      rw [List.count_cons_self] at none
      omega
  · intro settles
    refine ⟨fun mem => ?_, fun early late split mem => ?_⟩
    · have later : true ∈ rest := by simpa using mem
      rw [List.getLast?_cons_of_ne_nil (List.ne_nil_of_mem later)]
      exact settles.last later
    · cases early with
      | nil => simp at split
      | cons first early =>
        rw [List.cons_append, List.cons.injEq] at split
        have none := settles.behind early late split.2 mem
        omega

theorem settles_ready {n : Nat} {rest : List Bool} :
    Settles n (true :: rest) ↔
      (false ∈ rest → n = 0 ∧ true ∈ rest ∧ Settles 0 rest) := by
  constructor
  · intro settles mem
    have zero : n = 0 := by simpa using settles.behind [] rest rfl mem
    have last := settles.last (.head _)
    rw [List.getLast?_cons_of_ne_nil (List.ne_nil_of_mem mem)] at last
    refine ⟨zero, List.mem_of_getLast? last, fun _ => last, fun early late split mem => ?_⟩
    have none := settles.behind (true :: early) late (by rw [split, List.cons_append]) mem
    rw [List.count_cons_of_ne (by decide)] at none
    omega
  · intro later
    by_cases mem : false ∈ rest
    · obtain ⟨rfl, some, settles⟩ := later mem
      refine ⟨fun _ => ?_, fun early late split mem => ?_⟩
      · rw [List.getLast?_cons_of_ne_nil (List.ne_nil_of_mem mem)]
        exact settles.last some
      · cases early with
        | nil => rfl
        | cons first early =>
          rw [List.cons_append, List.cons.injEq] at split
          rw [← split.1, List.count_cons_of_ne (by decide)]
          exact settles.behind early late split.2 mem
    · have all : ∀ ready ∈ rest, ready = true := fun ready there => by
        cases ready with
        | true => rfl
        | false => exact absurd there mem
      refine ⟨fun _ => ?_, fun early late split there => ?_⟩
      · have end' : ∀ ready ∈ true :: rest, ready = true := by simpa using all
        have last := List.getLast?_eq_some_getLast (List.cons_ne_nil true rest)
        rw [last, end' _ (List.getLast_mem _)]
      · refine absurd ?_ mem
        cases early with
        | nil => simp_all
        | cons first early =>
          rw [List.cons_append, List.cons.injEq] at split
          rw [split.2]
          exact List.mem_append_right _ (.tail _ there)

theorem sinceReady_ready (none : false ∉ v) : sinceReady 0 v = 0 := by
  induction v with
  | nil => rfl
  | cons ready rest ih =>
    cases ready with
    | true => exact ih fun mem => none (.tail _ mem)
    | false => exact absurd (.head _) none

theorem sinceReady_notReady {n : Nat} (none : true ∉ v) : sinceReady n v = n + v.count false := by
  induction v generalizing n with
  | nil => rfl
  | cons ready rest ih =>
    cases ready with
    | true => exact absurd (.head _) none
    | false =>
      rw [sinceReady, ih fun mem => none (.tail _ mem), List.count_cons_self]
      omega

theorem verdictNumbers_head (mem : false ∈ v) : (verdictNumbers 0 v).head? = some 1 := by
  induction v with
  | nil => exact absurd mem List.not_mem_nil
  | cons ready rest ih =>
    cases ready with
    | true => exact ih (by simpa using mem)
    | false => rfl

theorem settled_iff {n : Nat} : (sinceReady n v = (if true ∈ v then 0 else n + v.count false) ∧
      verdictNumbers n v = upFrom n (v.count false)) ↔ Settles n v := by
  induction v generalizing n with
  | nil => exact iff_of_true ⟨rfl, rfl⟩ (settles_nil n)
  | cons ready rest ih =>
    cases ready with
    | false =>
      rw [settles_notReady, ← ih, sinceReady, verdictNumbers, List.count_cons_self, upFrom_succ,
        List.cons.injEq, show n + (rest.count false + 1) = n + 1 + rest.count false by omega]
      simp
    | true =>
      rw [settles_ready, sinceReady, verdictNumbers, List.count_cons_of_ne (by decide)]
      rw [if_pos (.head _)]
      by_cases mem : false ∈ rest
      · rw [forall_prop_of_true mem]
        obtain ⟨m, count⟩ := Nat.exists_eq_succ_of_ne_zero (List.count_pos_iff.mpr mem).ne'
        constructor
        · rintro ⟨zero, numbers⟩
          have first := verdictNumbers_head mem
          rw [numbers, count, upFrom_succ, List.head?_cons] at first
          obtain rfl : n = 0 := by simpa using first
          have some : true ∈ rest := by
            by_contra none
            rw [sinceReady_notReady none] at zero
            omega
          exact ⟨rfl, some, ih.mp ⟨by rw [if_pos some, zero], numbers⟩⟩
        · rintro ⟨rfl, some, settles⟩
          obtain ⟨zero, numbers⟩ := ih.mpr settles
          rw [if_pos some] at zero
          exact ⟨zero, numbers⟩
      · refine iff_of_true ⟨sinceReady_ready mem, ?_⟩ fun there => absurd there mem
        have count := List.count_eq_zero.mpr mem
        have length := verdictNumbers_length 0 rest
        rw [count] at length ⊢
        exact List.length_eq_zero_iff.mp length

end Counting

section Rounds

variable {κ : Type*} [DecidableEq κ] {settings : DeferralSettings} {s : Producer κ}

def verdictsOf (jid : κ) (l : List (κ × Bool)) : List Bool :=
  (l.filter fun v => decide (v.1 = jid)).map Prod.snd

theorem verdictsOf_append (jid : κ) (l k : List (κ × Bool)) :
    verdictsOf jid (l ++ k) = verdictsOf jid l ++ verdictsOf jid k := by
  unfold verdictsOf
  rw [List.filter_append, List.map_append]

theorem count_hits (jid : κ) (probes : List (Probe κ)) :
    (probes.filterMap Probe.hit?).count jid =
      (verdictsOf jid (probes.filterMap Probe.verdict?)).count false := by
  induction probes with
  | nil => rfl
  | cons probe rest ih =>
    unfold verdictsOf at ih ⊢
    rcases probe with ⟨j, now⟩ | ⟨j, _ | _⟩
    · exact ih
    · by_cases same : j = jid
      · simp [Probe.hit?, Probe.verdict?, same, ih]
      · simp [Probe.hit?, Probe.verdict?, same, ih]
    · by_cases same : j = jid
      · simp [Probe.hit?, Probe.verdict?, List.filterMap_cons, same, ih]
      · simp [Probe.hit?, Probe.verdict?, List.filterMap_cons, same, ih]

theorem mem_ready (jid : κ) (probes : List (Probe κ)) :
    jid ∈ probes.filterMap Probe.ready? ↔
      true ∈ verdictsOf jid (probes.filterMap Probe.verdict?) := by
  unfold verdictsOf
  simp only [List.mem_filterMap, List.mem_map, List.mem_filter, decide_eq_true_eq, Prod.exists]
  constructor
  · rintro ⟨_ | ⟨j, _ | _⟩, mem, ready⟩
    · cases ready
    · cases ready
    · obtain rfl : j = jid := by simpa [Probe.ready?] using ready
      exact ⟨j, true, ⟨⟨_, mem, rfl⟩, rfl⟩, rfl⟩
  · rintro ⟨j, ready, ⟨⟨_ | ⟨i, b⟩, mem, verdict⟩, rfl⟩, rfl⟩
    · cases verdict
    · obtain ⟨rfl, rfl⟩ : i = j ∧ b = true := by simpa [Probe.verdict?] using verdict
      exact ⟨_, mem, rfl⟩

namespace Producer

def attempts (s : Producer κ) (jid : κ) : Nat :=
  ((s.deferredMeta.get? jid).map DeferredMeta.attempts).getD 0

def numbers (s : Producer κ) (jid : κ) : List Nat :=
  (s.deferrals.filter fun d => decide (d.jid = jid)).map Deferral.attempts

def Delayed (settings : DeferralSettings) (s : Producer κ) : Prop :=
  ∀ d ∈ s.deferrals, d.retryAfter =
    if settings.maxRetries ≤ d.attempts ∨ settings.maxAgeS ≤ d.ageS then settings.quarantineS
    else min settings.quarantineS (settings.retryS * 2 ^ (d.attempts - 1))

theorem attempts_remember (s : Producer κ) (jid : κ) (now : ℚ) (j : κ) :
    (s.rememberCandidate jid now).attempts j = s.attempts j := by
  unfold rememberCandidate
  split
  · rfl
  · next absent =>
    unfold attempts
    by_cases same : j = jid
    · rw [same, Dict.get?_set_self, absent]
      rfl
    · rw [Dict.get?_set_of_ne _ same]

theorem remember_frame (s : Producer κ) (jid : κ) (now : ℚ) :
    (s.rememberCandidate jid now).verdicts = s.verdicts ∧
      (s.rememberCandidate jid now).deferrals = s.deferrals := by
  unfold rememberCandidate
  split <;> exact ⟨rfl, rfl⟩

structure Advanced (settings : DeferralSettings) (s t : Producer κ) (n : κ → Nat) : Prop where
  attempts : ∀ j, t.attempts j = s.attempts j + n j
  numbers : ∀ j, t.numbers j = s.numbers j ++ upFrom (s.attempts j) (n j)
  delayed : s.Delayed settings → t.Delayed settings

theorem Advanced.trans {t u : Producer κ} {n m : κ → Nat} (first : Advanced settings s t n)
    (second : Advanced settings t u m) : Advanced settings s u fun j => n j + m j where
  attempts := fun j => by
    rw [second.attempts, first.attempts]
    exact Nat.add_assoc _ _ _
  numbers := fun j => by
    rw [second.numbers, first.numbers, first.attempts, upFrom_add, List.append_assoc]
  delayed := fun before => second.delayed (first.delayed before)

theorem fill_advanced (settings : DeferralSettings) (s : Producer κ) (probes : List (Probe κ)) :
    Advanced settings s (s.fill probes) fun _ => 0 := by
  have frame : (∀ j, (s.fill probes).attempts j = s.attempts j) ∧
      (s.fill probes).deferrals = s.deferrals := by
    induction probes generalizing s with
    | nil => exact ⟨fun _ => rfl, rfl⟩
    | cons probe rest ih =>
      cases probe with
      | listed jid now =>
        obtain ⟨attempts, deferrals⟩ := ih (s.rememberCandidate jid now)
        exact ⟨fun j => (attempts j).trans (attempts_remember s jid now j),
          deferrals.trans (remember_frame s jid now).2⟩
      | verdict jid ready => exact ih { s with verdicts := s.verdicts ++ [(jid, ready)] }
  refine ⟨frame.1, fun j => ?_, fun delayed => ?_⟩
  · unfold numbers
    rw [frame.2]
    exact (List.append_nil _).symm
  · unfold Delayed
    rwa [frame.2]

theorem verdicts_fill (s : Producer κ) (probes : List (Probe κ)) :
    (s.fill probes).verdicts = s.verdicts ++ probes.filterMap Probe.verdict? := by
  induction probes generalizing s with
  | nil => exact (List.append_nil _).symm
  | cons probe rest ih =>
    cases probe with
    | listed jid now =>
      rw [fill, ih, (remember_frame s jid now).1]
      rfl
    | verdict jid ready =>
      rw [fill, ih, List.append_assoc]
      rfl

theorem defer_spec (settings : DeferralSettings) (s : Producer κ) (jid : κ) (now : ℚ) :
    (∀ j, (s.deferNotReadyJid settings jid now).attempts j =
        if j = jid then s.attempts j + 1 else s.attempts j) ∧
      (∀ j, (s.deferNotReadyJid settings jid now).numbers j =
        if j = jid then s.numbers j ++ [s.attempts j + 1] else s.numbers j) ∧
      (s.Delayed settings → (s.deferNotReadyJid settings jid now).Delayed settings) := by
  have entry : ((s.deferredMeta.get? jid).getD ⟨now, 0⟩).attempts = s.attempts jid := by
    unfold attempts
    cases s.deferredMeta.get? jid <;> rfl
  refine ⟨fun j => ?_, fun j => ?_, fun delayed d mem => ?_⟩
  · unfold attempts deferNotReadyJid
    split
    · next same =>
      subst same
      rw [Dict.get?_set_self, Option.map_some, Option.getD_some, entry]
      rfl
    · next apart => rw [Dict.get?_set_of_ne _ apart]
  · unfold numbers deferNotReadyJid
    rw [List.filter_append, List.map_append, entry]
    split
    · next same =>
      subst same
      rw [List.filter_cons_of_pos (by simp)]
      rfl
    · next apart =>
      rw [List.filter_cons_of_neg (by simpa using fun same => apart same.symm)]
      exact List.append_nil _
  · rcases List.mem_append.mp mem with early | last
    · exact delayed d early
    · rw [List.mem_singleton.mp last]
      unfold deferredRetryAfterS
      split <;> rfl

theorem deferHits_advanced (settings : DeferralSettings) (clock : Nat → ℚ) (k : Nat)
    (s : Producer κ) (hits : List κ) :
    Advanced settings s (s.deferHits settings clock k hits) fun j => hits.count j := by
  induction hits generalizing k s with
  | nil => exact ⟨fun _ => rfl, fun _ => (List.append_nil _).symm, id⟩
  | cons jid rest ih =>
    have later := ih (k + 1) (s.deferNotReadyJid settings jid (clock k))
    obtain ⟨first, number, delay⟩ := defer_spec settings s jid (clock k)
    refine ⟨fun j => ?_, fun j => ?_, fun before => later.delayed (delay before)⟩
    · rw [deferHits, later.attempts, first]
      by_cases same : j = jid
      · rw [if_pos same, same, List.count_cons_self]
        omega
      · rw [if_neg same, List.count_cons_of_ne (Ne.symm same)]
    · rw [deferHits, later.numbers, number, first]
      by_cases same : j = jid
      · rw [if_pos same, if_pos same, same, List.count_cons_self, upFrom_succ, List.append_assoc]
        rfl
      · rw [if_neg same, if_neg same, List.count_cons_of_ne (Ne.symm same)]

theorem verdicts_deferHits (clock : Nat → ℚ) (k : Nat) (s : Producer κ) (hits : List κ) :
    (s.deferHits settings clock k hits).verdicts = s.verdicts := by
  induction hits generalizing k s with
  | nil => rfl
  | cons jid rest ih => exact ih _ _

theorem attempts_popReady (s : Producer κ) (ready : List κ) (j : κ) :
    (s.popReady ready).attempts j = if j ∈ ready then 0 else s.attempts j := by
  unfold attempts popReady
  rw [Dict.get?_filter]
  split
  · next mem => cases s.deferredMeta.get? j <;> simp [mem, Option.filter]
  · next mem => cases s.deferredMeta.get? j <;> simp [mem, Option.filter]

end Producer

namespace ProducerRound

def roundVerdicts (r : ProducerRound κ) (s : Producer κ) : List (κ × Bool) :=
  (if r.extraSuffices s then r.extraProbes s
    else r.extraProbes s ++ r.listingFill).filterMap Probe.verdict?

def countedTwice (r : ProducerRound κ) (s : Producer κ) : List κ :=
  if r.extraSuffices s then [] else (r.extraProbes s).filterMap Probe.hit?

/-- A round that counts its verdicts: no listing follows what the extra fill finds not ready, and
the verdicts of each jid settle. -/
def Clean (r : ProducerRound κ) (s : Producer κ) : Prop :=
  r.countedTwice s = [] ∧ ∀ jid, Settles (s.attempts jid) (verdictsOf jid (r.roundVerdicts s))

theorem run_spec (settings : DeferralSettings) (r : ProducerRound κ) (s : Producer κ) :
    (∀ j, (r.run s settings).attempts j =
        if true ∈ verdictsOf j (r.roundVerdicts s) then 0
        else s.attempts j + ((r.countedTwice s).count j +
          (verdictsOf j (r.roundVerdicts s)).count false)) ∧
      (∀ j, (r.run s settings).numbers j =
        s.numbers j ++ upFrom (s.attempts j) ((r.countedTwice s).count j +
          (verdictsOf j (r.roundVerdicts s)).count false)) ∧
      (r.run s settings).verdicts = s.verdicts ++ r.roundVerdicts s ∧
      (s.Delayed settings → (r.run s settings).Delayed settings) := by
  have extra := ((r.dueTaken s).fill_advanced settings (r.extraProbes s)).trans
    (Producer.deferHits_advanced settings r.clock 0 _ ((r.extraProbes s).filterMap Probe.hit?))
  unfold run countedTwice roundVerdicts
  cases enough : r.extraSuffices s with
  | true =>
    rw [if_pos rfl, if_pos rfl, if_pos rfl]
    refine ⟨fun j => ?_, fun j => ?_, ?_, extra.delayed⟩
    · rw [Producer.attempts_popReady, ← count_hits]
      exact if_congr (mem_ready j _) rfl (extra.attempts j)
    · rw [← count_hits]
      exact extra.numbers j
    · exact (Producer.verdicts_deferHits _ _ _ _).trans (Producer.verdicts_fill _ _)
  | false =>
    rw [if_neg Bool.false_ne_true, if_neg Bool.false_ne_true, if_neg Bool.false_ne_true,
      ← List.filterMap_append, ← List.filterMap_append]
    have listed := extra.trans ((Producer.fill_advanced settings _ r.listingFill).trans
      (Producer.deferHits_advanced settings r.clock
        ((r.extraProbes s).filterMap Probe.hit?).length _
        ((r.extraProbes s ++ r.listingFill).filterMap Probe.hit?)))
    refine ⟨fun j => ?_, fun j => ?_, ?_, listed.delayed⟩
    · rw [Producer.attempts_popReady, ← count_hits]
      refine if_congr (mem_ready j _) rfl ((listed.attempts j).trans ?_)
      rw [Nat.zero_add, Nat.zero_add]
      rfl
    · rw [← count_hits]
      refine (listed.numbers j).trans ?_
      rw [Nat.zero_add, Nat.zero_add]
      rfl
    · refine (Producer.verdicts_deferHits _ _ _ _).trans ((Producer.verdicts_fill _ _).trans ?_)
      rw [Producer.verdicts_deferHits, Producer.verdicts_fill, List.filterMap_append,
        List.append_assoc]
      rfl

end ProducerRound

/-- The attempts of a jid are its not-ready verdicts since it was last ready; the n-th in a row was
deferred as attempt n, with its delay. -/
structure CountsVerdicts (settings : DeferralSettings) (s : Producer κ) : Prop where
  attempts : ∀ jid, s.attempts jid = sinceReady 0 (verdictsOf jid s.verdicts)
  numbers : ∀ jid, s.numbers jid = verdictNumbers 0 (verdictsOf jid s.verdicts)
  delayed : s.Delayed settings

theorem countsVerdicts_start (settings : DeferralSettings) :
    CountsVerdicts settings (Producer.start κ) where
  attempts := fun _ => rfl
  numbers := fun _ => rfl
  delayed := fun _ mem => absurd mem List.not_mem_nil

theorem countsVerdicts_run (r : ProducerRound κ) (counts : CountsVerdicts settings s) :
    CountsVerdicts settings (r.run s settings) ↔ r.Clean s := by
  obtain ⟨attempts, numbers, verdicts, delayed⟩ := r.run_spec settings s
  have since : ∀ j, sinceReady 0 (verdictsOf j (r.run s settings).verdicts) =
      sinceReady (s.attempts j) (verdictsOf j (r.roundVerdicts s)) := fun j => by
    rw [verdicts, verdictsOf_append, sinceReady_append, ← counts.attempts]
  have numbered : ∀ j, verdictNumbers 0 (verdictsOf j (r.run s settings).verdicts) =
      s.numbers j ++ verdictNumbers (s.attempts j) (verdictsOf j (r.roundVerdicts s)) := fun j => by
    rw [verdicts, verdictsOf_append, verdictNumbers_append, ← counts.attempts, ← counts.numbers]
  constructor
  · intro after
    have once : ∀ j, (r.countedTwice s).count j = 0 := fun j => by
      have same := (numbers j).symm.trans ((after.numbers j).trans (numbered j))
      have length := congrArg List.length (List.append_cancel_left same)
      rw [upFrom_length, verdictNumbers_length] at length
      omega
    refine ⟨List.eq_nil_iff_forall_not_mem.mpr fun j mem => ?_, fun j => settled_iff.mp ⟨?_, ?_⟩⟩
    · exact absurd (once j) (List.count_pos_iff.mpr mem).ne'
    · rw [← since, ← after.attempts, attempts, once, Nat.zero_add]
    · have same := (numbers j).symm.trans ((after.numbers j).trans (numbered j))
      rw [once, Nat.zero_add] at same
      exact (List.append_cancel_left same).symm
  · rintro ⟨once, settles⟩
    rw [once] at attempts numbers
    refine ⟨fun j => ?_, fun j => ?_, delayed counts.delayed⟩
    · rw [attempts, since, (settled_iff.mpr (settles j)).1, List.count_nil, Nat.zero_add]
    · rw [numbers, numbered, (settled_iff.mpr (settles j)).2, List.count_nil, Nat.zero_add]

/-- The attempts count the verdicts all along exactly the runs whose rounds are clean. -/
theorem attempts_count_verdicts_iff (settings : DeferralSettings)
    (rounds : List (ProducerRound κ)) :
    (∀ early later, rounds = early ++ later →
      CountsVerdicts settings
        (early.foldl (fun s r => r.run s settings) (Producer.start κ))) ↔
      Throughout (fun s r => r.run s settings) (fun s r => r.Clean s) (Producer.start κ) rounds :=
  always_iff (countsVerdicts_start settings) (fun _ counts => counts)
    (fun _ r counts clean => (countsVerdicts_run r counts).mpr clean)
    fun _ r counts stale after => stale ((countsVerdicts_run r counts).mp after)

def recheckRound (now : ℚ) (listed : List (Probe Nat)) : ProducerRound Nat where
  now := now
  rescan := []
  probeCap := 64
  queueRoom := 64
  extraFill := fun extra => extra.flatMap fun jid => [.listed jid now, .verdict jid false]
  listingFill := listed
  clock := fun _ => now

theorem verdict_counted_twice :
    ¬ CountsVerdicts ⟨10, 3600, 86400, 100⟩
      ([recheckRound 0 [.listed 7 0, .verdict 7 false], recheckRound 60 []].foldl
        (fun s r => r.run s ⟨10, 3600, 86400, 100⟩) (Producer.start Nat)) := by
  intro counts
  exact absurd (counts.attempts 7) (by decide +kernel)

end Rounds

end PerfStats.Metrics
