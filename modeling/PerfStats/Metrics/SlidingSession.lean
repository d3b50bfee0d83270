import PerfStats.Lib.Runs
import PerfStats.Text

namespace PerfStats.Metrics

open Text
open Lib

section Refs

structure JobRef where
  jid : Str
  artifactOnly : Bool
  backfill : Bool
  estimatedSampleCount : Option Int
  nhosts : Option Int
  runtimeS : Option ℚ
deriving DecidableEq

/-- The runtime of an unknown job is two days. -/
def estimatedSampleCountForJob (nhosts : Option Int) (runtimeS : Option ℚ) : Int :=
  let hosts := max 1 (nhosts.getD 1)
  let runtime := max 0 (runtimeS.getD 172800)
  let minutes := if 0 < runtime then max 1 ⌈runtime / 60⌉ else 1
  max 1 (hosts * minutes)

def sampleCountForRef (ref : JobRef) : Int :=
  match ref.estimatedSampleCount with
  | some existing => max 1 existing
  | none => estimatedSampleCountForJob ref.nhosts ref.runtimeS

def freshPass (maxN : Nat) :
    List JobRef → List JobRef × List JobRef × List JobRef → List JobRef × List JobRef × List JobRef
  | [], parts => parts
  | ref :: rest, (taken, keep, deferred) =>
    if maxN ≤ taken.length then freshPass maxN rest (taken, keep ++ [ref], deferred)
    else if ref.backfill then freshPass maxN rest (taken, keep, deferred ++ [ref])
    else freshPass maxN rest (taken ++ [ref], keep, deferred)

def popFreshFirst (queue : List JobRef) (maxN : Nat) : List JobRef × List JobRef :=
  if maxN = 0 ∨ queue.isEmpty then ([], queue)
  else
    let (taken, keep, deferred) := freshPass maxN queue ([], [], [])
    let room := maxN - taken.length
    (taken ++ deferred.take room, deferred.drop room ++ keep)

/-- `_select`: the refs that pass go behind those there are, while there is room. -/
def selectRefs (limit : Nat) (pred : Int → Bool) :
    List JobRef → List JobRef → List JobRef → List JobRef × List JobRef
  | [], taken, remaining => (taken, remaining)
  | ref :: rest, taken, remaining =>
    if limit ≤ taken.length then selectRefs limit pred rest taken (remaining ++ [ref])
    else if pred (sampleCountForRef ref) then
      selectRefs limit pred rest (taken ++ [ref]) remaining
    else selectRefs limit pred rest taken (remaining ++ [ref])

def popSupplementRefs (queue : List JobRef) (maxN : Nat) (softMax hardMax : Int)
    (originalStillInflight : Bool) : List JobRef × List JobRef :=
  if !originalStillInflight || maxN = 0 || queue.isEmpty then ([], queue)
  else
    let soft := max 1 softMax
    let hard := max soft hardMax
    let first := selectRefs maxN (fun n => decide (n < soft)) queue [] []
    let second :=
      if first.1.length < maxN then
        selectRefs maxN (fun n => decide (soft ≤ n ∧ n < hard)) first.2 first.1 []
      else first
    (second.1.take maxN, second.2)

end Refs

section Session

/-- What `persist_fn` returns, and what the session puts in its place. -/
structure MetricsOutcome where
  jid : Str
  ok : Bool
  status : Str
  errorType : Option Str
  errorMessage : Option Str
  persistS : ℚ
deriving DecidableEq

inductive ItemPhase where
  | metrics
  | prewarm
deriving DecidableEq

/-- An entry of `pending`; the ticket stands for the dict's identity. -/
structure SessionItem where
  ticket : Nat
  ref : JobRef
  phase : ItemPhase
  isOriginal : Bool
  t0 : ℚ
  metricsS : ℚ
  baseOutcome : Option MetricsOutcome
  tPrewarm0 : ℚ
deriving DecidableEq

structure SessionRow where
  ref : JobRef
  ok : Bool
  prewarmOk : Option Bool
  baseOutcome : MetricsOutcome
  metricsS : ℚ
  prewarmS : ℚ
deriving DecidableEq

structure Session where
  maxInflight : Nat
  positive : 0 < maxInflight
  continuous : Bool
  supplementEnabled : Bool
  inlinePrewarm : Bool
  hasOnResult : Bool
  stallTimeoutS : ℚ
  softMax : Int
  hardMax : Int
  fixedTenths : ℚ → Str

inductive SessionPoint where
  | top
  | primaryFill
  | continuousFill
  | supplementFill
  | submitting (taken : List JobRef) (isOriginal : Bool)
  | poll
  | returned
deriving DecidableEq

/-- The locals of the session and the shared queue; behind them the refs taken, the rows handed to
`on_result` and what `persist_fn` returned. -/
structure SessionState where
  point : SessionPoint
  primary : List JobRef
  readyQueue : List JobRef
  pending : List SessionItem
  stop : Bool
  wasIdle : Bool
  filled : Bool
  lastProgressAt : ℚ
  submitted : Nat
  results : List (Nat × SessionRow)
  taken : List JobRef
  calls : List SessionRow
  persisted : List (Nat × MetricsOutcome)

structure Inline where
  raises : Bool
  finishedAt : ℚ

structure TaskEnd where
  worker : Except (Str × Str) Unit
  persist : Except (Str × Str) MetricsOutcome
  prewarm : Inline
  prewarmOk : Bool

inductive SessionEvent where
  | others (readyQueue : List JobRef)
  | turn (shuttingDown shouldStop : Bool)
  | go (now : ℚ) (prewarm : Inline)
  | ready (index : Nat) (now : ℚ) (result : TaskEnd)
  | idle (now : ℚ)

def SessionPoint.unsubmitted : SessionPoint → List JobRef
  | .submitting taken _ => taken
  | _ => []

variable (session : Session)

def Session.cap : Nat := max 1 session.maxInflight

def finishRow (state : SessionState) (ticket : Nat) (row : SessionRow) : SessionState :=
  { state with
    results := state.results ++ [(ticket, row)]
    calls := if session.hasOnResult then state.calls ++ [row] else state.calls }

def artifactOnlyOutcome (ref : JobRef) : MetricsOutcome :=
  ⟨ref.jid, true, lit "artifact_only", none, none, 0⟩

def submitPrewarm (now : ℚ) (prewarm : Inline) (item : SessionItem) (base : MetricsOutcome)
    (state : SessionState) : SessionState :=
  if session.inlinePrewarm then
    finishRow session state item.ticket
      { ref := item.ref
        ok := base.ok
        prewarmOk := some (!prewarm.raises)
        baseOutcome := base
        metricsS := item.metricsS
        prewarmS := max 0 (prewarm.finishedAt - now) }
  else
    { state with
      pending := state.pending ++
        [{ item with phase := .prewarm, baseOutcome := some base, tPrewarm0 := now }] }

def submitMetrics (now : ℚ) (prewarm : Inline) (isOriginal : Bool) (ref : JobRef)
    (state : SessionState) : SessionState :=
  let item : SessionItem :=
    { ticket := state.submitted
      ref := ref
      phase := .metrics
      isOriginal := isOriginal
      t0 := now
      metricsS := 0
      baseOutcome := none
      tPrewarm0 := 0 }
  let counted := { state with submitted := state.submitted + 1, filled := true }
  if ref.artifactOnly then
    submitPrewarm session now prewarm item (artifactOnlyOutcome ref) counted
  else { counted with pending := counted.pending ++ [item] }

def failedRow (ref : JobRef) (base : MetricsOutcome) (metricsS : ℚ) : SessionRow where
  ref := ref
  ok := false
  prewarmOk := none
  baseOutcome := base
  metricsS := metricsS
  prewarmS := 0

def finalizeFailed (state : SessionState) (ticket : Nat) (ref : JobRef) (base : MetricsOutcome)
    (metricsS : ℚ) : SessionState :=
  finishRow session state ticket (failedRow ref base metricsS)

def failedOutcome (ref : JobRef) (status : Str) (error : Str × Str) : MetricsOutcome :=
  ⟨ref.jid, false, status, some error.1, some error.2, 0⟩

def stallRow (stalledFor : ℚ) (item : SessionItem) : SessionRow :=
  match item.phase, item.baseOutcome with
  | .prewarm, some base =>
    { ref := item.ref
      ok := base.ok
      prewarmOk := some false
      baseOutcome := base
      metricsS := item.metricsS
      prewarmS := 0 }
  | _, _ =>
    failedRow item.ref
      (failedOutcome item.ref (lit "sliding_session_stall")
        (lit "MetricsSlidingStall",
          lit "no progress for " ++ session.fixedTenths stalledFor ++ lit "s")) item.metricsS

def interruptRow (item : SessionItem) : SessionRow :=
  failedRow item.ref
    (item.baseOutcome.getD
      (failedOutcome item.ref (lit "sliding_session_interrupted")
        (lit "Shutdown", lit "sliding session interrupted"))) item.metricsS

def finishAll (rowOf : SessionItem → SessionRow) (state : SessionState) : SessionState :=
  state.pending.foldl (fun state item => finishRow session state item.ticket (rowOf item))
    { state with pending := [] }

def leaveLoop (state : SessionState) : SessionState :=
  { finishAll session interruptRow state with point := .returned }

def harvest (now : ℚ) (result : TaskEnd) (item : SessionItem) (state : SessionState) :
    SessionState :=
  match item.phase, item.baseOutcome with
  | .prewarm, some base =>
    finishRow session { state with lastProgressAt := now } item.ticket
      { ref := item.ref
        ok := base.ok
        prewarmOk := some (!result.prewarm.raises && result.prewarmOk)
        baseOutcome := base
        metricsS := item.metricsS
        prewarmS := max 0 (now - item.tPrewarm0) }
  | _, _ =>
    let metricsS := max 0 (now - item.t0)
    match result.worker with
    | .error raised =>
      finalizeFailed session { state with lastProgressAt := now } item.ticket item.ref
        (failedOutcome item.ref (lit "sliding_worker_exception") raised) metricsS
    | .ok _ =>
      match result.persist with
      | .error raised =>
        finalizeFailed session { state with lastProgressAt := now } item.ticket item.ref
          (failedOutcome item.ref (lit "sliding_persist_exception") raised) metricsS
      | .ok outcome =>
        let logged := { state with
          lastProgressAt := now
          persisted := state.persisted ++ [(item.ticket, outcome)] }
        if outcome.ok then
          submitPrewarm session now result.prewarm { item with metricsS := metricsS }
            outcome logged
        else finalizeFailed session logged item.ticket item.ref outcome metricsS

def enterPoll (now : ℚ) (state : SessionState) : SessionState :=
  { state with
    point := .poll
    lastProgressAt :=
      if !state.pending.isEmpty && state.wasIdle && state.filled then now
      else state.lastProgressAt }

def originalBatchWorkInflight (pending : List SessionItem) : Bool :=
  pending.any SessionItem.isOriginal

/-- One step of `run_metrics_sliding_session`, or of the threads around it. -/
def sessionStep (state : SessionState) : SessionEvent → SessionState
  | .others readyQueue => { state with readyQueue := readyQueue }
  | .turn shuttingDown shouldStop =>
    if state.point = .top then
      if (state.primary.isEmpty && state.pending.isEmpty && !session.continuous) ||
          shuttingDown then
        leaveLoop session state
      else
        { state with
          point := .primaryFill
          stop := session.continuous && shouldStop
          wasIdle := state.pending.isEmpty
          filled := false }
    else state
  | .go now prewarm =>
    match state.point with
    | .primaryFill =>
      match state.primary with
      | ref :: primary =>
        if state.pending.length < session.cap then
          submitMetrics session now prewarm true ref
            { state with primary := primary, taken := state.taken ++ [ref] }
        else { state with point := .continuousFill }
      | [] => { state with point := .continuousFill }
    | .continuousFill =>
      if session.continuous && !state.stop && decide (state.pending.length < session.cap) then
        let popped := popFreshFirst state.readyQueue (session.cap - state.pending.length)
        if popped.1.isEmpty then { state with readyQueue := popped.2, point := .supplementFill }
        else
          { state with
            readyQueue := popped.2
            taken := state.taken ++ popped.1
            point := .submitting popped.1 true }
      else { state with point := .supplementFill }
    | .supplementFill =>
      if !session.continuous && session.supplementEnabled &&
          decide (state.pending.length < session.cap) && state.primary.isEmpty &&
          originalBatchWorkInflight state.pending then
        let popped := popSupplementRefs state.readyQueue (session.cap - state.pending.length)
          session.softMax session.hardMax true
        if popped.1.isEmpty then enterPoll now { state with readyQueue := popped.2 }
        else
          { state with
            readyQueue := popped.2
            taken := state.taken ++ popped.1
            point := .submitting popped.1 false }
      else enterPoll now state
    | .submitting (ref :: rest) isOriginal =>
      submitMetrics session now prewarm isOriginal ref
        { state with point := .submitting rest isOriginal }
    | .submitting [] isOriginal =>
      { state with point := if isOriginal then .continuousFill else .supplementFill }
    | _ => state
  | .ready index now result =>
    match state.point, state.pending[index]? with
    | .poll, some item =>
      { harvest session now result item
          { state with pending := state.pending.eraseIdx index } with
        point := .top }
    | _, _ => state
  | .idle now =>
    if state.point = .poll then
      if state.pending.isEmpty then
        if !session.continuous || state.stop then leaveLoop session state
        else { state with point := .top }
      else
        let stalledFor := now - state.lastProgressAt
        if max 0 session.stallTimeoutS ≤ stalledFor then
          leaveLoop session (finishAll session (stallRow session stalledFor) state)
        else { state with point := .top }
    else state

def Session.begin_ (primaryRefs readyQueue : List JobRef) (now : ℚ) : SessionState where
  point := if primaryRefs.isEmpty && !session.continuous then .returned else .top
  primary := primaryRefs
  readyQueue := readyQueue
  pending := []
  stop := false
  wasIdle := false
  filled := false
  lastProgressAt := now
  submitted := 0
  results := []
  taken := []
  calls := []
  persisted := []

end Session

section Pops

variable (queue : List JobRef) (maxN : Nat)

theorem freshPass_length (queue : List JobRef)
    (parts : List JobRef × List JobRef × List JobRef) (fits : parts.1.length ≤ maxN) :
    (freshPass maxN queue parts).1.length ≤ maxN := by
  induction queue generalizing parts with
  | nil => exact fits
  | cons ref rest ih =>
    rw [freshPass]
    split
    · exact ih _ fits
    · split
      · exact ih _ fits
      · exact ih _ (by simp only [List.length_append, List.length_singleton]; omega)

theorem popFreshFirst_length : (popFreshFirst queue maxN).1.length ≤ maxN := by
  unfold popFreshFirst
  split
  · exact Nat.zero_le _
  · have fits := freshPass_length maxN queue ([], [], []) (Nat.zero_le _)
    simp only [List.length_append, List.length_take]
    omega

theorem freshPass_perm (queue : List JobRef) (parts : List JobRef × List JobRef × List JobRef) :
    ((freshPass maxN queue parts).1 ++ ((freshPass maxN queue parts).2.2 ++
      (freshPass maxN queue parts).2.1)).Perm (queue ++ (parts.1 ++ (parts.2.2 ++ parts.2.1))) := by
  induction queue generalizing parts with
  | nil => exact .refl _
  | cons ref rest ih =>
    have moved : ∀ before after : List JobRef,
        (rest ++ (before ++ ref :: after)).Perm (ref :: rest ++ (before ++ after)) := by
      intro before after
      exact (List.perm_middle.append_left rest).trans List.perm_middle
    rw [freshPass]
    split
    · refine (ih _).trans ?_
      simpa using moved (parts.1 ++ (parts.2.2 ++ parts.2.1)) []
    · split
      · refine (ih _).trans ?_
        simpa using moved (parts.1 ++ parts.2.2) parts.2.1
      · refine (ih _).trans ?_
        simpa using moved parts.1 (parts.2.2 ++ parts.2.1)

theorem popFreshFirst_perm :
    ((popFreshFirst queue maxN).1 ++ (popFreshFirst queue maxN).2).Perm queue := by
  unfold popFreshFirst
  split
  · exact .refl _
  · have parts := freshPass_perm maxN queue ([], [], [])
    simp only [List.append_nil] at parts
    refine List.Perm.trans ?_ parts
    simp only [List.append_assoc]
    rw [← List.append_assoc (List.take _ _), List.take_append_drop]

theorem popSupplementRefs_length (softMax hardMax : Int) (original : Bool) :
    (popSupplementRefs queue maxN softMax hardMax original).1.length ≤ maxN := by
  unfold popSupplementRefs
  split
  · exact Nat.zero_le _
  · exact List.length_take_le _ _

end Pops

section Invariant

/-- `persist_fn` returned an ok outcome for the ref behind the ticket, or there was nothing to
compute. -/
def Accepted (taken : List JobRef) (persisted : List (Nat × MetricsOutcome)) (ticket : Nat) :
    Prop :=
  (∃ ref, taken[ticket]? = some ref ∧ ref.artifactOnly = true) ∨
    ∃ outcome, (ticket, outcome) ∈ persisted ∧ outcome.ok = true

def Truthful (state : SessionState) : Prop :=
  ∀ ticket row, (ticket, row) ∈ state.results →
    (row.ok = true ↔ Accepted state.taken state.persisted ticket)

structure ItemRight (taken : List JobRef) (persisted : List (Nat × MetricsOutcome))
    (item : SessionItem) : Prop where
  ref : taken[item.ticket]? = some item.ref
  prewarm : item.phase = .prewarm →
    Accepted taken persisted item.ticket ∧ ∃ base, item.baseOutcome = some base ∧ base.ok = true
  metrics : item.phase = .metrics → ¬Accepted taken persisted item.ticket

structure SessionRight (session : Session) (held : List SessionItem) (waiting : List JobRef)
    (state : SessionState) : Prop where
  room : held.length + state.pending.length + waiting.length ≤ session.cap
  counted : state.submitted ≤ state.taken.length
  rest : state.taken.drop state.submitted = waiting
  tickets : ((held ++ state.pending).map SessionItem.ticket ++ state.results.map Prod.fst).Perm
    (List.range state.submitted)
  inHand : ∀ item ∈ held, state.taken[item.ticket]? = some item.ref
  items : ∀ item ∈ state.pending, ItemRight state.taken state.persisted item
  rows : ∀ ticket row, (ticket, row) ∈ state.results → state.taken[ticket]? = some row.ref
  logged : ∀ ticket outcome, (ticket, outcome) ∈ state.persisted → ticket < state.submitted
  calls : state.calls = if session.hasOnResult then state.results.map Prod.snd else []

variable {session : Session} {held : List SessionItem} {waiting : List JobRef}
  {state : SessionState} {item : SessionItem} {row : SessionRow} {base : MetricsOutcome}
  {persisted : List (Nat × MetricsOutcome)}

theorem SessionRight.distinct (right : SessionRight session held waiting state) :
    ((held ++ state.pending).map SessionItem.ticket ++ state.results.map Prod.fst).Nodup :=
  right.tickets.nodup_iff.mpr List.nodup_range

theorem SessionRight.result_lt (right : SessionRight session held waiting state) {ticket : Nat}
    {row : SessionRow} (member : (ticket, row) ∈ state.results) : ticket < state.submitted := by
  refine List.mem_range.mp (right.tickets.mem_iff.mp (List.mem_append_right _ ?_))
  exact List.mem_map_of_mem (f := Prod.fst) member

theorem SessionRight.finish (right : SessionRight session (item :: held) waiting state)
    (own : row.ref = item.ref) :
    SessionRight session held waiting (finishRow session state item.ticket row) where
  room := by
    have := right.room
    simp only [finishRow, List.length_cons] at this ⊢
    omega
  counted := right.counted
  rest := right.rest
  tickets := by
    refine List.Perm.trans ?_ right.tickets
    simp only [finishRow, List.map_append, List.map_cons, List.map_nil, List.cons_append,
      ← List.append_assoc]
    exact List.perm_append_singleton _ _
  inHand item member := right.inHand item (.tail _ member)
  items := right.items
  rows ticket row' member := by
    rcases List.mem_append.mp member with old | new
    · exact right.rows ticket row' old
    · cases List.mem_singleton.mp new
      rw [own]
      exact right.inHand item (.head _)
  logged := right.logged
  calls := by
    have before := right.calls
    simp only [finishRow]
    split
    next called => rw [before, if_pos called, List.map_append, List.map_singleton]
    next silent => rw [before, if_neg silent]

theorem truthful_finish (state : SessionState) (ticket : Nat) (row : SessionRow) :
    Truthful (finishRow session state ticket row) ↔
      Truthful state ∧ (row.ok = true ↔ Accepted state.taken state.persisted ticket) := by
  constructor
  · intro truthful
    exact ⟨fun other row' member => truthful other row' (List.mem_append_left _ member),
      truthful ticket row (List.mem_append_right _ (List.mem_singleton.mpr rfl))⟩
  · rintro ⟨before, own⟩ other row' member
    rcases List.mem_append.mp member with old | new
    · exact before other row' old
    · cases List.mem_singleton.mp new
      exact own

theorem SessionRight.keep (right : SessionRight session (item :: held) waiting state)
    (own : ItemRight state.taken state.persisted item) :
    SessionRight session held waiting { state with pending := state.pending ++ [item] } where
  room := by
    have := right.room
    simp only [List.length_cons, List.length_append, List.length_nil] at this ⊢
    omega
  counted := right.counted
  rest := right.rest
  tickets := by
    refine List.Perm.trans (List.Perm.append_right _ (List.Perm.map _ ?_)) right.tickets
    rw [← List.append_assoc]
    exact List.perm_append_singleton _ _
  inHand other member := right.inHand other (.tail _ member)
  items other member := by
    rcases List.mem_append.mp member with old | new
    · exact right.items other old
    · cases List.mem_singleton.mp new
      exact own
  rows := right.rows
  logged := right.logged
  calls := right.calls

theorem SessionRight.pick {index : Nat} (right : SessionRight session [] waiting state)
    (found : state.pending[index]? = some item) :
    SessionRight session [item] waiting
      { state with pending := state.pending.eraseIdx index } := by
  obtain ⟨bound, rfl⟩ := List.getElem?_eq_some_iff.mp found
  have parts := List.getElem_cons_eraseIdx_perm bound
  refine ⟨?_, right.counted, right.rest, ?_, ?_, ?_, right.rows, right.logged, right.calls⟩
  · have := right.room
    have length := parts.length_eq
    simp only [List.length_cons, List.length_nil] at this length ⊢
    omega
  · exact (List.Perm.append_right _ (List.Perm.map _ parts)).trans right.tickets
  · intro other member
    cases List.mem_singleton.mp member
    exact (right.items _ (List.getElem_mem bound)).ref
  · intro other member
    exact right.items other (List.mem_of_mem_eraseIdx member)

theorem SessionRight.enter {ref : JobRef} (right : SessionRight session held (ref :: waiting) state)
    (ticket : item.ticket = state.submitted) (own : item.ref = ref) :
    SessionRight session (item :: held) waiting
      { state with submitted := state.submitted + 1, filled := true } := by
  have next : state.taken[state.submitted]? = some ref := by
    rw [← List.head?_drop, right.rest, List.head?_cons]
  have within : state.submitted < state.taken.length := (List.getElem?_eq_some_iff.mp next).1
  refine ⟨?_, within, ?_, ?_, ?_, right.items, right.rows, fun ticket outcome member => ?_,
    right.calls⟩
  · have := right.room
    simp only [List.length_cons] at this ⊢
    omega
  · rw [← List.tail_drop, right.rest, List.tail_cons]
  · rw [List.range_succ, List.cons_append, List.map_cons, List.cons_append, ticket]
    exact (List.Perm.cons _ right.tickets).trans (List.perm_append_singleton _ _).symm
  · intro other member
    rcases List.mem_cons.mp member with rfl | old
    · rw [ticket, own]
      exact next
    · exact right.inHand other old
  · exact Nat.lt_succ_of_lt (right.logged ticket outcome member)

theorem accepted_take {taken : List JobRef}
    {ticket : Nat} (known : ticket < taken.length) (more : List JobRef) :
    Accepted (taken ++ more) persisted ticket ↔ Accepted taken persisted ticket := by
  simp only [Accepted, List.getElem?_append_left known]

theorem SessionRight.take {more : List JobRef} (right : SessionRight session [] [] state)
    (room : state.pending.length + more.length ≤ session.cap) :
    SessionRight session [] more { state with taken := state.taken ++ more } := by
  have whole : state.submitted = state.taken.length := by
    have := List.drop_eq_nil_iff.mp right.rest
    have := right.counted
    omega
  have stable : ∀ ticket < state.submitted,
      (state.taken ++ more)[ticket]? = state.taken[ticket]? := by
    intro ticket known
    exact List.getElem?_append_left (by omega)
  have ticketed : ∀ item ∈ state.pending, item.ticket < state.submitted := by
    intro item member
    refine List.mem_range.mp (right.tickets.mem_iff.mp (List.mem_append_left _ ?_))
    exact List.mem_map_of_mem member
  refine ⟨?_, ?_, ?_, right.tickets, fun _ member => (by cases member), ?_, ?_, right.logged,
    right.calls⟩
  · simpa using room
  · simp only [List.length_append]
    omega
  · simp only [whole, List.drop_left]
  · intro item member
    have old := right.items item member
    have known : item.ticket < state.taken.length := whole ▸ ticketed item member
    refine ⟨(stable _ (ticketed item member)).trans old.ref, fun phase => ?_, fun phase => ?_⟩
    · rw [accepted_take known]
      exact old.prewarm phase
    · rw [accepted_take known]
      exact old.metrics phase
  · intro ticket row member
    exact (stable ticket (right.result_lt member)).trans (right.rows ticket row member)

theorem truthful_take (right : SessionRight session [] [] state) (more : List JobRef) :
    Truthful { state with taken := state.taken ++ more } ↔ Truthful state := by
  refine forall_congr' fun ticket => forall_congr' fun row => forall_congr' fun member => ?_
  rw [accepted_take (lt_of_lt_of_le (right.result_lt member) right.counted)]

theorem accepted_log {taken : List JobRef}
    {ticket other : Nat} (outcome : MetricsOutcome) :
    Accepted taken (persisted ++ [(ticket, outcome)]) other ↔
      Accepted taken persisted other ∨ (other = ticket ∧ outcome.ok = true) := by
  simp only [Accepted, List.mem_append, List.mem_singleton, Prod.mk.injEq]
  constructor
  · rintro (artifact | ⟨found, old | ⟨rfl, rfl⟩, ok⟩)
    · exact .inl (.inl artifact)
    · exact .inl (.inr ⟨found, old, ok⟩)
    · exact .inr ⟨rfl, ok⟩
  · rintro ((artifact | ⟨found, old, ok⟩) | ⟨rfl, ok⟩)
    · exact .inl artifact
    · exact .inr ⟨found, .inl old, ok⟩
    · exact .inr ⟨outcome, .inr ⟨rfl, rfl⟩, ok⟩

theorem SessionRight.log (right : SessionRight session [item] waiting state)
    (outcome : MetricsOutcome) :
    SessionRight session [item] waiting
      { state with persisted := state.persisted ++ [(item.ticket, outcome)] } ∧
    (Truthful { state with persisted := state.persisted ++ [(item.ticket, outcome)] } ↔
      Truthful state) := by
  have distinct := right.distinct
  simp only [List.cons_append, List.nil_append, List.map_cons, List.nodup_cons, List.mem_append,
    not_or] at distinct
  have other : ∀ ticket, ticket ≠ item.ticket →
      (Accepted state.taken (state.persisted ++ [(item.ticket, outcome)]) ticket ↔
        Accepted state.taken state.persisted ticket) := by
    intro ticket apart
    rw [accepted_log]
    simp [apart]
  constructor
  · refine ⟨right.room, right.counted, right.rest, right.tickets, right.inHand, ?_, right.rows, ?_,
      right.calls⟩
    · intro pending member
      have old := right.items pending member
      have apart : pending.ticket ≠ item.ticket := by
        intro same
        exact distinct.1.1 (same ▸ List.mem_map_of_mem member)
      exact ⟨old.ref, fun phase => by rw [other _ apart]; exact old.prewarm phase,
        fun phase => by rw [other _ apart]; exact old.metrics phase⟩
    · intro ticket result member
      rcases List.mem_append.mp member with old | new
      · exact right.logged ticket result old
      · cases List.mem_singleton.mp new
        exact List.mem_range.mp (right.tickets.mem_iff.mp (by simp))
  · refine forall_congr' fun ticket => forall_congr' fun row => forall_congr' fun member => ?_
    rw [other]
    intro same
    exact distinct.1.2 (same ▸ List.mem_map_of_mem (f := Prod.fst) member)

theorem SessionRight.congr {other : SessionState}
    (right : SessionRight session held waiting state) (pending : other.pending = state.pending)
    (submitted : other.submitted = state.submitted) (results : other.results = state.results)
    (taken : other.taken = state.taken) (persisted : other.persisted = state.persisted)
    (calls : other.calls = state.calls) : SessionRight session held waiting other where
  room := by rw [pending]; exact right.room
  counted := by rw [submitted, taken]; exact right.counted
  rest := by rw [submitted, taken]; exact right.rest
  tickets := by rw [submitted, pending, results]; exact right.tickets
  inHand := by rw [taken]; exact right.inHand
  items := by rw [pending, taken, persisted]; exact right.items
  rows := by rw [results, taken]; exact right.rows
  logged := by rw [persisted, submitted]; exact right.logged
  calls := by rw [calls, results]; exact right.calls

end Invariant

section Steps

variable {session : Session} {held : List SessionItem} {waiting : List JobRef}
  {state : SessionState} {item : SessionItem} {base : MetricsOutcome}

theorem fold_finish (rowOf : SessionItem → SessionRow) (own : ∀ item, (rowOf item).ref = item.ref)
    (items : List SessionItem) (right : SessionRight session items waiting state) :
    let after := items.foldl (fun state item => finishRow session state item.ticket (rowOf item))
      state
    SessionRight session [] waiting after ∧ after.pending = state.pending ∧
      (Truthful after ↔ Truthful state ∧
        ∀ item ∈ items, (rowOf item).ok = true ↔
          Accepted state.taken state.persisted item.ticket) := by
  induction items generalizing state with
  | nil => exact ⟨right, rfl, by simp⟩
  | cons item rest ih =>
    have later := ih (right.finish (own item))
    refine ⟨later.1, later.2.1, ?_⟩
    rw [List.foldl_cons, later.2.2, truthful_finish, List.forall_mem_cons, and_assoc]
    rfl

theorem finishAll_right (rowOf : SessionItem → SessionRow)
    (own : ∀ item, (rowOf item).ref = item.ref) (right : SessionRight session [] waiting state) :
    SessionRight session [] waiting (finishAll session rowOf state) ∧
      (finishAll session rowOf state).pending = [] ∧
      (Truthful (finishAll session rowOf state) ↔ Truthful state ∧
        ∀ item ∈ state.pending, (rowOf item).ok = true ↔
          Accepted state.taken state.persisted item.ticket) := by
  have inHand : SessionRight session state.pending waiting { state with pending := [] } := by
    refine ⟨?_, right.counted, right.rest, ?_, fun item member => (right.items item member).ref,
      fun _ member => (by cases member), right.rows, right.logged, right.calls⟩
    · simpa using right.room
    · simpa using right.tickets
  exact fold_finish rowOf own state.pending inHand

theorem leaveLoop_right (right : SessionRight session [] waiting state) :
    SessionRight session [] waiting (leaveLoop session state) ∧
      (leaveLoop session state).pending = [] ∧
      (Truthful (leaveLoop session state) ↔ Truthful state ∧
        ∀ item ∈ state.pending, item.phase = .metrics) := by
  have all := finishAll_right interruptRow (fun _ => rfl) right
  refine ⟨all.1.congr rfl rfl rfl rfl rfl rfl, all.2.1, all.2.2.trans (and_congr_right fun _ => ?_)⟩
  refine forall_congr' fun item => forall_congr' fun member => ?_
  have known := right.items item member
  simp only [interruptRow, failedRow, Bool.false_eq_true, false_iff]
  cases phase : item.phase with
  | metrics => simp [known.metrics phase]
  | prewarm => simp [(known.prewarm phase).1]

theorem stall_right (stalledFor : ℚ) (right : SessionRight session [] waiting state) :
    SessionRight session [] waiting (finishAll session (stallRow session stalledFor) state) ∧
      (finishAll session (stallRow session stalledFor) state).pending = [] ∧
      (Truthful (finishAll session (stallRow session stalledFor) state) ↔ Truthful state) := by
  have all := finishAll_right (stallRow session stalledFor)
    (fun item => by unfold stallRow; split <;> rfl) right
  refine ⟨all.1, all.2.1, all.2.2.trans (and_iff_left fun item member => ?_)⟩
  have known := right.items item member
  cases phase : item.phase with
  | metrics => simp [stallRow, phase, failedRow, known.metrics phase]
  | prewarm =>
    obtain ⟨accepted, base, found, ok⟩ := known.prewarm phase
    simp [stallRow, phase, found, ok, accepted]

variable (now : ℚ) (prewarm : Inline)

theorem submitPrewarm_right (right : SessionRight session [item] waiting state)
    (accepted : Accepted state.taken state.persisted item.ticket) (ok : base.ok = true) :
    SessionRight session [] waiting (submitPrewarm session now prewarm item base state) ∧
      (Truthful (submitPrewarm session now prewarm item base state) ↔ Truthful state) := by
  unfold submitPrewarm
  split
  · refine ⟨right.finish rfl, ?_⟩
    rw [truthful_finish]
    simp [ok, accepted]
  · have moved : SessionRight session
        [{ item with phase := .prewarm, baseOutcome := some base, tPrewarm0 := now }] waiting
        state := by
      refine ⟨right.room, right.counted, right.rest, right.tickets, fun other member => ?_,
        right.items, right.rows, right.logged, right.calls⟩
      cases List.mem_singleton.mp member
      exact right.inHand item (List.mem_singleton.mpr rfl)
    refine ⟨moved.keep ⟨moved.inHand _ (List.mem_singleton.mpr rfl), fun _ => ⟨accepted, base, rfl,
      ok⟩, nofun⟩, Iff.rfl⟩

theorem submitMetrics_right (isOriginal : Bool) {ref : JobRef}
    (right : SessionRight session [] (ref :: waiting) state) :
    SessionRight session [] waiting (submitMetrics session now prewarm isOriginal ref state) ∧
      (Truthful (submitMetrics session now prewarm isOriginal ref state) ↔ Truthful state) := by
  have next : state.taken[state.submitted]? = some ref := by
    rw [← List.head?_drop, right.rest, List.head?_cons]
  unfold submitMetrics
  split
  next artifact =>
    exact submitPrewarm_right now prewarm (right.enter rfl rfl) (.inl ⟨ref, next, artifact⟩) rfl
  next computed =>
    refine ⟨(right.enter rfl rfl).keep
      ⟨next, nofun, fun _ accepted => ?_⟩, Iff.rfl⟩
    rcases accepted with ⟨other, found, artifact⟩ | ⟨outcome, logged, _⟩
    · rw [next] at found
      cases found
      exact computed artifact
    · exact absurd (right.logged _ _ logged) (lt_irrefl _)

theorem harvest_right (result : TaskEnd) (right : SessionRight session [item] waiting state)
    (known : ItemRight state.taken state.persisted item) :
    SessionRight session [] waiting (harvest session now result item state) ∧
      (Truthful (harvest session now result item state) ↔ Truthful state) := by
  have ticking : SessionRight session [item] waiting { state with lastProgressAt := now } :=
    right.congr rfl rfl rfl rfl rfl rfl
  have same : Truthful { state with lastProgressAt := now } ↔ Truthful state := Iff.rfl
  have fails : ∀ base metricsS, ¬Accepted state.taken state.persisted item.ticket →
      SessionRight session [] waiting (finalizeFailed session { state with lastProgressAt := now }
        item.ticket item.ref base metricsS) ∧
      (Truthful (finalizeFailed session { state with lastProgressAt := now }
        item.ticket item.ref base metricsS) ↔ Truthful state) := by
    intro base metricsS refused
    refine ⟨ticking.finish rfl, ?_⟩
    rw [finalizeFailed, truthful_finish, same]
    simp [failedRow, refused]
  cases phase : item.phase with
  | prewarm =>
    obtain ⟨accepted, base, found, ok⟩ := known.prewarm phase
    simp only [harvest, phase, found]
    refine ⟨ticking.finish rfl, ?_⟩
    rw [truthful_finish, same]
    simp [ok, accepted]
  | metrics =>
    have refused := known.metrics phase
    simp only [harvest, phase]
    cases worker : result.worker with
    | error raised => exact fails _ _ refused
    | ok _ =>
      cases persist : result.persist with
      | error raised => exact fails _ _ refused
      | ok outcome =>
        have logged := ticking.log outcome
        have own : Accepted state.taken (state.persisted ++ [(item.ticket, outcome)])
            item.ticket ↔ outcome.ok = true := by
          rw [accepted_log]
          simp [refused]
        by_cases ok : outcome.ok = true
        · simp only [ok, if_true]
          have moved : SessionRight session
              [{ item with metricsS := max 0 (now - item.t0) }] waiting
              { state with
                lastProgressAt := now
                persisted := state.persisted ++ [(item.ticket, outcome)] } := by
            refine ⟨logged.1.room, logged.1.counted, logged.1.rest, logged.1.tickets,
              fun other member => ?_, logged.1.items, logged.1.rows, logged.1.logged,
              logged.1.calls⟩
            cases List.mem_singleton.mp member
            exact logged.1.inHand item (List.mem_singleton.mpr rfl)
          have sent := submitPrewarm_right now result.prewarm moved (own.mpr ok) ok
          exact ⟨sent.1, sent.2.trans logged.2⟩
        · simp only [ok, Bool.false_eq_true, if_false]
          refine ⟨logged.1.finish rfl, ?_⟩
          rw [finalizeFailed, truthful_finish, logged.2, own]
          simp [failedRow, ok, same]

structure SessionKept (session : Session) (state : SessionState) : Prop where
  right : SessionRight session [] state.point.unsubmitted state
  ended : state.point = .returned → state.pending = []

def LetsPrewarmsEnd (state : SessionState) : SessionEvent → Prop
  | .turn true _ => state.point = .top → ∀ item ∈ state.pending, item.phase = .metrics
  | _ => True

theorem cap_eq (session : Session) : session.cap = session.maxInflight := by
  have := session.positive
  simp only [Session.cap]
  omega

theorem submitMetrics_point (now : ℚ) (prewarm : Inline) (isOriginal : Bool) (ref : JobRef)
    (state : SessionState) :
    (submitMetrics session now prewarm isOriginal ref state).point = state.point := by
  unfold submitMetrics submitPrewarm
  split
  · split <;> rfl
  · rfl

structure StepKept (session : Session) (state after : SessionState) : Prop where
  kept : SessionKept session after
  truthful : Truthful after ↔ Truthful state

theorem StepKept.unhindered {after : SessionState} {ends : Prop}
    (step : StepKept session state after) (met : ends) :
    SessionKept session after ∧ (Truthful after ↔ Truthful state ∧ ends) :=
  ⟨step.kept, step.truthful.trans (and_iff_left met).symm⟩

theorem goes_on {after : SessionState}
    (right : SessionRight session [] after.point.unsubmitted after)
    (truthful : Truthful after ↔ Truthful state) (running : after.point ≠ .returned) :
    StepKept session state after :=
  ⟨⟨right, fun ended => absurd ended running⟩, truthful⟩

def takenFirst (state : SessionState) (primary : List JobRef) (ref : JobRef) : SessionState :=
  { state with point := .primaryFill, primary := primary, taken := state.taken ++ [ref] }

theorem primaryFill_right (kept : SessionKept session state)
    (point : state.point = .primaryFill) :
    StepKept session state (sessionStep session state (.go now prewarm)) := by
  have right := kept.right
  rw [point] at right
  simp only [sessionStep, point]
  split
  next ref primary _ =>
    split
    next room =>
      have taken : SessionRight session [] [ref] (takenFirst state primary ref) :=
        (right.take (by simpa using room)).congr rfl rfl rfl rfl rfl rfl
      have sent := submitMetrics_right now prewarm true taken
      have stays := @submitMetrics_point session now prewarm true ref
        (takenFirst state primary ref)
      refine @goes_on session state (submitMetrics session now prewarm true ref
        (takenFirst state primary ref)) ?_ (sent.2.trans (truthful_take right [ref])) ?_
      · rw [stays]
        exact sent.1
      · rw [stays]
        simp [takenFirst]
    next => exact goes_on (right.congr rfl rfl rfl rfl rfl rfl) Iff.rfl (by simp)
  next => exact goes_on (right.congr rfl rfl rfl rfl rfl rfl) Iff.rfl (by simp)

theorem continuousFill_right (kept : SessionKept session state)
    (point : state.point = .continuousFill) :
    StepKept session state (sessionStep session state (.go now prewarm)) := by
  have right := kept.right
  rw [point] at right
  simp only [sessionStep, point]
  split
  next open_ =>
    simp only [Bool.and_eq_true, decide_eq_true_eq] at open_
    split
    · exact goes_on (right.congr rfl rfl rfl rfl rfl rfl) Iff.rfl (by simp)
    · have fits := popFreshFirst_length state.readyQueue (session.cap - state.pending.length)
      have taken : SessionRight session [] _ { state with taken := state.taken ++
          (popFreshFirst state.readyQueue (session.cap - state.pending.length)).1 } :=
        right.take (by omega)
      exact goes_on (taken.congr rfl rfl rfl rfl rfl rfl) (truthful_take right _) (by simp)
  next => exact goes_on (right.congr rfl rfl rfl rfl rfl rfl) Iff.rfl (by simp)

theorem supplementFill_right (kept : SessionKept session state)
    (point : state.point = .supplementFill) :
    StepKept session state (sessionStep session state (.go now prewarm)) := by
  have right := kept.right
  rw [point] at right
  simp only [sessionStep, point]
  split
  next open_ =>
    simp only [Bool.and_eq_true, decide_eq_true_eq] at open_
    split
    · exact goes_on (right.congr rfl rfl rfl rfl rfl rfl) Iff.rfl (by simp [enterPoll])
    · have fits := popSupplementRefs_length state.readyQueue
        (session.cap - state.pending.length) session.softMax session.hardMax true
      have taken : SessionRight session [] _ { state with taken := state.taken ++
          (popSupplementRefs state.readyQueue (session.cap - state.pending.length)
            session.softMax session.hardMax true).1 } :=
        right.take (by omega)
      exact goes_on (taken.congr rfl rfl rfl rfl rfl rfl) (truthful_take right _) (by simp)
  next => exact goes_on (right.congr rfl rfl rfl rfl rfl rfl) Iff.rfl (by simp [enterPoll])

theorem submitting_right (kept : SessionKept session state)
    {refs : List JobRef} {isOriginal : Bool} (point : state.point = .submitting refs isOriginal) :
    StepKept session state (sessionStep session state (.go now prewarm)) := by
  have right := kept.right
  rw [point] at right
  simp only [sessionStep, point]
  cases refs with
  | nil =>
    refine goes_on ?_ Iff.rfl ?_
    · cases isOriginal <;> exact right.congr rfl rfl rfl rfl rfl rfl
    · cases isOriginal <;> simp
  | cons ref rest =>
    have moved : SessionRight session [] (ref :: rest)
        { state with point := .submitting rest isOriginal } :=
      right.congr rfl rfl rfl rfl rfl rfl
    have sent := submitMetrics_right now prewarm isOriginal moved
    have stays := @submitMetrics_point session now prewarm isOriginal ref
      { state with point := .submitting rest isOriginal }
    refine goes_on ?_ sent.2 ?_
    · rw [stays]
      exact sent.1
    · rw [stays]
      simp

theorem go_right (kept : SessionKept session state) :
    StepKept session state (sessionStep session state (.go now prewarm)) := by
  cases point : state.point with
  | primaryFill => exact primaryFill_right now prewarm kept point
  | continuousFill => exact continuousFill_right now prewarm kept point
  | supplementFill => exact supplementFill_right now prewarm kept point
  | submitting refs isOriginal => exact submitting_right now prewarm kept point
  | top | poll | returned =>
    simp only [sessionStep, point]
    exact ⟨kept, Iff.rfl⟩

theorem left_right (right : SessionRight session [] [] state) :
    SessionKept session (leaveLoop session state) ∧
      (Truthful (leaveLoop session state) ↔ Truthful state ∧
        ∀ item ∈ state.pending, item.phase = .metrics) := by
  have left := leaveLoop_right right
  exact ⟨⟨left.1, fun _ => left.2.1⟩, left.2.2⟩

theorem turn_right (shuttingDown shouldStop : Bool) (kept : SessionKept session state) :
    SessionKept session (sessionStep session state (.turn shuttingDown shouldStop)) ∧
      (Truthful (sessionStep session state (.turn shuttingDown shouldStop)) ↔
        Truthful state ∧ LetsPrewarmsEnd state (.turn shuttingDown shouldStop)) := by
  have right := kept.right
  by_cases top : state.point = .top
  · rw [top] at right
    have left := left_right right
    simp only [sessionStep, top, if_true]
    cases shuttingDown with
    | true => simpa [LetsPrewarmsEnd, top] using left
    | false =>
      split
      next ends =>
        have none_ : state.pending = [] := by
          simp only [Bool.or_false, Bool.and_eq_true, List.isEmpty_iff] at ends
          exact ends.1.2
        rw [none_] at left
        simpa [LetsPrewarmsEnd] using left
      next =>
        refine StepKept.unhindered ?_ trivial
        exact goes_on (right.congr rfl rfl rfl rfl rfl rfl) Iff.rfl (by simp)
  · simp only [sessionStep, top, if_false]
    refine ⟨kept, ?_⟩
    cases shuttingDown <;> simp [LetsPrewarmsEnd, top]

theorem ready_right (index : Nat) (now : ℚ) (result : TaskEnd) (kept : SessionKept session state) :
    StepKept session state (sessionStep session state (.ready index now result)) := by
  have right := kept.right
  simp only [sessionStep]
  split
  next item point found =>
    rw [point] at right
    have known := right.items item (List.mem_of_getElem? found)
    have done := harvest_right now result (right.pick found) known
    exact goes_on (done.1.congr rfl rfl rfl rfl rfl rfl) done.2 (by simp)
  next => exact ⟨kept, Iff.rfl⟩

theorem idle_right (kept : SessionKept session state) :
    StepKept session state (sessionStep session state (.idle now)) := by
  have right := kept.right
  simp only [sessionStep]
  split
  next point =>
    rw [point] at right
    have on : StepKept session state { state with point := .top } :=
      goes_on (right.congr rfl rfl rfl rfl rfl rfl) Iff.rfl (by simp)
    split
    next none_ =>
      split
      · have left := left_right right
        rw [List.isEmpty_iff.mp none_] at left
        exact ⟨left.1, by simpa using left.2⟩
      · exact on
    next =>
      split
      · have stalled := stall_right (now - state.lastProgressAt) right
        have left := left_right stalled.1
        rw [stalled.2.1] at left
        exact ⟨left.1, by simpa [stalled.2.2] using left.2⟩
      · exact on
  next => exact ⟨kept, Iff.rfl⟩

theorem sessionStep_right (event : SessionEvent) (kept : SessionKept session state) :
    SessionKept session (sessionStep session state event) ∧
      (Truthful (sessionStep session state event) ↔
        Truthful state ∧ LetsPrewarmsEnd state event) := by
  cases event with
  | others readyQueue =>
    exact ⟨⟨kept.right.congr rfl rfl rfl rfl rfl rfl, kept.ended⟩, (and_iff_left trivial).symm⟩
  | turn shuttingDown shouldStop => exact turn_right shuttingDown shouldStop kept
  | go now prewarm => exact (go_right now prewarm kept).unhindered trivial
  | ready index now result => exact (ready_right index now result kept).unhindered trivial
  | idle now => exact (idle_right now kept).unhindered trivial

theorem begin_kept (session : Session) (primaryRefs readyQueue : List JobRef) (now : ℚ) :
    SessionKept session (session.begin_ primaryRefs readyQueue now) where
  right := by
    have unsubmitted : (session.begin_ primaryRefs readyQueue now).point.unsubmitted = [] := by
      simp only [Session.begin_]
      split <;> rfl
    rw [unsubmitted]
    refine ⟨Nat.zero_le _, le_rfl, rfl, .refl _, ?_, ?_, ?_, ?_, ?_⟩
    · intro item member
      cases member
    · intro item member
      cases member
    · intro ticket row member
      cases member
    · intro ticket outcome member
      cases member
    · simp [Session.begin_]
  ended _ := rfl

structure ReportedOnce (session : Session) (state : SessionState) : Prop where
  rows : (state.results.map Prod.fst).Perm (List.range state.taken.length)
  refs : ∀ ticket row, (ticket, row) ∈ state.results → state.taken[ticket]? = some row.ref
  calls : state.calls = if session.hasOnResult then state.results.map Prod.snd else []

theorem SessionKept.reported (kept : SessionKept session state)
    (returned : state.point = .returned) : ReportedOnce session state := by
  have right := kept.right
  have tickets := right.tickets
  rw [returned] at right
  have whole : state.submitted = state.taken.length := by
    have := List.drop_eq_nil_iff.mp right.rest
    have := right.counted
    omega
  rw [kept.ended returned, whole] at tickets
  exact ⟨tickets, right.rows, right.calls⟩

/-- What a run promises: never more in flight than allowed, and at the return one row and one call
for each ref taken, with its outcome's `ok`. -/
def ReportsRight (session : Session) (state : SessionState) (events : List SessionEvent) : Prop :=
  (∀ early later, events = early ++ later →
    (early.foldl (sessionStep session) state).pending.length ≤ session.maxInflight) ∧
  ((events.foldl (sessionStep session) state).point = .returned →
    ReportedOnce session (events.foldl (sessionStep session) state)) ∧
  Truthful (events.foldl (sessionStep session) state)

/-- The session keeps its promise on exactly the runs whose shutdown finds no prewarm pending. -/
theorem session_reports_iff (session : Session) (primaryRefs readyQueue : List JobRef) (now : ℚ)
    (events : List SessionEvent) :
    ReportsRight session (session.begin_ primaryRefs readyQueue now) events ↔
      Throughout (sessionStep session) LetsPrewarmsEnd
        (session.begin_ primaryRefs readyQueue now) events := by
  have start := begin_kept session primaryRefs readyQueue now
  have kept : ∀ early : List SessionEvent, SessionKept session
      (early.foldl (sessionStep session) (session.begin_ primaryRefs readyQueue now)) :=
    fun early => foldl_kept start fun state event kept => (sessionStep_right event kept).1
  have honest := throughout_iff (J := Truthful) (l := events) start
    (fun state event kept => (sessionStep_right event kept).1)
    fun state event kept => (sessionStep_right event kept).2
  have begins : Truthful (session.begin_ primaryRefs readyQueue now) :=
    fun _ _ member => by cases member
  constructor
  · intro reports
    exact (honest.mp reports.2.2).2
  · intro throughout
    refine ⟨fun early later _ => ?_, fun returned => (kept events).reported returned,
      honest.mpr ⟨begins, throughout⟩⟩
    have := (kept early).right.room
    rw [cap_eq] at this
    omega

end Steps

section Examples

def pooledSession : Session where
  maxInflight := 1
  positive := Nat.one_pos
  continuous := false
  supplementEnabled := true
  inlinePrewarm := false
  hasOnResult := true
  stallTimeoutS := 600
  softMax := 10000
  hardMax := 80000
  fixedTenths _ := []

def oneRef : JobRef := ⟨lit "7", false, false, none, some 1, some 60⟩

def persistedOutcome : MetricsOutcome := ⟨lit "7", true, lit "ok", none, none, 1⟩

def notRun : Inline := ⟨false, 0⟩

def cutPrewarm : List SessionEvent :=
  [.turn false false, .go 0 notRun, .go 0 notRun, .go 0 notRun, .go 0 notRun,
    .ready 0 1 ⟨.ok (), .ok persistedOutcome, notRun, true⟩, .turn true false]

theorem shutdown_denies_persisted :
    ¬ReportsRight pooledSession (pooledSession.begin_ [oneRef] [] 0) cutPrewarm := by
  intro reports
  have row : (0, interruptRow ⟨0, oneRef, .prewarm, true, 0, 1, some persistedOutcome, 1⟩) ∈
      (cutPrewarm.foldl (sessionStep pooledSession)
        (pooledSession.begin_ [oneRef] [] 0)).results := by decide +kernel
  have persisted : (0, persistedOutcome) ∈ (cutPrewarm.foldl (sessionStep pooledSession)
      (pooledSession.begin_ [oneRef] [] 0)).persisted := by decide +kernel
  have ok := (reports.2.2 _ _ row).mpr (.inr ⟨persistedOutcome, persisted, rfl⟩)
  cases ok

end Examples

end PerfStats.Metrics
