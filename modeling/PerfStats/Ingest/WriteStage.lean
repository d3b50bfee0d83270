import PerfStats.Lib.Runs

namespace PerfStats.Ingest

open Function

section Stage

inductive WriteOutcome where
  | written (archivalOut ingestOk : Bool)
  | raised
  deriving DecidableEq

structure PayloadState where
  runs : Nat
  outcome : Option WriteOutcome
  refused : Bool
  done : Bool
  deriving DecidableEq

/-- Where a `submit_ingest_write` is: past its test of the shutdown flag it is `unshut`; a call that
raises leaves by `raised`. -/
inductive SubmitPhase where
  | new
  | inlined
  | looping
  | unshut
  | putting
  | returned
  | raised
  deriving DecidableEq

inductive WriteWorker where
  | top
  | unshut
  | waiting
  | executing (payload : Nat)
  | ended
  deriving DecidableEq

/-- Where `stop_ingest_write_stage` is. -/
inductive StopPhase where
  | running
  | sentinels (left : Nat)
  | joining (thread : Nat)
  | unset
  | unstarted
  | stopped
  deriving DecidableEq

/-- A sentinel is a `none` in the queue; whoever has read `_WRITE_QUEUE` keeps the queue once
the global is unset. -/
structure WriteStage where
  threads : Nat
  capacity : Nat
  started : Bool
  shutdown : Bool
  queueSet : Bool
  items : List (Option Nat)
  worker : Nat → WriteWorker
  submit : Nat → SubmitPhase
  payload : Nat → PayloadState
  stopper : StopPhase

def startIngestWriteStage (writeWorkers queueMax : Nat) : WriteStage where
  threads := max 1 writeWorkers
  capacity := max 1 queueMax
  started := true
  shutdown := false
  queueSet := true
  items := []
  worker := fun thread => if thread < max 1 writeWorkers then .top else .ended
  submit := fun _ => .new
  payload := fun _ => ⟨0, none, false, false⟩
  stopper := .running

namespace WriteStage

variable (stage : WriteStage)

def goSubmit (payload : Nat) (phase : SubmitPhase) : WriteStage :=
  { stage with submit := update stage.submit payload phase }

def goWorker (thread : Nat) (phase : WriteWorker) : WriteStage :=
  { stage with worker := update stage.worker thread phase }

/-- `_execute_write_payload` is entered. -/
def enter (payload : Nat) : WriteStage :=
  let state := stage.payload payload
  { stage with payload := update stage.payload payload { state with runs := state.runs + 1 } }

def settle (payload : Nat) (outcome : WriteOutcome) : WriteStage :=
  let state := stage.payload payload
  { stage with
    payload := update stage.payload payload
      { state with outcome := some outcome, done := true } }

def refuse (payload : Nat) : WriteStage :=
  let state := stage.payload payload
  { stage with
    payload := update stage.payload payload { state with refused := true, done := true } }

end WriteStage

inductive SubmitTurn where
  | call
  | executed (outcome : WriteOutcome)
  | checkShutdown
  | readQueue
  | put
  | full

inductive WorkerTurn where
  | checkShutdown
  | readQueue
  | get
  | empty
  | executed (outcome : WriteOutcome)
  | die

inductive StageEvent where
  | submit (payload : Nat) (turn : SubmitTurn)
  | worker (thread : Nat) (turn : WorkerTurn)
  | stop
  | joinTimeout

/-- `submit_ingest_write`. -/
def submitTurn (stage : WriteStage) (payload : Nat) (turn : SubmitTurn) : WriteStage :=
  match stage.submit payload, turn with
  | .new, .call =>
    if !stage.started || !stage.queueSet then (stage.enter payload).goSubmit payload .inlined
    else stage.goSubmit payload .looping
  | .inlined, .executed outcome => (stage.settle payload outcome).goSubmit payload .returned
  | .looping, .checkShutdown =>
    if stage.shutdown then (stage.refuse payload).goSubmit payload .returned
    else stage.goSubmit payload .unshut
  | .unshut, .readQueue => stage.goSubmit payload (if stage.queueSet then .putting else .raised)
  | .putting, .put =>
    if stage.items.length < stage.capacity then
      { stage.goSubmit payload .returned with items := stage.items ++ [some payload] }
    else stage
  | .putting, .full =>
    if stage.items.length < stage.capacity then stage else stage.goSubmit payload .looping
  | _, _ => stage

/-- `_write_worker_main`. -/
def workerTurn (stage : WriteStage) (thread : Nat) (turn : WorkerTurn) : WriteStage :=
  match stage.worker thread, turn with
  | .top, .checkShutdown => stage.goWorker thread (if stage.shutdown then .ended else .unshut)
  | .top, .die => stage.goWorker thread .ended
  | .unshut, .readQueue => stage.goWorker thread (if stage.queueSet then .waiting else .ended)
  | .waiting, .get =>
    match stage.items with
    | [] => stage
    | none :: rest => { stage.goWorker thread .ended with items := rest }
    | some payload :: rest =>
      { (stage.enter payload).goWorker thread (.executing payload) with items := rest }
  | .waiting, .empty => if stage.items.isEmpty then stage.goWorker thread .top else stage
  | .executing payload, .executed outcome => (stage.settle payload outcome).goWorker thread .top
  | _, _ => stage

/-- `stop_ingest_write_stage` goes on by one of its steps; a `join` waits for the thread to end. -/
def stopTurn (stage : WriteStage) : WriteStage :=
  match stage.stopper with
  | .running =>
    if stage.started then { stage with shutdown := true, stopper := .sentinels stage.threads }
    else stage
  | .sentinels 0 => { stage with stopper := .joining 0 }
  | .sentinels (left + 1) =>
    if stage.items.length < stage.capacity then
      { stage with items := stage.items ++ [none], stopper := .sentinels left }
    else { stage with stopper := .joining 0 }
  | .joining thread =>
    if thread < stage.threads then
      if stage.worker thread = .ended then { stage with stopper := .joining (thread + 1) }
      else stage
    else { stage with queueSet := false, stopper := .unset }
  | .unset => { stage with started := false, stopper := .unstarted }
  | .unstarted => { stage with shutdown := false, stopper := .stopped }
  | .stopped => stage

def stageStep (stage : WriteStage) : StageEvent → WriteStage
  | .submit payload turn => submitTurn stage payload turn
  | .worker thread turn => workerTurn stage thread turn
  | .stop => stopTurn stage
  | .joinTimeout =>
    match stage.stopper with
    | .joining thread =>
      if thread < stage.threads then { stage with stopper := .joining (thread + 1) } else stage
    | _ => stage

def PayloadState.Settled (state : PayloadState) : Prop :=
  state.done = true ∧
    ((state.runs = 1 ∧ state.outcome.isSome = true) ∨ (state.runs = 0 ∧ state.refused = true))

def WriteStage.Drained (stage : WriteStage) : Prop :=
  (∀ payload, some payload ∉ stage.items) ∧
    ∀ payload, stage.submit payload ≠ .unshut ∧ stage.submit payload ≠ .putting

def StopsQuietly (stage : WriteStage) : StageEvent → Prop
  | .stop => stage.stopper = .running → stage.started = true → stage.Drained
  | .joinTimeout =>
    ∀ thread, stage.stopper = .joining thread →
      ∀ payload, stage.worker thread ≠ .executing payload
  | _ => True

end Stage

section Places

inductive PayloadPlace where
  | outside
  | inlined
  | queued
  | executing (thread : Nat)
  | settled
  deriving DecidableEq

def PayloadPlace.Holds (place : PayloadPlace) (state : PayloadState) (phase : SubmitPhase) : Prop :=
  match place with
  | .outside => state = ⟨0, none, false, false⟩ ∧ phase ≠ .inlined ∧ phase ≠ .returned
  | .inlined => state = ⟨1, none, false, false⟩ ∧ phase = .inlined
  | .queued => state = ⟨0, none, false, false⟩ ∧ phase = .returned
  | .executing _ => state = ⟨1, none, false, false⟩ ∧ phase = .returned
  | .settled => state.Settled ∧ phase = .returned

structure Placed (stage : WriteStage) (place : Nat → PayloadPlace) : Prop where
  queue : ∀ payload, stage.items.count (some payload) = if place payload = .queued then 1 else 0
  worker : ∀ thread payload,
    stage.worker thread = .executing payload ↔ place payload = .executing thread
  holds : ∀ payload, (place payload).Holds (stage.payload payload) (stage.submit payload)

variable {stage : WriteStage} {place : Nat → PayloadPlace} {next : WriteStage}

theorem Placed.runs_le (placed : Placed stage place) (payload : Nat) :
    (stage.payload payload).runs ≤ 1 := by
  have holds := placed.holds payload
  cases here : place payload with
  | outside =>
    rw [here] at holds
    rw [holds.1]
    exact Nat.zero_le 1
  | inlined =>
    rw [here] at holds
    rw [holds.1]
  | queued =>
    rw [here] at holds
    rw [holds.1]
    exact Nat.zero_le 1
  | executing thread =>
    rw [here] at holds
    rw [holds.1]
  | settled =>
    rw [here] at holds
    obtain ⟨⟨-, executed | refused⟩, -⟩ := holds
    · exact executed.1.le
    · omega

theorem Placed.move (placed : Placed stage place) {payload : Nat}
    {target : PayloadPlace}
    (queue : next.items.count (some payload) = if target = .queued then 1 else 0)
    (queues : ∀ other, other ≠ payload →
      next.items.count (some other) = stage.items.count (some other))
    (worker : ∀ thread, next.worker thread = .executing payload ↔ target = .executing thread)
    (workers : ∀ thread other, other ≠ payload →
      (next.worker thread = .executing other ↔ stage.worker thread = .executing other))
    (holds : target.Holds (next.payload payload) (next.submit payload))
    (rest : ∀ other, other ≠ payload →
      next.payload other = stage.payload other ∧ next.submit other = stage.submit other) :
    Placed next (update place payload target) := by
  constructor
  · intro other
    by_cases same : other = payload
    · rw [same, update_self]
      exact queue
    · rw [update_of_ne same, queues other same]
      exact placed.queue other
  · intro thread other
    by_cases same : other = payload
    · rw [same, update_self]
      exact worker thread
    · rw [update_of_ne same, workers thread other same]
      exact placed.worker thread other
  · intro other
    by_cases same : other = payload
    · rw [same, update_self]
      exact holds
    · rw [update_of_ne same, (rest other same).1, (rest other same).2]
      exact placed.holds other

theorem Placed.resubmit (placed : Placed stage place) {payload : Nat}
    {target : PayloadPlace} (items : next.items = stage.items) (worker : next.worker = stage.worker)
    (before : place payload ≠ .queued ∧ ∀ thread, place payload ≠ .executing thread)
    (after : target ≠ .queued ∧ ∀ thread, target ≠ .executing thread)
    (holds : target.Holds (next.payload payload) (next.submit payload))
    (rest : ∀ other, other ≠ payload →
      next.payload other = stage.payload other ∧ next.submit other = stage.submit other) :
    Placed next (update place payload target) := by
  refine placed.move ?_ ?_ ?_ ?_ holds rest
  · rw [items, placed.queue, if_neg before.1, if_neg after.1]
  · intro other _
    rw [items]
  · intro thread
    rw [worker, placed.worker]
    exact iff_of_false (before.2 thread) (after.2 thread)
  · intro thread other _
    rw [worker]

theorem Placed.outside_of (placed : Placed stage place) (payload : Nat)
    (elsewhere : stage.submit payload ≠ .inlined ∧ stage.submit payload ≠ .returned) :
    place payload = .outside := by
  have holds := placed.holds payload
  cases here : place payload with
  | outside => rfl
  | inlined =>
    rw [here] at holds
    exact absurd holds.2 elsewhere.1
  | _ =>
    rw [here] at holds
    exact absurd holds.2 elsewhere.2

theorem Placed.inlined_of {payload : Nat} (placed : Placed stage place)
    (inlined : stage.submit payload = .inlined) : place payload = .inlined := by
  have holds := placed.holds payload
  cases here : place payload with
  | inlined => rfl
  | outside =>
    rw [here] at holds
    exact absurd inlined holds.2.1
  | _ =>
    rw [here, inlined] at holds
    cases holds.2

theorem Placed.goSubmit {payload : Nat} {phase : SubmitPhase} (placed : Placed stage place)
    (elsewhere : stage.submit payload ≠ .inlined ∧ stage.submit payload ≠ .returned)
    (target : phase ≠ .inlined ∧ phase ≠ .returned) :
    Placed (stage.goSubmit payload phase) (update place payload .outside) := by
  have here := placed.outside_of _ elsewhere
  have holds := placed.holds payload
  rw [here] at holds
  refine placed.resubmit rfl rfl (by simp [here]) (by simp) ?_ ?_
  · simp only [WriteStage.goSubmit, update_self]
    exact ⟨holds.1, target⟩
  · intro other apart
    exact ⟨rfl, update_of_ne apart _ _⟩

theorem submitTurn_placed (placed : Placed stage place) (payload : Nat) (turn : SubmitTurn) :
    ∃ place, Placed (submitTurn stage payload turn) place := by
  have stay : ∃ place, Placed stage place := ⟨place, placed⟩
  unfold submitTurn
  split
  next phase =>
    split
    next =>
      have here := placed.outside_of payload (by simp [phase])
      have holds := placed.holds payload
      rw [here] at holds
      refine ⟨_, @Placed.resubmit _ _ _ placed payload .inlined rfl rfl (by simp [here])
        (by simp) ?_ ?_⟩
      · simp [WriteStage.goSubmit, WriteStage.enter, PayloadPlace.Holds, holds.1]
      · intro other apart
        exact ⟨update_of_ne apart _ _, update_of_ne apart _ _⟩
    next => exact ⟨_, placed.goSubmit (by simp [phase]) (by simp)⟩
  next outcome phase =>
    have here := placed.inlined_of phase
    have holds := placed.holds payload
    rw [here] at holds
    refine ⟨_, @Placed.resubmit _ _ _ placed payload .settled rfl rfl (by simp [here])
          (by simp) ?_ ?_⟩
    · simp [WriteStage.goSubmit, WriteStage.settle, PayloadPlace.Holds, PayloadState.Settled,
        holds.1]
    · intro other apart
      exact ⟨update_of_ne apart _ _, update_of_ne apart _ _⟩
  next phase =>
    split
    next =>
      have here := placed.outside_of payload (by simp [phase])
      have holds := placed.holds payload
      rw [here] at holds
      refine ⟨_, @Placed.resubmit _ _ _ placed payload .settled rfl rfl (by simp [here])
        (by simp) ?_ ?_⟩
      · simp [WriteStage.goSubmit, WriteStage.refuse, PayloadPlace.Holds, PayloadState.Settled,
          holds.1]
      · intro other apart
        exact ⟨update_of_ne apart _ _, update_of_ne apart _ _⟩
    next => exact ⟨_, placed.goSubmit (by simp [phase]) (by simp)⟩
  next phase =>
    refine ⟨_, placed.goSubmit (by simp [phase]) ?_⟩
    split <;> simp
  next phase =>
    split
    next =>
      have here := placed.outside_of payload (by simp [phase])
      have holds := placed.holds payload
      have absent := placed.queue payload
      rw [here] at holds absent
      refine ⟨_, @Placed.move _ _ _ placed payload .queued ?_ ?_ ?_ ?_ ?_ ?_⟩
      · simp [absent]
      · intro other apart
        simp [List.count_append, Ne.symm apart]
      · intro thread
        simp [WriteStage.goSubmit, placed.worker, here]
      · intro thread other _
        exact Iff.rfl
      · simp [WriteStage.goSubmit, PayloadPlace.Holds, holds.1]
      · intro other apart
        exact ⟨rfl, update_of_ne apart _ _⟩
    next => exact stay
  next phase =>
    split
    next => exact stay
    next => exact ⟨_, placed.goSubmit (by simp [phase]) (by simp)⟩
  next => exact stay

theorem Placed.same (placed : Placed stage place)
    (items : ∀ payload, next.items.count (some payload) = stage.items.count (some payload))
    (worker : ∀ thread payload,
      next.worker thread = .executing payload ↔ stage.worker thread = .executing payload)
    (payloads : next.payload = stage.payload) (submits : next.submit = stage.submit) :
    Placed next place where
  queue := fun payload => (items payload).trans (placed.queue payload)
  worker := fun thread payload => (worker thread payload).trans (placed.worker thread payload)
  holds := by
    intro payload
    rw [payloads, submits]
    exact placed.holds payload

theorem goWorker_executing {thread : Nat} {phase : WriteWorker}
    (before : ∀ payload, stage.worker thread ≠ .executing payload)
    (after : ∀ payload, phase ≠ .executing payload) (other payload : Nat) :
    (stage.goWorker thread phase).worker other = .executing payload ↔
      stage.worker other = .executing payload := by
  by_cases same : other = thread
  · subst same
    simp only [WriteStage.goWorker, update_self]
    exact iff_of_false (after payload) (before payload)
  · simp [WriteStage.goWorker, update_of_ne same]

theorem Placed.goWorker {thread : Nat} {phase : WriteWorker} (placed : Placed stage place)
    (before : ∀ payload, stage.worker thread ≠ .executing payload)
    (after : ∀ payload, phase ≠ .executing payload) :
    Placed (stage.goWorker thread phase) place :=
  placed.same (fun _ => rfl) (goWorker_executing before after) rfl rfl

theorem workerTurn_placed (placed : Placed stage place) (thread : Nat) (turn : WorkerTurn) :
    ∃ place, Placed (workerTurn stage thread turn) place := by
  have stay : ∃ place, Placed stage place := ⟨place, placed⟩
  unfold workerTurn
  split
  next phase =>
    refine ⟨_, placed.goWorker (by simp [phase]) ?_⟩
    split <;> simp
  next phase => exact ⟨_, placed.goWorker (by simp [phase]) (by simp)⟩
  next phase =>
    refine ⟨_, placed.goWorker (by simp [phase]) ?_⟩
    split <;> simp
  next phase =>
    split
    next => exact stay
    next rest items =>
      refine ⟨place, placed.same ?_ ?_ rfl rfl⟩
      · intro payload
        simp [items]
      · exact goWorker_executing (by simp [phase]) (by simp)
    next payload rest items =>
      have one := placed.queue payload
      have here : place payload = .queued := by
        by_contra other
        rw [items, if_neg other, List.count_cons_self] at one
        omega
      have holds := placed.holds payload
      rw [items, here, List.count_cons_self] at one
      rw [here] at holds
      refine ⟨_, @Placed.move _ _ _ placed payload (.executing thread) ?_ ?_ ?_ ?_ ?_ ?_⟩
      · simpa using one
      · intro other apart
        simp [items, Ne.symm apart]
      · intro other
        by_cases same : other = thread
        · simp [same, WriteStage.goWorker]
        · simp [WriteStage.goWorker, WriteStage.enter, update_of_ne same, Ne.symm same,
            placed.worker, here]
      · intro other payload' apart
        by_cases same : other = thread
        · simp [same, WriteStage.goWorker, Ne.symm apart, phase]
        · simp [WriteStage.goWorker, WriteStage.enter, update_of_ne same]
      · simp [WriteStage.goWorker, WriteStage.enter, PayloadPlace.Holds, holds.1, holds.2]
      · intro other apart
        exact ⟨update_of_ne apart _ _, rfl⟩
  next phase =>
    split
    next => exact ⟨_, placed.goWorker (by simp [phase]) (by simp)⟩
    next => exact stay
  next payload outcome phase =>
    have here := (placed.worker thread payload).mp phase
    have absent := placed.queue payload
    have holds := placed.holds payload
    rw [here] at holds absent
    refine ⟨_, @Placed.move _ _ _ placed payload .settled ?_ ?_ ?_ ?_ ?_ ?_⟩
    · simpa [WriteStage.goWorker, WriteStage.settle] using absent
    · intro other _
      rfl
    · intro other
      by_cases same : other = thread
      · simp [same, WriteStage.goWorker]
      · simp [WriteStage.goWorker, WriteStage.settle, update_of_ne same, placed.worker, here,
          Ne.symm same]
    · intro other payload' apart
      by_cases same : other = thread
      · simp [same, WriteStage.goWorker, phase, Ne.symm apart]
      · simp [WriteStage.goWorker, WriteStage.settle, update_of_ne same]
    · simp [WriteStage.goWorker, WriteStage.settle, PayloadPlace.Holds, PayloadState.Settled, holds.1,
        holds.2]
    · intro other apart
      exact ⟨update_of_ne apart _ _, rfl⟩
  next => exact stay

theorem stopTurn_placed (placed : Placed stage place) : Placed (stopTurn stage) place := by
  unfold stopTurn
  split
  next =>
    split
    next => exact placed.same (fun _ => rfl) (fun _ _ => Iff.rfl) rfl rfl
    next => exact placed
  next => exact placed.same (fun _ => rfl) (fun _ _ => Iff.rfl) rfl rfl
  next =>
    split
    next => exact placed.same (by simp) (fun _ _ => Iff.rfl) rfl rfl
    next => exact placed.same (fun _ => rfl) (fun _ _ => Iff.rfl) rfl rfl
  next =>
    split
    next =>
      split
      next => exact placed.same (fun _ => rfl) (fun _ _ => Iff.rfl) rfl rfl
      next => exact placed
    next => exact placed.same (fun _ => rfl) (fun _ _ => Iff.rfl) rfl rfl
  next => exact placed.same (fun _ => rfl) (fun _ _ => Iff.rfl) rfl rfl
  next => exact placed.same (fun _ => rfl) (fun _ _ => Iff.rfl) rfl rfl
  next => exact placed

theorem stageStep_placed (placed : Placed stage place) (event : StageEvent) :
    ∃ place, Placed (stageStep stage event) place := by
  cases event with
  | submit payload turn => exact submitTurn_placed placed payload turn
  | worker thread turn => exact workerTurn_placed placed thread turn
  | stop => exact ⟨place, stopTurn_placed placed⟩
  | joinTimeout =>
    refine ⟨place, ?_⟩
    simp only [stageStep]
    split
    next =>
      split
      next => exact placed.same (fun _ => rfl) (fun _ _ => Iff.rfl) rfl rfl
      next => exact placed
    next => exact placed

theorem start_placed (writeWorkers queueMax : Nat) :
    Placed (startIngestWriteStage writeWorkers queueMax) fun _ => .outside where
  queue := fun _ => rfl
  worker := by
    intro thread payload
    simp only [startIngestWriteStage, reduceCtorEq, iff_false]
    split <;> simp
  holds := fun _ => ⟨rfl, by simp [startIngestWriteStage]⟩

theorem run_placed (writeWorkers queueMax : Nat) (events : List StageEvent) :
    ∃ place, Placed (events.foldl stageStep (startIngestWriteStage writeWorkers queueMax)) place :=
  Lib.foldl_kept (K := fun stage => ∃ place, Placed stage place)
    ⟨_, start_placed writeWorkers queueMax⟩ fun _ event ⟨_, placed⟩ => stageStep_placed placed event

end Places

section Closing

def StopPhase.Joined (phase : StopPhase) (thread : Nat) : Prop :=
  match phase with
  | .running => False
  | .sentinels _ => False
  | .joining next => thread < next
  | _ => True

/-- The stop has unset `_WRITE_QUEUE`. -/
def StopPhase.Unset (phase : StopPhase) : Prop :=
  phase = .unset ∨ phase = .unstarted ∨ phase = .stopped

structure Closing (stage : WriteStage) : Prop where
  empty : stage.stopper ≠ .running → ∀ payload, some payload ∉ stage.items
  away : stage.stopper ≠ .running → ∀ payload, stage.submit payload ≠ .putting
  late : stage.stopper ≠ .running → ∀ payload, stage.submit payload = .unshut →
    stage.queueSet = false
  shut : stage.stopper ≠ .running → ¬stage.stopper.Unset → stage.shutdown = true
  unset : stage.stopper.Unset → stage.queueSet = false
  joined : ∀ thread, stage.stopper.Joined thread → ∀ payload, stage.worker thread ≠ .executing payload
  threads : ∀ thread, stage.threads ≤ thread → stage.worker thread = .ended

variable {stage : WriteStage} {next : WriteStage}

theorem Closing.queueSet_false (closing : Closing stage) (stopping : stage.stopper ≠ .running)
    (open_ : stage.shutdown = false) : stage.queueSet = false := by
  apply closing.unset
  by_contra set
  rw [closing.shut stopping set] at open_
  cases open_

theorem Closing.resubmit (closing : Closing stage) {payload : Nat}
    {phase : SubmitPhase} (items : next.items = stage.items) (worker : next.worker = stage.worker)
    (flags : next.stopper = stage.stopper ∧ next.shutdown = stage.shutdown ∧
      next.queueSet = stage.queueSet ∧ next.threads = stage.threads)
    (submit : next.submit = update stage.submit payload phase)
    (putting : stage.stopper ≠ .running → phase ≠ .putting)
    (unshut : stage.stopper ≠ .running → phase = .unshut → stage.queueSet = false) :
    Closing next := by
  obtain ⟨stopper, shutdown, queueSet, threads⟩ := flags
  constructor
  · rw [stopper, items]
    exact closing.empty
  · rw [stopper, submit]
    intro stopping other
    by_cases same : other = payload
    · rw [same, update_self]
      exact putting stopping
    · rw [update_of_ne same]
      exact closing.away stopping other
  · rw [stopper, submit, queueSet]
    intro stopping other
    by_cases same : other = payload
    · rw [same, update_self]
      exact unshut stopping
    · rw [update_of_ne same]
      exact closing.late stopping other
  · rw [stopper, shutdown]
    exact closing.shut
  · rw [stopper, queueSet]
    exact closing.unset
  · rw [stopper, worker]
    exact closing.joined
  · rw [threads, worker]
    exact closing.threads

theorem submitTurn_closing (closing : Closing stage) (payload : Nat) (turn : SubmitTurn) :
    Closing (submitTurn stage payload turn) := by
  unfold submitTurn
  split
  next =>
    split
    next => exact closing.resubmit rfl rfl ⟨rfl, rfl, rfl, rfl⟩ rfl (by simp) (by simp)
    next => exact closing.resubmit rfl rfl ⟨rfl, rfl, rfl, rfl⟩ rfl (by simp) (by simp)
  next => exact closing.resubmit rfl rfl ⟨rfl, rfl, rfl, rfl⟩ rfl (by simp) (by simp)
  next =>
    split
    next => exact closing.resubmit rfl rfl ⟨rfl, rfl, rfl, rfl⟩ rfl (by simp) (by simp)
    next open_ =>
      refine closing.resubmit rfl rfl ⟨rfl, rfl, rfl, rfl⟩ rfl (by simp) ?_
      intro stopping _
      exact closing.queueSet_false stopping (Bool.eq_false_of_not_eq_true open_)
  next phase =>
    refine closing.resubmit rfl rfl ⟨rfl, rfl, rfl, rfl⟩ rfl ?_ ?_
    · intro stopping
      rw [closing.late stopping payload phase]
      exact nofun
    · intro _ same
      split at same <;> cases same
  next phase =>
    have running : stage.stopper = .running := by
      by_contra stopping
      exact closing.away stopping payload phase
    split
    next =>
      have base : Closing (stage.goSubmit payload .returned) :=
        closing.resubmit rfl rfl ⟨rfl, rfl, rfl, rfl⟩ rfl (by simp) (by simp)
      exact { base with empty := fun stopping => absurd running stopping }
    next => exact closing
  next =>
    split
    next => exact closing
    next => exact closing.resubmit rfl rfl ⟨rfl, rfl, rfl, rfl⟩ rfl (by simp) (by simp)
  next => exact closing

theorem Closing.goWorker (closing : Closing stage) {thread : Nat}
    {phase : WriteWorker} (alive : stage.worker thread ≠ .ended)
    (items : ∀ payload, some payload ∈ next.items → some payload ∈ stage.items)
    (flags : next.stopper = stage.stopper ∧ next.shutdown = stage.shutdown ∧
      next.queueSet = stage.queueSet ∧ next.threads = stage.threads)
    (submit : next.submit = stage.submit)
    (worker : next.worker = update stage.worker thread phase)
    (executing : ∀ payload, phase = .executing payload → stage.stopper = .running) :
    Closing next := by
  obtain ⟨stopper, shutdown, queueSet, threads⟩ := flags
  constructor
  · rw [stopper]
    exact fun stopping payload inside => closing.empty stopping payload (items payload inside)
  · rw [stopper, submit]
    exact closing.away
  · rw [stopper, submit, queueSet]
    exact closing.late
  · rw [stopper, shutdown]
    exact closing.shut
  · rw [stopper, queueSet]
    exact closing.unset
  · rw [stopper, worker]
    intro other joined payload
    by_cases same : other = thread
    · rw [same, update_self]
      intro busy
      rw [executing payload busy] at joined
      exact joined
    · rw [update_of_ne same]
      exact closing.joined other joined payload
  · rw [threads, worker]
    intro other none_
    by_cases same : other = thread
    · rw [same] at none_
      exact absurd (closing.threads thread none_) alive
    · rw [update_of_ne same]
      exact closing.threads other none_

theorem workerTurn_closing (closing : Closing stage) (thread : Nat) (turn : WorkerTurn) :
    Closing (workerTurn stage thread turn) := by
  have idle : ∀ {phase}, stage.worker thread ≠ .ended → (∀ payload, phase ≠ .executing payload) →
      Closing (stage.goWorker thread phase) := by
    intro phase alive silent
    exact closing.goWorker alive (fun _ inside => inside) ⟨rfl, rfl, rfl, rfl⟩ rfl rfl
      (fun payload busy => absurd busy (silent payload))
  unfold workerTurn
  split
  next phase =>
    refine idle (by simp [phase]) ?_
    split <;> simp
  next phase => exact idle (by simp [phase]) (by simp)
  next phase =>
    refine idle (by simp [phase]) ?_
    split <;> simp
  next phase =>
    split
    next => exact closing
    next rest items =>
      exact closing.goWorker (by simp [phase]) (by simp [items]) ⟨rfl, rfl, rfl, rfl⟩ rfl rfl
        (by simp)
    next payload rest items =>
      have fewer : ∀ other, some other ∈ rest → some other ∈ stage.items := by
        intro other inside
        rw [items]
        exact .tail _ inside
      refine closing.goWorker (by simp [phase]) fewer ⟨rfl, rfl, rfl, rfl⟩ rfl rfl ?_
      intro _ _
      by_contra stopping
      exact closing.empty stopping payload (by simp [items])
  next phase =>
    split
    next => exact idle (by simp [phase]) (by simp)
    next => exact closing
  next payload outcome phase =>
    exact closing.goWorker (by simp [phase]) (fun _ inside => inside) ⟨rfl, rfl, rfl, rfl⟩ rfl rfl
      (by simp)
  next => exact closing

theorem Closing.advance (closing : Closing stage)
    (stopping : stage.stopper ≠ .running)
    (items : ∀ payload, some payload ∈ next.items → some payload ∈ stage.items)
    (same : next.submit = stage.submit ∧ next.worker = stage.worker ∧ next.threads = stage.threads)
    (queueSet : stage.queueSet = false → next.queueSet = false)
    (shut : ¬next.stopper.Unset → next.shutdown = true)
    (unset : next.stopper.Unset → next.queueSet = false)
    (joined : ∀ thread, next.stopper.Joined thread → ∀ payload,
      stage.worker thread ≠ .executing payload) : Closing next := by
  obtain ⟨submit, worker, threads⟩ := same
  constructor
  · exact fun _ payload inside => closing.empty stopping payload (items payload inside)
  · rw [submit]
    exact fun _ => closing.away stopping
  · rw [submit]
    exact fun _ payload behind => queueSet (closing.late stopping payload behind)
  · exact fun _ => shut
  · exact unset
  · rw [worker]
    exact joined
  · rw [worker, threads]
    exact closing.threads

theorem stopTurn_closing (closing : Closing stage) (quiet : StopsQuietly stage .stop) :
    Closing (stopTurn stage) := by
  unfold stopTurn
  split
  next phase =>
    split
    next started =>
      obtain ⟨empty, away⟩ := quiet phase started
      refine ⟨fun _ => empty, fun _ payload => (away payload).2,
        fun _ payload behind => absurd behind (away payload).1, fun _ _ => rfl, ?_, ?_,
        closing.threads⟩
      · rintro (same | same | same) <;> cases same
      · exact fun _ joined => joined.elim
    next => exact closing
  next phase =>
    refine closing.advance (by simp [phase]) (fun _ inside => inside) ⟨rfl, rfl, rfl⟩ id ?_ ?_ ?_
    · exact fun _ => closing.shut (by simp [phase]) (by simp [phase, StopPhase.Unset])
    · simp [StopPhase.Unset]
    · exact fun thread joined => absurd joined (Nat.not_lt_zero thread)
  next phase =>
    have shut := closing.shut (by simp [phase]) (by simp [phase, StopPhase.Unset])
    split
    next =>
      refine closing.advance (by simp [phase]) (by simp) ⟨rfl, rfl, rfl⟩ id (fun _ => shut) ?_ ?_
      · simp [StopPhase.Unset]
      · exact fun _ joined => joined.elim
    next =>
      refine closing.advance (by simp [phase]) (fun _ inside => inside) ⟨rfl, rfl, rfl⟩ id
        (fun _ => shut) ?_ ?_
      · simp [StopPhase.Unset]
      · exact fun thread joined => absurd joined (Nat.not_lt_zero thread)
  next thread phase =>
    have shut := closing.shut (by simp [phase]) (by simp [phase, StopPhase.Unset])
    have before := closing.joined
    rw [phase] at before
    split
    next =>
      split
      next ended =>
        refine closing.advance (by simp [phase]) (fun _ inside => inside) ⟨rfl, rfl, rfl⟩ id
          (fun _ => shut) (by simp [StopPhase.Unset]) ?_
        intro other joined payload
        by_cases same : other = thread
        · simp [same, ended]
        · exact before other (Nat.lt_of_le_of_ne (Nat.le_of_lt_succ joined) same) payload
      next => exact closing
    next last =>
      refine closing.advance (by simp [phase]) (fun _ inside => inside) ⟨rfl, rfl, rfl⟩
        (fun _ => rfl) (fun set => absurd (Or.inl rfl) set) (fun _ => rfl) ?_
      intro other _ payload
      by_cases early : other < thread
      · exact before other early payload
      · rw [closing.threads other (by omega)]
        simp
  next phase =>
    have unset := closing.unset (by simp [phase, StopPhase.Unset])
    refine closing.advance (by simp [phase]) (fun _ inside => inside) ⟨rfl, rfl, rfl⟩ id ?_
      (fun _ => unset) ?_
    · exact fun set => absurd (Or.inr (Or.inl rfl)) set
    · exact fun other _ => closing.joined other (by rw [phase]; trivial)
  next phase =>
    have unset := closing.unset (by simp [phase, StopPhase.Unset])
    refine closing.advance (by simp [phase]) (fun _ inside => inside) ⟨rfl, rfl, rfl⟩ id ?_
      (fun _ => unset) ?_
    · exact fun set => absurd (Or.inr (Or.inr rfl)) set
    · exact fun other _ => closing.joined other (by rw [phase]; trivial)
  next => exact closing

theorem stageStep_closing (closing : Closing stage) {event : StageEvent}
    (quiet : StopsQuietly stage event) : Closing (stageStep stage event) := by
  cases event with
  | submit payload turn => exact submitTurn_closing closing payload turn
  | worker thread turn => exact workerTurn_closing closing thread turn
  | stop => exact stopTurn_closing closing quiet
  | joinTimeout =>
    simp only [stageStep]
    split
    next thread phase =>
      split
      next =>
        have shut := closing.shut (by simp [phase]) (by simp [phase, StopPhase.Unset])
        refine closing.advance (by simp [phase]) (fun _ inside => inside) ⟨rfl, rfl, rfl⟩ id
          (fun _ => shut) (by simp [StopPhase.Unset]) ?_
        intro other joined payload
        by_cases same : other = thread
        · rw [same]
          exact quiet thread phase payload
        · refine closing.joined other ?_ payload
          rw [phase]
          exact Nat.lt_of_le_of_ne (Nat.le_of_lt_succ joined) same
      next => exact closing
    next => exact closing

theorem start_closing (writeWorkers queueMax : Nat) :
    Closing (startIngestWriteStage writeWorkers queueMax) := by
  refine ⟨fun stopping => absurd rfl stopping, fun stopping => absurd rfl stopping,
    fun stopping => absurd rfl stopping, fun stopping => absurd rfl stopping, ?_,
    fun _ joined => joined.elim, ?_⟩
  · rintro (same | same | same) <;> cases same
  · exact fun thread none_ => if_neg (Nat.not_lt_of_le none_)

theorem Closing.settled {place : Nat → PayloadPlace} (closing : Closing stage)
    (placed : Placed stage place) (stopped : stage.stopper = .stopped) {payload : Nat}
    (accepted : stage.submit payload = .returned) : (stage.payload payload).Settled := by
  have holds := placed.holds payload
  cases here : place payload with
  | outside =>
    rw [here] at holds
    exact absurd accepted holds.2.2
  | inlined =>
    rw [here, accepted] at holds
    cases holds.2
  | queued =>
    have one := placed.queue payload
    rw [here, if_pos rfl] at one
    have inside : some payload ∈ stage.items := List.count_pos_iff.mp (by omega)
    exact absurd inside (closing.empty (by simp [stopped]) payload)
  | executing thread =>
    have busy := (placed.worker thread payload).mpr here
    exact absurd busy (closing.joined thread (by rw [stopped]; trivial) payload)
  | settled =>
    rw [here] at holds
    exact holds.1

/-- No payload is executed twice; and where the stop finds a drained stage and gives up on no worker
in a payload, all accepted by then are settled once it returns. -/
theorem write_stage_settles (writeWorkers queueMax : Nat) (events : List StageEvent)
    (quiet : Lib.Throughout stageStep StopsQuietly (startIngestWriteStage writeWorkers queueMax)
      events) :
    (∀ payload,
      ((events.foldl stageStep (startIngestWriteStage writeWorkers queueMax)).payload payload).runs ≤
        1) ∧
      ((events.foldl stageStep (startIngestWriteStage writeWorkers queueMax)).stopper = .stopped →
        ∀ payload,
          (events.foldl stageStep (startIngestWriteStage writeWorkers queueMax)).submit payload =
              .returned →
            ((events.foldl stageStep (startIngestWriteStage writeWorkers queueMax)).payload
              payload).Settled) := by
  obtain ⟨place, placed⟩ := run_placed writeWorkers queueMax events
  have closing := quiet.kept (start_closing writeWorkers queueMax)
    fun _ _ closing quiet => stageStep_closing closing quiet
  exact ⟨placed.runs_le, fun stopped payload accepted => closing.settled placed stopped accepted⟩

def writtenAndRefused : List StageEvent :=
  [.submit 0 .call, .submit 0 .checkShutdown, .submit 0 .readQueue, .submit 0 .put,
    .worker 0 .checkShutdown, .worker 0 .readQueue, .worker 0 .get, .submit 1 .call, .stop, .stop,
    .submit 1 .checkShutdown, .worker 0 (.executed (.written true true)), .worker 0 .checkShutdown,
    .stop, .stop, .stop, .stop, .stop]

theorem writtenAndRefused_quiet :
    Lib.Throughout stageStep StopsQuietly (startIngestWriteStage 1 1) writtenAndRefused := by
  have drained : ((writtenAndRefused.take 8).foldl stageStep (startIngestWriteStage 1 1)).Drained := by
    constructor
    · exact fun payload inside => absurd inside List.not_mem_nil
    · intro payload
      match payload with
      | 0 => decide
      | 1 => decide
      | _ + 2 => exact ⟨nofun, nofun⟩
  refine ⟨trivial, trivial, trivial, trivial, trivial, trivial, trivial, trivial,
    fun _ _ => drained, ?_, trivial, trivial, trivial, ?_, ?_, ?_, ?_, ?_, trivial⟩
  all_goals exact nofun

theorem write_stage_settles_both :
    (((writtenAndRefused.foldl stageStep (startIngestWriteStage 1 1)).payload 0).runs ≤ 1 ∧
      ((writtenAndRefused.foldl stageStep (startIngestWriteStage 1 1)).payload 0).Settled) ∧
      ((writtenAndRefused.foldl stageStep (startIngestWriteStage 1 1)).payload 1).Settled := by
  obtain ⟨once, settled⟩ := write_stage_settles 1 1 writtenAndRefused writtenAndRefused_quiet
  exact ⟨⟨once 0, settled (by decide) 0 (by decide)⟩, settled (by decide) 1 (by decide)⟩

def leftInQueue : List StageEvent :=
  [.submit 0 .call, .submit 0 .checkShutdown, .submit 0 .readQueue, .submit 0 .put, .stop, .stop,
    .worker 0 .checkShutdown, .stop, .stop, .stop, .stop]

theorem write_stage_strands :
    ¬ ∀ (writeWorkers queueMax : Nat) (events : List StageEvent),
      (events.foldl stageStep (startIngestWriteStage writeWorkers queueMax)).stopper = .stopped →
        ∀ payload,
          (events.foldl stageStep (startIngestWriteStage writeWorkers queueMax)).submit payload =
              .returned →
            ((events.foldl stageStep (startIngestWriteStage writeWorkers queueMax)).payload
              payload).Settled := by
  intro always
  have settled := always 1 1 leftInQueue (by decide) 0 (by decide)
  exact absurd settled.1 (by decide)

end Closing

end PerfStats.Ingest
