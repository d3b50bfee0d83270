import PerfStats.Lib.Runs

/-! Calls that are served in batches by one of them at a time. -/

namespace PerfStats.Lib

open Function

section Batching

variable {ρ ω ε : Type}

structure Served (ρ ω ε : Type) where
  start : Nat
  batch : List (Nat × ρ)
  met : ε
  outcome : ω

/-- Where a call is; `raised` is a leader whose work was left by an exception. -/
inductive CallPhase (ρ ω ε : Type) where
  | absent
  | asleep
  | woken
  | leading (batch : List (Nat × ρ)) (start : Nat)
  | answering
  | returned (served : Served ρ ω ε)
  | raised (served : Served ρ ω ε)

structure Batching (ρ ω ε : Type) where
  requests : List ρ
  running : Bool
  pending : List (Nat × ρ)
  done : Nat → Option (Served ρ ω ε)
  phase : Nat → CallPhase ρ ω ε

inductive BatchEvent (ρ ε : Type) where
  | call (request : ρ)
  | wake (id : Nat)
  | finish (id : Nat) (met : ε)
  | answer (id : Nat)

def Batching.fresh : Batching ρ ω ε := ⟨[], false, [], fun _ => none, fun _ => .absent⟩

def Batching.lead (state : Batching ρ ω ε) (id : Nat) : Batching ρ ω ε :=
  { state with
    running := true
    pending := []
    phase := update state.phase id (.leading state.pending state.requests.length) }

def Batching.goto (state : Batching ρ ω ε) (id : Nat) (phase : CallPhase ρ ω ε) :
    Batching ρ ω ε :=
  { state with phase := update state.phase id phase }

def Batching.enter (state : Batching ρ ω ε) (id : Nat) : Batching ρ ω ε :=
  if state.running then state.goto id .asleep else state.lead id

def outcomeOf (left : ω) (results : Except ω (Nat → Option ω)) (id : Nat) : ω :=
  match results with
  | .ok results => (results id).getD left
  | .error _ => left

def CallPhase.wake : CallPhase ρ ω ε → CallPhase ρ ω ε
  | .asleep => .woken
  | phase => phase

def Batching.publish (left : ω) (work : List (Nat × ρ) → ε → Except ω (Nat → Option ω))
    (state : Batching ρ ω ε) (id : Nat) (batch : List (Nat × ρ)) (start : Nat) (met : ε) :
    Batching ρ ω ε :=
  { state with
    running := false
    done := fun key =>
      if key ∈ batch.map (·.1) then
        some ⟨start, batch, met, outcomeOf left (work batch met) key⟩
      else state.done key
    phase := fun other =>
      if other = id then
        match work batch met with
        | .ok _ => .answering
        | .error out => .raised ⟨start, batch, met, out⟩
      else (state.phase other).wake }

variable (left : ω) (work : List (Nat × ρ) → ε → Except ω (Nat → Option ω))

def batchStep (state : Batching ρ ω ε) : BatchEvent ρ ε → Batching ρ ω ε
  | .call request =>
    let id := state.requests.length
    Batching.enter { state with
      requests := state.requests ++ [request]
      pending := state.pending ++ [(id, request)] } id
  | .wake id =>
    match state.phase id with
    | .woken => if (state.done id).isSome then state.goto id .answering else state.enter id
    | _ => state
  | .finish id met =>
    match state.phase id with
    | .leading batch start => state.publish left work id batch start met
    | _ => state
  | .answer id =>
    match state.phase id, state.done id with
    | .answering, some served =>
      { state.goto id (.returned served) with done := update state.done id none }
    | _, _ => state

structure Answers (requests : List ρ) (served : Served ρ ω ε) (id : Nat) : Prop where
  distinct : (served.batch.map (·.1)).Nodup
  made : ∀ entry ∈ served.batch, requests[entry.1]? = some entry.2
  member : id ∈ served.batch.map (·.1)
  later : id < served.start
  outcome : served.outcome = outcomeOf left (work served.batch served.met) id

structure Leaves (requests : List ρ) (served : Served ρ ω ε) (id : Nat) : Prop where
  member : id ∈ served.batch.map (·.1)
  later : id < served.start
  outcome : work served.batch served.met = .error served.outcome

def CallPhase.waits : CallPhase ρ ω ε → Bool
  | .asleep | .woken => true
  | _ => false

def CallPhase.leads : CallPhase ρ ω ε → Bool
  | .leading _ _ => true
  | _ => false

def CallPhase.ended : CallPhase ρ ω ε → Bool
  | .absent | .returned _ | .raised _ => true
  | _ => false

structure LeadRight (state : Batching ρ ω ε) (id : Nat) (batch : List (Nat × ρ)) (start : Nat) :
    Prop where
  distinct : (batch.map (·.1)).Nodup
  member : id ∈ batch.map (·.1)
  known : start ≤ state.requests.length
  made : ∀ entry ∈ batch, state.requests[entry.1]? = some entry.2
  later : ∀ entry ∈ batch, entry.1 < start
  phase : ∀ entry ∈ batch, entry.1 = id ∨ (state.phase entry.1).waits = true
  taken : ∀ entry ∈ batch, entry.1 ∉ state.pending.map (·.1)
  unanswered : ∀ entry ∈ batch, state.done entry.1 = none

structure BatchRight (state : Batching ρ ω ε) : Prop where
  absent : ∀ id, state.phase id = .absent ↔ state.requests.length ≤ id
  running : state.running = true ↔ ∃ id, (state.phase id).leads = true
  one : ∀ a b, (state.phase a).leads = true → (state.phase b).leads = true → a = b
  distinct : (state.pending.map (·.1)).Nodup
  made : ∀ entry ∈ state.pending, state.requests[entry.1]? = some entry.2
  queued : ∀ entry ∈ state.pending, (state.phase entry.1).waits = true
  unanswered : ∀ entry ∈ state.pending, state.done entry.1 = none
  leading : ∀ id batch start, state.phase id = .leading batch start →
    LeadRight state id batch start
  asleep : ∀ id, state.phase id = .asleep → state.running = true
  placed : ∀ id, (state.phase id).waits = true → id ∈ state.pending.map (·.1) ∨
    (∃ leader batch start, state.phase leader = .leading batch start ∧ id ∈ batch.map (·.1)) ∨
      (state.done id).isSome = true
  answering : ∀ id, state.phase id = .answering → (state.done id).isSome = true
  done : ∀ id served, state.done id = some served →
    Answers left work state.requests served id ∧
      (state.phase id = .woken ∨ state.phase id = .answering ∨
        ∃ own, state.phase id = .raised own)
  returned : ∀ id served, state.phase id = .returned served →
    Answers left work state.requests served id
  raised : ∀ id served, state.phase id = .raised served → Leaves work state.requests served id

variable {left work} {state : Batching ρ ω ε}

variable {id : Nat} {batch : List (Nat × ρ)} {start : Nat} (phase : CallPhase ρ ω ε)
  {state : Batching ρ ω ε}

theorem Answers.grow {requests : List ρ} {served : Served ρ ω ε}
    (answers : Answers left work requests served id) (request : ρ) :
    Answers left work (requests ++ [request]) served id := by
  refine ⟨answers.distinct, ?_, answers.member, answers.later, answers.outcome⟩
  intro entry member
  have made := answers.made entry member
  rw [List.getElem?_append_left (List.getElem?_eq_some_iff.mp made).1]
  exact made

theorem made_grow {requests : List ρ} {entry : Nat × ρ} (made : requests[entry.1]? = some entry.2)
    (request : ρ) : (requests ++ [request])[entry.1]? = some entry.2 := by
  rw [List.getElem?_append_left (List.getElem?_eq_some_iff.mp made).1]
  exact made

theorem goto_self (state : Batching ρ ω ε) (id : Nat) (phase : CallPhase ρ ω ε) :
    (state.goto id phase).phase id = phase := update_self ..

theorem goto_other (state : Batching ρ ω ε) {other : Nat} (phase : CallPhase ρ ω ε)
    (differs : other ≠ id) : (state.goto id phase).phase other = state.phase other :=
  update_of_ne differs _ _

def Batching.register (state : Batching ρ ω ε) (request : ρ) : Batching ρ ω ε :=
  { state with
    requests := state.requests ++ [request]
    pending := state.pending ++ [(state.requests.length, request)]
    phase := update state.phase state.requests.length .woken }

theorem batchStep_call (state : Batching ρ ω ε) (request : ρ) :
    batchStep left work state (.call request) =
      (state.register request).enter state.requests.length := by
  cases running : state.running with
  | true => simp [batchStep, Batching.enter, Batching.register, Batching.goto, running]
  | false => simp [batchStep, Batching.enter, Batching.register, Batching.lead, running]

theorem finish_raises {met : ε} {out : ω} (leading : state.phase id = .leading batch start)
    (walks : work batch met = .error out) :
    (batchStep left work state (.finish id met)).phase id = .raised ⟨start, batch, met, out⟩ := by
  simp only [batchStep, leading, Batching.publish, walks, if_true]

theorem BatchRight.absent_fresh (right : BatchRight left work state) :
    state.phase state.requests.length = .absent := (right.absent _).mpr le_rfl

theorem BatchRight.fresh_not_waiting (right : BatchRight left work state) {entry : Nat × ρ}
    (member : entry ∈ state.pending) : entry.1 ≠ state.requests.length := by
  intro same
  have waits := right.queued entry member
  rw [same, right.absent_fresh] at waits
  cases waits

theorem BatchRight.fresh_unanswered (right : BatchRight left work state) :
    state.done state.requests.length = none := by
  cases there : state.done state.requests.length with
  | none => rfl
  | some served =>
    have phase := (right.done _ served there).2
    rw [right.absent_fresh] at phase
    rcases phase with h | h | ⟨own, h⟩ <;> cases h

theorem register_right (right : BatchRight left work state) (request : ρ) :
    BatchRight left work (state.register request) := by
  have fresh := right.absent_fresh
  have phase_self : (state.register request).phase state.requests.length = .woken :=
    update_self ..
  have phase_other : ∀ id, id ≠ state.requests.length →
      (state.register request).phase id = state.phase id :=
    fun id differs => update_of_ne differs _ _
  have other_of : ∀ {id : Nat} {p : CallPhase ρ ω ε}, (state.register request).phase id = p →
      p ≠ .woken → state.phase id = p := by
    intro id p here differs
    by_cases same : id = state.requests.length
    · rw [same, phase_self] at here
      exact absurd here.symm differs
    · rw [phase_other id same] at here
      exact here
  have leads : ∀ id, ((state.register request).phase id).leads = true ↔
      (state.phase id).leads = true := by
    intro id
    by_cases same : id = state.requests.length
    · rw [same, phase_self, fresh]
      simp [CallPhase.leads]
    · rw [phase_other id same]
  have length : (state.register request).requests.length = state.requests.length + 1 := by
    simp [Batching.register]
  refine ⟨?_, ?_, ?_, ?_, ?_, ?_, ?_, ?_, ?_, ?_, ?_, ?_, ?_, ?_⟩
  · intro id
    rw [length]
    by_cases same : id = state.requests.length
    · rw [same, phase_self]
      simp
    · rw [phase_other id same, right.absent id]
      omega
  · simp only [leads]
    exact right.running
  · simp only [leads]
    exact right.one
  · simp only [Batching.register, List.map_append, List.map_cons, List.map_nil]
    refine List.nodup_append.mpr ⟨right.distinct, List.nodup_singleton _, ?_⟩
    intro id member other last
    obtain ⟨entry, there, rfl⟩ := List.mem_map.mp member
    rw [List.mem_singleton.mp last]
    exact right.fresh_not_waiting there
  · intro entry member
    rcases List.mem_append.mp member with old | new
    · exact made_grow (right.made entry old) request
    · rw [List.mem_singleton.mp new]
      simp [Batching.register]
  · intro entry member
    rcases List.mem_append.mp member with old | new
    · rw [phase_other _ (right.fresh_not_waiting old)]
      exact right.queued entry old
    · rw [List.mem_singleton.mp new, phase_self]
      rfl
  · intro entry member
    rcases List.mem_append.mp member with old | new
    · exact right.unanswered entry old
    · rw [List.mem_singleton.mp new]
      exact right.fresh_unanswered
  · intro id batch start here
    have lead := right.leading id batch start (other_of here (by simp))
    refine ⟨lead.distinct, lead.member, by rw [length]; exact Nat.le_succ_of_le lead.known,
      fun entry member => made_grow (lead.made entry member) request, lead.later, ?_, ?_,
      lead.unanswered⟩
    · intro entry member
      have old := Nat.lt_of_lt_of_le (lead.later entry member) lead.known
      rw [phase_other _ (Nat.ne_of_lt old)]
      exact lead.phase entry member
    · intro entry member there
      rw [Batching.register, List.map_append, List.mem_append] at there
      rcases there with before | new
      · exact lead.taken entry member before
      · have old := Nat.lt_of_lt_of_le (lead.later entry member) lead.known
        exact absurd (List.mem_singleton.mp new) (Nat.ne_of_lt old)
  · intro id here
    exact right.asleep id (other_of here (by simp))
  · intro id waits
    by_cases same : id = state.requests.length
    · subst same
      exact .inl (by simp [Batching.register])
    · rw [phase_other id same] at waits
      rcases right.placed id waits with queued | ⟨leader, batch, start, here, member⟩ | done
      · refine .inl ?_
        rw [Batching.register, List.map_append, List.mem_append]
        exact .inl queued
      · refine .inr (.inl ⟨leader, batch, start, ?_, member⟩)
        refine (phase_other leader ?_).trans here
        intro equal
        rw [equal, fresh] at here
        cases here
      · exact .inr (.inr done)
  · intro id here
    exact right.answering id (other_of here (by simp))
  · intro id served there
    obtain ⟨answers, phase⟩ := right.done id served there
    refine ⟨answers.grow request, ?_⟩
    have differs : id ≠ state.requests.length := by
      intro same
      rw [same, fresh] at phase
      rcases phase with h | h | ⟨own, h⟩ <;> cases h
    rw [phase_other id differs]
    exact phase
  · intro id served here
    exact (right.returned id served (other_of here (by simp))).grow request
  · intro id served here
    have leaves := right.raised id served (other_of here (by simp))
    exact ⟨leaves.member, leaves.later, leaves.outcome⟩

theorem sleep_right (right : BatchRight left work state)
    (here : state.phase id = .woken) (undone : state.done id = none)
    (running : state.running = true) : BatchRight left work (state.goto id .asleep) := by
  have same_of : ∀ {other : Nat} {p : CallPhase ρ ω ε}, (state.goto id .asleep).phase other = p →
      p ≠ .asleep → state.phase other = p := by
    intro other p there differs
    by_cases same : other = id
    · rw [same, goto_self] at there
      exact absurd there.symm differs
    · rwa [goto_other state _ same] at there
  have leads : ∀ other, ((state.goto id .asleep).phase other).leads = true ↔
      (state.phase other).leads = true := by
    intro other
    by_cases same : other = id
    · rw [same, goto_self, here]
      simp [CallPhase.leads]
    · rw [goto_other state _ same]
  have waits : ∀ other, ((state.goto id .asleep).phase other).waits =
      (state.phase other).waits := by
    intro other
    by_cases same : other = id
    · rw [same, goto_self, here]
      rfl
    · rw [goto_other state _ same]
  refine ⟨?_, ?_, ?_, right.distinct, right.made, ?_, right.unanswered, ?_, ?_, ?_, ?_, ?_, ?_, ?_⟩
  · intro other
    by_cases same : other = id
    · have made := right.absent id
      rw [here] at made
      rw [same, goto_self]
      show _ ↔ state.requests.length ≤ id
      simpa using made
    · rw [goto_other state _ same]
      exact right.absent other
  · simp only [leads]
    exact right.running
  · simp only [leads]
    exact right.one
  · simp only [waits]
    exact right.queued
  · intro other batch start there
    have lead := right.leading other batch start (same_of there (by simp))
    exact ⟨lead.distinct, lead.member, lead.known, lead.made, lead.later,
      by simpa only [waits] using lead.phase, lead.taken, lead.unanswered⟩
  · intro other _
    exact running
  · intro other waiting
    rw [waits] at waiting
    rcases right.placed other waiting with queued | ⟨leader, batch, start, there, member⟩ | done
    · exact .inl queued
    · refine .inr (.inl ⟨leader, batch, start, ?_, member⟩)
      refine (goto_other state _ ?_).trans there
      intro equal
      rw [equal, here] at there
      cases there
    · exact .inr (.inr done)
  · intro other there
    exact right.answering other (same_of there (by simp))
  · intro other served there
    obtain ⟨answers, phase⟩ := right.done other served there
    refine ⟨answers, ?_⟩
    have differs : other ≠ id := by
      intro same
      rw [same, show (state.goto id .asleep).done = state.done from rfl] at there
      rw [undone] at there
      cases there
    rw [goto_other state _ differs]
    exact phase
  · intro other served there
    exact right.returned other served (same_of there (by simp))
  · intro other served there
    exact right.raised other served (same_of there (by simp))

theorem lead_right (right : BatchRight left work state)
    (here : state.phase id = .woken) (undone : state.done id = none)
    (idle : state.running = false) : BatchRight left work (state.lead id) := by
  have alone : ∀ other, (state.phase other).leads = false := by
    intro other
    cases leads : (state.phase other).leads with
    | false => rfl
    | true =>
      have running := right.running.mpr ⟨other, leads⟩
      rw [idle] at running
      cases running
  have phase_self : (state.lead id).phase id = .leading state.pending state.requests.length :=
    update_self ..
  have phase_other : ∀ other, other ≠ id → (state.lead id).phase other = state.phase other :=
    fun other differs => update_of_ne differs _ _
  have own : id ∈ state.pending.map (·.1) := by
    rcases right.placed id (by rw [here]; rfl) with queued | ⟨leader, batch, start, there, -⟩ | done
    · exact queued
    · have none := alone leader
      rw [there] at none
      cases none
    · rw [undone] at done
      cases done
  have same_of : ∀ {other : Nat} {p : CallPhase ρ ω ε}, (state.lead id).phase other = p →
      p.leads = false → state.phase other = p := by
    intro other p there differs
    by_cases same : other = id
    · rw [same, phase_self] at there
      rw [← there] at differs
      cases differs
    · rwa [phase_other other same] at there
  have leader : ∀ other, ((state.lead id).phase other).leads = true → other = id := by
    intro other leads
    by_contra differs
    rw [phase_other other differs, alone other] at leads
    cases leads
  refine ⟨?_, ?_, ?_, List.nodup_nil, ?_, ?_, ?_, ?_, ?_, ?_, ?_, ?_, ?_, ?_⟩
  · intro other
    by_cases same : other = id
    · have made := right.absent id
      rw [here] at made
      rw [same, phase_self]
      show _ ↔ state.requests.length ≤ id
      simpa using made
    · rw [phase_other other same]
      exact right.absent other
  · exact ⟨fun _ => ⟨id, by rw [phase_self]; rfl⟩, fun _ => rfl⟩
  · intro a b first second
    rw [leader a first, leader b second]
  · nofun
  · nofun
  · nofun
  · intro other batch start there
    have same := leader other (by rw [there]; rfl)
    rw [same, phase_self] at there
    cases there
    refine ⟨right.distinct, by rw [same]; exact own, le_rfl, right.made, ?_, ?_, ?_,
      right.unanswered⟩
    · intro entry member
      exact (List.getElem?_eq_some_iff.mp (right.made entry member)).1
    · intro entry member
      by_cases equal : entry.1 = id
      · exact .inl (equal.trans same.symm)
      · rw [phase_other entry.1 equal]
        exact .inr (right.queued entry member)
    · nofun
  · intro other _
    rfl
  · intro other waiting
    have differs : other ≠ id := by
      intro same
      rw [same, phase_self] at waiting
      cases waiting
    rw [phase_other other differs] at waiting
    rcases right.placed other waiting with queued | ⟨leader, batch, start, there, -⟩ | done
    · exact .inr (.inl ⟨id, _, _, phase_self, queued⟩)
    · have none := alone leader
      rw [there] at none
      cases none
    · exact .inr (.inr done)
  · intro other there
    exact right.answering other (same_of there rfl)
  · intro other served there
    obtain ⟨answers, phase⟩ := right.done other served there
    refine ⟨answers, ?_⟩
    have differs : other ≠ id := by
      intro same
      rw [same, show (state.lead id).done = state.done from rfl, undone] at there
      cases there
    rw [phase_other other differs]
    exact phase
  · intro other served there
    exact right.returned other served (same_of there rfl)
  · intro other served there
    exact right.raised other served (same_of there rfl)

theorem enter_right (right : BatchRight left work state)
    (here : state.phase id = .woken) (undone : state.done id = none) :
    BatchRight left work (state.enter id) := by
  rw [Batching.enter]
  split
  next running => exact sleep_right right here undone running
  next idle => exact lead_right right here undone (Bool.eq_false_iff.mpr idle)

theorem publish_phase_self (left : ω)
    (work : List (Nat × ρ) → ε → Except ω (Nat → Option ω)) (state : Batching ρ ω ε) (id : Nat)
    (batch : List (Nat × ρ)) (start : Nat) (met : ε) :
    (state.publish left work id batch start met).phase id = .answering ∨
      ∃ out, work batch met = .error out ∧
        (state.publish left work id batch start met).phase id =
          .raised ⟨start, batch, met, out⟩ := by
  cases ends : work batch met with
  | ok results => exact .inl (by simp [Batching.publish, ends])
  | error out => exact .inr ⟨out, rfl, by simp [Batching.publish, ends]⟩

theorem publish_phase_other {other : Nat} {met : ε}
    (differs : other ≠ id) :
    (state.publish left work id batch start met).phase other = (state.phase other).wake :=
  if_neg differs

@[simp] theorem waits_wake : phase.wake.waits = phase.waits := by
  cases phase <;> rfl

@[simp] theorem leads_wake : phase.wake.leads = phase.leads := by
  cases phase <;> rfl

theorem wake_ne_asleep : phase.wake ≠ .asleep := by cases phase <;> simp [CallPhase.wake]

theorem of_wake {phase next : CallPhase ρ ω ε} (woken : phase.wake = next)
    (differs : next ≠ .woken) :
    phase = next := by
  cases phase with
  | asleep => exact absurd woken.symm differs
  | _ => exact woken

theorem publish_done (state : Batching ρ ω ε) (id key : Nat) (batch : List (Nat × ρ))
    (start : Nat) (met : ε) :
    (state.publish left work id batch start met).done key =
      if key ∈ batch.map (·.1) then
        some ⟨start, batch, met, outcomeOf left (work batch met) key⟩
      else state.done key := rfl

theorem publish_right (right : BatchRight left work state)
    (here : state.phase id = .leading batch start) (met : ε) :
    BatchRight left work (state.publish left work id batch start met) := by
  have lead := right.leading id batch start here
  have later : id < start := by
    obtain ⟨entry, member, rfl⟩ := List.mem_map.mp lead.member
    exact lead.later entry member
  have own := publish_phase_self left work state id batch start met
  have unled : ∀ other, ((state.publish left work id batch start met).phase other).leads = false := by
    intro other
    by_cases same : other = id
    · rw [same]
      rcases own with phase | ⟨out, -, phase⟩ <;> rw [phase] <;> rfl
    · rw [publish_phase_other same, leads_wake]
      cases leads : (state.phase other).leads with
      | false => rfl
      | true => exact absurd (right.one other id leads (by rw [here]; rfl)) same
  have same_of : ∀ {other : Nat} {p : CallPhase ρ ω ε}, other ≠ id →
      (state.publish left work id batch start met).phase other = p → p ≠ .woken →
      state.phase other = p := by
    intro other p differs there unwoken
    rw [publish_phase_other differs] at there
    exact of_wake there unwoken
  refine ⟨?_, ?_, ?_, right.distinct, right.made, ?_, ?_, ?_, ?_, ?_, ?_, ?_, ?_, ?_⟩
  · intro other
    show _ ↔ state.requests.length ≤ other
    by_cases same : other = id
    · have made : ¬ state.requests.length ≤ id :=
        Nat.not_le.mpr (Nat.lt_of_lt_of_le later lead.known)
      rw [same]
      rcases own with phase | ⟨out, -, phase⟩
      · rw [phase]
        simpa using made
      · rw [phase]
        simpa using made
    · rw [publish_phase_other same, ← right.absent other]
      cases state.phase other <;> simp [CallPhase.wake]
  · refine ⟨nofun, ?_⟩
    intro leads
    obtain ⟨other, leads⟩ := leads
    rw [unled other] at leads
    cases leads
  · intro a b leads
    rw [unled a] at leads
    cases leads
  · intro entry member
    have waits := right.queued entry member
    have differs : entry.1 ≠ id := by
      intro same
      rw [same, here] at waits
      cases waits
    rw [publish_phase_other differs, waits_wake]
    exact waits
  · intro entry member
    have outside : entry.1 ∉ batch.map (·.1) := by
      intro inside
      obtain ⟨own, there, same⟩ := List.mem_map.mp inside
      refine lead.taken own there ?_
      rw [same]
      exact List.mem_map_of_mem member
    rw [publish_done, if_neg outside]
    exact right.unanswered entry member
  · intro other taken began there
    have none := unled other
    rw [there] at none
    cases none
  · intro other there
    by_cases same : other = id
    · rw [same] at there
      rcases own with phase | ⟨out, -, phase⟩ <;> rw [phase] at there <;> cases there
    · rw [publish_phase_other same] at there
      exact absurd there (wake_ne_asleep _)
  · intro other waiting
    have differs : other ≠ id := by
      intro same
      rw [same] at waiting
      rcases own with phase | ⟨out, -, phase⟩ <;> rw [phase] at waiting <;> cases waiting
    rw [publish_phase_other differs, waits_wake] at waiting
    rw [publish_done]
    by_cases member : other ∈ batch.map (·.1)
    · exact .inr (.inr (by rw [if_pos member]; rfl))
    · rw [if_neg member]
      rcases right.placed other waiting with queued | ⟨leader, taken, began, there, inside⟩ | done
      · exact .inl queued
      · have same := right.one leader id (by rw [there]; rfl) (by rw [here]; rfl)
        rw [same, here] at there
        cases there
        exact absurd inside member
      · exact .inr (.inr done)
  · intro other there
    rw [publish_done]
    by_cases member : other ∈ batch.map (·.1)
    · rw [if_pos member]
      rfl
    · rw [if_neg member]
      have differs : other ≠ id := by
        intro same
        exact member (by rw [same]; exact lead.member)
      exact right.answering other (same_of differs there (by simp))
  · intro other served there
    rw [publish_done] at there
    by_cases member : other ∈ batch.map (·.1)
    · rw [if_pos member] at there
      cases there
      obtain ⟨entry, inside, same⟩ := List.mem_map.mp member
      refine ⟨⟨lead.distinct, lead.made, member, by rw [← same]; exact lead.later entry inside,
        rfl⟩, ?_⟩
      by_cases equal : other = id
      · rw [equal]
        rcases own with phase | ⟨out, -, phase⟩
        · exact .inr (.inl phase)
        · exact .inr (.inr ⟨_, phase⟩)
      · refine .inl ?_
        have waits := (lead.phase entry inside).resolve_left (by rw [same]; exact equal)
        rw [publish_phase_other equal]
        rw [same] at waits
        cases phase : state.phase other with
        | asleep => rfl
        | woken => rfl
        | _ =>
          rw [phase] at waits
          cases waits
    · rw [if_neg member] at there
      obtain ⟨answers, phase⟩ := right.done other served there
      refine ⟨answers, ?_⟩
      have differs : other ≠ id := by
        intro same
        exact member (by rw [same]; exact lead.member)
      rw [publish_phase_other differs]
      rcases phase with h | h | ⟨out, h⟩
      · exact .inl (by rw [h]; rfl)
      · exact .inr (.inl (by rw [h]; rfl))
      · exact .inr (.inr ⟨out, by rw [h]; rfl⟩)
  · intro other served there
    have differs : other ≠ id := by
      intro same
      rw [same] at there
      rcases own with phase | ⟨out, -, phase⟩ <;> rw [phase] at there <;> cases there
    exact right.returned other served (same_of differs there (by simp))
  · intro other served there
    by_cases same : other = id
    · rw [same] at there ⊢
      rcases own with phase | ⟨out, ends, phase⟩
      · rw [phase] at there
        cases there
      · rw [phase] at there
        cases there
        exact ⟨lead.member, later, ends⟩
    · exact right.raised other served (same_of same there (by simp))

theorem BatchRight.out_of_queue (right : BatchRight left work state)
    (done : (state.done id).isSome = true) :
    (∀ entry ∈ state.pending, entry.1 ≠ id) ∧
      ∀ leader batch start, state.phase leader = .leading batch start →
        ∀ entry ∈ batch, entry.1 ≠ id := by
  constructor
  · intro entry member same
    rw [← same, right.unanswered entry member] at done
    cases done
  · intro leader batch start there entry member same
    rw [← same, (right.leading leader batch start there).unanswered entry member] at done
    cases done

theorem step_out_right (right : BatchRight left work state) {phase : CallPhase ρ ω ε}
    {done : Nat → Option (Served ρ ω ε)} (answered : (state.done id).isSome = true)
    (present : state.phase id ≠ .absent) (unled : (state.phase id).leads = false)
    (next : phase.leads = false ∧ phase.waits = false ∧ phase ≠ .absent)
    (others : ∀ other, other ≠ id → done other = state.done other)
    (answering : phase = .answering → (done id).isSome = true)
    (own : ∀ served, done id = some served → Answers left work state.requests served id ∧
      (phase = .woken ∨ phase = .answering ∨ ∃ out, phase = .raised out))
    (returned : ∀ served, phase = .returned served → Answers left work state.requests served id)
    (raised : ∀ served, phase = .raised served → Leaves work state.requests served id) :
    BatchRight left work { state.goto id phase with done := done } := by
  obtain ⟨unqueued, unbatched⟩ := right.out_of_queue answered
  have self : (state.goto id phase).phase id = phase := goto_self state id phase
  have kept : ∀ other, other ≠ id → (state.goto id phase).phase other = state.phase other :=
    fun other => goto_other state phase
  have leads : ∀ other, ((state.goto id phase).phase other).leads = true ↔
      (state.phase other).leads = true := by
    intro other
    by_cases same : other = id
    · rw [same, self, next.1, unled]
    · rw [kept other same]
  have leading : ∀ other batch start,
      (state.goto id phase).phase other = .leading batch start →
        other ≠ id ∧ state.phase other = .leading batch start := by
    intro other batch start there
    by_cases same : other = id
    · rw [same, self] at there
      rw [there] at next
      cases next.1
    · rw [kept other same] at there
      exact ⟨same, there⟩
  refine ⟨?_, ?_, ?_, right.distinct, right.made, ?_, ?_, ?_, ?_, ?_, ?_, ?_, ?_, ?_⟩
  · intro other
    show (state.goto id phase).phase other = _ ↔ state.requests.length ≤ other
    by_cases same : other = id
    · have made := right.absent id
      rw [same, self]
      exact ⟨fun h => absurd h next.2.2, fun h => absurd (made.mpr h) present⟩
    · rw [kept other same]
      exact right.absent other
  · show state.running = true ↔ ∃ other, ((state.goto id phase).phase other).leads = true
    simp only [leads]
    exact right.running
  · intro a b first second
    exact right.one a b ((leads a).mp first) ((leads b).mp second)
  · intro entry member
    show ((state.goto id phase).phase entry.1).waits = true
    rw [kept _ (unqueued entry member)]
    exact right.queued entry member
  · intro entry member
    exact (others entry.1 (unqueued entry member)).trans (right.unanswered entry member)
  · intro other batch start there
    obtain ⟨-, before⟩ := leading other batch start there
    have lead := right.leading other batch start before
    refine ⟨lead.distinct, lead.member, lead.known, lead.made, lead.later, ?_, lead.taken, ?_⟩
    · intro entry member
      show _ ∨ ((state.goto id phase).phase entry.1).waits = true
      rw [kept _ (unbatched other batch start before entry member)]
      exact lead.phase entry member
    · intro entry member
      exact (others entry.1 (unbatched other batch start before entry member)).trans
        (lead.unanswered entry member)
  · intro other there
    have differs : other ≠ id := by
      intro same
      rw [same, show Batching.phase _ id = phase from self] at there
      rw [there] at next
      cases next.2.1
    exact right.asleep other ((kept other differs).symm.trans there)
  · intro other waiting
    have differs : other ≠ id := by
      intro same
      rw [same, show Batching.phase _ id = phase from self, next.2.1] at waiting
      cases waiting
    rw [show Batching.phase _ other = state.phase other from kept other differs] at waiting
    rcases right.placed other waiting with queued | ⟨leader, batch, start, there, member⟩ | found
    · exact .inl queued
    · refine .inr (.inl ⟨leader, batch, start, (kept leader ?_).trans there, member⟩)
      intro same
      rw [same] at there
      rw [there] at unled
      cases unled
    · refine .inr (.inr ?_)
      rw [show Batching.done _ other = done other from rfl, others other differs]
      exact found
  · intro other there
    by_cases same : other = id
    · rw [same] at there ⊢
      exact answering (self.symm.trans there)
    · rw [show Batching.done _ other = done other from rfl, others other same]
      exact right.answering other ((kept other same).symm.trans there)
  · intro other served there
    by_cases same : other = id
    · rw [same] at there ⊢
      rw [show Batching.phase _ id = phase from self]
      exact own served there
    · rw [show Batching.phase _ other = state.phase other from kept other same]
      exact right.done other served ((others other same).symm.trans there)
  · intro other served there
    by_cases same : other = id
    · rw [same] at there ⊢
      exact returned served (self.symm.trans there)
    · exact right.returned other served ((kept other same).symm.trans there)
  · intro other served there
    by_cases same : other = id
    · rw [same] at there ⊢
      exact raised served (self.symm.trans there)
    · exact right.raised other served ((kept other same).symm.trans there)

theorem batchStep_right (right : BatchRight left work state) (event : BatchEvent ρ ε) :
    BatchRight left work (batchStep left work state event) := by
  cases event with
  | call request =>
    rw [batchStep_call]
    exact enter_right (register_right right request) (update_self ..)
      right.fresh_unanswered
  | wake id =>
    cases here : state.phase id with
    | woken =>
      simp only [batchStep, here]
      split
      next answered =>
        refine step_out_right right answered (by simp [here]) (by rw [here]; rfl)
          ⟨rfl, rfl, by simp⟩ (fun _ _ => rfl) (fun _ => answered) ?_ (by simp) (by simp)
        intro served there
        exact ⟨(right.done id served there).1, .inr (.inl rfl)⟩
      next unanswered => exact enter_right right here (by simpa using unanswered)
    | _ => simpa only [batchStep, here] using right
  | finish id met =>
    cases here : state.phase id with
    | leading batch start =>
      simp only [batchStep, here]
      exact publish_right right here met
    | _ => simpa only [batchStep, here] using right
  | answer id =>
    cases here : state.phase id with
    | answering =>
      cases there : state.done id with
      | none => simpa only [batchStep, here, there] using right
      | some served =>
        simp only [batchStep, here, there]
        refine step_out_right right (by rw [there]; rfl) (by simp [here]) (by rw [here]; rfl)
          ⟨rfl, rfl, by simp⟩ (fun other differs => update_of_ne differs _ _) (by simp) ?_ ?_
          (by simp)
        · intro served found
          rw [update_self] at found
          cases found
        · intro answered same
          cases same
          exact (right.done id served there).1
    | _ => simpa only [batchStep, here] using right

theorem fresh_batchRight : BatchRight left work (Batching.fresh : Batching ρ ω ε) := by
  refine ⟨?_, ?_, ?_, List.nodup_nil, ?_, ?_, ?_, ?_, ?_, ?_, ?_, ?_, ?_, ?_⟩
  · intro id
    simp [Batching.fresh]
  · simp [Batching.fresh, CallPhase.leads]
  · nofun
  · nofun
  · nofun
  · nofun
  · nofun
  · nofun
  · nofun
  · nofun
  · nofun
  · nofun
  · nofun

theorem batch_run_right (right : BatchRight left work state)
    (events : List (BatchEvent ρ ε)) :
    BatchRight left work (events.foldl (batchStep left work) state) := by
  induction events generalizing state with
  | nil => exact right
  | cons event later ih => exact ih (batchStep_right right event)

theorem BatchRight.made_of (right : BatchRight left work state)
    (present : state.phase id ≠ .absent) : id < state.requests.length :=
  Nat.not_le.mp fun old => present ((right.absent id).mpr old)

theorem ended_stays (right : BatchRight left work state)
    (ended : (state.phase id).ended = true) (present : state.phase id ≠ .absent)
    (event : BatchEvent ρ ε) : (batchStep left work state event).phase id = state.phase id := by
  have made := Nat.ne_of_lt (right.made_of present)
  have still : ∀ {other : Nat} {phase : CallPhase ρ ω ε}, state.phase other = phase →
      phase.ended = false → id ≠ other := by
    intro other phase here going same
    rw [same, here, going] at ended
    cases ended
  cases event with
  | call request =>
    have kept : (state.register request).phase id = state.phase id :=
      update_of_ne made _ _
    rw [batchStep_call, Batching.enter]
    split
    next => exact (goto_other _ _ made).trans kept
    next => exact (update_of_ne made _ _).trans kept
  | wake other =>
    cases here : state.phase other with
    | woken =>
      have differs := still here rfl
      simp only [batchStep, here]
      split
      next => exact goto_other state _ differs
      next =>
        rw [Batching.enter]
        split
        next => exact goto_other state _ differs
        next => exact update_of_ne differs _ _
    | _ => simp only [batchStep, here]
  | finish other met =>
    cases here : state.phase other with
    | leading batch start =>
      simp only [batchStep, here]
      rw [publish_phase_other (still here rfl)]
      cases phase : state.phase id with
      | asleep =>
        rw [phase] at ended
        cases ended
      | _ => rfl
    | _ => simp only [batchStep, here]
  | answer other =>
    cases here : state.phase other with
    | answering =>
      cases there : state.done other with
      | none => simp only [batchStep, here, there]
      | some served =>
        simp only [batchStep, here, there]
        exact goto_other state _ (still here rfl)
    | _ => simp only [batchStep, here]

def Batching.Moves (state : Batching ρ ω ε) : BatchEvent ρ ε → Prop
  | .call _ => False
  | .wake id => state.phase id = .woken
  | .finish id _ => (state.phase id).leads = true
  | .answer id => state.phase id = .answering

theorem someone_moves [Nonempty ε] (right : BatchRight left work state)
    (going : (state.phase id).ended = false) : ∃ event, state.Moves event := by
  obtain ⟨met⟩ := ‹Nonempty ε›
  cases here : state.phase id with
  | asleep =>
    obtain ⟨leader, leads⟩ := right.running.mp (right.asleep id here)
    exact ⟨.finish leader met, leads⟩
  | woken => exact ⟨.wake id, here⟩
  | leading batch start => exact ⟨.finish id met, by rw [Batching.Moves, here]; rfl⟩
  | answering => exact ⟨.answer id, here⟩
  | absent =>
    rw [here] at going
    cases going
  | returned served =>
    rw [here] at going
    cases going
  | raised served =>
    rw [here] at going
    cases going

def CallPhase.open (phase : CallPhase ρ ω ε) : Nat := if phase.waits || phase.leads then 1 else 0

def CallPhase.awake : CallPhase ρ ω ε → Nat
  | .woken | .answering => 1
  | _ => 0

def Batching.total (state : Batching ρ ω ε) (weight : CallPhase ρ ω ε → Nat) : Nat :=
  ∑ id ∈ Finset.range state.requests.length, weight (state.phase id)

def Batching.rank (state : Batching ρ ω ε) : Nat :=
  state.total CallPhase.open * (2 * state.requests.length + 3) + state.total CallPhase.awake

theorem total_update {state next : Batching ρ ω ε}
    (length : next.requests = state.requests) (made : id < state.requests.length)
    (kept : ∀ other, other ≠ id → next.phase other = state.phase other)
    (weight : CallPhase ρ ω ε → Nat) :
    next.total weight + weight (state.phase id) = state.total weight + weight (next.phase id) := by
  have member : id ∈ Finset.range state.requests.length := Finset.mem_range.mpr made
  rw [Batching.total, Batching.total, length, ← Finset.sum_erase_add _ _ member,
    ← Finset.sum_erase_add _ _ member]
  have same : ∑ other ∈ (Finset.range state.requests.length).erase id, weight (next.phase other) =
      ∑ other ∈ (Finset.range state.requests.length).erase id, weight (state.phase other) :=
    Finset.sum_congr rfl fun other inside => by rw [kept other (Finset.ne_of_mem_erase inside)]
  omega

theorem rank_update {next : Batching ρ ω ε} (length : next.requests = state.requests)
    (made : id < state.requests.length)
    (kept : ∀ other, other ≠ id → next.phase other = state.phase other)
    (lower : (next.phase id).open ≤ (state.phase id).open)
    (down : (next.phase id).awake + 2 * (next.phase id).open <
      (state.phase id).awake + 2 * (state.phase id).open) :
    next.rank < state.rank := by
  have opened := total_update length made kept CallPhase.open
  have woken := total_update length made kept CallPhase.awake
  rw [Batching.rank, Batching.rank, length]
  rcases Nat.lt_or_eq_of_le lower with less | same
  · have one : state.total CallPhase.open = next.total CallPhase.open + 1 := by
      have le : (state.phase id).open ≤ 1 := by
        rw [CallPhase.open]
        split <;> omega
      omega
    rw [one, Nat.add_one_mul (next.total CallPhase.open)]
    omega
  · have equal : state.total CallPhase.open = next.total CallPhase.open := by omega
    rw [equal]
    omega

theorem publish_rank (right : BatchRight left work state)
    (here : state.phase id = .leading batch start) (met : ε) :
    (state.publish left work id batch start met).rank < state.rank := by
  have made : id < state.requests.length := right.made_of (by simp [here])
  have member : id ∈ Finset.range state.requests.length := Finset.mem_range.mpr made
  have own := publish_phase_self left work state id batch start met
  have closed : ((state.publish left work id batch start met).phase id).open = 0 := by
    rcases own with phase | ⟨out, -, phase⟩ <;> rw [phase] <;> rfl
  have opened : (state.publish left work id batch start met).total CallPhase.open + 1 =
      state.total CallPhase.open := by
    rw [Batching.total, Batching.total,
      show (state.publish left work id batch start met).requests = state.requests from rfl,
      ← Finset.sum_erase_add _ _ member, ← Finset.sum_erase_add _ _ member, closed, here]
    have same : ∑ other ∈ (Finset.range state.requests.length).erase id,
        ((state.publish left work id batch start met).phase other).open =
          ∑ other ∈ (Finset.range state.requests.length).erase id, (state.phase other).open := by
      refine Finset.sum_congr rfl fun other inside => ?_
      rw [publish_phase_other (Finset.ne_of_mem_erase inside), CallPhase.open, waits_wake,
        leads_wake, CallPhase.open]
    rw [same]
    rfl
  have woken : (state.publish left work id batch start met).total CallPhase.awake ≤
      state.requests.length := by
    refine (Finset.sum_le_card_nsmul _ _ 1 fun other _ => ?_).trans (by simp [Batching.publish])
    cases (state.publish left work id batch start met).phase other <;> simp [CallPhase.awake]
  rw [Batching.rank, Batching.rank, ← opened,
    Nat.add_one_mul ((state.publish left work id batch start met).total CallPhase.open),
    show (state.publish left work id batch start met).requests = state.requests from rfl]
  omega

theorem moves_rank (right : BatchRight left work state) {event : BatchEvent ρ ε}
    (moves : state.Moves event) : (batchStep left work state event).rank < state.rank := by
  cases event with
  | call request => cases moves
  | wake id =>
    have here : state.phase id = .woken := moves
    have made : id < state.requests.length := right.made_of (by simp [here])
    have lower : ∀ {next : Batching ρ ω ε}, next.requests = state.requests →
        (∀ other, other ≠ id → next.phase other = state.phase other) →
        (next.phase id).awake + 2 * (next.phase id).open < 3 → next.rank < state.rank := by
      intro next length kept down
      refine rank_update length made kept ?_ ?_
      · rw [here]
        rw [CallPhase.open]
        split
        · exact le_rfl
        · exact Nat.zero_le _
      · rw [here]
        exact down
    simp only [batchStep, here]
    split
    next =>
      refine lower rfl (fun other => goto_other state _) ?_
      rw [goto_self]
      simp [CallPhase.awake, CallPhase.open, CallPhase.waits, CallPhase.leads]
    next =>
      rw [Batching.enter]
      split
      next =>
        refine lower rfl (fun other => goto_other state _) ?_
        rw [goto_self]
        simp [CallPhase.awake, CallPhase.open, CallPhase.waits, CallPhase.leads]
      next =>
        refine lower rfl (fun other differs => update_of_ne differs _ _) ?_
        rw [show (state.lead id).phase id = .leading _ _ from update_self ..]
        simp [CallPhase.awake, CallPhase.open, CallPhase.waits, CallPhase.leads]
  | finish id met =>
    cases here : state.phase id with
    | leading batch start =>
      simp only [batchStep, here]
      exact publish_rank right here met
    | _ =>
      rw [Batching.Moves, here] at moves
      cases moves
  | answer id =>
    have here : state.phase id = .answering := moves
    obtain ⟨served, there⟩ := Option.isSome_iff_exists.mp (right.answering id here)
    simp only [batchStep, here, there]
    refine rank_update rfl (right.made_of (by simp [here]))
      (fun other => goto_other state (.returned served)) ?_ ?_
    · rw [show Batching.phase _ id = .returned served from goto_self state id _]
      exact Nat.zero_le _
    · rw [show Batching.phase _ id = .returned served from goto_self state id _, here]
      simp [CallPhase.awake, CallPhase.open, CallPhase.waits, CallPhase.leads]

theorem steps_bounded (right : BatchRight left work state) (events : List (BatchEvent ρ ε))
    (moves : Throughout (batchStep left work) Batching.Moves state events) :
    events.length ≤ state.rank := by
  induction events generalizing state with
  | nil => exact Nat.zero_le _
  | cons event later ih =>
    have rest := ih (batchStep_right right event) moves.2
    have less := moves_rank right moves.1
    rw [List.length_cons]
    omega

theorem ended_clean (right : BatchRight left work state)
    (ended : ∀ id, (state.phase id).ended = true) :
    state.pending = [] ∧
      ∀ id served, state.done id = some served → ∃ own, state.phase id = .raised own := by
  constructor
  · cases queue : state.pending with
    | nil => rfl
    | cons entry rest =>
      have waits := right.queued entry (by rw [queue]; exact .head _)
      have stopped := ended entry.1
      cases phase : state.phase entry.1 with
      | asleep =>
        rw [phase] at stopped
        cases stopped
      | woken =>
        rw [phase] at stopped
        cases stopped
      | _ =>
        rw [phase] at waits
        cases waits
  · intro id served there
    have stopped := ended id
    rcases (right.done id served there).2 with woken | answering | raised
    · rw [woken] at stopped
      cases stopped
    · rw [answering] at stopped
      cases stopped
    · exact raised

end Batching

end PerfStats.Lib
