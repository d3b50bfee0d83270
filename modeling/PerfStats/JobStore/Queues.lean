import PerfStats.JobStore.Invariant

/-! The LIST queues: a queue, the pending set that mirrors it and the shadow copies. -/

namespace PerfStats.JobStore

open Lib Function

namespace Store

/-- The list is rewritten when `ordered` has exactly its members in another order. -/
def reorderList (s : Store) (kind : Kind) (ordered : List Str) : Store × Bool :=
  let current := s.lists kind
  if !kind.isList then (s, false)
  else if current.length ≠ ordered.length then (s, false)
  else if current.insertionSort (· ≤ ·) ≠ ordered.insertionSort (· ≤ ·) then (s, false)
  else if current = ordered then (s, false)
  else
    ({ s with
      lists := update s.lists kind ordered
      shadowLists := update s.shadowLists kind ordered }, true)

end Store

inductive ListCall where
  | enqueueList (kind : Kind) (identity : Str) (dedupe : Bool) (cap : Int)
  | claimList (kind : Kind) (owner : Str) (ttl : Int) (now : ℚ)
  | ack (kind : Kind) (identity owner : Str)
  | requeue (kind : Kind) (identity owner : Str) (score : Option ℚ)
  | reorderList (kind : Kind) (ordered : List Str)

def ListCall.kind : ListCall → Kind
  | .enqueueList kind _ _ _ => kind
  | .claimList kind _ _ _ => kind
  | .ack kind _ _ => kind
  | .requeue kind _ _ _ => kind
  | .reorderList kind _ => kind

def Store.performList (s : Store) : ListCall → Store × Answer
  | .enqueueList kind identity dedupe cap =>
    settle s .count (s.enqueueList kind identity dedupe cap)
  | .claimList kind owner ttl now =>
    settle s (fun job => .claims job.toList) (s.claimList kind owner ttl now)
  | .ack kind identity owner => (s.ack kind identity owner).map id .flag
  | .requeue kind identity owner score => (s.requeue kind identity owner score).map id .flag
  | .reorderList kind ordered => (s.reorderList kind ordered).map id .flag

def Store.runList : Store → List ListCall → Store × List (ListCall × Answer)
  | s, [] => (s, [])
  | s, call :: rest =>
    let (t, answer) := s.performList call
    let (u, log) := runList t rest
    (u, (call, answer) :: log)

def ListStep (s : Store) (label : ListCall × Answer) (t : Store) : Prop :=
  s.performList label.1 = (t, label.2)

def Along (P : Store → ListCall → Prop) : Store → List ListCall → Prop
  | _, [] => True
  | s, call :: rest => P s call ∧ Along P (s.performList call).1 rest

theorem runList_run {P : Store → ListCall → Prop} {s : Store} {calls : List ListCall}
    (along : Along P s calls) :
    Run (fun s label t => P s label.1 ∧ ListStep s label t) s (s.runList calls).2
      (s.runList calls).1 := by
  induction calls generalizing s with
  | nil => exact .start
  | cons call rest ih => exact (ih along.2).head ⟨along.1, rfl⟩

section Debt

/-- What one identity is owed: an accepted enqueue not yet claimed, and one that is claimed and not
yet acked. -/
structure Debt where
  waiting : Bool
  taken : Bool
  deriving DecidableEq, Repr

def Debt.owed (d : Debt) : Bool := d.waiting || d.taken

variable (kind : Kind) (i : Str)

def Debt.step (d : Debt) : ListCall × Answer → Debt
  | (.enqueueList k j _ _, .count (_ + 1)) =>
    if k = kind ∧ j = i then { d with waiting := true } else d
  | (.claimList k _ _ _, .claims [job]) =>
    if k = kind ∧ job.identity = i then ⟨false, d.waiting || d.taken⟩ else d
  | (.ack k j _, .flag true) => if k = kind ∧ j = i then { d with taken := false } else d
  | _ => d

def debt (log : List (ListCall × Answer)) : Debt := log.foldl (Debt.step kind i) ⟨false, false⟩

theorem debt_snoc (log : List (ListCall × Answer)) (label : ListCall × Answer) :
    debt kind i (log ++ [label]) = (debt kind i log).step kind i label := by
  simp [debt]

end Debt

structure InStep (kind : Kind) (log : List (ListCall × Answer)) (s : Store) : Prop where
  mirrored : ∀ i, i ∈ s.pending kind ↔ i ∈ s.lists kind
  shadowed : s.shadowPending kind = s.pending kind
  kept : ∀ i, (debt kind i log).owed = true →
    i ∈ s.lists kind ∨ ((s.inflight kind).get? i).isSome

/-- A claim finds in front an identity that is not in flight and queued once; an ack that succeeds
is of one not queued again. -/
def Tame (s : Store) : ListCall → Prop
  | .claimList kind _ _ _ => kind.isList = true → ∀ i rest, s.lists kind = i :: rest →
      i ∉ rest ∧ (s.inflight kind).get? i = none
  | .ack kind i owner => kind.isList = true → owner ≠ [] → (s.ownedEntry kind i owner).isSome →
      i ∉ s.lists kind
  | _ => True

def TameStep (s : Store) (label : ListCall × Answer) (t : Store) : Prop :=
  Tame s label.1 ∧ ListStep s label t

section Moves

def Loose : ListCall → Prop
  | .enqueueList _ _ dedupe _ => dedupe = false
  | _ => False

inductive Move (kind : Kind) (s t : Store) : ListCall × Answer → Prop where
  | stay (label : ListCall × Answer) (lists : t.lists kind = s.lists kind)
      (pending : t.pending kind = s.pending kind)
      (shadow : t.shadowPending kind = s.shadowPending kind)
      (inflight : t.inflight kind = s.inflight kind)
      (silent : ∀ i d, Debt.step kind i d label = d) : Move kind s t label
  | append (label : ListCall × Answer) (i : Str) (lists : t.lists kind = s.lists kind ++ [i])
      (pending : t.pending kind = insert i (s.pending kind))
      (shadow : t.shadowPending kind = insert i (s.shadowPending kind))
      (inflight : ∀ j, j ≠ i → (t.inflight kind).get? j = (s.inflight kind).get? j)
      (entered : ∀ j, j ≠ i → ∀ d, Debt.step kind j d label = d)
      (source : Loose label.1 ∨ (t.inflight kind).get? i = none ∧
        (i ∉ s.pending kind ∨ ((s.inflight kind).get? i).isSome)) : Move kind s t label
  | claim (label : ListCall × Answer) (i : Str) (rest : List Str) (lists : s.lists kind = i :: rest)
      (left : t.lists kind = rest) (pending : t.pending kind = (s.pending kind).erase i)
      (shadow : t.shadowPending kind = (s.shadowPending kind).erase i)
      (inflight : ((t.inflight kind).get? i).isSome)
      (other : ∀ j, j ≠ i → (t.inflight kind).get? j = (s.inflight kind).get? j)
      (taken : ∀ j d, Debt.step kind j d label = if j = i then ⟨false, d.waiting || d.taken⟩ else d)
      (single : i ∉ rest) : Move kind s t label
  | ack (label : ListCall × Answer) (i : Str) (absent : i ∉ s.lists kind)
      (lists : t.lists kind = s.lists kind) (pending : t.pending kind = (s.pending kind).erase i)
      (shadow : t.shadowPending kind = s.shadowPending kind)
      (other : ∀ j, j ≠ i → (t.inflight kind).get? j = (s.inflight kind).get? j)
      (settled : ∀ j d, Debt.step kind j d label = if j = i then { d with taken := false } else d) :
      Move kind s t label
  | reorder (label : ListCall × Answer) (lists : (t.lists kind).Perm (s.lists kind))
      (pending : t.pending kind = s.pending kind)
      (shadow : t.shadowPending kind = s.shadowPending kind)
      (inflight : t.inflight kind = s.inflight kind)
      (silent : ∀ i d, Debt.step kind i d label = d) : Move kind s t label

variable {kind k : Kind} {s t : Store} {i : Str} {call : ListCall}

theorem debt_of_other (other : call.kind ≠ kind) (answer : Answer) (j : Str)
    (d : Debt) : Debt.step kind j d (call, answer) = d := by
  unfold Debt.step
  split
  · next same =>
      cases same
      exact if_neg fun both => other both.1
  · next same =>
      cases same
      exact if_neg fun both => other both.1
  · next same =>
      cases same
      exact if_neg fun both => other both.1
  · rfl

theorem claimListLoop_other (other : k ≠ kind) (owner : Str) (deadline : ℚ) (l : List Str) :
    (Store.claimListLoop k owner deadline l s).1.lists kind = s.lists kind ∧
      (Store.claimListLoop k owner deadline l s).1.pending kind = s.pending kind ∧
      (Store.claimListLoop k owner deadline l s).1.shadowPending kind = s.shadowPending kind ∧
      (Store.claimListLoop k owner deadline l s).1.inflight kind = s.inflight kind := by
  have apart := Ne.symm other
  induction l generalizing s with
  | nil => exact ⟨rfl, rfl, rfl, rfl⟩
  | cons i rest ih =>
    unfold Store.claimListLoop
    dsimp only
    split
    · have next := @ih { s with
        lists := update s.lists k rest
        pending := update s.pending k ((s.pending k).erase i)
        shadowLists := update s.shadowLists k ((s.shadowLists k).erase i)
        shadowPending := update s.shadowPending k ((s.shadowPending k).erase i)
        shadowPayloads := s.shadowPayloads.erase (k, i) }
      simpa only [update_of_ne apart] using next
    · simp [Store.lease, update_of_ne apart]

theorem listAppend_other (other : k ≠ kind) :
    (s.listAppend k i).lists kind = s.lists kind ∧ (s.listAppend k i).pending kind = s.pending kind ∧
      (s.listAppend k i).shadowPending kind = s.shadowPending kind ∧
      (s.listAppend k i).inflight kind = s.inflight kind := by
  simp [Store.listAppend, Store.shadowSyncPayload, update_of_ne (Ne.symm other)]

theorem release_other (other : k ≠ kind) : (s.release k i).inflight kind = s.inflight kind := by
  simp [Store.release, update_of_ne (Ne.symm other)]

theorem ingestSet_queues (score : ℚ) :
    (s.ingestSet i score).lists = s.lists ∧ (s.ingestSet i score).pending = s.pending ∧
      (s.ingestSet i score).shadowPending = s.shadowPending ∧
      (s.ingestSet i score).inflight = s.inflight := by
  unfold Store.ingestSet
  cases s.ingest.get? i <;> exact ⟨rfl, rfl, rfl, rfl⟩

theorem performList_other (other : call.kind ≠ kind) :
    (s.performList call).1.lists kind = s.lists kind ∧
      (s.performList call).1.pending kind = s.pending kind ∧
      (s.performList call).1.shadowPending kind = s.shadowPending kind ∧
      (s.performList call).1.inflight kind = s.inflight kind := by
  have apart := Ne.symm other
  cases call with
  | enqueueList k j dedupe cap =>
    simp only [Store.performList, Store.enqueueList]
    split
    · exact ⟨rfl, rfl, rfl, rfl⟩
    · split
      · exact ⟨rfl, rfl, rfl, rfl⟩
      · split
        · exact ⟨rfl, rfl, rfl, rfl⟩
        · exact listAppend_other other
  | claimList k owner ttl now =>
    simp only [Store.performList, Store.claimList]
    split
    · exact ⟨rfl, rfl, rfl, rfl⟩
    · split
      · exact ⟨rfl, rfl, rfl, rfl⟩
      · exact claimListLoop_other other owner (now + ttl) (s.lists k)
  | ack k j owner =>
    simp only [Store.performList, Store.ack]
    split
    · exact ⟨rfl, rfl, rfl, rfl⟩
    · split
      · exact ⟨rfl, rfl, rfl, rfl⟩
      · have left := release_other (s := s) (i := j) other
        refine ⟨?_, ?_, ?_, ?_⟩
        · split <;> rfl
        · split
          · exact update_of_ne apart _ _
          · rfl
        · split <;> rfl
        · split <;> exact left
  | requeue k j owner score =>
    simp only [Store.performList, Store.requeue]
    split
    · exact ⟨rfl, rfl, rfl, rfl⟩
    · split
      · exact ⟨rfl, rfl, rfl, rfl⟩
      · have left := release_other (s := s) (i := j) other
        split
        · rcases ingestSet_queues (s := s.release k j) (i := j) (score.getD catchupScoreBase) with
            ⟨lists, pending, shadow, inflight⟩
          exact ⟨congrFun lists kind, congrFun pending kind, congrFun shadow kind,
            (congrFun inflight kind).trans left⟩
        · rcases listAppend_other (s := s.release k j) (i := j) other with
            ⟨lists, pending, shadow, inflight⟩
          exact ⟨lists, pending, shadow, inflight.trans left⟩
  | reorderList k ordered =>
    simp only [Store.performList, Store.reorderList]
    split
    · exact ⟨rfl, rfl, rfl, rfl⟩
    · split
      · exact ⟨rfl, rfl, rfl, rfl⟩
      · split
        · exact ⟨rfl, rfl, rfl, rfl⟩
        · split
          · exact ⟨rfl, rfl, rfl, rfl⟩
          · exact ⟨update_of_ne apart _ _, rfl, rfl, rfl⟩

theorem stay_self {answer : Answer}
    (silent : ∀ i d, Debt.step kind i d (call, answer) = d) :
    Move kind s s (call, answer) := .stay _ rfl rfl rfl rfl silent

theorem enqueueList_move (j : Str) (dedupe : Bool) (cap : Int) :
    Move kind s (s.performList (.enqueueList kind j dedupe cap)).1
      (.enqueueList kind j dedupe cap, (s.performList (.enqueueList kind j dedupe cap)).2) := by
  simp only [Store.performList, Store.enqueueList]
  split
  · exact stay_self fun _ _ => rfl
  · split
    · exact stay_self fun _ _ => rfl
    · split
      · exact stay_self fun _ _ => rfl
      · next fresh _ =>
          refine .append _ j (update_self ..) (update_self ..)
            (update_self ..) (fun _ _ => rfl) (fun i apart d => ?_) ?_
          · simp [settle, Store.listAppend, Store.shadowSyncPayload, Debt.step, Ne.symm apart]
          · cases dedupe with
            | false => exact .inl rfl
            | true =>
              simp only [Bool.true_and, Bool.or_eq_true, decide_eq_true_eq, not_or,
                Option.not_isSome_iff_eq_none] at fresh
              exact .inr ⟨fresh.2, .inl fresh.1⟩

theorem claimList_move (list : kind.isList = true) (owner : Str) (ttl : Int) (now : ℚ)
    (tame : Tame s (.claimList kind owner ttl now)) :
    Move kind s (s.performList (.claimList kind owner ttl now)).1
      (.claimList kind owner ttl now, (s.performList (.claimList kind owner ttl now)).2) := by
  simp only [Store.performList, Store.claimList, list, Bool.not_true, Bool.false_eq_true, if_false]
  split
  · exact stay_self fun _ _ => rfl
  · cases queue : s.lists kind with
    | nil => exact stay_self fun _ _ => rfl
    | cons i rest =>
      rcases tame list i rest queue with ⟨single, free⟩
      rw [Store.claimListLoop]
      simp only [free, Option.isSome_none, Bool.false_eq_true, if_false, settle]
      refine .claim _ i rest queue (update_self ..) (update_self ..)
        (update_self ..) ?_ ?_ ?_ single
      · simp [Store.lease]
      · intro j apart
        simp [Store.lease, Dict.get?_set, apart]
      · intro j d
        simp [Debt.step, eq_comm]

theorem ack_move (list : kind.isList = true) (j owner : Str) (tame : Tame s (.ack kind j owner)) :
    Move kind s (s.performList (.ack kind j owner)).1
      (.ack kind j owner, (s.performList (.ack kind j owner)).2) := by
  simp only [Store.performList, Store.ack]
  split
  · exact stay_self fun _ _ => rfl
  · next named =>
      cases held : s.ownedEntry kind j owner with
      | none => exact stay_self fun _ _ => rfl
      | some entry =>
        refine .ack _ j (tame list named (by simp [held])) rfl (update_self ..) rfl ?_ ?_
        · intro i apart
          simp [Store.release, Dict.get?_erase, apart]
        · intro i d
          simp [Debt.step, eq_comm]

theorem requeue_move (list : kind.isList = true) (j owner : Str) (score : Option ℚ) :
    Move kind s (s.performList (.requeue kind j owner score)).1
      (.requeue kind j owner score, (s.performList (.requeue kind j owner score)).2) := by
  have other : kind ≠ .ingest := by simpa [Kind.isList] using list
  simp only [Store.performList, Store.requeue]
  split
  · exact stay_self fun _ _ => rfl
  · cases held : s.ownedEntry kind j owner with
    | none => exact stay_self fun _ _ => rfl
    | some entry =>
      refine .append _ j (update_self ..) (update_self ..)
        (update_self ..) (fun i apart => ?_) (fun _ _ _ => rfl) (.inr ⟨?_, .inr ?_⟩)
      · simp [Store.listAppend, Store.shadowSyncPayload, Store.release, Dict.get?_erase, apart]
      · simp [Store.listAppend, Store.shadowSyncPayload, Store.release]
      · exact Option.isSome_of_mem (Option.filter_eq_some_iff.mp held).1

theorem reorderList_move (ordered : List Str) :
    Move kind s (s.performList (.reorderList kind ordered)).1
      (.reorderList kind ordered, (s.performList (.reorderList kind ordered)).2) := by
  simp only [Store.performList, Store.reorderList]
  split
  · exact stay_self fun _ _ => rfl
  · split
    · exact stay_self fun _ _ => rfl
    · split
      · exact stay_self fun _ _ => rfl
      · next members =>
          split
          · exact stay_self fun _ _ => rfl
          · refine .reorder _ ?_ rfl rfl rfl fun _ _ => rfl
            have same := not_not.mp members
            have sorted := List.perm_insertionSort (· ≤ ·) (s.lists kind)
            rw [same] at sorted
            change (update s.lists kind ordered kind).Perm _
            rw [update_self]
            exact (List.perm_insertionSort (· ≤ ·) ordered).symm.trans sorted

theorem move_of_step {label : ListCall × Answer} (list : kind.isList = true)
    (step : TameStep s label t) : Move kind s t label := by
  rcases label with ⟨call, answer⟩
  rcases step with ⟨tame, taken⟩
  have result : s.performList call = (t, answer) := taken
  by_cases same : call.kind = kind
  · have moved : Move kind s (s.performList call).1 (call, (s.performList call).2) := by
      cases call with
      | enqueueList k j dedupe cap =>
        cases same
        exact enqueueList_move j dedupe cap
      | claimList k owner ttl now =>
        cases same
        exact claimList_move list owner ttl now tame
      | ack k j owner =>
        cases same
        exact ack_move list j owner tame
      | requeue k j owner score =>
        cases same
        exact requeue_move list j owner score
      | reorderList k ordered =>
        cases same
        exact reorderList_move ordered
    rwa [result] at moved
  · rcases performList_other (s := s) same with ⟨lists, pending, shadow, inflight⟩
    rw [result] at lists pending shadow inflight
    exact .stay _ lists pending shadow inflight (debt_of_other same answer)

end Moves

section Invariant

variable {kind : Kind} {s t : Store} {log : List (ListCall × Answer)}

/-- `InStep`, with what is still to be claimed and what a claim has taken kept apart. -/
structure Mirrored (kind : Kind) (log : List (ListCall × Answer)) (s : Store) : Prop where
  mirrored : ∀ i, i ∈ s.pending kind ↔ i ∈ s.lists kind
  shadowed : s.shadowPending kind = s.pending kind
  waiting : ∀ i, (debt kind i log).waiting = true → i ∈ s.lists kind
  taken : ∀ i, (debt kind i log).taken = true →
    i ∈ s.lists kind ∨ ((s.inflight kind).get? i).isSome

theorem Mirrored.inStep (good : Mirrored kind log s) : InStep kind log s where
  mirrored := good.mirrored
  shadowed := good.shadowed
  kept := by
    intro i owed
    rcases (Bool.or_eq_true _ _).mp owed with waiting | taken
    · exact .inl (good.waiting i waiting)
    · exact good.taken i taken

theorem mirrored_empty : Mirrored kind [] .empty where
  mirrored := by simp [Store.empty]
  shadowed := rfl
  waiting := by simp [debt]
  taken := by simp [debt]

theorem Mirrored.move {label : ListCall × Answer} (good : Mirrored kind log s)
    (move : Move kind s t label) : Mirrored kind (log ++ [label]) t := by
  cases move with
  | stay lists pending shadow inflight silent =>
    refine ⟨?_, ?_, ?_, ?_⟩
    · rw [lists, pending]
      exact good.mirrored
    · rw [shadow, pending]
      exact good.shadowed
    · intro i
      rw [debt_snoc, silent, lists]
      exact good.waiting i
    · intro i
      rw [debt_snoc, silent, lists, inflight]
      exact good.taken i
  | append i lists pending shadow inflight entered _ =>
    have listed : ∀ j, j ∈ t.lists kind ↔ j = i ∨ j ∈ s.lists kind := by
      intro j
      rw [lists, List.mem_append, List.mem_singleton, or_comm]
    refine ⟨?_, ?_, ?_, ?_⟩
    · intro j
      rw [pending, Finset.mem_insert, good.mirrored, listed]
    · rw [shadow, pending, good.shadowed]
    · intro j waiting
      rw [listed]
      by_cases same : j = i
      · exact .inl same
      · rw [debt_snoc, entered j same] at waiting
        exact .inr (good.waiting j waiting)
    · intro j taken
      rw [listed]
      by_cases same : j = i
      · exact .inl (.inl same)
      · rw [debt_snoc, entered j same] at taken
        rw [inflight j same]
        exact (good.taken j taken).imp .inr id
  | claim i rest lists left pending shadow inflight other taken single =>
    have kept : ∀ j, j ≠ i → j ∈ s.lists kind → j ∈ t.lists kind := by
      intro j apart member
      rw [lists] at member
      rw [left]
      exact (List.mem_cons.mp member).resolve_left apart
    refine ⟨?_, ?_, ?_, ?_⟩
    · intro j
      rw [pending, Finset.mem_erase, good.mirrored, lists, left, List.mem_cons]
      constructor
      · intro both
        exact both.2.resolve_left both.1
      · intro member
        refine ⟨?_, .inr member⟩
        rintro rfl
        exact single member
    · rw [shadow, pending, good.shadowed]
    · intro j waiting
      rw [debt_snoc, taken] at waiting
      split at waiting
      · cases waiting
      · next apart => exact kept j apart (good.waiting j waiting)
    · intro j owed
      by_cases same : j = i
      · rw [same]
        exact .inr inflight
      · rw [debt_snoc, taken, if_neg same] at owed
        rw [other j same]
        exact (good.taken j owed).imp_left (kept j same)
  | ack i absent lists pending shadow other settled =>
    refine ⟨?_, ?_, ?_, ?_⟩
    · intro j
      rw [pending, Finset.mem_erase, good.mirrored, lists]
      constructor
      · exact And.right
      · intro member
        refine ⟨?_, member⟩
        rintro rfl
        exact absent member
    · rw [shadow, pending, good.shadowed, Finset.erase_eq_of_notMem]
      rwa [good.mirrored]
    · intro j waiting
      rw [lists]
      apply good.waiting
      rw [debt_snoc, settled] at waiting
      split at waiting <;> exact waiting
    · intro j taken
      rw [debt_snoc, settled] at taken
      split at taken
      · cases taken
      · next apart =>
          rw [lists, other j apart]
          exact good.taken j taken
  | reorder lists pending shadow inflight silent =>
    refine ⟨?_, ?_, ?_, ?_⟩
    · intro i
      rw [pending, good.mirrored, lists.mem_iff]
    · rw [shadow, pending]
      exact good.shadowed
    · intro i
      rw [debt_snoc, silent, lists.mem_iff]
      exact good.waiting i
    · intro i
      rw [debt_snoc, silent, lists.mem_iff, inflight]
      exact good.taken i

/-- In every tame run the queues and their mirrors stay in step. -/
theorem queues_in_step (kind : Kind) (list : kind.isList = true) {log : List (ListCall × Answer)}
    {s : Store} (run : Run TameStep .empty log s) : InStep kind log s := by
  have good : Mirrored kind log s := by
    apply run.logged (I := Mirrored kind) mirrored_empty
    intro log t label u good step
    exact good.move (move_of_step list step)
  exact good.inStep

theorem queues_in_step_acked :
    let calls : List ListCall := [.enqueueList .append (lit "a") false 9,
      .claimList .append (lit "w") 60 0, .ack .append (lit "a") (lit "w")]
    InStep .append (Store.empty.runList calls).2 (Store.empty.runList calls).1 :=
  queues_in_step .append rfl (runList_run (P := Tame)
    ⟨trivial, fun _ i rest queue => by cases queue; exact ⟨by simp, rfl⟩, fun _ _ _ => by
      decide +kernel, trivial⟩)

theorem enqueue_lost_in_flight :
    ¬ ∀ kind, kind.isList = true → ∀ log s, Run ListStep .empty log s → InStep kind log s := by
  intro stay
  let calls : List ListCall := [.enqueueList .append (lit "a") false 9,
    .claimList .append (lit "w") 60 0, .enqueueList .append (lit "a") false 9,
    .claimList .append (lit "v") 60 1, .ack .append (lit "a") (lit "w")]
  have run : Run ListStep .empty (Store.empty.runList calls).2 (Store.empty.runList calls).1 := by
    have steps := @runList_run (fun _ _ => True) .empty calls
      ⟨trivial, trivial, trivial, trivial, trivial, trivial⟩
    simpa using steps
  have kept := (stay .append rfl _ _ run).kept (lit "a") (by decide +kernel)
  exact absurd kept (by decide +kernel)

structure Clean (kind : Kind) (s : Store) : Prop where
  single : (s.lists kind).Nodup
  free : ∀ i ∈ s.lists kind, (s.inflight kind).get? i = none

end Invariant

end PerfStats.JobStore
