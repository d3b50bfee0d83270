import PerfStats.Lib.Runs

namespace PerfStats.Listend

open Lib

section Model

/-- What `_submit_listend_write_frames` raises: a `CodonCopyFailed`, an `Exception` by its class, or
what `except Exception` lets through, as `DatabaseUnavailableExit`. -/
inductive FlushError where
  | codonCopyFailed
  | other (name : String)
  | exit (name : String)
  deriving DecidableEq, Repr

/-- `isinstance(exc, CodonCopyFailed) or _listend_flush_error_is_poison(exc)`. -/
def FlushError.poison : FlushError → Bool
  | .codonCopyFailed => true
  | .other name => ["DataError", "ProgrammingError", "IntegrityError"].contains name
  | .exit _ => false

def FlushError.escapes : FlushError → Bool
  | .exit _ => true
  | _ => false

structure FlushPolicy where
  batchSamples : Nat
  flushMaxRows : ℤ
  flushHold : ℚ
  deriving DecidableEq, Repr

def shouldFlushPending (policy : FlushPolicy) (sampleCount pendingRows : Nat)
    (holdStarted : Option ℚ) (now : ℚ) : Bool :=
  if pendingRows = 0 then false
  else if policy.batchSamples ≤ sampleCount then true
  else if 0 < policy.flushMaxRows ∧ policy.flushMaxRows ≤ pendingRows then true
  else
    match holdStarted with
    | none => false
    | some started => decide (0 < policy.flushHold ∧ policy.flushHold ≤ now - started)

/-- The locals of `_worker_main` and its counters. No part of it reads which frames were parsed, and
where they went. -/
structure FrameWorker (F : Type*) where
  pendingStats : List F
  pendingProc : List F
  sampleCount : Nat
  holdStarted : Option ℚ
  dbOk : Nat
  batchFlush : Nat
  dbErr : Nat
  schemaMiss : Nat
  parsed : List F
  written : List F
  poisoned : List F
  ended : Bool
  deriving DecidableEq, Repr

inductive SamplePayload (F : Type*) where
  | unreadable
  | schemaLines
  | schemaMiss
  | frames (stats proc : F)
  | raised

inductive FrameTurn (F : Type*) where
  | empty (flushed : Except FlushError Unit)
  | sample (now : ℚ) (aged : Except FlushError Unit) (payload : SamplePayload F)
      (started later : ℚ) (flushed : Except FlushError Unit)

variable {F : Type*}

namespace FrameWorker

def new : FrameWorker F := ⟨[], [], 0, none, 0, 0, 0, 0, [], [], [], false⟩

variable (w : FrameWorker F)

def pending : List F := w.pendingStats ++ w.pendingProc

def cleared : FrameWorker F :=
  { w with pendingStats := [], pendingProc := [], sampleCount := 0, holdStarted := none }

def flush (flushed : Except FlushError Unit) : FrameWorker F :=
  if w.pendingStats.isEmpty && w.pendingProc.isEmpty then
    { w with sampleCount := 0, holdStarted := none }
  else
    match flushed with
    | .ok _ =>
      { w.cleared with
        dbOk := w.dbOk + 1, batchFlush := w.batchFlush + 1, written := w.written ++ w.pending }
    | .error error =>
      -- the thread ends, and its locals with it
      if error.escapes then { w.cleared with ended := true }
      else if error.poison then
        { w.cleared with dbErr := w.dbErr + 1, poisoned := w.poisoned ++ w.pending }
      else { w with dbErr := w.dbErr + 1 }

variable (policy : FlushPolicy) (rows : F → Nat)

def pendingFrameRows (parts : List F) : Nat := (parts.map rows).sum

def flushDue (now : ℚ) : Bool :=
  shouldFlushPending policy w.sampleCount
    (pendingFrameRows rows w.pendingStats + pendingFrameRows rows w.pendingProc) w.holdStarted now

def maybeFlushPending (now : ℚ) (flushed : Except FlushError Unit) : FrameWorker F :=
  if w.flushDue policy rows now then w.flush flushed else w

def nonEmpty (frame : F) : List F := if rows frame = 0 then [] else [frame]

def appended (stats proc : F) (started : ℚ) : FrameWorker F :=
  { w with
    pendingStats := w.pendingStats ++ nonEmpty rows stats
    pendingProc := w.pendingProc ++ nonEmpty rows proc
    sampleCount := w.sampleCount + 1
    holdStarted := w.holdStarted.or (some started)
    parsed := w.parsed ++ (nonEmpty rows stats ++ nonEmpty rows proc) }

def handle (payload : SamplePayload F) (started later : ℚ) (flushed : Except FlushError Unit) :
    FrameWorker F :=
  match payload with
  | .unreadable => { w with dbErr := w.dbErr + 1 }
  | .schemaLines => w
  | .schemaMiss => { w with schemaMiss := w.schemaMiss + 1 }
  | .frames stats proc =>
    if rows stats = 0 ∧ rows proc = 0 then { w with schemaMiss := w.schemaMiss + 1 }
    else (w.appended rows stats proc started).maybeFlushPending policy rows later flushed
  | .raised => { w.cleared with dbErr := w.dbErr + 1 }

end FrameWorker

def workerTurn (policy : FlushPolicy) (rows : F → Nat) (w : FrameWorker F) (turn : FrameTurn F) :
    FrameWorker F :=
  if w.ended then w
  else
    match turn with
    | .empty flushed => w.flush flushed
    | .sample now aged payload started later flushed =>
      let w := w.maybeFlushPending policy rows now aged
      if w.ended then w else w.handle policy rows payload started later flushed

/-- The turns of its loop, and the flush behind it. -/
def workerMain (policy : FlushPolicy) (rows : F → Nat) (turns : List (FrameTurn F))
    (last : Except FlushError Unit) : FrameWorker F :=
  let w := turns.foldl (workerTurn policy rows) .new
  if w.ended then w else w.flush last

end Model

section Properties

variable {F : Type*} {w : FrameWorker F} {policy : FlushPolicy} {rows : F → Nat}
  {flushed : Except FlushError Unit} {now : ℚ} {payload : SamplePayload F}

def Once (w : FrameWorker F) : Prop :=
  (w.pending ++ (w.written ++ w.poisoned)).Perm w.parsed

structure CostsItself (w : FrameWorker F) : Prop where
  once : Once w
  retained : ∀ error, error.poison = false → error.escapes = false →
    (w.flush (.error error)).pending = w.pending

def Escapes (flushed : Except FlushError Unit) : Prop :=
  ∃ error, flushed = .error error ∧ error.escapes = true

def PayloadAlone (policy : FlushPolicy) (rows : F → Nat) (w : FrameWorker F) (later : ℚ)
    (started : ℚ) (flushed : Except FlushError Unit) : SamplePayload F → Prop
  | .raised => w.pending = []
  | .frames stats proc => ¬(rows stats = 0 ∧ rows proc = 0) →
      (w.appended rows stats proc started).flushDue policy rows later = true → ¬Escapes flushed
  | _ => True

def RaisesAlone (policy : FlushPolicy) (rows : F → Nat) (w : FrameWorker F) :
    FrameTurn F → Prop
  | .empty flushed => Escapes flushed → w.pending = []
  | .sample now aged payload started later flushed =>
    (w.flushDue policy rows now = true → ¬Escapes aged) ∧
      PayloadAlone policy rows (w.maybeFlushPending policy rows now aged) later started flushed
        payload

def LastSettles (w : FrameWorker F) (last : Except FlushError Unit) : Prop :=
  ∀ error, last = .error error → error.poison = false → w.pending = []

theorem isEmpty_iff_pending :
    (w.pendingStats.isEmpty && w.pendingProc.isEmpty) = true ↔ w.pending = [] := by
  rw [Bool.and_eq_true, List.isEmpty_iff, List.isEmpty_iff, FrameWorker.pending,
    List.append_eq_nil_iff]

theorem flush_retained {error : FlushError} (transient : error.poison = false)
    (caught : error.escapes = false) : (w.flush (.error error)).pending = w.pending := by
  unfold FrameWorker.flush
  split
  · rfl
  · dsimp only
    rw [if_neg (by simp [caught]), if_neg (by simp [transient])]
    rfl

theorem pending_of_due (due : w.flushDue policy rows now = true) : w.pending ≠ [] := by
  intro nothing
  obtain ⟨stats, proc⟩ := List.append_eq_nil_iff.mp nothing
  unfold FrameWorker.flushDue shouldFlushPending at due
  simp [FrameWorker.pendingFrameRows, stats, proc] at due

theorem Once.flush (once : Once w) (going : w.ended = false)
    (stays : Escapes flushed → w.pending = []) :
    Once (w.flush flushed) ∧ (w.flush flushed).ended = false := by
  unfold FrameWorker.flush
  split
  · exact ⟨once, going⟩
  · next some_ =>
      cases flushed with
      | ok _ =>
        refine ⟨.trans ?_ once, going⟩
        show (([] : List F) ++ ((w.written ++ w.pending) ++ w.poisoned)).Perm _
        rw [List.nil_append, List.append_assoc]
        exact List.perm_append_comm_assoc _ _ _
      | error error =>
        dsimp only
        split
        · next escapes => exact absurd (isEmpty_iff_pending.mpr (stays ⟨error, rfl, escapes⟩)) some_
        · split
          · refine ⟨.trans ?_ once, going⟩
            show (([] : List F) ++ (w.written ++ (w.poisoned ++ w.pending))).Perm _
            rw [List.nil_append, ← List.append_assoc]
            exact List.perm_append_comm
          · exact ⟨once, going⟩

theorem Once.not_of_fewer {t : FrameWorker F} (once : Once w) (parsed : t.parsed = w.parsed)
    (settled : t.written ++ t.poisoned = w.written ++ w.poisoned) (some_ : w.pending ≠ [])
    (nothing : t.pending = []) : ¬Once t := by
  intro all_there
  have lengths := once.length_eq.trans (parsed ▸ all_there.length_eq.symm)
  rw [nothing, List.nil_append, settled, List.length_append] at lengths
  exact some_ (List.eq_nil_of_length_eq_zero (Nat.add_eq_right.mp lengths))

theorem Once.flush_lost (once : Once w)
    (escapes : Escapes flushed) (some_ : w.pending ≠ []) :
    ¬Once (w.flush flushed) ∧ (w.flush flushed).ended = true := by
  obtain ⟨error, rfl, exits⟩ := escapes
  have lost : w.flush (.error error) = { w.cleared with ended := true } := by
    unfold FrameWorker.flush
    rw [if_neg fun nothing => some_ (isEmpty_iff_pending.mp nothing)]
    exact if_pos exits
  rw [lost]
  exact ⟨once.not_of_fewer rfl rfl some_ rfl, rfl⟩

theorem Once.maybeFlushPending (once : Once w) (going : w.ended = false)
    (stays : w.flushDue policy rows now = true → ¬Escapes flushed) :
    Once (w.maybeFlushPending policy rows now flushed) ∧
      (w.maybeFlushPending policy rows now flushed).ended = false := by
  unfold FrameWorker.maybeFlushPending
  split
  · next due => exact once.flush going fun escapes => absurd escapes (stays due)
  · exact ⟨once, going⟩

theorem Once.maybeFlush_lost (once : Once w)
    (due : w.flushDue policy rows now = true) (escapes : Escapes flushed) :
    ¬Once (w.maybeFlushPending policy rows now flushed) ∧
      (w.maybeFlushPending policy rows now flushed).ended = true := by
  rw [FrameWorker.maybeFlushPending, if_pos due]
  exact once.flush_lost escapes (pending_of_due due)

theorem Once.appended (once : Once w) (stats proc : F) (started : ℚ) :
    Once (w.appended rows stats proc started) := by
  classical
  unfold Once at once ⊢
  rw [List.perm_iff_count] at once ⊢
  intro frame
  have before := once frame
  simp only [FrameWorker.pending, FrameWorker.appended, List.count_append] at before ⊢
  omega

theorem Once.handle (once : Once w) (going : w.ended = false)
    {started later : ℚ}
    (alone : PayloadAlone policy rows w later started flushed payload) :
    Once (w.handle policy rows payload started later flushed) ∧
      (w.handle policy rows payload started later flushed).ended = false := by
  cases payload with
  | unreadable => exact ⟨once, going⟩
  | schemaLines => exact ⟨once, going⟩
  | schemaMiss => exact ⟨once, going⟩
  | frames stats proc =>
    dsimp only [FrameWorker.handle]
    split
    · exact ⟨once, going⟩
    · next some_ =>
        exact (once.appended stats proc started).maybeFlushPending going (alone some_)
  | raised =>
    refine ⟨?_, going⟩
    unfold Once at once
    rw [show FrameWorker.pending _ = [] from alone] at once
    exact once

theorem Once.handle_lost (once : Once w) {started later : ℚ}
    (over_ : ¬PayloadAlone policy rows w later started flushed payload) :
    ¬Once (w.handle policy rows payload started later flushed) := by
  cases payload with
  | raised => exact once.not_of_fewer rfl rfl over_ rfl
  | frames stats proc =>
    rw [PayloadAlone, Classical.not_imp, Classical.not_imp, not_not] at over_
    obtain ⟨some_, due, escapes⟩ := over_
    dsimp only [FrameWorker.handle]
    rw [if_neg some_]
    exact ((once.appended stats proc started).maybeFlush_lost due escapes).1
  | _ => exact absurd trivial over_

def Whole (w : FrameWorker F) : Prop := Once w ∧ w.ended = false

theorem Whole.turn (whole : Whole w) {turn : FrameTurn F} (alone : RaisesAlone policy rows w turn) :
    Whole (workerTurn policy rows w turn) := by
  obtain ⟨once, going⟩ := whole
  unfold workerTurn
  rw [if_neg (by simp [going])]
  cases turn with
  | empty flushed => exact once.flush going alone
  | sample now aged payload started later flushed =>
    obtain ⟨aged_once, aged_going⟩ := once.maybeFlushPending going alone.1
    dsimp only
    rw [if_neg (by simp [aged_going])]
    exact aged_once.handle aged_going alone.2

theorem Whole.lost (whole : Whole w) {turn : FrameTurn F} (over_ : ¬RaisesAlone policy rows w turn) :
    ¬Once (workerTurn policy rows w turn) := by
  obtain ⟨once, going⟩ := whole
  unfold workerTurn
  rw [if_neg (by simp [going])]
  cases turn with
  | empty flushed =>
    obtain ⟨escapes, some_⟩ := Classical.not_imp.mp over_
    exact (once.flush_lost escapes some_).1
  | sample now aged payload started later flushed =>
    dsimp only
    by_cases stays : w.flushDue policy rows now = true → ¬Escapes aged
    · obtain ⟨aged_once, aged_going⟩ := once.maybeFlushPending going stays
      rw [if_neg (by simp [aged_going])]
      exact aged_once.handle_lost fun alone => over_ ⟨stays, alone⟩
    · obtain ⟨due, escapes⟩ := Classical.not_imp.mp stays
      obtain ⟨lost, ended⟩ := once.maybeFlush_lost due (not_not.mp escapes)
      rw [if_pos ended]
      exact lost

theorem Once.costsItself (once : Once w) : CostsItself w :=
  ⟨once, fun _ => flush_retained⟩

theorem Once.settled_iff (once : Once w) (last : Except FlushError Unit) :
    ((w.flush last).written ++ (w.flush last).poisoned).Perm (w.flush last).parsed ↔
      LastSettles w last := by
  have none_pending : w.pending = [] → (w.written ++ w.poisoned).Perm w.parsed := by
    intro nothing
    unfold Once at once
    rwa [nothing, List.nil_append] at once
  have stuck : (w.written ++ w.poisoned).Perm w.parsed → w.pending = [] := by
    intro settled
    have lengths := once.length_eq
    rw [List.length_append, settled.length_eq] at lengths
    exact List.eq_nil_of_length_eq_zero (Nat.add_eq_right.mp lengths)
  unfold FrameWorker.flush
  split
  · next nothing =>
      have nothing := isEmpty_iff_pending.mp nothing
      exact iff_of_true (none_pending nothing) fun _ _ _ => nothing
  · cases last with
    | ok _ =>
      refine iff_of_true (.trans ?_ once) nofun
      show ((w.written ++ w.pending) ++ w.poisoned).Perm _
      rw [List.append_assoc]
      exact List.perm_append_comm_assoc _ _ _
    | error error =>
      dsimp only
      split
      · next escapes =>
          have transient : error.poison = false := by
            cases error <;> first | rfl | cases escapes
          refine ⟨fun settled _ _ _ => stuck settled, fun settles => ?_⟩
          exact none_pending (settles error rfl transient)
      · split
        · next poison =>
            refine iff_of_true (.trans ?_ once) fun other same transient => ?_
            · show (w.written ++ (w.poisoned ++ w.pending)).Perm _
              rw [← List.append_assoc]
              exact List.perm_append_comm
            · cases same
              rw [poison] at transient
              cases transient
        · next transient =>
            refine ⟨fun settled _ _ _ => stuck settled, fun settles => ?_⟩
            exact none_pending (settles error rfl (Bool.not_eq_true _ ▸ transient))

/-- A bad sample costs only itself and every parsed frame is written once or dropped once as poison,
if and only if no payload raises over pending frames, no flush lets an exit through, and the last
fails on poison only. -/
theorem bad_sample_costs_iff (policy : FlushPolicy) (rows : F → Nat) (turns : List (FrameTurn F))
    (last : Except FlushError Unit) :
    ((∀ early later, turns = early ++ later →
        CostsItself (early.foldl (workerTurn policy rows) .new)) ∧
      ((workerMain policy rows turns last).written ++
        (workerMain policy rows turns last).poisoned).Perm
          (workerMain policy rows turns last).parsed) ↔
      Throughout (workerTurn policy rows) (RaisesAlone policy rows) .new turns ∧
        LastSettles (turns.foldl (workerTurn policy rows) .new) last := by
  have initial : Whole (FrameWorker.new : FrameWorker F) := ⟨List.Perm.refl [], rfl⟩
  have always : (∀ early later, turns = early ++ later →
      CostsItself (early.foldl (workerTurn policy rows) .new)) ↔
        Throughout (workerTurn policy rows) (RaisesAlone policy rows) .new turns :=
    always_iff (K := Whole) initial (fun _ whole => whole.1.costsItself)
      (fun _ _ whole alone => whole.turn alone)
      fun _ _ whole broken costs => whole.lost broken costs.once
  rw [always]
  refine and_congr_right fun throughout => ?_
  have whole : Whole (turns.foldl (workerTurn policy rows) .new) :=
    throughout.kept initial fun _ _ whole alone => whole.turn alone
  have left : workerMain policy rows turns last =
      (turns.foldl (workerTurn policy rows) .new).flush last := if_neg (by simp [whole.2])
  rw [left]
  exact whole.1.settled_iff last

/-- A sample that raises behind one that was parsed: the frame of the first is gone. So it is where
the flush meets an outage. -/
theorem raised_sample_clears :
    (¬ ∀ (policy : FlushPolicy) (turns : List (FrameTurn Nat)),
      CostsItself (turns.foldl (workerTurn policy id) .new)) ∧
    ¬CostsItself ([FrameTurn.sample 0 (.ok ()) (.frames 3 0) 0 0 (.ok ()),
      .empty (.error (.exit "DatabaseUnavailableExit"))].foldl
        (workerTurn ⟨100, 2000, 5⟩ id) .new) := by
  constructor
  · intro claim
    have once := (claim ⟨100, 2000, 5⟩
      [.sample 0 (.ok ()) (.frames 3 0) 0 0 (.ok ()), .sample 1 (.ok ()) .raised 1 1 (.ok ())]).once
    exact absurd once.length_eq (by decide +kernel)
  · intro costs
    exact absurd costs.once.length_eq (by decide +kernel)

end Properties

end PerfStats.Listend
