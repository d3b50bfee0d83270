import PerfStats.Lib.Runs

namespace PerfStats.Archive

open Lib Function

section Model

structure FlushAttempt where
  gen : Nat
  began : Nat
  deriving DecidableEq, Repr

/-- Where the writer thread stands in `_main`: `forced` and `asked` are what it took. -/
inductive WriterThread where
  | absent
  | idle
  | taken (forced : Bool) (asked : Nat)
  | writing (forced : Bool) (asked : Nat) (attempt : FlushAttempt)
  | ended (forced : Bool) (asked : Nat)
  | leaving
  deriving DecidableEq, Repr

/-- A call of `flush`: it waits for the forced write that covers its ticket, or for its own where no
thread runs; `called` and `result` are not read. -/
inductive FlushCall (E : Type*) where
  | out
  | waiting (ticket called : Nat) (result : Option (Option E))
  | entered (called : Nat)
  | writing (called : Nat) (attempt : FlushAttempt)
  | wrote (called : Nat) (result : Option E)

structure WriteBehindWriter (ι E : Type*) where
  dirty : Bool
  gen : Nat
  stop : Bool
  force : Bool
  forceAsked : Nat
  forceDone : Nat
  error : Option E
  thread : WriterThread
  calls : ι → FlushCall E
  clock : Nat
  marked : Nat
  succeeded : List Nat

variable {ι E : Type*}

namespace WriteBehindWriter

def new : WriteBehindWriter ι E :=
  ⟨false, 0, false, false, 0, 0, none, .absent, fun _ => .out, 1, 0, []⟩

variable (w : WriteBehindWriter ι E)

def tick : WriteBehindWriter ι E := { w with clock := w.clock + 1 }

def markDirty : WriteBehindWriter ι E :=
  { w.tick with dirty := true, gen := w.gen + 1, marked := w.clock }

def attempted (attempt : FlushAttempt) (result : Option E) : WriteBehindWriter ι E :=
  match result with
  | some e => { w.tick with error := some e }
  | none =>
    { w.tick with
      error := none
      dirty := w.dirty && w.gen != attempt.gen
      succeeded := attempt.began :: w.succeeded }

def settle (asked : Nat) (result : Option E) : FlushCall E → FlushCall E
  | .waiting ticket called none =>
    .waiting ticket called (if ticket ≤ asked then some result else none)
  | call => call

def setCall [DecidableEq ι] (i : ι) (call : FlushCall E) : WriteBehindWriter ι E :=
  { w with calls := update w.calls i call }

end WriteBehindWriter

inductive WriterEvent (ι E : Type*) where
  | start
  | stop
  | mark
  | enter (i : ι)
  | enterInline (i : ι)
  | refuse (i : ι)
  | take
  | begin_
  | endWrite (result : Option E)
  | finish
  | leave
  | gone
  | beginInline (i : ι)
  | endInline (i : ι) (result : Option E)
  | return_ (i : ι)
  | raise (i : ι)
  | timeout (i : ι)

def FlushCall.ready (done : Nat) : FlushCall E → Bool
  | .waiting ticket _ _ => decide (ticket ≤ done)
  | .wrote _ _ => true
  | _ => false

open WriteBehindWriter in
inductive WriterStep [DecidableEq ι] :
    WriteBehindWriter ι E → WriterEvent ι E → WriteBehindWriter ι E → Prop where
  | start {w} (dead : w.thread = .absent) :
      WriterStep w .start { w.tick with stop := false, thread := .idle }
  -- with its final flush; the form without is a call of `DroppingStep`
  | stop {w} : WriterStep w .stop { w.tick with stop := true }
  | mark {w} : WriterStep w .mark w.markDirty
  | enter {w i} (idle : w.calls i = .out) (alive : w.thread ≠ .absent) :
      WriterStep w (.enter i)
        (setCall { w.tick with forceAsked := w.forceAsked + 1, force := true, error := none } i
          (.waiting (w.forceAsked + 1) w.clock none))
  | enterInline {w i} (idle : w.calls i = .out) (dead : w.thread = .absent) :
      WriterStep w (.enterInline i) (w.tick.setCall i (.entered w.clock))
  | refuse {w i} (idle : w.calls i = .out) (dead : w.thread = .absent) :
      WriterStep w (.refuse i) w.tick
  | take {w} (idle : w.thread = .idle) (due : w.force = true ∨ w.dirty = true) :
      WriterStep w .take
        { w.tick with thread := .taken w.force w.forceAsked, force := false }
  | begin_ {w forced asked} (taken : w.thread = .taken forced asked) :
      WriterStep w .begin_ { w.tick with thread := .writing forced asked ⟨w.gen, w.clock⟩ }
  | endWrite {w forced asked attempt result} (inside : w.thread = .writing forced asked attempt) :
      WriterStep w (.endWrite result)
        { w.attempted attempt result with
          thread := .ended forced asked
          calls := if forced then settle asked result ∘ w.calls else w.calls }
  | finish {w forced asked} (ended : w.thread = .ended forced asked) :
      WriterStep w .finish
        { w.tick with
          forceDone := if forced then max w.forceDone asked else w.forceDone
          thread := if w.stop && w.error.isSome then .leaving else .idle }
  | leave {w} (idle : w.thread = .idle) (quiet : w.force = false) (asked : w.stop = true)
      (clean : w.dirty = false) : WriterStep w .leave { w.tick with thread := .leaving }
  | gone {w} (left : w.thread = .leaving) :
      WriterStep w .gone { w.tick with thread := .absent }
  | beginInline {w i called} (at_ : w.calls i = .entered called) :
      WriterStep w (.beginInline i) (w.tick.setCall i (.writing called ⟨w.gen, w.clock⟩))
  | endInline {w i called attempt result} (at_ : w.calls i = .writing called attempt) :
      WriterStep w (.endInline i result)
        ((w.attempted attempt result).setCall i (.wrote called result))
  | return_ {w i} (ready : (w.calls i).ready w.forceDone = true) (clear : w.error = none) :
      WriterStep w (.return_ i) (w.tick.setCall i .out)
  | raise {w i e} (ready : (w.calls i).ready w.forceDone = true) (failed : w.error = some e) :
      WriterStep w (.raise i) (w.tick.setCall i .out)
  | timeout {w i ticket called result} (at_ : w.calls i = .waiting ticket called result)
      (short : w.forceDone < ticket) : WriterStep w (.timeout i) (w.tick.setCall i .out)

inductive WriterCall (ι E : Type*) where
  | plain (event : WriterEvent ι E)
  | clearDirty
  | stopUnflushed

/-- `dropped`: when the flag was last cleared without a write. -/
structure DroppingWriter (ι E : Type*) where
  writer : WriteBehindWriter ι E
  dropped : Nat

def DroppingWriter.new : DroppingWriter ι E := ⟨.new, 0⟩

inductive DroppingStep [DecidableEq ι] :
    DroppingWriter ι E → WriterCall ι E → DroppingWriter ι E → Prop where
  | plain {w t event dropped} (step : WriterStep w event t) :
      DroppingStep ⟨w, dropped⟩ (.plain event) ⟨t, dropped⟩
  | clearDirty {w dropped} :
      DroppingStep ⟨w, dropped⟩ .clearDirty ⟨{ w.tick with dirty := false }, w.clock⟩
  | stopUnflushed {w dropped} :
      DroppingStep ⟨w, dropped⟩ .stopUnflushed
        ⟨{ w.tick with dirty := false, stop := true }, w.clock⟩

end Model

section Properties

variable {ι E : Type*} {w t : WriteBehindWriter ι E}

def FlushCall.called : FlushCall E → Nat
  | .out => 0
  | .waiting _ called _ => called
  | .entered called => called
  | .writing called _ => called
  | .wrote called _ => called

def FlushCall.Failed (call : FlushCall E) : Prop :=
  (∃ ticket called e, call = .waiting ticket called (some (some e))) ∨
    ∃ called e, call = .wrote called (some e)

def WrittenAfter (w : WriteBehindWriter ι E) (time : Nat) : Prop :=
  ∃ began ∈ w.succeeded, time < began

def RightReturn (w : WriteBehindWriter ι E) : WriterEvent ι E → Prop
  | .return_ i => WrittenAfter w (w.calls i).called ∧ ¬ (w.calls i).Failed
  | _ => True

def CleanWritten (w : WriteBehindWriter ι E) : Prop :=
  w.dirty = false → w.marked = 0 ∨ WrittenAfter w w.marked

/-- The marks up to `dropped` need no write. -/
def CleanSince (dropped : Nat) (w : WriteBehindWriter ι E) : Prop :=
  w.dirty = false → w.marked ≤ dropped ∨ WrittenAfter w w.marked

def WriterEvent.clears : WriterEvent ι E → Bool
  | .enter _ => true
  | .endWrite result => result.isNone
  | .endInline _ result => result.isNone
  | _ => false

def ReadFirst (w : WriteBehindWriter ι E) (event : WriterEvent ι E) : Prop :=
  event.clears = true → ∀ i, ¬ (w.calls i).Failed

structure FlushAttemptRight (w : WriteBehindWriter ι E) (attempt : FlushAttempt) : Prop where
  gen : attempt.gen ≤ w.gen
  began : attempt.began < w.clock
  same : attempt.gen = w.gen → w.marked < attempt.began

structure Ahead (w : WriteBehindWriter ι E) (ticket called : Nat) : Prop where
  short : w.forceDone < ticket
  ended : ∀ asked, w.thread = .ended true asked → asked < ticket
  begun : ∀ asked attempt, w.thread = .writing true asked attempt → ticket ≤ asked →
    called < attempt.began

def CallRight (w : WriteBehindWriter ι E) : FlushCall E → Prop
  | .out => True
  | .waiting ticket called result => ticket ≤ w.forceAsked ∧ called < w.clock ∧
      (result = none → Ahead w ticket called) ∧ (result = some none → WrittenAfter w called)
  | .entered called => called < w.clock
  | .writing called attempt => called < attempt.began ∧ FlushAttemptRight w attempt
  | .wrote called result => result = none → WrittenAfter w called

def FlusherRight (w : WriteBehindWriter ι E) : WriterThread → Prop
  | .taken _ asked => asked ≤ w.forceAsked
  | .writing _ asked attempt => asked ≤ w.forceAsked ∧ FlushAttemptRight w attempt
  | .ended _ asked => asked ≤ w.forceAsked
  | _ => True

structure WriterRight (dropped : Nat) (w : WriteBehindWriter ι E) : Prop where
  marked : w.marked < w.clock
  done : w.forceDone ≤ w.forceAsked
  clean : CleanSince dropped w
  thread : FlusherRight w w.thread
  calls : ∀ i, CallRight w (w.calls i)

structure Later (w t : WriteBehindWriter ι E) : Prop where
  clock : w.clock ≤ t.clock
  asked : w.forceAsked ≤ t.forceAsked
  succeeded : ∀ began ∈ w.succeeded, began ∈ t.succeeded
  marks : t.gen = w.gen ∧ t.marked = w.marked ∨ w.gen < t.gen

variable {dropped : Nat} {calls : ι → FlushCall E}

theorem Later.written (later : Later w t) {time : Nat} (written : WrittenAfter w time) :
    WrittenAfter t time := by
  obtain ⟨began, member, after⟩ := written
  exact ⟨began, later.succeeded began member, after⟩

theorem Later.attempt (later : Later w t) {attempt : FlushAttempt}
    (right : FlushAttemptRight w attempt) :
    FlushAttemptRight t attempt := by
  have clock := later.clock
  have gen := right.gen
  have began := right.began
  rcases later.marks with ⟨same_gen, same_mark⟩ | more
  · refine ⟨by omega, by omega, fun same => ?_⟩
    rw [same_mark]
    exact right.same (same.trans same_gen)
  · exact ⟨by omega, by omega, fun same => by omega⟩

theorem Later.call (later : Later w t) {call : FlushCall E} (right : CallRight w call)
    (ahead : ∀ ticket called, call = .waiting ticket called none → called < w.clock →
      Ahead w ticket called → Ahead t ticket called) : CallRight t call := by
  have clock := later.clock
  have asked := later.asked
  cases call with
  | out => trivial
  | waiting ticket called result =>
    obtain ⟨bound, early, unknown, good⟩ := right
    refine ⟨bound.trans asked, early.trans_le clock, fun none_yet => ?_, fun ok => ?_⟩
    · exact ahead ticket called (by rw [none_yet]) early (unknown none_yet)
    · exact later.written (good ok)
  | entered called => exact Nat.lt_of_lt_of_le right clock
  | writing called attempt => exact ⟨right.1, later.attempt right.2⟩
  | wrote called result => exact fun ok => later.written (right ok)

theorem Later.clean (later : Later w t) (dirty : t.dirty = w.dirty) (marked : t.marked = w.marked)
    (clean : CleanSince dropped w) : CleanSince dropped t := by
  intro is_clean
  rw [marked]
  rw [dirty] at is_clean
  rcases clean is_clean with never | written
  · exact .inl never
  · exact .inr (later.written written)

theorem attempted_later (w : WriteBehindWriter ι E) (attempt : FlushAttempt) (result : Option E) :
    Later w (w.attempted attempt result) := by
  cases result with
  | some e => exact ⟨Nat.le_succ _, le_rfl, fun _ member => member, .inl ⟨rfl, rfl⟩⟩
  | none =>
    exact ⟨Nat.le_succ _, le_rfl, fun _ member => .tail _ member,
      .inl ⟨rfl, rfl⟩⟩

theorem attempted_error (w : WriteBehindWriter ι E) (attempt : FlushAttempt) (result : Option E) :
    (w.attempted attempt result).error = result := by
  cases result <;> rfl

theorem attempted_keeps (w : WriteBehindWriter ι E) (attempt : FlushAttempt) (result : Option E) :
    (w.attempted attempt result).clock = w.clock + 1 ∧
      (w.attempted attempt result).marked = w.marked ∧
      (w.attempted attempt result).forceAsked = w.forceAsked ∧
      (w.attempted attempt result).forceDone = w.forceDone ∧
      (w.attempted attempt result).thread = w.thread ∧
      (w.attempted attempt result).calls = w.calls := by
  cases result <;> exact ⟨rfl, rfl, rfl, rfl, rfl, rfl⟩

variable {forced : Bool} {asked : Nat} {result : Option E}

theorem attempted_written {attempt : FlushAttempt} {time : Nat}
    (ok : result = none) (after : time < attempt.began) :
    WrittenAfter (w.attempted attempt result) time := by
  subst ok
  exact ⟨attempt.began, .head _, after⟩

theorem attempted_clean {attempt : FlushAttempt} (clean : CleanSince dropped w)
    (right : FlushAttemptRight w attempt) : CleanSince dropped (w.attempted attempt result) := by
  have later := attempted_later w attempt result
  cases result with
  | some e => exact later.clean rfl rfl clean
  | none =>
    intro is_clean
    cases old : w.dirty with
    | false =>
      rcases clean old with never | written
      · exact .inl never
      · exact .inr (later.written written)
    | true =>
      have unchanged : w.gen = attempt.gen := by
        simpa [WriteBehindWriter.attempted, old] using is_clean
      exact .inr (attempted_written rfl (right.same unchanged.symm))

theorem calls_update [DecidableEq ι] {i : ι} {call : FlushCall E}
    (others : ∀ j, CallRight t (calls j)) (this : CallRight t call) (j : ι) :
    CallRight t (update calls i call j) := by
  by_cases here : j = i
  · rw [here, update_self]
    exact this
  · rw [update_of_ne here]
    exact others j

theorem Later.of_tick (clock : t.clock = w.clock + 1) (gen : t.gen = w.gen)
    (marked : t.marked = w.marked) (asked : t.forceAsked = w.forceAsked)
    (succeeded : t.succeeded = w.succeeded) : Later w t := by
  refine ⟨by omega, by omega, fun _ member => ?_, .inl ⟨gen, marked⟩⟩
  rw [succeeded]
  exact member

theorem Later.thread (later : Later w t) {thread : WriterThread} (right : FlusherRight w thread) :
    FlusherRight t thread := by
  cases thread with
  | absent => trivial
  | idle => trivial
  | leaving => trivial
  | taken forced asked => exact right.trans later.asked
  | writing forced asked attempt => exact ⟨right.1.trans later.asked, later.attempt right.2⟩
  | ended forced asked => exact right.trans later.asked

theorem Ahead.of_calm {ticket called : Nat} (ahead : Ahead w ticket called)
    (done : t.forceDone = w.forceDone) (not_ended : ∀ asked, t.thread ≠ .ended true asked)
    (not_writing : ∀ asked attempt, t.thread ≠ .writing true asked attempt) :
    Ahead t ticket called := by
  refine ⟨done ▸ ahead.short, fun asked at_ => ?_, fun asked attempt at_ => ?_⟩
  · exact absurd at_ (not_ended asked)
  · exact absurd at_ (not_writing asked attempt)

theorem Ahead.of_same {ticket called : Nat} (ahead : Ahead w ticket called)
    (done : t.forceDone = w.forceDone) (thread : t.thread = w.thread) : Ahead t ticket called :=
  ⟨done ▸ ahead.short, thread ▸ ahead.ended, thread ▸ ahead.begun⟩

theorem WriterRight.of_call [DecidableEq ι] (right : WriterRight dropped w) (i : ι) (call : FlushCall E)
    (this : CallRight (w.tick.setCall i call) call) : WriterRight dropped (w.tick.setCall i call) := by
  have later : Later w (w.tick.setCall i call) := .of_tick rfl rfl rfl rfl rfl
  refine ⟨Nat.lt_succ_of_lt right.marked, right.done, later.clean rfl rfl right.clean,
    later.thread right.thread, calls_update (fun j => ?_) this⟩
  exact later.call (right.calls j) fun _ _ _ _ ahead => ahead.of_same rfl rfl

theorem WriterRight.of_thread (right : WriterRight dropped w) (clock : t.clock = w.clock + 1)
    (gen : t.gen = w.gen) (marked : t.marked = w.marked) (asked : t.forceAsked = w.forceAsked)
    (succeeded : t.succeeded = w.succeeded) (dirty : t.dirty = w.dirty)
    (done : t.forceDone = w.forceDone) (calls : t.calls = w.calls)
    (not_ended : ∀ asked, t.thread ≠ .ended true asked)
    (not_writing : ∀ asked attempt, t.thread ≠ .writing true asked attempt)
    (thread : FlusherRight t t.thread) : WriterRight dropped t := by
  have later : Later w t := .of_tick clock gen marked asked succeeded
  have clock_right := right.marked
  have done_right := right.done
  refine ⟨by omega, by omega, later.clean dirty marked right.clean, thread, fun i => ?_⟩
  rw [calls]
  exact later.call (right.calls i) fun _ _ _ _ ahead =>
    ahead.of_calm done not_ended not_writing

theorem right_mark (right : WriterRight dropped w) : WriterRight dropped w.markDirty := by
  have later : Later w w.markDirty :=
    ⟨Nat.le_succ _, le_rfl, fun _ member => member, .inr (Nat.lt_succ_self _)⟩
  refine ⟨Nat.lt_succ_self _, right.done, nofun, later.thread right.thread, fun i => ?_⟩
  exact later.call (right.calls i) fun _ _ _ _ ahead => ahead.of_same rfl rfl

theorem right_enter [DecidableEq ι] (right : WriterRight dropped w) (i : ι) : WriterRight dropped
    (WriteBehindWriter.setCall
      { w.tick with forceAsked := w.forceAsked + 1, force := true, error := none } i
      (.waiting (w.forceAsked + 1) w.clock none)) := by
  have later : Later w (WriteBehindWriter.setCall
      { w.tick with forceAsked := w.forceAsked + 1, force := true, error := none } i
      (.waiting (w.forceAsked + 1) w.clock none)) :=
    ⟨Nat.le_succ _, Nat.le_succ _, fun _ member => member, .inl ⟨rfl, rfl⟩⟩
  have thread := right.thread
  refine ⟨Nat.lt_succ_of_lt right.marked, right.done.trans (Nat.le_succ _),
    later.clean rfl rfl right.clean, later.thread thread, calls_update (fun j => ?_) ?_⟩
  · exact later.call (right.calls j) fun _ _ _ _ ahead => ahead.of_same rfl rfl
  · refine ⟨le_rfl, Nat.lt_succ_self _, fun _ => ⟨Nat.lt_succ_of_le right.done, ?_, ?_⟩, nofun⟩
    · intro asked at_
      rw [show w.thread = .ended true asked from at_] at thread
      exact Nat.lt_succ_of_le thread
    · intro asked attempt at_ within
      rw [show w.thread = .writing true asked attempt from at_] at thread
      exact absurd (within.trans thread.1) (Nat.not_succ_le_self _)

theorem right_begin (right : WriterRight dropped w) (taken : w.thread = .taken forced asked) : WriterRight dropped
    { w.tick with thread := .writing forced asked ⟨w.gen, w.clock⟩ } := by
  have later : Later w { w.tick with thread := .writing forced asked ⟨w.gen, w.clock⟩ } :=
    .of_tick rfl rfl rfl rfl rfl
  have thread := right.thread
  rw [taken] at thread
  refine ⟨Nat.lt_succ_of_lt right.marked, right.done, later.clean rfl rfl right.clean,
    ⟨thread, le_rfl, Nat.lt_succ_self _, fun _ => right.marked⟩, fun i => ?_⟩
  refine later.call (right.calls i) fun ticket called _ early ahead => ?_
  refine ⟨ahead.short, nofun, fun _ attempt at_ _ => ?_⟩
  obtain ⟨_, _, rfl⟩ := WriterThread.writing.inj at_
  exact early

theorem right_endWrite {attempt : FlushAttempt}
    (right : WriterRight dropped w) (inside : w.thread = .writing forced asked attempt) : WriterRight dropped
    { w.attempted attempt result with
      thread := .ended forced asked
      calls := if forced then WriteBehindWriter.settle asked result ∘ w.calls else w.calls } := by
  have thread := right.thread
  rw [inside] at thread
  obtain ⟨clock, marked, ask, done, _, _⟩ := attempted_keeps w attempt result
  have written := attempted_later w attempt result
  have later : Later w { w.attempted attempt result with
      thread := .ended forced asked
      calls := if forced then WriteBehindWriter.settle asked result ∘ w.calls else w.calls } :=
    ⟨written.clock, written.asked, written.succeeded, written.marks⟩
  refine ⟨?_, ?_, attempted_clean right.clean thread.2, ?_, fun i => ?_⟩
  · have before := right.marked
    dsimp only
    omega
  · have before := right.done
    dsimp only
    omega
  · exact thread.1.trans later.asked
  · have call := right.calls i
    cases forced with
    | false => exact later.call call fun _ _ _ _ ahead => ahead.of_calm done nofun nofun
    | true =>
      dsimp only
      rw [if_pos rfl, comp_apply]
      by_cases waits : ∃ ticket called, w.calls i = .waiting ticket called none
      · obtain ⟨ticket, called, at_⟩ := waits
        rw [at_] at call ⊢
        obtain ⟨bound, early, unknown, _⟩ := call
        have ahead := unknown rfl
        refine ⟨bound.trans later.asked, early.trans_le later.clock, fun none_yet => ?_,
          fun ok => ?_⟩
        · have beyond : ¬ ticket ≤ asked := by
            intro within
            rw [if_pos within] at none_yet
            cases none_yet
          refine ⟨?_, fun other same => ?_, nofun⟩
          · dsimp only
            rw [done]
            exact ahead.short
          · obtain ⟨_, rfl⟩ := WriterThread.ended.inj same
            exact Nat.lt_of_not_le beyond
        · have within : ticket ≤ asked := by
            by_contra beyond
            rw [if_neg beyond] at ok
            cases ok
          rw [if_pos within, Option.some.injEq] at ok
          exact attempted_written ok (ahead.begun asked attempt inside within)
      · have kept : WriteBehindWriter.settle asked result (w.calls i) = w.calls i := by
          unfold WriteBehindWriter.settle
          split
          · next ticket called at_ => exact absurd ⟨ticket, called, at_⟩ waits
          · rfl
        rw [kept]
        exact later.call call fun ticket called at_ => absurd ⟨ticket, called, at_⟩ waits

theorem right_finish (right : WriterRight dropped w)
    (ended : w.thread = .ended forced asked) : WriterRight dropped
    { w.tick with
      forceDone := if forced then max w.forceDone asked else w.forceDone
      thread := if w.stop && w.error.isSome then .leaving else .idle } := by
  have thread := right.thread
  rw [ended] at thread
  have done := right.done
  have next : ∀ there, (if w.stop && w.error.isSome then WriterThread.leaving else .idle) = there →
      there = .leaving ∨ there = .idle := by
    intro there same
    rw [← same]
    split
    · exact .inl rfl
    · exact .inr rfl
  have later : Later w { w.tick with
      forceDone := if forced then max w.forceDone asked else w.forceDone
      thread := if w.stop && w.error.isSome then .leaving else .idle } :=
    .of_tick rfl rfl rfl rfl rfl
  refine ⟨Nat.lt_succ_of_lt right.marked, ?_, later.clean rfl rfl right.clean, ?_, fun i => ?_⟩
  · cases forced with
    | false => exact done
    | true => exact Nat.max_le.mpr ⟨done, thread⟩
  · dsimp only
    rcases next _ rfl with there | there <;> rw [there] <;> trivial
  · refine later.call (right.calls i) fun ticket called _ _ ahead => ⟨?_, ?_, ?_⟩
    · cases forced with
      | false => exact ahead.short
      | true => exact Nat.max_lt.mpr ⟨ahead.short, ahead.ended asked ended⟩
    · intro asked' there
      rcases next _ there with impossible | impossible <;> cases impossible
    · intro asked' attempt there
      rcases next _ there with impossible | impossible <;> cases impossible

theorem right_endInline [DecidableEq ι] {i : ι} {called : Nat} {attempt : FlushAttempt}
    (right : WriterRight dropped w) (at_ : w.calls i = .writing called attempt) :
    WriterRight dropped ((w.attempted attempt result).setCall i (.wrote called result)) := by
  have this := right.calls i
  rw [at_] at this
  obtain ⟨clock, marked, ask, done, thread, calls⟩ := attempted_keeps w attempt result
  have written := attempted_later w attempt result
  have later : Later w ((w.attempted attempt result).setCall i (.wrote called result)) :=
    ⟨written.clock, written.asked, written.succeeded, written.marks⟩
  refine ⟨?_, ?_, attempted_clean right.clean this.2, ?_, calls_update (fun j => ?_) ?_⟩
  · have before := right.marked
    dsimp only [WriteBehindWriter.setCall]
    omega
  · have before := right.done
    dsimp only [WriteBehindWriter.setCall]
    omega
  · show FlusherRight _ (w.attempted attempt result).thread
    rw [thread]
    exact later.thread right.thread
  · rw [calls]
    exact later.call (right.calls j) fun _ _ _ _ ahead => ahead.of_same done thread
  · exact fun ok => attempted_written ok this.1

variable [DecidableEq ι] {event : WriterEvent ι E}

omit [DecidableEq ι] in
theorem WriterRight.of_stop (right : WriterRight dropped w) (stop : Bool) :
    WriterRight dropped { w.tick with stop := stop } := by
  have later : Later w { w.tick with stop := stop } := .of_tick rfl rfl rfl rfl rfl
  refine ⟨Nat.lt_succ_of_lt right.marked, right.done, later.clean rfl rfl right.clean,
    later.thread right.thread, fun i => ?_⟩
  exact later.call (right.calls i) fun _ _ _ _ ahead => ahead.of_same rfl rfl

theorem writerStep_right (step : WriterStep w event t) (right : WriterRight dropped w) :
    WriterRight dropped t := by
  cases step with
  | start dead => exact right.of_thread rfl rfl rfl rfl rfl rfl rfl rfl nofun nofun trivial
  | stop => exact right.of_stop true
  | mark => exact right_mark right
  | @enter i idle alive => exact right_enter right i
  | @enterInline i idle dead => exact right.of_call i _ (Nat.lt_succ_self _)
  | refuse idle dead => exact right.of_stop w.stop
  | take idle due => exact right.of_thread rfl rfl rfl rfl rfl rfl rfl rfl nofun nofun le_rfl
  | begin_ taken => exact right_begin right taken
  | endWrite inside => exact right_endWrite right inside
  | finish ended => exact right_finish right ended
  | leave idle quiet asked clean =>
    exact right.of_thread rfl rfl rfl rfl rfl rfl rfl rfl nofun nofun trivial
  | gone left => exact right.of_thread rfl rfl rfl rfl rfl rfl rfl rfl nofun nofun trivial
  | @beginInline i called at_ =>
    have this := right.calls i
    rw [at_] at this
    exact right.of_call i _ ⟨this, le_rfl, Nat.lt_succ_self _, fun _ => right.marked⟩
  | endInline at_ => exact right_endInline right at_
  | @return_ i ready clear => exact right.of_call i _ trivial
  | @raise i e ready failed => exact right.of_call i _ trivial
  | @timeout i ticket called result at_ short => exact right.of_call i _ trivial

def FailureKept (w : WriteBehindWriter ι E) : Prop :=
  ∀ i, (w.calls i).Failed → w.error ≠ none

theorem not_failed {call : FlushCall E}
    (waiting : ∀ ticket called e, call ≠ .waiting ticket called (some (some e)))
    (wrote : ∀ called e, call ≠ .wrote called (some e)) : ¬ call.Failed := by
  intro failed
  rcases failed with ⟨ticket, called, e, same⟩ | ⟨called, e, same⟩
  · exact waiting ticket called e same
  · exact wrote called e same

theorem failed_update {i j : ι} {call : FlushCall E}
    (failed : (update calls i call j).Failed) : (calls j).Failed ∨ call.Failed := by
  by_cases here : j = i
  · rw [here, update_self] at failed
    exact .inr failed
  · rw [update_of_ne here] at failed
    exact .inl failed

omit [DecidableEq ι] in
theorem failed_settle {call : FlushCall E}
    (failed : (WriteBehindWriter.settle asked result call).Failed) :
    call.Failed ∨ result ≠ none := by
  unfold WriteBehindWriter.settle at failed
  split at failed
  · refine .inr fun ok => ?_
    subst ok
    rcases failed with ⟨ticket, called, e, same⟩ | ⟨_, _, impossible⟩
    · obtain ⟨_, _, known⟩ := FlushCall.waiting.inj same
      split at known <;> cases known
    · cases impossible
  · exact .inl failed

theorem FailureKept.of_call (kept : FailureKept w) {i : ι} {call : FlushCall E}
    (fine : ¬ call.Failed) : FailureKept (w.tick.setCall i call) := by
  intro j failed
  rcases failed_update failed with before | now
  · exact kept j before
  · exact absurd now fine

theorem writerStep_kept (step : WriterStep w event t) (careful : ReadFirst w event)
    (kept : FailureKept w) : FailureKept t := by
  cases step with
  | start dead => exact kept
  | stop => exact kept
  | mark => exact kept
  | @enter i idle alive =>
    intro j failed
    rcases failed_update failed with before | now
    · exact absurd before (careful rfl j)
    · exact absurd now (not_failed nofun nofun)
  | enterInline idle dead => exact kept.of_call (not_failed nofun nofun)
  | refuse idle dead => exact kept
  | take idle due => exact kept
  | begin_ taken => exact kept
  | @endWrite forced asked attempt result inside =>
    intro j failed
    rw [attempted_error]
    intro ok
    have calm := careful (by rw [ok]; rfl)
    cases forced with
    | false => exact calm j failed
    | true =>
      rcases failed_settle failed with before | bad
      · exact calm j before
      · exact bad ok
  | finish ended => exact kept
  | leave idle quiet asked clean => exact kept
  | gone left => exact kept
  | beginInline at_ => exact kept.of_call (not_failed nofun nofun)
  | @endInline i called attempt result at_ =>
    intro j failed
    dsimp only [WriteBehindWriter.setCall] at failed ⊢
    rw [attempted_error]
    intro ok
    rw [(attempted_keeps w attempt result).2.2.2.2.2] at failed
    rcases failed_update failed with before | now
    · exact careful (by rw [ok]; rfl) j before
    · subst ok
      exact absurd now (not_failed nofun nofun)
  | return_ ready clear => exact kept.of_call (not_failed nofun nofun)
  | raise ready failed => exact kept.of_call (not_failed nofun nofun)
  | timeout at_ short => exact kept.of_call (not_failed nofun nofun)

theorem right_return (step : WriterStep w event t) (right : WriterRight dropped w)
    (kept : FailureKept w) : RightReturn w event := by
  cases step with
  | @return_ i ready clear =>
    have fine : ¬ (w.calls i).Failed := fun failed => kept i failed clear
    refine ⟨?_, fine⟩
    have call := right.calls i
    cases at_ : w.calls i with
    | out =>
      rw [at_] at ready
      cases ready
    | entered called =>
      rw [at_] at ready
      cases ready
    | writing called attempt =>
      rw [at_] at ready
      cases ready
    | wrote called result =>
      rw [at_] at call fine
      cases result with
      | none => exact call rfl
      | some e => exact absurd (.inr ⟨called, e, rfl⟩) fine
    | waiting ticket called result =>
      rw [at_] at call fine ready
      obtain ⟨_, _, unknown, good⟩ := call
      cases result with
      | none =>
        have covered : ticket ≤ w.forceDone := of_decide_eq_true ready
        exact absurd (unknown rfl).short (Nat.not_lt.mpr covered)
      | some ended =>
        cases ended with
        | none => exact good rfl
        | some e => exact absurd (.inl ⟨ticket, called, e, rfl⟩) fine
  | _ => trivial

def CarefulStep (w : WriteBehindWriter ι E) (event : WriterEvent ι E)
    (t : WriteBehindWriter ι E) : Prop := WriterStep w event t ∧ ReadFirst w event

omit [DecidableEq ι] in
theorem new_right : WriterRight 0 (WriteBehindWriter.new (ι := ι) (E := E)) :=
  ⟨Nat.zero_lt_one, le_rfl, fun _ => .inl le_rfl, trivial, fun _ => trivial⟩

/-- Where every caller reads the error slot of its failure, a flush returns only behind a write that
began after the call and succeeded; the flag is clean only behind a write that began after the last
mark. -/
theorem flush_means_written {log : List (WriterEvent ι E)} (run : Run CarefulStep .new log w) :
    CleanWritten w ∧ ∀ event t, WriterStep w event t → RightReturn w event := by
  have both : WriterRight 0 w ∧ FailureKept w := by
    refine run.invariant (I := fun w => WriterRight 0 w ∧ FailureKept w)
      ⟨new_right, fun _ failed => absurd failed (not_failed nofun nofun)⟩ ?_
    intro w event t known taken
    exact ⟨writerStep_right taken.1 known.1, writerStep_kept taken.1 taken.2 known.2⟩
  refine ⟨fun clean => ?_, fun event t step => right_return step both.1 both.2⟩
  exact (both.1.clean clean).imp_left Nat.le_zero.mp

theorem flush_means_written_once :
    ∃ w : WriteBehindWriter Bool Unit,
      Run CarefulStep .new [.start, .mark, .enter false, .take, .begin_, .endWrite none, .finish] w ∧
        w.dirty = false ∧ CleanWritten w ∧
        ∀ event t, WriterStep w event t → RightReturn w event := by
  have run : Run CarefulStep (.new : WriteBehindWriter Bool Unit) [] .new := .start
  have run := run.next ⟨.start rfl, nofun⟩
  have run := run.next ⟨.mark, nofun⟩
  have run := run.next ⟨@WriterStep.enter Bool Unit _ _ false rfl nofun,
    fun _ i => not_failed nofun nofun⟩
  have run := run.next ⟨.take rfl (.inl rfl), nofun⟩
  have run := run.next ⟨.begin_ rfl, nofun⟩
  have run := run.next ⟨@WriterStep.endWrite Bool Unit _ _ _ _ _ none rfl, fun _ i => by
    cases i <;> exact not_failed nofun nofun⟩
  have run := run.next ⟨.finish rfl, nofun⟩
  exact ⟨_, run, rfl, flush_means_written run⟩

/-- Two callers, one of whom enters between the failure of the other's write and the reading of
it: the first returns though no write ever ended well. -/
theorem flush_failure_cleared :
    ¬ ∀ (log : List (WriterEvent Bool Unit)) w, Run WriterStep .new log w →
      CleanWritten w ∧ ∀ event t, WriterStep w event t → RightReturn w event := by
  intro claim
  have run : Run WriterStep (.new : WriteBehindWriter Bool Unit) [] .new := .start
  have run := run.next (.start rfl)
  have run := run.next (@WriterStep.enter Bool Unit _ _ false rfl nofun)
  have run := run.next (.take rfl (.inl rfl))
  have run := run.next (.begin_ rfl)
  have run := run.next (@WriterStep.endWrite Bool Unit _ _ _ _ _ (some ()) rfl)
  have run := run.next (.finish rfl)
  have run := run.next (@WriterStep.enter Bool Unit _ _ true rfl nofun)
  have right := (claim _ _ run).2 _ _ (@WriterStep.return_ Bool Unit _ _ false rfl rfl)
  obtain ⟨began, member, _⟩ := right.1
  cases member

omit [DecidableEq ι] in
theorem WriterRight.of_drop (right : WriterRight dropped w) (stop : Bool) :
    WriterRight w.clock { w.tick with dirty := false, stop := stop } := by
  have later : Later w { w.tick with dirty := false, stop := stop } :=
    .of_tick rfl rfl rfl rfl rfl
  refine ⟨Nat.lt_succ_of_lt right.marked, right.done, fun _ => .inl right.marked.le,
    later.thread right.thread, fun i => ?_⟩
  exact later.call (right.calls i) fun _ _ _ _ ahead => ahead.of_same rfl rfl

theorem droppingStep_right {s u : DroppingWriter ι E} {call : WriterCall ι E}
    (step : DroppingStep s call u) (right : WriterRight s.dropped s.writer) :
    WriterRight u.dropped u.writer := by
  cases step with
  | plain taken => exact writerStep_right taken right
  | clearDirty => exact right.of_drop _
  | stopUnflushed => exact right.of_drop true

/-- Whatever failed before, and whoever has read it. -/
theorem clean_means_written {log : List (WriterCall ι E)} {s : DroppingWriter ι E}
    (run : Run DroppingStep .new log s) : CleanSince s.dropped s.writer :=
  (run.invariant (I := fun s => WriterRight s.dropped s.writer) new_right
    fun _ _ _ known taken => droppingStep_right taken known).clean

theorem clean_means_written_dropped : ∃ s : DroppingWriter Bool Unit,
    Run DroppingStep .new [.plain .start, .plain .mark, .clearDirty, .plain .mark, .plain .take,
      .plain .begin_, .plain (.endWrite none)] s ∧
    s.writer.dirty = false ∧ s.dropped < s.writer.marked ∧ CleanSince s.dropped s.writer := by
  have run : Run DroppingStep (.new : DroppingWriter Bool Unit) [] .new := .start
  have run := ((run.next (.plain (.start rfl))).next (.plain .mark)).next .clearDirty
  have run := (run.next (.plain .mark)).next (.plain (.take rfl (.inr rfl)))
  have run := (run.next (.plain (.begin_ rfl))).next
    (.plain (@WriterStep.endWrite Bool Unit _ _ _ _ _ none rfl))
  exact ⟨_, run, rfl, by decide, clean_means_written run⟩

end Properties

end PerfStats.Archive
