import PerfStats.JobStore.DeadLetters
import PerfStats.Lib.Keyed
import PerfStats.Lib.Runs

namespace PerfStats.JobStore

open Lib

section Stored

inductive StoredLetter where
  | cooled (letter : DeadLetter)
  | legacy (key : JobKey) (attempt : Nat) (reason : Str) (recordedAt firstRecordedAt : ℚ)
deriving DecidableEq

def nonFatalDeadLetterReasons : List Str :=
  [lit "skip_cgroup_headroom", lit "skip_budget_bytes", lit "skip_file_cache_pressure",
    lit "skip_fp", lit "fp_refresh"]

variable (cooldowns : Cooldowns)

def normalizeDeadLetterEntry : StoredLetter → DeadLetter
  | .cooled letter => letter
  | .legacy key attempt reason recordedAt firstRecordedAt =>
    let env := Text.startsWith (lit "env:") reason
    { key, attempt, reason, recordedAt, firstRecordedAt, env
      cycle := 1
      terminal := false
      readmitAt := some (if reason ∈ nonFatalDeadLetterReasons then recordedAt
        else recordedAt + (deadLetterSchedule cooldowns env).headD 0) }

def loadDeadLetterEntries (entries : List StoredLetter) : List DeadLetter :=
  entries.map (normalizeDeadLetterEntry cooldowns)

end Stored

section Upsert

structure GiveUp where
  key : JobKey
  attempt : Nat
  reason : Str
  env : Bool
  maxEntries : Nat
deriving DecidableEq

variable (cooldowns : Cooldowns)

def storedLetter (prior : Option DeadLetter) (call : GiveUp) (now : ℚ) : DeadLetter :=
  let letter := nextDeadLetter cooldowns prior call.key call.attempt call.reason now
  let env := call.env || letter.env
  let schedule := deadLetterSchedule cooldowns env
  { letter with
    env
    terminal := decide (schedule.length < letter.cycle)
    readmitAt := (schedule[letter.cycle - 1]?).map (now + ·) }

/-- `entries[-n:]`, which is the whole list for zero. -/
def lastEntries (n : Nat) (letters : List DeadLetter) : List DeadLetter :=
  if n = 0 then letters else letters.drop (letters.length - n)

def trimTo (maxEntries : Nat) (letters : List DeadLetter) : List DeadLetter :=
  if letters.length ≤ maxEntries then letters
  else
    let kept := dropTerminal (letters.length - maxEntries) letters
    if kept.length ≤ maxEntries then kept else lastEntries maxEntries kept

def GiveUp.letter (call : GiveUp) (letters : List DeadLetter) (now : ℚ) : DeadLetter :=
  storedLetter cooldowns (letters.find? (isDeadLetter call.key)) call now

def upsertLetter (letters : List DeadLetter) (call : GiveUp) (now : ℚ) : List DeadLetter :=
  trimTo call.maxEntries
    (letters.eraseP (isDeadLetter call.key) ++ [call.letter cooldowns letters now])

end Upsert

section Readmission

def deadLetterIndex (letters : List DeadLetter) : Dict JobKey DeadLetter :=
  letters.foldl (fun index letter => index.set letter.key letter) .empty

/-- `float(entry.get("readmitted_at") or -1.0)`. -/
def DeadLetter.readmitted (letter : DeadLetter) : ℚ :=
  match letter.readmittedAt with
  | none => -1
  | some at_ => if at_ = 0 then -1 else at_

def DeadLetter.due (letter : DeadLetter) (now : ℚ) : Bool :=
  !letter.terminal && decide (letter.readmitAt.getD 0 ≤ now) &&
    decide (letter.readmitted < letter.readmitAt.getD 0)

def dueDeadLetterReadmissions (letters : List DeadLetter) (now : ℚ) (limit : Int) :
    List DeadLetter :=
  (sortBy (fun letter => letter.readmitAt.getD 0)
    (((deadLetterIndex letters).entries.map Prod.snd).filter (·.due now))).take limit.toNat

def markDeadLettersReadmitted (letters : List DeadLetter) (keys : List JobKey) (now : ℚ) :
    List DeadLetter :=
  letters.map fun letter =>
    if letter.key ∈ keys then { letter with readmittedAt := some now } else letter

theorem deadLetterIndex_get? (letters : List DeadLetter) (key : JobKey) :
    (deadLetterIndex letters).get? key = letters.reverse.find? (isDeadLetter key) := by
  induction letters using List.reverseRecOn with
  | nil => rfl
  | append_singleton letters letter ih =>
    rw [deadLetterIndex, List.foldl_append]
    change ((deadLetterIndex letters).set letter.key letter).get? key = _
    rw [Dict.get?_set, List.reverse_append, List.reverse_singleton, List.singleton_append,
      List.find?_cons, ih]
    by_cases own : letter.key = key
    · simp [isDeadLetter, own]
    · simp [isDeadLetter, own, Ne.symm own]

theorem mem_of_due {letters : List DeadLetter} {now : ℚ} {limit : Int} {letter : DeadLetter}
    (member : letter ∈ dueDeadLetterReadmissions letters now limit) :
    letter ∈ letters ∧ letter.due now = true := by
  have sorted := (sortBy_perm _ _).mem_iff.mp (List.mem_of_mem_take member)
  obtain ⟨listed, due⟩ := List.mem_filter.mp sorted
  refine ⟨?_, due⟩
  obtain ⟨⟨key, value⟩, entry, rfl⟩ := List.mem_map.mp listed
  have found : (deadLetterIndex letters).get? key = some value := Dict.get?_eq_some.mpr entry
  rw [deadLetterIndex_get?] at found
  exact List.mem_reverse.mp (List.mem_of_find?_eq_some found)

end Readmission

section Ledger

structure Ledger where
  letters : List DeadLetter
  clock : ℚ
deriving DecidableEq

inductive LedgerEvent where
  | upsert (call : GiveUp)
  /-- Those of the due entries that `choose` picks are queued again and marked. -/
  | readmission (limit : Int) (choose : JobKey → Bool)
  | advance (seconds : ℚ≥0)

variable (cooldowns : Cooldowns)

def Ledger.readmitted (ledger : Ledger) (limit : Int) (choose : JobKey → Bool) : List JobKey :=
  ((dueDeadLetterReadmissions ledger.letters ledger.clock limit).map DeadLetter.key).filter choose

def Ledger.step (ledger : Ledger) : LedgerEvent → Ledger
  | .upsert call => { ledger with letters := upsertLetter cooldowns ledger.letters call ledger.clock }
  | .readmission limit choose =>
    { ledger with
      letters := markDeadLettersReadmitted ledger.letters (ledger.readmitted limit choose)
        ledger.clock }
  | .advance seconds => { ledger with clock := ledger.clock + seconds }

structure Sound (ledger : Ledger) : Prop where
  distinct : (ledger.letters.map DeadLetter.key).Nodup
  ordered : ledger.letters.Pairwise (·.recordedAt ≤ ·.recordedAt)
  past : ∀ letter ∈ ledger.letters, letter.recordedAt ≤ ledger.clock
  begun : 0 < ledger.clock

end Ledger

section Trim

variable {letters : List DeadLetter} {letter : DeadLetter}

theorem dropTerminal_append (n : Nat) (front back : List DeadLetter) :
    dropTerminal n (front ++ back) =
      dropTerminal n front ++ dropTerminal (n - front.countP (·.terminal)) back := by
  induction front generalizing n with
  | nil => cases n <;> rfl
  | cons letter front ih =>
    cases n with
    | zero => simp [dropTerminal]
    | succ n =>
      rw [List.cons_append, dropTerminal, dropTerminal, List.countP_cons]
      cases last : letter.terminal with
      | true =>
        simp only [if_true]
        rw [ih n, Nat.add_sub_add_right]
      | false =>
        simp only [Bool.false_eq_true, if_false, Nat.add_zero]
        rw [ih (n + 1), List.cons_append]

theorem dropTerminal_singleton (n : Nat) (letter : DeadLetter) :
    dropTerminal n [letter] = if letter.terminal = true ∧ 0 < n then [] else [letter] := by
  cases n with
  | zero => simp [dropTerminal]
  | succ n =>
    rw [dropTerminal]
    cases letter.terminal with
    | true => cases n <;> rfl
    | false => rfl

theorem mem_dropTerminal {n : Nat} (member : letter ∈ letters) (live : letter.terminal = false) :
    letter ∈ dropTerminal n letters := by
  induction letters generalizing n with
  | nil => exact absurd member List.not_mem_nil
  | cons first rest ih =>
    cases n with
    | zero => exact member
    | succ n =>
      rw [dropTerminal]
      cases List.mem_cons.mp member with
      | inl here =>
        rw [← here, live]
        exact .head _
      | inr later =>
        split
        · exact ih later
        · exact .tail _ (ih later)

theorem lastEntries_suffix (n : Nat) (letters : List DeadLetter) :
    lastEntries n letters <:+ letters := by
  unfold lastEntries
  split
  · exact List.suffix_rfl
  · exact List.drop_suffix _ _

theorem mem_lastEntries (n : Nat) (letters : List DeadLetter) (letter : DeadLetter) :
    letter ∈ lastEntries n (letters ++ [letter]) := by
  unfold lastEntries
  split
  · exact List.mem_append_right _ (List.mem_singleton.mpr rfl)
  · next some_ =>
      rw [List.drop_append_of_le_length (by rw [List.length_append, List.length_singleton]; omega)]
      exact List.mem_append_right _ (List.mem_singleton.mpr rfl)

theorem trimTo_sublist (maxEntries : Nat) (letters : List DeadLetter) :
    (trimTo maxEntries letters).Sublist letters := by
  unfold trimTo
  split
  · exact List.Sublist.refl _
  · dsimp only
    split
    · exact dropTerminal_sublist _ _
    · exact (lastEntries_suffix _ _).sublist.trans (dropTerminal_sublist _ _)

theorem mem_trimTo (apart : letter ∉ letters) (maxEntries : Nat) :
    letter ∈ trimTo maxEntries (letters ++ [letter]) ↔
      (letter.terminal = true →
        letters.length + 1 - maxEntries ≤ letters.countP (·.terminal)) := by
  have size : (letters ++ [letter]).length = letters.length + 1 := by simp
  unfold trimTo
  rw [size]
  split
  · next short =>
      have room : letters.length + 1 - maxEntries = 0 := by omega
      rw [room]
      exact iff_of_true (List.mem_append_right _ (List.mem_singleton.mpr rfl))
        fun _ => Nat.zero_le _
  · dsimp only
    rw [dropTerminal_append, dropTerminal_singleton]
    by_cases dropped : letter.terminal = true ∧
        0 < letters.length + 1 - maxEntries - letters.countP (·.terminal)
    · rw [if_pos dropped, List.append_nil]
      refine iff_of_false (fun member => apart ?_) fun few => ?_
      · have inside : letter ∈ dropTerminal (letters.length + 1 - maxEntries) letters := by
          split at member
          · exact member
          · exact (lastEntries_suffix _ _).subset member
        exact (dropTerminal_sublist _ _).subset inside
      · have := few dropped.1
        omega
    · rw [if_neg dropped]
      refine iff_of_true ?_ fun terminal => ?_
      · split
        · exact List.mem_append_right _ (List.mem_singleton.mpr rfl)
        · exact mem_lastEntries _ _ _
      · by_contra many
        exact dropped ⟨terminal, by omega⟩

theorem trimTo_front {maxEntries : Nat} {dropped kept : DeadLetter}
    (ordered : letters.Pairwise (·.recordedAt ≤ ·.recordedAt)) (member : dropped ∈ letters)
    (live : dropped.terminal = false) (gone : dropped ∉ trimTo maxEntries letters)
    (stays : kept ∈ trimTo maxEntries letters) : dropped.recordedAt ≤ kept.recordedAt := by
  unfold trimTo at gone stays
  split at gone
  · exact absurd member gone
  · next long =>
      rw [if_neg long] at stays
      dsimp only at gone stays
      have inside := mem_dropTerminal (n := letters.length - maxEntries) member live
      split at gone
      · exact absurd inside gone
      · next many =>
          rw [if_neg many] at stays
          obtain ⟨front, split⟩ := lastEntries_suffix maxEntries
            (dropTerminal (letters.length - maxEntries) letters)
          have sorted := ordered.sublist (dropTerminal_sublist (letters.length - maxEntries) letters)
          rw [← split] at sorted inside
          cases List.mem_append.mp inside with
          | inl front_ => exact (List.pairwise_append.mp sorted).2.2 dropped front_ kept stays
          | inr back => exact absurd back gone

end Trim

section Steps

variable {cooldowns : Cooldowns} {ledger : Ledger} {letter : DeadLetter} {letters : List DeadLetter}

theorem same_letter (sound : Sound ledger) {other : DeadLetter} (inside : letter ∈ ledger.letters)
    (inside' : other ∈ ledger.letters) (same : letter.key = other.key) : letter = other :=
  List.inj_on_of_nodup_map sound.distinct inside inside' same

variable {key : JobKey} {call : GiveUp}

theorem others_apart (distinct : (letters.map DeadLetter.key).Nodup)
    (member : letter ∈ letters.eraseP (isDeadLetter key)) : letter.key ≠ key := by
  induction letters with
  | nil => exact absurd member List.not_mem_nil
  | cons first rest ih =>
    rw [List.map_cons, List.nodup_cons] at distinct
    rw [List.eraseP_cons, Bool.cond_eq_ite] at member
    split at member
    · next own =>
        intro same
        apply distinct.1
        rw [of_decide_eq_true own, ← same]
        exact List.mem_map_of_mem member
    · next apart =>
        cases List.mem_cons.mp member with
        | inl here =>
          rw [here]
          simpa [isDeadLetter] using apart
        | inr later => exact ih distinct.2 later

theorem letter_key (call : GiveUp) (letters : List DeadLetter) (now : ℚ) :
    (call.letter cooldowns letters now).key = call.key := rfl

theorem letter_notMem (sound : Sound ledger) : call.letter cooldowns ledger.letters ledger.clock ∉
      ledger.letters.eraseP (isDeadLetter call.key) :=
  fun member => others_apart sound.distinct member (letter_key call _ _)

theorem mem_upsert (sound : Sound ledger)
    (member : letter ∈ upsertLetter cooldowns ledger.letters call ledger.clock) :
    letter = call.letter cooldowns ledger.letters ledger.clock ∨
      (letter ∈ ledger.letters ∧ letter.key ≠ call.key) := by
  cases List.mem_append.mp ((trimTo_sublist _ _).subset member) with
  | inl old => exact .inr ⟨List.mem_of_mem_eraseP old, others_apart sound.distinct old⟩
  | inr new => exact .inl (List.mem_singleton.mp new)

theorem upsert_sound {call : GiveUp} (sound : Sound ledger) :
    Sound { ledger with letters := upsertLetter cooldowns ledger.letters call ledger.clock } := by
  have new_past : (call.letter cooldowns ledger.letters ledger.clock).recordedAt = ledger.clock := rfl
  have fewer : (ledger.letters.eraseP (isDeadLetter call.key)).Sublist ledger.letters :=
    List.eraseP_sublist
  have kept := trimTo_sublist call.maxEntries (ledger.letters.eraseP (isDeadLetter call.key) ++
    [call.letter cooldowns ledger.letters ledger.clock])
  refine ⟨?_, ?_, ?_, sound.begun⟩
  · apply List.Nodup.sublist (kept.map DeadLetter.key)
    rw [List.map_append, List.map_singleton, letter_key]
    refine List.nodup_append.mpr ⟨sound.distinct.sublist (fewer.map _), List.nodup_singleton _, ?_⟩
    intro key member other single
    obtain ⟨letter, inside, rfl⟩ := List.mem_map.mp member
    rw [List.mem_singleton.mp single]
    exact others_apart sound.distinct inside
  · apply List.Pairwise.sublist kept
    refine List.pairwise_append.mpr ⟨sound.ordered.sublist fewer, List.pairwise_singleton _ _, ?_⟩
    intro letter inside other single
    rw [List.mem_singleton.mp single, new_past]
    exact sound.past letter (fewer.subset inside)
  · intro letter member
    cases mem_upsert sound member with
    | inl new =>
      rw [new]
      exact new_past.le
    | inr old => exact sound.past letter old.1

theorem mem_mark {keys : List JobKey} {now : ℚ}
    (member : letter ∈ markDeadLettersReadmitted letters keys now) :
    ∃ old ∈ letters, letter = if old.key ∈ keys then { old with readmittedAt := some now }
      else old := by
  obtain ⟨old, inside, same⟩ := List.mem_map.mp member
  exact ⟨old, inside, same.symm⟩

theorem mark_sound (sound : Sound ledger) (keys : List JobKey) :
    Sound { ledger with letters := markDeadLettersReadmitted ledger.letters keys ledger.clock } := by
  have key_kept : ∀ old : DeadLetter,
      (if old.key ∈ keys then { old with readmittedAt := some ledger.clock } else old).key =
        old.key := by
    intro old
    split <;> rfl
  have time_kept : ∀ old : DeadLetter,
      (if old.key ∈ keys then { old with readmittedAt := some ledger.clock } else old).recordedAt =
        old.recordedAt := by
    intro old
    split <;> rfl
  refine ⟨?_, ?_, ?_, sound.begun⟩
  · change ((ledger.letters.map _).map DeadLetter.key).Nodup
    rw [List.map_map]
    have same : DeadLetter.key ∘ (fun old : DeadLetter =>
        if old.key ∈ keys then { old with readmittedAt := some ledger.clock } else old) =
          DeadLetter.key := funext key_kept
    rw [same]
    exact sound.distinct
  · apply List.pairwise_map.mpr
    refine sound.ordered.imp fun {a b} below => ?_
    rw [time_kept, time_kept]
    exact below
  · intro letter member
    obtain ⟨old, inside, rfl⟩ := mem_mark member
    rw [time_kept]
    exact sound.past old inside

theorem step_sound (sound : Sound ledger) (event : LedgerEvent) :
    Sound (ledger.step cooldowns event) := by
  cases event with
  | upsert call => exact upsert_sound sound
  | readmission limit choose => exact mark_sound sound _
  | advance seconds =>
    have later : ledger.clock ≤ ledger.clock + seconds :=
      le_add_of_nonneg_right (NNRat.cast_nonneg _)
    exact ⟨sound.distinct, sound.ordered, fun letter inside => (sound.past letter inside).trans later,
      sound.begun.trans_le later⟩

def DeadLetter.Cooling (letter : DeadLetter) (now : ℚ) : Prop :=
  letter.terminal = false ∧ now < letter.readmitAt.getD 0

def DeadLetter.Expired (letter : DeadLetter) (now : ℚ) : Prop :=
  letter.terminal = false ∧ letter.readmitAt.getD 0 ≤ now

def LedgerEvent.Fails (event : LedgerEvent) (key : JobKey) : Prop :=
  match event with
  | .upsert call => call.key = key
  | _ => False

variable (cooldowns) in
structure Right (ledger : Ledger) (event : LedgerEvent) : Prop where
  cycles : ∀ letter ∈ ledger.letters, ∀ next ∈ (ledger.step cooldowns event).letters,
    next.key = letter.key →
      letter.cycle ≤ next.cycle ∧ (event.Fails letter.key → letter.cycle < next.cycle)
  blocked : ∀ letter ∈ (ledger.step cooldowns event).letters, letter.key.2 ≠ [] →
    letter.terminal = false →
      (deadLetterBlocked (ledger.step cooldowns event).letters letter.key
          (ledger.step cooldowns event).clock = true ↔
        (ledger.step cooldowns event).clock < letter.readmitAt.getD 0)
  stored : ∀ call, event = .upsert call →
    call.letter cooldowns ledger.letters ledger.clock ∈ (ledger.step cooldowns event).letters
  trimmed : ∀ call, event = .upsert call → ∀ dropped ∈ ledger.letters, dropped.key ≠ call.key →
    dropped ∉ (ledger.step cooldowns event).letters → dropped.Cooling ledger.clock →
      ∀ kept ∈ (ledger.step cooldowns event).letters, kept.Expired ledger.clock →
        ¬ kept.recordedAt < dropped.recordedAt

variable (cooldowns) in
def Fits (ledger : Ledger) (event : LedgerEvent) : Prop :=
  match event with
  | .upsert call =>
    let others := ledger.letters.eraseP (isDeadLetter call.key)
    (call.letter cooldowns ledger.letters ledger.clock).terminal = true →
      others.length + 1 - call.maxEntries ≤ others.countP (·.terminal)
  | _ => True

theorem find_own
    (unique : ∀ other ∈ letters, other.key = letter.key → other = letter)
    (inside : letter ∈ letters) : letters.find? (isDeadLetter letter.key) = some letter := by
  have some_ : (letters.find? (isDeadLetter letter.key)).isSome = true := by
    rw [List.find?_isSome]
    exact ⟨letter, inside, decide_eq_true rfl⟩
  obtain ⟨found, here⟩ := Option.isSome_iff_exists.mp some_
  have own := List.find?_some here
  rw [here, unique found (List.mem_of_find?_eq_some here) (of_decide_eq_true own)]

instance (cooldowns : Cooldowns) (ledger : Ledger) (event : LedgerEvent) :
    Decidable (Fits cooldowns ledger event) :=
  match event with
  | .upsert _ => inferInstanceAs (Decidable (_ → _))
  | .readmission _ _ => isTrue trivial
  | .advance _ => isTrue trivial

theorem step_cycles (sound : Sound ledger) {event : LedgerEvent} {next : DeadLetter}
    (inside : letter ∈ ledger.letters) (later : next ∈ (ledger.step cooldowns event).letters)
    (same : next.key = letter.key) :
    letter.cycle ≤ next.cycle ∧ (event.Fails letter.key → letter.cycle < next.cycle) := by
  cases event with
  | upsert call =>
    cases mem_upsert sound later with
    | inl new =>
      have own : letter.key = call.key := by
        rw [← same, new]
        rfl
      have found : ledger.letters.find? (isDeadLetter call.key) = some letter := by
        rw [← own]
        exact find_own (fun other member same => same_letter sound member inside same) inside
      have counted : next.cycle = letter.cycle + 1 := by
        rw [new]
        change (ledger.letters.find? (isDeadLetter call.key)).elim 0 DeadLetter.cycle + 1 = _
        rw [found]
        rfl
      rw [counted]
      exact ⟨Nat.le_succ _, fun _ => Nat.lt_succ_self _⟩
    | inr old =>
      rw [same_letter sound inside old.1 same.symm]
      exact ⟨le_rfl, fun fails => absurd fails.symm old.2⟩
  | readmission limit choose =>
    obtain ⟨old, inside', rfl⟩ := mem_mark later
    have cycle_kept : (if old.key ∈ ledger.readmitted limit choose then
        { old with readmittedAt := some ledger.clock } else old).cycle = old.cycle := by
      split <;> rfl
    have key_kept : (if old.key ∈ ledger.readmitted limit choose then
        { old with readmittedAt := some ledger.clock } else old).key = old.key := by
      split <;> rfl
    rw [cycle_kept, same_letter sound inside inside' (same.symm.trans key_kept)]
    exact ⟨le_rfl, False.elim⟩
  | advance seconds =>
    rw [same_letter sound inside later same.symm]
    exact ⟨le_rfl, False.elim⟩

theorem blocked_iff (sound : Sound ledger) (inside : letter ∈ ledger.letters)
    (named : letter.key.2 ≠ []) (live : letter.terminal = false) :
    deadLetterBlocked ledger.letters letter.key ledger.clock = true ↔
      ledger.clock < letter.readmitAt.getD 0 := by
  have found : ledger.letters.reverse.find? (isDeadLetter letter.key) = some letter :=
    find_own (fun other member same => same_letter sound (List.mem_reverse.mp member) inside same)
      (List.mem_reverse.mpr inside)
  rw [deadLetterBlocked, if_neg named, found]
  simp [live]

theorem upsert_trimmed (sound : Sound ledger) {dropped kept : DeadLetter}
    (inside : dropped ∈ ledger.letters) (other : dropped.key ≠ call.key)
    (gone : dropped ∉ upsertLetter cooldowns ledger.letters call ledger.clock)
    (cooling : dropped.Cooling ledger.clock)
    (stays : kept ∈ upsertLetter cooldowns ledger.letters call ledger.clock) :
    dropped.recordedAt ≤ kept.recordedAt := by
  have fewer : (ledger.letters.eraseP (isDeadLetter call.key)).Sublist ledger.letters :=
    List.eraseP_sublist
  have ordered : (ledger.letters.eraseP (isDeadLetter call.key) ++
      [call.letter cooldowns ledger.letters ledger.clock]).Pairwise
        (·.recordedAt ≤ ·.recordedAt) := by
    refine List.pairwise_append.mpr ⟨sound.ordered.sublist fewer, List.pairwise_singleton _ _, ?_⟩
    intro letter member new single
    rw [List.mem_singleton.mp single]
    exact sound.past letter (fewer.subset member)
  have member : dropped ∈ ledger.letters.eraseP (isDeadLetter call.key) :=
    (List.mem_eraseP_of_neg (by simpa [isDeadLetter] using other)).mpr inside
  exact trimTo_front ordered (List.mem_append_left _ member) cooling.1 gone stays

def Spent (letters : List DeadLetter) (key : JobKey) : Prop :=
  ∀ letter ∈ letters, letter.key = key → letter.terminal = true ∨
    letter.readmitAt.getD 0 ≤ letter.readmitted

theorem not_due_of_spent (spent : Spent letters key)
    (inside : letter ∈ letters) (own : letter.key = key) (now : ℚ) : letter.due now = false := by
  cases spent letter inside own with
  | inl terminal => simp [DeadLetter.due, terminal]
  | inr passed => simp [DeadLetter.due, not_lt.mpr passed]

theorem not_readmitted_of_spent (spent : Spent ledger.letters key) (limit : Int)
    (choose : JobKey → Bool) : key ∉ ledger.readmitted limit choose := by
  intro member
  obtain ⟨listed, -⟩ := List.mem_filter.mp member
  obtain ⟨letter, due, own⟩ := List.mem_map.mp listed
  obtain ⟨inside, now_due⟩ := mem_of_due due
  rw [not_due_of_spent spent inside own] at now_due
  cases now_due

theorem readmit_spends (sound : Sound ledger) {limit : Int} {choose : JobKey → Bool}
    (chosen : key ∈ ledger.readmitted limit choose) :
    Spent (ledger.step cooldowns (.readmission limit choose)).letters key := by
  obtain ⟨listed, -⟩ := List.mem_filter.mp chosen
  obtain ⟨letter, due, own⟩ := List.mem_map.mp listed
  obtain ⟨inside, now_due⟩ := mem_of_due due
  simp only [DeadLetter.due, Bool.and_eq_true, decide_eq_true_eq] at now_due
  intro marked member marked_own
  obtain ⟨old, inside', rfl⟩ := mem_mark member
  have old_own : old.key = key := by
    rw [← marked_own]
    split <;> rfl
  cases same_letter sound inside inside' (own.trans old_own.symm)
  rw [old_own, if_pos chosen]
  right
  change letter.readmitAt.getD 0 ≤ if ledger.clock = 0 then -1 else ledger.clock
  rw [if_neg sound.begun.ne']
  exact now_due.1.2

theorem spent_step (sound : Sound ledger) (spent : Spent ledger.letters key)
    {event : LedgerEvent} (succeeds : ¬ event.Fails key) :
    Spent (ledger.step cooldowns event).letters key := by
  cases event with
  | upsert call =>
    intro letter member own
    cases mem_upsert sound member with
    | inl new => exact absurd (by rw [← own, new]; rfl) succeeds
    | inr old => exact spent letter old.1 own
  | readmission limit choose =>
    intro marked member marked_own
    obtain ⟨old, inside, rfl⟩ := mem_mark member
    have old_own : old.key = key := by
      rw [← marked_own]
      split <;> rfl
    rw [old_own, if_neg (not_readmitted_of_spent spent limit choose)]
    exact spent old inside old_own
  | advance seconds => exact spent

variable (cooldowns) in
def ReadmittedOnce (start : Ledger) (events : List LedgerEvent) : Prop :=
  ∀ early limit choose middle limit' choose' later key,
    events = early ++ .readmission limit choose :: (middle ++ .readmission limit' choose' :: later) →
    key ∈ (early.foldl (Ledger.step cooldowns) start).readmitted limit choose →
    key ∈ ((early ++ .readmission limit choose :: middle).foldl (Ledger.step cooldowns)
      start).readmitted limit' choose' →
    ∃ event ∈ middle, event.Fails key

theorem spent_run (sound : Sound ledger) (spent : Spent ledger.letters key)
    {events : List LedgerEvent} (succeeds : ∀ event ∈ events, ¬ event.Fails key) :
    Spent (events.foldl (Ledger.step cooldowns) ledger).letters key := by
  induction events generalizing ledger with
  | nil => exact spent
  | cons event rest ih =>
    rw [List.forall_mem_cons] at succeeds
    exact ih (step_sound sound event) (spent_step sound spent succeeds.1) succeeds.2

theorem run_sound (sound : Sound ledger) (events : List LedgerEvent) :
    Sound (events.foldl (Ledger.step cooldowns) ledger) :=
  foldl_kept sound fun _ event sound => step_sound sound event

theorem readmitted_once (sound : Sound ledger) (events : List LedgerEvent) :
    ReadmittedOnce cooldowns ledger events := by
  intro early limit choose middle limit' choose' later key split first second
  by_contra none_
  have succeeds : ∀ event ∈ middle, ¬ event.Fails key :=
    fun event member fails => none_ ⟨event, member, fails⟩
  rw [List.foldl_append, List.foldl_cons] at second
  generalize reached : early.foldl (Ledger.step cooldowns) ledger = state at first second
  have settled : Sound state := reached ▸ run_sound sound early
  have spent : Spent (middle.foldl (Ledger.step cooldowns)
      (state.step cooldowns (.readmission limit choose))).letters key :=
    spent_run (step_sound settled _) (readmit_spends settled first) succeeds
  exact not_readmitted_of_spent spent limit' choose' second

theorem right_iff (sound : Sound ledger) (event : LedgerEvent) :
    Right cooldowns ledger event ↔ Fits cooldowns ledger event := by
  constructor
  · intro right
    cases event with
    | upsert call => exact (mem_trimTo (letter_notMem sound) _).mp (right.stored call rfl)
    | readmission limit choose => trivial
    | advance seconds => trivial
  · intro fits
    refine ⟨fun letter inside next later same => step_cycles sound inside later same,
      fun letter inside named live => blocked_iff (step_sound sound event) inside named live,
      fun call same => ?_, fun call same dropped inside other gone cooling kept stays _ older => ?_⟩
    · subst same
      exact (mem_trimTo (letter_notMem sound) _).mpr fits
    · subst same
      exact absurd older (not_lt.mpr (upsert_trimmed sound inside other gone cooling stays))

end Steps

theorem throughout_right_iff (cooldowns : Cooldowns) {start : Ledger} (sound : Sound start)
    (events : List LedgerEvent) :
    Throughout (Ledger.step cooldowns) (Right cooldowns) start events ↔
      Throughout (Ledger.step cooldowns) (Fits cooldowns) start events :=
  throughout_congr sound (fun _ event sound _ => step_sound sound event)
    fun _ event sound => right_iff sound event

/-- A run does what the ledger promises exactly when every new entry fits. -/
theorem dead_letter_cycles_iff (cooldowns : Cooldowns) (start : Ledger) (sound : Sound start)
    (events : List LedgerEvent) :
    (Throughout (Ledger.step cooldowns) (Right cooldowns) start events ∧
        ReadmittedOnce cooldowns start events) ↔
      Throughout (Ledger.step cooldowns) (Fits cooldowns) start events := by
  rw [throughout_right_iff cooldowns sound]
  exact ⟨And.left, fun fits => ⟨fits, readmitted_once sound events⟩⟩

private def hourly : Cooldowns := ⟨[21600], [3600]⟩

private def lateKey : JobKey := (.ingest, lit "late")

private def failing (key : JobKey) (maxEntries : Nat) : LedgerEvent :=
  .upsert ⟨key, 5, lit "boom", false, maxEntries⟩

private def lateRun : List LedgerEvent :=
  [failing (.ingest, lit "first") 5000, failing lateKey 5000, .advance 7200,
    .readmission 500 fun _ => true]

private def lateLedger : Ledger :=
  ⟨loadDeadLetterEntries hourly [.legacy lateKey 3 (lit "skip_fp") 5 5], 60⟩

theorem dead_letter_cycles_late :
    Throughout (Ledger.step hourly) (Right hourly) lateLedger lateRun ∧
      ReadmittedOnce hourly lateLedger lateRun :=
  (dead_letter_cycles_iff hourly lateLedger
    ⟨by decide, by decide, by decide +kernel, by decide +kernel⟩ lateRun).mpr (by decide +kernel)

theorem dropped_as_stored :
    ¬ Throughout (Ledger.step hourly) (Right hourly) ⟨[], 60⟩
      (lateRun.take 2 ++ [failing lateKey 1]) := by
  have sound : Sound ⟨[], 60⟩ := ⟨by decide, by decide, by decide, by decide +kernel⟩
  rw [throughout_right_iff hourly sound]
  decide +kernel

end PerfStats.JobStore
