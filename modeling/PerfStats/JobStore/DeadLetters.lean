import PerfStats.JobStore.Store

namespace PerfStats.JobStore

section Sidecar

structure DeadLetter where
  key : JobKey
  attempt : Nat
  reason : Str
  recordedAt : ℚ
  firstRecordedAt : ℚ
  cycle : Nat
  env : Bool
  terminal : Bool
  readmitAt : Option ℚ
  readmittedAt : Option ℚ := none
deriving DecidableEq

structure Cooldowns where
  envBackoff : List ℚ
  readmitBackoff : List ℚ

variable (cooldowns : Cooldowns)

def deadLetterSchedule (env : Bool) : List ℚ :=
  if env then cooldowns.envBackoff else cooldowns.readmitBackoff

def isDeadLetter (key : JobKey) (letter : DeadLetter) : Bool := decide (letter.key = key)

def nextDeadLetter (prior : Option DeadLetter) (key : JobKey) (attempt : Nat) (reason : Str)
    (now : ℚ) : DeadLetter :=
  let cycle := prior.elim 0 DeadLetter.cycle + 1
  let env := Text.startsWith (lit "env:") reason
  let schedule := deadLetterSchedule cooldowns env
  { key := key
    attempt := attempt
    reason := reason.take 500
    recordedAt := now
    firstRecordedAt := prior.elim now fun prior =>
      if prior.firstRecordedAt ≠ 0 then prior.firstRecordedAt
      else if prior.recordedAt ≠ 0 then prior.recordedAt
      else now
    cycle := cycle
    env := env
    terminal := decide (schedule.length < cycle)
    readmitAt := (schedule[cycle - 1]?).map (now + ·) }

/-- The list without its first `n` terminal entries. -/
def dropTerminal : Nat → List DeadLetter → List DeadLetter
  | 0, letters => letters
  | _, [] => []
  | n + 1, letter :: rest =>
    if letter.terminal then dropTerminal n rest else letter :: dropTerminal (n + 1) rest

def deadLetterMaxEntries : Nat := 5000

def trimDeadLetters (letters : List DeadLetter) : List DeadLetter :=
  if letters.length ≤ deadLetterMaxEntries then letters
  else
    let kept := dropTerminal (letters.length - deadLetterMaxEntries) letters
    kept.drop (kept.length - deadLetterMaxEntries)

def upsertQueueDeadLetter (letters : List DeadLetter) (key : JobKey) (attempt : Nat)
    (reason : Str) (now : ℚ) : List DeadLetter × DeadLetter :=
  let letter := nextDeadLetter cooldowns (letters.find? (isDeadLetter key)) key attempt reason now
  (trimDeadLetters (letters.eraseP (isDeadLetter key) ++ [letter]), letter)

def deadLetterBlocked (letters : List DeadLetter) (key : JobKey) (now : ℚ) : Bool :=
  if key.2 = [] then false
  else
    match letters.reverse.find? (isDeadLetter key) with
    | none => false
    | some letter => letter.terminal || decide (now < letter.readmitAt.getD 0)

def removeQueueDeadLetter (letters : List DeadLetter) (key : JobKey) : List DeadLetter :=
  if key.2 = [] then letters else letters.filter fun letter => !isDeadLetter key letter

end Sidecar

section Keys

variable {cooldowns : Cooldowns} {letters : List DeadLetter} {key other : JobKey}

def DeadLettered (letters : List DeadLetter) (key : JobKey) : Prop :=
  ∃ letter ∈ letters, letter.key = key

instance (letters : List DeadLetter) (key : JobKey) : Decidable (DeadLettered letters key) :=
  inferInstanceAs (Decidable (∃ letter ∈ letters, letter.key = key))

theorem deadLettered_of_blocked {now : ℚ} (blocked : deadLetterBlocked letters key now = true) :
    DeadLettered letters key := by
  unfold deadLetterBlocked at blocked
  split at blocked
  · cases blocked
  · split at blocked
    · cases blocked
    · next letter found =>
        have member := List.mem_of_find?_eq_some found
        have own := List.find?_some found
        exact ⟨letter, List.mem_reverse.mp member, of_decide_eq_true own⟩

theorem deadLettered_remove (named : key.2 ≠ []) :
    DeadLettered (removeQueueDeadLetter letters key) other ↔
      DeadLettered letters other ∧ other ≠ key := by
  unfold DeadLettered removeQueueDeadLetter
  rw [if_neg named]
  constructor
  · rintro ⟨letter, member, rfl⟩
    obtain ⟨inside, apart⟩ := List.mem_filter.mp member
    exact ⟨⟨letter, inside, rfl⟩, by simpa [isDeadLetter] using apart⟩
  · rintro ⟨⟨letter, inside, rfl⟩, apart⟩
    exact ⟨letter, List.mem_filter.mpr ⟨inside, by simpa [isDeadLetter] using apart⟩, rfl⟩

theorem dropTerminal_sublist (n : Nat) (letters : List DeadLetter) :
    (dropTerminal n letters).Sublist letters := by
  induction letters generalizing n with
  | nil => cases n <;> exact .slnil
  | cons letter rest ih =>
    cases n with
    | zero => exact List.Sublist.refl _
    | succ n =>
      unfold dropTerminal
      split
      · exact (ih n).cons _
      · exact (ih (n + 1)).cons_cons _

theorem trim_of_room {letters : List DeadLetter} (room : letters.length ≤ deadLetterMaxEntries) :
    trimDeadLetters letters = letters := if_pos room

theorem trim_length_le (letters : List DeadLetter) :
    (trimDeadLetters letters).length ≤ letters.length := by
  unfold trimDeadLetters
  split
  · exact le_rfl
  · exact ((List.drop_sublist _ _).trans (dropTerminal_sublist _ _)).length_le

variable {attempt : Nat} {reason : Str} {now : ℚ}

theorem upsert_length_le : (upsertQueueDeadLetter cooldowns letters key attempt reason now).1.length ≤
    letters.length + 1 := by
  refine (trim_length_le _).trans ?_
  rw [List.length_append, List.length_singleton]
  exact Nat.succ_le_succ List.length_eraseP_le

theorem upsert_of_room (room : letters.length < deadLetterMaxEntries) :
    (upsertQueueDeadLetter cooldowns letters key attempt reason now).1 =
      letters.eraseP (isDeadLetter key) ++
        [nextDeadLetter cooldowns (letters.find? (isDeadLetter key)) key attempt reason now] := by
  refine trim_of_room ?_
  rw [List.length_append, List.length_singleton]
  exact (Nat.succ_le_succ List.length_eraseP_le).trans room

theorem deadLettered_upsert (room : letters.length < deadLetterMaxEntries) :
    DeadLettered (upsertQueueDeadLetter cooldowns letters key attempt reason now).1 other ↔
      DeadLettered letters other ∨ other = key := by
  rw [upsert_of_room room]
  constructor
  · rintro ⟨letter, member, rfl⟩
    rcases List.mem_append.mp member with old | new
    · exact .inl ⟨letter, List.mem_of_mem_eraseP old, rfl⟩
    · rw [List.mem_singleton.mp new]
      exact .inr rfl
  · intro either
    by_cases own : other = key
    · exact ⟨_, List.mem_append_right _ (.head _), own.symm⟩
    · obtain ⟨letter, member, rfl⟩ := either.resolve_right own
      have apart : ¬isDeadLetter key letter = true := fun is => own (of_decide_eq_true is)
      exact ⟨letter, List.mem_append_left _ ((List.mem_eraseP_of_neg apart).mpr member), rfl⟩

theorem find_upsert (room : letters.length < deadLetterMaxEntries) (apart : other ≠ key) :
    (upsertQueueDeadLetter cooldowns letters key attempt reason now).1.find? (isDeadLetter other) =
      letters.find? (isDeadLetter other) := by
  have outside : ∀ letter, isDeadLetter key letter = true → isDeadLetter other letter = false := by
    intro letter own
    refine decide_eq_false fun is => apart ?_
    exact is.symm.trans (of_decide_eq_true own)
  have erased : ∀ letters : List DeadLetter,
      (letters.eraseP (isDeadLetter key)).find? (isDeadLetter other) =
        letters.find? (isDeadLetter other) := by
    intro letters
    induction letters with
    | nil => rfl
    | cons letter rest ih =>
      by_cases own : isDeadLetter key letter = true
      · rw [List.eraseP_cons_of_pos own, List.find?_cons_of_neg (by simp [outside letter own])]
      · rw [List.eraseP_cons_of_neg own, List.find?_cons, List.find?_cons, ih]
  have fresh : isDeadLetter other
      (nextDeadLetter cooldowns (letters.find? (isDeadLetter key)) key attempt reason now) = false :=
    outside _ (decide_eq_true rfl)
  rw [upsert_of_room room, List.find?_append, erased, List.find?_cons_of_neg (by simp [fresh])]
  simp

end Keys

end PerfStats.JobStore
