import PerfStats.Lib.Lines

namespace PerfStats.Lib.Utf8

abbrev Bytes := List UInt8

def replacement : Char := Char.ofNat 0xFFFD

/-- Where the reader stands: `owed more low high value` is within a character; its next byte lies
between `low` and `high`, and `more` follow. -/
inductive State where
  | start
  | owed (more low high value : Nat)

def lead (b : Nat) : List Char × State :=
  if b < 0x80 then ([Char.ofNat b], .start)
  else if b < 0xC2 then ([replacement], .start)
  else if b < 0xE0 then ([], .owed 0 0x80 0xBF (b - 0xC0))
  else if b = 0xE0 then ([], .owed 1 0xA0 0xBF 0)
  else if b = 0xED then ([], .owed 1 0x80 0x9F 0xD)
  else if b < 0xF0 then ([], .owed 1 0x80 0xBF (b - 0xE0))
  else if b = 0xF0 then ([], .owed 2 0x90 0xBF 0)
  else if b < 0xF4 then ([], .owed 2 0x80 0xBF (b - 0xF0))
  else if b = 0xF4 then ([], .owed 2 0x80 0x8F 4)
  else ([replacement], .start)

def step : State → Nat → List Char × State
  | .start, b => lead b
  | .owed more low high value, b =>
    if low ≤ b ∧ b ≤ high then
      match more with
      | 0 => ([Char.ofNat (64 * value + (b - 0x80))], .start)
      | more + 1 => ([], .owed more 0x80 0xBF (64 * value + (b - 0x80)))
    else (replacement :: (lead b).1, (lead b).2)

def finish : State → List Char
  | .start => []
  | .owed .. => [replacement]

def run : State → Bytes → List Char
  | state, [] => finish state
  | state, b :: rest => (step state b.toNat).1 ++ run (step state b.toNat).2 rest

def decode (bytes : Bytes) : List Char := run .start bytes

def Multi : State → Prop
  | .start => True
  | .owed more low high value => 0x80 ≤ low ∧ high ≤ 0xBF ∧ (0 < value ∨ (0 < more ∧ 0x90 ≤ low))

theorem lead_multi (b : Nat) : Multi (lead b).2 := by
  unfold lead
  split_ifs <;> simp [Multi] <;> omega

theorem step_multi {state : State} (multi : Multi state) (b : Nat) : Multi (step state b).2 := by
  cases state with
  | start => exact lead_multi b
  | owed more low high value =>
    obtain ⟨least, most, wide⟩ := multi
    by_cases fits : low ≤ b ∧ b ≤ high
    · cases more with
      | zero =>
        simp only [step, if_pos fits]
        trivial
      | succ more =>
        have more_bits : 0 < 64 * value + (b - 0x80) := by omega
        simp only [step, if_pos fits]
        exact ⟨le_rfl, le_rfl, .inl more_bits⟩
    · simp only [step, if_neg fits]
      exact lead_multi b

theorem newline_ne_ofNat {n : Nat} (other : n ≠ 10) : '\n' ≠ Char.ofNat n := by
  intro same
  have value : 10 = (Char.ofNat n).toNat := congrArg Char.toNat same
  rw [Char.toNat_ofNat] at value
  by_cases valid : n.isValidChar
  · rw [if_pos valid] at value
    exact other value.symm
  · rw [if_neg valid] at value
    cases value

theorem lead_plain {b : Nat} (other : b ≠ 10) : '\n' ∉ (lead b).1 := by
  have plain : '\n' ≠ Char.ofNat b := newline_ne_ofNat other
  have other' : '\n' ≠ replacement := by decide
  unfold lead
  split_ifs <;> simp [plain, other']

theorem step_plain {state : State} (multi : Multi state) {b : Nat} (other : b ≠ 10) :
    '\n' ∉ (step state b).1 := by
  cases state with
  | start => exact lead_plain other
  | owed more low high value =>
    obtain ⟨least, most, wide⟩ := multi
    by_cases fits : low ≤ b ∧ b ≤ high
    · cases more with
      | zero =>
        have large : 64 * value + (b - 0x80) ≠ 10 := by omega
        simp only [step, if_pos fits]
        simpa using newline_ne_ofNat large
      | succ more =>
        simp only [step, if_pos fits]
        exact List.not_mem_nil
    · simp only [step, if_neg fits]
      intro member
      cases List.mem_cons.mp member with
      | inl same => exact absurd same (by decide)
      | inr later => exact lead_plain other later

theorem step_newline {state : State} (multi : Multi state) :
    step state 10 = (finish state ++ ['\n'], .start) := by
  cases state with
  | start => rfl
  | owed more low high value =>
    obtain ⟨least, -⟩ := multi
    have below : ¬ (low ≤ 10 ∧ 10 ≤ high) := by omega
    simp only [step, if_neg below]
    rfl

theorem finish_plain (state : State) : '\n' ∉ finish state := by
  cases state with
  | start => exact List.not_mem_nil
  | owed more low high value => exact (by decide : '\n' ∉ [replacement])

theorem splitOn_run {state : State} (multi : Multi state) (bytes : Bytes) {head : Bytes}
    {tail : List Bytes} (cut : bytes.splitOn 10 = head :: tail) :
    (run state bytes).splitOn '\n' = run state head :: tail.map decode := by
  induction bytes generalizing state head tail with
  | nil =>
    cases cut
    exact splitOn_of_notMem (finish_plain state)
  | cons b rest ih =>
    obtain ⟨first, others, inner⟩ := splitOn_shape 10 rest
    by_cases newline : b = 10
    · subst newline
      rw [splitOn_cons_sep] at cut
      cases cut
      have later := @ih .start trivial _ _ inner
      have line : run state (10 :: rest) = finish state ++ '\n' :: decode rest := by
        change (step state 10).1 ++ run (step state 10).2 rest = _
        rw [step_newline multi, List.append_assoc]
        rfl
      rw [line, List.splitOn_append_cons_self, splitOn_of_notMem (finish_plain state), inner,
        List.map_cons]
      exact congrArg ([finish state] ++ ·) later
    · rw [splitOn_cons_of_ne newline inner] at cut
      cases cut
      have plain : b.toNat ≠ 10 := fun same => newline (UInt8.toNat_inj.mp same)
      have later := ih (step_multi multi b.toNat) inner
      exact splitOn_solid_append (step_plain multi plain) later

theorem splitOn_decode (bytes : Bytes) :
    (decode bytes).splitOn '\n' = (bytes.splitOn 10).map decode := by
  obtain ⟨head, tail, cut⟩ := splitOn_shape 10 bytes
  rw [cut]
  exact @splitOn_run .start trivial bytes head tail cut

section Encode

theorem toNat_ofNat {n : Nat} (small : n < 256) : (UInt8.ofNat n).toNat = n := by
  rw [UInt8.toNat_ofNat', Nat.mod_eq_of_lt small]

theorem run_cons (state : State) {n : Nat} (small : n < 256) (rest : Bytes) :
    run state (UInt8.ofNat n :: rest) = (step state n).1 ++ run (step state n).2 rest := by
  rw [run, toNat_ofNat small]

theorem step_inside {more low high value b : Nat} (inside : low ≤ b ∧ b ≤ high) :
    step (.owed (more + 1) low high value) b =
      ([], .owed more 0x80 0xBF (64 * value + (b - 0x80))) := by
  rw [step, if_pos inside]

theorem step_last {low high value b : Nat} (inside : low ≤ b ∧ b ≤ high) :
    step (.owed 0 low high value) b = ([Char.ofNat (64 * value + (b - 0x80))], .start) := by
  rw [step, if_pos inside]

theorem lead_two {v : Nat} (two : 0x80 ≤ v ∧ v < 0x800) :
    lead (v / 64 % 32 + 0xC0) = ([], .owed 0 0x80 0xBF (v / 64 % 32)) := by
  rw [lead, if_neg (by omega), if_neg (by omega), if_pos (by omega), Nat.add_sub_cancel]

theorem lead_three {v : Nat} (three : 0x800 ≤ v ∧ v < 0x10000) (valid : v < 0xD800 ∨ 0xDFFF < v) :
    ∃ low high, lead (v / 4096 % 16 + 0xE0) = ([], .owed 1 low high (v / 4096 % 16)) ∧
      low ≤ v / 64 % 64 + 0x80 ∧ v / 64 % 64 + 0x80 ≤ high := by
  by_cases least : v / 4096 % 16 = 0
  · refine ⟨0xA0, 0xBF, ?_, by omega, by omega⟩
    rw [least]
    rfl
  by_cases surrogates : v / 4096 % 16 = 13
  · refine ⟨0x80, 0x9F, ?_, by omega, by omega⟩
    rw [surrogates]
    rfl
  · refine ⟨0x80, 0xBF, ?_, by omega, by omega⟩
    rw [lead, if_neg (by omega), if_neg (by omega), if_neg (by omega), if_neg (by omega),
      if_neg (by omega), if_pos (by omega), Nat.add_sub_cancel]

theorem lead_four {v : Nat} (four : 0x10000 ≤ v ∧ v < 0x110000) :
    ∃ low high, lead (v / 262144 % 8 + 0xF0) = ([], .owed 2 low high (v / 262144 % 8)) ∧
      low ≤ v / 4096 % 64 + 0x80 ∧ v / 4096 % 64 + 0x80 ≤ high := by
  by_cases least : v / 262144 % 8 = 0
  · refine ⟨0x90, 0xBF, ?_, by omega, by omega⟩
    rw [least]
    rfl
  by_cases most : v / 262144 % 8 = 4
  · refine ⟨0x80, 0x8F, ?_, by omega, by omega⟩
    rw [most]
    rfl
  · refine ⟨0x80, 0xBF, ?_, by omega, by omega⟩
    rw [lead, if_neg (by omega), if_neg (by omega), if_neg (by omega), if_neg (by omega),
      if_neg (by omega), if_neg (by omega), if_neg (by omega), if_pos (by omega),
      Nat.add_sub_cancel]

theorem run_encodeChar (c : Char) (rest : Bytes) :
    run .start (String.utf8EncodeChar c ++ rest) = c :: run .start rest := by
  have valid : c.toNat < 0xD800 ∨ 0xDFFF < c.toNat ∧ c.toNat < 0x110000 := c.valid
  have own : Char.ofNat c.toNat = c := Char.ofNat_toNat c
  have value : c.val.toNat = c.toNat := rfl
  generalize c.toNat = v at valid own value
  unfold String.utf8EncodeChar
  rw [value]
  dsimp only
  split
  · have first : lead v = ([c], .start) := by rw [lead, if_pos (by omega), own]
    rw [List.cons_append, run_cons _ (by omega), step, first]
    rfl
  split
  · have first := @lead_two v (by omega)
    have whole : 64 * (v / 64 % 32) + (v % 64 + 0x80 - 0x80) = v := by omega
    simp only [List.cons_append, List.nil_append]
    rw [run_cons _ (by omega), step, first, run_cons _ (by omega), step_last (by omega), whole, own]
    rfl
  split
  · obtain ⟨low, high, first, inside⟩ := @lead_three v (by omega) (by omega)
    have whole : 64 * (64 * (v / 4096 % 16) + (v / 64 % 64 + 0x80 - 0x80)) +
        (v % 64 + 0x80 - 0x80) = v := by omega
    simp only [List.cons_append, List.nil_append]
    rw [run_cons _ (by omega), step, first, run_cons _ (by omega), step_inside inside,
      run_cons _ (by omega), step_last (by omega), whole, own]
    rfl
  · obtain ⟨low, high, first, inside⟩ := @lead_four v (by omega)
    have whole : 64 * (64 * (64 * (v / 262144 % 8) + (v / 4096 % 64 + 0x80 - 0x80)) +
        (v / 64 % 64 + 0x80 - 0x80)) + (v % 64 + 0x80 - 0x80) = v := by omega
    simp only [List.cons_append, List.nil_append]
    rw [run_cons _ (by omega), step, first, run_cons _ (by omega), step_inside inside,
      run_cons _ (by omega), step_inside (by omega), run_cons _ (by omega), step_last (by omega),
      whole, own]
    rfl

theorem decode_encode (text : List Char) : decode (text.flatMap String.utf8EncodeChar) = text := by
  induction text with
  | nil => rfl
  | cons c rest ih =>
    rw [List.flatMap_cons, decode, run_encodeChar]
    exact congrArg (c :: ·) ih

end Encode

example : decode [0x61, 0xC3, 0xA9, 0xE2, 0x82, 0x0A, 0xF0, 0x80] =
    ['a', 'é', replacement, '\n', replacement, replacement] := by decide

end PerfStats.Lib.Utf8
