import PerfStats.Monitor.CpuList

namespace PerfStats.Monitor

open Text

section Scanning

variable {s behind : Str} {v : Int} {wide : Bool} {range : Int × Int} {sep : Char → Bool}

theorem dropWhile_of_weaker {p q : Char → Bool} (weaker : ∀ c, p c = true → q c = true)
    (s : Str) : (s.dropWhile p).dropWhile q = s.dropWhile q := by
  induction s with
  | nil => rfl
  | cons c rest ih =>
    by_cases here : p c = true
    · rw [List.dropWhile_cons_of_pos here, ih, List.dropWhile_cons_of_pos (weaker c here)]
    · rw [List.dropWhile_cons_of_neg here]

theorem sign_length (s : Str) : (sign s).2.length ≤ s.length := by
  unfold sign
  split <;> simp

theorem strtol_some (read : strtol s = some (v, wide, behind)) :
    v ≤ 2 ^ 63 - 1 ∧ behind.length < s.length := by
  rw [strtol] at read
  dsimp only at read
  split at read
  · cases read
  · next some_digits =>
      rw [Option.some.injEq, Prod.mk.injEq, Prod.mk.injEq] at read
      obtain ⟨value, _, rest⟩ := read
      have shorter : (sign (s.dropWhile isCSpace)).2.length ≤ s.length :=
        (sign_length _).trans (List.dropWhile_suffix isCSpace).length_le
      have cut := congrArg List.length
        (List.takeWhile_append_dropWhile (p := isDigit) (l := (sign (s.dropWhile isCSpace)).2))
      have digits := List.length_pos_iff.mpr some_digits
      rw [List.length_append, rest] at cut
      constructor
      · rw [← value]
        omega
      · omega

theorem nextRange_some (next : nextRange sep s = .ok (some (range, behind))) :
    0 ≤ range.1 ∧ range.1 ≤ range.2 ∧ range.2 ≤ 2 ^ 63 - 1 ∧ behind.length < s.length := by
  have blanks := (List.dropWhile_suffix sep (l := s)).length_le
  unfold nextRange at next
  split at next
  · cases next
  · next c rest token =>
      rw [token] at blanks
      split at next
      · cases next
      · next a wide behind' first =>
          obtain ⟨bound, shorter⟩ := strtol_some first
          split at next
          · cases next
          · next positive =>
              split at next
              · next more =>
                  split at next
                  · cases next
                  · next b wide' behind'' second =>
                      obtain ⟨bound', shorter'⟩ := strtol_some second
                      split at next
                      · cases next
                      · next ordered =>
                          cases next
                          dsimp only
                          rw [List.length_cons] at shorter
                          omega
              · cases next
                dsimp only
                omega

end Scanning

section Parsing

variable {s behind : Str} {rs : List (Int × Int)} {ncpus : Nat} {P : Finset Nat}

inductive ReadsAs : Str → List (Int × Int) → Prop where
  | done {s : Str} (last : nextRange parseSep s = .ok none) : ReadsAs s []
  | range {s behind : Str} {r : Int × Int} {rs : List (Int × Int)}
      (next : nextRange parseSep s = .ok (some (r, behind))) (rest : ReadsAs behind rs) :
      ReadsAs s (r :: rs)

def InRanges (rs : List (Int × Int)) (c : Nat) : Prop := ∃ r ∈ rs, r.1 ≤ c ∧ (c : Int) ≤ r.2

theorem inRanges_cons {r : Int × Int} {c : Nat} :
    InRanges (r :: rs) c ↔ (r.1 ≤ c ∧ (c : Int) ≤ r.2) ∨ InRanges rs c := by
  simp [InRanges]

theorem parseFrom_some {fuel : Nat} {set : Finset Nat}
    (parsed : parseFrom ncpus fuel set s = some P) :
    ∃ rs, ReadsAs s rs ∧ (∀ r ∈ rs, r.2 < ncpus) ∧ ∀ c, c ∈ P ↔ c ∈ set ∨ InRanges rs c := by
  induction fuel generalizing set s with
  | zero => cases parsed
  | succ fuel ih =>
    rw [parseFrom] at parsed
    cases next : nextRange parseSep s with
    | error e =>
      rw [next] at parsed
      cases parsed
    | ok found =>
      cases found with
      | none =>
        rw [next] at parsed
        cases parsed
        exact ⟨[], .done next, fun _ member => absurd member List.not_mem_nil,
          fun c => by simp [InRanges]⟩
      | some found =>
        obtain ⟨r, behind⟩ := found
        rw [next] at parsed
        dsimp only at parsed
        split at parsed
        · cases parsed
        · next inside =>
            obtain ⟨rs, reads, small, members⟩ := ih parsed
            have positive := (nextRange_some next).1
            refine ⟨r :: rs, .range next reads, ?_, fun c => ?_⟩
            · intro q member
              cases member with
              | head => omega
              | tail _ later => exact small q later
            · rw [members, inRanges_cons, Finset.mem_union, Finset.mem_Icc, or_assoc]
              have bounds : r.1.toNat ≤ c ∧ c ≤ r.2.toNat ↔ r.1 ≤ c ∧ (c : Int) ≤ r.2 := by
                have ordered := (nextRange_some next).2.1
                omega
              rw [bounds]

theorem parseFrom_of_reads (reads : ReadsAs s rs) (small : ∀ r ∈ rs, r.2 < ncpus) (fuel : Nat)
    (enough : s.length < fuel) (set : Finset Nat) : ∃ P, parseFrom ncpus fuel set s = some P := by
  induction reads generalizing fuel set with
  | done last =>
    obtain ⟨fuel, rfl⟩ : ∃ more, fuel = more + 1 := ⟨fuel - 1, by omega⟩
    exact ⟨set, by rw [parseFrom, last]⟩
  | range next rest ih =>
    obtain ⟨fuel, rfl⟩ : ∃ more, fuel = more + 1 := ⟨fuel - 1, by omega⟩
    have shorter := (nextRange_some next).2.2.2
    have inside := small _ (.head _)
    rw [parseFrom, next]
    dsimp only
    rw [if_neg (by omega)]
    exact ih (fun r member => small r (.tail _ member)) fuel (by omega) _

theorem ReadsAs.det {qs : List (Int × Int)} (reads : ReadsAs s rs) (again : ReadsAs s qs) :
    rs = qs := by
  induction reads generalizing qs with
  | done last =>
    cases again with
    | done _ => rfl
    | range next _ =>
      rw [last] at next
      cases next
  | range next rest ih =>
    cases again with
    | done last =>
      rw [last] at next
      cases next
    | range next' rest' =>
      rw [next] at next'
      cases next'
      rw [ih rest']

theorem parseCpulistInto_some (parsed : parseCpulistInto ncpus s = some P) :
    ∃ rs, ReadsAs s rs ∧ (∀ r ∈ rs, r.2 < ncpus) ∧ ∀ c, c ∈ P ↔ InRanges rs c := by
  obtain ⟨rs, reads, small, members⟩ := parseFrom_some parsed
  exact ⟨rs, reads, small, fun c => by rw [members]; simp⟩

theorem parseCpulistInto_of_reads (reads : ReadsAs s rs) (small : ∀ r ∈ rs, r.2 < ncpus) :
    ∃ P, parseCpulistInto ncpus s = some P ∧ ∀ c, c ∈ P ↔ InRanges rs c := by
  obtain ⟨P, parsed⟩ := parseFrom_of_reads reads small (s.length + 1) (by omega) ∅
  obtain ⟨qs, again, _, members⟩ := parseCpulistInto_some parsed
  exact ⟨P, parsed, reads.det again ▸ members⟩

end Parsing

section Searching

variable {s behind : Str} {rs : List (Int × Int)} {found : Option ((Int × Int) × Str)}

def commaBehindNewline (s : Str) : Bool :=
  decide (',' ∈ (s.takeWhile parseSep).dropWhile (· ≠ '\n'))

def searchedFrom : Nat → Str → List (Int × Int)
  | 0, _ => []
  | fuel + 1, s =>
    if commaBehindNewline s then []
    else
      match nextRange parseSep s with
      | .ok (some (range, behind)) => range :: searchedFrom fuel behind
      | _ => []

def searchedRanges (s : Str) : List (Int × Int) := searchedFrom (s.length + 1) s

theorem searchSep_parseSep (c : Char) (sep : searchSep c = true) : parseSep c = true := by
  rw [searchSep] at sep
  rw [parseSep, sep]
  rfl

theorem parseSep_cases {c : Char} (sep : parseSep c = true) :
    c = ',' ∨ c = '\n' ∨ isCSpace c = true ∧ searchSep c = true := by
  simp only [parseSep, Bool.or_eq_true, decide_eq_true_iff] at sep
  obtain ((rfl | rfl) | rfl) | rfl := sep
  · exact .inl rfl
  · exact .inr (.inr ⟨by decide, by decide⟩)
  · exact .inr (.inr ⟨by decide, by decide⟩)
  · exact .inr (.inl rfl)

theorem strtol_comma (rest : Str) : strtol (',' :: rest) = none := by
  have first : isCSpace ',' = false := by decide
  have digit : isDigit ',' = false := by decide
  rw [strtol, List.dropWhile_cons_of_neg (by simp [first])]
  simp [sign, digit]

theorem strtol_blank {c : Char} (blank : isCSpace c = true) (rest : Str) :
    strtol (c :: rest) = strtol rest := by
  rw [strtol, strtol, List.dropWhile_cons_of_pos blank]

theorem strtol_seps (u : Str) :
    (',' ∈ u.takeWhile parseSep → strtol u = none) ∧
      (',' ∉ u.takeWhile parseSep → strtol u = strtol (u.dropWhile parseSep)) := by
  induction u with
  | nil => exact ⟨nofun, fun _ => rfl⟩
  | cons c rest ih =>
    by_cases sep : parseSep c = true
    · rw [List.takeWhile_cons_of_pos sep, List.dropWhile_cons_of_pos sep, List.mem_cons]
      by_cases comma : ',' = c
      · rw [← comma, strtol_comma]
        exact ⟨fun _ => rfl, fun absent => absurd (.inl rfl) absent⟩
      · have blank : isCSpace c = true := by
          obtain same | rfl | both := parseSep_cases sep
          · exact absurd same.symm comma
          · decide
          · exact both.1
        rw [strtol_blank blank]
        exact ⟨fun there => ih.1 (there.resolve_left comma),
          fun absent => ih.2 fun there => absent (.inr there)⟩
    · rw [List.takeWhile_cons_of_neg sep, List.dropWhile_cons_of_neg sep]
      exact ⟨nofun, fun _ => rfl⟩

theorem searchSep_stop (s : Str) :
    commaBehindNewline s = false ∧ s.dropWhile searchSep = s.dropWhile parseSep ∨
      ∃ u, s.dropWhile searchSep = '\n' :: u ∧ s.dropWhile parseSep = u.dropWhile parseSep ∧
        (commaBehindNewline s = true ↔ ',' ∈ u.takeWhile parseSep) := by
  induction s with
  | nil => exact .inl ⟨rfl, rfl⟩
  | cons c rest ih =>
    by_cases search : searchSep c = true
    · have sep := searchSep_parseSep c search
      have other : c ≠ '\n' := by
        intro same
        subst same
        revert search
        decide
      have same : commaBehindNewline (c :: rest) = commaBehindNewline rest := by
        rw [commaBehindNewline, commaBehindNewline, List.takeWhile_cons_of_pos sep,
          List.dropWhile_cons_of_pos (by simpa using other)]
      rw [List.dropWhile_cons_of_pos search, List.dropWhile_cons_of_pos sep, same]
      exact ih
    · by_cases newline : c = '\n'
      · subst newline
        have sep : parseSep '\n' = true := by decide
        refine .inr ⟨rest, ?_, ?_, ?_⟩
        · rw [List.dropWhile_cons_of_neg search]
        · rw [List.dropWhile_cons_of_pos sep]
        · rw [commaBehindNewline, List.takeWhile_cons_of_pos sep,
            List.dropWhile_cons_of_neg (by simp), decide_eq_true_iff, List.mem_cons]
          exact or_iff_right (by decide)
      · have sep : ¬ parseSep c = true := by
          intro sep
          obtain rfl | same | both := parseSep_cases sep
          · exact search (by decide)
          · exact newline same
          · exact search both.2
        refine .inl ⟨?_, ?_⟩
        · rw [commaBehindNewline, List.takeWhile_cons_of_neg sep]
          rfl
        · rw [List.dropWhile_cons_of_neg search, List.dropWhile_cons_of_neg sep]

theorem nextRange_none_strtol {sep : Char → Bool} {c : Char} {rest : Str}
    (token : s.dropWhile sep = c :: rest) (unread : strtol (c :: rest) = none) :
    nextRange sep s = .error () := by
  rw [nextRange, token]
  dsimp only
  rw [unread]

theorem search_blocked (blocked : commaBehindNewline s = true) :
    nextRange searchSep s = .error () := by
  obtain ⟨free, _⟩ | ⟨u, token, _, comma⟩ := searchSep_stop s
  · rw [free] at blocked
    cases blocked
  · apply nextRange_none_strtol token
    exact (strtol_seps u).1 (comma.mp blocked)

theorem search_range {r : Int × Int} (free : commaBehindNewline s = false)
    (next : nextRange parseSep s = .ok (some (r, behind))) :
    nextRange searchSep s = .ok (some (r, behind)) := by
  obtain ⟨_, same⟩ | ⟨u, token, stop, comma⟩ := searchSep_stop s
  · rw [nextRange, same, ← nextRange]
    exact next
  · have absent : ',' ∉ u.takeWhile parseSep := by
      intro there
      rw [comma.mpr there] at free
      cases free
    have number : strtol ('\n' :: u) = strtol (s.dropWhile parseSep) := by
      rw [strtol_blank (by decide), (strtol_seps u).2 absent, stop]
    unfold nextRange at next
    cases first : s.dropWhile parseSep with
    | nil =>
      rw [first] at next
      cases next
    | cons c rest =>
      rw [first] at next number
      rw [nextRange, token]
      dsimp only
      rw [number]
      exact next

theorem search_end (last : nextRange parseSep s = .ok none) (x : (Int × Int) × Str) :
    nextRange searchSep s ≠ .ok (some x) := by
  have ended : s.dropWhile parseSep = [] := by
    cases first : s.dropWhile parseSep with
    | nil => rfl
    | cons c rest =>
      unfold nextRange at last
      rw [first] at last
      dsimp only at last
      repeat' split at last
      all_goals cases last
  intro found
  obtain ⟨_, same⟩ | ⟨u, token, stop, comma⟩ := searchSep_stop s
  · rw [nextRange, same, ended] at found
    cases found
  · have unread : strtol ('\n' :: u) = none := by
      rw [strtol_blank (by decide)]
      by_cases there : ',' ∈ u.takeWhile parseSep
      · exact (strtol_seps u).1 there
      · rw [(strtol_seps u).2 there, ← stop, ended]
        rfl
    rw [nextRange_none_strtol token unread] at found
    cases found

theorem searchFrom_iff (reads : ReadsAs s rs) (fuel : Nat) (enough : s.length < fuel) (c : Nat) :
    (searchFrom c fuel s = true ↔ InRanges (searchedFrom fuel s) c) ∧
      (InRanges (searchedFrom fuel s) c → InRanges rs c) := by
  induction reads generalizing fuel with
  | @done s last =>
    obtain ⟨fuel, rfl⟩ : ∃ more, fuel = more + 1 := ⟨fuel - 1, by omega⟩
    have none_searched : searchedFrom (fuel + 1) s = [] := by
      rw [searchedFrom, last]
      split <;> rfl
    rw [none_searched, searchFrom]
    refine ⟨⟨?_, ?_⟩, ?_⟩
    · intro hit
      split at hit
      · cases hit
      · cases hit
      · next found => exact absurd found (search_end last _)
    · intro impossible
      simp [InRanges] at impossible
    · exact id
  | @range s behind r rs next rest ih =>
    obtain ⟨fuel, rfl⟩ : ∃ more, fuel = more + 1 := ⟨fuel - 1, by omega⟩
    have shorter := (nextRange_some next).2.2.2
    have later := ih fuel (by omega)
    cases blocked : commaBehindNewline s with
    | true =>
      rw [searchedFrom, blocked, if_pos rfl, searchFrom, search_blocked blocked]
      simp [InRanges]
    | false =>
      rw [searchedFrom, blocked, if_neg (by simp), next, searchFrom, search_range blocked next]
      rw [inRanges_cons, inRanges_cons, ← later.1]
      constructor
      · by_cases here : r.1 ≤ c ∧ (c : Int) ≤ r.2
        · simp [here]
        · simp [here]
      · intro either
        cases either with
        | inl here => exact .inl here
        | inr more => exact .inr (later.2 (later.1.mp more))

theorem ReadsAs.long (reads : ReadsAs s rs) : ∀ r ∈ rs, 0 ≤ r.1 ∧ r.1 ≤ r.2 ∧ r.2 ≤ 2 ^ 63 - 1 := by
  induction reads with
  | done _ => exact nofun
  | range next _ ih =>
    obtain ⟨positive, ordered, bound, _⟩ := nextRange_some next
    exact List.forall_mem_cons.mpr ⟨⟨positive, ordered, bound⟩, ih⟩

theorem cpuDevInList_iff (reads : ReadsAs s rs) (c : Nat) :
    cpuDevInList s (decimalText c) = true ↔ InRanges (searchedRanges s) c := by
  have searched := searchFrom_iff reads (s.length + 1) (by omega) c
  have number := strtol_decimalText c [] (by simp)
  rw [List.append_nil] at number
  rw [cpuDevInList, number]
  by_cases small : c < 2 ^ 63
  · have clamped : min (2 ^ 63 - 1 : Int) c = c := by omega
    rw [decide_eq_false (by omega), clamped]
    dsimp only
    split
    · next empty =>
        have no_text : s = [] := empty.resolve_right (by omega)
        subst no_text
        simp [searchedRanges, searchedFrom, nextRange, InRanges]
    · exact searched.1
  · rw [decide_eq_true (by omega)]
    refine ⟨fun found => absurd found Bool.false_ne_true, fun hit => ?_⟩
    obtain ⟨r, member, _, high⟩ := searched.2 hit
    have bound := (reads.long r member).2.2
    omega

end Searching

section Bounding

variable {s behind : Str} {v : Int} {wide : Bool} {rs : List (Int × Int)}

theorem boundSep_cases {c : Char} (sep : boundSep c = true) :
    c = ',' ∨ c = '-' ∨ isCSpace c = true := by
  simp only [boundSep, Bool.or_eq_true, decide_eq_true_iff] at sep
  obtain (((rfl | rfl) | rfl) | rfl) | rfl := sep
  · exact .inl rfl
  · exact .inr (.inr (by decide))
  · exact .inr (.inl rfl)
  · exact .inr (.inr (by decide))
  · exact .inr (.inr (by decide))

theorem digit_plain {d : Char} (digit : isDigit d = true) :
    isCSpace d = false ∧ boundSep d = false := by
  have solid := isSpace_of_isDigit digit
  constructor
  · rw [Bool.eq_false_iff]
    intro blank
    simp only [isCSpace, Bool.or_eq_true, Bool.and_eq_true, decide_eq_true_iff] at blank
    obtain rfl | range := blank
    · exact absurd solid (by decide)
    · simp [isSpace, range] at solid
  · rw [Bool.eq_false_iff]
    intro sep
    simp only [boundSep, Bool.or_eq_true, decide_eq_true_iff] at sep
    obtain (((rfl | rfl) | rfl) | rfl) | rfl := sep <;> exact absurd digit (by decide)

theorem strtol_minus {rest : Str} (read : strtol ('-' :: rest) = some (v, wide, behind))
    (positive : 0 ≤ v) : ∃ wide', strtol (rest.dropWhile boundSep) = some (v, wide', behind) := by
  have hyphen : isCSpace '-' = false := by decide
  rw [strtol, List.dropWhile_cons_of_neg (by simp [hyphen])] at read
  have signed : sign ('-' :: rest) = (-1, rest) := rfl
  rw [signed] at read
  dsimp only at read
  cases rest with
  | nil => cases read
  | cons d more =>
    by_cases digit : isDigit d = true
    · obtain ⟨solid, plain⟩ := digit_plain digit
      have some_digits : (d :: more).takeWhile isDigit ≠ [] := by simp [digit]
      rw [if_neg some_digits, Option.some.injEq, Prod.mk.injEq, Prod.mk.injEq] at read
      obtain ⟨value, _, left⟩ := read
      have zero : Nat.ofDigitChars 10 ((d :: more).takeWhile isDigit) 0 = 0 := by omega
      rw [List.dropWhile_cons_of_neg (by simp [plain]), strtol,
        List.dropWhile_cons_of_neg (by simp [solid]), sign_of_digit digit]
      rw [if_neg some_digits, zero, left, ← value, zero]
      simp
    · rw [List.takeWhile_cons_of_neg digit, if_pos rfl] at read
      cases read

theorem strtol_bound (read : strtol s = some (v, wide, behind)) (positive : 0 ≤ v) :
    ∃ wide', strtol (s.dropWhile boundSep) = some (v, wide', behind) := by
  induction s with
  | nil => cases read
  | cons c rest ih =>
    by_cases sep : boundSep c = true
    · rw [List.dropWhile_cons_of_pos sep]
      obtain rfl | rfl | blank := boundSep_cases sep
      · rw [strtol_comma] at read
        cases read
      · exact strtol_minus read positive
      · rw [strtol_blank blank] at read
        exact ih read
    · rw [List.dropWhile_cons_of_neg sep]
      exact ⟨wide, read⟩

theorem maxCpuFrom_number_read {fuel : Nat} {m : Int} (read : strtol s = some (v, wide, behind))
    (positive : 0 ≤ v) :
    maxCpuFrom (fuel + 1) m s = maxCpuFrom fuel (max m v) behind := by
  obtain ⟨wide', again⟩ := strtol_bound read positive
  cases token : s.dropWhile boundSep with
  | nil =>
    rw [token] at again
    cases again
  | cons c rest =>
    rw [token] at again
    rw [maxCpuFrom, token]
    dsimp only
    rw [again]

theorem parseSep_boundSep (c : Char) (sep : parseSep c = true) : boundSep c = true := by
  simp only [parseSep, Bool.or_eq_true, decide_eq_true_iff] at sep
  obtain ((rfl | rfl) | rfl) | rfl := sep <;> decide

theorem maxCpuFrom_seps (fuel : Nat) (m : Int) (s : Str) :
    maxCpuFrom fuel m (s.dropWhile parseSep) = maxCpuFrom fuel m s := by
  cases fuel with
  | zero => rfl
  | succ fuel => rw [maxCpuFrom, maxCpuFrom, dropWhile_of_weaker parseSep_boundSep]

theorem maxCpuFrom_range {r : Int × Int} (next : nextRange parseSep s = .ok (some (r, behind)))
    (fuel : Nat) (enough : s.length < fuel) (m : Int) :
    ∃ fuel', behind.length < fuel' ∧ ∃ m', r.2 ≤ m' ∧
      maxCpuFrom fuel m s = maxCpuFrom fuel' m' behind := by
  obtain ⟨positive, ordered, _, _⟩ := nextRange_some next
  have blanks := (List.dropWhile_suffix parseSep (l := s)).length_le
  rw [← maxCpuFrom_seps]
  unfold nextRange at next
  split at next
  · cases next
  · next c rest token =>
      rw [token] at blanks ⊢
      split at next
      · cases next
      · next a wide behind' first =>
          have shorter := (strtol_some first).2
          split at next
          · cases next
          · next low =>
              obtain ⟨fuel, rfl⟩ : ∃ more, fuel = more + 1 := ⟨fuel - 1, by omega⟩
              rw [maxCpuFrom_number_read first (by omega)]
              split at next
              · next more =>
                  split at next
                  · cases next
                  · next b wide' behind'' second =>
                      have shorter' := (strtol_some second).2
                      split at next
                      · cases next
                      · next order =>
                          cases next
                          rw [List.length_cons] at shorter
                          obtain ⟨fuel, rfl⟩ : ∃ left, fuel = left + 1 := ⟨fuel - 1, by omega⟩
                          have skipped : maxCpuFrom (fuel + 1) (max m a) ('-' :: more) =
                              maxCpuFrom (fuel + 1) (max m a) more := by
                            rw [maxCpuFrom, maxCpuFrom, List.dropWhile_cons_of_pos (by decide)]
                          rw [skipped, maxCpuFrom_number_read second (by omega)]
                          exact ⟨fuel, by omega, max (max m a) b, by omega, rfl⟩
              · cases next
                exact ⟨fuel, by omega, max m a, by omega, rfl⟩

theorem maxCpuFrom_reads (reads : ReadsAs s rs) (fuel : Nat) (enough : s.length < fuel) (m : Int) :
    ∀ r ∈ rs, r.2 ≤ maxCpuFrom fuel m s := by
  induction reads generalizing fuel m with
  | done _ => exact nofun
  | range next _ ih =>
    obtain ⟨fuel', enough', m', bound, same⟩ := maxCpuFrom_range next fuel enough m
    rw [same]
    refine List.forall_mem_cons.mpr ⟨?_, ih fuel' enough' m'⟩
    exact bound.trans (maxCpuFrom_le fuel' m' _)

theorem subtractNcpus_reads {onlineList : Str} {claimed : List Str}
    (member : s ∈ onlineList :: claimed) (reads : ReadsAs s rs) :
    ∀ r ∈ rs, r.2 < subtractNcpus onlineList claimed := by
  have scanned : ∀ (lists : List Str) (m : Int), s ∈ lists →
      ∀ r ∈ rs, r.2 ≤ lists.foldl (fun m t => maxCpuFrom (t.length + 1) m t) m := by
    intro lists
    induction lists with
    | nil => exact nofun
    | cons t lists ih =>
      intro m there r listed
      cases List.mem_cons.mp there with
      | inl same =>
        subst same
        exact (maxCpuFrom_reads reads _ (by omega) m r listed).trans (foldl_maxCpu_le lists _)
      | inr later => exact ih _ later r listed
  intro r listed
  have bound := scanned (onlineList :: claimed) (-1) member r listed
  rw [subtractNcpus]
  omega

end Bounding

section Algebra

variable {s : Str} {c : Nat}

def InList (list : Str) (c : Nat) : Prop :=
  ∃ ncpus P, parseCpulistInto ncpus list = some P ∧ c ∈ P

theorem inList_iff {ncpus : Nat} {P : Finset Nat} {list : Str}
    (parsed : parseCpulistInto ncpus list = some P) (c : Nat) : InList list c ↔ c ∈ P := by
  constructor
  · intro listed
    obtain ⟨_, Q, again, member⟩ := listed
    obtain ⟨rs, reads, _, members⟩ := parseCpulistInto_some parsed
    obtain ⟨qs, reads', _, members'⟩ := parseCpulistInto_some again
    rw [members, reads.det reads', ← members']
    exact member
  · intro member
    exact ⟨ncpus, P, parsed, member⟩

theorem parse_subtractNcpus {onlineList list : Str} {claimed : List Str} {ncpus : Nat}
    {P : Finset Nat} (member : list ∈ onlineList :: claimed)
    (parsed : parseCpulistInto ncpus list = some P) :
    parseCpulistInto (subtractNcpus onlineList claimed) list = some P := by
  obtain ⟨rs, reads, _, members⟩ := parseCpulistInto_some parsed
  obtain ⟨Q, again, members'⟩ := parseCpulistInto_of_reads reads (subtractNcpus_reads member reads)
  have same : Q = P := by
    ext c
    rw [members, members']
  rw [again, same]

theorem parse_format {set : Finset Nat} {ncpus cap size : Nat} (inside : ∀ c ∈ set, c < ncpus)
    (long : ∀ c ∈ set, c < 2 ^ 63) (table : ∀ c ∈ set, c < size)
    (fits : (cpuText set).length < cap) :
    (formatCpulist set ncpus cap).2 = true ∧
      parseCpulistInto size (formatCpulist set ncpus cap).1 = some set := by
  obtain ⟨ps, text, runs, _, covers, whole, ok⟩ :=
    @formatCpulist_spec set ncpus cap inside (by omega)
  have written := ok.mpr fits
  have ends_in : ∀ p ∈ ps, p.2 ∈ set := fun p member =>
    covers p.2 ⟨p, member, runs.ordered p member, le_rfl⟩
  have readable : PiecesReadable ps := fun p member =>
    ⟨runs.ordered p member, long p.2 (ends_in p member)⟩
  obtain ⟨parsed, read, members⟩ := @parseCpulistInto_list ps [] size (.inl rfl) readable
    fun p member => table p.2 (ends_in p member)
  rw [List.append_nil] at read
  refine ⟨written, ?_⟩
  have same : parsed = set := by
    ext c
    rw [members]
    exact ⟨covers c, whole written c⟩
  rw [text, read, same]

theorem subtract_yields {ncpus cap : Nat} {onlineList : Str} {claimed : List Str}
    {online left : Finset Nat} (parsed : parseCpulistInto ncpus onlineList = some online)
    (left_iff : ∀ c, c ∈ left ↔ c ∈ online ∧ ∀ list ∈ claimed, ¬ InList list c)
    (fits : (cpuText left).length < cap) :
    (onlineList ≠ [] → (cpulistSubtract onlineList claimed cap).2 = true) ∧
      parseCpulistInto ncpus (cpulistSubtract onlineList claimed cap).1 = some left := by
  obtain ⟨rs, reads, small, members⟩ := parseCpulistInto_some parsed
  have bounds : ∀ c ∈ left, c < ncpus ∧ c < 2 ^ 63 ∧ c < subtractNcpus onlineList claimed := by
    intro c member
    obtain ⟨r, listed, _, high⟩ := (members c).mp ((left_iff c).mp member).1
    have inside := small r listed
    have long := (reads.long r listed).2.2
    have table : r.2 < subtractNcpus onlineList claimed :=
      subtractNcpus_reads (.head _) reads r listed
    omega
  by_cases empty : onlineList = []
  · have none_left : left = ∅ := by
      rw [Finset.eq_empty_iff_forall_notMem]
      intro c member
      have there := ((left_iff c).mp member).1
      rw [empty] at parsed
      cases parsed
      simp at there
    rw [cpulistSubtract, if_pos empty, none_left]
    exact ⟨fun some_text => absurd empty some_text, rfl⟩
  · have claim_iff : ∀ c, c ∈ (claimed.filterMap (parseCpulistInto
        (subtractNcpus onlineList claimed))).foldl (· ∪ ·) ∅ ↔ ∃ list ∈ claimed, InList list c := by
      intro c
      rw [mem_foldl_union]
      constructor
      · intro found
        obtain nowhere | ⟨P, chosen, member⟩ := found
        · simp at nowhere
        · obtain ⟨list, listed, read⟩ := List.mem_filterMap.mp chosen
          exact ⟨list, listed, (inList_iff read c).mpr member⟩
      · intro found
        obtain ⟨list, listed, size, P, read, member⟩ := found
        have again := parse_subtractNcpus (.tail onlineList listed) read
        exact .inr ⟨P, List.mem_filterMap.mpr ⟨list, listed, again⟩, member⟩
    have remainder : online \ (claimed.filterMap (parseCpulistInto
        (subtractNcpus onlineList claimed))).foldl (· ∪ ·) ∅ = left := by
      ext c
      rw [Finset.mem_sdiff, claim_iff, left_iff]
      simp
    have written := parse_format (fun c member => (bounds c member).2.2)
      (fun c member => (bounds c member).2.1) (fun c member => (bounds c member).1) fits
    rw [cpulistSubtract, if_neg empty, parse_subtractNcpus (.head _) parsed]
    dsimp only
    rw [remainder]
    exact ⟨fun _ => written.1, written.2⟩

/-- A set that fits is read back from its text, a subtraction gives the unclaimed online CPUs, and
the search agrees with the set for a CPU before a comma behind a newline. -/
theorem cpu_list_algebra (ncpus cap : Nat) :
    (∀ set : Finset Nat, ncpus ≤ 2 ^ 63 → (∀ c ∈ set, c < ncpus) →
      (cpuText set).length < cap → (formatCpulist set ncpus cap).2 = true ∧
        parseCpulistInto ncpus (formatCpulist set ncpus cap).1 = some set) ∧
    (∀ (list : Str) (P : Finset Nat), parseCpulistInto ncpus list = some P → ∀ c,
      (cpuDevInList list (decimalText c) = decide (c ∈ P) ↔
        (c ∈ P → InRanges (searchedRanges list) c))) ∧
    ∀ (onlineList : Str) (claimed : List Str) (online left : Finset Nat),
      parseCpulistInto ncpus onlineList = some online →
      (∀ c, c ∈ left ↔ c ∈ online ∧ ∀ list ∈ claimed, ¬ InList list c) →
      (cpuText left).length < cap →
      (onlineList ≠ [] → (cpulistSubtract onlineList claimed cap).2 = true) ∧
        parseCpulistInto ncpus (cpulistSubtract onlineList claimed cap).1 = some left := by
  refine ⟨?_, ?_, ?_⟩
  · intro set size inside fits
    exact parse_format inside (fun c member => (inside c member).trans_le size) inside fits
  · intro list P parsed c
    obtain ⟨rs, reads, _, members⟩ := parseCpulistInto_some parsed
    have searched := cpuDevInList_iff reads c
    have sound := (searchFrom_iff reads (list.length + 1) (by omega) c).2
    constructor
    · intro same member
      rw [decide_eq_true member] at same
      exact searched.mp same
    · intro reached
      rw [Bool.eq_iff_iff, searched, decide_eq_true_iff]
      exact ⟨fun hit => (members c).mpr (sound hit), reached⟩
  · intro onlineList claimed online left parsed left_iff fits
    exact subtract_yields parsed left_iff fits

theorem cpu_list_algebra_three :
    ((formatCpulist {0, 1, 2} 8 16).2 = true ∧
      parseCpulistInto 8 (formatCpulist {0, 1, 2} 8 16).1 = some {0, 1, 2}) ∧
    (cpuDevInList "0-2".toList (decimalText 1) = decide (1 ∈ ({0, 1, 2} : Finset Nat)) ↔
      (1 ∈ ({0, 1, 2} : Finset Nat) → InRanges (searchedRanges "0-2".toList) 1)) := by
  have algebra := cpu_list_algebra 8 16
  constructor
  · exact algebra.1 {0, 1, 2} (by norm_num) (by decide) (by decide +kernel)
  · exact algebra.2.1 "0-2".toList {0, 1, 2} (by decide +kernel) 1

def brokenList : Str := "0-3\n,5".toList

theorem cpu_search_stops :
    parseCpulistInto 1024 brokenList = some {0, 1, 2, 3, 5} ∧
      cpuDevInList brokenList (decimalText 5) = false ∧
      ¬ ∀ ncpus list P, parseCpulistInto ncpus list = some P → ∀ c,
        cpuDevInList list (decimalText c) = decide (c ∈ P) := by
  have parsed : parseCpulistInto 1024 brokenList = some {0, 1, 2, 3, 5} := by decide +kernel
  have missed : cpuDevInList brokenList (decimalText 5) = false := by decide +kernel
  refine ⟨parsed, missed, fun agree => ?_⟩
  have same := agree 1024 brokenList _ parsed 5
  exact absurd same (by decide)

end Algebra

end PerfStats.Monitor
