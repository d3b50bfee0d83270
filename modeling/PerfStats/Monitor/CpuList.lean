import PerfStats.Words

namespace PerfStats.Monitor

open Text

section Reading

def isCSpace (c : Char) : Bool := c = ' ' || (9 ≤ c.toNat && c.toNat ≤ 13)

/-- `strtol(s, &end, 10)`: the number, whether it was out of range, and what `end` points to;
`none` where there are no digits. -/
def strtol (s : Str) : Option (Int × Bool × Str) :=
  let signed := sign (s.dropWhile isCSpace)
  let digits := signed.2.takeWhile isDigit
  if digits = [] then none
  else
    let n := signed.1 * Nat.ofDigitChars 10 digits 0
    some (max (-2 ^ 63) (min (2 ^ 63 - 1) n), decide (n < -2 ^ 63 ∨ 2 ^ 63 - 1 < n),
      signed.2.dropWhile isDigit)

/-- The next `a` or `a-b` of a list, behind separators: an error where it is malformed, nothing
at the end of the list. -/
def nextRange (sep : Char → Bool) (s : Str) : Except Unit (Option ((Int × Int) × Str)) :=
  match s.dropWhile sep with
  | [] => .ok none
  | c :: rest =>
    match strtol (c :: rest) with
    | none => .error ()
    | some (a, _, behind) =>
      if a < 0 then .error ()
      else
        match behind with
        | '-' :: more =>
          match strtol more with
          | none => .error ()
          | some (b, _, behind) => if b < a then .error () else .ok (some ((a, b), behind))
        | _ => .ok (some ((a, a), behind))

def parseSep (c : Char) : Bool := c = ',' || c = ' ' || c = '\t' || c = '\n'

def searchSep (c : Char) : Bool := c = ',' || c = ' ' || c = '\t'

/-- The loop of `parse_cpulist_into`. -/
def parseFrom (ncpus : Nat) : Nat → Finset Nat → Str → Option (Finset Nat)
  | 0, _, _ => none
  | fuel + 1, set, s =>
    match nextRange parseSep s with
    | .error () => none
    | .ok none => some set
    | .ok (some (range, behind)) =>
      if (ncpus : Int) ≤ range.2 then none
      else parseFrom ncpus fuel (set ∪ Finset.Icc range.1.toNat range.2.toNat) behind

/-- The set, or nothing where it returns −1. Each turn of its loop takes
a character. -/
def parseCpulistInto (ncpus : Nat) (list : Str) : Option (Finset Nat) :=
  parseFrom ncpus (list.length + 1) ∅ list

def searchFrom (cpu : Int) : Nat → Str → Bool
  | 0, _ => false
  | fuel + 1, s =>
    match nextRange searchSep s with
    | .error () => false
    | .ok none => false
    | .ok (some (range, behind)) =>
      if range.1 ≤ cpu ∧ cpu ≤ range.2 then true else searchFrom cpu fuel behind

/-- `job_sched_affinity_cpu_dev_in_list`. -/
def cpuDevInList (cpulist cpuDev : Str) : Bool :=
  match strtol cpuDev with
  | some (cpu, false, []) =>
    if cpulist = [] ∨ cpu < 0 then false else searchFrom cpu (cpulist.length + 1) cpulist
  | _ => false

def boundSep (c : Char) : Bool := c = ',' || c = ' ' || c = '-' || c = '\t' || c = '\n'

def maxCpuFrom : Nat → Int → Str → Int
  | 0, maxCpu, _ => maxCpu
  | fuel + 1, maxCpu, s =>
    match s.dropWhile boundSep with
    | [] => maxCpu
    | c :: rest =>
      match strtol (c :: rest) with
      | none => maxCpu
      | some (v, _, behind) => maxCpuFrom fuel (max maxCpu v) behind

end Reading

section Writing

def runEnd (set : Finset Nat) (ncpus : Nat) : Nat → Nat → Nat
  | 0, e => e
  | fuel + 1, e => if e + 1 < ncpus ∧ e + 1 ∈ set then runEnd set ncpus fuel (e + 1) else e

def cpuRuns (set : Finset Nat) (ncpus : Nat) : Nat → Nat → List (Nat × Nat)
  | 0, _ => []
  | fuel + 1, i =>
    if ncpus ≤ i then []
    else if i ∈ set then
      let last := runEnd set ncpus ncpus i
      (i, last) :: cpuRuns set ncpus fuel (last + 1)
    else cpuRuns set ncpus fuel (i + 1)

def pieceText (p : Nat × Nat) : Str :=
  if p.1 = p.2 then decimalText p.1 else decimalText p.1 ++ '-' :: decimalText p.2

/-- Pieces written behind `out` while they fit, and whether all did. -/
def writePieces (cap : Nat) : Str → List (Nat × Nat) → Str × Bool
  | out, [] => (out, true)
  | out, p :: rest =>
    let piece := (if out = [] then [] else [',']) ++ pieceText p
    if cap ≤ out.length + piece.length then (out, false)
    else writePieces cap (out ++ piece) rest

/-- What is in the buffer then, and whether it returns 0. -/
def formatCpulist (set : Finset Nat) (ncpus cap : Nat) : Str × Bool :=
  writePieces cap [] (cpuRuns set ncpus ncpus 0)

/-- `ncpus` of a subtraction: room for the largest number of any of its lists. -/
def subtractNcpus (onlineList : Str) (claimed : List Str) : Nat :=
  let maxCpu := (onlineList :: claimed).foldl (fun m s => maxCpuFrom (s.length + 1) m s) (-1)
  max 1024 (maxCpu + 1).toNat

/-- What it leaves in `out`, and whether it returns 0. -/
def cpulistSubtract (onlineList : Str) (claimed : List Str) (cap : Nat) : Str × Bool :=
  let ncpus := subtractNcpus onlineList claimed
  if onlineList = [] then ([], false)
  else
    match parseCpulistInto ncpus onlineList with
    | none => ([], false)
    | some online =>
      let claim := (claimed.filterMap (parseCpulistInto ncpus)).foldl (· ∪ ·) ∅
      formatCpulist (online \ claim) ncpus cap

end Writing

section Texts

def tailText (ps : List (Nat × Nat)) : Str := ps.flatMap fun q => ',' :: pieceText q

def listText : List (Nat × Nat) → Str
  | [] => []
  | p :: ps => pieceText p ++ tailText ps

def Covers (ps : List (Nat × Nat)) (c : Nat) : Prop := ∃ p ∈ ps, p.1 ≤ c ∧ c ≤ p.2

/-- Pieces a list may hold: from a number to one that is no smaller and that a `long` has. -/
def PiecesReadable (ps : List (Nat × Nat)) : Prop := ∀ p ∈ ps, p.1 ≤ p.2 ∧ p.2 < 2 ^ 63

def Stops (rest : Str) : Prop := ∀ c ∈ rest.head?, isDigit c = false ∧ c ≠ '-'

variable {ps qs : List (Nat × Nat)} {p : Nat × Nat} {rest : Str} {sep : Char → Bool} {c : Nat}
  {ncpus : Nat}

theorem covers_cons : Covers (p :: ps) c ↔ p.1 ≤ c ∧ c ≤ p.2 ∨ Covers ps c := by simp [Covers]

theorem covers_append : Covers (ps ++ qs) c ↔ Covers ps c ∨ Covers qs c := by
  simp [Covers, or_and_right, exists_or]

theorem strtol_decimalText (n : Nat) (rest : Str) (stops : ∀ c ∈ rest.head?, isDigit c = false) :
    strtol (decimalText n ++ rest) =
      some (min (2 ^ 63 - 1 : Int) n, decide ((2 ^ 63 - 1 : Int) < n), rest) := by
  obtain ⟨first, more, shape⟩ := List.exists_cons_of_ne_nil (decimalText_word n).1
  have digits := decimalText_digits n
  have digit : isDigit first = true := digits first (by rw [shape]; exact .head _)
  have solid : isCSpace first = false := by
    have plain := isSpace_of_isDigit digit
    rw [Bool.eq_false_iff]
    intro blank
    rw [isCSpace, Bool.or_eq_true, decide_eq_true_iff, Bool.and_eq_true, decide_eq_true_iff,
      decide_eq_true_iff] at blank
    obtain rfl | range := blank
    · exact absurd plain (by decide)
    · simp [isSpace, range] at plain
  have kept : (decimalText n ++ rest).dropWhile isCSpace = decimalText n ++ rest := by
    rw [shape, List.cons_append, List.dropWhile_cons_of_neg (by simpa using solid)]
  have unsigned : sign (decimalText n ++ rest) = (1, decimalText n ++ rest) := by
    rw [shape, List.cons_append, sign_of_digit digit]
  have taken : (decimalText n ++ rest).takeWhile isDigit = decimalText n := by
    rw [List.takeWhile_append_of_pos digits]
    cases rest with
    | nil => simp
    | cons d rest => rw [List.takeWhile_cons_of_neg (by simpa using stops d rfl), List.append_nil]
  have left : (decimalText n ++ rest).dropWhile isDigit = rest := by
    rw [List.dropWhile_append_of_pos digits]
    cases rest with
    | nil => rfl
    | cons d rest => rw [List.dropWhile_cons_of_neg (by simpa using stops d rfl)]
  have value : Nat.ofDigitChars 10 (decimalText n) 0 = n := Nat.ofDigitChars_ten_toDigits
  have inside : ((n : Int) < -2 ^ 63 ∨ 2 ^ 63 - 1 < (n : Int)) ↔ (2 ^ 63 - 1 : Int) < n := by omega
  have clamped : max (-2 ^ 63) (min (2 ^ 63 - 1) (n : Int)) = min (2 ^ 63 - 1 : Int) n := by omega
  rw [strtol, kept, unsigned]
  simp only [taken, left, value, if_neg (decimalText_word n).1, one_mul, clamped, inside]

theorem strtol_decimal {n : Nat} (rest : Str) (small : n < 2 ^ 63)
    (stops : ∀ c ∈ rest.head?, isDigit c = false) :
    strtol (decimalText n ++ rest) = some ((n : Int), false, rest) := by
  have clamped : min (2 ^ 63 - 1 : Int) n = n := by omega
  rw [strtol_decimalText n rest stops, clamped, decide_eq_false (by omega)]

theorem nextRange_piece (plain : ∀ d, isDigit d = true → sep d = false) (ordered : p.1 ≤ p.2)
    (small : p.2 < 2 ^ 63) (stops : Stops rest) :
    nextRange sep (pieceText p ++ rest) = .ok (some (((p.1 : Int), (p.2 : Int)), rest)) := by
  have starts : ∀ (n : Nat) (more : Str), ∃ d text, decimalText n ++ more = d :: text ∧
      (decimalText n ++ more).dropWhile sep = d :: text := by
    intro n more
    obtain ⟨d, text, shape⟩ := List.exists_cons_of_ne_nil (decimalText_word n).1
    have digit : isDigit d = true :=
      decimalText_digits n d (by rw [shape]; exact .head _)
    refine ⟨d, text ++ more, by rw [shape]; rfl, ?_⟩
    rw [shape, List.cons_append, List.dropWhile_cons_of_neg (by simp [plain d digit])]
  have positive : ¬ ((p.1 : Int) < 0) := by omega
  rw [pieceText]
  by_cases single : p.1 = p.2
  · obtain ⟨d, text, whole, kept⟩ := starts p.1 rest
    have number := strtol_decimal rest (ordered.trans_lt small) fun c member => (stops c member).1
    rw [whole] at number
    rw [if_pos single, nextRange, kept]
    dsimp only
    rw [number]
    dsimp only
    rw [if_neg positive]
    cases rest with
    | nil => rw [← single]
    | cons e rest =>
      have other : e ≠ '-' := (stops e rfl).2
      simp [other, single]
  · have later : ¬ ((p.2 : Int) < p.1) := by omega
    obtain ⟨d, text, whole, kept⟩ := starts p.1 ('-' :: (decimalText p.2 ++ rest))
    have number := strtol_decimal ('-' :: (decimalText p.2 ++ rest))
      (ordered.trans_lt small) (by simp; decide)
    rw [whole] at number
    rw [if_neg single, List.append_assoc, List.cons_append, nextRange, kept]
    dsimp only
    rw [number]
    dsimp only
    have last := strtol_decimal rest small fun c member => (stops c member).1
    rw [if_neg positive]
    simp only [last, if_neg later]

theorem stops_tail (stops : Stops rest) : Stops (tailText ps ++ rest) := by
  cases ps with
  | nil => simpa [tailText] using stops
  | cons p ps =>
    intro c member
    obtain rfl : ',' = c := by simpa [tailText] using member
    decide

theorem nextRange_tail (plain : ∀ d, isDigit d = true → sep d = false) (comma : sep ',' = true)
    (readable : PiecesReadable (p :: ps)) (stops : Stops rest) :
    nextRange sep (tailText (p :: ps) ++ rest) =
      .ok (some (((p.1 : Int), (p.2 : Int)), tailText ps ++ rest)) := by
  obtain ⟨ordered, small⟩ := readable p (.head _)
  have skip : nextRange sep (',' :: (pieceText p ++ (tailText ps ++ rest))) =
      nextRange sep (pieceText p ++ (tailText ps ++ rest)) := by
    rw [nextRange, nextRange, List.dropWhile_cons_of_pos comma]
  have text : tailText (p :: ps) ++ rest = ',' :: (pieceText p ++ (tailText ps ++ rest)) := by
    simp [tailText]
  rw [text, skip, nextRange_piece plain ordered small (stops_tail stops)]

theorem nextRange_list (plain : ∀ d, isDigit d = true → sep d = false)
    (readable : PiecesReadable (p :: ps)) (stops : Stops rest) :
    nextRange sep (listText (p :: ps) ++ rest) =
      .ok (some (((p.1 : Int), (p.2 : Int)), tailText ps ++ rest)) := by
  obtain ⟨ordered, small⟩ := readable p (.head _)
  rw [listText, List.append_assoc, nextRange_piece plain ordered small (stops_tail stops)]

theorem parseSep_plain (d : Char) (digit : isDigit d = true) : parseSep d = false := by
  rw [Bool.eq_false_iff]
  intro sep
  simp only [parseSep, Bool.or_eq_true, decide_eq_true_iff] at sep
  obtain ((rfl | rfl) | rfl) | rfl := sep <;> exact absurd digit (by decide)

theorem searchSep_plain (d : Char) (digit : isDigit d = true) : searchSep d = false := by
  rw [Bool.eq_false_iff]
  intro sep
  simp only [searchSep, Bool.or_eq_true, decide_eq_true_iff] at sep
  obtain (rfl | rfl) | rfl := sep <;> exact absurd digit (by decide)

theorem pieceText_ne_nil (p : Nat × Nat) : pieceText p ≠ [] := by
  rw [pieceText]
  split
  · exact (decimalText_word p.1).1
  · simp

theorem listText_nil_iff : listText ps = [] ↔ ps = [] := by
  cases ps with
  | nil => simp [listText]
  | cons p ps => simp [listText, pieceText_ne_nil]

theorem tailText_length (ps : List (Nat × Nat)) : 2 * ps.length ≤ (tailText ps).length := by
  induction ps with
  | nil => exact Nat.le_refl 0
  | cons p ps ih =>
    have some_text := List.length_pos_iff.mpr (pieceText_ne_nil p)
    have cut : tailText (p :: ps) = ',' :: pieceText p ++ tailText ps := by simp [tailText]
    rw [cut, List.length_append, List.length_cons, List.length_cons]
    omega

theorem listText_length (ps : List (Nat × Nat)) : ps.length ≤ (listText ps).length := by
  cases ps with
  | nil => exact Nat.le_refl 0
  | cons p ps =>
    have some_text := List.length_pos_iff.mpr (pieceText_ne_nil p)
    have tail := tailText_length ps
    rw [listText, List.length_append, List.length_cons]
    omega

def Ends (rest : Str) : Prop := rest = [] ∨ rest = ['\n']

theorem Ends.stops (ends : Ends rest) : Stops rest := by
  obtain rfl | rfl := ends
  · simp [Stops]
  · intro c member
    obtain rfl : '\n' = c := by simpa using member
    decide

theorem Ends.parsed (ends : Ends rest) : nextRange parseSep rest = .ok none := by
  obtain rfl | rfl := ends <;> rfl

theorem parseFrom_step {ncpus fuel : Nat} {set : Finset Nat} {text behind : Str}
    (next : nextRange parseSep text = .ok (some (((p.1 : Int), (p.2 : Int)), behind)))
    (inside : p.2 < ncpus) :
    parseFrom ncpus (fuel + 1) set text = parseFrom ncpus fuel (set ∪ Finset.Icc p.1 p.2) behind := by
  rw [parseFrom, next]
  dsimp only
  rw [if_neg (by omega), Int.toNat_natCast, Int.toNat_natCast]

theorem mem_piece {set : Finset Nat} :
    c ∈ set ∪ Finset.Icc p.1 p.2 ∨ Covers ps c ↔ c ∈ set ∨ Covers (p :: ps) c := by
  rw [Finset.mem_union, Finset.mem_Icc, covers_cons, or_assoc]

theorem parseFrom_tail (ends : Ends rest) (readable : PiecesReadable ps)
    (inside : ∀ p ∈ ps, p.2 < ncpus) (fuel : Nat) (enough : ps.length < fuel) (set : Finset Nat) :
    ∃ parsed, parseFrom ncpus fuel set (tailText ps ++ rest) = some parsed ∧
      ∀ c, c ∈ parsed ↔ c ∈ set ∨ Covers ps c := by
  induction ps generalizing set fuel with
  | nil =>
    obtain ⟨fuel, rfl⟩ : ∃ more, fuel = more + 1 := ⟨fuel - 1, by simp at enough; omega⟩
    refine ⟨set, ?_, fun c => by simp [Covers]⟩
    have text : tailText [] ++ rest = rest := rfl
    rw [text, parseFrom, ends.parsed]
  | cons p ps ih =>
    obtain ⟨fuel, rfl⟩ : ∃ more, fuel = more + 1 := ⟨fuel - 1, by simp at enough; omega⟩
    have next := nextRange_tail parseSep_plain rfl readable ends.stops
    obtain ⟨parsed, result, members⟩ := ih (fun q member => readable q (.tail p member))
      (fun q member => inside q (.tail p member)) fuel (by simpa using enough)
      (set ∪ Finset.Icc p.1 p.2)
    refine ⟨parsed, ?_, fun c => ?_⟩
    · rw [parseFrom_step next (inside p (.head _)), result]
    · rw [members, mem_piece]

theorem parseCpulistInto_list (ends : Ends rest) (readable : PiecesReadable ps)
    (inside : ∀ p ∈ ps, p.2 < ncpus) :
    ∃ parsed, parseCpulistInto ncpus (listText ps ++ rest) = some parsed ∧
      ∀ c, c ∈ parsed ↔ Covers ps c := by
  have long := listText_length ps
  cases ps with
  | nil =>
    refine ⟨∅, ?_, fun c => by simp [Covers]⟩
    have text : listText [] ++ rest = rest := rfl
    rw [parseCpulistInto, text, parseFrom, ends.parsed]
  | cons p ps =>
    have next := nextRange_list parseSep_plain readable ends.stops
    obtain ⟨parsed, result, members⟩ := parseFrom_tail ends
      (fun q member => readable q (.tail p member))
      (fun q member => inside q (.tail p member))
      (listText (p :: ps) ++ rest).length
      (by rw [List.length_append]; rw [List.length_cons] at long; omega)
      (∅ ∪ Finset.Icc p.1 p.2)
    refine ⟨parsed, ?_, fun c => ?_⟩
    · rw [parseCpulistInto, parseFrom_step next (inside p (.head _)), result]
    · rw [members, mem_piece]
      simp

theorem parseFrom_over {ncpus fuel : Nat} {set : Finset Nat} {text behind : Str}
    (next : nextRange parseSep text = .ok (some (((p.1 : Int), (p.2 : Int)), behind)))
    (large : ncpus ≤ p.2) : parseFrom ncpus (fuel + 1) set text = none := by
  rw [parseFrom, next]
  dsimp only
  rw [if_pos (by omega)]

theorem parseFrom_tail_over (ends : Ends rest) (readable : PiecesReadable ps)
    (large : ∃ p ∈ ps, ncpus ≤ p.2) (fuel : Nat) (set : Finset Nat) :
    parseFrom ncpus fuel set (tailText ps ++ rest) = none := by
  induction ps generalizing set fuel with
  | nil =>
    obtain ⟨p, member, _⟩ := large
    cases member
  | cons p ps ih =>
    cases fuel with
    | zero => rfl
    | succ fuel =>
      have next := nextRange_tail parseSep_plain rfl readable ends.stops
      by_cases here : ncpus ≤ p.2
      · exact parseFrom_over next here
      · rw [parseFrom_step next (by omega)]
        obtain ⟨q, member, large⟩ := large
        obtain rfl | later := List.mem_cons.mp member
        · exact absurd large here
        · exact ih (fun r listed => readable r (.tail p listed)) ⟨q, later, large⟩
            fuel _

theorem parseCpulistInto_over (ends : Ends rest) (readable : PiecesReadable ps)
    (large : ∃ p ∈ ps, ncpus ≤ p.2) : parseCpulistInto ncpus (listText ps ++ rest) = none := by
  cases ps with
  | nil =>
    obtain ⟨p, member, _⟩ := large
    cases member
  | cons p ps =>
    have next := nextRange_list parseSep_plain readable ends.stops
    rw [parseCpulistInto]
    by_cases here : ncpus ≤ p.2
    · exact parseFrom_over next here
    · rw [parseFrom_step next (by omega)]
      obtain ⟨q, member, large⟩ := large
      obtain rfl | later := List.mem_cons.mp member
      · exact absurd large here
      · exact parseFrom_tail_over ends (fun r listed => readable r (.tail p listed))
          ⟨q, later, large⟩ _ _

theorem searchFrom_tail {cpu : Nat} (readable : PiecesReadable ps) (fuel : Nat)
    (enough : ps.length < fuel) : searchFrom cpu fuel (tailText ps) = true ↔ Covers ps cpu := by
  induction ps generalizing fuel with
  | nil =>
    obtain ⟨fuel, rfl⟩ : ∃ more, fuel = more + 1 := ⟨fuel - 1, by simp at enough; omega⟩
    simp [tailText, searchFrom, nextRange, Covers]
  | cons p ps ih =>
    obtain ⟨fuel, rfl⟩ : ∃ more, fuel = more + 1 := ⟨fuel - 1, by simp at enough; omega⟩
    have next := @nextRange_tail ps p [] searchSep searchSep_plain rfl readable (by simp [Stops])
    rw [List.append_nil, List.append_nil] at next
    have later := ih (fun q member => readable q (.tail p member))
      fuel (by simpa using enough)
    rw [searchFrom, next]
    rw [covers_cons, ← later]
    by_cases here : p.1 ≤ cpu ∧ cpu ≤ p.2
    · simp [here]
    · simp [here]

theorem cpuDevInList_list {cpu : Nat} (readable : PiecesReadable ps) (small : cpu < 2 ^ 63) :
    cpuDevInList (listText ps) (decimalText cpu) = true ↔ Covers ps cpu := by
  have number := strtol_decimal [] small (by simp)
  rw [List.append_nil] at number
  have positive : ¬ ((cpu : Int) < 0) := by omega
  rw [cpuDevInList, number]
  dsimp only
  have long := listText_length ps
  cases ps with
  | nil => simp [listText, Covers]
  | cons p ps =>
    have some_text : listText (p :: ps) ≠ [] := by
      rw [ne_eq, listText_nil_iff]
      exact List.cons_ne_nil p ps
    have next := @nextRange_list ps p [] searchSep searchSep_plain readable (by simp [Stops])
    rw [List.append_nil, List.append_nil] at next
    have later := @searchFrom_tail ps cpu
      (fun q member => readable q (.tail p member)) (listText (p :: ps)).length
      (by rw [List.length_cons] at long; omega)
    rw [if_neg (by simp [some_text, positive]), searchFrom, next]
    rw [covers_cons, ← later]
    by_cases here : p.1 ≤ cpu ∧ cpu ≤ p.2
    · simp [here]
    · simp [here]

theorem maxCpuFrom_le (fuel : Nat) (m : Int) (s : Str) : m ≤ maxCpuFrom fuel m s := by
  induction fuel generalizing m s with
  | zero => exact le_rfl
  | succ fuel ih =>
    rw [maxCpuFrom]
    split
    · exact le_rfl
    · split
      · exact le_rfl
      · next v _ behind _ => exact (le_max_left m v).trans (ih _ _)

theorem maxCpuFrom_number {n fuel : Nat} {m : Int} {seps : Str}
    (skipped : ∀ c ∈ seps, boundSep c = true)
    (small : n < 2 ^ 63) (stops : ∀ c ∈ rest.head?, isDigit c = false) :
    maxCpuFrom (fuel + 1) m (seps ++ (decimalText n ++ rest)) = maxCpuFrom fuel (max m n) rest := by
  have number := strtol_decimal rest small stops
  obtain ⟨d, text, shape⟩ := List.exists_cons_of_ne_nil (decimalText_word n).1
  have digit : isDigit d = true := decimalText_digits n d (by rw [shape]; exact .head _)
  have plain : boundSep d = false := by
    rw [Bool.eq_false_iff]
    intro sep
    simp only [boundSep, Bool.or_eq_true, decide_eq_true_iff] at sep
    obtain (((rfl | rfl) | rfl) | rfl) | rfl := sep <;> exact absurd digit (by decide)
  have kept : (seps ++ (decimalText n ++ rest)).dropWhile boundSep = d :: (text ++ rest) := by
    rw [List.dropWhile_append_of_pos skipped, shape, List.cons_append,
      List.dropWhile_cons_of_neg (by simp [plain])]
  rw [shape, List.cons_append] at number
  rw [maxCpuFrom, kept]
  dsimp only
  rw [number]

theorem maxCpuFrom_piece {fuel : Nat} {m : Int} {seps : Str}
    (skipped : ∀ c ∈ seps, boundSep c = true)
    (ordered : p.1 ≤ p.2) (small : p.2 < 2 ^ 63) (stops : ∀ c ∈ rest.head?, isDigit c = false) :
    ∃ fuel' n, fuel ≤ fuel' ∧ max m p.2 ≤ n ∧
      maxCpuFrom (fuel + 2) m (seps ++ (pieceText p ++ rest)) = maxCpuFrom fuel' n rest := by
  rw [pieceText]
  by_cases single : p.1 = p.2
  · refine ⟨fuel + 1, max m p.1, Nat.le_succ fuel, by rw [single], ?_⟩
    rw [if_pos single, maxCpuFrom_number skipped (ordered.trans_lt small) stops]
  · refine ⟨fuel, max (max m p.1) p.2, le_rfl, max_le_max_right _ (le_max_left _ _), ?_⟩
    have text : seps ++ (decimalText p.1 ++ '-' :: decimalText p.2 ++ rest) =
        seps ++ (decimalText p.1 ++ (['-'] ++ (decimalText p.2 ++ rest))) := by simp
    rw [if_neg single, text, maxCpuFrom_number skipped (ordered.trans_lt small) (by simp; decide),
      maxCpuFrom_number (by simp [boundSep]) small stops]

theorem maxCpuFrom_tail (readable : PiecesReadable ps) (stops : Stops rest) (fuel : Nat) (m : Int)
    (enough : 2 * ps.length ≤ fuel) :
    ∀ p ∈ ps, (p.2 : Int) ≤ maxCpuFrom fuel m (tailText ps ++ rest) := by
  induction ps generalizing fuel m with
  | nil => simp
  | cons p ps ih =>
    obtain ⟨fuel, rfl⟩ : ∃ more, fuel = more + 2 :=
      ⟨fuel - 2, by rw [List.length_cons] at enough; omega⟩
    obtain ⟨ordered, small⟩ := readable p (.head _)
    have behind : ∀ c ∈ (tailText ps ++ rest).head?, isDigit c = false :=
      fun c member => (stops_tail stops c member).1
    obtain ⟨fuel', n, more, bound, result⟩ := @maxCpuFrom_piece p _ fuel m [','] (by simp [boundSep])
      ordered small behind
    have text : tailText (p :: ps) ++ rest = [','] ++ (pieceText p ++ (tailText ps ++ rest)) := by
      simp [tailText]
    rw [text, result, List.forall_mem_cons]
    constructor
    · exact ((le_max_right m _).trans bound).trans (maxCpuFrom_le _ _ _)
    · refine ih (fun q member => readable q (.tail p member)) fuel' n ?_
      rw [List.length_cons] at enough
      omega

theorem maxCpuFrom_list (readable : PiecesReadable ps) (stops : Stops rest) (m : Int) :
    ∀ p ∈ ps, (p.2 : Int) ≤ maxCpuFrom ((listText ps ++ rest).length + 1) m (listText ps ++ rest) := by
  cases ps with
  | nil => simp
  | cons p ps =>
    obtain ⟨ordered, small⟩ := readable p (.head _)
    have behind : ∀ c ∈ (tailText ps ++ rest).head?, isDigit c = false :=
      fun c member => (stops_tail stops c member).1
    have some_text := List.length_pos_iff.mpr (pieceText_ne_nil p)
    have long := tailText_length ps
    have turns : ∃ fuel, (listText (p :: ps) ++ rest).length + 1 = fuel + 2 ∧
        2 * ps.length ≤ fuel := by
      refine ⟨(listText (p :: ps) ++ rest).length - 1, ?_, ?_⟩ <;>
        rw [listText, List.length_append, List.length_append] <;> omega
    obtain ⟨fuel, count, enough⟩ := turns
    obtain ⟨fuel', n, more, bound, result⟩ := @maxCpuFrom_piece p _ fuel m [] (by simp) ordered small
      behind
    have text : listText (p :: ps) ++ rest = [] ++ (pieceText p ++ (tailText ps ++ rest)) := by
      simp [listText]
    rw [count, text, result, List.forall_mem_cons]
    exact ⟨((le_max_right m _).trans bound).trans (maxCpuFrom_le _ _ _),
      maxCpuFrom_tail (fun q member => readable q (.tail p member)) stops fuel' n
        (enough.trans more)⟩

end Texts

section Runs

variable {set : Finset Nat} {ncpus : Nat} {ps : List (Nat × Nat)}

theorem runEnd_spec (fuel : Nat) {e : Nat} (member : e ∈ set) (inside : e < ncpus) :
    e ≤ runEnd set ncpus fuel e ∧ runEnd set ncpus fuel e < ncpus ∧
      ∀ c, e ≤ c → c ≤ runEnd set ncpus fuel e → c ∈ set := by
  induction fuel generalizing e with
  | zero =>
    refine ⟨le_rfl, inside, fun c low high => ?_⟩
    obtain rfl : c = e := Nat.le_antisymm high low
    exact member
  | succ fuel ih =>
    rw [runEnd]
    split
    · next further =>
        obtain ⟨grows, bound, all⟩ := ih further.2 further.1
        refine ⟨by omega, bound, fun c low high => ?_⟩
        obtain rfl | later := Nat.eq_or_lt_of_le low
        · exact member
        · exact all c later high
    · refine ⟨le_rfl, inside, fun c low high => ?_⟩
      obtain rfl : c = e := Nat.le_antisymm high low
      exact member

theorem runEnd_last (fuel : Nat) {e : Nat} (enough : ncpus ≤ fuel + e)
    (further : runEnd set ncpus fuel e + 1 < ncpus) : runEnd set ncpus fuel e + 1 ∉ set := by
  induction fuel generalizing e with
  | zero =>
    rw [runEnd] at further
    omega
  | succ fuel ih =>
    rw [runEnd] at further ⊢
    split at further
    · next grows =>
        rw [if_pos grows]
        exact ih (by omega) further
    · next stays =>
        rw [if_neg stays]
        intro member
        exact stays ⟨further, member⟩

structure Runs (ps : List (Nat × Nat)) : Prop where
  ordered : ∀ p ∈ ps, p.1 ≤ p.2
  apart : ps.Pairwise fun p q => p.2 + 1 < q.1

/-- The runs from `i` on: just the members from `i` on. -/
structure RunsFrom (set : Finset Nat) (ncpus i : Nat) (ps : List (Nat × Nat)) : Prop where
  runs : Runs ps
  inside : ∀ p ∈ ps, i ≤ p.1 ∧ p.2 < ncpus
  starts : ∀ p ∈ ps, p.1 ∈ set
  covers : ∀ c, Covers ps c ↔ i ≤ c ∧ c < ncpus ∧ c ∈ set

theorem cpuRuns_spec (fuel i : Nat) (enough : ncpus ≤ fuel + i) :
    RunsFrom set ncpus i (cpuRuns set ncpus fuel i) := by
  induction fuel generalizing i with
  | zero =>
    refine ⟨⟨by simp [cpuRuns], .nil⟩, by simp [cpuRuns], by simp [cpuRuns], fun c => ?_⟩
    have none_left : ¬ (i ≤ c ∧ c < ncpus ∧ c ∈ set) := fun inside => by omega
    simp [cpuRuns, Covers, none_left]
  | succ fuel ih =>
    rw [cpuRuns]
    by_cases past : ncpus ≤ i
    · rw [if_pos past]
      refine ⟨⟨by simp, .nil⟩, by simp, by simp, fun c => ?_⟩
      have none_left : ¬ (i ≤ c ∧ c < ncpus ∧ c ∈ set) := fun inside => by omega
      simp [Covers, none_left]
    · rw [if_neg past]
      by_cases member : i ∈ set
      · rw [if_pos member]
        obtain ⟨grows, bound, all⟩ := @runEnd_spec set ncpus ncpus i member (by omega)
        have last := @runEnd_last set ncpus ncpus i (by omega)
        have rest := ih (runEnd set ncpus ncpus i + 1) (by omega)
        refine ⟨⟨?_, ?_⟩, ?_, ?_, fun c => ?_⟩
        · rw [List.forall_mem_cons]
          exact ⟨grows, rest.runs.ordered⟩
        · rw [List.pairwise_cons]
          refine ⟨fun p inside => ?_, rest.runs.apart⟩
          obtain ⟨low, high⟩ := rest.inside p inside
          have order := rest.runs.ordered p inside
          obtain next | later := Nat.eq_or_lt_of_le low
          · exact absurd (next ▸ rest.starts p inside) (last (by omega))
          · exact later
        · rw [List.forall_mem_cons]
          refine ⟨⟨le_rfl, bound⟩, fun p inside => ?_⟩
          obtain ⟨low, high⟩ := rest.inside p inside
          exact ⟨by omega, high⟩
        · rw [List.forall_mem_cons]
          exact ⟨member, rest.starts⟩
        · rw [covers_cons, rest.covers]
          constructor
          · intro here
            obtain ⟨low, high⟩ | ⟨low, high, inside⟩ := here
            · exact ⟨low, by dsimp only at high; omega, all c low high⟩
            · exact ⟨by omega, high, inside⟩
          · intro ⟨low, high, inside⟩
            by_cases here : c ≤ runEnd set ncpus ncpus i
            · exact .inl ⟨low, here⟩
            · exact .inr ⟨by omega, high, inside⟩
      · rw [if_neg member]
        have rest := ih (i + 1) (by omega)
        refine ⟨rest.runs, fun p inside => ?_, rest.starts, fun c => ?_⟩
        · obtain ⟨low, high⟩ := rest.inside p inside
          exact ⟨by omega, high⟩
        · rw [rest.covers]
          constructor
          · intro ⟨low, high, inside⟩
            exact ⟨by omega, high, inside⟩
          · intro ⟨low, high, inside⟩
            have other : c ≠ i := fun same => member (same ▸ inside)
            exact ⟨by omega, high, inside⟩

theorem Runs.tail {p : Nat × Nat} (runs : Runs (p :: ps)) : Runs ps :=
  ⟨fun q member => runs.ordered q (.tail p member), (List.pairwise_cons.mp runs.apart).2⟩

theorem Runs.later {p : Nat × Nat} {c : Nat} (runs : Runs (p :: ps))
    (covered : Covers ps c) : p.2 + 1 < c := by
  obtain ⟨q, member, low, _⟩ := covered
  exact ((List.pairwise_cons.mp runs.apart).1 q member).trans_le low

theorem Runs.head_le {p q : Nat × Nat} {ps qs : List (Nat × Nat)} (runs : Runs (p :: ps))
    (others : Runs (q :: qs)) (same : ∀ c, Covers (p :: ps) c ↔ Covers (q :: qs) c) :
    q.1 ≤ p.1 ∧ (p.1 = q.1 → p.2 ≤ q.2) := by
  have order := runs.ordered p (.head _)
  have other_order := others.ordered q (.head _)
  constructor
  · obtain ⟨low, _⟩ | covered := covers_cons.mp ((same p.1).mp (covers_cons.mpr (.inl ⟨le_rfl, order⟩)))
    · exact low
    · have := others.later covered
      omega
  · intro start
    by_contra longer
    have covered := (same (q.2 + 1)).mp (covers_cons.mpr (.inl ⟨by omega, by omega⟩))
    obtain ⟨_, high⟩ | covered := covers_cons.mp covered
    · omega
    · have := others.later covered
      omega

theorem Runs.unique {ps qs : List (Nat × Nat)} (runs : Runs ps) (others : Runs qs)
    (same : ∀ c, Covers ps c ↔ Covers qs c) : ps = qs := by
  induction ps generalizing qs with
  | nil =>
    cases qs with
    | nil => rfl
    | cons q qs =>
      have covered := (same q.1).mpr
        (covers_cons.mpr (.inl ⟨le_rfl, others.ordered q (.head _)⟩))
      simp [Covers] at covered
  | cons p ps ih =>
    cases qs with
    | nil =>
      have covered := (same p.1).mp
        (covers_cons.mpr (.inl ⟨le_rfl, runs.ordered p (.head _)⟩))
      simp [Covers] at covered
    | cons q qs =>
      obtain ⟨start_le, end_le⟩ := runs.head_le others same
      obtain ⟨start_ge, end_ge⟩ := others.head_le runs fun c => (same c).symm
      have start := Nat.le_antisymm start_ge start_le
      have first : p = q := Prod.ext start (Nat.le_antisymm (end_le start) (end_ge start.symm))
      subst first
      have rest : ps = qs := by
        refine ih runs.tail others.tail fun c => ?_
        constructor
        · intro covered
          obtain ⟨_, high⟩ | found := covers_cons.mp ((same c).mp (covers_cons.mpr (.inr covered)))
          · have := runs.later covered
            omega
          · exact found
        · intro covered
          obtain ⟨_, high⟩ | found := covers_cons.mp ((same c).mpr (covers_cons.mpr (.inr covered)))
          · have := others.later covered
            omega
          · exact found
      rw [rest]

def cpuText (set : Finset Nat) : Str := listText (cpuRuns set (set.sup id + 1) (set.sup id + 1) 0)

theorem cpuText_eq (runs : Runs ps) (covers : ∀ c, Covers ps c ↔ c ∈ set) :
    listText ps = cpuText set := by
  have spec := @cpuRuns_spec set (set.sup id + 1) (set.sup id + 1) 0 le_rfl
  have same : ps = cpuRuns set (set.sup id + 1) (set.sup id + 1) 0 := by
    refine runs.unique spec.runs fun c => ?_
    rw [covers, spec.covers]
    constructor
    · intro member
      exact ⟨Nat.zero_le c, Nat.lt_succ_of_le (Finset.le_sup (f := id) member), member⟩
    · intro ⟨_, _, member⟩
      exact member
  rw [same, cpuText]

theorem listText_snoc (front : List (Nat × Nat)) (p : Nat × Nat) :
    listText (front ++ [p]) =
      listText front ++ ((if listText front = [] then [] else [',']) ++ pieceText p) := by
  cases front with
  | nil => simp [listText, tailText]
  | cons q front =>
    have some_text : listText (q :: front) ≠ [] := by
      rw [ne_eq, listText_nil_iff]
      exact List.cons_ne_nil q front
    rw [if_neg some_text]
    simp [listText, tailText]

theorem listText_grows (front more : List (Nat × Nat)) :
    (listText front).length ≤ (listText (front ++ more)).length := by
  induction more generalizing front with
  | nil => rw [List.append_nil]
  | cons p more ih =>
    have further := ih (front ++ [p])
    rw [listText_snoc, List.length_append, List.append_assoc] at further
    exact (Nat.le_add_right _ _).trans further

theorem writePieces_spec (cap : Nat) (front ps : List (Nat × Nat))
    (room : (listText front).length < cap) :
    ∃ done left, ps = done ++ left ∧
      (writePieces cap (listText front) ps).1 = listText (front ++ done) ∧
      (listText (front ++ done)).length < cap ∧
      ((writePieces cap (listText front) ps).2 = true → left = []) ∧
      ((writePieces cap (listText front) ps).2 = true ↔ (listText (front ++ ps)).length < cap) := by
  induction ps generalizing front with
  | nil =>
    exact ⟨[], [], rfl, by simp [writePieces], by simpa using room, fun _ => rfl,
      by simpa [writePieces] using room⟩
  | cons p ps ih =>
    have regroup : front ++ p :: ps = (front ++ [p]) ++ ps := by simp
    rw [writePieces]
    by_cases full : cap ≤ (listText front).length +
        ((if listText front = [] then [] else [',']) ++ pieceText p).length
    · rw [if_pos full]
      refine ⟨[], p :: ps, rfl, by simp, by simpa using room, by simp, ?_⟩
      have long := listText_grows (front ++ [p]) ps
      rw [listText_snoc, List.length_append, ← regroup] at long
      constructor
      · intro absurd_true
        simp at absurd_true
      · intro short
        omega
    · rw [if_neg full, ← listText_snoc, regroup]
      have further : (listText (front ++ [p])).length < cap := by
        rw [listText_snoc, List.length_append]
        omega
      obtain ⟨done, left, cut, text, short, none_left, fits⟩ := ih (front ++ [p]) further
      refine ⟨p :: done, left, by rw [cut, List.cons_append], by simpa using text, ?_,
        none_left, fits⟩
      simpa using short

theorem formatCpulist_spec {cap : Nat} (inside : ∀ c ∈ set, c < ncpus) (room : 0 < cap) :
    ∃ ps, (formatCpulist set ncpus cap).1 = listText ps ∧ Runs ps ∧ (listText ps).length < cap ∧
      (∀ c, Covers ps c → c ∈ set) ∧
      ((formatCpulist set ncpus cap).2 = true → ∀ c ∈ set, Covers ps c) ∧
      ((formatCpulist set ncpus cap).2 = true ↔ (cpuText set).length < cap) := by
  have spec := @cpuRuns_spec set ncpus ncpus 0 (by omega)
  have text := cpuText_eq spec.runs fun c => by
    rw [spec.covers]
    constructor
    · intro ⟨_, _, member⟩
      exact member
    · intro member
      exact ⟨Nat.zero_le c, inside c member, member⟩
  obtain ⟨done, left, cut, result, short, none_left, fits⟩ :=
    writePieces_spec cap [] (cpuRuns set ncpus ncpus 0) room
  have runs : Runs done := by
    have whole := spec.runs
    rw [cut] at whole
    exact ⟨fun p member => whole.ordered p (List.mem_append_left left member),
      (List.pairwise_append.mp whole.apart).1⟩
  have covers : ∀ c, Covers done c → c ∈ set := by
    intro c covered
    have listed : Covers (cpuRuns set ncpus ncpus 0) c := by
      rw [cut, covers_append]
      exact .inl covered
    exact ((spec.covers c).mp listed).2.2
  refine ⟨done, result, runs, short, covers, fun ok c member => ?_, ?_⟩
  · have listed := (spec.covers c).mpr ⟨Nat.zero_le c, inside c member, member⟩
    rwa [cut, none_left ok, List.append_nil] at listed
  · rw [← text]
    exact fits

theorem cpuText_short {cap : Nat} (runs : Runs ps)
    (short : (listText ps).length < cap) (covers : ∀ c, Covers ps c ↔ c ∈ set) :
    (cpuText set).length < cap := by
  rwa [← cpuText_eq runs covers]

end Runs

section Subtract

variable {online : List (Nat × Nat)} {claims : List (List (Nat × Nat))}

theorem foldl_maxCpu_le (lists : List Str) (m : Int) :
    m ≤ lists.foldl (fun m s => maxCpuFrom (s.length + 1) m s) m := by
  induction lists generalizing m with
  | nil => exact le_rfl
  | cons s lists ih => exact (maxCpuFrom_le _ m s).trans (ih _)

theorem foldl_maxCpu_list {lists : List Str} {ps : List (Nat × Nat)} {rest : Str}
    (member : listText ps ++ rest ∈ lists) (readable : PiecesReadable ps) (stops : Stops rest) (m : Int) :
    ∀ p ∈ ps, (p.2 : Int) ≤ lists.foldl (fun m s => maxCpuFrom (s.length + 1) m s) m := by
  induction lists generalizing m with
  | nil => cases member
  | cons s lists ih =>
    intro p inside
    obtain same | later := List.mem_cons.mp member
    · rw [List.foldl_cons, ← same]
      exact (maxCpuFrom_list readable stops m p inside).trans (foldl_maxCpu_le lists _)
    · exact ih later _ p inside

theorem subtractNcpus_list (onlineList : Str) (claimed : List Str) (ps : List (Nat × Nat))
    (rest : Str) (member : listText ps ++ rest ∈ onlineList :: claimed) (readable : PiecesReadable ps)
    (stops : Stops rest) : ∀ p ∈ ps, p.2 < subtractNcpus onlineList claimed := by
  intro p inside
  have bound := foldl_maxCpu_list member readable stops (-1) p inside
  rw [subtractNcpus]
  omega

theorem mem_foldl_union (sets : List (Finset Nat)) (set : Finset Nat) (c : Nat) :
    c ∈ sets.foldl (· ∪ ·) set ↔ c ∈ set ∨ ∃ s ∈ sets, c ∈ s := by
  induction sets generalizing set with
  | nil => simp
  | cons s sets ih => simp [ih, or_assoc]

theorem cpulistSubtract_spec {rest : Str} (ends : Ends rest) (some_online : online ≠ [])
    (readable : PiecesReadable online) (claims_readable : ∀ l ∈ claims, PiecesReadable l) {cap : Nat}
    (room : 0 < cap) (left : Finset Nat)
    (left_iff : ∀ c, c ∈ left ↔ Covers online c ∧ ∀ l ∈ claims, ¬ Covers l c) :
    ∃ ps, (cpulistSubtract (listText online ++ rest) (claims.map listText) cap).1 = listText ps ∧
      Runs ps ∧ (∀ c, Covers ps c → c ∈ left) ∧
      ((∀ c ∈ left, Covers ps c) ↔ (cpuText left).length < cap) := by
  have bound := subtractNcpus_list (listText online ++ rest) (claims.map listText) online rest
    (.head _) readable ends.stops
  obtain ⟨parsed, online_read, online_mem⟩ := parseCpulistInto_list ends readable bound
  have some_text : listText online ++ rest ≠ [] := by
    intro empty
    exact some_online (listText_nil_iff.mp (List.append_eq_nil_iff.mp empty).1)
  have claims_read : ∀ l ∈ claims, ∃ set,
      parseCpulistInto (subtractNcpus (listText online ++ rest) (claims.map listText)) (listText l) =
        some set ∧ ∀ c, c ∈ set ↔ Covers l c := by
    intro l member
    have inside := subtractNcpus_list (listText online ++ rest) (claims.map listText) l []
      (by rw [List.append_nil]; exact .tail _ (List.mem_map_of_mem member))
      (claims_readable l member) (by simp [Stops])
    have read := @parseCpulistInto_list l [] _ (.inl rfl) (claims_readable l member) inside
    rwa [List.append_nil] at read
  have claimed : ∀ c, c ∈ ((claims.map listText).filterMap (parseCpulistInto
      (subtractNcpus (listText online ++ rest) (claims.map listText)))).foldl (· ∪ ·) ∅ ↔
        ∃ l ∈ claims, Covers l c := by
    intro c
    rw [mem_foldl_union]
    constructor
    · intro found
      obtain none_here | ⟨set, parsed, member⟩ := found
      · simp at none_here
      · obtain ⟨text, listed, result⟩ := List.mem_filterMap.mp parsed
        obtain ⟨l, chosen, rfl⟩ := List.mem_map.mp listed
        obtain ⟨other, read, members⟩ := claims_read l chosen
        rw [read, Option.some.injEq] at result
        exact ⟨l, chosen, (members c).mp (result ▸ member)⟩
    · intro ⟨l, chosen, covered⟩
      obtain ⟨set, read, members⟩ := claims_read l chosen
      exact .inr ⟨set, List.mem_filterMap.mpr ⟨_, List.mem_map_of_mem chosen, read⟩,
        (members c).mpr covered⟩
  rw [cpulistSubtract, if_neg some_text, online_read]
  dsimp only
  have remainder : parsed \ ((claims.map listText).filterMap (parseCpulistInto
      (subtractNcpus (listText online ++ rest) (claims.map listText)))).foldl (· ∪ ·) ∅ = left := by
    ext c
    rw [Finset.mem_sdiff, online_mem, claimed, left_iff]
    simp
  rw [remainder]
  have small : ∀ c ∈ left, c < subtractNcpus (listText online ++ rest) (claims.map listText) := by
    intro c member
    obtain ⟨p, listed, _, high⟩ := ((left_iff c).mp member).1
    exact high.trans_lt (bound p listed)
  obtain ⟨ps, text, runs, short, covers, whole, fits⟩ := formatCpulist_spec small room
  refine ⟨ps, text, runs, covers, ?_⟩
  constructor
  · intro all
    exact cpuText_short runs short fun c => ⟨covers c, all c⟩
  · intro room_left
    exact whole (fits.mpr room_left)

end Subtract

end PerfStats.Monitor
