import PerfStats.Lib.Lines

namespace PerfStats.Lib.CopyText

/-- What a column holds: a text, or `none` for NULL. -/
abbrev Field := Option (List Char)

section Writer

def replaceWith (old : Char) (new text : List Char) : List Char :=
  text.flatMap fun c => if c = old then new else [c]

def escape (text : List Char) : List Char :=
  replaceWith '\r' ['\\', 'r']
    (replaceWith '\n' ['\\', 'n']
      (replaceWith '\t' ['\\', 't'] (replaceWith '\\' ['\\', '\\'] text)))

def literal : Field → List Char
  | none => ['\\', 'N']
  | some text => escape text

def writeRow (row : List Field) : List Char := List.intercalate ['\t'] (row.map literal)

def write (rows : List (List Field)) : List Char := rows.flatMap fun row => writeRow row ++ ['\n']

end Writer

section Reader

inductive Token where
  | plain (c : Char)
  | escaped (c : Char)
deriving DecidableEq, Repr

def tokens : List Char → List Token
  | [] => []
  | '\\' :: c :: rest => .escaped c :: tokens rest
  | c :: rest => if c = '\\' then [] else .plain c :: tokens rest

def digitOf (base : Nat) (c : Char) : Option Nat :=
  let value :=
    if '0' ≤ c ∧ c ≤ '9' then c.toNat - '0'.toNat
    else if 'a' ≤ c ∧ c ≤ 'f' then c.toNat - 'a'.toNat + 10
    else if 'A' ≤ c ∧ c ≤ 'F' then c.toNat - 'A'.toNat + 10
    else 16
  if value < base then some value else none

/-- A character code of which some digits have been read; the character `x` stands for itself when
no digit follows it. -/
inductive Pending where
  | none
  | code (base : Nat) (value : Option Nat) (more : Nat)

def Pending.emit : Pending → List Char
  | .none => []
  | .code _ (some value) _ => [Char.ofNat (value % 256)]
  | .code _ Option.none _ => ['x']

def unescapeChar (c : Char) : Pending × List Char :=
  match digitOf 8 c with
  | some digit => (.code 8 (some digit) 2, [])
  | Option.none =>
    if c = 'x' then (.code 16 Option.none 2, [])
    else if c = 'b' then (.none, ['\x08'])
    else if c = 'f' then (.none, ['\x0c'])
    else if c = 'n' then (.none, ['\n'])
    else if c = 'r' then (.none, ['\r'])
    else if c = 't' then (.none, ['\t'])
    else if c = 'v' then (.none, ['\x0b'])
    else (.none, [c])

def unescapeFrom : Pending → List Token → List Char
  | pending, [] => pending.emit
  | pending, .escaped c :: rest =>
    pending.emit ++ (unescapeChar c).2 ++ unescapeFrom (unescapeChar c).1 rest
  | .code base value (more + 1), .plain c :: rest =>
    match digitOf base c with
    | some digit => unescapeFrom (.code base (some (base * value.getD 0 + digit)) more) rest
    | Option.none => Pending.emit (.code base value (more + 1)) ++ c :: unescapeFrom .none rest
  | pending, .plain c :: rest => pending.emit ++ c :: unescapeFrom .none rest

def unescape (field : List Token) : List Char := unescapeFrom .none field

def readField (field : List Token) : Field :=
  if field = [.escaped 'N'] then none else some (unescape field)

def readRow (line : List Token) : List Field := (line.splitOn (.plain '\t')).map readField

def readLines (input : List Token) : List (List Token) :=
  let lines := input.splitOn (.plain '\n')
  if lines.getLast? = some [] then lines.dropLast else lines

/-- The rows of a COPY input, up to the end marker. A NUL or a bare carriage return is an error. -/
def read (input : List Char) : Option (List (List Field)) :=
  if '\x00' ∈ input ∨ Token.plain '\r' ∈ tokens input then none
  else some (((readLines (tokens input)).takeWhile fun line => line ≠ [.escaped '.']).map readRow)

end Reader

section Fields

def tokenOf (c : Char) : Token :=
  if c = '\\' then .escaped '\\'
  else if c = '\t' then .escaped 't'
  else if c = '\n' then .escaped 'n'
  else if c = '\r' then .escaped 'r'
  else .plain c

def fieldTokens : Field → List Token
  | none => [.escaped 'N']
  | some text => text.map tokenOf

def rowTokens (row : List Field) : List Token :=
  List.intercalate [.plain '\t'] (row.map fieldTokens)

theorem escape_cons (c : Char) (text : List Char) :
    escape (c :: text) = escape [c] ++ escape text := by
  simp only [escape, replaceWith, List.flatMap_cons, List.flatMap_nil, List.flatMap_append,
    List.append_nil]

theorem escape_char (c : Char) :
    (∃ l, c ∈ ['\\', '\t', '\n', '\r'] ∧ l ∈ ['\\', 't', 'n', 'r'] ∧ tokenOf c = .escaped l ∧ escape [c] = ['\\', l] ∧
      unescapeChar l = (.none, [c])) ∨
    (c ∉ ['\\', '\t', '\n', '\r'] ∧ tokenOf c = .plain c ∧ escape [c] = [c]) := by
  by_cases backslash : c = '\\'
  · subst backslash
    exact .inl ⟨'\\', by decide, by decide, by decide, by decide, rfl⟩
  by_cases tab : c = '\t'
  · subst tab
    exact .inl ⟨'t', by decide, by decide, by decide, by decide, rfl⟩
  by_cases newline : c = '\n'
  · subst newline
    exact .inl ⟨'n', by decide, by decide, by decide, by decide, rfl⟩
  by_cases return_ : c = '\r'
  · subst return_
    exact .inl ⟨'r', by decide, by decide, by decide, by decide, rfl⟩
  refine .inr ⟨?_, ?_, ?_⟩
  · simp [backslash, tab, newline, return_]
  · rw [tokenOf, if_neg backslash, if_neg tab, if_neg newline, if_neg return_]
  · simp [escape, replaceWith, backslash, tab, newline, return_]

theorem escape_of_plain {text : List Char}
    (plain : ∀ c ∈ text, c ∉ ['\\', '\t', '\n', '\r']) : escape text = text := by
  induction text with
  | nil => rfl
  | cons c text ih =>
    have later := ih fun d member => plain d (.tail c member)
    rw [escape_cons, later]
    cases escape_char c with
    | inl special =>
      obtain ⟨l, inside, -⟩ := special
      exact absurd inside (plain c (.head _))
    | inr solid => rw [solid.2.2]; rfl

theorem tokens_plain {c : Char} (other : c ≠ '\\') (rest : List Char) :
    tokens (c :: rest) = .plain c :: tokens rest := by
  rw [tokens]
  · exact if_neg other
  · exact fun _ _ same _ => other same

theorem tokens_escape (text rest : List Char) :
    tokens (escape text ++ rest) = text.map tokenOf ++ tokens rest := by
  induction text with
  | nil => rfl
  | cons c text ih =>
    rw [escape_cons, List.append_assoc, List.map_cons, List.cons_append, ← ih]
    cases escape_char c with
    | inl special =>
      obtain ⟨l, -, -, token, written, -⟩ := special
      rw [token, written]
      rfl
    | inr plain =>
      obtain ⟨solid, token, written⟩ := plain
      have other : c ≠ '\\' := fun same => solid (by simp [same])
      rw [token, written]
      exact tokens_plain other _

theorem tokens_literal (field : Field) (rest : List Char) :
    tokens (literal field ++ rest) = fieldTokens field ++ tokens rest := by
  cases field with
  | none => rfl
  | some text => exact tokens_escape text rest

theorem tokens_writeRow (row : List Field) (rest : List Char) :
    tokens (writeRow row ++ rest) = rowTokens row ++ tokens rest := by
  induction row with
  | nil => rfl
  | cons field row ih =>
    cases row with
    | nil => simpa [writeRow, rowTokens] using tokens_literal field rest
    | cons next row =>
      have written : writeRow (field :: next :: row) =
          literal field ++ '\t' :: writeRow (next :: row) := by
        simp [writeRow]
      have seen : rowTokens (field :: next :: row) =
          fieldTokens field ++ .plain '\t' :: rowTokens (next :: row) := by
        simp [rowTokens]
      have later := tokens_plain (by decide : '\t' ≠ '\\') (writeRow (next :: row) ++ rest)
      rw [written, seen, List.append_assoc, tokens_literal, List.cons_append, later, ih,
        List.append_assoc, List.cons_append]

theorem tokens_write (rows : List (List Field)) :
    tokens (write rows) = rows.flatMap fun row => rowTokens row ++ [.plain '\n'] := by
  induction rows with
  | nil => rfl
  | cons row rows ih =>
    have written : write (row :: rows) = writeRow row ++ '\n' :: write rows := by simp [write]
    rw [written, tokens_writeRow, tokens_plain (by decide), ih, List.flatMap_cons]
    simp

/-- What a written text may consist of: letters behind a backslash, and none of `special`. -/
def Token.Made (special : List Char) : Token → Prop
  | .escaped l => l ∈ ['N', '\\', 't', 'n', 'r']
  | .plain c => c ∉ special

theorem fieldTokens_mem {field : Field} {token : Token} (member : token ∈ fieldTokens field) :
    token.Made ['\\', '\t', '\n', '\r'] := by
  cases field with
  | none =>
    cases List.mem_singleton.mp member
    exact .head _
  | some text =>
    obtain ⟨c, -, rfl⟩ := List.mem_map.mp member
    cases escape_char c with
    | inl special =>
      obtain ⟨l, -, inside, token, -⟩ := special
      rw [token]
      exact .tail _ inside
    | inr plain =>
      rw [plain.2.1]
      exact plain.1

theorem rowTokens_mem {row : List Field} {token : Token} (member : token ∈ rowTokens row) :
    token.Made ['\\', '\n', '\r'] := by
  induction row with
  | nil => cases member
  | cons field row ih =>
    have front : token ∈ fieldTokens field → token.Made ['\\', '\n', '\r'] := by
      intro here
      have made := fieldTokens_mem here
      have fewer : ['\\', '\n', '\r'] ⊆ ['\\', '\t', '\n', '\r'] := by decide
      cases token with
      | escaped l => exact made
      | plain c => exact fun inside => made (fewer inside)
    cases row with
    | nil => exact front (by simpa [rowTokens] using member)
    | cons next row =>
      have seen : rowTokens (field :: next :: row) =
          fieldTokens field ++ .plain '\t' :: rowTokens (next :: row) := by
        simp [rowTokens]
      cases List.mem_append.mp member with
      | inl here => exact front here
      | inr later =>
        cases later with
        | head => exact (by decide : '\t' ∉ ['\\', '\n', '\r'])
        | tail _ later => exact ih later

theorem unescape_map (text : List Char) : unescape (text.map tokenOf) = text := by
  unfold unescape
  induction text with
  | nil => rfl
  | cons c text ih =>
    rw [List.map_cons]
    cases escape_char c with
    | inl special =>
      obtain ⟨l, -, -, token, -, back⟩ := special
      rw [token, unescapeFrom, back, ih]
      rfl
    | inr plain =>
      rw [plain.2.1, unescapeFrom, ih]
      · rfl
      · exact nofun

theorem readField_fieldTokens (field : Field) : readField (fieldTokens field) = field := by
  cases field with
  | none => rfl
  | some text =>
    have marker : text.map tokenOf ≠ [.escaped 'N'] := by
      intro same
      have member : Token.escaped 'N' ∈ text.map tokenOf := by rw [same]; exact List.mem_singleton_self _
      obtain ⟨c, -, token⟩ := List.mem_map.mp member
      cases escape_char c with
      | inl special =>
        obtain ⟨l, -, inside, token', -⟩ := special
        rw [token'] at token
        cases token
        exact absurd inside (by decide)
      | inr plain =>
        rw [plain.2.1] at token
        cases token
    rw [fieldTokens, readField, if_neg marker, unescape_map]

theorem readRow_rowTokens {row : List Field} (some_ : row ≠ []) :
    readRow (rowTokens row) = row := by
  have solid : ∀ part ∈ row.map fieldTokens, Token.plain '\t' ∉ part := by
    intro part member inside
    obtain ⟨field, -, rfl⟩ := List.mem_map.mp member
    exact fieldTokens_mem inside (by decide)
  have fields : row.map fieldTokens ≠ [] := by simpa using some_
  rw [readRow, rowTokens, List.splitOn_intercalate _ solid fields, List.map_map]
  exact (List.map_congr_left fun field _ => readField_fieldTokens field).trans row.map_id

end Fields

section Rows

variable {rows : List (List Field)}

theorem splitOn_terminated {α : Type*} [DecidableEq α] {sep : α} {lines : List (List α)}
    (solid : ∀ line ∈ lines, sep ∉ line) :
    (lines.flatMap fun line => line ++ [sep]).splitOn sep = lines ++ [[]] := by
  induction lines with
  | nil => rfl
  | cons line lines ih =>
    have later := ih fun other member => solid other (.tail line member)
    have cut := splitOn_of_notMem (solid line (.head _))
    rw [List.flatMap_cons, List.append_assoc, List.singleton_append,
      List.splitOn_append_cons_self, cut, later]
    rfl

theorem readLines_write (rows : List (List Field)) :
    readLines (tokens (write rows)) = rows.map rowTokens := by
  have solid : ∀ line ∈ rows.map rowTokens, Token.plain '\n' ∉ line := by
    intro line member inside
    obtain ⟨row, -, rfl⟩ := List.mem_map.mp member
    exact rowTokens_mem inside (by decide)
  have lines : (tokens (write rows)).splitOn (.plain '\n') = rows.map rowTokens ++ [[]] := by
    rw [tokens_write, ← splitOn_terminated solid, List.flatMap_map]
  simp [readLines, lines]

theorem nul_of_escape {text : List Char} (inside : '\x00' ∈ escape text) : '\x00' ∈ text := by
  induction text with
  | nil => exact inside
  | cons c text ih =>
    rw [escape_cons] at inside
    cases List.mem_append.mp inside with
    | inr later => exact .tail c (ih later)
    | inl here =>
      cases escape_char c with
      | inl special =>
        obtain ⟨l, -, kind, -, written, -⟩ := special
        rw [written] at here
        have letters : '\x00' ∉ ['\\', 't', 'n', 'r'] := by decide
        cases List.mem_cons.mp here with
        | inl same => exact absurd same (by decide)
        | inr letter => exact absurd (List.mem_singleton.mp letter ▸ kind) letters
      | inr plain =>
        rw [plain.2.2] at here
        exact List.mem_singleton.mp here ▸ (.head _)

theorem nul_of_writeRow {row : List Field} (inside : '\x00' ∈ writeRow row) :
    ∃ text, some text ∈ row ∧ '\x00' ∈ text := by
  have literal_nul : ∀ field : Field, '\x00' ∈ literal field →
      ∃ text, field = some text ∧ '\x00' ∈ text := by
    intro field here
    cases field with
    | none => exact absurd here (by decide)
    | some text => exact ⟨text, rfl, nul_of_escape here⟩
  induction row with
  | nil => cases inside
  | cons field row ih =>
    have split : '\x00' ∈ literal field ∨ '\x00' ∈ writeRow row := by
      cases row with
      | nil => exact .inl (by simpa [writeRow] using inside)
      | cons next row =>
        have tab : '\x00' ≠ '\t' := by decide
        simpa [writeRow, tab] using inside
    cases split with
    | inl here =>
      obtain ⟨text, rfl, nul⟩ := literal_nul field here
      exact ⟨text, .head _, nul⟩
    | inr later =>
      obtain ⟨text, member, nul⟩ := ih later
      exact ⟨text, .tail field member, nul⟩

theorem read_write (some_ : ∀ row ∈ rows, row ≠ [])
    (clean : ∀ row ∈ rows, ∀ text, some text ∈ row → '\x00' ∉ text) :
    read (write rows) = some rows := by
  have no_nul : '\x00' ∉ write rows := by
    intro inside
    obtain ⟨row, member, here⟩ := List.mem_flatMap.mp inside
    cases List.mem_append.mp here with
    | inl here =>
      obtain ⟨text, field, nul⟩ := nul_of_writeRow here
      exact clean row member text field nul
    | inr newline => exact absurd newline (by decide)
  have no_return : Token.plain '\r' ∉ tokens (write rows) := by
    intro inside
    rw [tokens_write] at inside
    obtain ⟨row, -, here⟩ := List.mem_flatMap.mp inside
    cases List.mem_append.mp here with
    | inl here =>
      exact rowTokens_mem here (by decide)
    | inr newline => exact absurd newline (by decide)
  have no_marker : ∀ line ∈ rows.map rowTokens, decide (line ≠ [.escaped '.']) = true := by
    intro line member
    obtain ⟨row, -, rfl⟩ := List.mem_map.mp member
    refine decide_eq_true fun same => ?_
    have inside : Token.escaped '.' ∈ rowTokens row := same ▸ List.mem_singleton_self _
    exact absurd (show '.' ∈ _ from rowTokens_mem inside) (by decide)
  have rows_back : (rows.map rowTokens).map readRow = rows := by
    rw [List.map_map]
    exact (List.map_congr_left fun row member => readRow_rowTokens (some_ row member)).trans
      rows.map_id
  rw [read, if_neg (not_or.mpr ⟨no_nul, no_return⟩), readLines_write,
    List.takeWhile_eq_self_iff.mpr no_marker, rows_back]

example : read (write [[some ['a', '\t', '\\', 'N'], none], [some [], some ['\n']]]) =
    some [[some ['a', '\t', '\\', 'N'], none], [some [], some ['\n']]] := by decide

end Rows

end PerfStats.Lib.CopyText
