import PerfStats.Monitor.DictRuns
import PerfStats.Monitor.Tier

namespace PerfStats.Monitor

open Lib

section Entries

/-- The piece in front of the first delimiter, and what is behind it where there is
one. -/
def strsep (delim : UInt8 → Bool) (s : Bytes) : Bytes × Option Bytes :=
  (s.takeWhile fun c => !delim c,
    match s.dropWhile fun c => !delim c with
    | [] => none
    | _ :: rest => some rest)

def isComma (b : UInt8) : Bool := b = 44

def isEquals (b : UInt8) : Bool := b = 61

def toupper (b : UInt8) : UInt8 := if 97 ≤ b ∧ b ≤ 122 then b - 32 else b

def digitValue (b : UInt8) : Nat :=
  if isDigitByte b then b.toNat - 48
  else if 65 ≤ toupper b ∧ toupper b ≤ 90 then (toupper b).toNat - 55
  else 36

def strtoul (s : Bytes) : UInt64 :=
  let s := s.dropWhile isSpaceByte
  let negative := s.head? = some 45
  let s := if s.head? = some 45 ∨ s.head? = some 43 then s.tail else s
  let hex : Bool := s.head? = some 48 && s.tail.head?.map toupper = some 88 &&
    decide ((s.drop 2).head?.map digitValue ∈ (List.range 16).map some)
  let base := if hex then 16 else if s.head? = some 48 then 8 else 10
  let digits := (if hex then s.drop 2 else s).takeWhile fun b => decide (digitValue b < base)
  ullOf negative (digits.foldl (fun n b => base * n + digitValue b) 0)

inductive SeKind where
  | plain
  | event
  | control
deriving DecidableEq, Repr

/-- `struct schema_entry`, with the number of the allocation for its address. -/
structure EntryCell where
  seAddr : Nat
  seIndex : UInt32
  seKey : Bytes
  seType : SeKind
  seWidth : UInt32
  seUnit : Option Bytes
  seCollectTier : CollectTier
deriving DecidableEq, Repr

/-- What the allocator grants in a run of `schema_init`, which allocates an entry, and copies
its unit, for each token. -/
structure SchemaMemory where
  copy : Bool
  dict : Nat → Bool
  entry : Nat → Bool
  unit : Nat → Bool
  table : Nat → Nat → Bool
  array : Nat → Bool

def schemaApplyOneOption (unitCopied : Bool) (se : EntryCell) (opt : Bytes) : EntryCell :=
  let (name, optArg) := strsep isEquals opt
  let letter := toupper (name.headD 0)
  if letter = 67 then { se with seType := .control }
  else if letter = 69 then { se with seType := .event }
  else if letter = 85 then
    match optArg with
    | none => se
    | some u => { se with seUnit := if unitCopied then some u else none }
  else if letter = 87 then
    match optArg with
    | none => se
    | some w => { se with seWidth := (strtoul w).toUInt32 }
  else if letter = 82 then
    match optArg with
    | none => { se with seCollectTier := .fast }
    | some r => { se with seCollectTier := if toupper (r.headD 0) = 83 then .slow else .fast }
  else se

/-- What `parse_schema_entry` does: it gives up, before or after it has allocated an entry, or
it returns the entry. -/
inductive ParseResult where
  | none_
  | freed (se : EntryCell)
  | entry (se : EntryCell)
deriving DecidableEq, Repr

def parseOptions (unitCopied : Bool) : List Bytes → EntryCell → ParseResult
  | [], se => .entry se
  | [opt], se => if opt = [] then .entry se else .entry (schemaApplyOneOption unitCopied se opt)
  | opt :: more, se =>
    if opt = [] then .freed se
    else parseOptions unitCopied more (schemaApplyOneOption unitCopied se opt)

def parseSchemaEntry (memory : SchemaMemory) (n : Nat) (str : Bytes) : ParseResult :=
  match (str.dropWhile isSpaceByte).splitOnP isComma with
  | [] => .none_
  | key :: opts =>
    if key = [] ∨ !memory.entry n then .none_
    else parseOptions (memory.unit n) opts ⟨n, 0, key, .plain, 0, none, .fast⟩

def wsepTokens (s : Bytes) : List Bytes := (s.splitOnP isSpaceByte).filter (· ≠ [])

end Entries

section Model

structure Schema where
  scLen : Nat
  scEnt : Option (List (Option EntryCell))
  scDict : Dict EntryCell
deriving DecidableEq, Repr

def Schema.zero : Schema := ⟨0, none, ⟨[], 0, 0⟩⟩

structure Building where
  scDict : Dict EntryCell
  nrSe : Nat
  made : List EntryCell
  freed : List EntryCell
deriving DecidableEq, Repr

/-- The keys in the order of `dict_for_each`; each stands for its entry. -/
def dictKeys (d : Dict EntryCell) : List EntryCell := d.dTable.filterMap DictEntry.dKey

def startBuilding (d : Dict EntryCell) : Building := ⟨d, 0, [], []⟩

/-- One turn of the loop of `schema_init`; false where it goes on to `err_abort`. -/
def initToken (memory : SchemaMemory) (b : Building) (tok : Bytes) :
    Except Unit (Building × Bool) :=
  match parseSchemaEntry memory b.nrSe tok with
  | .none_ => .ok (b, false)
  | .freed se => .ok ({ b with made := b.made ++ [se], freed := b.freed ++ [se] }, false)
  | .entry parsed => do
      let se := { parsed with seIndex := UInt32.ofNat b.nrSe }
      let (d, rc) ← dictSet EntryCell.seKey .strhash (memory.table b.nrSe) b.scDict se
      if rc < 0 then return (⟨d, b.nrSe + 1, b.made ++ [se], b.freed ++ [se]⟩, false)
      else return (⟨d, b.nrSe + 1, b.made ++ [se], b.freed⟩, true)

def initTokens (memory : SchemaMemory) : List Bytes → Building → Except Unit (Building × Bool)
  | [], b => .ok (b, true)
  | tok :: rest, b => do
      let (b, more) ← initToken memory b tok
      if more then initTokens memory rest b else return (b, false)

/-- `sc->sc_ent[se->se_index] = se`, an error where the index is not inside the array. -/
def fillSlot (ents : List (Option EntryCell)) (se : EntryCell) :
    Except Unit (List (Option EntryCell)) :=
  if se.seIndex.toNat < ents.length then .ok (ents.set se.seIndex.toNat (some se)) else .error ()

/-- What `calloc` of the array gives is taken, where it is not a null pointer or empty. -/
def arrayGranted (memory : SchemaMemory) (scLen : Nat) : Bool :=
  (decide (scLen * 8 < 2 ^ 64) && memory.array scLen) || scLen == 0

/-- `none` where there is no memory for the array. -/
def schemaFillEntryArray (memory : SchemaMemory) (d : Dict EntryCell) (scLen : Nat) :
    Except Unit (Option (List (Option EntryCell))) :=
  if arrayGranted memory scLen then
    some <$> (dictKeys d).foldlM fillSlot (List.replicate scLen none)
  else .ok none

/-- What `schema_init` returns and leaves behind. -/
structure InitOutcome where
  rc : Int
  sc : Schema
  made : List EntryCell
  freed : List EntryCell
deriving DecidableEq, Repr

def schemaInitAbort (b : Building) : InitOutcome :=
  ⟨-1, .zero, b.made, b.freed ++ dictKeys b.scDict⟩

def definitionTokens (definition : Bytes) : List Bytes :=
  wsepTokens (definition.takeWhile (· ≠ 0))

def schemaInitOn (memory : SchemaMemory) (sc : Schema) (definition : Bytes) :
    Except Unit InitOutcome :=
  if !memory.copy then .ok ⟨-1, sc, [], []⟩
  else do
    match ← dictInit memory.dict 0 with
    | none => return ⟨-1, { sc with scDict := Schema.zero.scDict }, [], []⟩
    | some d =>
      let (b, more) ← initTokens memory (definitionTokens definition) (startBuilding d)
      if more then
        match ← schemaFillEntryArray memory b.scDict b.nrSe with
        | none => return schemaInitAbort b
        | some ents => return ⟨0, ⟨b.nrSe, some ents, b.scDict⟩, b.made, b.freed⟩
      else return schemaInitAbort b

/-- The entries that `schema_destroy` frees; `none` where it reads through a null pointer. -/
def schemaDestroy (sc : Schema) : Option (List EntryCell) :=
  (List.range sc.scLen).mapM fun i => (sc.scEnt.getD []).getD i none

end Model

section Tokens

theorem splitOnP_strsep (delim : UInt8 → Bool) (s : Bytes) :
    s.splitOnP delim =
      (strsep delim s).1 :: ((strsep delim s).2.map (·.splitOnP delim)).getD [] := by
  have apart : ∀ c ∈ s.takeWhile fun c => !delim c, delim c = false := by
    intro c member
    simpa using List.mem_takeWhile_imp member
  have whole := List.takeWhile_append_dropWhile (p := fun c => !delim c) (l := s)
  rw [strsep]
  cases behind : s.dropWhile fun c => !delim c with
  | nil =>
    rw [behind, List.append_nil] at whole
    rw [whole] at apart ⊢
    exact List.splitOnP_eq_singleton apart
  | cons c after =>
    have stop : delim c = true := by
      have first := List.head?_dropWhile_not (fun c => !delim c) s
      rw [behind] at first
      simpa using first
    rw [behind] at whole
    conv_lhs => rw [← whole]
    exact List.splitOnP_append_cons_of_forall_mem apart c stop after

def tokenKey (tok : Bytes) : Bytes := (strsep isComma (tok.dropWhile isSpaceByte)).1

def ParseResult.cell : ParseResult → Option EntryCell
  | .none_ => none
  | .freed se => some se
  | .entry se => some se

theorem schemaApplyOneOption_key (unitCopied : Bool) (se : EntryCell) (opt : Bytes) :
    (schemaApplyOneOption unitCopied se opt).seAddr = se.seAddr ∧
      (schemaApplyOneOption unitCopied se opt).seKey = se.seKey := by
  rw [schemaApplyOneOption]
  dsimp only
  repeat' split
  all_goals exact ⟨rfl, rfl⟩

theorem parseOptions_cell (unitCopied : Bool) (opts : List Bytes) (se : EntryCell) :
    ∃ se', (parseOptions unitCopied opts se).cell = some se' ∧ se'.seAddr = se.seAddr ∧
      se'.seKey = se.seKey := by
  induction opts generalizing se with
  | nil => exact ⟨se, rfl, rfl, rfl⟩
  | cons opt more ih =>
    have applied := schemaApplyOneOption_key unitCopied se opt
    cases more with
    | nil =>
      rw [parseOptions]
      split
      · exact ⟨se, rfl, rfl, rfl⟩
      · exact ⟨_, rfl, applied⟩
    | cons second more =>
      rw [parseOptions]
      · split
        · exact ⟨se, rfl, rfl, rfl⟩
        · rcases ih (schemaApplyOneOption unitCopied se opt) with ⟨se', found, addr, key⟩
          exact ⟨se', found, addr.trans applied.1, key.trans applied.2⟩
      · nofun

theorem parseSchemaEntry_cell (memory : SchemaMemory) (n : Nat) (tok : Bytes) {se : EntryCell}
    (parsed : (parseSchemaEntry memory n tok).cell = some se) :
    se.seAddr = n ∧ se.seKey = tokenKey tok := by
  rw [parseSchemaEntry, splitOnP_strsep] at parsed
  dsimp only at parsed
  split at parsed
  · cases parsed
  · rcases parseOptions_cell (memory.unit n)
      (((strsep isComma (tok.dropWhile isSpaceByte)).2.map (·.splitOnP isComma)).getD [])
      ⟨n, 0, (strsep isComma (tok.dropWhile isSpaceByte)).1, .plain, 0, none, .fast⟩ with
      ⟨se', found, addr, key⟩
    rw [found, Option.some.injEq] at parsed
    exact parsed ▸ ⟨addr, key⟩

end Tokens

end PerfStats.Monitor
