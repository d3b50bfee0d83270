import PerfStats.Lib.Probing
import PerfStats.Lib.Runs

namespace PerfStats.Monitor

open Lib

/-- `struct dict_entry`, over pointers `P` to strings. -/
structure DictEntry (P : Type) where
  dHash : UInt64
  dKey : Option P
  deriving DecidableEq, Repr

/-- `struct dict`; `d_table_len` is the length of the table. -/
structure Dict (P : Type) where
  dTable : List (DictEntry P)
  dLoad : Nat
  dCount : Nat
  deriving DecidableEq, Repr

def dictHashDummy : UInt64 := (1 : UInt64) <<< 63

def dictTableLenMin : Nat := 8

def dictTableLenMax : Nat := 2 ^ 63

def perturbShift : UInt64 := 5

def dictStrhash (s : List UInt8) : UInt64 :=
  let x := (s.headD 0).toUInt64 <<< 7
  let x := s.foldl (fun x p => (1000003 * x) ^^^ p.toUInt64) x
  (x ^^^ UInt64.ofNat s.length) &&& ~~~dictHashDummy

/-- A hash of strings that leaves the dummy bit clear, as `dict_strhash` does. -/
structure StrHash (S : Type) where
  hash : S → UInt64
  masked : ∀ s, hash s &&& dictHashDummy = 0

def StrHash.strhash : StrHash (List UInt8) where
  hash := dictStrhash
  masked s := by
    rw [dictStrhash, UInt64.and_assoc]
    simp [dictHashDummy]

def sizeT (n : Nat) : Nat := n % 2 ^ 64

section Model

variable {P S : Type}

def DictEntry.zero : DictEntry P := ⟨0, none⟩

def DictEntry.isDummy (e : DictEntry P) : Bool := e.dHash &&& dictHashDummy != 0

/-- `calloc` of a table, where `memory` says whether there is room for it. A product beyond
the address space is refused. -/
def calloc (memory : Nat → Bool) (len : Nat) : Option (List (DictEntry P)) :=
  if len * 16 < 2 ^ 64 ∧ memory len then some (List.replicate len .zero) else none

/-- `while (3 * count >= 2 * table_len && table_len < DICT_TABLE_LEN_MAX) table_len *= 2`. -/
def growTableLen (count tableLen : Nat) : Except Unit Nat :=
  loop (fun len => decide (sizeT (2 * len) ≤ sizeT (3 * count) ∧ len < dictTableLenMax))
    (fun len => len * 2) 64 tableLen

def dictInit (memory : Nat → Bool) (count : Nat) : Except Unit (Option (Dict P)) := do
  let tableLen ← growTableLen count dictTableLenMin
  return (calloc memory tableLen).map fun table => ⟨table, 0, 0⟩

/-- `i = (i << 2) + i + perturb + 1` and `perturb >>= PERTURB_SHIFT`. -/
def probeNext : UInt64 × UInt64 → UInt64 × UInt64
  | (i, perturb) => ((i <<< 2) + i + perturb + 1, perturb >>> perturbShift)

def maskOf (table : List (DictEntry P)) : UInt64 := UInt64.ofNat (table.length - 1)

def slotAt (mask i : UInt64) : Nat := (i &&& mask).toNat

def entryAt (table : List (DictEntry P)) (slot : Nat) : DictEntry P := table.getD slot .zero

def rehashFuel (tableLen : Nat) : Nat := 13 + tableLen

/-- One turn of the loop of `dict_resize`. -/
def rehashEntry (table : List (DictEntry P)) (e : DictEntry P) :
    Except Unit (List (DictEntry P)) :=
  match e.dKey with
  | none => .ok table
  | some key =>
    if e.isDummy then .ok table
    else do
      let at_ ← loop (fun at_ => (entryAt table (slotAt (maskOf table) at_.1)).dKey.isSome)
        probeNext (rehashFuel table.length) (e.dHash &&& maskOf table, e.dHash)
      return table.set (slotAt (maskOf table) at_.1) ⟨e.dHash, some key⟩

def dictResize (memory : Nat → Bool) (d : Dict P) (newTableLen : Nat) :
    Except Unit (Option (Dict P)) :=
  match calloc memory newTableLen with
  | none => .ok none
  | some table => do
      let table ← d.dTable.foldlM rehashEntry table
      return some ⟨table, d.dCount, d.dCount⟩

def dictShrink (d : Dict P) : Dict P :=
  if d.dCount = 0 ∧ d.dLoad > d.dTable.length / 3 then
    ⟨List.replicate d.dTable.length .zero, 0, d.dCount⟩
  else d

def Dict.write (d : Dict P) (ent : Nat) (e : DictEntry P) : Dict P :=
  { d with dTable := d.dTable.set ent e }

variable (text : P → S) [DecidableEq S]

/-- The probe loop of `dict_entry_ref` behind its first slot; `dummy` is a removed slot. -/
def dictEntryRefFrom (table : List (DictEntry P)) (hash : UInt64) (key : S) :
    Nat → UInt64 × UInt64 → Option Nat → Option Nat
  | 0, _, _ => none
  | steps + 1, at_, dummy =>
    let next := probeNext at_
    let slot := slotAt (maskOf table) next.1
    if (entryAt table slot).isDummy then
      dictEntryRefFrom table hash key steps next (dummy <|> some slot)
    else
      match (entryAt table slot).dKey with
      | none => some (dummy.getD slot)
      | some p =>
        if (entryAt table slot).dHash = hash ∧ text p = key then some slot
        else dictEntryRefFrom table hash key steps next dummy

def dictEntryRef (d : Dict P) (hash : UInt64) (key : S) : Option Nat :=
  if d.dTable.length = 0 then none
  else
    let i := hash &&& maskOf d.dTable
    let steps := d.dTable.length - 1
    if (entryAt d.dTable i.toNat).isDummy then
      dictEntryRefFrom text d.dTable hash key steps (i, hash) (some i.toNat)
    else
      match (entryAt d.dTable i.toNat).dKey with
      | none => some i.toNat
      | some p =>
        if (entryAt d.dTable i.toNat).dHash = hash ∧ text p = key then some i.toNat
        else dictEntryRefFrom text d.dTable hash key steps (i, hash) none

def dictEntrySet (memory : Nat → Bool) (d : Dict P) (ent : Nat) (hash : UInt64) (key : P) :
    Except Unit (Dict P × Int) :=
  let e := entryAt d.dTable ent
  if e.dKey.isSome then .ok (d.write ent ⟨hash, some key⟩, 0)
  else if e.isDummy then
    .ok ({ d with dCount := d.dCount + 1 }.write ent ⟨hash, some key⟩, 0)
  else if sizeT (2 * d.dTable.length) ≤ sizeT (3 * (d.dLoad + 1)) then do
    let newTableLen ← growTableLen (d.dCount + 1) d.dTable.length
    if newTableLen ≤ d.dCount + 1 then return (d, -1)
    match ← dictResize memory d newTableLen with
    | none => return (d, -1)
    | some r =>
      match dictEntryRef text r hash (text key) with
      | none => return (r, -1)
      | some ent =>
        return ({ r with dLoad := r.dLoad + 1, dCount := r.dCount + 1 }.write ent
          ⟨hash, some key⟩, 0)
  else
    .ok ({ d with dLoad := d.dLoad + 1, dCount := d.dCount + 1 }.write ent ⟨hash, some key⟩, 0)

def dictEntryRemv (d : Dict P) (ent : Nat) (mayResize : Bool) : Dict P × Option P :=
  match (entryAt d.dTable ent).dKey with
  | none => (d, none)
  | some key =>
    let r := { d with dCount := d.dCount - 1 }.write ent ⟨dictHashDummy, none⟩
    (if mayResize then dictShrink r else r, some key)

variable (h : StrHash S)

def dictRemv (d : Dict P) (key : S) : Dict P × Option P :=
  match dictEntryRef text d (h.hash key) key with
  | none => (d, none)
  | some ent => dictEntryRemv d ent true

def dictRef (d : Dict P) (key : S) : Option P :=
  match dictEntryRef text d (h.hash key) key with
  | none => none
  | some ent => (entryAt d.dTable ent).dKey

def dictSet (memory : Nat → Bool) (d : Dict P) (key : P) : Except Unit (Dict P × Int) :=
  match dictEntryRef text d (h.hash (text key)) (text key) with
  | none => .ok (d, -1)
  | some ent =>
    match (entryAt d.dTable ent).dKey with
    | some _ => .ok (d.write ent { entryAt d.dTable ent with dKey := some key }, 0)
    | none => dictEntrySet text memory d ent (h.hash (text key)) key

end Model

end PerfStats.Monitor
