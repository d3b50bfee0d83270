import PerfStats.Monitor.Dict

namespace PerfStats.Monitor

open Lib Function

/-- The length of a table: a power of two below what `calloc` can give. -/
def TableLen (len : Nat) : Prop := ∃ m, 3 ≤ m ∧ m < 60 ∧ len = 2 ^ m

theorem TableLen.bounds {len : Nat} (size : TableLen len) : 8 ≤ len ∧ len < 2 ^ 60 := by
  rcases size with ⟨m, atLeast, below, rfl⟩
  constructor
  · calc
      8 = 2 ^ 3 := rfl
      _ ≤ 2 ^ m := Nat.pow_le_pow_right (by omega) atLeast
  · exact Nat.pow_lt_pow_right (by omega) below

def probe (mask hash : UInt64) (n : Nat) : Nat :=
  slotAt mask (probeNext^[n] (hash &&& mask, hash)).1

section Probe

variable {P : Type} {table : List (DictEntry P)}

theorem maskOf_toNat (size : TableLen table.length) : (maskOf table).toNat = table.length - 1 := by
  have bounds := size.bounds
  exact Nat.mod_eq_of_lt (by omega)

theorem slotAt_lt (size : TableLen table.length) (i : UInt64) :
    slotAt (maskOf table) i < table.length := by
  have bounds := size.bounds
  have masked : slotAt (maskOf table) i ≤ (maskOf table).toNat := by exact Nat.and_le_right
  rw [maskOf_toNat size] at masked
  omega

theorem probe_lt (size : TableLen table.length) (hash : UInt64) (n : Nat) :
    probe (maskOf table) hash n < table.length :=
  slotAt_lt size _

theorem probe_zero (mask hash : UInt64) : probe mask hash 0 = (hash &&& mask).toNat := by
  simp only [probe, iterate_zero, id_eq, slotAt]
  rw [UInt64.and_assoc, UInt64.and_self]

theorem slotAt_mod {m : Nat} (power : table.length = 2 ^ m) (size : TableLen table.length)
    (i : UInt64) : slotAt (maskOf table) i = i.toNat % 2 ^ m := by
  rw [slotAt, UInt64.toNat_and, maskOf_toNat size, power, Nat.and_two_pow_sub_one_eq_mod]

theorem perturb_spent (at_ : UInt64 × UInt64) {n : Nat} (spent : 13 ≤ n) :
    (probeNext^[n] at_).2 = 0 := by
  have shifted : (probeNext^[n] at_).2.toNat = at_.2.toNat / 32 ^ n := by
    clear spent
    induction n with
    | zero => simp
    | succ n ih =>
      rw [iterate_succ_apply']
      have five : perturbShift.toNat % 64 = 5 := by decide
      have step : (probeNext (probeNext^[n] at_)).2.toNat = (probeNext^[n] at_).2.toNat / 32 := by
        rw [probeNext, UInt64.toNat_shiftRight, five, Nat.shiftRight_eq_div_pow]
      rw [step, ih, Nat.div_div_eq_div_mul, pow_succ]
  have small : at_.2.toNat < 32 ^ n := by
    calc
      at_.2.toNat < 2 ^ 64 := at_.2.toNat_lt
      _ ≤ 32 ^ 13 := by norm_num
      _ ≤ 32 ^ n := Nat.pow_le_pow_right (by omega) spent
  apply UInt64.toNat_inj.mp
  rw [shifted, Nat.div_eq_of_lt small]
  rfl

theorem probeNext_modEq {m : Nat} (narrow : m ≤ 64) (at_ : UInt64 × UInt64)
    (spent : at_.2 = 0) : (probeNext at_).1.toNat ≡ 5 * at_.1.toNat + 1 [MOD 2 ^ m] := by
  have divides : 2 ^ m ∣ 2 ^ 64 := Nat.pow_dvd_pow 2 narrow
  have two : (2 : UInt64).toNat % 64 = 2 := by decide
  have wrapped : (probeNext at_).1.toNat = (5 * at_.1.toNat + 1) % 2 ^ 64 := by
    rw [probeNext, spent]
    simp only [UInt64.toNat_add, UInt64.toNat_shiftLeft, two, Nat.shiftLeft_eq]
    have zero : (0 : UInt64).toNat = 0 := rfl
    have one : (1 : UInt64).toNat = 1 := rfl
    omega
  rw [wrapped]
  exact (Nat.mod_modEq _ (2 ^ 64)).of_dvd divides

theorem probe_covers (size : TableLen table.length) (hash : UInt64) {s : Nat}
    (inside : s < table.length) :
    ∃ n < rehashFuel table.length, probe (maskOf table) hash n = s := by
  rcases id size with ⟨m, _, narrow, power⟩
  let x : Nat → Nat := fun n => (probeNext^[n] (hash &&& maskOf table, hash)).1.toNat
  have step : ∀ n, 13 ≤ n → x (n + 1) ≡ 5 * x n + 1 [MOD 2 ^ m] := by
    intro n spent
    simp only [x, iterate_succ_apply']
    exact probeNext_modEq (by omega) _ (perturb_spent _ spent)
  rcases late_walk_surj step (power ▸ inside) with ⟨n, soon, reached⟩
  refine ⟨n, by rw [rehashFuel, power]; omega, ?_⟩
  rw [probe, slotAt_mod power size]
  exact reached

end Probe

section Table

variable {P S : Type} {text : P → S} {h : StrHash S} {table : List (DictEntry P)}
  {s t : Nat} {p : P} {k : S}

theorem entryAt_set (inside : t < table.length) (e : DictEntry P) (s : Nat) :
    entryAt (table.set t e) s = if s = t then e else entryAt table s := by
  by_cases here : s = t
  · subst here
    simp [entryAt, inside]
  · rw [if_neg here, entryAt, entryAt, List.getD_eq_getElem?_getD, List.getD_eq_getElem?_getD,
      List.getElem?_set_ne (Ne.symm here)]

@[simp] theorem maskOf_set (e : DictEntry P) : maskOf (table.set t e) = maskOf table := by
  simp [maskOf]

def cellAt (text : P → S) (table : List (DictEntry P)) (s : Nat) : Cell S :=
  if (entryAt table s).isDummy then .dead
  else
    match (entryAt table s).dKey with
    | none => .unused
    | some p => .live (text p)

structure Sound (text : P → S) (h : StrHash S) (table : List (DictEntry P)) : Prop where
  size : TableLen table.length
  hashed : ∀ s p, (entryAt table s).dKey = some p →
    (entryAt table s).dHash = h.hash (text p)
  placed : Placed (cellAt text table) fun k => probe (maskOf table) (h.hash k)

theorem hash_not_dummy (k : S) (key : Option P) :
    (DictEntry.mk (h.hash k) key).isDummy = false := by
  simp [DictEntry.isDummy, h.masked]

theorem dummy_isDummy : (DictEntry.mk dictHashDummy (none : Option P)).isDummy = true := by
  have same : dictHashDummy &&& dictHashDummy ≠ 0 := by decide
  simpa [DictEntry.isDummy] using same

theorem zero_not_dummy : (DictEntry.zero (P := P)).isDummy = false := by
  simp [DictEntry.isDummy, DictEntry.zero]

theorem Sound.not_dummy (sound : Sound text h table) (present : (entryAt table s).dKey = some p) :
    (entryAt table s).isDummy = false := by
  have same := hash_not_dummy (h := h) (text p) (some p)
  rw [← sound.hashed s p present] at same
  exact same

theorem Sound.cell_of_some (sound : Sound text h table)
    (present : (entryAt table s).dKey = some p) : cellAt text table s = .live (text p) := by
  rw [cellAt, sound.not_dummy present]
  simp [present]

theorem cell_of_none (empty : (entryAt table s).dKey = none) :
    cellAt text table s = if (entryAt table s).isDummy then .dead else .unused := by
  rw [cellAt, empty]

theorem key_of_live (stored : cellAt text table s = .live k) :
    ∃ p, (entryAt table s).dKey = some p ∧ text p = k := by
  rw [cellAt] at stored
  split at stored
  · cases stored
  · cases key : (entryAt table s).dKey with
    | none => simp [key] at stored
    | some p => exact ⟨p, rfl, by simpa [key] using stored⟩

theorem key_of_free (free : cellAt text table s = .unused ∨ cellAt text table s = .dead)
    (sound : Sound text h table) : (entryAt table s).dKey = none := by
  cases key : (entryAt table s).dKey with
  | none => rfl
  | some p => simp [sound.cell_of_some key] at free

theorem cellAt_set (inside : t < table.length) (e : DictEntry P) (kind : Cell S)
    (cell : (if e.isDummy then Cell.dead else
      match e.dKey with | none => .unused | some p => .live (text p)) = kind) :
    cellAt text (table.set t e) = update (cellAt text table) t kind := by
  funext s
  rw [cellAt, entryAt_set inside]
  by_cases here : s = t
  · rw [if_pos here, here, update_self]
    exact cell
  · rw [if_neg here, update_of_ne here, cellAt]

theorem Sound.size_set (sound : Sound text h table) (e : DictEntry P) :
    TableLen (table.set t e).length := by
  rw [List.length_set]
  exact sound.size

theorem Sound.put (sound : Sound text h table)
    (absent : ∀ s, cellAt text table s ≠ .live (text p))
    (free : Free (cellAt text table) (probe (maskOf table) (h.hash (text p))) t)
    (inside : t < table.length) : Sound text h (table.set t ⟨h.hash (text p), some p⟩) := by
  have kind := hash_not_dummy (h := h) (text p) (some p)
  refine ⟨sound.size_set _, ?_, ?_⟩
  · intro s q present
    rw [entryAt_set inside] at present ⊢
    split at present
    · next here => rw [if_pos here, Option.some.inj present]
    · next elsewhere =>
        rw [if_neg elsewhere]
        exact sound.hashed s q present
  · rw [cellAt_set inside _ (.live (text p)) (by simp [kind]), maskOf_set]
    exact sound.placed.place absent free

theorem Sound.replace (sound : Sound text h table) {q : P}
    (present : (entryAt table t).dKey = some q) (same : text q = text p)
    (inside : t < table.length) : Sound text h (table.set t ⟨h.hash (text p), some p⟩) := by
  have kind := hash_not_dummy (h := h) (text p) (some p)
  have before : Cell.live (text p) = cellAt text table t := by rw [sound.cell_of_some present, same]
  refine ⟨sound.size_set _, ?_, ?_⟩
  · intro s r there
    rw [entryAt_set inside] at there ⊢
    split at there
    · next here => rw [if_pos here, Option.some.inj there]
    · next elsewhere =>
        rw [if_neg elsewhere]
        exact sound.hashed s r there
  · rw [cellAt_set inside _ (.live (text p)) (by simp [kind]), before,
      update_eq_self, maskOf_set]
    exact sound.placed

theorem Sound.remove (sound : Sound text h table) (inside : t < table.length) :
    Sound text h (table.set t ⟨dictHashDummy, none⟩) := by
  have kind := dummy_isDummy (P := P)
  refine ⟨sound.size_set _, ?_, ?_⟩
  · intro s r there
    rw [entryAt_set inside] at there ⊢
    split at there
    · cases there
    · next elsewhere =>
        rw [if_neg elsewhere]
        exact sound.hashed s r there
  · rw [cellAt_set inside _ .dead (by simp [kind]), maskOf_set]
    exact sound.placed.bury

theorem entryAt_zeros (len s : Nat) : entryAt (List.replicate len (DictEntry.zero (P := P))) s =
    .zero := by
  simp only [entryAt, List.getD_eq_getElem?_getD, List.getElem?_replicate]
  split <;> rfl

theorem cellAt_zeros (len s : Nat) : cellAt text (List.replicate len .zero) s = .unused := by
  rw [cellAt, entryAt_zeros, zero_not_dummy]
  rfl

theorem Sound.zeros {len : Nat} (size : TableLen len) :
    Sound text h (List.replicate len .zero) := by
  refine ⟨by rwa [List.length_replicate], ?_, ?_⟩
  · intro s p present
    rw [entryAt_zeros] at present
    cases present
  · exact placed_of_unused _ fun s => .inl (cellAt_zeros len s)

/-- One of the first `table_len` slots that `k` probes is unused or holds `k`. -/
def Reaches (text : P → S) (h : StrHash S) (table : List (DictEntry P)) (k : S) : Prop :=
  ∃ n < table.length, Stops (cellAt text table) (probe (maskOf table) (h.hash k)) k n

end Table

section Lookup

variable {P S : Type} {text : P → S} [DecidableEq S] {h : StrHash S} {d : Dict P}
  {s t : Nat} {p : P} {k : S}

theorem dictEntryRefFrom_eq {table : List (DictEntry P)} (sound : Sound text h table)
    (steps n : Nat) (dummy : Option Nat) :
    dictEntryRefFrom text table (h.hash k) k steps
        (probeNext^[n] (h.hash k &&& maskOf table, h.hash k)) dummy =
      search (cellAt text table) (probe (maskOf table) (h.hash k)) k steps (n + 1) dummy := by
  induction steps generalizing n dummy with
  | zero => rfl
  | succ steps ih =>
    have slot : slotAt (maskOf table)
        (probeNext (probeNext^[n] (h.hash k &&& maskOf table, h.hash k))).1 =
          probe (maskOf table) (h.hash k) (n + 1) := by
      rw [probe, iterate_succ_apply']
    rw [dictEntryRefFrom, search, slot, ← iterate_succ_apply' probeNext]
    simp only [ih]
    cases key : (entryAt table (probe (maskOf table) (h.hash k) (n + 1))).dKey with
    | none =>
      rw [cell_of_none key]
      split <;> rfl
    | some p =>
      rw [sound.cell_of_some key, sound.not_dummy key, sound.hashed _ p key]
      by_cases same : text p = k
      · simp [same]
      · simp [same]

theorem dictEntryRef_eq (sound : Sound text h d.dTable) (k : S) :
    dictEntryRef text d (h.hash k) k = search (cellAt text d.dTable)
      (probe (maskOf d.dTable) (h.hash k)) k d.dTable.length 0 none := by
  have positive : d.dTable.length = d.dTable.length - 1 + 1 := by
    have bounds := sound.size.bounds
    omega
  have start := fun dummy =>
    dictEntryRefFrom_eq (k := k) sound (d.dTable.length - 1) 0 dummy
  simp only [iterate_zero, id_eq] at start
  rw [dictEntryRef, if_neg (by omega)]
  dsimp only
  rw [← probe_zero, start, start, positive, search, ← positive]
  cases key : (entryAt d.dTable (probe (maskOf d.dTable) (h.hash k) 0)).dKey with
  | none =>
    rw [cell_of_none key]
    split <;> rfl
  | some p =>
    rw [sound.cell_of_some key, sound.not_dummy key, sound.hashed _ p key]
    by_cases same : text p = k
    · simp [same]
    · simp [same]

theorem dictEntryRef_stored (sound : Sound text h d.dTable)
    (present : (entryAt d.dTable s).dKey = some p) (reaches : Reaches text h d.dTable (text p)) :
    dictEntryRef text d (h.hash (text p)) (text p) = some s := by
  rw [dictEntryRef_eq sound]
  exact sound.placed.lookup_stored (sound.cell_of_some present) reaches

theorem dictEntryRef_absent (sound : Sound text h d.dTable)
    (absent : ∀ s, cellAt text d.dTable s ≠ .live k) (reaches : Reaches text h d.dTable k) :
    ∃ t < d.dTable.length, dictEntryRef text d (h.hash k) k = some t ∧
      Free (cellAt text d.dTable) (probe (maskOf d.dTable) (h.hash k)) t := by
  rw [dictEntryRef_eq sound]
  rcases @lookup_absent S (cellAt text d.dTable)
    (fun k => probe (maskOf d.dTable) (h.hash k)) k _ _ absent reaches with ⟨t, found, free⟩
  rcases id free with ⟨n, rfl, _⟩
  exact ⟨_, probe_lt sound.size _ n, found, free⟩

theorem dictEntryRef_none (sound : Sound text h d.dTable)
    (never : ¬ Reaches text h d.dTable k) : dictEntryRef text d (h.hash k) k = none := by
  rw [dictEntryRef_eq sound]
  exact @lookup_none S (cellAt text d.dTable) (fun k => probe (maskOf d.dTable) (h.hash k))
    k _ _ never

end Lookup

section Counting

variable {P : Type} {table : List (DictEntry P)} {t : Nat} {e : DictEntry P}
  {kind : DictEntry P → Bool}

def DictEntry.keyed (e : DictEntry P) : Bool := e.dKey.isSome

def DictEntry.used (e : DictEntry P) : Bool := e.keyed || e.isDummy

theorem entryAt_eq (inside : t < table.length) : entryAt table t = table[t] := by
  rw [entryAt, List.getD_eq_getElem?_getD, List.getElem?_eq_getElem inside]
  rfl

theorem mem_of_key {p : P} (present : (entryAt table t).dKey = some p) :
    t < table.length ∧ entryAt table t ∈ table := by
  by_cases inside : t < table.length
  · exact ⟨inside, entryAt_eq inside ▸ List.getElem_mem inside⟩
  · rw [entryAt, List.getD_eq_getElem?_getD, List.getElem?_eq_none (by omega)] at present
    cases present

theorem entryAt_of_mem (member : e ∈ table) : ∃ s < table.length, entryAt table s = e := by
  rcases List.getElem_of_mem member with ⟨s, inside, same⟩
  exact ⟨s, inside, (entryAt_eq inside).trans same⟩

theorem countP_gain (inside : t < table.length) (was : kind (entryAt table t) = false)
    (now : kind e = true) : (table.set t e).countP kind = table.countP kind + 1 := by
  rw [entryAt_eq inside] at was
  rw [List.countP_set inside, was, now]
  simp

theorem countP_same (inside : t < table.length) (same : kind (entryAt table t) = kind e) :
    (table.set t e).countP kind = table.countP kind := by
  rw [entryAt_eq inside] at same
  have within := List.boole_getElem_le_countP (p := kind) inside
  rw [same] at within
  rw [List.countP_set inside, same]
  omega

theorem countP_loss (inside : t < table.length) (was : kind (entryAt table t) = true)
    (now : kind e = false) : (table.set t e).countP kind + 1 = table.countP kind := by
  rw [entryAt_eq inside] at was
  have within := List.boole_getElem_le_countP (p := kind) inside
  rw [was, if_pos rfl] at within
  rw [List.countP_set inside, was, now, if_pos rfl, if_neg (by simp)]
  omega

theorem countP_zeros (len : Nat) (was : kind .zero = false) :
    (List.replicate len .zero).countP kind = 0 := by
  rw [List.countP_replicate, if_neg (by simp [was])]

theorem zero_not_used : (DictEntry.zero (P := P)).used = false := by
  simp [DictEntry.used, DictEntry.keyed, zero_not_dummy]
  rfl

theorem exists_unused (room : table.countP DictEntry.used < table.length) :
    ∃ s < table.length, (entryAt table s).used = false := by
  by_contra none_left
  push Not at none_left
  have all : table.countP DictEntry.used = table.length := by
    rw [List.countP_eq_length]
    intro e member
    rcases entryAt_of_mem member with ⟨s, inside, rfl⟩
    simpa using none_left s inside
  omega

end Counting

section Rebuild

variable {P S : Type} {text : P → S} {h : StrHash S} {len : Nat} {table : List (DictEntry P)}
  {done : List (DictEntry P)}

structure Moved (text : P → S) (h : StrHash S) (len : Nat) (done table : List (DictEntry P)) :
    Prop where
  sound : Sound text h table
  length : table.length = len
  clean : ∀ s, (entryAt table s).isDummy = false
  holds : ∀ p, (∃ s, (entryAt table s).dKey = some p) ↔ ∃ e ∈ done, e.dKey = some p
  used : table.countP DictEntry.used = done.countP DictEntry.keyed

def Apart (text : P → S) (e e' : DictEntry P) : Prop :=
  ∀ p q, e.dKey = some p → e'.dKey = some q → text p ≠ text q

def Own (text : P → S) (h : StrHash S) (e : DictEntry P) : Prop :=
  ∀ p, e.dKey = some p → e.dHash = h.hash (text p)

theorem Moved.start (size : TableLen len) :
    Moved text h len [] (List.replicate len .zero) := by
  refine ⟨.zeros size, List.length_replicate, ?_, ?_, ?_⟩
  · intro s
    rw [entryAt_zeros, zero_not_dummy]
  · intro p
    constructor
    · rintro ⟨s, present⟩
      rw [entryAt_zeros] at present
      cases present
    · rintro ⟨e, member, _⟩
      cases member
  · rw [countP_zeros len zero_not_used, List.countP_nil]

theorem Moved.probe_ends (moved : Moved text h len done table) (k : S)
    (room : done.countP DictEntry.keyed < len) :
    ∃ n, loop (fun at_ => (entryAt table (slotAt (maskOf table) at_.1)).dKey.isSome)
        probeNext (rehashFuel table.length) (h.hash k &&& maskOf table, h.hash k) =
          .ok (probeNext^[n] (h.hash k &&& maskOf table, h.hash k)) ∧
      (entryAt table (probe (maskOf table) (h.hash k) n)).dKey = none ∧
      Free (cellAt text table) (probe (maskOf table) (h.hash k))
        (probe (maskOf table) (h.hash k) n) := by
  have bound : table.countP DictEntry.used < table.length := by
    rw [moved.used, moved.length]
    exact room
  rcases exists_unused bound with ⟨s, inside, unused⟩
  rcases probe_covers moved.sound.size (h.hash k) inside with ⟨n, soon, reached⟩
  have empty : (entryAt table (probe (maskOf table) (h.hash k) n)).dKey.isSome = false := by
    rw [reached]
    simp only [DictEntry.used, Bool.or_eq_false_iff] at unused
    exact unused.1
  let occupied := fun at_ : UInt64 × UInt64 =>
    (entryAt table (slotAt (maskOf table) at_.1)).dKey.isSome
  rcases @loop_ends _ occupied probeNext (h.hash k &&& maskOf table, h.hash k) n _ empty
    (Nat.le_of_lt soon) with ⟨m, result, _, last, before⟩
  have vacant : (entryAt table (probe (maskOf table) (h.hash k) m)).dKey = none := by
    simpa [probe, occupied] using last
  refine ⟨m, result, vacant, m, rfl, .inl ?_, ?_⟩
  · rw [cell_of_none vacant, moved.clean]
    rfl
  · intro j less cell
    rcases Option.isSome_iff_exists.mp (before j less) with ⟨p, present⟩
    rw [moved.sound.cell_of_some (s := probe (maskOf table) (h.hash k) j) present] at cell
    cases cell

theorem Moved.entry (moved : Moved text h len done table) {e : DictEntry P}
    (own : Own text h e) (apart : ∀ e' ∈ done, Apart text e' e)
    (room : done.countP DictEntry.keyed < len) :
    ∃ next, rehashEntry table e = .ok next ∧ Moved text h len (done ++ [e]) next := by
  cases key : e.dKey with
  | none =>
    refine ⟨table, by rw [rehashEntry, key], moved.sound, moved.length, moved.clean, ?_, ?_⟩
    · intro p
      rw [moved.holds]
      constructor
      · rintro ⟨e', member, present⟩
        exact ⟨e', List.mem_append_left _ member, present⟩
      · rintro ⟨e', member, present⟩
        rcases List.mem_append.mp member with old | new
        · exact ⟨e', old, present⟩
        · rw [List.mem_singleton.mp new, key] at present
          cases present
    · rw [moved.used, List.countP_append]
      simp [DictEntry.keyed, key]
  | some p =>
    have hash := own p key
    have kind : e.isDummy = false := by
      have same := hash_not_dummy (h := h) (text p) (some p)
      rwa [← hash] at same
    rcases moved.probe_ends (text p) room with ⟨n, ends, vacant, free⟩
    have inside := probe_lt moved.sound.size (h.hash (text p)) n
    have absent : ∀ s, cellAt text table s ≠ .live (text p) := by
      intro s stored
      rcases key_of_live stored with ⟨q, present, same⟩
      rcases (moved.holds q).mp ⟨s, present⟩ with ⟨e', member, key'⟩
      exact apart e' member q p key' key same
    refine ⟨table.set (probe (maskOf table) (h.hash (text p)) n) ⟨h.hash (text p), some p⟩,
      ?_, moved.sound.put absent free inside, ?_, ?_, ?_, ?_⟩
    · rw [rehashEntry, key, hash]
      simp only [kind, ends]
      rfl
    · rw [List.length_set, moved.length]
    · intro s
      rw [entryAt_set inside]
      split
      · exact hash_not_dummy _ _
      · exact moved.clean s
    · intro q
      constructor
      · rintro ⟨s, present⟩
        rw [entryAt_set inside] at present
        split at present
        · exact ⟨e, by simp, key.trans present⟩
        · rcases (moved.holds q).mp ⟨s, present⟩ with ⟨e', member, key'⟩
          exact ⟨e', List.mem_append_left _ member, key'⟩
      · rintro ⟨e', member, key'⟩
        rcases List.mem_append.mp member with old | new
        · rcases (moved.holds q).mpr ⟨e', old, key'⟩ with ⟨s, present⟩
          refine ⟨s, ?_⟩
          rw [entryAt_set inside, if_neg]
          · exact present
          · rintro rfl
            rw [vacant] at present
            cases present
        · rw [List.mem_singleton.mp new, key] at key'
          refine ⟨probe (maskOf table) (h.hash (text p)) n, ?_⟩
          rw [entryAt_set inside, if_pos rfl]
          exact key'
    · have was : (entryAt table (probe (maskOf table) (h.hash (text p)) n)).used = false := by
        simp [DictEntry.used, DictEntry.keyed, vacant, moved.clean]
      rw [countP_gain inside was (by simp [DictEntry.used, DictEntry.keyed]), moved.used,
        List.countP_append]
      simp [DictEntry.keyed, key]

theorem Moved.entries (moved : Moved text h len done table) (es : List (DictEntry P))
    (own : ∀ e ∈ es, Own text h e) (apart : (done ++ es).Pairwise (Apart text))
    (room : (done ++ es).countP DictEntry.keyed < len) :
    ∃ next, es.foldlM rehashEntry table = .ok next ∧ Moved text h len (done ++ es) next := by
  induction es generalizing done table with
  | nil => exact ⟨table, rfl, by rwa [List.append_nil]⟩
  | cons e es ih =>
    have cut : done ++ e :: es = (done ++ [e]) ++ es := by simp
    have enough : done.countP DictEntry.keyed < len := by
      rw [List.countP_append] at room
      omega
    have before : ∀ e' ∈ done, Apart text e' e := by
      intro e' member
      exact (List.pairwise_append.mp apart).2.2 e' member e (by simp)
    rcases moved.entry (own e (by simp)) before enough with ⟨mid, taken, next⟩
    rw [cut] at apart room ⊢
    rcases ih next (fun e' member => own e' (.tail _ member)) apart room
      with ⟨last, rest, result⟩
    refine ⟨last, ?_, result⟩
    rw [List.foldlM_cons, taken]
    exact rest

theorem Sound.own (sound : Sound text h table) : ∀ e ∈ table, Own text h e := by
  intro e member p present
  rcases entryAt_of_mem member with ⟨s, _, rfl⟩
  exact sound.hashed s p present

theorem Sound.apart (sound : Sound text h table) : table.Pairwise (Apart text) := by
  rw [List.pairwise_iff_getElem]
  intro i j first second less p q present present' same
  rw [← entryAt_eq first] at present
  rw [← entryAt_eq second] at present'
  have together := sound.placed.single i j (text p) (sound.cell_of_some present)
    (same ▸ sound.cell_of_some present')
  omega

theorem dictResize_spec {d : Dict P} (memory : Nat → Bool)
    (sound : Sound text h d.dTable) (size : ∃ m, 3 ≤ m ∧ len = 2 ^ m)
    (room : d.dTable.countP DictEntry.keyed < len) :
    dictResize memory d len = .ok none ∧ calloc (P := P) memory len = none ∨
    ∃ table, dictResize memory d len = .ok (some ⟨table, d.dCount, d.dCount⟩) ∧
      (calloc (P := P) memory len).isSome ∧ Moved text h len d.dTable table := by
  cases given : calloc (P := P) memory len with
  | none => exact .inl ⟨by rw [dictResize, given], rfl⟩
  | some zeros =>
    have granted : len * 16 < 2 ^ 64 ∧ zeros = List.replicate len .zero := by
      rw [calloc] at given
      split at given
      · next allowed => exact ⟨allowed.1, (Option.some.inj given).symm⟩
      · cases given
    have tableLen : TableLen len := by
      rcases size with ⟨m, atLeast, rfl⟩
      refine ⟨m, atLeast, ?_, rfl⟩
      by_contra wide
      have large : 2 ^ 60 ≤ 2 ^ m := Nat.pow_le_pow_right (by omega) (by omega)
      omega
    have start : Moved text h len [] _ := Moved.start tableLen
    rcases start.entries d.dTable sound.own sound.apart room with ⟨table, built, moved⟩
    refine .inr ⟨table, ?_, rfl, moved⟩
    rw [dictResize, given, granted.2]
    simp only [built]
    rfl

end Rebuild

end PerfStats.Monitor
