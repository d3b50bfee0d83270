import PerfStats.Monitor.DictPlaced

namespace PerfStats.Monitor

open Lib Function

section Grow

theorem sizeT_of_lt {n : Nat} (small : n < 2 ^ 64) : sizeT n = n := Nat.mod_eq_of_lt small

theorem growTableLen_spec (count : Nat) {m : Nat} (atMost : m ≤ 63) :
    ∃ m', growTableLen count (2 ^ m) = .ok (2 ^ m') ∧ m ≤ m' ∧ m' ≤ 63 ∧
      (m' = 63 ∨ sizeT (3 * count) < sizeT (2 * 2 ^ m')) := by
  have doubled : ∀ n, (fun len : Nat => len * 2)^[n] (2 ^ m) = 2 ^ (m + n) := by
    intro n
    induction n with
    | zero => rfl
    | succ n ih => rw [iterate_succ_apply', ih, ← Nat.add_assoc, pow_succ]
  let more := fun len => decide (sizeT (2 * len) ≤ sizeT (3 * count) ∧ len < dictTableLenMax)
  have stops : more ((fun len : Nat => len * 2)^[63 - m] (2 ^ m)) = false := by
    rw [doubled, Nat.add_sub_cancel' atMost]
    simp [more, dictTableLenMax]
  have enough : 63 - m ≤ 64 := by omega
  rcases @loop_ends _ more (· * 2) (2 ^ m) _ _ stops enough with ⟨n, result, upto, last, _⟩
  rw [doubled] at result last
  refine ⟨m + n, result, by omega, by omega, ?_⟩
  by_cases full : m + n = 63
  · exact .inl full
  · have below : 2 ^ (m + n) < dictTableLenMax :=
      Nat.pow_lt_pow_right (by omega) (by omega)
    simp only [more, decide_eq_false_iff_not, not_and_or] at last
    rcases last with enough | large
    · exact .inr (by omega)
    · exact absurd below large

end Grow

section Invariant

variable {P S : Type} {text : P → S} {h : StrHash S} {d : Dict P} {p q : P} {k : S} {t ent : Nat}

structure WellFormed (text : P → S) (h : StrHash S) (d : Dict P) : Prop where
  sound : Sound text h d.dTable
  count : d.dCount = d.dTable.countP DictEntry.keyed
  load : d.dLoad = d.dTable.countP DictEntry.used
  room : 3 * d.dLoad < 2 * d.dTable.length

def Holds (d : Dict P) (p : P) : Prop := ∃ s, (entryAt d.dTable s).dKey = some p

theorem countP_keyed_le_used (table : List (DictEntry P)) :
    table.countP DictEntry.keyed ≤ table.countP DictEntry.used := by
  apply List.countP_mono_left
  intro e _ present
  simp [DictEntry.used, present]

theorem dictInit_spec (memory : Nat → Bool) (count : Nat) :
    ∃ made : Option (Dict P), dictInit memory count = .ok made ∧
      ∀ d ∈ made, WellFormed text h d ∧ ∀ p, ¬ Holds d p := by
  have eight : dictTableLenMin = 2 ^ 3 := rfl
  rcases growTableLen_spec count (m := 3) (by omega) with ⟨m, grown, atLeast, _, _⟩
  rw [← eight] at grown
  refine ⟨_, by rw [dictInit, grown]; rfl, ?_⟩
  intro d given
  rw [Option.mem_def, Option.map_eq_some_iff] at given
  rcases given with ⟨table, granted, rfl⟩
  rw [calloc] at granted
  split at granted
  · next allowed =>
      cases granted
      have size : TableLen (2 ^ m) := by
        refine ⟨m, atLeast, ?_, rfl⟩
        by_contra wide
        have large : 2 ^ 60 ≤ 2 ^ m := Nat.pow_le_pow_right (by omega) (by omega)
        omega
      refine ⟨⟨.zeros size, (countP_zeros _ rfl).symm, (countP_zeros _ zero_not_used).symm, ?_⟩, ?_⟩
      · have bounds := size.bounds
        simp only [List.length_replicate]
        omega
      · rintro p ⟨s, present⟩
        rw [entryAt_zeros] at present
        cases present
  · cases granted

theorem WellFormed.bounds (wf : WellFormed text h d) :
    d.dCount ≤ d.dLoad ∧ 3 * d.dLoad < 2 * d.dTable.length ∧ d.dTable.length < 2 ^ 60 := by
  have fewer := countP_keyed_le_used d.dTable
  rw [← wf.count, ← wf.load] at fewer
  exact ⟨fewer, wf.room, wf.sound.size.bounds.2⟩

theorem holds_text (sound : Sound text h d.dTable) :
    (∃ q, Holds d q ∧ text q = k) ↔ ∃ s, cellAt text d.dTable s = .live k := by
  constructor
  · rintro ⟨q, ⟨s, present⟩, rfl⟩
    exact ⟨s, sound.cell_of_some present⟩
  · rintro ⟨s, stored⟩
    rcases key_of_live stored with ⟨q, present, same⟩
    exact ⟨q, ⟨s, present⟩, same⟩

theorem holds_write (inside : t < d.dTable.length) (e : DictEntry P) :
    Holds (d.write t e) q ↔
      e.dKey = some q ∨ ∃ s, s ≠ t ∧ (entryAt d.dTable s).dKey = some q := by
  simp only [Holds, Dict.write, entryAt_set inside]
  constructor
  · rintro ⟨s, present⟩
    by_cases here : s = t
    · exact .inl (by rwa [if_pos here] at present)
    · exact .inr ⟨s, here, by rwa [if_neg here] at present⟩
  · rintro (present | ⟨s, elsewhere, present⟩)
    · exact ⟨t, by rwa [if_pos rfl]⟩
    · exact ⟨s, by rwa [if_neg elsewhere]⟩

/-- A slot that the entry of `p` may take: it is vacant, or holds an entry of the same key. -/
def Takes (text : P → S) (d : Dict P) (t : Nat) (p : P) : Prop :=
  (entryAt d.dTable t).dKey = none ∧ (∀ s, cellAt text d.dTable s ≠ .live (text p)) ∨
    ∃ q, (entryAt d.dTable t).dKey = some q ∧ text q = text p

theorem holds_put (sound : Sound text h d.dTable) (inside : t < d.dTable.length)
    (takes : Takes text d t p) (hash : UInt64) :
    Holds (d.write t ⟨hash, some p⟩) q ↔ q = p ∨ Holds d q ∧ text q ≠ text p := by
  rw [holds_write inside]
  simp only [Option.some.injEq]
  constructor
  · rintro (rfl | ⟨s, elsewhere, present⟩)
    · exact .inl rfl
    · refine .inr ⟨⟨s, present⟩, fun same => ?_⟩
      have stored := sound.cell_of_some present
      rw [same] at stored
      rcases takes with ⟨_, absent⟩ | ⟨other, there, alike⟩
      · exact absent s stored
      · exact elsewhere (sound.placed.single s t _ stored (alike ▸ sound.cell_of_some there))
  · rintro (rfl | ⟨⟨s, present⟩, differs⟩)
    · exact .inl rfl
    · refine .inr ⟨s, ?_, present⟩
      rintro rfl
      rcases takes with ⟨vacant, _⟩ | ⟨other, there, alike⟩
      · rw [vacant] at present
        cases present
      · rw [there] at present
        exact differs ((Option.some.inj present) ▸ alike)

theorem WellFormed.write_same (wf : WellFormed text h d) (inside : ent < d.dTable.length)
    (present : (entryAt d.dTable ent).dKey = some q) (same : text q = text p) :
    WellFormed text h (d.write ent ⟨h.hash (text p), some p⟩) := by
  have keyed : (entryAt d.dTable ent).keyed = true := by simp [DictEntry.keyed, present]
  refine ⟨wf.sound.replace present same inside, ?_, ?_, ?_⟩
  · rw [Dict.write, countP_same inside (by rw [keyed]; rfl), ← wf.count]
  · rw [Dict.write, countP_same inside (by simp [DictEntry.used, DictEntry.keyed, present]),
      ← wf.load]
  · simpa [Dict.write] using wf.room

theorem WellFormed.write_dummy (wf : WellFormed text h d) (inside : ent < d.dTable.length)
    (vacant : (entryAt d.dTable ent).dKey = none)
    (dummy : (entryAt d.dTable ent).isDummy = true)
    (absent : ∀ s, cellAt text d.dTable s ≠ .live (text p))
    (free : Free (cellAt text d.dTable) (probe (maskOf d.dTable) (h.hash (text p))) ent) :
    WellFormed text h
      ({ d with dCount := d.dCount + 1 }.write ent ⟨h.hash (text p), some p⟩) := by
  refine ⟨wf.sound.put absent free inside, ?_, ?_, ?_⟩
  · rw [Dict.write, countP_gain inside (by simp [DictEntry.keyed, vacant]) rfl, ← wf.count]
  · rw [Dict.write, countP_same inside (by simp [DictEntry.used, DictEntry.keyed, dummy]),
      ← wf.load]
  · simpa [Dict.write] using wf.room

theorem WellFormed.write_fresh (wf : WellFormed text h d) (inside : ent < d.dTable.length)
    (fresh : (entryAt d.dTable ent).used = false)
    (absent : ∀ s, cellAt text d.dTable s ≠ .live (text p))
    (free : Free (cellAt text d.dTable) (probe (maskOf d.dTable) (h.hash (text p))) ent)
    (room : 3 * (d.dLoad + 1) < 2 * d.dTable.length) :
    WellFormed text h
      ({ d with dLoad := d.dLoad + 1, dCount := d.dCount + 1 }.write ent
        ⟨h.hash (text p), some p⟩) := by
  have vacant : (entryAt d.dTable ent).keyed = false := by
    simp only [DictEntry.used, Bool.or_eq_false_iff] at fresh
    exact fresh.1
  refine ⟨wf.sound.put absent free inside, ?_, ?_, ?_⟩
  · rw [Dict.write, countP_gain inside vacant rfl, ← wf.count]
  · rw [Dict.write, countP_gain inside fresh rfl, ← wf.load]
  · simpa [Dict.write] using room

theorem Moved.wellFormed {len : Nat} {table : List (DictEntry P)} (wf : WellFormed text h d)
    (moved : Moved text h len d.dTable table) (room : 3 * d.dCount < 2 * len) :
    WellFormed text h ⟨table, d.dCount, d.dCount⟩ := by
  have used : d.dCount = table.countP DictEntry.used := by rw [moved.used, wf.count]
  have keyed : table.countP DictEntry.keyed = table.countP DictEntry.used := by
    apply List.countP_congr
    intro e member
    rcases entryAt_of_mem member with ⟨s, _, rfl⟩
    simp [DictEntry.used, moved.clean s]
  exact ⟨moved.sound, used.trans keyed.symm, used, by rw [moved.length]; exact room⟩

theorem WellFormed.write_removed (wf : WellFormed text h d) (inside : t < d.dTable.length)
    (present : (entryAt d.dTable t).dKey = some p) :
    WellFormed text h ({ d with dCount := d.dCount - 1 }.write t ⟨dictHashDummy, none⟩) := by
  have keyed : (entryAt d.dTable t).keyed = true := by simp [DictEntry.keyed, present]
  refine ⟨wf.sound.remove inside, ?_, ?_, ?_⟩
  · have fewer : (d.dTable.set t ⟨dictHashDummy, none⟩).countP DictEntry.keyed + 1 =
        d.dTable.countP DictEntry.keyed := countP_loss inside keyed rfl
    have count := wf.count
    simp only [Dict.write]
    omega
  · have used : (entryAt d.dTable t).used = true := by simp [DictEntry.used, keyed]
    rw [Dict.write, countP_same inside (used.trans (by simp [DictEntry.used, dummy_isDummy])),
      ← wf.load]
  · simpa [Dict.write] using wf.room

theorem WellFormed.no_entry (wf : WellFormed text h d) (none_left : d.dCount = 0) :
    ¬ Holds d p := by
  rintro ⟨s, present⟩
  have some_keyed : 0 < d.dTable.countP DictEntry.keyed := by
    rw [List.countP_pos_iff]
    exact ⟨_, (mem_of_key present).2, by simp [DictEntry.keyed, present]⟩
  have count := wf.count
  omega

theorem dictShrink_spec (wf : WellFormed text h d) :
    WellFormed text h (dictShrink d) ∧ ∀ q, Holds (dictShrink d) q ↔ Holds d q := by
  rw [dictShrink]
  split
  · next empty =>
      refine ⟨⟨.zeros wf.sound.size, ?_, (countP_zeros _ zero_not_used).symm, ?_⟩, fun q => ?_⟩
      · rw [countP_zeros _ rfl]
        exact empty.1
      · have bounds := wf.sound.size.bounds
        simp only [List.length_replicate]
        omega
      · constructor
        · rintro ⟨s, present⟩
          rw [entryAt_zeros] at present
          cases present
        · intro holds
          exact absurd holds (wf.no_entry empty.1)
  · exact ⟨wf, fun _ => Iff.rfl⟩

theorem grow_spec (wf : WellFormed text h d) :
    ∃ newLen, growTableLen (d.dCount + 1) d.dTable.length = .ok newLen ∧
      (∃ m, 3 ≤ m ∧ newLen = 2 ^ m) ∧ d.dCount + 1 < newLen ∧
      (newLen * 16 < 2 ^ 64 → 3 * (d.dCount + 1) < 2 * newLen) := by
  have bounds := wf.bounds
  rcases wf.sound.size with ⟨m, atLeast, below, power⟩
  rcases growTableLen_spec (d.dCount + 1) (show m ≤ 63 by omega) with
    ⟨m', grown, longer, atMost, enough⟩
  refine ⟨2 ^ m', by rw [power, grown], ⟨m', by omega, rfl⟩, ?_, ?_⟩
  · have atLeastEight := wf.sound.size.bounds.1
    rcases enough with rfl | enough
    · norm_num at *
      omega
    · by_cases whole : m' = 63
      · subst whole
        omega
      · have half : 2 ^ m' ≤ 2 ^ 62 := Nat.pow_le_pow_right (by omega) (by omega)
        rw [sizeT_of_lt (by omega), sizeT_of_lt (by omega)] at enough
        omega
  · intro granted
    rcases enough with rfl | enough
    · norm_num at granted
    · rw [sizeT_of_lt (by omega), sizeT_of_lt (by omega)] at enough
      exact enough

end Invariant

section Set

variable {P S : Type} {text : P → S} [DecidableEq S] {h : StrHash S} {d : Dict P}
  (memory : Nat → Bool) {p q : P} {k : S} {ent : Nat}

theorem dictEntryRef_cases (sound : Sound text h d.dTable)
    (found : dictEntryRef text d (h.hash k) k = some ent) :
    ent < d.dTable.length ∧ Reaches text h d.dTable k ∧
      ((∃ q, (entryAt d.dTable ent).dKey = some q ∧ text q = k) ∨
        (∀ s, cellAt text d.dTable s ≠ .live k) ∧
          Free (cellAt text d.dTable) (probe (maskOf d.dTable) (h.hash k)) ent) := by
  have reaches : Reaches text h d.dTable k := by
    by_contra never
    rw [dictEntryRef_none sound never] at found
    cases found
  by_cases stored : ∃ s, cellAt text d.dTable s = .live k
  · rcases stored with ⟨s, live⟩
    rcases key_of_live live with ⟨q, present, rfl⟩
    rw [dictEntryRef_stored sound present reaches, Option.some.injEq] at found
    subst found
    exact ⟨(mem_of_key present).1, reaches, .inl ⟨q, present, rfl⟩⟩
  · have absent : ∀ s, cellAt text d.dTable s ≠ .live k := by
      intro s live
      exact stored ⟨s, live⟩
    rcases dictEntryRef_absent sound absent reaches with ⟨t, inside, same, free⟩
    rw [same, Option.some.injEq] at found
    subst found
    exact ⟨inside, reaches, .inr ⟨absent, free⟩⟩

theorem dictEntryRef_isSome (sound : Sound text h d.dTable)
    (reaches : Reaches text h d.dTable k) : (dictEntryRef text d (h.hash k) k).isSome := by
  by_cases stored : ∃ s, cellAt text d.dTable s = .live k
  · rcases stored with ⟨s, live⟩
    rcases key_of_live live with ⟨q, present, rfl⟩
    rw [dictEntryRef_stored sound present reaches]
    rfl
  · rcases dictEntryRef_absent sound (fun s live => stored ⟨s, live⟩) reaches with ⟨t, _, same, _⟩
    rw [same]
    rfl

def Grows (text : P → S) (h : StrHash S) (d : Dict P) (p : P) (newLen : Nat) : Prop :=
  (∃ ent, dictEntryRef text d (h.hash (text p)) (text p) = some ent ∧
    (entryAt d.dTable ent).used = false) ∧
  sizeT (2 * d.dTable.length) ≤ sizeT (3 * (d.dLoad + 1)) ∧
  growTableLen (d.dCount + 1) d.dTable.length = .ok newLen

def Refused (text : P → S) (h : StrHash S) (memory : Nat → Bool) (d : Dict P) (p : P) : Prop :=
  ∃ newLen, Grows text h d p newLen ∧ calloc (P := P) memory newLen = none

def Rebuilds (text : P → S) (h : StrHash S) (memory : Nat → Bool) (d : Dict P) (p : P)
    (r : Dict P) : Prop :=
  ∃ newLen, Grows text h d p newLen ∧ dictResize memory d newLen = .ok (some r)

/-- What a set of `p` does once its slot is known: it stores `p`, or it fails for want of
memory or of a slot in the rebuilt table, and the dict holds what it held. -/
def SetOutcome (text : P → S) (h : StrHash S) (memory : Nat → Bool) (d : Dict P) (p : P)
    (d' : Dict P) (c : Int) : Prop :=
  WellFormed text h d' ∧
    (c = 0 ∧ (∀ q, Holds d' q ↔ q = p ∨ Holds d q ∧ text q ≠ text p) ∧
        (∀ r, Rebuilds text h memory d p r → Reaches text h r.dTable (text p)) ∨
      c = -1 ∧ (∀ q, Holds d' q ↔ Holds d q) ∧
        (Refused text h memory d p ∨
          ∃ r, Rebuilds text h memory d p r ∧ ¬ Reaches text h r.dTable (text p)))

theorem dictEntrySet_full (wf : WellFormed text h d)
    (found : dictEntryRef text d (h.hash (text p)) (text p) = some ent)
    (fresh : (entryAt d.dTable ent).used = false)
    (absent : ∀ s, cellAt text d.dTable s ≠ .live (text p))
    (full : sizeT (2 * d.dTable.length) ≤ sizeT (3 * (d.dLoad + 1))) :
    ∃ d' c, dictEntrySet text memory d ent (h.hash (text p)) p = .ok (d', c) ∧
      SetOutcome text h memory d p d' c := by
  have vacant : (entryAt d.dTable ent).dKey.isSome = false ∧
      (entryAt d.dTable ent).isDummy = false := by
    simpa [DictEntry.used, DictEntry.keyed] using fresh
  rcases grow_spec wf with ⟨newLen, grown, size, larger, roomy⟩
  have grows : Grows text h d p newLen := ⟨⟨ent, found, fresh⟩, full, grown⟩
  have only : ∀ other, Grows text h d p other → other = newLen := by
    rintro other ⟨_, _, again⟩
    rw [grown, Except.ok.injEq] at again
    exact again.symm
  rw [dictEntrySet, if_neg (by simp [vacant.1]), if_neg (by simp [vacant.2]), if_pos full, grown]
  simp only [bind, Except.bind, pure, Except.pure, if_neg (Nat.not_le.mpr larger)]
  rcases dictResize_spec memory wf.sound size
    (show d.dTable.countP DictEntry.keyed < newLen by rw [← wf.count]; omega) with
    ⟨refused, none_given⟩ | ⟨table, resized, granted, moved⟩
  · rw [refused]
    exact ⟨d, -1, rfl, wf, .inr ⟨rfl, fun _ => Iff.rfl, .inl ⟨newLen, grows, none_given⟩⟩⟩
  · have rebuilds : Rebuilds text h memory d p ⟨table, d.dCount, d.dCount⟩ :=
      ⟨newLen, grows, resized⟩
    have only_this : ∀ r, Rebuilds text h memory d p r → r = ⟨table, d.dCount, d.dCount⟩ := by
      rintro r ⟨other, again, result⟩
      rw [only other again, resized, Except.ok.injEq, Option.some.injEq] at result
      exact result.symm
    have fits : newLen * 16 < 2 ^ 64 := by
      rw [calloc] at granted
      split at granted
      · next allowed => exact allowed.1
      · cases granted
    have room := roomy fits
    have wf' : WellFormed text h ⟨table, d.dCount, d.dCount⟩ :=
      moved.wellFormed wf (by omega)
    have same : ∀ q, Holds ⟨table, d.dCount, d.dCount⟩ q ↔ Holds d q := by
      intro q
      rw [Holds, moved.holds, Holds]
      constructor
      · rintro ⟨e, member, present⟩
        rcases entryAt_of_mem member with ⟨s, _, rfl⟩
        exact ⟨s, present⟩
      · rintro ⟨s, present⟩
        exact ⟨_, (mem_of_key present).2, present⟩
    have absent' : ∀ s, cellAt text table s ≠ .live (text p) := by
      intro s live
      rcases (holds_text wf'.sound).mpr ⟨s, live⟩ with ⟨q, holds, alike⟩
      rcases (holds_text wf.sound).mp ⟨q, (same q).mp holds, alike⟩ with ⟨s', live'⟩
      exact absent s' live'
    rw [resized]
    dsimp only
    cases again : dictEntryRef text ⟨table, d.dCount, d.dCount⟩ (h.hash (text p)) (text p) with
    | none =>
      refine ⟨_, -1, rfl, wf', .inr ⟨rfl, same, .inr ⟨_, rebuilds, fun reaches => ?_⟩⟩⟩
      rcases dictEntryRef_absent (d := ⟨table, d.dCount, d.dCount⟩) wf'.sound absent' reaches
        with ⟨t, _, slot, _⟩
      rw [again] at slot
      cases slot
    | some slot =>
      rcases dictEntryRef_cases wf'.sound again with ⟨inside, reaches, kind⟩
      rcases kind with ⟨q, present, alike⟩ | ⟨_, free⟩
      · exact absurd (alike ▸ wf'.sound.cell_of_some present) (absent' slot)
      · have empty : (entryAt table slot).dKey = none := by
          rcases id free with ⟨_, _, free_cell, _⟩
          exact key_of_free free_cell wf'.sound
        have unused : (entryAt table slot).used = false := by
          simp [DictEntry.used, DictEntry.keyed, empty, moved.clean]
        refine ⟨_, 0, rfl, wf'.write_fresh inside unused absent' free ?_,
          .inl ⟨rfl, fun q => ?_, fun r rebuilt => only_this r rebuilt ▸ reaches⟩⟩
        · rw [moved.length]
          exact room
        · rw [← same q]
          exact holds_put wf'.sound inside (.inl ⟨empty, absent'⟩) _

theorem dictEntrySet_spec (wf : WellFormed text h d)
    (found : dictEntryRef text d (h.hash (text p)) (text p) = some ent) :
    ∃ d' c, dictEntrySet text memory d ent (h.hash (text p)) p = .ok (d', c) ∧
      SetOutcome text h memory d p d' c := by
  rcases dictEntryRef_cases wf.sound found with ⟨inside, _, slot⟩
  -- no table is rebuilt unless the slot found is an unused one
  have unused : ∀ r, Rebuilds text h memory d p r → (entryAt d.dTable ent).used = false := by
    rintro r ⟨newLen, ⟨⟨other, same, fresh⟩, _⟩, _⟩
    rw [found, Option.some.injEq] at same
    exact same ▸ fresh
  rw [dictEntrySet]
  rcases slot with ⟨q, present, same⟩ | ⟨absent, free⟩
  · rw [if_pos (by simp [present])]
    refine ⟨_, 0, rfl, wf.write_same inside present same, .inl ⟨rfl, fun q' => ?_, ?_⟩⟩
    · exact holds_put wf.sound inside (.inr ⟨q, present, same⟩) _
    · intro r rebuilds
      have fresh := unused r rebuilds
      simp [DictEntry.used, DictEntry.keyed, present] at fresh
  · have vacant : (entryAt d.dTable ent).dKey = none := by
      rcases id free with ⟨_, _, kind, _⟩
      exact key_of_free kind wf.sound
    have takes : Takes text d ent p := .inl ⟨vacant, absent⟩
    rw [if_neg (by simp [vacant])]
    by_cases dummy : (entryAt d.dTable ent).isDummy = true
    · rw [if_pos dummy]
      refine ⟨_, 0, rfl, wf.write_dummy inside vacant dummy absent free,
        .inl ⟨rfl, fun q' => ?_, ?_⟩⟩
      · exact holds_put wf.sound inside takes _
      · intro r rebuilds
        have fresh := unused r rebuilds
        simp [DictEntry.used, dummy] at fresh
    · have fresh : (entryAt d.dTable ent).used = false := by
        simp [DictEntry.used, DictEntry.keyed, vacant, dummy]
      rw [if_neg dummy]
      by_cases full : sizeT (2 * d.dTable.length) ≤ sizeT (3 * (d.dLoad + 1))
      · have whole := dictEntrySet_full memory wf found fresh absent full
        rwa [dictEntrySet, if_neg (by simp [vacant]), if_neg dummy] at whole
      · rw [if_neg full]
        have room : 3 * (d.dLoad + 1) < 2 * d.dTable.length := by
          have bounds := wf.bounds
          rw [sizeT_of_lt (by omega), sizeT_of_lt (by omega)] at full
          exact Nat.lt_of_not_le full
        refine ⟨_, 0, rfl, wf.write_fresh inside fresh absent free room,
          .inl ⟨rfl, fun q' => ?_, ?_⟩⟩
        · exact holds_put wf.sound inside takes _
        · rintro r ⟨newLen, ⟨_, grown, _⟩, _⟩
          exact absurd grown full

theorem dictSet_spec (wf : WellFormed text h d) :
    dictSet text h memory d p = .ok (d, -1) ∧ ¬ Reaches text h d.dTable (text p) ∨
    Reaches text h d.dTable (text p) ∧
      ∃ d' c, dictSet text h memory d p = .ok (d', c) ∧ SetOutcome text h memory d p d' c := by
  rw [dictSet]
  cases found : dictEntryRef text d (h.hash (text p)) (text p) with
  | none =>
    refine .inl ⟨rfl, fun reaches => ?_⟩
    have right := dictEntryRef_isSome wf.sound reaches
    rw [found] at right
    cases right
  | some ent =>
    rcases dictEntryRef_cases wf.sound found with ⟨_, reaches, slot⟩
    have whole := dictEntrySet_spec memory wf found
    refine .inr ⟨reaches, ?_⟩
    dsimp only
    cases key : (entryAt d.dTable ent).dKey with
    | none => exact whole
    | some q =>
      have alike : text q = text p := by
        rcases slot with ⟨other, there, same⟩ | ⟨_, _, _, kind, _⟩
        · rw [key, Option.some.injEq] at there
          exact there ▸ same
        · rw [key_of_free kind wf.sound] at key
          cases key
      have hash : (entryAt d.dTable ent).dHash = h.hash (text p) := by
        rw [wf.sound.hashed ent q key, alike]
      rw [dictEntrySet, if_pos (by simp [key]), ← hash] at whole
      exact whole

theorem dictRemv_spec (wf : WellFormed text h d) (k : S) :
    (dictRemv text h d k = (d, none) ∧
        ((∃ p, Holds d p ∧ text p = k) → ¬ Reaches text h d.dTable k)) ∨
    ∃ d' p, dictRemv text h d k = (d', some p) ∧ WellFormed text h d' ∧ text p = k ∧
      Holds d p ∧ ∀ q, Holds d' q ↔ Holds d q ∧ text q ≠ k := by
  rw [dictRemv]
  cases found : dictEntryRef text d (h.hash k) k with
  | none =>
    refine .inl ⟨rfl, fun _ reaches => ?_⟩
    have right := dictEntryRef_isSome wf.sound reaches
    rw [found] at right
    cases right
  | some ent =>
    rcases dictEntryRef_cases wf.sound found with ⟨inside, _, slot⟩
    dsimp only
    rw [dictEntryRemv]
    rcases slot with ⟨p, present, rfl⟩ | ⟨absent, _, _, kind, _⟩
    · rcases dictShrink_spec (wf.write_removed inside present) with ⟨wf', same⟩
      refine .inr ⟨_, p, ?_, wf', rfl, ⟨ent, present⟩, fun q => ?_⟩
      · simp only [present, if_true]
      · rw [same, holds_write (d := { d with dCount := d.dCount - 1 }) inside]
        constructor
        · rintro (impossible | ⟨s, elsewhere, there⟩)
          · cases impossible
          · refine ⟨⟨s, there⟩, fun alike => elsewhere ?_⟩
            exact wf.sound.placed.single s ent _ (alike ▸ wf.sound.cell_of_some there)
              (wf.sound.cell_of_some present)
        · rintro ⟨⟨s, there⟩, differs⟩
          refine .inr ⟨s, ?_, there⟩
          rintro rfl
          rw [show (entryAt d.dTable s).dKey = some p from present, Option.some.injEq] at there
          exact differs (there ▸ rfl)
    · refine .inl ⟨?_, ?_⟩
      · simp only [key_of_free kind wf.sound]
      · rintro present
        rcases (holds_text wf.sound).mp present with ⟨s, live⟩
        exact absurd live (absent s)

end Set

section Operations

variable {P S : Type}

/-- A lookup with `dict_entry_ref`, `dict_set`, the pair `dict_entry_ref` and
`dict_entry_set`, and `dict_remv`; `memory` is what `calloc` grants meanwhile. -/
inductive Op (P S : Type) where
  | lookup (key : S)
  | set (memory : Nat → Bool) (key : P)
  | entrySet (memory : Nat → Bool) (key : P)
  | remv (key : S)

/-- What a call returns: the entry found, with its key, the status of a set, or the key of
the entry that was removed. -/
inductive Answer (P : Type) where
  | entry (found : Option (Option P))
  | status (rc : Int)
  | removed (key : Option P)
  deriving DecidableEq

variable (text : P → S) [DecidableEq S] (h : StrHash S)

def serve (d : Dict P) : Op P S → Except Unit (Dict P × Answer P)
  | .lookup k =>
    .ok (d, .entry ((dictEntryRef text d (h.hash k) k).map fun ent =>
      (entryAt d.dTable ent).dKey))
  | .set memory p => do
      let (r, rc) ← dictSet text h memory d p
      return (r, .status rc)
  | .entrySet memory p =>
    match dictEntryRef text d (h.hash (text p)) (text p) with
    | none => .ok (d, .status (-1))
    | some ent => do
        let (r, rc) ← dictEntrySet text memory d ent (h.hash (text p)) p
        return (r, .status rc)
  | .remv k =>
    let (r, key) := dictRemv text h d k
    .ok (r, .removed key)

abbrev KeyMap (P S : Type) := S → Option P

def KeyMap.after (m : KeyMap P S) : Op P S → Answer P → KeyMap P S
  | .set _ p, .status 0 | .entrySet _ p, .status 0 => update m (text p) (some p)
  | .remv k, _ => update m k none
  | _, _ => m

def RightAnswer (d : Dict P) (m : KeyMap P S) : Op P S → Answer P → Prop
  | .lookup k, .entry found => found = some (m k)
  | .set memory p, .status rc | .entrySet memory p, .status rc =>
    rc = 0 ∨ rc = -1 ∧ Refused text h memory d p
  | .remv k, .removed key => key = m k
  | _, _ => False

/-- Each lookup of the call reaches its key or an unused slot within the `table_len` turns it has:
the one in `d`, and for a set also the one in the table it builds. -/
def Meets (d : Dict P) : Op P S → Prop
  | .lookup k => Reaches text h d.dTable k
  | .set memory p | .entrySet memory p =>
    Reaches text h d.dTable (text p) ∧
      ∀ r, Rebuilds text h memory d p r → Reaches text h r.dTable (text p)
  | .remv k => (∃ p, Holds d p ∧ text p = k) → Reaches text h d.dTable k

def advance (s : Dict P × KeyMap P S) (op : Op P S) : Dict P × KeyMap P S :=
  match serve text h s.1 op with
  | .error _ => s
  | .ok (r, answer) => (r, s.2.after text op answer)

def Answers (s : Dict P × KeyMap P S) (op : Op P S) : Prop :=
  ∃ r answer, serve text h s.1 op = .ok (r, answer) ∧ RightAnswer text h s.1 s.2 op answer

def Content (d : Dict P) (m : KeyMap P S) : Prop :=
  ∀ k p, m k = some p ↔ text p = k ∧ Holds d p

variable {text h} {d : Dict P} {m : KeyMap P S} {k : S} {p : P} {d' : Dict P} {memory : Nat → Bool}

omit [DecidableEq S] in
theorem Content.none_iff (content : Content text d m) :
    m k = none ↔ ¬ ∃ p, Holds d p ∧ text p = k := by
  constructor
  · rintro empty ⟨p, holds, same⟩
    rw [(content k p).mpr ⟨same, holds⟩] at empty
    cases empty
  · intro absent
    by_contra present
    rcases Option.ne_none_iff_exists'.mp present with ⟨p, stored⟩
    have there := (content k p).mp stored
    exact absent ⟨p, there.2, there.1⟩

theorem lookup_right (wf : WellFormed text h d) (content : Content text d m) :
    (dictEntryRef text d (h.hash k) k).map (fun ent => (entryAt d.dTable ent).dKey) =
      some (m k) ↔ Reaches text h d.dTable k := by
  constructor
  · intro right
    by_contra never
    rw [dictEntryRef_none wf.sound never] at right
    cases right
  · intro reaches
    cases stored : m k with
    | some p =>
      rcases (content k p).mp stored with ⟨rfl, s, present⟩
      rw [dictEntryRef_stored wf.sound present reaches, Option.map_some, present]
    | none =>
      have absent : ∀ s, cellAt text d.dTable s ≠ .live k := by
        intro s live
        exact content.none_iff.mp stored ((holds_text wf.sound).mpr ⟨s, live⟩)
      rcases dictEntryRef_absent wf.sound absent reaches with ⟨t, _, found, free⟩
      rcases free with ⟨_, _, kind, _⟩
      rw [found, Option.map_some, key_of_free kind wf.sound]

theorem Content.set (content : Content text d m)
    (stored : ∀ q, Holds d' q ↔ q = p ∨ Holds d q ∧ text q ≠ text p) :
    Content text d' (update m (text p) (some p)) := by
  intro k q
  by_cases same : k = text p
  · subst same
    rw [update_self, Option.some.injEq, stored]
    constructor
    · rintro rfl
      exact ⟨rfl, .inl rfl⟩
    · rintro ⟨alike, rfl | ⟨_, differs⟩⟩
      · rfl
      · exact absurd alike differs
  · rw [update_of_ne same, content, stored]
    constructor
    · rintro ⟨rfl, holds⟩
      exact ⟨rfl, .inr ⟨holds, same⟩⟩
    · rintro ⟨rfl, rfl | ⟨holds, _⟩⟩
      · exact absurd rfl same
      · exact ⟨rfl, holds⟩

theorem Content.remove (content : Content text d m)
    (removed : ∀ q, Holds d' q ↔ Holds d q ∧ text q ≠ k) :
    Content text d' (update m k none) := by
  intro k' q
  by_cases same : k' = k
  · subst same
    rw [update_self, removed]
    constructor
    · nofun
    · rintro ⟨alike, _, differs⟩
      exact absurd alike differs
  · rw [update_of_ne same, content, removed]
    constructor
    · rintro ⟨rfl, holds⟩
      exact ⟨rfl, holds, same⟩
    · rintro ⟨alike, holds, _⟩
      exact ⟨alike, holds⟩

omit [DecidableEq S] in
theorem Content.same (content : Content text d m)
    (same : ∀ q, Holds d' q ↔ Holds d q) : Content text d' m := by
  intro k q
  rw [content, same]

theorem Refused.not_rebuilds {r : Dict P}
    (refused : Refused text h memory d p) : ¬ Rebuilds text h memory d p r := by
  rcases refused with ⟨newLen, ⟨_, _, grown⟩, none_given⟩
  rintro ⟨other, ⟨_, _, again⟩, resized⟩
  rw [grown, Except.ok.injEq] at again
  subst again
  rw [dictResize, none_given] at resized
  cases resized

theorem SetOutcome.right {c : Int}
    (outcome : SetOutcome text h memory d p d' c) :
    (c = 0 ∨ c = -1 ∧ Refused text h memory d p) ↔
      ∀ r, Rebuilds text h memory d p r → Reaches text h r.dTable (text p) := by
  rcases outcome with ⟨_, ⟨done, _, reached⟩ | ⟨failed, _, why⟩⟩
  · exact ⟨fun _ => reached, fun _ => .inl done⟩
  · constructor
    · rintro (done | ⟨_, refused⟩) r rebuilds
      · omega
      · exact absurd rebuilds refused.not_rebuilds
    · intro reached
      rcases why with refused | ⟨r, rebuilds, never⟩
      · exact .inr ⟨failed, refused⟩
      · exact absurd (reached r rebuilds) never

theorem SetOutcome.content {c : Int}
    (outcome : SetOutcome text h memory d p d' c) (content : Content text d m) :
    Content text d' (if c = 0 then update m (text p) (some p) else m) := by
  rcases outcome with ⟨_, ⟨rfl, stored, _⟩ | ⟨rfl, same, _⟩⟩
  · rw [if_pos rfl]
    exact content.set stored
  · rw [if_neg (by omega)]
    exact content.same same

omit [DecidableEq S] in
theorem after_set [DecidableEq S] (memory : Nat → Bool) (c : Int) :
    m.after text (.set memory p) (.status c) =
      (if c = 0 then update m (text p) (some p) else m) ∧
    m.after text (.entrySet memory p) (.status c) =
      if c = 0 then update m (text p) (some p) else m := by
  by_cases zero : c = 0
  · subst zero
    exact ⟨rfl, rfl⟩
  · rw [if_neg zero]
    constructor <;> (unfold KeyMap.after; split <;> simp_all)

theorem serve_spec (wf : WellFormed text h d) (content : Content text d m) (op : Op P S) :
    ∃ d' answer, serve text h d op = .ok (d', answer) ∧ WellFormed text h d' ∧
      (RightAnswer text h d m op answer ↔ Meets text h d op) ∧
      (Meets text h d op → Content text d' (m.after text op answer)) := by
  cases op with
  | lookup k =>
    exact ⟨d, _, rfl, wf, lookup_right wf content, fun _ => content⟩
  | set memory p =>
    rcases dictSet_spec memory wf with ⟨failed, never⟩ | ⟨reaches, d', c, result, outcome⟩
    · refine ⟨d, .status (-1), by rw [serve, failed]; rfl, wf, ?_, fun meets => ?_⟩
      · constructor
        · rintro (impossible | ⟨_, _, ⟨⟨ent, found, _⟩, _⟩, _⟩)
          · omega
          · exact absurd (dictEntryRef_cases wf.sound found).2.1 never
        · rintro ⟨reaches, _⟩
          exact absurd reaches never
      · exact absurd meets.1 never
    · refine ⟨d', .status c, by rw [serve, result]; rfl, outcome.1, ?_, fun _ => ?_⟩
      · exact outcome.right.trans ⟨fun later => ⟨reaches, later⟩, fun both => both.2⟩
      · rw [(after_set memory c).1]
        exact outcome.content content
  | entrySet memory p =>
    cases found : dictEntryRef text d (h.hash (text p)) (text p) with
    | none =>
      have never : ¬ Reaches text h d.dTable (text p) := by
        intro reaches
        have right := dictEntryRef_isSome wf.sound reaches
        rw [found] at right
        cases right
      refine ⟨d, .status (-1), by rw [serve, found], wf, ?_, fun meets => ?_⟩
      · constructor
        · rintro (impossible | ⟨_, _, ⟨⟨ent, there, _⟩, _⟩, _⟩)
          · omega
          · rw [found] at there
            cases there
        · rintro ⟨reaches, _⟩
          exact absurd reaches never
      · exact absurd meets.1 never
    | some ent =>
      rcases dictEntrySet_spec memory wf found with ⟨d', c, result, outcome⟩
      have reaches := (dictEntryRef_cases wf.sound found).2.1
      refine ⟨d', .status c, ?_, outcome.1, ?_, fun _ => ?_⟩
      · rw [serve, found]
        simp only [result]
        rfl
      · exact outcome.right.trans ⟨fun later => ⟨reaches, later⟩, fun both => both.2⟩
      · rw [(after_set memory c).2]
        exact outcome.content content
  | remv k =>
    rcases dictRemv_spec wf k with ⟨result, why⟩ | ⟨d', p, result, wf', rfl, holds, removed⟩
    · refine ⟨d, .removed none, by rw [serve, result], wf, ?_, fun meets => ?_⟩
      · constructor
        · intro right present
          exact absurd present (content.none_iff.mp right.symm)
        · intro meets
          have absent : ¬ ∃ p, Holds d p ∧ text p = k := by
            intro present
            exact why present (meets present)
          exact (content.none_iff.mpr absent).symm
      · have absent : ¬ ∃ p, Holds d p ∧ text p = k := by
          intro present
          exact why present (meets present)
        refine content.remove fun q => ⟨fun holds => ⟨holds, fun same => ?_⟩, fun both => both.1⟩
        exact absent ⟨q, holds, same⟩
    · refine ⟨d', .removed (some p), by rw [serve, result], wf', ?_, fun _ => ?_⟩
      · have stored : m (text p) = some p := (content _ p).mpr ⟨rfl, holds⟩
        constructor
        · intro _ _
          by_contra never
          rw [dictRemv, dictEntryRef_none wf.sound never] at result
          cases result
        · intro _
          exact stored.symm
      · exact content.remove removed

omit [DecidableEq S] in
theorem WellFormed.content (wf : WellFormed text h d) : ∃ m, Content text d m := by
  classical
  refine ⟨fun k => if there : ∃ p, Holds d p ∧ text p = k then some there.choose else none, ?_⟩
  intro k p
  dsimp only
  constructor
  · intro stored
    split at stored
    · next there =>
        rw [Option.some.injEq] at stored
        exact stored ▸ ⟨there.choose_spec.2, there.choose_spec.1⟩
    · cases stored
  · rintro ⟨rfl, s, present⟩
    have there : ∃ q, Holds d q ∧ text q = text p := ⟨p, ⟨s, present⟩, rfl⟩
    rw [dif_pos there, Option.some.injEq]
    rcases there.choose_spec with ⟨⟨t, chosen⟩, alike⟩
    have together := wf.sound.placed.single t s (text p) (alike ▸ wf.sound.cell_of_some chosen)
      (wf.sound.cell_of_some present)
    rw [together, present, Option.some.injEq] at chosen
    exact chosen.symm

theorem serve_runs (wf : WellFormed text h d) (ops : List (Op P S)) :
    ∃ out d', Traces (serve text h) d ops out d' ∧ WellFormed text h d' := by
  induction ops generalizing d with
  | nil => exact ⟨[], d, .nil d, wf⟩
  | cons op ops ih =>
    rcases wf.content with ⟨m, content⟩
    rcases serve_spec wf content op with ⟨mid, answer, served, wf', _⟩
    rcases ih wf' with ⟨out, last, rest, wf''⟩
    exact ⟨answer :: out, last, .cons served rest, wf''⟩

def SingleSlots (text : P → S) (d : Dict P) : Prop :=
  ∀ s t p q, (entryAt d.dTable s).dKey = some p → (entryAt d.dTable t).dKey = some q →
    text p = text q → s = t

/-- Every loop ends, no key is in two slots, and every answer is that of the map of the calls so far
exactly where each lookup is within `table_len` turns. -/
theorem dict_answers_iff (text : P → S) (h : StrHash S) (memory : Nat → Bool) (count : Nat)
    (ops : List (Op P S)) :
    ∃ made : Option (Dict P), dictInit memory count = .ok made ∧ ∀ d ∈ made,
      (∃ out d', Traces (serve text h) d ops out d' ∧ SingleSlots text d') ∧
      (Throughout (advance text h) (Answers text h) (d, fun _ => none) ops ↔
        Throughout (advance text h) (fun s op => Meets text h s.1 op) (d, fun _ => none) ops) := by
  rcases @dictInit_spec P S text h memory count with ⟨made, init, new⟩
  refine ⟨made, init, fun d given => ?_⟩
  rcases new d given with ⟨wf, empty⟩
  constructor
  · rcases serve_runs wf ops with ⟨out, d', run, wf'⟩
    refine ⟨out, d', run, fun s t p q first second same => ?_⟩
    exact wf'.sound.placed.single s t (text p) (wf'.sound.cell_of_some first)
      (same ▸ wf'.sound.cell_of_some second)
  · have agrees : ∀ s : Dict P × KeyMap P S, ∀ op,
        WellFormed text h s.1 ∧ Content text s.1 s.2 →
          (Answers text h s op ↔ Meets text h s.1 op) ∧
          (Answers text h s op →
            WellFormed text h (advance text h s op).1 ∧
              Content text (advance text h s op).1 (advance text h s op).2) := by
      rintro ⟨d, m⟩ op ⟨wf, content⟩
      rcases serve_spec wf content op with ⟨d', answer, served, wf', right, still⟩
      have same : Answers text h (d, m) op ↔ Meets text h d op := by
        rw [← right]
        constructor
        · rintro ⟨r, other, again, good⟩
          rw [served, Except.ok.injEq, Prod.mk.injEq] at again
          exact again.2 ▸ good
        · intro good
          exact ⟨d', answer, served, good⟩
      refine ⟨same, fun good => ?_⟩
      rw [advance, served]
      exact ⟨wf', still (same.mp good)⟩
    apply throughout_congr (K := fun s => WellFormed text h s.1 ∧ Content text s.1 s.2)
    · refine ⟨wf, fun k p => ?_⟩
      constructor
      · nofun
      · rintro ⟨_, holds⟩
        exact absurd holds (empty p)
    · intro s op known good
      exact (agrees s op known).2 good
    · intro s op known
      exact (agrees s op known).1

end Operations

section Lnet

def granted : Nat → Bool := fun _ => true

def emptyDict : Dict (List UInt8) := ⟨List.replicate 8 .zero, 0, 0⟩

def loOps : List (Op (List UInt8) (List UInt8)) :=
  [.set granted [108, 111], .lookup [108, 111], .remv [108, 111], .lookup [108, 111]]

theorem dict_answers_lo :
    (∃ out d', Traces (serve id .strhash) emptyDict loOps out d' ∧ SingleSlots id d') ∧
    (Throughout (advance id .strhash) (Answers id .strhash) (emptyDict, fun _ => none) loOps ↔
      Throughout (advance id .strhash) (fun s op => Meets id .strhash s.1 op)
        (emptyDict, fun _ => none) loOps) := by
  rcases dict_answers_iff id .strhash granted 0 loOps with ⟨made, init, sound⟩
  have first : dictInit granted 0 = .ok (some emptyDict) := by decide +kernel
  rw [first, Except.ok.injEq] at init
  exact sound emptyDict (by rw [← init]; rfl)

def bytesOf (s : String) : List UInt8 := s.toList.map fun c => c.toNat.toUInt8

/-- The keys of the `host_lnet` schema, in the order `schema_init` sets them. -/
def lnetKeys : List (List UInt8) :=
  ["msgs_alloc", "msgs_alloc_max", "errors", "tx_msgs", "rx_msgs", "route_msgs",
    "rx_msgs_dropped", "tx_bytes", "rx_bytes", "route_bytes", "rx_bytes_dropped"].map bytesOf

def schemaSets (keys : List (List UInt8)) : List (Op (List UInt8) (List UInt8)) :=
  keys.map (.set granted)

def lnetDict : Dict (List UInt8) × KeyMap (List UInt8) (List UInt8) :=
  (schemaSets (lnetKeys.take 5)).foldl (advance id .strhash) (emptyDict, fun _ => none)

/-- The sixth key of the `host_lnet` schema is refused with three of eight slots unused: the
eight slots of its probe sequence are the other five. -/
theorem lnet_key_refused : dictInit granted 0 = .ok (some emptyDict) ∧
    ¬ Throughout (advance id .strhash) (Answers id .strhash) (emptyDict, fun _ => none)
      (schemaSets lnetKeys) := by
  have found : dictEntryRef id lnetDict.1 (dictStrhash (bytesOf "route_msgs"))
      (bytesOf "route_msgs") = none := by decide +kernel
  refine ⟨by decide +kernel, fun all => ?_⟩
  have cut : schemaSets lnetKeys = schemaSets (lnetKeys.take 5) ++
      .set granted (bytesOf "route_msgs") :: schemaSets (lnetKeys.drop 6) := rfl
  rw [cut, throughout_append] at all
  rcases all with ⟨_, ⟨r, answer, served, right⟩, _⟩
  have failed : dictSet id .strhash granted lnetDict.1 (bytesOf "route_msgs") =
      .ok (lnetDict.1, -1) := by
    rw [dictSet]
    simp only [id_eq, StrHash.strhash, found]
  change serve id .strhash lnetDict.1 (.set granted (bytesOf "route_msgs")) = _ at served
  cases served
  rcases right with impossible | ⟨_, _, ⟨⟨ent, there, _⟩, _⟩, _⟩
  · omega
  · change dictEntryRef id lnetDict.1 (dictStrhash (bytesOf "route_msgs"))
      (bytesOf "route_msgs") = some ent at there
    cases there

end Lnet

end PerfStats.Monitor
