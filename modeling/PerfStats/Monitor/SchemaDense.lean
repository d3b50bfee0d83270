import PerfStats.Lib.Failing
import PerfStats.Monitor.SchemaInit

namespace PerfStats.Monitor

open Lib

section Building

variable {memory : SchemaMemory} {b : Building} {done : List Bytes} {tok : Bytes}

structure Counted (b : Building) : Prop where
  wf : WellFormed EntryCell.seKey .strhash b.scDict
  numbered : b.made.map EntryCell.seAddr = List.range b.made.length
  held : ∀ se, Holds b.scDict se → se ∈ b.made
  dropped : b.freed.Nodup ∧ ∀ se ∈ b.freed, se ∈ b.made ∧ ¬ Holds b.scDict se

/-- A schema in the making once the tokens `done` have become entries. -/
structure Built (done : List Bytes) (b : Building) : Prop extends Counted b where
  none_freed : b.freed = []
  counted : b.nrSe = b.made.length
  keys : b.made.map EntryCell.seKey = done.map tokenKey
  indexed : ∀ se ∈ b.made, se.seIndex = UInt32.ofNat se.seAddr

def Kept (b : Building) : Prop := ∀ se ∈ b.made, se ∈ b.freed ∨ Holds b.scDict se

def Unset (memory : SchemaMemory) (b : Building) (tok : Bytes) : Prop :=
  ∀ se, parseSchemaEntry memory b.nrSe tok = .entry se →
    dictRef EntryCell.seKey .strhash b.scDict se.seKey = none

variable {se : EntryCell}

theorem Counted.addr_lt (counted : Counted b) (member : se ∈ b.made) :
    se.seAddr < b.made.length := by
  have listed := List.mem_map_of_mem (f := EntryCell.seAddr) member
  rw [counted.numbered, List.mem_range] at listed
  exact listed

theorem Counted.same_addr (counted : Counted b) {se' : EntryCell} (first : se ∈ b.made)
    (second : se' ∈ b.made) (same : se.seAddr = se'.seAddr) : se = se' := by
  have apart : (b.made.map EntryCell.seAddr).Nodup := by
    rw [counted.numbered]
    exact List.nodup_range
  exact List.inj_on_of_nodup_map apart first second same

theorem numbered_append {made : List EntryCell}
    (numbered : made.map EntryCell.seAddr = List.range made.length)
    (addr : se.seAddr = made.length) :
    (made ++ [se]).map EntryCell.seAddr = List.range (made ++ [se]).length := by
  rw [List.map_append, numbered, List.length_append, List.length_singleton, List.range_succ,
    List.map_singleton, addr]

theorem Counted.fresh (counted : Counted b) (addr : se.seAddr = b.made.length) : se ∉ b.made := by
  intro member
  have inside := counted.addr_lt member
  omega

theorem dictRef_none_of_refused {d : Dict EntryCell} {key : Bytes}
    (wf : WellFormed EntryCell.seKey .strhash d)
    (never : ¬ Reaches EntryCell.seKey .strhash d.dTable key) :
    dictRef EntryCell.seKey .strhash d key = none := by
  rw [dictRef, dictEntryRef_none wf.sound never]

theorem dictRef_found {d : Dict EntryCell} {key : Bytes} {old : EntryCell}
    (wf : WellFormed EntryCell.seKey .strhash d)
    (found : dictRef EntryCell.seKey .strhash d key = some old) :
    Holds d old ∧ old.seKey = key := by
  rw [dictRef] at found
  cases slot : dictEntryRef EntryCell.seKey d (StrHash.strhash.hash key) key with
  | none =>
    rw [slot] at found
    cases found
  | some ent =>
    rw [slot] at found
    dsimp only at found
    rcases (dictEntryRef_cases wf.sound slot).2.2 with ⟨q, present, same⟩ | ⟨_, _, _, kind, _⟩
    · rw [found, Option.some.injEq] at present
      exact ⟨⟨ent, found⟩, present ▸ same⟩
    · rw [key_of_free kind wf.sound] at found
      cases found

theorem dictSet_of_found {d : Dict EntryCell} {granted : Nat → Bool} {se old : EntryCell}
    (found : dictRef EntryCell.seKey .strhash d se.seKey = some old) :
    ∃ d', dictSet EntryCell.seKey .strhash granted d se = .ok (d', 0) := by
  rw [dictRef] at found
  cases slot : dictEntryRef EntryCell.seKey d (StrHash.strhash.hash se.seKey) se.seKey with
  | none =>
    rw [slot] at found
    cases found
  | some ent =>
    rw [slot] at found
    refine ⟨d.write ent { entryAt d.dTable ent with dKey := some se }, ?_⟩
    rw [dictSet, slot]
    simp only [found]

theorem dictRef_of_held {d : Dict EntryCell}
    (wf : WellFormed EntryCell.seKey .strhash d) (held : Holds d se)
    (reaches : Reaches EntryCell.seKey .strhash d.dTable se.seKey) :
    dictRef EntryCell.seKey .strhash d se.seKey = some se := by
  cases held with
  | intro slot present =>
    rw [dictRef, dictEntryRef_stored wf.sound present reaches]
    exact present

theorem dictSet_cases {d : Dict EntryCell} (granted : Nat → Bool) (se : EntryCell)
    (wf : WellFormed EntryCell.seKey .strhash d) :
    ∃ d' rc, dictSet EntryCell.seKey .strhash granted d se = .ok (d', rc) ∧
      WellFormed EntryCell.seKey .strhash d' ∧
      (rc = 0 ∧ (∀ q, Holds d' q ↔ q = se ∨ Holds d q ∧ q.seKey ≠ se.seKey) ∧
          (dictRef EntryCell.seKey .strhash d se.seKey = none →
            ∀ q, Holds d q → q.seKey ≠ se.seKey) ∨
        rc = -1 ∧ (∀ q, Holds d' q ↔ Holds d q) ∧
          dictRef EntryCell.seKey .strhash d se.seKey = none) := by
  rcases @dictSet_spec EntryCell Bytes EntryCell.seKey _ .strhash d granted se wf with
    ⟨failed, never⟩ | ⟨reaches, d', rc, result, wf', stored | refused⟩
  · exact ⟨d, -1, failed, wf, .inr ⟨rfl, fun _ => Iff.rfl, dictRef_none_of_refused wf never⟩⟩
  · refine ⟨d', rc, result, wf', .inl ⟨stored.1, stored.2.1, ?_⟩⟩
    intro missing q held same
    rw [← same, dictRef_of_held wf held (same ▸ reaches)] at missing
    cases missing
  · refine ⟨d', rc, result, wf', .inr ⟨refused.1, refused.2.1, ?_⟩⟩
    cases found : dictRef EntryCell.seKey .strhash d se.seKey with
    | none => rfl
    | some old =>
      obtain ⟨other, again⟩ := @dictSet_of_found d granted se old found
      rw [result, Except.ok.injEq, Prod.mk.injEq] at again
      omega

structure TurnSpec (memory : SchemaMemory) (done : List Bytes) (b : Building) (tok : Bytes)
    (b' : Building) (more : Bool) : Prop where
  counted : Counted b'
  built : more = true → Built (done ++ [tok]) b'
  kept : Kept b' ↔ Kept b ∧ Unset memory b tok

theorem TurnSpec.dropped (built : Built done b) {se : EntryCell} {d : Dict EntryCell} (n : Nat)
    (addr : se.seAddr = b.made.length) (wf : WellFormed EntryCell.seKey .strhash d)
    (same : ∀ q, Holds d q ↔ Holds b.scDict q) (unset : Unset memory b tok) :
    TurnSpec memory done b tok ⟨d, n, b.made ++ [se], b.freed ++ [se]⟩ false := by
  have fresh := built.fresh addr
  have not_held : ¬ Holds d se := fun held => fresh (built.held se ((same se).mp held))
  refine ⟨⟨wf, numbered_append built.numbered addr, ?_, ?_, ?_⟩, nofun, ?_⟩
  · intro q held
    exact List.mem_append_left _ (built.held q ((same q).mp held))
  · rw [built.none_freed]
    exact List.nodup_singleton se
  · intro q freed
    rw [built.none_freed, List.nil_append, List.mem_singleton] at freed
    subst freed
    exact ⟨List.mem_append_right _ (List.mem_singleton_self q), not_held⟩
  · rw [Kept, Kept, built.none_freed]
    simp only [same]
    constructor
    · intro kept
      refine ⟨fun q member => ?_, unset⟩
      rcases kept q (List.mem_append_left _ member) with freed | held
      · rw [List.nil_append, List.mem_singleton] at freed
        exact absurd (freed ▸ member) fresh
      · exact .inr held
    · intro both q member
      rcases List.mem_append.mp member with old | new
      · rcases both.1 q old with freed | held
        · cases freed
        · exact .inr held
      · exact .inl new

theorem TurnSpec.stored (built : Built done b) {se : EntryCell} {d : Dict EntryCell}
    (addr : se.seAddr = b.made.length) (key : se.seKey = tokenKey tok)
    (index : se.seIndex = UInt32.ofNat b.nrSe)
    (wf : WellFormed EntryCell.seKey .strhash d)
    (stored : ∀ q, Holds d q ↔ q = se ∨ Holds b.scDict q ∧ q.seKey ≠ se.seKey)
    (unset : Unset memory b tok ↔ ∀ q, Holds b.scDict q → q.seKey ≠ se.seKey) :
    TurnSpec memory done b tok ⟨d, b.nrSe + 1, b.made ++ [se], b.freed⟩ true := by
  have fresh := built.fresh addr
  have counted : Counted ⟨d, b.nrSe + 1, b.made ++ [se], b.freed⟩ := by
    refine ⟨wf, numbered_append built.numbered addr, ?_, ?_⟩
    · intro q held
      rcases (stored q).mp held with rfl | ⟨old, _⟩
      · exact List.mem_append_right _ (List.mem_singleton_self q)
      · exact List.mem_append_left _ (built.held q old)
    · dsimp only
      rw [built.none_freed]
      exact ⟨List.nodup_nil, nofun⟩
  refine ⟨counted, fun _ => ⟨counted, built.none_freed, ?_, ?_, ?_⟩, ?_⟩
  · dsimp only
    rw [List.length_append, List.length_singleton, built.counted]
  · dsimp only
    rw [List.map_append, List.map_append, built.keys, List.map_singleton, List.map_singleton, key]
  · intro q member
    rcases List.mem_append.mp member with old | new
    · exact built.indexed q old
    · rw [List.mem_singleton.mp new, index, addr, built.counted]
  · rw [Kept, Kept, unset, built.none_freed]
    constructor
    · intro kept
      have survives : ∀ q ∈ b.made, Holds b.scDict q ∧ q.seKey ≠ se.seKey := by
        intro q member
        rcases kept q (List.mem_append_left _ member) with freed | held
        · cases freed
        · rcases (stored q).mp held with same | old
          · exact absurd (same ▸ member) fresh
          · exact old
      exact ⟨fun q member => .inr (survives q member).1,
        fun q held => (survives q (built.held q held)).2⟩
    · intro both q member
      rcases List.mem_append.mp member with old | new
      · rcases both.1 q old with freed | held
        · cases freed
        · exact .inr ((stored q).mpr (.inr ⟨held, both.2 q held⟩))
      · exact .inr ((stored q).mpr (.inl (List.mem_singleton.mp new)))

theorem initToken_spec (memory : SchemaMemory) (built : Built done b) (tok : Bytes) :
    ∃ b' more, initToken memory b tok = .ok (b', more) ∧
      TurnSpec memory done b tok b' more := by
  rw [initToken]
  cases parsed : parseSchemaEntry memory b.nrSe tok with
  | none_ =>
    have unset : Unset memory b tok := by
      intro se again
      rw [parsed] at again
      cases again
    exact ⟨b, false, rfl, built.toCounted, nofun, fun kept => ⟨kept, unset⟩, And.left⟩
  | freed se =>
    have unset : Unset memory b tok := by
      intro other again
      rw [parsed] at again
      cases again
    have addr := (parseSchemaEntry_cell memory b.nrSe tok (by rw [parsed]; rfl)).1
    rw [built.counted] at addr
    exact ⟨_, false, rfl, .dropped built b.nrSe addr built.wf (fun _ => Iff.rfl) unset⟩
  | entry se =>
    have cell := parseSchemaEntry_cell memory b.nrSe tok (by rw [parsed]; rfl)
    have addr := cell.1
    rw [built.counted] at addr
    have unset_iff : Unset memory b tok ↔
        dictRef EntryCell.seKey .strhash b.scDict se.seKey = none := by
      constructor
      · intro unset
        exact unset se parsed
      · intro missing other again
        rw [parsed, ParseResult.entry.injEq] at again
        exact again ▸ missing
    dsimp only
    rcases dictSet_cases (memory.table b.nrSe) { se with seIndex := UInt32.ofNat b.nrSe }
      built.wf with ⟨d, rc, result, wf, ⟨rfl, stored, clear⟩ | ⟨rfl, same, missing⟩⟩
    · refine ⟨⟨d, b.nrSe + 1, b.made ++ [_], b.freed⟩, true, ?_,
        @TurnSpec.stored memory b done tok built { se with seIndex := UInt32.ofNat b.nrSe } d
          addr cell.2 rfl wf stored ?_⟩
      · rw [bind_of_eq result]
        rfl
      · rw [unset_iff]
        refine ⟨clear, fun apart => ?_⟩
        cases found : dictRef EntryCell.seKey .strhash b.scDict se.seKey with
        | none => rfl
        | some old =>
          have there := dictRef_found built.wf found
          exact absurd there.2 (apart old there.1)
    · refine ⟨⟨d, b.nrSe + 1, b.made ++ [_], b.freed ++ [_]⟩, false, ?_,
        @TurnSpec.dropped memory b done tok built { se with seIndex := UInt32.ofNat b.nrSe } d
          (b.nrSe + 1) addr wf same (unset_iff.mpr missing)⟩
      rw [bind_of_eq result]
      rfl

/-- Every set that the loop comes to, from `b` on, finds its key unset. -/
def Afresh (memory : SchemaMemory) : List Bytes → Building → Prop
  | [], _ => True
  | tok :: rest, b => Unset memory b tok ∧
      ∀ b', initToken memory b tok = .ok (b', true) → Afresh memory rest b'

theorem initTokens_spec (memory : SchemaMemory) (toks : List Bytes) (built : Built done b) :
    ∃ b' more, initTokens memory toks b = .ok (b', more) ∧ Counted b' ∧
      (more = true → Built (done ++ toks) b') ∧ (Kept b' ↔ Kept b ∧ Afresh memory toks b) := by
  induction toks generalizing done b with
  | nil =>
    refine ⟨b, true, rfl, built.toCounted, fun _ => ?_, fun kept => ⟨kept, trivial⟩, And.left⟩
    rw [List.append_nil]
    exact built
  | cons tok rest ih =>
    obtain ⟨mid, more, turned, spec⟩ := initToken_spec memory built tok
    rw [initTokens, bind_of_eq turned, Afresh]
    cases more with
    | false =>
      refine ⟨mid, false, rfl, spec.counted, nofun, ?_⟩
      rw [spec.kept]
      constructor
      · intro both
        refine ⟨both.1, both.2, fun b' again => ?_⟩
        rw [turned] at again
        cases again
      · intro all
        exact ⟨all.1, all.2.1⟩
    | true =>
      obtain ⟨last, more, run, counted, final, kept⟩ := ih (spec.built rfl)
      refine ⟨last, more, run, counted, fun on => ?_, ?_⟩
      · have whole := final on
        rwa [List.append_assoc] at whole
      · rw [kept, spec.kept]
        constructor
        · intro all
          refine ⟨all.1.1, all.1.2, fun b' again => ?_⟩
          rw [turned, Except.ok.injEq, Prod.mk.injEq] at again
          exact again.1 ▸ all.2
        · intro all
          exact ⟨⟨all.1, all.2.1⟩, all.2.2 mid turned⟩

end Building

section Array

variable {ents : List (Option EntryCell)} {ses : List EntryCell}

structure Filled (ses : List EntryCell) (ents filled : List (Option EntryCell)) : Prop where
  length : filled.length = ents.length
  source : ∀ i se, filled.getD i none = some se →
    se ∈ ses ∧ se.seIndex.toNat = i ∨ ents.getD i none = some se
  untouched : ∀ i, (∀ se ∈ ses, se.seIndex.toNat ≠ i) → filled.getD i none = ents.getD i none
  stored : ∀ se ∈ ses, (∀ se' ∈ ses, se'.seIndex.toNat = se.seIndex.toNat → se' = se) →
    filled.getD se.seIndex.toNat none = some se

theorem getD_set {i j : Nat} (inside : j < ents.length) (e : Option EntryCell) :
    (ents.set j e).getD i none = if i = j then e else ents.getD i none := by
  rw [List.getD_eq_getElem?_getD, List.getD_eq_getElem?_getD, List.getElem?_set]
  by_cases same : j = i
  · rw [if_pos same, if_pos same.symm, if_pos (same ▸ inside)]
    rfl
  · rw [if_neg same, if_neg (Ne.symm same)]

theorem fill_spec (ses : List EntryCell) (ents : List (Option EntryCell))
    (inside : ∀ se ∈ ses, se.seIndex.toNat < ents.length) :
    ∃ filled, ses.foldlM fillSlot ents = .ok filled ∧ Filled ses ents filled := by
  induction ses generalizing ents with
  | nil => exact ⟨ents, rfl, rfl, fun _ _ same => .inr same, fun _ _ => rfl, nofun⟩
  | cons head tail ih =>
    have first := inside head (.head _)
    have set : fillSlot ents head = .ok (ents.set head.seIndex.toNat (some head)) := by
      rw [fillSlot, if_pos first]
    obtain ⟨filled, run, spec⟩ := ih (ents.set head.seIndex.toNat (some head)) (by
      intro se member
      rw [List.length_set]
      exact inside se (.tail _ member))
    refine ⟨filled, ?_, ?_, ?_, ?_, ?_⟩
    · rw [List.foldlM_cons, set]
      exact run
    · rw [spec.length, List.length_set]
    · intro i se there
      rcases spec.source i se there with later | before
      · exact .inl ⟨.tail _ later.1, later.2⟩
      · rw [getD_set first] at before
        split at before
        · next here =>
            cases before
            exact .inl ⟨.head _, here.symm⟩
        · exact .inr before
    · intro i apart
      rw [spec.untouched i fun se member => apart se (.tail _ member),
        getD_set first, if_neg (Ne.symm (apart head (.head _)))]
    · intro se member alone
      by_cases later : se ∈ tail
      · exact spec.stored se later fun se' member' =>
          alone se' (.tail _ member')
      · have same : se = head := by
          rcases List.mem_cons.mp member with here | there
          · exact here
          · exact absurd there later
        subst same
        rw [spec.untouched, getD_set first, if_pos rfl]
        intro se' member' clash
        exact later (alone se' (.tail _ member') clash ▸ member')

end Array

section Run

variable {memory : SchemaMemory} {b : Building} {toks : List Bytes} {d : Dict EntryCell}
  {filled : List (Option EntryCell)}

theorem mem_dictKeys {se : EntryCell} : se ∈ dictKeys d ↔ Holds d se := by
  rw [dictKeys, List.mem_filterMap]
  constructor
  · intro listed
    obtain ⟨e, member, key⟩ := listed
    obtain ⟨s, _, rfl⟩ := entryAt_of_mem member
    exact ⟨s, key⟩
  · intro held
    obtain ⟨s, present⟩ := held
    exact ⟨_, (mem_of_key present).2, present⟩

theorem dictKeys_nodup (wf : WellFormed EntryCell.seKey .strhash d) :
    (dictKeys d).Nodup := by
  rw [dictKeys, List.Nodup, List.pairwise_filterMap]
  apply wf.sound.apart.imp
  intro e e' apart p key q key' same
  exact apart p q key key' (same ▸ rfl)

theorem Built.index_lt (built : Built toks b) {se : EntryCell} (held : Holds b.scDict se) :
    se.seIndex.toNat < b.nrSe := by
  have member := built.held se held
  rw [built.indexed se member, built.counted]
  calc
    (UInt32.ofNat se.seAddr).toNat = se.seAddr % 2 ^ 32 := UInt32.toNat_ofNat'
    _ ≤ se.seAddr := Nat.mod_le _ _
    _ < b.made.length := built.addr_lt member

theorem Built.length (built : Built toks b) : b.nrSe = toks.length := by
  have same := congrArg List.length built.keys
  rw [List.length_map, List.length_map] at same
  rw [built.counted, same]

theorem Built.nth (built : Built toks b) {i : Nat} (inside : i < b.nrSe) :
    ∃ se ∈ b.made, se.seAddr = i ∧ toks[i]?.map tokenKey = some se.seKey := by
  have within : i < b.made.length := built.counted ▸ inside
  refine ⟨b.made[i], List.getElem_mem within, ?_, ?_⟩
  · have same := congrArg (fun l => l[i]?) built.numbered
    simpa [within] using same
  · have same := congrArg (fun l => l[i]?) built.keys
    simpa [within] using same.symm

def Dense (toks : List Bytes) (sc : Schema) : Prop :=
  sc.scLen = toks.length ∧ ∀ i < sc.scLen, ∃ se, (sc.scEnt.getD []).getD i none = some se ∧
    se.seIndex.toNat = i ∧ toks[i]?.map tokenKey = some se.seKey ∧
    dictRef EntryCell.seKey .strhash sc.scDict se.seKey = some se

/-- Behind a failure and `schema_destroy`, each entry allocated was freed, and once. -/
def Accounted (out : InitOutcome) : Prop :=
  ∃ later, schemaDestroy out.sc = some later ∧ (out.freed ++ later).Nodup ∧
    ∀ se, se ∈ out.freed ++ later ↔ se ∈ out.made

def KeysReached (d : Dict EntryCell) : Prop :=
  ∀ se, Holds d se → Reaches EntryCell.seKey .strhash d.dTable se.seKey

theorem Built.dense_of_kept (built : Built toks b)
    (spec : Filled (dictKeys b.scDict) (List.replicate b.nrSe none) filled) (kept : Kept b)
    (few : toks.length ≤ 2 ^ 32) (reached : KeysReached b.scDict) :
    Dense toks ⟨b.nrSe, some filled, b.scDict⟩ := by
  have own_index : ∀ se ∈ b.made, se.seIndex.toNat = se.seAddr := by
    intro se member
    have small := built.addr_lt member
    rw [← built.counted, built.length] at small
    rw [built.indexed se member, UInt32.toNat_ofNat', Nat.mod_eq_of_lt (by omega)]
  refine ⟨built.length, fun i inside => ?_⟩
  obtain ⟨se, member, addr, key⟩ := built.nth inside
  have held : Holds b.scDict se := by
    rcases kept se member with freed | held
    · rw [built.none_freed] at freed
      cases freed
    · exact held
  have alone : ∀ se' ∈ dictKeys b.scDict, se'.seIndex.toNat = se.seIndex.toNat → se' = se := by
    intro se' listed clash
    have member' := built.held se' (mem_dictKeys.mp listed)
    rw [own_index se member, own_index se' member'] at clash
    exact built.same_addr member' member clash
  have index : se.seIndex.toNat = i := (own_index se member).trans addr
  have there := spec.stored se (mem_dictKeys.mpr held) alone
  rw [index] at there
  exact ⟨se, there, index, key, dictRef_of_held built.wf held (reached se held)⟩

theorem Built.kept_of_dense (built : Built toks b)
    (spec : Filled (dictKeys b.scDict) (List.replicate b.nrSe none) filled)
    (dense : Dense toks ⟨b.nrSe, some filled, b.scDict⟩) :
    Kept b ∧ toks.length ≤ 2 ^ 32 ∧ KeysReached b.scDict := by
  have few : toks.length ≤ 2 ^ 32 := by
    by_contra many
    obtain ⟨se, _, index, _⟩ := dense.2 (2 ^ 32) (by
      have same := dense.1
      omega)
    have small := se.seIndex.toNat_lt
    omega
  -- what stands at the index of an entry is that entry, so every entry is in the dict
  have all_found : ∀ se ∈ b.made, Holds b.scDict se ∧
      dictRef EntryCell.seKey .strhash b.scDict se.seKey = some se := by
    intro se member
    have inside := built.addr_lt member
    rw [← built.counted] at inside
    obtain ⟨se', there, index, _, found⟩ := dense.2 se.seAddr inside
    rcases spec.source _ _ there with ⟨listed, _⟩ | nothing
    · have member' := built.held se' (mem_dictKeys.mp listed)
      have small := built.addr_lt member'
      rw [← built.counted, built.length] at small
      rw [built.indexed se' member', UInt32.toNat_ofNat', Nat.mod_eq_of_lt (by omega)] at index
      have same := built.same_addr member' member index
      exact same ▸ ⟨mem_dictKeys.mp listed, found⟩
    · have empty :
          (List.replicate b.nrSe (none : Option EntryCell)).getD se.seAddr none = none := by
        rw [List.getD_eq_getElem?_getD, List.getElem?_replicate]
        split <;> rfl
      rw [empty] at nothing
      cases nothing
  refine ⟨fun se member => .inr (all_found se member).1, few, fun se held => ?_⟩
  by_contra never
  have found := (all_found se (built.held se held)).2
  rw [dictRef_none_of_refused built.wf never] at found
  cases found

theorem Counted.abort_iff (counted : Counted b) : Accounted (schemaInitAbort b) ↔ Kept b := by
  have disjoint : (b.freed ++ dictKeys b.scDict ++ []).Nodup := by
    rw [List.append_nil]
    refine counted.dropped.1.append (dictKeys_nodup counted.wf) ?_
    intro se freed listed
    exact (counted.dropped.2 se freed).2 (mem_dictKeys.mp listed)
  constructor
  · intro accounted se member
    obtain ⟨later, destroyed, _, all⟩ := accounted
    cases destroyed
    have freed : se ∈ b.freed ++ dictKeys b.scDict ++ [] := (all se).mpr member
    rw [List.append_nil] at freed
    rcases List.mem_append.mp freed with early | late
    · exact .inl early
    · exact .inr (mem_dictKeys.mp late)
  · intro kept
    refine ⟨[], rfl, disjoint, fun se => ?_⟩
    rw [List.append_nil]
    constructor
    · intro freed
      rcases List.mem_append.mp freed with early | late
      · exact (counted.dropped.2 se early).1
      · exact counted.held se (mem_dictKeys.mp late)
    · intro member
      rcases kept se member with early | held
      · exact List.mem_append_left _ early
      · exact List.mem_append_right _ (mem_dictKeys.mpr held)

theorem fill_granted (memory : SchemaMemory) (built : Built toks b)
    (granted : arrayGranted memory b.nrSe = true) :
    ∃ filled, schemaFillEntryArray memory b.scDict b.nrSe = .ok (some filled) ∧
      Filled (dictKeys b.scDict) (List.replicate b.nrSe none) filled := by
  obtain ⟨filled, run, spec⟩ := fill_spec (dictKeys b.scDict) (List.replicate b.nrSe none) (by
    intro se listed
    rw [List.length_replicate]
    exact built.index_lt (mem_dictKeys.mp listed))
  refine ⟨filled, ?_, spec⟩
  rw [schemaFillEntryArray, if_pos granted, run]
  rfl

theorem start_built (wf : WellFormed EntryCell.seKey .strhash d)
    (empty : ∀ se, ¬ Holds d se) : Built [] (startBuilding d) := by
  refine ⟨⟨wf, rfl, fun se held => absurd held (empty se), List.nodup_nil, nofun⟩, rfl, rfl,
    rfl, nofun⟩

/-- What `schema_init` promises for a definition, on a schema that is all zero bytes. -/
def SchemaMeets (memory : SchemaMemory) (definition : Bytes) : Prop :=
  ∃ out, schemaInitOn memory .zero definition = .ok out ∧
    (out.rc = 0 ∧ Dense (definitionTokens definition) out.sc ∨ out.rc = -1 ∧ Accounted out)

/-- No set of a key finds the key set; and where all keys are set and there is an array, they
have an index each and are within the reach of a lookup. -/
def SchemaPlain (memory : SchemaMemory) (definition : Bytes) : Prop :=
  memory.copy = true → ∀ d, dictInit memory.dict 0 = .ok (some d) →
    Afresh memory (definitionTokens definition) (startBuilding d) ∧
    ∀ b, initTokens memory (definitionTokens definition) (startBuilding d) = .ok (b, true) →
      arrayGranted memory b.nrSe = true →
        (definitionTokens definition).length ≤ 2 ^ 32 ∧ KeysReached b.scDict

section Outcome

variable {definition : Bytes} {d : Dict EntryCell} {more : Bool}

theorem schemaInit_run (copied : memory.copy = true)
    (init : dictInit memory.dict 0 = .ok (some d))
    (run : initTokens memory (definitionTokens definition) (startBuilding d) = .ok (b, more)) :
    schemaInitOn memory .zero definition =
      if more = true then
        schemaFillEntryArray memory b.scDict b.nrSe >>= fun ents =>
          .ok (ents.elim (schemaInitAbort b) fun ents =>
            ⟨0, ⟨b.nrSe, some ents, b.scDict⟩, b.made, b.freed⟩)
      else .ok (schemaInitAbort b) := by
  rw [schemaInitOn, copied, if_neg (by simp), bind_of_eq init]
  dsimp only
  rw [bind_of_eq run]
  split
  · congr 1
    funext ents
    cases ents <;> rfl
  · rfl

theorem schemaMeets_of_abort (counted : Counted b)
    (failed : schemaInitOn memory .zero definition = .ok (schemaInitAbort b)) :
    SchemaMeets memory definition ↔ Kept b := by
  rw [SchemaMeets, failed, ← counted.abort_iff]
  constructor
  · intro meets
    obtain ⟨out, same, ⟨impossible, _⟩ | ⟨_, accounted⟩⟩ := meets
    · cases same
      cases impossible
    · cases same
      exact accounted
  · intro accounted
    exact ⟨_, rfl, .inr ⟨rfl, accounted⟩⟩

theorem schemaMeets_of_filled (built : Built (definitionTokens definition) b)
    {filled : List (Option EntryCell)}
    (spec : Filled (dictKeys b.scDict) (List.replicate b.nrSe none) filled)
    (returned : schemaInitOn memory .zero definition =
      .ok ⟨0, ⟨b.nrSe, some filled, b.scDict⟩, b.made, b.freed⟩) :
    SchemaMeets memory definition ↔
      Kept b ∧ (definitionTokens definition).length ≤ 2 ^ 32 ∧ KeysReached b.scDict := by
  rw [SchemaMeets, returned]
  constructor
  · intro meets
    obtain ⟨out, same, ⟨_, dense⟩ | ⟨impossible, _⟩⟩ := meets
    · cases same
      exact built.kept_of_dense spec dense
    · cases same
      cases impossible
  · intro all
    exact ⟨_, rfl, .inl ⟨rfl, built.dense_of_kept spec all.1 all.2.1 all.2.2⟩⟩

theorem schemaPlain_iff (copied : memory.copy = true)
    (init : dictInit memory.dict 0 = .ok (some d))
    (run : initTokens memory (definitionTokens definition) (startBuilding d) = .ok (b, more)) :
    SchemaPlain memory definition ↔
      Afresh memory (definitionTokens definition) (startBuilding d) ∧
        (more = true → arrayGranted memory b.nrSe = true →
          (definitionTokens definition).length ≤ 2 ^ 32 ∧ KeysReached b.scDict) := by
  rw [SchemaPlain, init]
  constructor
  · intro all
    obtain ⟨afresh, accepted⟩ := all copied d rfl
    refine ⟨afresh, fun on => accepted b ?_⟩
    rw [run, on]
  · intro both _ d' same
    cases same
    refine ⟨both.1, fun b' again => ?_⟩
    rw [run, Except.ok.injEq, Prod.mk.injEq] at again
    exact again.1 ▸ both.2 again.2

end Outcome

/-- `schema_init` makes a dense schema or fails without losing an entry exactly where no key is set
twice, each token has its index and lookups reach the keys. -/
theorem schema_init_iff (memory : SchemaMemory) (definition : Bytes) :
    SchemaMeets memory definition ↔ SchemaPlain memory definition := by
  have nothing_lost : Accounted ⟨-1, .zero, [], []⟩ := ⟨[], rfl, List.nodup_nil, fun _ => Iff.rfl⟩
  cases copied : memory.copy with
  | false =>
    have failed : schemaInitOn memory .zero definition = .ok ⟨-1, .zero, [], []⟩ := by
      rw [schemaInitOn, copied]
      rfl
    rw [SchemaMeets, SchemaPlain, failed, copied]
    exact ⟨fun _ => nofun, fun _ => ⟨_, rfl, .inr ⟨rfl, nothing_lost⟩⟩⟩
  | true =>
    obtain ⟨made, init, new⟩ := @dictInit_spec EntryCell Bytes EntryCell.seKey .strhash
      memory.dict 0
    cases made with
    | none =>
      have failed : schemaInitOn memory .zero definition = .ok ⟨-1, .zero, [], []⟩ := by
        rw [schemaInitOn, copied, if_neg (by simp), bind_of_eq init]
        rfl
      rw [SchemaMeets, SchemaPlain, failed, init]
      refine ⟨fun _ _ d impossible => ?_, fun _ => ⟨_, rfl, .inr ⟨rfl, nothing_lost⟩⟩⟩
      cases impossible
    | some d =>
      obtain ⟨wf, empty⟩ := new d rfl
      obtain ⟨b, more, run, counted, built, kept⟩ :=
        initTokens_spec memory (definitionTokens definition) (start_built wf empty)
      have afresh : Kept b ↔ Afresh memory (definitionTokens definition) (startBuilding d) :=
        kept.trans (and_iff_right nofun)
      have entered := schemaInit_run copied init run
      rw [schemaPlain_iff copied init run, ← afresh]
      cases more with
      | false =>
        rw [schemaMeets_of_abort counted entered]
        exact ⟨fun whole => ⟨whole, nofun⟩, And.left⟩
      | true =>
        cases granted : arrayGranted memory b.nrSe with
        | false =>
          rw [schemaFillEntryArray, granted] at entered
          rw [schemaMeets_of_abort counted entered]
          exact ⟨fun whole => ⟨whole, nofun⟩, And.left⟩
        | true =>
          obtain ⟨filled, fill, spec⟩ := fill_granted memory (built rfl) granted
          rw [bind_of_eq fill, Option.elim_some] at entered
          rw [schemaMeets_of_filled (built rfl) spec entered]
          exact ⟨fun all => ⟨all.1, fun _ _ => all.2⟩,
            fun both => ⟨both.1, both.2 rfl rfl⟩⟩

def ample : SchemaMemory :=
  ⟨true, fun _ => true, fun _ => true, fun _ => true, fun _ _ => true, fun _ => true⟩

def userTwice : Bytes := bytesOf "user,E user,E"

/-- A definition that names a key twice is accepted with a null pointer in the array, through
which `schema_destroy` reads. -/
theorem schema_init_repeated_key : ¬ SchemaMeets ample userTwice ∧
    ∃ out, schemaInitOn ample .zero userTwice = .ok out ∧ out.rc = 0 ∧ out.sc.scLen = 2 ∧
      out.sc.scEnt = some [none, some ⟨1, 1, bytesOf "user", .event, 0, none, .fast⟩] ∧
      schemaDestroy out.sc = none := by
  have returns : (schemaInitOn ample .zero userTwice).toOption.map
      (fun out => (out.rc, out.sc.scLen)) = some (0, 2) := by decide +kernel
  have array : (schemaInitOn ample .zero userTwice).toOption.map (fun out => out.sc.scEnt) =
      some (some [none, some ⟨1, 1, bytesOf "user", .event, 0, none, .fast⟩]) := by decide +kernel
  cases result : schemaInitOn ample .zero userTwice with
  | error e =>
    rw [result] at array
    cases array
  | ok out =>
    rw [result] at returns array
    simp only [Except.toOption, Option.map_some, Option.some.injEq, Prod.mk.injEq]
      at returns array
    constructor
    · intro meets
      obtain ⟨out', again, ⟨_, dense⟩ | ⟨failed, _⟩⟩ := meets
      · cases result.symm.trans again
        obtain ⟨se, there, _⟩ := dense.2 0 (by omega)
        rw [array] at there
        cases there
      · cases result.symm.trans again
        omega
    · refine ⟨out, rfl, returns.1, returns.2, array, ?_⟩
      rw [schemaDestroy, returns.2, array]
      rfl

end Run

end PerfStats.Monitor
