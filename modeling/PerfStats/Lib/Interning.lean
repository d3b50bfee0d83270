import PerfStats.Lib.Dict

namespace PerfStats.Lib

open Function

structure Interner (σ κ ι : Type*) where
  intern : σ → κ → ι × σ
  ident : σ → κ → Option ι
  known : ∀ {s k id}, ident s k = some id → intern s k = (id, s)
  assigned : ∀ s k, ident (intern s k).2 k = some (intern s k).1
  kept : ∀ {s k id} j, ident s k = some id → ident (intern s j).2 k = some id

inductive Thinned {κ : Type*} : List κ → List κ → Prop where
  | none : Thinned [] []
  | again {table seen k} : Thinned table seen → k ∈ table → Thinned table (seen ++ [k])
  | fresh {table seen k} : Thinned table seen → Thinned (table ++ [k]) (seen ++ [k])

namespace Thinned

variable {κ : Type*} {table seen : List κ}

theorem length_le (thinned : Thinned table seen) : table.length ≤ seen.length := by
  induction thinned with
  | none => exact Nat.le_refl 0
  | again _ _ ih =>
    rw [List.length_append]
    omega
  | fresh _ ih =>
    rw [List.length_append, List.length_append]
    omega

end Thinned

namespace Interner

variable {σ κ ι : Type*} (I : Interner σ κ ι)

def internAll (s : σ) (keys : List κ) : σ := keys.foldl (fun s k => (I.intern s k).2) s

theorem internAll_concat (s : σ) (keys : List κ) (k : κ) :
    I.internAll s (keys ++ [k]) = (I.intern (I.internAll s keys) k).2 := by
  rw [internAll, List.foldl_append]
  rfl

theorem internAll_append (s : σ) (keys more : List κ) :
    I.internAll s (keys ++ more) = I.internAll (I.internAll s keys) more :=
  List.foldl_append

theorem kept_all {s : σ} {k : κ} {id : ι} (keys : List κ) (given : I.ident s k = some id) :
    I.ident (I.internAll s keys) k = some id := by
  induction keys generalizing s with
  | nil => exact given
  | cons j rest ih => exact ih (I.kept j given)

theorem given_of_mem (s : σ) {keys : List κ} {k : κ} (member : k ∈ keys) :
    ∃ id, I.ident (I.internAll s keys) k = some id := by
  obtain ⟨before, after, rfl⟩ := List.append_of_mem member
  rw [show before ++ k :: after = (before ++ [k]) ++ after by simp, internAll_append,
    internAll_concat]
  exact ⟨_, I.kept_all after (I.assigned _ k)⟩

theorem internAll_thinned {table seen : List κ} (thinned : Thinned table seen) (s : σ) :
    I.internAll s table = I.internAll s seen := by
  induction thinned with
  | none => rfl
  | again earlier member ih =>
    obtain ⟨id, given⟩ := I.given_of_mem s member
    rw [ih] at given
    rw [internAll_concat, I.known given, ih]
  | fresh earlier ih => rw [internAll_concat, internAll_concat, ih]

def internList (s : σ) : List κ → List ι × σ
  | [] => ([], s)
  | k :: rest => ((I.intern s k).1 :: (internList (I.intern s k).2 rest).1,
      (internList (I.intern s k).2 rest).2)

theorem internList_state (s : σ) (keys : List κ) :
    (I.internList s keys).2 = I.internAll s keys := by
  induction keys generalizing s with
  | nil => rfl
  | cons k rest ih => exact ih (I.intern s k).2

theorem internList_get {s : σ} {keys : List κ} {i : Nat} {k : κ} (there : keys[i]? = some k) :
    ∃ id, (I.internList s keys).1[i]? = some id ∧ I.ident (I.internAll s keys) k = some id := by
  induction keys generalizing s i with
  | nil => cases there
  | cons j rest ih =>
    cases i with
    | zero =>
      cases there
      exact ⟨_, rfl, I.kept_all rest (I.assigned s _)⟩
    | succ i => exact ih there

end Interner

structure Coding (α ι : Type*) where
  code : α → Nat → ι
  index : ι → Nat
  index_code : ∀ name n, index (code name n) = n

structure NameTable {α ι : Type*} [DecidableEq α] (coding : Coding α ι) where
  names : List α
  ids : Dict α ι
  back : ∀ {name id}, ids.get? name = some id → names[coding.index id]? = some name

namespace NameTable

variable {α ι : Type*} [DecidableEq α] {coding : Coding α ι}

def empty : NameTable coding := ⟨[], Dict.empty, nofun⟩

private theorem back_set (t : NameTable coding) (name : α) {other : α} {id : ι}
    (given : (t.ids.set name (coding.code name t.names.length)).get? other = some id) :
    (t.names ++ [name])[coding.index id]? = some other := by
  rw [Dict.get?_set] at given
  split at given
  · next same =>
      cases given
      rw [coding.index_code, same, List.getElem?_concat_length]
  · have found := t.back given
    rw [List.getElem?_append_left (List.getElem?_eq_some_iff.mp found).choose, found]

def intern (t : NameTable coding) (name : α) : ι × NameTable coding :=
  match t.ids.get? name with
  | some id => (id, t)
  | none =>
    let id := coding.code name t.names.length
    (id, ⟨t.names ++ [name], t.ids.set name id, t.back_set name⟩)

variable {t : NameTable coding} {name : α} {id : ι}

theorem intern_known (given : t.ids.get? name = some id) : t.intern name = (id, t) := by
  rw [intern, given]

theorem intern_ids (t : NameTable coding) (name other : α) :
    (t.intern name).2.ids.get? other =
      if other = name then some (t.intern name).1 else t.ids.get? other := by
  rw [intern]
  split
  · next known =>
      split
      · next same => rw [same, known]
      · rfl
  · exact Dict.get?_set _ _ _ _

theorem intern_kept (other : α) (given : t.ids.get? name = some id) :
    (t.intern other).2.ids.get? name = some id := by
  rw [intern_ids]
  split
  · next same => rw [← same, intern_known given]
  · exact given

def Settled (t : NameTable coding) : Prop :=
  ∀ {i name}, t.names[i]? = some name → t.ids.get? name = some (coding.code name i)

theorem empty_settled : (empty : NameTable coding).Settled := by
  nofun

theorem intern_names (t : NameTable coding) (name : α) :
    (t.intern name).2.names =
      if t.ids.get? name = none then t.names ++ [name] else t.names := by
  rw [intern]
  split
  · next known => rw [known, if_neg (Option.some_ne_none _)]
  · next new => rw [if_pos new]

theorem intern_settled (settled : t.Settled) (name : α) : (t.intern name).2.Settled := by
  intro i other here
  rw [intern_names] at here
  rw [intern_ids]
  split at here
  · next new =>
      by_cases old : i < t.names.length
      · rw [List.getElem?_append_left old] at here
        have known := settled here
        have apart : other ≠ name := by
          intro same
          rw [same, new] at known
          cases known
        rw [if_neg apart, known]
      · rw [List.getElem?_append_right (Nat.le_of_not_lt old)] at here
        obtain ⟨last, same⟩ := List.getElem?_eq_some_iff.mp here
        rw [List.length_singleton] at last
        have place : i = t.names.length := by omega
        rw [List.getElem_singleton] at same
        rw [if_pos same.symm, intern, new, place, same]
  · next known =>
      have own := settled here
      split
      · next same =>
          rw [same] at own
          rw [intern_known own, same]
      · exact own

theorem names_nodup (settled : t.Settled) : t.names.Nodup := by
  rw [List.nodup_iff_getElem?_ne_getElem?]
  intro i j lt inside same
  have at_j := List.getElem?_eq_getElem inside
  have codes := (settled at_j).symm.trans (settled (same.trans at_j))
  have places := congrArg coding.index (Option.some.inj codes)
  rw [coding.index_code, coding.index_code] at places
  omega

theorem code_of_known (settled : t.Settled) (given : t.ids.get? name = some id) :
    id = coding.code name (coding.index id) :=
  Option.some.inj (given.symm.trans (settled (t.back given)))

theorem intern_new (absent : name ∉ t.names) :
    (t.intern name).1 = coding.code name t.names.length := by
  rw [intern]
  split
  · next known => exact absurd (List.mem_of_getElem? (t.back known)) absent
  · rfl

theorem mem_names_intern (t : NameTable coding) (name other : α) :
    other ∈ (t.intern name).2.names ↔ other = name ∨ other ∈ t.names := by
  rw [intern_names]
  split
  · rw [List.mem_append, List.mem_singleton, or_comm]
  · next known =>
      obtain ⟨id, is_id⟩ := Option.ne_none_iff_exists'.mp known
      have present := List.mem_of_getElem? (t.back is_id)
      constructor
      · exact .inr
      · intro either
        obtain rfl | old := either
        · exact present
        · exact old

end NameTable

section Columns

variable {γ α ι : Type*} [DecidableEq γ] [DecidableEq α] (coding : γ → Coding α ι)

abbrev Tables : Type _ := ∀ c, NameTable (coding c)

variable {coding}

def Tables.intern (tables : Tables coding) (key : γ × α) : ι × Tables coding :=
  ((tables key.1).intern key.2 |>.1,
    update tables key.1 ((tables key.1).intern key.2).2)

def Tables.ident (tables : Tables coding) (key : γ × α) : Option ι :=
  (tables key.1).ids.get? key.2

variable {tables : Tables coding}

theorem Tables.intern_known {key : γ × α} {id : ι}
    (given : tables.ident key = some id) : tables.intern key = (id, tables) := by
  rw [intern, NameTable.intern_known given, update_eq_self]

theorem Tables.intern_assigned (tables : Tables coding) (key : γ × α) :
    (tables.intern key).2.ident key = some (tables.intern key).1 := by
  simp only [intern, ident, update_self, NameTable.intern_ids, if_true]

theorem Tables.intern_kept {key : γ × α} {id : ι} (other : γ × α)
    (given : tables.ident key = some id) : (tables.intern other).2.ident key = some id := by
  obtain ⟨col, name⟩ := key
  obtain ⟨col', name'⟩ := other
  by_cases same : col = col'
  · subst same
    simp only [intern, ident, update_self]
    exact NameTable.intern_kept name' given
  · simp only [intern, ident, update_of_ne same]
    exact given

def Tables.Settled (tables : Tables coding) : Prop := ∀ c, (tables c).Settled

theorem Tables.intern_settled (settled : Tables.Settled tables)
    (key : γ × α) : Tables.Settled (tables.intern key).2 := by
  intro c
  unfold Tables.intern
  dsimp only
  by_cases same : c = key.1
  · subst same
    rw [update_self]
    exact NameTable.intern_settled (settled _) key.2
  · rw [update_of_ne same]
    exact settled c

theorem Tables.mem_names_intern (tables : Tables coding) (key : γ × α) {c : γ} {name : α} :
    name ∈ ((tables.intern key).2 c).names ↔ (c, name) = key ∨ name ∈ (tables c).names := by
  obtain ⟨col, other⟩ := key
  unfold Tables.intern
  dsimp only
  by_cases same : c = col
  · subst same
    rw [update_self, NameTable.mem_names_intern, Prod.mk.injEq, eq_self, true_and]
  · rw [update_of_ne same, Prod.mk.injEq]
    exact ⟨.inr, fun either => either.elim (fun both => absurd both.1 same) id⟩

end Columns

end PerfStats.Lib
