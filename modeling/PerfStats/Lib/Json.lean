import PerfStats.Text
import PerfStats.Lib.Dict

namespace PerfStats.Lib

namespace Dict

variable {κ ν : Type*} [DecidableEq κ]

def ofList (l : List (κ × ν)) : Dict κ ν := l.foldl (fun d e => d.set e.1 e.2) .empty

theorem set_entries_new {d : Dict κ ν} {k : κ} (absent : k ∉ d.entries.map Prod.fst) (v : ν) :
    (d.set k v).entries = d.entries ++ [(k, v)] := by
  unfold set
  rw [dif_neg absent]

theorem entries_ofList {l : List (κ × ν)} (distinct : (l.map Prod.fst).Nodup) :
    (ofList l).entries = l := by
  induction l using List.reverseRecOn with
  | nil => rfl
  | append_singleton l e ih =>
    rw [List.map_append] at distinct
    have before := ih (List.nodup_append.mp distinct).1
    have absent : e.1 ∉ l.map Prod.fst := by
      intro member
      exact (List.nodup_append.mp distinct).2.2 e.1 member e.1 (by simp) rfl
    have stepped : ofList (l ++ [e]) = (ofList l).set e.1 e.2 := by
      rw [ofList, List.foldl_append]
      rfl
    rw [stepped, set_entries_new (by rwa [before]), before]

omit [DecidableEq κ] in
theorem ext_entries {d e : Dict κ ν} (same : d.entries = e.entries) : d = e := by
  cases e
  cases same
  rfl

theorem ofList_entries (d : Dict κ ν) : ofList d.entries = d :=
  ext_entries (entries_ofList d.distinct)

theorem get?_ofList {l : List (κ × ν)} (distinct : (l.map Prod.fst).Nodup) {k : κ} {v : ν}
    (member : (k, v) ∈ l) : (ofList l).get? k = some v := by
  rw [get?_eq_some, entries_ofList distinct]
  exact member

end Dict

inductive Json where
  | null
  | bool (value : Bool)
  | num (value : ℚ)
  | str (text : Str)
  | arr (items : List Json)
  | obj (members : List (Str × Json))

namespace Json

def truthy : Json → Bool
  | .null => false
  | .bool value => value
  | .num value => decide (value ≠ 0)
  | .str text => !text.isEmpty
  | .arr items => !items.isEmpty
  | .obj members => !members.isEmpty

def orElse (found : Option Json) (default_ : Json) : Json :=
  match found with
  | some value => if value.truthy then value else default_
  | none => default_

@[simp] theorem orElse_obj (members : List (Str × Json)) :
    orElse (some (.obj members)) (.obj []) = .obj members := by
  cases members <;> rfl

@[simp] theorem orElse_arr (items : List Json) :
    orElse (some (.arr items)) (.arr []) = .arr items := by
  cases items <;> rfl

def ofDict {ν : Type*} (write : ν → Json) (d : Dict Str ν) : Json :=
  .obj (d.entries.map fun e => (e.1, write e.2))

theorem read_ofDict {ν : Type*} (write : ν → Json) (d : Dict Str ν) :
    (Dict.ofList (d.entries.map fun e => (e.1, write e.2))).entries =
      d.entries.map fun e => (e.1, write e.2) := by
  apply Dict.entries_ofList
  rw [List.map_map]
  exact d.distinct

end Json

end PerfStats.Lib
