import Mathlib

namespace PerfStats.Lib

variable {ε α β : Type*}

theorem bind_of_eq {α β : Type _} {r : Except ε α} {a : α} (same : r = .ok a)
    (f : α → Except ε β) : (r >>= f) = f a := by
  rw [same]
  rfl

theorem bind_ok {α β : Type _} {r : Except ε α} {f : α → Except ε β} {b : β}
    (done : (r >>= f) = .ok b) : ∃ a, r = .ok a ∧ f a = .ok b := by
  cases r with
  | ok a => exact ⟨a, rfl, done⟩
  | error e => cases done

theorem bind_returns {α β : Type _} {r : Except ε α} {f : α → Except ε β} :
    (∃ b, (r >>= f) = .ok b) ↔ ∃ a, r = .ok a ∧ ∃ b, f a = .ok b := by
  constructor
  · intro returns
    obtain ⟨b, done⟩ := returns
    obtain ⟨a, first, rest⟩ := bind_ok done
    exact ⟨a, first, b, rest⟩
  · intro returns
    obtain ⟨a, rfl, done⟩ := returns
    exact done

theorem mapM_forall₂ {α β : Type _} {f : α → Except ε β} {l : List α} {bs : List β}
    (all : l.mapM f = .ok bs) : List.Forall₂ (fun a b => f a = .ok b) l bs := by
  induction l generalizing bs with
  | nil =>
    cases all
    exact .nil
  | cons a rest ih =>
    rw [List.mapM_cons] at all
    obtain ⟨b, first, more⟩ := bind_ok all
    obtain ⟨others, later, made⟩ := bind_ok more
    cases made
    exact .cons first (ih later)

section Each

variable {α β : Type*} {f : α → Option β} {l : List α} {bs : List β}

theorem mapM_eq_some_iff : l.mapM f = some bs ↔ l.map f = bs.map some := by
  induction l generalizing bs with
  | nil => cases bs <;> simp
  | cons a l ih =>
    rw [List.mapM_cons, List.map_cons]
    constructor
    · intro all
      obtain ⟨b, here, rest⟩ := Option.bind_eq_some_iff.mp all
      obtain ⟨more, later, done⟩ := Option.bind_eq_some_iff.mp rest
      rw [← Option.some.inj done, List.map_cons, here, ih.mp later]
    · intro same
      cases bs with
      | nil => cases same
      | cons b more =>
        obtain ⟨here, later⟩ := List.cons.inj same
        rw [here, ih.mpr later]
        rfl

theorem mapM_some {g : α → β} (made : ∀ a b, f a = some b → b = g a) (all : l.mapM f = some bs) :
    bs = l.map g := by
  induction l generalizing bs with
  | nil => exact (Option.some.inj all).symm
  | cons a l ih =>
    rw [List.mapM_cons] at all
    obtain ⟨b, here, rest⟩ := Option.bind_eq_some_iff.mp all
    obtain ⟨more, later, done⟩ := Option.bind_eq_some_iff.mp rest
    rw [← Option.some.inj done, made a b here, ih later, List.map_cons]

theorem mapM_each (all : l.mapM f = some bs) : ∀ a ∈ l, ∃ b, f a = some b := by
  intro a member
  have inside : f a ∈ bs.map some := mapM_eq_some_iff.mp all ▸ List.mem_map_of_mem member
  obtain ⟨b, -, same⟩ := List.mem_map.mp inside
  exact ⟨b, same.symm⟩

theorem mapM_length (all : l.mapM f = some bs) : bs.length = l.length := by
  have same := congrArg List.length (mapM_eq_some_iff.mp all)
  rw [List.length_map, List.length_map] at same
  exact same.symm

theorem mapM_isSome : (l.mapM f).isSome = true ↔ ∀ a ∈ l, (f a).isSome = true := by
  constructor
  · intro all a member
    obtain ⟨bs, same⟩ := Option.isSome_iff_exists.mp all
    exact Option.isSome_iff_exists.mpr (mapM_each same a member)
  · intro each
    induction l with
    | nil => rfl
    | cons a l ih =>
      obtain ⟨b, here⟩ := Option.isSome_iff_exists.mp (each a (.head _))
      obtain ⟨bs, later⟩ := Option.isSome_iff_exists.mp
        (ih fun c member => each c (.tail a member))
      rw [List.mapM_cons, here, later]
      rfl

end Each

def Ends (r : Except ε α) (Q : α → Prop) (E : ε → Prop) : Prop :=
  match r with
  | .ok a => Q a
  | .error e => E e

namespace Ends

variable {r : Except ε α} {Q : α → Prop} {E : ε → Prop}

theorem of_eq {a : α} (same : r = .ok a) (E : ε → Prop) : Ends r (fun b => b = a) E := by
  rw [same]
  exact rfl

theorem bind {α β : Type _} {r : Except ε α} {Q : α → Prop} {f : α → Except ε β} {Q' : β → Prop}
    (first : Ends r Q E) (next : ∀ a, Q a → Ends (f a) Q' E) : Ends (r >>= f) Q' E := by
  cases r with
  | ok a => exact next a first
  | error e => exact first

theorem weaken {Q' : α → Prop} {E' : ε → Prop} (ends : Ends r Q E) (post : ∀ a, Q a → Q' a)
    (raised : ∀ e, E e → E' e) : Ends r Q' E' := by
  cases r with
  | ok a => exact post a ends
  | error e => exact raised e ends

theorem value (ends : Ends r Q fun _ => False) : ∃ a, r = .ok a ∧ Q a := by
  cases r with
  | ok a => exact ⟨a, rfl, ends⟩
  | error e => exact ends.elim

end Ends

end PerfStats.Lib
