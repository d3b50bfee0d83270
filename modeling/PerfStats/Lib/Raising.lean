import Mathlib

/-! Computations that may raise and keep what they did to the state before. -/

namespace PerfStats.Lib

variable {σ α β : Type}

abbrev Raising (σ α : Type) := ExceptT Unit (StateM σ) α

namespace Raising

def raise : Raising σ α := throw ()

def attempt (fails : Bool) : Raising σ Unit := if fails then raise else pure ()

def outcome (x : Raising σ α) (s : σ) : Option α × σ :=
  match x.run.run s with
  | (.ok a, t) => (some a, t)
  | (.error _, t) => (none, t)

end Raising

def Ensures (s : σ) (x : Raising σ α) (Q : α → σ → Prop) (E : σ → Prop) : Prop :=
  match x.run.run s with
  | (.ok a, t) => Q a t
  | (.error _, t) => E t

namespace Ensures

variable {s : σ} {Q : α → σ → Prop} {E : σ → Prop} {x : Raising σ α}

theorem pure {a : α} (holds : Q a s) : Ensures s (pure a) Q E := holds

theorem raise (holds : E s) : Ensures s (Raising.raise : Raising σ α) Q E := holds

theorem modify {f : σ → σ} {Q : Unit → σ → Prop} (holds : Q () (f s)) :
    Ensures s (modify f) Q E := holds

theorem attempt {fails : Bool} {Q : Unit → σ → Prop} (goesOn : fails = false → Q () s)
    (fail : E s) : Ensures s (Raising.attempt fails) Q E := by
  cases fails with
  | true => exact fail
  | false => exact goesOn rfl

theorem bind {f : α → Raising σ β} {Q' : β → σ → Prop} (first : Ensures s x Q E)
    (next : ∀ a t, Q a t → Ensures t (f a) Q' E) : Ensures s (x >>= f) Q' E := by
  have run : (x >>= f).run.run s = match x.run.run s with
      | (.ok a, t) => (f a).run.run t
      | (.error e, t) => (.error e, t) := by
    simp only [ExceptT.run_bind, StateT.run_bind]
    rcases x.run.run s with ⟨a | a, t⟩ <;> rfl
  unfold Ensures at first ⊢
  rw [run]
  rcases taken : x.run.run s with ⟨a | a, t⟩ <;> rw [taken] at first
  · exact first
  · exact next a t first

section Steps

variable {y : Raising σ β} {Q : β → σ → Prop}

theorem read {f : σ → Raising σ β} (next : Ensures s (f s) Q E) : Ensures s (get >>= f) Q E :=
  next

theorem update {f : σ → σ} (next : Ensures (f s) y Q E) :
    Ensures s (MonadState.modifyGet (fun s => ((), f s)) >>= fun _ => y) Q E := next

theorem fallible {fails : Bool} (fail : E s) (next : fails = false → Ensures s y Q E) :
    Ensures s (Raising.attempt fails >>= fun _ => y) Q E := by
  cases fails with
  | true => exact fail
  | false => exact next rfl

end Steps

theorem weaken {Q' : α → σ → Prop} {E' : σ → Prop} (ensures : Ensures s x Q E)
    (post : ∀ a t, Q a t → Q' a t) (raised : ∀ t, E t → E' t) : Ensures s x Q' E' := by
  unfold Ensures at ensures ⊢
  rcases taken : x.run.run s with ⟨a | a, t⟩ <;> rw [taken] at ensures
  · exact raised t ensures
  · exact post a t ensures

theorem outcome {r : Option α} {t : σ} (ensures : Ensures s x Q E)
    (done : x.outcome s = (r, t)) : match r with
      | some a => Q a t
      | none => E t := by
  unfold Ensures at ensures
  unfold Raising.outcome at done
  rcases taken : x.run.run s with ⟨b | b, u⟩ <;> rw [taken] at ensures done <;> cases done
  · exact ensures
  · exact ensures

end Ensures

end PerfStats.Lib
