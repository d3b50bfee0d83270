import PerfStats.Lib.Failing

/-! Computations that say which places they touch, and the rules by which each is one they may
touch. -/

namespace PerfStats.Lib

variable {κ ε α β : Type}

structure Touching (κ ε α : Type) where
  touched : List κ
  result : Except ε α

namespace Touching

def pure (a : α) : Touching κ ε α := ⟨[], .ok a⟩

def fail (e : ε) : Touching κ ε α := ⟨[], .error e⟩

def touch (places : List κ) : Touching κ ε Unit := ⟨places, .ok ()⟩

def bind (c : Touching κ ε α) (f : α → Touching κ ε β) : Touching κ ε β :=
  match c.result with
  | .ok a => ⟨c.touched ++ (f a).touched, (f a).result⟩
  | .error e => ⟨c.touched, .error e⟩

instance : Monad (Touching κ ε) where
  pure := pure
  bind := bind

section Results

@[simp] theorem pure_result (a : α) :
    (Pure.pure a : Touching κ ε α).result = .ok a := rfl

@[simp] theorem bind_result (c : Touching κ ε α) (f : α → Touching κ ε β) :
    (c >>= f).result = c.result >>= fun a => (f a).result := by
  change (bind c f).result = _
  unfold bind
  cases c.result with
  | ok a => rfl
  | error e => rfl

end Results

end Touching

/-- `c` touches only places with `P`, and ends with `Q` or in an error with `E`. -/
structure Within (c : Touching κ ε α) (P : κ → Prop) (Q : α → Prop) (E : ε → Prop) : Prop where
  places : ∀ k ∈ c.touched, P k
  ends : Ends c.result Q E

namespace Within

variable {P : κ → Prop} {Q : α → Prop} {E : ε → Prop} {c : Touching κ ε α}

theorem pure {a : α} (holds : Q a) : Within (pure a : Touching κ ε α) P Q E :=
  ⟨fun _ none => absurd none List.not_mem_nil, holds⟩

theorem fail {e : ε} (holds : E e) : Within (Touching.fail e : Touching κ ε α) P Q E :=
  ⟨fun _ none => absurd none List.not_mem_nil, holds⟩

theorem touch {places : List κ} (all : ∀ k ∈ places, P k) :
    Within (Touching.touch places : Touching κ ε Unit) P (fun _ => True) E := ⟨all, trivial⟩

theorem bind {f : α → Touching κ ε β} {Q' : β → Prop} (first : Within c P Q E)
    (next : ∀ a, Q a → Within (f a) P Q' E) : Within (c >>= f) P Q' E := by
  obtain ⟨before, ends⟩ := first
  change Within (Touching.bind c f) P Q' E
  unfold Touching.bind
  cases done : c.result with
  | error e =>
    rw [done] at ends
    exact ⟨before, ends⟩
  | ok a =>
    rw [done] at ends
    obtain ⟨later, rest⟩ := next a ends
    refine ⟨fun k member => ?_, rest⟩
    rcases List.mem_append.mp member with here | there
    · exact before k here
    · exact later k there

theorem weaken {Q' : α → Prop} {E' : ε → Prop} (within : Within c P Q E)
    (post : ∀ a, Q a → Q' a) (raised : ∀ e, E e → E' e) : Within c P Q' E' :=
  ⟨within.places, within.ends.weaken post raised⟩

end Within

end PerfStats.Lib
