import Mathlib

/-! Runs of a labelled transition relation, with invariants over state and log; runs of a fallible
machine; `while` loops with a bound. -/

namespace PerfStats.Lib

variable {σ ℓ : Type*}

/-- `Run step s log t`: `log` lists the labels of a run from `s` to `t`. -/
inductive Run (step : σ → ℓ → σ → Prop) (s : σ) : List ℓ → σ → Prop where
  | start : Run step s [] s
  | next {log : List ℓ} {t u : σ} {label : ℓ} :
      Run step s log t → step t label u → Run step s (log ++ [label]) u

variable {step : σ → ℓ → σ → Prop} {log : List ℓ}

theorem Run.logged {s t : σ} {I : List ℓ → σ → Prop} (run : Run step s log t) (initial : I [] s)
    (kept : ∀ log t label u, I log t → step t label u → I (log ++ [label]) u) : I log t := by
  induction run with
  | start => exact initial
  | next _ taken ih => exact kept _ _ _ _ ih taken

theorem Run.invariant {s t : σ} {I : σ → Prop} (run : Run step s log t) (initial : I s)
    (kept : ∀ t label u, I t → step t label u → I u) : I t :=
  run.logged (I := fun _ => I) initial fun _ => kept

theorem Run.head {s t u : σ} {label : ℓ}
    (run : Run step t log u) (taken : step s label t) : Run step s (label :: log) u := by
  induction run with
  | start => exact Run.start.next taken
  | next _ last ih => exact .next ih last

section Traces

variable {α β ε : Type*}

/-- `Traces f s l out t`: fed the inputs `l` one by one, `f` goes from `s` to `t` without
an error and emits `out`. -/
inductive Traces (f : σ → α → Except ε (σ × β)) : σ → List α → List β → σ → Prop where
  | nil (s : σ) : Traces f s [] [] s
  | cons {s t u : σ} {a : α} {b : β} {l : List α} {out : List β} :
      f s a = .ok (t, b) → Traces f t l out u → Traces f s (a :: l) (b :: out) u

def outputs (f : σ → α → Except ε (σ × β)) : σ → List α → List β
  | _, [] => []
  | s, a :: l =>
    match f s a with
    | .error _ => []
    | .ok (t, b) => b :: outputs f t l

def after (f : σ → α → Except ε (σ × β)) : σ → List α → σ
  | s, [] => s
  | s, a :: l =>
    match f s a with
    | .error _ => s
    | .ok (t, _) => after f t l

variable {f : σ → α → Except ε (σ × β)} {s t u : σ} {l : List α} {out : List β}

theorem Traces.of_outputs (all : (outputs f s l).length = l.length) :
    Traces f s l (outputs f s l) (after f s l) := by
  induction l generalizing s with
  | nil => exact .nil s
  | cons a l ih =>
    cases taken : f s a with
    | error err => simp [outputs, taken] at all
    | ok next =>
      rcases next with ⟨t, b⟩
      simp only [outputs, after, taken, List.length_cons, Nat.add_right_cancel_iff] at all ⊢
      exact .cons taken (ih all)

theorem Traces.outputs_eq (run : Traces f s l out t) : outputs f s l = out := by
  induction run with
  | nil => rfl
  | cons taken _ ih => simp [outputs, taken, ih]

theorem Traces.length_eq (run : Traces f s l out t) : out.length = l.length := by
  induction run with
  | nil => rfl
  | cons _ _ ih => simp [ih]

theorem Traces.append {k : List α} {more : List β} (run : Traces f s l out t)
    (after : Traces f t k more u) : Traces f s (l ++ k) (out ++ more) u := by
  induction run with
  | nil => exact after
  | cons taken _ ih => exact .cons taken (ih after)

theorem Traces.split {k : List α} (run : Traces f s (l ++ k) out u) :
    ∃ t first more, Traces f s l first t ∧ Traces f t k more u ∧ out = first ++ more := by
  induction l generalizing s out with
  | nil => exact ⟨s, [], out, .nil s, run, rfl⟩
  | cons a l ih =>
    cases run with
    | cons taken rest =>
      rcases ih rest with ⟨t, first, more, before, after, rfl⟩
      exact ⟨t, _, more, .cons taken before, after, rfl⟩

theorem Traces.det {out' : List β} {t' : σ} (run : Traces f s l out t)
    (other : Traces f s l out' t') : out = out' ∧ t = t' := by
  induction run generalizing out' t' with
  | nil =>
    cases other
    exact ⟨rfl, rfl⟩
  | cons taken _ ih =>
    cases other with
    | cons taken' rest =>
      rw [taken] at taken'
      cases taken'
      rcases ih rest with ⟨rfl, rfl⟩
      exact ⟨rfl, rfl⟩

end Traces

section Throughout

variable {α : Type*}

def Throughout (step : σ → α → σ) (P : σ → α → Prop) : σ → List α → Prop
  | _, [] => True
  | s, a :: l => P s a ∧ Throughout step P (step s a) l

instance Throughout.decidable {step : σ → α → σ} {P : σ → α → Prop} [∀ s a, Decidable (P s a)] :
    ∀ s l, Decidable (Throughout step P s l)
  | _, [] => isTrue trivial
  | s, a :: l => @instDecidableAnd _ _ _ (Throughout.decidable (step s a) l)

variable {step : σ → α → σ} {P : σ → α → Prop} {K : σ → Prop} {s : σ} {l : List α}

theorem throughout_append {l k : List α} : Throughout step P s (l ++ k) ↔
      Throughout step P s l ∧ Throughout step P (l.foldl step s) k := by
  induction l generalizing s with
  | nil => simp [Throughout]
  | cons a l ih => simp only [List.cons_append, Throughout, List.foldl_cons, ih, and_assoc]

theorem throughout_iff {J : σ → Prop}
    (initial : K s) (kept : ∀ s a, K s → K (step s a))
    (exact : ∀ s a, K s → (J (step s a) ↔ J s ∧ P s a)) :
    J (l.foldl step s) ↔ J s ∧ Throughout step P s l := by
  induction l generalizing s with
  | nil => simp [Throughout]
  | cons a l ih =>
    rw [List.foldl_cons, ih (kept s a initial), exact s a initial, Throughout, and_assoc]

theorem foldl_kept (initial : K s)
    (kept : ∀ s a, K s → K (step s a)) : K (l.foldl step s) := by
  induction l generalizing s with
  | nil => exact initial
  | cons a l ih => exact ih (kept s a initial)

theorem Throughout.kept (throughout : Throughout step P s l) (initial : K s)
    (each : ∀ s a, K s → P s a → K (step s a)) : K (l.foldl step s) := by
  induction l generalizing s with
  | nil => exact initial
  | cons a l ih => exact ih throughout.2 (each s a initial throughout.1)

theorem always_iff {J : σ → Prop}
    (initial : K s) (holds : ∀ s, K s → J s) (kept : ∀ s a, K s → P s a → K (step s a))
    (fails : ∀ s a, K s → ¬P s a → ¬J (step s a)) :
    (∀ early later, l = early ++ later → J (early.foldl step s)) ↔ Throughout step P s l := by
  induction l generalizing s with
  | nil =>
    refine iff_of_true (fun early later split => ?_) trivial
    rw [(List.nil_eq_append_iff.mp split).1]
    exact holds s initial
  | cons a l ih =>
    constructor
    · intro always
      have here : P s a := by
        by_contra broken
        exact fails s a initial broken (always [a] l rfl)
      refine ⟨here, (ih (kept s a initial here)).mp fun early later split => ?_⟩
      exact always (a :: early) later (by rw [split, List.cons_append])
    · rintro ⟨here, throughout⟩ early later split
      cases early with
      | nil => exact holds s initial
      | cons first rest =>
        rw [List.cons_append, List.cons.injEq] at split
        rw [List.foldl_cons, ← split.1]
        exact (ih (kept s a initial here)).mpr throughout rest later split.2

theorem throughout_congr {Q : σ → α → Prop}
    (initial : K s) (kept : ∀ s a, K s → P s a → K (step s a))
    (agree : ∀ s a, K s → (P s a ↔ Q s a)) : Throughout step P s l ↔ Throughout step Q s l := by
  induction l generalizing s with
  | nil => exact Iff.rfl
  | cons a l ih =>
    constructor
    · rintro ⟨here, later⟩
      exact ⟨(agree s a initial).mp here, (ih (kept s a initial here)).mp later⟩
    · rintro ⟨here, later⟩
      have first := (agree s a initial).mpr here
      exact ⟨first, (ih (kept s a initial first)).mpr later⟩

end Throughout

section Loops

/-- `while (more s) s = next s`, cut off after `fuel` turns: an error where it would go on. -/
def loop (more : σ → Bool) (next : σ → σ) : Nat → σ → Except Unit σ
  | 0, s => if more s then .error () else .ok s
  | fuel + 1, s => if more s then loop more next fuel (next s) else .ok s

variable {more : σ → Bool} {next : σ → σ} {s : σ} {n fuel : Nat}

theorem loop_of_first (last : more (next^[n] s) = false)
    (before : ∀ j < n, more (next^[j] s) = true) (enough : n ≤ fuel) :
    loop more next fuel s = .ok (next^[n] s) := by
  induction n generalizing s fuel with
  | zero =>
    have halts : more s = false := last
    cases fuel <;> simp [loop, halts]
  | succ n ih =>
    cases fuel with
    | zero => omega
    | succ fuel =>
      have goes : more s = true := before 0 (by omega)
      rw [loop, if_pos goes, Function.iterate_succ_apply]
      exact ih last (fun j less => before (j + 1) (by omega)) (by omega)

theorem loop_ends (last : more (next^[n] s) = false) (enough : n ≤ fuel) :
    ∃ m, loop more next fuel s = .ok (next^[m] s) ∧ m ≤ n ∧ more (next^[m] s) = false ∧
      ∀ j < m, more (next^[j] s) = true := by
  have some_turn : ∃ m, more (next^[m] s) = false := ⟨n, last⟩
  have first : ∀ j < Nat.find some_turn, more (next^[j] s) = true := by
    intro j less
    simpa using Nat.find_min some_turn less
  have least : Nat.find some_turn ≤ n := Nat.find_min' some_turn last
  exact ⟨_, loop_of_first (Nat.find_spec some_turn) first (by omega), least,
    Nat.find_spec some_turn, first⟩

theorem loop_measured {I : σ → Prop} (measure : σ → Nat) (initial : I s)
    (kept : ∀ s, I s → more s = true → I (next s) ∧ measure (next s) < measure s) :
    ∃ t, I t ∧ more t = false ∧ ∀ fuel, measure s ≤ fuel → loop more next fuel s = .ok t := by
  induction size : measure s using Nat.strong_induction_on generalizing s with
  | _ n ih =>
    by_cases goes : more s = true
    · obtain ⟨held, less⟩ := kept s initial goes
      obtain ⟨t, holds, halts, all⟩ := ih (measure (next s)) (size ▸ less) held rfl
      refine ⟨t, holds, halts, fun fuel enough => ?_⟩
      obtain ⟨fuel, rfl⟩ : ∃ left, fuel = left + 1 := ⟨fuel - 1, by omega⟩
      rw [loop, if_pos goes]
      exact all fuel (by omega)
    · have halts : more s = false := Bool.eq_false_of_not_eq_true goes
      refine ⟨s, initial, halts, fun fuel _ => ?_⟩
      cases fuel <;> simp [loop, halts]

end Loops

section Slices

variable {α : Type*}

def slicesFrom (step : Nat) : Nat → List α → List (List α)
  | 0, _ => []
  | _ + 1, [] => []
  | fuel + 1, a :: rest => (a :: rest).take step :: slicesFrom step fuel ((a :: rest).drop step)

def slices (step : Nat) (l : List α) : List (List α) := slicesFrom (max 1 step) l.length l

theorem slicesFrom_flatten (step : Nat) (positive : 0 < step) (fuel : Nat) (l : List α)
    (enough : l.length ≤ fuel) : (slicesFrom step fuel l).flatten = l := by
  induction fuel generalizing l with
  | zero => simp [slicesFrom, List.length_eq_zero_iff.mp (Nat.le_zero.mp enough)]
  | succ fuel ih =>
    cases l with
    | nil => rfl
    | cons a rest =>
      have shorter : ((a :: rest).drop step).length ≤ fuel := by
        rw [List.length_drop]
        simp only [List.length_cons] at enough ⊢
        omega
      rw [slicesFrom, List.flatten_cons, ih _ shorter, List.take_append_drop]

theorem slices_flatten (step : Nat) (l : List α) : (slices step l).flatten = l :=
  slicesFrom_flatten _ (by omega) _ _ le_rfl

end Slices

end PerfStats.Lib
