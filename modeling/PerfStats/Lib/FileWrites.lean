import Mathlib

namespace PerfStats.Lib

section Files

abbrev Bytes := List UInt8

def zeros (n : Nat) : Bytes := List.replicate n 0

@[simp] theorem zeros_length (n : Nat) : (zeros n).length = n := List.length_replicate

theorem zeros_append (m n : Nat) : zeros m ++ zeros n = zeros (m + n) :=
  List.replicate_append_replicate

def resize (size : Nat) (file : Bytes) : Bytes := file.take size ++ zeros (size - file.length)

@[simp] theorem resize_length (size : Nat) (file : Bytes) : (resize size file).length = size := by
  simp only [resize, List.length_append, List.length_take, zeros_length]
  omega

theorem resize_take {size n : Nat} {file : Bytes} (below : n ≤ size) (enough : n ≤ file.length) :
    (resize size file).take n = file.take n := by
  have inside : n ≤ (file.take size).length := by
    rw [List.length_take]
    omega
  rw [resize, List.take_append_of_le_length inside, List.take_take, Nat.min_eq_left below]

inductive Write where
  | truncate (size : Nat)
  | pwrite (offset : Nat) (bytes : Bytes)

def Write.run : Write → Bytes → Bytes
  | .truncate size, file => resize size file
  | .pwrite offset bytes, file =>
    if bytes = [] then file else resize offset file ++ (bytes ++ file.drop (offset + bytes.length))

/-- The write with only the first `kept` of its bytes. -/
def Write.part (kept : Nat) : Write → Write
  | .truncate size => .truncate size
  | .pwrite offset bytes => .pwrite offset (bytes.take kept)

def Write.Past (n : Nat) : Write → Prop
  | .truncate size => n ≤ size
  | .pwrite offset _ => n ≤ offset

variable {n : Nat} {file : Bytes} {write : Write}

theorem Write.Past.part {kept : Nat} (past : write.Past n) : (write.part kept).Past n := by
  cases write <;> exact past

theorem Write.Past.take (past : write.Past n) (enough : n ≤ file.length) :
    (write.run file).take n = file.take n ∧ n ≤ (write.run file).length := by
  cases write with
  | truncate size => exact ⟨resize_take past enough, (resize_length size file).symm ▸ past⟩
  | pwrite offset bytes =>
    rw [Write.run]
    split
    · exact ⟨rfl, enough⟩
    · have reach : n ≤ (resize offset file).length := (resize_length offset file).symm ▸ past
      constructor
      · rw [List.take_append_of_le_length reach]
        exact resize_take past enough
      · rw [List.length_append]
        omega

theorem resize_self : resize file.length file = file := by simp [resize, zeros]

theorem pwrite_end (bytes : Bytes) : (Write.pwrite file.length bytes).run file = file ++ bytes := by
  rw [Write.run]
  split
  next empty => rw [empty, List.append_nil]
  next => rw [resize_self, List.drop_eq_nil_of_le (Nat.le_add_right _ _), List.append_nil]

theorem pwrite_at {offset : Nat} {bytes : Bytes} (length : file.length = offset) :
    (Write.pwrite offset bytes).run file = file ++ bytes := length ▸ pwrite_end bytes

theorem truncate_end (size : Nat) (enough : size ≤ file.length) :
    (Write.truncate size).run file = file.take size := by
  simp [Write.run, resize, zeros, Nat.sub_eq_zero_of_le enough]

theorem truncate_grow (size : Nat) (more : file.length ≤ size) :
    (Write.truncate size).run file = file ++ zeros (size - file.length) := by
  rw [Write.run, resize, List.take_of_length_le more]

end Files

section Cuts

variable {σ ω : Type*} {run : ω → σ → σ} {torn : ω → ω → Prop} {s t : σ} {steps more : List ω}

/-- `Cut run torn steps s t`: stopped in `steps`, between two or inside one that leaves what a torn
one does, a program brings `s` to `t`. -/
inductive Cut (run : ω → σ → σ) (torn : ω → ω → Prop) : List ω → σ → σ → Prop where
  | stop (steps : List ω) (s : σ) : Cut run torn steps s s
  | tear {step part : ω} (steps : List ω) (s : σ) :
      torn step part → Cut run torn (step :: steps) s (run part s)
  | next {step : ω} {steps : List ω} {s t : σ} :
      Cut run torn steps (run step s) t → Cut run torn (step :: steps) s t

def runAll (run : ω → σ → σ) (steps : List ω) (s : σ) : σ := steps.foldl (fun s step => run step s) s

@[simp] theorem runAll_nil : runAll run [] s = s := rfl

@[simp] theorem runAll_cons (step : ω) :
    runAll run (step :: steps) s = runAll run steps (run step s) :=
  rfl

theorem runAll_append : runAll run (steps ++ more) s = runAll run more (runAll run steps s) :=
  List.foldl_append

theorem Cut.all (steps : List ω) (s : σ) : Cut run torn steps s (runAll run steps s) := by
  induction steps generalizing s with
  | nil => exact .stop [] s
  | cons step steps ih => exact .next (ih (run step s))

theorem Cut.kept {I : σ → Prop} (cut : Cut run torn steps s t) (initial : I s)
    (whole : ∀ step ∈ steps, ∀ s, I s → I (run step s))
    (parts : ∀ step ∈ steps, ∀ part, torn step part → ∀ s, I s → I (run part s)) : I t := by
  induction cut with
  | stop => exact initial
  | tear steps s tears => exact parts _ (.head _ ..) _ tears s initial
  | next cut ih =>
    apply ih (whole _ (.head _ ..) _ initial)
    · intro step member
      exact whole step (.tail _ member)
    · intro step member
      exact parts step (.tail _ member)

theorem Cut.append (cut : Cut run torn (steps ++ more) s t) :
    Cut run torn steps s t ∨ Cut run torn more (runAll run steps s) t := by
  induction steps generalizing s with
  | nil => exact .inr cut
  | cons step steps ih =>
    cases cut with
    | stop => exact .inl (.stop _ _)
    | tear _ _ tears => exact .inl (.tear _ _ tears)
    | next cut =>
      cases ih cut with
      | inl first => exact .inl (.next first)
      | inr second => exact .inr second

end Cuts

end PerfStats.Lib
