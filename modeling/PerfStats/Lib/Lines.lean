import Mathlib

namespace PerfStats.Lib

section Lines

variable {α : Type*}

def blocks (content : List α) (chunk : ℕ+) (offset : Nat) : List (Nat × List α) :=
  if offset = 0 then []
  else
    let size := min (chunk : Nat) offset
    (offset - size, (content.drop (offset - size)).take size) ::
      blocks content chunk (offset - size)
termination_by offset
decreasing_by
  have := chunk.pos
  omega

variable [DecidableEq α]

def cutBlock (sep : α) (carry : List α) (offset : Nat) (raw : List α) :
    List α × List (List α) :=
  let parts := (raw ++ carry).splitOn sep
  if 0 < offset then (parts.headD [], parts.tail) else ([], parts)

def linesBack (sep : α) (carry : List α) : List (Nat × List α) → List (List α)
  | [] => []
  | (offset, raw) :: rest =>
    (cutBlock sep carry offset raw).2.reverse ++
      linesBack sep (cutBlock sep carry offset raw).1 rest

variable {sep : α}

theorem splitOn_cons_sep (rest : List α) :
    (sep :: rest).splitOn sep = [] :: rest.splitOn sep := by
  simp [List.splitOn_cons_eq_if_modifyHead]

variable {head : List α} {tail : List (List α)}

theorem splitOn_cons_of_ne {a : α} (other : a ≠ sep) {rest : List α}
    (cut : rest.splitOn sep = head :: tail) : (a :: rest).splitOn sep = (a :: head) :: tail := by
  simp [List.splitOn_cons_eq_if_modifyHead, other, cut]

theorem splitOn_shape (sep : α) (text : List α) : ∃ head tail, text.splitOn sep = head :: tail :=
  List.exists_cons_of_ne_nil (List.splitOn_ne_nil sep text)

theorem splitOn_of_notMem {text : List α} (solid : sep ∉ text) : text.splitOn sep = [text] :=
  List.splitOn_eq_singleton solid

theorem notMem_of_splitOn {text : List α}
    (cut : text.splitOn sep = head :: tail) : sep ∉ head := by
  induction text generalizing head tail with
  | nil =>
    cases cut
    exact List.not_mem_nil
  | cons a rest ih =>
    obtain ⟨first, others, inner⟩ := splitOn_shape sep rest
    by_cases same : a = sep
    · rw [same, splitOn_cons_sep] at cut
      cases cut
      exact List.not_mem_nil
    · rw [splitOn_cons_of_ne same inner] at cut
      cases cut
      intro member
      cases List.mem_cons.mp member with
      | inl here => exact same here.symm
      | inr later => exact ih inner later

theorem splitOn_append (front : List α) {back : List α} (cut : back.splitOn sep = head :: tail) :
    (front ++ back).splitOn sep = (front ++ head).splitOn sep ++ tail := by
  induction front with
  | nil =>
    rw [List.nil_append, List.nil_append, cut, splitOn_of_notMem (notMem_of_splitOn cut)]
    rfl
  | cons a front ih =>
    obtain ⟨first, others, inner⟩ := splitOn_shape sep (front ++ head)
    have whole : (front ++ back).splitOn sep = first :: (others ++ tail) := by
      rw [ih, inner, List.cons_append]
    by_cases same : a = sep
    · rw [same, List.cons_append, List.cons_append, splitOn_cons_sep, splitOn_cons_sep, ih,
        List.cons_append]
    · rw [List.cons_append, List.cons_append, splitOn_cons_of_ne same whole,
        splitOn_cons_of_ne same inner, List.cons_append]

theorem splitOn_solid_append {front : List α} (solid : sep ∉ front) {back : List α}
    (cut : back.splitOn sep = head :: tail) :
    (front ++ back).splitOn sep = (front ++ head) :: tail := by
  have whole : sep ∉ front ++ head := by
    intro member
    cases List.mem_append.mp member with
    | inl here => exact solid here
    | inr later => exact notMem_of_splitOn cut later
  rw [splitOn_append front cut, splitOn_of_notMem whole]
  rfl

theorem linesBack_blocks (content : List α) (chunk : ℕ+) {offset : Nat} (later : 0 < offset)
    (carry : List α) :
    linesBack sep carry (blocks content chunk offset) =
      ((content.take offset ++ carry).splitOn sep).reverse := by
  induction offset using Nat.strong_induction_on generalizing carry with
  | _ offset ih =>
    have positive := chunk.pos
    rw [blocks, if_neg later.ne']
    dsimp only [linesBack]
    generalize size_eq : min (chunk : Nat) offset = size
    have joined : content.take offset =
        content.take (offset - size) ++ (content.drop (offset - size)).take size := by
      have whole : offset = (offset - size) + size := by omega
      conv_lhs => rw [whole, List.take_add]
    by_cases more : 0 < offset - size
    · obtain ⟨head, tail, cut⟩ :=
        splitOn_shape sep ((content.drop (offset - size)).take size ++ carry)
      have step := ih (offset - size) (by omega) more head
      simp only [cutBlock, if_pos more, cut, List.headD_cons, List.tail_cons]
      rw [step, joined, List.append_assoc, splitOn_append _ cut, List.reverse_append]
    · have last : offset - size = 0 := by omega
      simp only [cutBlock, if_neg more]
      rw [joined, last, blocks, if_pos rfl, linesBack, List.append_nil]
      simp

end Lines

end PerfStats.Lib
