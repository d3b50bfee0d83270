import Mathlib

/-! Circular doubly linked lists in a heap of cells, with the queue operations of `search.h`. -/

namespace PerfStats.Lib

open Function

variable {A V : Type} [DecidableEq A]

structure LinkCell (A V : Type) where
  forward : Option A
  backward : Option A
  val : V

abbrev LinkHeap (A V : Type) := A → Option (LinkCell A V)

namespace LinkHeap

def read (h : LinkHeap A V) : Option A → Except Unit (LinkCell A V)
  | none => .error ()
  | some a =>
    match h a with
    | none => .error ()
    | some cell => .ok cell

def modify (h : LinkHeap A V) (f : LinkCell A V → LinkCell A V) :
    Option A → Except Unit (LinkHeap A V)
  | none => .error ()
  | some a =>
    match h a with
    | none => .error ()
    | some cell => .ok (update h a (some (f cell)))

def free (h : LinkHeap A V) (p : Option A) : Except Unit (LinkHeap A V) := do
  let _ ← h.read p
  return fun a => if p = some a then none else h a

def insque (h : LinkHeap A V) (elem prev : Option A) : Except Unit (LinkHeap A V) :=
  if prev = none then h.modify (fun cell => { cell with forward := none, backward := none }) elem
  else do
    let next := (← h.read prev).forward
    let h ← h.modify (fun cell => { cell with forward := elem }) prev
    let h ← if next = none then pure h
      else h.modify (fun cell => { cell with backward := elem }) next
    h.modify (fun cell => { cell with forward := next, backward := prev }) elem

def remque (h : LinkHeap A V) (elem : Option A) : Except Unit (LinkHeap A V) := do
  let cell ← h.read elem
  let h ← if cell.forward = none then pure h
    else h.modify (fun other => { other with backward := cell.backward }) cell.forward
  if cell.backward = none then pure h
    else h.modify (fun other => { other with forward := cell.forward }) cell.backward

def forwardOf (h : LinkHeap A V) (a : A) : Option A := (h a).bind LinkCell.forward

def backwardOf (h : LinkHeap A V) (a : A) : Option A := (h a).bind LinkCell.backward

def valOf (h : LinkHeap A V) (a : A) : Option V := (h a).map LinkCell.val

variable {h : LinkHeap A V} {a b e n p : A} {cell : LinkCell A V}

omit [DecidableEq A] in
theorem exists_cell (there : (valOf h a).isSome) : ∃ cell, h a = some cell := by
  rw [valOf, Option.isSome_map] at there
  exact Option.isSome_iff_exists.mp there

theorem valOf_update (a x : A) (cell : LinkCell A V) :
    valOf (update h a (some cell)) x = if x = a then some cell.val else valOf h x := by
  by_cases same : x = a
  · subst same
    simp [valOf]
  · simp [valOf, same]

theorem forwardOf_update (a x : A) (cell : LinkCell A V) :
    forwardOf (update h a (some cell)) x =
      if x = a then cell.forward else forwardOf h x := by
  by_cases same : x = a
  · subst same
    simp [forwardOf]
  · simp [forwardOf, same]

theorem backwardOf_update (a x : A) (cell : LinkCell A V) :
    backwardOf (update h a (some cell)) x =
      if x = a then cell.backward else backwardOf h x := by
  by_cases same : x = a
  · subst same
    simp [backwardOf]
  · simp [backwardOf, same]

theorem modify_spec (f : LinkCell A V → LinkCell A V) (there : h a = some cell) :
    ∃ h', h.modify f (some a) = .ok h' ∧
      (∀ x, forwardOf h' x = if x = a then (f cell).forward else forwardOf h x) ∧
      (∀ x, backwardOf h' x = if x = a then (f cell).backward else backwardOf h x) ∧
      ∀ x, valOf h' x = if x = a then some (f cell).val else valOf h x := by
  refine ⟨_, by rw [modify, there], fun x => ?_, fun x => ?_, fun x => ?_⟩
  · exact forwardOf_update a x (f cell)
  · exact backwardOf_update a x (f cell)
  · exact valOf_update a x (f cell)

theorem ite_kept {B : Type*} {f : A → B} {b : B} (kept : f a = b) (x : A) :
    (if x = a then b else f x) = f x := by
  split
  · next same => rw [same, kept]
  · rfl

theorem setForward_spec (q : Option A) (there : (valOf h a).isSome) :
    ∃ h', h.modify (fun cell => { cell with forward := q }) (some a) = .ok h' ∧
      (∀ x, forwardOf h' x = if x = a then q else forwardOf h x) ∧
      (∀ x, backwardOf h' x = backwardOf h x) ∧ ∀ x, valOf h' x = valOf h x := by
  obtain ⟨cell, stored⟩ := exists_cell there
  obtain ⟨h', written, forward, backward, val⟩ :=
    modify_spec (fun cell => { cell with forward := q }) stored
  refine ⟨h', written, forward, fun x => ?_, fun x => ?_⟩
  · rw [backward, ite_kept (by simp [backwardOf, stored])]
  · rw [val, ite_kept (by simp [valOf, stored])]

theorem setBackward_spec (q : Option A) (there : (valOf h a).isSome) :
    ∃ h', h.modify (fun cell => { cell with backward := q }) (some a) = .ok h' ∧
      (∀ x, forwardOf h' x = forwardOf h x) ∧
      (∀ x, backwardOf h' x = if x = a then q else backwardOf h x) ∧
      ∀ x, valOf h' x = valOf h x := by
  obtain ⟨cell, stored⟩ := exists_cell there
  obtain ⟨h', written, forward, backward, val⟩ :=
    modify_spec (fun cell => { cell with backward := q }) stored
  refine ⟨h', written, fun x => ?_, backward, fun x => ?_⟩
  · rw [forward, ite_kept (by simp [forwardOf, stored])]
  · rw [val, ite_kept (by simp [valOf, stored])]

theorem setVal_spec (v : V) (there : (valOf h a).isSome) :
    ∃ h', h.modify (fun cell => { cell with val := v }) (some a) = .ok h' ∧
      (∀ x, forwardOf h' x = forwardOf h x) ∧ (∀ x, backwardOf h' x = backwardOf h x) ∧
      ∀ x, valOf h' x = if x = a then some v else valOf h x := by
  obtain ⟨cell, stored⟩ := exists_cell there
  obtain ⟨h', written, forward, backward, val⟩ :=
    modify_spec (fun cell => { cell with val := v }) stored
  refine ⟨h', written, fun x => ?_, fun x => ?_, val⟩
  · rw [forward, ite_kept (by simp [forwardOf, stored])]
  · rw [backward, ite_kept (by simp [backwardOf, stored])]

theorem insque_spec (elem : (valOf h e).isSome) (prev : (valOf h p).isSome)
    (next : forwardOf h p = some n) (behind : (valOf h n).isSome) :
    ∃ h', insque h (some e) (some p) = .ok h' ∧
      (∀ x, forwardOf h' x = if x = e then some n else if x = p then some e else forwardOf h x) ∧
      (∀ x, backwardOf h' x = if x = e then some p else if x = n then some e else backwardOf h x) ∧
      ∀ x, valOf h' x = valOf h x := by
  obtain ⟨cell, stored⟩ := exists_cell prev
  have after : cell.forward = some n := by simpa [forwardOf, stored] using next
  obtain ⟨h₁, first, forward₁, backward₁, val₁⟩ := setForward_spec (some e) prev
  obtain ⟨h₂, second, forward₂, backward₂, val₂⟩ :=
    setBackward_spec (h := h₁) (a := n) (some e) (by rw [val₁]; exact behind)
  obtain ⟨last, there⟩ := exists_cell (h := h₂) (a := e) (by rw [val₂, val₁]; exact elem)
  obtain ⟨h₃, third, forward₃, backward₃, val₃⟩ :=
    modify_spec (fun cell => { cell with forward := some n, backward := some p }) there
  refine ⟨h₃, ?_, fun x => ?_, fun x => ?_, fun x => ?_⟩
  · simp only [insque, reduceCtorEq, if_false, read, stored, bind, Except.bind, after, first,
      second, third]
  · rw [forward₃, forward₂, forward₁]
  · rw [backward₃, backward₂, backward₁]
  · rw [val₃, val₂, val₁]
    split
    · next same => rw [same, ← val₁, ← val₂, valOf, there, Option.map_some]
    · rfl

theorem remque_spec (elem : (valOf h e).isSome) (next : forwardOf h e = some n)
    (back : backwardOf h e = some p) (behind : (valOf h n).isSome) (prev : (valOf h p).isSome) :
    ∃ h', remque h (some e) = .ok h' ∧
      (∀ x, forwardOf h' x = if x = p then some n else forwardOf h x) ∧
      (∀ x, backwardOf h' x = if x = n then some p else backwardOf h x) ∧
      ∀ x, valOf h' x = valOf h x := by
  obtain ⟨cell, stored⟩ := exists_cell elem
  have after : cell.forward = some n := by simpa [forwardOf, stored] using next
  have before : cell.backward = some p := by simpa [backwardOf, stored] using back
  obtain ⟨h₁, first, forward₁, backward₁, val₁⟩ := setBackward_spec (some p) behind
  obtain ⟨h₂, second, forward₂, backward₂, val₂⟩ :=
    setForward_spec (h := h₁) (a := p) (some n) (by rw [val₁]; exact prev)
  refine ⟨h₂, ?_, fun x => ?_, fun x => ?_, fun x => ?_⟩
  · simp only [remque, read, stored, bind, Except.bind, after, before, reduceCtorEq, if_false,
      first, second]
  · rw [forward₂, forward₁]
  · rw [backward₂, backward₁]
  · rw [val₂, val₁]

theorem free_spec (there : (valOf h a).isSome) :
    ∃ h', h.free (some a) = .ok h' ∧
      (∀ x, forwardOf h' x = if x = a then none else forwardOf h x) ∧
      (∀ x, backwardOf h' x = if x = a then none else backwardOf h x) ∧
      ∀ x, valOf h' x = if x = a then none else valOf h x := by
  obtain ⟨cell, stored⟩ := exists_cell there
  refine ⟨fun x => if some a = some x then none else h x, ?_, fun x => ?_, fun x => ?_,
    fun x => ?_⟩
  · simp only [free, read, stored, bind, Except.bind, pure, Except.pure]
  all_goals
    by_cases same : x = a
    · simp [forwardOf, backwardOf, valOf, same]
    · simp [forwardOf, backwardOf, valOf, same, Ne.symm same]

end LinkHeap

section Rings

open LinkHeap

variable {h h' : LinkHeap A V} {l s t : List A} {a b e z : A}

def Linked (h : LinkHeap A V) (a b : A) : Prop := forwardOf h a = some b ∧ backwardOf h b = some a

structure IsRing (h : LinkHeap A V) (l : List A) : Prop where
  chain : l.IsChain (Linked h)
  closed : ∀ z ∈ l.getLast?, ∀ a ∈ l.head?, Linked h z a
  nodup : l.Nodup
  cells : ∀ a, (valOf h a).isSome ↔ a ∈ l

def vals (h : LinkHeap A V) (l : List A) : List V := l.filterMap (valOf h)

omit [DecidableEq A] in
theorem IsRing.nil (empty : ∀ a, valOf h a = none) : IsRing h [] := by
  refine ⟨.nil, by simp, .nil, fun a => ?_⟩
  simp [empty a]

omit [DecidableEq A] in
theorem chain_frame (forward : ∀ x ∈ l.dropLast, forwardOf h' x = forwardOf h x)
    (backward : ∀ x ∈ l.tail, backwardOf h' x = backwardOf h x)
    (chain : l.IsChain (Linked h)) : l.IsChain (Linked h') := by
  induction chain with
  | nil => exact .nil
  | singleton a => exact .singleton a
  | cons_cons linked rest ih =>
    refine .cons_cons ⟨?_, ?_⟩ (ih ?_ ?_)
    · rw [forward _ (by simp)]
      exact linked.1
    · rw [backward _ (by simp)]
      exact linked.2
    · intro x member
      exact forward x (by simp [member])
    · intro x member
      exact backward x (List.mem_of_mem_tail member)

omit [DecidableEq A] in
theorem IsRing.rotate (ring : IsRing h (s ++ t)) : IsRing h (t ++ s) := by
  refine ⟨?_, ?_, ?_, fun a => ?_⟩
  · rw [List.isChain_append]
    have parts := List.isChain_append.mp ring.chain
    refine ⟨parts.2.1, parts.1, fun z last a first => ring.closed z ?_ a ?_⟩
    · exact List.mem_getLast?_append_of_mem_getLast? last
    · rw [List.head?_append]
      simp [Option.mem_def.mp first]
  · intro z last a first
    cases t with
    | nil =>
      simp only [List.nil_append, List.append_nil] at *
      exact ring.closed z last a first
    | cons b t =>
      rw [List.cons_append, List.head?_cons, Option.mem_def, Option.some.injEq] at first
      subst first
      cases s with
      | nil =>
        rw [List.append_nil] at last
        exact ring.closed z last b rfl
      | cons c s =>
        have parts := List.isChain_append.mp ring.chain
        rw [List.getLast?_append_of_ne_nil _ (by simp)] at last
        exact parts.2.2 z last b rfl
  · exact (List.perm_append_comm.nodup_iff).mp ring.nodup
  · rw [ring.cells, List.mem_append, List.mem_append, or_comm]

omit [DecidableEq A] in
theorem IsRing.forward_last (ring : IsRing h (a :: t)) (last : (a :: t).getLast? = some z) :
    forwardOf h z = some a ∧ backwardOf h a = some z := ring.closed z last a rfl

omit [DecidableEq A] in
theorem IsRing.there (ring : IsRing h l) (member : a ∈ l) : (valOf h a).isSome :=
  (ring.cells a).mpr member

omit [DecidableEq A] in
theorem IsRing.forward (ring : IsRing h (s ++ a :: t)) :
    forwardOf h a = (t ++ (s ++ [a])).head? := by
  cases t with
  | cons b t =>
    have parts := (List.isChain_append.mp ring.chain).2.1
    cases parts with
    | cons_cons linked _ => exact linked.1
  | nil =>
    obtain ⟨b, first⟩ : ∃ b, (s ++ [a]).head? = some b := by cases s <;> exact ⟨_, rfl⟩
    rw [List.nil_append, first]
    exact (ring.closed a (by simp) b first).1

omit [DecidableEq A] in
theorem IsRing.cell (ring : IsRing h (s ++ a :: t)) :
    ∃ cell, h.read (some a) = .ok cell ∧ h a = some cell ∧
      cell.forward = (t ++ (s ++ [a])).head? ∧ vals h (a :: t) = cell.val :: vals h t := by
  obtain ⟨cell, stored⟩ := exists_cell (ring.there (by simp : a ∈ s ++ a :: t))
  refine ⟨cell, by simp only [LinkHeap.read, stored], stored, ?_, ?_⟩
  · rw [← ring.forward, forwardOf, stored, Option.bind_some]
  · rw [vals, List.filterMap_cons_some (by rw [valOf, stored, Option.map_some])]
    rfl

omit [DecidableEq A] in
theorem vals_congr (same : ∀ x ∈ l, valOf h' x = valOf h x) : vals h' l = vals h l :=
  List.filterMap_congr same

omit [DecidableEq A] in
theorem vals_append (s t : List A) : vals h (s ++ t) = vals h s ++ vals h t :=
  List.filterMap_append

omit [DecidableEq A] in
theorem IsRing.vals_length (ring : IsRing h l) : (vals h l).length = l.length := by
  have all : ∀ x ∈ l, (valOf h x).isSome := fun x member => ring.there member
  clear ring
  induction l with
  | nil => rfl
  | cons x l ih =>
    obtain ⟨v, held⟩ := Option.isSome_iff_exists.mp (all x (.head _))
    rw [vals, List.filterMap_cons_some held, List.length_cons, List.length_cons]
    exact congrArg (· + 1) (ih fun y member => all y (.tail x member))

theorem ring_single (empty : ∀ x, valOf h x = none) (e : A) (v : V) :
    ∃ h', insque (update h e (some ⟨some e, some e, v⟩)) (some e) (some e) = .ok h' ∧
      IsRing h' [e] ∧ vals h' [e] = [v] := by
  have there : (valOf (update h e (some ⟨some e, some e, v⟩)) e).isSome := by
    simp [valOf_update]
  have self : forwardOf (update h e (some ⟨some e, some e, v⟩)) e = some e := by
    simp [forwardOf_update]
  obtain ⟨h', linked, forward, backward, val⟩ := insque_spec there there self there
  refine ⟨h', linked, ⟨.singleton e, ?_, by simp, fun x => ?_⟩, ?_⟩
  · intro z last a first
    simp only [List.getLast?_singleton, List.head?_cons, Option.mem_def, Option.some.injEq]
      at last first
    subst last
    subst first
    exact ⟨by rw [forward, if_pos rfl], by rw [backward, if_pos rfl]⟩
  · rw [val, valOf_update]
    by_cases same : x = e
    · simp [same]
    · simp [same, empty x]
  · simp [vals, val, valOf_update]

theorem IsRing.push (ring : IsRing h (a :: t)) (last : (a :: t).getLast? = some z)
    (fresh : valOf h e = none) (v : V) :
    ∃ h', insque (update h e (some ⟨none, none, v⟩)) (some e) (some z) = .ok h' ∧
      IsRing h' (a :: t ++ [e]) ∧ vals h' (a :: t ++ [e]) = vals h (a :: t) ++ [v] := by
  have outside : e ∉ a :: t := by
    intro member
    have there := ring.there member
    rw [fresh] at there
    cases there
  have inside : z ∈ a :: t := List.mem_of_getLast? last
  have za : z ≠ e := fun same => outside (same ▸ inside)
  have ae : a ≠ e := fun same => outside (same ▸ (.head _))
  obtain ⟨next, back⟩ := ring.forward_last last
  obtain ⟨h', linked, forward, backward, val⟩ := insque_spec
    (h := update h e (some ⟨none, none, v⟩)) (e := e) (p := z) (n := a)
    (by simp [valOf_update]) (by rw [valOf_update, if_neg za]; exact ring.there inside)
    (by rw [forwardOf_update, if_neg za]; exact next)
    (by rw [valOf_update, if_neg ae]; exact ring.there (.head _))
  have kept : ∀ x, x ≠ e → valOf h' x = valOf h x := by
    intro x other
    rw [val, valOf_update, if_neg other]
  refine ⟨h', linked, ⟨?_, ?_, ?_, fun x => ?_⟩, ?_⟩
  · rw [List.isChain_append]
    refine ⟨chain_frame (fun x member => ?_) (fun x member => ?_) ring.chain, .singleton e, ?_⟩
    · have other : x ≠ e := fun same => outside (same ▸ List.dropLast_subset _ member)
      have before : x ≠ z := by
        rintro rfl
        have whole := List.dropLast_append_getLast? x last
        have single := whole ▸ ring.nodup
        rw [List.nodup_append] at single
        exact single.2.2 x member x (.head _) rfl
      rw [forward, if_neg other, if_neg before, forwardOf_update, if_neg other]
    · have other : x ≠ e := fun same => outside (same ▸ List.mem_of_mem_tail member)
      have behind : x ≠ a := by
        rintro rfl
        exact (List.nodup_cons.mp ring.nodup).1 member
      rw [backward, if_neg other, if_neg behind, backwardOf_update, if_neg other]
    · intro y final x first
      rw [last, Option.mem_def, Option.some.injEq] at final
      rw [List.head?_cons, Option.mem_def, Option.some.injEq] at first
      subst final
      subst first
      exact ⟨by rw [forward, if_neg za, if_pos rfl], by rw [backward, if_pos rfl]⟩
  · intro y final x first
    rw [List.getLast?_append_of_ne_nil _ (by simp), List.getLast?_singleton, Option.mem_def,
      Option.some.injEq] at final
    rw [List.cons_append, List.head?_cons, Option.mem_def, Option.some.injEq] at first
    subst final
    subst first
    exact ⟨by rw [forward, if_pos rfl], by rw [backward, if_neg ae, if_pos rfl]⟩
  · rw [List.nodup_append]
    refine ⟨ring.nodup, by simp, fun x member y single => ?_⟩
    rw [List.mem_singleton] at single
    subst single
    exact fun same => outside (same ▸ member)
  · by_cases same : x = e
    · simp [val, valOf_update, same]
    · rw [kept x same, ring.cells, List.mem_append, List.mem_singleton]
      simp [same]
  · rw [vals_append, vals_congr fun x member => kept x fun same => outside (same ▸ member)]
    simp [vals, val, valOf_update]

theorem IsRing.pop (ring : IsRing h (a :: t)) :
    ∃ h₁ h', remque h (some a) = .ok h₁ ∧ h₁.free (some a) = .ok h' ∧ IsRing h' t ∧
      vals h' t = vals h t := by
  have here := ring.there (.head _)
  have outside := (List.nodup_cons.mp ring.nodup).1
  have within : ∀ x, x ∈ t → x ≠ a := fun x member same => outside (same ▸ member)
  cases t with
  | nil =>
    obtain ⟨next, back⟩ := ring.forward_last (z := a) rfl
    obtain ⟨h₁, taken, _, _, val₁⟩ := remque_spec here next back here here
    obtain ⟨h', freed, _, _, val⟩ := free_spec (h := h₁) (a := a) (by rw [val₁]; exact here)
    refine ⟨h₁, h', taken, freed, .nil fun x => ?_, rfl⟩
    rw [val]
    split
    · rfl
    · next other =>
        have absent := (ring.cells x).not.mpr (by simpa using other)
        rw [val₁]
        simpa using absent
  | cons b t =>
    obtain ⟨z, last⟩ : ∃ z, (b :: t).getLast? = some z := ⟨_, List.getLast?_eq_some_getLast (by simp)⟩
    have whole : (a :: b :: t).getLast? = some z := by
      rw [← last]
      rfl
    have inside : z ∈ b :: t := List.mem_of_getLast? last
    obtain ⟨next, back⟩ := ring.forward_last whole
    have linked : Linked h a b := by
      cases ring.chain with
      | cons_cons linked _ => exact linked
    obtain ⟨h₁, taken, forward₁, backward₁, val₁⟩ := remque_spec here linked.1 back
      (ring.there (by simp)) (ring.there (.tail a inside))
    obtain ⟨h', freed, forward, backward, val⟩ :=
      free_spec (h := h₁) (a := a) (by rw [val₁]; exact here)
    have kept : ∀ x ∈ b :: t, valOf h' x = valOf h x := by
      intro x member
      rw [val, if_neg (within x member), val₁]
    refine ⟨h₁, h', taken, freed, ⟨?_, ?_, ?_, fun x => ?_⟩, vals_congr kept⟩
    · refine chain_frame (fun x member => ?_) (fun x member => ?_) ring.chain.tail
      · have before : x ≠ z := by
          rintro rfl
          have split := List.dropLast_append_getLast? x last
          have single := split ▸ (List.nodup_cons.mp ring.nodup).2
          rw [List.nodup_append] at single
          exact single.2.2 x member x (.head _) rfl
        rw [forward, if_neg (within x (List.dropLast_subset _ member)), forward₁, if_neg before]
      · have behind : x ≠ b := by
          rintro rfl
          exact (List.nodup_cons.mp (List.nodup_cons.mp ring.nodup).2).1 member
        rw [backward, if_neg (within x (List.mem_of_mem_tail member)), backward₁, if_neg behind]
    · intro y final x first
      rw [last, Option.mem_def, Option.some.injEq] at final
      rw [List.head?_cons, Option.mem_def, Option.some.injEq] at first
      subst final
      subst first
      constructor
      · rw [forward, if_neg (within z inside), forward₁, if_pos rfl]
      · rw [backward, if_neg (within b (.head _)), backward₁, if_pos rfl]
    · exact (List.nodup_cons.mp ring.nodup).2
    · by_cases same : x = a
      · subst same
        simpa [val] using outside
      · rw [val, if_neg same, val₁, ring.cells]
        simp [same]

theorem IsRing.write (ring : IsRing h (s ++ a :: t)) (v : V) :
    ∃ h', h.modify (fun cell => { cell with val := v }) (some a) = .ok h' ∧
      IsRing h' (s ++ a :: t) ∧ vals h' s = vals h s ∧ vals h' [a] = [v] ∧
      vals h' t = vals h t := by
  have there := ring.there (a := a) (by simp)
  obtain ⟨h', written, forward, backward, val⟩ := setVal_spec v there
  have parts := List.nodup_append.mp ring.nodup
  refine ⟨h', written, ⟨?_, ?_, ring.nodup, fun x => ?_⟩, ?_, ?_, ?_⟩
  · exact chain_frame (fun x _ => forward x) (fun x _ => backward x) ring.chain
  · intro z last x first
    exact ⟨by rw [forward]; exact (ring.closed z last x first).1,
      by rw [backward]; exact (ring.closed z last x first).2⟩
  · rw [val, ← ring.cells]
    split
    · next same => simp [same, there]
    · rfl
  · apply vals_congr
    intro x member
    rw [val, if_neg (fun same => parts.2.2 x member a (.head _) same)]
  · simp [vals, val]
  · apply vals_congr
    intro x member
    have other : x ≠ a := fun same => (List.nodup_cons.mp parts.2.1).1 (same ▸ member)
    rw [val, if_neg other]

end Rings

end PerfStats.Lib
