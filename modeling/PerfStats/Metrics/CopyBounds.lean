import PerfStats.Lib.Touching
import PerfStats.Metrics.CopyStream

/-! Which memory the compiled COPY decoder touches: the kernels again, saying every byte they read
and every slot they write. -/

namespace PerfStats.Metrics.Pointer

open Lib

section Kernels

open Touching

inductive OutColumn where
  | time
  | text (col : TextColumn)
  | value
  | arc
  | delta
  | owned

/-- A byte of the stream, a row of an output column, or a slot of the `out_name_*` arrays. -/
inductive Place where
  | input (off : Nat)
  | row (column : OutColumn) (i : Nat)
  | name (i : Nat)

abbrev Kernel := Touching Place Int

def readBytes (off width : Nat) : Kernel Unit :=
  touch ((List.range width).map fun i => .input (off + i))

def beI16 (p : Nat → UInt8) (off : Nat) : Kernel Int := do
  readBytes off 2
  return Metrics.beI16 p off

def beI32 (p : Nat → UInt8) (off : Nat) : Kernel Int := do
  readBytes off 4
  return Metrics.beI32 p off

def beI64 (p : Nat → UInt8) (off : Nat) : Kernel Int := do
  readBytes off 8
  return Metrics.beI64 p off

def beF32 (p : Nat → UInt8) (off : Nat) : Kernel (Option (BitVec 32)) := do
  readBytes off 4
  return Metrics.beF32 p off

def writeRow (column : OutColumn) (i : Nat) : Kernel Unit := touch [.row column i]

def sameBytes (p : Nat → UInt8) : Nat → Bytes → Kernel Bool
  | _, [] => return true
  | i, expected :: rest => do
      readBytes i 1
      if p i = expected then sameBytes p (i + 1) rest else return false

def signatureOk (p : Nat → UInt8) (n : Nat) : Kernel Bool :=
  if n < copyHeaderLen then return false else sameBytes p 0 copySignature

def headerEnd (p : Nat → UInt8) : Kernel Nat := do
  let ext ← beI32 p 15
  return copyHeaderLen + ext.toNat

def skipFields (p : Nat → UInt8) (n : Nat) : Nat → Nat → Kernel Nat
  | 0, off => return off
  | fields + 1, off =>
    if n < off + 4 then fail errTruncated
    else do
      let ln ← beI32 p off
      skipFields p n fields (off + 4 + ln.toNat)

def countLoop (p : Nat → UInt8) (n : Nat) (hasOwned : Bool) : Nat → Nat → Nat → Kernel Nat
  | 0, _, rows => return rows
  | fuel + 1, off, rows =>
    if off + 2 ≤ n then do
      let nf ← beI16 p off
      if nf = -1 then return rows
      else if nf ≠ expectedFields hasOwned then fail errFieldCount
      else do
        let off ← skipFields p n nf.toNat (off + 2)
        if n < off then fail errTruncated
        else countLoop p n hasOwned fuel off (rows + 1)
    else return rows

def copyCountRowsC (p : Nat → UInt8) (n : Nat) (hasOwned : Bool) : Kernel Nat := do
  if ← signatureOk p n then
    let off ← headerEnd p
    countLoop p n hasOwned n off 0
  else fail errSignature

def intern (p : Nat → UInt8) (col : TextColumn) (off ln : Nat) (nameCap : Int)
    (walk : KernelWalk) : Kernel (Nat × KernelWalk) := do
  readBytes off ln
  let key := window p off ln
  match (walk.tables col).get? key with
  | some got => return (got, walk)
  | none =>
    let idx := walk.entries.length
    if nameCap ≤ idx then fail errNameCap
    else do
      touch [.name idx]
      return (idx, { walk with
        tables := Function.update walk.tables col ((walk.tables col).set key idx)
        entries := walk.entries ++ [⟨col, off, ln⟩] })

def text (p : Nat → UInt8) (n row : Nat) (nameCap : Int) (col : TextColumn)
    (walk : KernelWalk) : Kernel (Nat × KernelWalk) := do
  let ln ← beI32 p walk.off
  let off := walk.off + 4
  if n < off + ln.toNat then fail errTruncated
  else do
    let got ← intern p col off ln.toNat nameCap walk
    writeRow (.text col) row
    return (got.1, { got.2 with off := off + ln.toNat })

def real (p : Nat → UInt8) (n row : Nat) (column : OutColumn) (off : Nat) :
    Kernel (Option (BitVec 32) × Nat) := do
  let ln ← beI32 p off
  if ln = 4 then
    if n < off + 4 + 4 then fail errTruncated
    else do
      let value ← beF32 p (off + 4)
      writeRow column row
      return (value, off + 4 + 4)
  else do
    writeRow column row
    return (none, off + 4 + ln.toNat)

def owned (p : Nat → UInt8) (n row : Nat) (hasOwned : Bool) (off : Nat) :
    Kernel (Bool × Nat) :=
  if hasOwned then do
    let ln ← beI32 p off
    if ln = 4 then
      if n < off + 4 + 4 then fail errTruncated
      else do
        let own ← beI32 p (off + 4)
        writeRow .owned row
        return (decide (own ≠ 0), off + 4 + 4)
    else do
      writeRow .owned row
      return (false, off + 4 + ln.toNat)
  else do
    writeRow .owned row
    return (true, off)

def time (p : Nat → UInt8) (row off : Nat) : Kernel (Int × Nat) := do
  let ln ← beI32 p off
  if ln ≠ 8 then fail errNullTime
  else do
    let stamp ← beI64 p (off + 4)
    writeRow .time row
    return ((stamp + pgEpochOffsetUs).bmod (2 ^ 64), off + 4 + 8)

def tuple (p : Nat → UInt8) (n : Nat) (hasOwned : Bool) (nameCap : Int) (walk : KernelWalk) :
    Kernel KernelWalk := do
  let row := walk.rows.length
  let (stamp, off) ← time p row walk.off
  let (host, walk) ← text p n row nameCap .host { walk with off := off }
  let (type, walk) ← text p n row nameCap .type walk
  let (event, walk) ← text p n row nameCap .event walk
  let (dev, walk) ← text p n row nameCap .dev walk
  let (value, off) ← real p n row .value walk.off
  let (arc, off) ← real p n row .arc off
  let (delta, off) ← real p n row .delta off
  let (own, off) ← owned p n row hasOwned off
  if n < off then fail errTruncated
  else return { walk with
    off := off
    rows := walk.rows ++ [⟨stamp, host, type, event, dev, own, value, arc, delta⟩] }

def loop (p : Nat → UInt8) (n : Nat) (hasOwned : Bool) (nrows : Nat) (nameCap : Int) :
    Nat → KernelWalk → Kernel KernelWalk
  | 0, walk => return walk
  | fuel + 1, walk =>
    if walk.off + 2 ≤ n then do
      let nf ← beI16 p walk.off
      if nf = -1 then return walk
      else if nf ≠ expectedFields hasOwned then fail errFieldCount
      else if nrows ≤ walk.rows.length then fail errRowCount
      else do
        let walk ← tuple p n hasOwned nameCap { walk with off := walk.off + 2 }
        loop p n hasOwned nrows nameCap fuel walk
    else return walk

def copyDecodeC (p : Nat → UInt8) (n : Nat) (hasOwned : Bool) (nrows : Nat) (nameCap : Int) :
    Kernel KernelWalk := do
  if ← signatureOk p n then
    let off ← headerEnd p
    let walk ← loop p n hasOwned nrows nameCap n ⟨off, fun _ => Dict.empty, [], []⟩
    if walk.rows.length ≠ nrows then fail errRowCount else return walk
  else fail errSignature

end Kernels

section Erasure

open Touching

variable {p : Nat → UInt8} {n row : Nat} {hasOwned : Bool}

@[simp] theorem readBytes_result (off width : Nat) : (readBytes off width).result = .ok () := rfl

@[simp] theorem beI16_result (off : Nat) : (beI16 p off).result = .ok (Metrics.beI16 p off) := rfl

@[simp] theorem beI32_result (off : Nat) : (beI32 p off).result = .ok (Metrics.beI32 p off) := rfl

@[simp] theorem ok_bind {α β : Type} (a : α) (f : α → Except Int β) :
    ((Except.ok a : Except Int α) >>= f) = f a := rfl

theorem sameBytes_result (i : Nat) (expected : Bytes) :
    (sameBytes p i expected).result = .ok (decide (window p i expected.length = expected)) := by
  induction expected generalizing i with
  | nil => rfl
  | cons byte rest ih =>
    have first : window p i (rest.length + 1) = p i :: window p (i + 1) rest.length := by
      simp only [window, front, List.range_succ_eq_map, List.map_cons, List.map_map,
        Nat.add_zero]
      congr 1
      apply List.map_congr_left
      intro k _
      simp only [Function.comp, Nat.succ_eq_add_one]
      congr 1
      omega
    rw [sameBytes, List.length_cons, first]
    by_cases same : p i = byte
    · simp [same, ih]
    · simp [same]

theorem signatureOk_result : (signatureOk p n).result = .ok (Metrics.signatureOk p n) := by
  unfold signatureOk Metrics.signatureOk
  by_cases short : n < copyHeaderLen
  · rw [if_pos short, decide_eq_false (Nat.not_le.mpr short)]
    rfl
  · rw [if_neg short, sameBytes_result, decide_eq_true (Nat.not_lt.mp short)]
    rfl

theorem headerEnd_result : (headerEnd p).result = .ok (Metrics.headerEnd p) := rfl

theorem skipFields_result (fields off : Nat) :
    (skipFields p n fields off).result = Metrics.skipFields p n fields off := by
  induction fields generalizing off with
  | zero => rfl
  | succ fields ih =>
    rw [skipFields, Metrics.skipFields]
    split
    · rfl
    · simp [ih]

theorem countLoop_result (fuel off rows : Nat) :
    (countLoop p n hasOwned fuel off rows).result
      = Metrics.countLoop p n hasOwned fuel off rows := by
  induction fuel generalizing off rows with
  | zero => rfl
  | succ fuel ih =>
    rw [countLoop, Metrics.countLoop]
    split
    · simp only [bind_result, beI16_result, ok_bind]
      split
      · rfl
      split
      · rfl
      rw [bind_result, skipFields_result]
      congr 1
      funext last
      split
      · rfl
      · exact ih last (rows + 1)
    · rfl

theorem copyCountRowsC_result :
    (copyCountRowsC p n hasOwned).result = Metrics.copyCountRowsC p n hasOwned := by
  rw [copyCountRowsC, Metrics.copyCountRowsC, bind_result, signatureOk_result, ok_bind]
  split
  · rw [bind_result, headerEnd_result, ok_bind, countLoop_result]
  · rfl

end Erasure

section Bounds

def Inside (n nrows : Nat) (nameCap : Int) : Place → Prop
  | .input off => off < n
  | .row _ i => i < nrows
  | .name i => (i : Int) < nameCap

variable {p : Nat → UInt8} {n nrows row : Nat} {nameCap : Int} {hasOwned : Bool}
  {E : Int → Prop}

theorem readBytes_inside {off width : Nat} (fits : off + width ≤ n) :
    Within (readBytes off width) (Inside n nrows nameCap) (fun _ => True) E := by
  refine Within.touch fun k member => ?_
  obtain ⟨i, below, rfl⟩ := List.mem_map.mp member
  have := List.mem_range.mp below
  change off + i < n
  omega

theorem read_inside {α : Type} {off width : Nat} (a : α) (fits : off + width ≤ n) :
    Within (do readBytes off width; return a) (Inside n nrows nameCap) (fun b => b = a) E :=
  (readBytes_inside fits).bind fun _ _ => .pure rfl

theorem writeRow_inside {column : OutColumn} (below : row < nrows) :
    Within (writeRow column row) (Inside n nrows nameCap) (fun _ => True) E := by
  refine Within.touch fun k member => ?_
  rw [List.mem_singleton.mp member]
  exact below

theorem sameBytes_inside {i : Nat} {expected : Bytes} (fits : i + expected.length ≤ n) :
    Within (sameBytes p i expected) (Inside n nrows nameCap) (fun _ => True) E := by
  induction expected generalizing i with
  | nil => exact .pure trivial
  | cons byte rest ih =>
    rw [List.length_cons] at fits
    refine (readBytes_inside (by omega)).bind fun _ _ => ?_
    split
    · exact ih (by omega)
    · exact .pure trivial

theorem signatureOk_inside :
    Within (signatureOk p n) (Inside n nrows nameCap)
      (fun good => good = Metrics.signatureOk p n ∧ (good = true → copyHeaderLen ≤ n)) E := by
  have walked : Within (signatureOk p n) (Inside n nrows nameCap)
      (fun good => good = true → copyHeaderLen ≤ n) E := by
    unfold signatureOk
    split
    · exact .pure fun no => absurd no Bool.false_ne_true
    · next long =>
        have fits : 0 + copySignature.length ≤ n := le_trans (by decide) (Nat.not_lt.mp long)
        exact (sameBytes_inside fits).weaken (fun _ _ _ => Nat.not_lt.mp long) fun _ raised => raised
  refine ⟨walked.places, ?_⟩
  have long := walked.ends
  rw [signatureOk_result] at long ⊢
  exact ⟨rfl, long⟩

theorem headerEnd_inside (long : copyHeaderLen ≤ n) :
    Within (headerEnd p) (Inside n nrows nameCap) (fun off => off = Metrics.headerEnd p) E := by
  have fits : 15 + 4 ≤ n := long
  refine (read_inside (Metrics.beI32 p 15) fits).bind fun ext same => .pure ?_
  rw [same]
  rfl

theorem skipFields_inside {fields off : Nat} :
    Within (skipFields p n fields off) (Inside n nrows nameCap) (fun _ => True)
      (fun _ => True) := by
  induction fields generalizing off with
  | zero => exact .pure trivial
  | succ fields ih =>
    rw [skipFields]
    split
    · exact .fail trivial
    · next fits => exact (read_inside _ (Nat.not_lt.mp fits)).bind fun _ _ => ih

theorem countLoop_inside {fuel off rows : Nat} :
    Within (countLoop p n hasOwned fuel off rows) (Inside n nrows nameCap) (fun _ => True)
      (fun _ => True) := by
  induction fuel generalizing off rows with
  | zero => exact .pure trivial
  | succ fuel ih =>
    rw [countLoop]
    split
    · next fits =>
        refine (read_inside _ fits).bind fun nf _ => ?_
        split
        · exact .pure trivial
        split
        · exact .fail trivial
        · refine skipFields_inside.bind fun last _ => ?_
          split
          · exact .fail trivial
          · exact ih
    · exact .pure trivial

theorem copyCountRowsC_inside :
    Within (copyCountRowsC p n hasOwned) (Inside n nrows nameCap) (fun _ => True)
      (fun _ => True) := by
  refine signatureOk_inside.bind fun good checked => ?_
  split
  · next yes => exact (headerEnd_inside (checked.2 yes)).bind fun _ _ => countLoop_inside
  · exact .fail trivial

end Bounds

section Lockstep

variable {p : Nat → UInt8} {n nrows row fields off last : Nat} {nameCap : Int} {hasOwned : Bool}

structure Remaining (p : Nat → UInt8) (n fields off last : Nat) : Prop where
  walked : Metrics.skipFields p n fields off = .ok last
  inside : last ≤ n

namespace Remaining

theorem last_after (remaining : Remaining p n fields off last) : off ≤ last := by
  obtain ⟨walked, inside⟩ := remaining
  induction fields generalizing off with
  | zero =>
    cases walked
    exact le_rfl
  | succ fields ih =>
    rw [Metrics.skipFields] at walked
    split at walked
    · cases walked
    · have := ih walked
      omega

theorem done (remaining : Remaining p n 0 off last) : off = last := by
  cases remaining.walked
  rfl

theorem next (remaining : Remaining p n (fields + 1) off last) :
    off + 4 ≤ n ∧ Remaining p n fields (off + 4 + (Metrics.beI32 p off).toNat) last := by
  have walked := remaining.walked
  rw [Metrics.skipFields] at walked
  split at walked
  · cases walked
  · next fits => exact ⟨Nat.not_lt.mp fits, walked, remaining.inside⟩

theorem fits (remaining : Remaining p n (fields + 1) off last) :
    off + 4 + (Metrics.beI32 p off).toNat ≤ n :=
  remaining.next.2.last_after.trans remaining.inside

end Remaining

def DataError (code : Int) : Prop := code = errNullTime ∨ code = errNameCap

variable {walk : KernelWalk}

theorem time_inside (remaining : Remaining p n (fields + 1) off last) (below : row < nrows) :
    Within (time p row off) (Inside n nrows nameCap)
      (fun got => Remaining p n fields got.2 last) DataError := by
  obtain ⟨here, rest⟩ := remaining.next
  have fits := remaining.fits
  refine (read_inside _ here).bind fun ln same => ?_
  split
  · exact .fail (.inl rfl)
  · next eight =>
      rw [← same, not_not.mp eight] at rest fits
      refine (read_inside _ fits).bind fun stamp _ => ?_
      exact (writeRow_inside below).bind fun _ _ => .pure rest

theorem intern_inside {col : TextColumn} {ln : Nat} (fits : off + ln ≤ n) :
    Within (intern p col off ln nameCap walk) (Inside n nrows nameCap)
      (fun got => got.2.rows = walk.rows) DataError := by
  refine (readBytes_inside fits).bind fun _ _ => ?_
  dsimp only
  split
  · exact .pure rfl
  split
  · exact .fail (.inr rfl)
  · next room =>
      have slot : Within (Touching.touch [Place.name walk.entries.length])
          (Inside n nrows nameCap) (fun _ => True) DataError := by
        refine Within.touch fun k member => ?_
        rw [List.mem_singleton.mp member]
        exact not_le.mp room
      exact slot.bind fun _ _ => .pure rfl

theorem text_inside {col : TextColumn} (remaining : Remaining p n (fields + 1) walk.off last)
    (below : row < nrows) :
    Within (text p n row nameCap col walk) (Inside n nrows nameCap)
      (fun got => Remaining p n fields got.2.off last ∧ got.2.rows = walk.rows) DataError := by
  obtain ⟨here, rest⟩ := remaining.next
  have fits := remaining.fits
  refine (read_inside _ here).bind fun ln same => ?_
  rw [← same] at rest fits
  rw [if_neg (Nat.not_lt.mpr fits)]
  refine (intern_inside fits).bind fun got kept => ?_
  exact (writeRow_inside below).bind fun _ _ => .pure ⟨rest, kept⟩

theorem real_inside {column : OutColumn} (remaining : Remaining p n (fields + 1) off last)
    (below : row < nrows) :
    Within (real p n row column off) (Inside n nrows nameCap)
      (fun got => Remaining p n fields got.2 last) DataError := by
  obtain ⟨here, rest⟩ := remaining.next
  have fits := remaining.fits
  refine (read_inside _ here).bind fun ln same => ?_
  rw [← same] at rest fits
  split
  · next four =>
      rw [four] at rest fits
      have whole : off + 4 + 4 ≤ n := fits
      rw [if_neg (Nat.not_lt.mpr whole)]
      refine (read_inside _ fits).bind fun value _ => ?_
      exact (writeRow_inside below).bind fun _ _ => .pure rest
  · exact (writeRow_inside below).bind fun _ _ => .pure rest

def ownedFields (hasOwned : Bool) : Nat := if hasOwned then 1 else 0

theorem owned_inside (remaining : Remaining p n (ownedFields hasOwned) off last)
    (below : row < nrows) :
    Within (owned p n row hasOwned off) (Inside n nrows nameCap)
      (fun got => got.2 = last) DataError := by
  unfold owned
  cases hasOwned with
  | false => exact (writeRow_inside below).bind fun _ _ => .pure remaining.done
  | true =>
    obtain ⟨here, rest⟩ := remaining.next
    have fits := remaining.fits
    refine (read_inside _ here).bind fun ln same => ?_
    rw [← same] at rest fits
    split
    · next four =>
        rw [four] at rest fits
        have whole : off + 4 + 4 ≤ n := fits
        rw [if_neg (Nat.not_lt.mpr whole)]
        refine (read_inside _ fits).bind fun own _ => ?_
        exact (writeRow_inside below).bind fun _ _ => .pure rest.done
    · exact (writeRow_inside below).bind fun _ _ => .pure rest.done

theorem expectedFields_toNat (hasOwned : Bool) :
    (expectedFields hasOwned).toNat = ownedFields hasOwned + 8 := by
  cases hasOwned <;> rfl

theorem tuple_inside (remaining : Remaining p n (ownedFields hasOwned + 8) walk.off last)
    (below : walk.rows.length < nrows) :
    Within (tuple p n hasOwned nameCap walk) (Inside n nrows nameCap)
      (fun after => after.off = last ∧ after.rows.length = walk.rows.length + 1) DataError := by
  have inside := remaining.inside
  refine (time_inside remaining below).bind fun stamp remaining => ?_
  refine (text_inside remaining below).bind fun host first => ?_
  refine (text_inside first.1 below).bind fun type second => ?_
  refine (text_inside second.1 below).bind fun event third => ?_
  refine (text_inside third.1 below).bind fun dev fourth => ?_
  refine (real_inside fourth.1 below).bind fun value remaining => ?_
  refine (real_inside remaining below).bind fun arc remaining => ?_
  refine (real_inside remaining below).bind fun delta remaining => ?_
  refine (owned_inside remaining below).bind fun own ends => ?_
  dsimp only
  rw [ends, if_neg (Nat.not_lt.mpr inside)]
  refine .pure ⟨rfl, ?_⟩
  rw [List.length_append, fourth.2, third.2, second.2, first.2]
  rfl

theorem rows_le_total {fuel rows total : Nat}
    (counted : Metrics.countLoop p n hasOwned fuel off rows = .ok total) : rows ≤ total := by
  induction fuel generalizing off rows with
  | zero =>
    cases counted
    exact le_rfl
  | succ fuel ih =>
    rw [Metrics.countLoop] at counted
    dsimp only at counted
    split at counted
    · split at counted
      · cases counted
        exact le_rfl
      split at counted
      · cases counted
      · obtain ⟨last, -, more⟩ := bind_ok counted
        split at more
        · cases more
        · exact (Nat.le_succ rows).trans (ih more)
    · cases counted
      exact le_rfl

theorem loop_inside {fuel total : Nat}
    (counted : Metrics.countLoop p n hasOwned fuel walk.off walk.rows.length = .ok total) :
    Within (loop p n hasOwned total nameCap fuel walk) (Inside n total nameCap)
      (fun after => after.rows.length = total) DataError := by
  induction fuel generalizing walk with
  | zero =>
    refine .pure ?_
    cases counted
    rfl
  | succ fuel ih =>
    rw [Metrics.countLoop] at counted
    rw [loop]
    dsimp only at counted
    split at counted
    · next fits =>
        rw [if_pos fits]
        refine (read_inside _ fits).bind fun nf same => ?_
        rw [← same] at counted
        split at counted
        · next stop =>
            rw [if_pos stop]
            refine .pure ?_
            cases counted
            rfl
        next more =>
        split at counted
        · cases counted
        · next fields =>
            obtain ⟨last, walked, rest⟩ := bind_ok counted
            split at rest
            · cases rest
            · next inside =>
                have below := rows_le_total rest
                rw [if_neg more, if_neg fields, if_neg (Nat.not_le.mpr below)]
                rw [not_not.mp fields, expectedFields_toNat] at walked
                have remaining : Remaining p n (ownedFields hasOwned + 8)
                    ({ walk with off := walk.off + 2 } : KernelWalk).off last :=
                  ⟨walked, Nat.not_lt.mp inside⟩
                refine (tuple_inside remaining below).bind fun after reached => ?_
                rw [← reached.1, ← reached.2] at rest
                exact ih rest
    · next done =>
        rw [if_neg done]
        refine .pure ?_
        cases counted
        rfl

end Lockstep

/-- The first pass reads only bytes of the stream; behind a count, so does the second, which writes
only rows below the count and names below the capacity. -/
theorem copy_passes_stay_inside (buf : Bytes) (past : Nat → UInt8) (hasOwned : Bool) :
    (∀ place ∈ (copyCountRowsC (memory buf past) buf.length hasOwned).touched,
      Inside buf.length 0 0 place) ∧
    ∀ nrows, (copyCountRowsC (memory buf past) buf.length hasOwned).result = .ok nrows →
      ∀ nameCap : Int,
        (∀ place ∈ (copyDecodeC (memory buf past) buf.length hasOwned nrows nameCap).touched,
          Inside buf.length nrows nameCap place) ∧
        Ends (copyDecodeC (memory buf past) buf.length hasOwned nrows nameCap).result
          (fun walk => walk.rows.length = nrows) DataError := by
  refine ⟨copyCountRowsC_inside.places, fun nrows counted nameCap => ?_⟩
  rw [copyCountRowsC_result, Metrics.copyCountRowsC] at counted
  split at counted
  · next good =>
      have within : Within (copyDecodeC (memory buf past) buf.length hasOwned nrows nameCap)
          (Inside buf.length nrows nameCap) (fun walk => walk.rows.length = nrows) DataError := by
        refine signatureOk_inside.bind fun right checked => ?_
        have signed : right = true := checked.1.trans good
        rw [if_pos signed]
        refine (headerEnd_inside (checked.2 signed)).bind fun off same => ?_
        rw [← same] at counted
        refine (loop_inside counted).bind fun walk all => ?_
        rw [if_neg (not_not.mpr all)]
        exact .pure all
      exact ⟨within.places, within.ends⟩
  · cases counted

/-- One tuple with a time and seven NULLs. -/
def oneTuple : Bytes :=
  copySignature ++ zeros 8 ++ [0, 8, 0, 0, 0, 8] ++ zeros 8 ++ List.replicate 28 255 ++ [255, 255]

theorem copy_passes_stay_inside_tuple :
    (copyCountRowsC (memory oneTuple fun _ => 7) oneTuple.length false).result = .ok 1 ∧
      ∀ place ∈ (copyDecodeC (memory oneTuple fun _ => 7) oneTuple.length false 1 4).touched,
        Inside oneTuple.length 1 4 place := by
  have counted : (copyCountRowsC (memory oneTuple fun _ => 7) oneTuple.length false).result =
      .ok 1 := by decide +kernel
  have inside := (copy_passes_stay_inside oneTuple (fun _ => 7) false).2 1 counted 4
  exact ⟨counted, inside.1⟩

end PerfStats.Metrics.Pointer
