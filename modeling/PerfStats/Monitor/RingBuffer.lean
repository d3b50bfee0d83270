import PerfStats.Lib.Circular
import PerfStats.Monitor.Scan

/-! The monitor's ring buffer of unsent payloads, on the heap of its queue nodes. -/

namespace PerfStats.Monitor

open Lib Lib.LinkHeap

abbrev Addr := Nat

structure SfRingBuffer (P : Type) where
  q : Option Addr
  qFirst : Option Addr
  status : Int
  qCount : Int
  dCount : Int
  rCount : Int
  heap : LinkHeap Addr P

def SfRingBuffer.empty {P : Type} : SfRingBuffer P := ⟨none, none, 0, 0, 0, 0, fun _ => none⟩

structure Broker where
  send : Nat → Int
  malloc : Nat → Nat → Bool
  clock : Nat → Int

abbrev Message (P : Type) := P × Bytes

variable {P : Type} (data : P → Option Bytes)

/-- The first character that is no blank is `$`. -/
def isSchemaPayload (sf : P) : Bool :=
  match data sf with
  | none => false
  | some text => (text.dropWhile isSpaceByte).head? = some 36

/-- The address that `calloc` returns for a node; none of the nodes in use has it. -/
def callocNode (heap : LinkHeap Addr P) (memory : Option Addr) : Option Addr :=
  memory.filter fun a => (heap a).isNone

section Insert

/-- The scan for the first node from `q_first` on whose payload is no schema. -/
def scanVictim (w : SfRingBuffer P) : Nat → Option Addr → Except Unit (Option Addr)
  | 0, _ => .ok none
  | _ + 1, none => .ok none
  | fuel + 1, some node => do
      let cell ← w.heap.read (some node)
      if isSchemaPayload data cell.val then
        if cell.forward = w.qFirst then return none
        scanVictim w fuel cell.forward
      else return some node

def ringBufferInsert (w : SfRingBuffer P) (sf : P) (maxBufferSize : Int)
    (allowOverwrite : Bool) (memory : Option Addr) :
    Except Unit (SfRingBuffer P × Int × Option P) :=
  if w.qCount = 0 then
    match callocNode w.heap memory with
    | none => .ok (w, -1, none)
    | some new => do
        let heap ← insque (Function.update w.heap new (some ⟨some new, some new, sf⟩))
          (some new) (some new)
        return ({ w with
          heap := heap, q := some new, qFirst := some new, qCount := w.qCount + 1 }, 0, none)
  else if maxBufferSize ≤ w.qCount ∧ maxBufferSize ≠ -1 then
    if allowOverwrite then do
      let latest ← w.heap.read w.q
      let found ← scanVictim data w w.qCount.toNat w.qFirst
      let victim := if found = none then latest.forward else found
      let cell ← w.heap.read victim
      if isSchemaPayload data cell.val then return (w, -1, none)
      let heap ← w.heap.modify (fun node => { node with val := sf }) victim
      return ({ w with
        heap := heap, q := victim, qFirst := cell.forward, dCount := w.dCount + 1 },
        0, some cell.val)
    else .ok (w, -1, none)
  else
    match callocNode w.heap memory with
    | none => .ok (w, -1, none)
    | some new => do
        let heap ← insque (Function.update w.heap new (some ⟨none, none, sf⟩)) (some new) w.q
        return ({ w with heap := heap, q := some new, qCount := w.qCount + 1 }, 0, none)

end Insert

section Resend

def ringBufferDropFirst (w : SfRingBuffer P) : Except Unit (SfRingBuffer P × Option P) :=
  match w.qFirst with
  | none => .ok (w, none)
  | some sf =>
    if w.qCount ≤ 0 then .ok (w, none)
    else do
      let cell ← w.heap.read (some sf)
      let heap ← remque w.heap (some sf)
      let heap ← heap.free (some sf)
      if w.qCount = 1 then
        return ({ w with heap := heap, q := none, qFirst := none, qCount := 0 }, some cell.val)
      return ({ w with
        heap := heap, qFirst := cell.forward, qCount := w.qCount - 1,
        q := if w.q = some sf then cell.backward else w.q }, some cell.val)

def dropTimes : Nat → SfRingBuffer P → Except Unit (SfRingBuffer P)
  | 0, w => .ok w
  | n + 1, w => do
      let (w, _) ← ringBufferDropFirst w
      dropTimes n w

/-- `stats_buffer_rmq_batch_can_add`. -/
def batchCanAdd (batchLen batchCount nextLen softMax : Nat) : Bool :=
  if batchCount = 0 then true
  else if softMax = 0 then true
  else if 2 ^ 64 - 1 - batchLen < nextLen then false
  else decide (batchLen + nextLen ≤ softMax)

/-- The loop that gathers a batch: its bytes and entries; `more` may still be added. -/
def batchFrom (w : SfRingBuffer P) (softMax : Nat) :
    Nat → Option Addr → Nat → Nat → Except Unit (Nat × Nat)
  | 0, _, len, count => .ok (len, count)
  | _ + 1, none, len, count => .ok (len, count)
  | more + 1, some node, len, count =>
    if w.qCount ≤ count then .ok (len, count)
    else do
      let cell ← w.heap.read (some node)
      match data cell.val with
      | none => return (len, count)
      | some text =>
        if isSchemaPayload data cell.val then return (len, count)
        if !batchCanAdd len count text.length softMax then return (len, count)
        if cell.forward = w.qFirst then return (len + text.length, count + 1)
        batchFrom w softMax more cell.forward (len + text.length) (count + 1)

def mergedFrom (heap : LinkHeap Addr P) : Nat → Option Addr → Except Unit Bytes
  | 0, _ => .ok []
  | n + 1, node => do
      let cell ← heap.read node
      match data cell.val with
      | none => .error ()
      | some text => do
          let rest ← mergedFrom heap n cell.forward
          return text ++ rest

def batchMessage (w : SfRingBuffer P) (head : P) (count : Nat) (granted : Bool) :
    Except Unit (Option (Message P)) :=
  if count = 1 then .ok (some (head, (data head).getD []))
  else if granted then do
    let text ← mergedFrom data w.heap count w.qFirst
    return some (head, text)
  else .ok none

def nextBatch (w : SfRingBuffer P) (softMax : Nat) (head : P) : Except Unit (Nat × Nat) :=
  if isSchemaPayload data head then .ok (0, 1) else batchFrom data w softMax 10 w.qFirst 1 0

/-- Sends the first `count` entries and takes them out: the message that was sent, or nothing
where the loop is left. -/
def sendBatch (w : SfRingBuffer P) (broker : Broker) (batches : Nat) (head : P)
    (len count : Nat) : Except Unit (SfRingBuffer P × Option (Message P)) := do
  if count = 0 then return (w, none)
  match ← batchMessage data w head count (broker.malloc batches len) with
  | none => return ({ w with status := -1 }, none)
  | some message =>
    if broker.send batches ≠ 0 then return ({ w with status := broker.send batches }, none)
    let w ← dropTimes count
      { w with status := broker.send batches, rCount := w.rCount + count }
    return (w, some message)

/-- One turn of the loop of `ring_buffer_resend_limited`, with its number of entries. -/
def resendTurn (w : SfRingBuffer P) (softMax : Nat) (broker : Broker) (batches : Nat) :
    Except Unit (SfRingBuffer P × Option (Message P) × Nat) :=
  if w.qFirst = none then .ok (w, none, 0)
  else do
    let head ← w.heap.read w.qFirst
    let (len, count) ← nextBatch data w softMax head.val
    let (w, message) ← sendBatch data w broker batches head.val len count
    return (w, message, count)

def outOfBudget (broker : Broker) (maxBatches maxRuntimeUs : Int) (batches : Nat) : Bool :=
  decide (0 < maxBatches ∧ maxBatches ≤ batches) ||
    decide (0 < maxRuntimeUs ∧ 0 < broker.clock 0 ∧ 0 < broker.clock batches ∧
      maxRuntimeUs ≤ broker.clock batches - broker.clock 0)

def resendFrom (softMax : Nat) (broker : Broker) (maxBatches maxRuntimeUs : Int) :
    Nat → SfRingBuffer P → Nat → Except Unit (SfRingBuffer P × List (Message P) × Nat)
  | 0, w, _ => if 0 < w.qCount then .error () else .ok (w, [], 0)
  | fuel + 1, w, batches =>
    if 0 < w.qCount then do
      match ← resendTurn data w softMax broker batches with
      | (w, none, _) => return (w, [], 0)
      | (w, some message, count) =>
        if outOfBudget broker maxBatches maxRuntimeUs (batches + 1) then
          return (w, [message], count)
        let (w, messages, processed) ←
          resendFrom softMax broker maxBatches maxRuntimeUs fuel w (batches + 1)
        return (w, message :: messages, count + processed)
    else .ok (w, [], 0)

/-- The messages sent, and `*processed_entries`. Each turn that goes
on takes an entry out. -/
def ringBufferResendLimited (w : SfRingBuffer P) (softMax : Nat) (broker : Broker)
    (maxBatches maxRuntimeUs : Int) : Except Unit (SfRingBuffer P × List (Message P) × Nat) :=
  resendFrom data softMax broker maxBatches maxRuntimeUs w.qCount.toNat w 0

end Resend

section Events

inductive RingEvent (P : Type) where
  | insert (sf : P) (allowOverwrite : Bool) (memory : Option Addr)
  | dropFirst
  | resend (softMax : Nat) (broker : Broker) (maxBatches maxRuntimeUs : Int)

/-- What an event gives: an insert's code and the payload it closed, the payload a drop
closed, or the messages a resend sent. -/
inductive RingOutput (P : Type) where
  | inserted (sf : P) (rc : Int) (closed : Option P)
  | dropped (closed : Option P)
  | sent (messages : List (Message P)) (processed : Nat)
  deriving DecidableEq

def ringStep (maxBufferSize : Int) (w : SfRingBuffer P) :
    RingEvent P → Except Unit (SfRingBuffer P × RingOutput P)
  | .insert sf allowOverwrite memory => do
      let (w, rc, closed) ← ringBufferInsert data w sf maxBufferSize allowOverwrite memory
      return (w, .inserted sf rc closed)
  | .dropFirst => do
      let (w, closed) ← ringBufferDropFirst w
      return (w, .dropped closed)
  | .resend softMax broker maxBatches maxRuntimeUs => do
      let (w, messages, processed) ←
        ringBufferResendLimited data w softMax broker maxBatches maxRuntimeUs
      return (w, .sent messages processed)

end Events

end PerfStats.Monitor
