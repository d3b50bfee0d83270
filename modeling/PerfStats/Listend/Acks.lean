import PerfStats.Lib.Runs

/-! The acks of the listener: consumer threads, archive workers and the I/O thread. Every read and
every write of a session field is a step. -/

namespace PerfStats.Listend

open Lib Function

abbrev Bytes := List UInt8

structure Link where
  connection : Nat
  channel : Nat
  deriving DecidableEq, Repr

/-- What a `bind` is for: the first one of a connection, the one after the queue is
declared, or `bind(None, None)`. -/
inductive Goal where
  | declare (link : Link)
  | consume (link : Link)
  | close
  deriving DecidableEq, Repr

def Goal.link : Goal → Option Link
  | .declare link => some link
  | .consume link => some link
  | .close => none

/-- The assignments of `bind`, in order. -/
inductive Write where
  | connection | channel | generation | reconnect
  deriving DecidableEq, Repr

/-- Where the thread of `_amqp_consumer_main` is. -/
inductive Place where
  | down
  | binding (next : Write) (goal : Goal)
  | declaring (link : Link)
  | consuming (link : Link)
  | closing
  deriving DecidableEq, Repr

def Goal.place : Goal → Place
  | .declare link => .declaring link
  | .consume link => .consuming link
  | .close => .closing

/-- `_AmqpConsumeSession` with its I/O thread. -/
structure Session where
  connection : Option Nat
  channel : Option Nat
  generation : Nat
  reconnectRequested : Bool
  place : Place
  deriving DecidableEq, Repr

def Session.initial : Session := ⟨none, none, 0, false, .down⟩

def Session.bind (s : Session) (goal : Goal) : Write → Session
  | .connection =>
    { s with connection := goal.link.map Link.connection, place := .binding .channel goal }
  | .channel => { s with channel := goal.link.map Link.channel, place := .binding .generation goal }
  | .generation => { s with generation := s.generation + 1, place := .binding .reconnect goal }
  | .reconnect => { s with reconnectRequested := false, place := goal.place }

def Session.request (s : Session) (wanted : Bool) : Session :=
  { s with reconnectRequested := s.reconnectRequested || wanted }

/-- The steps of an I/O thread; `leave` is any way out of the `try` block, with the flag
reset or not. -/
inductive Io where
  | connect
  | write
  | declared (reopened : Bool)
  | leave (cleared : Bool)
  | closed

def Session.io (s : Session) (fresh : Nat) : Io → Option Session
  | .connect =>
    match s.place with
    | .down => some { s with place := .binding .connection (.declare ⟨fresh, fresh + 1⟩) }
    | _ => none
  | .write =>
    match s.place with
    | .binding next goal => some (s.bind goal next)
    | _ => none
  | .declared reopened =>
    match s.place with
    | .declaring link =>
      let channel := if reopened then fresh else link.channel
      some { s with place := .binding .connection (.consume { link with channel }) }
    | _ => none
  | .leave cleared =>
    match s.place with
    | .binding _ _ | .closing => none
    | _ =>
      some { s with
        reconnectRequested := s.reconnectRequested && !cleared
        place := .binding .connection .close }
  | .closed =>
    match s.place with
    | .closing => some { s with reconnectRequested := false, place := .down }
    | _ => none

/-- A delivery: its session, the generation it was queued in, its link, and its tag there. -/
structure Delivery where
  session : Nat
  generation : Nat
  link : Link
  tag : Nat
  payload : Bytes
  deriving DecidableEq, Repr

inductive Stage where
  | queued
  | left
  | archived
  | sawConnection (connection : Option Nat)
  | sawChannel (connection channel : Option Nat)
  | sawGeneration (connection channel : Option Nat) (live : Nat)
  | scheduling (connection channel generation : Nat)
  | scheduled (connection channel generation : Nat)
  | acked (channel : Nat)
  deriving DecidableEq, Repr

inductive Snapshot where
  | skip
  | reconnect
  | usable (connection channel generation : Nat)
  deriving DecidableEq, Repr

/-- The decision of `_consume_amqp_for_threadsafe_op`; `unusable` is what
`_consume_connection_unusable` finds. -/
def consumeAmqpForThreadsafeOp (ackGeneration : Nat) (connection channel : Option Nat)
    (live : Nat) (reconnect unusable : Bool) : Snapshot :=
  if ackGeneration ≠ 0 ∧ live ≠ ackGeneration then .skip
  else
    match connection, channel with
    | some conn, some ch => if reconnect || unusable then .reconnect else .usable conn ch live
    | _, _ => .skip

def Session.callbackStale (s : Session) (connection generation : Nat) : Bool :=
  s.generation != generation || s.reconnectRequested || s.connection != some connection

/-- The steps of an archive worker and of its callback; `raised` says whether the exception declares
the channel dead. -/
inductive Work where
  | append (raised : Option Bool)
  | read
  | check (unusable : Bool)
  | schedule (raised : Option Bool)
  | callback (raised : Option Bool)

def Session.work (s : Session) (item : Delivery) : Stage → Work → Option (Stage × Bool)
  | .queued, .append none => some (.archived, false)
  | .queued, .append (some dead) => some (.left, dead)
  | .archived, .read => some (.sawConnection s.connection, false)
  | .sawConnection connection, .read => some (.sawChannel connection s.channel, false)
  | .sawChannel connection channel, .read =>
    some (.sawGeneration connection channel s.generation, false)
  | .sawGeneration connection channel live, .check unusable =>
    match consumeAmqpForThreadsafeOp item.generation connection channel live
        s.reconnectRequested unusable with
    | .skip => some (.left, false)
    | .reconnect => some (.left, true)
    | .usable conn ch generation => some (.scheduling conn ch generation, false)
  | .scheduling connection channel generation, .schedule none =>
    some (.scheduled connection channel generation, false)
  | .scheduling _ _ _, .schedule (some dead) => some (.left, dead)
  | .scheduled connection channel generation, .callback raised =>
    -- the I/O thread runs it, so it is not in the middle of a `bind`
    match s.place with
    | .binding _ _ => none
    | _ =>
      if s.callbackStale connection generation then some (.left, false)
      else some (.acked channel, raised == some true)
  | _, _ => none

/-- A call of `basic_ack`, whether it raises or not, and the generation its session is in. -/
structure Ack where
  session : Nat
  generation : Nat
  channel : Nat
  tag : Nat
  deriving DecidableEq, Repr

structure System where
  sessions : Nat → Session
  archivePoolStarted : Bool
  fresh : Nat
  nextTag : Nat → Nat
  deliveries : List Delivery
  stage : Nat → Stage
  /-- The payloads that an append has written, with the delivery they came in. -/
  archive : List (Nat × Bytes)
  acks : List Ack

def System.initial : System where
  sessions _ := .initial
  archivePoolStarted := false
  fresh := 0
  nextTag _ := 1
  deliveries := []
  stage _ := .queued
  archive := []
  acks := []

/-- How `on_message` ends for a message when the archive pool is not running. -/
inductive Sync where
  | appendRaises (dead : Bool)
  | acks (raised : Option Bool)

inductive Event where
  | io (session : Nat) (step : Io)
  | archivePool (started : Bool)
  /-- Any other thread may ask for a reconnect. -/
  | request (session : Nat)
  | paused (session : Nat)
  | message (session : Nat) (payload : Bytes) (sync : Sync)
  | work (delivery : Nat) (step : Work)

namespace System

def setSession (s : System) (k : Nat) (t : Session) : System :=
  { s with sessions := update s.sessions k t }

def takeTag (s : System) (channel : Nat) : System :=
  { s with nextTag := update s.nextTag channel (s.nextTag channel + 1) }

def receive (s : System) (item : Delivery) : System :=
  { s with
    deliveries := s.deliveries ++ [item]
    stage := update s.stage s.deliveries.length .queued }

def write (s : System) (index : Nat) (payload : Bytes) : System :=
  { s with archive := s.archive ++ [(index, payload)] }

def basicAck (s : System) (item : Delivery) (channel : Nat) : System :=
  { s with
    acks := s.acks ++
      [⟨item.session, (s.sessions item.session).generation, channel, item.tag⟩] }

def enter (s : System) (index : Nat) (item : Delivery) (stage : Stage) : System :=
  let t := { s with stage := update s.stage index stage }
  match stage with
  | .archived => t.write index item.payload
  | .acked channel => t.basicAck item channel
  | _ => t

/-- A message is queued for an archive worker, or without a pool archived and
acked in place. -/
def onMessage (s : System) (k : Nat) (link : Link) (payload : Bytes) (sync : Sync) : System :=
  let session := s.sessions k
  let item : Delivery := ⟨k, session.generation, link, s.nextTag link.channel, payload⟩
  let index := s.deliveries.length
  let t := (s.takeTag link.channel).receive item
  if s.archivePoolStarted then t
  else
    match sync with
    | .appendRaises dead => (t.enter index item .left).setSession k (session.request dead)
    | .acks raised =>
      ((t.enter index item .archived).enter index item (.acked link.channel)).setSession k
        (session.request (raised == some true))

def step (s : System) : Event → Option System
  | .io k move =>
    ((s.sessions k).io s.fresh move).map fun t =>
      { s.setSession k t with fresh := s.fresh + 2 }
  | .archivePool started => some { s with archivePoolStarted := started }
  | .request k => some (s.setSession k ((s.sessions k).request true))
  | .paused k =>
    match (s.sessions k).place with
    | .consuming link => some (s.takeTag link.channel)
    | _ => none
  | .message k payload sync =>
    match (s.sessions k).place with
    | .consuming link => some (s.onMessage k link payload sync)
    | _ => none
  | .work index move =>
    match s.deliveries[index]? with
    | none => none
    | some item =>
      ((s.sessions item.session).work item (s.stage index) move).map fun (stage, wanted) =>
        (s.enter index item stage).setSession item.session
          ((s.sessions item.session).request wanted)

def Step (s : System) (event : Event) (t : System) : Prop := s.step event = some t

def steps (s : System) : List Event → Option System
  | [] => some s
  | event :: rest => (s.step event).bind fun t => t.steps rest

theorem run_of_steps {s t : System} {events : List Event} (done : s.steps events = some t) :
    Run Step s events t := by
  induction events generalizing s with
  | nil =>
    cases done
    exact .start
  | cons event rest ih =>
    rcases Option.bind_eq_some_iff.mp done with ⟨u, taken, rest⟩
    exact (ih rest).head taken

end System

section Session

variable {s t : Session} {fresh : Nat} {move : Io}

def Bound (s : Session) : Prop :=
  match s.place with
  | .binding .channel (.consume link) => s.connection = some link.connection
  | .binding .generation (.consume link) =>
    s.connection = some link.connection ∧ s.channel = some link.channel
  | .binding .reconnect (.consume link) | .consuming link =>
    s.connection = some link.connection ∧ s.channel = some link.channel ∧ 0 < s.generation
  | _ => True

theorem Bound.consuming {s : Session} {link : Link} (bound : Bound s)
    (place : s.place = .consuming link) :
    s.connection = some link.connection ∧ s.channel = some link.channel ∧ 0 < s.generation := by
  simpa only [Bound, place] using bound

theorem Bound.request {s : Session} (bound : Bound s) (wanted : Bool) :
    Bound (s.request wanted) := bound

theorem io_frame (taken : s.io fresh move = some t) :
    (Bound s → Bound t) ∧ s.generation ≤ t.generation := by
  rcases s with ⟨connection, channel, generation, reconnect, place⟩
  cases move with
  | connect | declared | leave | closed =>
    cases place <;> simp only [Session.io, reduceCtorEq, Option.some.injEq] at taken <;>
      subst taken <;> exact ⟨fun _ => trivial, le_rfl⟩
  | write =>
    cases place with
    | binding next goal =>
      simp only [Session.io, Option.some.injEq] at taken
      subst taken
      constructor
      · intro bound
        cases next <;> cases goal <;>
          simp_all [Bound, Session.bind, Goal.link, Goal.place]
      · cases next <;> simp [Session.bind]
    | _ => simp [Session.io] at taken

/-- Between the second `bind` of a link and the one that drops it no other link is bound. -/
def Place.settled : Place → Bool
  | .consuming _ => true
  | .binding .connection .close | .binding .channel .close | .binding .generation .close => true
  | _ => false

def NoneOr (value : Option Nat) (own : Nat) : Prop := value = none ∨ value = some own

structure Held (s : Session) (link : Link) : Prop where
  connection : NoneOr s.connection link.connection
  channel : NoneOr s.channel link.channel
  settled : s.place.settled = true

theorem Held.io {link : Link} (held : Held s link)
    (taken : s.io fresh move = some t) (same : t.generation = s.generation) : Held t link := by
  rcases held with ⟨connection, channel, settled⟩
  rcases s with ⟨conn, ch, generation, reconnect, place⟩
  cases place with
  | consuming bound =>
    cases move <;> simp only [Session.io, reduceCtorEq, Option.some.injEq] at taken
    subst taken
    exact ⟨connection, channel, rfl⟩
  | binding next goal =>
    cases move <;> simp only [Session.io, reduceCtorEq, Option.some.injEq] at taken
    subst taken
    cases goal <;> simp only [Place.settled, Bool.false_eq_true] at settled
    cases next with
    | connection => exact ⟨.inl rfl, channel, rfl⟩
    | channel => exact ⟨connection, .inl rfl, rfl⟩
    | generation => simp [Session.bind] at same
    | reconnect => simp at settled
  | down | declaring | closing => simp [Place.settled] at settled

end Session

section Worker

variable {move : Work}

def Stage.Own (item : Delivery) (live : Nat) : Stage → Prop
  | .sawConnection connection => item.generation = live → NoneOr connection item.link.connection
  | .sawChannel connection channel =>
    item.generation = live →
      NoneOr connection item.link.connection ∧ NoneOr channel item.link.channel
  | .sawGeneration connection channel generation =>
    item.generation = generation →
      NoneOr connection item.link.connection ∧ NoneOr channel item.link.channel
  | .scheduling connection channel generation | .scheduled connection channel generation =>
    connection = item.link.connection ∧ channel = item.link.channel ∧
      generation = item.generation
  | .acked channel => channel = item.link.channel
  | _ => True

theorem Stage.Own.later {item : Delivery} {live next : Nat} {stage : Stage}
    (own : stage.Own item live) (reached : item.generation ≤ live) (later : live ≤ next) :
    stage.Own item next := by
  cases stage with
  | sawConnection connection => exact fun same => own (by omega)
  | sawChannel connection channel => exact fun same => own (by omega)
  | _ => exact own

structure Fits (s : Session) (item : Delivery) (stage : Stage) : Prop where
  reached : item.generation ≤ s.generation
  positive : 0 < item.generation
  held : item.generation = s.generation → Held s item.link
  own : stage.Own item s.generation

variable {s t : Session} {item : Delivery} {stage next : Stage} {wanted : Bool}

theorem Fits.io {fresh : Nat} {move : Io} (fits : Fits s item stage)
    (taken : s.io fresh move = some t) : Fits t item stage := by
  have later := (io_frame taken).2
  have reached := fits.reached
  refine ⟨by omega, fits.positive, fun same => ?_, fits.own.later reached later⟩
  exact (fits.held (by omega)).io taken (by omega)

theorem Fits.request (fits : Fits s item stage) (wanted : Bool) :
    Fits (s.request wanted) item stage :=
  ⟨fits.reached, fits.positive, fun same => ⟨(fits.held same).1, (fits.held same).2,
    (fits.held same).3⟩, fits.own⟩

theorem usable_own {connection channel : Option Nat} {live conn ch generation : Nat}
    {reconnect unusable : Bool} (positive : 0 < item.generation)
    (own : (Stage.sawGeneration connection channel live).Own item s.generation)
    (usable : consumeAmqpForThreadsafeOp item.generation connection channel live reconnect
      unusable = .usable conn ch generation) :
    conn = item.link.connection ∧ ch = item.link.channel ∧ generation = item.generation := by
  unfold consumeAmqpForThreadsafeOp at usable
  split at usable
  · cases usable
  next current =>
    have same : item.generation = live := by omega
    rcases own same with ⟨ownConnection, ownChannel⟩
    cases connection <;> cases channel <;> simp only [reduceCtorEq] at usable
    next c h =>
      split at usable
      · cases usable
      · cases usable
        simp only [NoneOr, reduceCtorEq, Option.some.injEq, false_or] at ownConnection ownChannel
        exact ⟨ownConnection, ownChannel, same.symm⟩

theorem Fits.work (fits : Fits s item stage)
    (taken : s.work item stage move = some (next, wanted)) : Fits s item next := by
  refine ⟨fits.reached, fits.positive, fits.held, ?_⟩
  have own := fits.own
  unfold Session.work at taken
  split at taken
  -- the append
  · cases taken
    trivial
  · cases taken
    trivial
  -- the three reads
  · cases taken
    exact fun same => (fits.held same).connection
  · cases taken
    exact fun same => ⟨own same, (fits.held same).channel⟩
  · cases taken
    exact own
  · split at taken
    · cases taken
      trivial
    · cases taken
      trivial
    next usable =>
      cases taken
      exact usable_own fits.positive own usable
  · cases taken
    exact own
  · cases taken
    trivial
  -- the callback
  · split at taken
    · cases taken
    split at taken
    · cases taken
      trivial
    cases taken
    exact own.2.1
  · cases taken

theorem work_acked {channel : Nat}
    (taken : s.work item stage move = some (.acked channel, wanted)) :
    ∃ connection, stage = .scheduled connection channel s.generation := by
  cases stage with
  | scheduled connection ch generation =>
    cases move with
    | callback raised =>
      simp only [Session.work] at taken
      split at taken
      · cases taken
      split at taken
      · cases taken
      next fresh =>
        simp only [Session.callbackStale, Bool.or_eq_true, bne_iff_ne, not_or,
          Decidable.not_not] at fresh
        cases taken
        rw [fresh.1.1]
        exact ⟨connection, rfl⟩
    | _ => cases taken
  | sawGeneration =>
    cases move with
    | check unusable =>
      simp only [Session.work] at taken
      split at taken <;> cases taken
    | _ => cases taken
  | scheduling => cases move with
      | schedule raised => cases raised <;> cases taken
      | _ => cases taken
  | queued => cases move with
      | append raised => cases raised <;> cases taken
      | _ => cases taken
  | _ => cases move <;> cases taken

def Stage.written : Stage → Bool
  | .queued | .left => false
  | _ => true

theorem work_written (taken : s.work item stage move = some (next, wanted))
    (written : next.written = true) : stage.written = true ∨ next = .archived := by
  cases stage with
  | queued =>
    cases move with
    | append raised =>
      cases raised with
      | none =>
        cases taken
        exact .inr rfl
      | some dead =>
        cases taken
        cases written
    | _ => cases taken
  | left => cases move <;> cases taken
  | _ => exact .inl rfl

end Worker

section Safety

def Delivery.key (item : Delivery) : Nat × Nat := (item.link.channel, item.tag)

def Ack.key (ack : Ack) : Nat × Nat := (ack.channel, ack.tag)

/-- The ack of a delivery: its tag, its channel, its session in the generation it came in. -/
def Delivery.ack (item : Delivery) : Ack :=
  ⟨item.session, item.generation, item.link.channel, item.tag⟩

structure AcksSafe (s : System) : Prop where
  archived : ∀ ack ∈ s.acks, ∃ i item, s.deliveries[i]? = some item ∧ ack = item.ack ∧
    (i, item.payload) ∈ s.archive
  distinct : (s.deliveries.map Delivery.key).Nodup
  once : (s.acks.map Ack.key).Nodup

structure Sound (s : System) : Prop where
  bound : ∀ k, Bound (s.sessions k)
  fits : ∀ i item, s.deliveries[i]? = some item →
    Fits (s.sessions item.session) item (s.stage i)
  tags : ∀ item ∈ s.deliveries, item.tag < s.nextTag item.link.channel
  distinct : (s.deliveries.map Delivery.key).Nodup
  written : ∀ i item, s.deliveries[i]? = some item → (s.stage i).written = true →
    (i, item.payload) ∈ s.archive
  acked : ∀ ack ∈ s.acks, ∃ i item, s.deliveries[i]? = some item ∧ ack = item.ack ∧
    s.stage i = .acked item.link.channel
  once : (s.acks.map Ack.key).Nodup

theorem Sound.safe {s : System} (sound : Sound s) : AcksSafe s := by
  refine ⟨fun ack member => ?_, sound.distinct, sound.once⟩
  rcases sound.acked ack member with ⟨i, item, present, same, stage⟩
  exact ⟨i, item, present, same, sound.written i item present (by rw [stage]; rfl)⟩

theorem Sound.initial : Sound System.initial where
  bound _ := trivial
  fits _ _ present := by simp [System.initial] at present
  tags _ member := by simp [System.initial] at member
  distinct := List.nodup_nil
  written _ _ present := by simp [System.initial] at present
  acked _ member := by simp [System.initial] at member
  once := List.nodup_nil

variable {s : System}

theorem Sound.setSession (sound : Sound s) {k : Nat} {t : Session} (bound : Bound t)
    (kept : ∀ item stage, Fits (s.sessions k) item stage → Fits t item stage) :
    Sound (s.setSession k t) where
  bound j := by
    by_cases same : j = k
    · subst same
      simpa [System.setSession] using bound
    · simpa [System.setSession, same] using sound.bound j
  fits i item present := by
    have fits := sound.fits i item present
    by_cases same : item.session = k
    · rw [same] at fits
      simpa [System.setSession, same] using kept item _ fits
    · simpa [System.setSession, same] using fits
  tags := sound.tags
  distinct := sound.distinct
  written := sound.written
  acked := sound.acked
  once := sound.once

theorem Sound.request (sound : Sound s) (k : Nat) (wanted : Bool) :
    Sound (s.setSession k ((s.sessions k).request wanted)) :=
  sound.setSession ((sound.bound k).request wanted) fun _ _ fits => fits.request wanted

theorem Sound.takeTag (sound : Sound s) (channel : Nat) : Sound (s.takeTag channel) where
  bound := sound.bound
  fits := sound.fits
  tags item member := by
    have below := sound.tags item member
    by_cases same : item.link.channel = channel
    · simp only [System.takeTag, same, update_self]
      rw [same] at below
      omega
    · simpa [System.takeTag, same] using below
  distinct := sound.distinct
  written := sound.written
  acked := sound.acked
  once := sound.once

theorem receive_deliveries {item other : Delivery} {channel i : Nat}
    (present : ((s.takeTag channel).receive item).deliveries[i]? = some other) :
    i < s.deliveries.length ∧ s.deliveries[i]? = some other ∨
      i = s.deliveries.length ∧ other = item := by
  simp only [System.receive, System.takeTag] at present
  grind

theorem Sound.receive (sound : Sound s) {item : Delivery}
    (fits : Fits (s.sessions item.session) item .queued)
    (tag : item.tag = s.nextTag item.link.channel) :
    Sound ((s.takeTag item.link.channel).receive item) where
  bound := sound.bound
  fits i other present := by
    rcases receive_deliveries present with ⟨before, old⟩ | ⟨rfl, rfl⟩
    · simpa [System.receive, System.takeTag, Nat.ne_of_lt before] using sound.fits i other old
    · simpa [System.receive, System.takeTag] using fits
  tags other member := by
    rcases List.mem_append.mp member with old | new
    · exact (sound.takeTag _).tags other old
    · cases List.mem_singleton.mp new
      simp [System.receive, System.takeTag, tag]
  distinct := by
    have fresh : ∀ other ∈ s.deliveries, other.key ≠ item.key := by
      intro other member same
      have below := sound.tags other member
      rcases Prod.mk.inj same with ⟨channel, sameTag⟩
      rw [channel, sameTag, tag] at below
      exact Nat.lt_irrefl _ below
    simp only [System.receive, System.takeTag, List.map_append, List.map_cons, List.map_nil]
    refine sound.distinct.append (List.nodup_singleton _) fun key old new => ?_
    rcases List.mem_map.mp old with ⟨other, member, rfl⟩
    exact fresh other member (List.mem_singleton.mp new)
  written i other present written := by
    rcases receive_deliveries present with ⟨before, old⟩ | ⟨rfl, -⟩
    · exact sound.written i other old
        (by simpa [System.receive, System.takeTag, Nat.ne_of_lt before] using written)
    · simp [System.receive, Stage.written, System.takeTag] at written
  acked ack member := by
    rcases sound.acked ack member with ⟨i, other, present, same, stage⟩
    have before : i < s.deliveries.length := (List.getElem?_eq_some_iff.mp present).choose
    refine ⟨i, other, ?_, same, ?_⟩
    · simpa [System.receive, System.takeTag, List.getElem?_append_left before] using present
    · simpa [System.receive, System.takeTag, Nat.ne_of_lt before] using stage
  once := sound.once

section Enter

variable {i : Nat} {item : Delivery} {next : Stage}

@[simp] theorem enter_sessions : (s.enter i item next).sessions = s.sessions := by
  cases next <;> rfl

@[simp] theorem enter_deliveries : (s.enter i item next).deliveries = s.deliveries := by
  cases next <;> rfl

@[simp] theorem enter_nextTag : (s.enter i item next).nextTag = s.nextTag := by
  cases next <;> rfl

@[simp] theorem enter_stage :
    (s.enter i item next).stage = update s.stage i next := by
  cases next <;> rfl

theorem archive_enter {entry : Nat × Bytes} (member : entry ∈ s.archive) :
    entry ∈ (s.enter i item next).archive := by
  cases next with
  | archived => exact List.mem_append_left _ member
  | _ => exact member

theorem Sound.enter (sound : Sound s) (present : s.deliveries[i]? = some item)
    (own : next.Own item (s.sessions item.session).generation)
    (written : next.written = true → (s.stage i).written = true ∨ next = .archived)
    (current : ∀ channel, next = .acked channel →
      (s.sessions item.session).generation = item.generation)
    (unacked : ∀ channel, s.stage i ≠ .acked channel) : Sound (s.enter i item next) where
  bound := by simpa using sound.bound
  fits j other there := by
    rw [enter_deliveries] at there
    have fits := sound.fits j other there
    by_cases same : j = i
    · subst same
      cases present.symm.trans there
      simpa using Fits.mk fits.reached fits.positive fits.held own
    · simpa [same] using fits
  tags := by simpa using sound.tags
  distinct := by simpa using sound.distinct
  written j other there reached := by
    rw [enter_deliveries] at there
    by_cases same : j = i
    · subst same
      cases present.symm.trans there
      rw [enter_stage, update_self] at reached
      rcases written reached with already | now
      · exact archive_enter (sound.written j item present already)
      · subst now
        exact List.mem_append_right _ (List.mem_singleton_self _)
    · rw [enter_stage, update_of_ne same] at reached
      exact archive_enter (sound.written j other there reached)
  acked ack member := by
    have old : ack ∈ s.acks → ∃ j other, (s.enter i item next).deliveries[j]? = some other ∧
        ack = other.ack ∧ (s.enter i item next).stage j = .acked other.link.channel := by
      intro member
      rcases sound.acked ack member with ⟨j, other, there, same, stage⟩
      have elsewhere : j ≠ i := by
        rintro rfl
        exact unacked _ stage
      exact ⟨j, other, by simpa using there, same, by simpa [elsewhere] using stage⟩
    cases next with
    | acked channel =>
      rcases List.mem_append.mp member with before | now
      · exact old before
      · have channel : channel = item.link.channel := own
        refine ⟨i, item, by simpa using present, ?_, by simp [channel]⟩
        simpa [Delivery.ack, current _ rfl, channel] using now
    | _ => exact old member
  once := by
    cases next with
    | acked channel =>
      subst channel
      have fresh : item.key ∉ s.acks.map Ack.key := by
        intro member
        rcases List.mem_map.mp member with ⟨ack, member, same⟩
        rcases sound.acked ack member with ⟨j, other, there, rfl, stage⟩
        have sameKey : (s.deliveries.map Delivery.key)[i]? =
            (s.deliveries.map Delivery.key)[j]? := by
          have same : other.key = item.key := same
          simp [present, there, same]
        have bound : i < (s.deliveries.map Delivery.key).length := by
          simpa using (List.getElem?_eq_some_iff.mp present).choose
        cases (List.getElem?_inj bound sound.distinct).mp sameKey
        exact unacked _ stage
      simp only [System.enter, System.basicAck, List.map_append, List.map_cons, List.map_nil]
      refine sound.once.append (List.nodup_singleton _) fun key old new => ?_
      cases List.mem_singleton.mp new
      exact fresh old
    | _ => exact sound.once

end Enter

theorem Sound.onMessage (sound : Sound s) {k : Nat} {link : Link}
    (place : (s.sessions k).place = .consuming link) (payload : Bytes) (sync : Sync) :
    Sound (s.onMessage k link payload sync) := by
  rcases (sound.bound k).consuming place with ⟨connection, channel, positive⟩
  let item : Delivery := ⟨k, (s.sessions k).generation, link, s.nextTag link.channel, payload⟩
  let i := s.deliveries.length
  let t := (s.takeTag link.channel).receive item
  have fits : Fits (s.sessions item.session) item .queued :=
    ⟨le_rfl, positive,
      fun _ => ⟨.inr connection, .inr channel, by rw [place]; rfl⟩, trivial⟩
  have received : Sound t := sound.receive fits rfl
  have present : t.deliveries[i]? = some item := by simp [t, i, System.receive, System.takeTag]
  have queued : t.stage i = .queued := by simp [t, i, System.receive, System.takeTag]
  have archived : Sound (t.enter i item .archived) :=
    received.enter present trivial (fun _ => .inr rfl) nofun
      fun _ acked => by simp [queued] at acked
  have stage : (t.enter i item .archived).stage i = .archived := by simp
  simp only [System.onMessage]
  split
  · exact received
  cases sync with
  | appendRaises dead =>
    have left : Sound (t.enter i item .left) :=
      received.enter present trivial nofun
        nofun fun _ acked => by simp [queued] at acked
    exact left.request k dead
  | acks raised =>
    have acked : Sound ((t.enter i item .archived).enter i item (.acked link.channel)) :=
      archived.enter (by simpa using present) rfl (fun _ => .inl (by rw [stage]; rfl))
        (fun _ _ => by simp [item, t, System.receive, System.takeTag])
        fun _ acked => by cases stage.symm.trans acked
    exact acked.request k (raised == some true)

theorem Sound.work (sound : Sound s) {i : Nat} {item : Delivery} {move : Work} {next : Stage}
    {wanted : Bool} (present : s.deliveries[i]? = some item)
    (taken : (s.sessions item.session).work item (s.stage i) move = some (next, wanted)) :
    Sound (s.enter i item next) := by
  have fits := sound.fits i item present
  apply sound.enter present (fits.work taken).own (work_written taken)
  · rintro channel rfl
    rcases work_acked taken with ⟨connection, stage⟩
    have own := fits.own
    rw [stage] at own
    exact own.2.2
  · intro channel stage
    rw [stage] at taken
    cases move <;> cases taken

theorem Sound.step (sound : Sound s) {event : Event} {t : System}
    (taken : s.step event = some t) : Sound t := by
  cases event with
  | io k move =>
    rcases Option.map_eq_some_iff.mp taken with ⟨session, moved, rfl⟩
    have kept : Sound (s.setSession k session) :=
      sound.setSession ((io_frame moved).1 (sound.bound k)) fun _ _ fits => fits.io moved
    exact ⟨kept.1, kept.2, kept.3, kept.4, kept.5, kept.6, kept.7⟩
  | archivePool started =>
    cases taken
    exact ⟨sound.1, sound.2, sound.3, sound.4, sound.5, sound.6, sound.7⟩
  | request k =>
    cases taken
    exact sound.request k true
  | paused k =>
    simp only [System.step] at taken
    split at taken
    · cases taken
      exact sound.takeTag _
    · cases taken
  | message k payload sync =>
    simp only [System.step] at taken
    split at taken
    next link place =>
      cases taken
      exact sound.onMessage place payload sync
    · cases taken
  | work i move =>
    simp only [System.step] at taken
    split at taken
    · cases taken
    next item present =>
      rcases Option.map_eq_some_iff.mp taken with ⟨⟨next, wanted⟩, moved, rfl⟩
      simpa using (sound.work present moved).request item.session wanted

/-- A tag is acked at most once, on the channel and in the session generation that delivered it, and
after its payload was appended. -/
theorem acks_safe {log : List Event} (run : Run System.Step .initial log s) : AcksSafe s :=
  (run.invariant Sound.initial fun _ _ _ sound taken => sound.step taken).safe

end Safety

section Reconnect

def bindAll (k : Nat) : List Event := List.replicate 4 (.io k .write)

def comeUp (k : Nat) (reopened : Bool) : List Event :=
  [.io k .connect] ++ bindAll k ++ [.io k (.declared reopened)] ++ bindAll k

def archiveAndSchedule (i : Nat) : List Event :=
  [.work i (.append none), .work i .read, .work i .read, .work i .read, .work i (.check false),
    .work i (.schedule none)]

/-- One ack runs before the connection is lost; the callback of the second message, whose tag the
new channel uses again, behind the reconnect. -/
def lostConnection : List Event :=
  [.archivePool true] ++ comeUp 0 false ++
    [.message 0 [36] (.acks none), .message 0 [49] (.acks none)] ++
    archiveAndSchedule 0 ++ [.work 0 (.callback none)] ++ archiveAndSchedule 1 ++
    [.io 0 (.leave false)] ++ bindAll 0 ++ [.io 0 .closed] ++ comeUp 0 true ++
    [.message 0 [49] (.acks none), .work 1 (.callback none)] ++ archiveAndSchedule 2 ++
    [.work 2 (.callback none)]

theorem lostConnection_runs : (System.initial.steps lostConnection).isSome = true := by
  decide +kernel

theorem acks_safe_lostConnection :
    (System.initial.steps lostConnection).map (fun s => (s.acks, s.stage 1)) =
        some ([⟨0, 2, 1, 1⟩, ⟨0, 5, 42, 1⟩], .left) ∧
      ∃ s, System.initial.steps lostConnection = some s ∧ AcksSafe s :=
  ⟨by decide +kernel, _, (Option.some_get lostConnection_runs).symm,
    acks_safe (System.run_of_steps (Option.some_get lostConnection_runs).symm)⟩

end Reconnect

end PerfStats.Listend
