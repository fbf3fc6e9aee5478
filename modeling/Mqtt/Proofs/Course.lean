import Mqtt.Client.Lifecycle
import Mqtt.Proofs.Traffic

/-!
# The course of a request to connect

A request to connect goes on in steps: the transport opens or not, the reader hands over one packet,
the writer does one thing, the clock is looked at, a call is made on the session, the end is asked
for. Any step may come next that the phase leaves room for. What each can do is told once here, by
the phase it meets.
-/
namespace Mqtt

/-- Since when the broker's answer to CONNECT is waited for. -/
def Handshake.sentAt? (h : Handshake) : Option Time :=
  match h.state with
  | .awaiting sentAt => some sentAt
  | .idle | .accepted _ | .failed => none

/-- The rule that a packet of the broker breaks by coming when it does. -/
def Session.violation? (s : Session) (p : Packet) : Option Violation :=
  match p.body with
  | .connack _ _ => if s.handshake.sentAt?.isSome then none else some .unexpectedConnack
  | _ => if s.isAccepted then none else some (.beforeConnack (Packet.label p))

theorem Session.route_connack (s : Session) (isOpen : Bool) (header : FixedHeader)
    (sessionPresent : Bool) (code : ConnectCode) (now : Time) :
    s.route isOpen ⟨header, .connack sessionPresent code⟩ now =
      ((s.handshake.connack sessionPresent code).inside fun h => { s with handshake := h }).andThen
        fun s _ => .emit s (.ofEvent (.connected sessionPresent)) := rfl

/-! ## Connections -/

namespace Connection

/-- What can happen on a connection, the clock apart. -/
inductive Act
  /-- The session is handed what the reader decoded. -/
  | handle (item : StreamItem)
  /-- The reader takes bytes in or a packet off. -/
  | decode (reader : Stream)
  | readEnd
  | readFault (fault : TransportFault)
  | takePacket
  | handOver (n : Nat)
  | writeFault (fault : TransportFault)
  | call (k : Session.Call)

/-- Who waits for the end of what is begun. -/
def Act.waiter? : Act → Option Waiter
  | call k => k.waiter?
  | handle _ | decode _ | readEnd | readFault _ | takePacket | handOver _ | writeFault _ => none

def act (c : Connection) (now : Time) : Act → Connection × Output
  | .handle item => c.handle item now
  | .decode reader => ({ c with reader := reader }, {})
  | .readEnd => (c.readEnd, {})
  | .readFault fault => (c.readFault fault, {})
  | .takePacket => (c.takePacket?.getD c, {})
  | .handOver n => ((c.handOver n).1, {})
  | .writeFault fault => (c.writeFault fault, {})
  | .call k =>
    if c.session.isAccepted then
      let a := c.session.call c.isOpen now k
      (c.after a, a.output)
    else (c, {})

/-- A look at the clock that goes through the tables in given orders. -/
def tickInOrder (c : Connection) (now : Time) (orders : Session.Orders) :
    Step Connection DisconnectReason Unit :=
  let a := c.session.tickInOrder c.isOpen now orders
  ⟨c.after a, a.output, a.result⟩

def withHandshake (c : Connection) (h : Handshake) : Connection :=
  { c with session := { c.session with handshake := h } }

/-- A connection that has its CONNECT in the queue and nothing else done. -/
def fresh (o : Options) (waiter : Option Waiter) (now : Time) : Connection where
  session := { Session.new o now with handshake := ⟨o.connackTimeout, .awaiting now, waiter⟩ }
  queue := Queue.empty.push o.connectPacket.toPacket
  writer := .new
  reader := .empty
  reading := true
  reasons := []

theorem start_eq (o : Options) (waiter : Option Waiter) (now : Time) :
    Connection.start o waiter now = (fresh o waiter now, .ofPackets [o.connectPacket.toPacket]) := by
  simp only [Connection.start, Session.start, Session.noteSent, Session.new, Handshake.new,
    Handshake.start, Connection.isOpen, Writer.new, Writer.isStopped]
  simp [Step.emit, Step.inside, Output.ofPackets, Connection.after, Queue.pushAll, fresh,
    Session.new, Writer.new]

/-- What an act comes to, when `callers` wait for the exchanges. -/
inductive Effect (callers : Waiter → Prop) (c : Connection) : Act → Connection → Output → Prop
  | accepts {header : FixedHeader} {sessionPresent : Bool} {code : ConnectCode} {sentAt : Time}
      (waits : c.session.handshake.state = .awaiting sentAt) (accepted : code.isAccepted = true) :
      Effect callers c (.handle (.packet ⟨header, .connack sessionPresent code⟩))
        (c.withHandshake ⟨c.session.handshake.timeout, .accepted sessionPresent, none⟩)
        (c.session.handshake.answer (.ok (.connected sessionPresent)) ++
          .ofEvent (.connected sessionPresent))
  | refuses {header : FixedHeader} {sessionPresent : Bool} {code : ConnectCode} {sentAt : Time}
      (waits : c.session.handshake.state = .awaiting sentAt) (refused : code.isAccepted = false) :
      Effect callers c (.handle (.packet ⟨header, .connack sessionPresent code⟩))
        ((c.withHandshake ⟨c.session.handshake.timeout, .failed, none⟩).endReading
          (.connectionRefused code))
        (c.session.handshake.answer (.error (.connectionRefused code)))
  | violates {p : Packet} {v : Violation} (h : c.session.violation? p = some v) :
      Effect callers c (.handle (.packet p)) (c.endReading (.protocolViolation v)) {}
  | serves {a : Act} {c' : Connection} {output : Output} (accepted : c.session.isAccepted = true)
      (h : c.session.Serves (·.isConnect = false) callers c'.session output) :
      Effect callers c a c' output
  | rests {a : Act} {c' : Connection} (other : ∀ p, a ≠ .handle (.packet p))
      (session : c'.session = c.session) : Effect callers c a c' {}

/-- What a look at the clock comes to. -/
inductive Looks (callers : Waiter → Prop) (c : Connection) (now : Time) :
    Step Connection DisconnectReason Unit → Prop
  | rests (waits : ∀ sentAt, c.session.handshake.sentAt? = some sentAt →
        now - sentAt ≤ c.session.handshake.timeout) : Looks callers c now (.done c)
  | late {sentAt : Time} (waits : c.session.handshake.state = .awaiting sentAt)
      (late : c.session.handshake.timeout < now - sentAt) :
      Looks callers c now ⟨c.withHandshake ⟨c.session.handshake.timeout, .failed, none⟩,
        c.session.handshake.answer (.error (.connackTimeout c.session.handshake.timeout)),
        .error .connackTimeout⟩
  | serves {r : Step Connection DisconnectReason Unit} (accepted : c.session.isAccepted = true)
      (h : c.session.Serves (·.isConnect = false) callers r.state.session r.output)
      (reasons : r.state.reasons = c.reasons) (reading : r.state.reading = c.reading) : Looks callers c now r

section Effect
variable {callers : Waiter → Prop} {c : Connection} {now : Time} {a : Act} {p : Packet}

theorem isAccepted_of_awaiting {s : Session} {sentAt : Time}
    (h : s.handshake.state = .awaiting sentAt) : s.isAccepted = false := by
  rw [Session.isAccepted, Handshake.isAccepted, h]

theorem sentAt?_eq_some {h : Handshake} {sentAt : Time} :
    h.sentAt? = some sentAt ↔ h.state = .awaiting sentAt := by
  cases hs : h.state <;> simp [Handshake.sentAt?, hs]

theorem route_of_violation {s : Session} {v : Violation} (h : s.violation? p = some v)
    (isOpen : Bool) (now : Time) : s.route isOpen p now = .fail s (.protocolViolation v) := by
  obtain ⟨header, body⟩ := p
  cases body with
  | connack sessionPresent code =>
    rw [Session.violation?, ite_eq_iff] at h
    obtain ⟨-, hnone⟩ | ⟨hwaits, hv⟩ := h
    · cases hnone
    · cases hv
      have hconnack : s.handshake.connack sessionPresent code =
          .fail s.handshake (.protocolViolation .unexpectedConnack) := by
        cases hs : s.handshake.state <;> simp_all [Handshake.connack, Handshake.sentAt?]
      rw [Session.route_connack, hconnack]
      rfl
  | _ =>
    rw [Session.violation?, ite_eq_iff] at h
    obtain ⟨-, hnone⟩ | ⟨haccepted, hv⟩ := h
    · cases hnone
    · cases hv
      rw [Session.route, if_neg haccepted]

theorem handle_of_violation {v : Violation} (h : c.session.violation? p = some v) (now : Time) :
    c.handle (.packet p) now = (c.endReading (.protocolViolation v), {}) := by
  rw [handle, route_of_violation h]
  rfl

theorem handle_of_accepted {header : FixedHeader} {sessionPresent : Bool} {code : ConnectCode}
    {sentAt : Time} (waits : c.session.handshake.state = .awaiting sentAt)
    (accepted : code.isAccepted = true) (now : Time) :
    c.handle (.packet ⟨header, .connack sessionPresent code⟩) now =
      (c.withHandshake ⟨c.session.handshake.timeout, .accepted sessionPresent, none⟩,
        c.session.handshake.answer (.ok (.connected sessionPresent)) ++
          .ofEvent (.connected sessionPresent)) := by
  have hconnack : c.session.handshake.connack sessionPresent code =
      .emit ⟨c.session.handshake.timeout, .accepted sessionPresent, none⟩
        (c.session.handshake.answer (.ok (.connected sessionPresent))) := by
    rw [Handshake.connack, waits]
    exact if_pos accepted
  rw [handle, Session.route_connack, hconnack]
  rfl

theorem handle_of_refused {header : FixedHeader} {sessionPresent : Bool} {code : ConnectCode}
    {sentAt : Time} (waits : c.session.handshake.state = .awaiting sentAt)
    (refused : code.isAccepted = false) (now : Time) :
    c.handle (.packet ⟨header, .connack sessionPresent code⟩) now =
      ((c.withHandshake ⟨c.session.handshake.timeout, .failed, none⟩).endReading
          (.connectionRefused code),
        c.session.handshake.answer (.error (.connectionRefused code))) := by
  have hconnack : c.session.handshake.connack sessionPresent code =
      ⟨⟨c.session.handshake.timeout, .failed, none⟩,
        c.session.handshake.answer (.error (.connectionRefused code)),
        .error (.connectionRefused code)⟩ := by
    rw [Handshake.connack, waits]
    exact if_neg (by simp [refused])
  rw [handle, Session.route_connack, hconnack]
  rfl

theorem handle_of_served (accepted : c.session.isAccepted = true)
    (other : ∀ sessionPresent code, p.body ≠ .connack sessionPresent code)
    (held : c.session.subscriptions.HeldBy callers) (now : Time) :
    c.session.Serves (·.isConnect = false) callers (c.handle (.packet p) now).1.session
      (c.handle (.packet p) now).2 := by
  have hroute : c.session.route c.isOpen p now =
      Session.noteSent (c.session.routeAccepted c.isOpen p now) now := by
    rw [Session.route]
    split
    · next hbody => exact absurd hbody (other _ _)
    · exact if_pos accepted
  have h := ((Session.serves_routeAccepted held c.isOpen p now).noteSent now).mono
    fun _ => Packet.isConnect_of_isExchange
  rw [handle, hroute]
  split <;> exact h

theorem effect_handle (held : c.session.subscriptions.HeldBy callers) (p : Packet) (now : Time) :
    c.Effect callers (.handle (.packet p)) (c.handle (.packet p) now).1
      (c.handle (.packet p) now).2 := by
  cases hv : c.session.violation? p with
  | some v =>
    rw [handle_of_violation hv]
    exact .violates hv
  | none =>
    obtain ⟨header, body⟩ := p
    cases body with
    | connack sessionPresent code =>
      rw [Session.violation?, ite_eq_iff] at hv
      obtain ⟨hsome, -⟩ | ⟨-, hnone⟩ := hv
      · obtain ⟨sentAt, hsent⟩ := Option.isSome_iff_exists.mp hsome
        have hwaits := sentAt?_eq_some.mp hsent
        cases hcode : code.isAccepted with
        | true =>
          rw [handle_of_accepted hwaits hcode]
          exact .accepts hwaits hcode
        | false =>
          rw [handle_of_refused hwaits hcode]
          exact .refuses hwaits hcode
      · cases hnone
    | _ =>
      rw [Session.violation?, ite_eq_iff] at hv
      obtain ⟨haccepted, -⟩ | ⟨-, hnone⟩ := hv
      · exact .serves haccepted (handle_of_served haccepted (fun _ _ h => by cases h) held now)
      · cases hnone

/-- The writer and the ends of the reader leave the session alone. -/
theorem session_readEnd (c : Connection) : c.readEnd.session = c.session := by
  rw [readEnd]
  split <;> rfl

theorem session_readFault (c : Connection) (fault : TransportFault) :
    (c.readFault fault).session = c.session := by
  rw [readFault]
  split <;> rfl

theorem session_takePacket (c : Connection) : (c.takePacket?.getD c).session = c.session := by
  rw [takePacket?]
  split
  · rfl
  · cases c.queue.pop? <;> rfl

theorem effect_act (held : c.session.subscriptions.HeldBy callers) (now : Time) (a : Act)
    (ha : ∀ w, a.waiter? = some w → callers w) :
    c.Effect callers a (c.act now a).1 (c.act now a).2 := by
  cases a with
  | handle item =>
    cases item with
    | packet p => exact effect_handle held p now
    | error e =>
      have hother : ∀ p, Act.handle (.error e) ≠ .handle (.packet p) := by simp
      cases e <;> exact .rests hother rfl
  | decode reader => exact .rests (by simp) rfl
  | readEnd => exact .rests (by simp) c.session_readEnd
  | readFault fault => exact .rests (by simp) (c.session_readFault fault)
  | takePacket => exact .rests (by simp) c.session_takePacket
  | handOver n => exact .rests (by simp) rfl
  | writeFault fault => exact .rests (by simp) rfl
  | call k =>
    rw [act]
    split
    · next haccepted => exact .serves haccepted ((Session.serves_call held c.isOpen now ha).mono
        fun _ => Packet.isConnect_of_isExchange)
    · exact .rests (by simp) rfl

theorem looks_tickInOrder (held : c.session.subscriptions.HeldBy callers) (now : Time)
    (orders : Session.Orders) : c.Looks callers now (c.tickInOrder now orders) := by
  cases haccepted : c.session.isAccepted with
  | true => exact .serves haccepted (Session.serves_tickInOrder haccepted held _ now orders) rfl rfl
  | false =>
    have hlook : c.session.tickInOrder c.isOpen now orders =
        (c.session.handshake.tick now).inside fun h => { c.session with handshake := h } := by
      rw [Session.tickInOrder, if_pos (by simp [haccepted])]
    rw [tickInOrder, hlook, Handshake.tick]
    cases hs : c.session.handshake.state with
    | awaiting sentAt =>
      dsimp only
      split
      · next hlate => exact .late hs hlate
      · next hlate =>
        refine .rests fun t ht => ?_
        rw [Option.some.inj (ht.symm.trans (sentAt?_eq_some.mpr hs))]
        exact Nat.not_lt.mp hlate
    | idle | failed | accepted sessionPresent =>
      exact .rests fun t ht => by cases hs.symm.trans (sentAt?_eq_some.mp ht)

theorem effect_any (c : Connection) (now : Time) (a : Act) :
    c.Effect (fun _ => True) a (c.act now a).1 (c.act now a).2 :=
  effect_act (Subscriptions.heldBy_any _) now a fun _ _ => trivial

theorem looks_any (c : Connection) (now : Time) (orders : Session.Orders) :
    c.Looks (fun _ => True) now (c.tickInOrder now orders) :=
  looks_tickInOrder (Subscriptions.heldBy_any _) now orders

/-- Why reader and writer ended is kept in the order in which they did, and a reader that ended
does not begin again. -/
structure Follows (c c' : Connection) : Prop where
  reasons : c.reasons <+: c'.reasons
  reading : c'.reading = true → c.reading = true

theorem Follows.refl (c : Connection) : c.Follows c := ⟨List.prefix_refl _, id⟩

theorem follows_endReading (c : Connection) (reason : DisconnectReason) :
    c.Follows (c.endReading reason) := ⟨List.prefix_append _ _, Bool.noConfusion⟩

theorem follows_act (c : Connection) (now : Time) (a : Act) : c.Follows (c.act now a).1 := by
  cases a with
  | handle item =>
    cases item with
    | error e => cases e <;> exact c.follows_endReading _
    | packet p =>
      rw [act, handle]
      split
      · exact ⟨List.prefix_refl _, id⟩
      · exact ⟨List.prefix_append _ _, Bool.noConfusion⟩
  | decode reader => exact ⟨List.prefix_refl _, id⟩
  | readEnd =>
    rw [act, readEnd]
    split
    · exact .refl c
    · exact c.follows_endReading _
  | readFault fault =>
    rw [act, readFault]
    split
    · exact .refl c
    · exact c.follows_endReading _
  | takePacket =>
    rw [act, takePacket?]
    split
    · exact .refl c
    · cases c.queue.pop? with
      | none => exact .refl c
      | some taken => exact ⟨List.prefix_append _ _, id⟩
  | handOver n | writeFault fault => exact ⟨List.prefix_append _ _, id⟩
  | call k =>
    rw [act]
    split <;> exact ⟨List.prefix_refl _, id⟩

end Effect

end Connection

/-! ## Phases -/

namespace Phase

/-- What can happen to a request to connect. -/
inductive Act
  | opened
  | refused (fault : TransportFault)
  /-- The end is asked for, by a call that may wait for it. -/
  | disconnect (caller : Option Waiter)
  /-- Reader and writer are looked after. -/
  | observe
  /-- The session of a connection looks at the clock and goes through its tables in these orders. -/
  | tick (orders : Session.Orders)
  /-- A wait is looked after. -/
  | elapse
  | connection (a : Connection.Act)

def Act.waiter? : Act → Option Waiter
  | disconnect caller => caller
  | connection a => a.waiter?
  | opened | refused _ | observe | tick _ | elapse => none

/-- The session of a connection looks at the clock. -/
def look (o : Options) (now : Time) (orders : Session.Orders) : Phase → Turn
  | driving c _ =>
    let a := c.tickInOrder now orders
    match a.result with
    | .ok _ => { phase := driving a.state (now + o.tickInterval), output := a.output }
    | .error reason =>
      let turn := tearDown o a.state reason none now
      { turn with output := a.output ++ turn.output }
  | phase => { phase := phase }

def step (o : Options) (now : Time) (p : Phase) : Act → Turn
  | .opened => p.opened o now
  | .refused fault => p.refused o fault now
  | .disconnect caller => p.disconnect o caller now
  | .observe => p.observe o now
  | .tick orders => p.look o now orders
  | .elapse => p.elapse o now
  | .connection a =>
    match p.connection? with
    | some c => { phase := p.withConnection (c.act now a).1, output := (c.act now a).2 }
    | none => { phase := p }

/-- Whether the transport is being opened. -/
def isDialing : Phase → Bool
  | opening _ | reopening _ => true
  | driving _ _ | closing _ _ _ | pausing _ | backingOff _ _ | ended => false

/-- What a phase leaves room for. A tick goes through each table in any order and comes at any time;
only a reader that still runs hands anything over. -/
def Allows (p : Phase) : Act → Prop
  | .opened | .refused _ => p.isDialing = true
  | .tick orders => ∃ c nextTick, p = driving c nextTick ∧ orders.Fit c.session
  | .elapse => ∀ c nextTick, p ≠ driving c nextTick
  | .connection (.handle _) => ∃ c, p.connection? = some c ∧ c.reading = true
  | .connection _ | .disconnect _ | .observe => True

/-- What is seen of a step. -/
structure Moment where
  now : Time
  act : Act
  output : Output
  /-- Whether the transport is asked to open. -/
  dials : Bool

def Takes (o : Options) (p : Phase) (mo : Moment) (p' : Phase) : Prop :=
  p.Allows mo.act ∧ p.step o mo.now mo.act = ⟨p', mo.output, mo.dials⟩

theorem Takes.functional {o : Options} {p p₁ p₂ : Phase} {mo : Moment} (h₁ : Takes o p mo p₁)
    (h₂ : Takes o p mo p₂) : p₁ = p₂ :=
  congrArg Turn.phase (h₁.2.symm.trans h₂.2)

/-- What happens on a connection is its own affair. -/
theorem Takes.connection {o : Options} {p p' : Phase} {mo : Moment} {c : Connection}
    {a : Connection.Act} (takes : Takes o p mo p') (hp : p.connection? = some c)
    (hact : mo.act = .connection a) :
    p' = p.withConnection (c.act mo.now a).1 ∧ mo.output = (c.act mo.now a).2 := by
  have hstep := takes.2
  rw [hact, step, hp] at hstep
  exact ⟨(congrArg Turn.phase hstep).symm, (congrArg Turn.output hstep).symm⟩

/-! ### The model that runs takes these steps -/

section Runs
variable {o : Options} {p : Phase} {c : Connection} {now nextTick : Time}

/-- A connection looks at the clock when it is due, by the identifiers. -/
theorem elapse_driving : (driving c nextTick).elapse o now =
    if now < nextTick then { phase := driving c nextTick }
    else (driving c nextTick).step o now (.tick c.session.orders) := by
  have hlook : c.tick now = c.tickInOrder now c.session.orders := by
    rw [Connection.tick, Connection.tickInOrder, Session.tick_eq_tickInOrder]
  rw [elapse, hlook]
  rfl

theorem connection?_withConnection (h : p.connection? = some c) (c' : Connection) :
    (p.withConnection c').connection? = some c' := by
  cases p <;> first | rfl | cases h

@[simp] theorem withConnection_withConnection (p : Phase) (c c' : Connection) :
    (p.withConnection c).withConnection c' = p.withConnection c' := by
  cases p <;> rfl

theorem withConnection_self (h : p.connection? = some c) : p.withConnection c = p := by
  cases p <;> cases h <;> rfl

theorem takes_act (h : p.connection? = some c) (now : Time) {a : Connection.Act}
    (allowed : p.Allows (.connection a)) :
    Takes o p ⟨now, .connection a, (c.act now a).2, false⟩ (p.withConnection (c.act now a).1) := by
  refine ⟨allowed, ?_⟩
  rw [step, h]

/-- All that steps one after another put out. -/
def outputs (log : List Moment) : Output := log.foldr (fun mo o => mo.output ++ o) {}

/-- What is read at once is decoded and handed over piece by piece. -/
theorem trace_handleUpTo (now : Time) (h : p.connection? = some c) (fuel : Nat) :
    ∃ log, Trace (Takes o) p log (p.withConnection (c.handleUpTo fuel now).1) ∧
      outputs log = (c.handleUpTo fuel now).2 := by
  induction fuel generalizing p c with
  | zero => exact ⟨[], (withConnection_self h).symm ▸ .idle p, rfl⟩
  | succ fuel ih =>
    rw [Connection.handleUpTo]
    split
    · exact ⟨[], (withConnection_self h).symm ▸ .idle p, rfl⟩
    · next hreading =>
      have hdecode := fun reader => takes_act (o := o) h now (a := .decode reader) trivial
      split
      · next reader _ => exact ⟨_, .next (hdecode reader) (.idle _), rfl⟩
      · next item reader _ =>
        have hreader : ({ c with reader := reader } : Connection).reading = true := by
          simpa using hreading
        have hc := connection?_withConnection h { c with reader := reader }
        have hhandle := takes_act (o := o) hc now (a := .handle item) ⟨_, hc, hreader⟩
        rw [withConnection_withConnection] at hhandle
        obtain ⟨log, htrace, houtput⟩ := ih (connection?_withConnection h _)
        rw [withConnection_withConnection] at htrace
        refine ⟨_, .next (hdecode reader) (.next hhandle htrace), ?_⟩
        rw [outputs, List.foldr_cons, List.foldr_cons, ← outputs, houtput]
        rfl

theorem trace_read (h : p.connection? = some c) (bs : Wire.Bytes) :
    ∃ log, Trace (Takes o) p log (p.withConnection (c.read bs now).1) ∧
      outputs log = (c.read bs now).2 := by
  have hfeed := takes_act (o := o) h now (a := .decode (c.reader.feed bs)) trivial
  obtain ⟨log, htrace, houtput⟩ := trace_handleUpTo (o := o) now
    (connection?_withConnection h { c with reader := c.reader.feed bs })
    ((c.reader.feed bs).buffer.length + 2)
  rw [withConnection_withConnection] at htrace
  exact ⟨_, .next hfeed htrace, houtput⟩

end Runs

/-! ### What a step can do -/

/-- How the end of a connection comes: what is left of it, why, for which call, and what was put
out before. -/
inductive Ends (now : Time) :
    Phase → Act → Connection → DisconnectReason → Option Waiter → Output → Prop
  | lost {c : Connection} {nextTick : Time} {reason : DisconnectReason}
      {others : List DisconnectReason} (h : c.reasons = reason :: others) :
      Ends now (.driving c nextTick) .observe c reason none {}
  | failed {c : Connection} {nextTick : Time} {orders : Session.Orders} {reason : DisconnectReason}
      (h : (c.tickInOrder now orders).result = .error reason) :
      Ends now (.driving c nextTick) (.tick orders) (c.tickInOrder now orders).state reason none
        (c.tickInOrder now orders).output
  | stuck {c : Connection} {nextTick : Time} {caller : Option Waiter} (h : c.isOpen = false) :
      Ends now (.driving c nextTick) (.disconnect caller) c .requested caller {}
  | closed {c : Connection} {deadline : Time} {caller : Option Waiter} {a : Act}
      (h : a = .observe ∧ c.writer.isStopped = true ∨ a = .elapse ∧ deadline ≤ now) :
      Ends now (.closing c deadline caller) a c .requested caller {}

/-- Whether an act may leave a phase as it is. -/
def Act.idles (p : Phase) : Act → Bool
  | observe | elapse | disconnect _ => true
  | connection _ => p.connection?.isNone
  | opened | refused _ | tick _ => false

/-- Between two connections. -/
def isBetween : Phase → Bool
  | pausing _ | reopening _ | backingOff _ _ => true
  | opening _ | driving _ _ | closing _ _ _ | ended => false

theorem connection?_of_isBetween {p : Phase} (h : p.isBetween = true) : p.connection? = none := by
  cases p <;> first | rfl | cases h

inductive Change (o : Options) (now : Time) : Phase → Act → Turn → Prop
  | rests {p : Phase} {a : Act} (idle : a.idles p = true) : Change o now p a { phase := p }
  | opens {w : Waiter} : Change o now (.opening w) .opened
      { phase := .driving (.fresh o (some w) now) (now + o.tickInterval)
        output := .ofPackets [o.connectPacket.toPacket] }
  | reopens {n : Nat} : Change o now (.reopening n) .opened
      { phase := .driving (.fresh o none now) (now + o.tickInterval)
        output := .ofPackets [o.connectPacket.toPacket] }
  | unreachable {w : Waiter} {fault : TransportFault} : Change o now (.opening w) (.refused fault)
      { phase := .ended, output := .ofAnswers [⟨w, .error (.transport fault)⟩] }
  | fails {n : Nat} {fault : TransportFault} : Change o now (.reopening n) (.refused fault)
      { phase := .backingOff (n + 1) (now + backoff (n + 1)) }
  | givesUp {n : Nat} {fault : TransportFault} : Change o now (.reopening n) (.refused fault)
      { phase := .ended, output := .ofEvent (.disconnected (.transport fault.message)) }
  | cancels {w : Waiter} {caller : Option Waiter} : Change o now (.opening w) (.disconnect caller)
      { phase := .ended, output := .ofAnswers [⟨w, .error .connectionLost⟩] ++ release caller }
  | stops {p : Phase} {caller : Option Waiter} (between : p.isBetween = true) :
      Change o now p (.disconnect caller) { phase := .ended, output := release caller }
  | closes {c : Connection} {nextTick : Time} {caller : Option Waiter} (h : c.isOpen = true) :
      Change o now (.driving c nextTick) (.disconnect caller)
        { phase := .closing (c.after (c.session.disconnect true now)) (now + o.retryDelay) caller
          output := .ofPackets [.ofBody .disconnect] }
  | dials {p : Phase} {n : Nat} {due : Time} (h : p = .pausing due ∧ n = 0 ∨ p = .backingOff n due)
      (reached : due ≤ now) : Change o now p .elapse ⟨.reopening n, {}, true⟩
  | works {p : Phase} {c : Connection} {a : Connection.Act} (h : p.connection? = some c) :
      Change o now p (.connection a)
        { phase := p.withConnection (c.act now a).1, output := (c.act now a).2 }
  | ticks {c : Connection} {nextTick : Time} {orders : Session.Orders}
      (h : (c.tickInOrder now orders).result = .ok ()) :
      Change o now (.driving c nextTick) (.tick orders)
        { phase := .driving (c.tickInOrder now orders).state (now + o.tickInterval)
          output := (c.tickInOrder now orders).output }
  | ends {p : Phase} {a : Act} {c : Connection} {reason : DisconnectReason} {caller : Option Waiter}
      {before : Output} (h : Ends now p a c reason caller before) :
      Change o now p a
        { phase := (tearDown o c reason caller now).phase
          output := before ++ (tearDown o c reason caller now).output }

section Change
variable {o : Options} {p p' : Phase} {mo : Moment} {c : Connection} {now : Time}

theorem drive_eq (o : Options) (waiter : Option Waiter) (now : Time) : drive o waiter now =
    { phase := .driving (.fresh o waiter now) (now + o.tickInterval)
      output := .ofPackets [o.connectPacket.toPacket] } := by
  unfold drive
  rw [Connection.start_eq]

theorem change_opened (o : Options) (now : Time) (h : p.isDialing = true) :
    Change o now p .opened (p.opened o now) := by
  cases p with
  | opening w =>
    rw [opened, drive_eq]
    exact .opens
  | reopening n =>
    rw [opened, drive_eq]
    exact .reopens
  | driving | closing | pausing | backingOff | ended => cases h

theorem change_refused (o : Options) (now : Time) (fault : TransportFault)
    (h : p.isDialing = true) : Change o now p (.refused fault) (p.refused o fault now) := by
  cases p with
  | opening w => exact .unreachable
  | reopening n =>
    rw [refused]
    split
    · exact .fails
    · exact .givesUp
  | driving | closing | pausing | backingOff | ended => cases h

theorem change_disconnect (o : Options) (now : Time) (p : Phase) (caller : Option Waiter) :
    Change o now p (.disconnect caller) (p.disconnect o caller now) := by
  cases p with
  | opening w => exact .cancels
  | driving c nextTick =>
    rw [disconnect]
    cases hopen : c.isOpen with
    | true => exact .closes hopen
    | false => exact .ends (.stuck hopen)
  | pausing | reopening | backingOff => exact .stops rfl
  | closing | ended => exact .rests rfl

theorem change_observe (o : Options) (now : Time) (p : Phase) :
    Change o now p .observe (p.observe o now) := by
  cases p with
  | driving c nextTick =>
    rw [observe]
    split
    · next h => exact .ends (.lost h)
    · exact .rests rfl
  | closing c deadline caller =>
    rw [observe]
    split
    · next h => exact .ends (.closed (.inl ⟨rfl, h⟩))
    · exact .rests rfl
  | opening | pausing | reopening | backingOff | ended => exact .rests rfl

theorem change_look (o : Options) (now : Time) (c : Connection) (nextTick : Time)
    (orders : Session.Orders) :
    Change o now (driving c nextTick) (.tick orders) ((driving c nextTick).look o now orders) := by
  rw [look]
  split
  · next h => exact .ticks h
  · next h => exact .ends (.failed h)

theorem change_elapse (o : Options) (now : Time) (h : ∀ c nextTick, p ≠ driving c nextTick) :
    Change o now p .elapse (p.elapse o now) := by
  cases p with
  | driving c nextTick => exact absurd rfl (h c nextTick)
  | closing c deadline caller =>
    rw [elapse]
    split
    · exact .rests rfl
    · next h => exact .ends (.closed (.inr ⟨rfl, Nat.not_lt.mp h⟩))
  | pausing due =>
    rw [elapse]
    split
    · exact .rests rfl
    · next h => exact .dials (.inl ⟨rfl, rfl⟩) (Nat.not_lt.mp h)
  | backingOff failures due =>
    rw [elapse]
    split
    · exact .rests rfl
    · next h => exact .dials (.inr rfl) (Nat.not_lt.mp h)
  | opening | reopening | ended => exact .rests rfl

theorem change_connection (o : Options) (now : Time) (p : Phase) (a : Connection.Act) :
    Change o now p (.connection a) (p.step o now (.connection a)) := by
  rw [step]
  split
  · next h => exact .works h
  · next h => exact .rests (Option.isNone_iff_eq_none.mpr h)

theorem Takes.change (h : Takes o p mo p') :
    Change o mo.now p mo.act ⟨p', mo.output, mo.dials⟩ := by
  obtain ⟨now, act, output, dials⟩ := mo
  obtain ⟨allowed, hstep⟩ := h
  dsimp only at allowed hstep ⊢
  rw [← hstep]
  cases act with
  | opened => exact change_opened o now allowed
  | refused fault => exact change_refused o now fault allowed
  | disconnect caller => exact change_disconnect o now p caller
  | observe => exact change_observe o now p
  | tick orders =>
    obtain ⟨c, nextTick, rfl, -⟩ := allowed
    exact change_look o now c nextTick orders
  | elapse => exact change_elapse o now allowed
  | connection a => exact change_connection o now p a

end Change

/-- Options that leave everything as it is by default. -/
def plainOptions : Options := { address := "broker:1883", clientId := "c1" }

/-- The message of no bytes to the topic of no text. -/
def bareMessage : PublishPacket := .new ⟨"", by decide⟩ .atMostOnce []

end Phase

end Mqtt
