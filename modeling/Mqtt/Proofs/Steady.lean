import Mqtt.Proofs.Watch

/-!
# Steady sessions

A session that the broker has accepted and that does not watch over it. It serves whatever comes,
and a look at the clock on an open queue is a pass over every table.
-/
namespace Mqtt

namespace Session

/-- The session serves, and no watch over the broker breaks in. -/
structure Steady (s : Session) : Prop where
  accepted : s.isAccepted = true
  period : s.keepAlive.period = 0
  alive : s.keepAlive.brokerAlive = true

section Steady
variable {s t : Session} {now : Time}

theorem Performs.unwatched {m : Moment} (h : s.Performs m t) (period : s.keepAlive.period = 0)
    (alive : s.keepAlive.brokerAlive = true) :
    t.keepAlive.period = 0 ∧ t.keepAlive.brokerAlive = true := by
  cases h.watches with
  | other _ _ quiet => exact quiet.keepAlive ▸ ⟨period, alive⟩
  | answered _ _ keepAlive => exact keepAlive ▸ ⟨period, alive⟩
  | rests _ _ _ quiet => exact quiet.keepAlive ▸ ⟨period, alive⟩
  | blocked _ _ _ _ quiet => exact quiet.keepAlive ▸ ⟨period, alive⟩
  | pings _ on => exact absurd period on
  | givesUp _ why =>
    obtain hdead | ⟨on, -⟩ := why
    · rw [alive] at hdead
      contradiction
    · exact absurd period on

/-- A session that was made without a keep-alive is steady once it has been accepted. -/
theorem steady_of_trace {o : Options} {start : Time} {log : List Moment}
    (h : Trace Performs (new o start) log s) (accepted : s.isAccepted = true)
    (off : o.keepAlive = 0) : s.Steady := by
  have hwatch : s.keepAlive.period = 0 ∧ s.keepAlive.brokerAlive = true :=
    h.preserves ⟨keepAliveSpan_eq_zero_iff.mpr off, rfl⟩ fun hwatch step =>
      step.unwatched hwatch.1 hwatch.2
  exact ⟨accepted, hwatch.1, hwatch.2⟩

theorem start_of_steady (steady : s.Steady) (packet : ConnectPacket) (waiter : Option Waiter)
    (now : Time) : s.start true packet waiter now = .fail s .alreadyConnected := by
  have haccepted := steady.accepted
  rw [isAccepted, Handshake.isAccepted] at haccepted
  rw [start, Handshake.start]
  cases hstate : s.handshake.state with
  | accepted => rfl
  | idle | awaiting | failed => simp [hstate] at haccepted

theorem connack_of_steady (steady : s.Steady) {p : Packet} {sessionPresent : Bool}
    {code : ConnectCode} (body : p.body = .connack sessionPresent code) (now : Time) :
    s.route true p now = .fail s (.protocolViolation .unexpectedConnack) := by
  have haccepted := steady.accepted
  rw [isAccepted, Handshake.isAccepted] at haccepted
  rw [route, body]
  dsimp only
  rw [Handshake.connack]
  cases hstate : s.handshake.state with
  | accepted => rfl
  | idle | awaiting | failed => simp [hstate] at haccepted

theorem route_of_steady (steady : s.Steady) {p : Packet}
    (body : ∀ sessionPresent code, p.body ≠ .connack sessionPresent code) (now : Time) :
    s.route true p now = noteSent (s.routeAccepted true p now) now := by
  rw [route]
  split
  · next hbody => exact absurd hbody (body _ _)
  · rw [if_pos steady.accepted]

theorem tickInOrder_of_steady (steady : s.Steady) {o : Orders} (fit : o.Fit s) (now : Time) :
    s.tickInOrder true now o = noteSent
      ⟨{ s with
          subscriptions := (s.subscriptions.tickInOrder true now o.subscribes o.unsubscribes).state
          outgoing :=
            (s.outgoing.tickInOrder true now o.awaitPuback o.awaitPubrec o.awaitPubcomp).state
          incoming := (s.incoming.tickInOrder true now o.acknowledged o.awaitPubrel).state },
        (s.subscriptions.tickInOrder true now o.subscribes o.unsubscribes).output ++
          ((s.outgoing.tickInOrder true now o.awaitPuback o.awaitPubrec o.awaitPubcomp).output ++
            (s.incoming.tickInOrder true now o.acknowledged o.awaitPubrel).output), .ok ()⟩ now := by
  have hwatch : s.keepAlive.tick true s.lastSent now = .emit s.keepAlive {} := by
    rw [KeepAlive.tick, if_pos (by simp [steady.period])]
    rfl
  rw [tickInOrder_of_emit o steady.accepted hwatch]
  simp only [Step.emit, Step.andThen_ok, steady.alive, if_true, tickExchangesInOrder,
    Subscriptions.tickInOrder_eq fit.subscribes fit.unsubscribes,
    Outgoing.tickInOrder_eq fit.awaitPuback fit.awaitPubrec fit.awaitPubcomp,
    Incoming.tickInOrder_eq fit.acknowledged fit.awaitPubrel, Step.inside_mk]
  rfl

end Steady

end Session

/-! ## A look at the clock -/

namespace RetryTable
variable {α : Type} [Exchange α] {t u : RetryTable α}

/-- What a pass writes under an identifier. -/
def attempt (t : RetryTable α) (now : Time) (id : UInt16) : Option Packet :=
  (t.get? id).bind (Context.resent? t.policy now)

/-- The message that a pass gives up under an identifier, as the application is told. -/
def failure (t : RetryTable α) (now : Time) (id : UInt16) : Option Event :=
  ((t.get? id).bind (Context.exhausted? t.policy now)).map fun c =>
    .published (Exchange.id c.exchange) false

end RetryTable

section Passes
variable {α : Type} [Exchange α] (t : RetryTable α) (now : Time) (order : List UInt16)

theorem Outgoing.packets_passOutput :
    (passOutput t now order).packets = order.filterMap (t.attempt now) :=
  List.append_nil _

theorem Outgoing.events_passOutput :
    (passOutput t now order).events = order.filterMap (t.failure now) :=
  List.map_filterMap

end Passes

section Renewals
variable {α : Type} [Awaited α] (t : RetryTable α) (now : Time) (order : List UInt16)

theorem RetryTable.packets_renewal :
    (t.renewal now order).packets = order.filterMap (t.attempt now) :=
  List.append_nil _

theorem RetryTable.events_renewal : (t.renewal now order).events = [] := rfl

end Renewals

namespace Session
variable {s : Session} {o : Orders}

/-- What a look at the clock writes, table by table. -/
theorem packets_tickInOrder (steady : s.Steady) (fit : o.Fit s) (now : Time) :
    (s.tickInOrder true now o).output.packets =
      (o.subscribes.filterMap (s.subscriptions.subscribes.attempt now) ++
          o.unsubscribes.filterMap (s.subscriptions.unsubscribes.attempt now)) ++
        ((o.awaitPuback.filterMap (s.outgoing.awaitPuback.attempt now) ++
            (o.awaitPubrec.filterMap (s.outgoing.awaitPubrec.attempt now) ++
              o.awaitPubcomp.filterMap (s.outgoing.awaitPubcomp.attempt now))) ++
          (o.acknowledged.filterMap (s.incoming.acknowledged.attempt now) ++
            o.awaitPubrel.filterMap (s.incoming.awaitPubrel.attempt now))) := by
  rw [tickInOrder_of_steady steady fit, output_noteSent,
    Subscriptions.tickInOrder_eq fit.subscribes fit.unsubscribes,
    Outgoing.tickInOrder_eq fit.awaitPuback fit.awaitPubrec fit.awaitPubcomp,
    Incoming.tickInOrder_eq fit.acknowledged fit.awaitPubrel]
  simp only [Output.packets_append, RetryTable.packets_renewal, Outgoing.packets_passOutput]
  rfl

/-- What the application is told at a look at the clock: which messages were given up. -/
theorem events_tickInOrder (steady : s.Steady) (fit : o.Fit s) (now : Time) :
    (s.tickInOrder true now o).output.events =
      o.awaitPuback.filterMap (s.outgoing.awaitPuback.failure now) ++
        (o.awaitPubrec.filterMap (s.outgoing.awaitPubrec.failure now) ++
          o.awaitPubcomp.filterMap (s.outgoing.awaitPubcomp.failure now)) := by
  rw [tickInOrder_of_steady steady fit, output_noteSent,
    Subscriptions.tickInOrder_eq fit.subscribes fit.unsubscribes,
    Outgoing.tickInOrder_eq fit.awaitPuback fit.awaitPubrec fit.awaitPubcomp,
    Incoming.tickInOrder_eq fit.acknowledged fit.awaitPubrel]
  simp only [Output.events_append, RetryTable.events_renewal, Outgoing.events_passOutput,
    List.nil_append]
  exact List.append_nil _

end Session

end Mqtt
