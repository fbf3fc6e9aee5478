import Mqtt.Proofs.Agreement
import Mqtt.Proofs.Steady

/-!
# The two directions of a session

Incoming messages on the one side, outgoing messages and requests on the other, share a session,
its clock and its queue, and their identifiers may be the same. Neither notices the other: what a
session does for one of them is what it would do if nothing had been asked of it for the other.
-/
namespace Mqtt

/-- The directions in which messages go; requests go out. -/
inductive Direction
  | incoming
  | outgoing
  deriving DecidableEq, Repr

namespace Direction

/-- Whether a packet is queued for the exchanges of the direction. -/
def sends (d : Direction) (q : Packet) : Bool :=
  match q.body with
  | .puback _ | .pubrec _ | .pubcomp _ => d = incoming
  | .publish _ | .pubrel _ | .subscribe _ | .unsubscribe _ => d = outgoing
  | .connect _ | .connack _ _ | .suback _ _ | .unsuback _ | .pingreq | .pingresp | .disconnect =>
    false

/-- Whether an event tells of an exchange of the direction. -/
def tells (d : Direction) : Event → Bool
  | .received _ => d = incoming
  | .published _ _ | .subscribed _ _ _ | .unsubscribed _ _ => d = outgoing
  | .connected _ | .disconnected _ => false

/-- Whether an action concerns the direction: the messages that come in and their releases, or the
calls of the client and the acknowledgements, and in both cases a look at the clock and the loss of
the connection. -/
def keeps (d : Direction) : Session.Action → Bool
  | .start _ _ | .publish _ _ _ _ | .subscribe _ _ _ | .unsubscribe _ _ | .disconnect =>
    d = outgoing
  | .route p =>
    match p.body with
    | .publish _ | .pubrel _ => d = incoming
    | .puback _ | .pubrec _ | .pubcomp _ | .suback _ _ | .unsuback _ => d = outgoing
    | .connect _ | .connack _ _ | .subscribe _ | .unsubscribe _ | .pingreq | .pingresp
    | .disconnect => false
  | .tick | .reset => true

def packets (d : Direction) (o : Output) : List Packet := o.packets.filter d.sends

def events (d : Direction) (o : Output) : List Event := o.events.filter d.tells

/-- The orders in which a tick goes through the tables of the direction, one table after the
other. -/
def orders (d : Direction) (o : Session.Orders) : List (List UInt16) :=
  match d with
  | incoming => [o.acknowledged, o.awaitPubrel]
  | outgoing => [o.subscribes, o.unsubscribes, o.awaitPuback, o.awaitPubrec, o.awaitPubcomp]

structure Silent (d : Direction) (o : Output) : Prop where
  packets : d.packets o = []
  events : d.events o = []

/-- The parts of a session that belong to the direction agree. -/
def Agrees (d : Direction) (s t : Session) : Prop :=
  match d with
  | incoming => s.incoming.Agrees t.incoming
  | outgoing =>
    s.ids = t.ids ∧ s.outgoing.Agrees t.outgoing ∧ s.subscriptions.Agrees t.subscriptions

theorem agrees_refl (d : Direction) (s : Session) : d.Agrees s s := by
  cases d with
  | incoming => exact .refl s.incoming
  | outgoing => exact ⟨rfl, .refl s.outgoing, .refl s.subscriptions⟩

theorem silent_empty (d : Direction) : d.Silent {} := ⟨rfl, rfl⟩

end Direction

/-- What comes of going through tables, one table after the other, under each identifier what is
given for it. -/
def visits {β : Type} (fs : List (UInt16 → Option β)) (orders : List (List UInt16)) : List β :=
  (List.zipWith List.filterMap fs orders).flatten

/-- The same comes of two passes over the tables, but for the order within each table. -/
structure Reordered {β : Type} (orders orders' : List (List UInt16)) (xs ys : List β) : Prop where
  perm : List.Forall₂ List.Perm orders orders'
  visits : ∃ fs, xs = visits fs orders ∧ ys = visits fs orders'

theorem Reordered.eq {β : Type} {orders : List (List UInt16)} {xs ys : List β}
    (h : Reordered orders orders xs ys) : xs = ys := by
  obtain ⟨fs, hxs, hys⟩ := h.visits
  rw [hxs, hys]

namespace Session

/-- Something that a session did: when and what was asked of it, in which orders it went through its
tables, and what it put out. -/
structure Deed where
  now : Time
  action : Action
  orders : Orders
  output : Output

def Deed.asked (m : Deed) : Time × Action := (m.now, m.action)

/-- A step of a session on an open queue. -/
inductive Works (s : Session) : Deed → Session → Prop
  | intro (now : Time) (a : Action) {orders : Orders} (fit : orders.Fit s) :
      Works s ⟨now, a, orders, (s.act true now orders a).output⟩ (s.act true now orders a).state

theorem Works.steady {s t : Session} {m : Deed} (h : s.Works m t) (steady : s.Steady) :
    t.Steady := by
  obtain ⟨now, a, fit⟩ := h
  have hstep := Performs.intro true now a fit
  have hwatch := hstep.unwatched steady.period steady.alive
  exact ⟨hstep.accepted steady.accepted, hwatch.1, hwatch.2⟩

end Session

/-! ## A look at the clock -/

/-- A filter that treats all of a list alike keeps all or nothing. -/
theorem filter_eq_ite {β : Type} {keep : β → Bool} {p : Prop} [Decidable p] {xs : List β}
    (h : ∀ x ∈ xs, keep x = decide p) : xs.filter keep = if p then xs else [] := by
  split
  · next hp => exact List.filter_eq_self.mpr fun x hx => (h x hx).trans (decide_eq_true hp)
  · next hp => exact List.filter_eq_nil_iff.mpr fun x hx => by simp [h x hx, hp]

namespace RetryTable
variable {α : Type} [Exchange α] {t u : RetryTable α}

theorem Agrees.attempt (h : t.Agrees u) (now : Time) : t.attempt now = u.attempt now := by
  funext id
  rw [RetryTable.attempt, RetryTable.attempt, h.get?, h.policy]

theorem Agrees.failure (h : t.Agrees u) (now : Time) : t.failure now = u.failure now := by
  funext id
  rw [RetryTable.failure, RetryTable.failure, h.get?, h.policy]

/-- The packets of a table all go in one direction. -/
theorem filter_attempt (d own : Direction)
    (h : ∀ (e : α) (n : Nat), d.sends (Exchange.packet e n) = decide (d = own)) (t : RetryTable α)
    (now : Time) (order : List UInt16) :
    (order.filterMap (t.attempt now)).filter d.sends =
      if d = own then order.filterMap (t.attempt now) else [] := by
  refine filter_eq_ite fun q hq => ?_
  obtain ⟨id, -, hid⟩ := List.mem_filterMap.mp hq
  obtain ⟨c, -, hc⟩ := Option.bind_eq_some_iff.mp hid
  obtain ⟨n, rfl⟩ := Context.exists_attempt_of_resent? hc
  exact h c.exchange n

theorem filter_failure (d : Direction) (t : RetryTable α) (now : Time) (order : List UInt16) :
    (order.filterMap (t.failure now)).filter d.tells =
      if d = .outgoing then order.filterMap (t.failure now) else [] := by
  refine filter_eq_ite fun e he => ?_
  obtain ⟨id, -, hid⟩ := List.mem_filterMap.mp he
  obtain ⟨c, -, rfl⟩ := Option.map_eq_some_iff.mp hid
  rfl

end RetryTable

namespace Direction

/-- What a look at the clock writes for the direction, table by table. -/
def attempts (d : Direction) (s : Session) (now : Time) : List (UInt16 → Option Packet) :=
  match d with
  | incoming => [s.incoming.acknowledged.attempt now, s.incoming.awaitPubrel.attempt now]
  | outgoing =>
    [s.subscriptions.subscribes.attempt now, s.subscriptions.unsubscribes.attempt now,
      s.outgoing.awaitPuback.attempt now, s.outgoing.awaitPubrec.attempt now,
      s.outgoing.awaitPubcomp.attempt now]

/-- What the application is told of the direction at a look at the clock, table by table: requests
fail without an event, and messages that are never released are forgotten without one. -/
def failures (d : Direction) (s : Session) (now : Time) : List (UInt16 → Option Event) :=
  match d with
  | incoming => [fun _ => none, fun _ => none]
  | outgoing =>
    [fun _ => none, fun _ => none, s.outgoing.awaitPuback.failure now,
      s.outgoing.awaitPubrec.failure now, s.outgoing.awaitPubcomp.failure now]

section Tick
variable {d : Direction} {s t : Session} {o o' : Session.Orders} {now : Time}

theorem Agrees.attempts (h : d.Agrees s t) (now : Time) : d.attempts s now = d.attempts t now := by
  cases d with
  | incoming =>
    rw [Direction.attempts, Direction.attempts, h.acknowledged.attempt, h.awaitPubrel.attempt]
  | outgoing =>
    obtain ⟨-, hout, hsub⟩ := h
    rw [Direction.attempts, Direction.attempts, hsub.subscribes.attempt,
      hsub.unsubscribes.attempt, hout.puback.attempt, hout.pubrec.attempt, hout.pubcomp.attempt]

theorem Agrees.failures (h : d.Agrees s t) (now : Time) : d.failures s now = d.failures t now := by
  cases d with
  | incoming => rfl
  | outgoing =>
    obtain ⟨-, hout, -⟩ := h
    rw [Direction.failures, Direction.failures, hout.puback.failure, hout.pubrec.failure,
      hout.pubcomp.failure]

/-- What a look at the clock shows in a direction comes from the tables of that direction. -/
theorem packets_tick (steady : s.Steady) (fit : o.Fit s) (now : Time) :
    d.packets (s.tickInOrder true now o).output = visits (d.attempts s now) (d.orders o) := by
  -- every table belongs to one direction, so its pass is kept or dropped as a whole
  have hsubscribes := RetryTable.filter_attempt d outgoing (fun _ _ => rfl)
    s.subscriptions.subscribes now o.subscribes
  have hunsubscribes := RetryTable.filter_attempt d outgoing (fun _ _ => rfl)
    s.subscriptions.unsubscribes now o.unsubscribes
  have hpuback := RetryTable.filter_attempt d outgoing (fun _ _ => rfl)
    s.outgoing.awaitPuback now o.awaitPuback
  have hpubrec := RetryTable.filter_attempt d outgoing (fun _ _ => rfl)
    s.outgoing.awaitPubrec now o.awaitPubrec
  have hpubcomp := RetryTable.filter_attempt d outgoing (fun _ _ => rfl)
    s.outgoing.awaitPubcomp now o.awaitPubcomp
  have hacknowledged := RetryTable.filter_attempt d incoming (fun _ _ => rfl)
    s.incoming.acknowledged now o.acknowledged
  have hpubrel := RetryTable.filter_attempt d incoming (fun _ _ => rfl)
    s.incoming.awaitPubrel now o.awaitPubrel
  calc d.packets (s.tickInOrder true now o).output
    _ = ((o.subscribes.filterMap (s.subscriptions.subscribes.attempt now) ++
          o.unsubscribes.filterMap (s.subscriptions.unsubscribes.attempt now)) ++
        ((o.awaitPuback.filterMap (s.outgoing.awaitPuback.attempt now) ++
          (o.awaitPubrec.filterMap (s.outgoing.awaitPubrec.attempt now) ++
            o.awaitPubcomp.filterMap (s.outgoing.awaitPubcomp.attempt now))) ++
        (o.acknowledged.filterMap (s.incoming.acknowledged.attempt now) ++
          o.awaitPubrel.filterMap (s.incoming.awaitPubrel.attempt now)))).filter d.sends := by
      rw [packets, Session.packets_tickInOrder steady fit]
    _ = visits (d.attempts s now) (d.orders o) := by
      simp only [List.filter_append, hsubscribes, hunsubscribes, hpuback, hpubrec, hpubcomp,
        hacknowledged, hpubrel]
      cases d <;> simp [visits, attempts, orders]

theorem events_tick (steady : s.Steady) (fit : o.Fit s) (now : Time) :
    d.events (s.tickInOrder true now o).output = visits (d.failures s now) (d.orders o) := by
  rw [events, Session.events_tickInOrder steady fit]
  simp only [List.filter_append, RetryTable.filter_failure]
  cases d <;> simp [visits, failures, orders]

end Tick

end Direction

/-! ## What one direction shows in the other -/

section Silent

theorem Outgoing.silent_puback (m : Outgoing) (id : UInt16) :
    Direction.incoming.Silent (m.puback id).2 := by
  rw [puback]
  split <;> exact ⟨rfl, rfl⟩

theorem Outgoing.silent_pubrec (m : Outgoing) (id : UInt16) (now : Time) :
    Direction.incoming.Silent (m.pubrec true id now).output := by
  rw [pubrec]
  split
  · exact ⟨rfl, rfl⟩
  · split <;> exact ⟨rfl, rfl⟩

theorem Outgoing.silent_pubcomp (m : Outgoing) (id : UInt16) :
    Direction.incoming.Silent (m.pubcomp id).2 := by
  rw [pubcomp]
  split <;> exact ⟨rfl, rfl⟩

theorem RetryTable.silent_confirm {α : Type} [Awaited α] (t : RetryTable α) {event : α → Event}
    (hevent : ∀ e, Direction.incoming.tells (event e) = false) (reply : Reply) (id : UInt16) :
    Direction.incoming.Silent (t.confirm event reply id).2 := by
  refine ⟨by rw [Direction.packets, packets_confirm]; rfl, ?_⟩
  cases hc : t.get? id with
  | none => rw [confirm_of_none hc]; rfl
  | some c => simp [confirm_of_some hc, Direction.events, hevent]

theorem Subscriptions.silent_suback (m : Subscriptions) (id : UInt16) (code : SubscribeCode) :
    Direction.incoming.Silent (m.suback id code).2 := by
  rw [suback_eq]
  exact m.subscribes.silent_confirm (fun _ => rfl) _ id

theorem Subscriptions.silent_unsuback (m : Subscriptions) (id : UInt16) :
    Direction.incoming.Silent (m.unsuback id).2 := by
  rw [unsuback_eq]
  exact m.unsubscribes.silent_confirm (fun _ => rfl) _ id

theorem Incoming.silent_publish (m : Incoming) (p : PublishPacket) (now : Time) :
    Direction.outgoing.Silent (m.publish true p now).output := by
  rw [publish]
  split <;> exact ⟨rfl, rfl⟩

theorem Incoming.silent_pubrel (m : Incoming) (id : UInt16) :
    Direction.outgoing.Silent (m.pubrel true id).output := by
  rw [pubrel]
  split <;> exact ⟨rfl, rfl⟩

end Silent

namespace Direction
variable {d : Direction} {s t : Session} {now : Time} {ε α : Type}

/-! When the last packet was queued makes no difference to the directions. -/

@[simp] theorem agrees_noteSent_left (r : Step Session ε α) (now : Time) :
    d.Agrees (Session.noteSent r now).state t ↔ d.Agrees r.state t := by
  rw [Session.noteSent]
  split
  · rfl
  · cases d <;> rfl

@[simp] theorem agrees_noteSent_right (r : Step Session ε α) (now : Time) :
    d.Agrees s (Session.noteSent r now).state ↔ d.Agrees s r.state := by
  rw [Session.noteSent]
  split
  · rfl
  · cases d <;> rfl

/-- A step that shows nothing in the direction and leaves what belongs to it alone. -/
structure Spares (d : Direction) (s : Session) (r : Step Session ε α) : Prop where
  silent : d.Silent r.output
  agrees : ∀ t, d.Agrees s t → d.Agrees r.state t

namespace Spares
variable {δ : Type} {r : Step Session ε α}

theorem noteSent (h : d.Spares s r) (now : Time) : d.Spares s (Session.noteSent r now) where
  silent := by
    rw [Session.output_noteSent]
    exact h.silent
  agrees t ht := (agrees_noteSent_left r now).mpr (h.agrees t ht)

theorem mapError (h : d.Spares s r) (f : ε → δ) : d.Spares s (r.mapError f) :=
  ⟨h.silent, h.agrees⟩

theorem void (h : d.Spares s r) : d.Spares s r.void := ⟨h.silent, h.agrees⟩

end Spares

theorem spares_fail (e : ε) : d.Spares s (.fail s e : Step Session ε α) :=
  ⟨silent_empty _, fun _ h => h⟩

theorem spares_routeAccepted {p : Packet} (other : d.keeps (.route p) = false) (now : Time) :
    d.Spares s (s.routeAccepted true p now) := by
  obtain ⟨header, body⟩ := p
  cases d with
  | incoming =>
    cases body with
    | puback id => exact ⟨s.outgoing.silent_puback id, fun _ h => h⟩
    | pubrec id => exact ⟨s.outgoing.silent_pubrec id now, fun _ h => h⟩
    | pubcomp id => exact ⟨s.outgoing.silent_pubcomp id, fun _ h => h⟩
    | suback id code => exact ⟨s.subscriptions.silent_suback id code, fun _ h => h⟩
    | unsuback id => exact ⟨s.subscriptions.silent_unsuback id, fun _ h => h⟩
    | pingresp => exact ⟨silent_empty _, fun _ h => h⟩
    | publish | pubrel => cases other
    | connect | connack | subscribe | unsubscribe | pingreq | disconnect => exact spares_fail _
  | outgoing =>
    cases body with
    | publish b => exact ⟨s.incoming.silent_publish ⟨header, b⟩ now, fun _ h => h⟩
    | pubrel id => exact ⟨s.incoming.silent_pubrel id, fun _ h => h⟩
    | pingresp => exact ⟨silent_empty _, fun _ h => h⟩
    | puback | pubcomp | pubrec | suback | unsuback => cases other
    | connect | connack | subscribe | unsubscribe | pingreq | disconnect => exact spares_fail _

/-- What does not concern the direction spares it. -/
theorem spares_act (steady : s.Steady) {a : Session.Action} (other : d.keeps a = false) (now : Time)
    (o : Session.Orders) : d.Spares s (s.act true now o a) := by
  cases a with
  | start packet waiter =>
    rw [Session.act, Session.start_of_steady steady]
    exact spares_fail _
  | publish topic payload qos retain =>
    cases d with
    | outgoing => cases other
    | incoming =>
      refine ((Spares.noteSent ?_ now).mapError _).void
      cases qos <;> exact ⟨⟨rfl, rfl⟩, fun _ h => h⟩
  | subscribe filter qos waiter =>
    cases d with
    | outgoing => cases other
    | incoming =>
      refine ((Spares.noteSent ?_ now).mapError _).void
      exact ⟨⟨rfl, rfl⟩, fun _ h => h⟩
  | unsubscribe filter waiter =>
    cases d with
    | outgoing => cases other
    | incoming =>
      refine ((Spares.noteSent ?_ now).mapError _).void
      exact ⟨⟨rfl, rfl⟩, fun _ h => h⟩
  | disconnect =>
    refine (Spares.noteSent ?_ now).mapError _
    exact ⟨⟨rfl, rfl⟩, fun _ h => h⟩
  | route p =>
    rw [Session.act]
    by_cases hbody : ∃ sessionPresent code, p.body = .connack sessionPresent code
    · obtain ⟨sessionPresent, code, hbody⟩ := hbody
      rw [Session.connack_of_steady steady hbody]
      exact spares_fail _
    · rw [Session.route_of_steady steady fun sessionPresent code h => hbody ⟨_, _, h⟩]
      exact (spares_routeAccepted other now).noteSent now
  | tick | reset => cases other

theorem alike_noteSent {a b : Step Session ε α} (h : a.Alike d.Agrees b) (now : Time) :
    (Session.noteSent a now).Alike d.Agrees (Session.noteSent b now) := by
  have hresult (r : Step Session ε α) : (Session.noteSent r now).result = r.result := by
    rw [Session.noteSent]
    split <;> rfl
  refine ⟨?_, ?_, ?_⟩
  · rw [agrees_noteSent_left, agrees_noteSent_right]
    exact h.state
  · rw [Session.output_noteSent, Session.output_noteSent, h.output]
  · rw [hresult, hresult, h.result]

/-- Identifiers are given out by what waits on the way out; what came in has no say in it. -/
theorem nextId_of_agrees (h : outgoing.Agrees s t) :
    s.nextId.1 = t.nextId.1 ∧ outgoing.Agrees s.nextId.2 t.nextId.2 := by
  obtain ⟨hids, hout, hsub⟩ := h
  have hbusy : s.isBusy = t.isBusy := by
    funext x
    rw [Session.isBusy, Session.isBusy, hout.contains, hsub.contains]
  have hfree : s.ids.allocateFree s.isBusy 65535 = t.ids.allocateFree t.isBusy 65535 := by
    rw [hids, hbusy]
  have hid := congrArg Prod.fst hfree
  have hnext := congrArg Prod.snd hfree
  exact ⟨hid, hnext, hout, hsub⟩

/-- Two calls that send alike answer the same identifier alike. -/
theorem alike_answering {a b : Step Session ClientError Unit} (h : a.Alike d.Agrees b) (id : UInt16)
    (now : Time) :
    (Session.noteSent (a.andThen fun s _ => .value s id) now).Alike d.Agrees
      (Session.noteSent (b.andThen fun s _ => .value s id) now) := by
  refine alike_noteSent ?_ now
  exact Step.Alike.andThen (R := d.Agrees) h fun ht _ => ⟨ht, rfl, rfl⟩

theorem alike_send (h : outgoing.Agrees s t) (p : PublishPacket) (id : UInt16) (now : Time) :
    (Session.noteSent (((s.outgoing.publish true p now).inside fun m =>
      { s with outgoing := m }).andThen fun s _ => .value s id) now).Alike outgoing.Agrees
    (Session.noteSent (((t.outgoing.publish true p now).inside fun m =>
      { t with outgoing := m }).andThen fun s _ => .value s id) now) := by
  obtain ⟨hids, hout, hsub⟩ := h
  refine alike_answering ?_ id now
  exact (hout.publish p now).inside fun hm => ⟨hids, hm, hsub⟩

theorem alike_publish (h : outgoing.Agrees s t) (topic : TopicName) (payload : Wire.Bytes)
    (qos : QoS) (retain : Bool) (now : Time) :
    (s.publish true topic payload qos retain now).Alike outgoing.Agrees
      (t.publish true topic payload qos retain now) := by
  obtain ⟨hid, hnext⟩ := nextId_of_agrees h
  cases qos with
  | atMostOnce => exact alike_send h _ 0 now
  | atLeastOnce | exactlyOnce =>
    simp only [Session.publish]
    rw [hid]
    exact alike_send hnext _ _ now

/-- A request finds the same identifier, and is made alike. -/
theorem alike_request (h : outgoing.Agrees s t)
    {ask : Subscriptions → UInt16 → Step Subscriptions ClientError Unit}
    (hask : ∀ {m n : Subscriptions}, m.Agrees n → ∀ id,
      (ask m id).Alike Subscriptions.Agrees (ask n id)) (now : Time) :
    (s.request ask now).Alike outgoing.Agrees (t.request ask now) := by
  obtain ⟨hid, hids, hout, hsub⟩ := nextId_of_agrees h
  simp only [Session.request, hid]
  refine alike_answering ?_ _ now
  exact (hask hsub _).inside fun hm => ⟨hids, hout, hm⟩

theorem alike_routeAccepted (h : d.Agrees s t) {p : Packet} (own : d.keeps (.route p) = true)
    (now : Time) :
    (s.routeAccepted true p now).Alike d.Agrees (t.routeAccepted true p now) := by
  obtain ⟨header, body⟩ := p
  cases d with
  | incoming =>
    cases body with
    | publish b =>
      refine Step.Alike.mapError ?_ _
      exact (h.publish ⟨header, b⟩ now).inside fun hm => hm
    | pubrel id =>
      refine Step.Alike.mapError ?_ _
      exact (h.pubrel id).inside fun hm => hm
    | puback | pubrec | pubcomp | suback | unsuback => cases own
    | connect | connack | subscribe | unsubscribe | pingreq | pingresp | disconnect => cases own
  | outgoing =>
    obtain ⟨hids, hout, hsub⟩ := h
    cases body with
    | puback id =>
      obtain ⟨hm, houtput⟩ := hout.puback_step id
      exact ⟨⟨hids, hm, hsub⟩, houtput, rfl⟩
    | pubcomp id =>
      obtain ⟨hm, houtput⟩ := hout.pubcomp_step id
      exact ⟨⟨hids, hm, hsub⟩, houtput, rfl⟩
    | pubrec id => exact ((hout.pubrec_step id now).inside fun hm => ⟨hids, hm, hsub⟩).mapError _
    | suback id code =>
      obtain ⟨hm, houtput⟩ := hsub.suback id code
      exact ⟨⟨hids, hout, hm⟩, houtput, rfl⟩
    | unsuback id =>
      obtain ⟨hm, houtput⟩ := hsub.unsuback id
      exact ⟨⟨hids, hout, hm⟩, houtput, rfl⟩
    | publish | pubrel => cases own
    | connect | connack | subscribe | unsubscribe | pingreq | pingresp | disconnect => cases own

/-- Asked the same in its direction, a session does the same. -/
theorem alike_act (hs : s.Steady) (ht : t.Steady) (h : d.Agrees s t) {a : Session.Action}
    (own : d.keeps a = true) (tick : a ≠ .tick) (reset : a ≠ .reset) (now : Time)
    (o o' : Session.Orders) :
    (s.act true now o a).Alike d.Agrees (t.act true now o' a) := by
  cases a with
  | start packet waiter =>
    rw [Session.act, Session.act, Session.start_of_steady hs, Session.start_of_steady ht]
    exact ⟨h, rfl, rfl⟩
  | publish topic payload qos retain =>
    cases d with
    | incoming => cases own
    | outgoing => exact ((alike_publish h topic payload qos retain now).mapError _).void
  | subscribe filter qos waiter =>
    cases d with
    | incoming => cases own
    | outgoing =>
      have hask := alike_request h (fun hm id => hm.subscribe ⟨id, filter, qos⟩ waiter now) now
      exact (hask.mapError _).void
  | unsubscribe filter waiter =>
    cases d with
    | incoming => cases own
    | outgoing =>
      have hask := alike_request h (fun hm id => hm.unsubscribe ⟨id, filter⟩ waiter now) now
      exact (hask.mapError _).void
  | disconnect =>
    refine (alike_noteSent ?_ now).mapError _
    exact ⟨h, rfl, rfl⟩
  | route p =>
    have hbody : ∀ sessionPresent code, p.body ≠ .connack sessionPresent code := by
      intro sessionPresent code hbody
      simp [keeps, hbody] at own
    rw [Session.act, Session.act, Session.route_of_steady hs hbody,
      Session.route_of_steady ht hbody]
    exact alike_noteSent (alike_routeAccepted h own now) now
  | tick => exact absurd rfl tick
  | reset => exact absurd rfl reset

theorem Agrees.reset (h : d.Agrees s t) : d.Agrees s.reset.1 t.reset.1 := by
  cases d with
  | incoming => exact Incoming.Agrees.reset h
  | outgoing =>
    obtain ⟨hids, hout, hsub⟩ := h
    exact ⟨hids, hout.reset, hsub.reset⟩

section Orders
variable {o o' : Session.Orders}

theorem perm_orders (h : d.Agrees s t) (fit : o.Fit s) (fit' : o'.Fit t) :
    List.Forall₂ List.Perm (d.orders o) (d.orders o') := by
  cases d with
  | incoming =>
    exact .cons (fit.acknowledged.trans (h.acknowledged.perm_ids.trans fit'.acknowledged.symm)) <|
      .cons (fit.awaitPubrel.trans (h.awaitPubrel.perm_ids.trans fit'.awaitPubrel.symm)) .nil
  | outgoing =>
    obtain ⟨-, hout, hsub⟩ := h
    exact .cons (fit.subscribes.trans (hsub.subscribes.perm_ids.trans fit'.subscribes.symm)) <|
      .cons (fit.unsubscribes.trans (hsub.unsubscribes.perm_ids.trans fit'.unsubscribes.symm)) <|
      .cons (fit.awaitPuback.trans (hout.puback.perm_ids.trans fit'.awaitPuback.symm)) <|
      .cons (fit.awaitPubrec.trans (hout.pubrec.perm_ids.trans fit'.awaitPubrec.symm)) <|
      .cons (fit.awaitPubcomp.trans (hout.pubcomp.perm_ids.trans fit'.awaitPubcomp.symm)) .nil

theorem Agrees.tickInOrder (h : d.Agrees s t) (hs : s.Steady) (ht : t.Steady) (fit : o.Fit s)
    (fit' : o'.Fit t) (now : Time) :
    d.Agrees (s.tickInOrder true now o).state (t.tickInOrder true now o').state := by
  rw [Session.tickInOrder_of_steady hs fit, Session.tickInOrder_of_steady ht fit',
    agrees_noteSent_left, agrees_noteSent_right]
  cases d with
  | incoming =>
    rw [Incoming.tickInOrder_eq fit.acknowledged fit.awaitPubrel,
      Incoming.tickInOrder_eq fit'.acknowledged fit'.awaitPubrel]
    exact ⟨h.acknowledged.tickInOrder fit.acknowledged fit'.acknowledged now,
      h.awaitPubrel.tickInOrder fit.awaitPubrel fit'.awaitPubrel now⟩
  | outgoing =>
    obtain ⟨hids, hout, hsub⟩ := h
    rw [Subscriptions.tickInOrder_eq fit.subscribes fit.unsubscribes,
      Subscriptions.tickInOrder_eq fit'.subscribes fit'.unsubscribes,
      Outgoing.tickInOrder_eq fit.awaitPuback fit.awaitPubrec fit.awaitPubcomp,
      Outgoing.tickInOrder_eq fit'.awaitPuback fit'.awaitPubrec fit'.awaitPubcomp]
    exact ⟨hids,
      ⟨hout.puback.tickInOrder fit.awaitPuback fit'.awaitPuback now,
        hout.pubrec.tickInOrder fit.awaitPubrec fit'.awaitPubrec now,
        hout.pubcomp.tickInOrder fit.awaitPubcomp fit'.awaitPubcomp now⟩,
      hsub.subscribes.tickInOrder fit.subscribes fit'.subscribes now,
      hsub.unsubscribes.tickInOrder fit.unsubscribes fit'.unsubscribes now⟩

/-- The orders of the direction from the one, and those of the other direction from the other. -/
def merge (d : Direction) (own other : Session.Orders) : Session.Orders :=
  match d with
  | incoming => { other with acknowledged := own.acknowledged, awaitPubrel := own.awaitPubrel }
  | outgoing => { own with acknowledged := other.acknowledged, awaitPubrel := other.awaitPubrel }

theorem orders_merge (own other : Session.Orders) :
    d.orders (d.merge own other) = d.orders own := by
  cases d <;> rfl

theorem fit_merge (h : d.Agrees s t) (fit : o.Fit s) (fit' : o'.Fit t) : (d.merge o o').Fit t := by
  cases d with
  | incoming =>
    exact { fit' with
      acknowledged := fit.acknowledged.trans h.acknowledged.perm_ids
      awaitPubrel := fit.awaitPubrel.trans h.awaitPubrel.perm_ids }
  | outgoing =>
    obtain ⟨-, hout, hsub⟩ := h
    exact
      { subscribes := fit.subscribes.trans hsub.subscribes.perm_ids
        unsubscribes := fit.unsubscribes.trans hsub.unsubscribes.perm_ids
        awaitPuback := fit.awaitPuback.trans hout.puback.perm_ids
        awaitPubrec := fit.awaitPubrec.trans hout.pubrec.perm_ids
        awaitPubcomp := fit.awaitPubcomp.trans hout.pubcomp.perm_ids
        acknowledged := fit'.acknowledged
        awaitPubrel := fit'.awaitPubrel }

end Orders

/-! ## Runs -/

/-- The part of a run that concerns the direction. -/
def reduce (d : Direction) (log : List Session.Deed) : List Session.Deed :=
  log.filter fun m => d.keeps m.action

theorem reduce_own {m : Session.Deed} (own : d.keeps m.action = true) (log : List Session.Deed) :
    d.reduce (m :: log) = m :: d.reduce log :=
  List.filter_cons_of_pos own

theorem reduce_other {m : Session.Deed} (other : d.keeps m.action = false)
    (log : List Session.Deed) : d.reduce (m :: log) = d.reduce log :=
  List.filter_cons_of_neg (by simp [other])

/-- Two deeds show the same in the direction; two looks at the clock may go through a table in
different orders. -/
structure Matches (d : Direction) (m m' : Session.Deed) : Prop where
  tick : m.action = .tick →
    Reordered (d.orders m.orders) (d.orders m'.orders) (d.packets m.output) (d.packets m'.output) ∧
      Reordered (d.orders m.orders) (d.orders m'.orders) (d.events m.output) (d.events m'.output)
  other : m.action ≠ .tick →
    d.packets m.output = d.packets m'.output ∧ d.events m.output = d.events m'.output

theorem Matches.same {m m' : Session.Deed} (h : d.Matches m m')
    (horders : d.orders m.orders = d.orders m'.orders) :
    d.packets m.output = d.packets m'.output ∧ d.events m.output = d.events m'.output := by
  by_cases htick : m.action = .tick
  · obtain ⟨hpackets, hevents⟩ := h.tick htick
    rw [horders] at hpackets hevents
    exact ⟨hpackets.eq, hevents.eq⟩
  · exact h.other htick

section Runs
variable {s' t' : Session} {m m' : Session.Deed} {log log' : List Session.Deed}

theorem spares_works (steady : s.Steady) (h : s.Works m s') (other : d.keeps m.action = false) :
    d.Silent m.output ∧ ∀ t, d.Agrees s t → d.Agrees s' t := by
  cases h with
  | @intro now a o fit =>
    have hspares := spares_act steady other now o
    exact ⟨hspares.silent, hspares.agrees⟩

/-- Asked the same, agreeing sessions show the same and agree again. -/
theorem matches_works (hs : s.Steady) (ht : t.Steady) (agrees : d.Agrees s t) (h : s.Works m s')
    (h' : t.Works m' t') (asked : m'.asked = m.asked) (own : d.keeps m.action = true) :
    d.Agrees s' t' ∧ d.Matches m m' := by
  cases h with
  | @intro now a o fit =>
  cases h' with
  | @intro now' a' o' fit' =>
  obtain ⟨rfl, rfl⟩ := Prod.mk.inj asked
  -- a tick may meet the tables in other orders, and a reset answers callers; the rest is alike
  by_cases htick : a' = .tick
  · subst htick
    have hperm := perm_orders agrees fit fit'
    refine ⟨agrees.tickInOrder hs ht fit fit' now', fun _ => ⟨⟨hperm, d.attempts s now', ?_, ?_⟩,
      hperm, d.failures s now', ?_, ?_⟩, absurd rfl⟩
    · exact packets_tick hs fit now'
    · rw [agrees.attempts]
      exact packets_tick ht fit' now'
    · exact events_tick hs fit now'
    · rw [agrees.failures]
      exact events_tick ht fit' now'
  by_cases hreset : a' = .reset
  · subst hreset
    exact ⟨agrees.reset, fun h => absurd h htick, fun _ => ⟨rfl, rfl⟩⟩
  have halike := alike_act hs ht agrees own htick hreset now' o o'
  exact ⟨halike.state, fun h => absurd h htick, fun _ =>
    ⟨congrArg d.packets halike.output, congrArg d.events halike.output⟩⟩

/-- What a session does in one direction an agreeing one can do too, in the same orders. -/
theorem exists_works (agrees : d.Agrees s t) (h : s.Works m s') :
    ∃ m' t', t.Works m' t' ∧ m'.asked = m.asked ∧ d.orders m.orders = d.orders m'.orders := by
  cases h with
  | @intro now a o fit =>
    have hfit := fit_merge agrees fit t.fit_orders
    exact ⟨_, _, .intro now a hfit, rfl, (orders_merge o t.orders).symm⟩

theorem silent_of_trace (steady : s.Steady) (run : Trace Session.Works s log s') :
    ∀ m ∈ log, d.keeps m.action = false → d.Silent m.output := by
  induction run with
  | idle => exact fun m hm => absurd hm List.not_mem_nil
  | next first tail ih =>
    refine List.forall_mem_cons.mpr ⟨fun other => ?_, ih (first.steady steady)⟩
    exact (spares_works steady first other).1

theorem matches_of_trace (hs : s.Steady) (ht : t.Steady) (agrees : d.Agrees s t)
    (run : Trace Session.Works s log s') (run' : Trace Session.Works t log' t')
    (asked : log'.map Session.Deed.asked = (d.reduce log).map Session.Deed.asked) :
    List.Forall₂ d.Matches (d.reduce log) log' := by
  -- while the longer run serves the other direction the shorter one stays where it is
  induction run generalizing t log' with
  | idle =>
    rw [List.map_eq_nil_iff.mp asked]
    exact .nil
  | @next s s₁ s' m rest first tail ih =>
    cases hown : d.keeps m.action with
    | false =>
      rw [reduce_other hown] at asked ⊢
      exact ih (first.steady hs) ht ((spares_works hs first hown).2 t agrees) run' asked
    | true =>
      rw [reduce_own hown] at asked ⊢
      cases run' with
      | idle => cases asked
      | next first' tail' =>
        obtain ⟨hasked, hrest⟩ := List.cons.inj asked
        obtain ⟨hagrees, hmatches⟩ := matches_works hs ht agrees first first' hasked hown
        exact .cons hmatches
          (ih (first.steady hs) (first'.steady ht) hagrees tail' hrest)

theorem exists_reduced (hs : s.Steady) (ht : t.Steady) (agrees : d.Agrees s t)
    (run : Trace Session.Works s log s') :
    ∃ log' t', Trace Session.Works t log' t' ∧
      log'.map Session.Deed.asked = (d.reduce log).map Session.Deed.asked ∧
      List.Forall₂ (fun m m' => d.orders m.orders = d.orders m'.orders) (d.reduce log) log' := by
  induction run generalizing t with
  | idle => exact ⟨[], t, .idle t, rfl, .nil⟩
  | @next s s₁ s' m rest first tail ih =>
    cases hown : d.keeps m.action with
    | false =>
      rw [reduce_other hown]
      exact ih (first.steady hs) ht ((spares_works hs first hown).2 t agrees)
    | true =>
      rw [reduce_own hown]
      obtain ⟨m', t₁, first', hasked, horders⟩ := exists_works agrees first
      obtain ⟨hagrees, -⟩ := matches_works hs ht agrees first first' hasked hown
      obtain ⟨log', t', tail', hrest, hsame⟩ := ih (first.steady hs) (first'.steady ht) hagrees
      exact ⟨m' :: log', t', .next first' tail', congrArg₂ List.cons hasked hrest,
        .cons horders hsame⟩

theorem same_of_matches (h : List.Forall₂ d.Matches log log')
    (horders : List.Forall₂ (fun m m' => d.orders m.orders = d.orders m'.orders) log log') :
    ((log.flatMap fun m => d.packets m.output) = log'.flatMap fun m => d.packets m.output) ∧
      (log.flatMap fun m => d.events m.output) = log'.flatMap fun m => d.events m.output := by
  induction h with
  | nil => exact ⟨rfl, rfl⟩
  | cons hmatches _ ih =>
    cases horders with
    | cons hfirst hrest =>
      obtain ⟨hpackets, hevents⟩ := hmatches.same hfirst
      obtain ⟨ihpackets, ihevents⟩ := ih hrest
      simp only [List.flatMap_cons, hpackets, hevents, ihpackets, ihevents, and_self]

/-- Nothing is missed of what is read off the part of a run, when the rest shows nothing. -/
theorem flatMap_reduce {β : Type} {f : Session.Deed → List β}
    (h : ∀ m ∈ log, d.keeps m.action = false → f m = []) :
    (d.reduce log).flatMap f = log.flatMap f := by
  induction log with
  | nil => rfl
  | cons m log ih =>
    obtain ⟨hm, hlog⟩ := List.forall_mem_cons.mp h
    rw [List.flatMap_cons, ← ih hlog]
    cases hown : d.keeps m.action with
    | false => rw [reduce_other hown, hm hown, List.nil_append]
    | true => rw [reduce_own hown, List.flatMap_cons]

end Runs

end Direction

/-- Neither direction of a served session is disturbed by the other. What concerns the other shows
nothing in it. The run that is reduced to what concerns it shows the same there, step for step, but
for the orders in which the looks at the clock go through the tables; and in the same orders, which
that run can go by too, it shows the same all along. -/
theorem directions_independent {o : Options} {start : Time} {opening : List Session.Moment}
    {s t : Session} {log : List Session.Deed}
    (reach : Trace Session.Performs (.new o start) opening s) (accepted : s.isAccepted = true)
    (off : o.keepAlive = 0) (run : Trace Session.Works s log t) (d : Direction) :
    (∀ m ∈ log, d.keeps m.action = false → d.Silent m.output) ∧
      (∀ log' t', Trace Session.Works s log' t' →
        log'.map Session.Deed.asked = (d.reduce log).map Session.Deed.asked →
        List.Forall₂ d.Matches (d.reduce log) log') ∧
      ∃ log' t', Trace Session.Works s log' t' ∧
        log'.map Session.Deed.asked = (d.reduce log).map Session.Deed.asked ∧
        (log'.flatMap fun m => d.packets m.output) = (log.flatMap fun m => d.packets m.output) ∧
        (log'.flatMap fun m => d.events m.output) = log.flatMap fun m => d.events m.output := by
  have steady := Session.steady_of_trace reach accepted off
  have agrees := Direction.agrees_refl d s
  have hsilent := Direction.silent_of_trace (d := d) steady run
  have hmatches {log' : List Session.Deed} {t' : Session} (run' : Trace Session.Works s log' t')
      (asked : log'.map Session.Deed.asked = (d.reduce log).map Session.Deed.asked) :=
    Direction.matches_of_trace steady steady agrees run run' asked
  refine ⟨hsilent, fun log' t' => hmatches, ?_⟩
  obtain ⟨log', t', run', asked, horders⟩ := Direction.exists_reduced steady steady agrees run
  have hsame := Direction.same_of_matches (hmatches run' asked) horders
  refine ⟨log', t', run', asked, ?_, ?_⟩
  · rw [← hsame.1]
    exact Direction.flatMap_reduce fun m hm other => (hsilent m hm other).packets
  · rw [← hsame.2]
    exact Direction.flatMap_reduce fun m hm other => (hsilent m hm other).events

/-- A client that does not watch its broker. -/
def trustingOptions : Options where
  address := "broker:1883"
  clientId := "c1"
  keepAlive := 0

/-- The connection on which the two messages cross. -/
def meeting : List Session.Moment :=
  [⟨0, .start trustingOptions.connectPacket none,
      .ofPackets [trustingOptions.connectPacket.toPacket], none⟩,
    ⟨1, .route (.ofBody (.connack false .accepted)), .ofEvent (.connected false), none⟩]

def parcel : PublishPacket := .new ⟨"out", .refl true⟩ (.exactlyOnce 1) [1]

def letter : PublishPacket := .new ⟨"in", .refl true⟩ (.exactlyOnce 1) [2]

def noOrders : Session.Orders := ⟨[], [], [], [], [], [], []⟩

/-- One message goes out and one comes in, both under the identifier 1. -/
def crossingDeeds : List Session.Deed :=
  [⟨2, .publish ⟨"out", .refl true⟩ [1] .exactlyOnce false, noOrders, .ofPackets [parcel.toPacket]⟩,
    ⟨3, .route letter.toPacket, { noOrders with awaitPubrec := [1] },
      .ofPackets [.ofBody (.pubrec 1)]⟩,
    ⟨9000, .tick, { noOrders with awaitPubrec := [1], awaitPubrel := [1] },
      .ofPackets [(parcel.setDup true).toPacket, .ofBody (.pubrec 1)]⟩,
    ⟨9001, .route (.ofBody (.pubrel 1)), { noOrders with awaitPubrec := [1], awaitPubrel := [1] },
      { packets := [.ofBody (.pubcomp 1)], events := [.received letter] }⟩,
    ⟨9002, .route (.ofBody (.pubrec 1)), { noOrders with awaitPubrec := [1] },
      .ofPackets [.ofBody (.pubrel 1)]⟩]

theorem trace_crossingDeeds :
    ∃ s t, Trace Session.Performs (.new trustingOptions 0) meeting s ∧ s.isAccepted = true ∧
      Trace Session.Works s crossingDeeds t := by
  have fit := Session.fit_orders
  exact ⟨_, _,
    .cons (.intro true 0 _ (fit _)) rfl <| .cons (.intro true 1 _ (fit _)) rfl <| .idle _, rfl,
    .cons (.intro 2 _ (fit _)) rfl <| .cons (.intro 3 _ (fit _)) rfl <|
    .cons (.intro 9000 _ (fit _)) rfl <| .cons (.intro 9001 _ (fit _)) rfl <|
    .cons (.intro 9002 _ (fit _)) rfl <| .idle _⟩

/-- With nothing asked of the client the message that comes in meets the same answers, and the one
that goes out is sent the same when nothing comes in. -/
theorem directions_independent_crossing :
    ∃ s t, Trace Session.Performs (.new trustingOptions 0) meeting s ∧ s.isAccepted = true ∧
      trustingOptions.keepAlive = 0 ∧ Trace Session.Works s crossingDeeds t ∧
      (∃ log' t', Trace Session.Works s log' t' ∧
        log'.map Session.Deed.asked =
          [(3, .route letter.toPacket), (9000, .tick), (9001, .route (.ofBody (.pubrel 1)))] ∧
        (log'.flatMap fun m => Direction.incoming.packets m.output) =
          [.ofBody (.pubrec 1), .ofBody (.pubrec 1), .ofBody (.pubcomp 1)] ∧
        (log'.flatMap fun m => Direction.incoming.events m.output) = [.received letter]) ∧
      ∃ log' t', Trace Session.Works s log' t' ∧
        log'.map Session.Deed.asked =
          [(2, .publish ⟨"out", .refl true⟩ [1] .exactlyOnce false), (9000, .tick),
            (9002, .route (.ofBody (.pubrec 1)))] ∧
        (log'.flatMap fun m => Direction.outgoing.packets m.output) =
          [parcel.toPacket, (parcel.setDup true).toPacket, .ofBody (.pubrel 1)] ∧
        (log'.flatMap fun m => Direction.outgoing.events m.output) = [] := by
  obtain ⟨s, t, reach, accepted, run⟩ := trace_crossingDeeds
  obtain ⟨-, -, inward⟩ := directions_independent reach accepted rfl run .incoming
  obtain ⟨-, -, outward⟩ := directions_independent reach accepted rfl run .outgoing
  exact ⟨s, t, reach, accepted, rfl, run, inward, outward⟩

end Mqtt
