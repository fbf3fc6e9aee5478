import Mqtt.Proofs.FreeIds

/-!
# Traffic of the exchanges

What the exchanges of a session put out, whether packets meet an open queue or a closed one: packets
of their own, events of messages and requests, and answers to the calls that made requests. The
handshake is none of their business.
-/
namespace Mqtt

def Packet.isConnect (p : Packet) : Bool :=
  match p.body with
  | .connect _ => true
  | _ => false

/-- Whether a packet belongs to a message or a request, and not to the connection. -/
def Packet.isExchange (p : Packet) : Bool :=
  match p.body with
  | .publish _ | .puback _ | .pubrec _ | .pubrel _ | .pubcomp _ | .subscribe _ | .unsubscribe _ => true
  | _ => false

theorem Packet.isConnect_of_isExchange {p : Packet} (h : p.isExchange = true) :
    p.isConnect = false := by
  obtain ⟨header, body⟩ := p
  cases body <;> first | rfl | cases h

/-- Whether the application is told of a message or a request, and not of the connection. -/
def Event.isExchange : Event → Bool
  | .received _ | .published _ _ | .subscribed _ _ _ | .unsubscribed _ _ => true
  | .connected _ | .disconnected _ => false

/-! ## Output -/

/-- What exchanges and those beside them may put out, when they send such packets and `callers` are
the calls that wait for them. -/
structure Output.Traffic (sends : Packet → Prop) (callers : Waiter → Prop) (o : Output) : Prop where
  packets : ∀ p ∈ o.packets, sends p
  events : ∀ e ∈ o.events, e.isExchange = true
  answers : ∀ a ∈ o.answers, callers a.waiter

/-- What the exchanges alone may put out. -/
abbrev Output.Exchanges (callers : Waiter → Prop) (o : Output) : Prop :=
  o.Traffic (fun p => p.isExchange = true) callers

namespace Output
variable {sends sends' : Packet → Prop} {callers : Waiter → Prop} {a b : Output}

theorem traffic_empty : Traffic sends callers {} := by
  constructor <;> simp

theorem Traffic.mono (h : a.Traffic sends callers) (hsends : ∀ p, sends p → sends' p) :
    a.Traffic sends' callers :=
  ⟨fun p hp => hsends p (h.packets p hp), h.events, h.answers⟩

theorem Traffic.append (ha : a.Traffic sends callers) (hb : b.Traffic sends callers) :
    (a ++ b).Traffic sends callers where
  packets p hp := (List.mem_append.mp hp).elim (ha.packets p) (hb.packets p)
  events e he := (List.mem_append.mp he).elim (ha.events e) (hb.events e)
  answers x hx := (List.mem_append.mp hx).elim (ha.answers x) (hb.answers x)

theorem traffic_ofPackets {ps : List Packet} (h : ∀ p ∈ ps, sends p) :
    (ofPackets ps).Traffic sends callers := by
  constructor <;> simp_all [ofPackets]

theorem traffic_ofEvents {es : List Event} (h : ∀ e ∈ es, e.isExchange = true) :
    (ofEvents es).Traffic sends callers := by
  constructor <;> simp_all [ofEvents]

theorem traffic_ofEvent {e : Event} (h : e.isExchange = true) : (ofEvent e).Traffic sends callers :=
  traffic_ofEvents (List.forall_mem_singleton.mpr h)

theorem traffic_ofAnswers {as : List Answer} (h : ∀ x ∈ as, callers x.waiter) :
    (ofAnswers as).Traffic sends callers := by
  constructor <;> simp_all [ofAnswers]

end Output

/-- Whatever came of the first step, what both may put out is put out. -/
theorem Step.traffic_andThen {σ ε α β : Type} {sends : Packet → Prop} {callers : Waiter → Prop}
    {a : Step σ ε α} {f : σ → α → Step σ ε β} (h : a.output.Traffic sends callers)
    (hf : ∀ x, a.result = .ok x → (f a.state x).output.Traffic sends callers) :
    (a.andThen f).output.Traffic sends callers := by
  rw [andThen]
  split
  · exact h
  · next x hx => exact h.append (hf x hx)

/-! ## One table -/

namespace RetryTable
variable {α : Type} [Exchange α] {callers : Waiter → Prop} {P : α → Prop} {t u : RetryTable α}

omit [Exchange α] in
/-- All that is tracked has a property. -/
def All (P : α → Prop) (t : RetryTable α) : Prop := ∀ x c, t.get? x = some c → P c.exchange

omit [Exchange α] in
theorem all_empty (policy : RetryPolicy) : (empty policy : RetryTable α).All P := by
  intro x c hc
  rw [get?_empty] at hc
  cases hc

omit [Exchange α] in
theorem Within.all (h : t.Within u) (hall : u.All P) : t.All P := by
  intro x c hc
  obtain ⟨c', hc', hsame⟩ := h x c hc
  exact hsame ▸ hall x c' hc'

theorem all_enqueue (hall : t.All P) {e : α} (he : P e) (isOpen : Bool) (now : Time) :
    (t.enqueue isOpen e now).state.All P := by
  cases isOpen with
  | false => exact hall
  | true =>
    intro x c hc
    rw [enqueue, get?_enqueueContext] at hc
    split at hc
    · cases hc
      exact he
    · exact hall x c hc

omit [Exchange α] in
theorem all_toList (hall : t.All P) : ∀ c ∈ t.toList, P c.exchange := by
  intro c hc
  rw [toList_eq, List.mem_filterMap] at hc
  obtain ⟨x, -, hx⟩ := hc
  exact hall x c hx

/-- That an exchange is carried on by its own packets. -/
def Plain (α : Type) [Exchange α] : Prop :=
  ∀ (e : α) (attempt : Nat), (Exchange.packet e attempt).isExchange = true

theorem traffic_enqueueContext (plain : Plain α) (isOpen : Bool) (c : Context α) (now : Time) :
    (t.enqueueContext isOpen c now).output.Exchanges callers := by
  cases isOpen with
  | false => exact Output.traffic_empty
  | true => exact Output.traffic_ofPackets (List.forall_mem_singleton.mpr (plain c.exchange 1))

/-- A pass over a table sends none but attempts and answers none but what it tracks. -/
theorem traffic_tickInOrder (plain : Plain α) (isOpen : Bool) (now : Time) (order : List UInt16) :
    (t.tickInOrder isOpen now order).output.Exchanges callers := by
  have hsweep : ∀ p ∈ (t.sweep isOpen now order).sent, p.isExchange = true := by
    refine t.sweep_keeps (P := fun s => ∀ p ∈ s.sent, p.isExchange = true) isOpen now order
      (by simp) fun hs hvisit => ?_
    cases hvisit with
    | writes => exact List.forall_mem_cons.mpr ⟨plain _ _, hs⟩
    | rests | givesUp | fails => exact hs
  have hsent : ∀ p ∈ (t.sweep isOpen now order).sent.reverse, p.isExchange = true :=
    fun p hp => hsweep p (List.mem_reverse.mp hp)
  rw [tickInOrder]
  dsimp only
  split <;> exact Output.traffic_ofPackets hsent

theorem all_exhausted (hall : t.All P) {isOpen : Bool} {now : Time} {order : List UInt16}
    {es : List (Context α)} (h : (t.tickInOrder isOpen now order).result = .ok es) :
    ∀ c ∈ es, P c.exchange := by
  rw [tickInOrder] at h
  dsimp only at h
  split at h
  · cases h
  · obtain rfl := Except.ok.inj h
    intro c hc
    obtain ⟨x, -, hx⟩ := List.mem_filterMap.mp hc
    exact (within_sweep t isOpen now order).all hall x c hx

/-- A pass over a table, and what is told of the exchanges that it gives up. -/
theorem traffic_pass (plain : Plain α) (hall : t.All P) (isOpen : Bool) (now : Time)
    (order : List UInt16) {put : List (Context α) → Output}
    (hput : ∀ es : List (Context α), (∀ c ∈ es, P c.exchange) → (put es).Exchanges callers) :
    ((t.tickInOrder isOpen now order).andThen fun t es =>
      (.emit t (put es) : Step (RetryTable α) ClientError Unit)).output.Exchanges callers :=
  Step.traffic_andThen (traffic_tickInOrder plain isOpen now order) fun _ hes =>
    hput _ (all_exhausted hall hes)

end RetryTable

/-! ## The parts of a session -/

namespace Outgoing
variable {callers : Waiter → Prop} {m : Outgoing}

theorem traffic_publish (isOpen : Bool) (p : PublishPacket) (now : Time) :
    (m.publish isOpen p now).output.Exchanges callers := by
  rw [publish]
  split
  · split
    · exact ⟨List.forall_mem_singleton.mpr rfl, List.forall_mem_singleton.mpr rfl, by simp [Step.emit]⟩
    · exact Output.traffic_empty
  · exact RetryTable.traffic_enqueueContext (fun _ _ => rfl) isOpen _ now
  · exact RetryTable.traffic_enqueueContext (fun _ _ => rfl) isOpen _ now

theorem traffic_puback (id : UInt16) : (m.puback id).2.Exchanges callers := by
  rw [puback]
  split
  · exact Output.traffic_empty
  · exact Output.traffic_ofEvent rfl

theorem traffic_pubrec (isOpen : Bool) (id : UInt16) (now : Time) :
    (m.pubrec isOpen id now).output.Exchanges callers := by
  rw [pubrec]
  split
  · exact RetryTable.traffic_enqueueContext (fun _ _ => rfl) isOpen _ now
  · split
    · exact RetryTable.traffic_enqueueContext (fun _ _ => rfl) isOpen _ now
    · exact Output.traffic_empty

theorem traffic_pubcomp (id : UInt16) : (m.pubcomp id).2.Exchanges callers := by
  rw [pubcomp]
  split
  · exact Output.traffic_empty
  · exact Output.traffic_ofEvent rfl

theorem traffic_failures {α : Type} [Exchange α] (es : List (Context α)) :
    (failures es).Exchanges callers := by
  refine Output.traffic_ofEvents fun e he => ?_
  obtain ⟨c, -, rfl⟩ := List.mem_map.mp he
  rfl

theorem traffic_tickInOrder (isOpen : Bool) (now : Time) (first second third : List UInt16) :
    (m.tickInOrder isOpen now first second third).output.Exchanges callers := by
  have hpass : ∀ {α : Type} [Exchange α] (plain : RetryTable.Plain α) (t : RetryTable α)
      (order : List UInt16), ((t.tickInOrder isOpen now order).andThen fun t es =>
        (.emit t (failures es) : Step (RetryTable α) ClientError Unit)).output.Exchanges callers :=
    fun plain t order => RetryTable.traffic_pass (P := fun _ => True) plain
      (fun _ _ _ => trivial) isOpen now order fun es _ => traffic_failures es
  exact Step.traffic_andThen (hpass (fun _ _ => rfl) _ first) fun _ _ =>
    Step.traffic_andThen (hpass (fun _ _ => rfl) _ second) fun _ _ =>
      hpass (fun _ _ => rfl) _ third

end Outgoing

namespace Incoming
variable {callers : Waiter → Prop} {m : Incoming}

theorem traffic_publish (isOpen : Bool) (p : PublishPacket) (now : Time) :
    (m.publish isOpen p now).output.Exchanges callers := by
  rw [publish]
  split
  · exact Output.traffic_ofEvent rfl
  · exact Step.traffic_andThen (RetryTable.traffic_enqueueContext (fun _ _ => rfl) isOpen _ now)
      fun _ _ => Output.traffic_ofEvent rfl
  · exact RetryTable.traffic_enqueueContext (fun _ _ => rfl) isOpen _ now

theorem traffic_pubrel (isOpen : Bool) (id : UInt16) :
    (m.pubrel isOpen id).output.Exchanges callers := by
  rw [pubrel]
  refine Step.traffic_andThen ?_ fun _ _ => ?_
  · split
    · exact Output.traffic_ofEvent rfl
    · exact Output.traffic_empty
  · split
    · exact Output.traffic_ofPackets (List.forall_mem_singleton.mpr rfl)
    · exact Output.traffic_empty

theorem traffic_tickInOrder (isOpen : Bool) (now : Time) (first second : List UInt16) :
    (m.tickInOrder isOpen now first second).output.Exchanges callers := by
  have hpass : ∀ {α : Type} [Exchange α] (plain : RetryTable.Plain α) (t : RetryTable α)
      (order : List UInt16), ((t.tickInOrder isOpen now order).andThen fun t _ =>
        (.done t : Step (RetryTable α) ClientError Unit)).output.Exchanges callers :=
    fun plain t order => Step.traffic_andThen (RetryTable.traffic_tickInOrder plain isOpen now order)
      fun _ _ => Output.traffic_empty
  exact Step.traffic_andThen (hpass (fun _ _ => rfl) _ first) fun _ _ =>
    hpass (fun _ _ => rfl) _ second

end Incoming

/-! ## Requests -/

namespace RetryTable
variable {α : Type} [Awaited α] {callers : Waiter → Prop} {t : RetryTable α}

/-- The requests of a table were made by these calls. -/
abbrev HeldBy (callers : Waiter → Prop) (t : RetryTable α) : Prop :=
  t.All fun e => callers (Awaited.waiter e)

theorem HeldBy.waiters (held : t.HeldBy callers) : ∀ w ∈ t.waiters, callers w := by
  intro w hw
  obtain ⟨c, hc, rfl⟩ := List.mem_map.mp hw
  exact all_toList held c hc

theorem traffic_lost {ws : List Waiter} (h : ∀ w ∈ ws, callers w) :
    (Subscriptions.lost ws).Exchanges callers := by
  refine Output.traffic_ofAnswers fun a ha => ?_
  obtain ⟨w, hw, rfl⟩ := List.mem_map.mp ha
  exact h w hw

theorem HeldBy.ask (held : t.HeldBy callers) (plain : Plain α) (isOpen : Bool) {e : α}
    (he : callers (Awaited.waiter e)) (now : Time) :
    (t.ask isOpen e now).state.HeldBy callers ∧ (t.ask isOpen e now).output.Exchanges callers := by
  constructor
  · rw [state_ask]
    exact all_enqueue held he isOpen now
  · refine Step.traffic_andThen (traffic_enqueueContext plain isOpen _ now) fun _ _ =>
      traffic_lost fun w hw => ?_
    obtain ⟨c, hc, rfl⟩ := List.mem_map.mp hw
    exact held _ c (Option.mem_toList.mp hc)

theorem HeldBy.confirm (held : t.HeldBy callers) {event : α → Event}
    (hevent : ∀ e, (event e).isExchange = true) (reply : Reply) (id : UInt16) :
    (t.confirm event reply id).2.Exchanges callers := by
  cases hc : t.get? id with
  | none =>
    rw [confirm_of_none hc]
    exact Output.traffic_empty
  | some c =>
    rw [confirm_of_some hc]
    exact ⟨by simp, List.forall_mem_singleton.mpr (hevent c.exchange),
      List.forall_mem_singleton.mpr (held id c hc)⟩

theorem HeldBy.renewInOrder (held : t.HeldBy callers) (plain : Plain α) (isOpen : Bool) (now : Time)
    (order : List UInt16) : (t.renewInOrder isOpen now order).output.Exchanges callers := by
  refine traffic_pass plain held isOpen now order fun es hes =>
    Output.traffic_ofAnswers fun a ha => ?_
  obtain ⟨c, hc, rfl⟩ := List.mem_map.mp ha
  exact hes c hc

end RetryTable

/-- The requests that wait were made by these calls. -/
structure Subscriptions.HeldBy (callers : Waiter → Prop) (s : Subscriptions) : Prop where
  subscribes : s.subscribes.HeldBy callers
  unsubscribes : s.unsubscribes.HeldBy callers

namespace Subscriptions
variable {callers : Waiter → Prop} {s s' : Subscriptions}

theorem heldBy_new (policy : RetryPolicy) : (new policy).HeldBy callers :=
  ⟨RetryTable.all_empty policy, RetryTable.all_empty policy⟩

theorem heldBy_any (s : Subscriptions) : s.HeldBy fun _ => True :=
  ⟨fun _ _ _ => trivial, fun _ _ _ => trivial⟩

theorem Within.heldBy (h : s'.Within s) (held : s.HeldBy callers) : s'.HeldBy callers :=
  ⟨h.subscribes.all held.subscribes, h.unsubscribes.all held.unsubscribes⟩

theorem HeldBy.reset (held : s.HeldBy callers) : s.reset.2.Exchanges callers :=
  RetryTable.traffic_lost fun w hw =>
    (List.mem_append.mp hw).elim (held.subscribes.waiters w) (held.unsubscribes.waiters w)

theorem HeldBy.subscribe (held : s.HeldBy callers) (isOpen : Bool) (request : Subscribe)
    {waiter : Waiter} (hwaiter : callers waiter) (now : Time) :
    (s.subscribe isOpen request waiter now).state.HeldBy callers ∧
      (s.subscribe isOpen request waiter now).output.Exchanges callers := by
  obtain ⟨hheld, htraffic⟩ :=
    held.subscribes.ask (fun _ _ => rfl) isOpen (e := ⟨request, waiter⟩) hwaiter now
  exact ⟨⟨hheld, held.unsubscribes⟩, htraffic⟩

theorem HeldBy.unsubscribe (held : s.HeldBy callers) (isOpen : Bool) (request : Unsubscribe)
    {waiter : Waiter} (hwaiter : callers waiter) (now : Time) :
    (s.unsubscribe isOpen request waiter now).state.HeldBy callers ∧
      (s.unsubscribe isOpen request waiter now).output.Exchanges callers := by
  obtain ⟨hheld, htraffic⟩ :=
    held.unsubscribes.ask (fun _ _ => rfl) isOpen (e := ⟨request, waiter⟩) hwaiter now
  exact ⟨⟨held.subscribes, hheld⟩, htraffic⟩

theorem HeldBy.suback (held : s.HeldBy callers) (id : UInt16) (code : SubscribeCode) :
    (s.suback id code).2.Exchanges callers := by
  rw [suback_eq]
  exact held.subscribes.confirm (fun _ => rfl) _ id

theorem HeldBy.unsuback (held : s.HeldBy callers) (id : UInt16) :
    (s.unsuback id).2.Exchanges callers := by
  rw [unsuback_eq]
  exact held.unsubscribes.confirm (fun _ => rfl) _ id

theorem HeldBy.tickInOrder (held : s.HeldBy callers) (isOpen : Bool) (now : Time)
    (first second : List UInt16) :
    (s.tickInOrder isOpen now first second).output.Exchanges callers :=
  Step.traffic_andThen (held.subscribes.renewInOrder (fun _ _ => rfl) isOpen now first) fun _ _ =>
    held.unsubscribes.renewInOrder (fun _ _ => rfl) isOpen now second

end Subscriptions

/-! ## A session -/

namespace Session

/-- A step of the exchanges: the handshake stays as it is, and what waits is still waited for by
these calls. -/
structure Serves (sends : Packet → Prop) (callers : Waiter → Prop) (s s' : Session)
    (output : Output) : Prop where
  handshake : s'.handshake = s.handshake
  held : s'.subscriptions.HeldBy callers
  traffic : output.Traffic sends callers

/-- A call on the session. -/
inductive Call
  | publish (topic : TopicName) (payload : Wire.Bytes) (qos : QoS) (retain : Bool)
  | subscribe (filter : TopicFilter) (qos : QoS) (waiter : Waiter)
  | unsubscribe (filter : TopicFilter) (waiter : Waiter)

/-- Who waits for the end of a call. -/
def Call.waiter? : Call → Option Waiter
  | publish _ _ _ _ => none
  | subscribe _ _ waiter | unsubscribe _ waiter => some waiter

def call (s : Session) (isOpen : Bool) (now : Time) : Call → Step Session ClientError UInt16
  | .publish topic payload qos retain => s.publish isOpen topic payload qos retain now
  | .subscribe filter qos waiter => s.subscribe isOpen filter qos waiter now
  | .unsubscribe filter waiter => s.unsubscribe isOpen filter waiter now

section Serves
variable {sends sends' : Packet → Prop} {callers : Waiter → Prop} {s s' : Session}

theorem Serves.mono {output : Output} (h : s.Serves sends callers s' output)
    (hsends : ∀ p, sends p → sends' p) : s.Serves sends' callers s' output :=
  ⟨h.handshake, h.held, h.traffic.mono hsends⟩

theorem Serves.noteSent {ε α : Type} {r : Step Session ε α}
    (h : s.Serves sends callers r.state r.output) (now : Time) :
    s.Serves sends callers (noteSent r now).state (noteSent r now).output := by
  rw [Session.noteSent]
  split
  · exact h
  · exact ⟨h.handshake, h.held, h.traffic⟩

theorem Serves.andThen {ε α β : Type} {r : Step Session ε α} {f : Session → α → Step Session ε β}
    (h : s.Serves sends callers r.state r.output)
    (hf : ∀ x, s.Serves sends callers (f r.state x).state (f r.state x).output) :
    s.Serves sends callers (r.andThen f).state (r.andThen f).output := by
  rw [Step.andThen]
  split
  · exact h
  · next x _ => exact ⟨(hf x).handshake, (hf x).held, h.traffic.append (hf x).traffic⟩

/-- A call that sent its request answers the identifier at once. -/
theorem Serves.answering {r : Step Session ClientError Unit} {id : UInt16}
    (h : s.Serves sends callers r.state r.output) (now : Time) :
    s.Serves sends callers (Session.noteSent (r.andThen fun s _ => .value s id) now).state
      (Session.noteSent (r.andThen fun s _ => .value s id) now).output :=
  Serves.noteSent (h.andThen fun _ => ⟨h.handshake, h.held, Output.traffic_empty⟩) now

theorem serves_call (held : s.subscriptions.HeldBy callers) (isOpen : Bool) (now : Time) {k : Call}
    (hk : ∀ w, k.waiter? = some w → callers w) :
    s.Serves (·.isExchange = true) callers (s.call isOpen now k).state
      (s.call isOpen now k).output := by
  cases k with
  | publish topic payload qos retain =>
    cases qos <;> refine Serves.answering ?_ now <;>
      exact ⟨rfl, held, s.outgoing.traffic_publish isOpen _ now⟩
  | subscribe filter qos waiter =>
    obtain ⟨hheld, htraffic⟩ :=
      held.subscribe isOpen ⟨s.nextId.1, filter, qos⟩ (hk waiter rfl) now
    refine Serves.answering ?_ now
    exact ⟨rfl, hheld, htraffic⟩
  | unsubscribe filter waiter =>
    obtain ⟨hheld, htraffic⟩ := held.unsubscribe isOpen ⟨s.nextId.1, filter⟩ (hk waiter rfl) now
    refine Serves.answering ?_ now
    exact ⟨rfl, hheld, htraffic⟩

theorem serves_routeAccepted (held : s.subscriptions.HeldBy callers) (isOpen : Bool) (p : Packet)
    (now : Time) :
    s.Serves (·.isExchange = true) callers (s.routeAccepted isOpen p now).state
      (s.routeAccepted isOpen p now).output := by
  obtain ⟨header, body⟩ := p
  cases body with
  | publish b => exact ⟨rfl, held, s.incoming.traffic_publish isOpen ⟨header, b⟩ now⟩
  | pubrel id => exact ⟨rfl, held, s.incoming.traffic_pubrel isOpen id⟩
  | puback id => exact ⟨rfl, held, s.outgoing.traffic_puback id⟩
  | pubrec id => exact ⟨rfl, held, s.outgoing.traffic_pubrec isOpen id now⟩
  | pubcomp id => exact ⟨rfl, held, s.outgoing.traffic_pubcomp id⟩
  | suback id code =>
    exact ⟨rfl, (s.subscriptions.within_suback id code).heldBy held, held.suback id code⟩
  | unsuback id => exact ⟨rfl, (s.subscriptions.within_unsuback id).heldBy held, held.unsuback id⟩
  | pingresp => exact ⟨rfl, held, Output.traffic_empty⟩
  | connect | connack | subscribe | unsubscribe | pingreq | disconnect =>
    exact ⟨rfl, held, Output.traffic_empty⟩

theorem serves_tickExchangesInOrder (held : s.subscriptions.HeldBy callers) (isOpen : Bool)
    (now : Time) (o : Orders) :
    s.Serves (·.isExchange = true) callers (s.tickExchangesInOrder isOpen now o).state
      (s.tickExchangesInOrder isOpen now o).output := by
  have hheld := (s.subscriptions.within_tickInOrder isOpen now o.subscribes o.unsubscribes).heldBy held
  refine Serves.andThen ⟨rfl, hheld, held.tickInOrder isOpen now _ _⟩ fun _ => ?_
  refine Serves.andThen ⟨rfl, hheld, s.outgoing.traffic_tickInOrder isOpen now _ _ _⟩ fun _ => ?_
  exact ⟨rfl, hheld, s.incoming.traffic_tickInOrder isOpen now _ _⟩

/-- A PINGREQ is queued, nothing is, or it cannot be. -/
theorem traffic_keepAlive (k : KeepAlive) (isOpen : Bool) (lastSent now : Time) :
    (k.tick isOpen lastSent now).output.Traffic (·.isConnect = false) callers := by
  rw [KeepAlive.tick]
  split
  · exact Output.traffic_empty
  · split
    · exact Output.traffic_empty
    · split
      · exact Output.traffic_empty
      · split
        · exact Output.traffic_ofPackets (List.forall_mem_singleton.mpr rfl)
        · exact Output.traffic_empty

theorem serves_tickInOrder (accepted : s.isAccepted = true) (held : s.subscriptions.HeldBy callers)
    (isOpen : Bool) (now : Time) (o : Orders) :
    s.Serves (·.isConnect = false) callers (s.tickInOrder isOpen now o).state
      (s.tickInOrder isOpen now o).output := by
  rw [tickInOrder, if_neg (by simp [accepted])]
  refine Serves.noteSent (Serves.andThen ?_ fun _ => ?_) now
  · exact ⟨rfl, held, traffic_keepAlive s.keepAlive isOpen s.lastSent now⟩
  · split
    · let s' : Session := { s with keepAlive := (s.keepAlive.tick isOpen s.lastSent now).state }
      have held' : s'.subscriptions.HeldBy callers := held
      obtain ⟨hhandshake, hheld, htraffic⟩ :=
        (serves_tickExchangesInOrder held' isOpen now o).mono fun _ => Packet.isConnect_of_isExchange
      exact ⟨hhandshake, hheld, htraffic⟩
    · exact ⟨rfl, held, Output.traffic_empty⟩

end Serves

end Session

end Mqtt
