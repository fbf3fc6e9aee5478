import Mqtt.Proofs.Moments

/-!
# Acknowledgements

Seven tables of a session share one space of identifiers. An acknowledgement of the broker is about
one identifier in the table of its own kind, or in the two tables that a PUBREC moves a message
between. Whatever else is tracked, under this identifier or another one, it leaves alone.
-/
namespace Mqtt

/-! ## One table -/

namespace RetryTable
variable {α : Type} [Exchange α] {t u : RetryTable α}

/-- Every exchange is tracked under its own identifier. -/
def Named (t : RetryTable α) : Prop := ∀ x c, t.get? x = some c → Exchange.id c.exchange = x

theorem named_empty (policy : RetryPolicy) : (empty policy : RetryTable α).Named := by
  intro x c hc
  rw [get?_empty] at hc
  cases hc

theorem Within.named (h : t.Within u) (named : u.Named) : t.Named := by
  intro x c hc
  obtain ⟨c', hc', hsame⟩ := h x c hc
  rw [hsame]
  exact named x c' hc'

theorem Named.enqueueContext (named : t.Named) (isOpen : Bool) (c : Context α) (now : Time) :
    (t.enqueueContext isOpen c now).state.Named := by
  cases isOpen with
  | false => exact named
  | true =>
    intro x d hd
    rw [get?_enqueueContext] at hd
    split at hd
    · next hid =>
      cases hd
      exact hid
    · exact named x d hd

theorem get?_enqueueContext_of_ne {c : Context α} {x : UInt16} (h : Exchange.id c.exchange ≠ x)
    (isOpen : Bool) (now : Time) : (t.enqueueContext isOpen c now).state.get? x = t.get? x := by
  cases isOpen with
  | false => rfl
  | true => rw [get?_enqueueContext, if_neg h]

/-- The table without the exchange that an acknowledgement ends. -/
def settle (t : RetryTable α) (id : UInt16) : RetryTable α :=
  match t.finalize id with
  | some (_, u) => u
  | none => t

omit [Exchange α] in
theorem get?_settle (t : RetryTable α) (id x : UInt16) :
    (t.settle id).get? x = if id = x then none else t.get? x := by
  rw [settle]
  cases hc : t.get? id with
  | none =>
    rw [finalize_of_none hc]
    dsimp only
    split
    · next hid => rw [← hid, hc]
    · rfl
  | some c =>
    rw [finalize_of_some hc]
    exact get?_erase t id x

theorem state_confirm {α : Type} [Awaited α] (t : RetryTable α) (event : α → Event) (reply : Reply)
    (id : UInt16) : (t.confirm event reply id).1 = t.settle id := by
  rw [confirm, settle]
  cases t.finalize id <;> rfl

end RetryTable

/-! ## Outgoing messages under their identifiers -/

/-- The messages that a PUBREC is about are tracked under their own identifiers. -/
structure Outgoing.Named (m : Outgoing) : Prop where
  pubrec : m.awaitPubrec.Named
  pubcomp : m.awaitPubcomp.Named

namespace Outgoing
variable {m n : Outgoing}

theorem named_new (policy : RetryPolicy) : (new policy).Named :=
  ⟨RetryTable.named_empty policy, RetryTable.named_empty policy⟩

theorem Within.named (h : m.Within n) (named : n.Named) : m.Named :=
  ⟨h.pubrec.named named.pubrec, h.pubcomp.named named.pubcomp⟩

theorem Named.publish (named : m.Named) (isOpen : Bool) (p : PublishPacket) (now : Time) :
    (m.publish isOpen p now).state.Named := by
  rw [Outgoing.publish]
  split
  · split <;> exact named
  · exact ⟨named.pubrec, named.pubcomp⟩
  · exact ⟨named.pubrec.enqueueContext isOpen _ now, named.pubcomp⟩

theorem Named.handlePubrec (named : m.Named) (isOpen : Bool) (id : UInt16) (now : Time) :
    (m.pubrec isOpen id now).state.Named := by
  have herase : ∀ {α : Type} [Exchange α] {t : RetryTable α}, t.Named → (t.erase id).Named :=
    fun h => (RetryTable.within_erase _ id).named h
  rw [Outgoing.pubrec]
  split
  · next c t h =>
    obtain ⟨c', -, hsome⟩ := Option.map_eq_some_iff.mp h
    cases hsome
    exact ⟨herase named.pubrec, named.pubcomp.enqueueContext isOpen _ now⟩
  · split
    · next c t h =>
      obtain ⟨c', -, hsome⟩ := Option.map_eq_some_iff.mp h
      cases hsome
      exact ⟨named.pubrec, (herase named.pubcomp).enqueueContext isOpen _ now⟩
    · exact named

end Outgoing

namespace Session

section Named
variable {s s' : Session} {a : Action}

theorem named_routeAccepted (named : s.outgoing.Named) (isOpen : Bool) (p : Packet) (now : Time) :
    (s.routeAccepted isOpen p now).state.outgoing.Named := by
  obtain ⟨header, body⟩ := p
  cases body with
  | puback id => exact (s.outgoing.within_puback id).named named
  | pubcomp id => exact (s.outgoing.within_pubcomp id).named named
  | pubrec id => exact named.handlePubrec isOpen id now
  | _ => exact named

theorem named_tickInOrder (named : s.outgoing.Named) (isOpen : Bool) (now : Time) (o : Orders) :
    (s.tickInOrder isOpen now o).state.outgoing.Named := by
  have hexchanges : ∀ t : Session, t.outgoing.Named →
      (t.tickExchangesInOrder isOpen now o).state.outgoing.Named := by
    intro t ht
    have hticked := (t.outgoing.within_tickInOrder isOpen now o.awaitPuback o.awaitPubrec
      o.awaitPubcomp).named ht
    exact Step.state_andThen (P := fun t : Session => t.outgoing.Named) ht fun _ =>
      Step.state_andThen (P := fun t : Session => t.outgoing.Named) hticked fun _ => hticked
  rw [tickInOrder]
  split
  · exact named
  · rw [outgoing_noteSent]
    refine Step.state_andThen (P := fun t : Session => t.outgoing.Named) named fun _ => ?_
    split
    · exact hexchanges _ named
    · exact named

theorem named_of_does (named : s.outgoing.Named) (does : s.Does a s') : s'.outgoing.Named := by
  cases does with
  | start isOpen now packet waiter =>
    rw [start, outgoing_noteSent]
    exact named
  | publish isOpen now topic payload qos retain =>
    simp only [publish, outgoing_noteSent]
    cases qos <;> exact Step.state_andThen (P := fun t : Session => t.outgoing.Named)
      (named.publish isOpen _ now) fun _ => named.publish isOpen _ now
  | subscribe isOpen now filter qos waiter =>
    rw [subscribe, outgoing_request]
    exact named
  | unsubscribe isOpen now filter waiter =>
    rw [unsubscribe, outgoing_request]
    exact named
  | disconnect isOpen now =>
    rw [disconnect, outgoing_noteSent]
    cases isOpen <;> exact named
  | route isOpen now p =>
    have h := s.routes isOpen p now
    generalize s.route isOpen p now = r at h
    cases h with
    | shakes _ state =>
      rw [state]
      exact named
    | early => exact named
    | served =>
      rw [outgoing_noteSent]
      exact named_routeAccepted named isOpen p now
  | tick isOpen now fit => exact named_tickInOrder named isOpen now _
  | reset => exact s.outgoing.within_reset.named named

theorem named_of_trace {o : Options} {start : Time} {log : List Action}
    (run : Trace Does (new o start) log s) : s.outgoing.Named :=
  run.preserves (P := fun s => s.outgoing.Named) (Outgoing.named_new o.policy)
    named_of_does

end Named

/-! ## What an acknowledgement may touch -/

/-- The tables of a session. -/
inductive Table
  | puback
  | pubrec
  | pubcomp
  | acknowledged
  | pubrel
  | subscribe
  | unsubscribe
  deriving DecidableEq, Repr

/-- What one of the tables tracks, and how far it came. -/
inductive Entry
  | publish (c : Context PublishExchange)
  | release (c : Context ReleaseExchange)
  | ack (c : Context AckExchange)
  | held (c : Context HeldExchange)
  | subscribe (c : Context SubscribeExchange)
  | unsubscribe (c : Context UnsubscribeExchange)
  deriving DecidableEq, Repr

def tracked? (s : Session) : Table → UInt16 → Option Entry
  | .puback, x => (s.outgoing.awaitPuback.get? x).map .publish
  | .pubrec, x => (s.outgoing.awaitPubrec.get? x).map .publish
  | .pubcomp, x => (s.outgoing.awaitPubcomp.get? x).map .release
  | .acknowledged, x => (s.incoming.acknowledged.get? x).map .ack
  | .pubrel, x => (s.incoming.awaitPubrel.get? x).map .held
  | .subscribe, x => (s.subscriptions.subscribes.get? x).map .subscribe
  | .unsubscribe, x => (s.subscriptions.unsubscribes.get? x).map .unsubscribe

/-- The packets with which a broker acknowledges what this side sent. -/
inductive Ack
  | puback (id : UInt16)
  | pubrec (id : UInt16)
  | pubcomp (id : UInt16)
  | suback (id : UInt16) (code : SubscribeCode)
  | unsuback (id : UInt16)
  deriving DecidableEq, Repr

namespace Ack

def body : Ack → Body
  | puback id => .puback id
  | pubrec id => .pubrec id
  | pubcomp id => .pubcomp id
  | suback id code => .suback id code
  | unsuback id => .unsuback id

def id : Ack → UInt16
  | puback id | pubrec id | pubcomp id | suback id _ | unsuback id => id

/-- The table that an acknowledgement takes its exchange from. -/
def table : Ack → Table
  | puback _ => .puback
  | pubrec _ => .pubrec
  | pubcomp _ => .pubcomp
  | suback _ _ => .subscribe
  | unsuback _ => .unsubscribe

/-- The tables that an acknowledgement is about. -/
def owners : Ack → List Table
  | pubrec _ => [.pubrec, .pubcomp]
  | a => [a.table]

theorem eq_pubrec_or_owners_eq (a : Ack) : (∃ id, a = pubrec id) ∨ a.owners = [a.table] := by
  cases a with
  | pubrec id => exact .inl ⟨id, rfl⟩
  | puback | pubcomp | suback | unsuback => exact .inr rfl

end Ack

section Frame
variable {s : Session} {k : Table} {x : UInt16}

theorem state_puback (s : Session) (isOpen : Bool) (header : FixedHeader) (id : UInt16)
    (now : Time) :
    (s.routeAccepted isOpen ⟨header, .puback id⟩ now).state =
      { s with outgoing := { s.outgoing with awaitPuback := s.outgoing.awaitPuback.settle id } } := by
  simp only [routeAccepted, Outgoing.puback, RetryTable.settle]
  cases s.outgoing.awaitPuback.finalize id <;> rfl

theorem state_pubcomp (s : Session) (isOpen : Bool) (header : FixedHeader) (id : UInt16)
    (now : Time) :
    (s.routeAccepted isOpen ⟨header, .pubcomp id⟩ now).state =
      { s with outgoing := { s.outgoing with awaitPubcomp := s.outgoing.awaitPubcomp.settle id } } := by
  simp only [routeAccepted, Outgoing.pubcomp, RetryTable.settle]
  cases s.outgoing.awaitPubcomp.finalize id <;> rfl

theorem state_suback (s : Session) (isOpen : Bool) (header : FixedHeader) (id : UInt16)
    (code : SubscribeCode) (now : Time) :
    (s.routeAccepted isOpen ⟨header, .suback id code⟩ now).state =
      { s with subscriptions :=
        { s.subscriptions with subscribes := s.subscriptions.subscribes.settle id } } := by
  simp only [routeAccepted, Subscriptions.suback_eq, RetryTable.state_confirm]
  rfl

theorem state_unsuback (s : Session) (isOpen : Bool) (header : FixedHeader) (id : UInt16)
    (now : Time) :
    (s.routeAccepted isOpen ⟨header, .unsuback id⟩ now).state =
      { s with subscriptions :=
        { s.subscriptions with unsubscribes := s.subscriptions.unsubscribes.settle id } } := by
  simp only [routeAccepted, Subscriptions.unsuback_eq, RetryTable.state_confirm]
  rfl

/-- An acknowledgement other than PUBREC takes its own exchange out, and no other. -/
theorem tracked?_of_settles {a : Ack} (h : a.owners = [a.table]) (isOpen : Bool)
    (header : FixedHeader) (now : Time) :
    (s.routeAccepted isOpen ⟨header, a.body⟩ now).state.tracked? k x =
      if k = a.table ∧ a.id = x then none else s.tracked? k x := by
  have hmap : ∀ {α : Type} (t : RetryTable α) (id : UInt16) (f : Context α → Entry),
      ((t.settle id).get? x).map f = if id = x then none else (t.get? x).map f := by
    intro α t id f
    rw [RetryTable.get?_settle]
    split <;> rfl
  cases a with
  | puback id =>
    rw [Ack.body, state_puback]
    cases k <;> simp [tracked?, Ack.table, Ack.id, hmap]
  | pubcomp id =>
    rw [Ack.body, state_pubcomp]
    cases k <;> simp [tracked?, Ack.table, Ack.id, hmap]
  | suback id code =>
    rw [Ack.body, state_suback]
    cases k <;> simp [tracked?, Ack.table, Ack.id, hmap]
  | unsuback id =>
    rw [Ack.body, state_unsuback]
    cases k <;> simp [tracked?, Ack.table, Ack.id, hmap]
  | pubrec id => cases h

/-- A PUBREC takes its message out of the first table, and can only enter it into the second. -/
theorem tracked?_of_pubrec (named : s.outgoing.Named) (isOpen : Bool) (header : FixedHeader)
    (id : UInt16) (now : Time) :
    (s.routeAccepted isOpen ⟨header, .pubrec id⟩ now).state.tracked? .pubrec id = none ∧
      ((k = .pubrec ∨ k = .pubcomp → x ≠ id) →
        (s.routeAccepted isOpen ⟨header, .pubrec id⟩ now).state.tracked? k x = s.tracked? k x) := by
  have hstate : (s.routeAccepted isOpen ⟨header, .pubrec id⟩ now).state =
      { s with outgoing := (s.outgoing.pubrec isOpen id now).state } := rfl
  rw [hstate, Outgoing.pubrec]
  cases hc : s.outgoing.awaitPubrec.get? id with
  | some c =>
    have hid : c.exchange.id = id := named.pubrec id c hc
    rw [RetryTable.finalize_of_some hc]
    refine ⟨by simp [tracked?, Step.inside], fun hx => ?_⟩
    cases k with
    | pubrec =>
      have hne : id ≠ x := Ne.symm (hx (.inl rfl))
      simp [tracked?, Step.inside, hne]
    | pubcomp =>
      have hne : c.exchange.id ≠ x := hid ▸ Ne.symm (hx (.inr rfl))
      exact congrArg (Option.map _) (RetryTable.get?_enqueueContext_of_ne hne isOpen now)
    | _ => rfl
  | none =>
    have hgone : s.tracked? .pubrec id = none := by rw [tracked?, hc]; rfl
    rw [RetryTable.finalize_of_none hc]
    cases hd : s.outgoing.awaitPubcomp.get? id with
    | none =>
      rw [RetryTable.take_of_none hd]
      exact ⟨hgone, fun _ => rfl⟩
    | some d =>
      have hid : d.exchange.id = id := named.pubcomp id d hd
      rw [RetryTable.take_of_some hd]
      refine ⟨hgone, fun hx => ?_⟩
      cases k with
      | pubcomp =>
        have hne : id ≠ x := Ne.symm (hx (.inr rfl))
        have herase :
            (s.outgoing.awaitPubcomp.erase id).get? x = s.outgoing.awaitPubcomp.get? x := by
          rw [RetryTable.get?_erase, if_neg hne]
        have hagain := RetryTable.get?_enqueueContext_of_ne (t := s.outgoing.awaitPubcomp.erase id)
          (c := d) (hid ▸ hne) isOpen now
        exact congrArg (Option.map _) (hagain.trans herase)
      | _ => rfl

/-- A session does nothing about an acknowledgement that none of its exchanges wait for. -/
theorem routeAccepted_of_unowned {a : Ack} (unowned : ∀ k ∈ a.owners, s.tracked? k a.id = none)
    (isOpen : Bool) (header : FixedHeader) (now : Time) :
    s.routeAccepted isOpen ⟨header, a.body⟩ now = .done s := by
  have hget : ∀ {α : Type} {t : RetryTable α} {f : Context α → Entry},
      (t.get? a.id).map f = none → t.get? a.id = none := Option.map_eq_none_iff.mp
  cases a with
  | puback id =>
    have hnone := RetryTable.finalize_of_none (hget (unowned .puback (.head _)))
    simp only [Ack.id] at hnone
    simp only [Ack.body, routeAccepted, Outgoing.puback, hnone]
    rfl
  | pubrec id =>
    have hfirst := RetryTable.finalize_of_none (hget (unowned .pubrec (.head _)))
    have hsecond := RetryTable.take_of_none (hget (unowned .pubcomp (.tail _ (.head _))))
    simp only [Ack.id] at hfirst hsecond
    simp only [Ack.body, routeAccepted, Outgoing.pubrec, hfirst, hsecond]
    rfl
  | pubcomp id =>
    have hnone := RetryTable.finalize_of_none (hget (unowned .pubcomp (.head _)))
    simp only [Ack.id] at hnone
    simp only [Ack.body, routeAccepted, Outgoing.pubcomp, hnone]
    rfl
  | suback id code =>
    have hnone : s.subscriptions.subscribes.get? id = none := hget (unowned .subscribe (.head _))
    simp only [Ack.body, routeAccepted, Subscriptions.suback_eq, RetryTable.confirm_of_none hnone]
    rfl
  | unsuback id =>
    have hnone : s.subscriptions.unsubscribes.get? id = none :=
      hget (unowned .unsubscribe (.head _))
    simp only [Ack.body, routeAccepted, Subscriptions.unsuback_eq, RetryTable.confirm_of_none hnone]
    rfl

/-- Routing an acknowledgement leaves alone whatever is tracked under another identifier or in a
table of another kind, ends the exchange it is about, and does nothing at all when there is none. -/
theorem acknowledges_own_exchange {o : Options} {start : Time} {log : List Action}
    (run : Trace Does (new o start) log s) (accepted : s.isAccepted = true) (a : Ack) (isOpen : Bool)
    (header : FixedHeader) (now : Time) :
    (∀ k x, (k ∈ a.owners → x ≠ a.id) →
        (s.route isOpen ⟨header, a.body⟩ now).state.tracked? k x = s.tracked? k x) ∧
      (s.route isOpen ⟨header, a.body⟩ now).state.tracked? a.table a.id = none ∧
      ((∀ k ∈ a.owners, s.tracked? k a.id = none) →
        s.route isOpen ⟨header, a.body⟩ now = .done s) := by
  have named := named_of_trace run
  have hroute : s.route isOpen ⟨header, a.body⟩ now =
      noteSent (s.routeAccepted isOpen ⟨header, a.body⟩ now) now := by
    rw [route]
    cases a <;> exact if_pos accepted
  have htracked : ∀ k x, (s.route isOpen ⟨header, a.body⟩ now).state.tracked? k x =
      (s.routeAccepted isOpen ⟨header, a.body⟩ now).state.tracked? k x := by
    intro k x
    rw [hroute, noteSent]
    split <;> rfl
  have hframe : (∀ k x, (k ∈ a.owners → x ≠ a.id) →
        (s.routeAccepted isOpen ⟨header, a.body⟩ now).state.tracked? k x = s.tracked? k x) ∧
      (s.routeAccepted isOpen ⟨header, a.body⟩ now).state.tracked? a.table a.id = none := by
    obtain ⟨id, rfl⟩ | settles := a.eq_pubrec_or_owners_eq
    · refine ⟨fun k x hx => ?_,
        (tracked?_of_pubrec (k := .pubrec) (x := id) named isOpen header id now).1⟩
      refine (tracked?_of_pubrec named isOpen header id now).2 fun hk => hx ?_
      obtain rfl | rfl := hk <;> simp [Ack.owners]
    · refine ⟨fun k x hx => ?_, ?_⟩
      · rw [tracked?_of_settles settles, if_neg]
        intro hk
        obtain ⟨rfl, rfl⟩ := hk
        exact hx (settles ▸ List.mem_singleton.mpr rfl) rfl
      · rw [tracked?_of_settles settles, if_pos ⟨rfl, rfl⟩]
  obtain ⟨hothers, hown⟩ := hframe
  simp only [htracked]
  refine ⟨hothers, hown, fun unowned => ?_⟩
  rw [hroute, routeAccepted_of_unowned unowned]
  rfl

end Frame

/-- A message on its way in and another on its way out, both under the identifier 1. -/
def crossing : List Action :=
  [.start (.new "c1") none, .route (.ofBody (.connack false .accepted)),
    .publish ⟨"out", .refl true⟩ [1] .exactlyOnce false, .route (.ofBody (.pubrec 1)),
    .route (PublishPacket.new ⟨"in", .refl true⟩ (.exactlyOnce 1) [2]).toPacket]

theorem trace_crossing :
    ∃ s, Trace Does (new plainOptions 0) crossing s ∧ s.isAccepted = true ∧
      (s.tracked? .pubcomp 1).isSome = true ∧ (s.tracked? .pubrel 1).isSome = true ∧
      s.tracked? .puback 1 = none := by
  refine ⟨_, .next (.start true 0 _ _) <| .next (.route true 1 _) <|
    .next (.publish true 2 _ _ _ _) <| .next (.route true 3 _) <|
    .next (.route true 4 _) <| .idle _, ?_, ?_, ?_, ?_⟩
  all_goals decide

/-- The PUBCOMP of the one leaves the other alone, and a PUBACK is about neither. -/
theorem acknowledges_own_exchange_crossing :
    ∃ s, Trace Does (new plainOptions 0) crossing s ∧ s.isAccepted = true ∧
      (s.tracked? .pubcomp 1).isSome = true ∧ (s.tracked? .pubrel 1).isSome = true ∧
      (s.route true (.ofBody (.pubcomp 1)) 5).state.tracked? .pubcomp 1 = none ∧
      (s.route true (.ofBody (.pubcomp 1)) 5).state.tracked? .pubrel 1 = s.tracked? .pubrel 1 ∧
      s.route true (.ofBody (.puback 1)) 5 = .done s := by
  obtain ⟨s, run, accepted, hpubcomp, hpubrel, hpuback⟩ := trace_crossing
  obtain ⟨hframe, hends, -⟩ := acknowledges_own_exchange run accepted (.pubcomp 1) true _ 5
  obtain ⟨-, -, hnothing⟩ := acknowledges_own_exchange run accepted (.puback 1) true _ 5
  refine ⟨s, run, accepted, hpubcomp, hpubrel, hends, hframe .pubrel 1 (by decide), hnothing ?_⟩
  intro k hk
  obtain rfl := List.mem_singleton.mp hk
  exact hpuback

end Session

end Mqtt
