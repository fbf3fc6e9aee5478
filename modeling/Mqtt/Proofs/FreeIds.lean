import Mathlib.Data.List.Perm.Subperm
import Mqtt.Proofs.Trace
import Mqtt.Proofs.Unfinished

/-!
# Identifiers in use

An identifier is given to a new exchange only while no unfinished exchange has it. The counter goes
round all of them before it comes back, so as long as one is free it is found, wherever the counter
stands.
-/
namespace Mqtt

/-! ## The counter -/

namespace PacketIds
variable {ids : PacketIds} {busy : UInt16 → Bool}

/-- What the counter gives out after `k` others. -/
def nth (ids : PacketIds) : Nat → UInt16
  | 0 => ids.allocate.1
  | k + 1 => nth ids.allocate.2 k

/-- Where the counter stands on the round from 1 to 65535. -/
def position (ids : PacketIds) : Nat := ids.next.toNat - 1

theorem toNat_allocate (ids : PacketIds) : ids.allocate.1.toNat = ids.position % 65535 + 1 := by
  have hlt := ids.next.toNat_lt
  rw [allocate, position]
  split
  · next hzero => simp [hzero]
  · next hzero =>
    have hne : ids.next.toNat ≠ 0 := fun h => hzero (UInt16.toNat_inj.mp h)
    dsimp only
    omega

theorem position_allocate (ids : PacketIds) :
    ids.allocate.2.position % 65535 = (ids.position + 1) % 65535 := by
  have hlt := ids.next.toNat_lt
  rw [allocate]
  split
  · next hzero => simp [position, hzero]
  · next hzero =>
    have hne : ids.next.toNat ≠ 0 := fun h => hzero (UInt16.toNat_inj.mp h)
    simp only [position, UInt16.toNat_add, UInt16.toNat_one]
    omega

theorem toNat_nth (ids : PacketIds) (k : Nat) :
    (ids.nth k).toNat = (ids.position + k) % 65535 + 1 := by
  induction k generalizing ids with
  | zero => exact toNat_allocate ids
  | succ k ih =>
    have hnext := position_allocate ids
    rw [nth, ih]
    omega

/-- Within a round no identifier is given out twice. -/
theorem nth_injOn (ids : PacketIds) {k k' : Nat} (hk : k < 65535) (hk' : k' < 65535)
    (h : ids.nth k = ids.nth k') : k = k' := by
  have hnat := congrArg UInt16.toNat h
  rw [toNat_nth, toNat_nth] at hnat
  omega

/-- When what is given out is busy, all that was tried was. -/
theorem busy_nth_of_busy {tries : Nat} (h : busy (ids.allocateFree busy tries).1 = true) {k : Nat}
    (hk : k ≤ tries) : busy (ids.nth k) = true := by
  induction tries generalizing ids k with
  | zero =>
    obtain rfl : k = 0 := by omega
    exact h
  | succ tries ih =>
    rw [allocateFree] at h
    dsimp only at h
    split at h
    · next hfirst =>
      cases k with
      | zero => exact hfirst
      | succ k => exact ih h (by omega)
    · next hfirst => exact absurd h hfirst

theorem allocateFree_ne_zero (ids : PacketIds) (busy : UInt16 → Bool) (tries : Nat) :
    (ids.allocateFree busy tries).1 ≠ 0 := by
  induction tries generalizing ids with
  | zero => exact allocate_ne_zero ids
  | succ tries ih =>
    rw [allocateFree]
    dsimp only
    split
    · exact ih _
    · exact allocate_ne_zero ids

/-- While fewer identifiers are in use than there are, a free one is found. -/
theorem not_busy_allocateFree {used : List UInt16} (hused : ∀ x, busy x = true → x ∈ used)
    (hlength : used.length < 65535) (ids : PacketIds) :
    busy (ids.allocateFree busy 65535).1 = false := by
  by_contra hbusy
  rw [Bool.not_eq_false] at hbusy
  have hnodup : ((List.range 65535).map ids.nth).Nodup :=
    List.nodup_range.map_on fun k hk k' hk' =>
      ids.nth_injOn (List.mem_range.mp hk) (List.mem_range.mp hk')
  have hsubset : (List.range 65535).map ids.nth ⊆ used := by
    intro x hx
    obtain ⟨k, hk, rfl⟩ := List.mem_map.mp hx
    exact hused _ (busy_nth_of_busy hbusy (Nat.le_of_lt (List.mem_range.mp hk)))
  have hround := (List.subperm_of_subset hnodup hsubset).length_le
  rw [List.length_map, List.length_range] at hround
  omega

end PacketIds

namespace Session

/-! ## Steps -/

/-- What a session is asked to do. -/
inductive Action
  | start (packet : ConnectPacket) (waiter : Option Waiter)
  | publish (topic : TopicName) (payload : Wire.Bytes) (qos : QoS) (retain : Bool)
  | subscribe (filter : TopicFilter) (qos : QoS) (waiter : Waiter)
  | unsubscribe (filter : TopicFilter) (waiter : Waiter)
  | disconnect
  | route (p : Packet)
  | tick
  | reset

/-- Whether an identifier is given out. -/
def Action.allocates : Action → Bool
  | publish _ _ qos _ => qos != .atMostOnce
  | subscribe _ _ _ | unsubscribe _ _ => true
  | start _ _ | disconnect | route _ | tick | reset => false

/-- What an action does, on a queue that is open or closed. -/
inductive Does (s : Session) : Action → Session → Prop
  | start (isOpen : Bool) (now : Time) (packet : ConnectPacket) (waiter : Option Waiter) :
      Does s (.start packet waiter) (s.start isOpen packet waiter now).state
  | publish (isOpen : Bool) (now : Time) (topic : TopicName) (payload : Wire.Bytes) (qos : QoS)
      (retain : Bool) :
      Does s (.publish topic payload qos retain)
        (s.publish isOpen topic payload qos retain now).state
  | subscribe (isOpen : Bool) (now : Time) (filter : TopicFilter) (qos : QoS) (waiter : Waiter) :
      Does s (.subscribe filter qos waiter) (s.subscribe isOpen filter qos waiter now).state
  | unsubscribe (isOpen : Bool) (now : Time) (filter : TopicFilter) (waiter : Waiter) :
      Does s (.unsubscribe filter waiter) (s.unsubscribe isOpen filter waiter now).state
  | disconnect (isOpen : Bool) (now : Time) : Does s .disconnect (s.disconnect isOpen now).state
  | route (isOpen : Bool) (now : Time) (p : Packet) : Does s (.route p) (s.route isOpen p now).state
  | tick (isOpen : Bool) (now : Time) {o : Orders} (fit : o.Fit s) :
      Does s .tick (s.tickInOrder isOpen now o).state
  | reset : Does s .reset s.reset.1

theorem does_tick (s : Session) (isOpen : Bool) (now : Time) :
    s.Does .tick (s.tick isOpen now).state := by
  rw [tick_eq_tickInOrder]
  exact .tick isOpen now s.fit_orders

/-- An action that needs an identifier is taken while one is free. -/
def Takes (s : Session) (a : Action) (s' : Session) : Prop :=
  s.Does a s' ∧ (a.allocates = true → s.unfinished.length < 65535)

section Steps
variable {s s' : Session} {a : Action} {x : UInt16}

theorem nextId_ne_zero (s : Session) : s.nextId.1 ≠ 0 :=
  PacketIds.allocateFree_ne_zero s.ids s.isBusy 65535

theorem nextId_not_mem (h : s.unfinished.length < 65535) : s.nextId.1 ∉ s.unfinished := by
  rw [← isBusy_iff, Bool.not_eq_true]
  exact PacketIds.not_busy_allocateFree (fun x hx => isBusy_iff.mp hx) h s.ids

@[simp] theorem outgoing_noteSent {ε α : Type} (r : Step Session ε α) (now : Time) :
    (noteSent r now).state.outgoing = r.state.outgoing := by
  rw [noteSent]
  split <;> rfl

@[simp] theorem outgoing_request (s : Session)
    (ask : Subscriptions → UInt16 → Step Subscriptions ClientError Unit) (now : Time) :
    (s.request ask now).state.outgoing = s.outgoing := by
  simp only [request, outgoing_noteSent]
  rw [Step.state_andThen_eq fun _ _ => rfl]
  rfl

/-- One exchange is entered by a new call, or moved on by a PUBREC; otherwise nothing is. -/
inductive Effect (s : Session) (a : Action) (s' : Session) : Prop
  | quiet (h : s'.Within s)
  | opens {k : Tracker} {h : Held} (hallocates : a.allocates = true)
      (henters : s.Enters s' k s.nextId.1 h)
  | moves {k k' : Tracker} {x : UInt16} {h : Held} (hheld : (s.held k' x).isSome = true)
      (henters : s.Enters s' k x h)

theorem Effect.noteSent {ε α : Type} {r : Step Session ε α} (h : s.Effect a r.state) (now : Time) :
    s.Effect a (noteSent r now).state := by
  rw [Session.noteSent]
  split
  · exact h
  · -- the tables are as they were
    cases h with
    | quiet hwithin => exact .quiet hwithin
    | opens hallocates henters =>
      exact .opens hallocates
        ⟨henters.free, henters.named, henters.addressed, fun hh => henters.rest hh⟩
    | moves hheld henters =>
      exact .moves hheld
        ⟨henters.free, henters.named, henters.addressed, fun hh => henters.rest hh⟩

/-- What a call did that answers an identifier is what its sending did. -/
theorem Effect.answering {r : Step Session ClientError Unit} {id : UInt16} (h : s.Effect a r.state)
    (now : Time) :
    s.Effect a (Session.noteSent (r.andThen fun s _ => .value s id) now).state := by
  refine Effect.noteSent ?_ now
  rwa [Step.state_andThen_eq fun _ _ => rfl]

theorem within_of_eq (ho : s'.outgoing = s.outgoing) (hs : s'.subscriptions = s.subscriptions) :
    s'.Within s :=
  within_of_parts (ho ▸ .refl _) (hs ▸ .refl _)

/-- A new exchange under the next identifier in one table, if the queue is open; the other tables are
as they were. -/
theorem effect_of_enqueue {α : Type} [Exchange α] {k : Tracker} {t : RetryTable α} {e : α}
    {f : α → Held} (isOpen : Bool) (now : Time) (allocates : a.allocates = true)
    (room : s.unfinished.length < 65535) (own : Exchange.id e = s.nextId.1)
    (named : Exchange.id (f e) = s.nextId.1)
    (addressed : ∀ attempt, Packet.id? (Exchange.packet (f e) attempt) = some s.nextId.1)
    (before : s.held k = fun y => (t.get? y).map fun c => f c.exchange)
    (after : s'.held k = fun y => ((t.enqueue isOpen e now).state.get? y).map fun c => f c.exchange)
    (rest : ∀ k' ≠ k, s'.held k' = s.held k') : s.Effect a s' := by
  cases isOpen with
  | false =>
    refine .quiet fun k' y h hh => ?_
    by_cases hk : k' = k
    · subst hk
      rw [after] at hh
      rw [before]
      exact hh
    · rwa [rest k' hk] at hh
  | true =>
    refine .opens allocates (enters_of_fresh (nextId_not_mem room) ⟨named, s.nextId_ne_zero⟩
      addressed (fun y => ?_) rest)
    rw [after, before, ← own]
    exact t.map_get?_enqueue e now _ y

theorem effect_publish (isOpen : Bool) (now : Time) (topic : TopicName) (payload : Wire.Bytes)
    (qos : QoS) (retain : Bool)
    (h : (Action.publish topic payload qos retain).allocates = true → s.unfinished.length < 65535) :
    s.Effect (.publish topic payload qos retain)
      (s.publish isOpen topic payload qos retain now).state := by
  let packet := (PublishPacket.new topic (.of qos s.nextId.1) payload).setRetain retain
  let e : PublishExchange := ⟨packet, s.nextId.1⟩
  cases qos with
  | atMostOnce =>
    refine Effect.answering ?_ now
    cases isOpen <;> exact .quiet (within_of_eq rfl rfl)
  | atLeastOnce =>
    refine Effect.answering ?_ now
    refine effect_of_enqueue (k := .puback) (t := s.outgoing.awaitPuback) (e := e) (f := .publish)
      isOpen now rfl (h rfl) rfl rfl (fun _ => rfl) rfl rfl fun k hk => ?_
    cases k <;> first | exact absurd rfl hk | rfl
  | exactlyOnce =>
    refine Effect.answering ?_ now
    refine effect_of_enqueue (k := .pubrec) (t := s.outgoing.awaitPubrec) (e := e) (f := .publish)
      isOpen now rfl (h rfl) rfl rfl (fun _ => rfl) rfl rfl fun k hk => ?_
    cases k <;> first | exact absurd rfl hk | rfl

theorem effect_request {ask : Subscriptions → UInt16 → Step Subscriptions ClientError Unit}
    (h : s.Effect a
      { s.nextId.2 with subscriptions := (ask s.nextId.2.subscriptions s.nextId.1).state })
    (now : Time) : s.Effect a (s.request ask now).state :=
  Effect.answering h now

theorem effect_subscribe (isOpen : Bool) (now : Time) (filter : TopicFilter) (qos : QoS)
    (waiter : Waiter) (h : s.unfinished.length < 65535) :
    s.Effect (.subscribe filter qos waiter) (s.subscribe isOpen filter qos waiter now).state := by
  let e : SubscribeExchange := ⟨⟨s.nextId.1, filter, qos⟩, waiter⟩
  refine effect_request (effect_of_enqueue (k := .subscribe) (t := s.subscriptions.subscribes)
    (e := e) (f := .subscribe) isOpen now rfl h rfl rfl (fun _ => rfl) rfl ?_ fun k hk => ?_) now
  · rw [← RetryTable.state_ask]
    rfl
  · cases k <;> first | exact absurd rfl hk | rfl

theorem effect_unsubscribe (isOpen : Bool) (now : Time) (filter : TopicFilter) (waiter : Waiter)
    (h : s.unfinished.length < 65535) :
    s.Effect (.unsubscribe filter waiter) (s.unsubscribe isOpen filter waiter now).state := by
  let e : UnsubscribeExchange := ⟨⟨s.nextId.1, filter⟩, waiter⟩
  refine effect_request (effect_of_enqueue (k := .unsubscribe) (t := s.subscriptions.unsubscribes)
    (e := e) (f := .unsubscribe) isOpen now rfl h rfl rfl (fun _ => rfl) rfl ?_ fun k hk => ?_) now
  · rw [← RetryTable.state_ask]
    rfl
  · cases k <;> first | exact absurd rfl hk | rfl

theorem within_noteSent {ε α : Type} {r : Step Session ε α} {now : Time} (h : r.state.Within s) :
    (noteSent r now).state.Within s := by
  rw [noteSent]
  split
  · exact h
  · exact h

/-- A PUBREC moves a message on to a table that has nothing under its identifier. -/
theorem enters_of_pubrec (sound : s.Sound) {c : Context PublishExchange}
    (hc : s.outgoing.awaitPubrec.get? x = some c) (now : Time)
    (ho : s'.outgoing = { s.outgoing with
      awaitPubrec := s.outgoing.awaitPubrec.erase x
      awaitPubcomp := (s.outgoing.awaitPubcomp.enqueue true
        ⟨c.exchange.publish, c.exchange.id⟩ now).state })
    (hs : s'.subscriptions = s.subscriptions) :
    s.Enters s' .pubcomp x (.release ⟨c.exchange.publish, c.exchange.id⟩) := by
  have hheld : s.held .pubrec x = some (.publish c.exchange) := by rw [held, hc]; rfl
  have hid : c.exchange.id = x := (sound.named hheld).1
  have hother : ∀ {k y h}, s.held k y = some h → k ≠ .pubrec → y ≠ x := by
    rintro k y h hh hk rfl
    exact hk (sound.alone hh hheld)
  refine ⟨?_, ⟨hid, (sound.named hheld).2⟩, fun _ => congrArg some hid, fun {k y h} hh => ?_⟩
  · cases hfree : s.held .pubcomp x with
    | none => rfl
    | some h => exact absurd rfl (hother hfree (by decide))
  · cases k with
    | subscribe =>
      rw [held, hs] at hh
      exact .inl ⟨hh, hother (k := .subscribe) hh (by decide)⟩
    | unsubscribe =>
      rw [held, hs] at hh
      exact .inl ⟨hh, hother (k := .unsubscribe) hh (by decide)⟩
    | puback =>
      rw [held, ho] at hh
      exact .inl ⟨hh, hother (k := .puback) hh (by decide)⟩
    | pubrec =>
      rw [held, ho, RetryTable.get?_erase] at hh
      split at hh
      · cases hh
      · next hne => exact .inl ⟨hh, Ne.symm hne⟩
    | pubcomp =>
      rw [held, ho, RetryTable.map_get?_enqueue] at hh
      split at hh
      · next heq =>
        obtain rfl : c.exchange.id = y := heq
        cases hh
        exact .inr ⟨rfl, hid, rfl⟩
      · exact .inl ⟨hh, hother (k := .pubcomp) hh (by decide)⟩

theorem effect_pubrec (sound : s.Sound) (isOpen : Bool) (id : UInt16) (now : Time) :
    s.Effect a { s with outgoing := (s.outgoing.pubrec isOpen id now).state } := by
  rw [Outgoing.pubrec]
  cases hc : s.outgoing.awaitPubrec.get? id with
  | some c =>
    rw [RetryTable.finalize_of_some hc]
    cases isOpen with
    | false =>
      refine .quiet (within_of_parts ⟨.refl _, RetryTable.within_erase _ id, .refl _⟩ (.refl _))
    | true =>
      have hheld : (s.held .pubrec id).isSome = true := by rw [held, hc]; rfl
      exact .moves hheld (enters_of_pubrec sound hc now rfl rfl)
  | none =>
    rw [RetryTable.finalize_of_none hc]
    cases hd : s.outgoing.awaitPubcomp.get? id with
    | none =>
      rw [RetryTable.take_of_none hd]
      exact .quiet (Within.refl s)
    | some d =>
      rw [RetryTable.take_of_some hd]
      have hheld : s.held .pubcomp id = some (.release d.exchange) := by rw [held, hd]; rfl
      have hid : Exchange.id d.exchange = id := (sound.named hheld).1
      exact .quiet (within_of_parts
        ⟨.refl _, .refl _, RetryTable.within_again hd hid isOpen now⟩ (.refl _))

theorem effect_routeAccepted (sound : s.Sound) (isOpen : Bool) (p : Packet) (now : Time) :
    s.Effect a (s.routeAccepted isOpen p now).state := by
  obtain ⟨header, body⟩ := p
  cases body with
  | puback id => exact .quiet (within_of_parts (s.outgoing.within_puback id) (.refl _))
  | pubcomp id => exact .quiet (within_of_parts (s.outgoing.within_pubcomp id) (.refl _))
  | pubrec id => exact effect_pubrec sound isOpen id now
  | suback id code =>
    exact .quiet (within_of_parts (.refl _) (s.subscriptions.within_suback id code))
  | unsuback id => exact .quiet (within_of_parts (.refl _) (s.subscriptions.within_unsuback id))
  | publish | pubrel | pingresp => exact .quiet (within_of_eq rfl rfl)
  | connect | connack | subscribe | unsubscribe | pingreq | disconnect => exact .quiet (.refl s)

theorem effect_route (sound : s.Sound) (isOpen : Bool) (now : Time) (p : Packet) :
    s.Effect a (s.route isOpen p now).state := by
  have hrest : s.Effect a (if s.isAccepted then noteSent (s.routeAccepted isOpen p now) now
      else .fail s (.protocolViolation (.beforeConnack (Packet.label p)))).state := by
    split
    · exact (effect_routeAccepted sound isOpen p now).noteSent now
    · exact .quiet (.refl s)
  rw [route]
  split
  · exact .quiet (Step.state_andThen (P := (Within · s)) (within_of_eq rfl rfl) fun _ =>
      within_of_eq rfl rfl)
  · exact hrest

theorem within_tickInOrder (isOpen : Bool) (now : Time) (o : Orders) :
    (s.tickInOrder isOpen now o).state.Within s := by
  have hexchanges : ∀ t : Session, (t.tickExchangesInOrder isOpen now o).state.Within t := by
    intro t
    have hs := t.subscriptions.within_tickInOrder isOpen now o.subscribes o.unsubscribes
    have ho := t.outgoing.within_tickInOrder isOpen now o.awaitPuback o.awaitPubrec o.awaitPubcomp
    exact Step.state_andThen (P := (Within · t)) (within_of_parts (.refl _) hs) fun _ =>
      Step.state_andThen (P := (Within · t)) (within_of_parts ho hs) fun _ =>
        within_of_parts ho hs
  rw [tickInOrder]
  split
  · exact within_of_eq rfl rfl
  · apply within_noteSent
    refine Step.state_andThen (P := (Within · s)) (within_of_eq rfl rfl) fun _ => ?_
    split
    · exact hexchanges _
    · exact within_of_eq rfl rfl

theorem Takes.effect (takes : s.Takes a s') (sound : s.Sound) : s.Effect a s' := by
  obtain ⟨does, hfree⟩ := takes
  cases does with
  | start isOpen now packet waiter => exact .quiet (within_noteSent (within_of_eq rfl rfl))
  | publish isOpen now topic payload qos retain =>
    exact effect_publish isOpen now topic payload qos retain hfree
  | subscribe isOpen now filter qos waiter =>
    exact effect_subscribe isOpen now filter qos waiter (hfree rfl)
  | unsubscribe isOpen now filter waiter =>
    exact effect_unsubscribe isOpen now filter waiter (hfree rfl)
  | disconnect isOpen now =>
    exact .quiet (within_noteSent (by cases isOpen <;> exact .refl s))
  | route isOpen now p => exact effect_route sound isOpen now p
  | tick isOpen now fit => exact .quiet (within_tickInOrder isOpen now _)
  | reset =>
    exact .quiet (within_of_parts s.outgoing.within_reset s.subscriptions.within_reset)

theorem Effect.sound (effect : s.Effect a s') (sound : s.Sound) : s'.Sound := by
  cases effect with
  | quiet hwithin => exact hwithin.sound sound
  | opens _ henters | moves _ henters => exact henters.sound sound

theorem Effect.keeps (effect : s.Effect a s') {k : Tracker} {h h' : Held}
    (hbefore : s.held k x = some h) (hafter : s'.held k x = some h') : h' = h := by
  cases effect with
  | quiet hwithin => exact Option.some.inj ((hwithin _ _ _ hafter).symm.trans hbefore)
  | opens _ henters | moves _ henters => exact henters.keeps hbefore hafter

/-- An identifier comes into use as the one that a call is given. -/
theorem Effect.eq_nextId (effect : s.Effect a s') (hafter : x ∈ s'.unfinished)
    (hbefore : x ∉ s.unfinished) : a.allocates = true ∧ x = s.nextId.1 := by
  obtain ⟨k, hk⟩ := mem_unfinished.mp hafter
  obtain ⟨h, hh⟩ := Option.isSome_iff_exists.mp hk
  have hnew : s.held k x ≠ some h := by
    intro hold
    exact hbefore (mem_unfinished.mpr ⟨k, by rw [hold]; rfl⟩)
  cases effect with
  | quiet hwithin => exact absurd (hwithin _ _ _ hh) hnew
  | opens hallocates henters =>
    obtain ⟨hold, -⟩ | ⟨-, hx, -⟩ := henters.rest hh
    · exact absurd hold hnew
    · exact ⟨hallocates, hx⟩
  | moves hheld henters =>
    obtain ⟨hold, -⟩ | ⟨-, rfl, -⟩ := henters.rest hh
    · exact absurd hold hnew
    · exact absurd (mem_unfinished.mpr ⟨_, hheld⟩) hbefore

theorem sound_of_trace {o : Options} {start : Time} {log : List Action}
    (h : Trace Takes (new o start) log s) : s.Sound :=
  h.preserves (sound_new o start) fun sound takes => (takes.effect sound).sound sound

/-- The identifiers in use are distinct, each is the one that its exchange carries, and the next to
be given out is not among them, wherever the counter stands. No step replaces what is tracked. -/
theorem identifiers_unique {o : Options} {start : Time} {log : List Action}
    (h : Trace Takes (new o start) log s) :
    s.unfinished.Nodup ∧ 0 ∉ s.unfinished ∧
      (∀ k x h, s.held k x = some h →
        Exchange.id h = x ∧ ∀ attempt, Packet.id? (Exchange.packet h attempt) = some x) ∧
      (s.unfinished.length < 65535 → ∀ ids : PacketIds,
        ({ s with ids := ids }).nextId.1 ≠ 0 ∧ ({ s with ids := ids }).nextId.1 ∉ s.unfinished) ∧
      ∀ a s', s.Takes a s' →
        (∀ k x h h', s.held k x = some h → s'.held k x = some h' → h' = h) ∧
        ∀ x ∈ s'.unfinished, x ∉ s.unfinished → a.allocates = true ∧ x = s.nextId.1 := by
  have sound := sound_of_trace h
  refine ⟨sound.nodup_unfinished, sound.zero_not_mem_unfinished, ?_, ?_, ?_⟩
  · exact fun k x h hh => ⟨(sound.named hh).1, sound.addressed hh⟩
  · intro hfew ids
    exact ⟨nextId_ne_zero _, nextId_not_mem (s := { s with ids := ids }) hfew⟩
  · intro a s' takes
    have effect := takes.effect sound
    exact ⟨fun k x h h' => effect.keeps, fun x => effect.eq_nextId⟩

end Steps

def plainOptions : Options := { address := "broker:1883", clientId := "c1" }

/-- A connection on which a message is half way through and a request waits. -/
def opening : List Action :=
  [.start (.new "c1") none, .route (.ofBody (.connack false .accepted)),
    .publish ⟨"out", .refl true⟩ [1] .exactlyOnce false,
    .subscribe ⟨"in", .refl true⟩ .atLeastOnce 0, .route (.ofBody (.pubrec 1)), .tick]

theorem trace_opening :
    ∃ s, Trace Takes (new plainOptions 0) opening s ∧ s.unfinished = [1, 2] ∧ s.ids = ⟨3⟩ := by
  refine ⟨_, .next ⟨.start true 0 _ _, ?_⟩ <| .next ⟨.route true 1 _, ?_⟩ <|
    .next ⟨.publish true 2 _ _ _ _, ?_⟩ <| .next ⟨.subscribe true 3 _ _ _, ?_⟩ <|
    .next ⟨.route true 4 _, ?_⟩ <| .next ⟨does_tick _ true 5, ?_⟩ <| .idle _, ?_, ?_⟩
  all_goals decide

/-- Where the counter stands does not matter: at 1 it passes over both that are in use. -/
theorem identifiers_unique_opening :
    ∃ s, Trace Takes (new plainOptions 0) opening s ∧ s.unfinished = [1, 2] ∧
      s.unfinished.Nodup ∧ 0 ∉ s.unfinished ∧ ({ s with ids := ⟨1⟩ }).nextId.1 ≠ 0 ∧
      ({ s with ids := ⟨1⟩ }).nextId.1 ∉ s.unfinished := by
  obtain ⟨s, run, hunfinished, -⟩ := trace_opening
  obtain ⟨hnodup, hzero, -, hnext, -⟩ := identifiers_unique run
  have hfew : s.unfinished.length < 65535 := by
    rw [hunfinished]
    decide
  obtain ⟨hne, hfresh⟩ := hnext hfew ⟨1⟩
  exact ⟨s, run, hunfinished, hnodup, hzero, hne, hfresh⟩

end Session

end Mqtt
