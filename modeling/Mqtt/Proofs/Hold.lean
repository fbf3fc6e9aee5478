import Mqtt.Client.Incoming
import Mqtt.Proofs.Run

/-!
# Incoming messages by identifier

The machine for incoming messages, seen through one identifier: a message that is delivered
exactly once is held until it is released, replaced by another one or given up. Messages of the
other kinds are no part of this, whatever identifier they have.
-/
namespace Mqtt

/-- The message, if it is delivered exactly once and has the identifier. -/
def PublishPacket.exactly? (x : UInt16) (p : PublishPacket) : Option PublishPacket :=
  if p.delivery = .exactlyOnce x then some p else none

/-- The message that is received to be held under the identifier. -/
def Trigger.receives? (x : UInt16) : Trigger → Option PublishPacket
  | .publish p => p.exactly? x
  | _ => none

/-- The message that the application gets and that was held under the identifier. -/
def Event.delivers? (x : UInt16) : Event → Option PublishPacket
  | .received p => p.exactly? x
  | _ => none

theorem ofBody_pubrec_inj {x y : UInt16} :
    Packet.ofBody (.pubrec x) = .ofBody (.pubrec y) ↔ x = y :=
  ⟨fun h => Body.pubrec.inj (congrArg Framed.body h), fun h => by rw [h]⟩

namespace Output

def pubrecsOf (x : UInt16) (o : Output) : List Packet :=
  o.packets.filter fun q => q == .ofBody (.pubrec x)

def deliveriesOf (x : UInt16) (o : Output) : List PublishPacket :=
  o.events.filterMap (Event.delivers? x)

@[simp] theorem pubrecsOf_append (x : UInt16) (a b : Output) :
    (a ++ b).pubrecsOf x = a.pubrecsOf x ++ b.pubrecsOf x := by
  simp [pubrecsOf]

@[simp] theorem deliveriesOf_append (x : UInt16) (a b : Output) :
    (a ++ b).deliveriesOf x = a.deliveriesOf x ++ b.deliveriesOf x := by
  simp [deliveriesOf]

theorem append_empty (o : Output) : o ++ ({} : Output) = o := by
  change Output.append o {} = o
  simp [Output.append]

theorem deliveriesOf_received (x : UInt16) (p : PublishPacket) :
    (ofEvent (.received p)).deliveriesOf x = (p.exactly? x).toList := by
  cases h : p.exactly? x <;> simp [deliveriesOf, ofEvent, ofEvents, Event.delivers?, h]

theorem pubrecsOf_of_ne (x : UInt16) {b : Body} (h : b ≠ .pubrec x) :
    (ofPackets [.ofBody b]).pubrecsOf x = [] := by
  have hne : Packet.ofBody b ≠ .ofBody (.pubrec x) := fun heq => h (congrArg Framed.body heq)
  simp [pubrecsOf, ofPackets, hne]

theorem pubrecsOf_pubrec (x id : UInt16) :
    (ofPackets [.ofBody (.pubrec id)]).pubrecsOf x =
      if id = x then [.ofBody (.pubrec x)] else [] := by
  by_cases hid : id = x <;> simp [pubrecsOf, ofPackets, ofBody_pubrec_inj, hid]

end Output

def receptions (x : UInt16) (log : List Moment) : List PublishPacket :=
  log.filterMap fun mo => mo.trigger.receives? x

def deliveries (x : UInt16) (log : List Moment) : List PublishPacket :=
  log.flatMap fun mo => mo.output.deliveriesOf x

namespace Incoming

/-- A look at the clock that goes through the tables in given orders. The machine itself goes by the
identifiers. -/
def tickInOrder (m : Incoming) (isOpen : Bool) (now : Time) (first second : List UInt16) :
    Step Incoming ClientError Unit :=
  let acknowledged := (m.acknowledged.tickInOrder isOpen now first).andThen fun t _ => .done t
  (acknowledged.inside fun t => { m with acknowledged := t }).andThen fun m _ =>
    let awaitPubrel := (m.awaitPubrel.tickInOrder isOpen now second).andThen fun t _ => .done t
    awaitPubrel.inside fun t => { m with awaitPubrel := t }

theorem tick_eq_tickInOrder (m : Incoming) (isOpen : Bool) (now : Time) :
    m.tick isOpen now = m.tickInOrder isOpen now m.acknowledged.ids m.awaitPubrel.ids := by
  simp only [tick, tickInOrder, RetryTable.tick, Step.andThen, Step.inside, Step.done]

/-- The steps of the machine on an open queue. A tick goes through each table in any order. -/
inductive Takes (m : Incoming) (now : Time) : Trigger → Step Incoming ClientError Unit → Prop
  | publish (p : PublishPacket) : Takes m now (.publish p) (m.publish true p now)
  | pubrel (id : UInt16) : Takes m now (.pubrel id) (m.pubrel true id)
  | tick {first second : List UInt16} (hfirst : first.Perm m.acknowledged.ids)
      (hsecond : second.Perm m.awaitPubrel.ids) :
      Takes m now .tick (m.tickInOrder true now first second)
  | reset : Takes m now .reset (.done m.reset)

theorem takes_tick (m : Incoming) (now : Time) : m.Takes now .tick (m.tick true now) := by
  rw [tick_eq_tickInOrder]
  exact .tick (.refl _) (.refl _)

/-! ## The machine of one identifier -/

/-- What is held, with the PUBRECs that were written and the messages that were delivered on the
way there. -/
structure Turn where
  held : Option (Context HeldExchange)
  pubrecs : List Packet
  deliveries : List PublishPacket

/-- What a trigger does under the identifier `x`. -/
def act (policy : RetryPolicy) (x : UInt16) (now : Time) (held : Option (Context HeldExchange)) :
    Trigger → Turn
  | .publish p =>
    if p.delivery = .exactlyOnce x then
      ⟨some ((Context.new ⟨p, x⟩ now).restart now), [.ofBody (.pubrec x)], []⟩
    else ⟨held, [], []⟩
  | .pubrel id =>
    if id = x then ⟨none, [], (held.map fun c => c.exchange.publish).toList⟩ else ⟨held, [], []⟩
  | .tick =>
    ⟨held.bind (Context.kept? policy now), (held.bind (Context.resent? policy now)).toList, []⟩
  | .reset => ⟨none, [], []⟩
  | .puback _ | .pubrec _ | .pubcomp _ => ⟨held, [], []⟩

def held (m : Incoming) (x : UInt16) : Option (Context HeldExchange) := m.awaitPubrel.get? x

/-- What is held under an identifier carries it. -/
structure Named (x : UInt16) (c : Context HeldExchange) : Prop where
  id : c.exchange.id = x
  delivery : c.exchange.publish.delivery = .exactlyOnce x

structure Sound (policy : RetryPolicy) (m : Incoming) : Prop where
  policy : m.awaitPubrel.policy = policy
  named : ∀ {x c}, m.held x = some c → Named x c

theorem held_new (policy : RetryPolicy) (x : UInt16) : (new policy).held x = none :=
  RetryTable.get?_empty policy x

theorem sound_new (policy : RetryPolicy) : (new policy).Sound policy where
  policy := rfl
  named h := by simp [held_new] at h

structure Shown (turn : Turn) (x : UInt16) (output : Output) : Prop where
  pubrecs : output.pubrecsOf x = turn.pubrecs
  deliveries : output.deliveriesOf x = turn.deliveries

/-- A step of the machine is, under an identifier, a turn of the small machine. -/
structure Follows (x : UInt16) (r : Step Incoming ClientError Unit) (turn : Turn) : Prop where
  held : r.state.held x = turn.held
  shown : Shown turn x r.output

section Steps
variable {policy : RetryPolicy} {m : Incoming} {x : UInt16} {now : Time}

theorem follows_publish (p : PublishPacket) :
    Follows x (m.publish true p now) (act policy x now (m.held x) (.publish p)) := by
  cases hd : p.delivery with
  | atMostOnce =>
    simp only [Incoming.publish, act, hd, reduceCtorEq, if_false]
    refine ⟨rfl, rfl, (Output.deliveriesOf_received x p).trans ?_⟩
    simp [PublishPacket.exactly?, hd]
  | atLeastOnce id =>
    simp only [Incoming.publish, act, hd, reduceCtorEq, if_false]
    refine ⟨rfl, ?_, (Output.deliveriesOf_received x p).trans ?_⟩
    · exact (Output.pubrecsOf_append x _ _).trans
        (congrArg (· ++ []) (Output.pubrecsOf_of_ne x (by simp)))
    · simp [PublishPacket.exactly?, hd]
  | exactlyOnce id =>
    simp only [Incoming.publish, act, hd, Delivery.exactlyOnce.injEq]
    by_cases hid : id = x
    · subst hid
      rw [if_pos rfl]
      refine ⟨?_, (Output.pubrecsOf_pubrec _ _).trans (if_pos rfl), rfl⟩
      exact (RetryTable.get?_enqueueContext _ _ _ _).trans (if_pos rfl)
    · rw [if_neg hid]
      refine ⟨?_, (Output.pubrecsOf_pubrec _ _).trans (if_neg hid), rfl⟩
      exact (RetryTable.get?_enqueueContext _ _ _ _).trans (if_neg hid)

theorem pubrel_of_none {id : UInt16} (h : m.held id = none) :
    m.pubrel true id = .emit m (.ofPackets [.ofBody (.pubcomp id)]) := by
  rw [pubrel, RetryTable.finalize_of_none h]
  rfl

theorem pubrel_of_some {id : UInt16} {c : Context HeldExchange} (h : m.held id = some c) :
    m.pubrel true id = .emit { m with awaitPubrel := m.awaitPubrel.erase id }
      (.ofEvent (.received c.exchange.publish) ++ .ofPackets [.ofBody (.pubcomp id)]) := by
  rw [pubrel, RetryTable.finalize_of_some h]
  rfl

/-- A PUBREL is answered, whether or not it releases something. -/
theorem pubrel_answered (id : UInt16) :
    (m.pubrel true id).result = .ok () ∧
      (m.pubrel true id).output.packets = [.ofBody (.pubcomp id)] := by
  cases h : m.held id with
  | none => rw [pubrel_of_none h]; exact ⟨rfl, rfl⟩
  | some c => rw [pubrel_of_some h]; exact ⟨rfl, rfl⟩

theorem follows_pubrel (sound : m.Sound policy) (id : UInt16) :
    Follows x (m.pubrel true id) (act policy x now (m.held x) (.pubrel id)) := by
  have hpubrecs : (m.pubrel true id).output.pubrecsOf x = [] := by
    rw [Output.pubrecsOf, (pubrel_answered id).2]
    exact Output.pubrecsOf_of_ne x (by simp)
  rw [act]
  cases h : m.held id with
  | none =>
    rw [pubrel_of_none h] at hpubrecs ⊢
    by_cases hid : id = x
    · subst hid
      rw [if_pos rfl, h]
      exact ⟨h, hpubrecs, rfl⟩
    · rw [if_neg hid]
      exact ⟨rfl, hpubrecs, rfl⟩
  | some c =>
    rw [pubrel_of_some h] at hpubrecs ⊢
    by_cases hid : id = x
    · subst hid
      rw [if_pos rfl, h]
      refine ⟨(RetryTable.get?_erase _ _ _).trans (if_pos rfl), hpubrecs, ?_⟩
      rw [Step.emit, Output.deliveriesOf_append, Output.deliveriesOf_received,
        PublishPacket.exactly?, if_pos ((sound.named h).delivery)]
      rfl
    · rw [if_neg hid]
      refine ⟨(RetryTable.get?_erase _ _ _).trans (if_neg hid), hpubrecs, ?_⟩
      rw [Step.emit, Output.deliveriesOf_append, Output.deliveriesOf_received,
        PublishPacket.exactly?, if_neg]
      · rfl
      · rw [(sound.named h).delivery, Delivery.exactlyOnce.injEq]
        exact hid

theorem pass_eq {α : Type} [Exchange α] {t : RetryTable α} {order : List UInt16}
    (h : order.Perm t.ids) (now : Time) :
    ((t.tickInOrder true now order).andThen fun t _ => .done t) =
      (⟨(t.tickInOrder true now order).state, .ofPackets (order.filterMap fun id =>
        (t.get? id).bind (Context.resent? t.policy now)), .ok ()⟩ :
        Step (RetryTable α) ClientError Unit) := by
  refine (RetryTable.tickInOrder_andThen h now fun _ => {}).trans ?_
  rw [Output.append_empty]

theorem tickInOrder_eq {first second : List UInt16} (hfirst : first.Perm m.acknowledged.ids)
    (hsecond : second.Perm m.awaitPubrel.ids) :
    m.tickInOrder true now first second =
      ⟨⟨(m.acknowledged.tickInOrder true now first).state,
        (m.awaitPubrel.tickInOrder true now second).state⟩,
        .ofPackets (first.filterMap fun id =>
            (m.acknowledged.get? id).bind (Context.resent? m.acknowledged.policy now)) ++
          .ofPackets (second.filterMap fun id =>
            (m.awaitPubrel.get? id).bind (Context.resent? m.awaitPubrel.policy now)), .ok ()⟩ := by
  simp only [tickInOrder, pass_eq hfirst, pass_eq hsecond, Step.inside_mk, Step.andThen_ok]

theorem follows_tick (sound : m.Sound policy) {first second : List UInt16}
    (hfirst : first.Perm m.acknowledged.ids) (hsecond : second.Perm m.awaitPubrel.ids) :
    Follows x (m.tickInOrder true now first second) (act policy x now (m.held x) .tick) := by
  rw [tickInOrder_eq hfirst hsecond, act, ← sound.policy]
  refine ⟨RetryTable.get?_tickInOrder hsecond now x, ?_, rfl⟩
  -- the first pass writes PUBACKs, whatever it finds
  have hnone : ∀ q ∈ first.filterMap fun id =>
      (m.acknowledged.get? id).bind (Context.resent? m.acknowledged.policy now),
        q ≠ .ofBody (.pubrec x) := by
    intro q hq heq
    obtain ⟨id, -, hid⟩ := List.mem_filterMap.mp hq
    obtain ⟨c, -, hc⟩ := Option.bind_eq_some_iff.mp hid
    obtain ⟨attempt, rfl⟩ := Context.exists_attempt_of_resent? hc
    cases congrArg Framed.body heq
  have hheld := RetryTable.filter_pass (Context.resent? m.awaitPubrel.policy now)
    (fun q => q == .ofBody (.pubrec x)) (x := x) hsecond (by
      intro id c q hc hq
      obtain ⟨attempt, rfl⟩ := Context.exists_attempt_of_resent? hq
      rw [show Exchange.packet c.exchange attempt = .ofBody (.pubrec id) from
        congrArg (fun id => Packet.ofBody (.pubrec id)) (sound.named hc |>.id)]
      exact Bool.eq_iff_iff.mpr (by simp [ofBody_pubrec_inj]))
  rw [Output.pubrecsOf_append]
  have hempty := List.filter_eq_nil_iff.mpr fun q hq => mt beq_iff_eq.mp (hnone q hq)
  exact (congrArg (· ++ _) hempty).trans hheld

/-- Every step does under every identifier what the small machine says. -/
theorem Takes.follows {a : Trigger} {r : Step Incoming ClientError Unit} (takes : m.Takes now a r)
    (sound : m.Sound policy) (x : UInt16) : Follows x r (act policy x now (m.held x) a) := by
  cases takes with
  | publish p => exact follows_publish p
  | pubrel id => exact follows_pubrel sound id
  | tick hfirst hsecond => exact follows_tick sound hfirst hsecond
  | reset => exact ⟨RetryTable.get?_empty _ x, rfl, rfl⟩

end Steps

/-! ## Turns -/

section Turns
variable {policy : RetryPolicy} {x : UInt16} {now : Time} {held : Option (Context HeldExchange)}
  {a : Trigger}

theorem receives?_eq_some {p : PublishPacket} :
    a.receives? x = some p ↔ a = .publish p ∧ p.delivery = .exactlyOnce x := by
  cases a with
  | publish q =>
    by_cases hq : q.delivery = .exactlyOnce x
    · simp only [Trigger.receives?, PublishPacket.exactly?, hq, if_true, Option.some.injEq,
        Trigger.publish.injEq]
      exact ⟨fun h => ⟨h, h ▸ hq⟩, fun h => h.1⟩
    · simp only [Trigger.receives?, PublishPacket.exactly?, hq, if_false, reduceCtorEq,
        Trigger.publish.injEq, false_iff, not_and]
      exact fun h => h ▸ hq
  | _ => simp [Trigger.receives?]

/-- A message that is received replaces what was held. -/
theorem act_of_receives {p : PublishPacket} (ha : a.receives? x = some p) :
    act policy x now held a =
      ⟨some ((Context.new ⟨p, x⟩ now).restart now), [.ofBody (.pubrec x)], []⟩ := by
  obtain ⟨rfl, hp⟩ := receives?_eq_some.mp ha
  rw [act, if_pos hp]

theorem act_quiet (ha : a.receives? x = none) (htick : a ≠ .tick)
    (hmo : a ≠ .pubrel x ∧ a ≠ .reset) : act policy x now held a = ⟨held, [], []⟩ := by
  cases a with
  | publish p =>
    refine if_neg fun hp => ?_
    simp [Trigger.receives?, PublishPacket.exactly?, hp] at ha
  | pubrel id => exact if_neg fun hid => hmo.1 (by rw [hid])
  | tick => exact absurd rfl htick
  | reset => exact absurd rfl hmo.2
  | puback id | pubrec id | pubcomp id => rfl

/-- Otherwise the same message is held or none. -/
theorem exchange_of_act {c' : Context HeldExchange} (ha : a.receives? x = none)
    (h : (act policy x now held a).held = some c') :
    ∃ c, held = some c ∧ c'.exchange = c.exchange := by
  cases a with
  | publish p =>
    have hp : p.delivery ≠ .exactlyOnce x := by
      intro hp
      simp [Trigger.receives?, PublishPacket.exactly?, hp] at ha
    rw [act, if_neg hp] at h
    exact ⟨c', h, rfl⟩
  | pubrel id =>
    by_cases hid : id = x
    · simp [act, hid] at h
    · rw [act, if_neg hid] at h
      exact ⟨c', h, rfl⟩
  | tick =>
    obtain ⟨c, hc, hkept⟩ := Option.bind_eq_some_iff.mp h
    exact ⟨c, hc, Context.exchange_of_kept? hkept⟩
  | reset => simp [act] at h
  | puback id | pubrec id | pubcomp id => exact ⟨c', h, rfl⟩

/-- Only a release delivers, and only what is held. -/
theorem deliveries_act :
    (act policy x now held a).deliveries =
      if a = .pubrel x then (held.map fun c => c.exchange.publish).toList else [] := by
  cases a with
  | publish p =>
    rw [act]
    split <;> simp
  | pubrel id =>
    by_cases hid : id = x <;> simp [act, hid]
  | _ => simp [act]

theorem named_act (named : ∀ {c}, held = some c → Named x c) {c' : Context HeldExchange}
    (h : (act policy x now held a).held = some c') : Named x c' := by
  cases ha : a.receives? x with
  | some p =>
    rw [act_of_receives ha, Option.some.injEq] at h
    rw [← h]
    exact ⟨rfl, (receives?_eq_some.mp ha).2⟩
  | none =>
    obtain ⟨c, hc, hexchange⟩ := exchange_of_act ha h
    exact ⟨hexchange ▸ (named hc).id, hexchange ▸ (named hc).delivery⟩

end Turns

/-! ## Runs -/

section Runs
variable {policy : RetryPolicy} {m m' : Incoming} {x : UInt16} {now : Time}

theorem Takes.sound {a : Trigger} {r : Step Incoming ClientError Unit} (takes : m.Takes now a r)
    (sound : m.Sound policy) : r.state.Sound policy := by
  have hpolicy : r.state.awaitPubrel.policy = m.awaitPubrel.policy := by
    cases takes with
    | publish p =>
      rw [Incoming.publish]
      split <;> rfl
    | pubrel id =>
      cases h : m.held id with
      | none => rw [pubrel_of_none h]; rfl
      | some c => rw [pubrel_of_some h]; rfl
    | tick hfirst hsecond =>
      rw [tickInOrder_eq hfirst hsecond]
      exact RetryTable.tickInOrder_policy now
    | reset => rfl
  refine ⟨hpolicy.trans sound.policy, fun {x c} h => ?_⟩
  rw [(takes.follows sound x).held] at h
  exact named_act sound.named h

theorem sound_of_run {log : List Moment} (run : Run Takes (.new policy) log m) : m.Sound policy :=
  run.preserves (Sound policy) (fun sound takes => takes.sound sound) (sound_new policy)

/-- What every turn under an identifier keeps, as long as only `allowed` moments come. -/
def Persists (policy : RetryPolicy) (x : UInt16) (allowed : Moment → Prop)
    (P : List Moment → Option (Context HeldExchange) → Prop) : Prop :=
  ∀ since held mo, P since held → allowed mo →
    Shown (act policy x mo.now held mo.trigger) x mo.output →
      P (since ++ [mo]) (act policy x mo.now held mo.trigger).held

theorem Persists.of_run {P : List Moment → Option (Context HeldExchange) → Prop}
    {allowed : Moment → Prop} (persists : Persists policy x allowed P) {log : List Moment}
    (run : Run Takes m log m') (sound : m.Sound policy) (start : P [] (m.held x))
    (hlog : ∀ mo ∈ log, allowed mo) : P log (m'.held x) := by
  obtain ⟨held, ⟨-, rfl⟩, hP⟩ := run.simulates (R := fun m held => m.Sound policy ∧ m.held x = held)
    (fun {_ _ _ _ _ _} ⟨sound, h⟩ hP takes ha => by
      have hfollows := takes.follows sound x
      rw [h] at hfollows
      exact ⟨_, ⟨takes.sound sound, hfollows.held⟩, persists _ _ _ hP ha hfollows.shown⟩)
    ⟨sound, rfl⟩ start hlog
  exact hP

theorem shown_of_run {past rest : List Moment} {mo : Moment}
    (run : Run Takes (.new policy) (past ++ mo :: rest) m') (x : UInt16) :
    ∃ m, Run Takes (.new policy) past m ∧
      Shown (act policy x mo.now (m.held x) mo.trigger) x mo.output := by
  obtain ⟨m, r, hpast, htakes, houtput, -⟩ := run.middle
  exact ⟨m, hpast, houtput ▸ (htakes.follows (sound_of_run hpast) x).shown⟩

end Runs

end Incoming

end Mqtt
