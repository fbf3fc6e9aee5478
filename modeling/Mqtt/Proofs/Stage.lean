import Mqtt.Client.Outgoing
import Mqtt.Proofs.Run

/-!
# Outgoing messages by identifier

The machine for outgoing messages, seen through one identifier, is a small machine of four stages.
Each step of the whole does under an identifier what the small machine says, whatever it does
under the others and in whatever order a tick goes through the tables.
-/
namespace Mqtt

def carries (x : UInt16) (q : Packet) : Bool := Packet.id? q == some x

def Output.packetsOf (x : UInt16) (o : Output) : List Packet := o.packets.filter (carries x)

/-- How a message with the identifier ended, if an event tells of it. -/
def Event.outcome? (x : UInt16) : Event → Option Bool
  | .published id succeeded => if id = x then some succeeded else none
  | _ => none

def Output.outcomesOf (x : UInt16) (o : Output) : List Bool := o.events.filterMap (Event.outcome? x)

def Trigger.opens? : Trigger → Option UInt16
  | .publish p => p.delivery.id?
  | _ => none

/-- The identifiers of the messages that were accepted and wait for acknowledgements. -/
def opened (log : List Moment) : List UInt16 := log.filterMap fun mo => mo.trigger.opens?

def written (x : UInt16) (log : List Moment) : List Packet :=
  log.flatMap fun mo => mo.output.packetsOf x

def outcomes (x : UInt16) (log : List Moment) : List Bool :=
  log.flatMap fun mo => mo.output.outcomesOf x

theorem not_mem_opened_cons {x : UInt16} {mo : Moment} {log : List Moment} :
    x ∉ opened (mo :: log) ↔ mo.trigger.opens? ≠ some x ∧ x ∉ opened log := by
  rw [opened, List.filterMap_cons]
  cases h : mo.trigger.opens? with
  | none => simp [opened]
  | some y => simp [opened, eq_comm]

@[simp] theorem opened_append (xs ys : List Moment) : opened (xs ++ ys) = opened xs ++ opened ys :=
  List.filterMap_append

theorem length_opened_cons (mo : Moment) (log : List Moment) :
    (opened (mo :: log)).length = mo.trigger.opens?.toList.length + (opened log).length := by
  cases h : mo.trigger.opens? <;> simp [opened, h, Nat.add_comm]

@[simp] theorem written_concat (x : UInt16) (log : List Moment) (mo : Moment) :
    written x (log ++ [mo]) = written x log ++ mo.output.packetsOf x := by
  simp [written]

@[simp] theorem outcomes_concat (x : UInt16) (log : List Moment) (mo : Moment) :
    outcomes x (log ++ [mo]) = outcomes x log ++ mo.output.outcomesOf x := by
  simp [outcomes]

namespace Output

@[simp] theorem packetsOf_append (x : UInt16) (a b : Output) :
    (a ++ b).packetsOf x = a.packetsOf x ++ b.packetsOf x := by
  simp [packetsOf]

@[simp] theorem outcomesOf_append (x : UInt16) (a b : Output) :
    (a ++ b).outcomesOf x = a.outcomesOf x ++ b.outcomesOf x := by
  simp [outcomesOf]

@[simp] theorem outcomesOf_ofPackets (x : UInt16) (ps : List Packet) :
    (ofPackets ps).outcomesOf x = [] := rfl

end Output

namespace PublishPacket

@[simp] theorem delivery_setDup (p : PublishPacket) (dup : Bool) :
    (p.setDup dup).delivery = p.delivery := rfl

theorem toPacket_ne_pubrel (p : PublishPacket) (x : UInt16) : p.toPacket ≠ .ofBody (.pubrel x) := by
  intro h
  cases congrArg Framed.body h

theorem id?_toPacket (p : PublishPacket) : Packet.id? p.toPacket = p.delivery.id? := rfl

end PublishPacket

namespace Outgoing

/-- A look at the clock that goes through the tables in given orders. The machine itself goes by the
identifiers. -/
def tickInOrder (m : Outgoing) (isOpen : Bool) (now : Time) (first second third : List UInt16) :
    Step Outgoing ClientError Unit :=
  let puback := (m.awaitPuback.tickInOrder isOpen now first).andThen fun t es =>
    .emit t (failures es)
  (puback.inside fun t => { m with awaitPuback := t }).andThen fun m _ =>
    let pubrec := (m.awaitPubrec.tickInOrder isOpen now second).andThen fun t es =>
      .emit t (failures es)
    (pubrec.inside fun t => { m with awaitPubrec := t }).andThen fun m _ =>
      let pubcomp := (m.awaitPubcomp.tickInOrder isOpen now third).andThen fun t es =>
        .emit t (failures es)
      pubcomp.inside fun t => { m with awaitPubcomp := t }

theorem tick_eq_tickInOrder (m : Outgoing) (isOpen : Bool) (now : Time) :
    m.tick isOpen now =
      m.tickInOrder isOpen now m.awaitPuback.ids m.awaitPubrec.ids m.awaitPubcomp.ids := by
  simp only [tick, tickInOrder, RetryTable.tick, Step.andThen, Step.inside, Step.emit]

/-- The steps of the machine on an open queue. The identifier of a new message is not in use, and
a tick goes through each table in any order. -/
inductive Takes (m : Outgoing) (now : Time) : Trigger → Step Outgoing ClientError Unit → Prop
  | publish {p : PublishPacket} (fresh : ∀ x, p.delivery.id? = some x → m.contains x = false) :
      Takes m now (.publish p) (m.publish true p now)
  | puback (id : UInt16) : Takes m now (.puback id) (.emit (m.puback id).1 (m.puback id).2)
  | pubrec (id : UInt16) : Takes m now (.pubrec id) (m.pubrec true id now)
  | pubcomp (id : UInt16) : Takes m now (.pubcomp id) (.emit (m.pubcomp id).1 (m.pubcomp id).2)
  | tick {first second third : List UInt16} (hfirst : first.Perm m.awaitPuback.ids)
      (hsecond : second.Perm m.awaitPubrec.ids) (hthird : third.Perm m.awaitPubcomp.ids) :
      Takes m now .tick (m.tickInOrder true now first second third)

theorem takes_tick (m : Outgoing) (now : Time) : m.Takes now .tick (m.tick true now) := by
  rw [tick_eq_tickInOrder]
  exact .tick (.refl _) (.refl _) (.refl _)

/-! ## The machine of one identifier -/

/-- Where the message with an identifier stands: there is none, or it waits for an
acknowledgement. -/
inductive Stage
  | idle
  | puback (c : Context PublishExchange)
  | pubrec (c : Context PublishExchange)
  | pubcomp (c : Context ReleaseExchange)

/-- A stage, with the packets that were written and the outcomes that were told on the way there. -/
structure Turn where
  stage : Stage
  packets : List Packet
  outcomes : List Bool

namespace Stage

def puback? : Stage → Option (Context PublishExchange)
  | puback c => some c
  | idle | pubrec _ | pubcomp _ => none

def pubrec? : Stage → Option (Context PublishExchange)
  | pubrec c => some c
  | idle | puback _ | pubcomp _ => none

def pubcomp? : Stage → Option (Context ReleaseExchange)
  | pubcomp c => some c
  | idle | puback _ | pubrec _ => none

/-- What waits under an identifier carries it. -/
def Named (x : UInt16) : Stage → Prop
  | idle => True
  | puback c => c.exchange.id = x ∧ c.exchange.publish.delivery = .atLeastOnce x
  | pubrec c => c.exchange.id = x ∧ c.exchange.publish.delivery = .exactlyOnce x
  | pubcomp c => c.exchange.id = x

def quiet (s : Stage) : Turn := ⟨s, [], []⟩

def look {α : Type} [Exchange α] (policy : RetryPolicy) (now : Time) (stage : Context α → Stage)
    (c : Context α) : Turn where
  stage := (c.kept? policy now).elim idle stage
  packets := (c.resent? policy now).toList
  outcomes := (c.exhausted? policy now).toList.map fun _ => false

/-- What a trigger does under the identifier `x`. Messages that need no acknowledgement are told
of under the identifier zero. -/
def act (policy : RetryPolicy) (x : UInt16) (now : Time) : Stage → Trigger → Turn
  | s, .publish p =>
    match p.delivery with
    | .atMostOnce => ⟨s, [], if 0 = x then [true] else []⟩
    | .atLeastOnce id =>
      if id = x then
        ⟨puback ((Context.new ⟨p, id⟩ now).restart now), [(p.setDup false).toPacket], []⟩
      else s.quiet
    | .exactlyOnce id =>
      if id = x then
        ⟨pubrec ((Context.new ⟨p, id⟩ now).restart now), [(p.setDup false).toPacket], []⟩
      else s.quiet
  | puback c, .puback id => if id = x then ⟨idle, [], [true]⟩ else (puback c).quiet
  | pubrec c, .pubrec id =>
    if id = x then
      ⟨pubcomp ((Context.new ⟨c.exchange.publish, c.exchange.id⟩ now).restart now),
        [.ofBody (.pubrel x)], []⟩
    else (pubrec c).quiet
  | pubcomp c, .pubrec id =>
    if id = x then ⟨pubcomp (c.restart now), [.ofBody (.pubrel x)], []⟩ else (pubcomp c).quiet
  | pubcomp c, .pubcomp id => if id = x then ⟨idle, [], [true]⟩ else (pubcomp c).quiet
  | puback c, .tick => look policy now puback c
  | pubrec c, .tick => look policy now pubrec c
  | pubcomp c, .tick => look policy now pubcomp c
  | s, _ => s.quiet

end Stage

namespace Stage
variable {policy : RetryPolicy} {x : UInt16} {now : Time} {s : Stage}

theorem act_of_ne {id : UInt16} {a : Trigger}
    (ha : a = .puback id ∨ a = .pubrec id ∨ a = .pubcomp id) (hid : id ≠ x) :
    s.act policy x now a = s.quiet := by
  obtain rfl | rfl | rfl := ha <;> cases s <;> simp [act, hid]

/-- A new message with another identifier does nothing; one without an identifier is told of under
zero. -/
theorem act_publish_of_ne {p : PublishPacket} (hp : p.delivery.id? ≠ some x) :
    (s.act policy x now (.publish p)).stage = s ∧ (s.act policy x now (.publish p)).packets = [] ∧
      (x ≠ 0 → (s.act policy x now (.publish p)).outcomes = []) := by
  cases hd : p.delivery with
  | atMostOnce =>
    simp only [act, hd]
    exact ⟨trivial, trivial, fun hx => if_neg hx.symm⟩
  | atLeastOnce id | exactlyOnce id =>
    have hid : id ≠ x := by
      rintro rfl
      exact hp (by rw [hd]; rfl)
    simp [act, hd, hid, quiet]

/-- A message that waits for an acknowledgement is not told of when it is accepted. -/
theorem outcomes_act_publish {p : PublishPacket} (hp : p.delivery.id? = some x) :
    (s.act policy x now (.publish p)).outcomes = [] := by
  cases hd : p.delivery with
  | atMostOnce => simp [hd, Delivery.id?] at hp
  | atLeastOnce id | exactlyOnce id =>
    simp only [act, hd]
    split <;> rfl

/-- What a stage answers, besides a new message. -/
def Minds (x : UInt16) : Stage → Trigger → Prop
  | idle, _ => False
  | puback _, a => a = .puback x ∨ a = .tick
  | pubrec _, a => a = .pubrec x ∨ a = .tick
  | pubcomp _, a => a = .pubrec x ∨ a = .pubcomp x ∨ a = .tick

instance (s : Stage) (a : Trigger) : Decidable (s.Minds x a) := by
  cases s <;> unfold Minds <;> infer_instance

/-- Nothing else does anything. -/
theorem act_of_not_minds (policy : RetryPolicy) (now : Time) {a : Trigger}
    (ha : a.opens? ≠ some x) (h : ¬ s.Minds x a) :
    (s.act policy x now a).stage = s ∧ (s.act policy x now a).packets = [] ∧
      (x ≠ 0 → (s.act policy x now a).outcomes = []) := by
  have hquiet : s.act policy x now a = s.quiet → (s.act policy x now a).stage = s ∧
      (s.act policy x now a).packets = [] ∧
        (x ≠ 0 → (s.act policy x now a).outcomes = []) := by
    intro heq
    rw [heq]
    exact ⟨rfl, rfl, fun _ => rfl⟩
  cases a with
  | publish p => exact act_publish_of_ne ha
  | puback id | pubrec id | pubcomp id =>
    by_cases hid : id = x
    · subst hid
      cases s <;> first | exact hquiet rfl | exact absurd (by simp [Minds]) h
    · exact hquiet (act_of_ne (by simp) hid)
  | tick => cases s <;> first | exact hquiet rfl | exact absurd (by simp [Minds]) h
  | pubrel id | reset => cases s <;> exact hquiet rfl

section Look
variable {α : Type} [Exchange α] {stage : Context α → Stage} {c : Context α}

theorem look_of_waits (h : c.verdict policy now = .waits) :
    look policy now stage c = (stage c).quiet := by
  simp [look, Context.kept?, Context.resent?, Context.exhausted?, h, quiet]

theorem look_of_overdue (h : c.verdict policy now = .overdue) :
    look policy now stage c =
      ⟨stage (c.resend now), [Exchange.packet c.exchange (c.attempt + 1)], []⟩ := by
  simp [look, Context.kept?, Context.resent?, Context.exhausted?, h]

theorem look_of_exhausted (h : c.verdict policy now = .exhausted) :
    look policy now stage c = ⟨idle, [], [false]⟩ := by
  simp [look, Context.kept?, Context.resent?, Context.exhausted?, h]

theorem exists_attempt_of_mem_look {q : Packet} (hq : q ∈ (look policy now stage c).packets) :
    ∃ attempt, q = Exchange.packet c.exchange attempt :=
  Context.exists_attempt_of_resent? (Option.mem_toList.mp hq)

end Look

theorem after_tick (s : Stage) :
    s.puback?.bind (Context.kept? policy now) = (s.act policy x now .tick).stage.puback? ∧
      s.pubrec?.bind (Context.kept? policy now) = (s.act policy x now .tick).stage.pubrec? ∧
      s.pubcomp?.bind (Context.kept? policy now) = (s.act policy x now .tick).stage.pubcomp? := by
  cases s with
  | idle => exact ⟨rfl, rfl, rfl⟩
  | puback c | pubrec c | pubcomp c =>
    simp only [act, look, puback?, pubrec?, pubcomp?, Option.bind_none, Option.bind_some]
    cases c.kept? policy now <;> exact ⟨rfl, rfl, rfl⟩

theorem named_tick (h : s.Named x) : (s.act policy x now .tick).stage.Named x := by
  cases s with
  | idle => exact h
  | puback c | pubrec c | pubcomp c =>
    simp only [act, look]
    cases hc : c.kept? policy now with
    | none => trivial
    | some c' =>
      simp only [Option.elim_some, Named, Context.exchange_of_kept? hc]
      exact h

end Stage

/-- The tables hold under an identifier what the stage says. -/
structure At (m : Outgoing) (x : UInt16) (s : Stage) : Prop where
  puback : m.awaitPuback.get? x = s.puback?
  pubrec : m.awaitPubrec.get? x = s.pubrec?
  pubcomp : m.awaitPubcomp.get? x = s.pubcomp?
  named : s.Named x

/-- Under every identifier at most one message is under way, in tables of one policy. -/
structure Sound (policy : RetryPolicy) (m : Outgoing) : Prop where
  puback : m.awaitPuback.policy = policy
  pubrec : m.awaitPubrec.policy = policy
  pubcomp : m.awaitPubcomp.policy = policy
  stages : ∀ x, ∃ s, m.At x s

theorem at_new (policy : RetryPolicy) (x : UInt16) : (new policy).At x .idle :=
  ⟨RetryTable.get?_empty policy x, RetryTable.get?_empty policy x, RetryTable.get?_empty policy x,
    trivial⟩

theorem sound_new (policy : RetryPolicy) : (new policy).Sound policy :=
  ⟨rfl, rfl, rfl, fun x => ⟨.idle, at_new policy x⟩⟩

namespace At
variable {m : Outgoing} {x : UInt16} {s : Stage}

theorem contains_iff (h : m.At x s) : m.contains x = true ↔ s ≠ .idle := by
  rw [contains, RetryTable.contains_eq, RetryTable.contains_eq, RetryTable.contains_eq, h.puback,
    h.pubrec, h.pubcomp]
  cases s <;> simp [Stage.puback?, Stage.pubrec?, Stage.pubcomp?]

theorem unique {s' : Stage} (h : m.At x s) (h' : m.At x s') : s = s' := by
  have hpuback := h.puback.symm.trans h'.puback
  have hpubrec := h.pubrec.symm.trans h'.pubrec
  have hpubcomp := h.pubcomp.symm.trans h'.pubcomp
  cases s <;> cases s' <;> simp_all [Stage.puback?, Stage.pubrec?, Stage.pubcomp?]

theorem eq_idle (h : m.At x s) (fresh : m.contains x = false) : s = .idle := by
  by_contra hne
  rw [h.contains_iff.mpr hne] at fresh
  contradiction

end At

/-! ## Steps, seen through one identifier -/

structure Shown (turn : Turn) (x : UInt16) (output : Output) : Prop where
  packets : output.packetsOf x = turn.packets
  outcomes : output.outcomesOf x = turn.outcomes

/-- A step of the machine is, under an identifier, a turn of the small machine. -/
structure Follows (x : UInt16) (r : Step Outgoing ClientError Unit) (turn : Turn) : Prop where
  stage : r.state.At x turn.stage
  shown : Shown turn x r.output

section Steps
variable {policy : RetryPolicy} {m : Outgoing} {x : UInt16} {s : Stage} {now : Time}

theorem Follows.quiet {r : Step Outgoing ClientError Unit} (h : r.state.At x s)
    (packets : r.output.packetsOf x = []) (outcomes : r.output.outcomesOf x = []) :
    Follows x r s.quiet :=
  ⟨h, packets, outcomes⟩

theorem outcomesOf_published (id : UInt16) (succeeded : Bool) :
    (Output.ofEvent (.published id succeeded)).outcomesOf x =
      if id = x then [succeeded] else [] := by
  by_cases hid : id = x <;>
    simp [Output.ofEvent, Output.ofEvents, Output.outcomesOf, Event.outcome?, hid]

theorem packetsOf_first (p : PublishPacket) (id : UInt16) :
    (Output.ofPackets [Exchange.packet (⟨p, id⟩ : PublishExchange) 1]).packetsOf x =
      if p.delivery.id? = some x then [(p.setDup false).toPacket] else [] := by
  by_cases hid : p.delivery.id? = some x <;>
    simp [Output.packetsOf, carries, Output.ofPackets, Exchange.packet, PublishPacket.id?_toPacket,
      hid]

theorem follows_publish {p : PublishPacket} (h : m.At x s)
    (fresh : ∀ y, p.delivery.id? = some y → m.contains y = false) :
    Follows x (m.publish true p now) (s.act policy x now (.publish p)) := by
  -- an identifier that is taken was free in all three tables, the two that are not written included
  have hidle : p.delivery.id? = some x → s = .idle := fun hid => h.eq_idle (fresh x hid)
  cases hd : p.delivery with
  | atMostOnce =>
    simp only [Outgoing.publish, Stage.act, hd, if_true]
    refine ⟨h, ?_, outcomesOf_published 0 true⟩
    simp [Step.emit, Output.packetsOf, carries, PublishPacket.id?_toPacket, hd, Delivery.id?]
  | atLeastOnce id =>
    have hpackets := packetsOf_first (x := x) p id
    simp only [hd, Delivery.id?, Option.some.injEq] at hpackets hidle
    simp only [Outgoing.publish, Stage.act, hd]
    split
    · next hid =>
      obtain rfl := hidle hid
      rw [if_pos hid] at hpackets
      refine ⟨⟨?_, h.pubrec, h.pubcomp, ?_⟩, hpackets, rfl⟩
      · exact (RetryTable.get?_enqueueContext _ _ _ _).trans (if_pos hid)
      · exact ⟨hid, hd.trans (by rw [hid])⟩
    · next hid =>
      rw [if_neg hid] at hpackets
      refine .quiet ⟨?_, h.pubrec, h.pubcomp, h.named⟩ hpackets rfl
      exact ((RetryTable.get?_enqueueContext _ _ _ _).trans (if_neg hid)).trans h.puback
  | exactlyOnce id =>
    have hpackets := packetsOf_first (x := x) p id
    simp only [hd, Delivery.id?, Option.some.injEq] at hpackets hidle
    simp only [Outgoing.publish, Stage.act, hd]
    split
    · next hid =>
      obtain rfl := hidle hid
      rw [if_pos hid] at hpackets
      refine ⟨⟨h.puback, ?_, h.pubcomp, ?_⟩, hpackets, rfl⟩
      · exact (RetryTable.get?_enqueueContext _ _ _ _).trans (if_pos hid)
      · exact ⟨hid, hd.trans (by rw [hid])⟩
    · next hid =>
      rw [if_neg hid] at hpackets
      refine .quiet ⟨h.puback, ?_, h.pubcomp, h.named⟩ hpackets rfl
      exact ((RetryTable.get?_enqueueContext _ _ _ _).trans (if_neg hid)).trans h.pubrec

theorem puback_of_none {id : UInt16} (h : m.awaitPuback.get? id = none) :
    m.puback id = (m, {}) := by
  rw [Outgoing.puback, RetryTable.finalize_of_none h]

theorem puback_of_some {id : UInt16} {c : Context PublishExchange}
    (h : m.awaitPuback.get? id = some c) :
    m.puback id =
      ({ m with awaitPuback := m.awaitPuback.erase id }, .ofEvent (.published id true)) := by
  rw [Outgoing.puback, RetryTable.finalize_of_some h]

theorem pubcomp_of_none {id : UInt16} (h : m.awaitPubcomp.get? id = none) :
    m.pubcomp id = (m, {}) := by
  rw [Outgoing.pubcomp, RetryTable.finalize_of_none h]

theorem pubcomp_of_some {id : UInt16} {c : Context ReleaseExchange}
    (h : m.awaitPubcomp.get? id = some c) :
    m.pubcomp id =
      ({ m with awaitPubcomp := m.awaitPubcomp.erase id }, .ofEvent (.published id true)) := by
  rw [Outgoing.pubcomp, RetryTable.finalize_of_some h]

theorem follows_puback (h : m.At x s) {id : UInt16} {s' : Stage} (h' : m.At id s') :
    Follows x (.emit (m.puback id).1 (m.puback id).2) (s.act policy x now (.puback id)) := by
  cases s' with
  | puback c =>
    rw [puback_of_some h'.puback]
    by_cases hid : id = x
    · subst hid
      obtain rfl := h.unique h'
      rw [Stage.act, if_pos rfl]
      refine ⟨⟨?_, h.pubrec, h.pubcomp, trivial⟩, rfl, ?_⟩
      · exact (RetryTable.get?_erase _ _ _).trans (if_pos rfl)
      · exact (outcomesOf_published _ _).trans (if_pos rfl)
    · rw [Stage.act_of_ne (.inl rfl) hid]
      refine .quiet ⟨?_, h.pubrec, h.pubcomp, h.named⟩ rfl ?_
      · exact ((RetryTable.get?_erase _ _ _).trans (if_neg hid)).trans h.puback
      · exact (outcomesOf_published _ _).trans (if_neg hid)
  | idle | pubrec _ | pubcomp _ =>
    rw [puback_of_none h'.puback]
    by_cases hid : id = x
    · subst hid
      obtain rfl := h.unique h'
      exact .quiet h rfl rfl
    · rw [Stage.act_of_ne (.inl rfl) hid]
      exact .quiet h rfl rfl

theorem follows_pubcomp (h : m.At x s) {id : UInt16} {s' : Stage} (h' : m.At id s') :
    Follows x (.emit (m.pubcomp id).1 (m.pubcomp id).2) (s.act policy x now (.pubcomp id)) := by
  cases s' with
  | pubcomp c =>
    rw [pubcomp_of_some h'.pubcomp]
    by_cases hid : id = x
    · subst hid
      obtain rfl := h.unique h'
      rw [Stage.act, if_pos rfl]
      refine ⟨⟨h.puback, h.pubrec, ?_, trivial⟩, rfl, ?_⟩
      · exact (RetryTable.get?_erase _ _ _).trans (if_pos rfl)
      · exact (outcomesOf_published _ _).trans (if_pos rfl)
    · rw [Stage.act_of_ne (.inr (.inr rfl)) hid]
      refine .quiet ⟨h.puback, h.pubrec, ?_, h.named⟩ rfl ?_
      · exact ((RetryTable.get?_erase _ _ _).trans (if_neg hid)).trans h.pubcomp
      · exact (outcomesOf_published _ _).trans (if_neg hid)
  | idle | puback _ | pubrec _ =>
    rw [pubcomp_of_none h'.pubcomp]
    by_cases hid : id = x
    · subst hid
      obtain rfl := h.unique h'
      exact .quiet h rfl rfl
    · rw [Stage.act_of_ne (.inr (.inr rfl)) hid]
      exact .quiet h rfl rfl

theorem packetsOf_release (p : PublishPacket) (id : UInt16) :
    (Output.ofPackets [Exchange.packet (⟨p, id⟩ : ReleaseExchange) 1]).packetsOf x =
      if id = x then [.ofBody (.pubrel x)] else [] := by
  by_cases hid : id = x <;>
    simp [Output.packetsOf, carries, Output.ofPackets, Exchange.packet, Packet.id?, Packet.ofBody,
      hid]

theorem follows_pubrec (h : m.At x s) {id : UInt16} {s' : Stage} (h' : m.At id s') :
    Follows x (m.pubrec true id now) (s.act policy x now (.pubrec id)) := by
  cases s' with
  | pubrec c =>
    have hname : c.exchange.id = id := h'.named.1
    rw [Outgoing.pubrec, RetryTable.finalize_of_some h'.pubrec]
    by_cases hid : id = x
    · subst hid
      obtain rfl := h.unique h'
      rw [Stage.act, if_pos rfl]
      refine ⟨⟨h.puback, ?_, ?_, hname⟩, ?_, rfl⟩
      · exact (RetryTable.get?_erase _ _ _).trans (if_pos rfl)
      · exact (RetryTable.get?_enqueueContext _ _ _ _).trans (if_pos hname)
      · exact (packetsOf_release _ _).trans (if_pos hname)
    · have hname' : c.exchange.id ≠ x := fun heq => hid (hname.symm.trans heq)
      rw [Stage.act_of_ne (.inr (.inl rfl)) hid]
      refine .quiet ⟨h.puback, ?_, ?_, h.named⟩ ?_ rfl
      · exact ((RetryTable.get?_erase _ _ _).trans (if_neg hid)).trans h.pubrec
      · exact ((RetryTable.get?_enqueueContext _ _ _ _).trans (if_neg hname')).trans h.pubcomp
      · exact (packetsOf_release _ _).trans (if_neg hname')
  | pubcomp c =>
    have hname : c.exchange.id = id := h'.named
    rw [Outgoing.pubrec, RetryTable.finalize_of_none h'.pubrec]
    simp only [RetryTable.take_of_some h'.pubcomp]
    by_cases hid : id = x
    · subst hid
      obtain rfl := h.unique h'
      rw [Stage.act, if_pos rfl]
      refine ⟨⟨h.puback, h.pubrec, ?_, hname⟩, ?_, rfl⟩
      · exact (RetryTable.get?_enqueueContext _ _ _ _).trans (if_pos hname)
      · exact (packetsOf_release _ _).trans (if_pos hname)
    · have hname' : c.exchange.id ≠ x := fun heq => hid (hname.symm.trans heq)
      rw [Stage.act_of_ne (.inr (.inl rfl)) hid]
      refine .quiet ⟨h.puback, h.pubrec, ?_, h.named⟩ ?_ rfl
      · refine ((RetryTable.get?_enqueueContext _ _ _ _).trans (if_neg hname')).trans ?_
        exact ((RetryTable.get?_erase _ _ _).trans (if_neg hid)).trans h.pubcomp
      · exact (packetsOf_release _ _).trans (if_neg hname')
  | idle | puback _ =>
    rw [Outgoing.pubrec, RetryTable.finalize_of_none h'.pubrec]
    simp only [RetryTable.take_of_none h'.pubcomp]
    by_cases hid : id = x
    · subst hid
      obtain rfl := h.unique h'
      exact .quiet h rfl rfl
    · rw [Stage.act_of_ne (.inr (.inl rfl)) hid]
      exact .quiet h rfl rfl

/-! ## A look at the clock -/

def passOutput {α : Type} [Exchange α] (t : RetryTable α) (now : Time) (order : List UInt16) :
    Output :=
  .ofPackets (order.filterMap fun id => (t.get? id).bind (Context.resent? t.policy now)) ++
    failures (order.filterMap fun id => (t.get? id).bind (Context.exhausted? t.policy now))

section Pass
variable {α : Type} [Exchange α] {t : RetryTable α} {order : List UInt16}

theorem pass_eq (h : order.Perm t.ids) (now : Time) :
    ((t.tickInOrder true now order).andThen fun t es => .emit t (failures es)) =
      (⟨(t.tickInOrder true now order).state, passOutput t now order, .ok ()⟩ :
        Step (RetryTable α) ClientError Unit) :=
  RetryTable.tickInOrder_andThen h now failures

/-- Each packet of an exchange carries the identifier under which the table has it. -/
def Addressed (t : RetryTable α) : Prop :=
  ∀ id c, t.get? id = some c → Exchange.id c.exchange = id ∧
    ∀ attempt, Packet.id? (Exchange.packet c.exchange attempt) = some id

theorem packetsOf_passOutput (h : order.Perm t.ids) (addressed : Addressed t) (now : Time)
    (x : UInt16) :
    (passOutput t now order).packetsOf x =
      ((t.get? x).bind (Context.resent? t.policy now)).toList := by
  have hid : ∀ id c q, t.get? id = some c → c.resent? t.policy now = some q →
      Packet.id? q = some id := by
    intro id c q hc hq
    obtain ⟨attempt, rfl⟩ := Context.exists_attempt_of_resent? hq
    exact (addressed id c hc).2 attempt
  have hpass := RetryTable.filter_pass (Context.resent? t.policy now) (carries x) (x := x) h (by
      intro id c q hc hq
      simp [carries, hid id c q hc hq])
  rw [passOutput, Output.packetsOf_append]
  exact (List.append_nil _).trans hpass

theorem outcomesOf_passOutput (h : order.Perm t.ids) (addressed : Addressed t) (now : Time)
    (x : UInt16) :
    (passOutput t now order).outcomesOf x =
      ((t.get? x).bind (Context.exhausted? t.policy now)).toList.map fun _ => false := by
  have hid : ∀ id c c', t.get? id = some c → c.exhausted? t.policy now = some c' →
      Exchange.id c'.exchange = id := by
    intro id c c' hc hc'
    rw [Context.exchange_of_exhausted? hc']
    exact (addressed id c hc).1
  have hpass := RetryTable.filterMap_pass (f := Context.exhausted? t.policy now)
    (g := fun c => Event.outcome? x (.published (Exchange.id c.exchange) false)) (x := x) h (by
      intro id c c' hc hc' hne
      simp [Event.outcome?, hid id c c' hc hc', hne])
  rw [passOutput, Output.outcomesOf_append, Output.outcomesOf_ofPackets, List.nil_append,
    failures, Output.outcomesOf, Output.ofEvents, List.filterMap_map]
  refine hpass.trans ?_
  cases hc : t.get? x with
  | none => rfl
  | some c =>
    cases hc' : c.exhausted? t.policy now with
    | none => simp [hc']
    | some c' => simp [hc', Event.outcome?, hid x c c' hc hc']

end Pass

theorem Sound.addressed (sound : m.Sound policy) :
    Addressed m.awaitPuback ∧ Addressed m.awaitPubrec ∧ Addressed m.awaitPubcomp := by
  refine ⟨fun id c hc => ?_, fun id c hc => ?_, fun id c hc => ?_⟩ <;>
    obtain ⟨s, hs⟩ := sound.stages id
  · rw [hs.puback] at hc
    cases s <;> cases hc
    obtain ⟨hid, hdelivery⟩ := hs.named
    exact ⟨hid, fun attempt => congrArg Delivery.id? hdelivery⟩
  · rw [hs.pubrec] at hc
    cases s <;> cases hc
    obtain ⟨hid, hdelivery⟩ := hs.named
    exact ⟨hid, fun attempt => congrArg Delivery.id? hdelivery⟩
  · rw [hs.pubcomp] at hc
    cases s <;> cases hc
    exact ⟨hs.named, fun attempt => congrArg some hs.named⟩

section Tick
variable {first second third : List UInt16}

theorem tickInOrder_eq (hfirst : first.Perm m.awaitPuback.ids)
    (hsecond : second.Perm m.awaitPubrec.ids) (hthird : third.Perm m.awaitPubcomp.ids) :
    m.tickInOrder true now first second third =
      ⟨⟨(m.awaitPuback.tickInOrder true now first).state,
        (m.awaitPubrec.tickInOrder true now second).state,
        (m.awaitPubcomp.tickInOrder true now third).state⟩,
        passOutput m.awaitPuback now first ++ (passOutput m.awaitPubrec now second ++
          passOutput m.awaitPubcomp now third), .ok ()⟩ := by
  simp only [tickInOrder, pass_eq hfirst, pass_eq hsecond, pass_eq hthird, Step.inside_mk,
    Step.andThen_ok]

theorem follows_tick (sound : m.Sound policy) (h : m.At x s)
    (hfirst : first.Perm m.awaitPuback.ids) (hsecond : second.Perm m.awaitPubrec.ids)
    (hthird : third.Perm m.awaitPubcomp.ids) :
    Follows x (m.tickInOrder true now first second third) (s.act policy x now .tick) := by
  -- at most one of the three passes meets `x`; what the others put out is addressed elsewhere
  obtain ⟨hpuback, hpubrec, hpubcomp⟩ := sound.addressed
  rw [tickInOrder_eq hfirst hsecond hthird]
  have hpackets : (passOutput m.awaitPuback now first ++ (passOutput m.awaitPubrec now second ++
      passOutput m.awaitPubcomp now third)).packetsOf x = (s.act policy x now .tick).packets := by
    simp only [Output.packetsOf_append, packetsOf_passOutput hfirst hpuback,
      packetsOf_passOutput hsecond hpubrec, packetsOf_passOutput hthird hpubcomp, h.puback,
      h.pubrec, h.pubcomp, sound.puback, sound.pubrec, sound.pubcomp]
    cases s <;>
      simp [Stage.act, Stage.look, Stage.quiet, Stage.puback?, Stage.pubrec?, Stage.pubcomp?]
  have houtcomes : (passOutput m.awaitPuback now first ++ (passOutput m.awaitPubrec now second ++
      passOutput m.awaitPubcomp now third)).outcomesOf x = (s.act policy x now .tick).outcomes := by
    simp only [Output.outcomesOf_append, outcomesOf_passOutput hfirst hpuback,
      outcomesOf_passOutput hsecond hpubrec, outcomesOf_passOutput hthird hpubcomp, h.puback,
      h.pubrec, h.pubcomp, sound.puback, sound.pubrec, sound.pubcomp]
    cases s <;>
      simp [Stage.act, Stage.look, Stage.quiet, Stage.puback?, Stage.pubrec?, Stage.pubcomp?]
  refine ⟨⟨?_, ?_, ?_, ?_⟩, hpackets, houtcomes⟩
  · rw [RetryTable.get?_tickInOrder hfirst, h.puback, sound.puback]
    exact (Stage.after_tick s).1
  · rw [RetryTable.get?_tickInOrder hsecond, h.pubrec, sound.pubrec]
    exact (Stage.after_tick s).2.1
  · rw [RetryTable.get?_tickInOrder hthird, h.pubcomp, sound.pubcomp]
    exact (Stage.after_tick s).2.2
  · exact Stage.named_tick h.named

end Tick

/-! ## Any step -/

/-- Every step does under every identifier what the small machine says. -/
theorem Takes.follows {a : Trigger} {r : Step Outgoing ClientError Unit} (takes : m.Takes now a r)
    (sound : m.Sound policy) (h : m.At x s) : Follows x r (s.act policy x now a) := by
  cases takes with
  | publish fresh => exact follows_publish h fresh
  | puback id => exact follows_puback h (sound.stages id).choose_spec
  | pubrec id => exact follows_pubrec h (sound.stages id).choose_spec
  | pubcomp id => exact follows_pubcomp h (sound.stages id).choose_spec
  | tick hfirst hsecond hthird => exact follows_tick sound h hfirst hsecond hthird

theorem Takes.result {a : Trigger} {r : Step Outgoing ClientError Unit} (takes : m.Takes now a r) :
    r.result = .ok () := by
  cases takes with
  | @publish p fresh =>
    rw [Outgoing.publish]
    split <;> rfl
  | puback id | pubcomp id => rfl
  | pubrec id =>
    rw [Outgoing.pubrec]
    split
    · rfl
    · split <;> rfl
  | tick hfirst hsecond hthird => rw [tickInOrder_eq hfirst hsecond hthird]

theorem Takes.sound {a : Trigger} {r : Step Outgoing ClientError Unit} (takes : m.Takes now a r)
    (sound : m.Sound policy) : r.state.Sound policy := by
  have hstages : ∀ x, ∃ s, r.state.At x s := fun x =>
    let ⟨_, h⟩ := sound.stages x
    ⟨_, (takes.follows sound h).stage⟩
  have hpolicies : r.state.awaitPuback.policy = m.awaitPuback.policy ∧
      r.state.awaitPubrec.policy = m.awaitPubrec.policy ∧
      r.state.awaitPubcomp.policy = m.awaitPubcomp.policy := by
    cases takes with
    | publish fresh =>
      rw [Outgoing.publish]
      split <;> exact ⟨rfl, rfl, rfl⟩
    | puback id =>
      rw [Outgoing.puback, RetryTable.finalize]
      cases m.awaitPuback.get? id <;> exact ⟨rfl, rfl, rfl⟩
    | pubcomp id =>
      rw [Outgoing.pubcomp, RetryTable.finalize]
      cases m.awaitPubcomp.get? id <;> exact ⟨rfl, rfl, rfl⟩
    | pubrec id =>
      rw [Outgoing.pubrec, RetryTable.finalize, RetryTable.take]
      cases m.awaitPubrec.get? id with
      | some c => exact ⟨rfl, rfl, rfl⟩
      | none => cases m.awaitPubcomp.get? id <;> exact ⟨rfl, rfl, rfl⟩
    | tick hfirst hsecond hthird =>
      rw [tickInOrder_eq hfirst hsecond hthird]
      exact ⟨RetryTable.tickInOrder_policy now, RetryTable.tickInOrder_policy now,
        RetryTable.tickInOrder_policy now⟩
  obtain ⟨hpuback, hpubrec, hpubcomp⟩ := hpolicies
  exact ⟨hpuback.trans sound.puback, hpubrec.trans sound.pubrec, hpubcomp.trans sound.pubcomp,
    hstages⟩

theorem sound_of_run {log : List Moment} (run : Run Takes (.new policy) log m) : m.Sound policy :=
  run.preserves (Sound policy) (fun sound takes => takes.sound sound) (sound_new policy)

end Steps

/-! ## A message from its acceptance on -/

/-- What every turn under an identifier keeps, until the identifier is used again. -/
def Persists (policy : RetryPolicy) (x : UInt16) (P : List Moment → Stage → Prop) : Prop :=
  ∀ since s mo, P since s → s.Named x → mo.trigger.opens? ≠ some x →
    Shown (s.act policy x mo.now mo.trigger) x mo.output →
      P (since ++ [mo]) (s.act policy x mo.now mo.trigger).stage

/-- What a message has when it is accepted. -/
def Begins (policy : RetryPolicy) (x : UInt16) (e : Moment) (P : List Moment → Stage → Prop) :
    Prop :=
  Shown (Stage.idle.act policy x e.now e.trigger) x e.output →
    P [e] (Stage.idle.act policy x e.now e.trigger).stage

section Story
variable {policy : RetryPolicy} {m m' : Outgoing} {x : UInt16} {s : Stage}
  {P : List Moment → Stage → Prop}

theorem Persists.of_run (persists : Persists policy x P) (since : List Moment) {log : List Moment}
    (run : Run Takes m log m') (sound : m.Sound policy) (h : m.At x s) (start : P since s)
    (hx : x ∉ opened log) : m'.Sound policy ∧ ∃ s', m'.At x s' ∧ P (since ++ log) s' := by
  have hlog : ∀ mo ∈ log, mo.trigger.opens? ≠ some x := by
    intro mo hmo hopens
    exact hx (List.mem_filterMap.mpr ⟨mo, hmo, hopens⟩)
  obtain ⟨s', ⟨sound', hs'⟩, hP⟩ := run.simulates (R := fun m s => m.Sound policy ∧ m.At x s)
    (fun ⟨sound, h⟩ hP takes ha =>
      have hfollows := takes.follows sound h
      ⟨_, ⟨takes.sound sound, hfollows.stage⟩, persists _ _ _ hP h.named ha hfollows.shown⟩)
    ⟨sound, h⟩ start hlog
  exact ⟨sound', s', hs', hP⟩

section Message
variable {past life before after : List Moment} {e mo : Moment} {p : PublishPacket}

/-- A property of messages that holds on acceptance and that every turn keeps. -/
theorem Persists.of_message (persists : Persists policy x P)
    (run : Run Takes (.new policy) (past ++ e :: life) m) (he : e.trigger = .publish p)
    (hp : p.delivery.id? = some x) (begins : Begins policy x e P) (hx : x ∉ opened life) :
    ∃ s, m.At x s ∧ P (e :: life) s := by
  obtain ⟨m₁, r, hpast, htakes, houtput, -, hlife⟩ := run.middle
  have sound := sound_of_run hpast
  obtain ⟨s, hs⟩ := sound.stages x
  have hfollows := htakes.follows sound hs
  obtain rfl : s = .idle := by
    rw [he] at htakes
    cases htakes with
    | publish fresh => exact hs.eq_idle (fresh x hp)
  exact (persists.of_run [e] hlife (htakes.sound sound) hfollows.stage
    (begins (houtput ▸ hfollows.shown)) hx).2

theorem Persists.turn (persists : Persists policy x P)
    (run : Run Takes (.new policy) (past ++ e :: (before ++ mo :: after)) m)
    (he : e.trigger = .publish p) (hp : p.delivery.id? = some x) (begins : Begins policy x e P)
    (hx : x ∉ opened (before ++ mo :: after)) :
    mo.trigger.opens? ≠ some x ∧ ∃ s, s.Named x ∧ P (e :: before) s ∧
      Shown (s.act policy x mo.now mo.trigger) x mo.output := by
  rw [opened_append, List.mem_append, not_or, not_mem_opened_cons] at hx
  obtain ⟨hbefore, ha, -⟩ := hx
  have hlog : past ++ e :: (before ++ mo :: after) = (past ++ e :: before) ++ mo :: after := by simp
  rw [hlog] at run
  obtain ⟨m₁, r, hrun, htakes, houtput, -⟩ := run.middle
  obtain ⟨s, hs, hP⟩ := persists.of_message hrun he hp begins hbefore
  exact ⟨ha, s, hs.named, hP, houtput ▸ (htakes.follows (sound_of_run hrun) hs).shown⟩

end Message

end Story

end Outgoing

end Mqtt
