import Mqtt.Proofs.Bodies
import Mqtt.Packet.Edit

/-!
# Packets as they are built

The packets that constructors and setters make. A constructor makes the header agree with the
body, each setter keeps the two in agreement, and so does every sequence of setters.
-/
namespace Mqtt
open Wire

/-- One change of a PUBLISH. -/
inductive PublishSetter
  | dup (value : Bool)
  | retain (value : Bool)
  | delivery (value : Delivery)
  | topic (value : TopicName)
  | payload (value : Bytes)
  deriving DecidableEq, Repr

/-- One change of a CONNECT. -/
inductive ConnectSetter
  | keepAlive (seconds : UInt16)
  | cleanSession (value : Bool)
  | clientId (value : String)
  | username (value : Option String)
  | password (value : Option Bytes)
  | will (value : Option Will)
  deriving DecidableEq, Repr

def PublishPacket.set (p : PublishPacket) : PublishSetter → PublishPacket
  | .dup value => p.setDup value
  | .retain value => p.setRetain value
  | .delivery value => p.setDelivery value
  | .topic value => p.setTopic value
  | .payload value => p.setPayload value

def ConnectPacket.set (p : ConnectPacket) : ConnectSetter → ConnectPacket
  | .keepAlive seconds => p.setKeepAlive seconds
  | .cleanSession value => p.setCleanSession value
  | .clientId value => p.setClientId value
  | .username value => p.setUsername value
  | .password value => p.setPassword value
  | .will value => p.setWill value

/-- The packets that a constructor and then any sequence of setters make. -/
inductive Packet.Built : Packet → Prop
  | connect (clientId : String) (setters : List ConnectSetter) :
      Built (setters.foldl ConnectPacket.set (ConnectPacket.new clientId)).toPacket
  | publish (topic : TopicName) (delivery : Delivery) (payload : Bytes)
      (setters : List PublishSetter) :
      Built (setters.foldl PublishPacket.set (PublishPacket.new topic delivery payload)).toPacket
  | ofBody (b : Body) (hconnect : b.kind ≠ .connect) (hpublish : b.kind ≠ .publish) :
      Built (Packet.ofBody b)
  | setId {p q : Packet} (id : UInt16) (built : Built p) (set : p.setId? id = some q) : Built q

/-- The header of a PUBLISH agrees with its body. -/
structure PublishPacket.Coherent (p : PublishPacket) : Prop where
  kind : p.header.type.kind = .publish
  qos : p.flags.qos.val ≤ 2
  id : p.body.id.isSome = true ↔ p.flags.qos.val ≠ 0
  dup : p.flags.dup = true → p.body.id.isSome = true
  remaining : p.header.remaining = p.body.width

/-- The header of a CONNECT agrees with its body. -/
structure ConnectPacket.Coherent (p : ConnectPacket) : Prop where
  type : p.header.type = .standard .connect
  remaining : p.header.remaining = p.body.width

/-- The header of a packet agrees with its body. -/
structure Packet.Coherent (p : Packet) : Prop where
  kind : p.header.type.kind = p.body.kind
  legal : p.header.type.Legal
  id : ∀ m, p.body = .publish m → (m.id.isSome = true ↔ p.header.type.flags.qos.val ≠ 0)
  remaining : p.header.remaining = p.body.width

namespace Delivery

theorem isSome_id? (d : Delivery) : d.id?.isSome = true ↔ d.qos.level.val ≠ 0 := by
  cases d <;> simp [id?, qos, QoS.level]

end Delivery

theorem QoS.level_le (q : QoS) : q.level.val ≤ 2 := by
  cases q <;> decide

namespace PublishPacket

theorem coherent_new (topic : TopicName) (delivery : Delivery) (payload : Bytes) :
    (new topic delivery payload).Coherent where
  kind := rfl
  qos := delivery.qos.level_le
  id := delivery.isSome_id?
  dup h := by simp [new, flags, Flags.publish] at h
  remaining := rfl

theorem flags_setDelivery (p : PublishPacket) (d : Delivery) :
    (p.setDelivery d).flags = ⟨p.flags.dup && d.id?.isSome, d.qos.level, p.flags.retain⟩ := by
  cases d <;> simp [setDelivery, Delivery.id?, resize, setDup, setFlags, flags]

theorem body_setDelivery (p : PublishPacket) (d : Delivery) :
    (p.setDelivery d).body = ⟨p.body.topic, d.id?, p.body.payload⟩ := by
  cases d <;> rfl

theorem coherent_set {p : PublishPacket} (hp : p.Coherent) (setter : PublishSetter) :
    (p.set setter).Coherent := by
  obtain ⟨hkind, hqos, hid, hdup, hremaining⟩ := hp
  cases setter with
  | dup value =>
    refine ⟨hkind, hqos, hid, ?_, hremaining⟩
    intro h
    simp only [set, setDup, setFlags, flags, Bool.and_eq_true] at h
    exact h.2
  | retain value => exact ⟨hkind, hqos, hid, hdup, hremaining⟩
  | topic value => exact ⟨hkind, hqos, hid, hdup, rfl⟩
  | payload value => exact ⟨hkind, hqos, hid, hdup, rfl⟩
  | delivery value =>
    refine ⟨?_, ?_, ?_, ?_, rfl⟩
    · cases value <;> exact hkind
    · rw [set, flags_setDelivery]
      exact value.qos.level_le
    · rw [set, flags_setDelivery, body_setDelivery]
      exact value.isSome_id?
    · rw [set, flags_setDelivery, body_setDelivery]
      intro h
      exact (Bool.and_eq_true_iff.mp h).2

theorem coherent_foldl {p : PublishPacket} (hp : p.Coherent) (setters : List PublishSetter) :
    (setters.foldl set p).Coherent := by
  induction setters generalizing p with
  | nil => exact hp
  | cons setter setters ih => exact ih (coherent_set hp setter)

theorem Coherent.toPacket {p : PublishPacket} (hp : p.Coherent) : p.toPacket.Coherent where
  kind := hp.kind
  legal := by
    rw [TypeByte.Legal, show p.toPacket.header.type.kind = .publish from hp.kind]
    exact ⟨hp.qos, fun hdup => hp.id.mp (hp.dup hdup)⟩
  id m hm := by
    cases hm
    exact hp.id
  remaining := hp.remaining

end PublishPacket

namespace ConnectPacket

theorem coherent_set {p : ConnectPacket} (hp : p.Coherent) (setter : ConnectSetter) :
    (p.set setter).Coherent := by
  cases setter with
  | keepAlive | cleanSession => exact ⟨hp.type, hp.remaining⟩
  | clientId | username | password | will => exact ⟨hp.type, rfl⟩

theorem coherent_foldl {p : ConnectPacket} (hp : p.Coherent) (setters : List ConnectSetter) :
    (setters.foldl set p).Coherent := by
  induction setters generalizing p with
  | nil => exact hp
  | cons setter setters ih => exact ih (coherent_set hp setter)

theorem Coherent.toPacket {p : ConnectPacket} (hp : p.Coherent) : p.toPacket.Coherent where
  kind := by
    change p.header.type.kind = .connect
    rw [hp.type]
    rfl
  legal := by
    change p.header.type.Legal
    rw [hp.type]
    rfl
  id m hm := by cases hm
  remaining := hp.remaining

end ConnectPacket

theorem TypeByte.legal_standard {kind : Kind} (h : kind ≠ .publish) :
    (TypeByte.standard kind).Legal := by
  cases kind <;> first | contradiction | rfl

namespace Packet

theorem coherent_ofBody {b : Body} (hpublish : b.kind ≠ .publish) : (ofBody b).Coherent where
  kind := rfl
  legal := TypeByte.legal_standard hpublish
  id m hm := by
    obtain rfl : b = .publish m := hm
    exact absurd rfl hpublish
  remaining := rfl

/-- Another identifier leaves the type, the size and the header as they are. -/
theorem coherent_setId {p q : Packet} (hp : p.Coherent) {id : UInt16} (h : p.setId? id = some q) :
    q.Coherent := by
  obtain ⟨header, body⟩ := p
  obtain ⟨hkind, hlegal, -, hremaining⟩ := hp
  cases body <;> simp only [setId?, Option.some.injEq, reduceCtorEq] at h <;> subst h <;>
    exact ⟨hkind, hlegal, fun m hm => (by cases hm), hremaining⟩

/-- Whatever constructors and setters make, its header agrees with its body. -/
theorem Built.coherent {p : Packet} (h : p.Built) : p.Coherent := by
  induction h with
  | connect clientId setters =>
    exact (ConnectPacket.coherent_foldl ⟨rfl, rfl⟩ setters).toPacket
  | publish topic delivery payload setters =>
    exact (PublishPacket.coherent_foldl (PublishPacket.coherent_new topic delivery payload) setters).toPacket
  | ofBody b hconnect hpublish => exact coherent_ofBody hpublish
  | setId id built set ih => exact coherent_setId ih set

end Packet

end Mqtt
