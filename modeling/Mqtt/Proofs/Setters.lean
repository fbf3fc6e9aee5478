import Mqtt.Proofs.Built
import Mqtt.Proofs.DeclaredSize

/-!
# Sequences of setters

A setter writes one field and leaves the others alone, so after any sequence of them a field has
the value that was set last. What the header says about the body stays true all along, also for
a PUBLISH that was read and not made here.
-/
namespace Mqtt
open Wire

/-- The last value that one of the setters gives to a field, or `start` if none of them sets it. -/
def lastSet {σ α : Type} (value? : σ → Option α) (start : α) (setters : List σ) : α :=
  (setters.filterMap value?).getLastD start

theorem lastSet_cons {σ α : Type} {value? : σ → Option α} {start : α} {s : σ} {setters : List σ} :
    lastSet value? start (s :: setters) = lastSet value? ((value? s).getD start) setters := by
  cases h : value? s with
  | none => rw [lastSet, List.filterMap_cons_none h, Option.getD_none, lastSet]
  | some v => rw [lastSet, List.filterMap_cons_some h, List.getLastD_cons, Option.getD_some, lastSet]

/-- A field that a setter either gives its value or leaves alone has the last value set. -/
theorem get_foldl {σ π α : Type} (get : π → α) {set : π → σ → π} {value? : σ → Option α}
    (hstep : ∀ p s, get (set p s) = (value? s).getD (get p)) (p : π) (setters : List σ) :
    get (setters.foldl set p) = lastSet value? (get p) setters := by
  induction setters generalizing p with
  | nil => rfl
  | cons s setters ih => rw [List.foldl_cons, ih, hstep, lastSet_cons]

namespace PublishSetter

def topic? : PublishSetter → Option TopicName
  | .topic value => some value
  | _ => none

def payload? : PublishSetter → Option Bytes
  | .payload value => some value
  | _ => none

def retain? : PublishSetter → Option Bool
  | .retain value => some value
  | _ => none

def delivery? : PublishSetter → Option Delivery
  | .delivery value => some value
  | _ => none

/-- What a setter makes of DUP in a packet that is delivered as `d`: a packet without an
identifier takes no DUP, and a change to quality of service 0 clears it. -/
def dup? (d : Delivery) : PublishSetter → Option Bool
  | .dup value => if d = .atMostOnce then none else some value
  | .delivery value => if value = .atMostOnce then some false else none
  | _ => none

/-- The setters, each with the delivery that it finds in the packet. -/
def under (d : Delivery) : List PublishSetter → List (Delivery × PublishSetter)
  | [] => []
  | s :: setters => (d, s) :: under (s.delivery?.getD d) setters

end PublishSetter

namespace ConnectSetter

def keepAlive? : ConnectSetter → Option UInt16
  | .keepAlive seconds => some seconds
  | _ => none

def cleanSession? : ConnectSetter → Option Bool
  | .cleanSession value => some value
  | _ => none

def clientId? : ConnectSetter → Option String
  | .clientId value => some value
  | _ => none

def username? : ConnectSetter → Option (Option String)
  | .username value => some value
  | _ => none

def password? : ConnectSetter → Option (Option Bytes)
  | .password value => some value
  | _ => none

def will? : ConnectSetter → Option (Option Will)
  | .will value => some value
  | _ => none

end ConnectSetter

namespace ConnectFlags

/-- The flags that a setter changes, from the value that it sets. -/
def set (f : ConnectFlags) : ConnectSetter → ConnectFlags
  | .keepAlive _ | .clientId _ => f
  | .cleanSession value => { f with cleanSession := value }
  | .username value => { f with username := value.isSome }
  | .password value => { f with password := value.isSome }
  | .will none => { f with will := false, willQos := 0, willRetain := false }
  | .will (some will) => { f with will := true, willQos := will.qos.toByte, willRetain := will.retain }

/-- The flags say which fields are there, and of a will its quality of service and whether it is
retained. -/
structure Describes (f : ConnectFlags) (c : Connect) : Prop where
  cleanSession : f.cleanSession = c.cleanSession
  username : f.username = c.username.isSome
  password : f.password = c.password.isSome
  will : f.will = c.will.isSome
  present : ∀ will, c.will = some will → f.willQos = will.qos.toByte ∧ f.willRetain = will.retain
  absent : c.will = none → f.willQos = 0 ∧ f.willRetain = false

end ConnectFlags

namespace PublishPacket

/-- A PUBLISH from the constructor, or one that was read. -/
inductive Given : PublishPacket → Prop
  | new (topic : TopicName) (delivery : Delivery) (payload : Bytes) : Given (.new topic delivery payload)
  | read {bs rest : Bytes} {p : PublishPacket} (decoded : Packet.Decoded bs p.toPacket rest) : Given p

/-- Type byte, identifier and declared size of a PUBLISH fit together. -/
structure Consistent (p : PublishPacket) : Prop where
  type : TypeByte.ofByte p.header.type.toByte = .ok p.header.type
  kind : p.header.type.kind = .publish
  id : p.body.id.isSome = true ↔ p.flags.qos = 1 ∨ p.flags.qos = 2
  dup : p.flags.qos = 0 → p.flags.dup = false
  size : p.header.remaining = p.body.width

/-- Each field of `q` has the value that was set last, from those of `p` on. -/
structure Follows (p : PublishPacket) (setters : List PublishSetter) (q : PublishPacket) : Prop where
  topic : q.body.topic = lastSet PublishSetter.topic? p.body.topic setters
  payload : q.body.payload = lastSet PublishSetter.payload? p.body.payload setters
  retain : q.flags.retain = lastSet PublishSetter.retain? p.flags.retain setters
  delivery : q.delivery = lastSet PublishSetter.delivery? p.delivery setters
  dup : q.flags.dup =
    lastSet (fun s => s.2.dup? s.1) p.flags.dup (PublishSetter.under p.delivery setters)

theorem Given.coherent {p : PublishPacket} (h : p.Given) : p.Coherent := by
  cases h with
  | new topic delivery payload => exact coherent_new topic delivery payload
  | read decoded =>
    obtain ⟨w, hw⟩ := decoded.spelled
    have hkind : p.header.type.kind = .publish := hw.kind.symm
    obtain ⟨legal, -⟩ := FixedHeader.read_eq_ok_iff.mp hw.header
    have hflags : p.flags.qos.val ≤ 2 ∧ (p.flags.dup = true → p.flags.qos.val ≠ 0) := by
      rwa [TypeByte.Legal, show p.toPacket.header.type.kind = .publish from hkind] at legal
    obtain ⟨hid, -⟩ : p.body.Identified p.flags := hw.legal
    refine ⟨hkind, hflags.1, hid, fun hdup => hid.mpr (hflags.2 hdup), ?_⟩
    have hsize : w.length = p.header.remaining.toNat := by
      refine hw.size ?_
      rw [← hw.kind]
      exact Kind.noConfusion
    rw [← UInt32.toNat_inj, ← hsize, hw.length_eq_width]
    rfl

theorem Coherent.consistent {p : PublishPacket} (h : p.Coherent) : p.Consistent := by
  have hqos := h.qos
  refine ⟨TypeByte.ofByte_eq_ok_iff.mpr ⟨h.toPacket.legal, rfl⟩, h.kind, ?_, ?_, h.remaining⟩
  · rw [h.id, Fin.ext_iff, Fin.ext_iff]
    change p.flags.qos.val ≠ 0 ↔ p.flags.qos.val = 1 ∨ p.flags.qos.val = 2
    omega
  · intro hzero
    have hdup := fun hd => h.id.mp (h.dup hd)
    simpa [hzero] using hdup

theorem delivery_eq_atMostOnce_iff {p : PublishPacket} :
    p.delivery = .atMostOnce ↔ p.body.id = none := by
  unfold delivery
  cases p.body.id with
  | none => simp
  | some id => by_cases h : p.flags.qos.val = 1 <;> simp [h]

theorem delivery_set (p : PublishPacket) (s : PublishSetter) :
    (p.set s).delivery = s.delivery?.getD p.delivery := by
  cases s with
  | delivery value =>
    rw [set, delivery, flags_setDelivery, body_setDelivery]
    cases value <;> rfl
  | _ => rfl

theorem retain_set (p : PublishPacket) (s : PublishSetter) :
    (p.set s).flags.retain = s.retain?.getD p.flags.retain := by
  cases s with
  | delivery value => rw [set, flags_setDelivery]; rfl
  | _ => rfl

theorem topic_set (p : PublishPacket) (s : PublishSetter) :
    (p.set s).body.topic = s.topic?.getD p.body.topic := by
  cases s with
  | delivery value => rw [set, body_setDelivery]; rfl
  | _ => rfl

theorem payload_set (p : PublishPacket) (s : PublishSetter) :
    (p.set s).body.payload = s.payload?.getD p.body.payload := by
  cases s with
  | delivery value => rw [set, body_setDelivery]; rfl
  | _ => rfl

theorem dup_set {p : PublishPacket} (hp : p.Coherent) (s : PublishSetter) :
    (p.set s).flags.dup = (s.dup? p.delivery).getD p.flags.dup := by
  -- a packet without an identifier has no DUP to lose
  have hnone (h : p.body.id = none) : p.flags.dup = false := by
    have hdup := hp.dup
    simpa [h] using hdup
  cases s with
  | dup value =>
    change (value && p.body.id.isSome) = _
    by_cases h : p.body.id = none
    · simp [PublishSetter.dup?, delivery_eq_atMostOnce_iff.mpr h, h, hnone h]
    · have hd : p.delivery ≠ .atMostOnce := fun hd => h (delivery_eq_atMostOnce_iff.mp hd)
      simp [PublishSetter.dup?, hd, Option.isSome_iff_ne_none.mpr h]
  | delivery value =>
    rw [set, flags_setDelivery]
    cases value <;> simp [PublishSetter.dup?, Delivery.id?]
  | _ => rfl

theorem dup_foldl {p : PublishPacket} (hp : p.Coherent) (setters : List PublishSetter) :
    (setters.foldl set p).flags.dup =
      lastSet (fun s => s.2.dup? s.1) p.flags.dup (PublishSetter.under p.delivery setters) := by
  induction setters generalizing p with
  | nil => rfl
  | cons s setters ih =>
    rw [List.foldl_cons, ih (coherent_set hp s), dup_set hp, delivery_set, PublishSetter.under,
      lastSet_cons]

theorem Coherent.follows {p : PublishPacket} (hp : p.Coherent) (setters : List PublishSetter) :
    p.Follows setters (setters.foldl set p) where
  topic := get_foldl (fun q => q.body.topic) topic_set p setters
  payload := get_foldl (fun q => q.body.payload) payload_set p setters
  retain := get_foldl (fun q => q.flags.retain) retain_set p setters
  delivery := get_foldl delivery delivery_set p setters
  dup := dup_foldl hp setters

end PublishPacket

namespace ConnectPacket

/-- What a CONNECT is written with in front of its flags: the name and the level of the protocol. -/
def preamble : Bytes := [0, 4, 77, 81, 84, 84, 4]

/-- Type byte, flags and declared size of a CONNECT fit its fields; the flags are those that it
is written with. -/
structure Consistent (p : ConnectPacket) : Prop where
  type : TypeByte.ofByte p.header.type.toByte = .ok p.header.type
  kind : p.header.type.kind = .connect
  flags : ∃ b fields, p.body.write.bytes = preamble ++ b :: fields ∧ b.toNat % 2 = 0 ∧
    (ConnectFlags.ofBits b).Describes p.body
  size : p.header.remaining = p.body.width

/-- Each field of `q`, its flags among them, has the value that was set last, from those of `p`
on. -/
structure Follows (p : ConnectPacket) (setters : List ConnectSetter) (q : ConnectPacket) : Prop where
  keepAlive : q.body.keepAlive = lastSet ConnectSetter.keepAlive? p.body.keepAlive setters
  cleanSession : q.body.cleanSession = lastSet ConnectSetter.cleanSession? p.body.cleanSession setters
  clientId : q.body.clientId = lastSet ConnectSetter.clientId? p.body.clientId setters
  username : q.body.username = lastSet ConnectSetter.username? p.body.username setters
  password : q.body.password = lastSet ConnectSetter.password? p.body.password setters
  will : q.body.will = lastSet ConnectSetter.will? p.body.will setters
  flags : q.body.flags = setters.foldl ConnectFlags.set p.body.flags

end ConnectPacket

namespace Connect

theorem flags_describes (c : Connect) : c.flags.Describes c := by
  have h := c.announced_flags
  refine ⟨h.cleanSession, h.username.symm, h.password.symm, h.will.symm, h.willFields, ?_⟩
  intro hnone
  simp [flags, hnone]

/-- The flags are written whatever becomes of the fields behind them. -/
theorem bytes_write (c : Connect) :
    ∃ fields, c.write.bytes = ConnectPacket.preamble ++ c.flags.toByte :: fields := by
  have hname : Text.write Protocol.name = .ok [0, 4, 77, 81, 84, 84] := by decide
  rw [write_eq, hname, Written.ok_append, Written.ok_append]
  exact ⟨_, rfl⟩

theorem willQos_flags_le (c : Connect) : c.flags.willQos ≤ 2 := by
  cases h : c.will with
  | none => simp [flags, h]
  | some will => cases hq : will.qos <;> simp [flags, h, hq, QoS.toByte, QoS.level]

end Connect

namespace ConnectPacket

theorem Coherent.consistent {p : ConnectPacket} (h : p.Coherent) : p.Consistent := by
  refine ⟨?_, ?_, ?_, h.remaining⟩
  · rw [h.type]
    exact TypeByte.ofByte_toByte_standard .connect
  · rw [h.type]
    rfl
  · obtain ⟨fields, hfields⟩ := p.body.bytes_write
    refine ⟨p.body.flags.toByte, fields, hfields, ?_, ?_⟩
    · rw [ConnectFlags.toNat_toByte]
      omega
    · rw [ConnectFlags.ofBits_toByte p.body.willQos_flags_le]
      exact p.body.flags_describes

theorem flags_set (p : ConnectPacket) (s : ConnectSetter) :
    (p.set s).body.flags = p.body.flags.set s := by
  cases s with
  | will value => cases value <;> rfl
  | _ => rfl

theorem flags_foldl (p : ConnectPacket) (setters : List ConnectSetter) :
    (setters.foldl set p).body.flags = setters.foldl ConnectFlags.set p.body.flags := by
  induction setters generalizing p with
  | nil => rfl
  | cons s setters ih => rw [List.foldl_cons, ih, flags_set, List.foldl_cons]

theorem follows_foldl (p : ConnectPacket) (setters : List ConnectSetter) :
    p.Follows setters (setters.foldl set p) where
  keepAlive := get_foldl (fun q => q.body.keepAlive) (by intro q s; cases s <;> rfl) p setters
  cleanSession :=
    get_foldl (fun q => q.body.cleanSession) (by intro q s; cases s <;> rfl) p setters
  clientId := get_foldl (fun q => q.body.clientId) (by intro q s; cases s <;> rfl) p setters
  username := get_foldl (fun q => q.body.username) (by intro q s; cases s <;> rfl) p setters
  password := get_foldl (fun q => q.body.password) (by intro q s; cases s <;> rfl) p setters
  will := get_foldl (fun q => q.body.will) (by intro q s; cases s <;> rfl) p setters
  flags := flags_foldl p setters

end ConnectPacket

/-- After any setters the header of a PUBLISH, made here or read, and that of a CONNECT agree with
their bodies, and every field has the value that was set last. -/
theorem setters_keep_coherence {p : PublishPacket} (given : p.Given)
    (setters : List PublishSetter) (clientId : String) (settings : List ConnectSetter) :
    ((setters.foldl PublishPacket.set p).Consistent ∧
        p.Follows setters (setters.foldl PublishPacket.set p)) ∧
      (settings.foldl ConnectPacket.set (.new clientId)).Consistent ∧
        (ConnectPacket.new clientId).Follows settings
          (settings.foldl ConnectPacket.set (.new clientId)) := by
  have hp := given.coherent
  have hc : (ConnectPacket.new clientId).Coherent := ⟨rfl, rfl⟩
  exact ⟨⟨(PublishPacket.coherent_foldl hp setters).consistent, hp.follows setters⟩,
    (ConnectPacket.coherent_foldl hc settings).consistent, ConnectPacket.follows_foldl _ settings⟩

/-- A repeated PUBLISH is read, sent once without an identifier and then with one again. -/
theorem setters_keep_coherence_repeated :
    let p : PublishPacket := ⟨⟨⟨.publish, ⟨true, 2, true⟩⟩, 6⟩, ⟨⟨"a", by decide⟩, some 7, [1]⟩⟩
    let setters : List PublishSetter :=
      [.payload [2, 3], .delivery .atMostOnce, .dup true, .delivery (.atLeastOnce 9)]
    let settings : List ConnectSetter :=
      [.will (some ⟨⟨"w", by decide⟩, [0], .exactlyOnce, true⟩), .password (some [1]), .will none]
    Packet.read [61, 6, 0, 1, 97, 0, 7, 1, 255] = .ok (p.toPacket, [255]) ∧
      ((setters.foldl PublishPacket.set p).Consistent ∧
        p.Follows setters (setters.foldl PublishPacket.set p)) ∧
      (settings.foldl ConnectPacket.set (.new "id")).Consistent ∧
        (ConnectPacket.new "id").Follows settings
          (settings.foldl ConnectPacket.set (.new "id")) := by
  intro p setters settings
  have hread : Packet.read [61, 6, 0, 1, 97, 0, 7, 1, 255] = .ok (p.toPacket, [255]) := rfl
  exact ⟨hread, setters_keep_coherence (.read (.any hread)) setters "id" settings⟩

end Mqtt
