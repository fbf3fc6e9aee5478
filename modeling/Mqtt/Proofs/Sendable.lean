import Mqtt.Client.Options
import Mqtt.Proofs.RoundTrip

/-!
# Options that make a sendable CONNECT

A CONNECT can be encoded exactly when its fields fit behind their length prefixes, and reading it
gives it back. Validation sees to every field of the options but the user name.
-/
namespace Mqtt
open Wire

/-! ## CONNECT packets -/

theorem TopicName.size_le (topic : TopicName) : topic.text.utf8ByteSize ≤ 65535 := by
  have hvalid := topic.valid
  rw [isTopicName, Bool.and_eq_true, decide_eq_true_eq] at hvalid
  exact hvalid.1

/-- A topic name is never too long to be written. -/
theorem TopicName.write_eq (topic : TopicName) :
    topic.write = .ok (word topic.text.utf8ByteSize.toUInt16 ++ Text.toBytes topic.text) :=
  if_pos topic.size_le

namespace Connect
variable {c : Connect}

/-- That the fields fit behind their length prefixes. -/
structure Fits (c : Connect) : Prop where
  clientId : c.clientId.utf8ByteSize ≤ 65535
  message : ∀ will, c.will = some will → will.message.length ≤ 65535
  username : ∀ name, c.username = some name → name.utf8ByteSize ≤ 65535
  password : ∀ data, c.password = some data → data.length ≤ 65535

theorem Fits.prefixed (fits : c.Fits) :
    ∀ field ∈ (Body.connect c).prefixed, field.length ≤ 65535 := by
  obtain ⟨clientId, clean, keepAlive, will, username, password⟩ := c
  obtain ⟨hclientId, hmessage, husername, hpassword⟩ := fits
  cases will <;> cases username <;> cases password <;>
    simp_all [Body.prefixed, TopicName.size_le]

theorem write_ok_iff_fits : (∃ w, c.write = .ok w) ↔ c.Fits := by
  refine ⟨fun h => ?_, fun fits => Connect.write_ok fits.prefixed⟩
  obtain ⟨w, hw⟩ := h
  obtain ⟨wn, wi, ww, wu, wp, -, hi, hwill, husername, hpassword, -⟩ := fields_of_write hw
  refine ⟨?_, fun will heq => ?_, fun name heq => ?_, fun data heq => ?_⟩
  · have hlength := Text.length_write hi
    omega
  · rw [heq] at hwill
    obtain ⟨wt, wm, -, hm, -⟩ := Written.append_eq_ok_iff.mp hwill
    have hlength := Binary.length_write hm
    omega
  · rw [heq] at husername
    have hlength := Text.length_write husername
    omega
  · rw [heq] at hpassword
    have hlength := Binary.length_write hpassword
    omega

end Connect

namespace ConnectPacket
variable {p : ConnectPacket} {bs : Bytes}

theorem Coherent.length_write (hp : p.Coherent) {w : Bytes} (hw : p.body.write = .ok w) :
    w.length = p.header.remaining.toNat := by
  rw [← size32_eq_iff (Connect.length_write hw), Connect.size32_write hw, hp.remaining]

/-- A CONNECT is encoded exactly when its fields fit; its header has room for them all. -/
theorem Coherent.encode_ok_iff (hp : p.Coherent) :
    (∃ bs, p.toPacket.encode = .ok bs) ↔ p.body.Fits := by
  rw [← Connect.write_ok_iff_fits]
  constructor
  · intro h
    obtain ⟨bs, hbs⟩ := h
    obtain ⟨v, w, -, hw, -⟩ := Written.append_eq_ok_iff.mp (Written.toExcept_eq_ok_iff.mp hbs)
    exact ⟨w, hw⟩
  · intro h
    obtain ⟨w, hw⟩ := h
    have hmax : p.header.remaining ≤ VarInt.maximum := by
      rw [UInt32.le_iff_toNat_le, ← hp.length_write hw]
      exact Nat.le_trans (Connect.length_write_le hw) (by decide)
    have hheader := FixedHeader.write_eq_ok_iff.mpr ⟨hmax, rfl⟩
    exact ⟨_, Written.toExcept_eq_ok_iff.mpr (Written.append_ok hheader hw)⟩

/-- Reading an encoded CONNECT gives it back and leaves what follows it. -/
theorem Coherent.read_of_encode (hp : p.Coherent)
    (hpassword : p.body.password.isSome = true → p.body.username.isSome = true)
    (h : p.toPacket.encode = .ok bs) (s : Bytes) : Packet.read (bs ++ s) = .ok (p.toPacket, s) := by
  obtain ⟨v, w, hv, hw, rfl⟩ := Written.append_eq_ok_iff.mp (Written.toExcept_eq_ok_iff.mp h)
  have hlength := hp.length_write hw
  have hle := Connect.length_write_le hw
  obtain ⟨-, rfl⟩ := FixedHeader.write_eq_ok_iff.mp hv
  have hfield : LengthField 4 (VarInt.digits 4 p.header.remaining.toNat) p.header.remaining.toNat :=
    LengthField.of_digits (by omega)
  have hread : FixedHeader.read (p.header.type.toByte ::
      VarInt.digits 4 p.header.remaining.toNat ++ w ++ s) = .ok (p.header, w ++ s) :=
    FixedHeader.read_eq_ok_iff.mpr ⟨hp.toPacket.legal, _, hfield, by simp⟩
  exact Packet.read_eq_ok_iff.mpr
    ⟨w, ⟨hread, hp.toPacket.kind.symm, hpassword, hw, fun _ => hlength⟩, Nat.le_of_eq hlength⟩

end ConnectPacket

/-! ## Options -/

namespace Options
variable {o : Options}

/-- What validation asks of options. -/
structure Valid (o : Options) : Prop where
  address : o.address ≠ ""
  attempts : o.maxRetryCount ≠ 0
  delay : o.retryDelay ≠ 0
  interval : o.tickInterval ≠ 0
  credentials : o.password.isSome = true → o.username.isSome = true
  kept : o.clientId = "" → o.cleanSession = true
  clientId : o.clientId.utf8ByteSize ≤ 65535
  password : ∀ data, o.password = some data → data.length ≤ 65535
  message : ∀ will, o.will = some will → will.message.length ≤ 65535

theorem fault?_eq_none_iff : o.fault? = none ↔ o.Valid := by
  have hnext : ∀ {c : Prop} [Decidable c] {fault : OptionsFault} {rest : Option OptionsFault},
      (if c then some fault else rest) = none ↔ ¬ c ∧ rest = none := by
    intro c _ fault rest
    by_cases hc : c <;> simp [hc]
  simp only [fault?, hnext, Bool.and_eq_true, decide_eq_true_eq, Bool.not_eq_true',
    Option.any_eq_true, not_and, not_exists, Nat.not_lt, Bool.not_eq_true, Bool.not_eq_false,
    Option.isNone_eq_false_iff, and_true]
  constructor
  · intro h
    obtain ⟨haddress, hattempts, hdelay, hinterval, hcredentials, hkept, hclientId, hpassword,
      hmessage⟩ := h
    exact ⟨haddress, hattempts, hdelay, hinterval, hcredentials, hkept, hclientId, hpassword,
      hmessage⟩
  · intro valid
    exact ⟨valid.address, valid.attempts, valid.delay, valid.interval, valid.credentials,
      valid.kept, valid.clientId, valid.password, valid.message⟩

theorem validate_eq_ok_iff : o.validate = .ok () ↔ o.Valid := by
  rw [← fault?_eq_none_iff, validate]
  split <;> simp [*]

theorem coherent_connectPacket (o : Options) : o.connectPacket.Coherent :=
  ConnectPacket.coherent_foldl ⟨rfl, rfl⟩ [.cleanSession o.cleanSession, .keepAlive o.keepAlive,
    .will o.will, .username o.username, .password o.password]

/-- Of validated options only the user name can keep the CONNECT from being encoded, and one that
is encoded is read as the options say. -/
theorem encode_connectPacket_iff (h : o.validate = .ok ()) :
    ((∃ bs, o.connectPacket.toPacket.encode = .ok bs) ↔
        ∀ name, o.username = some name → name.utf8ByteSize ≤ 65535) ∧
      ∀ bs, o.connectPacket.toPacket.encode = .ok bs → ∀ s, Packet.read (bs ++ s) =
        .ok (⟨o.connectPacket.header, .connect
          { clientId := o.clientId
            cleanSession := o.cleanSession
            keepAlive := o.keepAlive
            will := o.will
            username := o.username
            password := o.password }⟩, s) := by
  have valid := validate_eq_ok_iff.mp h
  have hp := o.coherent_connectPacket
  refine ⟨hp.encode_ok_iff.trans ⟨fun fits => fits.username, fun husername => ?_⟩,
    fun bs hbs s => ?_⟩
  · exact ⟨valid.clientId, valid.message, husername, valid.password⟩
  · exact hp.read_of_encode valid.credentials hbs s

/-- Options with every optional field of a CONNECT, the user name as long as asked. -/
def login (length : Nat) : Options where
  address := "broker:1883"
  clientId := "c1"
  will := some ⟨⟨"gone", by decide⟩, [0, 255], .atLeastOnce, true⟩
  username := some ("".pushn 'a' length)
  password := some [7]

theorem validate_login (length : Nat) : (login length).validate = .ok () := by
  refine validate_eq_ok_iff.mpr ⟨show "broker:1883" ≠ "" by decide, Nat.succ_ne_zero 2,
    Nat.succ_ne_zero 4999, Nat.succ_ne_zero 999, fun _ => rfl, fun _ => rfl,
    show "c1".utf8ByteSize ≤ 65535 by decide, fun data h => ?_, fun will h => ?_⟩
  · cases h
    decide
  · cases h
    decide

theorem size_pushn (n : Nat) : ("".pushn 'a' n).utf8ByteSize = n := by
  induction n with
  | zero => rfl
  | succ n ih =>
    change (("".pushn 'a' n).push 'a').utf8ByteSize = n + 1
    rw [String.utf8ByteSize_push, ih]
    rfl

theorem size_username_login {length : Nat} {name : String}
    (h : (login length).username = some name) : name.utf8ByteSize = length := by
  rw [← Option.some.inj h]
  exact size_pushn length

/-- The longest user name that can be sent. -/
theorem encode_connectPacket_iff_longest :
    (login 65535).validate = .ok () ∧ ∃ bs, (login 65535).connectPacket.toPacket.encode = .ok bs ∧
      ∀ s, Packet.read (bs ++ s) = .ok (⟨(login 65535).connectPacket.header, .connect
        { clientId := "c1"
          cleanSession := true
          keepAlive := 60
          will := (login 65535).will
          username := (login 65535).username
          password := some [7] }⟩, s) := by
  obtain ⟨hencode, hread⟩ := encode_connectPacket_iff (validate_login 65535)
  obtain ⟨bs, hbs⟩ := hencode.mpr fun _ h => Nat.le_of_eq (size_username_login h)
  exact ⟨validate_login 65535, bs, hbs, hread bs hbs⟩

/-- Validation accepts a user name that is one byte too long for a CONNECT. -/
theorem not_always_encoded :
    ¬ ∀ o : Options, o.validate = .ok () → ∃ bs, o.connectPacket.toPacket.encode = .ok bs := by
  intro hall
  have fits := (login 65536).coherent_connectPacket.encode_ok_iff.mp
    (hall (login 65536) (validate_login 65536))
  have hle := fits.username _ rfl
  rw [size_username_login rfl] at hle
  omega

end Options

end Mqtt
