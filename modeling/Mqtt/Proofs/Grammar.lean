import Mqtt.Proofs.Frame
import Mqtt.Proofs.Packets
import Mqtt.Proofs.Wildcards

/-!
# The grammar of frames

Which frames the decoder takes for packets, said of their bytes alone: a type byte whose halves
fit together, and a body whose fields follow one another. Nothing bad is taken for a packet and
nothing good is refused, whatever the size of the body.
-/
namespace Mqtt
open Wire

namespace Grammar

/-! ## Fields -/

/-- A bit of a byte, the lowest one being bit 0. -/
def Bit (b : UInt8) (i : Nat) : Prop := b.toNat / 2 ^ i % 2 = 1

/-- Two bytes that count the others, the high one first, and as many bytes as they count. -/
def Prefixed (data w : Bytes) : Prop :=
  ∃ hi lo : UInt8, data.length = 256 * hi.toNat + lo.toNat ∧ w = hi :: lo :: data

def DataField (w : Bytes) : Prop := ∃ data, Prefixed data w

/-- The UTF-8 of a text with some property, behind its length. -/
def TextField (P : String → Prop) (w : Bytes) : Prop :=
  ∃ s : String, P s ∧ Prefixed s.toUTF8.data.toList w

def IsName (s : String) : Prop := '#' ∉ s.toList ∧ '+' ∉ s.toList

def IsFilter (s : String) : Prop := s ≠ "" ∧ WildcardsFit s.toList

/-- A field that is there if something holds, and takes no bytes otherwise. -/
def FieldIf (p : Prop) (P : Bytes → Prop) (w : Bytes) : Prop := (p ∧ P w) ∨ (¬ p ∧ w = [])

/-! ## Bodies -/

/-- The flag byte of CONNECT: will quality of service in bits 3 and 4, retained will in bit 5. -/
structure FlagByte (b : UInt8) : Prop where
  reserved : ¬ Bit b 0
  willQos : b.toNat / 8 % 4 ≤ 2
  will : ¬ Bit b 2 → b.toNat / 8 % 4 = 0 ∧ ¬ Bit b 5
  password : Bit b 6 → Bit b 7

def WillFields (w : Bytes) : Prop :=
  ∃ topic message, w = topic ++ message ∧ TextField IsName topic ∧ DataField message

/-- What a CONNECT says after its keep-alive period. -/
def Announced (flags : UInt8) (w : Bytes) : Prop :=
  ∃ client will user password, w = client ++ (will ++ (user ++ password)) ∧
    TextField (fun _ => True) client ∧ FieldIf (Bit flags 2) WillFields will ∧
    FieldIf (Bit flags 7) (TextField fun _ => True) user ∧ FieldIf (Bit flags 6) DataField password

/-- The name MQTT behind its length, the level 4, flags, the keep-alive period, the fields that
the flags announce, and anything. -/
def ConnectBody (body : Bytes) : Prop :=
  ∃ flags k₁ k₂ fields rest,
    body = [0x00, 0x04, 0x4D, 0x51, 0x54, 0x54, 0x04, flags, k₁, k₂] ++ (fields ++ rest) ∧
      FlagByte flags ∧ Announced flags fields

/-- The identifier of an acknowledged message, two bytes that are not both zero. -/
def MessageId (w : Bytes) : Prop := ∃ hi lo : UInt8, w = [hi, lo] ∧ ¬ (hi = 0 ∧ lo = 0)

def PublishBody (qos : Nat) (body : Bytes) : Prop :=
  ∃ topic id payload, body = topic ++ (id ++ payload) ∧ TextField IsName topic ∧
    FieldIf (qos ≠ 0) MessageId id

def SubscribeBody (body : Bytes) : Prop :=
  ∃ (i j : UInt8) (filter : Bytes) (q : UInt8), body = i :: j :: (filter ++ [q]) ∧
    TextField IsFilter filter ∧ q ≤ 2

def UnsubscribeBody (body : Bytes) : Prop :=
  ∃ (i j : UInt8) (filter : Bytes), body = i :: j :: filter ∧ TextField IsFilter filter

def ConnackBody (body : Bytes) : Prop :=
  ∃ flags code : UInt8, body = [flags, code] ∧ flags ≤ 1 ∧ code ≤ 5

def SubackBody (body : Bytes) : Prop :=
  ∃ i j code : UInt8, body = [i, j, code] ∧ (code = 0 ∨ code = 1 ∨ code = 2 ∨ code = 128)

/-- The body that a type byte asks for. -/
def BodyFits (type : UInt8) (body : Bytes) : Prop :=
  match type.toNat / 16 with
  | 1 => ConnectBody body
  | 2 => ConnackBody body
  | 3 => PublishBody (type.toNat / 2 % 4) body
  -- acknowledgements are an identifier, and it may be zero
  | 4 | 5 | 6 | 7 | 11 => body.length = 2
  | 8 => SubscribeBody body
  | 9 => SubackBody body
  | 10 => UnsubscribeBody body
  -- PINGREQ, PINGRESP and DISCONNECT
  | 12 | 13 | 14 => body = []
  | _ => False

/-! ## Frames -/

/-- The low half of a type byte: bit 3 of a PUBLISH marks a repetition, and bits 1 and 2 are its
quality of service. -/
def FlagsFit (type : UInt8) : Prop :=
  match type.toNat / 16 with
  | 3 => type.toNat / 2 % 4 ≠ 3 ∧ ¬ (Bit type 3 ∧ type.toNat / 2 % 4 = 0)
  | 6 | 8 | 10 => type.toNat % 16 = 2
  | _ => type.toNat % 16 = 0

structure Grammatical (type : UInt8) (body : Bytes) : Prop where
  number : 1 ≤ type.toNat / 16 ∧ type.toNat / 16 ≤ 14
  flags : FlagsFit type
  body : BodyFits type body

/-! ## What the fields are written to -/

/-- Any two bytes are those of a number. -/
theorem word_ofNat (i j : UInt8) : word (UInt16.ofNat (256 * i.toNat + j.toNat)) = [i, j] := by
  have hread : readWord [i, j] = .ok (UInt16.ofNat (256 * i.toNat + j.toNat), []) := rfl
  rw [readWord_eq_ok_iff, List.append_nil] at hread
  exact hread.symm

theorem word_iff {w : Bytes} : (∃ n, word n = w) ↔ ∃ i j : UInt8, w = [i, j] := by
  constructor
  · rintro ⟨n, rfl⟩
    exact ⟨_, _, rfl⟩
  · rintro ⟨i, j, rfl⟩
    exact ⟨_, word_ofNat i j⟩

theorem messageId_iff {w : Bytes} : (∃ n, n ≠ 0 ∧ word n = w) ↔ MessageId w := by
  have hzero (n : UInt16) (i j : UInt8) (h : word n = [i, j]) : n = 0 ↔ i = 0 ∧ j = 0 := by
    have hn := n.toNat_lt
    simp only [word, List.cons.injEq, and_true] at h
    obtain ⟨rfl, rfl⟩ := h
    simp only [← UInt8.toNat_inj, ← UInt16.toNat_inj, UInt8.toNat_ofNat', UInt8.toNat_zero,
      UInt16.toNat_zero]
    omega
  constructor
  · rintro ⟨n, hn, hw⟩
    obtain ⟨i, j, rfl⟩ := word_iff.mp ⟨n, hw⟩
    exact ⟨i, j, rfl, fun h => hn ((hzero n i j hw).mpr h)⟩
  · rintro ⟨i, j, rfl, hne⟩
    obtain ⟨n, hw⟩ := word_iff.mpr ⟨i, j, rfl⟩
    exact ⟨n, fun h => hne ((hzero n i j hw).mp h), hw⟩

theorem prefixed_iff {data w : Bytes} : Binary.write data = .ok w ↔ Prefixed data w := by
  rw [Binary.write_eq_ok_iff]
  constructor
  · rintro ⟨hle, rfl⟩
    simp only [maxPrefixed] at hle
    refine ⟨_, _, ?_, rfl⟩
    simp only [Nat.toUInt16_eq, UInt16.toNat_ofNat', UInt8.toNat_ofNat']
    omega
  · rintro ⟨hi, lo, hlen, rfl⟩
    have hhi := hi.toNat_lt
    have hlo := lo.toNat_lt
    refine ⟨by simp only [maxPrefixed]; omega, ?_⟩
    rw [hlen, Nat.toUInt16_eq, word_ofNat]
    rfl

theorem text_iff {s : String} {w : Bytes} :
    Text.write s = .ok w ↔ Prefixed s.toUTF8.data.toList w := by
  rw [Text.write_eq_binary, prefixed_iff]
  rfl

theorem utf8ByteSize_le_of_prefixed {s : String} {w : Bytes} (h : Prefixed s.toUTF8.data.toList w) :
    s.utf8ByteSize ≤ maxPrefixed :=
  (Binary.write_eq_ok_iff.mp (prefixed_iff.mpr h)).1

theorem dataField_iff {w : Bytes} : (∃ data, Binary.write data = .ok w) ↔ DataField w := by
  simp only [prefixed_iff, DataField]

theorem textField_iff {w : Bytes} :
    (∃ s, Text.write s = .ok w) ↔ TextField (fun _ => True) w := by
  simp only [text_iff, TextField, true_and]

theorem nameField_iff {w : Bytes} : (∃ t : TopicName, t.write = .ok w) ↔ TextField IsName w := by
  constructor
  · rintro ⟨t, hw⟩
    exact ⟨t.text, (isTopicName_iff.mp t.valid).2, text_iff.mp hw⟩
  · rintro ⟨s, hname, hw⟩
    exact ⟨⟨s, isTopicName_iff.mpr ⟨utf8ByteSize_le_of_prefixed hw, hname⟩⟩, text_iff.mpr hw⟩

theorem filterField_iff {w : Bytes} :
    (∃ t : TopicFilter, t.write = .ok w) ↔ TextField IsFilter w := by
  constructor
  · rintro ⟨t, hw⟩
    obtain ⟨hne, -, hfit⟩ := isTopicFilter_iff.mp t.valid
    exact ⟨t.text, ⟨hne, hfit⟩, text_iff.mp hw⟩
  · rintro ⟨s, ⟨hne, hfit⟩, hw⟩
    exact ⟨⟨s, isTopicFilter_iff.mpr ⟨hne, utf8ByteSize_le_of_prefixed hw, hfit⟩⟩, text_iff.mpr hw⟩

theorem fieldIf_iff {α : Type} {write : α → Written} {Q : α → Prop} {P : Bytes → Prop}
    {p : Prop} (hfield : p → ∀ w, (∃ a, Q a ∧ write a = .ok w) ↔ P w) {w : Bytes} :
    (∃ o : Option α, (o.isSome = true ↔ p) ∧ (∀ a, o = some a → Q a) ∧
      writeOption write o = .ok w) ↔
      FieldIf p P w := by
  constructor
  · rintro ⟨o, hsome, hQ, hw⟩
    cases o with
    | none =>
      rw [writeOption, Written.ok_inj] at hw
      exact .inr ⟨by simpa using hsome, hw.symm⟩
    | some a =>
      have hp : p := by simpa using hsome
      exact .inl ⟨hp, (hfield hp w).mp ⟨a, hQ a rfl, hw⟩⟩
  · rintro (⟨hp, hw⟩ | ⟨hp, rfl⟩)
    · obtain ⟨a, hQ, ha⟩ := (hfield hp w).mpr hw
      refine ⟨some a, by simpa using hp, ?_, ha⟩
      rintro _ ⟨⟩
      exact hQ
    · exact ⟨none, by simpa using hp, by simp, rfl⟩

/-! ## Type bytes -/

theorem toByte_div (t : TypeByte) : t.toByte.toNat / 16 = t.kind.code := by
  have hf := t.flags.toNat_lt
  rw [TypeByte.toNat_toByte]
  omega

theorem toByte_mod (t : TypeByte) : t.toByte.toNat % 16 = t.flags.toNat := by
  have hf := t.flags.toNat_lt
  rw [TypeByte.toNat_toByte]
  omega

theorem toByte_qos (t : TypeByte) : t.toByte.toNat / 2 % 4 = t.flags.qos.val := by
  have hmod := toByte_mod t
  have hq := t.flags.qos.isLt
  have hd := Bool.toNat_lt t.flags.dup
  have hr := Bool.toNat_lt t.flags.retain
  rw [Flags.toNat] at hmod
  omega

theorem bit_dup (t : TypeByte) : Bit t.toByte 3 ↔ t.flags.dup = true := by
  have hmod := toByte_mod t
  have hq := t.flags.qos.isLt
  have hr := Bool.toNat_lt t.flags.retain
  rw [Flags.toNat] at hmod
  have hbit : t.toByte.toNat / 2 ^ 3 % 2 = t.flags.dup.toNat := by
    have hd := Bool.toNat_lt t.flags.dup
    omega
  rw [Bit, hbit]
  cases t.flags.dup <;> simp

theorem flagsFit_iff (t : TypeByte) : FlagsFit t.toByte ↔ t.Legal := by
  have hfixed (n : Nat) (f : Flags) (hf : f.toNat = n) :
      t.toByte.toNat % 16 = n ↔ t.flags = f := by
    rw [toByte_mod, ← hf]
    constructor
    · intro h
      rw [← Flags.ofByte_ofNat t.flags, h, Flags.ofByte_ofNat]
    · rintro h
      rw [h]
  have hq := t.flags.qos.isLt
  obtain ⟨kind, flags⟩ := t
  rw [FlagsFit, toByte_div, toByte_qos, bit_dup]
  cases kind with
  | publish =>
    simp only [Kind.code, TypeByte.Legal]
    constructor
    · rintro ⟨hne, hdup⟩
      exact ⟨by simp only at hq; omega, fun h hzero => hdup ⟨h, hzero⟩⟩
    · rintro ⟨hle, hdup⟩
      exact ⟨by omega, fun h => hdup h.1 h.2⟩
  | _ => exact hfixed _ _ rfl

theorem exists_kind {n : Nat} (h : 1 ≤ n ∧ n ≤ 14) : ∃ kind : Kind, kind.code = n := by
  have hall : ∀ n : Fin 15, 1 ≤ n.val → ∃ kind ∈ Kind.all, kind.code = n.val := by decide
  obtain ⟨kind, -, hkind⟩ := hall ⟨n, by omega⟩ h.1
  exact ⟨kind, hkind⟩

theorem exists_toByte {b : UInt8} (h : 1 ≤ b.toNat / 16 ∧ b.toNat / 16 ≤ 14) :
    ∃ t : TypeByte, b = t.toByte := by
  obtain ⟨kind, hkind⟩ := exists_kind h
  refine ⟨⟨kind, .ofByte b⟩, UInt8.toNat_inj.mp ?_⟩
  rw [TypeByte.toNat_toByte, Flags.toNat_ofByte, hkind]
  omega

/-! ## Codes -/

/-- Codes that leave none of the bytes up to `n` out are the bytes up to `n`. -/
theorem exists_code_iff {α : Type} {f : α → UInt8} {n b : UInt8} (all : List α)
    (hle : ∀ a, f a ≤ n) (hall : ∀ m : Fin (n.toNat + 1), ∃ a ∈ all, m.val = (f a).toNat) :
    (∃ a, b = f a) ↔ b ≤ n := by
  constructor
  · rintro ⟨a, rfl⟩
    exact hle a
  · intro h
    have hlt : b.toNat < n.toNat + 1 := Nat.lt_succ_of_le (UInt8.le_iff_toNat_le.mp h)
    obtain ⟨a, -, ha⟩ := hall ⟨b.toNat, hlt⟩
    exact ⟨a, UInt8.toNat_inj.mp ha⟩

theorem qos_iff {b : UInt8} : (∃ q : QoS, b = q.toByte) ↔ b ≤ 2 :=
  exists_code_iff [.atMostOnce, .atLeastOnce, .exactlyOnce] (fun q => by cases q <;> decide)
    (by decide)

theorem connackFlags_iff {b : UInt8} : (∃ s, b = ConnackFlags.toByte s) ↔ b ≤ 1 :=
  exists_code_iff [false, true] (fun s => by cases s <;> decide) (by decide)

theorem connectCode_iff {b : UInt8} : (∃ c : ConnectCode, b = c.toByte) ↔ b ≤ 5 :=
  exists_code_iff ConnectCode.all (fun c => by cases c <;> decide) (by decide)

theorem subscribeCode_iff {b : UInt8} :
    (∃ c : SubscribeCode, b = c.toByte) ↔ b = 0 ∨ b = 1 ∨ b = 2 ∨ b = 128 := by
  constructor
  · rintro ⟨c, rfl⟩
    cases c with
    | failure => decide
    | granted q => cases q <;> decide
  · rintro (rfl | rfl | rfl | rfl)
    · exact ⟨.granted .atMostOnce, rfl⟩
    · exact ⟨.granted .atLeastOnce, rfl⟩
    · exact ⟨.granted .exactlyOnce, rfl⟩
    · exact ⟨.failure, rfl⟩

/-! ## CONNECT -/

theorem bit_iff {b : UInt8} {i : Nat} : (b.toNat / 2 ^ i % 2 == 1) = true ↔ Bit b i := by
  rw [Bit, beq_iff_eq]

theorem flagByte_iff {b : UInt8} :
    FlagByte b ↔ (ConnectFlags.ofBits b).Legal ∧ b = (ConnectFlags.ofBits b).toByte := by
  have hqos : (ConnectFlags.ofBits b).willQos.toNat = b.toNat / 8 % 4 := by
    simp only [ConnectFlags.ofBits, UInt8.toNat_ofNat']
    omega
  have hle : (ConnectFlags.ofBits b).willQos ≤ 2 ↔ b.toNat / 8 % 4 ≤ 2 := by
    rw [UInt8.le_iff_toNat_le, hqos]
    rfl
  have hzero : (ConnectFlags.ofBits b).willQos = 0 ↔ b.toNat / 8 % 4 = 0 := by
    rw [← UInt8.toNat_inj, hqos]
    rfl
  have hbit (x : Bool) (p : Prop) (h : x = true ↔ p) : x = false ↔ ¬ p := by
    rw [← h, Bool.not_eq_true]
  have hwill : (ConnectFlags.ofBits b).will = true ↔ Bit b 2 := bit_iff (i := 2)
  have hretain : (ConnectFlags.ofBits b).willRetain = true ↔ Bit b 5 := bit_iff (i := 5)
  have huser : (ConnectFlags.ofBits b).username = true ↔ Bit b 7 := bit_iff (i := 7)
  have hpass : (ConnectFlags.ofBits b).password = true ↔ Bit b 6 := bit_iff (i := 6)
  constructor
  · rintro ⟨hreserved, hq, hw, hp⟩
    have heven : b.toNat % 2 = 0 := by
      rw [Bit, Nat.pow_zero, Nat.div_one] at hreserved
      omega
    refine ⟨⟨hle.mpr hq, fun hno => ?_, fun h => huser.mpr (hp (hpass.mp h))⟩,
      (ConnectFlags.toByte_ofBits heven).symm⟩
    obtain ⟨hq, hr⟩ := hw ((hbit _ _ hwill).mp hno)
    exact ⟨(hbit _ _ hretain).mpr hr, hzero.mpr hq⟩
  · rintro ⟨⟨hq, hw, hp⟩, hbyte⟩
    refine ⟨?_, hle.mp hq, fun hno => ?_, fun h => huser.mp (hp (hpass.mpr h))⟩
    · have heven := ConnectFlags.toNat_toByte (ConnectFlags.ofBits b)
      rw [← hbyte] at heven
      rw [Bit, Nat.pow_zero, Nat.div_one]
      omega
    · obtain ⟨hr, hq⟩ := hw ((hbit _ _ hwill).mpr hno)
      exact ⟨hzero.mp hq, (hbit _ _ hretain).mp hr⟩

/-- The quality of service of a will and whether it is retained are in the flags, not here. -/
theorem willFields_iff {f : ConnectFlags} (hq : f.willQos ≤ 2) {w : Bytes} :
    (∃ will : Will, (f.willQos = will.qos.toByte ∧ f.willRetain = will.retain) ∧
      will.write = .ok w) ↔
      WillFields w := by
  simp only [Will.write, Written.append_eq_ok_iff, WillFields, ← nameField_iff, ← dataField_iff]
  constructor
  · rintro ⟨will, -, topic, message, ht, hm, rfl⟩
    exact ⟨topic, message, rfl, ⟨_, ht⟩, _, hm⟩
  · rintro ⟨topic, message, rfl, ⟨t, ht⟩, data, hm⟩
    obtain ⟨qos, hqos⟩ := qos_iff.mpr hq
    exact ⟨⟨t, data, qos, f.willRetain⟩, ⟨hqos, rfl⟩, topic, message, ht, hm, rfl⟩

theorem announced_iff {b : UInt8} (legal : (ConnectFlags.ofBits b).Legal) (keepAlive : UInt16)
    {w : Bytes} :
    (∃ c : Connect, c.keepAlive = keepAlive ∧ c.Announced (.ofBits b) ∧ c.writePayload = .ok w) ↔
      Announced b w := by
  have hsome {α : Type} {o : Option α} {x : Bool} {i : Nat} (hx : x = true ↔ Bit b i) :
      o.isSome = x ↔ (o.isSome = true ↔ Bit b i) := by
    rw [← hx, Bool.eq_iff_iff]
  have htext (_ : Bit b 7) (w : Bytes) :
      (∃ s : String, True ∧ Text.write s = .ok w) ↔ TextField (fun _ => True) w := by
    simpa using textField_iff
  have hdata (_ : Bit b 6) (w : Bytes) :
      (∃ d : Bytes, True ∧ Binary.write d = .ok w) ↔ DataField w := by
    simpa using dataField_iff
  have hwill (_ : Bit b 2) (w : Bytes) := willFields_iff legal.willQos (w := w)
  simp only [Announced, Connect.writePayload, Written.append_eq_ok_iff, ← textField_iff,
    ← fieldIf_iff hwill, ← fieldIf_iff htext, ← fieldIf_iff hdata]
  constructor
  · rintro ⟨c, -, ⟨-, h1, h2, h3, h4⟩, wi, _, hi, ⟨ww, _, hw, ⟨wu, wp, hu, hp, rfl⟩, rfl⟩, rfl⟩
    exact ⟨wi, ww, wu, wp, rfl, ⟨_, hi⟩, ⟨_, (hsome bit_iff).mp h1, h2, hw⟩,
      ⟨_, (hsome bit_iff).mp h3, by simp, hu⟩, _, (hsome bit_iff).mp h4, by simp, hp⟩
  · rintro ⟨wi, ww, wu, wp, rfl, ⟨client, hi⟩, ⟨will, h1, h2, hw⟩, ⟨user, h3, -, hu⟩,
      password, h4, -, hp⟩
    exact ⟨⟨client, (ConnectFlags.ofBits b).cleanSession, keepAlive, will, user, password⟩, rfl,
      ⟨rfl, (hsome bit_iff).mpr h1, h2, (hsome bit_iff).mpr h3, (hsome bit_iff).mpr h4⟩,
      wi, _, hi, ⟨ww, _, hw, ⟨wu, wp, hu, hp, rfl⟩, rfl⟩, rfl⟩

/-- The protocol name behind its length. -/
theorem write_name : Text.write Protocol.name = .ok [0x00, 0x04, 0x4D, 0x51, 0x54, 0x54] := by
  decide

theorem connect_iff {bs : Bytes} : (∃ r, Connect.read bs = .ok r) ↔ ConnectBody bs := by
  simp only [Prod.exists, Connect.read_eq_ok_iff, Connect.write_eq, Written.append_eq_ok_iff,
    write_name, Written.ok_inj]
  constructor
  · rintro ⟨c, rest, hpass, _, ⟨_, _, rfl, ⟨_, _, rfl, ⟨_, fields, rfl, hf, rfl⟩, rfl⟩, rfl⟩, rfl⟩
    have legal := Connect.flags_legal hpass
    have hbits := ConnectFlags.ofBits_toByte legal.willQos
    rw [← hbits] at legal
    refine ⟨c.flags.toByte, _, _, fields, rest, rfl, flagByte_iff.mpr ⟨legal, by rw [hbits]⟩, ?_⟩
    rw [← announced_iff legal c.keepAlive, hbits]
    exact ⟨c, rfl, c.announced_flags, hf⟩
  · rintro ⟨flags, k₁, k₂, fields, rest, rfl, hflags, hfields⟩
    obtain ⟨legal, hbyte⟩ := flagByte_iff.mp hflags
    obtain ⟨c, hk, hann, hf⟩ := (announced_iff legal _).mpr hfields
    have hsame := hann.eq_flags legal
    refine ⟨c, rest, fun hpass => ?_, _,
      ⟨_, _, rfl, ⟨_, _, rfl, ⟨_, fields, rfl, hf, rfl⟩, rfl⟩, rfl⟩, ?_⟩
    · rw [hann.username]
      exact legal.password (hann.password ▸ hpass)
    · rw [hk, word_ofNat k₁ k₂, ← hsame, ← hbyte]
      rfl

/-! ## The other bodies

All of them are read to the last byte that their header declares. -/

section Sized
variable {h : FixedHeader} {bs : Bytes} (hsize : bs.length = h.remaining.toNat)
include hsize

/-- A reader that takes what is as long as declared takes all of a body of that size. -/
theorem exists_read_iff {ε α : Type} {R : Bytes → Except ε (α × Bytes)} {W : α → Written}
    {P : α → Prop}
    (hread : ∀ a rest, R bs = .ok (a, rest) ↔
      P a ∧ ∃ w, W a = .ok w ∧ w.length = h.remaining.toNat ∧ bs = w ++ rest) :
    (∃ r, R bs = .ok r) ↔ ∃ a, P a ∧ W a = .ok bs := by
  simp only [Prod.exists, hread]
  constructor
  · rintro ⟨a, rest, hP, w, hw, hlen, rfl⟩
    rw [List.length_append] at hsize
    have hrest : rest = [] := List.length_eq_zero_iff.mp (by omega)
    exact ⟨a, hP, by rw [hrest, List.append_nil, hw]⟩
  · rintro ⟨a, hP, hw⟩
    exact ⟨a, [], hP, bs, hw, hsize, (List.append_nil bs).symm⟩

theorem publish_iff :
    (∃ r, Publish.read h bs = .ok r) ↔ PublishBody h.type.flags.qos.val bs := by
  have hid (_ : h.type.flags.qos.val ≠ 0) (w : Bytes) :
      (∃ n : UInt16, n ≠ 0 ∧ Written.ok (word n) = .ok w) ↔ MessageId w := by
    simp only [Written.ok_inj, messageId_iff]
  rw [exists_read_iff hsize fun _ _ => Publish.read_eq_ok_iff]
  simp only [Publish.Identified, Publish.write_eq, Publish.writeId, Written.append_eq_ok_iff,
    Written.ok_inj, PublishBody, ← nameField_iff, ← fieldIf_iff hid]
  constructor
  · rintro ⟨p, ⟨hsome, hne⟩, topic, _, ht, ⟨id, payload, hi, rfl, rfl⟩, rfl⟩
    exact ⟨topic, id, _, rfl, ⟨_, ht⟩, p.id, hsome, fun n hn hzero => hne (hzero ▸ hn), hi⟩
  · rintro ⟨topic, id, payload, rfl, ⟨t, ht⟩, o, hsome, hne, hi⟩
    exact ⟨⟨t, o, payload⟩, ⟨hsome, fun hzero => hne 0 hzero rfl⟩, topic, _, ht,
      ⟨id, payload, hi, rfl, rfl⟩, rfl⟩

theorem subscribe_iff : (∃ r, Subscribe.read h bs = .ok r) ↔ SubscribeBody bs := by
  rw [exists_read_iff (W := fun s => (Body.subscribe s).write) (P := fun _ => True) hsize
    fun _ _ => by rw [true_and, Subscribe.read_eq_ok_iff]]
  simp only [true_and, Body.write, Written.append_assoc, Written.append_eq_ok_iff, Written.ok_inj,
    SubscribeBody, ← filterField_iff, ← qos_iff]
  constructor
  · rintro ⟨s, _, _, rfl, ⟨filter, _, hf, rfl, rfl⟩, rfl⟩
    exact ⟨_, _, filter, _, rfl, ⟨_, hf⟩, s.qos, rfl⟩
  · rintro ⟨i, j, filter, _, rfl, ⟨f, hf⟩, q, rfl⟩
    exact ⟨⟨_, f, q⟩, _, _, word_ofNat i j, ⟨filter, _, hf, rfl, rfl⟩, rfl⟩

theorem unsubscribe_iff : (∃ r, Unsubscribe.read h bs = .ok r) ↔ UnsubscribeBody bs := by
  rw [exists_read_iff (W := fun u => (Body.unsubscribe u).write) (P := fun _ => True) hsize
    fun _ _ => by rw [true_and, Unsubscribe.read_eq_ok_iff]]
  simp only [true_and, Body.write, Written.append_eq_ok_iff, Written.ok_inj, UnsubscribeBody,
    ← filterField_iff]
  constructor
  · rintro ⟨u, _, filter, rfl, hf, rfl⟩
    exact ⟨_, _, filter, rfl, _, hf⟩
  · rintro ⟨i, j, filter, rfl, f, hf⟩
    exact ⟨⟨_, f⟩, _, filter, word_ofNat i j, hf, rfl⟩

theorem id_iff {of : UInt16 → Body} (hfixed : h.type.kind.fixedSize? = some 2) :
    (∃ r, Body.readId h of bs = .ok r) ↔ bs.length = 2 := by
  simp only [Prod.exists, Body.readId_eq_ok_iff hfixed, ← hsize]
  constructor
  · rintro ⟨_, _, id, -, hlen, -⟩
    exact hlen.symm
  · intro hlen
    obtain ⟨i, j, rfl⟩ := List.length_eq_two.mp hlen
    exact ⟨_, [], _, rfl, rfl, by rw [word_ofNat i j, List.append_nil]⟩

theorem nothing_iff {body : Body} (hfixed : h.type.kind.fixedSize? = some 0) :
    (∃ r, Body.readNothing h body bs = .ok r) ↔ bs = [] := by
  simp only [Prod.exists, Body.readNothing_eq_ok_iff hfixed, ← hsize]
  constructor
  · rintro ⟨_, _, -, hlen, -⟩
    exact List.length_eq_zero_iff.mp hlen.symm
  · rintro rfl
    exact ⟨body, [], rfl, rfl, rfl⟩

theorem connack_iff (hfixed : h.type.kind.fixedSize? = some 2) :
    (∃ r, Body.readConnack h bs = .ok r) ↔ ConnackBody bs := by
  simp only [Prod.exists, Body.readConnack_eq_ok_iff hfixed, ← hsize, ConnackBody,
    ← connackFlags_iff, ← connectCode_iff]
  constructor
  · rintro ⟨_, rest, s, c, -, hlen, rfl⟩
    have hrest : rest = [] := List.length_eq_zero_iff.mp (by simpa using hlen.symm)
    exact ⟨_, _, by rw [hrest], ⟨s, rfl⟩, c, rfl⟩
  · rintro ⟨_, _, rfl, ⟨s, rfl⟩, c, rfl⟩
    exact ⟨_, [], s, c, rfl, rfl, rfl⟩

theorem suback_iff : (∃ r, Body.readSuback h bs = .ok r) ↔ SubackBody bs := by
  simp only [Prod.exists, Body.readSuback_eq_ok_iff, ← hsize, SubackBody, ← subscribeCode_iff]
  constructor
  · rintro ⟨_, rest, id, c, -, hlen, rfl⟩
    rw [List.length_append, length_word, List.length_cons] at hlen
    have hrest : rest = [] := List.length_eq_zero_iff.mp (by omega)
    exact ⟨_, _, _, by rw [hrest]; rfl, c, rfl⟩
  · rintro ⟨i, j, _, rfl, c, rfl⟩
    exact ⟨_, [], _, c, rfl, rfl, by rw [word_ofNat i j]; rfl⟩

/-- The reader of a type takes the bodies that its type byte asks for. -/
theorem bodyFits_iff : (∃ r, Body.read h.type.kind h bs = .ok r) ↔ BodyFits h.type.toByte bs := by
  have hmap {ε α : Type} {x : Except ε (α × Bytes)} (f : α → Body) :
      (∃ r, (x.map fun r => (f r.1, r.2)) = .ok r) ↔ ∃ r, x = .ok r := by
    cases x <;> simp [Except.map]
  have hfixed {n : UInt32} {kind : Kind} (hk : h.type.kind = kind) (hn : kind.fixedSize? = some n) :
      h.type.kind.fixedSize? = some n := hk ▸ hn
  rw [BodyFits, toByte_div, toByte_qos]
  cases hk : h.type.kind with
  | connect => exact (hmap _).trans connect_iff
  | connack => exact connack_iff hsize (hfixed hk rfl)
  | publish => exact (hmap _).trans (publish_iff hsize)
  | subscribe => exact (hmap _).trans (subscribe_iff hsize)
  | suback => exact suback_iff hsize
  | unsubscribe => exact (hmap _).trans (unsubscribe_iff hsize)
  | puback | pubrec | pubrel | pubcomp | unsuback => exact id_iff hsize (hfixed hk rfl)
  | pingreq | pingresp | disconnect => exact nothing_iff hsize (hfixed hk rfl)

end Sized

end Grammar

namespace Frame

/-- A frame is taken for a packet when its type byte is legal and the reader of its type takes
the body. -/
theorem exists_packet_iff (f : Frame) :
    (∃ p, (Stream.empty.feed f.bytes).next.1 = some (.packet p)) ↔
      ∃ t, TypeByte.ofByte f.type = .ok t ∧
        ∃ r, Body.read t.kind ⟨t, f.size⟩ f.body = .ok r := by
  cases htype : TypeByte.ofByte f.type with
  | ok t =>
    have hnext := f.next_legal [] htype
    rw [List.append_nil] at hnext
    simp only [hnext, Stream.readBody, Packet.readBody, Packet.readBodyAs]
    cases hbody : Body.read t.kind ⟨t, f.size⟩ f.body with
    | ok found =>
      obtain ⟨body, rest⟩ := found
      simp [hbody, answer, Except.map, Except.mapError]
    | error e => simp [hbody, answer, Except.map, Except.mapError]
  | error e =>
    have hnone : ∀ p, (Stream.empty.feed f.bytes).next.1 ≠ some (.packet p) := by
      intro p
      cases e with
      | reserved code flags =>
        have hnext := (f.reserved_answers [] htype).2.2
        rw [List.append_nil] at hnext
        simp [hnext]
      | invalidFlags kind flags =>
        have hnext := (f.refused_answers [] htype).2.2
        rw [List.append_nil] at hnext
        simp [hnext]
    simp [hnone]

/-- For every type byte and every body that a length field can count, the frames of the two are
taken for a packet exactly when they are in the grammar. -/
theorem packet_iff_grammatical (t : UInt8) (body : Bytes) (h : body.length ≤ 268435455) :
    (∃ f : Frame, f.type = t ∧ f.body = body) ∧
      ∀ f : Frame, f.type = t → f.body = body →
        ((∃ p, (Stream.empty.feed f.bytes).next.1 = some (.packet p)) ↔
          Grammar.Grammatical t body) := by
  refine ⟨⟨⟨t, VarInt.digits 4 body.length, body, LengthField.of_digits (by omega)⟩, rfl, rfl⟩, ?_⟩
  rintro f rfl rfl
  rw [exists_packet_iff]
  constructor
  · rintro ⟨t, htype, hread⟩
    obtain ⟨legal, hbyte⟩ := TypeByte.ofByte_eq_ok_iff.mp htype
    have hbody := (Grammar.bodyFits_iff (h := ⟨t, f.size⟩) f.toNat_size.symm).mp hread
    have hnumber : 1 ≤ t.kind.code ∧ t.kind.code ≤ 14 := by cases t.kind <;> decide
    rw [hbyte]
    exact ⟨Grammar.toByte_div t ▸ hnumber, (Grammar.flagsFit_iff t).mpr legal, hbody⟩
  · rintro ⟨hnumber, hflags, hbody⟩
    obtain ⟨t, hbyte⟩ := Grammar.exists_toByte hnumber
    rw [hbyte] at hflags hbody
    exact ⟨t, TypeByte.ofByte_eq_ok_iff.mpr ⟨(Grammar.flagsFit_iff t).mp hflags, hbyte⟩,
      (Grammar.bodyFits_iff (h := ⟨t, f.size⟩) f.toNat_size.symm).mpr hbody⟩

/-- A subscription to everything is taken for a packet, and not with the quality of service 3. -/
theorem packet_iff_grammatical_subscribe :
    (∃ p, (Stream.empty.feed [0x82, 6, 0, 1, 0, 1, 0x23, 2]).next.1 = some (.packet p)) ∧
      ¬ ∃ p, (Stream.empty.feed [0x82, 6, 0, 1, 0, 1, 0x23, 3]).next.1 = some (.packet p) := by
  have hdigit : LengthField 4 [6] 6 := .last (by decide)
  have hgood := (packet_iff_grammatical 0x82 [0, 1, 0, 1, 0x23, 2] (by decide)).2
    ⟨0x82, [6], [0, 1, 0, 1, 0x23, 2], hdigit⟩ rfl rfl
  have hbad := (packet_iff_grammatical 0x82 [0, 1, 0, 1, 0x23, 3] (by decide)).2
    ⟨0x82, [6], [0, 1, 0, 1, 0x23, 3], hdigit⟩ rfl rfl
  constructor
  · apply hgood.mpr
    obtain ⟨hne, -, hfit⟩ := isTopicFilter_iff.mp (by decide : isTopicFilter "#" = true)
    exact ⟨by decide, rfl, 0, 1, [0, 1, 0x23], 2, rfl, ⟨"#", ⟨hne, hfit⟩, 0, 1, rfl, rfl⟩,
      by decide⟩
  · intro hpacket
    obtain ⟨-, -, i, j, filter, q, hbody, -, hq⟩ := hbad.mp hpacket
    rw [List.cons.injEq, List.cons.injEq] at hbody
    have hlast : q = 3 := by simpa using (congrArg List.getLast? hbody.2.2).symm
    rw [hlast] at hq
    exact absurd hq (by decide)

end Frame

end Mqtt
