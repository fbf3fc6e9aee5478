import Mqtt.Proofs.Built
import Mqtt.Proofs.Packets

/-!
# The round trip

A built packet that keeps to the limits of the format is encoded, in as many bytes as its width
says, and reading these bytes in front of anything gives the packet back and leaves the rest.
-/
namespace Mqtt
open Wire

/-- The fields of a body that travel behind a two-byte length. -/
def Body.prefixed : Body → List Bytes
  | .connect c =>
    Text.toBytes c.clientId :: (c.will.toList.flatMap fun w => [Text.toBytes w.topic.text, w.message]) ++
      c.username.toList.map Text.toBytes ++ c.password.toList
  | .publish p => [Text.toBytes p.topic.text]
  | .subscribe s => [Text.toBytes s.filter.text]
  | .unsubscribe u => [Text.toBytes u.filter.text]
  | _ => []

/-- The limits of the format: fields and body fit their length fields, an identifier is not zero
and a password comes with a user name. -/
structure Packet.Sendable (p : Packet) : Prop where
  fields : ∀ field ∈ p.body.prefixed, field.length ≤ 65535
  size : p.body.write.bytes.length ≤ 268435455
  id : ∀ m, p.body = .publish m → m.id ≠ some 0
  password : ∀ c, p.body = .connect c → c.password.isSome = true → c.username.isSome = true

namespace Wire

theorem Binary.write_ok {data : Bytes} (h : data.length ≤ 65535) : ∃ w, write data = .ok w :=
  ⟨_, write_eq_ok_iff.mpr ⟨h, rfl⟩⟩

theorem Text.write_ok {s : String} (h : (toBytes s).length ≤ 65535) : ∃ w, write s = .ok w := by
  obtain ⟨w, hw⟩ := Binary.write_ok h
  exact ⟨w, (write_eq_binary s).mpr hw⟩

theorem writeOption_ok {α : Type} {write : α → Written} {o : Option α}
    (h : ∀ a, o = some a → ∃ w, write a = .ok w) : ∃ w, writeOption write o = .ok w := by
  cases o with
  | none => exact ⟨[], rfl⟩
  | some a => exact h a rfl

end Wire

theorem Connect.write_ok {c : Connect} (h : ∀ field ∈ (Body.connect c).prefixed, field.length ≤ 65535) :
    ∃ w, c.write = .ok w := by
  simp only [Body.prefixed, List.mem_append, List.mem_cons, List.mem_flatMap, List.mem_map,
    Option.mem_toList] at h
  obtain ⟨wn, hn⟩ := Text.write_ok (s := Protocol.name) (by decide)
  obtain ⟨wi, hi⟩ := Text.write_ok (h _ (.inl (.inl (.inl rfl))))
  have hwill : ∃ w, writeOption Will.write c.will = .ok w := by
    refine writeOption_ok fun will hwill => ?_
    obtain ⟨wt, ht⟩ := Text.write_ok (h (Text.toBytes will.topic.text)
      (.inl (.inl (.inr ⟨will, hwill, by simp⟩))))
    obtain ⟨wm, hm⟩ := Binary.write_ok (h will.message (.inl (.inl (.inr ⟨will, hwill, by simp⟩))))
    exact ⟨_, Written.append_ok ht hm⟩
  have husername : ∃ w, writeOption Text.write c.username = .ok w :=
    writeOption_ok fun name hname => Text.write_ok (h _ (.inl (.inr ⟨name, hname, rfl⟩)))
  have hpassword : ∃ w, writeOption Binary.write c.password = .ok w :=
    writeOption_ok fun data hdata => Binary.write_ok (h data (.inr hdata))
  obtain ⟨ww, hw⟩ := hwill
  obtain ⟨wu, hu⟩ := husername
  obtain ⟨wp, hp⟩ := hpassword
  rw [write_eq, writePayload]
  exact ⟨_, Written.append_ok hn (Written.append_ok rfl (Written.append_ok rfl
    (Written.append_ok hi (Written.append_ok hw (Written.append_ok hu hp)))))⟩

/-- Short fields are all that a body needs to be written. -/
theorem Body.write_ok {b : Body} (h : ∀ field ∈ b.prefixed, field.length ≤ 65535) :
    ∃ w, b.write = .ok w := by
  cases b with
  | connect c => exact Connect.write_ok h
  | publish p =>
    obtain ⟨wt, ht⟩ := Text.write_ok (h _ (List.mem_singleton.mpr rfl))
    have hid : ∃ w, writeOption (fun id => .ok (word id)) p.id = .ok w :=
      writeOption_ok fun id _ => ⟨_, rfl⟩
    obtain ⟨wi, hi⟩ := hid
    exact ⟨_, Written.append_ok (Written.append_ok ht hi) rfl⟩
  | subscribe s =>
    obtain ⟨wf, hf⟩ := Text.write_ok (h _ (List.mem_singleton.mpr rfl))
    exact ⟨_, Written.append_ok (Written.append_ok rfl hf) rfl⟩
  | unsubscribe u =>
    obtain ⟨wf, hf⟩ := Text.write_ok (h _ (List.mem_singleton.mpr rfl))
    exact ⟨_, Written.append_ok rfl hf⟩
  | _ => exact ⟨_, rfl⟩

namespace Packet

/-- A packet that agrees with its header and keeps to the limits is encoded as its header, with a
length field as short as possible, and its body. -/
theorem Coherent.write_ok {p : Packet} (hp : p.Coherent) (h : p.Sendable) :
    ∃ w, p.body.write = .ok w ∧ w.length = p.header.remaining.toNat ∧ w.length ≤ 268435455 ∧
      p.write = .ok (p.header.type.toByte :: VarInt.digits 4 w.length ++ w) := by
  obtain ⟨w, hw⟩ := Body.write_ok h.fields
  have hle : w.length ≤ 268435455 := by
    have := h.size
    rwa [hw] at this
  have hlen : w.length = p.header.remaining.toNat := by
    rw [← size32_eq_iff (by omega), Body.size32_write hw, hp.remaining]
  refine ⟨w, hw, hlen, hle, ?_⟩
  have hmax : p.header.remaining ≤ VarInt.maximum := by
    rw [UInt32.le_iff_toNat_le, ← hlen]
    exact hle
  rw [hlen]
  exact Written.append_ok (FixedHeader.write_eq_ok_iff.mpr ⟨hmax, rfl⟩) hw

theorem Coherent.legal_body {p : Packet} (hp : p.Coherent) (h : p.Sendable) :
    p.body.Legal p.header.type.flags := by
  cases hbody : p.body with
  | connect c => exact h.password c hbody
  | publish m => exact ⟨hp.id m hbody, h.id m hbody⟩
  | _ => trivial

/-- A built packet within the limits of the format is encoded in as many bytes as its width says,
and reading them in front of any bytes gives the packet back and leaves those bytes. -/
theorem read_encode {p : Packet} (built : p.Built) (h : p.Sendable) :
    ∃ bs, p.encode = .ok bs ∧ bs.length = p.width.toNat ∧
      ∀ s, read (bs ++ s) = .ok (p, s) := by
  have hp := built.coherent
  obtain ⟨w, hw, hlen, hle, hwrite⟩ := hp.write_ok h
  have hdigits : LengthField 4 (VarInt.digits 4 w.length) p.header.remaining.toNat := by
    rw [hlen]
    exact LengthField.of_digits (by omega)
  refine ⟨_, Written.toExcept_eq_ok_iff.mpr hwrite, ?_, ?_⟩
  · have hfour := hdigits.length_le
    refine (size32_eq_iff ?_).mp (size32_write hwrite)
    simp only [List.cons_append, List.length_cons, List.length_append]
    omega
  · intro s
    have hread : FixedHeader.read (p.header.type.toByte :: VarInt.digits 4 w.length ++ w ++ s) =
        .ok (p.header, w ++ s) :=
      FixedHeader.read_eq_ok_iff.mpr ⟨hp.legal, _, hdigits, by simp⟩
    exact read_eq_ok_iff.mpr
      ⟨w, ⟨hread, hp.kind.symm, hp.legal_body h, hw, fun _ => hlen⟩, Nat.le_of_eq hlen⟩

/-- The round trip of a CONNECT with every optional field, each set after the constructor. -/
theorem read_encode_connect :
    let will : Will := ⟨⟨"a/b", by decide⟩, [0, 255], .exactlyOnce, true⟩
    let p := ([.password (some [7]), .will (some will), .username (some "user"), .clientId "id",
      .keepAlive 60, .cleanSession true].foldl ConnectPacket.set (.new "")).toPacket
    p.Built ∧ p.Sendable ∧ ∃ bs, p.encode = .ok bs ∧ bs.length = p.width.toNat ∧
      ∀ s, read (bs ++ s) = .ok (p, s) := by
  intro will p
  have built : p.Built := .connect "" _
  have sendable : p.Sendable := by
    refine ⟨by decide, by decide, ?_, ?_⟩
    · intro m hm
      cases hm
    · intro c hc
      cases hc
      decide
  exact ⟨built, sendable, read_encode built sendable⟩

end Packet

end Mqtt
