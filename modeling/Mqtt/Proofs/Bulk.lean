import Mqtt.Packet.Bulk
import Mqtt.Proofs.Sendable
import Mqtt.Proofs.Setters

/-!
# Bulk payloads, laid out

A payload in runs stands for its bytes: the header, the texts, the size and the encoding of a bulk
PUBLISH are those of the packet with the bytes in it, and its setters may be applied before or after
they are laid out.
-/
namespace Mqtt
open Wire

namespace Wire

theorem Written.toExcept_append_ok (w : Written) (bs : Bytes) :
    (w ++ Written.ok bs).toExcept = w.toExcept.map (· ++ bs) := by
  obtain ⟨bytes, fault⟩ := w
  cases fault <;> rfl

namespace Text

theorem toBytes_eq_flatMap (s : String) : toBytes s = s.toList.flatMap String.utf8EncodeChar := by
  rw [toBytes, String.toUTF8, ← String.utf8Encode_toList, List.utf8Encode]
  simp

theorem plain?_eq_some_iff {bs : Bytes} {s : String} :
    plain? bs = some s ↔ bs = toBytes s ∧ isPlain s = true := by
  rw [← ofBytes_eq_ok_iff, plain?]
  cases ofBytes bs with
  | error fault => simp
  | ok text =>
    by_cases hplain : isPlain text = true
    · simp only [hplain, if_true, Option.some.injEq, Except.ok.injEq]
      exact ⟨fun h => ⟨h, h ▸ hplain⟩, And.left⟩
    · simp only [hplain, Bool.false_eq_true, if_false, reduceCtorEq, Except.ok.injEq, false_iff]
      rintro ⟨rfl, h⟩
      exact hplain h

/-- A plain text has one byte for each character, and that is visible or a space. -/
theorem mem_of_plain? {bs : Bytes} {s : String} (h : plain? bs = some s) {b : UInt8}
    (hb : b ∈ bs) : 0x20 ≤ b ∧ b ≤ 0x7E := by
  obtain ⟨rfl, hplain⟩ := plain?_eq_some_iff.mp h
  rw [toBytes_eq_flatMap, List.mem_flatMap] at hb
  obtain ⟨c, hc, hb⟩ := hb
  have hrange : 0x20 ≤ c.val ∧ c.val ≤ 0x7E := by
    simpa using List.all_eq_true.mp hplain c hc
  have hlow : 0x20 ≤ c.val.toNat := UInt32.le_iff_toNat_le.mp hrange.1
  have hhigh : c.val.toNat ≤ 0x7E := UInt32.le_iff_toNat_le.mp hrange.2
  rw [String.utf8EncodeChar, if_pos (by omega), List.mem_singleton] at hb
  have htoNat : b.toNat = c.val.toNat := by
    rw [hb, UInt8.toNat_ofNat', Nat.mod_eq_of_lt (by omega)]
  rw [UInt8.le_iff_toNat_le, UInt8.le_iff_toNat_le, htoNat]
  exact ⟨hlow, hhigh⟩

end Text

namespace Runs

theorem isPlain_iff {rs : Runs} : isPlain rs = true ↔ ∀ b ∈ bytes rs, 0x20 ≤ b ∧ b ≤ 0x7E := by
  simp only [isPlain, bytes, Run.bytes, List.all_eq_true, List.mem_flatMap, List.mem_replicate]
  constructor
  · rintro h b ⟨r, hr, hcount, rfl⟩
    simpa [hcount] using h r hr
  · intro h r hr
    by_cases hcount : r.count = 0
    · simp [hcount]
    · simpa [hcount] using h r.byte ⟨r, hr, hcount, rfl⟩

end Runs

end Wire

namespace Publish

/-- The bytes of the body: topic, identifier and payload. -/
def bytes (p : Publish) : Bytes :=
  word p.topic.text.utf8ByteSize.toUInt16 ++ Text.toBytes p.topic.text ++ p.id.elim [] word ++
    p.payload

/-- A topic always fits behind its prefix, so a body is always written whole. -/
theorem write_eq_ok (p : Publish) : p.write = .ok p.bytes := by
  obtain ⟨topic, id, payload⟩ := p
  have hid : writeOption (fun id => .ok (word id)) id = .ok (id.elim [] word) := by
    cases id <;> rfl
  exact Written.append_ok (Written.append_ok topic.write_eq hid) rfl

theorem toNat_width (p : Publish) : p.width.toNat = p.bytes.length % 2 ^ 32 := by
  rw [← size32_write p.write_eq_ok, toNat_size32]

end Publish

/-- Only the header can be refused. -/
theorem PublishPacket.encode_eq (p : PublishPacket) :
    p.toPacket.encode = p.header.write.toExcept.map (· ++ p.body.bytes) := by
  rw [← Written.toExcept_append_ok, ← p.body.write_eq_ok]
  rfl

namespace BulkPublish
variable (b : BulkPublish)

theorem bodyWidth_eq : b.bodyWidth = b.laidOut.body.width := by
  rw [bodyWidth, ← Runs.length_bytes]
  rfl

theorem header_front : b.front.header = b.laidOut.header := by
  rw [front, bodyWidth_eq]
  rfl

theorem width_eq : b.width = Packet.width b.laidOut.toPacket := by
  rw [width, header_front, bodyWidth_eq]
  rfl

theorem label_front : Packet.label b.front.toPacket = Packet.label b.laidOut.toPacket := rfl

theorem bytes_laidOut : b.laidOut.body.bytes = b.front.body.bytes ++ Runs.bytes b.payload :=
  (congrArg (· ++ Runs.bytes b.payload) (List.append_nil _)).symm

/-- What is written of a bulk PUBLISH is, laid out, what is written of the packet. -/
theorem encode_map_bytes : b.encode.map Runs.bytes = b.laidOut.toPacket.encode := by
  rw [encode, PublishPacket.encode_eq, PublishPacket.encode_eq, header_front, bytes_laidOut]
  cases b.laidOut.header.write.toExcept <;> simp [Except.map]

theorem payloadText_eq : b.payloadText = b.laidOut.body.payloadText := by
  rw [payloadText]
  split
  · rfl
  · next hplain =>
    have hnone : Text.plain? (Runs.bytes b.payload) = none := by
      refine Option.eq_none_iff_forall_ne_some.mpr fun s hs => ?_
      exact hplain (Runs.isPlain_iff.mpr fun _ => Text.mem_of_plain? hs)
    change _ = Publish.payloadText ⟨_, _, Runs.bytes b.payload⟩
    rw [Publish.payloadText, hnone]
    exact congrArg (toString · ++ " bytes") (Runs.length_bytes b.payload).symm

theorem text_eq : Packet.text? b.laidOut.toPacket = some b.text := by
  rw [text, header_front, payloadText_eq]
  rfl

/-- A setter of another field may come before or after the payload. -/
theorem laidOut_set {s : PublishSetter} (h : s.payload? = none) :
    laidOut ⟨b.packet.set s, b.payload⟩ = b.laidOut.set s := by
  cases s with
  | payload value => cases h
  | delivery value => cases value <;> rfl
  | _ => rfl

end BulkPublish

end Mqtt
