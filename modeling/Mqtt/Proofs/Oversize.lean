import Mqtt.Proofs.Bulk
import Mqtt.Proofs.Frame

/-!
# Oversize payloads

The size of a PUBLISH is counted in 32 bits when its header is made and compared with the largest
size that can be declared when the header is written. A body of less than 2 ^ 32 bytes is
declared as it is or refused. Of a longer one the count keeps the remainder: when that is small
enough, the packet is written under a size that is not its own.
-/
namespace Mqtt
open Wire

/-- The bytes of a frame are divided into header and body in one way only. -/
theorem Frame.body_eq {f : Frame} {type : UInt8} {digits body : Bytes} {n : Nat}
    (hfield : LengthField 4 digits n) (h : f.bytes = type :: (digits ++ body)) :
    f.body = body ∧ body.length = n := by
  have hn := hfield.toNat_toUInt32
  have hparts := f.readParts_append []
  have hread : FixedHeader.readParts (type :: (digits ++ body)) = .ok ((type, n.toUInt32), body) :=
    FixedHeader.readParts_eq_ok_iff.mpr ⟨digits, by rwa [hn], rfl⟩
  rw [List.append_nil, List.append_nil, h, hread] at hparts
  simp only [Except.ok.injEq, Prod.mk.injEq] at hparts
  obtain ⟨⟨-, hsize⟩, rfl⟩ := hparts
  exact ⟨rfl, by rw [← f.toNat_size, ← hsize, hn]⟩

namespace PublishPacket

/-- What encoding promises about the size of a body: what is written is a frame, whose length field
says how long the body is, and a body longer than four digits can say is refused. -/
structure TellsLength (p : PublishPacket) : Prop where
  counted : ∀ bs, p.toPacket.encode = .ok bs → ∃ f : Frame, f.bytes = bs ∧ f.body = p.body.bytes
  refused : 268435455 < p.body.bytes.length → ∃ fault, p.toPacket.encode = .error fault

namespace Coherent
variable {p : PublishPacket}

/-- What is compared and declared is the size modulo 2 ^ 32. -/
theorem encode_eq_ite (hp : p.Coherent) :
    p.toPacket.encode =
      if 268435455 < p.body.bytes.length % 2 ^ 32 then .error (.integerTooLarge p.body.width)
      else .ok (p.header.type.toByte ::
        (VarInt.digits 4 (p.body.bytes.length % 2 ^ 32) ++ p.body.bytes)) := by
  have hmax : VarInt.maximum < p.body.width ↔ 268435455 < p.body.bytes.length % 2 ^ 32 := by
    rw [UInt32.lt_iff_toNat_lt, p.body.toNat_width]
    rfl
  rw [PublishPacket.encode_eq, FixedHeader.write, VarInt.write, hp.remaining]
  simp only [hmax, p.body.toNat_width]
  split <;> rfl

/-- The promise is kept by the bodies that 32 bits count, and by the longer ones whose remainder is
refused. -/
theorem tells_iff (hp : p.Coherent) :
    p.TellsLength ↔
      p.body.bytes.length < 2 ^ 32 ∨ 268435455 < p.body.bytes.length % 2 ^ 32 := by
  have hencode := hp.encode_eq_ite
  by_cases hbig : 268435455 < p.body.bytes.length % 2 ^ 32
  · rw [if_pos hbig] at hencode
    refine iff_of_true ⟨fun bs h => ?_, fun _ => ⟨_, hencode⟩⟩ (.inr hbig)
    rw [hencode] at h
    contradiction
  · rw [if_neg hbig] at hencode
    have hfield : LengthField 4 (VarInt.digits 4 (p.body.bytes.length % 2 ^ 32))
        (p.body.bytes.length % 2 ^ 32) := LengthField.of_digits (by omega)
    constructor
    · intro h
      obtain ⟨f, hf, -⟩ := h.counted _ hencode
      have hlength := (Frame.body_eq hfield hf).2
      omega
    · intro h
      have hshort : p.body.bytes.length % 2 ^ 32 = p.body.bytes.length := by omega
      rw [hshort] at hfield
      refine ⟨fun bs hbs => ?_, fun hlarge => by omega⟩
      rw [hencode, hshort, Except.ok.injEq] at hbs
      exact ⟨⟨p.header.type.toByte, _, p.body.bytes, hfield⟩, hbs, rfl⟩

end Coherent

/-- Whatever is set in a PUBLISH, made here or read: encoding it declares its size modulo 2 ^ 32, or
fails if that is more than four digits say. So lengths are told as they are exactly for bodies
of less than 2 ^ 32 bytes and for the longer ones that are refused by chance. -/
theorem tellsLength_foldl_iff {p : PublishPacket} (given : p.Given) (setters : List PublishSetter) :
    let q := setters.foldl set p
    let declared := q.body.bytes.length % 2 ^ 32
    q.body.write = .ok q.body.bytes ∧
      q.toPacket.encode =
        (if 268435455 < declared then .error (.integerTooLarge q.body.width)
        else .ok (q.header.type.toByte :: (VarInt.digits 4 declared ++ q.body.bytes))) ∧
      (q.TellsLength ↔ q.body.bytes.length < 2 ^ 32 ∨ 268435455 < declared) := by
  intro q declared
  have hq : q.Coherent := coherent_foldl given.coherent setters
  exact ⟨q.body.write_eq_ok, hq.encode_eq_ite, hq.tells_iff⟩

/-- A short message, sent under an identifier in the end. -/
theorem tellsLength_foldl_short :
    let p : PublishPacket := .new ⟨"a", by decide⟩ .atMostOnce [1]
    let q := [PublishSetter.payload [2, 3], .delivery (.atLeastOnce 7)].foldl set p
    p.Given ∧ q.toPacket.encode = .ok [0x32, 7, 0, 1, 97, 0, 7, 2, 3] ∧ q.TellsLength := by
  intro p q
  have given : p.Given := .new _ _ _
  have hbytes : q.body.bytes = [0, 1, 97, 0, 7, 2, 3] := by decide
  obtain ⟨-, hencode, htells⟩ :=
    tellsLength_foldl_iff given [.payload [2, 3], .delivery (.atLeastOnce 7)]
  change q.toPacket.encode = if 268435455 < q.body.bytes.length % 2 ^ 32 then _ else _ at hencode
  rw [hbytes, if_neg (by decide)] at hencode
  exact ⟨given, hencode, htells.mpr (.inl (by decide))⟩

end PublishPacket

namespace BulkPublish

/-- Four gigabytes of zeros. -/
def zeros : BulkPublish := ⟨.new ⟨"a", by decide⟩ .atMostOnce [], [⟨0, 2 ^ 32⟩]⟩

/-- Of the 4294967299 bytes of this body 32 bits keep 3, and that is what its header declares. -/
theorem not_tellsLength_zeros :
    zeros.laidOut.toPacket.encode = .ok ([0x30, 3, 0, 1, 97] ++ Runs.bytes zeros.payload) ∧
      zeros.laidOut.body.bytes = [0, 1, 97] ++ Runs.bytes zeros.payload ∧
      zeros.laidOut.body.bytes.length = 4294967299 ∧ ¬ zeros.laidOut.TellsLength := by
  have hcoherent : zeros.laidOut.Coherent :=
    PublishPacket.coherent_set (PublishPacket.coherent_new _ _ _) (.payload _)
  have hfront : zeros.front.body.bytes = [0, 1, 97] := by decide
  have hbytes : zeros.laidOut.body.bytes = [0, 1, 97] ++ Runs.bytes zeros.payload := by
    rw [bytes_laidOut, hfront]
  have hlength : zeros.laidOut.body.bytes.length = 4294967299 := by
    rw [hbytes, List.length_append, Runs.length_bytes]
    rfl
  refine ⟨?_, hbytes, hlength, ?_⟩
  · rw [hcoherent.encode_eq_ite, hlength, if_neg (by decide), hbytes]
    rfl
  · rw [hcoherent.tells_iff, hlength]
    decide

end BulkPublish

end Mqtt
