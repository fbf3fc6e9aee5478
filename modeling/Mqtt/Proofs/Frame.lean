import Mqtt.Proofs.Chunks
import Mqtt.Proofs.Unread

/-!
# Frames

A frame is a type byte, a length field and as many body bytes as it says; the bytes are otherwise
arbitrary. The three decoders answer alike on every frame, and what follows the frame neither
changes an answer nor is taken.
-/
namespace Mqtt
open Wire

structure Frame where
  type : UInt8
  length : Bytes
  body : Bytes
  complete : LengthField 4 length body.length

namespace Frame

def bytes (f : Frame) : Bytes := f.type :: (f.length ++ f.body)

def size (f : Frame) : UInt32 := f.body.length.toUInt32

/-- The type number has no use, whatever the flags are. -/
def Reserved (f : Frame) : Prop := Kind.ofCode? (f.type.toNat / 16) = none

variable (f : Frame) (s : Bytes)

theorem toNat_size : f.size.toNat = f.body.length := f.complete.toNat_toUInt32

theorem bytes_append : f.bytes ++ s = f.type :: (f.length ++ (f.body ++ s)) := by
  simp [bytes]

theorem take_body : (f.body ++ s).take f.size.toNat = f.body := by
  rw [toNat_size, List.take_left]

theorem drop_body : (f.body ++ s).drop f.size.toNat = s := by
  rw [toNat_size, List.drop_left]

/-! ## Headers -/

theorem readParts_append :
    FixedHeader.readParts (f.bytes ++ s) = .ok ((f.type, f.size), f.body ++ s) := by
  rw [bytes_append, FixedHeader.readParts_eq_ok_iff]
  refine ⟨f.length, ?_, rfl⟩
  rw [toNat_size]
  exact f.complete

theorem await_append :
    FixedHeader.await (f.bytes ++ s) =
      leaving (f.body ++ s) (FixedHeader.ofParts f.type f.size) := by
  have hlength : FixedHeader.awaitLength 0 0 (f.length ++ (f.body ++ s)) =
      .ok (f.body.length, f.body ++ s) := by
    rw [FixedHeader.awaitLength_append (f.body ++ s) f.complete rfl, Nat.zero_add, Nat.pow_zero,
      Nat.mul_one]
  rw [bytes_append, FixedHeader.await, hlength]
  rfl

theorem scanLength?_append :
    FixedHeader.scanLength? (f.length ++ (f.body ++ s)) =
      some (.ok (f.body.length, f.length.length)) :=
  FixedHeader.scanLength?_append _ f.complete

theorem drop_header : (f.bytes ++ s).drop (f.length.length + 1) = f.body ++ s := by
  rw [bytes_append, List.drop_succ_cons, List.drop_left]

/-- The decoder that has found a header goes on with the body behind it. -/
theorem next_append {type : FixedHeader.StreamType}
    (h : FixedHeader.scan? (f.bytes ++ s) = some (.ok (type, f.size, f.length.length + 1))) :
    (Stream.empty.feed (f.bytes ++ s)).next =
      (some (Stream.readBody type f.size f.body), ⟨.header, s⟩) := by
  have hnext : (Stream.empty.feed (f.bytes ++ s)).next =
      Stream.nextBody type f.size ((f.bytes ++ s).drop (f.length.length + 1)) := by
    simp only [Stream.next, Stream.feed, Stream.empty, List.nil_append, h]
  have hle : f.size.toNat ≤ (f.body ++ s).length := by
    rw [toNat_size, List.length_append]
    omega
  rw [hnext, drop_header, Stream.nextBody_of_le hle, take_body, drop_body]

/-! ## The three kinds of type bytes -/

section Legal
variable {t : TypeByte} (h : TypeByte.ofByte f.type = .ok t)
include h

theorem ofParts_legal : FixedHeader.ofParts f.type f.size = .ok ⟨t, f.size⟩ := by
  rw [FixedHeader.ofParts, h]

theorem read_legal :
    Packet.read (f.bytes ++ s) = before s (Packet.readBody ⟨t, f.size⟩ f.body) := by
  simp only [Packet.read, readParts_append, mapError_ok, bind, Except.bind]
  rw [f.ofParts_legal h]
  simp only [Packet.readLimited, take_body, drop_body]

theorem awaitPacket_legal :
    Packet.await (f.bytes ++ s) = leaving s (answer (Packet.readBody ⟨t, f.size⟩ f.body)) := by
  have hlen : ¬ (f.body ++ s).length < f.size.toNat := by
    rw [toNat_size, List.length_append]
    omega
  simp only [Packet.await, await_append, f.ofParts_legal h, leaving_ok, mapError_ok, bind,
    Except.bind, if_neg hlen, take_body, drop_body]

theorem next_legal :
    (Stream.empty.feed (f.bytes ++ s)).next =
      (some (Stream.readBody (.standard t) f.size f.body), ⟨.header, s⟩) := by
  apply next_append
  simp only [bytes_append, FixedHeader.scan?, scanLength?_append, h]
  rfl

end Legal

/-- A type number without a use: the body is taken, and its bytes or their number is the error. Who
awaits the header learns of the number before the body comes. -/
theorem reserved_answers {code flags : Nat} (h : TypeByte.ofByte f.type = .error (.reserved code flags)) :
    Packet.read (f.bytes ++ s) = .error ⟨.reserved code f.body, s⟩ ∧
      Packet.await (f.bytes ++ s) = .error ⟨.header (.reserved code f.size), f.body ++ s⟩ ∧
      (Stream.empty.feed (f.bytes ++ s)).next =
        (some (.error (.reserved code f.body)), ⟨.header, s⟩) := by
  have hparts : FixedHeader.ofParts f.type f.size = .error (.reserved code f.size) := by
    rw [FixedHeader.ofParts, h]
  refine ⟨?_, ?_, ?_⟩
  · simp only [Packet.read, readParts_append, mapError_ok, bind, Except.bind, hparts, take_body,
      drop_body]
  · simp only [Packet.await, await_append, hparts, leaving_error, mapError_error, Stop.map, bind,
      Except.bind]
  · have hscan : FixedHeader.scan? (f.bytes ++ s) =
        some (.ok (.reserved code, f.size, f.length.length + 1)) := by
      simp only [bytes_append, FixedHeader.scan?, scanLength?_append, h]
      rfl
    exact f.next_append s hscan

/-- Flags that the type does not have: the body is not taken, and from a buffer nothing is. -/
theorem refused_answers {kind : Kind} {flags : Nat}
    (h : TypeByte.ofByte f.type = .error (.invalidFlags kind flags)) :
    Packet.read (f.bytes ++ s) = .error ⟨.header (.type (.invalidFlags kind flags)), f.body ++ s⟩ ∧
      Packet.await (f.bytes ++ s) =
        .error ⟨.header (.type (.invalidFlags kind flags)), f.body ++ s⟩ ∧
      (Stream.empty.feed (f.bytes ++ s)).next =
        (some (.error (.header (.type (.invalidFlags kind flags)))), ⟨.header, f.bytes ++ s⟩) := by
  have hparts : FixedHeader.ofParts f.type f.size = .error (.type (.invalidFlags kind flags)) := by
    rw [FixedHeader.ofParts, h]
  refine ⟨?_, ?_, ?_⟩
  · simp only [Packet.read, readParts_append, mapError_ok, bind, Except.bind, hparts]
  · simp only [Packet.await, await_append, hparts, leaving_error, mapError_error, Stop.map, bind,
      Except.bind]
  · have hscan : FixedHeader.scan? (f.bytes ++ s) = some (.error (.type (.invalidFlags kind flags))) := by
      simp only [bytes_append, FixedHeader.scan?, scanLength?_append, h]
    simp only [Stream.next, Stream.feed, Stream.empty, List.nil_append, hscan]

theorem reserved_of_ofByte {code flags : Nat}
    (h : TypeByte.ofByte f.type = .error (.reserved code flags)) : f.Reserved := by
  rw [TypeByte.ofByte] at h
  split at h
  · next hnone => exact hnone
  · next kind _ =>
    simp only [TypeByte.ofFlags] at h
    split at h <;> simp at h

/-! ## The decoders together -/

theorem body_suffix : f.body <:+ f.bytes :=
  (List.suffix_append f.length f.body).trans (List.suffix_cons f.type _)

/-- On a frame the blocking reader, the one that awaits and the incremental decoder give the same
packet, or they all fail, with one error when the type has a use. Either way what each of them
leaves is an end of the frame, with all that follows the frame behind it; when they fail, they do
not leave the same end. -/
theorem decoders_agree :
    (∃ p left, left <:+ f.bytes ∧ ∀ s,
      Packet.read (f.bytes ++ s) = .ok (p, left ++ s) ∧
      Packet.await (f.bytes ++ s) = .ok (p, s) ∧
      (Stream.empty.feed (f.bytes ++ s)).next = (some (.packet p), ⟨.header, s⟩)) ∨
    (∃ e e' e'' left left' kept, left <:+ f.bytes ∧ left' <:+ f.bytes ∧ kept <:+ f.bytes ∧
      (¬ f.Reserved → e = e' ∧ e = e'') ∧ ∀ s,
      Packet.read (f.bytes ++ s) = .error ⟨e, left ++ s⟩ ∧
      Packet.await (f.bytes ++ s) = .error ⟨e', left' ++ s⟩ ∧
      (Stream.empty.feed (f.bytes ++ s)).next = (some (.error e''), ⟨.header, kept ++ s⟩)) := by
  cases htype : TypeByte.ofByte f.type with
  | ok t =>
    have hleft := (Packet.readBody_suffix ⟨t, f.size⟩ f.body).trans f.body_suffix
    cases hbody : Packet.readBody ⟨t, f.size⟩ f.body with
    | ok found =>
      obtain ⟨p, left⟩ := found
      rw [hbody, unread_ok] at hleft
      refine .inl ⟨p, left, hleft, fun s => ⟨?_, ?_, ?_⟩⟩
      · rw [f.read_legal s htype, hbody]
        rfl
      · rw [f.awaitPacket_legal s htype, hbody]
        rfl
      · rw [f.next_legal s htype, Stream.readBody, hbody]
        rfl
    | error stop =>
      obtain ⟨e, left⟩ := stop
      rw [hbody, unread_error] at hleft
      refine .inr ⟨e, e, e, left, [], [], hleft, List.nil_suffix, List.nil_suffix,
        fun _ => ⟨rfl, rfl⟩, fun s => ⟨?_, ?_, ?_⟩⟩
      · rw [f.read_legal s htype, hbody]
        rfl
      · rw [f.awaitPacket_legal s htype, hbody]
        rfl
      · rw [f.next_legal s htype, Stream.readBody, hbody]
        rfl
  | error e =>
    cases e with
    | reserved code flags =>
      exact .inr ⟨_, _, _, [], f.body, [], List.nil_suffix, f.body_suffix, List.nil_suffix,
        fun named => absurd (f.reserved_of_ofByte htype) named, fun s => f.reserved_answers s htype⟩
    | invalidFlags kind flags =>
      exact .inr ⟨_, _, _, f.body, f.body, f.bytes, f.body_suffix, f.body_suffix,
        List.suffix_rfl, fun _ => ⟨rfl, rfl⟩, fun s => f.refused_answers s htype⟩

end Frame

end Mqtt
