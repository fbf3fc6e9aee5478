import Mqtt.Proofs.DeclaredSize

/-!
# Encoding a packet that was read

A reader keeps every bit of a frame but the spelling of its length field. Encoding what was read
gives the type byte, the declared size in as few digits as possible and the bytes of the body,
and two frames are read as the same packet when these parts are the same.
-/
namespace Mqtt
open Wire

/-- A number of `n` or more takes more digits than a field of `n` has. -/
theorem LengthField.lt_of_digits {limit n : Nat} {digits : Bytes} (h : LengthField limit digits n) :
    n < 128 ^ digits.length := by
  induction h with
  | last low =>
    simpa using UInt8.lt_iff_toNat_lt.mp low
  | @more limit n b digits _ _ ih =>
    have hb : b.toNat % 128 < 128 := Nat.mod_lt _ (by decide)
    rw [List.length_cons, Nat.pow_succ]
    omega

/-- A length field of `n` that is no longer than any other. -/
structure ShortestLength (digits : Bytes) (n : Nat) : Prop where
  field : LengthField 4 digits n
  least : ∀ other, LengthField 4 other n → digits.length ≤ other.length

/-- The digits that are written for a number are its shortest length field. -/
theorem ShortestLength.of_digits {n : Nat} (hn : n < 128 ^ 4) :
    ShortestLength (VarInt.digits 4 n) n := by
  refine ⟨LengthField.of_digits hn, fun other hother => ?_⟩
  obtain ⟨k, hk⟩ := Nat.exists_eq_add_of_lt hother.length_pos
  have hlength : other.length = k + 1 := by omega
  have hlt := hother.lt_of_digits
  rw [hlength] at hlt ⊢
  exact (LengthField.length_digits_le_iff hn).mpr hlt

/-- What a frame says apart from the digits of its length field: the type byte, the declared size
and the bytes of the body that are read. -/
structure Parts where
  type : UInt8
  size : Nat
  body : Bytes

namespace Parts

/-- `bs` are these parts, their size in any digits, in front of `rest`. -/
def Of (parts : Parts) (bs rest : Bytes) : Prop :=
  ∃ digits, LengthField 4 digits parts.size ∧ bs = parts.type :: (digits ++ (parts.body ++ rest))

/-- `bs` are these parts, their size in as few digits as possible. -/
def Spell (parts : Parts) (bs : Bytes) : Prop :=
  ∃ digits, ShortestLength digits parts.size ∧ bs = parts.type :: (digits ++ parts.body)

/-- The bytes and what is left of them decide the parts, since no length field is the start of
another one. -/
theorem Of.unique {parts parts' : Parts} {bs rest : Bytes} (h : parts.Of bs rest)
    (h' : parts'.Of bs rest) : parts = parts' := by
  have hread {q : Parts} (hq : q.Of bs rest) : q.size < 2 ^ 32 ∧
      FixedHeader.readParts bs = .ok ((q.type, UInt32.ofNat q.size), q.body ++ rest) := by
    obtain ⟨digits, hdigits, hbs⟩ := hq
    have hlt : q.size < 2 ^ 32 := Nat.lt_trans hdigits.value_lt (by decide)
    refine ⟨hlt, FixedHeader.readParts_eq_ok_iff.mpr ⟨digits, ?_, hbs⟩⟩
    rwa [UInt32.toNat_ofNat_of_lt' hlt]
  obtain ⟨hlt, hparts⟩ := hread h
  obtain ⟨hlt', hparts'⟩ := hread h'
  rw [hparts] at hparts'
  simp only [Except.ok.injEq, Prod.mk.injEq, List.append_left_inj] at hparts'
  obtain ⟨⟨htype, hsize⟩, hbody⟩ := hparts'
  have hsizes := congrArg UInt32.toNat hsize
  rw [UInt32.toNat_ofNat_of_lt' hlt, UInt32.toNat_ofNat_of_lt' hlt'] at hsizes
  rw [mk.injEq]
  exact ⟨htype, hsizes, hbody⟩

end Parts

namespace Packet

/-- The parts of the frames that a packet with the body `w` is read from. -/
def parts (p : Packet) (w : Bytes) : Parts := ⟨p.header.type.toByte, p.header.remaining.toNat, w⟩

variable {bs bs' w w' rest rest' : Bytes} {p p' : Packet}

theorem Spelled.of_iff (h : Spelled bs p w rest) (q : Parts) : q.Of bs rest ↔ q = p.parts w := by
  have hparts : (p.parts w).Of bs rest := (FixedHeader.read_eq_ok_iff.mp h.header).2
  constructor
  · intro hq
    exact hq.unique hparts
  · rintro rfl
    exact hparts

theorem Spelled.encode (h : Spelled bs p w rest) : ∃ v, p.encode = .ok v ∧ (p.parts w).Spell v := by
  obtain ⟨-, digits, hdigits, -⟩ := FixedHeader.read_eq_ok_iff.mp h.header
  have hsize : p.header.remaining.toNat < 128 ^ 4 := hdigits.value_lt
  have hmax : p.header.remaining ≤ VarInt.maximum := by
    rw [UInt32.le_iff_toNat_le]
    exact Nat.le_of_lt_succ hsize
  have hheader := FixedHeader.write_eq_ok_iff.mpr ⟨hmax, rfl⟩
  exact ⟨_, Written.toExcept_eq_ok_iff.mpr (Written.append_ok hheader h.body), _,
    ShortestLength.of_digits hsize, rfl⟩

/-- The header and the bytes of the body decide the packet: the body is read back from them. -/
theorem Spelled.eq_of_header (h : Spelled bs p w rest) (h' : Spelled bs' p' w rest')
    (hheader : p.header = p'.header) : p = p' := by
  have hread : readBodyAs p.header.type.kind p.header (w ++ []) = .ok (p, []) :=
    readBodyAs_eq_ok_iff.mpr ⟨rfl, h.kind, h.legal, w, h.body, h.size, rfl⟩
  have hread' : readBodyAs p'.header.type.kind p'.header (w ++ []) = .ok (p', []) :=
    readBodyAs_eq_ok_iff.mpr ⟨rfl, h'.kind, h'.legal, w, h'.body, h'.size, rfl⟩
  rw [← hheader, hread] at hread'
  simpa using hread'

theorem Spelled.header_eq (h : Spelled bs p w rest) (h' : Spelled bs' p' w' rest')
    (hparts : p.parts w = p'.parts w') : p.header = p'.header := by
  obtain ⟨legal, -⟩ := FixedHeader.read_eq_ok_iff.mp h.header
  obtain ⟨legal', -⟩ := FixedHeader.read_eq_ok_iff.mp h'.header
  simp only [Packet.parts, Parts.mk.injEq, UInt32.toNat_inj] at hparts
  obtain ⟨htype, hremaining, -⟩ := hparts
  have hof := TypeByte.ofByte_eq_ok_iff.mpr ⟨legal, rfl⟩
  rw [htype, TypeByte.ofByte_eq_ok_iff.mpr ⟨legal', rfl⟩, Except.ok.injEq] at hof
  rw [FixedHeader.mk.injEq]
  exact ⟨hof.symm, hremaining⟩

/-- Frames are read as the same packet when they have the same parts. -/
theorem Spelled.eq_iff (h : Spelled bs p w rest) (h' : Spelled bs' p' w' rest') :
    p = p' ↔ p.parts w = p'.parts w' := by
  constructor
  · rintro rfl
    have hbody := h.body.symm.trans h'.body
    rw [Written.ok_inj.mp hbody]
  · intro hparts
    have hbody : w = w' := congrArg Parts.body hparts
    subst hbody
    exact h.eq_of_header h' (h.header_eq h' hparts)

/-- Encoding a packet that was read gives the parts of its frame back, the declared size in as
few digits as possible; and frames with different parts are never read as the same packet. -/
theorem encode_read (h : read bs = .ok (p, rest)) (h' : read bs' = .ok (p', rest')) :
    ∃ parts parts' : Parts,
      (∀ q : Parts, q.Of bs rest ↔ q = parts) ∧ (∀ q : Parts, q.Of bs' rest' ↔ q = parts') ∧
      (∃ v, p.encode = .ok v ∧ parts.Spell v) ∧ (p = p' ↔ parts = parts') := by
  obtain ⟨w, hw, -⟩ := read_eq_ok_iff.mp h
  obtain ⟨w', hw', -⟩ := read_eq_ok_iff.mp h'
  exact ⟨_, _, hw.of_iff, hw'.of_iff, hw.encode, hw.eq_iff hw'⟩

/-- A CONNECT under a padded length field, and one that declares a byte beyond its fields. -/
theorem encode_read_bareConnect :
    let bs : Bytes := 16 :: 140 :: 0 :: bareConnectFields
    let bs' : Bytes := 16 :: 13 :: (bareConnectFields ++ [255])
    let p : Packet := ⟨⟨.standard .connect, 12⟩, .connect bareConnect⟩
    let p' : Packet := ⟨⟨.standard .connect, 13⟩, .connect bareConnect⟩
    read bs = .ok (p, []) ∧ read bs' = .ok (p', [255]) ∧
      ∃ parts parts' : Parts,
        (∀ q : Parts, q.Of bs [] ↔ q = parts) ∧ (∀ q : Parts, q.Of bs' [255] ↔ q = parts') ∧
        (∃ v, p.encode = .ok v ∧ parts.Spell v) ∧ (p = p' ↔ parts = parts') :=
  ⟨rfl, rfl, encode_read rfl rfl⟩

end Packet

end Mqtt
