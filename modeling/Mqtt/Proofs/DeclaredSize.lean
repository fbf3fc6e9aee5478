import Mqtt.Proofs.Packets

/-!
# Declared sizes

What a successful reader has taken, against the size that the header declares. Every type but
CONNECT takes exactly its frame. CONNECT takes its fields and does not compare: it takes its
frame when the fields happen to fill it.
-/
namespace Mqtt
open Wire

namespace Packet

/-- A packet and what is left, from the reader of any packet or from that of the type which the
header names. -/
inductive Decoded (bs : Bytes) (p : Packet) (rest : Bytes) : Prop
  | any (h : read bs = .ok (p, rest))
  | own {kind : Kind} (h : readAs kind bs = .ok (p, rest)) (named : p.header.type.kind = kind)

/-- The header and as many bytes as it declares were taken. -/
def TakesDeclared (bs : Bytes) (p : Packet) (rest : Bytes) : Prop :=
  ∃ body, FixedHeader.read bs = .ok (p.header, body ++ rest) ∧
    body.length = p.header.remaining.toNat

/-- The frame was taken and the fields fill it. -/
structure Framed (bs : Bytes) (p : Packet) (rest : Bytes) : Prop where
  taken : TakesDeclared bs p rest
  declared : p.header.remaining = p.body.width

theorem Decoded.spelled {bs rest : Bytes} {p : Packet} (h : Decoded bs p rest) :
    ∃ w, Spelled bs p w rest := by
  cases h with
  | any h =>
    obtain ⟨w, hw, -⟩ := read_eq_ok_iff.mp h
    exact ⟨w, hw⟩
  | own h named =>
    subst named
    exact readAs_eq_ok_iff.mp h

/-- The fields of a packet are as long as its width says; the count does not overflow. -/
theorem Spelled.length_eq_width {bs w rest : Bytes} {p : Packet} (h : Spelled bs p w rest) :
    w.length = p.body.width.toNat := by
  refine (size32_eq_iff ?_).mp (Body.size32_write h.body)
  -- the size of a CONNECT is not compared, but its fields are too short to overflow
  by_cases hc : p.header.type.kind = .connect
  · have hbody := h.body
    have hkind := h.kind.trans hc
    cases hp : p.body with
    | connect c =>
      rw [hp] at hbody
      exact Connect.length_write hbody
    | _ => simp [hp, Body.kind] at hkind
  · rw [h.size hc]
    exact p.header.remaining.toNat_lt

/-- A reader takes the header and the fields, whatever the declared size is. -/
theorem Decoded.takes_fields {bs rest : Bytes} {p : Packet} (h : Decoded bs p rest) :
    ∃ w, FixedHeader.read bs = .ok (p.header, w ++ rest) ∧ w.length = p.body.width.toNat := by
  obtain ⟨w, hw⟩ := h.spelled
  exact ⟨w, hw.header, hw.length_eq_width⟩

theorem Decoded.takesDeclared_iff {bs rest : Bytes} {p : Packet} (h : Decoded bs p rest) :
    TakesDeclared bs p rest ↔ p.header.remaining = p.body.width := by
  obtain ⟨w, hread, hlen⟩ := h.takes_fields
  constructor
  · intro h'
    obtain ⟨body, hbody, hsize⟩ := h'
    rw [hread] at hbody
    simp only [Except.ok.injEq, Prod.mk.injEq, List.append_left_inj, true_and] at hbody
    rw [← UInt32.toNat_inj, ← hlen, ← hsize, hbody]
  · intro hdeclared
    exact ⟨w, hread, by rw [hlen, hdeclared]⟩

/-- A success takes exactly its declared frame and stores the width of its fields, unless it is
a CONNECT that declares another size; then it does neither. -/
theorem Decoded.framed_iff {bs rest : Bytes} {p : Packet} (h : Decoded bs p rest) :
    (Framed bs p rest ↔ (p.header.type.kind = .connect → p.header.remaining = p.body.width)) ∧
      (TakesDeclared bs p rest ↔ p.header.remaining = p.body.width) := by
  refine ⟨⟨fun hframed _ => hframed.declared, fun hconnect => ?_⟩, h.takesDeclared_iff⟩
  have hdeclared : p.header.remaining = p.body.width := by
    by_cases hc : p.header.type.kind = .connect
    · exact hconnect hc
    · obtain ⟨w, hw⟩ := h.spelled
      rw [← UInt32.toNat_inj, ← hw.size hc, hw.length_eq_width]
  exact ⟨h.takesDeclared_iff.mpr hdeclared, hdeclared⟩

/-- A CONNECT without optional fields. -/
def bareConnect : Connect := ⟨"", true, 60, none, none, none⟩

def bareConnectFields : Bytes := [0, 4, 77, 81, 84, 84, 4, 2, 0, 60, 0, 0]

/-- The fields are twelve bytes; any larger size may be declared. -/
theorem read_bareConnect {n : UInt8} (hlow : 12 ≤ n) (hhigh : n < 128) (rest : Bytes) :
    read (16 :: n :: (bareConnectFields ++ rest)) =
      .ok (⟨⟨.standard .connect, n.toUInt32⟩, .connect bareConnect⟩, rest) := by
  have hn : n.toUInt32.toNat = n.toNat := UInt8.toNat_toUInt32 n
  have hfield : LengthField 4 [n] n.toUInt32.toNat := by
    rw [hn]
    exact .last hhigh
  have htype : (TypeByte.standard .connect).Legal := rfl
  have hlegal : (Body.connect bareConnect).Legal (.standard .connect) := fun h => h
  have hwrite : (Body.connect bareConnect).write = .ok bareConnectFields := by decide
  have hle : bareConnectFields.length ≤ n.toUInt32.toNat := by
    rw [hn]
    exact UInt8.le_iff_toNat_le.mp hlow
  refine read_eq_ok_iff.mpr ⟨bareConnectFields, ⟨?_, rfl, hlegal, hwrite, fun h => absurd rfl h⟩, hle⟩
  exact FixedHeader.read_eq_ok_iff.mpr ⟨htype, [n], hfield, rfl⟩

/-- The frame of a CONNECT that declares the size of its fields. -/
theorem framed_bareConnect :
    Decoded (16 :: 12 :: (bareConnectFields ++ [255]))
        ⟨⟨.standard .connect, 12⟩, .connect bareConnect⟩ [255] ∧
      Framed (16 :: 12 :: (bareConnectFields ++ [255]))
        ⟨⟨.standard .connect, 12⟩, .connect bareConnect⟩ [255] := by
  have hread := read_bareConnect (n := 12) (by decide) (by decide) [255]
  have hdecoded := Decoded.any hread
  exact ⟨hdecoded, hdecoded.framed_iff.1.mpr fun _ => by decide⟩

/-- A CONNECT with a byte beyond its fields inside its declared size is accepted, and that byte
is left where the next packet should start. -/
theorem not_framed_bareConnect : ¬ ∀ bs p rest, Decoded bs p rest → Framed bs p rest := by
  intro hall
  have hread := read_bareConnect (n := 13) (by decide) (by decide) [255]
  have hdeclared := (hall _ _ _ (.any hread)).declared
  exact absurd hdeclared (by decide)

end Packet

end Mqtt
