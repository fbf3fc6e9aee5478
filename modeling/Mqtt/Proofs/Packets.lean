import Mqtt.Proofs.Bodies

/-!
# Packets, read and written

One relation says which bytes spell a packet, and both ways to read a packet are described by
it: a packet type read on its own asks for nothing more, the reader of any packet also stays
inside the size that the header declares.
-/
namespace Mqtt
open Wire

namespace Packet

/-- `bs` is the header of `p`, then its body as it is written, `w`, and then `rest`. CONNECT alone
may have another size than its header declares. -/
structure Spelled (bs : Bytes) (p : Packet) (w rest : Bytes) : Prop where
  header : FixedHeader.read bs = .ok (p.header, w ++ rest)
  kind : p.body.kind = p.header.type.kind
  legal : p.body.Legal p.header.type.flags
  body : p.body.write = .ok w
  size : p.header.type.kind ≠ .connect → w.length = p.header.remaining.toNat

theorem readBodyAs_eq_ok_iff {h : FixedHeader} {bs rest : Bytes} {p : Packet} :
    readBodyAs h.type.kind h bs = .ok (p, rest) ↔
      p.header = h ∧ p.body.kind = h.type.kind ∧ p.body.Legal h.type.flags ∧
        ∃ w, p.body.write = .ok w ∧ (h.type.kind ≠ .connect → w.length = h.remaining.toNat) ∧
          bs = w ++ rest := by
  simp only [readBodyAs, map_eq_ok_iff, Prod.exists, Prod.mk.injEq, Body.read_eq_ok_iff rfl]
  constructor
  · intro h'
    obtain ⟨body, _, hbody, rfl, rfl⟩ := h'
    exact ⟨rfl, hbody⟩
  · intro h'
    obtain ⟨rfl, hbody⟩ := h'
    exact ⟨p.body, rest, hbody, rfl, rfl⟩

/-- A packet type reads, under a header that names it, what spells a packet. -/
theorem readAs_eq_ok_iff {bs rest : Bytes} {p : Packet} :
    readAs p.header.type.kind bs = .ok (p, rest) ↔ ∃ w, Spelled bs p w rest := by
  simp only [readAs, bind_eq_ok_iff, mapError_eq_ok_iff, Prod.exists]
  constructor
  · intro h
    obtain ⟨h, tail, hread, hbody⟩ := h
    obtain rfl : p.header = h := by
      obtain ⟨_, _, hsame⟩ := map_eq_ok_iff.mp hbody
      rw [Prod.mk.injEq] at hsame
      rw [← hsame.1]
    obtain ⟨-, hkind, hlegal, w, hw, hsize, rfl⟩ := readBodyAs_eq_ok_iff.mp hbody
    exact ⟨w, hread, hkind, hlegal, hw, hsize⟩
  · intro h
    obtain ⟨w, hread, hkind, hlegal, hw, hsize⟩ := h
    exact ⟨p.header, _, hread, readBodyAs_eq_ok_iff.mpr ⟨rfl, hkind, hlegal, w, hw, hsize, rfl⟩⟩

/-- The bounded reader takes the body from the declared bytes only. -/
theorem readLimited_eq_ok_iff {h : FixedHeader} {bs rest : Bytes} {p : Packet} :
    readLimited h bs = .ok (p, rest) ↔
      p.header = h ∧ p.body.kind = h.type.kind ∧ p.body.Legal h.type.flags ∧
        ∃ w, p.body.write = .ok w ∧ (h.type.kind ≠ .connect → w.length = h.remaining.toNat) ∧
          w.length ≤ h.remaining.toNat ∧ bs = w ++ rest := by
  simp only [readLimited, readBody, before_eq_ok_iff, mapError_eq_ok_iff, readBodyAs_eq_ok_iff]
  constructor
  · intro h'
    obtain ⟨left, ⟨rfl, hkind, hlegal, w, hw, hsize, htake⟩, rfl⟩ := h'
    refine ⟨rfl, hkind, hlegal, w, hw, hsize, ?_, ?_⟩
    · have hlen := congrArg List.length htake
      rw [List.length_take, List.length_append] at hlen
      omega
    · rw [← List.append_assoc, ← htake, List.take_append_drop]
  · intro h'
    obtain ⟨rfl, hkind, hlegal, w, hw, hsize, hle, rfl⟩ := h'
    -- the fields end before the limit; what is left up to it goes back in front of the rest
    refine ⟨rest.take (p.header.remaining.toNat - w.length),
      ⟨rfl, hkind, hlegal, w, hw, hsize, ?_⟩, ?_⟩
    · rw [List.take_append, List.take_of_length_le hle]
    · rw [List.drop_append, List.drop_of_length_le hle, List.nil_append, List.take_append_drop]

/-- A packet is read from what spells it, and its body lies inside the declared size. -/
theorem read_eq_ok_iff {bs rest : Bytes} {p : Packet} :
    read bs = .ok (p, rest) ↔
      ∃ w, Spelled bs p w rest ∧ w.length ≤ p.header.remaining.toNat := by
  have hheader (h : FixedHeader) (tail : Bytes) : FixedHeader.read bs = .ok (h, tail) ↔
      ∃ type remaining, FixedHeader.readParts bs = .ok ((type, remaining), tail) ∧
        FixedHeader.ofParts type remaining = .ok h := by
    simp only [FixedHeader.read, bind_eq_ok_iff, Prod.exists, leaving_eq_ok_iff]
    constructor
    · intro h
      obtain ⟨type, remaining, _, hparts, hof, rfl⟩ := h
      exact ⟨type, remaining, hparts, hof⟩
    · intro h
      obtain ⟨type, remaining, hparts, hof⟩ := h
      exact ⟨type, remaining, tail, hparts, hof, rfl⟩
  simp only [read, bind_eq_ok_iff, mapError_eq_ok_iff, Prod.exists]
  constructor
  · intro h
    obtain ⟨type, remaining, tail, hparts, hbody⟩ := h
    split at hbody
    · next h hof =>
      obtain ⟨rfl, hkind, hlegal, w, hw, hsize, hle, rfl⟩ := readLimited_eq_ok_iff.mp hbody
      have hread := (hheader p.header _).mpr ⟨type, remaining, hparts, hof⟩
      exact ⟨w, ⟨hread, hkind, hlegal, hw, hsize⟩, hle⟩
    · simp at hbody
    · simp at hbody
  · intro h
    obtain ⟨w, ⟨hread, hkind, hlegal, hw, hsize⟩, hle⟩ := h
    obtain ⟨type, remaining, hparts, hof⟩ := (hheader p.header _).mp hread
    refine ⟨type, remaining, _, hparts, ?_⟩
    rw [hof]
    exact readLimited_eq_ok_iff.mpr ⟨rfl, hkind, hlegal, w, hw, hsize, hle, rfl⟩

/-- The width of a packet is the number of its bytes, counted in 32 bits. -/
theorem size32_write {p : Packet} {bs : Bytes} (h : p.write = .ok bs) : size32 bs = p.width := by
  obtain ⟨v, w, hv, hw, rfl⟩ := Written.append_eq_ok_iff.mp h
  rw [size32_append, FixedHeader.size32_write hv, Body.size32_write hw, width]

end Packet

end Mqtt
