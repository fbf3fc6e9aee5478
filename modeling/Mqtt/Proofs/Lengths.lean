import Mathlib.Order.Bounds.Basic
import Mqtt.Proofs.Header

/-!
# One code for lengths

A length is written in as few digits as it needs, and four readers take it: the integer alone, a
header from a source that ends, a header that is awaited, and the scanner of a buffer. They keep
their own counts of the digits and meet the limit of four in different places, but each of them
finds a length exactly where a length field begins, the same one in the same number of bytes.
-/
namespace Mqtt
open Wire

/-! ## The readers, one by one -/

/-- The integer and the header take the same digits; they differ in what they call an error. -/
theorem Wire.VarInt.readDigits_eq_ok_iff {limit n : Nat} {bs rest : Bytes} :
    readDigits limit bs = .ok (n, rest) ↔ FixedHeader.readLength limit bs = .ok (n, rest) := by
  induction limit generalizing bs rest n with
  | zero => cases bs <;> simp [readDigits, FixedHeader.readLength]
  | succ limit ih =>
    cases bs with
    | nil => simp [readDigits, FixedHeader.readLength]
    | cons b bs =>
      rw [readDigits, FixedHeader.readLength]
      split
      · simp
      · simp only [bind_eq_ok_iff, Prod.exists, Except.ok.injEq, ih]

theorem Wire.VarInt.read_eq_ok_iff {bs rest : Bytes} {v : UInt32} :
    read bs = .ok (v, rest) ↔ ∃ digits, LengthField 4 digits v.toNat ∧ bs = digits ++ rest := by
  simp only [read, bind_eq_ok_iff, Prod.exists, readDigits_eq_ok_iff,
    FixedHeader.readLength_eq_ok_iff, Except.ok.injEq, Prod.mk.injEq]
  constructor
  · rintro ⟨n, _, ⟨digits, hfield, rfl⟩, rfl, rfl⟩
    exact ⟨digits, LengthField.exists_toUInt32_iff.mp ⟨n, hfield, rfl⟩, rfl⟩
  · rintro ⟨digits, hfield, rfl⟩
    exact ⟨v.toNat, rest, ⟨digits, hfield, rfl⟩, by simp, rfl⟩

namespace FixedHeader

/-- The `index`-th digit and those after it are a length field of what is still allowed. -/
theorem awaitLength_eq_ok_iff {limit index sum m : Nat} {bs rest : Bytes} (hi : index + limit = 4) :
    awaitLength index sum bs = .ok (m, rest) ↔
      ∃ digits n, LengthField limit digits n ∧ bs = digits ++ rest ∧ m = sum + n * 128 ^ index := by
  constructor
  · intro h
    induction limit generalizing index sum bs with
    | zero =>
      cases bs with
      | nil => simp [awaitLength] at h
      | cons b bs => simp [awaitLength, show 4 ≤ index by omega] at h
    | succ limit ih =>
      cases bs with
      | nil => simp [awaitLength] at h
      | cons b bs =>
        rw [awaitLength, if_neg (by omega)] at h
        dsimp only at h
        split at h
        · next low =>
          have hb : b.toNat % 128 = b.toNat := Nat.mod_eq_of_lt (UInt8.lt_iff_toNat_lt.mp low)
          simp only [Except.ok.injEq, Prod.mk.injEq, hb] at h
          obtain ⟨rfl, rfl⟩ := h
          exact ⟨[b], _, .last low, rfl, rfl⟩
        · next high =>
          obtain ⟨digits, n, htail, rfl, rfl⟩ := ih (by omega) h
          refine ⟨b :: digits, _, .more high htail, rfl, ?_⟩
          rw [Nat.pow_eq, Nat.pow_succ, Nat.add_mul, Nat.add_assoc]
          congr 2
          rw [Nat.mul_comm 128 n, Nat.mul_assoc, Nat.mul_comm 128]
  · rintro ⟨digits, n, hfield, rfl, rfl⟩
    exact awaitLength_append rest hfield hi

/-- A header that is awaited is the header that is read. -/
theorem await_eq_ok_iff {bs rest : Bytes} {h : FixedHeader} :
    await bs = .ok (h, rest) ↔ read bs = .ok (h, rest) := by
  rw [read_eq_ok_iff]
  cases bs with
  | nil => simp [await]
  | cons type bs =>
    simp only [await, bind_eq_ok_iff, Prod.exists, leaving_eq_ok_iff, ofParts_eq_ok_iff,
      awaitLength_eq_ok_iff (show 0 + 4 = 4 from rfl), Nat.zero_add, Nat.pow_zero, Nat.mul_one,
      List.cons.injEq]
    constructor
    · rintro ⟨_, _, ⟨digits, n, hfield, rfl, rfl⟩, ⟨legal, rfl, hn⟩, rfl⟩
      exact ⟨legal, digits, LengthField.exists_toUInt32_iff.mp ⟨_, hfield, hn.symm⟩, rfl, rfl⟩
    · rintro ⟨legal, digits, hfield, rfl, rfl⟩
      exact ⟨_, _, ⟨digits, _, hfield, rfl, rfl⟩, ⟨legal, rfl, by simp⟩, rfl⟩

variable {type : UInt8} {t : TypeByte} {bs : Bytes} {v : UInt32} {used : Nat}

/-- Behind a valid type byte the scanner answers exactly where a length field begins. -/
theorem scan?_eq_ok_iff (valid : TypeByte.ofByte type = .ok t) {kind : StreamType} :
    scan? (type :: bs) = some (.ok (kind, v, used)) ↔
      kind = .standard t ∧ ∃ digits rest, LengthField 4 digits v.toNat ∧ bs = digits ++ rest ∧
        used = digits.length + 1 := by
  constructor
  · intro h
    cases hlength : scanLength? bs with
    | none => simp [scan?, hlength] at h
    | some found =>
      cases found with
      | error e => simp [scan?, hlength] at h
      | ok found =>
        obtain ⟨digits, rest, hfield, rfl, hused⟩ := scanLength?_eq_ok_iff.mp hlength
        simp only [scan?, hlength, valid, Option.some.injEq, Except.ok.injEq, Prod.mk.injEq] at h
        obtain ⟨rfl, hv, rfl⟩ := h
        refine ⟨rfl, digits, rest, LengthField.exists_toUInt32_iff.mp ⟨_, hfield, hv.symm⟩, rfl, ?_⟩
        rw [hused]
  · rintro ⟨rfl, digits, rest, hfield, rfl, rfl⟩
    simp only [scan?, scanLength?_append rest hfield, valid]
    simp

end FixedHeader

/-! ## The readers together -/

/-- A length that was found, in how many bytes, and what lies behind them. -/
structure FoundLength where
  value : UInt32
  used : Nat
  rest : Bytes

namespace FoundLength

/-- What was found in `bs` by a reader that hands back the rest of them. -/
def ofRead {ε α : Type} (value : α → UInt32) (bs : Bytes) :
    Except ε (α × Bytes) → Option FoundLength
  | .ok (a, rest) => some ⟨value a, bs.length - rest.length, rest⟩
  | .error _ => none

/-- The bytes begin with a length field. -/
def In (f : FoundLength) (bs : Bytes) : Prop :=
  ∃ digits, LengthField 4 digits f.value.toNat ∧ bs = digits ++ f.rest ∧ f.used = digits.length

theorem ofRead_eq_some_iff {ε α : Type} {value : α → UInt32} {bs : Bytes} {f : FoundLength}
    {r : Except ε (α × Bytes)}
    (h : ∀ v rest, (∃ a, r = .ok (a, rest) ∧ value a = v) ↔
      ∃ digits, LengthField 4 digits v.toNat ∧ bs = digits ++ rest) :
    ofRead value bs r = some f ↔ f.In bs := by
  obtain ⟨v, used, rest⟩ := f
  constructor
  · intro hfound
    cases r with
    | error e => simp [ofRead] at hfound
    | ok read =>
      simp only [ofRead, Option.some.injEq, mk.injEq] at hfound
      obtain ⟨rfl, rfl, rfl⟩ := hfound
      obtain ⟨digits, hfield, rfl⟩ := (h _ _).mp ⟨read.1, rfl, rfl⟩
      exact ⟨digits, hfield, rfl, by simp⟩
  · rintro ⟨digits, hfield, rfl, rfl⟩
    obtain ⟨a, rfl, rfl⟩ := (h v rest).mpr ⟨digits, hfield, rfl⟩
    simp [ofRead]

/-- The longest field there is has four digits, and four digits hold no more than the maximum. -/
theorem In.bounds {f : FoundLength} {bs : Bytes} (h : f.In bs) :
    f.value.toNat ≤ 268435455 ∧ 1 ≤ f.used ∧ f.used ≤ 4 ∧ bs = bs.take f.used ++ f.rest := by
  obtain ⟨digits, hfield, rfl, hused⟩ := h
  have hlt := hfield.value_lt
  have hpos := hfield.length_pos
  have hle := hfield.length_le
  rw [hused, List.take_left]
  exact ⟨by omega, hpos, hle, rfl⟩

end FoundLength

/-- The ways to read a length. -/
inductive LengthReader
  /-- The integer alone. -/
  | integer
  /-- In a header from a source that ends. -/
  | source
  /-- In a header whose bytes are awaited. -/
  | stream
  /-- In a header at the start of a buffer. -/
  | buffer

namespace LengthReader

/-- What a reader finds at the start of `bs`. Those that read a header are given the type byte in
front; a buffer is not changed, so behind the length lies what the counted bytes leave of it. -/
def find? (type : UInt8) (bs : Bytes) : LengthReader → Option FoundLength
  | integer => FoundLength.ofRead id bs (VarInt.read bs)
  | source => FoundLength.ofRead FixedHeader.remaining bs (FixedHeader.read (type :: bs))
  | stream => FoundLength.ofRead FixedHeader.remaining bs (FixedHeader.await (type :: bs))
  | buffer =>
    match FixedHeader.scan? (type :: bs) with
    | some (.ok (_, v, used)) => some ⟨v, used - 1, (type :: bs).drop used⟩
    | _ => none

variable {type : UInt8} {t : TypeByte} {bs : Bytes} {f : FoundLength}

/-- Behind a valid type byte every reader finds the length field that the bytes begin with. -/
theorem find?_eq_some_iff (valid : TypeByte.ofByte type = .ok t) (reader : LengthReader) :
    reader.find? type bs = some f ↔ f.In bs := by
  have hread (v : UInt32) (rest : Bytes) :
      (∃ h, FixedHeader.read (type :: bs) = .ok (h, rest) ∧ h.remaining = v) ↔
        ∃ digits, LengthField 4 digits v.toNat ∧ bs = digits ++ rest := by
    obtain ⟨legal, rfl⟩ := TypeByte.ofByte_eq_ok_iff.mp valid
    simp only [FixedHeader.read_eq_ok_iff, List.cons.injEq]
    constructor
    · rintro ⟨h, ⟨-, digits, hfield, -, rfl⟩, rfl⟩
      exact ⟨digits, hfield, rfl⟩
    · rintro ⟨digits, hfield, rfl⟩
      exact ⟨⟨t, v⟩, ⟨legal, digits, hfield, rfl, rfl⟩, rfl⟩
  cases reader with
  | integer =>
    refine FoundLength.ofRead_eq_some_iff fun v rest => ?_
    simp [VarInt.read_eq_ok_iff]
  | source => exact FoundLength.ofRead_eq_some_iff hread
  | stream =>
    refine FoundLength.ofRead_eq_some_iff fun v rest => ?_
    simp only [FixedHeader.await_eq_ok_iff, hread]
  | buffer =>
    obtain ⟨v, used, rest⟩ := f
    constructor
    · intro h
      simp only [find?] at h
      split at h
      · next hscan =>
        obtain ⟨-, digits, rest, hfield, rfl, rfl⟩ := (FixedHeader.scan?_eq_ok_iff valid).mp hscan
        simp only [Option.some.injEq, FoundLength.mk.injEq] at h
        obtain ⟨rfl, rfl, rfl⟩ := h
        exact ⟨digits, hfield, by simp, by simp⟩
      · simp at h
    · rintro ⟨digits, hfield, rfl, rfl⟩
      have hscan := (FixedHeader.scan?_eq_ok_iff valid).mpr ⟨rfl, digits, rest, hfield, rfl, rfl⟩
      simp [find?, hscan]

theorem find?_eq (valid : TypeByte.ofByte type = .ok t) (reader other : LengthReader) :
    reader.find? type bs = other.find? type bs := by
  refine Option.ext fun f => ?_
  rw [find?_eq_some_iff valid, find?_eq_some_iff valid]

end LengthReader

/-! ## The writer -/

/-- No field is needed for fewer digits than are written. -/
theorem Wire.VarInt.isLeast_width {v : UInt32} (h : v ≤ maximum) :
    IsLeast {k | 1 ≤ k ∧ v.toNat < 128 ^ k} (width v).toNat := by
  have hmax : v.toNat < 128 ^ (3 + 1) := Nat.lt_succ_of_le (UInt32.le_iff_toNat_le.mp h)
  have hlength := FixedHeader.length_digits h
  have hle (k : Nat) : (width v).toNat ≤ k + 1 ↔ v.toNat < 128 ^ (k + 1) := by
    rw [← hlength]
    exact LengthField.length_digits_le_iff hmax
  have hpos : 1 ≤ (width v).toNat := hlength ▸ (LengthField.of_digits hmax).length_pos
  obtain ⟨n, hn⟩ := Nat.exists_eq_add_of_le' hpos
  refine ⟨⟨hpos, ?_⟩, ?_⟩
  · rw [hn]
    exact (hle n).mp hn.le
  · rintro k ⟨hk, hlt⟩
    obtain ⟨k, rfl⟩ := Nat.exists_eq_add_of_le' hk
    exact (hle k).mpr hlt

namespace LengthReader

/-- A length is written in as few digits as it needs and every reader takes exactly those; the
readers find the same lengths in the same bytes, whoever wrote them; and a larger value is
refused before a byte of it is written. -/
theorem lengths_agree :
    (∀ v : UInt32, v.toNat ≤ 268435455 →
      ∃ w, VarInt.write v = .ok w ∧ w.length = (VarInt.width v).toNat ∧
        IsLeast {k | 1 ≤ k ∧ v.toNat < 128 ^ k} (VarInt.width v).toNat ∧
        ∀ type t, TypeByte.ofByte type = .ok t → ∀ (reader : LengthReader) (rest : Bytes),
          reader.find? type (w ++ rest) = some ⟨v, w.length, rest⟩) ∧
      (∀ type t, TypeByte.ofByte type = .ok t → ∀ (reader : LengthReader) (bs : Bytes),
        (∀ other : LengthReader, reader.find? type bs = other.find? type bs) ∧
          ∀ f, reader.find? type bs = some f →
            f.value.toNat ≤ 268435455 ∧ 1 ≤ f.used ∧ f.used ≤ 4 ∧ bs = bs.take f.used ++ f.rest) ∧
      ∀ v : UInt32, 268435455 < v.toNat →
        (VarInt.write v).bytes = [] ∧ (VarInt.write v).fault = some (.integerTooLarge v) := by
  refine ⟨fun v hv => ?_, fun type t valid reader bs => ⟨?_, fun f hf => ?_⟩, fun v hv => ?_⟩
  · have hmax : v ≤ VarInt.maximum := UInt32.le_iff_toNat_le.mpr hv
    refine ⟨VarInt.digits 4 v.toNat, ?_, FixedHeader.length_digits hmax, VarInt.isLeast_width hmax,
      fun type t valid reader rest => ?_⟩
    · rw [VarInt.write, if_neg (UInt32.not_lt.mpr hmax)]
    · have hfield : LengthField 4 (VarInt.digits 4 v.toNat) v.toNat :=
        LengthField.of_digits (by omega)
      exact (find?_eq_some_iff valid reader).mpr ⟨_, hfield, rfl, rfl⟩
  · exact fun other => find?_eq valid reader other
  · exact ((find?_eq_some_iff valid reader).mp hf).bounds
  · have hmax : VarInt.maximum < v := UInt32.lt_iff_toNat_lt.mpr hv
    rw [VarInt.write, if_pos hmax]
    exact ⟨rfl, rfl⟩

/-- Zero in four digits is found by every reader behind the type byte of a PUBLISH, and the next
value after the largest one is refused. -/
theorem lengths_agree_padded :
    TypeByte.ofByte 0x30 = .ok ⟨.publish, .publish .atMostOnce⟩ ∧
      (∀ reader : LengthReader, reader.find? 0x30 [0x80, 0x80, 0x80, 0, 0xff] = some ⟨0, 4, [0xff]⟩) ∧
      268435455 < (268435456 : UInt32).toNat ∧ (VarInt.write 268435456).bytes = [] := by
  have valid : TypeByte.ofByte 0x30 = .ok ⟨.publish, .publish .atMostOnce⟩ := rfl
  have hlarge : 268435455 < (268435456 : UInt32).toNat := by decide
  obtain ⟨-, hagree, hrefused⟩ := lengths_agree
  refine ⟨valid, fun reader => ?_, hlarge, (hrefused _ hlarge).1⟩
  rw [(hagree _ _ valid reader _).1 .integer]
  rfl

end LengthReader

end Mqtt
