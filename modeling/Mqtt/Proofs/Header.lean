import Mqtt.Proofs.Wire

/-!
# Fixed headers, read and written

The grammar of the length field, which all readers of a header share, and what each of them does
on it: `readLength` and `awaitLength` take exactly one field, `scanLength?` finds one at the
start of a buffer. A type byte is accepted when it is the byte of a legal type.
-/
namespace Mqtt
open Wire

/-- The digits of a length, at most `limit` of them, with the number they stand for. -/
inductive LengthField : Nat → Bytes → Nat → Prop
  | last {limit : Nat} {b : UInt8} (low : b < 128) : LengthField (limit + 1) [b] b.toNat
  | more {limit n : Nat} {b : UInt8} {digits : Bytes} (high : ¬ b < 128)
      (tail : LengthField limit digits n) :
      LengthField (limit + 1) (b :: digits) (b.toNat % 128 + 128 * n)

namespace LengthField

theorem length_pos {limit n : Nat} {digits : Bytes} (h : LengthField limit digits n) :
    0 < digits.length := by
  cases h <;> simp

theorem length_le {limit n : Nat} {digits : Bytes} (h : LengthField limit digits n) :
    digits.length ≤ limit := by
  induction h with
  | last => simp
  | more _ _ ih => simpa using ih

theorem value_lt {limit n : Nat} {digits : Bytes} (h : LengthField limit digits n) :
    n < 128 ^ limit := by
  induction h with
  | @last limit b low =>
    have hb : b.toNat < 128 := UInt8.lt_iff_toNat_lt.mp low
    have hp : 0 < 128 ^ limit := Nat.pow_pos (by decide)
    rw [Nat.pow_succ]
    omega
  | @more limit n b digits _ _ ih =>
    have hb : b.toNat % 128 < 128 := Nat.mod_lt _ (by decide)
    rw [Nat.pow_succ]
    omega

/-- A number that four digits hold is not cut to 32 bits. -/
theorem toNat_toUInt32 {n : Nat} {digits : Bytes} (h : LengthField 4 digits n) :
    n.toUInt32.toNat = n := by
  have hlt := h.value_lt
  rw [Nat.toUInt32_eq, UInt32.toNat_ofNat', Nat.mod_eq_of_lt (by omega)]

/-- A value of 32 bits is the number of a length field when it is that number cut to 32 bits. -/
theorem exists_toUInt32_iff {digits : Bytes} {v : UInt32} :
    (∃ n, LengthField 4 digits n ∧ v = n.toUInt32) ↔ LengthField 4 digits v.toNat := by
  constructor
  · rintro ⟨n, hfield, rfl⟩
    rwa [hfield.toNat_toUInt32]
  · intro hfield
    exact ⟨v.toNat, hfield, by simp⟩

/-- The digits that are written for a number are a length field of that number. -/
theorem of_digits {limit n : Nat} (hn : n < 128 ^ (limit + 1)) :
    LengthField (limit + 1) (VarInt.digits (limit + 1) n) n := by
  induction limit generalizing n with
  | zero =>
    have hlow : n < 128 := by simpa using hn
    have hb : (UInt8.ofNat n).toNat = n := Nat.mod_eq_of_lt (by omega)
    have low : UInt8.ofNat n < 128 := by
      rw [UInt8.lt_iff_toNat_lt, hb]
      exact hlow
    have h : LengthField 1 [UInt8.ofNat n] (UInt8.ofNat n).toNat := last low
    simpa [VarInt.digits, hlow, hb] using h
  | succ limit ih =>
    rw [VarInt.digits]
    split
    · next hlow =>
      have hb : (UInt8.ofNat n).toNat = n := Nat.mod_eq_of_lt (by omega)
      have low : UInt8.ofNat n < 128 := by
        rw [UInt8.lt_iff_toNat_lt, hb]
        exact hlow
      have h : LengthField (limit + 2) [UInt8.ofNat n] (UInt8.ofNat n).toNat := last low
      rwa [hb] at h
    · next hlow =>
      have hb : (UInt8.ofNat (n % 128 + 128)).toNat = n % 128 + 128 :=
        Nat.mod_eq_of_lt (by omega)
      have ht := ih (n := n / 128) (by rw [Nat.pow_succ] at hn; omega)
      have h := more (b := UInt8.ofNat (n % 128 + 128))
        (by rw [UInt8.lt_iff_toNat_lt, hb]; simp) ht
      have hn : (n % 128 + 128) % 128 + 128 * (n / 128) = n := by omega
      rwa [hb, hn] at h

/-- No more digits are written than the number needs. -/
theorem length_digits_le_iff {limit n k : Nat} (hn : n < 128 ^ (limit + 1)) :
    (VarInt.digits (limit + 1) n).length ≤ k + 1 ↔ n < 128 ^ (k + 1) := by
  induction limit generalizing n k with
  | zero =>
    have hlow : n < 128 := by simpa using hn
    have hk : 0 < 128 ^ k := Nat.pow_pos (by decide)
    simp only [VarInt.digits, hlow, if_true, List.length_singleton, Nat.pow_succ]
    omega
  | succ limit ih =>
    have hk : 0 < 128 ^ k := Nat.pow_pos (by decide)
    rw [VarInt.digits]
    split
    · next hlow =>
      simp only [List.length_singleton, Nat.pow_succ]
      omega
    · next hlow =>
      have hdiv : n / 128 < 128 ^ (limit + 1) := by
        rw [Nat.pow_succ] at hn
        omega
      have hpos := (of_digits hdiv).length_pos
      rw [List.length_cons]
      cases k with
      | zero => omega
      | succ k =>
        have hi := ih (k := k) hdiv
        rw [Nat.pow_succ 128 (k + 1)]
        omega

/-- The number of a length field is the value of its digits. -/
theorem foldr_digits {limit n : Nat} {digits : Bytes} (h : LengthField limit digits n) :
    digits.foldr (fun b n => b.toNat % 128 + 128 * n) 0 = n := by
  induction h with
  | last low =>
    have hb := UInt8.lt_iff_toNat_lt.mp low
    simpa using Nat.mod_eq_of_lt hb
  | more _ _ ih => rw [List.foldr_cons, ih]

/-- In front of anything, the digits with the top bit set are all but the last one. -/
theorem length_takeWhile {limit n : Nat} {digits : Bytes} (rest : Bytes)
    (h : LengthField limit digits n) :
    (((digits ++ rest).take limit).takeWhile fun b => 128 ≤ b).length + 1 = digits.length := by
  induction h with
  | @last limit b low =>
    have hb : ¬ 128 ≤ b := UInt8.not_le.mpr low
    simp [hb]
  | @more limit n b digits high _ ih =>
    have hb : 128 ≤ b := UInt8.not_lt.mp high
    simpa [List.takeWhile_cons, hb] using ih

/-- A digit without the top bit among the first `limit` bytes ends a length field. -/
theorem of_takeWhile {limit : Nat} {bs : Bytes}
    (h : ((bs.take limit).takeWhile fun b => 128 ≤ b).length < (bs.take limit).length) :
    ∃ digits n rest, LengthField limit digits n ∧ bs = digits ++ rest := by
  induction limit generalizing bs with
  | zero => simp at h
  | succ limit ih =>
    cases bs with
    | nil => simp at h
    | cons b bs =>
      by_cases low : b < 128
      · exact ⟨[b], _, bs, .last low, rfl⟩
      · have hb : 128 ≤ b := UInt8.not_lt.mp low
        have htail : ((bs.take limit).takeWhile fun b => 128 ≤ b).length < (bs.take limit).length := by
          simpa [List.takeWhile_cons, hb] using h
        obtain ⟨digits, n, rest, hd, rfl⟩ := ih htail
        exact ⟨b :: digits, _, rest, .more low hd, rfl⟩

end LengthField

theorem Kind.ofCode?_eq_some_iff {n : Nat} {kind : Kind} : ofCode? n = some kind ↔ kind.code = n := by
  constructor
  · intro h
    simpa using List.find?_some h
  · rintro rfl
    exact ofCode?_code kind

namespace Flags

theorem toNat_lt (f : Flags) : f.toNat < 16 := by
  have hd := Bool.toNat_lt f.dup
  have hr := Bool.toNat_lt f.retain
  simp only [toNat]
  omega

theorem toNat_ofByte (b : UInt8) : (ofByte b).toNat = b.toNat % 16 := by
  simp only [toNat, ofByte, toNat_lowBit]
  omega

theorem ofByte_ofNat (f : Flags) : ofByte (UInt8.ofNat f.toNat) = f := by
  obtain ⟨dup, qos, retain⟩ := f
  have hq := qos.isLt
  simp only [ofByte, toNat, mk.injEq, Fin.ext_iff]
  cases dup <;> cases retain <;> simp <;> omega

end Flags

namespace TypeByte

/-- The flags of a PUBLISH name a quality of service, and one that is never repeated is no
repetition; those of every other type are fixed. -/
def Legal (t : TypeByte) : Prop :=
  match t.kind with
  | .publish => t.flags.qos.val ≤ 2 ∧ (t.flags.dup = true → t.flags.qos.val ≠ 0)
  | kind => t.flags = .standard kind

theorem toNat_toByte (t : TypeByte) : t.toByte.toNat = 16 * t.kind.code + t.flags.toNat := by
  have hk := t.kind.code_lt
  have hf := t.flags.toNat_lt
  simp only [toByte, UInt8.toNat_ofNat']
  omega

theorem allowed_iff (kind : Kind) (b : UInt8) (hb : b.toNat < 16) :
    allowed kind b = true ↔ Legal ⟨kind, .ofByte b⟩ := by
  have hfixed (f : Flags) : (f.toNat == b.toNat) = true ↔ Flags.ofByte b = f := by
    have hof := Flags.toNat_ofByte b
    rw [Nat.mod_eq_of_lt hb] at hof
    rw [beq_iff_eq, ← hof]
    constructor
    · intro h
      rw [← Flags.ofByte_ofNat f, h, Flags.ofByte_ofNat]
    · rintro rfl
      rfl
  have hpublish : allowed .publish b = true ↔ Legal ⟨.publish, .ofByte b⟩ := by
    simp only [allowed, Legal]
    cases (Flags.ofByte b).dup <;> simp
  cases kind <;> first | exact hpublish | exact hfixed _

/-- A byte is accepted when it is the byte of a legal type. -/
theorem ofByte_eq_ok_iff {b : UInt8} {t : TypeByte} : ofByte b = .ok t ↔ t.Legal ∧ b = t.toByte := by
  have hlow : (b % 16).toNat = b.toNat % 16 := by simp
  constructor
  · intro h
    unfold ofByte at h
    split at h
    · simp at h
    · next kind hkind =>
      unfold ofFlags at h
      split at h
      · next hallowed =>
        simp only [Except.ok.injEq] at h
        subst h
        refine ⟨(allowed_iff kind _ (by omega)).mp hallowed, UInt8.toNat_inj.mp ?_⟩
        rw [toNat_toByte, Kind.ofCode?_eq_some_iff.mp hkind, Flags.toNat_ofByte, hlow]
        omega
      · simp at h
  · intro h
    obtain ⟨legal, rfl⟩ := h
    have hbyte := toNat_toByte t
    have hf := t.flags.toNat_lt
    have hcode : t.toByte.toNat / 16 = t.kind.code := by omega
    have hflags : Flags.ofByte (t.toByte % 16) = t.flags := by
      rw [← Flags.ofByte_ofNat t.flags]
      congr 1
      apply UInt8.toNat_inj.mp
      rw [hlow, UInt8.toNat_ofNat']
      omega
    have hallowed : allowed t.kind (t.toByte % 16) = true := by
      rw [allowed_iff t.kind _ (by omega), hflags]
      exact legal
    rw [ofByte, hcode, Kind.ofCode?_code]
    simp [ofFlags, hallowed, hflags]

end TypeByte

namespace FixedHeader

/-- The synchronous reader takes exactly one length field. -/
theorem readLength_eq_ok_iff {limit n : Nat} {bs rest : Bytes} :
    readLength limit bs = .ok (n, rest) ↔ ∃ digits, LengthField limit digits n ∧ bs = digits ++ rest := by
  constructor
  · intro h
    induction limit generalizing bs n with
    | zero => cases bs <;> simp [readLength] at h
    | succ limit ih =>
      cases bs with
      | nil => simp [readLength] at h
      | cons b bs =>
        rw [readLength] at h
        split at h
        · next low =>
          simp only [Except.ok.injEq, Prod.mk.injEq] at h
          obtain ⟨rfl, rfl⟩ := h
          exact ⟨[b], .last low, rfl⟩
        · next high =>
          simp only [bind_eq_ok_iff, Prod.exists, Except.ok.injEq, Prod.mk.injEq] at h
          obtain ⟨m, _, hm, rfl, rfl⟩ := h
          obtain ⟨digits, htail, rfl⟩ := ih hm
          exact ⟨b :: digits, .more high htail, rfl⟩
  · intro h
    obtain ⟨digits, h, rfl⟩ := h
    induction h with
    | last low => simp [readLength, low]
    | more high _ ih =>
      rw [List.cons_append, readLength, if_neg high, ih]
      rfl

/-- The awaiting reader takes exactly one length field too: its `index` counts the digits seen,
each of them worth a power of 128. -/
theorem awaitLength_append {limit index sum n : Nat} {digits : Bytes} (rest : Bytes)
    (h : LengthField limit digits n) (hi : index + limit = 4) :
    awaitLength index sum (digits ++ rest) = .ok (sum + n * 128 ^ index, rest) := by
  induction h generalizing index sum with
  | @last limit b low =>
    have hb : b.toNat % 128 = b.toNat := Nat.mod_eq_of_lt (UInt8.lt_iff_toNat_lt.mp low)
    rw [List.cons_append, awaitLength, if_neg (by omega), if_pos low, hb]
    rfl
  | @more limit n b digits high _ ih =>
    rw [List.cons_append, awaitLength, if_neg (by omega)]
    simp only [if_neg high]
    rw [ih (by omega)]
    congr 2
    rw [Nat.pow_succ, Nat.add_mul, Nat.add_assoc]
    congr 2
    rw [Nat.mul_comm 128 n, Nat.mul_assoc, Nat.mul_comm 128]

/-- The scanner finds the length field at the start of a buffer. -/
theorem scanLength?_append {n : Nat} {digits : Bytes} (rest : Bytes) (h : LengthField 4 digits n) :
    scanLength? (digits ++ rest) = some (.ok (n, digits.length)) := by
  have hlead := h.length_takeWhile rest
  have hlen := h.length_le
  have hsize : ((digits ++ rest).take 4).take digits.length = digits := by
    rw [List.take_take, Nat.min_eq_left hlen, List.take_left]
  have hlt : digits.length ≤ ((digits ++ rest).take 4).length := by
    rw [List.length_take, List.length_append]
    omega
  simp only [scanLength?]
  rw [if_pos (by omega), hlead, hsize, h.foldr_digits]

/-- The scanner answers with a length exactly when a length field starts the buffer. -/
theorem scanLength?_eq_ok_iff {bs : Bytes} {n used : Nat} :
    scanLength? bs = some (.ok (n, used)) ↔
      ∃ digits rest, LengthField 4 digits n ∧ bs = digits ++ rest ∧ used = digits.length := by
  constructor
  · intro h
    by_cases hlt : ((bs.take 4).takeWhile fun b => 128 ≤ b).length < (bs.take 4).length
    · obtain ⟨digits, m, rest, hd, rfl⟩ := LengthField.of_takeWhile hlt
      rw [scanLength?_append _ hd] at h
      simp only [Option.some.injEq, Except.ok.injEq, Prod.mk.injEq] at h
      obtain ⟨rfl, rfl⟩ := h
      exact ⟨digits, rest, hd, rfl, rfl⟩
    · simp only [scanLength?] at h
      rw [if_neg hlt] at h
      split at h <;> simp at h
  · intro h
    obtain ⟨digits, rest, hd, rfl, rfl⟩ := h
    exact scanLength?_append rest hd

/-- What the scanner has found it still finds when the buffer has grown. -/
theorem scanLength?_grow {bs : Bytes} {r : Except HeaderError (Nat × Nat)} (more : Bytes)
    (h : scanLength? bs = some r) : scanLength? (bs ++ more) = some r := by
  cases r with
  | ok found =>
    obtain ⟨digits, rest, hd, rfl, hused⟩ := scanLength?_eq_ok_iff.mp h
    exact scanLength?_eq_ok_iff.mpr ⟨digits, rest ++ more, hd, List.append_assoc .., hused⟩
  | error e =>
    simp only [scanLength?] at h
    split at h
    · simp at h
    · next hlt =>
      split at h
      · simp at h
      · next hlong =>
        have htake : (bs ++ more).take 4 = bs.take 4 := List.take_append_of_le_length (by omega)
        simp only [scanLength?, htake]
        rw [if_neg hlt, if_neg (by rw [List.length_append]; omega), h]

theorem scan?_grow {bs : Bytes} {r : Except HeaderError (StreamType × UInt32 × Nat)} (more : Bytes)
    (h : scan? bs = some r) : scan? (bs ++ more) = some r := by
  cases bs with
  | nil => simp [scan?] at h
  | cons type bs =>
    cases hlen : scanLength? bs with
    | none => simp [scan?, hlen] at h
    | some found =>
      rw [scan?, hlen] at h
      rw [List.cons_append, scan?, scanLength?_grow more hlen]
      exact h

/-- A header takes at least two bytes of the buffer, and no more than are there. -/
theorem scan?_used {bs : Bytes} {type : StreamType} {n : UInt32} {used : Nat}
    (h : scan? bs = some (.ok (type, n, used))) : 2 ≤ used ∧ used ≤ bs.length := by
  cases bs with
  | nil => simp [scan?] at h
  | cons b bs =>
    cases hlen : scanLength? bs with
    | none => simp [scan?, hlen] at h
    | some found =>
      cases found with
      | error e => simp [scan?, hlen] at h
      | ok found =>
        obtain ⟨digits, rest, hd, rfl, hused⟩ := scanLength?_eq_ok_iff.mp hlen
        have hpos := hd.length_pos
        simp only [scan?, hlen] at h
        have hsize : used = found.2 + 1 := by
          split at h <;> simp_all
        simp only [List.length_cons, List.length_append]
        omega

theorem ofParts_eq_ok_iff {type : UInt8} {remaining : UInt32} {h : FixedHeader} :
    ofParts type remaining = .ok h ↔ h.type.Legal ∧ type = h.type.toByte ∧ remaining = h.remaining := by
  obtain ⟨t, n⟩ := h
  simp only [ofParts]
  cases ht : TypeByte.ofByte type with
  | error e =>
    have hno : ¬ (t.Legal ∧ type = t.toByte) := by
      rw [← TypeByte.ofByte_eq_ok_iff, ht]
      simp
    constructor
    · intro h
      cases e <;> simp at h
    · intro h'
      obtain ⟨legal, htype, -⟩ := h'
      exact absurd ⟨legal, htype⟩ hno
  | ok t' =>
    have hyes := TypeByte.ofByte_eq_ok_iff.mp ht
    have hsame : t' = t ↔ t.Legal ∧ type = t.toByte := by
      rw [← TypeByte.ofByte_eq_ok_iff, ht, Except.ok.injEq]
    simp [hsame, and_assoc]

theorem readParts_eq_ok_iff {bs rest : Bytes} {type : UInt8} {remaining : UInt32} :
    readParts bs = .ok ((type, remaining), rest) ↔
      ∃ digits, LengthField 4 digits remaining.toNat ∧ bs = type :: (digits ++ rest) := by
  cases bs with
  | nil => simp [readParts]
  | cons b bs =>
    simp only [readParts, bind_eq_ok_iff, Prod.exists, readLength_eq_ok_iff, Except.ok.injEq,
      Prod.mk.injEq, List.cons.injEq]
    constructor
    · intro h
      obtain ⟨n, _, ⟨digits, hd, rfl⟩, ⟨rfl, rfl⟩, rfl⟩ := h
      exact ⟨digits, by rwa [hd.toNat_toUInt32], rfl, rfl⟩
    · intro h
      obtain ⟨digits, hd, rfl, rfl⟩ := h
      exact ⟨_, _, ⟨digits, hd, rfl⟩, ⟨rfl, by simp⟩, rfl⟩

/-- A header is read from the byte of a legal type and a length field. -/
theorem read_eq_ok_iff {bs rest : Bytes} {h : FixedHeader} :
    read bs = .ok (h, rest) ↔ h.type.Legal ∧
      ∃ digits, LengthField 4 digits h.remaining.toNat ∧ bs = h.type.toByte :: (digits ++ rest) := by
  simp only [read, bind_eq_ok_iff, Prod.exists, readParts_eq_ok_iff, leaving_eq_ok_iff,
    ofParts_eq_ok_iff]
  constructor
  · intro h'
    obtain ⟨_, _, _, ⟨digits, hd, rfl⟩, ⟨legal, rfl, rfl⟩, rfl⟩ := h'
    exact ⟨legal, digits, hd, rfl⟩
  · intro h'
    obtain ⟨legal, digits, hd, rfl⟩ := h'
    exact ⟨_, _, _, ⟨digits, hd, rfl⟩, ⟨legal, rfl, rfl⟩, rfl⟩

theorem write_eq_ok_iff {h : FixedHeader} {w : Bytes} :
    h.write = .ok w ↔
      h.remaining ≤ VarInt.maximum ∧ w = h.type.toByte :: VarInt.digits 4 h.remaining.toNat := by
  rw [write, Written.append_eq_ok_iff, VarInt.write]
  split
  · next hbig =>
    have hle : ¬ h.remaining ≤ VarInt.maximum := UInt32.not_le.mpr hbig
    simp [hle]
  · next hbig =>
    have hle : h.remaining ≤ VarInt.maximum := UInt32.not_lt.mp hbig
    simp [hle]

theorem length_digits {n : UInt32} (hn : n ≤ VarInt.maximum) :
    (VarInt.digits 4 n.toNat).length = (VarInt.width n).toNat := by
  have hmax : n.toNat ≤ 268435455 := UInt32.le_iff_toNat_le.mp hn
  have hlen (k : Nat) : (VarInt.digits 4 n.toNat).length ≤ k + 1 ↔ n.toNat < 128 ^ (k + 1) :=
    LengthField.length_digits_le_iff (by omega)
  have hpos : 0 < (VarInt.digits 4 n.toNat).length :=
    (LengthField.of_digits (by omega)).length_pos
  have h1 := hlen 0
  have h2 := hlen 1
  have h3 := hlen 2
  have h4 := hlen 3
  simp only [VarInt.width, UInt32.le_iff_toNat_le]
  have e4 : UInt32.toNat 2097152 = 2097152 := rfl
  have e3 : UInt32.toNat 16384 = 16384 := rfl
  have e2 : UInt32.toNat 128 = 128 := rfl
  split
  · change _ = 4
    omega
  split
  · change _ = 3
    omega
  split
  · change _ = 2
    omega
  · change _ = 1
    omega

theorem size32_write {h : FixedHeader} {w : Bytes} (hw : h.write = .ok w) : size32 w = h.width := by
  obtain ⟨hle, rfl⟩ := write_eq_ok_iff.mp hw
  apply UInt32.toNat_inj.mp
  rw [toNat_size32, List.length_cons, length_digits hle, width, UInt32.toNat_add, Nat.add_comm]
  rfl

end FixedHeader

end Mqtt
