import Mathlib.Algebra.Group.Nat.Defs
import Mqtt.Packet.Read

/-!
# Fields, read and written

For each field, the one statement that later proofs use: its reader succeeds exactly on what its
writer puts out, followed by anything, and hands back what follows. Sizes in 32 bits add up as
the bytes do.
-/
namespace Mqtt.Wire

section Results
variable {ε ε' α β : Type}

theorem bind_eq_ok_iff {x : Except ε α} {f : α → Except ε β} {b : β} :
    (x >>= f) = .ok b ↔ ∃ a, x = .ok a ∧ f a = .ok b := by
  cases x with
  | error e =>
    change Except.error e = .ok b ↔ _
    simp
  | ok a =>
    change f a = .ok b ↔ _
    simp

theorem mapError_ok (f : ε → ε') (a : α) : (Except.ok a).mapError f = .ok a :=
  rfl

theorem mapError_error (f : ε → ε') (e : ε) :
    (Except.error e : Except ε α).mapError f = .error (f e) :=
  rfl

theorem mapError_eq_ok_iff {x : Except ε α} {f : ε → ε'} {a : α} :
    x.mapError f = .ok a ↔ x = .ok a := by
  cases x with
  | ok b => rw [mapError_ok, Except.ok.injEq, Except.ok.injEq]
  | error e => simp [mapError_error]

theorem map_eq_ok_iff {x : Except ε α} {f : α → β} {b : β} :
    x.map f = .ok b ↔ ∃ a, x = .ok a ∧ f a = b := by
  cases x <;> simp [Except.map]

theorem leaving_ok (rest : Bytes) (a : α) :
    leaving rest (.ok a : Except ε α) = .ok (a, rest) :=
  rfl

theorem leaving_error (rest : Bytes) (e : ε) :
    leaving rest (.error e : Except ε α) = .error ⟨e, rest⟩ :=
  rfl

theorem leaving_eq_ok_iff {rest left : Bytes} {x : Except ε α} {a : α} :
    leaving rest x = .ok (a, left) ↔ x = .ok a ∧ left = rest := by
  cases x <;> simp [leaving, eq_comm]

theorem before_eq_ok_iff {more left : Bytes} {x : Except (Stop ε) (α × Bytes)} {a : α} :
    before more x = .ok (a, left) ↔ ∃ start, x = .ok (a, start) ∧ left = start ++ more := by
  rcases x with stop | ⟨b, start⟩ <;> simp [before, eq_comm, and_assoc]

end Results

/-- The lowest bit of a number, as flags are taken out of a byte. -/
theorem toNat_lowBit (n : Nat) : (n % 2 == 1).toNat = n % 2 := by
  rcases Nat.mod_two_eq_zero_or_one n with h | h <;> simp [h]

namespace Written

@[simp] theorem ok_inj {v w : Bytes} : Written.ok v = .ok w ↔ v = w := by
  simp [Written.ok]

@[simp] theorem refuse_ne_ok {f : Fault} {w : Bytes} : Written.refuse f ≠ .ok w := by
  simp [Written.refuse, Written.ok]

theorem append_eq_ok_iff {a b : Written} {w : Bytes} :
    a ++ b = .ok w ↔ ∃ x y, a = .ok x ∧ b = .ok y ∧ w = x ++ y := by
  obtain ⟨x, fx⟩ := a
  obtain ⟨y, fy⟩ := b
  change Written.append ⟨x, fx⟩ ⟨y, fy⟩ = _ ↔ _
  cases fx with
  | some f => simp [Written.append, Written.ok]
  | none =>
    constructor
    · intro h
      simp only [Written.append, Written.ok, Written.mk.injEq] at h
      obtain ⟨rfl, rfl⟩ := h
      exact ⟨x, y, rfl, rfl, rfl⟩
    · intro h
      obtain ⟨x', y', hx, hy, rfl⟩ := h
      simp only [Written.ok, Written.mk.injEq, and_true] at hx hy
      obtain ⟨rfl, rfl⟩ := And.intro hx hy.1
      simp [Written.append, Written.ok, hy.2]

/-- Two values that are written whole are written one after the other. -/
theorem append_ok {a b : Written} {v w : Bytes} (ha : a = .ok v) (hb : b = .ok w) :
    a ++ b = .ok (v ++ w) :=
  append_eq_ok_iff.mpr ⟨v, w, ha, hb, rfl⟩

protected theorem append_assoc (a b c : Written) : a ++ b ++ c = a ++ (b ++ c) := by
  obtain ⟨x, fx⟩ := a
  obtain ⟨y, fy⟩ := b
  change Written.append (Written.append ⟨x, fx⟩ ⟨y, fy⟩) c =
    Written.append ⟨x, fx⟩ (Written.append ⟨y, fy⟩ c)
  cases fx <;> cases fy <;> simp [Written.append]

end Written

theorem size32_append (v w : Bytes) : size32 (v ++ w) = size32 v + size32 w := by
  simp [size32]

theorem size32_eq_iff {w : Bytes} {n : UInt32} (h : w.length < 2 ^ 32) :
    size32 w = n ↔ w.length = n.toNat := by
  rw [← UInt32.toNat_inj]
  simp only [size32, Nat.toUInt32_eq, UInt32.toNat_ofNat', Nat.mod_eq_of_lt h]

theorem toNat_size32 (w : Bytes) : (size32 w).toNat = w.length % 2 ^ 32 := by
  simp [size32]

theorem readWord_eq_ok_iff {bs rest : Bytes} {n : UInt16} :
    readWord bs = .ok (n, rest) ↔ bs = word n ++ rest := by
  constructor
  · intro h
    match bs with
    | [] => simp [readWord] at h
    | [_] => simp [readWord] at h
    | hi :: lo :: tail =>
      have hhi := hi.toNat_lt
      have hlo := lo.toNat_lt
      simp only [readWord, Except.ok.injEq, Prod.mk.injEq] at h
      obtain ⟨rfl, rfl⟩ := h
      simp only [word, List.cons_append, List.nil_append, List.cons.injEq, and_true,
        ← UInt8.toNat_inj, UInt8.toNat_ofNat', UInt16.toNat_ofNat']
      omega
  · rintro rfl
    exact readWord_word n rest

theorem readByte_eq_ok_iff {bs rest : Bytes} {b : UInt8} :
    readByte bs = .ok (b, rest) ↔ bs = b :: rest := by
  cases bs <;> simp [readByte]

theorem readExact_eq_ok_iff {n : Nat} {bs data rest : Bytes} :
    readExact n bs = .ok (data, rest) ↔ data.length = n ∧ bs = data ++ rest := by
  constructor
  · intro h
    unfold readExact at h
    split at h
    · simp at h
    · simp only [Except.ok.injEq, Prod.mk.injEq] at h
      obtain ⟨rfl, rfl⟩ := h
      refine ⟨?_, (List.take_append_drop n bs).symm⟩
      rw [List.length_take]
      omega
  · intro h
    obtain ⟨rfl, rfl⟩ := h
    exact readExact_append data rest

theorem readPayload_eq_ok_iff {n : Nat} {bs data rest : Bytes} :
    readPayload n bs = .ok (data, rest) ↔ data.length = n ∧ bs = data ++ rest := by
  rw [← readExact_eq_ok_iff]
  unfold readPayload readExact
  split <;> simp

namespace Binary

theorem write_eq_ok_iff {data w : Bytes} :
    write data = .ok w ↔ data.length ≤ maxPrefixed ∧ w = word data.length.toUInt16 ++ data := by
  unfold write
  split
  · next h => simp [h, eq_comm]
  · next h => simp [h]

theorem read_eq_ok_iff {bs data rest : Bytes} :
    read bs = .ok (data, rest) ↔ ∃ w, write data = .ok w ∧ bs = w ++ rest := by
  simp only [read, bind_eq_ok_iff, Prod.exists, readWord_eq_ok_iff, readExact_eq_ok_iff,
    write_eq_ok_iff]
  constructor
  · intro h
    obtain ⟨n, tail, rfl, hn, rfl⟩ := h
    have := n.toNat_lt
    refine ⟨_, ⟨by simp only [maxPrefixed]; omega, rfl⟩, ?_⟩
    simp [hn]
  · intro h
    obtain ⟨w, ⟨hle, rfl⟩, rfl⟩ := h
    refine ⟨data.length.toUInt16, data ++ rest, by simp, ?_, rfl⟩
    simp only [maxPrefixed] at hle
    exact (Nat.mod_eq_of_lt (by omega)).symm

theorem length_write {data w : Bytes} (h : write data = .ok w) :
    w.length = 2 + data.length ∧ w.length ≤ 65537 := by
  obtain ⟨hle, rfl⟩ := write_eq_ok_iff.mp h
  simp only [maxPrefixed] at hle
  rw [List.length_append, length_word]
  omega

theorem size32_write {data w : Bytes} (h : write data = .ok w) : size32 w = width data := by
  obtain ⟨-, rfl⟩ := write_eq_ok_iff.mp h
  rw [size32_append]
  rfl

end Binary

namespace Text

theorem ofBytes_eq_ok_iff {data : Bytes} {s : String} : ofBytes data = .ok s ↔ data = toBytes s := by
  constructor
  · intro h
    unfold ofBytes at h
    split at h
    · next t ht =>
      simp only [Except.ok.injEq] at h
      subst h
      unfold String.fromUTF8? at ht
      split at ht
      · simp only [Option.some.injEq] at ht
        subst ht
        simp [toBytes, String.fromUTF8]
      · simp at ht
    · simp at h
  · rintro rfl
    exact ofBytes_toBytes s

theorem write_eq_binary (s : String) {w : Bytes} :
    write s = .ok w ↔ Binary.write (toBytes s) = .ok w := by
  rw [Binary.write_eq_ok_iff, length_toBytes]
  unfold write
  split
  · next h => simp [h, eq_comm]
  · next h => simp [h]

theorem read_eq_ok_iff {bs rest : Bytes} {s : String} :
    read bs = .ok (s, rest) ↔ ∃ w, write s = .ok w ∧ bs = w ++ rest := by
  simp only [read, bind_eq_ok_iff, Prod.exists, Binary.read_eq_ok_iff, write_eq_binary,
    leaving_eq_ok_iff, ofBytes_eq_ok_iff]
  constructor
  · intro h
    obtain ⟨_, _, h, rfl, rfl⟩ := h
    exact h
  · intro h
    exact ⟨_, _, h, rfl, rfl⟩

theorem length_write {s : String} {w : Bytes} (h : write s = .ok w) :
    w.length = 2 + s.utf8ByteSize ∧ w.length ≤ 65537 := by
  simpa using Binary.length_write ((write_eq_binary s).mp h)

theorem size32_write {s : String} {w : Bytes} (h : write s = .ok w) : size32 w = width s :=
  Binary.size32_write ((write_eq_binary s).mp h)

end Text

end Mqtt.Wire
