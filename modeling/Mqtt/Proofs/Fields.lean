import Mqtt.Proofs.Header

/-!
# Topics, qualities of service and flags, read and written

What the fields of a packet accept: a topic is read from the text it is written to, and a flag
byte of CONNECT is the byte of flags that belong together.
-/
namespace Mqtt
open Wire

namespace TopicName

theorem ofText?_eq_some_iff {s : String} {t : TopicName} : ofText? s = some t ↔ t.text = s := by
  constructor
  · intro h
    unfold ofText? at h
    split at h
    · simp only [Option.some.injEq] at h
      rw [← h]
    · simp at h
  · rintro rfl
    exact ofText?_text t

theorem read_eq_ok_iff {bs rest : Bytes} {t : TopicName} :
    read bs = .ok (t, rest) ↔ ∃ w, t.write = .ok w ∧ bs = w ++ rest := by
  rw [write, ← Text.read_eq_ok_iff]
  constructor
  · intro h
    unfold read at h
    split at h
    · simp at h
    · next s left hs =>
      split at h
      · next t' ht =>
        simp only [Except.ok.injEq, Prod.mk.injEq] at h
        obtain ⟨rfl, rfl⟩ := h
        rw [ofText?_eq_some_iff.mp ht]
        exact hs
      · simp at h
  · intro h
    rw [read, h]
    simp

theorem length_write {t : TopicName} {w : Bytes} (h : t.write = .ok w) : w.length ≤ 65537 :=
  (Text.length_write h).2

theorem size32_write {t : TopicName} {w : Bytes} (h : t.write = .ok w) : size32 w = t.width :=
  Text.size32_write h

end TopicName

namespace TopicFilter

theorem ofText?_eq_some_iff {s : String} {t : TopicFilter} : ofText? s = some t ↔ t.text = s := by
  constructor
  · intro h
    unfold ofText? at h
    split at h
    · simp only [Option.some.injEq] at h
      rw [← h]
    · simp at h
  · rintro rfl
    exact ofText?_text t

theorem read_eq_ok_iff {bs rest : Bytes} {t : TopicFilter} :
    read bs = .ok (t, rest) ↔ ∃ w, t.write = .ok w ∧ bs = w ++ rest := by
  rw [write, ← Text.read_eq_ok_iff]
  constructor
  · intro h
    unfold read at h
    split at h
    · simp at h
    · next s left hs =>
      split at h
      · next t' ht =>
        simp only [Except.ok.injEq, Prod.mk.injEq] at h
        obtain ⟨rfl, rfl⟩ := h
        rw [ofText?_eq_some_iff.mp ht]
        exact hs
      · simp at h
  · intro h
    rw [read, h]
    simp

theorem length_write {t : TopicFilter} {w : Bytes} (h : t.write = .ok w) : w.length ≤ 65537 :=
  (Text.length_write h).2

theorem size32_write {t : TopicFilter} {w : Bytes} (h : t.write = .ok w) : size32 w = t.width :=
  Text.size32_write h

/-- A size that is compared in 32 bits is the number of bytes. -/
theorem width_add_eq_iff {t : TopicFilter} {w : Bytes} {n size : UInt32} (h : t.write = .ok w)
    (hn : n.toNat ≤ 2) : t.width + n = size ↔ w.length + n.toNat = size.toNat := by
  have hlen := length_write h
  have hwidth : w.length = t.width.toNat := (size32_eq_iff (by omega)).mp (size32_write h)
  rw [← UInt32.toNat_inj, UInt32.toNat_add, ← hwidth, Nat.mod_eq_of_lt (by omega)]

end TopicFilter

theorem QoS.ofByte?_eq_some_iff {b : UInt8} {q : QoS} : ofByte? b = some q ↔ b = q.toByte := by
  constructor
  · intro h
    unfold ofByte? at h
    split at h
    · next hb => rw [hb, ← Option.some.inj h]; rfl
    split at h
    · next hb => rw [hb, ← Option.some.inj h]; rfl
    split at h
    · next hb => rw [hb, ← Option.some.inj h]; rfl
    · simp at h
  · rintro rfl
    exact ofByte?_toByte q

namespace ConnectFlags

/-- Flags that a CONNECT can carry: a will quality of service that exists, none of the will's
fields without the will, and no password without a user name. -/
structure Legal (f : ConnectFlags) : Prop where
  willQos : f.willQos ≤ 2
  will : f.will = false → f.willRetain = false ∧ f.willQos = 0
  password : f.password = true → f.username = true

/-- A byte is the sum of its flags; each of them is what its right neighbour leaves. -/
theorem sum_digits {n : Nat} (hn : n < 256) :
    128 * (n / 128 % 2) + 64 * (n / 64 % 2) + 32 * (n / 32 % 2) + 8 * (n / 8 % 4) +
      4 * (n / 4 % 2) + 2 * (n / 2 % 2) + n % 2 = n := by
  have h128 : n / 128 % 2 = n / 128 := by omega
  have h64 : 128 * (n / 128) + 64 * (n / 64 % 2) = 64 * (n / 64) := by omega
  have h32 : 64 * (n / 64) + 32 * (n / 32 % 2) = 32 * (n / 32) := by omega
  have h8 : 32 * (n / 32) + 8 * (n / 8 % 4) = 8 * (n / 8) := by omega
  have h4 : 8 * (n / 8) + 4 * (n / 4 % 2) = 4 * (n / 4) := by omega
  have h2 : 4 * (n / 4) + 2 * (n / 2 % 2) = 2 * (n / 2) := by omega
  rw [h128, h64, h32, h8, h4, h2, Nat.div_add_mod]

theorem toByte_ofBits {b : UInt8} (hb : b.toNat % 2 = 0) : (ofBits b).toByte = b := by
  have hlt := b.toNat_lt
  have hsum := sum_digits hlt
  have hqos : b.toNat / 8 % 4 % 2 ^ 8 % 4 = b.toNat / 8 % 4 := by omega
  rw [hb, Nat.add_zero] at hsum
  apply UInt8.toNat_inj.mp
  simp only [toByte, ofBits, toNat_lowBit, UInt8.toNat_ofNat', hqos, hsum]
  exact Nat.mod_eq_of_lt hlt

theorem toNat_toByte (f : ConnectFlags) :
    f.toByte.toNat = 128 * f.username.toNat + 64 * f.password.toNat + 32 * f.willRetain.toNat +
      8 * (f.willQos.toNat % 4) + 4 * f.will.toNat + 2 * f.cleanSession.toNat := by
  have h1 := Bool.toNat_lt f.username
  have h2 := Bool.toNat_lt f.password
  have h3 := Bool.toNat_lt f.willRetain
  have h4 := Bool.toNat_lt f.will
  have h5 := Bool.toNat_lt f.cleanSession
  simp only [toByte, UInt8.toNat_ofNat']
  omega

theorem ofBits_toByte {f : ConnectFlags} (hq : f.willQos ≤ 2) : ofBits f.toByte = f := by
  have hbit (n : Nat) (b : Bool) (h : n % 2 = b.toNat) : (n % 2 == 1) = b := by
    cases b <;> simp_all
  have h1 := Bool.toNat_lt f.username
  have h2 := Bool.toNat_lt f.password
  have h3 := Bool.toNat_lt f.willRetain
  have h4 := Bool.toNat_lt f.will
  have h5 := Bool.toNat_lt f.cleanSession
  have hq' : f.willQos.toNat ≤ 2 := UInt8.le_iff_toNat_le.mp hq
  have hn := toNat_toByte f
  obtain ⟨username, password, willRetain, willQos, will, cleanSession⟩ := f
  simp only [ofBits, mk.injEq]
  refine ⟨hbit _ _ ?_, hbit _ _ ?_, hbit _ _ ?_, UInt8.toNat_inj.mp ?_, hbit _ _ ?_, hbit _ _ ?_⟩ <;>
    simp only [UInt8.toNat_ofNat'] at * <;> omega

theorem ofByte_eq_ok_iff {b : UInt8} {f : ConnectFlags} :
    ofByte b = .ok f ↔ f.Legal ∧ b = f.toByte := by
  constructor
  · intro h
    simp only [ofByte] at h
    split at h
    · simp at h
    split at h
    · simp at h
    split at h
    · simp at h
    split at h
    · simp at h
    next hbit hqos hwill hpassword =>
      simp only [Except.ok.injEq] at h
      subst h
      refine ⟨⟨UInt8.not_lt.mp hqos, ?_, ?_⟩, (toByte_ofBits (by simpa using hbit)).symm⟩
      · intro hno
        simpa [hno] using hwill
      · intro hyes
        simpa [hyes] using hpassword
  · intro h
    obtain ⟨⟨hqos, hwill, hpassword⟩, rfl⟩ := h
    have hbit : ¬ (f.toByte.toNat % 2 == 1) = true := by
      have hbyte := toNat_toByte f
      rw [beq_iff_eq]
      omega
    simp only [ofByte]
    rw [if_neg hbit, ofBits_toByte hqos, if_neg (UInt8.not_lt.mpr hqos), if_neg, if_neg]
    · cases hp : f.password <;> simp_all
    · cases hw : f.will <;> simp_all

theorem read_eq_ok_iff {bs rest : Bytes} {f : ConnectFlags} :
    read bs = .ok (f, rest) ↔ f.Legal ∧ bs = f.toByte :: rest := by
  cases bs with
  | nil => simp [read]
  | cons b bs =>
    rw [read, leaving_eq_ok_iff, ofByte_eq_ok_iff, List.cons.injEq, and_assoc, eq_comm (a := rest)]

end ConnectFlags

theorem ConnackFlags.read_eq_ok_iff {bs rest : Bytes} {sessionPresent : Bool} :
    read bs = .ok (sessionPresent, rest) ↔ bs = toByte sessionPresent :: rest := by
  cases bs with
  | nil => simp [read]
  | cons b bs =>
    simp only [read, List.cons.injEq]
    constructor
    · intro h
      split at h
      · simp at h
      · next hb =>
        simp only [Except.ok.injEq, Prod.mk.injEq] at h
        obtain ⟨rfl, rfl⟩ := h
        have hle : b.toNat ≤ 1 := UInt8.le_iff_toNat_le.mp (UInt8.not_lt.mp hb)
        have hbit : b = 0 ∨ b = 1 := by
          rw [← UInt8.toNat_inj, ← UInt8.toNat_inj]
          change b.toNat = 0 ∨ b.toNat = 1
          omega
        rcases hbit with rfl | rfl <;> exact ⟨rfl, rfl⟩
    · intro h
      obtain ⟨rfl, rfl⟩ := h
      cases sessionPresent <;> rfl

theorem ConnectCode.ofByte?_eq_some_iff {b : UInt8} {code : ConnectCode} :
    ofByte? b = some code ↔ b = code.toByte := by
  constructor
  · intro h
    have hb := List.find?_some h
    exact (beq_iff_eq.mp hb).symm
  · rintro rfl
    exact ofByte?_toByte code

theorem ConnectCode.read_eq_ok_iff {bs rest : Bytes} {code : ConnectCode} :
    read bs = .ok (code, rest) ↔ bs = code.toByte :: rest := by
  cases bs with
  | nil => simp [read]
  | cons b bs =>
    have hcheck : check b = .ok code ↔ b = code.toByte := by
      rw [← ofByte?_eq_some_iff, check]
      split <;> simp_all
    rw [read, leaving_eq_ok_iff, hcheck, List.cons.injEq, eq_comm (a := rest)]

theorem SubscribeCode.ofByte?_eq_some_iff {b : UInt8} {code : SubscribeCode} :
    ofByte? b = some code ↔ b = code.toByte := by
  constructor
  · intro h
    unfold ofByte? at h
    split at h
    · next hb => rw [hb, ← Option.some.inj h]; rfl
    · obtain ⟨q, hq, rfl⟩ := Option.map_eq_some_iff.mp h
      exact QoS.ofByte?_eq_some_iff.mp hq
  · rintro rfl
    exact ofByte?_toByte code

end Mqtt
