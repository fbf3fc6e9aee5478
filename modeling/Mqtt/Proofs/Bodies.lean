import Mqtt.Proofs.Fields

/-!
# Bodies, read and written

Under a header of its own type a body is read from exactly the bytes it is written to, and from
as many of them as the header declares. Only CONNECT does not look at the declared size.
-/
namespace Mqtt
open Wire

/-- A field that is not there takes no bytes, and one that is there as many as its width. -/
theorem size32_writeOption {α : Type} {write : α → Written} {width : α → UInt32}
    (hwrite : ∀ a w, write a = .ok w → size32 w = width a) {o : Option α} {w : Bytes}
    (h : writeOption write o = .ok w) : size32 w = widthOption width o := by
  cases o with
  | none =>
    simp only [writeOption, Written.ok_inj] at h
    subst h
    rfl
  | some a => exact hwrite a w h

theorem length_writeOption {α : Type} {write : α → Written} {n : Nat}
    (hwrite : ∀ a w, write a = .ok w → w.length ≤ n) {o : Option α} {w : Bytes}
    (h : writeOption write o = .ok w) : w.length ≤ n := by
  cases o with
  | none =>
    simp only [writeOption, Written.ok_inj] at h
    subst h
    simp
  | some a => exact hwrite a w h

/-- An announced field is read with its own reader; one that is not announced takes no bytes. -/
theorem readIf_eq_ok_iff {ε α : Type} {read : Bytes → Except (Stop ε) (α × Bytes)} {write : α → Written}
    {P : α → Prop}
    (hread : ∀ bs a rest, read bs = .ok (a, rest) ↔ P a ∧ ∃ w, write a = .ok w ∧ bs = w ++ rest)
    {present : Bool} {bs rest : Bytes} {o : Option α} :
    readIf present read bs = .ok (o, rest) ↔
      o.isSome = present ∧ (∀ a, o = some a → P a) ∧ ∃ w, writeOption write o = .ok w ∧ bs = w ++ rest := by
  unfold readIf
  cases present with
  | false =>
    cases o with
    | none => simp [writeOption]
    | some a => simp
  | true =>
    simp only [if_true, map_eq_ok_iff, Prod.exists, Prod.mk.injEq]
    constructor
    · intro h
      obtain ⟨a, _, h, rfl, rfl⟩ := h
      obtain ⟨hP, hw⟩ := (hread _ _ _).mp h
      exact ⟨rfl, fun a' ha' => Option.some.inj ha' ▸ hP, hw⟩
    · intro h
      obtain ⟨hsome, hP, hw⟩ := h
      obtain ⟨a, rfl⟩ := Option.isSome_iff_exists.mp hsome
      exact ⟨a, rest, (hread _ _ _).mpr ⟨hP a rfl, hw⟩, rfl, rfl⟩

theorem Protocol.readLevel_eq_ok_iff {bs rest : Bytes} {u : Unit} :
    readLevel bs = .ok (u, rest) ↔ bs = level :: rest := by
  cases bs with
  | nil => simp [readLevel]
  | cons b bs =>
    rw [readLevel, checkLevel, leaving_eq_ok_iff, List.cons.injEq, eq_comm (a := rest)]
    split <;> simp_all

namespace Connect

theorem readWill_eq_ok_iff {flags : ConnectFlags} {bs rest : Bytes} {will : Will} :
    readWill flags bs = .ok (will, rest) ↔
      (flags.willQos = will.qos.toByte ∧ flags.willRetain = will.retain) ∧
        ∃ w, will.write = .ok w ∧ bs = w ++ rest := by
  simp only [readWill, bind_eq_ok_iff, mapError_eq_ok_iff, Prod.exists, TopicName.read_eq_ok_iff,
    Binary.read_eq_ok_iff, Will.write, Written.append_eq_ok_iff]
  constructor
  · intro h
    obtain ⟨topic, _, ⟨wt, ht, rfl⟩, message, left, ⟨wm, hm, rfl⟩, h⟩ := h
    split at h
    · next qos hq =>
      simp only [Except.ok.injEq, Prod.mk.injEq] at h
      obtain ⟨rfl, rfl⟩ := h
      refine ⟨⟨QoS.ofByte?_eq_some_iff.mp hq, rfl⟩, _, ⟨wt, wm, ht, hm, rfl⟩, ?_⟩
      rw [List.append_assoc]
    · simp at h
  · intro h
    obtain ⟨⟨hqos, hretain⟩, _, ⟨wt, wm, ht, hm, rfl⟩, rfl⟩ := h
    refine ⟨_, wm ++ rest, ⟨wt, ht, List.append_assoc ..⟩, _, rest, ⟨wm, hm, rfl⟩, ?_⟩
    rw [hqos, QoS.ofByte?_toByte, hretain]

/-- The fields behind the keep-alive period. -/
def writePayload (c : Connect) : Written :=
  Text.write c.clientId ++ (writeOption Will.write c.will ++
    (writeOption Text.write c.username ++ writeOption Binary.write c.password))

/-- What the flag byte must say about the fields of a packet for them to be read. -/
structure Announced (c : Connect) (f : ConnectFlags) : Prop where
  cleanSession : f.cleanSession = c.cleanSession
  will : c.will.isSome = f.will
  willFields : ∀ will, c.will = some will → f.willQos = will.qos.toByte ∧ f.willRetain = will.retain
  username : c.username.isSome = f.username
  password : c.password.isSome = f.password

theorem readPayload_eq_ok_iff {flags : ConnectFlags} {keepAlive : UInt16} {bs rest : Bytes}
    {c : Connect} :
    readPayload flags keepAlive bs = .ok (c, rest) ↔
      c.keepAlive = keepAlive ∧ c.Announced flags ∧
        ∃ w, c.writePayload = .ok w ∧ bs = w ++ rest := by
  have htext (bs : Bytes) (s : String) (rest : Bytes) :
      (Text.read bs).mapError (Stop.map PayloadError.wire) = .ok (s, rest) ↔
        True ∧ ∃ w, Text.write s = .ok w ∧ bs = w ++ rest := by
    rw [mapError_eq_ok_iff, Text.read_eq_ok_iff, true_and]
  have hbinary (bs : Bytes) (d : Bytes) (rest : Bytes) :
      (Binary.read bs).mapError (Stop.map PayloadError.wire) = .ok (d, rest) ↔
        True ∧ ∃ w, Binary.write d = .ok w ∧ bs = w ++ rest := by
    rw [mapError_eq_ok_iff, Binary.read_eq_ok_iff, true_and]
  have hwill (bs : Bytes) (will : Will) (rest : Bytes) :
      readWill flags bs = .ok (will, rest) ↔
        (flags.willQos = will.qos.toByte ∧ flags.willRetain = will.retain) ∧
          ∃ w, will.write = .ok w ∧ bs = w ++ rest :=
    readWill_eq_ok_iff
  simp only [readPayload, bind_eq_ok_iff, Prod.exists, readIf_eq_ok_iff hwill,
    readIf_eq_ok_iff htext, readIf_eq_ok_iff hbinary, mapError_eq_ok_iff, Text.read_eq_ok_iff,
    writePayload, Written.append_eq_ok_iff, Except.ok.injEq, Prod.mk.injEq]
  constructor
  · intro h
    obtain ⟨_, _, ⟨wi, hi, rfl⟩, _, _, ⟨h1, h2, ww, hw, rfl⟩, _, _, ⟨h3, -, wu, hu, rfl⟩, _, _,
      ⟨h4, -, wp, hp, rfl⟩, rfl, rfl⟩ := h
    refine ⟨rfl, ⟨rfl, h1, h2, h3, h4⟩, _, ⟨wi, _, hi, ⟨ww, _, hw, ⟨wu, wp, hu, hp, rfl⟩, rfl⟩, rfl⟩, ?_⟩
    simp only [List.append_assoc]
  · intro h
    obtain ⟨rfl, ⟨hclean, h1, h2, h3, h4⟩, _,
      ⟨wi, _, hi, ⟨ww, _, hw, ⟨wu, wp, hu, hp, rfl⟩, rfl⟩, rfl⟩, rfl⟩ := h
    refine ⟨_, _, ⟨wi, hi, by rw [List.append_assoc]⟩, _, _, ⟨h1, h2, ww, hw, by rw [List.append_assoc]⟩,
      _, _, ⟨h3, fun _ _ => trivial, wu, hu, by rw [List.append_assoc]⟩, _, rest,
      ⟨h4, fun _ _ => trivial, wp, hp, rfl⟩, ?_, rfl⟩
    rw [hclean]

theorem write_eq (c : Connect) :
    c.write = Text.write Protocol.name ++ (Written.ok [Protocol.level, c.flags.toByte] ++
      (Written.ok (word c.keepAlive) ++ c.writePayload)) := by
  simp only [write, writePayload, Written.append_assoc]

theorem flags_legal {c : Connect} (h : c.password.isSome = true → c.username.isSome = true) :
    c.flags.Legal := by
  refine ⟨?_, ?_, h⟩
  · cases hw : c.will with
    | none => simp [flags, hw]
    | some will =>
      simp only [flags, hw]
      cases will.qos <;> decide
  · cases hw : c.will <;> simp [flags, hw]

/-- Legal flags that announce the fields of a packet are the flags it is written with. -/
theorem Announced.eq_flags {c : Connect} {f : ConnectFlags} (h : c.Announced f) (legal : f.Legal) :
    f = c.flags := by
  obtain ⟨username, password, willRetain, willQos, will, cleanSession⟩ := f
  obtain ⟨hclean, hwill, hfields, huser, hpass⟩ := h
  simp only at hclean hwill hfields huser hpass
  cases hw : c.will with
  | none =>
    have hno := legal.will (by simpa [hw] using hwill.symm)
    simp_all [flags]
  | some w =>
    have hyes := hfields w hw
    simp_all [flags]

theorem announced_flags (c : Connect) : c.Announced c.flags := by
  refine ⟨rfl, rfl, ?_, rfl, rfl⟩
  intro will hw
  simp [flags, hw]

/-- CONNECT is read from what it is written to, and a password never comes without a user name. -/
theorem read_eq_ok_iff {bs rest : Bytes} {c : Connect} :
    read bs = .ok (c, rest) ↔ (c.password.isSome = true → c.username.isSome = true) ∧
      ∃ w, c.write = .ok w ∧ bs = w ++ rest := by
  rw [write_eq]
  constructor
  · intro h
    simp only [read, bind_eq_ok_iff, Prod.exists, mapError_eq_ok_iff, Text.read_eq_ok_iff] at h
    obtain ⟨name, _, ⟨wn, hn, rfl⟩, h⟩ := h
    split at h
    · simp [bind_eq_ok_iff] at h
    · next hname =>
      rw [Decidable.not_not] at hname
      subst hname
      simp only [bind_eq_ok_iff, Prod.exists, mapError_eq_ok_iff, Protocol.readLevel_eq_ok_iff,
        ConnectFlags.read_eq_ok_iff, readWord_eq_ok_iff, readPayload_eq_ok_iff] at h
      obtain ⟨_, _, rfl, f, _, ⟨legal, rfl⟩, _, _, rfl, rfl, hann, wp, hp, rfl⟩ := h
      refine ⟨fun hpass => ?_, ?_⟩
      · rw [hann.username]
        exact legal.password (hann.password ▸ hpass)
      · rw [hann.eq_flags legal]
        refine ⟨wn ++ ([Protocol.level, c.flags.toByte] ++ (word c.keepAlive ++ wp)), ?_, ?_⟩
        · simp only [Written.append_eq_ok_iff]
          exact ⟨wn, _, hn, ⟨_, _, rfl, ⟨_, wp, rfl, hp, rfl⟩, rfl⟩, rfl⟩
        · simp
  · intro h
    obtain ⟨hpass, w, hw, rfl⟩ := h
    simp only [Written.append_eq_ok_iff] at hw
    obtain ⟨wn, _, hn, ⟨_, _, hl, ⟨_, wp, hk, hp, rfl⟩, rfl⟩, rfl⟩ := hw
    rw [Written.ok_inj] at hl hk
    subst hl hk
    simp only [read, bind_eq_ok_iff, Prod.exists, mapError_eq_ok_iff, Text.read_eq_ok_iff]
    refine ⟨Protocol.name, _, ⟨wn, hn, List.append_assoc ..⟩, ?_⟩
    rw [if_neg (by simp)]
    simp only [bind_eq_ok_iff, Prod.exists, mapError_eq_ok_iff, Protocol.readLevel_eq_ok_iff,
      ConnectFlags.read_eq_ok_iff, readWord_eq_ok_iff, readPayload_eq_ok_iff]
    exact ⟨(), _, rfl, c.flags, _, ⟨flags_legal hpass, rfl⟩, c.keepAlive, wp ++ rest, by simp,
      rfl, announced_flags c, wp, hp, rfl⟩

theorem fields_of_write {c : Connect} {w : Bytes} (h : c.write = .ok w) :
    ∃ wn wi ww wu wp, Text.write Protocol.name = .ok wn ∧ Text.write c.clientId = .ok wi ∧
      writeOption Will.write c.will = .ok ww ∧ writeOption Text.write c.username = .ok wu ∧
      writeOption Binary.write c.password = .ok wp ∧
      w = wn ++ ([Protocol.level, c.flags.toByte] ++
        (word c.keepAlive ++ (wi ++ (ww ++ (wu ++ wp))))) := by
  simp only [write_eq, writePayload, Written.append_eq_ok_iff, Written.ok_inj] at h
  obtain ⟨wn, _, hn, ⟨_, _, rfl, ⟨_, _, rfl, ⟨wi, _, hi, ⟨ww, _, hw, ⟨wu, wp, hu, hp, rfl⟩, rfl⟩, rfl⟩,
    rfl⟩, rfl⟩, rfl⟩ := h
  exact ⟨wn, wi, ww, wu, wp, hn, hi, hw, hu, hp, rfl⟩

/-- A will is at most two prefixed fields long. -/
theorem length_writeWill {will : Will} {w : Bytes} (h : will.write = .ok w) : w.length ≤ 131074 := by
  obtain ⟨wt, wm, ht, hm, rfl⟩ := Written.append_eq_ok_iff.mp h
  have h1 := TopicName.length_write ht
  have h2 := (Binary.length_write hm).2
  rw [List.length_append]
  omega

theorem size32_writeWill {will : Will} {w : Bytes} (h : will.write = .ok w) :
    size32 w = will.width := by
  obtain ⟨wt, wm, ht, hm, rfl⟩ := Written.append_eq_ok_iff.mp h
  rw [size32_append, TopicName.size32_write ht, Binary.size32_write hm, Will.width]

/-- A CONNECT is at most six prefixed fields and four bytes long. -/
theorem length_write_le {c : Connect} {w : Bytes} (h : c.write = .ok w) :
    w.length ≤ 6 * 65537 + 4 := by
  obtain ⟨wn, wi, ww, wu, wp, hn, hi, hw, hu, hp, rfl⟩ := fields_of_write h
  have h1 := (Text.length_write hn).2
  have h2 := (Text.length_write hi).2
  have h3 := length_writeOption (fun _ _ => length_writeWill) hw
  have h4 := length_writeOption (fun _ _ h => (Text.length_write h).2) hu
  have h5 := length_writeOption (fun _ _ h => (Binary.length_write h).2) hp
  simp only [List.length_append, List.length_cons, List.length_nil, length_word]
  omega

theorem length_write {c : Connect} {w : Bytes} (h : c.write = .ok w) : w.length < 2 ^ 32 := by
  have hle := length_write_le h
  omega

theorem size32_write {c : Connect} {w : Bytes} (h : c.write = .ok w) : size32 w = c.width := by
  obtain ⟨wn, wi, ww, wu, wp, hn, hi, hw, hu, hp, rfl⟩ := fields_of_write h
  have h3 := size32_writeOption (fun _ _ => size32_writeWill) hw
  have h4 := size32_writeOption (fun _ _ => Text.size32_write) hu
  have h5 := size32_writeOption (fun _ _ => Binary.size32_write) hp
  have hflags (a b : UInt8) : size32 [a, b] = 1 + 1 := rfl
  have hword (n : UInt16) : size32 (word n) = 2 := rfl
  simp only [size32_append, Text.size32_write hn, Text.size32_write hi, h3, h4, h5, hflags, hword,
    width, UInt32.add_assoc]

end Connect

/-- What the flags of a PUBLISH say of its identifier: it is there when the message is
acknowledged, and then it is not zero. -/
def Publish.Identified (p : Publish) (flags : Flags) : Prop :=
  (p.id.isSome = true ↔ flags.qos.val ≠ 0) ∧ p.id ≠ some 0

namespace Publish

/-- The optional identifier on the wire. -/
def writeId (id : Option UInt16) : Written := writeOption (fun id => .ok (word id)) id

theorem write_eq (p : Publish) :
    p.write = p.topic.write ++ (writeId p.id ++ Written.ok p.payload) :=
  Written.append_assoc _ _ _

theorem readId_eq_ok_iff {h : FixedHeader} {bs rest : Bytes} {id : Option UInt16} :
    readId h bs = .ok (id, rest) ↔
      ((id.isSome = true ↔ h.type.flags.qos.val ≠ 0) ∧ id ≠ some 0) ∧
        ∃ w, writeId id = .ok w ∧ bs = w ++ rest := by
  unfold readId writeId
  split
  · next hqos =>
    cases id <;> simp [hqos, writeOption]
  · next hqos =>
    simp only [bind_eq_ok_iff, Prod.exists, mapError_eq_ok_iff, readWord_eq_ok_iff]
    constructor
    · intro h'
      obtain ⟨n, _, rfl, h⟩ := h'
      split at h
      · simp at h
      · next hn =>
        simp only [Except.ok.injEq, Prod.mk.injEq] at h
        obtain ⟨rfl, rfl⟩ := h
        exact ⟨⟨by simp [hqos], by simpa using hn⟩, word n, rfl, rfl⟩
    · intro h'
      obtain ⟨⟨hsome, hne⟩, w, hw, rfl⟩ := h'
      obtain ⟨n, rfl⟩ := Option.isSome_iff_exists.mp (hsome.mpr hqos)
      simp only [writeOption, Written.ok_inj] at hw
      subst hw
      refine ⟨n, rest, rfl, ?_⟩
      rw [if_neg (by simpa using hne)]

theorem size32_writeId {id : Option UInt16} {w : Bytes} (h : writeId id = .ok w) :
    size32 w = widthOption (fun _ => 2) id := by
  apply size32_writeOption _ h
  intro n v hv
  obtain rfl := Written.ok_inj.mp hv
  rfl

theorem length_writeId {id : Option UInt16} {w : Bytes} (h : writeId id = .ok w) : w.length ≤ 2 := by
  apply length_writeOption _ h
  intro n v hv
  obtain rfl := Written.ok_inj.mp hv
  exact Nat.le_refl 2

theorem size32_write {p : Publish} {w : Bytes} (h : p.write = .ok w) : size32 w = p.width := by
  simp only [write_eq, Written.append_eq_ok_iff, Written.ok_inj] at h
  obtain ⟨wt, _, ht, ⟨wi, _, hi, rfl, rfl⟩, rfl⟩ := h
  rw [size32_append, size32_append, TopicName.size32_write ht, size32_writeId hi, width,
    UInt32.add_assoc]

/-- PUBLISH is read from what it is written to, when that is as long as declared. -/
theorem read_eq_ok_iff {h : FixedHeader} {bs rest : Bytes} {p : Publish} :
    read h bs = .ok (p, rest) ↔ p.Identified h.type.flags ∧
      ∃ w, p.write = .ok w ∧ w.length = h.remaining.toNat ∧ bs = w ++ rest := by
  -- what comes before the payload is short, so the subtraction in 32 bits is exact
  have hbound {t : TopicName} {id : Option UInt16} {wt wi : Bytes} (ht : t.write = .ok wt)
      (hi : writeId id = .ok wi) :
      (t.width + widthOption (fun _ => 2) id).toNat = wt.length + wi.length := by
    have hl := TopicName.length_write ht
    have hli := length_writeId hi
    rw [← TopicName.size32_write ht, ← size32_writeId hi, ← size32_append, toNat_size32,
      List.length_append, Nat.mod_eq_of_lt (by omega)]
  rw [write_eq]
  simp only [read, bind_eq_ok_iff, Prod.exists, mapError_eq_ok_iff, TopicName.read_eq_ok_iff,
    readId_eq_ok_iff, Written.append_eq_ok_iff]
  constructor
  · intro h'
    obtain ⟨topic, _, ⟨wt, ht, rfl⟩, id, left, ⟨hid, wi, hi, rfl⟩, h⟩ := h'
    split at h
    · simp at h
    · next hle =>
      have hused := hbound ht hi
      have hle := UInt32.not_lt.mp hle
      simp only [bind_eq_ok_iff, Prod.exists, mapError_eq_ok_iff, readPayload_eq_ok_iff,
        Except.ok.injEq, Prod.mk.injEq] at h
      obtain ⟨payload, _, ⟨hlen, rfl⟩, rfl, rfl⟩ := h
      rw [UInt32.toNat_sub_of_le _ _ hle] at hlen
      refine ⟨hid, _, ⟨wt, _, ht, ⟨wi, payload, hi, rfl, rfl⟩, rfl⟩, ?_, by simp⟩
      have := UInt32.le_iff_toNat_le.mp hle
      simp only [List.length_append]
      omega
  · intro h'
    obtain ⟨hid, _, ⟨wt, _, ht, ⟨wi, payload, hi, hpay, rfl⟩, rfl⟩, hlen, rfl⟩ := h'
    rw [Written.ok_inj] at hpay
    subst hpay
    have hused := hbound ht hi
    have hle : p.topic.width + widthOption (fun _ => 2) p.id ≤ h.remaining := by
      rw [UInt32.le_iff_toNat_le, hused, ← hlen]
      simp only [List.length_append]
      omega
    refine ⟨p.topic, _, ⟨wt, ht, List.append_assoc ..⟩, p.id, p.payload ++ rest,
      ⟨hid, wi, hi, List.append_assoc ..⟩, ?_⟩
    rw [if_neg (UInt32.not_lt.mpr hle)]
    simp only [bind_eq_ok_iff, Prod.exists, mapError_eq_ok_iff, readPayload_eq_ok_iff]
    refine ⟨p.payload, rest, ⟨?_, rfl⟩, rfl⟩
    rw [UInt32.toNat_sub_of_le _ _ hle, hused, ← hlen]
    simp only [List.length_append]
    omega

end Publish

theorem checkSize_eq_ok_iff {h : FixedHeader} {u : Unit} {n : UInt32}
    (hsize : h.type.kind.fixedSize? = some n) :
    checkSize h = .ok u ↔ n.toNat = h.remaining.toNat := by
  rw [UInt32.toNat_inj, checkSize, hsize]
  by_cases hn : n = h.remaining <;> simp [hn]

namespace Subscribe

theorem readPayload_eq_ok_iff {size : UInt32} {bs rest : Bytes} {filter : TopicFilter} {qos : QoS} :
    readPayload size bs = .ok ((filter, qos), rest) ↔
      ∃ w, filter.write = .ok w ∧ w.length + 1 = size.toNat ∧ bs = w ++ qos.toByte :: rest := by
  have hwidth {w : Bytes} (hw : filter.write = .ok w) :
      filter.width + 1 = size ↔ w.length + 1 = size.toNat :=
    TopicFilter.width_add_eq_iff hw (by decide)
  unfold readPayload
  split
  · next hzero => simp [hzero]
  · simp only [bind_eq_ok_iff, Prod.exists, mapError_eq_ok_iff, TopicFilter.read_eq_ok_iff,
      readByte_eq_ok_iff]
    constructor
    · intro h
      obtain ⟨f, _, ⟨w, hw, rfl⟩, b, tail, rfl, h⟩ := h
      split at h
      · simp at h
      · next q hq =>
        split at h
        · next hsize =>
          simp only [Except.ok.injEq, Prod.mk.injEq] at h
          obtain ⟨⟨rfl, rfl⟩, rfl⟩ := h
          exact ⟨w, hw, (hwidth hw).mp hsize, by rw [QoS.ofByte?_eq_some_iff.mp hq]⟩
        · simp at h
    · intro h
      obtain ⟨w, hw, hsize, rfl⟩ := h
      refine ⟨filter, _, ⟨w, hw, rfl⟩, qos.toByte, rest, rfl, ?_⟩
      rw [QoS.ofByte?_toByte]
      simp only
      rw [if_pos ((hwidth hw).mpr hsize)]

/-- SUBSCRIBE is read from what it is written to, when that is as long as declared. -/
theorem read_eq_ok_iff {h : FixedHeader} {bs rest : Bytes} {s : Subscribe} :
    read h bs = .ok (s, rest) ↔
      ∃ w, (Body.subscribe s).write = .ok w ∧ w.length = h.remaining.toNat ∧ bs = w ++ rest := by
  simp only [read, Body.write, Written.append_assoc, bind_eq_ok_iff, Prod.exists,
    mapError_eq_ok_iff, readWord_eq_ok_iff, Written.append_eq_ok_iff]
  constructor
  · intro h'
    obtain ⟨id, _, rfl, h'⟩ := h'
    split at h'
    · simp at h'
    · next hle =>
      simp only [bind_eq_ok_iff, Prod.exists, mapError_eq_ok_iff, readPayload_eq_ok_iff,
        Except.ok.injEq, Prod.mk.injEq] at h'
      obtain ⟨filter, qos, _, ⟨w, hw, hsize, rfl⟩, rfl, rfl⟩ := h'
      have hle := UInt32.not_lt.mp hle
      have hle' := UInt32.le_iff_toNat_le.mp hle
      rw [UInt32.toNat_sub_of_le _ _ hle] at hsize
      refine ⟨_, ⟨word id, _, rfl, ⟨w, [qos.toByte], hw, rfl, rfl⟩, rfl⟩, ?_, by simp⟩
      change 2 ≤ h.remaining.toNat at hle'
      change w.length + 1 = h.remaining.toNat - 2 at hsize
      rw [List.length_append, length_word, List.length_append, List.length_singleton]
      omega
  · intro h'
    obtain ⟨_, ⟨_, _, hi, ⟨w, _, hw, hq, rfl⟩, rfl⟩, hlen, rfl⟩ := h'
    rw [Written.ok_inj] at hi hq
    subst hi hq
    have hle : 2 ≤ h.remaining := by
      rw [UInt32.le_iff_toNat_le, ← hlen, List.length_append, length_word]
      exact Nat.le_add_right 2 _
    refine ⟨s.id, _, List.append_assoc .., ?_⟩
    rw [if_neg (UInt32.not_lt.mpr hle)]
    simp only [bind_eq_ok_iff, Prod.exists, mapError_eq_ok_iff, readPayload_eq_ok_iff]
    refine ⟨s.filter, s.qos, rest, ⟨w, hw, ?_, by simp⟩, rfl⟩
    rw [UInt32.toNat_sub_of_le _ _ hle, ← hlen]
    simp

end Subscribe

/-- UNSUBSCRIBE is read from what it is written to, when that is as long as declared. -/
theorem Unsubscribe.read_eq_ok_iff {h : FixedHeader} {bs rest : Bytes} {u : Unsubscribe} :
    read h bs = .ok (u, rest) ↔
      ∃ w, (Body.unsubscribe u).write = .ok w ∧ w.length = h.remaining.toNat ∧ bs = w ++ rest := by
  have hwidth {f : TopicFilter} {w : Bytes} (hw : f.write = .ok w) :
      2 + f.width = h.remaining ↔ w.length + 2 = h.remaining.toNat := by
    rw [UInt32.add_comm]
    exact TopicFilter.width_add_eq_iff hw (by decide)
  simp only [read, Body.write, bind_eq_ok_iff, Prod.exists, mapError_eq_ok_iff,
    readWord_eq_ok_iff, Written.append_eq_ok_iff]
  constructor
  · intro h'
    obtain ⟨id, _, rfl, h'⟩ := h'
    split at h'
    · simp at h'
    · simp only [bind_eq_ok_iff, Prod.exists, mapError_eq_ok_iff, TopicFilter.read_eq_ok_iff] at h'
      obtain ⟨filter, _, ⟨w, hw, rfl⟩, h'⟩ := h'
      split at h'
      · next hsize =>
        simp only [Except.ok.injEq, Prod.mk.injEq] at h'
        obtain ⟨rfl, rfl⟩ := h'
        refine ⟨_, ⟨word id, w, rfl, hw, rfl⟩, ?_, by simp⟩
        rw [← (hwidth hw).mp hsize, List.length_append, length_word, Nat.add_comm]
      · simp at h'
  · intro h'
    obtain ⟨_, ⟨_, w, hi, hw, rfl⟩, hlen, rfl⟩ := h'
    rw [Written.ok_inj] at hi
    subst hi
    have hpos := (Text.length_write hw).1
    have hbig : ¬ h.remaining ≤ 2 := by
      rw [UInt32.le_iff_toNat_le, ← hlen, List.length_append, length_word]
      change ¬ 2 + w.length ≤ 2
      omega
    refine ⟨u.id, _, List.append_assoc .., ?_⟩
    rw [if_neg hbig]
    simp only [bind_eq_ok_iff, Prod.exists, mapError_eq_ok_iff, TopicFilter.read_eq_ok_iff]
    refine ⟨u.filter, rest, ⟨w, hw, rfl⟩, ?_⟩
    rw [if_pos ((hwidth hw).mpr ?_)]
    rw [← hlen, List.length_append, length_word, Nat.add_comm]

namespace Body

theorem readId_eq_ok_iff {h : FixedHeader} {of : UInt16 → Body} {bs rest : Bytes} {b : Body}
    (hsize : h.type.kind.fixedSize? = some 2) :
    readId h of bs = .ok (b, rest) ↔
      ∃ id, b = of id ∧ 2 = h.remaining.toNat ∧ bs = word id ++ rest := by
  simp only [readId, bind_eq_ok_iff, leaving_eq_ok_iff, checkSize_eq_ok_iff hsize, Prod.exists,
    mapError_eq_ok_iff, readWord_eq_ok_iff, Except.ok.injEq, Prod.mk.injEq]
  constructor
  · intro h'
    obtain ⟨_, _, ⟨hn, rfl⟩, id, _, rfl, rfl, rfl⟩ := h'
    exact ⟨id, rfl, hn, rfl⟩
  · intro h'
    obtain ⟨id, rfl, hn, rfl⟩ := h'
    exact ⟨(), _, ⟨hn, rfl⟩, id, rest, rfl, rfl, rfl⟩

theorem readNothing_eq_ok_iff {h : FixedHeader} {body : Body} {bs rest : Bytes} {b : Body}
    (hsize : h.type.kind.fixedSize? = some 0) :
    readNothing h body bs = .ok (b, rest) ↔ b = body ∧ 0 = h.remaining.toNat ∧ bs = rest := by
  simp only [readNothing, leaving_eq_ok_iff, map_eq_ok_iff, checkSize_eq_ok_iff hsize]
  constructor
  · intro h'
    obtain ⟨⟨_, hn, rfl⟩, rfl⟩ := h'
    exact ⟨rfl, hn, rfl⟩
  · intro h'
    obtain ⟨rfl, hn, rfl⟩ := h'
    exact ⟨⟨(), hn, rfl⟩, rfl⟩

theorem readConnack_eq_ok_iff {h : FixedHeader} {bs rest : Bytes} {b : Body}
    (hsize : h.type.kind.fixedSize? = some 2) :
    readConnack h bs = .ok (b, rest) ↔ ∃ sessionPresent code, b = connack sessionPresent code ∧
      2 = h.remaining.toNat ∧ bs = ConnackFlags.toByte sessionPresent :: code.toByte :: rest := by
  simp only [readConnack, bind_eq_ok_iff, leaving_eq_ok_iff, checkSize_eq_ok_iff hsize, Prod.exists,
    mapError_eq_ok_iff, ConnackFlags.read_eq_ok_iff, ConnectCode.read_eq_ok_iff, Except.ok.injEq,
    Prod.mk.injEq]
  constructor
  · intro h'
    obtain ⟨_, _, ⟨hn, rfl⟩, sessionPresent, _, rfl, code, _, rfl, rfl, rfl⟩ := h'
    exact ⟨sessionPresent, code, rfl, hn, rfl⟩
  · intro h'
    obtain ⟨sessionPresent, code, rfl, hn, rfl⟩ := h'
    exact ⟨(), _, ⟨hn, rfl⟩, sessionPresent, _, rfl, code, rest, rfl, rfl, rfl⟩

theorem readSuback_eq_ok_iff {h : FixedHeader} {bs rest : Bytes} {b : Body} :
    readSuback h bs = .ok (b, rest) ↔
      ∃ id code, b = suback id code ∧ 3 = h.remaining.toNat ∧ bs = word id ++ code.toByte :: rest := by
  have hthree : h.remaining = 3 ↔ 3 = h.remaining.toNat := by
    rw [← UInt32.toNat_inj]
    exact eq_comm
  unfold readSuback
  split
  · next hne => simp [← hthree, hne]
  · next hsize =>
    rw [Decidable.not_not, hthree] at hsize
    simp only [bind_eq_ok_iff, Prod.exists, mapError_eq_ok_iff, readWord_eq_ok_iff,
      readByte_eq_ok_iff]
    constructor
    · intro h'
      obtain ⟨id, _, rfl, byte, tail, rfl, h'⟩ := h'
      split at h'
      · next code hcode =>
        simp only [Except.ok.injEq, Prod.mk.injEq] at h'
        obtain ⟨rfl, rfl⟩ := h'
        exact ⟨id, code, rfl, hsize, by rw [SubscribeCode.ofByte?_eq_some_iff.mp hcode]⟩
      · simp at h'
    · intro h'
      obtain ⟨id, code, rfl, -, rfl⟩ := h'
      refine ⟨id, _, rfl, code.toByte, rest, rfl, ?_⟩
      rw [SubscribeCode.ofByte?_toByte]

/-- What a body owes its header's flags, and a CONNECT the user name to its password. -/
def Legal (flags : Flags) : Body → Prop
  | connect c => c.password.isSome = true → c.username.isSome = true
  | publish p => p.Identified flags
  | _ => True

/-- A body is read, under a header of its type, from what it is written to. All of them but
CONNECT must be as long as the header declares. -/
theorem read_eq_ok_iff {kind : Kind} {h : FixedHeader} {bs rest : Bytes} {b : Body}
    (hkind : h.type.kind = kind) :
    read kind h bs = .ok (b, rest) ↔ b.kind = kind ∧ b.Legal h.type.flags ∧
      ∃ w, b.write = .ok w ∧ (kind ≠ .connect → w.length = h.remaining.toNat) ∧ bs = w ++ rest := by
  have hsize {n : UInt32} (hk : kind.fixedSize? = some n) : h.type.kind.fixedSize? = some n :=
    hkind ▸ hk
  cases kind with
  | connect =>
    simp only [read, map_eq_ok_iff, Prod.exists, Prod.mk.injEq, Connect.read_eq_ok_iff]
    constructor
    · intro h'
      obtain ⟨c, _, ⟨hpass, w, hw, rfl⟩, rfl, rfl⟩ := h'
      exact ⟨rfl, hpass, w, hw, by simp, rfl⟩
    · intro h'
      obtain ⟨hk, hlegal, w, hw, -, rfl⟩ := h'
      cases b <;> cases hk
      exact ⟨_, rest, ⟨hlegal, w, hw, rfl⟩, rfl, rfl⟩
  | publish =>
    simp only [read, map_eq_ok_iff, Prod.exists, Prod.mk.injEq, Publish.read_eq_ok_iff]
    constructor
    · intro h'
      obtain ⟨p, _, ⟨hid, w, hw, hlen, rfl⟩, rfl, rfl⟩ := h'
      exact ⟨rfl, hid, w, hw, fun _ => hlen, rfl⟩
    · intro h'
      obtain ⟨hk, hlegal, w, hw, hlen, rfl⟩ := h'
      cases b <;> cases hk
      exact ⟨_, rest, ⟨hlegal, w, hw, hlen (by simp), rfl⟩, rfl, rfl⟩
  | subscribe =>
    simp only [read, map_eq_ok_iff, Prod.exists, Prod.mk.injEq, Subscribe.read_eq_ok_iff]
    constructor
    · intro h'
      obtain ⟨s, _, ⟨w, hw, hlen, rfl⟩, rfl, rfl⟩ := h'
      exact ⟨rfl, trivial, w, hw, fun _ => hlen, rfl⟩
    · intro h'
      obtain ⟨hk, -, w, hw, hlen, rfl⟩ := h'
      cases b <;> cases hk
      exact ⟨_, rest, ⟨w, hw, hlen (by simp), rfl⟩, rfl, rfl⟩
  | unsubscribe =>
    simp only [read, map_eq_ok_iff, Prod.exists, Prod.mk.injEq, Unsubscribe.read_eq_ok_iff]
    constructor
    · intro h'
      obtain ⟨u, _, ⟨w, hw, hlen, rfl⟩, rfl, rfl⟩ := h'
      exact ⟨rfl, trivial, w, hw, fun _ => hlen, rfl⟩
    · intro h'
      obtain ⟨hk, -, w, hw, hlen, rfl⟩ := h'
      cases b <;> cases hk
      exact ⟨_, rest, ⟨w, hw, hlen (by simp), rfl⟩, rfl, rfl⟩
  | connack =>
    rw [read, readConnack_eq_ok_iff (hsize rfl)]
    constructor
    · intro h'
      obtain ⟨sessionPresent, code, rfl, hn, rfl⟩ := h'
      exact ⟨rfl, trivial, _, rfl, fun _ => hn, rfl⟩
    · intro h'
      obtain ⟨hk, -, w, hw, hlen, rfl⟩ := h'
      cases b <;> cases hk
      rw [write, Written.ok_inj] at hw
      subst hw
      exact ⟨_, _, rfl, hlen (by simp), rfl⟩
  | suback =>
    rw [read, readSuback_eq_ok_iff]
    constructor
    · intro h'
      obtain ⟨id, code, rfl, hn, rfl⟩ := h'
      exact ⟨rfl, trivial, _, rfl, fun _ => hn, by simp⟩
    · intro h'
      obtain ⟨hk, -, w, hw, hlen, rfl⟩ := h'
      cases b <;> cases hk
      rw [write, Written.ok_inj] at hw
      subst hw
      exact ⟨_, _, rfl, hlen (by simp), by simp⟩
  | puback | pubrec | pubrel | pubcomp | unsuback =>
    rw [read, readId_eq_ok_iff (hsize rfl)]
    constructor
    · intro h'
      obtain ⟨id, rfl, hn, rfl⟩ := h'
      exact ⟨rfl, trivial, _, rfl, fun _ => hn, rfl⟩
    · intro h'
      obtain ⟨hk, -, w, hw, hlen, rfl⟩ := h'
      cases b <;> cases hk
      rw [write, Written.ok_inj] at hw
      subst hw
      exact ⟨_, rfl, hlen (by simp), rfl⟩
  | pingreq | pingresp | disconnect =>
    rw [read, readNothing_eq_ok_iff (hsize rfl)]
    constructor
    · intro h'
      obtain ⟨rfl, hn, rfl⟩ := h'
      exact ⟨rfl, trivial, _, rfl, fun _ => hn, rfl⟩
    · intro h'
      obtain ⟨hk, -, w, hw, hlen, rfl⟩ := h'
      cases b <;> cases hk
      rw [write, Written.ok_inj] at hw
      subst hw
      exact ⟨rfl, hlen (by simp), rfl⟩

/-- The width of a body is the number of its bytes, counted in 32 bits. -/
theorem size32_write {b : Body} {w : Bytes} (h : b.write = .ok w) : size32 w = b.width := by
  have hbyte (x : UInt8) : size32 [x] = 1 := rfl
  have hword (n : UInt16) : size32 (word n) = 2 := rfl
  cases b with
  | connect c => exact Connect.size32_write h
  | publish p => exact Publish.size32_write h
  | subscribe s =>
    simp only [write, Written.append_assoc, Written.append_eq_ok_iff, Written.ok_inj] at h
    obtain ⟨_, _, rfl, ⟨wf, _, hf, rfl, rfl⟩, rfl⟩ := h
    simp only [size32_append, TopicFilter.size32_write hf, hbyte, hword, width]
  | unsubscribe u =>
    simp only [write, Written.append_eq_ok_iff, Written.ok_inj] at h
    obtain ⟨_, wf, rfl, hf, rfl⟩ := h
    simp only [size32_append, TopicFilter.size32_write hf, hword, width]
  | _ =>
    rw [write, Written.ok_inj] at h
    subst h
    rfl

end Body

end Mqtt
