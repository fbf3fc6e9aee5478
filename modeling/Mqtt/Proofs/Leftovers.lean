import Mqtt.Proofs.Filters
import Mqtt.Proofs.Sendable
import Mqtt.Stream

/-!
# What a refused packet leaves behind

A packet is written field by field to the end of the buffer, and a field that does not fit is found
out when its turn comes. Each field is written whole or not at all, and nothing is taken back: the
fields before the refused one stay in the buffer. The type byte is always among them.
-/
namespace Mqtt
open Wire

namespace Wire.Written

/-- Written to the end, or refused before anything was written. -/
inductive Whole : Written → Prop
  | ok (bs : Bytes) : Whole (.ok bs)
  | refuse (f : Fault) : Whole (.refuse f)

theorem fault_eq_none_iff {w : Written} : w.fault = none ↔ ∃ bs, w = .ok bs := by
  obtain ⟨bytes, fault⟩ := w
  simp [Written.ok]

/-- Write one value after the other until one is refused. -/
def concat (ws : List Written) : Written := ws.foldr (· ++ ·) (.ok [])

theorem concat_cons (w : Written) (ws : List Written) : concat (w :: ws) = w ++ concat ws := rfl

theorem concat_append (vs ws : List Written) : concat (vs ++ ws) = concat vs ++ concat ws := by
  induction vs with
  | nil => rfl
  | cons v vs ih => rw [List.cons_append, concat_cons, concat_cons, ih, Written.append_assoc]

theorem concat_singleton (w : Written) : concat [w] = w := by
  obtain ⟨bytes, fault⟩ := w
  change Written.append ⟨bytes, fault⟩ (.ok []) = ⟨bytes, fault⟩
  cases fault <;> simp [Written.append, Written.ok]

theorem concat_toList_map {α : Type} (write : α → Written) (o : Option α) :
    concat (o.toList.map write) = writeOption write o := by
  cases o with
  | none => rfl
  | some a => exact concat_singleton (write a)

/-- What is written in the end are the values before the one that was refused. -/
theorem leftover_of_concat {ws : List Written} {f : Fault} (whole : ∀ w ∈ ws, Whole w)
    (h : (concat ws).fault = some f) :
    ∃ before after, ws = before ++ .refuse f :: after ∧ (∀ w ∈ before, w.fault = none) ∧
      (concat ws).bytes = before.flatMap Written.bytes := by
  induction ws with
  | nil => cases h
  | cons w ws ih =>
    obtain ⟨hfirst, hrest⟩ := List.forall_mem_cons.mp whole
    rw [concat_cons] at h ⊢
    cases hfirst with
    | ok bs =>
      obtain ⟨before, after, rfl, hbefore, hbytes⟩ := ih hrest h
      refine ⟨.ok bs :: before, after, rfl, List.forall_mem_cons.mpr ⟨rfl, hbefore⟩, ?_⟩
      rw [List.flatMap_cons, ← hbytes]
      rfl
    | refuse g =>
      obtain rfl : g = f := Option.some.inj h
      exact ⟨[], ws, rfl, fun _ hw => absurd hw List.not_mem_nil, rfl⟩

end Wire.Written

open Wire.Written

theorem Wire.VarInt.whole_write (n : UInt32) : Whole (VarInt.write n) := by
  rw [VarInt.write]
  split <;> constructor

theorem Wire.Text.whole_write (s : String) : Whole (Text.write s) := by
  rw [Text.write]
  split <;> constructor

theorem Wire.Binary.whole_write (bs : Bytes) : Whole (Binary.write bs) := by
  rw [Binary.write]
  split <;> constructor

/-! ## The fields of a packet -/

/-- The fields in the order in which they are written. Only those of a CONNECT can be too long. -/
def Body.fields : Body → List Written
  | .connect c =>
    Text.write Protocol.name :: .ok [Protocol.level, c.flags.toByte] :: .ok (word c.keepAlive) ::
      Text.write c.clientId ::
      ((c.will.toList.flatMap fun will => [will.topic.write, Binary.write will.message]) ++
        (c.username.toList.map Text.write ++ c.password.toList.map Binary.write))
  | b => [b.write]

/-- The header has two fields, the type byte and the declared size. -/
def Packet.fields (p : Packet) : List Written :=
  .ok [p.header.type.toByte] :: VarInt.write p.header.remaining :: p.body.fields

namespace Body

theorem write_eq_concat (b : Body) : b.write = concat b.fields := by
  cases b with
  | connect c =>
    have hwill : concat (c.will.toList.flatMap fun will =>
        [will.topic.write, Binary.write will.message]) = writeOption Will.write c.will := by
      cases c.will with
      | none => rfl
      | some will => exact congrArg (will.topic.write ++ ·) (concat_singleton _)
    rw [write, Connect.write_eq, Connect.writePayload, fields]
    simp only [concat_cons, concat_append, concat_toList_map, hwill]
  | _ => exact (concat_singleton _).symm

theorem write_ok_of_ne {b : Body} (h : ∀ c, b ≠ .connect c) : ∃ w, b.write = .ok w := by
  refine write_ok ?_
  cases b with
  | connect c => exact absurd rfl (h c)
  | publish p => simpa [prefixed] using p.topic.size_le
  | subscribe s => simpa [prefixed] using (isTopicFilter_iff_isPattern.mp s.filter.valid).size_le
  | unsubscribe u => simpa [prefixed] using (isTopicFilter_iff_isPattern.mp u.filter.valid).size_le
  | _ => exact fun _ hfield => absurd hfield List.not_mem_nil

/-- Apart from CONNECT no body is ever refused. -/
theorem write_ok_iff {b : Body} : (∃ w, b.write = .ok w) ↔ ∀ c, b = .connect c → c.Fits := by
  constructor
  · rintro h c rfl
    exact Connect.write_ok_iff_fits.mp h
  · intro h
    cases b with
    | connect c => exact Connect.write_ok_iff_fits.mpr (h c rfl)
    | _ => exact write_ok_of_ne (by simp)

theorem whole_fields (b : Body) : ∀ w ∈ b.fields, Whole w := by
  have hsingle : (∀ c, b ≠ .connect c) → Whole b.write := by
    intro hne
    obtain ⟨w, hw⟩ := write_ok_of_ne hne
    exact hw ▸ .ok w
  cases b with
  | connect c =>
    simp only [fields, List.forall_mem_cons, List.forall_mem_append, List.forall_mem_map,
      List.forall_mem_flatMap]
    refine ⟨Text.whole_write _, .ok _, .ok _, Text.whole_write _, fun will _ => ?_,
      fun name _ => Text.whole_write name, fun data _ => Binary.whole_write data⟩
    exact ⟨Text.whole_write _, Binary.whole_write _, fun _ h => absurd h List.not_mem_nil⟩
  | _ => exact List.forall_mem_singleton.mpr (hsingle (by simp))

end Body

namespace Packet

theorem write_eq_concat (p : Packet) : p.write = concat p.fields := by
  rw [write, Body.write_eq_concat, FixedHeader.write, Written.append_assoc]
  rfl

theorem whole_fields (p : Packet) : ∀ w ∈ p.fields, Whole w :=
  List.forall_mem_cons.mpr ⟨.ok _,
    List.forall_mem_cons.mpr ⟨VarInt.whole_write _, p.body.whole_fields⟩⟩

/-- A packet is written unless its declared size or a field of a CONNECT does not fit. -/
theorem fault_write_eq_none_iff {p : Packet} :
    p.write.fault = none ↔
      p.header.remaining ≤ VarInt.maximum ∧ ∀ c, p.body = .connect c → c.Fits := by
  rw [fault_eq_none_iff, ← Body.write_ok_iff]
  simp only [write, append_eq_ok_iff, FixedHeader.write_eq_ok_iff]
  constructor
  · rintro ⟨_, _, w, ⟨hle, -⟩, hw, -⟩
    exact ⟨hle, w, hw⟩
  · rintro ⟨hle, w, hw⟩
    exact ⟨_, _, w, ⟨hle, rfl⟩, hw, rfl⟩

/-- What a packet leaves in a buffer: its whole encoding, or else the fields before the one that is
refused, of which the type byte is the first. -/
theorem appendTo_leaves (p : Packet) (buffer : Bytes) :
    ((p.appendTo buffer).fault = none ↔
        p.header.remaining ≤ VarInt.maximum ∧ ∀ c, p.body = .connect c → c.Fits) ∧
      ((p.appendTo buffer).fault = none →
        ∃ bs, p.encode = .ok bs ∧ (p.appendTo buffer).bytes = buffer ++ bs) ∧
      ∀ f, (p.appendTo buffer).fault = some f → p.encode = .error f ∧
        ∃ before after, p.fields = .ok [p.header.type.toByte] :: (before ++ .refuse f :: after) ∧
          (∀ w ∈ before, w.fault = none) ∧
          (p.appendTo buffer).bytes =
            buffer ++ p.header.type.toByte :: before.flatMap Written.bytes := by
  refine ⟨fault_write_eq_none_iff, fun h => ?_, fun f h => ?_⟩
  · exact ⟨p.write.bytes, by rw [encode, Written.toExcept, show p.write.fault = none from h], rfl⟩
  · have hf : p.write.fault = some f := h
    refine ⟨by rw [encode, Written.toExcept, hf], ?_⟩
    rw [write_eq_concat] at hf
    obtain ⟨before, after, hfields, hbefore, hbytes⟩ := leftover_of_concat p.whole_fields hf
    rw [← write_eq_concat] at hbytes
    cases before with
    | nil => simp [fields, Written.ok, Written.refuse] at hfields
    | cons first before =>
      obtain rfl : .ok [p.header.type.toByte] = first := (List.cons.inj hfields).1
      refine ⟨before, after, hfields, (List.forall_mem_cons.mp hbefore).2, ?_⟩
      rw [appendTo, hbytes]
      rfl

/-- A CONNECT whose client identifier is as long as asked. -/
def named (length : Nat) : Packet := .ofBody (.connect
  { clientId := "".pushn 'a' length
    cleanSession := true
    keepAlive := 60
    will := none
    username := none
    password := none })

theorem write_named : (named 65536).write =
    ⟨[0x10, 0x8c, 0x80, 4, 0, 4, 0x4d, 0x51, 0x54, 0x54, 4, 2, 0, 60], some .textTooLong⟩ := by
  have hsize := Options.size_pushn 65536
  have hwidth : Text.width ("".pushn 'a' 65536) = 65538 := by rw [Text.width, hsize]; rfl
  have hlong : Text.write ("".pushn 'a' 65536) = .refuse .textTooLong := by
    rw [Text.write, hsize, if_neg (by decide)]
  rw [write_eq_concat]
  simp only [fields, named, ofBody, Body.fields, Body.width, Connect.width, hwidth, hlong]
  rfl

theorem appendTo_leaves_named : ((named 65536).appendTo [0xc0, 0]).fault = some .textTooLong ∧
    ∃ before after, (named 65536).fields = .ok [0x10] :: (before ++ .refuse .textTooLong :: after) ∧
      ((named 65536).appendTo [0xc0, 0]).bytes =
        [0xc0, 0] ++ 0x10 :: before.flatMap Written.bytes := by
  have hfault : ((named 65536).appendTo [0xc0, 0]).fault = some .textTooLong := by
    rw [appendTo, write_named]
  obtain ⟨-, -, hleaves⟩ := appendTo_leaves (named 65536) [0xc0, 0]
  obtain ⟨-, before, after, hfields, -, hbytes⟩ := hleaves _ hfault
  exact ⟨hfault, before, after, hfields, hbytes⟩

/-- The fields before a client identifier that is too long stay in the buffer. -/
theorem not_clean_named : ((named 65536).appendTo []).fault = some .textTooLong ∧
    ((named 65536).appendTo []).bytes =
      [0x10, 0x8c, 0x80, 4, 0, 4, 0x4d, 0x51, 0x54, 0x54, 4, 2, 0, 60] := by
  rw [appendTo, write_named]
  exact ⟨rfl, rfl⟩

end Packet

end Mqtt
