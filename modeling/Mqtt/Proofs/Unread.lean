import Mqtt.Packet.Read

/-!
# What readers leave

A reader takes what it reads from the front of its input. Whether it reads a value or stops on the
way, what it leaves is an end of what it was given: every reader here is a chain of smaller ones,
each of which goes on where the one before it came to.
-/
namespace Mqtt
open Wire

section Unread
variable {ε δ α β : Type} {bs rest : Bytes}

/-- What a reader left of its input, with a value or without one. -/
def unread : Except (Stop ε) (α × Bytes) → Bytes
  | .ok (_, rest) => rest
  | .error stop => stop.left

@[simp] theorem unread_ok (a : α) (rest : Bytes) :
    unread (.ok (a, rest) : Except (Stop ε) (α × Bytes)) = rest :=
  rfl

@[simp] theorem unread_error (stop : Stop ε) :
    unread (.error stop : Except (Stop ε) (α × Bytes)) = stop.left :=
  rfl

@[simp] theorem unread_leaving (rest : Bytes) (r : Except ε α) : unread (leaving rest r) = rest := by
  cases r <;> rfl

theorem unread_leaving_suffix (rest : Bytes) (r : Except ε α) : unread (leaving rest r) <:+ rest := by
  cases r <;> exact List.suffix_rfl

@[simp] theorem unread_before (more : Bytes) (r : Except (Stop ε) (α × Bytes)) :
    unread (before more r) = unread r ++ more := by
  rcases r with stop | ⟨a, rest⟩ <;> rfl

@[simp] theorem unread_mapError (f : ε → δ) (r : Except (Stop ε) (α × Bytes)) :
    unread (r.mapError (Stop.map f)) = unread r := by
  cases r <;> rfl

@[simp] theorem unread_map (f : α → β) (r : Except (Stop ε) (α × Bytes)) :
    unread (r.map fun (a, rest) => (f a, rest)) = unread r := by
  cases r <;> rfl

/-- A reader that goes on where the first one came to leaves an end of the same input. -/
theorem unread_bind_suffix {r : Except (Stop ε) (α × Bytes)}
    {f : α × Bytes → Except (Stop ε) (β × Bytes)} (hr : unread r <:+ bs)
    (hf : ∀ a rest, unread (f (a, rest)) <:+ rest) : unread (r >>= f) <:+ bs := by
  cases r with
  | error stop => exact hr
  | ok found => exact (hf found.1 found.2).trans hr

theorem readIf_suffix {read : Bytes → Except (Stop ε) (α × Bytes)}
    (hread : ∀ bs, unread (read bs) <:+ bs) (present : Bool) (bs : Bytes) :
    unread (readIf present read bs) <:+ bs := by
  cases present with
  | false => exact List.suffix_rfl
  | true =>
    rw [readIf, if_pos rfl, unread_map]
    exact hread bs

end Unread

/-! ## Fields -/

namespace Wire

theorem readByte_suffix (bs : Bytes) : unread (readByte bs) <:+ bs := by
  cases bs with
  | nil => exact List.suffix_rfl
  | cons b rest => exact List.suffix_cons b rest

theorem readExact_suffix (n : Nat) (bs : Bytes) : unread (readExact n bs) <:+ bs := by
  unfold readExact
  split
  · exact List.nil_suffix
  · exact List.drop_suffix n bs

theorem readPayload_suffix (n : Nat) (bs : Bytes) : unread (Wire.readPayload n bs) <:+ bs := by
  unfold Wire.readPayload
  split
  · exact List.nil_suffix
  · exact List.drop_suffix n bs

theorem readWord_suffix (bs : Bytes) : unread (readWord bs) <:+ bs := by
  match bs with
  | [] => exact List.nil_suffix
  | [_] => exact List.nil_suffix
  | hi :: lo :: rest => exact List.suffix_append [hi, lo] rest

theorem Binary.read_suffix (bs : Bytes) : unread (Binary.read bs) <:+ bs :=
  unread_bind_suffix (readWord_suffix bs) fun n rest => readExact_suffix n.toNat rest

theorem Text.read_suffix (bs : Bytes) : unread (Text.read bs) <:+ bs :=
  unread_bind_suffix (Binary.read_suffix bs) fun _ rest => unread_leaving_suffix rest _

end Wire

theorem TopicName.read_suffix (bs : Bytes) : unread (TopicName.read bs) <:+ bs := by
  have htext := Text.read_suffix bs
  unfold TopicName.read
  split
  · next stop h => rwa [h] at htext
  · next s rest h =>
    rw [h] at htext
    split <;> exact htext

theorem TopicFilter.read_suffix (bs : Bytes) : unread (TopicFilter.read bs) <:+ bs := by
  have htext := Text.read_suffix bs
  unfold TopicFilter.read
  split
  · next stop h => rwa [h] at htext
  · next s rest h =>
    rw [h] at htext
    split <;> exact htext

theorem ConnectFlags.read_suffix (bs : Bytes) : unread (ConnectFlags.read bs) <:+ bs := by
  cases bs with
  | nil => exact List.suffix_rfl
  | cons b rest =>
    rw [ConnectFlags.read, unread_leaving]
    exact List.suffix_cons b rest

theorem ConnackFlags.read_suffix (bs : Bytes) : unread (ConnackFlags.read bs) <:+ bs := by
  cases bs with
  | nil => exact List.suffix_rfl
  | cons b rest =>
    rw [ConnackFlags.read]
    split <;> exact List.suffix_cons b rest

theorem Protocol.readLevel_suffix (bs : Bytes) : unread (Protocol.readLevel bs) <:+ bs := by
  cases bs with
  | nil => exact List.suffix_rfl
  | cons b rest =>
    rw [Protocol.readLevel, unread_leaving]
    exact List.suffix_cons b rest

theorem ConnectCode.read_suffix (bs : Bytes) : unread (ConnectCode.read bs) <:+ bs := by
  cases bs with
  | nil => exact List.suffix_rfl
  | cons b rest =>
    rw [ConnectCode.read, unread_leaving]
    exact List.suffix_cons b rest

/-! ## Headers -/

namespace FixedHeader

theorem readLength_suffix (limit : Nat) (bs : Bytes) : unread (readLength limit bs) <:+ bs := by
  induction limit generalizing bs with
  | zero =>
    cases bs with
    | nil => exact List.suffix_rfl
    | cons b rest => exact List.suffix_cons b rest
  | succ limit ih =>
    cases bs with
    | nil => exact List.suffix_rfl
    | cons b rest =>
      rw [readLength]
      split
      · exact List.suffix_cons b rest
      · exact (unread_bind_suffix (ih rest) fun _ _ => List.suffix_rfl).trans
          (List.suffix_cons b rest)

theorem readParts_suffix (bs : Bytes) : unread (readParts bs) <:+ bs := by
  cases bs with
  | nil => exact List.suffix_rfl
  | cons type rest =>
    exact (unread_bind_suffix (readLength_suffix 4 rest) fun _ _ => List.suffix_rfl).trans
      (List.suffix_cons type rest)

theorem awaitLength_suffix (index sum : Nat) (bs : Bytes) :
    unread (awaitLength index sum bs) <:+ bs := by
  induction bs generalizing index sum with
  | nil => exact List.suffix_rfl
  | cons b rest ih =>
    rw [awaitLength]
    split
    · exact List.suffix_cons b rest
    · dsimp only
      split
      · exact List.suffix_cons b rest
      · exact (ih _ _).trans (List.suffix_cons b rest)

theorem await_suffix (bs : Bytes) : unread (await bs) <:+ bs := by
  cases bs with
  | nil => exact List.suffix_rfl
  | cons type rest =>
    exact (unread_bind_suffix (awaitLength_suffix 0 0 rest) fun _ rest =>
      unread_leaving_suffix rest _).trans (List.suffix_cons type rest)

end FixedHeader

/-! ## Bodies -/

/-- A field of a body, its error told to whoever reads the body. -/
theorem unread_field_suffix {ε δ α β : Type} {bs : Bytes} {r : Except (Stop ε) (α × Bytes)}
    (g : ε → δ) {f : α × Bytes → Except (Stop δ) (β × Bytes)} (hr : unread r <:+ bs)
    (hf : ∀ a rest, unread (f (a, rest)) <:+ rest) :
    unread (r.mapError (Stop.map g) >>= f) <:+ bs :=
  unread_bind_suffix (by rwa [unread_mapError]) hf

namespace Connect

theorem readWill_suffix (flags : ConnectFlags) (bs : Bytes) : unread (readWill flags bs) <:+ bs := by
  refine unread_field_suffix _ (TopicName.read_suffix bs) fun topic bs => ?_
  refine unread_field_suffix _ (Binary.read_suffix bs) fun message bs => ?_
  dsimp only
  split <;> exact List.suffix_rfl

theorem readPayload_suffix (flags : ConnectFlags) (keepAlive : UInt16) (bs : Bytes) :
    unread (Connect.readPayload flags keepAlive bs) <:+ bs := by
  refine unread_field_suffix _ (Text.read_suffix bs) fun clientId bs => ?_
  refine unread_bind_suffix (readIf_suffix (readWill_suffix flags) flags.will bs) fun will bs => ?_
  refine unread_bind_suffix (readIf_suffix (fun bs => ?_) flags.username bs) fun username bs => ?_
  · rw [unread_mapError]
    exact Text.read_suffix bs
  refine unread_bind_suffix (readIf_suffix (fun bs => ?_) flags.password bs) fun password bs => ?_
  · rw [unread_mapError]
    exact Binary.read_suffix bs
  exact List.suffix_rfl

theorem read_suffix (bs : Bytes) : unread (Connect.read bs) <:+ bs := by
  refine unread_field_suffix _ (Text.read_suffix bs) fun name bs => ?_
  dsimp only
  split
  · exact List.suffix_rfl
  refine unread_field_suffix _ (Protocol.readLevel_suffix bs) fun _ bs => ?_
  refine unread_field_suffix _ (ConnectFlags.read_suffix bs) fun flags bs => ?_
  refine unread_field_suffix _ (readWord_suffix bs) fun keepAlive bs => ?_
  rw [unread_mapError]
  exact readPayload_suffix flags keepAlive bs

end Connect

namespace Publish

theorem readId_suffix (h : FixedHeader) (bs : Bytes) : unread (Publish.readId h bs) <:+ bs := by
  unfold Publish.readId
  split
  · exact List.suffix_rfl
  refine unread_field_suffix _ (readWord_suffix bs) fun id bs => ?_
  dsimp only
  split <;> exact List.suffix_rfl

theorem read_suffix (h : FixedHeader) (bs : Bytes) : unread (Publish.read h bs) <:+ bs := by
  refine unread_field_suffix _ (TopicName.read_suffix bs) fun topic bs => ?_
  refine unread_bind_suffix (Publish.readId_suffix h bs) fun id bs => ?_
  dsimp only
  split
  · exact List.suffix_rfl
  · exact unread_field_suffix _ (Wire.readPayload_suffix _ bs) fun _ _ => List.suffix_rfl

end Publish

namespace Subscribe

theorem readPayload_suffix (size : UInt32) (bs : Bytes) :
    unread (Subscribe.readPayload size bs) <:+ bs := by
  unfold Subscribe.readPayload
  split
  · exact List.suffix_rfl
  refine unread_field_suffix _ (TopicFilter.read_suffix bs) fun filter bs => ?_
  refine unread_field_suffix _ (readByte_suffix bs) fun b bs => ?_
  dsimp only
  split
  · exact List.suffix_rfl
  · split <;> exact List.suffix_rfl

theorem read_suffix (h : FixedHeader) (bs : Bytes) : unread (Subscribe.read h bs) <:+ bs := by
  refine unread_field_suffix _ (readWord_suffix bs) fun id bs => ?_
  dsimp only
  split
  · exact List.suffix_rfl
  · exact unread_field_suffix _ (Subscribe.readPayload_suffix _ bs) fun _ _ => List.suffix_rfl

end Subscribe

theorem Unsubscribe.read_suffix (h : FixedHeader) (bs : Bytes) :
    unread (Unsubscribe.read h bs) <:+ bs := by
  refine unread_field_suffix _ (readWord_suffix bs) fun id bs => ?_
  dsimp only
  split
  · exact List.suffix_rfl
  refine unread_field_suffix _ (TopicFilter.read_suffix bs) fun filter bs => ?_
  dsimp only
  split <;> exact List.suffix_rfl

namespace Body

/-- A check of the header takes nothing. -/
theorem unread_check_suffix {α : Type} {bs : Bytes} (h : FixedHeader)
    {f : Unit × Bytes → Except (Stop PacketError) (α × Bytes)}
    (hf : ∀ u rest, unread (f (u, rest)) <:+ rest) :
    unread (leaving bs (checkSize h) >>= f) <:+ bs :=
  unread_bind_suffix (unread_leaving_suffix bs _) hf

theorem readId_suffix (h : FixedHeader) (of : UInt16 → Body) (bs : Bytes) :
    unread (Body.readId h of bs) <:+ bs :=
  unread_check_suffix h fun _ bs =>
    unread_field_suffix _ (readWord_suffix bs) fun _ _ => List.suffix_rfl

theorem readConnack_suffix (h : FixedHeader) (bs : Bytes) : unread (readConnack h bs) <:+ bs :=
  unread_check_suffix h fun _ bs =>
    unread_field_suffix _ (ConnackFlags.read_suffix bs) fun _ bs =>
      unread_field_suffix _ (ConnectCode.read_suffix bs) fun _ _ => List.suffix_rfl

theorem readSuback_suffix (h : FixedHeader) (bs : Bytes) : unread (readSuback h bs) <:+ bs := by
  unfold readSuback
  split
  · exact List.suffix_rfl
  refine unread_field_suffix _ (readWord_suffix bs) fun id bs => ?_
  refine unread_field_suffix _ (readByte_suffix bs) fun b bs => ?_
  dsimp only
  split <;> exact List.suffix_rfl

theorem readNothing_suffix (h : FixedHeader) (body : Body) (bs : Bytes) :
    unread (readNothing h body bs) <:+ bs :=
  unread_leaving_suffix bs _

theorem read_suffix (kind : Kind) (h : FixedHeader) (bs : Bytes) :
    unread (Body.read kind h bs) <:+ bs := by
  cases kind with
  | connect =>
    rw [Body.read, unread_map]
    exact Connect.read_suffix bs
  | publish =>
    rw [Body.read, unread_map]
    exact Publish.read_suffix h bs
  | subscribe =>
    rw [Body.read, unread_map]
    exact Subscribe.read_suffix h bs
  | unsubscribe =>
    rw [Body.read, unread_map]
    exact Unsubscribe.read_suffix h bs
  | connack => exact readConnack_suffix h bs
  | suback => exact readSuback_suffix h bs
  | puback | pubrec | pubrel | pubcomp | unsuback => exact Body.readId_suffix h _ bs
  | pingreq | pingresp | disconnect => exact readNothing_suffix h _ bs

end Body

/-! ## Packets -/

namespace Packet

theorem readBody_suffix (h : FixedHeader) (bs : Bytes) : unread (readBody h bs) <:+ bs := by
  rw [readBody, unread_mapError, readBodyAs, unread_map]
  exact Body.read_suffix h.type.kind h bs

theorem readLimited_suffix (h : FixedHeader) (bs : Bytes) : unread (readLimited h bs) <:+ bs := by
  have hbody := readBody_suffix h (bs.take h.remaining.toNat)
  obtain ⟨taken, htaken⟩ := hbody
  refine ⟨taken, ?_⟩
  simp only [readLimited, unread_before]
  rw [← List.append_assoc, htaken, List.take_append_drop]

/-- What is left of the input of the blocking reader is an end of it. -/
theorem read_suffix (bs : Bytes) : unread (Packet.read bs) <:+ bs := by
  refine unread_field_suffix _ (FixedHeader.readParts_suffix bs) fun parts bs => ?_
  dsimp only
  split
  · next h _ => exact readLimited_suffix h bs
  · exact List.drop_suffix _ bs
  · exact List.suffix_rfl

/-- What is left of a stream by the reader that awaits is an end of it. -/
theorem await_suffix (bs : Bytes) : unread (Packet.await bs) <:+ bs := by
  refine unread_field_suffix _ (FixedHeader.await_suffix bs) fun h bs => ?_
  dsimp only
  split
  · exact List.nil_suffix
  · rw [unread_leaving]
    exact List.drop_suffix _ bs

end Packet

end Mqtt
