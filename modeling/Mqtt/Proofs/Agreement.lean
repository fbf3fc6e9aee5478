import Mathlib.Data.List.Perm.Basic
import Mqtt.Proofs.Moments

/-!
# Machines in agreement

Two states of a machine agree when their tables have the same policies and the same exchanges
under all identifiers, in whatever order these came and went. Asked the same on an open queue, they
put out the same and agree again. After a look at the clock they agree even if it went through the
tables in different orders.
-/
namespace Mqtt

/-- Two steps that put out the same and end alike, in related states. -/
structure Step.Alike {σ ε α : Type} (R : σ → σ → Prop) (a b : Step σ ε α) : Prop where
  state : R a.state b.state
  output : a.output = b.output
  result : a.result = b.result

namespace Step.Alike
variable {σ τ ε δ α β : Type} {R : σ → σ → Prop} {a b : Step σ ε α}

theorem andThen {f g : σ → α → Step σ ε β} (h : a.Alike R b)
    (hf : ∀ {s t}, R s t → ∀ x, (f s x).Alike R (g t x)) : (a.andThen f).Alike R (b.andThen g) := by
  obtain ⟨s, output, result⟩ := a
  obtain ⟨t, output', result'⟩ := b
  obtain ⟨hstate, houtput, hresult⟩ := h
  dsimp only at hstate houtput hresult
  subst houtput hresult
  cases result with
  | error e => exact ⟨hstate, rfl, rfl⟩
  | ok x =>
    have hx := hf hstate x
    exact ⟨hx.state, congrArg (output ++ ·) hx.output, hx.result⟩

theorem inside {R' : τ → τ → Prop} {put put' : σ → τ} (h : a.Alike R b)
    (hput : ∀ {s t}, R s t → R' (put s) (put' t)) : (a.inside put).Alike R' (b.inside put') :=
  ⟨hput h.state, h.output, h.result⟩

theorem mapError (h : a.Alike R b) (f : ε → δ) : (a.mapError f).Alike R (b.mapError f) :=
  ⟨h.state, h.output, congrArg (Except.mapError f) h.result⟩

theorem void (h : a.Alike R b) : a.void.Alike R b.void :=
  ⟨h.state, h.output, congrArg (Except.map fun _ => ()) h.result⟩

end Step.Alike

/-! ## Tables -/

namespace RetryTable
variable {α : Type} [Exchange α] {t u : RetryTable α}

omit [Exchange α] in
/-- One policy, and the same exchange under every identifier. -/
structure Agrees (t u : RetryTable α) : Prop where
  policy : t.policy = u.policy
  get? : ∀ x, t.get? x = u.get? x

namespace Agrees

omit [Exchange α] in
theorem refl (t : RetryTable α) : t.Agrees t := ⟨rfl, fun _ => rfl⟩

omit [Exchange α] in
theorem contains (h : t.Agrees u) (x : UInt16) : t.contains x = u.contains x := by
  rw [contains_eq, contains_eq, h.get?]

omit [Exchange α] in
theorem perm_ids (h : t.Agrees u) : t.ids.Perm u.ids := by
  have hnodup (t : RetryTable α) : t.ids.Nodup := nodup_of_perm_ids (.refl _)
  refine (List.perm_ext_iff_of_nodup (hnodup t) (hnodup u)).mpr fun x => ?_
  rw [mem_ids, mem_ids, h.get?]

omit [Exchange α] in
theorem erase (h : t.Agrees u) (id : UInt16) : (t.erase id).Agrees (u.erase id) := by
  refine ⟨h.policy, fun x => ?_⟩
  rw [get?_erase, get?_erase, h.get?]

omit [Exchange α] in
theorem reset (h : t.Agrees u) : t.reset.Agrees u.reset := by
  rw [RetryTable.reset, RetryTable.reset, h.policy]
  exact refl _

theorem enqueueContext (h : t.Agrees u) (c : Context α) (now : Time) :
    (t.enqueueContext true c now).Alike Agrees (u.enqueueContext true c now) := by
  refine ⟨⟨h.policy, fun x => ?_⟩, rfl, rfl⟩
  rw [get?_enqueueContext, get?_enqueueContext, h.get?]

omit [Exchange α] in
/-- Both tables or none have the exchange that is taken out, and what is left of them agrees. -/
theorem removed (h : t.Agrees u) (f : Context α → Context α) (id : UInt16) :
    let taken (t : RetryTable α) := (t.get? id).map fun c => (f c, t.erase id)
    (taken t = none ∧ taken u = none) ∨
      ∃ c t' u', taken t = some (c, t') ∧ taken u = some (c, u') ∧ t'.Agrees u' := by
  intro taken
  have hget := h.get? id
  cases hc : u.get? id with
  | none => exact .inl ⟨by simp only [taken, hget, hc, Option.map_none], by simp [taken, hc]⟩
  | some c =>
    exact .inr ⟨f c, _, _, by simp only [taken, hget, hc, Option.map_some], by simp [taken, hc],
      h.erase id⟩

omit [Exchange α] in
theorem finalize (h : t.Agrees u) (id : UInt16) :
    (t.finalize id = none ∧ u.finalize id = none) ∨
      ∃ c t' u', t.finalize id = some (c, t') ∧ u.finalize id = some (c, u') ∧ t'.Agrees u' :=
  h.removed (Context.finish · true) id

omit [Exchange α] in
theorem take (h : t.Agrees u) (id : UInt16) :
    (t.take id = none ∧ u.take id = none) ∨
      ∃ c t' u', t.take id = some (c, t') ∧ u.take id = some (c, u') ∧ t'.Agrees u' :=
  h.removed (fun c => c) id

/-- A pass leaves the same in both tables, whatever the orders are. -/
theorem tickInOrder (h : t.Agrees u) {order order' : List UInt16} (horder : order.Perm t.ids)
    (horder' : order'.Perm u.ids) (now : Time) :
    (t.tickInOrder true now order).state.Agrees (u.tickInOrder true now order').state := by
  refine ⟨?_, fun x => ?_⟩
  · rw [tickInOrder_policy, tickInOrder_policy, h.policy]
  · rw [get?_tickInOrder horder, get?_tickInOrder horder', h.get?, h.policy]

section Requests
variable {α : Type} [Awaited α] {t u : RetryTable α}

theorem ask (h : t.Agrees u) (e : α) (now : Time) :
    (t.ask true e now).Alike Agrees (u.ask true e now) := by
  rw [RetryTable.ask, RetryTable.ask, h.get?]
  exact (h.enqueueContext _ now).andThen fun ht _ => ⟨ht, rfl, rfl⟩

theorem confirm (h : t.Agrees u) (event : α → Event) (reply : Reply) (id : UInt16) :
    (t.confirm event reply id).1.Agrees (u.confirm event reply id).1 ∧
      (t.confirm event reply id).2 = (u.confirm event reply id).2 := by
  rw [RetryTable.confirm, RetryTable.confirm]
  obtain ⟨ht, hu⟩ | ⟨c, t', u', ht, hu, hagrees⟩ := h.finalize id
  · rw [ht, hu]
    exact ⟨h, rfl⟩
  · rw [ht, hu]
    exact ⟨hagrees, rfl⟩

end Requests

end Agrees

end RetryTable

/-! ## Machines -/

namespace Outgoing

structure Agrees (m n : Outgoing) : Prop where
  puback : m.awaitPuback.Agrees n.awaitPuback
  pubrec : m.awaitPubrec.Agrees n.awaitPubrec
  pubcomp : m.awaitPubcomp.Agrees n.awaitPubcomp

namespace Agrees
variable {m n : Outgoing}

theorem refl (m : Outgoing) : m.Agrees m := ⟨.refl _, .refl _, .refl _⟩

theorem contains (h : m.Agrees n) (x : UInt16) : m.contains x = n.contains x := by
  rw [Outgoing.contains, Outgoing.contains, h.puback.contains, h.pubrec.contains,
    h.pubcomp.contains]

theorem reset (h : m.Agrees n) : m.reset.Agrees n.reset :=
  ⟨h.puback.reset, h.pubrec.reset, h.pubcomp.reset⟩

theorem publish (h : m.Agrees n) (p : PublishPacket) (now : Time) :
    (m.publish true p now).Alike Agrees (n.publish true p now) := by
  rw [Outgoing.publish, Outgoing.publish]
  split
  · exact ⟨h, rfl, rfl⟩
  · exact (h.puback.enqueueContext _ now).inside fun ht => ⟨ht, h.pubrec, h.pubcomp⟩
  · exact (h.pubrec.enqueueContext _ now).inside fun ht => ⟨h.puback, ht, h.pubcomp⟩

theorem puback_step (h : m.Agrees n) (id : UInt16) :
    (m.puback id).1.Agrees (n.puback id).1 ∧ (m.puback id).2 = (n.puback id).2 := by
  rw [Outgoing.puback, Outgoing.puback]
  obtain ⟨ht, hu⟩ | ⟨c, t, u, ht, hu, hagrees⟩ := h.puback.finalize id
  · rw [ht, hu]
    exact ⟨h, rfl⟩
  · rw [ht, hu]
    exact ⟨⟨hagrees, h.pubrec, h.pubcomp⟩, rfl⟩

theorem pubcomp_step (h : m.Agrees n) (id : UInt16) :
    (m.pubcomp id).1.Agrees (n.pubcomp id).1 ∧ (m.pubcomp id).2 = (n.pubcomp id).2 := by
  rw [Outgoing.pubcomp, Outgoing.pubcomp]
  obtain ⟨ht, hu⟩ | ⟨c, t, u, ht, hu, hagrees⟩ := h.pubcomp.finalize id
  · rw [ht, hu]
    exact ⟨h, rfl⟩
  · rw [ht, hu]
    exact ⟨⟨h.puback, h.pubrec, hagrees⟩, rfl⟩

theorem pubrec_step (h : m.Agrees n) (id : UInt16) (now : Time) :
    (m.pubrec true id now).Alike Agrees (n.pubrec true id now) := by
  rw [Outgoing.pubrec, Outgoing.pubrec]
  obtain ⟨ht, hu⟩ | ⟨c, t, u, ht, hu, hagrees⟩ := h.pubrec.finalize id
  · rw [ht, hu]
    dsimp only
    obtain ⟨ht, hu⟩ | ⟨c, t, u, ht, hu, hagrees⟩ := h.pubcomp.take id
    · rw [ht, hu]
      exact ⟨h, rfl, rfl⟩
    · rw [ht, hu]
      exact (hagrees.enqueueContext c now).inside fun hpubcomp => ⟨h.puback, h.pubrec, hpubcomp⟩
  · rw [ht, hu]
    exact (h.pubcomp.enqueueContext _ now).inside fun hpubcomp => ⟨h.puback, hagrees, hpubcomp⟩

end Agrees

end Outgoing

namespace Incoming

structure Agrees (m n : Incoming) : Prop where
  acknowledged : m.acknowledged.Agrees n.acknowledged
  awaitPubrel : m.awaitPubrel.Agrees n.awaitPubrel

namespace Agrees
variable {m n : Incoming}

theorem refl (m : Incoming) : m.Agrees m := ⟨.refl _, .refl _⟩

theorem reset (h : m.Agrees n) : m.reset.Agrees n.reset :=
  ⟨h.acknowledged.reset, h.awaitPubrel.reset⟩

theorem publish (h : m.Agrees n) (p : PublishPacket) (now : Time) :
    (m.publish true p now).Alike Agrees (n.publish true p now) := by
  rw [Incoming.publish, Incoming.publish]
  split
  · exact ⟨h, rfl, rfl⟩
  · next id _ =>
    refine Step.Alike.inside (R := RetryTable.Agrees) ?_ fun ht => ⟨ht, h.awaitPubrel⟩
    refine (h.acknowledged.enqueueContext _ now).andThen fun {t u} htu _ => ⟨?_, rfl, rfl⟩
    dsimp only [Step.emit]
    obtain ⟨ht, hu⟩ | ⟨c, t', u', ht, hu, hagrees⟩ := htu.finalize id
    · rw [ht, hu]
      exact htu
    · rw [ht, hu]
      exact hagrees
  · exact (h.awaitPubrel.enqueueContext _ now).inside fun ht => ⟨h.acknowledged, ht⟩

theorem pubrel (h : m.Agrees n) (id : UInt16) :
    (m.pubrel true id).Alike Agrees (n.pubrel true id) := by
  rw [Incoming.pubrel, Incoming.pubrel]
  refine Step.Alike.andThen (R := Agrees) ?_ fun ht _ => ⟨ht, rfl, rfl⟩
  obtain ⟨ht, hu⟩ | ⟨c, t, u, ht, hu, hagrees⟩ := h.awaitPubrel.finalize id
  · rw [ht, hu]
    exact ⟨h, rfl, rfl⟩
  · rw [ht, hu]
    exact ⟨⟨h.acknowledged, hagrees⟩, rfl, rfl⟩

end Agrees

end Incoming

namespace Subscriptions

structure Agrees (m n : Subscriptions) : Prop where
  subscribes : m.subscribes.Agrees n.subscribes
  unsubscribes : m.unsubscribes.Agrees n.unsubscribes

namespace Agrees
variable {m n : Subscriptions}

theorem refl (m : Subscriptions) : m.Agrees m := ⟨.refl _, .refl _⟩

theorem contains (h : m.Agrees n) (x : UInt16) : m.contains x = n.contains x := by
  rw [Subscriptions.contains, Subscriptions.contains, h.subscribes.contains,
    h.unsubscribes.contains]

theorem reset (h : m.Agrees n) : m.reset.1.Agrees n.reset.1 :=
  ⟨h.subscribes.reset, h.unsubscribes.reset⟩

theorem subscribe (h : m.Agrees n) (request : Subscribe) (waiter : Waiter) (now : Time) :
    (m.subscribe true request waiter now).Alike Agrees (n.subscribe true request waiter now) :=
  (h.subscribes.ask ⟨request, waiter⟩ now).inside fun ht => ⟨ht, h.unsubscribes⟩

theorem unsubscribe (h : m.Agrees n) (request : Unsubscribe) (waiter : Waiter) (now : Time) :
    (m.unsubscribe true request waiter now).Alike Agrees (n.unsubscribe true request waiter now) :=
  (h.unsubscribes.ask ⟨request, waiter⟩ now).inside fun ht => ⟨h.subscribes, ht⟩

theorem suback (h : m.Agrees n) (id : UInt16) (code : SubscribeCode) :
    (m.suback id code).1.Agrees (n.suback id code).1 ∧
      (m.suback id code).2 = (n.suback id code).2 := by
  rw [suback_eq, suback_eq]
  obtain ⟨hagrees, houtput⟩ := h.subscribes.confirm (fun e => .subscribed id e.request.filter code)
    (.subscribed code) id
  exact ⟨⟨hagrees, h.unsubscribes⟩, houtput⟩

theorem unsuback (h : m.Agrees n) (id : UInt16) :
    (m.unsuback id).1.Agrees (n.unsuback id).1 ∧ (m.unsuback id).2 = (n.unsuback id).2 := by
  rw [unsuback_eq, unsuback_eq]
  obtain ⟨hagrees, houtput⟩ := h.unsubscribes.confirm (fun e => .unsubscribed id e.request.filter)
    .unsubscribed id
  exact ⟨⟨h.subscribes, hagrees⟩, houtput⟩

end Agrees

end Subscriptions

end Mqtt
