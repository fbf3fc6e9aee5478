import Mqtt.Client.Session
import Mqtt.Proofs.Hold
import Mqtt.Proofs.Requests
import Mqtt.Proofs.Stage

/-!
# Unfinished exchanges

Five tables of a session track exchanges that began on this side, all under one space of
identifiers. A step of the session keeps what it finds or takes it out, and at most one exchange
is entered, where there was none. Packets may meet a closed queue at any step.
-/
namespace Mqtt

namespace Step
variable {σ τ ε δ α β : Type}

/-- Whatever came of the first step, a property of its state that the second keeps holds after
both. -/
theorem state_andThen {P : σ → Prop} {a : Step σ ε α} {f : σ → α → Step σ ε β} (h : P a.state)
    (hf : ∀ x, P (f a.state x).state) : P (a.andThen f).state := by
  rw [andThen]
  split
  · exact h
  · exact hf _

theorem state_andThen_eq {a : Step σ ε α} {f : σ → α → Step σ ε β}
    (hf : ∀ s x, (f s x).state = s) : (a.andThen f).state = a.state := by
  rw [andThen]
  split
  · rfl
  · exact hf _ _

end Step

/-! ## One table -/

namespace RetryTable
variable {α : Type} [Exchange α] {t u v : RetryTable α}

/-- What a visit may do: leave all as it is, give the exchange up, or count an attempt, which is
written or meets a closed queue. -/
inductive Visits (now : Time) (s : Sweep α) (id : UInt16) : Sweep α → Prop
  | rests : Visits now s id s
  | givesUp {c : Context α} (hc : s.contexts[id]? = some c) :
      Visits now s id { s with
        contexts := s.contexts.insert id (c.finish false)
        exhausted := id :: s.exhausted }
  | writes {c : Context α} (hc : s.contexts[id]? = some c) :
      Visits now s id { s with
        contexts := s.contexts.insert id (c.resend now)
        sent := Exchange.packet c.exchange (c.attempt + 1) :: s.sent }
  | fails {c : Context α} (hc : s.contexts[id]? = some c) :
      Visits now s id { s with contexts := s.contexts.insert id (c.resend now), blocked := true }

theorem visits (policy : RetryPolicy) (isOpen : Bool) (now : Time) (s : Sweep α) (id : UInt16) :
    Visits now s id (visit policy isOpen now s id) := by
  rw [visit]
  split
  · exact .rests
  · cases hc : s.contexts[id]? with
    | none => exact .rests
    | some c =>
      dsimp only
      split
      · exact .rests
      · split
        · exact .givesUp hc
        · cases isOpen with
          | false => exact .fails hc
          | true => exact .writes hc

/-- What every visit keeps holds after a sweep. -/
theorem sweep_keeps {P : Sweep α → Prop} (t : RetryTable α) (isOpen : Bool) (now : Time)
    (order : List UInt16) (start : P ⟨t.contexts, [], [], false⟩)
    (step : ∀ {s s' id}, P s → Visits now s id s' → P s') : P (t.sweep isOpen now order) :=
  List.foldlRecOn order _ start fun _ hs id _ => step hs (visits t.policy isOpen now _ id)

/-- A pass keeps of a sweep what it does not give up. -/
theorem getElem?_sweep_of_tickInOrder {isOpen : Bool} {now : Time} {order : List UInt16}
    {x : UInt16} {c : Context α} (h : (t.tickInOrder isOpen now order).state.get? x = some c) :
    (t.sweep isOpen now order).contexts[x]? = some c := by
  rw [tickInOrder] at h
  dsimp only at h
  split at h
  · exact h
  · rw [get?, getElem?_foldl_erase] at h
    split at h
    · cases h
    · exact h

omit [Exchange α] in
/-- All that the first table tracks is tracked by the second. -/
def Within (t u : RetryTable α) : Prop :=
  ∀ x c, t.get? x = some c → ∃ c', u.get? x = some c' ∧ c.exchange = c'.exchange

omit [Exchange α] in
theorem Within.refl (t : RetryTable α) : t.Within t := fun _ c h => ⟨c, h, rfl⟩

omit [Exchange α] in
theorem Within.trans (h : t.Within u) (h' : u.Within v) : t.Within v := by
  intro x c hc
  obtain ⟨c', hc', hsame⟩ := h x c hc
  obtain ⟨c'', hc'', hsame'⟩ := h' x c' hc'
  exact ⟨c'', hc'', hsame.trans hsame'⟩

omit [Exchange α] in
theorem within_erase (t : RetryTable α) (id : UInt16) : (t.erase id).Within t := by
  intro x c hc
  rw [get?_erase] at hc
  split at hc
  · cases hc
  · exact ⟨c, hc, rfl⟩

omit [Exchange α] in
theorem within_reset (t : RetryTable α) : t.reset.Within t := by
  intro x c hc
  rw [reset, get?_empty] at hc
  cases hc

theorem within_visit {policy : RetryPolicy} {now : Time} {s s' : Sweep α} {id : UInt16}
    (h : Visits now s id s') : Within ⟨policy, s'.contexts⟩ ⟨policy, s.contexts⟩ := by
  -- a visit writes back the exchange that it met
  have hput {c c' : Context α} (hc : s.contexts[id]? = some c) (hsame : c'.exchange = c.exchange) :
      Within ⟨policy, s.contexts.insert id c'⟩ ⟨policy, s.contexts⟩ := by
    intro x d hd
    rw [get?, Std.TreeMap.getElem?_insert] at hd
    split at hd
    · next hid =>
      obtain rfl : id = x := by simpa using hid
      cases hd
      exact ⟨c, hc, hsame⟩
    · exact ⟨d, hd, rfl⟩
  cases h with
  | rests => exact Within.refl _
  | givesUp hc | writes hc | fails hc => exact hput hc rfl

theorem within_sweep (t : RetryTable α) (isOpen : Bool) (now : Time) (order : List UInt16) :
    Within ⟨t.policy, (t.sweep isOpen now order).contexts⟩ t :=
  t.sweep_keeps (P := fun s => Within ⟨t.policy, s.contexts⟩ t) isOpen now order (Within.refl t)
    fun hs hvisit => (within_visit hvisit).trans hs

theorem within_tickInOrder (t : RetryTable α) (isOpen : Bool) (now : Time) (order : List UInt16) :
    (t.tickInOrder isOpen now order).state.Within t :=
  fun x c hc => t.within_sweep isOpen now order x c (getElem?_sweep_of_tickInOrder hc)

/-- Whatever a pass puts out, it enters nothing. -/
theorem within_pass (t : RetryTable α) (isOpen : Bool) (now : Time) (order : List UInt16)
    (put : List (Context α) → Output) :
    ((t.tickInOrder isOpen now order).andThen fun t es =>
      (.emit t (put es) : Step (RetryTable α) ClientError Unit)).state.Within t := by
  rw [Step.state_andThen_eq fun _ _ => rfl]
  exact within_tickInOrder t isOpen now order

omit [Exchange α] in
theorem within_finalize {c : Context α} {id : UInt16} (h : t.finalize id = some (c, u)) :
    u.Within t := by
  obtain ⟨c', -, hsome⟩ := Option.map_eq_some_iff.mp h
  cases hsome
  exact within_erase t id

theorem within_confirm {α : Type} [Awaited α] (t : RetryTable α) (event : α → Event) (reply : Reply)
    (id : UInt16) : (t.confirm event reply id).1.Within t := by
  intro x c hc
  rw [get?_confirm] at hc
  obtain ⟨c', hc', hkept⟩ := Option.bind_eq_some_iff.mp hc
  split at hkept <;> cases hkept
  exact ⟨c, hc', rfl⟩

theorem within_renewInOrder {α : Type} [Awaited α] (t : RetryTable α) (isOpen : Bool) (now : Time)
    (order : List UInt16) : (t.renewInOrder isOpen now order).state.Within t :=
  t.within_pass isOpen now order fun es => .ofAnswers (es.map lapsed)

/-- What is seen of a table under which the first attempt of an exchange was written. -/
theorem map_get?_enqueue {β : Type} (t : RetryTable α) (e : α) (now : Time) (f : Context α → β)
    (y : UInt16) :
    ((t.enqueue true e now).state.get? y).map f =
      if Exchange.id e = y then some (f ⟨e, 1, now, false, false⟩) else (t.get? y).map f := by
  have hget := RetryTable.get?_enqueueContext t (.new e now) now y
  rw [RetryTable.enqueue, hget]
  change Option.map f (if Exchange.id e = y then _ else _) = _
  split <;> rfl

/-- To begin an exchange again enters no other. -/
theorem within_again {c : Context α} {id : UInt16} (h : t.get? id = some c)
    (hid : Exchange.id c.exchange = id) (isOpen : Bool) (now : Time) :
    ((t.erase id).enqueueContext isOpen c now).state.Within t := by
  cases isOpen with
  | false => exact within_erase t id
  | true =>
    intro x d hd
    rw [get?_enqueueContext] at hd
    split at hd
    · next hx =>
      cases hd
      exact ⟨c, by rw [← hx, hid, h], rfl⟩
    · exact within_erase t id x d hd

end RetryTable

/-! ## The parts of a session -/

/-- All that the first machine tracks is tracked by the second, in the same tables. -/
structure Outgoing.Within (m n : Outgoing) : Prop where
  puback : m.awaitPuback.Within n.awaitPuback
  pubrec : m.awaitPubrec.Within n.awaitPubrec
  pubcomp : m.awaitPubcomp.Within n.awaitPubcomp

namespace Outgoing

theorem Within.refl (m : Outgoing) : m.Within m :=
  ⟨RetryTable.Within.refl _, RetryTable.Within.refl _, RetryTable.Within.refl _⟩

theorem within_reset (m : Outgoing) : m.reset.Within m :=
  ⟨RetryTable.within_reset _, RetryTable.within_reset _, RetryTable.within_reset _⟩

theorem within_puback (m : Outgoing) (id : UInt16) : (m.puback id).1.Within m := by
  rw [puback]
  split
  · exact Within.refl m
  · next h =>
    exact ⟨RetryTable.within_finalize h, RetryTable.Within.refl _, RetryTable.Within.refl _⟩

theorem within_pubcomp (m : Outgoing) (id : UInt16) : (m.pubcomp id).1.Within m := by
  rw [pubcomp]
  split
  · exact Within.refl m
  · next h =>
    exact ⟨RetryTable.Within.refl _, RetryTable.Within.refl _, RetryTable.within_finalize h⟩

theorem within_tickInOrder (m : Outgoing) (isOpen : Bool) (now : Time)
    (first second third : List UInt16) :
    (m.tickInOrder isOpen now first second third).state.Within m := by
  have hfirst := m.awaitPuback.within_pass isOpen now first failures
  have hsecond := m.awaitPubrec.within_pass isOpen now second failures
  have hthird := m.awaitPubcomp.within_pass isOpen now third failures
  exact Step.state_andThen (P := (Within · m))
    ⟨hfirst, RetryTable.Within.refl _, RetryTable.Within.refl _⟩ fun _ =>
      Step.state_andThen (P := (Within · m)) ⟨hfirst, hsecond, RetryTable.Within.refl _⟩ fun _ =>
        ⟨hfirst, hsecond, hthird⟩

end Outgoing

structure Subscriptions.Within (m n : Subscriptions) : Prop where
  subscribes : m.subscribes.Within n.subscribes
  unsubscribes : m.unsubscribes.Within n.unsubscribes

namespace Subscriptions

theorem Within.refl (m : Subscriptions) : m.Within m :=
  ⟨RetryTable.Within.refl _, RetryTable.Within.refl _⟩

theorem within_reset (m : Subscriptions) : m.reset.1.Within m :=
  ⟨RetryTable.within_reset _, RetryTable.within_reset _⟩

theorem within_suback (m : Subscriptions) (id : UInt16) (code : SubscribeCode) :
    (m.suback id code).1.Within m := by
  rw [suback_eq]
  exact ⟨RetryTable.within_confirm _ _ _ id, RetryTable.Within.refl _⟩

theorem within_unsuback (m : Subscriptions) (id : UInt16) : (m.unsuback id).1.Within m := by
  rw [unsuback_eq]
  exact ⟨RetryTable.Within.refl _, RetryTable.within_confirm _ _ _ id⟩

theorem within_tickInOrder (m : Subscriptions) (isOpen : Bool) (now : Time)
    (first second : List UInt16) :
    (m.tickInOrder isOpen now first second).state.Within m := by
  have hfirst := m.subscribes.within_renewInOrder isOpen now first
  have hsecond := m.unsubscribes.within_renewInOrder isOpen now second
  exact Step.state_andThen (P := (Within · m)) ⟨hfirst, RetryTable.Within.refl _⟩ fun _ =>
    ⟨hfirst, hsecond⟩

end Subscriptions

/-! ## All tables under one space of identifiers -/

namespace Session

/-- The tables of the exchanges that began on this side. -/
inductive Tracker
  | puback
  | pubrec
  | pubcomp
  | subscribe
  | unsubscribe
  deriving DecidableEq, Repr

def Tracker.all : List Tracker := [puback, pubrec, pubcomp, subscribe, unsubscribe]

/-- What one of these tables tracks. -/
inductive Held
  | publish (e : PublishExchange)
  | release (e : ReleaseExchange)
  | subscribe (e : SubscribeExchange)
  | unsubscribe (e : UnsubscribeExchange)
  deriving DecidableEq, Repr

instance : Exchange Held where
  id
    | .publish e => Exchange.id e
    | .release e => Exchange.id e
    | .subscribe e => Exchange.id e
    | .unsubscribe e => Exchange.id e
  packet
    | .publish e, attempt => Exchange.packet e attempt
    | .release e, attempt => Exchange.packet e attempt
    | .subscribe e, attempt => Exchange.packet e attempt
    | .unsubscribe e, attempt => Exchange.packet e attempt

def held (s : Session) : Tracker → UInt16 → Option Held
  | .puback, x => (s.outgoing.awaitPuback.get? x).map fun c => .publish c.exchange
  | .pubrec, x => (s.outgoing.awaitPubrec.get? x).map fun c => .publish c.exchange
  | .pubcomp, x => (s.outgoing.awaitPubcomp.get? x).map fun c => .release c.exchange
  | .subscribe, x => (s.subscriptions.subscribes.get? x).map fun c => .subscribe c.exchange
  | .unsubscribe, x => (s.subscriptions.unsubscribes.get? x).map fun c => .unsubscribe c.exchange

def keys (s : Session) : Tracker → List UInt16
  | .puback => s.outgoing.awaitPuback.ids
  | .pubrec => s.outgoing.awaitPubrec.ids
  | .pubcomp => s.outgoing.awaitPubcomp.ids
  | .subscribe => s.subscriptions.subscribes.ids
  | .unsubscribe => s.subscriptions.unsubscribes.ids

/-- The identifiers that are in use, as often as they are. -/
def unfinished (s : Session) : List UInt16 := Tracker.all.flatMap s.keys

section Tables
variable {s s' : Session} {k : Tracker} {x : UInt16} {h : Held}

theorem mem_keys : x ∈ s.keys k ↔ (s.held k x).isSome = true := by
  cases k <;> simp [keys, held, RetryTable.mem_ids]

theorem nodup_keys (s : Session) (k : Tracker) : (s.keys k).Nodup := by
  cases k <;> exact Std.TreeMap.nodup_keys

theorem mem_unfinished : x ∈ s.unfinished ↔ ∃ k, (s.held k x).isSome = true := by
  have hall : ∀ k : Tracker, k ∈ Tracker.all := by
    intro k
    cases k <;> decide
  rw [unfinished, List.mem_flatMap]
  constructor
  · rintro ⟨k, -, hx⟩
    exact ⟨k, mem_keys.mp hx⟩
  · rintro ⟨k, hx⟩
    exact ⟨k, hall k, mem_keys.mpr hx⟩

theorem isBusy_iff : s.isBusy x = true ↔ x ∈ s.unfinished := by
  simp [isBusy, Outgoing.contains, Subscriptions.contains, RetryTable.contains_eq, unfinished,
    Tracker.all, keys, RetryTable.mem_ids, or_assoc]

/-- An exchange is tracked under the identifier that it and its packets carry, in no two tables. -/
structure Sound (s : Session) : Prop where
  named : ∀ {k x h}, s.held k x = some h → Exchange.id h = x ∧ x ≠ 0
  addressed : ∀ {k x h}, s.held k x = some h →
    ∀ attempt, Packet.id? (Exchange.packet h attempt) = some x
  alone : ∀ {k k' x h h'}, s.held k x = some h → s.held k' x = some h' → k = k'

theorem sound_new (o : Options) (now : Time) : (new o now).Sound := by
  have hnone : ∀ k x, (new o now).held k x = none := by
    intro k x
    cases k <;> simp [held, new, Outgoing.new, Subscriptions.new]
  constructor <;> simp [hnone]

theorem Sound.nodup_unfinished (sound : s.Sound) : s.unfinished.Nodup := by
  rw [unfinished, List.nodup_flatMap]
  refine ⟨fun k _ => s.nodup_keys k, ?_⟩
  have hpairwise : Tracker.all.Pairwise (· ≠ ·) := by decide
  refine hpairwise.imp fun {k k'} hne x hx hx' => ?_
  obtain ⟨h, hh⟩ := Option.isSome_iff_exists.mp (mem_keys.mp hx)
  obtain ⟨h', hh'⟩ := Option.isSome_iff_exists.mp (mem_keys.mp hx')
  exact hne (sound.alone hh hh')

theorem Sound.zero_not_mem_unfinished (sound : s.Sound) : 0 ∉ s.unfinished := by
  intro hzero
  obtain ⟨k, hk⟩ := mem_unfinished.mp hzero
  obtain ⟨h, hh⟩ := Option.isSome_iff_exists.mp hk
  exact (sound.named hh).2 rfl

end Tables

/-! ## What a step may do to the tables -/

/-- All that is tracked was tracked before, in the same table. -/
def Within (s' s : Session) : Prop := ∀ k x h, s'.held k x = some h → s.held k x = some h

/-- The exchange `h` is entered under an identifier that is left to it alone. -/
structure Enters (s s' : Session) (k : Tracker) (x : UInt16) (h : Held) : Prop where
  free : s.held k x = none
  named : Exchange.id h = x ∧ x ≠ 0
  addressed : ∀ attempt, Packet.id? (Exchange.packet h attempt) = some x
  rest : ∀ {k' x' h'}, s'.held k' x' = some h' →
    (s.held k' x' = some h' ∧ x' ≠ x) ∨ (k' = k ∧ x' = x ∧ h' = h)

section Changes
variable {s s' t : Session} {k : Tracker} {x : UInt16} {h : Held}

theorem Within.refl (s : Session) : s.Within s := fun _ _ _ hh => hh

theorem within_of_parts (ho : s'.outgoing.Within s.outgoing)
    (hs : s'.subscriptions.Within s.subscriptions) : s'.Within s := by
  have htable : ∀ {α : Type} {t u : RetryTable α} {x : UInt16} {f : α → Held} {h : Held},
      t.Within u → (t.get? x).map (fun c => f c.exchange) = some h →
        (u.get? x).map (fun c => f c.exchange) = some h := by
    intro α t u x f h hwithin hh
    obtain ⟨c, hc, rfl⟩ := Option.map_eq_some_iff.mp hh
    obtain ⟨c', hc', hsame⟩ := hwithin x c hc
    rw [hc', hsame]
    rfl
  intro k x h hh
  cases k with
  | puback => exact htable ho.puback hh
  | pubrec => exact htable ho.pubrec hh
  | pubcomp => exact htable ho.pubcomp hh
  | subscribe => exact htable hs.subscribes hh
  | unsubscribe => exact htable hs.unsubscribes hh

theorem Within.sound (hwithin : s'.Within s) (sound : s.Sound) : s'.Sound where
  named hh := sound.named (hwithin _ _ _ hh)
  addressed hh := sound.addressed (hwithin _ _ _ hh)
  alone hh hh' := sound.alone (hwithin _ _ _ hh) (hwithin _ _ _ hh')

theorem Enters.sound (henters : s.Enters s' k x h) (sound : s.Sound) : s'.Sound where
  named hh := by
    obtain ⟨hold, -⟩ | ⟨rfl, rfl, rfl⟩ := henters.rest hh
    · exact sound.named hold
    · exact henters.named
  addressed hh := by
    obtain ⟨hold, -⟩ | ⟨rfl, rfl, rfl⟩ := henters.rest hh
    · exact sound.addressed hold
    · exact henters.addressed
  alone hh hh' := by
    obtain ⟨hold, hne⟩ | ⟨rfl, rfl, rfl⟩ := henters.rest hh
    · obtain ⟨hold', -⟩ | ⟨rfl, rfl, rfl⟩ := henters.rest hh'
      · exact sound.alone hold hold'
      · exact absurd rfl hne
    · obtain ⟨-, hne⟩ | ⟨rfl, -, -⟩ := henters.rest hh'
      · exact absurd rfl hne
      · rfl

/-- What is entered where nothing was replaces nothing. -/
theorem Enters.keeps (henters : s.Enters s' k x h) {k' : Tracker} {x' : UInt16} {h₁ h₂ : Held}
    (hbefore : s.held k' x' = some h₁) (hafter : s'.held k' x' = some h₂) : h₂ = h₁ := by
  obtain ⟨hold, -⟩ | ⟨rfl, rfl, rfl⟩ := henters.rest hafter
  · exact Option.some.inj (hold.symm.trans hbefore)
  · cases henters.free.symm.trans hbefore

/-- What is entered in one table, under an identifier that none of them has. -/
theorem enters_of_fresh (fresh : x ∉ s.unfinished) (named : Exchange.id h = x ∧ x ≠ 0)
    (addressed : ∀ attempt, Packet.id? (Exchange.packet h attempt) = some x)
    (hput : ∀ y, s'.held k y = if x = y then some h else s.held k y)
    (hkeep : ∀ k' ≠ k, s'.held k' = s.held k') : s.Enters s' k x h := by
  have hfree : ∀ k', s.held k' x = none := by
    intro k'
    rw [mem_unfinished, not_exists] at fresh
    simpa using fresh k'
  have hne : ∀ {k' y h'}, s.held k' y = some h' → y ≠ x := by
    rintro k' y h' hh rfl
    rw [hfree k'] at hh
    cases hh
  refine ⟨hfree k, named, addressed, fun {k' y h'} hh => ?_⟩
  by_cases hk : k' = k
  · subst hk
    rw [hput] at hh
    split at hh
    · next heq =>
      subst heq
      cases hh
      exact .inr ⟨rfl, rfl, rfl⟩
    · exact .inl ⟨hh, hne hh⟩
  · rw [hkeep k' hk] at hh
    exact .inl ⟨hh, hne hh⟩

end Changes

/-! ## Steps -/

/-- The orders in which a tick goes through the tables. -/
structure Orders where
  subscribes : List UInt16
  unsubscribes : List UInt16
  awaitPuback : List UInt16
  awaitPubrec : List UInt16
  awaitPubcomp : List UInt16
  acknowledged : List UInt16
  awaitPubrel : List UInt16

structure Orders.Fit (o : Orders) (s : Session) : Prop where
  subscribes : o.subscribes.Perm s.subscriptions.subscribes.ids
  unsubscribes : o.unsubscribes.Perm s.subscriptions.unsubscribes.ids
  awaitPuback : o.awaitPuback.Perm s.outgoing.awaitPuback.ids
  awaitPubrec : o.awaitPubrec.Perm s.outgoing.awaitPubrec.ids
  awaitPubcomp : o.awaitPubcomp.Perm s.outgoing.awaitPubcomp.ids
  acknowledged : o.acknowledged.Perm s.incoming.acknowledged.ids
  awaitPubrel : o.awaitPubrel.Perm s.incoming.awaitPubrel.ids

def tickExchangesInOrder (s : Session) (isOpen : Bool) (now : Time) (o : Orders) :
    Step Session ClientError Unit :=
  ((s.subscriptions.tickInOrder isOpen now o.subscribes o.unsubscribes).inside fun m =>
      { s with subscriptions := m }).andThen fun s _ =>
    ((s.outgoing.tickInOrder isOpen now o.awaitPuback o.awaitPubrec o.awaitPubcomp).inside fun m =>
        { s with outgoing := m }).andThen fun s _ =>
      (s.incoming.tickInOrder isOpen now o.acknowledged o.awaitPubrel).inside fun m =>
        { s with incoming := m }

/-- A look at the clock that goes through the tables in given orders. The session itself goes by the
identifiers. -/
def tickInOrder (s : Session) (isOpen : Bool) (now : Time) (o : Orders) :
    Step Session DisconnectReason Unit :=
  if !s.isAccepted then (s.handshake.tick now).inside fun h => { s with handshake := h }
  else
    let watched := (s.keepAlive.tick isOpen s.lastSent now).inside fun k => { s with keepAlive := k }
    noteSent ((watched.mapError .ofError).andThen fun s _ =>
      if s.keepAlive.brokerAlive then (s.tickExchangesInOrder isOpen now o).mapError .ofError
      else .fail s .keepAliveTimeout) now

def orders (s : Session) : Orders where
  subscribes := s.subscriptions.subscribes.ids
  unsubscribes := s.subscriptions.unsubscribes.ids
  awaitPuback := s.outgoing.awaitPuback.ids
  awaitPubrec := s.outgoing.awaitPubrec.ids
  awaitPubcomp := s.outgoing.awaitPubcomp.ids
  acknowledged := s.incoming.acknowledged.ids
  awaitPubrel := s.incoming.awaitPubrel.ids

theorem fit_orders (s : Session) : s.orders.Fit s :=
  ⟨.refl _, .refl _, .refl _, .refl _, .refl _, .refl _, .refl _⟩

theorem tick_eq_tickInOrder (s : Session) (isOpen : Bool) (now : Time) :
    s.tick isOpen now = s.tickInOrder isOpen now s.orders := by
  have hexchanges : ∀ s : Session,
      s.tickExchanges isOpen now = s.tickExchangesInOrder isOpen now s.orders := by
    intro s
    simp only [tickExchanges, tickExchangesInOrder, Subscriptions.tick_eq_tickInOrder,
      Outgoing.tick_eq_tickInOrder, Incoming.tick_eq_tickInOrder, Step.andThen, Step.inside, orders]
  simp only [tick, tickInOrder, hexchanges, Step.andThen, Step.inside, Step.mapError, orders]
  rfl

end Session

end Mqtt
