import Mqtt.Proofs.Unfinished
import Mqtt.Proofs.Wire

/-!
# Repetitions of a message

Every PUBLISH that the machine for outgoing messages writes is the opening of a message it has just
accepted, or, at a tick, the repetition of one that it accepted before and that still waits for its
first acknowledgement. So one message is first written without DUP and then with it, and whatever
else is published, acknowledged or forgotten makes no difference. Packets may meet a closed queue.
-/
namespace Mqtt
open Wire

/-! ## One table -/

namespace RetryTable
variable {α : Type} [Exchange α] {P : UInt16 → α → Prop} {t : RetryTable α}

omit [Exchange α] in
/-- Whatever is tracked fits its identifier and was written. -/
def Fits (P : UInt16 → α → Prop) (t : RetryTable α) : Prop :=
  ∀ x c, t.get? x = some c → P x c.exchange ∧ 1 ≤ c.attempt

/-- Later attempts of exchanges that fit their identifiers. -/
def Repeats (P : UInt16 → α → Prop) (ps : List Packet) : Prop :=
  ∀ q ∈ ps, ∃ x e attempt, P x e ∧ 1 < attempt ∧ q = Exchange.packet e attempt

omit [Exchange α] in
theorem fits_empty (policy : RetryPolicy) : (empty policy : RetryTable α).Fits P := by
  intro x c hc
  rw [get?_empty] at hc
  cases hc

omit [Exchange α] in
theorem Fits.mono {Q : UInt16 → α → Prop} (h : t.Fits P) (hPQ : ∀ x e, P x e → Q x e) : t.Fits Q :=
  fun x c hc => ⟨hPQ x c.exchange (h x c hc).1, (h x c hc).2⟩

omit [Exchange α] in
/-- What is taken out of a table is not in it any more. -/
theorem Fits.erase_ne (h : t.Fits P) (id : UInt16) : (t.erase id).Fits fun x e => x ≠ id ∧ P x e := by
  intro x c hc
  rw [get?_erase] at hc
  split at hc
  · cases hc
  · next hne => exact ⟨⟨fun hx => hne hx.symm, (h x c hc).1⟩, (h x c hc).2⟩

omit [Exchange α] in
theorem Fits.erase (h : t.Fits P) (id : UInt16) : (t.erase id).Fits P :=
  (h.erase_ne id).mono fun _ _ => And.right

/-- An exchange takes the place of what was under its identifier; the others may be told apart
from it. -/
theorem Fits.replace {Q : UInt16 → α → Prop} (h : t.Fits P) {c : Context α}
    (hQ : Q (Exchange.id c.exchange) c.exchange)
    (hother : ∀ x e, x ≠ Exchange.id c.exchange → P x e → Q x e) (now : Time) :
    (t.enqueueContext true c now).state.Fits Q := by
  intro x d hd
  rw [get?_enqueueContext] at hd
  split at hd
  · next hx =>
    cases hd
    exact ⟨hx ▸ hQ, Nat.le_refl 1⟩
  · next hx =>
    obtain ⟨hP, hattempt⟩ := h x d hd
    exact ⟨hother x d.exchange (Ne.symm hx) hP, hattempt⟩

theorem Fits.enqueueContext (h : t.Fits P) {c : Context α} (hc : P (Exchange.id c.exchange) c.exchange)
    (isOpen : Bool) (now : Time) : (t.enqueueContext isOpen c now).state.Fits P := by
  cases isOpen with
  | false => exact h
  | true => exact h.replace hc (fun _ _ _ he => he) now

omit [Exchange α] in
theorem Fits.finalize {u : RetryTable α} {c : Context α} {id : UInt16} (h : t.Fits P)
    (hf : t.finalize id = some (c, u)) : u.Fits fun x e => x ≠ id ∧ P x e := by
  obtain ⟨c', -, hsome⟩ := Option.map_eq_some_iff.mp hf
  cases hsome
  exact h.erase_ne id

omit [Exchange α] in
theorem Fits.of_finalize_eq_none {id : UInt16} (h : t.Fits P) (hf : t.finalize id = none) :
    t.Fits fun x e => x ≠ id ∧ P x e := by
  have hnone : t.get? id = none := Option.map_eq_none_iff.mp hf
  intro x c hc
  refine ⟨⟨?_, (h x c hc).1⟩, (h x c hc).2⟩
  rintro rfl
  rw [hnone] at hc
  cases hc

omit [Exchange α] in
theorem Fits.take {u : RetryTable α} {c : Context α} {id : UInt16} (h : t.Fits P)
    (hf : t.take id = some (c, u)) : u.Fits P := by
  obtain ⟨c', -, hsome⟩ := Option.map_eq_some_iff.mp hf
  cases hsome
  exact h.erase id

theorem fits_visit {policy : RetryPolicy} {now : Time} {s s' : Sweep α} {id : UInt16}
    (h : Fits P ⟨policy, s.contexts⟩) (hsent : Repeats P s.sent) (hvisit : Visits now s id s') :
    Fits P ⟨policy, s'.contexts⟩ ∧ Repeats P s'.sent := by
  have hput {c c' : Context α} (hc : s.contexts[id]? = some c) (hsame : c'.exchange = c.exchange)
      (hle : c.attempt ≤ c'.attempt) : Fits P ⟨policy, s.contexts.insert id c'⟩ := by
    intro x d hd
    rw [get?, Std.TreeMap.getElem?_insert] at hd
    split at hd
    · next hid =>
      obtain rfl : id = x := by simpa using hid
      cases hd
      obtain ⟨hP, hattempt⟩ := h id c hc
      exact ⟨hsame ▸ hP, Nat.le_trans hattempt hle⟩
    · exact h x d hd
  cases hvisit with
  | rests => exact ⟨h, hsent⟩
  | givesUp hc => exact ⟨hput hc rfl (Nat.le_refl _), hsent⟩
  | fails hc => exact ⟨hput hc rfl (Nat.le_succ _), hsent⟩
  | @writes c hc =>
    obtain ⟨hP, hattempt⟩ := h id c hc
    refine ⟨hput hc rfl (Nat.le_succ _), List.forall_mem_cons.mpr ⟨?_, hsent⟩⟩
    exact ⟨id, c.exchange, c.attempt + 1, hP, Nat.lt_succ_of_le hattempt, rfl⟩

/-- A pass keeps what it does not give up, and what it writes are later attempts. -/
theorem Fits.tickInOrder (h : t.Fits P) (isOpen : Bool) (now : Time) (order : List UInt16) :
    (t.tickInOrder isOpen now order).state.Fits P ∧
      Repeats P (t.tickInOrder isOpen now order).output.packets := by
  obtain ⟨hall, hsent⟩ := t.sweep_keeps
    (P := fun s => Fits P ⟨t.policy, s.contexts⟩ ∧ Repeats P s.sent) isOpen now order
    ⟨h, by simp [Repeats]⟩ fun hs hvisit => fits_visit hs.1 hs.2 hvisit
  refine ⟨fun x c hc => hall x c (getElem?_sweep_of_tickInOrder hc), fun q hq => hsent q ?_⟩
  rw [RetryTable.tickInOrder] at hq
  dsimp only at hq
  split at hq <;> exact List.mem_reverse.mp hq

end RetryTable

/-! ## One message -/

/-- What is written of the packets differs in bit 3 of the first byte, which the second one has. -/
def Packet.DiffersInDup (q q' : Packet) : Prop :=
  ∃ first rest fault, q.write = ⟨first :: rest, fault⟩ ∧
    q'.write = ⟨(first ||| 8) :: rest, fault⟩ ∧ first &&& 8 = 0

theorem TypeByte.toByte_dup (kind : Kind) (qos : Fin 4) (retain : Bool) :
    toByte ⟨kind, ⟨true, qos, retain⟩⟩ = toByte ⟨kind, ⟨false, qos, retain⟩⟩ ||| 8 ∧
      toByte ⟨kind, ⟨false, qos, retain⟩⟩ &&& 8 = 0 := by
  revert qos
  cases kind <;> cases retain <;> decide

namespace PublishPacket

/-- All of a message but DUP is in a packet, with DUP as told. -/
structure Sends (p : PublishPacket) (dup : Bool) (q : Packet) : Prop where
  kind : q.header.type.kind = p.header.type.kind
  qos : q.header.type.flags.qos = p.flags.qos
  retain : q.header.type.flags.retain = p.flags.retain
  remaining : q.header.remaining = p.header.remaining
  body : q.body = .publish p.body
  dup : q.header.type.flags.dup = dup

/-- What is first written of a message that is accepted. -/
def opening (p : PublishPacket) : Packet :=
  match p.delivery with
  | .atMostOnce => p.toPacket
  | .atLeastOnce _ | .exactlyOnce _ => (p.setDup false).toPacket

theorem opening_of_waits {p : PublishPacket} (hp : p.delivery ≠ .atMostOnce) :
    p.opening = (p.setDup false).toPacket := by
  rw [opening]
  split
  · next hd => exact absurd hd hp
  · rfl
  · rfl

theorem sends_setDup {p : PublishPacket} (hp : p.delivery ≠ .atMostOnce) (dup : Bool) :
    p.Sends dup (p.setDup dup).toPacket := by
  have hid : p.body.id.isSome = true := by
    rw [delivery] at hp
    cases h : p.body.id with
    | none => simp [h] at hp
    | some id => rfl
  refine ⟨rfl, rfl, rfl, rfl, rfl, ?_⟩
  change (dup && p.body.id.isSome) = dup
  rw [hid, Bool.and_true]

theorem Sends.differsInDup {p : PublishPacket} {q q' : Packet} (h : p.Sends false q)
    (h' : p.Sends true q') : q.DiffersInDup q' := by
  have hwrite (q : Packet) : q.write =
      Written.ok [q.header.type.toByte] ++ (VarInt.write q.header.remaining ++ q.body.write) := by
    rw [Packet.write, FixedHeader.write, Written.append_assoc]
  have htype {q : Packet} {dup : Bool} (h : p.Sends dup q) :
      q.header.type = ⟨p.header.type.kind, ⟨dup, p.flags.qos, p.flags.retain⟩⟩ := by
    rw [← h.kind, ← h.qos, ← h.retain, ← h.dup]
  obtain ⟨hset, hclear⟩ := TypeByte.toByte_dup p.header.type.kind p.flags.qos p.flags.retain
  refine ⟨_, (VarInt.write p.header.remaining ++ (Body.publish p.body).write).bytes,
    (VarInt.write p.header.remaining ++ (Body.publish p.body).write).fault, ?_, ?_, hclear⟩
  · rw [hwrite, htype h, h.remaining, h.body]
    rfl
  · rw [hwrite, htype h', h'.remaining, h'.body, hset]
    rfl

end PublishPacket

/-! ## The history of a message -/

namespace Moment

/-- The machine takes a message. -/
def Accepts (mo : Moment) (p : PublishPacket) : Prop :=
  mo.trigger = .publish p ∧ mo.result = .ok ()

/-- A message that is delivered as `d` waits no more for its first acknowledgement: it comes, another
message takes its place, or all are forgotten. -/
def Ends (mo : Moment) (d : Delivery) : Prop :=
  match mo.trigger with
  | .publish p => mo.result = .ok () ∧ p.delivery = d
  | .puback id => d = .atLeastOnce id
  | .pubrec id => d = .exactlyOnce id
  | .reset => True
  | .pubrel _ | .pubcomp _ | .tick => False

theorem Accepts.ends {mo : Moment} {p : PublishPacket} (h : mo.Accepts p) : mo.Ends p.delivery := by
  rw [Ends, h.1]
  exact ⟨h.2, rfl⟩

end Moment

/-- The message was accepted, and nothing since has ended its wait for the first acknowledgement. -/
def Outstanding (log : List Moment) (p : PublishPacket) : Prop :=
  p.delivery ≠ .atMostOnce ∧ ∃ past mo since, log = past ++ mo :: since ∧ mo.Accepts p ∧
    ∀ later ∈ since, ¬ later.Ends p.delivery

section Outstanding
variable {log past before : List Moment} {mo e : Moment} {p q : PublishPacket}

theorem outstanding_of_accepts (h : mo.Accepts p) (hp : p.delivery ≠ .atMostOnce) :
    Outstanding (log ++ [mo]) p :=
  ⟨hp, log, mo, [], rfl, h, by simp⟩

theorem Outstanding.exists_accepts (h : Outstanding log p) : ∃ mo ∈ log, mo.Accepts p := by
  obtain ⟨-, past, mo, since, rfl, accepted, -⟩ := h
  exact ⟨mo, by simp, accepted⟩

theorem Outstanding.concat (h : Outstanding log p) (hmo : ¬ mo.Ends p.delivery) :
    Outstanding (log ++ [mo]) p := by
  obtain ⟨hp, past, given, since, rfl, accepted, hsince⟩ := h
  refine ⟨hp, past, given, since ++ [mo], by simp, accepted, ?_⟩
  exact List.forall_mem_append.mpr ⟨hsince, List.forall_mem_singleton.mpr hmo⟩

/-- After a message was accepted, the ones that wait besides it are delivered another way. -/
theorem Outstanding.eq_or_ne (h : Outstanding (past ++ e :: before) q) (given : e.Accepts p)
    (alone : ∀ mo ∈ before, ∀ q, mo.Accepts q → q.delivery ≠ p.delivery) :
    q = p ∨ q.delivery ≠ p.delivery := by
  by_cases hd : q.delivery = p.delivery
  · left
    obtain ⟨-, past', mo, since, hlog, hmo, hsince⟩ := h
    have hends : e.Ends q.delivery := hd ▸ given.ends
    have hsame (he : e = mo) : q = p :=
      Trigger.publish.inj (hmo.1.symm.trans (he ▸ given.1))
    -- `q` was accepted after `p`, at that very moment or before it
    obtain ⟨cs, -, hcs⟩ | ⟨cs, -, hcs⟩ := List.append_eq_append_iff.mp hlog
    · cases cs with
      | nil => exact hsame (List.cons.inj hcs).1
      | cons c cs =>
        obtain ⟨-, rfl⟩ := List.cons.inj hcs
        exact absurd hd (alone mo (by simp) q hmo)
    · cases cs with
      | nil => exact hsame (List.cons.inj hcs).1.symm
      | cons c cs =>
        obtain ⟨-, rfl⟩ := List.cons.inj hcs
        exact absurd hends (hsince e (by simp))
  · exact .inr hd

end Outstanding

/-! ## The machine -/

/-- All packets that are put out have a property. -/
def Output.Writes (P : Packet → Prop) (o : Output) : Prop := ∀ q ∈ o.packets, P q

theorem Step.writes_andThen {σ ε α β : Type} {P : Packet → Prop} {a : Step σ ε α}
    {f : σ → α → Step σ ε β} (h : a.output.Writes P)
    (hf : ∀ x, (f a.state x).output.Writes P) : (a.andThen f).output.Writes P := by
  rw [andThen]
  split
  · exact h
  · exact fun q hq => (List.mem_append.mp hq).elim (h q) (hf _ q)

namespace Outgoing

/-- The steps of the machine, whether packets meet an open queue or a closed one. An identifier may
be in use when a message comes with it, and a tick goes through each table in any order. -/
inductive Moves (m : Outgoing) (now : Time) : Trigger → Step Outgoing ClientError Unit → Prop
  | publish (isOpen : Bool) (p : PublishPacket) :
      Moves m now (.publish p) (m.publish isOpen p now)
  | puback (id : UInt16) : Moves m now (.puback id) (.emit (m.puback id).1 (m.puback id).2)
  | pubrec (isOpen : Bool) (id : UInt16) : Moves m now (.pubrec id) (m.pubrec isOpen id now)
  | pubcomp (id : UInt16) : Moves m now (.pubcomp id) (.emit (m.pubcomp id).1 (m.pubcomp id).2)
  | tick (isOpen : Bool) {first second third : List UInt16} (hfirst : first.Perm m.awaitPuback.ids)
      (hsecond : second.Perm m.awaitPubrec.ids) (hthird : third.Perm m.awaitPubcomp.ids) :
      Moves m now .tick (m.tickInOrder isOpen now first second third)
  | reset : Moves m now .reset (.done m.reset)

theorem moves_tick (m : Outgoing) (isOpen : Bool) (now : Time) :
    m.Moves now .tick (m.tick isOpen now) := by
  rw [tick_eq_tickInOrder]
  exact .tick isOpen (.refl _) (.refl _) (.refl _)

/-- The message of an exchange is one of `messages`, delivered as its table says. -/
def Waiting (messages : PublishPacket → Prop) (as : UInt16 → Delivery) (x : UInt16)
    (e : PublishExchange) : Prop :=
  e.publish.delivery = as x ∧ messages e.publish

/-- All messages that wait for their first acknowledgement are among `messages`. -/
structure Holds (messages : PublishPacket → Prop) (m : Outgoing) : Prop where
  puback : m.awaitPuback.Fits (Waiting messages .atLeastOnce)
  pubrec : m.awaitPubrec.Fits (Waiting messages .exactlyOnce)
  pubcomp : m.awaitPubcomp.Fits fun _ _ => True

/-- A packet is no PUBLISH or a repetition of one of `messages`. -/
def Again (messages : PublishPacket → Prop) (q : Packet) : Prop :=
  q.body.kind = .publish → ∃ p, messages p ∧ q = (p.setDup true).toPacket

/-- A packet that is put out at a moment is no PUBLISH, the opening of the message that is accepted,
or, at a tick, a repetition of one of `messages`. -/
def Accounts (messages : PublishPacket → Prop) (mo : Moment) (q : Packet) : Prop :=
  q.body.kind = .publish →
    (∃ p, mo.Accepts p ∧ q = p.opening) ∨
      mo.trigger = .tick ∧ ∃ p, messages p ∧ q = (p.setDup true).toPacket

section Steps
variable {messages kept : PublishPacket → Prop} {m : Outgoing} {now : Time} {p : PublishPacket}

theorem holds_new (policy : RetryPolicy) : (new policy).Holds messages :=
  ⟨RetryTable.fits_empty policy, RetryTable.fits_empty policy, RetryTable.fits_empty policy⟩

/-- A table keeps the messages that are not delivered as `d`, and it has no others. -/
theorem fits_kept {as : UInt16 → Delivery} {t : RetryTable PublishExchange} {d : Delivery}
    {P : UInt16 → PublishExchange → Prop} (h : t.Fits P)
    (hP : ∀ x e, P x e → Waiting messages as x e ∧ as x ≠ d)
    (hkeep : ∀ q, messages q → q.delivery ≠ d → kept q) : t.Fits (Waiting kept as) :=
  h.mono fun x e he =>
    have ⟨hw, hne⟩ := hP x e he
    ⟨hw.1, hkeep _ hw.2 fun hd => hne (hw.1.symm.trans hd)⟩

theorem Holds.mono (h : m.Holds messages)
    (hkeep : ∀ q, messages q → q.delivery ≠ .atMostOnce → kept q) : m.Holds kept where
  puback := fits_kept h.puback (fun _ _ he => ⟨he, Delivery.noConfusion⟩) hkeep
  pubrec := fits_kept h.pubrec (fun _ _ he => ⟨he, Delivery.noConfusion⟩) hkeep
  pubcomp := h.pubcomp

/-- A message that is accepted takes the place of any that is delivered the same way. -/
theorem Holds.accept (h : m.Holds messages) (hnew : p.delivery ≠ .atMostOnce → kept p)
    (hkeep : ∀ q, messages q → q.delivery ≠ p.delivery → kept q) (now : Time) :
    (m.publish true p now).state.Holds kept := by
  have hsame {as : UInt16 → Delivery} {t : RetryTable PublishExchange} {id : UInt16}
      (ht : t.Fits (Waiting messages as)) (hd : p.delivery = as id) (hp : as id ≠ .atMostOnce)
      (hinj : ∀ x, as x = as id → x = id) :
      (t.enqueue true ⟨p, id⟩ now).state.Fits (Waiting kept as) := by
    refine ht.replace (c := .new ⟨p, id⟩ now) ⟨hd, hnew (hd ▸ hp)⟩ (fun x _ hx he => ?_) now
    exact ⟨he.1, hkeep _ he.2 fun hsame => hx (hinj x (he.1.symm.trans (hsame.trans hd)))⟩
  cases hd : p.delivery with
  | atMostOnce =>
    simp only [Outgoing.publish, hd]
    exact h.mono (hd ▸ hkeep)
  | atLeastOnce id =>
    simp only [Outgoing.publish, hd]
    refine ⟨hsame h.puback hd Delivery.noConfusion fun _ => Delivery.atLeastOnce.inj, ?_, h.pubcomp⟩
    exact fits_kept h.pubrec (fun _ _ he => ⟨he, hd ▸ Delivery.noConfusion⟩) hkeep
  | exactlyOnce id =>
    simp only [Outgoing.publish, hd]
    refine ⟨?_, hsame h.pubrec hd Delivery.noConfusion fun _ => Delivery.exactlyOnce.inj, h.pubcomp⟩
    exact fits_kept h.puback (fun _ _ he => ⟨he, hd ▸ Delivery.noConfusion⟩) hkeep

theorem publish_closed (m : Outgoing) (p : PublishPacket) (now : Time) :
    m.publish false p now = .fail m .queueClosed := by
  rw [Outgoing.publish]
  split <;> rfl

theorem packets_publish (m : Outgoing) (p : PublishPacket) (now : Time) :
    (m.publish true p now).output.packets = [p.opening] ∧ (m.publish true p now).result = .ok () := by
  rw [Outgoing.publish, PublishPacket.opening]
  cases p.delivery <;> exact ⟨rfl, rfl⟩

/-- The first acknowledgement of a message takes it out of the table where it waits for that. -/
theorem fits_finalize {as : UInt16 → Delivery} {t : RetryTable PublishExchange} {id : UInt16}
    (h : t.Fits (Waiting messages as)) (hinj : ∀ x, as x = as id → x = id)
    (hkeep : ∀ q, messages q → q.delivery ≠ as id → kept q) :
    (t.finalize id = none → t.Fits (Waiting kept as)) ∧
      ∀ c u, t.finalize id = some (c, u) → u.Fits (Waiting kept as) := by
  have hne (x : UInt16) (e : PublishExchange) (he : x ≠ id ∧ Waiting messages as x e) :
      Waiting messages as x e ∧ as x ≠ as id := ⟨he.2, fun hx => he.1 (hinj x hx)⟩
  exact ⟨fun hf => fits_kept (h.of_finalize_eq_none hf) hne hkeep,
    fun c u hf => fits_kept (h.finalize hf) hne hkeep⟩

theorem Holds.after_puback (h : m.Holds messages) (id : UInt16)
    (hkeep : ∀ q, messages q → q.delivery ≠ .atLeastOnce id → kept q) :
    (m.puback id).1.Holds kept := by
  obtain ⟨hnone, hsome⟩ := fits_finalize h.puback (fun _ => Delivery.atLeastOnce.inj) hkeep
  have hother := fits_kept h.pubrec (fun _ _ he => ⟨he, Delivery.noConfusion⟩) hkeep
  rw [Outgoing.puback]
  split
  · next hf => exact ⟨hnone hf, hother, h.pubcomp⟩
  · next hf => exact ⟨hsome _ _ hf, hother, h.pubcomp⟩

theorem Holds.after_pubrec (h : m.Holds messages) (isOpen : Bool) (id : UInt16) (now : Time)
    (hkeep : ∀ q, messages q → q.delivery ≠ .exactlyOnce id → kept q) :
    (m.pubrec isOpen id now).state.Holds kept := by
  obtain ⟨hnone, hsome⟩ := fits_finalize h.pubrec (fun _ => Delivery.exactlyOnce.inj) hkeep
  have hother := fits_kept h.puback (fun _ _ he => ⟨he, Delivery.noConfusion⟩) hkeep
  rw [Outgoing.pubrec]
  split
  · next hf => exact ⟨hother, hsome _ _ hf, h.pubcomp.enqueueContext trivial isOpen now⟩
  · next hf =>
    split
    · next ht => exact ⟨hother, hnone hf, (h.pubcomp.take ht).enqueueContext trivial isOpen now⟩
    · exact ⟨hother, hnone hf, h.pubcomp⟩

theorem Holds.after_pubcomp (h : m.Holds messages) (id : UInt16) : (m.pubcomp id).1.Holds messages := by
  rw [Outgoing.pubcomp]
  split
  · exact h
  · next hf => exact ⟨h.puback, h.pubrec, (h.pubcomp.finalize hf).mono fun _ _ => And.right⟩

/-- A pass over one table, as part of a tick. -/
theorem pass_again {α : Type} [Exchange α] {P : UInt16 → α → Prop} {t : RetryTable α} (h : t.Fits P)
    (hagain : ∀ x e attempt, P x e → 1 < attempt → Again messages (Exchange.packet e attempt))
    (isOpen : Bool) (now : Time) (order : List UInt16) :
    let r : Step (RetryTable α) ClientError Unit :=
      (t.tickInOrder isOpen now order).andThen fun t es => .emit t (failures es)
    r.state.Fits P ∧ r.output.Writes (Again messages) := by
  intro r
  obtain ⟨hstate, hpackets⟩ := h.tickInOrder isOpen now order
  refine ⟨Step.state_andThen (P := RetryTable.Fits P) hstate fun _ => hstate, ?_⟩
  refine Step.writes_andThen (fun q hq => ?_) fun _ q hq => absurd hq List.not_mem_nil
  obtain ⟨x, e, attempt, he, hlt, rfl⟩ := hpackets q hq
  exact hagain x e attempt he hlt

theorem again_packet {as : UInt16 → Delivery} {x : UInt16} {e : PublishExchange} {attempt : Nat}
    (he : Waiting messages as x e) (hlt : 1 < attempt) : Again messages (Exchange.packet e attempt) := by
  refine fun _ => ⟨e.publish, he.2, ?_⟩
  rw [← decide_eq_true hlt]
  rfl

theorem again_release (e : ReleaseExchange) (attempt : Nat) :
    Again messages (Exchange.packet e attempt) := by
  rintro ⟨⟩

theorem Holds.tickInOrder (h : m.Holds messages) (isOpen : Bool) (now : Time)
    (first second third : List UInt16) :
    (m.tickInOrder isOpen now first second third).state.Holds messages ∧
      (m.tickInOrder isOpen now first second third).output.Writes (Again messages) := by
  obtain ⟨hpuback, hw⟩ := pass_again h.puback (fun _ _ _ => again_packet) isOpen now first
  obtain ⟨hpubrec, hw'⟩ := pass_again h.pubrec (fun _ _ _ => again_packet) isOpen now second
  obtain ⟨hpubcomp, hw''⟩ :=
    pass_again h.pubcomp (fun _ e attempt _ _ => again_release e attempt) isOpen now third
  refine ⟨?_, Step.writes_andThen hw fun _ => Step.writes_andThen hw' fun _ => hw''⟩
  exact Step.state_andThen (P := (Holds messages)) ⟨hpuback, h.pubrec, h.pubcomp⟩ fun _ =>
    Step.state_andThen (P := (Holds messages)) ⟨hpuback, hpubrec, h.pubcomp⟩ fun _ =>
      ⟨hpuback, hpubrec, hpubcomp⟩

/-- What the machine waits for after a step was just accepted, or was waited for and not ended. -/
theorem Holds.step (h : m.Holds messages) {a : Trigger} {r : Step Outgoing ClientError Unit}
    (moves : m.Moves now a r)
    (hnew : ∀ p, Moment.Accepts ⟨now, a, r.output, r.result⟩ p → p.delivery ≠ .atMostOnce → kept p)
    (hkeep : ∀ q, messages q → ¬ Moment.Ends ⟨now, a, r.output, r.result⟩ q.delivery → kept q) :
    r.state.Holds kept := by
  cases moves with
  | publish isOpen p =>
    cases isOpen with
    | false =>
      rw [publish_closed] at hkeep ⊢
      exact h.mono fun q hq _ => hkeep q hq fun hends => nomatch hends.1
    | true =>
      exact h.accept (hnew p ⟨rfl, (m.packets_publish p now).2⟩)
        (fun q hq hne => hkeep q hq fun hends => hne hends.2.symm) now
  | puback id => exact h.after_puback id hkeep
  | pubrec isOpen id => exact h.after_pubrec isOpen id now hkeep
  | pubcomp id => exact (h.after_pubcomp id).mono fun q hq _ => hkeep q hq not_false
  | tick isOpen hfirst hsecond hthird =>
    exact (h.tickInOrder isOpen now _ _ _).1.mono fun q hq _ => hkeep q hq not_false
  | reset => exact ⟨RetryTable.fits_empty _, RetryTable.fits_empty _, RetryTable.fits_empty _⟩

theorem writes_pubrec (m : Outgoing) (isOpen : Bool) (id : UInt16) (now : Time) :
    (m.pubrec isOpen id now).output.Writes fun q => q.body.kind ≠ .publish := by
  have hrelease (t : RetryTable ReleaseExchange) (c : Context ReleaseExchange) :
      (t.enqueueContext isOpen c now).output.Writes fun q => q.body.kind ≠ .publish := by
    cases isOpen with
    | false => exact fun q hq => absurd hq List.not_mem_nil
    | true => exact List.forall_mem_singleton.mpr Kind.noConfusion
  rw [Outgoing.pubrec]
  split
  · exact hrelease _ _
  · split
    · exact hrelease _ _
    · exact fun q hq => absurd hq List.not_mem_nil

theorem Holds.writes (h : m.Holds messages) {a : Trigger} {r : Step Outgoing ClientError Unit}
    (moves : m.Moves now a r) :
    r.output.Writes (Accounts messages ⟨now, a, r.output, r.result⟩) := by
  have hnothing {mo : Moment} (events : List Event) :
      Output.Writes (Accounts messages mo) (.ofEvents events) :=
    fun q hq => absurd hq List.not_mem_nil
  cases moves with
  | publish isOpen p =>
    cases isOpen with
    | false =>
      rw [publish_closed]
      exact hnothing []
    | true =>
      obtain ⟨hpackets, hresult⟩ := m.packets_publish p now
      rw [Output.Writes, hpackets]
      exact List.forall_mem_singleton.mpr fun _ => .inl ⟨p, ⟨rfl, hresult⟩, rfl⟩
  | puback id =>
    rw [Outgoing.puback]
    split <;> exact hnothing _
  | pubrec isOpen id => exact fun q hq hkind => absurd hkind (m.writes_pubrec isOpen id now q hq)
  | pubcomp id =>
    rw [Outgoing.pubcomp]
    split <;> exact hnothing _
  | tick isOpen hfirst hsecond hthird =>
    exact fun q hq hkind => .inr ⟨rfl, (h.tickInOrder isOpen now _ _ _).2 q hq hkind⟩
  | reset => exact hnothing []

end Steps

section Run
variable {policy : RetryPolicy} {m m' : Outgoing} {p : PublishPacket} {past life log : List Moment}
  {e mo : Moment} {q : Packet}

/-- At any time all messages in the tables wait for an acknowledgement that did not come. -/
theorem Holds.run (h : m.Holds (Outstanding past)) (run : Run Moves m log m') :
    m'.Holds (Outstanding (past ++ log)) := by
  induction run generalizing past with
  | idle => rwa [List.append_nil]
  | next first tail ih =>
    have hstep := h.step first (fun _ => outstanding_of_accepts) fun _ => Outstanding.concat
    have hrest := ih hstep
    rwa [List.append_assoc] at hrest

theorem holds_of_run (run : Run Moves (new policy) log m) : m.Holds (Outstanding log) := by
  have hstart : (new policy).Holds (Outstanding []) := holds_new policy
  exact hstart.run run

/-- Every PUBLISH of a run opens the message that has just been accepted or repeats one that waits. -/
theorem accounts_of_run (run : Run Moves (new policy) (past ++ mo :: life) m')
    (hq : q ∈ mo.output.packets) : Accounts (Outstanding past) mo q := by
  obtain ⟨m, r, hpast, moves, houtput, hresult, -⟩ := run.middle
  have hwrites := (holds_of_run hpast).writes moves
  rw [houtput, hresult] at hwrites
  exact hwrites q hq

/-- A message that waits for an acknowledgement is written without DUP when it is accepted. Every
PUBLISH after that is the opening of a message that is delivered another way, or it is written at a
tick: again the message, as long as it waits, with DUP and but for this bit byte for byte the same,
or again one that is delivered another way. -/
theorem repeated_under_dup (run : Run Moves (new policy) (past ++ e :: life) m')
    (given : e.trigger = .publish p) (accepted : e.result = .ok ()) (waits : p.delivery ≠ .atMostOnce)
    (alone : ∀ mo ∈ life, ∀ p', mo.Accepts p' → p'.delivery ≠ p.delivery) :
    ∃ first, e.output.packets = [first] ∧ p.Sends false first ∧
      ∀ before mo after, life = before ++ mo :: after →
        ∀ q ∈ mo.output.packets, q.body.kind = .publish →
          (∃ p', mo.Accepts p' ∧ p'.delivery ≠ p.delivery ∧ q = p'.opening) ∨
          (mo.trigger = .tick ∧ Outstanding (past ++ e :: before) p ∧
            p.Sends true q ∧ first.DiffersInDup q) ∨
          (mo.trigger = .tick ∧ ∃ p', Outstanding (past ++ e :: before) p' ∧
            p'.delivery ≠ p.delivery ∧ q = (p'.setDup true).toPacket) := by
  have hfirst := PublishPacket.sends_setDup waits false
  refine ⟨(p.setDup false).toPacket, ?_, hfirst, fun before mo after hlife q hq hkind => ?_⟩
  · obtain ⟨m, r, -, moves, houtput, hresult, -⟩ := run.middle
    rw [given] at moves
    cases moves with
    | publish isOpen p =>
      cases isOpen with
      | false =>
        rw [← hresult, publish_closed] at accepted
        cases accepted
      | true => rw [← houtput, (m.packets_publish p e.now).1, PublishPacket.opening_of_waits waits]
  · subst hlife
    rw [← List.cons_append, ← List.append_assoc] at run
    obtain ⟨p', haccepts, rfl⟩ | ⟨htick, p', hwaits, rfl⟩ := accounts_of_run run hq hkind
    · exact .inl ⟨p', haccepts, alone mo (by simp) p' haccepts, rfl⟩
    · have hbefore : ∀ mo ∈ before, ∀ p', mo.Accepts p' → p'.delivery ≠ p.delivery :=
        fun mo hmo => alone mo (List.mem_append_left _ hmo)
      obtain rfl | hne := hwaits.eq_or_ne ⟨given, accepted⟩ hbefore
      · have hagain := PublishPacket.sends_setDup waits true
        exact .inr (.inl ⟨htick, hwaits, hagain, hfirst.differsInDup hagain⟩)
      · exact .inr (.inr ⟨htick, p', hwaits, hne, rfl⟩)

end Run

/-- A message that comes with DUP set. -/
def marked : PublishPacket :=
  ((PublishPacket.new ⟨"out", .refl true⟩ (.exactlyOnce 7) [1]).setDup true).setRetain true

/-- It is written three times, with an acknowledgement of another kind in between. -/
def markedLog : List Moment :=
  [⟨0, .publish marked, .ofPackets [(marked.setDup false).toPacket], .ok ()⟩,
    ⟨6, .tick, .ofPackets [(marked.setDup true).toPacket], .ok ()⟩,
    ⟨7, .puback 7, {}, .ok ()⟩,
    ⟨12, .tick, .ofPackets [(marked.setDup true).toPacket], .ok ()⟩]

theorem run_marked : ∃ m, Run Moves (.new ⟨5, 3⟩) markedLog m :=
  ⟨_, .step (.publish true marked) rfl rfl <|
    .step (moves_tick _ true _) rfl rfl <|
    .step (.puback 7) rfl rfl <|
    .step (moves_tick _ true _) rfl rfl <|
    .idle _⟩

theorem repeated_under_dup_marked :
    (∃ m, Run Moves (.new ⟨5, 3⟩) markedLog m) ∧ marked.flags.dup = true ∧
      ∃ first, marked.Sends false first ∧
        ∀ mo ∈ markedLog.tail, ∀ q ∈ mo.output.packets, marked.Sends true q ∧ first.DiffersInDup q := by
  obtain ⟨m, run⟩ := run_marked
  have htriggers : ∀ mo ∈ markedLog.tail, ∀ p, mo.trigger ≠ .publish p := by
    simp [markedLog]
  have hkind : ∀ mo ∈ markedLog.tail, ∀ q ∈ mo.output.packets, q.body.kind = .publish := by
    decide
  have hrun : Run Moves (.new ⟨5, 3⟩) ([] ++ markedLog.head (by decide) :: markedLog.tail) m := run
  obtain ⟨first, -, hfirst, hlater⟩ := repeated_under_dup hrun rfl rfl (by decide)
    fun mo hmo p haccepts => absurd haccepts.1 (htriggers mo hmo p)
  refine ⟨⟨m, run⟩, rfl, first, hfirst, fun mo hmo q hq => ?_⟩
  obtain ⟨before, after, hsplit⟩ := List.append_of_mem hmo
  obtain ⟨p', haccepts, -⟩ | ⟨-, -, hagain⟩ | ⟨-, p', hwaits, hne, rfl⟩ :=
    hlater before mo after hsplit q hq (hkind mo hmo q hq)
  · exact absurd haccepts.1 (htriggers mo hmo p')
  · exact hagain
  · obtain ⟨given, hgiven, haccepts⟩ := hwaits.exists_accepts
    obtain rfl | hbefore := List.mem_cons.mp hgiven
    · exact absurd (congrArg PublishPacket.delivery (Trigger.publish.inj haccepts.1)).symm hne
    · exact absurd haccepts.1 (htriggers given (hsplit ▸ List.mem_append_left _ hbefore) p')

end Outgoing

end Mqtt
