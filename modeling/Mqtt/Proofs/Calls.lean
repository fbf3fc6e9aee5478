import Mqtt.Proofs.Acknowledgements
import Mqtt.Proofs.Clients
import Mqtt.Proofs.FreeIds

/-!
# Calls

A call looks at its arguments first, then for a session that takes it, and tracks an exchange only
after it was written. So a call that fails leaves nothing behind, but for an identifier that was
taken and is not used. One that succeeds has written one packet and entered at most one exchange.
-/
namespace Mqtt

namespace Session

/-! ## What a session does on a call -/

namespace Call

def message (topic : TopicName) (payload : Wire.Bytes) (qos : QoS) (retain : Bool) (id : UInt16) :
    PublishPacket :=
  (PublishPacket.new topic (.of qos id) payload).setRetain retain

def packet (id : UInt16) : Call → Packet
  | publish topic payload qos retain => (message topic payload qos retain id).toPacket
  | subscribe filter qos _ => .ofBody (.subscribe ⟨id, filter, qos⟩)
  | unsubscribe filter _ => .ofBody (.unsubscribe ⟨id, filter⟩)

/-- The exchange that a call begins with its first attempt, and the table that tracks it. -/
def begins? (now : Time) (id : UInt16) : Call → Option (Table × Entry)
  | publish topic payload qos retain =>
    let first : Context PublishExchange :=
      ⟨⟨message topic payload qos retain id, id⟩, 1, now, false, false⟩
    match qos with
    | .atMostOnce => none
    | .atLeastOnce => some (.puback, .publish first)
    | .exactlyOnce => some (.pubrec, .publish first)
  | subscribe filter qos waiter =>
    some (.subscribe, .subscribe ⟨⟨⟨id, filter, qos⟩, waiter⟩, 1, now, false, false⟩)
  | unsubscribe filter waiter =>
    some (.unsubscribe, .unsubscribe ⟨⟨⟨id, filter⟩, waiter⟩, 1, now, false, false⟩)

end Call

/-- What it means for a session that a call is taken: one packet is written, and if the call begins
an exchange, that exchange is entered under the identifier of the answer and nothing else is. -/
structure Admits (s : Session) (now : Time) (a : Call) (id : UInt16) (s' : Session)
    (output : Output) : Prop where
  packets : output.packets = [a.packet id]
  done : a.begins? now id = none → id = 0 ∧ output.events = [.published 0 true] ∧
    ∀ k x, s'.tracked? k x = s.tracked? k x
  begins : ∀ table entry, a.begins? now id = some (table, entry) →
    id ≠ 0 ∧ output.events = [] ∧
      (s.unfinished.length < 65535 → s.tracked? table id = none) ∧
      ∀ k x, s'.tracked? k x = if k = table ∧ x = id then some entry else s.tracked? k x

section Calls
variable {s : Session} {now : Time}

/-- On a closed queue a call takes an identifier, and that is all it does. -/
theorem call_closed (s : Session) (now : Time) (a : Call) :
    ∃ ids, s.call false now a = .fail { s with ids := ids } .queueClosed := by
  cases a with
  | publish topic payload qos retain =>
    cases qos with
    | atMostOnce => exact ⟨s.ids, rfl⟩
    | atLeastOnce | exactlyOnce => exact ⟨s.nextId.2.ids, rfl⟩
  | subscribe | unsubscribe => exact ⟨s.nextId.2.ids, rfl⟩

/-- What no unfinished exchange of this side has is not tracked in its tables. -/
theorem tracked?_eq_none {x : UInt16} (fresh : x ∉ s.unfinished) {k : Table}
    (own : k ≠ .acknowledged ∧ k ≠ .pubrel) : s.tracked? k x = none := by
  simp only [unfinished, Tracker.all, List.flatMap_cons, List.flatMap_nil, List.append_nil,
    List.mem_append, keys, RetryTable.mem_ids, not_or, Option.not_isSome_iff_eq_none] at fresh
  obtain ⟨hpuback, hpubrec, hpubcomp, hsubscribe, hunsubscribe⟩ := fresh
  cases k <;> simp_all [tracked?]

/-- The call has written its packet, and the exchange that it begins was entered in one table. -/
theorem admits_of_put {a : Call} {s' : Session} {output : Output} {table : Table} {entry : Entry}
    (packets : output.packets = [a.packet s.nextId.1]) (events : output.events = [])
    (hbegins : a.begins? now s.nextId.1 = some (table, entry))
    (own : table ≠ .acknowledged ∧ table ≠ .pubrel)
    (hput : ∀ x, s'.tracked? table x = if s.nextId.1 = x then some entry else s.tracked? table x)
    (hkeep : ∀ k ≠ table, s'.tracked? k = s.tracked? k) :
    s.Admits now a s.nextId.1 s' output where
  packets := packets
  done h := by cases hbegins.symm.trans h
  begins _ _ h := by
    cases hbegins.symm.trans h
    refine ⟨s.nextId_ne_zero, events, fun hroom => tracked?_eq_none (nextId_not_mem hroom) own,
      fun k x => ?_⟩
    by_cases hk : k = table
    · subst hk
      simp [hput, eq_comm]
    · simp [hkeep k hk, hk]

/-- On an open queue every call is taken. -/
theorem call_open (s : Session) (now : Time) (a : Call) :
    ∃ id, (s.call true now a).result = .ok id ∧
      s.Admits now a id (s.call true now a).state (s.call true now a).output := by
  cases a with
  | publish topic payload qos retain =>
    cases qos with
    | atMostOnce =>
      refine ⟨0, rfl, rfl, fun _ => ⟨rfl, rfl, fun k x => ?_⟩, ?_⟩
      · cases k <;> rfl
      · rintro _ _ ⟨⟩
    | atLeastOnce =>
      refine ⟨s.nextId.1, rfl, admits_of_put rfl rfl rfl (by decide)
        (s.outgoing.awaitPuback.map_get?_enqueue _ now Entry.publish) fun k hk => ?_⟩
      cases k <;> first | exact absurd rfl hk | rfl
    | exactlyOnce =>
      refine ⟨s.nextId.1, rfl, admits_of_put rfl rfl rfl (by decide)
        (s.outgoing.awaitPubrec.map_get?_enqueue _ now Entry.publish) fun k hk => ?_⟩
      cases k <;> first | exact absurd rfl hk | rfl
  | subscribe filter qos waiter =>
    refine ⟨s.nextId.1, rfl, admits_of_put rfl rfl rfl (by decide)
      (s.subscriptions.subscribes.map_get?_enqueue _ now Entry.subscribe) fun k hk => ?_⟩
    cases k <;> first | exact absurd rfl hk | rfl
  | unsubscribe filter waiter =>
    refine ⟨s.nextId.1, rfl, admits_of_put rfl rfl rfl (by decide)
      (s.subscriptions.unsubscribes.map_get?_enqueue _ now Entry.unsubscribe) fun k hk => ?_⟩
    cases k <;> first | exact absurd rfl hk | rfl

end Calls

end Session

/-! ## What a client does on a call -/

namespace Connection

def withSession (k : Connection) (s : Session) : Connection := { k with session := s }

def enqueue (k : Connection) (p : Packet) : Connection := { k with queue := k.queue.push p }

end Connection

namespace Client
variable {c : Client} {now : Time} {k : Call} {i : Nat} {conn : Connection} {a : Session.Call}

/-- Where the calls of a client go: a connection that the broker accepted. -/
def Serves (c : Client) (i : Nat) (conn : Connection) : Prop :=
  c.current = some i ∧ (c.phase i).connection? = some conn ∧ conn.session.isAccepted = true

theorem exists_serves (h : c.isConnected = true) : ∃ i conn, c.Serves i conn := by
  rw [isConnected, Option.any_eq_true] at h
  obtain ⟨conn, hconn, accepted⟩ := h
  obtain ⟨i, hi, hphase⟩ := Option.bind_eq_some_iff.mp hconn
  exact ⟨i, conn, hi, hphase, accepted⟩

theorem make_of_serves (serves : c.Serves i conn) (hk : k.checked = .ok a) :
    c.make now k =
      ⟨c.withPhase i ((c.phase i).withConnection
        (conn.after (conn.session.call conn.isOpen now a))),
        (conn.session.call conn.isOpen now a).output,
        (conn.session.call conn.isOpen now a).result⟩ := by
  rw [make_eq, hk]
  exact call_of_accepted serves.1 serves.2.1 serves.2.2

theorem make_of_open (now : Time) (serves : c.Serves i conn) (hopen : conn.isOpen = true)
    (hk : k.checked = .ok a) :
    ∃ id s' output, conn.session.Admits now a id s' output ∧ c.make now k =
      ⟨c.withPhase i ((c.phase i).withConnection ((conn.withSession s').enqueue (a.packet id))),
        output, .ok id⟩ := by
  obtain ⟨id, hresult, admits⟩ := conn.session.call_open now a
  refine ⟨id, _, _, admits, ?_⟩
  rw [make_of_serves serves hk, hopen, Connection.after, admits.packets, hresult]
  rfl

theorem make_of_closed (now : Time) (serves : c.Serves i conn) (hclosed : conn.isOpen = false)
    (hk : k.checked = .ok a) :
    ∃ ids, c.make now k = .fail (c.withPhase i ((c.phase i).withConnection
      (conn.withSession { conn.session with ids := ids }))) .queueClosed := by
  obtain ⟨ids, hfails⟩ := conn.session.call_closed now a
  refine ⟨ids, ?_⟩
  rw [make_of_serves serves hk, hclosed, hfails]
  rfl

/-- What can come of a call. -/
inductive Outcome (c : Client) (now : Time) (k : Call) : Step Client ClientError UInt16 → Prop
  | refused (e : ClientError) : Outcome c now k (.fail c e)
  | closed {i : Nat} {conn : Connection} (serves : c.Serves i conn) (hclosed : conn.isOpen = false)
      (ids : PacketIds) :
      Outcome c now k (.fail (c.withPhase i ((c.phase i).withConnection
        (conn.withSession { conn.session with ids := ids }))) .queueClosed)
  | taken {i : Nat} {conn : Connection} {a : Session.Call} {id : UInt16} {s' : Session}
      {output : Output} (hk : k.checked = .ok a) (serves : c.Serves i conn)
      (hopen : conn.isOpen = true) (admits : conn.session.Admits now a id s' output) :
      Outcome c now k
        ⟨c.withPhase i ((c.phase i).withConnection ((conn.withSession s').enqueue (a.packet id))),
          output, .ok id⟩

theorem outcome_make (c : Client) (now : Time) (k : Call) : c.Outcome now k (c.make now k) := by
  cases hconnected : c.isConnected with
  | false =>
    rw [make_of_unaccepted hconnected]
    exact .refused _
  | true =>
    obtain ⟨i, conn, serves⟩ := exists_serves hconnected
    cases hk : k.checked with
    | error e =>
      rw [make_eq, hk]
      exact .refused e
    | ok a =>
      cases hopen : conn.isOpen with
      | false =>
        obtain ⟨ids, hmake⟩ := make_of_closed now serves hopen hk
        rw [hmake]
        exact .closed serves hopen ids
      | true =>
        obtain ⟨id, s', output, admits, hmake⟩ := make_of_open now serves hopen hk
        rw [hmake]
        exact .taken hk serves hopen admits

theorem Outcome.of_error {r : Step Client ClientError UInt16} {e : ClientError}
    (h : c.Outcome now k r) (he : r.result = .error e) :
    r.output = {} ∧ (r.state = c ∨ ∃ i conn ids, c.Serves i conn ∧ conn.isOpen = false ∧
      r.state = c.withPhase i ((c.phase i).withConnection
        (conn.withSession { conn.session with ids := ids }))) := by
  cases h with
  | refused => exact ⟨rfl, .inl rfl⟩
  | closed serves hclosed ids => exact ⟨rfl, .inr ⟨_, _, ids, serves, hclosed, rfl⟩⟩
  | taken => cases he

theorem Outcome.of_ok {r : Step Client ClientError UInt16} {id : UInt16} (h : c.Outcome now k r)
    (hid : r.result = .ok id) :
    ∃ a i conn s', k.checked = .ok a ∧ c.Serves i conn ∧ conn.isOpen = true ∧
      conn.session.Admits now a id s' r.output ∧
      r.state = c.withPhase i ((c.phase i).withConnection
        ((conn.withSession s').enqueue (a.packet id))) := by
  cases h with
  | refused | closed => cases hid
  | taken hk serves hopen admits =>
    cases hid
    exact ⟨_, _, _, _, hk, serves, hopen, admits, rfl⟩

/-- A call that fails leaves nothing behind but an identifier that was taken, and one that succeeds
has queued its packet and entered the exchange that it begins. What is wrong with its arguments is
told before anything else. -/
theorem make_leaves (c : Client) (now : Time) (k : Call) :
    (∀ e, k.checked = .error e → c.make now k = .fail c e) ∧
      ((∃ id, (c.make now k).result = .ok id) ↔
        (∃ a, k.checked = .ok a) ∧ ∃ i conn, c.Serves i conn ∧ conn.isOpen = true) ∧
      (∀ e, (c.make now k).result = .error e → (c.make now k).output = {} ∧
        ((c.make now k).state = c ∨ ∃ i conn ids, c.Serves i conn ∧ conn.isOpen = false ∧
          (c.make now k).state = c.withPhase i ((c.phase i).withConnection
            (conn.withSession { conn.session with ids := ids })))) ∧
      ∀ id, (c.make now k).result = .ok id → ∃ a i conn s', k.checked = .ok a ∧
        c.Serves i conn ∧ conn.isOpen = true ∧
        conn.session.Admits now a id s' (c.make now k).output ∧
        (c.make now k).state = c.withPhase i ((c.phase i).withConnection
          ((conn.withSession s').enqueue (a.packet id))) := by
  have houtcome := c.outcome_make now k
  refine ⟨fun e hk => by rw [make_eq, hk], ⟨?_, ?_⟩, fun e => houtcome.of_error,
    fun id => houtcome.of_ok⟩
  · rintro ⟨id, hid⟩
    obtain ⟨a, i, conn, -, hk, serves, hopen, -⟩ := houtcome.of_ok hid
    exact ⟨⟨a, hk⟩, i, conn, serves, hopen⟩
  · rintro ⟨⟨a, hk⟩, i, conn, serves, hopen⟩
    obtain ⟨id, s', output, -, hmake⟩ := make_of_open now serves hopen hk
    exact ⟨id, by rw [hmake]⟩

/-- A session that the broker accepted. -/
def welcomed : Session :=
  { Session.new { address := "broker:1883", clientId := "c1" } 0 with
    handshake := ⟨5000, .accepted false, none⟩ }

def admitted (writer : Writer) : Client where
  options := { address := "broker:1883", clientId := "c1" }
  phases := #[.driving ⟨welcomed, .empty, writer, .empty, true, []⟩ 1000]
  control := some 0
  current := some 0

def greeting : Call := .publish "a" [1] .atLeastOnce false

/-- A message is taken on an open queue and refused on a closed one, and a filter that is none is
refused on either. -/
theorem make_leaves_admitted :
    (∃ (id : UInt16) (s' : Session), ((admitted .new).make 7 greeting).result = .ok id ∧
      welcomed.unfinished.length < 65535 ∧ welcomed.tracked? .puback id = none ∧
      (s'.tracked? .puback id).isSome = true ∧
      ((admitted .new).make 7 greeting).output.packets.length = 1) ∧
      ((admitted ⟨.failed, #[]⟩).make 7 greeting).output = {} ∧
      (admitted .new).make 7 (.subscribe "#/a" .atLeastOnce 0) =
        .fail (admitted .new) (.topicFilter "#/a") := by
  refine ⟨?_, ?_, ?_⟩
  · obtain ⟨-, htaken, -, hok⟩ := make_leaves (admitted .new) 7 greeting
    obtain ⟨id, hid⟩ := htaken.mpr ⟨⟨_, rfl⟩, 0, _, ⟨rfl, rfl, rfl⟩, rfl⟩
    obtain ⟨a, i, conn, s', hk, ⟨hi, hconn, -⟩, -, admits, -⟩ := hok id hid
    cases hk
    cases hi
    cases hconn
    have hroom : welcomed.unfinished.length < 65535 := by decide
    obtain ⟨-, -, hfree, htracked⟩ := admits.begins _ _ rfl
    refine ⟨id, s', hid, hroom, hfree hroom, ?_, by rw [admits.packets]; rfl⟩
    rw [htracked, if_pos ⟨rfl, rfl⟩]
    rfl
  · obtain ⟨-, -, herror, -⟩ := make_leaves (admitted ⟨.failed, #[]⟩) 7 greeting
    exact (herror .queueClosed rfl).1
  · obtain ⟨hrefused, -⟩ := make_leaves (admitted .new) 7 (.subscribe "#/a" .atLeastOnce 0)
    exact hrefused _ rfl

end Client

end Mqtt
