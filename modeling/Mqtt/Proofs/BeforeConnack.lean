import Mqtt.Proofs.Clients

/-!
# Before the CONNACK

A connection queues its CONNECT when the transport opens, and never again. Until the broker accepts
it, no exchange begins and no identifier is taken: calls are refused, looks at the clock go to the
handshake alone, and a packet other than CONNACK ends the reader.
-/
namespace Mqtt

def Packet.isConnack (p : Packet) : Bool :=
  match p.body with
  | .connack _ _ => true
  | _ => false

/-- How many exchanges of each kind are unfinished. -/
def Session.sizes (s : Session) : List Nat :=
  [s.outgoing.awaitPuback.size, s.outgoing.awaitPubrec.size, s.outgoing.awaitPubcomp.size,
    s.incoming.acknowledged.size, s.incoming.awaitPubrel.size,
    s.subscriptions.subscribes.size, s.subscriptions.unsubscribes.size]

/-- A session that the broker has not accepted, whose CONNECT was queued at a time. -/
structure Session.Unserved (o : Options) (sentAt : Time) (s : Session) : Prop where
  accepted : s.isAccepted = false
  timeout : s.handshake.timeout = o.connackTimeout
  sent : ∀ t, s.handshake.state = .awaiting t → t = sentAt
  ids : s.ids = .start
  outgoing : s.outgoing = .new o.policy
  incoming : s.incoming = .new o.policy
  subscriptions : s.subscriptions = .new o.policy

namespace Session
variable {o : Options} {sentAt : Time} {s s' : Session} {q : Packet}

theorem Unserved.sizes (unserved : s.Unserved o sentAt) : s.sizes = List.replicate 7 0 := by
  rw [Session.sizes, unserved.outgoing, unserved.incoming, unserved.subscriptions]
  rfl

theorem violation?_of_unserved (unserved : s.Unserved o sentAt)
    (other : q.isConnack = false) : s.violation? q = some (.beforeConnack (Packet.label q)) := by
  have haccepted : ¬ s.isAccepted = true := by simp [unserved.accepted]
  obtain ⟨header, body⟩ := q
  cases body with
  | connack => cases other
  | _ => exact if_neg haccepted

end Session

namespace Phase

section Unserved
variable {o : Options} {p p' : Phase} {mo : Moment} {c c' : Connection} {sentAt : Time}
  {life before after : List Moment}

theorem unserved_fresh (o : Options) (waiter : Option Waiter) (now : Time) :
    (Connection.fresh o waiter now).session.Unserved o now :=
  ⟨rfl, rfl, fun _ h => by cases h; rfl, rfl, rfl, rfl, rfl⟩

/-- A step that no CONNACK is accepted in leaves the exchanges alone. -/
theorem Lives.unserved (lives : Lives c mo c') (unserved : c.session.Unserved o sentAt)
    (unanswered : mo.act.accepts = false) : c'.session.Unserved o sentAt := by
  cases lives with
  | greets _ _ _ act => cases unanswered.symm.trans act
  | serves accepted => cases unserved.accepted.symm.trans accepted
  | keeps hsession hhandshake hsame =>
    rw [hsession]
    refine ⟨hsame.trans unserved.accepted, ?_, fun t ht => ?_, unserved.ids, unserved.outgoing,
      unserved.incoming, unserved.subscriptions⟩
    · obtain h | h := hhandshake <;> rw [h] <;> exact unserved.timeout
    · obtain h | h := hhandshake <;> rw [h] at ht
      · exact unserved.sent t ht
      · cases ht

/-- What is heard of a connection in a step: no second CONNECT. -/
theorem isConnect_of_takes (takes : Takes o p mo p') (hp : p.connection? = some c) :
    ∀ q ∈ mo.output.packets, q.isConnect = false := by
  obtain ⟨-, c', -, lives⟩ | ⟨reason, -, dies⟩ := takes.lives_or_dies hp
  · cases lives with
    | greets _ _ _ _ _ hpackets =>
      rw [hpackets]
      exact List.forall_mem_nil _
    | serves _ h => exact h.traffic.packets
    | keeps _ _ _ _ hpackets =>
      intro q hq
      rw [hpackets q hq]
      rfl
  · exact fun q hq => (dies.packets q hq).2

/-- What is heard of a connection before the CONNACK in a step: DISCONNECT, and its end. -/
theorem heard_of_unserved (takes : Takes o p mo p') (hp : p.connection? = some c)
    (unserved : c.session.Unserved o sentAt) (unanswered : mo.act.accepts = false) :
    (∀ q ∈ mo.output.packets, q = .ofBody .disconnect) ∧
      mo.output.events = mo.output.losses.map .disconnected := by
  have hno : c.session.isAccepted ≠ true := by simp [unserved.accepted]
  obtain ⟨hnone, c', -, lives⟩ | ⟨reason, hsome, dies⟩ := takes.lives_or_dies hp
  · rw [hnone]
    cases lives with
    | greets _ _ _ act => cases unanswered.symm.trans act
    | serves accepted => exact absurd accepted hno
    | keeps _ _ _ hevents hpackets => exact ⟨hpackets, hevents⟩
  · obtain ⟨before, hevents, hbefore⟩ := dies.events
    obtain rfl : before = [] := List.eq_nil_iff_forall_not_mem.mpr fun e he =>
      hno (hbefore e he).1
    rw [hsome, hevents]
    exact ⟨fun q hq => absurd (dies.packets q hq).1 hno, rfl⟩

/-- Until a CONNACK is accepted, no exchange begins. -/
theorem unserved_concat {past : List Moment}
    (hpast : (∀ m ∈ past, m.act.accepts = false) → c.session.Unserved o sentAt)
    (lives : Lives c mo c') (unanswered : ∀ m ∈ past ++ [mo], m.act.accepts = false) :
    c'.session.Unserved o sentAt := by
  obtain ⟨hbefore, hlast⟩ := List.forall_mem_append.mp unanswered
  exact lives.unserved (hpast hbefore) (hlast mo (List.mem_singleton_self mo))

/-- Before each step of a life that no CONNACK was accepted in, no exchange has begun. -/
theorem unserved_of_middle (run : Trace (Takes o) p (before ++ mo :: after) p')
    (hp : p.connection? = some c) (unserved : c.session.Unserved o sentAt)
    (quiet : losses (before ++ mo :: after).dropLast = [])
    (unanswered : ∀ m ∈ before, m.act.accepts = false) :
    ∃ t k t', Trace (Takes o) p before t ∧ t.connection? = some k ∧
      k.session.Unserved o sentAt ∧ Takes o t mo t' ∧ Trace (Takes o) t' after p' := by
  obtain ⟨t, k, t', hbefore, hk, hunserved, takes, hafter⟩ :=
    alive_of_middle (P := fun past c => (∀ m ∈ past, m.act.accepts = false) →
      c.session.Unserved o sentAt) run hp quiet (fun _ => unserved) unserved_concat
  exact ⟨t, k, t', hbefore, hk, hunserved unanswered, takes, hafter⟩

/-- CONNECT is not queued again while a connection lives. -/
theorem isConnect_of_life (run : Trace (Takes o) p life p') (hp : p.connection? = some c)
    (quiet : losses life.dropLast = []) : ∀ q ∈ packets life, q.isConnect = false := by
  intro q hq
  obtain ⟨mo, hmo, hmem⟩ := List.mem_flatMap.mp hq
  obtain ⟨before, after, rfl⟩ := List.append_of_mem hmo
  obtain ⟨t, k, t', -, hk, -, takes, -⟩ := alive_of_middle (P := fun _ _ => True) run hp quiet
    trivial fun _ _ => trivial
  exact isConnect_of_takes takes hk q hmem

/-- What is heard of a connection that no CONNACK was accepted on. -/
theorem heard_of_life (run : Trace (Takes o) p life p') (hp : p.connection? = some c)
    (unserved : c.session.Unserved o sentAt) (quiet : losses life.dropLast = [])
    (unanswered : ∀ m ∈ life, m.act.accepts = false) :
    (∀ q ∈ packets life, q = .ofBody .disconnect) ∧
      events life = (losses life).map .disconnected := by
  have heard : ∀ mo ∈ life, (∀ q ∈ mo.output.packets, q = .ofBody .disconnect) ∧
      mo.output.events = mo.output.losses.map .disconnected := by
    intro mo hmo
    obtain ⟨before, after, rfl⟩ := List.append_of_mem hmo
    obtain ⟨t, k, t', -, hk, hunserved, takes, -⟩ := unserved_of_middle run hp unserved quiet
      fun m hm => unanswered m (List.mem_append_left _ hm)
    exact heard_of_unserved takes hk hunserved (unanswered mo hmo)
  constructor
  · intro q hq
    obtain ⟨mo, hmo, hmem⟩ := List.mem_flatMap.mp hq
    exact (heard mo hmo).1 q hmem
  · rw [events, losses, List.map_flatMap]
    exact List.flatMap_congr fun mo hmo => (heard mo hmo).2

/-- While a connection lives that no CONNACK was accepted on, no exchange has begun. -/
theorem unserved_of_life (run : Trace (Takes o) p life p') (hp : p.connection? = some c)
    (unserved : c.session.Unserved o sentAt) (quiet : losses life = [])
    (unanswered : ∀ m ∈ life, m.act.accepts = false) :
    ∃ k, p'.connection? = some k ∧ k.session.Unserved o sentAt := by
  obtain ⟨k, hk, hunserved⟩ := lives_of_trace
    (P := fun past k => (∀ m ∈ past, m.act.accepts = false) → k.session.Unserved o sentAt)
    run hp quiet (fun _ => unserved) unserved_concat
  exact ⟨k, hk, hunserved unanswered⟩

/-- A packet other than CONNACK ends the reader, and nothing else comes of it. -/
theorem violates_of_unserved {q : Packet} (hp : p.connection? = some c)
    (unserved : c.session.Unserved o sentAt) (takes : Takes o p mo p')
    (hact : mo.act = .connection (.handle (.packet q))) (other : q.isConnack = false) :
    mo.output = ({} : Output) ∧ p'.connection? =
      some (c.endReading (.protocolViolation (.beforeConnack (Packet.label q)))) := by
  obtain ⟨rfl, houtput⟩ := takes.connection hp hact
  rw [connection?_withConnection hp, houtput, Connection.act,
    Connection.handle_of_violation (Session.violation?_of_unserved unserved other)]
  exact ⟨rfl, rfl⟩

/-- What ends a connection after a packet other than CONNACK: that packet, or what overtook it. -/
theorem reason_of_violation {q : Packet} {p₀ p₁ : Phase} {fin : Moment} {reason : DisconnectReason}
    {before rest : List Moment} (hbefore : Trace (Takes o) p₀ before p) (hopen : p₀.isClosing = false)
    (hp : p.connection? = some c) (unserved : c.session.Unserved o sentAt) (takes : Takes o p mo p')
    (hact : mo.act = .connection (.handle (.packet q))) (other : q.isConnack = false)
    (hrest : Trace (Takes o) p' (rest ++ [fin]) p₁) (quiet : losses rest = [])
    (hreason : reason ∈ fin.output.losses) :
    reason = .protocolViolation (.beforeConnack (Packet.label q)) ∨
      (reason = .requested ∧
        ∃ m ∈ before ++ mo :: (rest ++ [fin]), ∃ caller, m.act = .disconnect caller) ∨
      (reason = .connackTimeout ∧ (∃ orders, fin.act = .tick orders) ∧
        o.connackTimeout < fin.now - sentAt) ∨
      ∃ others, c.reasons = reason :: others := by
  obtain ⟨-, hp'⟩ := violates_of_unserved hp unserved takes hact other
  obtain ⟨t, t', hquiet, hlast, -⟩ := hrest.middle
  obtain hfirst | hrequested | ⟨hlate, htick, t, ht, hover⟩ :=
    reason_of_doomed (hbefore.concat takes) hopen hp' (c.doomed_endReading _) unserved.accepted
      hquiet quiet hlast hreason
  · cases hreasons : c.reasons with
    | nil =>
      rw [hreasons] at hfirst
      exact .inl hfirst
    | cons first others =>
      rw [hreasons] at hfirst
      exact .inr (.inr (.inr ⟨others, congrArg (· :: others) hfirst.symm⟩))
  · exact .inr (.inl (by simpa using hrequested))
  · rw [unserved.timeout, unserved.sent t ht] at hover
    exact .inr (.inr (.inl ⟨hlate, htick, hover⟩))

end Unserved

end Phase

namespace Client
variable {o : Options} {c : Client} {log : List Moment} {i : Nat} {e : Phase.Moment}
  {past life : List Phase.Moment}

/-- The life of a connection that a request to connect opened. -/
theorem life_of_moments (run : Trace Takes (fresh o) log c) (hlife : moments i log = past ++ e :: life)
    (hopened : e.act = .opened) :
    ∃ w p p' waiter, Trace (Phase.Takes o) (.opening w) past p ∧ Phase.Takes o p e p' ∧
      Trace (Phase.Takes o) p' life (c.phase i) ∧
      p'.connection? = some (.fresh o waiter e.now) ∧ p'.isClosing = false ∧
      e.output = .ofPackets [o.connectPacket.toPacket] := by
  have covers := covers_of_trace run
  have made : i < c.phases.size := by
    by_contra hi
    rw [covers.unmade i (Nat.not_lt.mp hi)] at hlife
    cases List.append_eq_nil_iff.mp hlife.symm |>.2
  obtain ⟨w, hrun⟩ := covers.run i made
  rw [hlife] at hrun
  obtain ⟨p, p', hpast, hopen, hlives⟩ := hrun.middle
  obtain ⟨waiter, hp', hdriving, houtput⟩ := Phase.connection_of_opened hopen hopened
  exact ⟨w, p, p', waiter, hpast, hopen, hlives, hp', hdriving, houtput⟩

/-- Nothing but its CONNECT and the end of it is heard of a connection before the CONNACK. -/
theorem nothing_before_connack (run : Trace Takes (fresh o) log c)
    (hlife : moments i log = past ++ e :: life) (hopened : e.act = .opened)
    (quiet : Phase.losses life.dropLast = []) :
    (e.output.packets = [o.connectPacket.toPacket] ∧
        ∀ p ∈ Phase.packets life, p.isConnect = false) ∧
      ((∀ mo ∈ life, mo.act.accepts = false) →
        (∀ p ∈ Phase.packets life, p = .ofBody .disconnect) ∧
        Phase.events (e :: life) = (Phase.losses life).map .disconnected ∧
        (Phase.losses life = [] → ∃ k, (c.phase i).connection? = some k ∧
          k.session.isAccepted = false ∧ k.session.ids = .start ∧
          k.session.sizes = List.replicate 7 0 ∧
          (c.current = some i → ∀ now call, c.make now call = .fail c call.refusal))) ∧
      ∀ before mo after q, life = before ++ mo :: after → (∀ m ∈ before, m.act.accepts = false) →
        mo.act = .connection (.handle (.packet q)) → q.isConnack = false →
          mo.output = ({} : Output) ∧
          (after = [] → ∃ k earlier, (c.phase i).connection? = some k ∧ k.reading = false ∧
            k.reasons = earlier ++ [.protocolViolation (.beforeConnack (Packet.label q))]) ∧
          ∀ rest fin reason, after = rest ++ [fin] → reason ∈ fin.output.losses →
            reason = .protocolViolation (.beforeConnack (Packet.label q)) ∨
            -- the end was asked for, or a look at the clock came too late
            (reason = .requested ∧ ∃ m ∈ life, ∃ caller, m.act = .disconnect caller) ∨
            (reason = .connackTimeout ∧ (∃ orders, fin.act = .tick orders) ∧
              o.connackTimeout < fin.now - e.now) ∨
            -- another reason came before this one
            ∃ w t k others, Trace (Phase.Takes o) (.opening w) (past ++ e :: before) t ∧
              t.connection? = some k ∧ k.reasons = reason :: others := by
  obtain ⟨w, p, p', waiter, hpast, hopen, hlives, hp', hdriving, houtput⟩ :=
    life_of_moments run hlife hopened
  have unserved := Phase.unserved_fresh o waiter e.now
  refine ⟨⟨by rw [houtput]; rfl, Phase.isConnect_of_life hlives hp' quiet⟩, fun unanswered => ?_, ?_⟩
  · obtain ⟨hpackets, hevents⟩ := Phase.heard_of_life hlives hp' unserved quiet unanswered
    refine ⟨hpackets, ?_, fun hnone => ?_⟩
    · rw [Phase.events_cons, houtput, hevents]
      rfl
    · obtain ⟨k, hk, hunserved⟩ := Phase.unserved_of_life hlives hp' unserved hnone unanswered
      refine ⟨k, hk, hunserved.accepted, hunserved.ids, hunserved.sizes, fun taker now call => ?_⟩
      refine make_of_unaccepted ?_ now call
      rw [isConnected, connection?, taker]
      exact (congrArg (Option.any _) hk).trans hunserved.accepted
  · rintro before mo after q rfl unanswered hact other
    obtain ⟨t, k, t', hbefore, hk, hunserved, takes, hafter⟩ :=
      Phase.unserved_of_middle hlives hp' unserved quiet unanswered
    obtain ⟨houtput', hk'⟩ := Phase.violates_of_unserved hk hunserved takes hact other
    refine ⟨houtput', ?_, ?_⟩
    · rintro rfl
      cases hafter
      exact ⟨_, k.reasons, hk', rfl, rfl⟩
    · rintro rest fin reason rfl hreason
      have hquiet : Phase.losses rest = [] := by
        have hlist : before ++ mo :: (rest ++ [fin]) = before ++ [mo] ++ rest ++ [fin] := by simp
        rw [hlist, List.dropLast_concat, Phase.losses_append] at quiet
        exact (List.append_eq_nil_iff.mp quiet).2
      obtain h | h | h | ⟨others, h⟩ := Phase.reason_of_violation hbefore hdriving hk hunserved takes
        hact other hafter hquiet hreason
      · exact .inl h
      · exact .inr (.inl h)
      · exact .inr (.inr (.inl h))
      · have hrun' := (hpast.concat hopen).append hbefore
        rw [List.append_assoc] at hrun'
        exact .inr (.inr (.inr ⟨w, t, k, others, hrun', hk, h⟩))

/-- A message comes before the CONNACK. -/
def receivedEarly : List Phase.Moment :=
  [⟨0, .opened, .ofPackets [Phase.plainOptions.connectPacket.toPacket], false⟩,
    ⟨3, .connection (.handle (.packet Phase.bareMessage.toPacket)), {}, false⟩,
    ⟨3, .observe,
      { events := [.disconnected (.protocolViolation (.beforeConnack "PUBLISH"))]
        answers := [⟨7, .error .connectionLost⟩] }, false⟩]

open Phase (driving ended drive_eq) in
theorem trace_receivedEarly :
    Trace (Phase.Takes Phase.plainOptions) (.opening 7) receivedEarly .ended := by
  let first : Connection := .fresh Phase.plainOptions (some 7) 0
  let stopped := first.endReading (.protocolViolation (.beforeConnack "PUBLISH"))
  exact .next (t := driving first 1000) ⟨rfl, drive_eq _ _ _⟩ <|
    .next (t := driving stopped 1000) ⟨⟨_, rfl, rfl⟩, rfl⟩ <|
    .next (t := ended) ⟨trivial, rfl⟩ <| .idle ended

theorem nothing_before_connack_receivedEarly :
    ∃ current, Trace Takes (fresh Phase.plainOptions) (.connect 7 {} :: receivedEarly.map (.turn 0))
        ⟨Phase.plainOptions, #[.ended], some 0, current⟩ ∧
      (∀ p ∈ Phase.packets receivedEarly.tail, p = .ofBody .disconnect) ∧
      Phase.events receivedEarly =
        [.disconnected (.protocolViolation (.beforeConnack "PUBLISH"))] := by
  have others : ∀ mo ∈ receivedEarly, ∀ k, mo.act ≠ .connection (.call k) := by
    simp [receivedEarly]
  obtain ⟨current, hturns⟩ := trace_of_run trace_receivedEarly others none
  have run : Trace Takes (fresh Phase.plainOptions)
      (.connect 7 {} :: receivedEarly.map (.turn 0))
      ⟨Phase.plainOptions, #[.ended], some 0, current⟩ := .next (.connect 7) hturns
  have hlife : moments 0 (.connect 7 {} :: receivedEarly.map (.turn 0)) =
      [] ++ receivedEarly[0] :: receivedEarly.tail := rfl
  obtain ⟨-, hsilent, -⟩ := nothing_before_connack run hlife rfl rfl
  have unanswered : ∀ mo ∈ receivedEarly.tail, mo.act.accepts = false :=
    List.forall_mem_cons.mpr ⟨rfl, List.forall_mem_singleton.mpr rfl⟩
  obtain ⟨hpackets, hevents, -⟩ := hsilent unanswered
  exact ⟨current, run, hpackets, hevents⟩

/-- The end is asked for, and a message comes before it. -/
def receivedLate : List Phase.Moment :=
  [⟨0, .opened, .ofPackets [Phase.plainOptions.connectPacket.toPacket], false⟩,
    ⟨1, .disconnect (some 8), .ofPackets [.ofBody .disconnect], false⟩,
    ⟨2, .connection (.handle (.packet Phase.bareMessage.toPacket)), {}, false⟩,
    ⟨5001, .elapse,
      { events := [.disconnected .requested]
        answers := [⟨7, .error .connectionLost⟩, ⟨8, .ok .disconnected⟩] }, false⟩]

open Phase (driving closing ended drive_eq) in
theorem trace_receivedLate :
    Trace (Phase.Takes Phase.plainOptions) (.opening 7) receivedLate .ended := by
  let first : Connection := .fresh Phase.plainOptions (some 7) 0
  let closed := first.after (first.session.disconnect true 1)
  let stopped := closed.endReading (.protocolViolation (.beforeConnack "PUBLISH"))
  exact .next (t := driving first 1000) ⟨rfl, drive_eq _ _ _⟩ <|
    .next (t := closing closed 5001 (some 8)) ⟨trivial, rfl⟩ <|
    .next (t := closing stopped 5001 (some 8)) ⟨⟨_, rfl, rfl⟩, rfl⟩ <|
    .next (t := ended) ⟨fun _ _ h => (by cases h), rfl⟩ <| .idle ended

/-- A packet before the CONNACK need not be what a connection ends for. -/
theorem not_always_violation :
    ¬ ∀ (o : Options) (c : Client) (log : List Moment) (i : Nat) (e mo fin : Phase.Moment)
      (past before rest : List Phase.Moment) (q : Packet) (reason : DisconnectReason),
      Trace Takes (fresh o) log c →
        moments i log = past ++ e :: (before ++ mo :: (rest ++ [fin])) → e.act = .opened →
          Phase.losses (before ++ mo :: rest) = [] → (∀ m ∈ before, m.act.accepts = false) →
            mo.act = .connection (.handle (.packet q)) → q.isConnack = false →
              reason ∈ fin.output.losses → ∃ v, reason = .protocolViolation v := by
  intro h
  have others : ∀ mo ∈ receivedLate, ∀ k, mo.act ≠ .connection (.call k) := by
    simp [receivedLate]
  obtain ⟨current, hturns⟩ := trace_of_run trace_receivedLate others none
  obtain ⟨v, hv⟩ := h Phase.plainOptions ⟨Phase.plainOptions, #[.ended], some 0, current⟩
    (.connect 7 {} :: receivedLate.map (.turn 0)) 0 receivedLate[0] receivedLate[2] receivedLate[3]
    [] [receivedLate[1]] [] Phase.bareMessage.toPacket .requested (.next (.connect 7) hturns) rfl rfl
    rfl (List.forall_mem_singleton.mpr rfl) rfl rfl (List.mem_singleton_self _)
  cases hv

end Client

end Mqtt
