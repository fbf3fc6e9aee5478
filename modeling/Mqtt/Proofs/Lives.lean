import Mqtt.Proofs.Endings

/-!
# The life of a connection

A connection lives from the step that opens it to the one that tears it down. Until the broker
accepts it, nothing of its session but the handshake is touched; from then on the exchanges run. A
step of a connection leaves it alive, or it is its last and tells the application so.
-/
namespace Mqtt

namespace Phase

def events (log : List Moment) : List Event := log.flatMap fun mo => mo.output.events

/-- What is queued. -/
def packets (log : List Moment) : List Packet := log.flatMap fun mo => mo.output.packets

/-- Whether a CONNACK that accepts the connection is handed over. -/
def Act.accepts : Act → Bool
  | connection (.handle (.packet q)) =>
    match q.body with
    | .connack _ code => code.isAccepted
    | _ => false
  | connection _ | opened | refused _ | disconnect _ | observe | tick _ | elapse => false

/-- A step that a connection survives. -/
inductive Lives (c : Connection) (mo : Moment) (c' : Connection) : Prop
  | greets (sessionPresent : Bool) (waits : c.session.isAccepted = false)
      (accepted : c'.session.isAccepted = true) (act : mo.act.accepts = true)
      (events : mo.output.events = [.connected sessionPresent]) (packets : mo.output.packets = [])
  | serves (accepted : c.session.isAccepted = true)
      (h : c.session.Serves (·.isConnect = false) (fun _ => True) c'.session mo.output)
  | keeps (session : c'.session = { c.session with
        handshake := c'.session.handshake
        lastSent := c'.session.lastSent })
      (handshake : c'.session.handshake = c.session.handshake ∨
        c'.session.handshake = ⟨c.session.handshake.timeout, .failed, none⟩)
      (accepted : c'.session.isAccepted = c.session.isAccepted) (events : mo.output.events = [])
      (packets : ∀ p ∈ mo.output.packets, p = .ofBody .disconnect)

/-- The last step of a connection. What exchanges put out in it comes before its end. -/
structure Dies (o : Options) (c : Connection) (mo : Moment) (reason : DisconnectReason)
    (p' : Phase) : Prop where
  phase : p' = if c.session.isAccepted && reason.isRecoverable && o.reconnect then
    .pausing (mo.now + o.retryDelay) else .ended
  dials : mo.dials = false
  packets : ∀ p ∈ mo.output.packets, c.session.isAccepted = true ∧ p.isConnect = false
  events : ∃ before, mo.output.events = before ++ [.disconnected reason] ∧
    ∀ e ∈ before, c.session.isAccepted = true ∧ e.isExchange = true

section Lives
variable {o : Options} {p p' : Phase} {mo : Moment} {c c' : Connection}

@[simp] theorem events_append (xs ys : List Moment) : events (xs ++ ys) = events xs ++ events ys :=
  List.flatMap_append

@[simp] theorem events_cons (mo : Moment) (log : List Moment) :
    events (mo :: log) = mo.output.events ++ events log :=
  List.flatMap_cons

@[simp] theorem packets_cons (mo : Moment) (log : List Moment) :
    packets (mo :: log) = mo.output.packets ++ packets log :=
  List.flatMap_cons

/-- A transport that opens gets a connection of its own, with CONNECT in the queue. -/
theorem connection_of_opened (takes : Takes o p mo p') (hopened : mo.act = .opened) :
    ∃ waiter, p'.connection? = some (.fresh o waiter mo.now) ∧ p'.isClosing = false ∧
      mo.output = .ofPackets [o.connectPacket.toPacket] := by
  have hchange := takes.change
  obtain ⟨now, act, output, dials⟩ := mo
  dsimp only at hchange hopened ⊢
  subst hopened
  cases hchange with
  | rests hidle => cases hidle
  | opens | reopens => exact ⟨_, rfl, rfl, rfl⟩
  | ends hends =>
    cases hends with
    | closed h => obtain ⟨h, -⟩ | ⟨h, -⟩ := h <;> cases h

theorem lives_act (c : Connection) (now : Time) (a : Connection.Act) :
    Lives c ⟨now, .connection a, (c.act now a).2, false⟩ (c.act now a).1 := by
  have heffect := c.effect_any now a
  generalize c.act now a = r at heffect ⊢
  obtain ⟨c', output⟩ := r
  cases heffect with
  | @accepts _ sessionPresent _ _ waits hcode =>
    exact .greets sessionPresent (Connection.isAccepted_of_awaiting waits) rfl hcode rfl rfl
  | refuses waits =>
    exact .keeps rfl (.inr rfl) (Connection.isAccepted_of_awaiting waits).symm rfl
      (List.forall_mem_nil _)
  | violates => exact .keeps rfl (.inl rfl) rfl rfl (List.forall_mem_nil _)
  | serves accepted h => exact .serves accepted h
  | rests _ hsession =>
    exact .keeps (by rw [hsession]) (.inl (by rw [hsession])) (by rw [hsession]) rfl
      (List.forall_mem_nil _)

theorem lives_tick {now : Time} {orders : Session.Orders}
    (h : (c.tickInOrder now orders).result = .ok ()) :
    Lives c ⟨now, .tick orders, (c.tickInOrder now orders).output, false⟩
      (c.tickInOrder now orders).state := by
  have hlooks := c.looks_any now orders
  generalize c.tickInOrder now orders = r at hlooks h ⊢
  cases hlooks with
  | rests => exact .keeps rfl (.inl rfl) rfl rfl (List.forall_mem_nil _)
  | late => cases h
  | serves accepted h => exact .serves accepted h

/-- The end of a connection comes on top of what its last look at the clock put out. -/
theorem Ends.before {now : Time} {a : Act} {k : Connection} {reason : DisconnectReason}
    {caller : Option Waiter} {before : Output} (ends : Ends now p a k reason caller before)
    (hp : p.connection? = some c) :
    k.session.isAccepted = c.session.isAccepted ∧
      (∀ p ∈ before.packets, c.session.isAccepted = true ∧ p.isConnect = false) ∧
      ∀ e ∈ before.events, c.session.isAccepted = true ∧ e.isExchange = true := by
  cases ends with
  | lost | stuck | closed =>
    obtain rfl := Option.some.inj hp
    exact ⟨rfl, List.forall_mem_nil _, List.forall_mem_nil _⟩
  | @failed k _ orders =>
    obtain rfl := Option.some.inj hp
    have hlooks := k.looks_any now orders
    generalize k.tickInOrder now orders = r at hlooks ⊢
    cases hlooks with
    | rests => exact ⟨rfl, List.forall_mem_nil _, List.forall_mem_nil _⟩
    | late waits =>
      exact ⟨(Connection.isAccepted_of_awaiting waits).symm, List.forall_mem_nil _,
        List.forall_mem_nil _⟩
    | serves accepted h =>
      refine ⟨congrArg Handshake.isAccepted h.handshake, ?_, ?_⟩
      · exact fun p hp => ⟨accepted, h.traffic.packets p hp⟩
      · exact fun e he => ⟨accepted, h.traffic.events e he⟩

theorem Takes.lives_or_dies (takes : Takes o p mo p') (hp : p.connection? = some c) :
    (mo.output.losses = [] ∧ ∃ c', p'.connection? = some c' ∧ Lives c mo c') ∨
      ∃ reason, mo.output.losses = [reason] ∧ Dies o c mo reason p' := by
  have hchange := takes.change
  obtain ⟨now, act, output, dials⟩ := mo
  dsimp only at hchange ⊢
  cases hchange with
  | rests => exact .inl ⟨rfl, c, hp, .keeps rfl (.inl rfl) rfl rfl (List.forall_mem_nil _)⟩
  | @works _ k a hk =>
    obtain rfl := Option.some.inj (hp.symm.trans hk)
    exact .inl ⟨c.losses_act now a, _, connection?_withConnection hp _, lives_act c now a⟩
  | closes =>
    obtain rfl := Option.some.inj hp
    refine .inl ⟨rfl, _, rfl, .keeps rfl (.inl rfl) rfl rfl ?_⟩
    simp [Output.ofPackets]
  | @ticks k _ orders hok =>
    obtain rfl := Option.some.inj hp
    exact .inl ⟨k.losses_tickInOrder now orders, _, rfl, lives_tick hok⟩
  | @ends _ _ k reason caller before hends =>
    right
    obtain ⟨haccepted, hpackets, hevents⟩ := hends.before hp
    refine ⟨reason, ?_, ?_, rfl, ?_, before.events, rfl, hevents⟩
    · rw [Output.losses_append, hends.losses, losses_tearDown]
      rfl
    · rw [← haccepted]
      rfl
    · have hnone : (tearDown o k reason caller now).output.packets = [] := rfl
      rw [Output.packets_append, hnone, List.append_nil]
      exact hpackets
  | opens | reopens | unreachable | fails | givesUp | cancels => cases hp
  | stops hbetween => cases (connection?_of_isBetween hbetween).symm.trans hp
  | dials hwait => obtain ⟨rfl, -⟩ | rfl := hwait <;> cases hp

/-- A life: the connection that a step opened, and the steps that it survived. -/
theorem lives_of_trace {P : List Moment → Connection → Prop} {life : List Moment}
    (run : Trace (Takes o) p life p') (hp : p.connection? = some c) (quiet : losses life = [])
    (start : P [] c)
    (keeps : ∀ {past c mo c'}, P past c → Lives c mo c' → P (past ++ [mo]) c') :
    ∃ c', p'.connection? = some c' ∧ P life c' := by
  revert quiet
  refine run.history (P := fun past p => losses past = [] → ∃ c, p.connection? = some c ∧ P past c)
    (fun _ => ⟨c, hp, start⟩) ?_
  intro past t mo t' hpast takes hnone
  rw [losses_append, losses_singleton, List.append_eq_nil_iff] at hnone
  obtain ⟨k, hk, hP⟩ := hpast hnone.1
  obtain ⟨-, k', hk', hlives⟩ | ⟨reason, hsome, -⟩ := takes.lives_or_dies hk
  · exact ⟨k', hk', keeps hP hlives⟩
  · cases hnone.2.symm.trans hsome

/-- Up to its last step, a connection is alive before each step of its life. -/
theorem alive_of_middle {P : List Moment → Connection → Prop} {before after : List Moment}
    (run : Trace (Takes o) p (before ++ mo :: after) p') (hp : p.connection? = some c)
    (quiet : losses (before ++ mo :: after).dropLast = []) (start : P [] c)
    (keeps : ∀ {past c mo c'}, P past c → Lives c mo c' → P (past ++ [mo]) c') :
    ∃ t k t', Trace (Takes o) p before t ∧ t.connection? = some k ∧ P before k ∧
      Takes o t mo t' ∧ Trace (Takes o) t' after p' := by
  rw [List.dropLast_append_cons, losses_append, List.append_eq_nil_iff] at quiet
  obtain ⟨t, t', hbefore, takes, hafter⟩ := run.middle
  obtain ⟨k, hk, hP⟩ := lives_of_trace hbefore hp quiet.1 start keeps
  exact ⟨t, k, t', hbefore, hk, hP, takes, hafter⟩

/-- The application knows whether the broker has accepted a connection. -/
theorem connected_of_life {life : List Moment} (run : Trace (Takes o) p life p')
    (hp : p.connection? = some c) (fresh : c.session.isAccepted = false) (quiet : losses life = []) :
    ∃ c', p'.connection? = some c' ∧
      (c'.session.isAccepted = true ↔ ∃ sessionPresent, .connected sessionPresent ∈ events life) := by
  refine lives_of_trace (P := fun life c => c.session.isAccepted = true ↔
    ∃ sessionPresent, .connected sessionPresent ∈ events life) run hp quiet (by simp [fresh, events]) ?_
  intro past c mo c' hpast hlives
  rw [events_append, events_cons]
  cases hlives with
  | greets sessionPresent _ accepted _ hevents =>
    exact iff_of_true accepted ⟨sessionPresent, by simp [hevents]⟩
  | serves accepted h =>
    obtain ⟨sessionPresent, hmem⟩ := hpast.mp accepted
    rw [Session.isAccepted, h.handshake]
    exact iff_of_true accepted ⟨sessionPresent, List.mem_append_left _ hmem⟩
  | keeps _ _ hsame hevents =>
    rw [hsame, hpast, hevents]
    simp [events]

end Lives

end Phase

end Mqtt
