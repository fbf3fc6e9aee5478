import Mqtt.Proofs.Moments

/-!
# The watch over the broker

After a period in which nothing was queued a session sends PINGREQ, and it gives the broker up for
good when no PINGRESP comes in time. Both are told by what the session has done and been handed
before, whoever sent it.
-/
namespace Mqtt

def Packet.isPingreq (p : Packet) : Bool :=
  match p.body with
  | .pingreq => true
  | _ => false

def Packet.isPingresp (p : Packet) : Bool :=
  match p.body with
  | .pingresp => true
  | _ => false

theorem Packet.isPingreq_of_isExchange {p : Packet} (h : p.isExchange = true) :
    p.isPingreq = false := by
  obtain ⟨header, body⟩ := p
  cases body <;> first | rfl | cases h

theorem DisconnectReason.ofError_ne_keepAliveTimeout (e : ClientError) :
    ofError e ≠ .keepAliveTimeout := by
  cases e <;> simp [ofError]

/-- Only the watch itself gives the broker up. -/
theorem Step.failure?_ofError_ne {σ α : Type} (r : Step σ ClientError α) :
    (r.mapError DisconnectReason.ofError).failure? ≠ some .keepAliveTimeout := by
  rw [failure?_mapError, Ne, Option.map_eq_some_iff]
  intro h
  obtain ⟨e, -, he⟩ := h
  exact DisconnectReason.ofError_ne_keepAliveTimeout e he

/-! ## One look at the clock -/

namespace KeepAlive

/-- What a look at the clock comes to. -/
inductive Looks (k : KeepAlive) (isOpen : Bool) (lastSent now : Time) :
    Step KeepAlive ClientError Unit → Prop
  | dead (dead : k.brokerAlive = false) : Looks k isOpen lastSent now (.done k)
  | expires {since : Time} (on : k.period ≠ 0) (waits : k.awaitingSince = some since)
      (late : k.patience < now - since) :
      Looks k isOpen lastSent now (.done { k with brokerAlive := false })
  | rests (alive : k.brokerAlive = true)
      (early : k.period = 0 ∨ (∃ since, k.awaitingSince = some since ∧ now - since ≤ k.patience) ∨
        k.awaitingSince = none ∧ now - lastSent < k.period) :
      Looks k isOpen lastSent now (.done k)
  | pings (on : k.period ≠ 0) (alive : k.brokerAlive = true) (idle : k.awaitingSince = none)
      (due : k.period ≤ now - lastSent) :
      Looks k isOpen lastSent now
        (.emit { k with awaitingSince := some now } (.ofPackets [.ofBody .pingreq]))
  | blocked (alive : k.brokerAlive = true) (idle : k.awaitingSince = none) :
      Looks k isOpen lastSent now (.fail k .queueClosed)

theorem looks (k : KeepAlive) (isOpen : Bool) (lastSent now : Time) :
    k.Looks isOpen lastSent now (k.tick isOpen lastSent now) := by
  rw [tick]
  split
  · next hoff =>
    rw [Bool.or_eq_true, decide_eq_true_eq, Bool.not_eq_true'] at hoff
    cases hdead : k.brokerAlive with
    | false => exact .dead hdead
    | true => exact .rests hdead (.inl (hoff.resolve_right (by simp [hdead])))
  · next hon =>
    rw [Bool.or_eq_true, decide_eq_true_eq, Bool.not_eq_true', not_or, Bool.not_eq_false] at hon
    obtain ⟨on, alive⟩ := hon
    split
    · next since hsince =>
      split
      · next hlate => exact .expires on hsince hlate
      · next hlate => exact .rests alive (.inr (.inl ⟨since, hsince, Nat.le_of_not_lt hlate⟩))
    · next hsince =>
      split
      · next hearly => exact .rests alive (.inr (.inr ⟨hsince, hearly⟩))
      · next hdue =>
        split
        · exact .pings on alive hsince (Nat.le_of_not_lt hdue)
        · exact .blocked alive hsince

end KeepAlive

namespace Session

/-! ## Steps -/

/-- The PINGREQs that are written. -/
def Moment.pings (m : Moment) : List Packet := m.output.packets.filter Packet.isPingreq

/-- Whether a PINGRESP is taken; before CONNACK it is a fault. -/
def Moment.isAnswer (m : Moment) : Bool :=
  match m.action with
  | .route p => p.isPingresp && m.failure.isNone
  | _ => false

section Steps
variable {s s' : Session} {m : Moment} {ε α : Type}

@[simp] theorem keepAlive_noteSent (r : Step Session ε α) (now : Time) :
    (noteSent r now).state.keepAlive = r.state.keepAlive := by
  rw [noteSent]
  split <;> rfl

theorem keepAlive_request {s : Session}
    (ask : Subscriptions → UInt16 → Step Subscriptions ClientError Unit) (now : Time) :
    (s.request ask now).state.keepAlive = s.keepAlive := by
  simp only [request, keepAlive_noteSent]
  rw [Step.state_andThen_eq fun _ _ => rfl]
  rfl

theorem keepAlive_tickExchanges (s : Session) (isOpen : Bool) (now : Time) (orders : Orders) :
    (s.tickExchangesInOrder isOpen now orders).state.keepAlive = s.keepAlive :=
  Step.state_andThen (P := fun t : Session => t.keepAlive = s.keepAlive) rfl fun _ =>
    Step.state_andThen (P := fun t : Session => t.keepAlive = s.keepAlive) rfl fun _ => rfl

/-- A step that the watch does not mind. -/
structure Quiet (s : Session) (m : Moment) (s' : Session) : Prop where
  keepAlive : s'.keepAlive = s.keepAlive
  pings : m.pings = []
  failure : m.failure ≠ some .keepAliveTimeout

/-- What a step means to the watch. -/
inductive Watches (s : Session) (m : Moment) (s' : Session) : Prop
  | other (unwatched : m.action = .tick → s.isAccepted = false) (answer : m.isAnswer = false)
      (quiet : s.Quiet m s')
  | answered (action : m.action ≠ .tick) (answer : m.isAnswer = true)
      (keepAlive : s'.keepAlive = s.keepAlive.pingresp) (pings : m.pings = [])
      (failure : m.failure = none)
  | rests (tick : m.action = .tick) (alive : s.keepAlive.brokerAlive = true)
      (early : s.keepAlive.period = 0 ∨
        (∃ since, s.keepAlive.awaitingSince = some since ∧ m.now - since ≤ s.keepAlive.patience) ∨
        s.keepAlive.awaitingSince = none ∧ m.now - s.lastSent < s.keepAlive.period)
      (quiet : s.Quiet m s')
  | blocked (tick : m.action = .tick) (alive : s.keepAlive.brokerAlive = true)
      (idle : s.keepAlive.awaitingSince = none) (failed : m.failure = some .transportClosed)
      (quiet : s.Quiet m s')
  | pings (tick : m.action = .tick) (on : s.keepAlive.period ≠ 0)
      (alive : s.keepAlive.brokerAlive = true) (idle : s.keepAlive.awaitingSince = none)
      (due : s.keepAlive.period ≤ m.now - s.lastSent)
      (keepAlive : s'.keepAlive = { s.keepAlive with awaitingSince := some m.now })
      (pings : m.pings = [.ofBody .pingreq]) (failure : m.failure ≠ some .keepAliveTimeout)
  | givesUp (tick : m.action = .tick)
      (why : s.keepAlive.brokerAlive = false ∨ s.keepAlive.period ≠ 0 ∧
        ∃ since, s.keepAlive.awaitingSince = some since ∧ s.keepAlive.patience < m.now - since)
      (failed : m.failure = some .keepAliveTimeout) (silent : m.output = {})
      (state : s' = { s with keepAlive := { s.keepAlive with brokerAlive := false } })

theorem filter_isPingreq {ps : List Packet} (h : ∀ p ∈ ps, p.isExchange = true) :
    ps.filter Packet.isPingreq = [] :=
  List.filter_eq_nil_iff.mpr fun p hp => by simp [Packet.isPingreq_of_isExchange (h p hp)]

theorem watches_call (isOpen : Bool) (now : Time) (k : Call) {a : Action} (other : a ≠ .tick)
    (answer : ∀ output failure, (Moment.mk now a output failure).isAnswer = false) :
    s.Watches ⟨now, a, (s.call isOpen now k).output,
      (((s.call isOpen now k).mapError .ofError).void).failure?⟩ (s.call isOpen now k).state := by
  refine .other (fun tick => absurd tick other) (answer _ _) ⟨?_, ?_, ?_⟩
  · cases k with
    | publish topic payload qos retain =>
      simp only [call, publish, keepAlive_noteSent]
      cases qos <;> cases isOpen <;> rfl
    | subscribe filter qos waiter => exact keepAlive_request _ now
    | unsubscribe filter waiter => exact keepAlive_request _ now
  · exact filter_isPingreq
      (serves_call s.subscriptions.heldBy_any isOpen now fun _ _ => trivial).traffic.packets
  · rw [Step.failure?_void]
    exact Step.failure?_ofError_ne _

theorem watches_route (isOpen : Bool) (now : Time) (p : Packet) :
    s.Watches ⟨now, .route p, (s.route isOpen p now).output, (s.route isOpen p now).failure?⟩
      (s.route isOpen p now).state := by
  have h := s.routes isOpen p now
  generalize s.route isOpen p now = r at h
  cases h with
  | shakes body state packets failure _ =>
    refine .other Action.noConfusion (by simp [Moment.isAnswer, Packet.isPingresp, body])
      ⟨by rw [state], ?_, ?_⟩
    · rw [Moment.pings, packets]
      rfl
    · intro h
      obtain heq | heq := failure _ h <;> cases heq
  | early =>
    exact .other Action.noConfusion (by simp [Moment.isAnswer, Step.failure?, Step.fail])
      ⟨rfl, rfl, fun h => by cases h⟩
  | served accepted =>
    rw [output_noteSent, failure?_noteSent]
    have hpings := filter_isPingreq
      (serves_routeAccepted s.subscriptions.heldBy_any isOpen p now).traffic.packets
    have hkeeps : ∀ {a : Step Session DisconnectReason Unit}, a.state.keepAlive = s.keepAlive →
        (noteSent a now).state.keepAlive = s.keepAlive := fun h => by rw [keepAlive_noteSent, h]
    obtain ⟨header, body⟩ := p
    cases body with
    | pingresp => exact .answered Action.noConfusion rfl (by rw [keepAlive_noteSent]; rfl) rfl rfl
    | publish | pubrel | pubrec =>
      exact .other Action.noConfusion rfl ⟨hkeeps rfl, hpings, Step.failure?_ofError_ne _⟩
    | puback | pubcomp | suback | unsuback =>
      exact .other Action.noConfusion rfl ⟨hkeeps rfl, hpings, fun h => by cases h⟩
    | connect | connack | subscribe | unsubscribe | pingreq | disconnect =>
      exact .other Action.noConfusion rfl ⟨hkeeps rfl, rfl, fun h => by cases h⟩

theorem tickInOrder_of_emit {k : KeepAlive} {output : Output} {isOpen : Bool} {now : Time}
    (orders : Orders) (accepted : s.isAccepted = true)
    (h : s.keepAlive.tick isOpen s.lastSent now = .emit k output) :
    s.tickInOrder isOpen now orders =
      noteSent ((Step.emit { s with keepAlive := k } output).andThen fun s _ =>
        if s.keepAlive.brokerAlive then (s.tickExchangesInOrder isOpen now orders).mapError .ofError
        else .fail s .keepAliveTimeout) now := by
  rw [tickInOrder, if_neg (by simp [accepted]), h]
  rfl

/-- The exchanges go on while the broker is alive, and write no PINGREQ of their own. -/
theorem tickInOrder_of_alive {k : KeepAlive} {output : Output} {isOpen : Bool} {now : Time}
    (orders : Orders) (accepted : s.isAccepted = true)
    (h : s.keepAlive.tick isOpen s.lastSent now = .emit k output) (alive : k.brokerAlive = true) :
    (s.tickInOrder isOpen now orders).state.keepAlive = k ∧
      (s.tickInOrder isOpen now orders).output.packets.filter Packet.isPingreq =
        output.packets.filter Packet.isPingreq ∧
      (s.tickInOrder isOpen now orders).failure? ≠ some .keepAliveTimeout := by
  let t : Session := { s with keepAlive := k }
  have hexchanges := filter_isPingreq
    (serves_tickExchangesInOrder t.subscriptions.heldBy_any isOpen now orders).traffic.packets
  rw [tickInOrder_of_emit orders accepted h, keepAlive_noteSent, output_noteSent, failure?_noteSent]
  simp only [Step.emit, Step.andThen, alive, if_true]
  refine ⟨keepAlive_tickExchanges t isOpen now orders, ?_, Step.failure?_ofError_ne _⟩
  rw [Output.packets_append, List.filter_append]
  exact (congrArg (_ ++ ·) hexchanges).trans (List.append_nil _)

theorem tickInOrder_of_dead {k : KeepAlive} {isOpen : Bool} {now : Time} (orders : Orders)
    (accepted : s.isAccepted = true) (h : s.keepAlive.tick isOpen s.lastSent now = .done k)
    (dead : k.brokerAlive = false) :
    s.tickInOrder isOpen now orders = .fail { s with keepAlive := k } .keepAliveTimeout := by
  rw [tickInOrder_of_emit orders accepted h]
  simp only [Step.emit, Step.andThen, dead, Bool.false_eq_true, if_false]
  rfl

theorem watches_tick (isOpen : Bool) (now : Time) (orders : Orders) :
    s.Watches ⟨now, .tick, (s.tickInOrder isOpen now orders).output,
      (s.tickInOrder isOpen now orders).failure?⟩ (s.tickInOrder isOpen now orders).state := by
  cases haccepted : s.isAccepted with
  | false =>
    have hshakes : (s.handshake.tick now).output.packets = [] ∧
        (s.handshake.tick now).failure? ≠ some .keepAliveTimeout := by
      rw [Handshake.tick]
      split
      · split <;> exact ⟨rfl, fun h => by cases h⟩
      all_goals exact ⟨rfl, fun h => by cases h⟩
    obtain ⟨hpackets, hfailure⟩ := hshakes
    rw [tickInOrder, if_pos (by simp [haccepted])]
    refine .other (fun _ => haccepted) rfl ⟨rfl, ?_, hfailure⟩
    exact List.filter_eq_nil_iff.mpr fun p hp => absurd (hpackets ▸ hp) List.not_mem_nil
  | true =>
    have hlooks := s.keepAlive.looks isOpen s.lastSent now
    generalize htick : s.keepAlive.tick isOpen s.lastSent now = r at hlooks
    cases hlooks with
    | dead dead =>
      rw [tickInOrder_of_dead orders haccepted htick dead]
      exact .givesUp rfl (.inl dead) rfl rfl (by rw [← dead]; rfl)
    | expires on waits late =>
      rw [tickInOrder_of_dead orders haccepted htick rfl]
      exact .givesUp rfl (.inr ⟨on, _, waits, late⟩) rfl rfl rfl
    | rests alive early =>
      obtain ⟨hkeepAlive, hpings, hfailure⟩ := tickInOrder_of_alive orders haccepted htick alive
      exact .rests rfl alive early ⟨hkeepAlive, hpings, hfailure⟩
    | pings on alive idle due =>
      obtain ⟨hkeepAlive, hpings, hfailure⟩ := tickInOrder_of_alive orders haccepted htick alive
      exact .pings rfl on alive idle due hkeepAlive hpings hfailure
    | blocked alive idle =>
      have hblocked : s.tickInOrder isOpen now orders = .fail s .transportClosed := by
        rw [tickInOrder, if_neg (by simp [haccepted]), htick]
        rfl
      rw [hblocked]
      exact .blocked rfl alive idle rfl ⟨rfl, rfl, fun h => by cases h⟩

theorem Performs.watches (h : s.Performs m s') : s.Watches m s' := by
  obtain ⟨isOpen, now, a, fit⟩ := h
  cases a with
  | start packet waiter =>
    refine .other Action.noConfusion rfl ⟨?_, ?_, Step.failure?_ofError_ne _⟩
    · exact keepAlive_noteSent _ now
    · change ((s.start isOpen packet waiter now).output.packets.filter _) = []
      rw [start, output_noteSent, Handshake.start]
      cases s.handshake.state <;> cases isOpen <;> rfl
  | publish topic payload qos retain =>
    exact watches_call isOpen now (.publish topic payload qos retain) Action.noConfusion
      fun _ _ => rfl
  | subscribe filter qos waiter =>
    exact watches_call isOpen now (.subscribe filter qos waiter) Action.noConfusion fun _ _ => rfl
  | unsubscribe filter waiter =>
    exact watches_call isOpen now (.unsubscribe filter waiter) Action.noConfusion fun _ _ => rfl
  | disconnect =>
    refine .other Action.noConfusion rfl ⟨?_, ?_, Step.failure?_ofError_ne _⟩
    · change (s.disconnect isOpen now).state.keepAlive = s.keepAlive
      rw [disconnect, keepAlive_noteSent]
      cases isOpen <;> rfl
    · change ((s.disconnect isOpen now).output.packets.filter _) = []
      rw [disconnect, output_noteSent]
      cases isOpen <;> rfl
  | route p => exact watches_route isOpen now p
  | tick => exact watches_tick isOpen now _
  | reset => exact .other Action.noConfusion rfl ⟨rfl, rfl, fun h => by cases h⟩

end Steps

/-! ## Runs -/

/-- When the connection began and when packets were queued. -/
def queued (start : Time) (log : List Moment) : List Time :=
  start :: (log.filter fun m => !m.output.packets.isEmpty).map Moment.now

/-- When the PINGREQs were written that are not answered. -/
def unanswered (log : List Moment) : List Time :=
  log.foldl (fun waiting m => if m.isAnswer then [] else waiting ++ m.pings.map fun _ => m.now) []

/-- The broker was not given up. -/
def Timely (log : List Moment) : Prop := ∀ m ∈ log, m.failure ≠ some .keepAliveTimeout

section Runs
variable {o : Options} {start : Time} {log : List Moment} {s s' : Session} {m : Moment}

theorem mem_queued_concat {t : Time} :
    t ∈ queued start (log ++ [m]) ↔
      t ∈ queued start log ∨ m.output.packets.isEmpty = false ∧ t = m.now := by
  cases hempty : m.output.packets.isEmpty <;> simp [queued, hempty, or_assoc]

theorem unanswered_concat :
    unanswered (log ++ [m]) =
      if m.isAnswer then [] else unanswered log ++ m.pings.map fun _ => m.now := by
  rw [unanswered, List.foldl_concat]
  rfl

theorem timely_concat : Timely (log ++ [m]) ↔ Timely log ∧ m.failure ≠ some .keepAliveTimeout := by
  simp [Timely, or_imp, forall_and]

/-- The session keeps the latest of the moments at which packets were queued. -/
structure Clocked (start : Time) (log : List Moment) (last : Time) : Prop where
  queued : last ∈ queued start log
  latest : ∀ t ∈ Session.queued start log, t ≤ last

theorem Clocked.step (h : Clocked start log s.lastSent) (step : s.Performs m s') :
    Clocked start (log ++ [m]) s'.lastSent := by
  rw [step.lastSent, sentBy]
  split
  · next hempty =>
    refine ⟨mem_queued_concat.mpr (.inl h.queued), fun t ht => ?_⟩
    obtain ht | ⟨hnonempty, -⟩ := mem_queued_concat.mp ht
    · exact h.latest t ht
    · rw [hempty] at hnonempty
      cases hnonempty
  · next hempty =>
    rw [Bool.not_eq_true] at hempty
    constructor
    · obtain hle | hle := Nat.le_total s.lastSent m.now
      · rw [Nat.max_eq_right hle]
        exact mem_queued_concat.mpr (.inr ⟨hempty, rfl⟩)
      · rw [Nat.max_eq_left hle]
        exact mem_queued_concat.mpr (.inl h.queued)
    · intro t ht
      obtain ht | ⟨-, rfl⟩ := mem_queued_concat.mp ht
      · exact Nat.le_trans (h.latest t ht) (Nat.le_max_left ..)
      · exact Nat.le_max_right ..

/-- What the watch keeps in mind of a run. -/
structure Watched (o : Options) (log : List Moment) (k : KeepAlive) : Prop where
  period : k.period = o.keepAliveSpan
  patience : k.patience = o.retryDelay
  waiting : unanswered log = k.awaitingSince.toList
  alive : k.brokerAlive = true ↔ Timely log
  off : o.keepAliveSpan = 0 → ∀ m ∈ log, m.pings = [] ∧ m.failure ≠ some .keepAliveTimeout

theorem watched_new (o : Options) : Watched o [] (.new o.keepAliveSpan o.retryDelay) := by
  constructor <;> simp [KeepAlive.new, unanswered, Timely]

theorem Moment.isAnswer_of_tick (tick : m.action = .tick) : m.isAnswer = false := by
  rw [isAnswer, tick]

theorem forall_mem_concat {P : Moment → Prop} (h : ∀ m ∈ log, P m) (last : P m) :
    ∀ m' ∈ log ++ [m], P m' := by
  simpa [or_imp, forall_and] using ⟨h, last⟩

theorem Watched.quiet (h : Watched o log s.keepAlive) (quiet : s.Quiet m s')
    (answer : m.isAnswer = false) : Watched o (log ++ [m]) s'.keepAlive := by
  obtain ⟨hkeepAlive, hpings, hfailure⟩ := quiet
  rw [hkeepAlive]
  refine ⟨h.period, h.patience, ?_, ?_, fun off => ?_⟩
  · simp [unanswered_concat, answer, hpings, h.waiting]
  · simp [timely_concat, hfailure, h.alive]
  · exact forall_mem_concat (h.off off) ⟨hpings, hfailure⟩

theorem Watched.step (h : Watched o log s.keepAlive) (step : s.Watches m s') :
    Watched o (log ++ [m]) s'.keepAlive := by
  cases step with
  | other _ answer quiet => exact h.quiet quiet answer
  | rests tick _ _ quiet | blocked tick _ _ _ quiet =>
    exact h.quiet quiet (Moment.isAnswer_of_tick tick)
  | answered action answer keepAlive pings failure =>
    rw [keepAlive]
    refine ⟨h.period, h.patience, ?_, ?_, fun off => ?_⟩
    · simp [unanswered_concat, answer, KeepAlive.pingresp]
    · simp [timely_concat, failure, KeepAlive.pingresp, h.alive]
    · exact forall_mem_concat (h.off off) ⟨pings, by simp [failure]⟩
  | pings tick on alive idle due keepAlive pings failure =>
    rw [keepAlive]
    refine ⟨h.period, h.patience, ?_, ?_, fun off => ?_⟩
    · simp [unanswered_concat, Moment.isAnswer_of_tick tick, pings, h.waiting, idle]
    · simp [timely_concat, failure, h.alive]
    · exact absurd (h.period.trans off) on
  | givesUp tick why failed silent state =>
    have hpings : m.pings = [] := by
      rw [Moment.pings, silent]
      rfl
    rw [state]
    refine ⟨h.period, h.patience, ?_, ?_, fun off => ?_⟩
    · simp [unanswered_concat, Moment.isAnswer_of_tick tick, hpings, h.waiting]
    · simp [timely_concat, failed]
    · -- without a period nothing is ever late
      have halive := h.alive.mpr fun m hm => (h.off off m hm).2
      obtain dead | ⟨on, -⟩ := why
      · rw [dead] at halive
        cases halive
      · exact absurd (h.period.trans off) on

/-- A PINGREQ goes out alone, after a period in which nothing was queued. -/
theorem Watched.idle_of_pings (h : Watched o log s.keepAlive) (clock : Clocked start log s.lastSent)
    (step : s.Watches m s') (pings : m.pings ≠ []) :
    m.action = .tick ∧ m.pings.length = 1 ∧ unanswered log = [] ∧
      ∀ t ∈ queued start log, t + o.keepAliveSpan ≤ m.now := by
  cases step with
  | other _ _ quiet | rests _ _ _ quiet | blocked _ _ _ _ quiet => exact absurd quiet.pings pings
  | answered _ _ _ hpings _ => exact absurd hpings pings
  | givesUp _ _ _ silent _ => exact absurd (by rw [Moment.pings, silent]; rfl) pings
  | pings tick on _ idle due _ hpings _ =>
    refine ⟨tick, by rw [hpings]; rfl, by rw [h.waiting, idle]; rfl, fun t ht => ?_⟩
    rw [h.period] at on due
    have hspan : ∀ {a b c d : Nat}, a ≠ 0 → a ≤ b - c → d ≤ c → d + a ≤ b := by omega
    exact hspan on due (clock.latest t ht)

/-- A look at the clock that succeeds leaves a PINGREQ unanswered or a queue that was used of late. -/
theorem Watched.queued_of_rests (h : Watched o log s.keepAlive)
    (clock : Clocked start log s.lastSent) (accepted : s.isAccepted = true)
    (on : o.keepAliveSpan ≠ 0) (step : s.Watches m s') (tick : m.action = .tick)
    (succeeded : m.failure = none) (answered : unanswered (log ++ [m]) = []) :
    ∃ t ∈ queued start (log ++ [m]), m.now - t < o.keepAliveSpan := by
  have hnone : s'.keepAlive.awaitingSince = none := by
    have hwaiting := (h.step step).waiting
    rw [answered] at hwaiting
    exact Option.toList_eq_nil_iff.mp hwaiting.symm
  cases step with
  | other unwatched _ _ => simp [unwatched tick] at accepted
  | answered action _ _ _ _ => exact absurd tick action
  | blocked _ _ _ failed _ | givesUp _ _ failed _ _ => simp [failed] at succeeded
  | pings _ _ _ _ _ keepAlive _ _ => simp [keepAlive] at hnone
  | rests _ _ early quiet =>
    rw [quiet.keepAlive] at hnone
    obtain off | ⟨since, waits, -⟩ | ⟨-, hearly⟩ := early
    · exact absurd (h.period.symm.trans off) on
    · rw [hnone] at waits
      cases waits
    · exact ⟨s.lastSent, mem_queued_concat.mpr (.inl clock.queued), h.period ▸ hearly⟩

/-- The broker is given up when its PINGRESP is late, and no sooner. -/
theorem Watched.gives_up_iff (h : Watched o log s.keepAlive) (accepted : s.isAccepted = true)
    (step : s.Watches m s') (timely : Timely log) :
    m.failure = some .keepAliveTimeout ↔ m.action = .tick ∧ o.keepAliveSpan ≠ 0 ∧
      ∃ since, unanswered log = [since] ∧ o.retryDelay < m.now - since := by
  have halive := h.alive.mpr timely
  constructor
  · intro failed
    cases step with
    | other _ _ quiet | rests _ _ _ quiet | blocked _ _ _ _ quiet => exact absurd failed quiet.failure
    | answered _ _ _ _ hfailure => simp [hfailure] at failed
    | pings _ _ _ _ _ _ _ hfailure => exact absurd failed hfailure
    | givesUp tick why _ _ _ =>
      obtain dead | ⟨on, since, waits, late⟩ := why
      · simp [dead] at halive
      · exact ⟨tick, h.period ▸ on, since, by rw [h.waiting, waits]; rfl, h.patience ▸ late⟩
  · intro hlate
    obtain ⟨tick, on, since, hsince, late⟩ := hlate
    have waits : s.keepAlive.awaitingSince = some since := by
      rw [h.waiting] at hsince
      cases hawaiting : s.keepAlive.awaitingSince <;> simp_all
    cases step with
    | other unwatched _ _ => simp [unwatched tick] at accepted
    | answered action _ _ _ _ => exact absurd tick action
    | blocked _ _ idle _ _ | pings _ _ _ idle _ _ _ _ => simp [waits] at idle
    | givesUp _ _ failed _ _ => exact failed
    | rests _ _ early _ =>
      obtain off | ⟨since', waits', hle⟩ | ⟨idle, -⟩ := early
      · exact absurd (h.period.symm.trans off) on
      · cases waits.symm.trans waits'
        exact absurd (h.patience ▸ late) (Nat.not_lt.mpr hle)
      · simp [waits] at idle

/-- A session that gave the broker up does so at every look at the clock, and does nothing else. -/
theorem Watched.rests_of_dead (h : Watched o log s.keepAlive) (accepted : s.isAccepted = true)
    (step : s.Watches m s') (tick : m.action = .tick) (dead : ¬ Timely (log ++ [m])) :
    m.failure = some .keepAliveTimeout ∧ m.output = {} ∧
      s' = { s with keepAlive := { s.keepAlive with brokerAlive := false } } := by
  have hdead : s.keepAlive.brokerAlive = true → m.failure ≠ some .keepAliveTimeout → False :=
    fun alive hfailure => dead (timely_concat.mpr ⟨h.alive.mp alive, hfailure⟩)
  cases step with
  | other unwatched _ _ => simp [unwatched tick] at accepted
  | answered action _ _ _ _ => exact absurd tick action
  | rests _ alive _ quiet | blocked _ alive _ _ quiet => exact absurd quiet.failure (hdead alive)
  | pings _ _ alive _ _ _ _ hfailure => exact absurd hfailure (hdead alive)
  | givesUp _ _ failed silent state => exact ⟨failed, silent, state⟩

theorem clocked_of_trace (run : Trace Performs (new o start) log s) :
    Clocked start log s.lastSent :=
  run.history (P := fun log s => Clocked start log s.lastSent)
    ⟨List.mem_singleton.mpr rfl, by simp [queued, new]⟩ fun h step => h.step step

theorem watched_of_trace (run : Trace Performs (new o start) log s) : Watched o log s.keepAlive :=
  run.history (P := fun log s => Watched o log s.keepAlive) (watched_new o)
    fun h step => h.step step.watches

theorem keepAliveSpan_eq_zero_iff : o.keepAliveSpan = 0 ↔ o.keepAlive = 0 := by
  rw [Options.keepAliveSpan, ← UInt16.toNat_inj]
  change 1000 * o.keepAlive.toNat = 0 ↔ o.keepAlive.toNat = 0
  omega

/-- What the watch does after any run on which the broker has accepted. -/
theorem keep_alive_verdicts (run : Trace Performs (new o start) log s)
    (accepted : s.isAccepted = true) (step : s.Performs m s') :
    s'.isAccepted = true ∧ (unanswered (log ++ [m])).length ≤ 1 ∧
      (m.pings ≠ [] → m.action = .tick ∧ m.pings.length = 1 ∧ unanswered log = [] ∧
        ∀ t ∈ queued start log, t + o.keepAliveSpan ≤ m.now) ∧
      (o.keepAlive ≠ 0 → m.action = .tick → m.failure = none → unanswered (log ++ [m]) = [] →
        ∃ t ∈ queued start (log ++ [m]), m.now - t < o.keepAliveSpan) ∧
      (Timely log → (m.failure = some .keepAliveTimeout ↔ m.action = .tick ∧ o.keepAlive ≠ 0 ∧
        ∃ since, unanswered log = [since] ∧ o.retryDelay < m.now - since)) ∧
      (¬ Timely (log ++ [m]) → s'.keepAlive.brokerAlive = false ∧
        (m.action = .tick → m.failure = some .keepAliveTimeout ∧ m.output = {} ∧
          s' = { s with keepAlive := { s.keepAlive with brokerAlive := false } })) ∧
      (o.keepAlive = 0 → ∀ m' ∈ log ++ [m],
        m'.pings = [] ∧ m'.failure ≠ some .keepAliveTimeout) := by
  have clock := clocked_of_trace run
  have h := watched_of_trace run
  have watches := step.watches
  have h' := h.step watches
  simp only [ne_eq, ← keepAliveSpan_eq_zero_iff]
  refine ⟨step.accepted accepted, ?_, h.idle_of_pings clock watches, fun on tick =>
    h.queued_of_rests clock accepted on watches tick, h.gives_up_iff accepted watches,
    fun dead => ⟨?_, fun tick => h.rests_of_dead accepted watches tick dead⟩, h'.off⟩
  · rw [h'.waiting]
    cases s'.keepAlive.awaitingSince <;> simp
  · rw [← Bool.not_eq_true, h'.alive]
    exact dead

end Runs

def impatientOptions : Options where
  address := "broker:1883"
  clientId := "c1"
  keepAlive := 1
  retryDelay := 500

/-- A broker that answers one PINGREQ and then no more. -/
def silence : List Moment :=
  [⟨0, .start impatientOptions.connectPacket none,
      .ofPackets [impatientOptions.connectPacket.toPacket], none⟩,
    ⟨100, .route (.ofBody (.connack false .accepted)), .ofEvent (.connected false), none⟩,
    ⟨1000, .tick, .ofPackets [.ofBody .pingreq], none⟩,
    ⟨1200, .route (.ofBody .pingresp), {}, none⟩,
    ⟨2000, .tick, .ofPackets [.ofBody .pingreq], none⟩]

theorem trace_silence :
    ∃ s s', Trace Performs (new impatientOptions 0) silence s ∧ s.isAccepted = true ∧
      s.Performs ⟨2501, .tick, {}, some .keepAliveTimeout⟩ s' := by
  have fit := fit_orders
  refine ⟨_, _, .cons (.intro true 0 _ (fit _)) rfl <| .cons (.intro true 100 _ (fit _)) rfl <|
    .cons (.intro true 1000 _ (fit _)) rfl <| .cons (.intro true 1200 _ (fit _)) rfl <|
    .cons (.intro true 2000 _ (fit _)) rfl <| .idle _, rfl, .intro true 2501 .tick (fit _)⟩

/-- The PINGREQ of the second period is answered too late. -/
theorem keep_alive_verdicts_silence :
    ∃ s s', Trace Performs (new impatientOptions 0) silence s ∧ s.isAccepted = true ∧
      s.Performs ⟨2501, .tick, {}, some .keepAliveTimeout⟩ s' ∧ Timely silence ∧
      unanswered silence = [2000] ∧
      (∃ since, unanswered silence = [since] ∧ impatientOptions.retryDelay < 2501 - since) ∧
      s' = { s with keepAlive := { s.keepAlive with brokerAlive := false } } := by
  obtain ⟨s, s', run, accepted, step⟩ := trace_silence
  obtain ⟨-, -, -, -, hverdict, hdead, -⟩ := keep_alive_verdicts run accepted step
  have timely : Timely silence := by simp [Timely, silence]
  have dead : ¬ Timely (silence ++ [⟨2501, .tick, {}, some .keepAliveTimeout⟩]) := by simp [Timely]
  obtain ⟨-, -, hlate⟩ := (hverdict timely).mp rfl
  obtain ⟨-, -, hstate⟩ := (hdead dead).2 rfl
  exact ⟨s, s', run, accepted, step, timely, rfl, hlate, hstate⟩

end Session

end Mqtt
