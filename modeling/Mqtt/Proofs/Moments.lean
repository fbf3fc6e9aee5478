import Mqtt.Proofs.Traffic

/-!
# Sessions step by step

A session as it is seen from outside: when something was asked of it, what it put out, and whether
it failed. Packets may meet a closed queue at any step. A session keeps in mind when it last queued
a packet, and that the broker has accepted.
-/
namespace Mqtt

namespace Step
variable {σ ε δ α : Type}

/-- The same step without its value. -/
def void (r : Step σ ε α) : Step σ ε Unit := ⟨r.state, r.output, r.result.map fun _ => ()⟩

def failure? (r : Step σ ε α) : Option ε :=
  match r.result with
  | .ok _ => none
  | .error e => some e

theorem failure?_mapError (r : Step σ ε α) (f : ε → δ) :
    (r.mapError f).failure? = r.failure?.map f := by
  obtain ⟨state, output, result⟩ := r
  cases result <;> rfl

theorem failure?_void (r : Step σ ε α) : r.void.failure? = r.failure? := by
  obtain ⟨state, output, result⟩ := r
  cases result <;> rfl

end Step

namespace Session

/-- One step of a session, as it is seen from outside. -/
structure Moment where
  now : Time
  action : Action
  output : Output
  failure : Option DisconnectReason

/-- What an action does, on a queue that is open or closed; a look at the clock goes through the
tables in given orders. -/
def act (s : Session) (isOpen : Bool) (now : Time) (orders : Orders) :
    Action → Step Session DisconnectReason Unit
  | .start packet waiter => (s.start isOpen packet waiter now).mapError .ofError
  | .publish topic payload qos retain =>
    ((s.publish isOpen topic payload qos retain now).mapError .ofError).void
  | .subscribe filter qos waiter =>
    ((s.subscribe isOpen filter qos waiter now).mapError .ofError).void
  | .unsubscribe filter waiter => ((s.unsubscribe isOpen filter waiter now).mapError .ofError).void
  | .disconnect => (s.disconnect isOpen now).mapError .ofError
  | .route p => s.route isOpen p now
  | .tick => s.tickInOrder isOpen now orders
  | .reset => .emit s.reset.1 s.reset.2

/-- A step of a session. -/
inductive Performs (s : Session) : Moment → Session → Prop
  | intro (isOpen : Bool) (now : Time) (a : Action) {orders : Orders} (fit : orders.Fit s) :
      Performs s
        ⟨now, a, (s.act isOpen now orders a).output, (s.act isOpen now orders a).failure?⟩
        (s.act isOpen now orders a).state

section Steps
variable {s s' : Session} {m : Moment} {ε α : Type}

@[simp] theorem output_noteSent (r : Step Session ε α) (now : Time) :
    (noteSent r now).output = r.output := by
  rw [noteSent]
  split <;> rfl

@[simp] theorem failure?_noteSent (r : Step Session ε α) (now : Time) :
    (noteSent r now).failure? = r.failure? := by
  rw [noteSent]
  split <;> rfl

@[simp] theorem handshake_noteSent (r : Step Session ε α) (now : Time) :
    (noteSent r now).state.handshake = r.state.handshake := by
  rw [noteSent]
  split <;> rfl

/-- When the last packet was queued, after a step that puts out these. -/
def sentBy (last now : Time) (packets : List Packet) : Time :=
  if packets.isEmpty then last else max last now

theorem lastSent_noteSent {r : Step Session ε α} (h : r.state.lastSent = s.lastSent) (now : Time) :
    (noteSent r now).state.lastSent = sentBy s.lastSent now (noteSent r now).output.packets := by
  rw [output_noteSent, sentBy, ← h, noteSent]
  split <;> rfl

theorem lastSent_tickExchanges (s : Session) (isOpen : Bool) (now : Time) (orders : Orders) :
    (s.tickExchangesInOrder isOpen now orders).state.lastSent = s.lastSent :=
  Step.state_andThen (P := fun t : Session => t.lastSent = s.lastSent) rfl fun _ =>
    Step.state_andThen (P := fun t : Session => t.lastSent = s.lastSent) rfl fun _ => rfl

theorem lastSent_tick (s : Session) (isOpen : Bool) (now : Time) (orders : Orders) :
    (s.tickInOrder isOpen now orders).state.lastSent =
      sentBy s.lastSent now (s.tickInOrder isOpen now orders).output.packets := by
  rw [tickInOrder]
  split
  · rw [Handshake.tick]
    split
    · split <;> rfl
    · rfl
    · rfl
    · rfl
  · refine lastSent_noteSent ?_ now
    refine Step.state_andThen (P := fun t : Session => t.lastSent = s.lastSent) rfl fun _ => ?_
    split
    · exact lastSent_tickExchanges _ isOpen now orders
    · rfl

/-- What comes of a packet of the broker: it is about the handshake, too early, or handed on. -/
inductive Routes (s : Session) (isOpen : Bool) (p : Packet) (now : Time) :
    Step Session DisconnectReason Unit → Prop
  | shakes {r : Step Session DisconnectReason Unit} {h : Handshake} {sessionPresent : Bool}
      {code : ConnectCode} (body : p.body = .connack sessionPresent code)
      (state : r.state = { s with handshake := h }) (packets : r.output.packets = [])
      (failure : ∀ reason, r.failure? = some reason →
        reason = .protocolViolation .unexpectedConnack ∨ reason = .connectionRefused code)
      (keeps : s.isAccepted = true → h.isAccepted = true) : Routes s isOpen p now r
  | early (early : s.isAccepted = false) :
      Routes s isOpen p now (.fail s (.protocolViolation (.beforeConnack (Packet.label p))))
  | served (accepted : s.isAccepted = true) :
      Routes s isOpen p now (noteSent (s.routeAccepted isOpen p now) now)

theorem routes (s : Session) (isOpen : Bool) (p : Packet) (now : Time) :
    s.Routes isOpen p now (s.route isOpen p now) := by
  rw [route]
  split
  · next sessionPresent code hbody =>
    rw [Handshake.connack]
    cases hstate : s.handshake.state with
    | awaiting sentAt =>
      have hearly : s.isAccepted = false := by rw [isAccepted, Handshake.isAccepted, hstate]
      dsimp only
      split
      · refine .shakes hbody rfl rfl (fun reason h => ?_) fun _ => rfl
        cases h
      · refine .shakes hbody rfl rfl (fun reason h => ?_) (by simp [hearly])
        cases h
        exact .inr rfl
    | idle | accepted | failed =>
      refine .shakes (h := s.handshake) hbody rfl rfl (fun reason h => ?_) id
      cases h
      exact .inl rfl
  · split
    · next accepted => exact .served accepted
    · next early => exact .early (Bool.not_eq_true _ ▸ early)

theorem lastSent_route (s : Session) (isOpen : Bool) (p : Packet) (now : Time) :
    (s.route isOpen p now).state.lastSent =
      sentBy s.lastSent now (s.route isOpen p now).output.packets := by
  have h := s.routes isOpen p now
  generalize s.route isOpen p now = r at h
  cases h with
  | shakes _ state packets =>
    rw [state, packets]
    rfl
  | early => rfl
  | served =>
    refine lastSent_noteSent ?_ now
    obtain ⟨header, body⟩ := p
    cases body <;> rfl

theorem lastSent_act (s : Session) (isOpen : Bool) (now : Time) (orders : Orders) (a : Action) :
    (s.act isOpen now orders a).state.lastSent =
      sentBy s.lastSent now (s.act isOpen now orders a).output.packets := by
  cases a with
  | start packet waiter => exact lastSent_noteSent rfl now
  | publish topic payload qos retain =>
    refine lastSent_noteSent ?_ now
    cases qos <;> cases isOpen <;> rfl
  | subscribe | unsubscribe | disconnect =>
    refine lastSent_noteSent ?_ now
    cases isOpen <;> rfl
  | route p => exact s.lastSent_route isOpen p now
  | tick => exact s.lastSent_tick isOpen now orders
  | reset => rfl

theorem Performs.lastSent (h : s.Performs m s') :
    s'.lastSent = sentBy s.lastSent m.now m.output.packets := by
  obtain ⟨isOpen, now, a, fit⟩ := h
  exact s.lastSent_act isOpen now _ a

/-- Nothing takes back that the broker has accepted. -/
theorem Performs.accepted (h : s.Performs m s') (accepted : s.isAccepted = true) :
    s'.isAccepted = true := by
  obtain ⟨isOpen, now, a, fit⟩ := h
  have hserves : ∀ {sends callers output} {t : Session}, s.Serves sends callers t output →
      t.isAccepted = true := by
    intro sends callers output t serves
    rw [isAccepted, serves.handshake]
    exact accepted
  have held := s.subscriptions.heldBy_any
  cases a with
  | start packet waiter =>
    change (s.start isOpen packet waiter now).state.isAccepted = true
    rw [start, isAccepted, handshake_noteSent]
    rw [isAccepted, Handshake.isAccepted] at accepted
    rw [Handshake.start]
    cases hstate : s.handshake.state with
    | accepted => simp [Step.inside, Step.fail, Handshake.isAccepted, hstate]
    | idle | awaiting | failed => simp [hstate] at accepted
  | publish topic payload qos retain =>
    exact hserves
      (serves_call held isOpen now (k := .publish topic payload qos retain) fun _ _ => trivial)
  | subscribe filter qos waiter =>
    exact hserves
      (serves_call held isOpen now (k := .subscribe filter qos waiter) fun _ _ => trivial)
  | unsubscribe filter waiter =>
    exact hserves (serves_call held isOpen now (k := .unsubscribe filter waiter) fun _ _ => trivial)
  | disconnect =>
    change (s.disconnect isOpen now).state.isAccepted = true
    rw [disconnect, isAccepted, handshake_noteSent]
    cases isOpen <;> exact accepted
  | route p =>
    change (s.route isOpen p now).state.isAccepted = true
    have h := s.routes isOpen p now
    generalize s.route isOpen p now = r at h
    cases h with
    | shakes _ state _ _ keeps =>
      rw [state]
      exact keeps accepted
    | early => exact accepted
    | served => exact hserves ((serves_routeAccepted held isOpen p now).noteSent now)
  | tick => exact hserves (serves_tickInOrder accepted held isOpen now _)
  | reset =>
    rw [isAccepted, Handshake.isAccepted] at accepted
    cases hstate : s.handshake.state with
    | accepted =>
      simp [act, reset, Handshake.reset, isAccepted, Handshake.isAccepted, Step.emit, hstate]
    | idle | awaiting | failed => simp [hstate] at accepted

end Steps

end Session

end Mqtt
