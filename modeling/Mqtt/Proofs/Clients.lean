import Mqtt.Client
import Mqtt.Proofs.Lives

/-!
# The steps of a client

An application makes calls, and every request to connect that it made goes on by itself. What is seen
of one request in a run of the client is a run of that request: a call on the session is a step of
the request whose session takes the calls, and of no other.
-/
namespace Mqtt

namespace Client

/-- A call of the application on the session. -/
inductive Call
  | publish (topic : String) (payload : Wire.Bytes) (qos : QoS) (retain : Bool)
  | subscribe (filter : String) (qos : QoS) (waiter : Waiter)
  | unsubscribe (filter : String) (waiter : Waiter)

def make (c : Client) (now : Time) : Call → Step Client ClientError UInt16
  | .publish topic payload qos retain => c.publish topic payload qos retain now
  | .subscribe filter qos waiter => c.subscribe filter qos waiter now
  | .unsubscribe filter waiter => c.unsubscribe filter waiter now

/-- What a call asks of the session, unless it is refused for itself. -/
def Call.checked : Call → Except ClientError Session.Call
  | .publish topic payload qos retain =>
    match TopicName.ofText? topic with
    | none => .error (.topicName topic)
    | some name =>
      if maxBody < 2 + topic.utf8ByteSize + (if qos == .atMostOnce then 0 else 2) + payload.length then
        .error (.payloadTooLarge payload.length)
      else .ok (.publish name payload qos retain)
  | .subscribe filter qos waiter =>
    match TopicFilter.ofText? filter with
    | none => .error (.topicFilter filter)
    | some filter => .ok (.subscribe filter qos waiter)
  | .unsubscribe filter waiter =>
    match TopicFilter.ofText? filter with
    | none => .error (.topicFilter filter)
    | some filter => .ok (.unsubscribe filter waiter)

/-- What a call is told when no session takes it. -/
def Call.refusal (k : Call) : ClientError :=
  match k.checked with
  | .ok _ => .notConnected
  | .error e => e

/-- What is seen of a step of a client. -/
inductive Moment
  | connect (waiter : Waiter) (output : Output)
  | disconnect (output : Output)
  /-- A call, and the request to connect whose session takes calls. -/
  | call (now : Time) (k : Call) (taker : Option Nat) (output : Output)
      (result : Except ClientError UInt16)
  /-- A step of a request to connect. -/
  | turn (i : Nat) (mo : Phase.Moment)

inductive Takes (c : Client) : Moment → Client → Prop
  | connect (waiter : Waiter) :
      Takes c (.connect waiter (c.connect waiter).output) (c.connect waiter).state
  | disconnect : Takes c (.disconnect c.disconnect.output) c.disconnect.state
  | call (now : Time) (k : Call) :
      Takes c (.call now k c.current (c.make now k).output (c.make now k).result)
        (c.make now k).state
  | turn {i : Nat} {now : Time} {a : Phase.Act} {t : Turn} (made : i < c.phases.size)
      (allowed : (c.phase i).Allows a) (others : ∀ k, a ≠ .connection (.call k))
      (step : (c.phase i).step c.options now a = t) :
      Takes c (.turn i ⟨now, a, t.output, t.dials⟩) (c.turn i fun _ => t).1

/-- A client that has made no request yet. -/
def fresh (o : Options) : Client := ⟨o, #[], none, none⟩

/-- What is seen of a step by one request to connect. -/
def Moment.of? (i : Nat) : Moment → Option Phase.Moment
  | .turn j mo => if j = i then some mo else none
  | .call now k taker output _ =>
    if taker = some i then
      k.checked.toOption.map fun k => ⟨now, .connection (.call k), output, false⟩
    else none
  | .connect _ _ | .disconnect _ => none

def moments (i : Nat) (log : List Moment) : List Phase.Moment := log.filterMap (Moment.of? i)

def Moment.output : Moment → Output
  | .connect _ output | .disconnect output | .call _ _ _ output _ => output
  | .turn _ mo => mo.output

def events (log : List Moment) : List Event := log.flatMap fun m => m.output.events

/-- What a step does to the requests to connect. -/
structure Advances (c : Client) (m : Moment) (c' : Client) : Prop where
  options : c'.options = c.options
  size : c.phases.size ≤ c'.phases.size
  taker : ∀ i, c'.current = some i → i < c'.phases.size
  /-- One may have been made. -/
  begins : ∀ i, c.phases.size ≤ i → i < c'.phases.size → ∃ w, c'.phase i = .opening w
  moves : ∀ i mo, m.of? i = some mo → i < c.phases.size ∧
    Phase.Takes c.options (c.phase i) mo (c'.phase i)
  stays : ∀ i, i < c.phases.size → m.of? i = none → c'.phase i = c.phase i

/-- What the log of a client holds of each request to connect. -/
structure Covers (o : Options) (log : List Moment) (c : Client) : Prop where
  options : c.options = o
  taker : ∀ i, c.current = some i → i < c.phases.size
  run : ∀ i, i < c.phases.size →
    ∃ w, Trace (Phase.Takes o) (.opening w) (moments i log) (c.phase i)
  unmade : ∀ i, c.phases.size ≤ i → moments i log = []

/-- A client whose request `i` has got to another phase. -/
def withPhase (c : Client) (i : Nat) (p : Phase) : Client :=
  { c with phases := c.phases.setIfInBounds i p }

section Steps
variable {o : Options} {c c' : Client} {m : Moment} {log : List Moment} {now : Time} {i j : Nat}
  {k : Connection} {p : Phase}

@[simp] theorem size_withPhase (c : Client) (i : Nat) (p : Phase) :
    (c.withPhase i p).phases.size = c.phases.size :=
  Array.size_setIfInBounds

theorem phase_withPhase (hi : i < c.phases.size) (p : Phase) (j : Nat) :
    (c.withPhase i p).phase j = if i = j then p else c.phase j := by
  rw [phase, phase, withPhase, Array.getD_eq_getD_getElem?, Array.getD_eq_getD_getElem?,
    Array.getElem?_setIfInBounds]
  split <;> rfl

theorem withPhase_self (hi : i < c.phases.size) : c.withPhase i (c.phase i) = c := by
  have hsame : c.phases.setIfInBounds i (c.phase i) = c.phases := by
    rw [phase, Array.getD_eq_getD_getElem?, Array.getElem?_eq_getElem hi, Array.setIfInBounds,
      dif_pos hi]
    exact Array.set_getElem_self hi
  rw [withPhase, hsame]

theorem make_eq (c : Client) (now : Time) (k : Call) : c.make now k =
    match k.checked with
    | .ok k => c.call fun s isOpen => s.call isOpen now k
    | .error e => .fail c e := by
  cases k with
  | publish topic payload qos retain =>
    rw [make, publish, Call.checked]
    generalize (if (qos == .atMostOnce) = true then 0 else 2) = idSize
    cases TopicName.ofText? topic with
    | none => rfl
    | some name =>
      dsimp only
      split <;> rfl
  | subscribe filter =>
    rw [make, subscribe, Call.checked]
    cases TopicFilter.ofText? filter <;> rfl
  | unsubscribe filter =>
    rw [make, unsubscribe, Call.checked]
    cases TopicFilter.ofText? filter <;> rfl

theorem call_of_accepted {α : Type} {f : Session → Bool → Step Session ClientError α}
    (taker : c.current = some i) (hk : (c.phase i).connection? = some k)
    (accepted : k.session.isAccepted = true) :
    c.call f = ⟨c.withPhase i ((c.phase i).withConnection (k.after (f k.session k.isOpen))),
      (f k.session k.isOpen).output, (f k.session k.isOpen).result⟩ := by
  have hconnection : c.connection? = some k := by rw [connection?, taker]; exact hk
  rw [call]
  split
  · next i' k' taker' hk' =>
    obtain rfl := Option.some.inj (taker.symm.trans taker')
    obtain rfl := Option.some.inj (hconnection.symm.trans hk')
    exact if_pos accepted
  · next hnone => exact absurd hconnection (hnone i k taker)

/-- Without a connection that the broker accepted, a call does nothing. -/
theorem call_of_unaccepted {α : Type} (f : Session → Bool → Step Session ClientError α)
    (h : c.isConnected = false) : c.call f = .fail c .notConnected := by
  rw [call]
  split
  · next i k taker hk =>
    rw [isConnected, hk] at h
    exact if_neg (by simpa using h)
  · rfl

theorem make_of_unaccepted (h : c.isConnected = false) (now : Time) (k : Call) :
    c.make now k = .fail c k.refusal := by
  rw [make_eq, Call.refusal]
  split
  · exact call_of_unaccepted _ h
  · rfl

/-- What a call does to the request to connect whose session takes it. -/
theorem takes_call (taker : c.current = some i) (made : i < c.phases.size) (now : Time)
    (k : Session.Call) :
    ∃ p, Phase.Takes c.options (c.phase i) ⟨now, .connection (.call k),
        (c.call fun s isOpen => s.call isOpen now k).output, false⟩ p ∧
      (c.call fun s isOpen => s.call isOpen now k).state = c.withPhase i p := by
  have hconnection : c.connection? = (c.phase i).connection? := by rw [connection?, taker]; rfl
  cases hk' : (c.phase i).connection? with
  | none =>
    rw [call_of_unaccepted _ (by rw [isConnected, hconnection, hk']; rfl)]
    refine ⟨c.phase i, ⟨trivial, ?_⟩, (withPhase_self made).symm⟩
    rw [Phase.step, hk']
    rfl
  | some k' =>
    cases accepted : k'.session.isAccepted with
    | true =>
      rw [call_of_accepted taker hk' accepted]
      refine ⟨_, ⟨trivial, ?_⟩, rfl⟩
      rw [Phase.step, hk']
      dsimp only
      rw [Connection.act, if_pos accepted]
    | false =>
      rw [call_of_unaccepted _ (by rw [isConnected, hconnection, hk']; exact accepted)]
      refine ⟨c.phase i, ⟨trivial, ?_⟩, (withPhase_self made).symm⟩
      rw [Phase.step, hk']
      dsimp only
      rw [Connection.act, if_neg (by simp [accepted]), Phase.withConnection_self hk']
      rfl

theorem Advances.still (unseen : ∀ i, m.of? i = none)
    (taker : ∀ i, c.current = some i → i < c.phases.size) (options : c'.options = c.options)
    (phases : c'.phases = c.phases) (current : c'.current = c.current) : Advances c m c' where
  options := options
  size := phases ▸ Nat.le_refl _
  taker i hi := phases ▸ taker i (current ▸ hi)
  begins i hi hi' := absurd hi' (Nat.not_lt.mpr (phases ▸ hi))
  moves i mo h := by cases (unseen i).symm.trans h
  stays i _ _ := by rw [phase, phase, phases]

theorem Advances.move {mo : Phase.Moment} (made : i < c.phases.size)
    (takes : Phase.Takes c.options (c.phase i) mo p)
    (seen : ∀ j, m.of? j = if i = j then some mo else none) (options : c'.options = c.options)
    (size : c'.phases.size = c.phases.size)
    (phases : ∀ j, c'.phase j = if i = j then p else c.phase j)
    (taker : ∀ i, c'.current = some i → i < c.phases.size) : Advances c m c' where
  options := options
  size := size ▸ Nat.le_refl _
  taker i hi := size ▸ taker i hi
  begins j hj hj' := absurd hj' (Nat.not_lt.mpr (size ▸ hj))
  moves j mo' h := by
    rw [seen] at h
    split at h
    · next hij =>
      cases h
      subst hij
      rw [phases, if_pos rfl]
      exact ⟨made, takes⟩
    · cases h
  stays j hj h := by
    rw [phases, if_neg]
    rintro rfl
    rw [seen, if_pos rfl] at h
    cases h

theorem advances_connect (taker : ∀ i, c.current = some i → i < c.phases.size) (waiter : Waiter) :
    Advances c (.connect waiter (c.connect waiter).output) (c.connect waiter).state := by
  rw [connect]
  split
  · exact .still (fun _ => rfl) taker rfl rfl rfl
  · have hsize : (c.phases.push (.opening waiter)).size = c.phases.size + 1 := Array.size_push _
    have hphase : ∀ i, (c.phases.push (.opening waiter)).getD i .ended =
        if i = c.phases.size then .opening waiter else c.phase i := by
      intro i
      rw [Array.getD_eq_getD_getElem?, Array.getElem?_push, phase, Array.getD_eq_getD_getElem?]
      split <;> rfl
    refine ⟨rfl, ?_, fun i hi => ?_, fun i hi hi' => ⟨waiter, ?_⟩, fun i mo h => ?_, fun i hi h => ?_⟩
    · exact hsize.symm ▸ Nat.le_succ _
    · exact hsize.symm ▸ Nat.lt_succ_of_lt (taker i hi)
    · have hlast : i = c.phases.size := Nat.le_antisymm (Nat.le_of_lt_succ (Nat.lt_of_lt_of_eq hi' hsize)) hi
      exact (hphase i).trans (if_pos hlast)
    · cases h
    · exact (hphase i).trans (if_neg (Nat.ne_of_lt hi))

theorem advances_disconnect (taker : ∀ i, c.current = some i → i < c.phases.size) :
    Advances c (.disconnect c.disconnect.output) c.disconnect.state := by
  rw [disconnect]
  split
  · dsimp only
    split <;> exact .still (fun _ => rfl) taker rfl rfl rfl
  · exact .still (fun _ => rfl) taker rfl rfl rfl

theorem advances_call (taker : ∀ i, c.current = some i → i < c.phases.size) (now : Time) (k : Call) :
    Advances c (.call now k c.current (c.make now k).output (c.make now k).result)
      (c.make now k).state := by
  rw [make_eq]
  cases hk : k.checked with
  | error e =>
    refine .still (fun i => ?_) taker rfl rfl rfl
    simp [Moment.of?, hk, Except.toOption]
  | ok a =>
    dsimp only
    cases hi : c.current with
    | none =>
      rw [call_of_unaccepted _ (by rw [isConnected, connection?, hi]; rfl)]
      exact .still (fun i => rfl) taker rfl rfl rfl
    | some i =>
      obtain ⟨p, takes, hstate⟩ := takes_call hi (taker i hi) now a
      rw [hstate]
      refine .move (taker i hi) takes (fun j => ?_) rfl (size_withPhase c i p)
        (phase_withPhase (taker i hi) p) taker
      simp [Moment.of?, hk, Except.toOption]

theorem advances_turn (taker : ∀ i, c.current = some i → i < c.phases.size) {a : Phase.Act} {t : Turn}
    (made : i < c.phases.size) (allowed : (c.phase i).Allows a)
    (step : (c.phase i).step c.options now a = t) :
    Advances c (.turn i ⟨now, a, t.output, t.dials⟩) (c.turn i fun _ => t).1 := by
  refine .move made ⟨allowed, step⟩ (fun j => rfl) rfl (size_withPhase c i _)
    (phase_withPhase made _) fun j hj => ?_
  rw [turn] at hj
  dsimp only at hj
  split at hj
  · cases hj
    exact made
  · cases hj
  · exact taker j hj

theorem Takes.advances (takes : Takes c m c') (taker : ∀ i, c.current = some i → i < c.phases.size) :
    Advances c m c' := by
  cases takes with
  | connect waiter => exact advances_connect taker waiter
  | disconnect => exact advances_disconnect taker
  | call now k => exact advances_call taker now k
  | turn made allowed _ step => exact advances_turn taker made allowed step

theorem moments_concat (i : Nat) (log : List Moment) (m : Moment) :
    moments i (log ++ [m]) = moments i log ++ (m.of? i).toList := by
  rw [moments, List.filterMap_append, ← moments]
  cases h : m.of? i <;> simp [h]

theorem Covers.step (covers : Covers o log c) (takes : Takes c m c') :
    Covers o (log ++ [m]) c' := by
  have advances := takes.advances covers.taker
  have hunborn : ∀ i, c.phases.size ≤ i → moments i (log ++ [m]) = [] := by
    intro i hi
    have hnone : m.of? i = none := Option.eq_none_iff_forall_ne_some.mpr fun mo h =>
      absurd (advances.moves i mo h).1 (Nat.not_lt.mpr hi)
    rw [moments_concat, covers.unmade i hi, hnone]
    rfl
  refine ⟨advances.options.trans covers.options, advances.taker, fun i hi => ?_, fun i hi => ?_⟩
  · by_cases hmade : i < c.phases.size
    · obtain ⟨w, run⟩ := covers.run i hmade
      refine ⟨w, ?_⟩
      rw [moments_concat]
      cases h : m.of? i with
      | none =>
        rw [advances.stays i hmade h]
        simpa using run
      | some mo => exact run.concat (covers.options ▸ (advances.moves i mo h).2)
    · obtain ⟨w, hopening⟩ := advances.begins i (Nat.not_lt.mp hmade) hi
      refine ⟨w, ?_⟩
      rw [hunborn i (Nat.not_lt.mp hmade), hopening]
      exact .idle _
  · exact hunborn i (Nat.le_trans advances.size hi)

/-- What is seen of each request to connect is a run of it. -/
theorem covers_of_trace (run : Trace Takes (fresh o) log c) : Covers o log c := by
  refine run.history (P := Covers o) ⟨rfl, ?_, ?_, fun _ _ => rfl⟩ fun covers takes => covers.step takes
  · intro i hi
    cases hi
  · intro i hi
    cases hi

theorem of?_output {mo : Phase.Moment} (h : m.of? i = some mo) : mo.output = m.output := by
  cases m with
  | connect | disconnect => cases h
  | call now k taker output result =>
    rw [Moment.of?] at h
    split at h
    · obtain ⟨a, -, rfl⟩ := Option.map_eq_some_iff.mp h
      rfl
    · cases h
  | turn j mo' =>
    rw [Moment.of?] at h
    split at h <;> cases h
    rfl

/-- What is put out is put out by a request to connect. -/
theorem output_of_takes (takes : Takes c m c') :
    m.output = {} ∨ ∃ i mo, m.of? i = some mo := by
  cases takes with
  | connect waiter =>
    left
    rw [Moment.output, connect]
    split <;> rfl
  | disconnect =>
    left
    rw [Moment.output, disconnect]
    split
    · dsimp only
      split <;> rfl
    · rfl
  | call now k =>
    rw [Moment.output, make_eq]
    cases hk : k.checked with
    | error e => exact .inl rfl
    | ok a =>
      cases taker : c.current with
      | none =>
        left
        dsimp only
        rw [call_of_unaccepted _ (by rw [isConnected, connection?, taker]; rfl)]
        rfl
      | some i =>
        right
        exact ⟨i, _, (if_pos rfl).trans (by rw [hk]; rfl)⟩
  | @turn i => exact .inr ⟨i, _, if_pos rfl⟩

/-- When one request was made, the application is told nothing else. -/
theorem events_of_single (run : Trace Takes (fresh o) log c) (single : c.phases.size ≤ 1) :
    events log = Phase.events (moments 0 log) := by
  have hboth : Covers o log c ∧
      (c.phases.size ≤ 1 → events log = Phase.events (moments 0 log)) := by
    refine run.history (P := fun log c => Covers o log c ∧
      (c.phases.size ≤ 1 → events log = Phase.events (moments 0 log)))
      ⟨covers_of_trace (.idle _), fun _ => rfl⟩ ?_
    rintro past c m c' ⟨covers, hpast⟩ takes
    have advances := takes.advances covers.taker
    refine ⟨covers.step takes, fun hsize => ?_⟩
    have hbefore : c.phases.size ≤ 1 := Nat.le_trans advances.size hsize
    have hevents : m.output.events = Phase.events (m.of? 0).toList := by
      cases h : m.of? 0 with
      | some mo => simp [Phase.events, of?_output h]
      | none =>
        obtain hnone | ⟨i, mo, hsome⟩ := output_of_takes takes
        · rw [hnone]
          rfl
        · obtain rfl := Nat.lt_one_iff.mp (Nat.lt_of_lt_of_le (advances.moves i mo hsome).1 hbefore)
          cases h.symm.trans hsome
    rw [events, List.flatMap_append, ← events, hpast hbefore, moments_concat, Phase.events_append,
      ← hevents, List.flatMap_singleton]
  exact hboth.2 single

/-- Every run of a request to connect is seen in a client that makes no other and calls nothing. -/
theorem trace_of_run {p p' : Phase} {log : List Phase.Moment} (run : Trace (Phase.Takes o) p log p')
    (others : ∀ mo ∈ log, ∀ k, mo.act ≠ .connection (.call k)) (current : Option Nat) :
    ∃ current', Trace Takes ⟨o, #[p], some 0, current⟩ (log.map (.turn 0))
      ⟨o, #[p'], some 0, current'⟩ := by
  induction run generalizing current with
  | idle p => exact ⟨current, .idle _⟩
  | @next p q p' mo rest first tail ih =>
    obtain ⟨hfirst, hrest⟩ := List.forall_mem_cons.mp others
    let c : Client := ⟨o, #[p], some 0, current⟩
    have hturn : Takes c (.turn 0 mo) (c.turn 0 fun _ => ⟨q, mo.output, mo.dials⟩).1 :=
      .turn (c := c) (a := mo.act) (t := ⟨q, mo.output, mo.dials⟩) Nat.one_pos first.1 hfirst first.2
    obtain ⟨current', htail⟩ := ih hrest (c.turn 0 fun _ => ⟨q, mo.output, mo.dials⟩).1.current
    exact ⟨current', .next hturn htail⟩

end Steps

end Client

end Mqtt
