import Mqtt.Client.Subscriptions
import Mqtt.Proofs.Run

/-!
# Requests by identifier

A request to subscribe and a request to unsubscribe are alike in what can become of them: an
acknowledgement of their kind, the last attempt of a retry table, or the loss of the connection
ends them, and each end answers the call that waits. Both tables are read as one, by identifier.
The queue is open throughout.
-/
namespace Mqtt

namespace Subscriptions

inductive Request
  | subscribe (q : Subscribe)
  | unsubscribe (q : Unsubscribe)
  deriving DecidableEq, Repr

/-- A request and who waits for its answer. -/
structure Call where
  request : Request
  waiter : Waiter
  deriving DecidableEq, Repr

inductive Ask
  | call (c : Call)
  | suback (id : UInt16) (code : SubscribeCode)
  | unsuback (id : UInt16)
  | tick
  | reset
  deriving DecidableEq, Repr

/-- What was asked at some time, and what came of it. -/
structure Moment where
  now : Time
  ask : Ask
  output : Output
  result : Except ClientError Unit

namespace Request

def id : Request → UInt16
  | subscribe q => q.id
  | unsubscribe q => q.id

def packet : Request → Packet
  | subscribe q => .ofBody (.subscribe q)
  | unsubscribe q => .ofBody (.unsubscribe q)

/-- What the call is answered when its request is acknowledged, and what the application is told. -/
inductive Confirms : Request → Reply → Event → Prop
  | subscribe (q : Subscribe) (code : SubscribeCode) :
      Confirms (.subscribe q) (.subscribed code) (.subscribed q.id q.filter code)
  | unsubscribe (q : Unsubscribe) :
      Confirms (.unsubscribe q) .unsubscribed (.unsubscribed q.id q.filter)

/-- How a request ends, if it does. -/
def ends? (r : Request) (exhausted : Bool) : Ask → Option (Except ClientError Reply)
  | .call _ => none
  | .suback id code =>
    match r with
    | .subscribe q => if q.id = id then some (.ok (.subscribed code)) else none
    | .unsubscribe _ => none
  | .unsuback id =>
    match r with
    | .subscribe _ => none
    | .unsubscribe q => if q.id = id then some (.ok .unsubscribed) else none
  | .tick => if exhausted then some (.error (.retriesExhausted r.id)) else none
  | .reset => some (.error .connectionLost)

theorem packet_inj {r r' : Request} (h : r.packet = r'.packet) : r = r' := by
  have hbody := congrArg Framed.body h
  cases r <;> cases r' <;> cases hbody <;> rfl

end Request

def Ask.call? : Ask → Option Call
  | call c => some c
  | suback _ _ | unsuback _ | tick | reset => none

theorem Ask.call?_eq_some {a : Ask} {c : Call} : a.call? = some c ↔ a = .call c := by
  cases a <;> simp [call?]

def calls (log : List Moment) : List Call := log.filterMap fun mo => mo.ask.call?

/-- The outcomes for one waiter. -/
def toWaiter (w : Waiter) (as : List Answer) : List (Except ClientError Reply) :=
  as.filterMap fun a => if a.waiter = w then some a.outcome else none

def Moment.answersTo (w : Waiter) (mo : Moment) : List (Except ClientError Reply) :=
  toWaiter w mo.output.answers

def answers (w : Waiter) (log : List Moment) : List (Except ClientError Reply) :=
  log.flatMap (Moment.answersTo w)

def Moment.times (r : Request) (mo : Moment) : List Time :=
  (mo.output.packets.filter fun q => q == r.packet).map fun _ => mo.now

/-- When the packet of a request was written. -/
def times (r : Request) (log : List Moment) : List Time := log.flatMap (Moment.times r)

/-! ## Steps -/

/-- A look at the clock that goes through the tables in given orders. The machine itself goes by the
identifiers. -/
def tickInOrder (s : Subscriptions) (isOpen : Bool) (now : Time) (first second : List UInt16) :
    Step Subscriptions ClientError Unit :=
  ((s.subscribes.renewInOrder isOpen now first).inside fun t => { s with subscribes := t }).andThen
    fun s _ =>
      (s.unsubscribes.renewInOrder isOpen now second).inside fun t => { s with unsubscribes := t }

theorem tick_eq_tickInOrder (s : Subscriptions) (isOpen : Bool) (now : Time) :
    s.tick isOpen now = s.tickInOrder isOpen now s.subscribes.ids s.unsubscribes.ids := by
  simp only [tick, tickInOrder, RetryTable.renew, Step.andThen, Step.inside]

def call (s : Subscriptions) (c : Call) (now : Time) : Step Subscriptions ClientError Unit :=
  match c.request with
  | .subscribe q => s.subscribe true q c.waiter now
  | .unsubscribe q => s.unsubscribe true q c.waiter now

/-- The steps of the machine on an open queue. The identifier of a new request is not in use, and a
tick goes through each table in any order. -/
inductive Takes (s : Subscriptions) : Moment → Subscriptions → Prop
  | call (now : Time) (c : Call) (fresh : s.contains c.request.id = false) :
      Takes s ⟨now, .call c, (s.call c now).output, (s.call c now).result⟩ (s.call c now).state
  | suback (now : Time) (id : UInt16) (code : SubscribeCode) :
      Takes s ⟨now, .suback id code, (s.suback id code).2, .ok ()⟩ (s.suback id code).1
  | unsuback (now : Time) (id : UInt16) :
      Takes s ⟨now, .unsuback id, (s.unsuback id).2, .ok ()⟩ (s.unsuback id).1
  | tick (now : Time) {first second : List UInt16} (hfirst : first.Perm s.subscribes.ids)
      (hsecond : second.Perm s.unsubscribes.ids) :
      Takes s
        ⟨now, .tick, (s.tickInOrder true now first second).output,
          (s.tickInOrder true now first second).result⟩
        (s.tickInOrder true now first second).state
  | reset (now : Time) : Takes s ⟨now, .reset, s.reset.2, .ok ()⟩ s.reset.1

end Subscriptions

/-! ## A table of requests -/

namespace RetryTable
variable {α : Type} [Awaited α] {t : RetryTable α} {event : α → Event} {reply : Reply}
  {id x : UInt16} {c : Context α} {now : Time} {order : List UInt16}

theorem state_ask (t : RetryTable α) (isOpen : Bool) (e : α) (now : Time) :
    (t.ask isOpen e now).state = (t.enqueue isOpen e now).state := by
  cases isOpen <;> rfl

/-- A new request is written at once, and no call waited under its identifier. -/
theorem output_ask {e : α} (h : t.get? (Exchange.id e) = none) (now : Time) :
    (t.ask true e now).output = .ofPackets [Exchange.packet e 1] := by
  rw [ask, h]
  rfl

theorem get?_ask (t : RetryTable α) (e : α) (now : Time) (x : UInt16) :
    (t.ask true e now).state.get? x =
      if Exchange.id e = x then some ((Context.new e now).restart now) else t.get? x := by
  rw [state_ask]
  exact get?_enqueueContext t (.new e now) now x

theorem confirm_of_none (h : t.get? id = none) : t.confirm event reply id = (t, {}) := by
  rw [confirm, finalize_of_none h]

theorem confirm_of_some (h : t.get? id = some c) :
    t.confirm event reply id =
      (t.erase id, ⟨[], [event c.exchange], [⟨Awaited.waiter c.exchange, .ok reply⟩]⟩) := by
  rw [confirm, finalize_of_some h]
  rfl

theorem get?_confirm (t : RetryTable α) (event : α → Event) (reply : Reply) (id x : UInt16) :
    (t.confirm event reply id).1.get? x = (t.get? x).bind fun c => if id = x then none else some c := by
  cases hc : t.get? id with
  | none =>
    rw [confirm_of_none hc]
    split
    · next hx => rw [← hx, hc, Option.bind_none]
    · rw [Option.bind_fun_some]
  | some c =>
    rw [confirm_of_some hc, get?_erase]
    split
    · rw [Option.bind_fun_none]
    · rw [Option.bind_fun_some]

theorem policy_confirm (t : RetryTable α) (event : α → Event) (reply : Reply) (id : UInt16) :
    (t.confirm event reply id).1.policy = t.policy := by
  cases hc : t.get? id with
  | none => rw [confirm_of_none hc]
  | some c =>
    rw [confirm_of_some hc]
    rfl

theorem packets_confirm (t : RetryTable α) (event : α → Event) (reply : Reply) (id : UInt16) :
    (t.confirm event reply id).2.packets = [] := by
  cases hc : t.get? id with
  | none => rw [confirm_of_none hc]
  | some c => rw [confirm_of_some hc]

/-- What a pass puts out for the requests that wait in a table. -/
def renewal (t : RetryTable α) (now : Time) (order : List UInt16) : Output :=
  .ofPackets (order.filterMap fun id => (t.get? id).bind (Context.resent? t.policy now)) ++
    .ofAnswers ((order.filterMap fun id =>
      (t.get? id).bind (Context.exhausted? t.policy now)).map lapsed)

theorem renewInOrder_eq (h : order.Perm t.ids) (now : Time) :
    t.renewInOrder true now order =
      ⟨(t.tickInOrder true now order).state, t.renewal now order, .ok ()⟩ :=
  tickInOrder_andThen h now fun es => .ofAnswers (es.map lapsed)

end RetryTable

/-! ## Both tables as one -/

/-- The same context of another exchange. -/
def Context.map {α β : Type} (f : α → β) (c : Context α) : Context β :=
  ⟨f c.exchange, c.attempt, c.lastSent, c.finished, c.succeeded⟩

section Map
variable {α β : Type} (f : α → β) (policy : RetryPolicy) (now : Time) (c : Context α)

@[simp] theorem Context.verdict_map : (c.map f).verdict policy now = c.verdict policy now := rfl

theorem Context.kept?_map : (c.map f).kept? policy now = (c.kept? policy now).map (Context.map f) := by
  cases hv : c.verdict policy now <;> simp only [kept?, verdict_map, hv] <;> rfl

end Map

namespace Subscriptions

instance : Awaited Call where
  id c := c.request.id
  packet c _ := c.request.packet
  waiter c := c.waiter

def ofSubscribe (c : Context SubscribeExchange) : Context Call :=
  c.map fun e => ⟨.subscribe e.request, e.waiter⟩

def ofUnsubscribe (c : Context UnsubscribeExchange) : Context Call :=
  c.map fun e => ⟨.unsubscribe e.request, e.waiter⟩

@[simp] theorem exchange_ofSubscribe (e : Context SubscribeExchange) :
    (ofSubscribe e).exchange = ⟨.subscribe e.exchange.request, e.exchange.waiter⟩ := rfl

@[simp] theorem exchange_ofUnsubscribe (e : Context UnsubscribeExchange) :
    (ofUnsubscribe e).exchange = ⟨.unsubscribe e.exchange.request, e.exchange.waiter⟩ := rfl

/-- What both tables have under an identifier, of which only one has anything. -/
inductive At (s : Subscriptions) (x : UInt16) : Option (Context Call) → Prop
  | idle (hs : s.subscribes.get? x = none) (hu : s.unsubscribes.get? x = none) : At s x none
  | subscribe {c : Context SubscribeExchange} (hs : s.subscribes.get? x = some c)
      (hu : s.unsubscribes.get? x = none) (hid : c.exchange.request.id = x) :
      At s x (some (ofSubscribe c))
  | unsubscribe {c : Context UnsubscribeExchange} (hs : s.subscribes.get? x = none)
      (hu : s.unsubscribes.get? x = some c) (hid : c.exchange.request.id = x) :
      At s x (some (ofUnsubscribe c))

structure Sound (policy : RetryPolicy) (s : Subscriptions) : Prop where
  subscribes : s.subscribes.policy = policy
  unsubscribes : s.unsubscribes.policy = policy
  everywhere : ∀ x, ∃ held, s.At x held

/-- What is under the identifier `x` after something was asked. -/
def act (policy : RetryPolicy) (x : UInt16) (now : Time) (held : Option (Context Call)) :
    Ask → Option (Context Call)
  | .call c => if c.request.id = x then some ((Context.new c now).restart now) else held
  | .suback id code => held.filter fun c => (c.exchange.request.ends? false (.suback id code)).isNone
  | .unsuback id => held.filter fun c => (c.exchange.request.ends? false (.unsuback id)).isNone
  | .tick => held.bind (Context.kept? policy now)
  | .reset => none

section Rows
variable {policy : RetryPolicy} {now : Time} {s t : Subscriptions} {x : UInt16}
  {held : Option (Context Call)} {c : Context Call} {first second : List UInt16}

theorem At.named (h : s.At x (some c)) : c.exchange.request.id = x := by
  generalize hsome : some c = held at h
  cases h <;> cases hsome <;> assumption

theorem At.unique {held' : Option (Context Call)} (h : s.At x held) (h' : s.At x held') :
    held = held' := by
  cases h <;> cases h' <;> simp_all

/-- A call that waits is in one of the tables. -/
theorem At.split (h : s.At x (some c)) :
    (∃ e, s.subscribes.get? x = some e ∧ s.unsubscribes.get? x = none ∧ c = ofSubscribe e) ∨
      ∃ e, s.subscribes.get? x = none ∧ s.unsubscribes.get? x = some e ∧ c = ofUnsubscribe e := by
  generalize hsome : some c = held at h
  cases h with
  | idle => cases hsome
  | subscribe hs hu hid => exact .inl ⟨_, hs, hu, Option.some.inj hsome⟩
  | unsubscribe hs hu hid => exact .inr ⟨_, hs, hu, Option.some.inj hsome⟩

theorem At.of_get? (h : s.At x held) (hs : t.subscribes.get? x = s.subscribes.get? x)
    (hu : t.unsubscribes.get? x = s.unsubscribes.get? x) : t.At x held := by
  cases h with
  | idle hs' hu' => exact .idle (hs.trans hs') (hu.trans hu')
  | subscribe hs' hu' hid => exact .subscribe (hs.trans hs') (hu.trans hu') hid
  | unsubscribe hs' hu' hid => exact .unsubscribe (hs.trans hs') (hu.trans hu') hid

/-- A step that treats the calls of both tables alike. -/
theorem At.bind (h : s.At x held) {f : Context Call → Option (Context Call)}
    {fs : Context SubscribeExchange → Option (Context SubscribeExchange)}
    {fu : Context UnsubscribeExchange → Option (Context UnsubscribeExchange)}
    (hs : t.subscribes.get? x = (s.subscribes.get? x).bind fs)
    (hu : t.unsubscribes.get? x = (s.unsubscribes.get? x).bind fu)
    (hfs : ∀ c, c.exchange.request.id = x → f (ofSubscribe c) = (fs c).map ofSubscribe)
    (hfu : ∀ c, c.exchange.request.id = x → f (ofUnsubscribe c) = (fu c).map ofUnsubscribe)
    (hf : ∀ c c', f c = some c' → c'.exchange = c.exchange) : t.At x (held.bind f) := by
  cases h with
  | idle hs' hu' => exact .idle (by rw [hs, hs', Option.bind_none]) (by rw [hu, hu', Option.bind_none])
  | @subscribe c hs' hu' hid =>
    rw [hs', Option.bind_some] at hs
    rw [hu', Option.bind_none] at hu
    rw [Option.bind_some]
    cases hc : fs c with
    | none =>
      rw [hfs c hid, hc, Option.map_none]
      exact .idle (hs.trans hc) hu
    | some c' =>
      have hsame := hf _ (ofSubscribe c') (by rw [hfs c hid, hc, Option.map_some])
      rw [hfs c hid, hc, Option.map_some]
      exact .subscribe (hs.trans hc) hu (by simp_all)
  | @unsubscribe c hs' hu' hid =>
    rw [hs', Option.bind_none] at hs
    rw [hu', Option.bind_some] at hu
    rw [Option.bind_some]
    cases hc : fu c with
    | none =>
      rw [hfu c hid, hc, Option.map_none]
      exact .idle hs (hu.trans hc)
    | some c' =>
      have hsame := hf _ (ofUnsubscribe c') (by rw [hfu c hid, hc, Option.map_some])
      rw [hfu c hid, hc, Option.map_some]
      exact .unsubscribe hs (hu.trans hc) (by simp_all)

theorem at_new (policy : RetryPolicy) (x : UInt16) : (new policy).At x none :=
  .idle (RetryTable.get?_empty policy x) (RetryTable.get?_empty policy x)

theorem sound_new (policy : RetryPolicy) : (new policy).Sound policy :=
  ⟨rfl, rfl, fun x => ⟨none, at_new policy x⟩⟩

theorem Sound.at_subscribe {e : Context SubscribeExchange} (sound : s.Sound policy)
    (h : s.subscribes.get? x = some e) : s.At x (some (ofSubscribe e)) := by
  obtain ⟨held, hheld⟩ := sound.everywhere x
  cases hheld with
  | idle hs hu | unsubscribe hs hu => simp [h] at hs
  | subscribe hs hu hid =>
    obtain rfl := Option.some.inj (h.symm.trans hs)
    exact .subscribe hs hu hid

theorem Sound.at_unsubscribe {e : Context UnsubscribeExchange} (sound : s.Sound policy)
    (h : s.unsubscribes.get? x = some e) : s.At x (some (ofUnsubscribe e)) := by
  obtain ⟨held, hheld⟩ := sound.everywhere x
  cases hheld with
  | idle hs hu | subscribe hs hu => simp [h] at hu
  | unsubscribe hs hu hid =>
    obtain rfl := Option.some.inj (h.symm.trans hu)
    exact .unsubscribe hs hu hid

theorem not_contains_iff : s.contains x = false ↔ s.At x none := by
  rw [contains, Bool.or_eq_false_iff, RetryTable.contains_eq, RetryTable.contains_eq,
    Option.isSome_eq_false_iff, Option.isSome_eq_false_iff, Option.isNone_iff_eq_none,
    Option.isNone_iff_eq_none]
  constructor
  · rintro ⟨hs, hu⟩
    exact .idle hs hu
  · rintro ⟨hs, hu⟩
    exact ⟨hs, hu⟩

end Rows

/-! ## Steps under one identifier -/

section Steps
variable {policy : RetryPolicy} {now : Time} {s t : Subscriptions} {x : UInt16}
  {held : Option (Context Call)} {c : Context Call} {first second : List UInt16}

theorem tickInOrder_eq (hfirst : first.Perm s.subscribes.ids)
    (hsecond : second.Perm s.unsubscribes.ids) :
    s.tickInOrder true now first second =
      ⟨⟨(s.subscribes.tickInOrder true now first).state,
        (s.unsubscribes.tickInOrder true now second).state⟩,
        s.subscribes.renewal now first ++ s.unsubscribes.renewal now second, .ok ()⟩ := by
  simp only [tickInOrder, RetryTable.renewInOrder_eq hfirst, Step.inside_mk, Step.andThen_ok,
    RetryTable.renewInOrder_eq hsecond]

theorem output_call {c : Call} (fresh : s.contains c.request.id = false) (now : Time) :
    (s.call c now).output = .ofPackets [c.request.packet] := by
  have hfresh := not_contains_iff.mp fresh
  obtain ⟨request, waiter⟩ := c
  cases request with
  | subscribe q =>
    have hs : s.subscribes.get? q.id = none := by cases hfresh; assumption
    exact s.subscribes.output_ask (e := ⟨q, waiter⟩) hs now
  | unsubscribe q =>
    have hu : s.unsubscribes.get? q.id = none := by cases hfresh; assumption
    exact s.unsubscribes.output_ask (e := ⟨q, waiter⟩) hu now

theorem at_call (policy : RetryPolicy) {c : Call} (fresh : s.contains c.request.id = false)
    (h : s.At x held) (now : Time) :
    (s.call c now).state.At x (act policy x now held (.call c)) := by
  have hfresh := not_contains_iff.mp fresh
  obtain ⟨request, waiter⟩ := c
  cases request with
  | subscribe q =>
    have hget := s.subscribes.get?_ask (⟨q, waiter⟩ : SubscribeExchange) now x
    rw [act]
    split
    · next hid =>
      subst hid
      refine At.subscribe (c := (Context.new ⟨q, waiter⟩ now).restart now) ?_ ?_ rfl
      · exact hget.trans (if_pos rfl)
      · cases hfresh; assumption
    · next hid => exact h.of_get? (hget.trans (if_neg hid)) rfl
  | unsubscribe q =>
    have hget := s.unsubscribes.get?_ask (⟨q, waiter⟩ : UnsubscribeExchange) now x
    rw [act]
    split
    · next hid =>
      subst hid
      refine At.unsubscribe (c := (Context.new ⟨q, waiter⟩ now).restart now) ?_ ?_ rfl
      · cases hfresh; assumption
      · exact hget.trans (if_pos rfl)
    · next hid => exact h.of_get? rfl (hget.trans (if_neg hid))

/-- The calls that a step does not end go on waiting. -/
theorem At.filter (h : s.At x held) {p : Call → Bool}
    {fs : Context SubscribeExchange → Option (Context SubscribeExchange)}
    {fu : Context UnsubscribeExchange → Option (Context UnsubscribeExchange)}
    (hs : t.subscribes.get? x = (s.subscribes.get? x).bind fs)
    (hu : t.unsubscribes.get? x = (s.unsubscribes.get? x).bind fu)
    (hfs : ∀ c, c.exchange.request.id = x →
      fs c = if p ⟨.subscribe c.exchange.request, c.exchange.waiter⟩ then some c else none)
    (hfu : ∀ c, c.exchange.request.id = x →
      fu c = if p ⟨.unsubscribe c.exchange.request, c.exchange.waiter⟩ then some c else none) :
    t.At x (held.filter fun c => p c.exchange) := by
  have hfilter : (held.filter fun c => p c.exchange) =
      held.bind fun c => if p c.exchange then some c else none := by
    cases held <;> rfl
  rw [hfilter]
  refine h.bind hs hu (fun c hid => ?_) (fun c hid => ?_) fun c c' hc => ?_
  · rw [hfs c hid, exchange_ofSubscribe]
    split <;> rfl
  · rw [hfu c hid, exchange_ofUnsubscribe]
    split <;> rfl
  · split at hc <;> cases hc
    rfl

theorem suback_eq (s : Subscriptions) (id : UInt16) (code : SubscribeCode) :
    s.suback id code =
      let r := s.subscribes.confirm (fun e => .subscribed id e.request.filter code)
        (.subscribed code) id
      ({ s with subscribes := r.1 }, r.2) := rfl

theorem unsuback_eq (s : Subscriptions) (id : UInt16) :
    s.unsuback id =
      let r := s.unsubscribes.confirm (fun e => .unsubscribed id e.request.filter) .unsubscribed id
      ({ s with unsubscribes := r.1 }, r.2) := rfl

theorem at_suback (h : s.At x held) (id : UInt16) (code : SubscribeCode) :
    (s.suback id code).1.At x (act policy x now held (.suback id code)) := by
  rw [suback_eq]
  refine h.filter (p := fun c => (c.request.ends? false (.suback id code)).isNone)
    (s.subscribes.get?_confirm _ _ id x) (Option.bind_fun_some _).symm (fun c hid => ?_)
    fun _ _ => rfl
  by_cases hx : id = x
  · simp [Request.ends?, hid, hx]
  · simp [Request.ends?, hid, hx, Ne.symm hx]

theorem at_unsuback (h : s.At x held) (id : UInt16) :
    (s.unsuback id).1.At x (act policy x now held (.unsuback id)) := by
  rw [unsuback_eq]
  refine h.filter (p := fun c => (c.request.ends? false (.unsuback id)).isNone)
    (Option.bind_fun_some _).symm (s.unsubscribes.get?_confirm _ _ id x) (fun _ _ => rfl)
    fun c hid => ?_
  by_cases hx : id = x
  · simp [Request.ends?, hid, hx]
  · simp [Request.ends?, hid, hx, Ne.symm hx]

theorem at_tick (sound : s.Sound policy) (h : s.At x held) (hfirst : first.Perm s.subscribes.ids)
    (hsecond : second.Perm s.unsubscribes.ids) :
    (s.tickInOrder true now first second).state.At x (act policy x now held .tick) := by
  have hs := RetryTable.get?_tickInOrder hfirst now x
  have hu := RetryTable.get?_tickInOrder hsecond now x
  rw [sound.subscribes] at hs
  rw [sound.unsubscribes] at hu
  rw [tickInOrder_eq hfirst hsecond]
  exact h.bind hs hu (fun c _ => Context.kept?_map _ policy now c)
    (fun c _ => Context.kept?_map _ policy now c) fun _ _ => Context.exchange_of_kept?

theorem Takes.at_act {mo : Moment} (takes : s.Takes mo t) (sound : s.Sound policy)
    (h : s.At x held) : t.At x (act policy x mo.now held mo.ask) := by
  cases takes with
  | call now c fresh => exact at_call policy fresh h now
  | suback now id code => exact at_suback h id code
  | unsuback now id => exact at_unsuback h id
  | tick now hfirst hsecond => exact at_tick sound h hfirst hsecond
  | reset now => exact .idle (RetryTable.get?_empty _ x) (RetryTable.get?_empty _ x)

theorem Takes.sound {mo : Moment} (takes : s.Takes mo t) (sound : s.Sound policy) :
    t.Sound policy := by
  have hpolicies : t.subscribes.policy = s.subscribes.policy ∧
      t.unsubscribes.policy = s.unsubscribes.policy := by
    cases takes with
    | call now c fresh => obtain ⟨request | request, waiter⟩ := c <;> exact ⟨rfl, rfl⟩
    | suback now id code =>
      rw [suback_eq]
      exact ⟨RetryTable.policy_confirm _ _ _ id, rfl⟩
    | unsuback now id =>
      rw [unsuback_eq]
      exact ⟨rfl, RetryTable.policy_confirm _ _ _ id⟩
    | tick now hfirst hsecond =>
      rw [tickInOrder_eq hfirst hsecond]
      exact ⟨RetryTable.tickInOrder_policy now, RetryTable.tickInOrder_policy now⟩
    | reset now => exact ⟨rfl, rfl⟩
  refine ⟨hpolicies.1.trans sound.subscribes, hpolicies.2.trans sound.unsubscribes, fun x => ?_⟩
  obtain ⟨held, h⟩ := sound.everywhere x
  exact ⟨_, takes.at_act sound h⟩

end Steps

/-! ## What a channel is told of one table -/

section Table
variable {α : Type} {u : RetryTable α} {order : List UInt16} {x : UInt16} {w : Waiter}
  {now : Time}

theorem toWaiter_append (w : Waiter) (as bs : List Answer) :
    toWaiter w (as ++ bs) = toWaiter w as ++ toWaiter w bs :=
  List.filterMap_append

variable [Awaited α]

/-- Of the requests in a table, the one under `x` and no other waits on the channel `w`. -/
def Owns (u : RetryTable α) (x : UInt16) (w : Waiter) : Prop :=
  ∀ id c, u.get? id = some c → (Awaited.waiter c.exchange = w ↔ id = x)

theorem toWaiter_confirm (owns : Owns u x w) (event : α → Event) (reply : Reply) (id : UInt16) :
    toWaiter w (u.confirm event reply id).2.answers =
      ((u.get? x).bind fun _ => if id = x then some (.ok reply) else none).toList := by
  cases hc : u.get? id with
  | none =>
    rw [RetryTable.confirm_of_none hc]
    split
    · next hid => rw [← hid, hc]; rfl
    · rw [Option.bind_fun_none]; rfl
  | some c =>
    rw [RetryTable.confirm_of_some hc]
    split
    · next hid => simp [toWaiter, (owns id c hc).mpr hid, ← hid, hc]
    · next hid => simp [toWaiter, mt (owns id c hc).mp hid]

/-- Of the answers of a pass, the one for the request under `x` is meant for `w`. -/
theorem toWaiter_pass {f : Context α → Option (Context α)} (h : order.Perm u.ids)
    (owns : Owns u x w) (hf : ∀ {c c'}, f c = some c' → c'.exchange = c.exchange)
    (outcome : Context α → Except ClientError Reply) :
    toWaiter w ((order.filterMap fun id => (u.get? id).bind f).map fun c =>
        ⟨Awaited.waiter c.exchange, outcome c⟩) =
      ((u.get? x).bind fun c => (f c).map outcome).toList := by
  rw [toWaiter, List.filterMap_map, RetryTable.filterMap_pass (x := x) h]
  · cases hc : u.get? x with
    | none => rfl
    | some c =>
      have hw := (owns x c hc).mpr rfl
      cases hc' : f c with
      | none => simp [hc']
      | some c' => simp [hc', hf hc', hw]
  · intro id c c' hc hc' hid
    rw [Function.comp_apply, if_neg]
    rw [hf hc']
    exact mt (owns id c hc).mp hid

theorem toWaiter_renewal (h : order.Perm u.ids) (owns : Owns u x w) (now : Time) :
    toWaiter w (u.renewal now order).answers =
      ((u.get? x).bind fun c =>
        if c.verdict u.policy now == .exhausted then
          some (.error (.retriesExhausted (Exchange.id c.exchange)))
        else none).toList := by
  refine (toWaiter_pass h owns Context.exchange_of_exhausted? fun c =>
    .error (.retriesExhausted (Exchange.id c.exchange))).trans ?_
  congr 2
  funext c
  cases hv : c.verdict u.policy now <;> simp [Context.exhausted?, hv]

theorem toWaiter_lost (owns : Owns u x w) :
    toWaiter w (lost u.waiters).answers =
      ((u.get? x).bind fun _ => some (.error .connectionLost)).toList := by
  have hall : u.toList = u.ids.filterMap fun id => (u.get? id).bind some := by
    simp only [RetryTable.toList_eq, Option.bind_fun_some]
  rw [lost, RetryTable.waiters, hall, List.map_map]
  exact toWaiter_pass (f := some) (.refl u.ids) owns (by simp) fun _ => .error .connectionLost

/-- An answer that fails a request of the table. -/
def Fails (u : RetryTable α) (a : Answer) : Prop :=
  (∃ error, a.outcome = .error error) ∧
    ∃ id c, u.get? id = some c ∧ Awaited.waiter c.exchange = a.waiter

theorem fails_of_mem_renewal {a : Answer} (h : a ∈ (u.renewal now order).answers) : Fails u a := by
  obtain ⟨c', hc', rfl⟩ := List.mem_map.mp h
  obtain ⟨id, -, hid⟩ := List.mem_filterMap.mp hc'
  obtain ⟨c, hc, hgone⟩ := Option.bind_eq_some_iff.mp hid
  have hsame := Context.exchange_of_exhausted? hgone
  exact ⟨⟨_, rfl⟩, id, c, hc, congrArg Awaited.waiter hsame.symm⟩

theorem fails_of_mem_lost {a : Answer} (h : a ∈ (lost u.waiters).answers) : Fails u a := by
  obtain ⟨w, hw, rfl⟩ := List.mem_map.mp h
  obtain ⟨c, hc, rfl⟩ := List.mem_map.mp hw
  rw [RetryTable.toList_eq] at hc
  obtain ⟨id, -, hid⟩ := List.mem_filterMap.mp hc
  exact ⟨⟨_, rfl⟩, id, c, hid, rfl⟩

theorem filter_renewal {keep : Packet → Bool} (h : order.Perm u.ids) (now : Time)
    (hkeep : ∀ id c attempt, u.get? id = some c →
      keep (Exchange.packet c.exchange attempt) = (id == x)) :
    (u.renewal now order).packets.filter keep =
      ((u.get? x).bind (Context.resent? u.policy now)).toList := by
  rw [RetryTable.renewal, Output.packets_append]
  change (_ ++ []).filter keep = _
  rw [List.append_nil]
  refine RetryTable.filter_pass _ keep h fun id c q hc hq => ?_
  obtain ⟨attempt, rfl⟩ := Context.exists_attempt_of_resent? hq
  exact hkeep id c attempt hc

end Table

/-! ## What a waiting call sees of a step -/

section Waiting
variable {policy : RetryPolicy} {now : Time} {s t : Subscriptions} {x : UInt16} {c : Context Call}
  {first second : List UInt16}

/-- No call under another identifier waits on the channel `w`. -/
def Alone (s : Subscriptions) (x : UInt16) (w : Waiter) : Prop :=
  ∀ id c, s.At id (some c) → c.exchange.waiter = w → id = x

theorem owns_of_at {α : Type} [Awaited α] {u : RetryTable α} {f : Context α → Context Call}
    (hat : ∀ {id e}, u.get? id = some e → s.At id (some (f e)))
    (hf : ∀ e, (f e).exchange.waiter = Awaited.waiter e.exchange) (h : s.At x (some c))
    (alone : s.Alone x c.exchange.waiter) : Owns u x c.exchange.waiter := by
  intro id e he
  rw [← hf]
  refine ⟨fun hw => alone id _ (hat he) hw, ?_⟩
  rintro rfl
  obtain rfl := Option.some.inj ((hat he).unique h)
  rfl

theorem Sound.owns_subscribes (sound : s.Sound policy) (h : s.At x (some c))
    (alone : s.Alone x c.exchange.waiter) : Owns s.subscribes x c.exchange.waiter :=
  owns_of_at sound.at_subscribe (fun _ => rfl) h alone

theorem Sound.owns_unsubscribes (sound : s.Sound policy) (h : s.At x (some c))
    (alone : s.Alone x c.exchange.waiter) : Owns s.unsubscribes x c.exchange.waiter :=
  owns_of_at sound.at_unsubscribe (fun _ => rfl) h alone

/-- What comes of the two tables under `x` is what comes of the call that waits. -/
theorem At.toList_append {β : Type} (h : s.At x (some c)) (f : Context Call → Option β)
    {fs : Context SubscribeExchange → Option β} {fu : Context UnsubscribeExchange → Option β}
    (hfs : ∀ e, e.exchange.request.id = x → fs e = f (ofSubscribe e))
    (hfu : ∀ e, e.exchange.request.id = x → fu e = f (ofUnsubscribe e)) :
    ((s.subscribes.get? x).bind fs).toList ++ ((s.unsubscribes.get? x).bind fu).toList =
      (f c).toList := by
  have hid := h.named
  obtain ⟨e, hs, hu, rfl⟩ | ⟨e, hs, hu, rfl⟩ := h.split
  · simp [hs, hu, hfs e hid]
  · simp [hs, hu, hfu e hid]

theorem toWaiter_suback (sound : s.Sound policy) (h : s.At x (some c))
    (alone : s.Alone x c.exchange.waiter) (exhausted : Bool) (id : UInt16) (code : SubscribeCode) :
    toWaiter c.exchange.waiter (s.suback id code).2.answers =
      (c.exchange.request.ends? exhausted (.suback id code)).toList := by
  rw [suback_eq, toWaiter_confirm (sound.owns_subscribes h alone)]
  obtain ⟨e, hs, hu, rfl⟩ | ⟨e, hs, hu, rfl⟩ := h.split
  · have hid : e.exchange.request.id = x := h.named
    by_cases hx : id = x
    · simp [Request.ends?, hs, hid, hx]
    · simp [Request.ends?, hs, hid, hx, Ne.symm hx]
  · rw [hs]
    rfl

theorem toWaiter_unsuback (sound : s.Sound policy) (h : s.At x (some c))
    (alone : s.Alone x c.exchange.waiter) (exhausted : Bool) (id : UInt16) :
    toWaiter c.exchange.waiter (s.unsuback id).2.answers =
      (c.exchange.request.ends? exhausted (.unsuback id)).toList := by
  rw [unsuback_eq, toWaiter_confirm (sound.owns_unsubscribes h alone)]
  obtain ⟨e, hs, hu, rfl⟩ | ⟨e, hs, hu, rfl⟩ := h.split
  · rw [hu]
    rfl
  · have hid : e.exchange.request.id = x := h.named
    by_cases hx : id = x
    · simp [Request.ends?, hu, hid, hx]
    · simp [Request.ends?, hu, hid, hx, Ne.symm hx]

theorem toWaiter_tick (sound : s.Sound policy) (h : s.At x (some c))
    (alone : s.Alone x c.exchange.waiter) (hfirst : first.Perm s.subscribes.ids)
    (hsecond : second.Perm s.unsubscribes.ids) :
    toWaiter c.exchange.waiter (s.tickInOrder true now first second).output.answers =
      (c.exchange.request.ends? (c.verdict policy now == .exhausted) .tick).toList := by
  rw [tickInOrder_eq hfirst hsecond, Output.answers_append, toWaiter_append,
    toWaiter_renewal hfirst (sound.owns_subscribes h alone),
    toWaiter_renewal hsecond (sound.owns_unsubscribes h alone), sound.subscribes,
    sound.unsubscribes]
  exact h.toList_append
    (fun c => c.exchange.request.ends? (c.verdict policy now == .exhausted) .tick)
    (fun _ _ => rfl) fun _ _ => rfl

theorem toWaiter_reset (sound : s.Sound policy) (h : s.At x (some c))
    (alone : s.Alone x c.exchange.waiter) :
    toWaiter c.exchange.waiter s.reset.2.answers = [.error .connectionLost] := by
  have hlost : s.reset.2.answers =
      (lost s.subscribes.waiters).answers ++ (lost s.unsubscribes.waiters).answers :=
    List.map_append
  rw [hlost, toWaiter_append, toWaiter_lost (sound.owns_subscribes h alone),
    toWaiter_lost (sound.owns_unsubscribes h alone)]
  exact h.toList_append (fun c => c.exchange.request.ends? false .reset) (fun _ _ => rfl) fun _ _ => rfl

theorem answersTo_of_at {mo : Moment} (takes : s.Takes mo t) (sound : s.Sound policy)
    (h : s.At x (some c)) (alone : s.Alone x c.exchange.waiter) :
    mo.answersTo c.exchange.waiter =
      (c.exchange.request.ends? (c.verdict policy mo.now == .exhausted) mo.ask).toList := by
  cases takes with
  | call now c' fresh =>
    rw [Moment.answersTo, output_call fresh]
    rfl
  | suback now id code => exact toWaiter_suback sound h alone _ id code
  | unsuback now id => exact toWaiter_unsuback sound h alone _ id
  | tick now hfirst hsecond => exact toWaiter_tick sound h alone hfirst hsecond
  | reset now => exact toWaiter_reset sound h alone

theorem packet_beq (h : s.At x (some c)) {id : UInt16} {c' : Context Call}
    (h' : s.At id (some c')) :
    (c'.exchange.request.packet == c.exchange.request.packet) = (id == x) := by
  rw [Bool.eq_iff_iff, beq_iff_eq, beq_iff_eq]
  constructor
  · intro hpacket
    rw [← h'.named, Request.packet_inj hpacket, h.named]
  · rintro rfl
    obtain rfl := Option.some.inj (h'.unique h)
    rfl

/-- A tick writes the request once more if its wait is over and attempts are left. -/
theorem filter_tick (sound : s.Sound policy) (h : s.At x (some c))
    (hfirst : first.Perm s.subscribes.ids) (hsecond : second.Perm s.unsubscribes.ids) :
    ((s.tickInOrder true now first second).output.packets.filter fun q =>
        q == c.exchange.request.packet) = (c.resent? policy now).toList := by
  rw [tickInOrder_eq hfirst hsecond, Output.packets_append, List.filter_append,
    filter_renewal hfirst now fun id e attempt he => packet_beq h (sound.at_subscribe he),
    filter_renewal hsecond now fun id e attempt he => packet_beq h (sound.at_unsubscribe he),
    sound.subscribes, sound.unsubscribes]
  exact h.toList_append (Context.resent? policy now) (fun _ _ => rfl) fun _ _ => rfl

/-- Only a tick writes a request again. -/
theorem times_of_at {mo : Moment} (takes : s.Takes mo t) (sound : s.Sound policy)
    (h : s.At x (some c)) :
    mo.times c.exchange.request =
      if mo.ask = .tick then (c.resent? policy mo.now).toList.map fun _ => mo.now else [] := by
  rw [Moment.times]
  cases takes with
  | call now c' fresh =>
    have hne : ¬ c'.request.packet = c.exchange.request.packet := by
      intro hpacket
      have hfresh := not_contains_iff.mp fresh
      rw [Request.packet_inj hpacket, h.named] at hfresh
      cases hfresh.unique h
    simp [output_call fresh, Output.ofPackets, hne]
  | suback now id code => simp [suback_eq, RetryTable.packets_confirm]
  | unsuback now id => simp [unsuback_eq, RetryTable.packets_confirm]
  | tick now hfirst hsecond => rw [filter_tick sound h hfirst hsecond, if_pos rfl]
  | reset now => simp [reset, lost, Output.ofAnswers]

theorem Sound.waits_of_fails (sound : s.Sound policy) {a : Answer}
    (h : Fails s.subscribes a ∨ Fails s.unsubscribes a) :
    (∃ error, a.outcome = .error error) ∧
      ∃ x c, s.At x (some c) ∧ c.exchange.waiter = a.waiter := by
  obtain ⟨herror, id, e, he, hw⟩ | ⟨herror, id, e, he, hw⟩ := h
  · exact ⟨herror, id, _, sound.at_subscribe he, hw⟩
  · exact ⟨herror, id, _, sound.at_unsubscribe he, hw⟩

/-- A step tells the application of one request that is acknowledged, or fails the calls it
answers. -/
theorem tells_of_takes {mo : Moment} (takes : s.Takes mo t) (sound : s.Sound policy) :
    (∃ x c reply event, s.At x (some c) ∧ c.exchange.request.Confirms reply event ∧
        mo.output.answers = [⟨c.exchange.waiter, .ok reply⟩] ∧ mo.output.events = [event]) ∨
      mo.output.events = [] ∧ ∀ a ∈ mo.output.answers, (∃ error, a.outcome = .error error) ∧
        ∃ x c, s.At x (some c) ∧ c.exchange.waiter = a.waiter := by
  cases takes with
  | call now c fresh =>
    right
    rw [output_call fresh]
    exact ⟨rfl, by simp [Output.ofPackets]⟩
  | suback now id code =>
    cases he : s.subscribes.get? id with
    | none =>
      rw [suback_eq, RetryTable.confirm_of_none he]
      exact .inr ⟨rfl, by simp⟩
    | some e =>
      have hat := sound.at_subscribe he
      obtain rfl : e.exchange.request.id = id := hat.named
      rw [suback_eq, RetryTable.confirm_of_some he]
      exact .inl ⟨_, _, _, _, hat, .subscribe e.exchange.request code, rfl, rfl⟩
  | unsuback now id =>
    cases he : s.unsubscribes.get? id with
    | none =>
      rw [unsuback_eq, RetryTable.confirm_of_none he]
      exact .inr ⟨rfl, by simp⟩
    | some e =>
      have hat := sound.at_unsubscribe he
      obtain rfl : e.exchange.request.id = id := hat.named
      rw [unsuback_eq, RetryTable.confirm_of_some he]
      exact .inl ⟨_, _, _, _, hat, .unsubscribe e.exchange.request, rfl, rfl⟩
  | tick now hfirst hsecond =>
    right
    rw [tickInOrder_eq hfirst hsecond]
    refine ⟨rfl, fun a ha => sound.waits_of_fails ?_⟩
    exact (List.mem_append.mp ha).imp fails_of_mem_renewal fails_of_mem_renewal
  | reset now =>
    right
    refine ⟨rfl, fun a ha => sound.waits_of_fails ?_⟩
    rw [reset, lost, List.map_append] at ha
    exact (List.mem_append.mp ha).imp fails_of_mem_lost fails_of_mem_lost

end Waiting

end Subscriptions

end Mqtt
