import Mqtt.Proofs.FirstAnswer
import Mqtt.Proofs.Reconnection
import Mqtt.Proofs.Sendable

/-!
# The wish to disconnect

The end of a request to connect is asked for once, by a call that waits for it or by dropping the
client. The wish waits in a channel, next to all else that the request waits for, and is taken when
its turn comes; a request that ends before drops the channel with the wish in it. The call returns
either way.
-/
namespace Mqtt

namespace Phase

/-- Whether the request waits for a wish to disconnect, among other things. -/
def listens : Phase → Bool
  | opening _ | driving _ _ | pausing _ | reopening _ | backingOff _ _ => true
  | closing _ _ _ | ended => false

/-- What has become of a wish to disconnect. -/
inductive Wish
  /-- It is in the channel. -/
  | posted
  | taken
  /-- It went with the channel. -/
  | dropped
  deriving DecidableEq, Repr

/-- A request that has ended drops the channel with what is in it. -/
def Wish.after (p : Phase) : Wish → Wish
  | posted => if p.isEnded then dropped else posted
  | taken => taken
  | dropped => dropped

/-- A request to connect whose end was asked for. -/
structure Wished where
  phase : Phase
  wish : Wish

/-- The steps of such a request. Whatever is ready may come next. -/
inductive Heeds (o : Options) (caller : Option Waiter) : Wished → Moment → Wished → Prop
  | takes {p p' : Phase} {mo : Moment} (listens : p.listens = true) (step : Takes o p mo p')
      (act : mo.act = .disconnect caller) : Heeds o caller ⟨p, .posted⟩ mo ⟨p', .taken⟩
  | goesOn {p p' : Phase} {wish : Wish} {mo : Moment} (step : Takes o p mo p')
      (alone : ∀ other, mo.act ≠ .disconnect other) :
      Heeds o caller ⟨p, wish⟩ mo ⟨p', wish.after p'⟩

/-- What the call `d` that disconnects is told: by the request that took its wish, or by the channel
that went with it. -/
def Wished.told (d : Waiter) (log : List Moment) (r : Wished) : List (Except ClientError Reply) :=
  answers d log ++ if r.wish = .dropped then [.ok .disconnected] else []

/-! ## Steps -/

section Steps
variable {o : Options} {caller : Option Waiter} {p p' : Phase} {c : Connection} {mo : Moment}
  {log : List Moment} {deadline now : Time} {w d : Waiter}

theorem eq_ended (h : p.isEnded = true) : p = .ended := by
  cases p <;> first | rfl | cases h

theorem listens_eq (p : Phase) : p.listens = (!p.isEnded && !p.isClosing) := by
  cases p <;> rfl

theorem active_of_listens (listens : p.listens = true) : p.isEnded = false := by
  cases p <;> first | rfl | cases listens

theorem phase_tearDown_requested (o : Options) (c : Connection) (caller : Option Waiter)
    (now : Time) : (tearDown o c .requested caller now).phase = .ended := by
  simp [tearDown, DisconnectReason.isRecoverable]

/-- What is left of a request that has taken a wish: a connection that closes, or nothing. -/
inductive Leaves (deadline : Time) (caller : Option Waiter) : Phase → Prop
  | closing (c : Connection) : Leaves deadline caller (.closing c deadline caller)
  | ended : Leaves deadline caller .ended

/-- How a request takes a wish. -/
inductive Heeding (o : Options) (caller : Option Waiter) (now : Time) :
    Phase → Phase → Output → Prop
  | closes {c : Connection} {nextTick : Time} (isOpen : c.isOpen = true) :
      Heeding o caller now (.driving c nextTick)
        (.closing (c.after (c.session.disconnect true now)) (now + o.retryDelay) caller)
        (.ofPackets [.ofBody .disconnect])
  | stuck {c : Connection} {nextTick : Time} (isOpen : c.isOpen = false) :
      Heeding o caller now (.driving c nextTick) .ended
        (tearDown o c .requested caller now).output
  | cancels {v : Waiter} : Heeding o caller now (.opening v) .ended
      (.ofAnswers [⟨v, .error .connectionLost⟩] ++ release caller)
  | stops {p : Phase} (between : p.isBetween = true) :
      Heeding o caller now p .ended (release caller)

theorem heeding_disconnect (o : Options) (caller : Option Waiter) (now : Time)
    (listens : p.listens = true) :
    (p.disconnect o caller now).dials = false ∧
      Heeding o caller now p (p.disconnect o caller now).phase
        (p.disconnect o caller now).output := by
  cases p with
  | opening v => exact ⟨rfl, .cancels⟩
  | driving c nextTick =>
    cases hopen : c.isOpen with
    | true =>
      rw [disconnect, hopen]
      exact ⟨rfl, .closes hopen⟩
    | false =>
      have hstuck : (driving c nextTick).disconnect o caller now =
          tearDown o c .requested caller now := by
        rw [disconnect, hopen]
        rfl
      rw [hstuck, phase_tearDown_requested]
      exact ⟨rfl, .stuck hopen⟩
  | pausing | reopening | backingOff => exact ⟨rfl, .stops rfl⟩
  | closing | ended => cases listens

theorem Takes.heeding (takes : Takes o p mo p') (listens : p.listens = true)
    (act : mo.act = .disconnect caller) :
    mo.dials = false ∧ Heeding o caller mo.now p p' mo.output := by
  have hstep := takes.2
  rw [act, step] at hstep
  have h := heeding_disconnect o caller mo.now listens
  rw [hstep] at h
  exact h

theorem Heeding.leaves {output : Output} (h : Heeding o caller now p p' output) :
    Leaves (now + o.retryDelay) caller p' := by
  cases h with
  | closes => exact .closing _
  | stuck | cancels | stops => exact .ended

/-- A connection that closes does so until the step that ends it. -/
theorem step_closing (takes : Takes o (.closing c deadline caller) mo p') :
    mo.dials = false ∧
      ((mo.output.losses = [] ∧ ∃ c', p' = .closing c' deadline caller) ∨
        (mo.output = (tearDown o c .requested caller mo.now).output ∧ p' = .ended)) := by
  have hchange := takes.change
  obtain ⟨now, act, output, dials⟩ := mo
  dsimp only at hchange ⊢
  cases hchange with
  | rests => exact ⟨rfl, .inl ⟨rfl, c, rfl⟩⟩
  | works h =>
    obtain rfl := Option.some.inj h
    exact ⟨rfl, .inl ⟨Connection.losses_act _ now _, _, rfl⟩⟩
  | ends h =>
    cases h with
    | closed => exact ⟨rfl, .inr ⟨rfl, phase_tearDown_requested o c caller now⟩⟩
  | stops h => cases h
  | dials h => obtain ⟨h, -⟩ | h := h <;> cases h

/-- Nothing but a wish closes a connection. -/
theorem Takes.listens_or_ended (takes : Takes o p mo p') (listens : p.listens = true)
    (alone : ∀ other, mo.act ≠ .disconnect other) : p'.listens = !p'.isEnded := by
  rw [listens_eq, Bool.and_eq_true, Bool.not_eq_true', Bool.not_eq_true'] at listens
  have hclosing : p'.isClosing = false := by
    rw [← Bool.not_eq_true]
    intro h
    obtain h | ⟨other, h⟩ := takes.closes h
    · cases listens.2.symm.trans h
    · exact alone other h
  rw [listens_eq, hclosing, Bool.not_false, Bool.and_true]

theorem Leaves.step (leaves : Leaves deadline caller p) (takes : Takes o p mo p') :
    mo.dials = false ∧ Leaves deadline caller p' := by
  cases leaves with
  | closing c =>
    obtain ⟨hdials, ⟨-, c', rfl⟩ | ⟨-, rfl⟩⟩ := step_closing takes
    · exact ⟨hdials, .closing c'⟩
    · exact ⟨hdials, .ended⟩
  | ended =>
    obtain ⟨rfl, -, hdials⟩ := step_ended takes
    exact ⟨hdials, .ended⟩

theorem Leaves.listens_eq_false (leaves : Leaves deadline caller p) : p.listens = false := by
  cases leaves <;> rfl

/-- Who took a wish takes no other. -/
theorem Takes.deaf (takes : Takes o p mo p') (deaf : p.listens = false) : p'.listens = false := by
  cases p with
  | closing c deadline caller => exact ((Leaves.closing c).step takes).2.listens_eq_false
  | ended => rw [(step_ended takes).1, listens]
  | opening | driving | pausing | reopening | backingOff => cases deaf

end Steps

/-! ## How long a wish waits -/

/-- What a request finds to do at a time. -/
inductive Ready (now : Time) : Phase → Act → Prop
  | opened {p : Phase} (dialing : p.isDialing = true) : Ready now p .opened
  | refused {p : Phase} {fault : TransportFault} (dialing : p.isDialing = true) :
      Ready now p (.refused fault)
  | disconnect {p : Phase} {caller : Option Waiter} (listens : p.listens = true) :
      Ready now p (.disconnect caller)
  | lost {c : Connection} {nextTick : Time} (h : c.reasons ≠ []) :
      Ready now (.driving c nextTick) .observe
  | written {c : Connection} {deadline : Time} {caller : Option Waiter}
      (h : c.writer.isStopped = true) : Ready now (.closing c deadline caller) .observe
  | tick {c : Connection} {nextTick : Time} {orders : Session.Orders} (due : nextTick ≤ now) :
      Ready now (.driving c nextTick) (.tick orders)
  | elapse {p : Phase} {due : Time} (h : p.due? = some due) (reached : due ≤ now) :
      Ready now p .elapse

/-- Whether a step is the request's own, not one of the tasks that serve its connection. -/
def Act.isOwn : Act → Bool
  | connection _ => false
  | opened | refused _ | disconnect _ | observe | tick _ | elapse => true

/-- A step while the clock stands. -/
structure Stands (o : Options) (caller : Option Waiter) (now : Time) (r : Wished) (mo : Moment)
    (r' : Wished) : Prop where
  step : Heeds o caller r mo r'
  clock : mo.now = now
  ready : mo.act.isOwn = true → Ready now r.phase mo.act

/-- How many steps of its own a request may put before a wish while the clock stands. -/
def ahead (now : Time) : Phase → Nat
  | ended | closing _ _ _ => 0
  | driving _ nextTick => if nextTick ≤ now then 2 else 1
  | opening _ | reopening _ => 2
  | pausing due | backingOff _ due => if due ≤ now then 3 else 0

section Waits
variable {o : Options} {caller : Option Waiter} {p p' : Phase} {c : Connection} {r r' : Wished}
  {mo : Moment} {log : List Moment} {now due : Time}

theorem ahead_le (now : Time) (p : Phase) : ahead now p ≤ 3 := by
  cases p <;> simp only [ahead] <;> (try split) <;> decide

theorem ahead_withConnection (now : Time) (p : Phase) (c : Connection) :
    ahead now (p.withConnection c) = ahead now p := by
  cases p <;> rfl

theorem ahead_tearDown (valid : o.Valid) (c : Connection) (reason : DisconnectReason)
    (caller : Option Waiter) (now : Time) :
    ahead now (tearDown o c reason caller now).phase = 0 := by
  obtain h | h := tearDown_phase o c reason caller now <;> rw [h]
  · have hdelay := Nat.pos_of_ne_zero valid.delay
    exact if_neg (Nat.not_le.mpr (Nat.lt_add_of_pos_right hdelay))
  · rfl

theorem ahead_driving (valid : o.Valid) (c : Connection) (now : Time) :
    ahead now (.driving c (now + o.tickInterval)) = 1 :=
  if_neg (Nat.not_le.mpr (Nat.lt_add_of_pos_right (Nat.pos_of_ne_zero valid.interval)))

theorem ahead_backingOff (n : Nat) (now : Time) :
    ahead now (.backingOff n (now + backoff n)) = 0 := by
  have hbackoff : 0 < backoff n :=
    Nat.lt_min.mpr ⟨by decide, Nat.mul_pos (by decide) (Nat.pow_pos (by decide))⟩
  exact if_neg (Nat.not_le.mpr (Nat.lt_add_of_pos_right hbackoff))

/-- Every step of its own brings a request nearer to the wish. -/
theorem Takes.ahead_lt (valid : o.Valid) (takes : Takes o p mo p') (ready : Ready mo.now p mo.act)
    (listens : p.listens = true) (alone : ∀ other, mo.act ≠ .disconnect other) :
    ahead mo.now p' < ahead mo.now p := by
  -- `Change` would let a step rest that finds something to do, so the step itself is looked into
  obtain ⟨allowed, hstep⟩ := takes
  obtain ⟨now, act, output, dials⟩ := mo
  dsimp only at allowed hstep ready alone ⊢
  have hphase := congrArg Turn.phase hstep
  dsimp only at hphase
  subst hphase
  cases ready with
  | opened dialing =>
    cases p with
    | opening w | reopening n =>
      rw [step, opened, drive_eq, ahead_driving valid]
      exact Nat.one_lt_two
    | driving | closing | pausing | backingOff | ended => cases dialing
  | refused dialing =>
    cases p with
    | opening w => exact Nat.zero_lt_two
    | reopening n =>
      rw [step, refused]
      split
      · rw [ahead_backingOff]
        exact Nat.zero_lt_two
      · exact Nat.zero_lt_two
    | driving | closing | pausing | backingOff | ended => cases dialing
  | disconnect => exact absurd rfl (alone _)
  | @lost c nextTick h =>
    obtain ⟨reason, others, hreasons⟩ := List.exists_cons_of_ne_nil h
    have hlost : (driving c nextTick).step o now .observe = tearDown o c reason none now := by
      rw [step, observe, hreasons]
    rw [hlost, ahead_tearDown valid, ahead]
    split <;> decide
  | written => cases listens
  | @tick c nextTick orders reached =>
    rw [step, look]
    cases (c.tickInOrder now orders).result with
    | ok _ =>
      rw [ahead_driving valid, ahead, if_pos reached]
      decide
    | error reason =>
      rw [ahead_tearDown valid, ahead, if_pos reached]
      decide
  | elapse hdue reached =>
    cases p with
    | driving c nextTick => exact absurd rfl (allowed c nextTick)
    | pausing due | backingOff n due =>
      obtain rfl := Option.some.inj hdue
      rw [step, elapse, if_neg (Nat.not_lt.mpr reached), ahead, ahead, if_pos reached]
      decide
    | closing => cases listens
    | opening | reopening | ended => cases hdue

theorem Takes.ahead_connection {a : Connection.Act} (takes : Takes o p mo p')
    (act : mo.act = .connection a) (now : Time) : ahead now p' = ahead now p := by
  cases hp : p.connection? with
  | none =>
    have hstep := takes.2
    rw [act, step, hp] at hstep
    exact congrArg (ahead now) (congrArg Turn.phase hstep).symm
  | some c =>
    rw [(takes.connection hp act).1, ahead_withConnection]

/-- The wish is in the channel as long as the request waits for it, and it is not left there. -/
structure Wished.Coherent (r : Wished) : Prop where
  posted : r.wish = .posted ↔ r.phase.listens = true
  dropped : r.wish = .dropped → r.phase.isEnded = true

theorem Heeds.takes_step (h : Heeds o caller r mo r') : Takes o r.phase mo r'.phase := by
  cases h with
  | takes _ step | goesOn step => exact step

theorem Heeds.trace (run : Trace (Heeds o caller) r log r') :
    Trace (Takes o) r.phase log r'.phase :=
  run.map Heeds.takes_step

theorem Wished.Coherent.takes (step : Takes o p mo p') (listens : p.listens = true)
    (act : mo.act = .disconnect caller) : Wished.Coherent ⟨p', .taken⟩ := by
  have hdeaf := (step.heeding listens act).2.leaves.listens_eq_false
  exact ⟨iff_of_false Wish.noConfusion (by simp [hdeaf]), Wish.noConfusion⟩

theorem Wished.Coherent.goesOn {wish : Wish} (coherent : Wished.Coherent ⟨p, wish⟩)
    (step : Takes o p mo p') (alone : ∀ other, mo.act ≠ .disconnect other) :
    Wished.Coherent ⟨p', wish.after p'⟩ := by
  cases wish with
  | posted =>
    have hlistens := step.listens_or_ended (coherent.posted.mp rfl) alone
    refine ⟨?_, fun h => ?_⟩
    · rw [hlistens, Wish.after]
      cases p'.isEnded <;> simp
    · rw [Wish.after] at h
      split at h
      · next hended => exact hended
      · cases h
  | taken =>
    have hdeaf : p.listens = false := by
      rw [← Bool.not_eq_true]
      exact fun h => Wish.noConfusion (coherent.posted.mpr h)
    exact ⟨iff_of_false Wish.noConfusion (by simp [step.deaf hdeaf]), Wish.noConfusion⟩
  | dropped =>
    obtain rfl := eq_ended (coherent.dropped rfl)
    rw [(step_ended step).1]
    exact ⟨iff_of_false Wish.noConfusion Bool.noConfusion, fun _ => rfl⟩

theorem Wished.Coherent.step (coherent : r.Coherent) (h : Heeds o caller r mo r') :
    r'.Coherent := by
  cases h with
  | takes listens step act => exact .takes step listens act
  | goesOn step alone => exact coherent.goesOn step alone

theorem Wished.Coherent.trace (coherent : r.Coherent) (run : Trace (Heeds o caller) r log r') :
    r'.Coherent :=
  run.preserves coherent fun h step => h.step step

/-- A wish that is in the channel was in it before. -/
theorem Heeds.posted (h : Heeds o caller r mo r') (posted : r'.wish = .posted) :
    r.wish = .posted ∧ ∀ other, mo.act ≠ .disconnect other := by
  cases h with
  | takes => cases posted
  | @goesOn _ _ wish _ _ alone =>
    cases wish with
    | posted => exact ⟨rfl, alone⟩
    | taken | dropped => cases posted

/-- While the clock stands, a request puts few steps before a wish. -/
theorem Wished.Coherent.waits (valid : o.Valid) (coherent : r.Coherent)
    (run : Trace (Stands o caller now) r log r') (posted : r'.wish = .posted) :
    log.countP (·.act.isOwn) ≤ ahead now r.phase := by
  have hcount : r'.Coherent ∧ (r'.wish = .posted →
      log.countP (·.act.isOwn) + ahead now r'.phase ≤ ahead now r.phase) := by
    refine run.history (P := fun log t => t.Coherent ∧ (t.wish = .posted →
      log.countP (·.act.isOwn) + ahead now t.phase ≤ ahead now r.phase))
      ⟨coherent, fun _ => Nat.le_of_eq (Nat.zero_add _)⟩ ?_
    rintro past t mo t' ⟨ht, hpast⟩ ⟨step, rfl, ready⟩
    refine ⟨ht.step step, fun hposted => ?_⟩
    obtain ⟨hbefore, halone⟩ := step.posted hposted
    have hrank := hpast hbefore
    rw [List.countP_append, List.countP_singleton]
    cases hown : mo.act.isOwn with
    | true =>
      have hlt := step.takes_step.ahead_lt valid (ready hown) (ht.posted.mp hbefore) halone
      rw [if_pos rfl]
      omega
    | false =>
      obtain ⟨a, hact⟩ : ∃ a, mo.act = .connection a := by
        generalize mo.act = act at hown
        cases act <;> first | exact ⟨_, rfl⟩ | cases hown
      rw [step.takes_step.ahead_connection hact, if_neg Bool.false_ne_true]
      exact hrank
  exact Nat.le_trans (Nat.le_add_right _ _) (hcount.2 posted)

end Waits

/-! ## What the call that disconnects is told -/

/-- A phase owes the call `d` nothing but for a wish to disconnect. -/
structure Unowed (d : Waiter) (p : Phase) : Prop where
  opener : p ≠ .opening d
  others : ∀ c, p.connection? = some c →
    c.session.handshake.waiter ≠ some d ∧ c.session.subscriptions.HeldBy (· ≠ d)

section Told
variable {o : Options} {caller : Option Waiter} {p p' : Phase} {c : Connection} {r r' : Wished}
  {mo : Moment} {log : List Moment} {now : Time} {d : Waiter}

theorem toWaiter_release_self (d : Waiter) :
    (release (some d)).toWaiter d = [.ok .disconnected] := by
  simp [release, Output.toWaiter, Subscriptions.toWaiter, Output.ofAnswers]

theorem toWaiter_other {v : Waiter} (h : v ≠ d) (outcome : Except ClientError Reply) :
    (Output.ofAnswers [⟨v, outcome⟩]).toWaiter d = [] := by
  simp [Output.toWaiter, Subscriptions.toWaiter, Output.ofAnswers, h]

theorem Unowed.gone (h : p.connection? = none) (started : p.isOpening = false) : Unowed d p where
  opener := by rintro rfl; cases started
  others := fun c hc => by cases h.symm.trans hc

theorem Unowed.driven (hp : p.connection? = some c) (waiter : c.session.handshake.waiter ≠ some d)
    (held : c.session.subscriptions.HeldBy (· ≠ d)) : Unowed d p where
  opener := by rintro rfl; cases hp
  others := fun k hk => by
    obtain rfl := Option.some.inj (hp.symm.trans hk)
    exact ⟨waiter, held⟩

theorem Unowed.torn (c : Connection) (reason : DisconnectReason) (caller : Option Waiter)
    (now : Time) : Unowed d (tearDown o c reason caller now).phase := by
  obtain h | h := tearDown_phase o c reason caller now <;> rw [h] <;> exact .gone rfl rfl

theorem Spares.unowed {s : Session} {output : Output} (spares : Spares d s c.session output)
    (hp : p.connection? = some c) : Unowed d p :=
  .driven hp spares.waiter spares.held

theorem toWaiter_tearDown_spared (waiter : c.session.handshake.waiter ≠ some d)
    (held : c.session.subscriptions.HeldBy (· ≠ d)) (reason : DisconnectReason)
    (caller : Option Waiter) (now : Time) :
    (tearDown o c reason caller now).output.toWaiter d = (release caller).toWaiter d := by
  rw [toWaiter_tearDown_append held, if_neg waiter, List.nil_append]

theorem Unowed.act {a : Connection.Act} (unowed : Unowed d p) (hp : p.connection? = some c)
    (calls : a.waiter? ≠ some d) (now : Time) :
    Unowed d (p.withConnection (c.act now a).1) ∧ (c.act now a).2.toWaiter d = [] := by
  obtain ⟨waiter, held⟩ := unowed.others c hp
  have spares := spares_act waiter held now a calls
  exact ⟨spares.unowed (connection?_withConnection hp _), spares.quiet⟩

/-- As long as the wish is not taken, the call that made it hears nothing of the request. -/
theorem Unowed.step_alone (unowed : Unowed d p) (takes : Takes o p mo p')
    (listens : p.listens = true) (alone : ∀ other, mo.act ≠ .disconnect other)
    (calls : ∀ a, mo.act = .connection a → a.waiter? ≠ some d) :
    Unowed d p' ∧ mo.answersTo d = [] := by
  have hchange := takes.change
  obtain ⟨now, act, output, dials⟩ := mo
  dsimp only at hchange alone calls
  cases hchange with
  | rests => exact ⟨unowed, rfl⟩
  | opens =>
    have hne : some _ ≠ some d := fun h => unowed.opener (congrArg opening (Option.some.inj h))
    exact ⟨.driven rfl hne (Subscriptions.heldBy_new _), rfl⟩
  | reopens => exact ⟨.driven rfl (nobody_ne d) (Subscriptions.heldBy_new _), rfl⟩
  | @unreachable w =>
    have hne : w ≠ d := fun h => unowed.opener (congrArg opening h)
    exact ⟨.gone rfl rfl, toWaiter_other hne _⟩
  | fails | givesUp | dials => exact ⟨.gone rfl rfl, rfl⟩
  | cancels | stops | closes => exact absurd rfl (alone _)
  | works hp => exact unowed.act hp (calls _ rfl) now
  | @ticks c _ orders =>
    obtain ⟨waiter, held⟩ := unowed.others c rfl
    have spares := spares_tick waiter held now orders
    exact ⟨spares.unowed rfl, spares.quiet⟩
  | @ends _ _ c reason caller before hends =>
    have hcaller : caller = none := by
      cases hends with
      | lost | failed => rfl
      | stuck => exact absurd rfl (alone _)
      | closed => cases listens
    obtain ⟨s, spares⟩ := hends.spares unowed.others
    refine ⟨.torn c reason caller now, ?_⟩
    rw [Moment.answersTo, Output.toWaiter_append, spares.quiet,
      toWaiter_tearDown_spared spares.waiter spares.held, hcaller]
    rfl

/-- Once it is taken, the call is answered by the step that ends the request. -/
theorem Unowed.heeding {output : Output} (unowed : Unowed d p)
    (h : Heeding o (some d) now p p' output) :
    Unowed d p' ∧ output.toWaiter d = if p'.isEnded then [.ok .disconnected] else [] := by
  cases h with
  | closes =>
    obtain ⟨waiter, held⟩ := unowed.others _ rfl
    exact ⟨.driven rfl waiter held, rfl⟩
  | stuck =>
    obtain ⟨waiter, held⟩ := unowed.others _ rfl
    refine ⟨.gone rfl rfl, ?_⟩
    rw [toWaiter_tearDown_spared waiter held, toWaiter_release_self]
    rfl
  | @cancels v =>
    have hne : v ≠ d := fun h => unowed.opener (congrArg opening h)
    refine ⟨.gone rfl rfl, ?_⟩
    rw [Output.toWaiter_append, toWaiter_other hne, toWaiter_release_self]
    rfl
  | stops => exact ⟨.gone rfl rfl, toWaiter_release_self d⟩

theorem Unowed.step_closing {deadline : Time} (unowed : Unowed d (.closing c deadline (some d)))
    (takes : Takes o (.closing c deadline (some d)) mo p')
    (calls : ∀ a, mo.act = .connection a → a.waiter? ≠ some d) :
    Unowed d p' ∧ mo.answersTo d = if p'.isEnded then [.ok .disconnected] else [] := by
  have hchange := takes.change
  obtain ⟨now, act, output, dials⟩ := mo
  dsimp only at hchange calls
  cases hchange with
  | rests => exact ⟨unowed, rfl⟩
  | works hp => exact unowed.act hp (calls _ rfl) now
  | ends hends =>
    cases hends with
    | closed =>
      obtain ⟨waiter, held⟩ := unowed.others c rfl
      refine ⟨.torn c _ _ now, ?_⟩
      rw [Moment.answersTo, Output.toWaiter_append,
        toWaiter_tearDown_spared waiter held, toWaiter_release_self, phase_tearDown_requested]
      rfl
  | stops h => cases h
  | dials h => obtain ⟨h, -⟩ | h := h <;> cases h

/-- How the call `d` that made the wish stands. -/
structure Hears (d : Waiter) (log : List Moment) (r : Wished) : Prop where
  coherent : r.Coherent
  unowed : Unowed d r.phase
  taken : r.wish = .taken → ∃ deadline, Leaves deadline (some d) r.phase
  told : r.told d log = if r.phase.isEnded then [.ok .disconnected] else []

theorem told_of_kept {wish : Wish} (kept : wish ≠ .dropped) :
    Wished.told d log ⟨p, wish⟩ = answers d log := by
  rw [Wished.told, if_neg kept, List.append_nil]

theorem told_quiet {wish : Wish} (quiet : mo.answersTo d = []) :
    Wished.told d (log ++ [mo]) ⟨p', wish⟩ = Wished.told d log ⟨p, wish⟩ := by
  rw [Wished.told, Wished.told, answers_append, answers_singleton, quiet, List.append_nil]

theorem Hears.unanswered {wish : Wish} (hears : Hears d log ⟨p, wish⟩) (kept : wish ≠ .dropped)
    (active : p.isEnded = false) : answers d log = [] := by
  have htold := hears.told
  rw [told_of_kept kept, active] at htold
  exact htold

theorem Hears.takes {p' : Phase} (hears : Hears d log ⟨p, .posted⟩) (listens : p.listens = true)
    (step : Takes o p mo p') (act : mo.act = .disconnect (some d)) :
    Hears d (log ++ [mo]) ⟨p', .taken⟩ := by
  have hheeding := (step.heeding listens act).2
  obtain ⟨hunowed, hanswers⟩ := hears.unowed.heeding hheeding
  refine ⟨.takes step listens act, hunowed, fun _ => ⟨_, hheeding.leaves⟩, ?_⟩
  rw [told_of_kept Wish.noConfusion, answers_append, answers_singleton,
    hears.unanswered Wish.noConfusion (active_of_listens listens)]
  exact hanswers

theorem Hears.step_posted (hears : Hears d log ⟨p, .posted⟩) (step : Takes o p mo p')
    (alone : ∀ other, mo.act ≠ .disconnect other)
    (calls : ∀ a, mo.act = .connection a → a.waiter? ≠ some d) :
    Hears d (log ++ [mo]) ⟨p', Wish.posted.after p'⟩ := by
  have listens := hears.coherent.posted.mp rfl
  obtain ⟨hunowed, hquiet⟩ := hears.unowed.step_alone step listens alone calls
  refine ⟨hears.coherent.goesOn step alone, hunowed, fun h => ?_, ?_⟩
  · rw [Wish.after] at h
    split at h <;> cases h
  · rw [Wished.told, answers_append, answers_singleton, hquiet,
      hears.unanswered Wish.noConfusion (active_of_listens listens), Wish.after]
    cases p'.isEnded <;> rfl

theorem Hears.step_taken (hears : Hears d log ⟨p, .taken⟩) (step : Takes o p mo p')
    (alone : ∀ other, mo.act ≠ .disconnect other)
    (calls : ∀ a, mo.act = .connection a → a.waiter? ≠ some d) :
    Hears d (log ++ [mo]) ⟨p', .taken⟩ := by
  have hcoherent := hears.coherent.goesOn step alone
  obtain ⟨deadline, leaves⟩ := hears.taken rfl
  have hleaves := (leaves.step step).2
  cases leaves with
  | closing c =>
    obtain ⟨hunowed, hanswers⟩ := hears.unowed.step_closing step calls
    refine ⟨hcoherent, hunowed, fun _ => ⟨deadline, hleaves⟩, ?_⟩
    rw [told_of_kept Wish.noConfusion, answers_append, answers_singleton,
      hears.unanswered Wish.noConfusion rfl]
    exact hanswers
  | ended =>
    obtain ⟨rfl, houtput, -⟩ := step_ended step
    have hquiet : mo.answersTo d = [] := by rw [Moment.answersTo, houtput]; rfl
    exact ⟨hcoherent, hears.unowed, hears.taken, (told_quiet hquiet).trans hears.told⟩

theorem Hears.step (hears : Hears d log r) (h : Heeds o (some d) r mo r')
    (calls : ∀ a, mo.act = .connection a → a.waiter? ≠ some d) : Hears d (log ++ [mo]) r' := by
  cases h with
  | takes listens step act => exact hears.takes listens step act
  | @goesOn p p' wish _ step alone =>
    cases wish with
    | posted => exact hears.step_posted step alone calls
    | taken => exact hears.step_taken step alone calls
    | dropped =>
      obtain rfl := eq_ended (hears.coherent.dropped rfl)
      have hcoherent := hears.coherent.goesOn step alone
      obtain ⟨rfl, houtput, -⟩ := step_ended step
      have hquiet : mo.answersTo d = [] := by rw [Moment.answersTo, houtput]; rfl
      exact ⟨hcoherent, hears.unowed, Wish.noConfusion, (told_quiet hquiet).trans hears.told⟩

end Told

end Phase

end Mqtt
