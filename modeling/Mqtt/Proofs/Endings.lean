import Mqtt.Proofs.Course

/-!
# How connections end

The application is told of the end of a connection, and of its reason, in the step that tears the
connection down. Writer and reader leave the reasons why they ended in a queue of which only the
first is taken; a look at the clock and a wish to disconnect do not wait for it.
-/
namespace Mqtt

def Event.loss? : Event → Option DisconnectReason
  | .disconnected reason => some reason
  | .received _ | .published _ _ | .subscribed _ _ _ | .unsubscribed _ _ | .connected _ => none

namespace Output

/-- The ends of connections that the application is told of. -/
def losses (o : Output) : List DisconnectReason := o.events.filterMap Event.loss?

@[simp] theorem losses_append (a b : Output) : (a ++ b).losses = a.losses ++ b.losses :=
  List.filterMap_append

theorem Traffic.losses {sends : Packet → Prop} {callers : Waiter → Prop} {o : Output}
    (h : o.Traffic sends callers) : o.losses = [] := by
  refine List.filterMap_eq_nil_iff.mpr fun e he => ?_
  have hexchange := h.events e he
  cases e <;> first | rfl | cases hexchange

end Output

namespace Connection

theorem losses_act (c : Connection) (now : Time) (a : Act) : (c.act now a).2.losses = [] := by
  have heffect := c.effect_any now a
  generalize c.act now a = r at heffect
  obtain ⟨c', output⟩ := r
  cases heffect with
  | accepts | refuses | violates | rests => rfl
  | serves _ h => exact h.traffic.losses

theorem losses_tickInOrder (c : Connection) (now : Time) (orders : Session.Orders) :
    (c.tickInOrder now orders).output.losses = [] := by
  have hlooks := c.looks_any now orders
  generalize c.tickInOrder now orders = r at hlooks
  cases hlooks with
  | rests | late => rfl
  | serves _ h => exact h.traffic.losses

/-- A connection whose reader has ended, and what became of its handshake: the reason that is taken
next is known. -/
structure Doomed (first : DisconnectReason) (h : Handshake) (c : Connection) : Prop where
  handshake : c.session.handshake = h
  reading : c.reading = false
  reasons : c.reasons.head? = some first

section Doomed
variable {first : DisconnectReason} {h : Handshake} {c c' : Connection}

theorem Follows.doomed (follows : c.Follows c') (doomed : c.Doomed first h)
    (handshake : c'.session.handshake = c.session.handshake) : c'.Doomed first h where
  handshake := handshake.trans doomed.handshake
  reading := by
    rw [← Bool.not_eq_true]
    exact fun hreading => Bool.noConfusion (doomed.reading.symm.trans (follows.reading hreading))
  reasons := by
    obtain ⟨others, hothers⟩ := follows.reasons
    rw [← hothers, List.head?_append, doomed.reasons]
    rfl

theorem Doomed.not_accepted (doomed : c.Doomed first h) (unaccepted : h.isAccepted = false) :
    ¬ c.session.isAccepted = true := by
  rw [Session.isAccepted, doomed.handshake, unaccepted]
  exact Bool.noConfusion

/-- A reader that ends dooms its connection, if nothing did before. -/
theorem doomed_endReading (c : Connection) (reason : DisconnectReason) :
    (c.endReading reason).Doomed (c.reasons.head?.getD reason) c.session.handshake where
  handshake := rfl
  reading := rfl
  reasons := by cases h : c.reasons <;> simp [endReading, h]

/-- What a doomed connection that was never accepted does leaves it doomed. -/
theorem Doomed.act {now : Time} {a : Act} (doomed : c.Doomed first h)
    (unaccepted : h.isAccepted = false) (hread : ∀ item, a ≠ .handle item) :
    (c.act now a).1.Doomed first h := by
  refine (c.follows_act now a).doomed doomed ?_
  have heffect := c.effect_any now a
  generalize c.act now a = r at heffect
  obtain ⟨c', output⟩ := r
  cases heffect with
  | accepts | refuses | violates => exact absurd rfl (hread _)
  | serves accepted => exact absurd accepted (doomed.not_accepted unaccepted)
  | rests _ hsession => exact congrArg Session.handshake hsession

theorem Doomed.tick {now : Time} {orders : Session.Orders} (doomed : c.Doomed first h)
    (unaccepted : h.isAccepted = false) (hok : (c.tickInOrder now orders).result = .ok ()) :
    (c.tickInOrder now orders).state.Doomed first h := by
  have hlooks := c.looks_any now orders
  generalize c.tickInOrder now orders = r at hlooks hok
  cases hlooks with
  | rests => exact doomed
  | late => cases hok
  | serves accepted => exact absurd accepted (doomed.not_accepted unaccepted)

end Doomed

end Connection

namespace Phase

def losses (log : List Moment) : List DisconnectReason := log.flatMap fun mo => mo.output.losses

@[simp] theorem losses_append (xs ys : List Moment) : losses (xs ++ ys) = losses xs ++ losses ys :=
  List.flatMap_append

@[simp] theorem losses_singleton (mo : Moment) : losses [mo] = mo.output.losses :=
  List.flatMap_singleton _ _

section Endings
variable {o : Options} {p p' p₀ p₁ p₂ : Phase} {mo fin : Moment} {c : Connection} {now : Time}
  {first reason : DisconnectReason} {h : Handshake} {w : Waiter} {past before log : List Moment}

theorem losses_tearDown (o : Options) (c : Connection) (reason : DisconnectReason)
    (caller : Option Waiter) (now : Time) :
    (tearDown o c reason caller now).output.losses = [reason] := rfl

/-- The last look at the clock tells of no end. -/
theorem Ends.losses {a : Act} {caller : Option Waiter} {output : Output}
    (ends : Ends now p a c reason caller output) : output.losses = [] := by
  cases ends with
  | failed => exact Connection.losses_tickInOrder _ now _
  | lost | stuck | closed => rfl

def isClosing : Phase → Bool
  | closing _ _ _ => true
  | opening _ | driving _ _ | pausing _ | reopening _ | backingOff _ _ | ended => false

theorem isClosing_withConnection (p : Phase) (c : Connection) :
    (p.withConnection c).isClosing = p.isClosing := by
  cases p <;> rfl

theorem isClosing_tearDown (o : Options) (c : Connection) (reason : DisconnectReason)
    (caller : Option Waiter) (now : Time) :
    (tearDown o c reason caller now).phase.isClosing = false := by
  rw [tearDown]
  split
  dsimp only
  split <;> rfl

/-- Only a wish to disconnect closes a connection. -/
theorem Takes.closes (takes : Takes o p mo p') (hclosing : p'.isClosing = true) :
    p.isClosing = true ∨ ∃ caller, mo.act = .disconnect caller := by
  have hchange := takes.change
  obtain ⟨now, act, output, dials⟩ := mo
  dsimp only at hchange ⊢
  cases hchange with
  | rests => exact .inl hclosing
  | works => exact .inl (isClosing_withConnection p _ ▸ hclosing)
  | closes => exact .inr ⟨_, rfl⟩
  | ends => cases hclosing.symm.trans (isClosing_tearDown o _ _ _ now)
  | opens | reopens | unreachable | fails | givesUp | cancels | stops | dials | ticks => cases hclosing

theorem disconnect_of_trace (run : Trace (Takes o) p log p') (hopen : p.isClosing = false)
    (hclosing : p'.isClosing = true) : ∃ mo ∈ log, ∃ caller, mo.act = .disconnect caller := by
  revert hclosing
  refine run.history (P := fun log p => p.isClosing = true →
    ∃ mo ∈ log, ∃ caller, mo.act = .disconnect caller) (fun h => by cases hopen.symm.trans h) ?_
  intro past t mo t' hpast takes hclosing
  obtain hbefore | ⟨caller, hact⟩ := takes.closes hclosing
  · obtain ⟨mo', hmo', hact⟩ := hpast hbefore
    exact ⟨mo', List.mem_append_left _ hmo', hact⟩
  · exact ⟨mo, by simp, caller, hact⟩

/-- Why a doomed connection goes that was never accepted: for the reason that came first, unless the
end was asked for or the handshake times out. -/
theorem Ends.reason_of_doomed {a : Act} {k : Connection} {caller : Option Waiter} {output : Output}
    (ends : Ends now p a k reason caller output) (hp : p.connection? = some c)
    (doomed : c.Doomed first h) (unaccepted : h.isAccepted = false) :
    reason = first ∨
      (reason = .requested ∧ (p.isClosing = true ∨ ∃ caller, a = .disconnect caller)) ∨
      (reason = .connackTimeout ∧ (∃ orders, a = .tick orders) ∧
        ∃ sentAt, h.state = .awaiting sentAt ∧ h.timeout < now - sentAt) := by
  cases ends with
  | lost hreasons =>
    obtain rfl := Option.some.inj hp
    have hfirst := doomed.reasons
    rw [hreasons] at hfirst
    exact .inl (Option.some.inj hfirst)
  | @failed k _ orders _ herror =>
    obtain rfl := Option.some.inj hp
    have hlooks := k.looks_any now orders
    generalize k.tickInOrder now orders = r at hlooks herror
    cases hlooks with
    | rests => cases herror
    | @late sentAt hwaits hlate =>
      cases herror
      rw [doomed.handshake] at hwaits hlate
      exact .inr (.inr ⟨rfl, ⟨_, rfl⟩, sentAt, hwaits, hlate⟩)
    | serves accepted => exact absurd accepted (doomed.not_accepted unaccepted)
  | stuck => exact .inr (.inl ⟨rfl, .inr ⟨_, rfl⟩⟩)
  | closed => exact .inr (.inl ⟨rfl, .inl rfl⟩)

theorem Doomed.step (hp : p.connection? = some c) (doomed : c.Doomed first h)
    (unaccepted : h.isAccepted = false) (takes : Takes o p mo p') :
    (mo.output.losses = [] ∧ ∃ c', p'.connection? = some c' ∧ c'.Doomed first h) ∨
      ∃ reason, mo.output.losses = [reason] ∧ (reason = first ∨
        (reason = .requested ∧ (p.isClosing = true ∨ ∃ caller, mo.act = .disconnect caller)) ∨
        (reason = .connackTimeout ∧ (∃ orders, mo.act = .tick orders) ∧
          ∃ sentAt, h.state = .awaiting sentAt ∧ h.timeout < mo.now - sentAt)) := by
  have hchange := takes.change
  have hallowed := takes.1
  obtain ⟨now, act, output, dials⟩ := mo
  dsimp only at hchange hallowed ⊢
  cases hchange with
  | rests => exact .inl ⟨rfl, c, hp, doomed⟩
  | @works _ c' a hp' =>
    obtain rfl := Option.some.inj (hp.symm.trans hp')
    -- the reader has ended
    have hread : ∀ item, a ≠ .handle item := by
      rintro item rfl
      obtain ⟨c', hc', hreading⟩ := hallowed
      obtain rfl := Option.some.inj (hp.symm.trans hc')
      cases doomed.reading.symm.trans hreading
    exact .inl ⟨c.losses_act now a, _, connection?_withConnection hp _,
      doomed.act unaccepted hread⟩
  | closes =>
    obtain rfl := Option.some.inj hp
    exact .inl ⟨rfl, _, rfl, doomed.handshake, doomed.reading, doomed.reasons⟩
  | @ticks k _ orders hok =>
    obtain rfl := Option.some.inj hp
    exact .inl ⟨Connection.losses_tickInOrder _ now _, _, rfl, doomed.tick unaccepted hok⟩
  | ends hends =>
    right
    rw [Output.losses_append, hends.losses, losses_tearDown]
    exact ⟨_, rfl, hends.reason_of_doomed hp doomed unaccepted⟩
  | opens | reopens | unreachable | fails | givesUp | cancels => cases hp
  | stops hbetween => cases (connection?_of_isBetween hbetween).symm.trans hp
  | dials hwait => obtain ⟨rfl, -⟩ | rfl := hwait <;> cases hp

/-- Why a doomed connection went that was never accepted. -/
theorem reason_of_doomed (hpast : Trace (Takes o) p₀ past p) (hopen : p₀.isClosing = false)
    (hp : p.connection? = some c) (doomed : c.Doomed first h) (unaccepted : h.isAccepted = false)
    (hbefore : Trace (Takes o) p before p₁) (quiet : losses before = []) (takes : Takes o p₁ fin p₂)
    (hreason : reason ∈ fin.output.losses) :
    reason = first ∨
      (reason = .requested ∧
        ∃ mo ∈ past ++ before ++ [fin], ∃ caller, mo.act = .disconnect caller) ∨
      (reason = .connackTimeout ∧ (∃ orders, fin.act = .tick orders) ∧
        ∃ sentAt, h.state = .awaiting sentAt ∧ h.timeout < fin.now - sentAt) := by
  have hdoomed : losses before = [] → ∃ c₁, p₁.connection? = some c₁ ∧ c₁.Doomed first h := by
    refine hbefore.history (P := fun log p => losses log = [] →
      ∃ c, p.connection? = some c ∧ c.Doomed first h) (fun _ => ⟨c, hp, doomed⟩) ?_
    intro log t mo t' hlog takes hnone
    rw [losses_append, losses_singleton, List.append_eq_nil_iff] at hnone
    obtain ⟨c', hc', doomed'⟩ := hlog hnone.1
    obtain ⟨-, hnext⟩ | ⟨reason, hsome, -⟩ := Doomed.step hc' doomed' unaccepted takes
    · exact hnext
    · cases hnone.2.symm.trans hsome
  obtain ⟨c₁, hp₁, doomed₁⟩ := hdoomed quiet
  obtain ⟨hnone, -⟩ | ⟨reason', hsome, hwhy⟩ := Doomed.step hp₁ doomed₁ unaccepted takes
  · rw [hnone] at hreason
    cases hreason
  · rw [hsome, List.mem_singleton] at hreason
    subst hreason
    obtain hfirst | ⟨hrequested, hclosing | hact⟩ | hlate := hwhy
    · exact .inl hfirst
    · obtain ⟨mo, hmo, hact⟩ := disconnect_of_trace (hpast.append hbefore) hopen hclosing
      exact .inr (.inl ⟨hrequested, mo, List.mem_append_left _ hmo, hact⟩)
    · exact .inr (.inl ⟨hrequested, fin, by simp, hact⟩)
    · exact .inr (.inr hlate)

end Endings

end Phase

end Mqtt
