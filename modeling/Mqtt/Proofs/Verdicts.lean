import Mqtt.Proofs.Endings

/-!
# How a request to connect stands

The call that asked for a connection waits for its transport and then for the answer to CONNECT. A
step decides what the call is told, or leaves it waiting, or loses the connection that it waits on;
once it was told, no step of this connection or of a later one tells it anything.
-/
namespace Mqtt

namespace Output

/-- The outcomes that a call is told. -/
def toWaiter (w : Waiter) (o : Output) : List (Except ClientError Reply) :=
  Subscriptions.toWaiter w o.answers

@[simp] theorem toWaiter_append (w : Waiter) (a b : Output) :
    (a ++ b).toWaiter w = a.toWaiter w ++ b.toWaiter w :=
  Subscriptions.toWaiter_append w a.answers b.answers

theorem toWaiter_answer (w : Waiter) (h : Handshake) (outcome : Except ClientError Reply) :
    (h.answer outcome).toWaiter w = if h.waiter = some w then [outcome] else [] := by
  cases hv : h.waiter with
  | none => simp [Handshake.answer, toWaiter, Subscriptions.toWaiter, ofAnswers, hv]
  | some v =>
    by_cases hw : v = w <;>
      simp [Handshake.answer, toWaiter, Subscriptions.toWaiter, ofAnswers, hv, hw]

theorem toWaiter_release {w : Waiter} {caller : Option Waiter} (h : caller ≠ some w) :
    (Phase.release caller).toWaiter w = [] := by
  cases caller with
  | none => rfl
  | some v =>
    have hne : v ≠ w := fun heq => h (congrArg some heq)
    simp [Phase.release, toWaiter, Subscriptions.toWaiter, ofAnswers, hne]

theorem Traffic.toWaiter {sends : Packet → Prop} {w : Waiter} {o : Output}
    (h : o.Traffic sends (· ≠ w)) : o.toWaiter w = [] :=
  List.filterMap_eq_nil_iff.mpr fun a ha => if_neg (h.answers a ha)

end Output

namespace Phase

def Moment.answersTo (w : Waiter) (mo : Moment) : List (Except ClientError Reply) :=
  mo.output.toWaiter w

def answers (w : Waiter) (log : List Moment) : List (Except ClientError Reply) :=
  log.flatMap (Moment.answersTo w)

def isOpening : Phase → Bool
  | opening _ => true
  | driving _ _ | closing _ _ _ | pausing _ | reopening _ | backingOff _ _ | ended => false

/-- Since when a connection waits for the answer to its CONNECT. -/
def sentAt? (p : Phase) : Option Time := p.connection?.bind fun c => c.session.handshake.sentAt?

/-- Whether the first transport is still being opened, or a CONNECT not answered. -/
def isPending (p : Phase) : Bool := p.isOpening || p.sentAt?.isSome

/-- Whom the end of a connection that closes is told. -/
def caller? : Phase → Option Waiter
  | closing _ _ caller => caller
  | opening _ | driving _ _ | pausing _ | reopening _ | backingOff _ _ | ended => none

/-- What an act decides for the call that asked for the connection: a CONNACK or a late look at the
clock while CONNECT is not answered, or a transport that does not open. -/
def verdict? (o : Options) (now : Time) (p : Phase) : Act → Option (Except ClientError Reply)
  | .connection (.handle (.packet q)) =>
    match q.body with
    | .connack sessionPresent code =>
      p.sentAt?.map fun _ =>
        if code.isAccepted then .ok (.connected sessionPresent)
        else .error (.connectionRefused code)
    | _ => none
  | .tick _ =>
    p.sentAt?.bind fun sentAt =>
      if o.connackTimeout < now - sentAt then some (.error (.connackTimeout o.connackTimeout))
      else none
  | .refused fault => if p.isOpening then some (.error (.transport fault)) else none
  | .connection _ | .opened | .disconnect _ | .observe | .elapse => none

/-- How an act decides. -/
inductive Verdict (o : Options) (now : Time) (p : Phase) : Act → Except ClientError Reply → Prop
  | accepted {header : FixedHeader} {sessionPresent : Bool} {code : ConnectCode} {sentAt : Time}
      (waits : p.sentAt? = some sentAt) (h : code.isAccepted = true) :
      Verdict o now p (.connection (.handle (.packet ⟨header, .connack sessionPresent code⟩)))
        (.ok (.connected sessionPresent))
  | refused {header : FixedHeader} {sessionPresent : Bool} {code : ConnectCode} {sentAt : Time}
      (waits : p.sentAt? = some sentAt) (h : code.isAccepted = false) :
      Verdict o now p (.connection (.handle (.packet ⟨header, .connack sessionPresent code⟩)))
        (.error (.connectionRefused code))
  | late {orders : Session.Orders} {sentAt : Time} (waits : p.sentAt? = some sentAt)
      (late : o.connackTimeout < now - sentAt) :
      Verdict o now p (.tick orders) (.error (.connackTimeout o.connackTimeout))
  | unreachable {fault : TransportFault} (opening : p.isOpening = true) :
      Verdict o now p (.refused fault) (.error (.transport fault))

/-- What the call is told in a step that it is still pending at. -/
def told (o : Options) (p : Phase) (mo : Moment) (p' : Phase) : List (Except ClientError Reply) :=
  match p.verdict? o mo.now mo.act with
  | some outcome => [outcome]
  | none => if p'.isPending then [] else [.error .connectionLost]

/-- A connection whose CONNECT is not answered yet, for the call `w`. -/
structure Awaits (o : Options) (w : Waiter) (sentAt : Time) (p : Phase) (c : Connection) : Prop where
  connection : p.connection? = some c
  handshake : c.session.handshake = ⟨o.connackTimeout, .awaiting sentAt, some w⟩
  held : c.session.subscriptions.HeldBy (· ≠ w)
  caller : p.caller? ≠ some w

/-- Nothing in a phase will answer the call `w`. -/
structure Ignores (w : Waiter) (p : Phase) : Prop where
  started : p.isOpening = false
  others : ∀ c, p.connection? = some c →
    c.session.handshake.waiter ≠ some w ∧ c.session.subscriptions.HeldBy (· ≠ w)
  caller : p.caller? ≠ some w

/-- How the call `w` that asked for the connection stands. -/
inductive Stand (o : Options) (w : Waiter) (log : List Moment) : Phase → Prop
  | opening (unanswered : answers w log = []) (first : losses log = []) :
      Stand o w log (.opening w)
  | awaits {p : Phase} {c : Connection} {sentAt : Time} (waits : Awaits o w sentAt p c)
      (sent : ∃ mo ∈ log, mo.act = .opened ∧ mo.now = sentAt ∧
        mo.output.packets = [o.connectPacket.toPacket])
      (unanswered : answers w log = []) (first : losses log = []) : Stand o w log p
  | settled {p : Phase} (outcome : Except ClientError Reply) (answered : answers w log = [outcome])
      (ignores : Ignores w p)
      (final : losses log = [] → p.sentAt? = none ∧ p.isBetween = false) : Stand o w log p

section Answers
variable {o : Options} {w : Waiter} {p p' : Phase} {mo : Moment} {c c' : Connection} {now : Time}
  {log : List Moment} {a : Act}

@[simp] theorem answers_append (w : Waiter) (xs ys : List Moment) :
    answers w (xs ++ ys) = answers w xs ++ answers w ys :=
  List.flatMap_append

@[simp] theorem answers_singleton (w : Waiter) (mo : Moment) : answers w [mo] = mo.answersTo w :=
  List.flatMap_singleton _ _

theorem sentAt?_of_connection (h : p.connection? = some c) :
    p.sentAt? = c.session.handshake.sentAt? := by
  rw [sentAt?, h]
  rfl

theorem isOpening_of_connection (h : p.connection? = some c) : p.isOpening = false := by
  cases p <;> first | rfl | cases h

theorem isBetween_of_connection (h : p.connection? = some c) : p.isBetween = false := by
  cases p <;> first | rfl | cases h

theorem caller?_withConnection (p : Phase) (c : Connection) :
    (p.withConnection c).caller? = p.caller? := by
  cases p <;> rfl

theorem tearDown_phase (o : Options) (c : Connection) (reason : DisconnectReason)
    (caller : Option Waiter) (now : Time) :
    (tearDown o c reason caller now).phase = .pausing (now + o.retryDelay) ∨
      (tearDown o c reason caller now).phase = .ended := by
  rw [tearDown]
  split
  dsimp only
  split
  · exact .inl rfl
  · exact .inr rfl

theorem isPending_tearDown (o : Options) (c : Connection) (reason : DisconnectReason)
    (caller : Option Waiter) (now : Time) :
    (tearDown o c reason caller now).phase.isPending = false := by
  obtain h | h := tearDown_phase o c reason caller now <;> rw [h] <;> rfl

theorem verdict_of_eq_some {outcome : Except ClientError Reply}
    (h : p.verdict? o now a = some outcome) : Verdict o now p a outcome := by
  cases a with
  | connection a =>
    cases a with
    | handle item =>
      cases item with
      | packet q =>
        obtain ⟨header, body⟩ := q
        cases body with
        | connack sessionPresent code =>
          obtain ⟨sentAt, hsent, rfl⟩ := Option.map_eq_some_iff.mp h
          cases hcode : code.isAccepted with
          | true => exact .accepted hsent hcode
          | false => exact .refused hsent hcode
        | _ => cases h
      | error e => cases h
    | _ => cases h
  | tick orders =>
    obtain ⟨sentAt, hsent, hlate⟩ := Option.bind_eq_some_iff.mp h
    split at hlate
    · next hlt =>
      cases hlate
      exact .late hsent hlt
    · cases hlate
  | refused fault =>
    rw [verdict?] at h
    split at h
    · next hopening =>
      cases h
      exact .unreachable hopening
    · cases h
  | opened | disconnect | observe | elapse => cases h

/-- Nothing is decided but by an act that finds the call pending. -/
theorem verdict?_eq_none (h : ∀ outcome, ¬ Verdict o now p a outcome) : p.verdict? o now a = none :=
  Option.eq_none_iff_forall_ne_some.mpr fun outcome hsome => h outcome (verdict_of_eq_some hsome)

theorem verdict?_of_idles (h : a.idles p = true) : p.verdict? o now a = none := by
  refine verdict?_eq_none fun outcome hverdict => ?_
  have hsent : p.connection? = none → p.sentAt? = none := fun hp => by rw [sentAt?, hp]; rfl
  cases hverdict with
  | accepted waits | refused waits =>
    cases waits.symm.trans (hsent (Option.isNone_iff_eq_none.mp h))
  | late | unreachable => cases h

theorem verdict?_of_violation {q : Packet} {v : Violation} (hp : p.connection? = some c)
    (h : c.session.violation? q = some v) :
    p.verdict? o now (.connection (.handle (.packet q))) = none := by
  refine verdict?_eq_none fun outcome hverdict => ?_
  rw [Session.violation?] at h
  cases hverdict with
  | accepted waits | refused waits =>
    rw [sentAt?_of_connection hp] at waits
    simp [waits] at h

theorem verdict?_of_other {a : Connection.Act} (h : ∀ q, a ≠ .handle (.packet q)) :
    p.verdict? o now (.connection a) = none := by
  refine verdict?_eq_none fun outcome hverdict => ?_
  cases hverdict with
  | accepted | refused => exact h _ rfl

/-- What the end of a connection tells a call: that it is lost, if it waits for the answer to
CONNECT, and that it is done, if it asked for the end. -/
theorem toWaiter_tearDown_append (held : c.session.subscriptions.HeldBy (· ≠ w))
    (reason : DisconnectReason) (caller : Option Waiter) (now : Time) :
    (tearDown o c reason caller now).output.toWaiter w =
      (if c.session.handshake.waiter = some w then [.error .connectionLost] else []) ++
        (release caller).toWaiter w := by
  have houtput : (tearDown o c reason caller now).output =
      c.session.handshake.answer (.error .connectionLost) ++ c.session.subscriptions.reset.2 ++
        .ofEvent (.disconnected reason) ++ release caller := rfl
  rw [houtput, Output.toWaiter_append, Output.toWaiter_append, Output.toWaiter_append,
    Output.toWaiter_answer, held.reset.toWaiter, List.append_nil]
  exact congrArg (· ++ _) (List.append_nil _)

theorem toWaiter_tearDown (held : c.session.subscriptions.HeldBy (· ≠ w)) {caller : Option Waiter}
    (hcaller : caller ≠ some w) (reason : DisconnectReason) :
    (tearDown o c reason caller now).output.toWaiter w =
      if c.session.handshake.waiter = some w then [.error .connectionLost] else [] := by
  rw [toWaiter_tearDown_append held, Output.toWaiter_release hcaller, List.append_nil]

theorem nobody_ne (w : Waiter) : (none : Option Waiter) ≠ some w := (Option.some_ne_none w).symm

/-- Once the connection is gone, nothing of it is left to answer. -/
theorem Stand.gone {outcome : Except ClientError Reply} (answered : answers w log = [outcome])
    (hp : p.connection? = none) (started : p.isOpening = false)
    (between : p.isBetween = true → losses log ≠ []) : Stand o w log p := by
  have hcaller : p.caller? = none := by cases p <;> first | rfl | cases hp
  refine .settled outcome answered ⟨started, fun c hc => ?_, hcaller ▸ nobody_ne w⟩ fun hnone => ?_
  · cases hp.symm.trans hc
  · rw [sentAt?, hp]
    refine ⟨rfl, ?_⟩
    rw [← Bool.not_eq_true]
    exact fun h => between h hnone

theorem Stand.torn {outcome : Except ClientError Reply} {reason : DisconnectReason}
    {caller : Option Waiter} (answered : answers w log = [outcome]) (hlosses : losses log ≠ []) :
    Stand o w log (tearDown o c reason caller now).phase := by
  obtain h | h := tearDown_phase o c reason caller now <;> rw [h] <;>
    exact .gone answered rfl rfl fun _ => hlosses

theorem answers_first {outcome : Except ClientError Reply} (unanswered : answers w log = [])
    (answered : mo.answersTo w = [outcome]) : answers w (log ++ [mo]) = [outcome] := by
  rw [answers_append, answers_singleton, unanswered, answered]
  rfl

theorem answers_kept {outcome : Except ClientError Reply} (answered : answers w log = [outcome])
    (quiet : mo.answersTo w = []) : answers w (log ++ [mo]) = [outcome] := by
  rw [answers_append, answers_singleton, answered, quiet]
  rfl

theorem answers_quiet (unanswered : answers w log = []) (quiet : mo.answersTo w = []) :
    answers w (log ++ [mo]) = [] := by
  rw [answers_append, answers_singleton, unanswered, quiet]
  rfl

theorem losses_quiet (first : losses log = []) (quiet : mo.output.losses = []) :
    losses (log ++ [mo]) = [] := by
  rw [losses_append, losses_singleton, first, quiet]
  rfl

theorem losses_ne_nil {reason : DisconnectReason} (h : mo.output.losses = [reason]) :
    losses (log ++ [mo]) ≠ [] := by
  rw [losses_append, losses_singleton, h]
  exact List.append_ne_nil_of_right_ne_nil _ (List.cons_ne_nil _ _)

theorem Ends.caller_ne {reason : DisconnectReason} {caller : Option Waiter} {before : Output}
    (ends : Ends now p a c reason caller before) (hp : p.caller? ≠ some w)
    (own : a.waiter? ≠ some w) : caller ≠ some w := by
  cases ends with
  | lost | failed => exact nobody_ne w
  | stuck => exact own
  | closed => exact hp

/-! ### A call that waits -/

/-- What a step of a session tells the call `w` that waits for the answer to CONNECT. -/
inductive Replies (w : Waiter) (s s' : Session) (output : Output) :
    Option (Except ClientError Reply) → Prop
  | silent (handshake : s'.handshake = s.handshake) (held : s'.subscriptions.HeldBy (· ≠ w))
      (quiet : output.toWaiter w = []) : Replies w s s' output none
  | tells {outcome : Except ClientError Reply} (nobody : s'.handshake.waiter = none)
      (decided : s'.handshake.sentAt? = none) (held : s'.subscriptions.HeldBy (· ≠ w))
      (told : output.toWaiter w = [outcome]) : Replies w s s' output (some outcome)

section Awaits
variable {sentAt : Time}

theorem Awaits.isAccepted (awaits : Awaits o w sentAt p c) : c.session.isAccepted ≠ true := by
  rw [Connection.isAccepted_of_awaiting (congrArg Handshake.state awaits.handshake)]
  exact Bool.noConfusion

theorem Awaits.sentAt?_eq (awaits : Awaits o w sentAt p c) : p.sentAt? = some sentAt := by
  rw [sentAt?_of_connection awaits.connection, awaits.handshake]
  rfl

theorem Awaits.answer (awaits : Awaits o w sentAt p c) (outcome : Except ClientError Reply) :
    (c.session.handshake.answer outcome).toWaiter w = [outcome] := by
  rw [Output.toWaiter_answer, awaits.handshake]
  exact if_pos rfl

theorem Awaits.replies_act (awaits : Awaits o w sentAt p c) (now : Time) (a : Connection.Act)
    (own : a.waiter? ≠ some w) :
    Replies w c.session (c.act now a).1.session (c.act now a).2
      (p.verdict? o now (.connection a)) := by
  have heffect :=
    Connection.effect_act awaits.held now a fun v hv hw => own (hv.trans (congrArg some hw))
  generalize c.act now a = r at heffect ⊢
  obtain ⟨c', output⟩ := r
  cases heffect with
  | @accepts header sessionPresent code _ _ hcode =>
    have hverdict : p.verdict? o now
        (.connection (.handle (.packet ⟨header, .connack sessionPresent code⟩))) =
          some (.ok (.connected sessionPresent)) := by
      rw [verdict?, awaits.sentAt?_eq]
      exact congrArg some (if_pos hcode)
    have htold : (c.session.handshake.answer (.ok (.connected sessionPresent)) ++
        .ofEvent (.connected sessionPresent)).toWaiter w = [.ok (.connected sessionPresent)] := by
      rw [Output.toWaiter_append, awaits.answer]
      rfl
    rw [hverdict]
    exact .tells rfl rfl awaits.held htold
  | @refuses header sessionPresent code _ _ hcode =>
    have hverdict : p.verdict? o now
        (.connection (.handle (.packet ⟨header, .connack sessionPresent code⟩))) =
          some (.error (.connectionRefused code)) := by
      rw [verdict?, awaits.sentAt?_eq]
      exact congrArg some (if_neg (by simp [hcode]))
    rw [hverdict]
    exact .tells rfl rfl awaits.held (awaits.answer _)
  | violates hviolation =>
    rw [verdict?_of_violation awaits.connection hviolation]
    exact .silent rfl awaits.held rfl
  | serves h => exact absurd h awaits.isAccepted
  | rests hother hsession =>
    rw [verdict?_of_other hother, hsession]
    exact .silent rfl awaits.held rfl

theorem Awaits.replies_tick (awaits : Awaits o w sentAt p c) (now : Time) (orders : Session.Orders) :
    Replies w c.session (c.tickInOrder now orders).state.session (c.tickInOrder now orders).output
      (p.verdict? o now (.tick orders)) := by
  have hlooks := Connection.looks_tickInOrder awaits.held now orders
  have hwaits := congrArg Handshake.state awaits.handshake
  rw [verdict?, awaits.sentAt?_eq, Option.bind_some]
  generalize c.tickInOrder now orders = r at hlooks ⊢
  cases hlooks with
  | rests hintime =>
    have hle := hintime sentAt (Connection.sentAt?_eq_some.mpr hwaits)
    rw [awaits.handshake] at hle
    rw [if_neg (Nat.not_lt.mpr hle)]
    exact .silent rfl awaits.held rfl
  | @late sentAt' hwaits' hlate =>
    obtain rfl := HandshakeState.awaiting.inj (hwaits.symm.trans hwaits')
    have htimeout : c.session.handshake.timeout = o.connackTimeout := by rw [awaits.handshake]
    rw [htimeout] at hlate
    rw [if_pos hlate]
    refine .tells rfl rfl awaits.held ?_
    rw [awaits.answer, htimeout]
  | serves h => exact absurd h awaits.isAccepted

/-- The end of a connection tells the call nothing before its session is reset, but that it is too
late. -/
theorem Awaits.replies_ends (awaits : Awaits o w sentAt p c) {k : Connection}
    {reason : DisconnectReason} {caller : Option Waiter} {before : Output}
    (ends : Ends now p a k reason caller before) :
    Replies w c.session k.session before (p.verdict? o now a) := by
  cases ends with
  | lost | stuck =>
    obtain rfl := Option.some.inj awaits.connection
    exact .silent rfl awaits.held rfl
  | closed hwhy =>
    obtain rfl := Option.some.inj awaits.connection
    obtain ⟨rfl, -⟩ | ⟨rfl, -⟩ := hwhy <;> exact .silent rfl awaits.held rfl
  | @failed k _ orders =>
    obtain rfl := Option.some.inj awaits.connection
    exact awaits.replies_tick now orders

theorem Awaits.goes_on (awaits : Awaits o w sentAt p c) (connection : p'.connection? = some c')
    (replies : Replies w c.session c'.session mo.output (p.verdict? o mo.now mo.act))
    (caller : p'.caller? ≠ some w) (quiet : mo.output.losses = [])
    (sent : ∃ m ∈ log, m.act = .opened ∧ m.now = sentAt ∧
      m.output.packets = [o.connectPacket.toPacket])
    (unanswered : answers w log = []) (first : losses log = []) :
    mo.answersTo w = told o p mo p' ∧ Stand o w (log ++ [mo]) p' := by
  rw [told]
  generalize p.verdict? o mo.now mo.act = verdict at replies ⊢
  cases replies with
  | silent hhandshake held hquiet =>
    have waits : Awaits o w sentAt p' c' :=
      ⟨connection, hhandshake.trans awaits.handshake, held, caller⟩
    have hpending : p'.isPending = true := by
      rw [isPending, waits.sentAt?_eq]
      exact Bool.or_true _
    obtain ⟨m, hm, hsent⟩ := sent
    refine ⟨hquiet.trans (if_pos hpending).symm, .awaits waits ⟨m, List.mem_append_left _ hm, hsent⟩
      (answers_quiet unanswered hquiet) (losses_quiet first quiet)⟩
  | @tells outcome nobody decided held htold =>
    refine ⟨htold, .settled outcome (answers_first unanswered htold)
      ⟨isOpening_of_connection connection, fun k hk => ?_, caller⟩ fun _ => ?_⟩
    · obtain rfl := Option.some.inj (connection.symm.trans hk)
      exact ⟨nobody ▸ nobody_ne w, held⟩
    · exact ⟨(sentAt?_of_connection connection).trans decided, isBetween_of_connection connection⟩

theorem Awaits.ends (awaits : Awaits o w sentAt p c) {k : Connection} {reason : DisconnectReason}
    {caller : Option Waiter} {before : Output} (ends : Ends now p a k reason caller before)
    (own : a.waiter? ≠ some w) (unanswered : answers w log = []) :
    let turn := tearDown o k reason caller now
    let mo : Moment := ⟨now, a, before ++ turn.output, turn.dials⟩
    mo.answersTo w = told o p mo turn.phase ∧ Stand o w (log ++ [mo]) turn.phase := by
  intro turn mo
  have hcaller := ends.caller_ne awaits.caller own
  have hlosses : mo.output.losses = [reason] := by
    rw [Output.losses_append, ends.losses]
    rfl
  have replies := awaits.replies_ends ends
  rw [told, isPending_tearDown]
  generalize p.verdict? o mo.now mo.act = verdict at replies ⊢
  cases replies with
  | silent hhandshake held hquiet =>
    have htold : mo.answersTo w = [.error .connectionLost] := by
      rw [Moment.answersTo, Output.toWaiter_append, hquiet, toWaiter_tearDown held hcaller,
        hhandshake, awaits.handshake]
      exact if_pos rfl
    exact ⟨htold, .torn (answers_first unanswered htold) (losses_ne_nil hlosses)⟩
  | @tells outcome nobody _ held houtcome =>
    have htold : mo.answersTo w = [outcome] := by
      rw [Moment.answersTo, Output.toWaiter_append, houtcome, toWaiter_tearDown held hcaller, nobody]
      rfl
    exact ⟨htold, .torn (answers_first unanswered htold) (losses_ne_nil hlosses)⟩

end Awaits

theorem step_opening (unanswered : answers w log = []) (first : losses log = [])
    (takes : Takes o (.opening w) mo p') (own : mo.act.waiter? ≠ some w) :
    mo.answersTo w = told o (.opening w) mo p' ∧ Stand o w (log ++ [mo]) p' := by
  have hchange := takes.change
  obtain ⟨now, act, output, dials⟩ := mo
  dsimp only at hchange own
  cases hchange with
  | rests hidle =>
    rw [told, verdict?_of_idles hidle]
    exact ⟨rfl, .opening (answers_quiet unanswered rfl) (losses_quiet first rfl)⟩
  | opens =>
    refine ⟨rfl, .awaits ⟨rfl, rfl, Subscriptions.heldBy_new _, nobody_ne w⟩
      ⟨_, List.mem_concat_self, rfl, rfl, rfl⟩ (answers_quiet unanswered rfl)
      (losses_quiet first rfl)⟩
  | @unreachable _ fault =>
    have htold : (Output.ofAnswers [⟨w, .error (.transport fault)⟩]).toWaiter w =
        [.error (.transport fault)] := by
      simp [Output.toWaiter, Subscriptions.toWaiter, Output.ofAnswers]
    exact ⟨htold, .gone (answers_first unanswered htold) rfl rfl Bool.noConfusion⟩
  | @cancels _ caller =>
    have htold : (Output.ofAnswers [⟨w, .error .connectionLost⟩] ++ release caller).toWaiter w =
        [.error .connectionLost] := by
      have hcaller : caller ≠ some w := own
      rw [Output.toWaiter_append, Output.toWaiter_release hcaller]
      simp [Output.toWaiter, Subscriptions.toWaiter, Output.ofAnswers]
    exact ⟨htold, .gone (answers_first unanswered htold) rfl rfl Bool.noConfusion⟩
  | stops between => cases between
  | dials hwait => obtain ⟨h, -⟩ | h := hwait <;> cases h
  | works h => cases h
  | ends h => cases h

/-- A connection whose CONNECT is not answered stays so, or the answer comes. -/
theorem step_awaits {sentAt : Time} (awaits : Awaits o w sentAt p c)
    (sent : ∃ m ∈ log, m.act = .opened ∧ m.now = sentAt ∧
      m.output.packets = [o.connectPacket.toPacket])
    (unanswered : answers w log = []) (first : losses log = []) (takes : Takes o p mo p')
    (own : mo.act.waiter? ≠ some w) :
    mo.answersTo w = told o p mo p' ∧ Stand o w (log ++ [mo]) p' := by
  have hp := awaits.connection
  have hchange := takes.change
  obtain ⟨now, act, output, dials⟩ := mo
  dsimp only at hchange own
  cases hchange with
  | rests hidle =>
    refine awaits.goes_on hp ?_ awaits.caller rfl sent unanswered first
    rw [verdict?_of_idles hidle]
    exact .silent rfl awaits.held rfl
  | closes hopen =>
    obtain rfl := Option.some.inj hp
    exact awaits.goes_on rfl (.silent rfl awaits.held rfl) own rfl sent unanswered first
  | @works _ k a hk =>
    obtain rfl := Option.some.inj (hp.symm.trans hk)
    exact awaits.goes_on (connection?_withConnection hp _) (awaits.replies_act now a own)
      (caller?_withConnection p _ ▸ awaits.caller) (c.losses_act now a) sent unanswered first
  | @ticks k _ orders =>
    obtain rfl := Option.some.inj hp
    exact awaits.goes_on rfl (awaits.replies_tick now orders) (nobody_ne w)
      (k.losses_tickInOrder now orders) sent unanswered first
  | ends hends => exact awaits.ends hends own unanswered
  | opens | reopens | unreachable | fails | givesUp | cancels => cases hp
  | stops hbetween => cases (connection?_of_isBetween hbetween).symm.trans hp
  | dials hwait => obtain ⟨rfl, -⟩ | rfl := hwait <;> cases hp

/-! ### A call that was told -/

/-- A step of a session that tells the call `w` nothing, and leaves nothing that will. -/
structure Spares (w : Waiter) (s s' : Session) (output : Output) : Prop where
  waiter : s'.handshake.waiter ≠ some w
  held : s'.subscriptions.HeldBy (· ≠ w)
  decided : s.handshake.sentAt? = none → s'.handshake.sentAt? = none
  quiet : output.toWaiter w = []

section Settled
variable {outcome : Except ClientError Reply} {callers : Waiter → Prop}

theorem spares_of_same {s s' : Session} (waiter : s.handshake.waiter ≠ some w)
    (held : s.subscriptions.HeldBy (· ≠ w)) (same : s' = s) : Spares w s s' {} := by
  subst same
  exact ⟨waiter, held, id, rfl⟩

theorem spares_of_serves {s s' : Session} {output : Output} (waiter : s.handshake.waiter ≠ some w)
    {sends : Packet → Prop}
    (serves : s.Serves sends (· ≠ w) s' output) : Spares w s s' output where
  waiter := serves.handshake ▸ waiter
  held := serves.held
  decided := serves.handshake ▸ id
  quiet := serves.traffic.toWaiter

theorem spares_act (waiter : c.session.handshake.waiter ≠ some w)
    (held : c.session.subscriptions.HeldBy (· ≠ w)) (now : Time) (a : Connection.Act)
    (own : a.waiter? ≠ some w) :
    Spares w c.session (c.act now a).1.session (c.act now a).2 := by
  have heffect :=
    Connection.effect_act held now a fun v hv hw => own (hv.trans (congrArg some hw))
  generalize c.act now a = r at heffect ⊢
  obtain ⟨c', output⟩ := r
  cases heffect with
  | @accepts _ sessionPresent =>
    have hquiet : (c.session.handshake.answer (.ok (.connected sessionPresent)) ++
        .ofEvent (.connected sessionPresent)).toWaiter w = [] := by
      rw [Output.toWaiter_append, Output.toWaiter_answer, if_neg waiter]
      rfl
    exact ⟨nobody_ne w, held, fun _ => rfl, hquiet⟩
  | refuses =>
    exact ⟨nobody_ne w, held, fun _ => rfl, (Output.toWaiter_answer w _ _).trans (if_neg waiter)⟩
  | violates => exact ⟨waiter, held, id, rfl⟩
  | serves _ h => exact spares_of_serves waiter h
  | rests _ hsession => exact spares_of_same waiter held hsession

theorem spares_tick (waiter : c.session.handshake.waiter ≠ some w)
    (held : c.session.subscriptions.HeldBy (· ≠ w)) (now : Time) (orders : Session.Orders) :
    Spares w c.session (c.tickInOrder now orders).state.session
      (c.tickInOrder now orders).output := by
  have hlooks := Connection.looks_tickInOrder held now orders
  generalize c.tickInOrder now orders = r at hlooks ⊢
  cases hlooks with
  | rests => exact ⟨waiter, held, id, rfl⟩
  | late =>
    exact ⟨nobody_ne w, held, fun _ => rfl, (Output.toWaiter_answer w _ _).trans (if_neg waiter)⟩
  | serves _ h => exact spares_of_serves waiter h

theorem Ends.spares {reason : DisconnectReason} {caller : Option Waiter} {before : Output}
    (ends : Ends now p a c reason caller before) (others : ∀ k, p.connection? = some k →
      k.session.handshake.waiter ≠ some w ∧ k.session.subscriptions.HeldBy (· ≠ w)) :
    ∃ s, Spares w s c.session before := by
  cases ends with
  | lost | stuck | closed =>
    obtain ⟨waiter, held⟩ := others c rfl
    exact ⟨_, spares_of_same waiter held rfl⟩
  | failed =>
    obtain ⟨waiter, held⟩ := others _ rfl
    exact ⟨_, spares_tick waiter held now _⟩

/-- A connection that goes on has told the call nothing. -/
theorem Stand.goes_on (answered : answers w log = [outcome])
    (final : losses log = [] → p.sentAt? = none ∧ p.isBetween = false)
    (hp : p.connection? = some c) (hp' : p'.connection? = some c')
    (spares : Spares w c.session c'.session mo.output) (caller : p'.caller? ≠ some w) :
    mo.answersTo w = [] ∧ Stand o w (log ++ [mo]) p' := by
  refine ⟨spares.quiet, .settled outcome (answers_kept answered spares.quiet)
    ⟨isOpening_of_connection hp', fun k hk => ?_, caller⟩ fun hnone => ?_⟩
  · obtain rfl := Option.some.inj (hp'.symm.trans hk)
    exact ⟨spares.waiter, spares.held⟩
  · rw [losses_append, List.append_eq_nil_iff] at hnone
    have hsent := (final hnone.1).1
    rw [sentAt?_of_connection hp] at hsent
    exact ⟨(sentAt?_of_connection hp').trans (spares.decided hsent), isBetween_of_connection hp'⟩

/-- A call that was answered is not answered again. -/
theorem step_settled (answered : answers w log = [outcome]) (ignores : Ignores w p)
    (final : losses log = [] → p.sentAt? = none ∧ p.isBetween = false) (takes : Takes o p mo p')
    (own : mo.act.waiter? ≠ some w) :
    mo.answersTo w = [] ∧ Stand o w (log ++ [mo]) p' := by
  have hbetween : p.isBetween = true → losses (log ++ [mo]) ≠ [] := by
    intro h hnone
    rw [losses_append, List.append_eq_nil_iff] at hnone
    cases h.symm.trans (final hnone.1).2
  have hgone : ∀ {p' : Phase}, p'.connection? = none → p'.isOpening = false →
      (p'.isBetween = true → p.isBetween = true) → mo.answersTo w = [] →
        mo.answersTo w = [] ∧ Stand o w (log ++ [mo]) p' := by
    intro p' hp' hstarted hkept hquiet
    exact ⟨hquiet, .gone (answers_kept answered hquiet) hp' hstarted (hbetween ∘ hkept)⟩
  have hchange := takes.change
  obtain ⟨now, act, output, dials⟩ := mo
  dsimp only at hchange own hgone
  cases hchange with
  | rests =>
    cases hp : p.connection? with
    | none => exact hgone hp ignores.started id rfl
    | some c =>
      obtain ⟨waiter, held⟩ := ignores.others c hp
      exact Stand.goes_on answered final hp hp (spares_of_same waiter held rfl) ignores.caller
  | reopens =>
    have hlosses := hbetween rfl
    refine ⟨rfl, .settled outcome (answers_kept answered rfl) ⟨rfl, ?_, nobody_ne w⟩
      (absurd · hlosses)⟩
    intro c hc
    obtain rfl := Option.some.inj hc
    exact ⟨nobody_ne w, Subscriptions.heldBy_new _⟩
  | opens | unreachable | cancels => cases ignores.started
  | fails | givesUp => exact hgone rfl rfl (fun _ => rfl) rfl
  | stops hb => exact hgone rfl rfl (fun _ => hb) (Output.toWaiter_release own)
  | dials hwait =>
    obtain ⟨rfl, -⟩ | rfl := hwait <;> exact hgone rfl rfl (fun _ => rfl) rfl
  | closes =>
    obtain ⟨waiter, held⟩ := ignores.others _ rfl
    exact Stand.goes_on answered final rfl rfl ⟨waiter, held, id, rfl⟩ own
  | @works _ c a hp =>
    obtain ⟨waiter, held⟩ := ignores.others c hp
    exact Stand.goes_on answered final hp (connection?_withConnection hp _)
      (spares_act waiter held now a own) (caller?_withConnection p _ ▸ ignores.caller)
  | @ticks k _ orders =>
    obtain ⟨waiter, held⟩ := ignores.others k rfl
    exact Stand.goes_on answered final rfl rfl (spares_tick waiter held now orders) (nobody_ne w)
  | @ends _ act k reason caller before hends =>
    obtain ⟨s, spares⟩ := hends.spares ignores.others
    have htorn : (before ++ (tearDown o k reason caller now).output).losses = [reason] := by
      rw [Output.losses_append, hends.losses]
      rfl
    have hquiet : (before ++ (tearDown o k reason caller now).output).toWaiter w = [] := by
      rw [Output.toWaiter_append, spares.quiet,
        toWaiter_tearDown spares.held (hends.caller_ne ignores.caller own), if_neg spares.waiter]
      rfl
    exact ⟨hquiet, .torn (answers_kept answered hquiet) (losses_ne_nil htorn)⟩

end Settled

theorem Stand.step (stand : Stand o w log p) (takes : Takes o p mo p')
    (own : mo.act.waiter? ≠ some w) :
    (mo.answersTo w = if answers w log = [] then told o p mo p' else []) ∧
      Stand o w (log ++ [mo]) p' := by
  cases stand with
  | opening unanswered first =>
    rw [if_pos unanswered]
    exact step_opening unanswered first takes own
  | awaits waits sent unanswered first =>
    rw [if_pos unanswered]
    exact step_awaits waits sent unanswered first takes own
  | settled outcome answered ignores final =>
    rw [if_neg (by simp [answered])]
    exact step_settled answered ignores final takes own

end Answers

end Phase

end Mqtt
