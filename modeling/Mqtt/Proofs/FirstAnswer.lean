import Mqtt.Proofs.Verdicts

/-!
# The answer to a request to connect

The call that asked for a connection is answered once: by the first CONNACK of the first connection,
by a look at the clock that finds it late, by the fault that kept the transport closed, or, when the
connection goes before any of these, by the loss. Later connections answer nobody.
-/
namespace Mqtt

namespace Phase

/-- A step of the first connection or of its transport decides the outcome. -/
def Decides (o : Options) (w : Waiter) (log : List Moment) (outcome : Except ClientError Reply) :
    Prop :=
  ∃ past mo rest p, log = past ++ mo :: rest ∧ losses past = [] ∧
    Trace (Takes o) (.opening w) past p ∧ p.verdict? o mo.now mo.act = some outcome

/-- What the call has heard by the end of a run. -/
structure Heard (o : Options) (w : Waiter) (log : List Moment) (p : Phase) : Prop where
  run : Trace (Takes o) (.opening w) log p
  stand : Stand o w log p
  decided : ∀ outcome, Decides o w log outcome → answers w log = [outcome]
  lost : (∀ outcome, ¬ Decides o w log outcome) → answers w log ≠ [] →
    answers w log = [.error .connectionLost]

section Runs
variable {o : Options} {w : Waiter} {p p' : Phase} {mo : Moment} {c : Connection}
  {log past rest : List Moment} {outcome : Except ClientError Reply}

theorem decides_concat (run : Trace (Takes o) (.opening w) log p) (mo : Moment)
    (outcome : Except ClientError Reply) :
    Decides o w (log ++ [mo]) outcome ↔
      Decides o w log outcome ∨ (losses log = [] ∧ p.verdict? o mo.now mo.act = some outcome) := by
  constructor
  · rintro ⟨past, mo', rest, t, hlog, hlosses, hpast, hverdict⟩
    obtain ⟨rfl, rfl, rfl⟩ | ⟨older, rfl, rfl⟩ := Trace.middle_of_concat hlog
    · obtain rfl := hpast.unique run Takes.functional
      exact .inr ⟨hlosses, hverdict⟩
    · exact .inl ⟨past, mo', older, t, rfl, hlosses, hpast, hverdict⟩
  · rintro (⟨past, mo', rest, t, rfl, h⟩ | ⟨hlosses, hverdict⟩)
    · exact ⟨past, mo', rest ++ [mo], t, by simp, h⟩
    · exact ⟨log, mo, [], p, rfl, hlosses, run, hverdict⟩

theorem Stand.answers_eq_nil_iff (stand : Stand o w log p) :
    answers w log = [] ↔ losses log = [] ∧ p.isPending = true := by
  cases stand with
  | opening unanswered first => exact iff_of_true unanswered ⟨first, rfl⟩
  | awaits waits _ unanswered first =>
    refine iff_of_true unanswered ⟨first, ?_⟩
    rw [isPending, waits.sentAt?_eq]
    exact Bool.or_true _
  | settled outcome answered ignores final =>
    refine iff_of_false (by simp [answered]) fun h => ?_
    obtain ⟨hlosses, hpending⟩ := h
    rw [isPending, ignores.started, (final hlosses).1] at hpending
    cases hpending

/-- Nothing is decided for a call that was answered. -/
theorem Stand.verdict?_eq_none {a : Act} {now : Time} (stand : Stand o w log p)
    (answered : answers w log ≠ []) (first : losses log = []) : p.verdict? o now a = none := by
  have hpending : p.isPending ≠ true := fun h => answered (stand.answers_eq_nil_iff.mpr ⟨first, h⟩)
  refine Phase.verdict?_eq_none fun outcome hverdict => hpending ?_
  rw [isPending]
  cases hverdict with
  | accepted waits | refused waits | late waits => rw [waits]; exact Bool.or_true _
  | unreachable opening => rw [opening]; rfl

theorem Heard.step (heard : Heard o w log p) (takes : Takes o p mo p')
    (own : mo.act.waiter? ≠ some w) : Heard o w (log ++ [mo]) p' := by
  obtain ⟨hanswers, hstand⟩ := heard.stand.step takes own
  have hdecides := decides_concat heard.run mo
  by_cases hpending : answers w log = []
  · have hfirst := (heard.stand.answers_eq_nil_iff.mp hpending).1
    have hundecided : ∀ outcome, ¬ Decides o w log outcome := by
      intro outcome h
      cases hpending.symm.trans (heard.decided outcome h)
    rw [if_pos hpending] at hanswers
    have hall : answers w (log ++ [mo]) = told o p mo p' := by
      rw [answers_append, answers_singleton, hpending, hanswers]
      rfl
    refine ⟨heard.run.concat takes, hstand, fun outcome h => ?_, fun hnone hsome => ?_⟩
    · obtain h | ⟨-, hverdict⟩ := (hdecides outcome).mp h
      · exact absurd h (hundecided outcome)
      · rw [hall, told, hverdict]
    · have hverdict : p.verdict? o mo.now mo.act = none := by
        rw [Option.eq_none_iff_forall_ne_some]
        exact fun outcome h => hnone outcome ((hdecides outcome).mpr (.inr ⟨hfirst, h⟩))
      rw [hall, told, hverdict] at hsome ⊢
      dsimp only at hsome ⊢
      split at hsome
      · exact absurd rfl hsome
      · next h => rw [if_neg h]
  · rw [if_neg hpending] at hanswers
    have hall : answers w (log ++ [mo]) = answers w log := by
      rw [answers_append, answers_singleton, hanswers, List.append_nil]
    refine ⟨heard.run.concat takes, hstand, fun outcome h => ?_, fun hnone hsome => ?_⟩
    · rw [hall]
      obtain h | ⟨hfirst, hverdict⟩ := (hdecides outcome).mp h
      · exact heard.decided outcome h
      · cases (heard.stand.verdict?_eq_none hpending hfirst).symm.trans hverdict
    · rw [hall]
      exact heard.lost (fun outcome h => hnone outcome ((hdecides outcome).mpr (.inl h))) hpending

theorem heard_of_trace (run : Trace (Takes o) (.opening w) log p)
    (own : ∀ mo ∈ log, mo.act.waiter? ≠ some w) : Heard o w log p := by
  have hstart : Heard o w [] (.opening w) := by
    refine ⟨.idle _, .opening rfl rfl, ?_, fun _ h => absurd rfl h⟩
    rintro outcome ⟨past, mo, rest, t, hnil, -⟩
    cases past <;> cases hnil
  exact run.invariant hstart own fun heard howned takes => heard.step takes howned

/-- A look at the clock that finds the answer late tells the application so. -/
theorem events_of_late {orders : Session.Orders} {sentAt : Time} (hp : p.connection? = some c)
    (handshake : c.session.handshake = ⟨o.connackTimeout, .awaiting sentAt, some w⟩)
    (takes : Takes o p mo p') (htick : mo.act = .tick orders)
    (hlate : o.connackTimeout < mo.now - sentAt) :
    mo.output.events = [.disconnected .connackTimeout] := by
  have hchange := takes.change
  obtain ⟨now, act, output, dials⟩ := mo
  dsimp only at hchange htick hlate ⊢
  subst htick
  have hfails : ∀ k : Connection, k = c → (k.tickInOrder now orders).output.events = [] ∧
      (k.tickInOrder now orders).result = .error .connackTimeout := by
    rintro k rfl
    have hlooks := k.looks_any now orders
    generalize k.tickInOrder now orders = r at hlooks ⊢
    cases hlooks with
    | rests hintime =>
      have hle := hintime sentAt (by rw [handshake]; rfl)
      rw [handshake] at hle
      exact absurd hlate (Nat.not_lt.mpr hle)
    | late => exact ⟨rfl, rfl⟩
    | serves haccepted =>
      have hwaits := congrArg Handshake.state handshake
      cases haccepted.symm.trans (Connection.isAccepted_of_awaiting hwaits)
  cases hchange with
  | rests hidle => cases hidle
  | ticks hok => cases hok.symm.trans (hfails _ (Option.some.inj hp)).2
  | ends hends =>
    cases hends with
    | failed herror =>
      obtain ⟨hevents, hresult⟩ := hfails _ (Option.some.inj hp)
      obtain rfl := Except.error.inj (herror.symm.trans hresult)
      rw [Output.events_append, hevents]
      rfl
    | closed hwhy => obtain ⟨h, -⟩ | ⟨h, -⟩ := hwhy <;> cases h

/-- An answer other than the loss was decided while the call was pending. -/
theorem Stand.verdict_of_answersTo (stand : Stand o w log p) (takes : Takes o p mo p')
    (own : mo.act.waiter? ≠ some w) (h : mo.answersTo w = [outcome])
    (hlost : outcome ≠ .error .connectionLost) :
    answers w log = [] ∧ Verdict o mo.now p mo.act outcome := by
  have hanswers := (stand.step takes own).1
  rw [h] at hanswers
  split at hanswers
  · next hpending =>
    refine ⟨hpending, verdict_of_eq_some ?_⟩
    rw [told] at hanswers
    split at hanswers
    · next hverdict => rw [hverdict, List.singleton_inj.mp hanswers]
    · split at hanswers
      · cases hanswers
      · exact absurd (List.singleton_inj.mp hanswers) hlost
  · cases hanswers

/-- A call that waits for the answer to CONNECT waits on this connection. -/
theorem Stand.exists_connection {sentAt : Time} (stand : Stand o w log p)
    (unanswered : answers w log = []) (waits : p.sentAt? = some sentAt) :
    ∃ c, p.connection? = some c ∧
      c.session.handshake = ⟨o.connackTimeout, .awaiting sentAt, some w⟩ := by
  cases stand with
  | opening => cases waits
  | awaits awaits =>
    cases awaits.sentAt?_eq.symm.trans waits
    exact ⟨_, awaits.connection, awaits.handshake⟩
  | settled outcome answered => cases answered.symm.trans unanswered

/-- A connection that the broker refuses is doomed for that reason, unless it was for another. -/
theorem doomed_of_refused {header : FixedHeader} {sessionPresent : Bool} {code : ConnectCode}
    {sentAt : Time} (hp : p.connection? = some c) (waits : c.session.handshake.state = .awaiting sentAt)
    (refused : code.isAccepted = false) (takes : Takes o p mo p')
    (hact : mo.act = .connection (.handle (.packet ⟨header, .connack sessionPresent code⟩))) :
    ∃ c', p'.connection? = some c' ∧ c'.Doomed (c.reasons.head?.getD (.connectionRefused code))
      ⟨c.session.handshake.timeout, .failed, none⟩ := by
  obtain ⟨rfl, -⟩ := takes.connection hp hact
  refine ⟨_, connection?_withConnection hp _, ?_⟩
  rw [Connection.act, Connection.handle_of_refused waits refused]
  have doomed := (c.withHandshake ⟨c.session.handshake.timeout, .failed, none⟩).doomed_endReading
    (.connectionRefused code)
  exact doomed

/-- Accepted and failed are for good. -/
theorem handshake_of_settled {c' : Connection} (hp : p.connection? = some c)
    (hp' : p'.connection? = some c') (takes : Takes o p mo p')
    (settled : c.session.handshake.state = .failed ∨
      ∃ sessionPresent, c.session.handshake.state = .accepted sessionPresent) :
    c'.session.handshake.state = c.session.handshake.state := by
  have hwaits : ∀ {sentAt}, c.session.handshake.state ≠ .awaiting sentAt := by
    rintro sentAt h
    obtain hs | ⟨sessionPresent, hs⟩ := settled <;> cases hs.symm.trans h
  have hchange := takes.change
  obtain ⟨now, act, output, dials⟩ := mo
  dsimp only at hchange
  cases hchange with
  | rests => cases hp.symm.trans hp'; rfl
  | closes => cases hp; cases hp'; rfl
  | @works _ k a hk =>
    obtain rfl := Option.some.inj (hp.symm.trans hk)
    obtain rfl := Option.some.inj ((connection?_withConnection hp _).symm.trans hp')
    have heffect := c.effect_any now a
    generalize c.act now a = r at heffect
    obtain ⟨c', output⟩ := r
    cases heffect with
    | accepts waits | refuses waits => exact absurd waits hwaits
    | violates => rfl
    | serves _ h => exact congrArg Handshake.state h.handshake
    | rests _ hsession => exact congrArg (·.handshake.state) hsession
  | @ticks k _ orders =>
    obtain rfl := Option.some.inj hp
    obtain rfl := Option.some.inj hp'
    have hlooks := k.looks_any now orders
    generalize k.tickInOrder now orders = r at hlooks
    cases hlooks with
    | rests => rfl
    | late waits => exact absurd waits hwaits
    | serves _ h => exact congrArg Handshake.state h.handshake
  | @ends _ _ k reason caller =>
    obtain h | h := tearDown_phase o k reason caller now <;> rw [h] at hp' <;> cases hp'
  | opens | reopens | unreachable | fails | givesUp | cancels | stops => first | cases hp | cases hp'
  | dials => cases hp'

/-- What is waited for is the answer to the CONNECT of the first connection. -/
theorem Stand.sent {sentAt : Time} (stand : Stand o w log p) (first : losses log = [])
    (waits : p.sentAt? = some sentAt) : ∃ m ∈ log, m.act = .opened ∧ m.now = sentAt ∧
      m.output.packets = [o.connectPacket.toPacket] := by
  cases stand with
  | opening => cases waits
  | awaits awaits sent =>
    cases awaits.sentAt?_eq.symm.trans waits
    exact sent
  | settled _ _ _ final => cases (final first).1.symm.trans waits

theorem Stand.events_of_timeout {limit : Time} (stand : Stand o w log p) (takes : Takes o p mo p')
    (own : mo.act.waiter? ≠ some w) (h : mo.answersTo w = [.error (.connackTimeout limit)]) :
    mo.output.events = [.disconnected .connackTimeout] := by
  obtain ⟨hpending, hverdict⟩ := stand.verdict_of_answersTo takes own h fun h => by cases h
  generalize hact : mo.act = act at hverdict
  cases hverdict with
  | late waits hlate =>
    obtain ⟨c, hc, handshake⟩ := stand.exists_connection hpending waits
    exact events_of_late hc handshake takes hact hlate

/-- Why a connection goes that the broker refused. -/
theorem Stand.reason_of_refused {code : ConnectCode} {p₁ p₂ : Phase} {before : List Moment}
    {fin : Moment} {reason : DisconnectReason} (stand : Stand o w past p)
    (hpast : Trace (Takes o) (.opening w) past p) (takes : Takes o p mo p')
    (own : mo.act.waiter? ≠ some w) (h : mo.answersTo w = [.error (.connectionRefused code)])
    (hbefore : Trace (Takes o) p' before p₁) (quiet : losses before = []) (hfin : Takes o p₁ fin p₂)
    (hreason : reason ∈ fin.output.losses) :
    reason = .connectionRefused code ∨
      (reason = .requested ∧
        ∃ m ∈ past ++ mo :: before ++ [fin], ∃ caller, m.act = .disconnect caller) ∨
      ∃ c others, p.connection? = some c ∧ c.reasons = reason :: others := by
  obtain ⟨hpending, hverdict⟩ := stand.verdict_of_answersTo takes own h fun h => by cases h
  generalize hact : mo.act = act at hverdict
  cases hverdict with
  | refused waits hcode =>
    obtain ⟨c, hc, handshake⟩ := stand.exists_connection hpending waits
    have hwaits := congrArg Handshake.state handshake
    obtain ⟨c', hc', doomed⟩ := doomed_of_refused hc hwaits hcode takes hact
    obtain rfl | hrequested | ⟨-, -, sentAt, hfailed, -⟩ := reason_of_doomed (hpast.concat takes) rfl
      hc' doomed rfl hbefore quiet hfin hreason
    · cases hreasons : c.reasons with
      | nil => exact .inl rfl
      | cons reason others => exact .inr (.inr ⟨c, others, hc, hreasons⟩)
    · exact .inr (.inl (by simpa using hrequested))
    · cases hfailed

/-- A CONNACK that nobody waits for is a violation that changes nothing else. -/
theorem violates_of_idle {header : FixedHeader} {sessionPresent : Bool} {code : ConnectCode}
    (hp : p.connection? = some c) (takes : Takes o p mo p') (idle : p.sentAt? = none)
    (hact : mo.act = .connection (.handle (.packet ⟨header, .connack sessionPresent code⟩))) :
    mo.output = ({} : Output) ∧
      p' = p.withConnection (c.endReading (.protocolViolation .unexpectedConnack)) := by
  rw [sentAt?_of_connection hp] at idle
  have hviolation : c.session.violation? ⟨header, .connack sessionPresent code⟩ =
      some .unexpectedConnack := by
    simp [Session.violation?, idle]
  obtain ⟨hphase, houtput⟩ := takes.connection hp hact
  rw [Connection.act, Connection.handle_of_violation hviolation] at hphase houtput
  exact ⟨houtput, hphase⟩

/-- The end of a connection leaves its handshake settled. -/
theorem reset_of_settled {s : Session} (settled : s.handshake.state = .failed ∨
    ∃ sessionPresent, s.handshake.state = .accepted sessionPresent) :
    s.reset.1.handshake.state = s.handshake.state := by
  obtain h | ⟨sessionPresent, h⟩ := settled <;> simp [Session.reset, Handshake.reset, h, Step.emit]

/-- The call that asked for a connection is answered once, by what became of the first connection,
and the handshake of every connection is settled once. -/
theorem connect_answered_once (run : Trace (Takes o) (.opening w) log p)
    (own : ∀ mo ∈ log, mo.act.waiter? ≠ some w) :
    (answers w log).length ≤ 1 ∧
      (answers w log = [] ↔ losses log = [] ∧ p.isPending = true) ∧
      (∀ outcome, answers w log = [outcome] ↔ Decides o w log outcome ∨
        outcome = .error .connectionLost ∧ (∀ other, ¬ Decides o w log other) ∧
          ¬ (losses log = [] ∧ p.isPending = true)) ∧
      ∀ past mo rest, log = past ++ mo :: rest →
        -- the application is told what the call is, or what was taken first
        (∀ limit, mo.answersTo w = [.error (.connackTimeout limit)] →
          mo.output.events = [.disconnected .connackTimeout]) ∧
        (∀ code, mo.answersTo w = [.error (.connectionRefused code)] →
          ∀ before fin after reason, rest = before ++ fin :: after → losses before = [] →
            reason ∈ fin.output.losses → reason = .connectionRefused code ∨
              (reason = .requested ∧
                ∃ m ∈ past ++ mo :: before ++ [fin], ∃ caller, m.act = .disconnect caller) ∨
              ∃ t c others, Trace (Takes o) (.opening w) past t ∧ t.connection? = some c ∧
                c.reasons = reason :: others) ∧
        ∀ t t', Trace (Takes o) (.opening w) past t → Takes o t mo t' →
          -- what is waited for is the answer to the CONNECT of the first connection
          (losses past = [] → ∀ sentAt, t.sentAt? = some sentAt → ∃ m ∈ past, m.act = .opened ∧
            m.now = sentAt ∧ m.output.packets = [o.connectPacket.toPacket]) ∧
          ∀ c, t.connection? = some c →
            ((c.session.handshake.state = .failed ∨
                ∃ sessionPresent, c.session.handshake.state = .accepted sessionPresent) →
              c.session.reset.1.handshake.state = c.session.handshake.state ∧
                ∀ c', t'.connection? = some c' →
                  c'.session.handshake.state = c.session.handshake.state) ∧
            ∀ header sessionPresent code,
              mo.act = .connection (.handle (.packet ⟨header, .connack sessionPresent code⟩)) →
                t.sentAt? = none → mo.output = {} ∧
                  t' = t.withConnection
                    (c.endReading (.protocolViolation .unexpectedConnack)) := by
  have heard := heard_of_trace run own
  have hlength : (answers w log).length ≤ 1 := by
    cases heard.stand <;> simp_all
  refine ⟨hlength, heard.stand.answers_eq_nil_iff, fun outcome => ⟨fun h => ?_, ?_⟩, ?_⟩
  · have hanswered : answers w log ≠ [] := by simp [h]
    by_cases hdecided : ∃ other, Decides o w log other
    · obtain ⟨other, hother⟩ := hdecided
      obtain rfl := List.singleton_inj.mp (h.symm.trans (heard.decided other hother))
      exact .inl hother
    · have hnone := not_exists.mp hdecided
      have hlost := h.symm.trans (heard.lost hnone hanswered)
      exact .inr ⟨List.singleton_inj.mp hlost, hnone,
        fun hpending => hanswered (heard.stand.answers_eq_nil_iff.mpr hpending)⟩
  · rintro (h | ⟨rfl, hnone, hsettled⟩)
    · exact heard.decided outcome h
    · exact heard.lost hnone fun h => hsettled (heard.stand.answers_eq_nil_iff.mp h)
  · rintro past mo rest rfl
    obtain ⟨t₁, t₂, hpast, htakes, hrest⟩ := run.middle
    have hown : mo.act.waiter? ≠ some w := own mo (by simp)
    have stand := (heard_of_trace hpast fun m hm => own m (by simp [hm])).stand
    refine ⟨fun limit h => stand.events_of_timeout htakes hown h, ?_, ?_⟩
    · rintro code h before fin after reason rfl hquiet hreason
      obtain ⟨t₃, t₄, hbefore, hfin, -⟩ := hrest.middle
      obtain hrefused | hrequested | ⟨c, others, hc, hfirst⟩ :=
        stand.reason_of_refused hpast htakes hown h hbefore hquiet hfin hreason
      · exact .inl hrefused
      · exact .inr (.inl hrequested)
      · exact .inr (.inr ⟨t₁, c, others, hpast, hc, hfirst⟩)
    · intro t t' ht htakes'
      obtain rfl := ht.unique hpast Takes.functional
      refine ⟨fun hfirst sentAt hsent => stand.sent hfirst hsent, fun c hc => ⟨fun settled => ?_, ?_⟩⟩
      · exact ⟨reset_of_settled settled,
          fun c' hc' => handshake_of_settled hc hc' htakes' settled⟩
      · exact fun header sessionPresent code hact hidle => violates_of_idle hc htakes' hidle hact

end Runs

/-- A connection is accepted and lost, opened again and refused. -/
def refusedAgain : List Moment :=
  [⟨0, .opened, .ofPackets [plainOptions.connectPacket.toPacket], false⟩,
    ⟨3, .connection (.handle (.packet (.ofBody (.connack true .accepted)))),
      { events := [.connected true], answers := [⟨7, .ok (.connected true)⟩] }, false⟩,
    ⟨5, .connection .readEnd, {}, false⟩,
    ⟨5, .observe, .ofEvent (.disconnected .transportClosed), false⟩,
    ⟨5005, .elapse, {}, true⟩,
    ⟨5006, .opened, .ofPackets [plainOptions.connectPacket.toPacket], false⟩,
    ⟨5009, .connection (.handle (.packet (.ofBody (.connack false .notAuthorized)))), {}, false⟩,
    ⟨5009, .observe, .ofEvent (.disconnected (.connectionRefused .notAuthorized)), false⟩]

theorem trace_refusedAgain : Trace (Takes plainOptions) (.opening 7) refusedAgain .ended := by
  let first : Connection := .fresh plainOptions (some 7) 0
  let accepted := first.withHandshake ⟨60000, .accepted true, none⟩
  let second : Connection := .fresh plainOptions none 5006
  let refused := second.withHandshake ⟨60000, .failed, none⟩
  exact .next (t := driving first 1000) ⟨rfl, drive_eq _ _ _⟩ <|
    .next (t := driving accepted 1000) ⟨⟨_, rfl, rfl⟩, rfl⟩ <|
    .next (t := driving (accepted.endReading .transportClosed) 1000) ⟨trivial, rfl⟩ <|
    .next (t := pausing 5005) ⟨trivial, rfl⟩ <|
    .next (t := reopening 0) ⟨fun _ _ h => (by cases h), rfl⟩ <|
    .next (t := driving second 6006) ⟨rfl, drive_eq _ _ _⟩ <|
    .next (t := driving (refused.endReading (.connectionRefused .notAuthorized)) 6006)
      ⟨⟨_, rfl, rfl⟩, rfl⟩ <|
    .next (t := ended) ⟨trivial, rfl⟩ <| .idle ended

theorem connect_answered_once_refusedAgain :
    Trace (Takes plainOptions) (.opening 7) refusedAgain .ended ∧
      (∀ mo ∈ refusedAgain, mo.act.waiter? ≠ some 7) ∧ (answers 7 refusedAgain).length ≤ 1 ∧
      answers 7 refusedAgain = [.ok (.connected true)] ∧
      Decides plainOptions 7 refusedAgain (.ok (.connected true)) := by
  have own : ∀ mo ∈ refusedAgain, mo.act.waiter? ≠ some 7 := by
    simp [refusedAgain, Act.waiter?, Connection.Act.waiter?]
  have hanswers : answers 7 refusedAgain = [.ok (.connected true)] := rfl
  obtain ⟨hone, -, houtcome, -⟩ := connect_answered_once trace_refusedAgain own
  obtain hdecides | ⟨hlost, -⟩ := (houtcome _).mp hanswers
  · exact ⟨trace_refusedAgain, own, hone, hanswers, hdecides⟩
  · cases hlost

end Phase

end Mqtt
