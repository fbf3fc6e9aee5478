import Mqtt.Proofs.Stage

/-!
# Outcomes of outgoing messages

Every message that is accepted is under way or has had exactly one outcome. The outcome is a
success when the acknowledgement came that ends the message, and a failure when a look at the
clock found its attempts used up; what happened since the message was accepted decides between
the two, and nothing else does.
-/
namespace Mqtt

/-- The outcome of a message that needs no acknowledgement. -/
def Trigger.immediate : Trigger → List Bool
  | .publish p => if p.delivery = .atMostOnce then [true] else []
  | _ => []

/-- Whether an event ends a message that waited for an acknowledgement. -/
def Event.settles : Event → Bool
  | .published id _ => id != 0
  | _ => false

def settled (log : List Moment) : List Event :=
  log.flatMap fun mo => mo.output.events.filter Event.settles

/-- Whether a PUBREC with the identifier was handled. -/
def released (x : UInt16) (log : List Moment) : Bool := log.any fun mo => mo.trigger = .pubrec x

namespace Outgoing

/-- Whether a trigger ends the message with the identifier `x`, and how, after what has happened
`since` the message was accepted. -/
def ends? (policy : RetryPolicy) (x : UInt16) (d : Delivery) (since : List Moment) (now : Time) :
    Trigger → Option Bool
  | .puback id => if d = .atLeastOnce x ∧ id = x then some true else none
  | .pubcomp id => if d = .exactlyOnce x ∧ id = x ∧ released x since = true then some true else none
  | .tick => if policy.isExhausted (attempts (carries x) since) now then some false else none
  | .publish _ | .pubrec _ | .pubrel _ | .reset => none

/-! ## Counting -/

section Count
variable {policy : RetryPolicy} {m m' : Outgoing} {now : Time}

theorem filter_settles_published {id : UInt16} (hid : id ≠ 0) (succeeded : Bool) :
    (Output.ofEvent (.published id succeeded)).events.filter Event.settles =
      [.published id succeeded] :=
  List.filter_cons_of_pos (by simpa [Event.settles] using hid)

theorem length_settles_passOutput {α : Type} [Exchange α] {t : RetryTable α} {order : List UInt16}
    (addressed : Addressed t) (hzero : t.get? 0 = none) (now : Time) :
    ((passOutput t now order).events.filter Event.settles).length =
      (order.filterMap fun id => (t.get? id).bind (Context.exhausted? t.policy now)).length := by
  -- none of the events is about zero, for nothing waits there
  have hall : (passOutput t now order).events.filter Event.settles =
      (passOutput t now order).events := by
    refine List.filter_eq_self.mpr fun e he => ?_
    simp only [passOutput, failures, Output.events_append, Output.ofPackets, Output.ofEvents,
      List.nil_append, List.mem_map, List.mem_filterMap, Option.bind_eq_some_iff] at he
    obtain ⟨c', ⟨id, -, c, hc, hc'⟩, rfl⟩ := he
    have hid : Exchange.id c'.exchange = id := by
      rw [Context.exchange_of_exhausted? hc']
      exact (addressed id c hc).1
    have hne : id ≠ 0 := by
      rintro rfl
      rw [hzero] at hc
      contradiction
    simp [Event.settles, hid, hne]
  rw [hall]
  simp [passOutput, failures, Output.ofPackets, Output.ofEvents]

/-- A pass tells of as many messages as leave the table. -/
theorem size_pass {α : Type} [Exchange α] {t : RetryTable α} {order : List UInt16}
    (addressed : Addressed t) (hzero : t.get? 0 = none) (h : order.Perm t.ids) (now : Time) :
    (t.tickInOrder true now order).state.size +
      ((passOutput t now order).events.filter Event.settles).length = t.size := by
  rw [length_settles_passOutput addressed hzero, RetryTable.size_tickInOrder h]

/-- A step that accepts `n` messages adds as many to those in flight and those that ended. -/
def Balanced (m : Outgoing) (n : Nat) (r : Step Outgoing ClientError Unit) : Prop :=
  r.state.inFlight + (r.output.events.filter Event.settles).length = m.inFlight + n

theorem balanced_publish {p : PublishPacket} (sound : m.Sound policy)
    (fresh : ∀ x, p.delivery.id? = some x → m.contains x = false) :
    Balanced m p.delivery.id?.toList.length (m.publish true p now) := by
  cases hd : p.delivery with
  | atMostOnce =>
    simp only [Outgoing.publish, hd, if_true]
    rfl
  | atLeastOnce id =>
    obtain ⟨s, hs⟩ := sound.stages id
    obtain rfl := hs.eq_idle (fresh id (by rw [hd]; rfl))
    have hsize := RetryTable.size_enqueue (⟨p, id⟩ : PublishExchange) now hs.puback
    simp only [Balanced, Outgoing.publish, hd, Step.inside, inFlight, hsize,
      RetryTable.events_enqueue, Delivery.id?, Option.toList_some, List.length_singleton,
      List.filter_nil, List.length_nil]
    omega
  | exactlyOnce id =>
    obtain ⟨s, hs⟩ := sound.stages id
    obtain rfl := hs.eq_idle (fresh id (by rw [hd]; rfl))
    have hsize := RetryTable.size_enqueue (⟨p, id⟩ : PublishExchange) now hs.pubrec
    simp only [Balanced, Outgoing.publish, hd, Step.inside, inFlight, hsize,
      RetryTable.events_enqueue, Delivery.id?, Option.toList_some, List.length_singleton,
      List.filter_nil, List.length_nil]
    omega

section Acknowledgements
variable {id : UInt16} {s : Stage}

theorem ne_zero_of_at (hzero : m.At 0 .idle) (hs : m.At id s) (hne : s ≠ .idle) : id ≠ 0 := by
  rintro rfl
  exact hne (hs.unique hzero)

theorem balanced_puback (hzero : m.At 0 .idle) (hs : m.At id s) :
    Balanced m 0 (.emit (m.puback id).1 (m.puback id).2) := by
  cases s with
  | puback c =>
    have hid := ne_zero_of_at hzero hs Stage.noConfusion
    have hsize := RetryTable.size_erase hs.puback
    rw [puback_of_some hs.puback]
    simp only [Balanced, Step.emit, filter_settles_published hid, inFlight, List.length_singleton]
    omega
  | idle | pubrec _ | pubcomp _ =>
    rw [puback_of_none hs.puback]
    rfl

theorem balanced_pubcomp (hzero : m.At 0 .idle) (hs : m.At id s) :
    Balanced m 0 (.emit (m.pubcomp id).1 (m.pubcomp id).2) := by
  cases s with
  | pubcomp c =>
    have hid := ne_zero_of_at hzero hs Stage.noConfusion
    have hsize := RetryTable.size_erase hs.pubcomp
    rw [pubcomp_of_some hs.pubcomp]
    simp only [Balanced, Step.emit, filter_settles_published hid, inFlight, List.length_singleton]
    omega
  | idle | puback _ | pubrec _ =>
    rw [pubcomp_of_none hs.pubcomp]
    rfl

/-- A message that is to be released goes from one table to another, or stays. -/
theorem balanced_pubrec (hs : m.At id s) : Balanced m 0 (m.pubrec true id now) := by
  cases s with
  | pubrec c =>
    have herase := RetryTable.size_erase hs.pubrec
    have hfree : m.awaitPubcomp.get? c.exchange.id = none := by
      rw [hs.named.1, hs.pubcomp]
      rfl
    have hsize := RetryTable.size_enqueue
      (⟨c.exchange.publish, c.exchange.id⟩ : ReleaseExchange) now hfree
    rw [Outgoing.pubrec, RetryTable.finalize_of_some hs.pubrec]
    simp only [Balanced, Context.exchange_finish, Step.inside, inFlight, hsize,
      RetryTable.events_enqueue, List.filter_nil, List.length_nil]
    omega
  | pubcomp c =>
    have herase := RetryTable.size_erase hs.pubcomp
    have hfree : (m.awaitPubcomp.erase id).get? c.exchange.id = none :=
      (RetryTable.get?_erase _ _ _).trans (if_pos hs.named.symm)
    have hsize := RetryTable.size_enqueueContext now hfree
    rw [Outgoing.pubrec, RetryTable.finalize_of_none hs.pubrec]
    simp only [Balanced, RetryTable.take_of_some hs.pubcomp, Step.inside, inFlight, hsize,
      RetryTable.events_enqueueContext, List.filter_nil, List.length_nil]
    omega
  | idle | puback _ =>
    rw [Outgoing.pubrec, RetryTable.finalize_of_none hs.pubrec]
    simp only [RetryTable.take_of_none hs.pubcomp]
    rfl

end Acknowledgements

theorem balanced_tick {first second third : List UInt16} (sound : m.Sound policy)
    (hzero : m.At 0 .idle) (hfirst : first.Perm m.awaitPuback.ids)
    (hsecond : second.Perm m.awaitPubrec.ids) (hthird : third.Perm m.awaitPubcomp.ids) :
    Balanced m 0 (m.tickInOrder true now first second third) := by
  obtain ⟨hpuback, hpubrec, hpubcomp⟩ := sound.addressed
  have h₁ := size_pass hpuback hzero.puback hfirst now
  have h₂ := size_pass hpubrec hzero.pubrec hsecond now
  have h₃ := size_pass hpubcomp hzero.pubcomp hthird now
  rw [tickInOrder_eq hfirst hsecond hthird]
  simp only [Balanced, inFlight, Output.events_append, List.filter_append, List.length_append]
  omega

theorem Takes.balanced {a : Trigger} {r : Step Outgoing ClientError Unit} (takes : m.Takes now a r)
    (sound : m.Sound policy) (hzero : m.At 0 .idle) : Balanced m a.opens?.toList.length r := by
  cases takes with
  | publish fresh => exact balanced_publish sound fresh
  | puback id => exact balanced_puback hzero (sound.stages id).choose_spec
  | pubrec id => exact balanced_pubrec (sound.stages id).choose_spec
  | pubcomp id => exact balanced_pubcomp hzero (sound.stages id).choose_spec
  | tick hfirst hsecond hthird => exact balanced_tick sound hzero hfirst hsecond hthird

/-- A run accepts as many messages as are in flight or ended. -/
theorem count_of_run {log : List Moment} (run : Run Takes m log m') (sound : m.Sound policy)
    (hzero : m.At 0 .idle) (hlog : 0 ∉ opened log) :
    m'.inFlight + (settled log).length = m.inFlight + (opened log).length := by
  induction run with
  | idle => rfl
  | @next m m' now a r rest first tail ih =>
    obtain ⟨ha, hrest⟩ := not_mem_opened_cons.mp hlog
    have hidle := (Stage.act_of_not_minds policy now (s := .idle) ha id).1
    have hnext : r.state.At 0 .idle := hidle ▸ (first.follows sound hzero).stage
    have hcount : r.state.inFlight + _ = m.inFlight + _ := first.balanced sound hzero
    have htail := ih (first.sound sound) hnext hrest
    simp only [settled, List.flatMap_cons, List.length_append, length_opened_cons] at htail hcount ⊢
    omega

end Count

/-! ## One message -/

section Released
variable {x : UInt16} {since : List Moment} {mo : Moment}

theorem released_of_ne (ha : mo.trigger ≠ .pubrec x) :
    released x (since ++ [mo]) = released x since := by
  simp [released, ha]

theorem released_of_released (h : released x since = true) : released x (since ++ [mo]) = true := by
  rw [released, List.any_append, Bool.or_eq_true]
  exact .inl h

theorem released_of_eq (ha : mo.trigger = .pubrec x) : released x (since ++ [mo]) = true := by
  simp [released, ha]

end Released

/-- An exchange waits for an acknowledgement: its attempts are those that were seen, and no outcome
was told. -/
structure Waits {α : Type} (c : Context α) (x : UInt16) (since : List Moment) : Prop where
  outcomes : outcomes x since = []
  records : c.Records (attempts (carries x) since)

namespace Waits
variable {α : Type} {c : Context α} {policy : RetryPolicy} {x : UInt16} {since : List Moment}
  {mo : Moment}

theorem quiet (h : Waits c x since) (packets : mo.output.packetsOf x = [])
    (outcomes : mo.output.outcomesOf x = []) : Waits c x (since ++ [mo]) where
  outcomes := by rw [outcomes_concat, h.outcomes, outcomes]; rfl
  records := by rw [attempts_of_quiet packets]; exact h.records

theorem restart (since : List Moment) {q : Packet} (h : Mqtt.outcomes x since = [])
    (ha : mo.trigger ≠ .tick) (packets : mo.output.packetsOf x = [q])
    (outcomes : mo.output.outcomesOf x = []) : Waits (c.restart mo.now) x (since ++ [mo]) where
  outcomes := by rw [outcomes_concat, h, outcomes]; rfl
  records := by rw [attempts_of_restart packets ha]; exact c.records_restart mo.now

theorem ends {b : Bool} (h : Waits c x since) (outcomes : mo.output.outcomesOf x = [b]) :
    (Mqtt.outcomes x (since ++ [mo])).length = 1 := by
  rw [outcomes_concat, h.outcomes, outcomes]
  rfl

/-- A look at the clock keeps the exchange waiting, or gives it up and tells so. -/
theorem look [Exchange α] {stage : Context α → Stage} {P : Stage → Prop} (h : Waits c x since)
    (ha : mo.trigger = .tick) (shown : Shown (Stage.look policy mo.now stage c) x mo.output)
    (kept : ∀ c', Waits c' x (since ++ [mo]) → P (stage c'))
    (gone : (Mqtt.outcomes x (since ++ [mo])).length = 1 → P .idle) :
    P (Stage.look policy mo.now stage c).stage := by
  obtain ⟨packets, outcomes⟩ := shown
  cases hv : c.verdict policy mo.now with
  | waits =>
    rw [Stage.look_of_waits hv] at packets outcomes ⊢
    exact kept c (h.quiet packets outcomes)
  | overdue =>
    rw [Stage.look_of_overdue hv] at packets outcomes ⊢
    refine kept _ ⟨?_, ?_⟩
    · rw [outcomes_concat, h.outcomes, outcomes]
      rfl
    · rw [attempts_of_resend packets ha]
      exact h.records.resend
  | exhausted =>
    rw [Stage.look_of_exhausted hv] at outcomes ⊢
    exact gone (h.ends outcomes)

end Waits

/-- Where the message `p` stands under `x`, by what happened `since` it was accepted. -/
def Tells (p : PublishPacket) (x : UInt16) (since : List Moment) : Stage → Prop
  | .idle => (outcomes x since).length = 1
  | .puback c => Waits c x since ∧ p.delivery = .atLeastOnce x
  | .pubrec c => Waits c x since ∧ p.delivery = .exactlyOnce x ∧ released x since = false
  | .pubcomp c => Waits c x since ∧ p.delivery = .exactlyOnce x ∧ released x since = true

section Message
variable {policy : RetryPolicy} {p : PublishPacket} {x : UInt16} {since : List Moment} {s : Stage}
  {mo : Moment} {now : Time} {a : Trigger}

theorem Tells.quiet (h : Tells p x since s) (shown : Shown s.quiet x mo.output)
    (ha : mo.trigger = .pubrec x → s.pubrec? = none) : Tells p x (since ++ [mo]) s := by
  obtain ⟨packets, houtcomes⟩ := shown
  cases s with
  | idle =>
    rw [Tells, outcomes_concat, houtcomes]
    exact (congrArg List.length (List.append_nil _)).trans h
  | puback c => exact ⟨h.1.quiet packets houtcomes, h.2⟩
  | pubrec c =>
    have hne : mo.trigger ≠ .pubrec x := fun heq => Option.some_ne_none c (ha heq)
    exact ⟨h.1.quiet packets houtcomes, h.2.1, (released_of_ne hne).trans h.2.2⟩
  | pubcomp c => exact ⟨h.1.quiet packets houtcomes, h.2.1, released_of_released h.2.2⟩

theorem begins_tells {e : Moment} (he : e.trigger = .publish p) (hp : p.delivery.id? = some x) :
    Begins policy x e (Tells p x) := by
  intro shown
  have hne : e.trigger ≠ .tick := by simp [he]
  rw [he] at shown ⊢
  cases hd : p.delivery with
  | atMostOnce => simp [hd, Delivery.id?] at hp
  | atLeastOnce id =>
    obtain rfl : id = x := by simpa [hd, Delivery.id?] using hp
    simp only [Stage.act, hd, if_true] at shown ⊢
    exact ⟨.restart [] rfl hne shown.packets shown.outcomes, hd⟩
  | exactlyOnce id =>
    obtain rfl : id = x := by simpa [hd, Delivery.id?] using hp
    simp only [Stage.act, hd, if_true] at shown ⊢
    exact ⟨.restart [] rfl hne shown.packets shown.outcomes, hd, by simp [released, he]⟩

theorem persists_tells (hx : x ≠ 0) : Persists policy x (Tells p x) := by
  intro since s mo h _ ha shown
  by_cases hminds : s.Minds x mo.trigger
  · generalize hmo : mo.trigger = a at hminds shown ⊢
    cases s with
    | idle => exact hminds.elim
    | puback c =>
      obtain ⟨hwaits, hdelivery⟩ := h
      obtain rfl | rfl := hminds
      · rw [Stage.act, if_pos rfl] at shown ⊢
        exact hwaits.ends shown.outcomes
      · exact hwaits.look hmo shown (fun c' hc' => ⟨hc', hdelivery⟩) id
    | pubrec c =>
      obtain ⟨hwaits, hdelivery, hreleased⟩ := h
      obtain rfl | rfl := hminds
      · rw [Stage.act, if_pos rfl] at shown ⊢
        have hne : mo.trigger ≠ .tick := by simp [hmo]
        exact ⟨.restart since hwaits.outcomes hne shown.packets shown.outcomes, hdelivery,
          released_of_eq hmo⟩
      · have hne : mo.trigger ≠ .pubrec x := by simp [hmo]
        have hkeep : released x (since ++ [mo]) = false := (released_of_ne hne).trans hreleased
        exact hwaits.look hmo shown (fun c' hc' => ⟨hc', hdelivery, hkeep⟩) id
    | pubcomp c =>
      obtain ⟨hwaits, hdelivery, hreleased⟩ := h
      obtain rfl | rfl | rfl := hminds
      · rw [Stage.act, if_pos rfl] at shown ⊢
        have hne : mo.trigger ≠ .tick := by simp [hmo]
        exact ⟨.restart since hwaits.outcomes hne shown.packets shown.outcomes, hdelivery,
          released_of_eq hmo⟩
      · rw [Stage.act, if_pos rfl] at shown ⊢
        exact hwaits.ends shown.outcomes
      · have hkeep : released x (since ++ [mo]) = true := released_of_released hreleased
        exact hwaits.look hmo shown (fun c' hc' => ⟨hc', hdelivery, hkeep⟩) id
  · obtain ⟨hstage, hpackets, houtcomes⟩ := Stage.act_of_not_minds policy mo.now ha hminds
    rw [hstage]
    refine h.quiet ⟨shown.packets.trans hpackets, shown.outcomes.trans (houtcomes hx)⟩ fun heq => ?_
    cases s with
    | pubrec c => exact absurd (.inl heq) hminds
    | idle | puback c | pubcomp c => rfl

theorem Waits.outcomes_look {α : Type} [Exchange α] {c : Context α} {stage : Context α → Stage}
    (h : Waits c x since) (d : Delivery) :
    (Stage.look policy now stage c).outcomes = (ends? policy x d since now .tick).toList := by
  have hverdict := h.records.verdict_eq_exhausted_iff policy now
  by_cases hv : c.verdict policy now = .exhausted
  · rw [Stage.look_of_exhausted hv, ends?, if_pos (hverdict.mp hv)]
    rfl
  · rw [ends?, if_neg (mt hverdict.mpr hv)]
    cases hc : c.verdict policy now with
    | waits => rw [Stage.look_of_waits hc]; rfl
    | overdue => rw [Stage.look_of_overdue hc]; rfl
    | exhausted => exact absurd hc hv

theorem ends?_of_not_minds (h : Tells p x since s) (hnone : outcomes x since = [])
    (hminds : ¬ s.Minds x a) : ends? policy x p.delivery since now a = none := by
  cases s with
  | idle => simp [Tells, hnone] at h
  | puback c =>
    obtain ⟨-, hdelivery⟩ := h
    cases a <;> simp_all [Stage.Minds, ends?]
  | pubrec c =>
    obtain ⟨-, hdelivery, hreleased⟩ := h
    cases a <;> simp_all [Stage.Minds, ends?]
  | pubcomp c =>
    obtain ⟨-, hdelivery, hreleased⟩ := h
    cases a <;> simp_all [Stage.Minds, ends?]

/-- What has happened since a message was accepted decides whether a step ends it, and how. -/
theorem Tells.outcomes_eq (h : Tells p x since s) (hnone : outcomes x since = []) (hx : x ≠ 0)
    (ha : a.opens? ≠ some x) :
    (s.act policy x now a).outcomes = (ends? policy x p.delivery since now a).toList := by
  by_cases hminds : s.Minds x a
  · cases s with
    | idle => exact hminds.elim
    | puback c =>
      obtain ⟨hwaits, hdelivery⟩ := h
      obtain rfl | rfl := hminds
      · simp [Stage.act, ends?, hdelivery]
      · exact hwaits.outcomes_look p.delivery
    | pubrec c =>
      obtain ⟨hwaits, -⟩ := h
      obtain rfl | rfl := hminds
      · simp [Stage.act, ends?]
      · exact hwaits.outcomes_look p.delivery
    | pubcomp c =>
      obtain ⟨hwaits, hdelivery, hreleased⟩ := h
      obtain rfl | rfl | rfl := hminds
      · simp [Stage.act, ends?]
      · simp [Stage.act, ends?, hdelivery, hreleased]
      · exact hwaits.outcomes_look p.delivery
  · obtain ⟨-, -, houtcomes⟩ := Stage.act_of_not_minds policy now ha hminds
    rw [houtcomes hx, ends?_of_not_minds h hnone hminds]
    rfl

end Message

/-! ## Every message -/

section Log
variable {policy : RetryPolicy} {m : Outgoing} {log : List Moment}

theorem at_zero_of_run (run : Run Takes (.new policy) log m) (hlog : 0 ∉ opened log) :
    m.At 0 .idle := by
  have persists : Persists policy 0 fun _ s => s = .idle := by
    rintro since s mo rfl - ha -
    exact (Stage.act_of_not_minds policy mo.now ha id).1
  obtain ⟨-, s, hs, rfl⟩ := persists.of_run [] run (sound_new policy) (at_new policy 0) rfl hlog
  exact hs

theorem outcomes_idle_zero {now : Time} {a : Trigger} (ha : a.opens? ≠ some 0) :
    (Stage.idle.act policy 0 now a).outcomes = a.immediate := by
  cases a with
  | publish p =>
    cases hd : p.delivery with
    | atMostOnce => simp [Stage.act, Trigger.immediate, hd]
    | atLeastOnce id | exactlyOnce id =>
      have hid : id ≠ 0 := by
        rintro rfl
        exact ha (by rw [Trigger.opens?, hd]; rfl)
      simp [Stage.act, Trigger.immediate, hd, hid, Stage.quiet]
  | _ => rfl

section One
variable {past life : List Moment} {e : Moment} {p : PublishPacket} {x : UInt16}

theorem outcomesOf_accepted (run : Run Takes (.new policy) (past ++ e :: life) m)
    (he : e.trigger = .publish p) (hp : p.delivery.id? = some x) : e.output.outcomesOf x = [] := by
  obtain ⟨m₁, r, hpast, htakes, houtput, -⟩ := run.middle
  have sound := sound_of_run hpast
  obtain ⟨s, hs⟩ := sound.stages x
  rw [← houtput, (htakes.follows sound hs).shown.outcomes, he, Stage.outcomes_act_publish hp]

theorem Tells.contains_iff {since : List Moment} {s : Stage} (h : Tells p x since s)
    (hs : m.At x s) :
    (outcomes x since).length ≤ 1 ∧ (m.contains x = true ↔ outcomes x since = []) := by
  rw [hs.contains_iff]
  cases s with
  | idle =>
    have hone : (outcomes x since).length = 1 := h
    refine ⟨Nat.le_of_eq hone, by simp, fun hnil => ?_⟩
    rw [hnil] at hone
    contradiction
  | puback c | pubrec c | pubcomp c => simp [h.1.outcomes]

theorem outcomesOf_of_run {before after : List Moment} {mo : Moment}
    (run : Run Takes (.new policy) (past ++ e :: (before ++ mo :: after)) m)
    (he : e.trigger = .publish p) (hp : p.delivery.id? = some x) (hzero : x ≠ 0)
    (hx : x ∉ opened (before ++ mo :: after)) (hnone : outcomes x (e :: before) = []) :
    mo.output.outcomesOf x =
      (ends? policy x p.delivery (e :: before) mo.now mo.trigger).toList := by
  obtain ⟨ha, s, -, htells, shown⟩ :=
    (persists_tells hzero).turn run he hp (begins_tells he hp) hx
  rw [shown.outcomes, htells.outcomes_eq hnone hzero ha]

end One

/-- Every message that is accepted has one outcome: at once if it needs no acknowledgement, and
otherwise when what has happened since then ends it. -/
theorem one_outcome (run : Run Takes (.new policy) log m) (hlog : 0 ∉ opened log) :
    (∀ mo ∈ log, mo.result = .ok () ∧ mo.output.outcomesOf 0 = mo.trigger.immediate) ∧
      (opened log).length = m.inFlight + (settled log).length ∧
      ∀ past e life p x, log = past ++ e :: life → e.trigger = .publish p →
        p.delivery.id? = some x → x ∉ opened life →
          (outcomes x (e :: life)).length ≤ 1 ∧
            (m.contains x = true ↔ outcomes x (e :: life) = []) ∧
            e.output.outcomesOf x = [] ∧
            ∀ before mo after, life = before ++ mo :: after → outcomes x (e :: before) = [] →
              mo.output.outcomesOf x =
                (ends? policy x p.delivery (e :: before) mo.now mo.trigger).toList := by
  refine ⟨fun mo hmo => ?_, ?_, ?_⟩
  · obtain ⟨past, rest, rfl⟩ := List.append_of_mem hmo
    obtain ⟨m₁, r, hpast, htakes, houtput, hresult, -⟩ := run.middle
    rw [opened_append, List.mem_append, not_or, not_mem_opened_cons] at hlog
    have hidle := at_zero_of_run hpast hlog.1
    refine ⟨hresult ▸ htakes.result, ?_⟩
    rw [← houtput, (htakes.follows (sound_of_run hpast) hidle).shown.outcomes,
      outcomes_idle_zero hlog.2.1]
  · -- the tables of a new machine are empty
    have hcount := count_of_run run (sound_new policy) (at_new policy 0) hlog
    rw [hcount]
    exact (Nat.zero_add _).symm
  · rintro past e life p x rfl he hp hx
    have hzero : x ≠ 0 := by
      rintro rfl
      rw [opened_append, List.mem_append, not_or, not_mem_opened_cons] at hlog
      exact hlog.2.1 (by rw [he]; exact hp)
    obtain ⟨s, hs, htells⟩ :=
      (persists_tells hzero).of_message run he hp (begins_tells he hp) hx
    obtain ⟨hone, hcontains⟩ := htells.contains_iff hs
    refine ⟨hone, hcontains, outcomesOf_accepted run he hp, ?_⟩
    rintro before mo after rfl hnone
    exact outcomesOf_of_run run he hp hzero hx hnone

end Log

/-- A message that is delivered exactly once; its PUBLISH and its PUBREL are both written twice. -/
def handshake : List Moment :=
  let p : PublishPacket := .new ⟨"out", by decide⟩ (.exactlyOnce 7) [1]
  [⟨0, .publish p, .ofPackets [(p.setDup false).toPacket], .ok ()⟩,
    ⟨6, .tick, .ofPackets [(p.setDup true).toPacket], .ok ()⟩,
    ⟨7, .pubrec 7, .ofPackets [.ofBody (.pubrel 7)], .ok ()⟩,
    ⟨13, .tick, .ofPackets [.ofBody (.pubrel 7)], .ok ()⟩,
    ⟨14, .pubcomp 7, .ofEvent (.published 7 true), .ok ()⟩]

theorem run_handshake : ∃ m, Run Takes (.new ⟨5, 2⟩) handshake m :=
  ⟨_, .step (.publish fun _ _ => rfl) rfl rfl <|
    .step (takes_tick _ _) rfl rfl <|
    .step (.pubrec 7) rfl rfl <|
    .step (takes_tick _ _) rfl rfl <|
    .step (.pubcomp 7) rfl rfl <|
    .idle _⟩

theorem one_outcome_handshake :
    ∃ m, Run Takes (.new ⟨5, 2⟩) handshake m ∧ 0 ∉ opened handshake ∧ m.inFlight = 0 ∧
      m.contains 7 = false ∧ outcomes 7 handshake = [true] ∧
      [true] = (ends? ⟨5, 2⟩ 7 (.exactlyOnce 7) (handshake.take 4) 14 (.pubcomp 7)).toList := by
  obtain ⟨m, run⟩ := run_handshake
  have hzero : 0 ∉ opened handshake := by decide
  obtain ⟨-, hcount, hmessages⟩ := one_outcome run hzero
  have hsettled : (settled handshake).length = 1 := by decide
  have hflight : m.inFlight = 0 := by
    rw [hsettled, show (opened handshake).length = 1 by decide] at hcount
    omega
  obtain ⟨-, hcontains, -, hends⟩ :=
    hmessages [] _ handshake.tail _ 7 rfl rfl rfl (by decide)
  have hone : outcomes 7 handshake = [true] := by decide
  have hlast := hends (handshake.tail.take 3) _ [] rfl (by decide)
  refine ⟨m, run, hzero, hflight, ?_, hone, hlast⟩
  rw [← Bool.not_eq_true, hcontains]
  exact List.cons_ne_nil _ _ ∘ hone.symm.trans

end Outgoing

end Mqtt
