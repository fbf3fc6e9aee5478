import Mqtt.Proofs.Wish

/-!
# The end that was asked for

From the step that takes a wish to disconnect on, the request closes its connection, if it has one,
and ends. DISCONNECT goes behind what is in the queue, the transport is not opened again, and
nothing comes after the end that the application is told.
-/
namespace Mqtt

namespace Phase

/-- The answer to CONNECT that an act hands over. -/
def Act.connack? : Act → Option (Except ClientError Reply)
  | connection (.handle (.packet q)) =>
    match q.body with
    | .connack sessionPresent code =>
      some (if code.isAccepted then .ok (.connected sessionPresent)
        else .error (.connectionRefused code))
    | _ => none
  | connection _ | opened | refused _ | disconnect _ | observe | tick _ | elapse => none

/-! ## From the wish on -/

/-- What the application has seen of a connection since it was to be closed. -/
inductive Closes (since : List Moment) : Phase → Prop
  | flushes {c : Connection} {deadline : Time} {caller : Option Waiter}
      (quiet : losses since = []) : Closes since (.closing c deadline caller)
  | closed (loss : losses since = [.requested])
      (last : (events since).getLast? = some (.disconnected .requested)) : Closes since .ended

/-- What the call that asked for the connection is told when it still waits at a wish to disconnect:
what a CONNACK says that comes while the connection closes, or that the connection is lost. -/
def lastWord (since : List Moment) (p : Phase) : List (Except ClientError Reply) :=
  match since.findSome? (·.act.connack?) with
  | some outcome => [outcome]
  | none => if p.isEnded then [.error .connectionLost] else []

section Leaving
variable {o : Options} {caller : Option Waiter} {p p' : Phase} {c c' : Connection} {r r' : Wished}
  {mo : Moment} {log since earlier : List Moment} {now deadline sentAt : Time} {w : Waiter}
  {a : Act}

theorem Closes.step (closes : Closes since p) (takes : Takes o p mo p') :
    Closes (since ++ [mo]) p' := by
  cases closes with
  | flushes quiet =>
    obtain ⟨-, ⟨hlosses, c', rfl⟩ | ⟨houtput, rfl⟩⟩ := step_closing takes
    · exact .flushes (losses_quiet quiet hlosses)
    · have hlast : mo.output.events = [.disconnected .requested] := by rw [houtput]; rfl
      refine .closed ?_ ?_
      · rw [losses_append, quiet, losses_singleton, houtput]
        rfl
      · rw [events_append, events_cons, hlast]
        exact List.getLast?_concat
  | closed loss last =>
    obtain ⟨rfl, houtput, -⟩ := step_ended takes
    refine .closed ?_ ?_
    · rw [losses_append, loss, losses_singleton, houtput]
      rfl
    · rw [events_append, events_cons, houtput]
      exact (congrArg List.getLast? (List.append_nil _)).trans last

theorem connack?_eq_none (allowed : p.Allows a) (gone : p.connection? = none) :
    a.connack? = none := by
  cases a with
  | connection a =>
    cases a with
    | handle item =>
      obtain ⟨c, hc, -⟩ := allowed
      cases gone.symm.trans hc
    | _ => rfl
  | _ => rfl

/-- While a connection closes nothing but a CONNACK decides about the call. -/
theorem verdict?_of_closing (allowed : (closing c deadline caller).Allows a)
    (waits : (closing c deadline caller).sentAt? = some sentAt) :
    (closing c deadline caller).verdict? o now a = a.connack? := by
  cases a with
  | connection a =>
    cases a with
    | handle item =>
      cases item with
      | packet q =>
        obtain ⟨header, body⟩ := q
        cases body with
        | connack sessionPresent code => rw [verdict?, waits]; rfl
        | _ => rfl
      | error e => rfl
    | _ => rfl
  | tick orders =>
    obtain ⟨c, nextTick, h, -⟩ := allowed
    cases h
  | refused fault => cases allowed
  | opened | disconnect | observe | elapse => rfl

theorem Awaits.pending (awaits : Awaits o w sentAt (.closing c deadline caller) c)
    (takes : Takes o (.closing c deadline caller) mo (.closing c' deadline caller))
    (own : mo.act.waiter? ≠ some w)
    (undecided : (closing c deadline caller).verdict? o mo.now mo.act = none) :
    (closing c' deadline caller).isPending = true := by
  have hhandshake : c'.session.handshake = c.session.handshake := by
    have hchange := takes.change
    obtain ⟨now, act, output, dials⟩ := mo
    dsimp only at hchange own undecided
    generalize hp' : closing c' deadline caller = q at hchange
    cases hchange with
    | rests => cases hp'; rfl
    | @works _ k a hk =>
      cases hk
      cases hp'
      have replies := awaits.replies_act now a own
      rw [undecided] at replies
      cases replies with
      | silent handshake => exact handshake
    | ends hends =>
      cases hends with
      | closed =>
        rw [phase_tearDown_requested] at hp'
        cases hp'
    | stops | dials => cases hp'
  rw [isPending, sentAt?, connection?, Option.bind_some, hhandshake, awaits.handshake]
  rfl

/-- What a step of a connection that closes tells a call that still waits. -/
theorem told_closing (stand : Stand o w log (.closing c deadline caller))
    (unanswered : answers w log = []) (takes : Takes o (.closing c deadline caller) mo p')
    (own : mo.act.waiter? ≠ some w) : mo.answersTo w = lastWord [mo] p' := by
  have hanswers := (stand.step takes own).1
  rw [if_pos unanswered, told] at hanswers
  cases stand with
  | @awaits _ k sentAt awaits =>
    obtain rfl : c = k := Option.some.inj awaits.connection
    have hverdict : (closing c deadline caller).verdict? o mo.now mo.act = mo.act.connack? :=
      verdict?_of_closing takes.1 awaits.sentAt?_eq
    rw [hanswers, hverdict, lastWord, List.findSome?_singleton]
    cases hconnack : mo.act.connack? with
    | some outcome => rfl
    | none =>
      rw [hconnack] at hverdict
      obtain ⟨-, ⟨-, c', rfl⟩ | ⟨-, rfl⟩⟩ := step_closing takes
      · exact if_pos (awaits.pending takes own hverdict)
      · rfl
  | settled _ answered => cases answered.symm.trans unanswered

/-- How the call that asked for the connection stands since a wish was taken. -/
structure Since (o : Options) (w : Waiter) (caller : Option Waiter) (deadline : Time)
    (earlier since : List Moment) (p : Phase) : Prop where
  leaves : Leaves deadline caller p
  stand : Stand o w (earlier ++ since) p
  answers : answers w (earlier ++ since) = lastWord since p

theorem lastWord_concat (since : List Moment) (mo : Moment) (p : Phase) :
    lastWord (since ++ [mo]) p =
      match since.findSome? (·.act.connack?) with
      | some outcome => [outcome]
      | none => lastWord [mo] p := by
  rw [lastWord, List.findSome?_append]
  cases since.findSome? (·.act.connack?) <;> rfl

theorem Since.step (h : Since o w caller deadline earlier since p) (takes : Takes o p mo p')
    (own : mo.act.waiter? ≠ some w) : Since o w caller deadline earlier (since ++ [mo]) p' := by
  obtain ⟨leaves, stand, hsince⟩ := h
  obtain ⟨hanswers, hstand⟩ := stand.step takes own
  refine ⟨(leaves.step takes).2, List.append_assoc .. ▸ hstand, ?_⟩
  rw [← List.append_assoc, answers_append, answers_singleton, lastWord_concat]
  rw [lastWord] at hsince
  cases hword : since.findSome? (·.act.connack?) with
  | some outcome =>
    -- the first CONNACK has decided
    rw [hword] at hsince
    rw [hsince, hanswers, hsince, if_neg (List.cons_ne_nil _ _)]
    rfl
  | none =>
    rw [hword] at hsince
    cases leaves with
    | closing c =>
      rw [hsince]
      exact told_closing stand hsince takes own
    | ended =>
      obtain ⟨rfl, houtput, -⟩ := step_ended takes
      have hnone := connack?_eq_none takes.1 rfl
      rw [hsince, Moment.answersTo, houtput, lastWord, List.findSome?_singleton, hnone]
      rfl

/-- The step that takes the wish leaves the call waiting only for a CONNECT that is not answered. -/
theorem since_of_taken (stand : Stand o w earlier p) (unanswered : answers w earlier = [])
    (takes : Takes o p mo p') (own : mo.act.waiter? ≠ some w) (listens : p.listens = true)
    (act : mo.act = .disconnect caller) :
    Since o w caller (mo.now + o.retryDelay) earlier [mo] p' := by
  have hheeding := (takes.heeding listens act).2
  obtain ⟨hanswers, hstand⟩ := stand.step takes own
  have hpending := (stand.answers_eq_nil_iff.mp unanswered).2
  have hword : lastWord [mo] p' = if p'.isEnded then [.error .connectionLost] else [] := by
    rw [lastWord, List.findSome?_singleton, act]
    rfl
  rw [if_pos unanswered, told, act] at hanswers
  refine ⟨hheeding.leaves, hstand, ?_⟩
  rw [answers_append, answers_singleton, unanswered, hword, List.nil_append, hanswers]
  generalize mo.output = output at hheeding
  cases hheeding with
  | closes => exact if_pos hpending
  | stuck | cancels | stops => rfl

theorem losses_of_connection {a : Connection.Act} (takes : Takes o p mo p')
    (act : mo.act = .connection a) : mo.output.losses = [] := by
  cases hp : p.connection? with
  | none =>
    have hstep := takes.2
    rw [act, step, hp] at hstep
    have houtput : ({} : Output) = mo.output := congrArg Turn.output hstep
    exact houtput ▸ rfl
  | some c =>
    rw [(takes.connection hp act).2]
    exact c.losses_act mo.now a

/-- Who still waits when a connection goes is told that it is lost, unless it goes because the
answer to CONNECT is late. -/
theorem Stand.lost (stand : Stand o w log p) (unanswered : answers w log = [])
    (takes : Takes o p mo p') (own : mo.act.waiter? ≠ some w) (loss : mo.output.losses ≠ []) :
    mo.answersTo w = [.error .connectionLost] ∨
      (∃ orders, mo.act = .tick orders) ∧
        mo.answersTo w = [.error (.connackTimeout o.connackTimeout)] := by
  obtain ⟨hanswers, hstand⟩ := stand.step takes own
  rw [if_pos unanswered, told] at hanswers
  cases hverdict : p.verdict? o mo.now mo.act with
  | none =>
    have hpending : p'.isPending ≠ true := by
      intro h
      rw [hverdict] at hanswers
      have hquiet := answers_quiet unanswered (hanswers.trans (if_pos h))
      have hnone := (hstand.answers_eq_nil_iff.mp hquiet).1
      rw [losses_append, List.append_eq_nil_iff, losses_singleton] at hnone
      exact loss hnone.2
    rw [hverdict] at hanswers
    exact .inl (hanswers.trans (if_neg hpending))
  | some outcome =>
    rw [hverdict] at hanswers
    have hdecided := verdict_of_eq_some hverdict
    generalize hact : mo.act = act at hdecided
    cases hdecided with
    | accepted | refused => exact absurd (losses_of_connection takes hact) loss
    | late => exact .inr ⟨⟨_, rfl⟩, hanswers⟩
    | @unreachable fault opening =>
      obtain ⟨v, rfl⟩ : ∃ v, p = .opening v := by
        cases p <;> first | exact ⟨_, rfl⟩ | cases opening
      have hstep := takes.2
      rw [hact] at hstep
      have houtput : Output.ofAnswers [⟨v, .error (.transport fault)⟩] = mo.output :=
        congrArg Turn.output hstep
      exact absurd (houtput ▸ rfl) loss

theorem Takes.ended_of_ready (takes : Takes o p mo p') (leaves : Leaves deadline caller p)
    (ready : Ready mo.now p mo.act) : p' = .ended := by
  obtain ⟨-, hstep⟩ := takes
  generalize mo.act = act at hstep ready
  have hphase := congrArg Turn.phase hstep
  dsimp only at hphase
  subst hphase
  cases leaves with
  | closing c =>
    cases ready with
    | written h =>
      rw [step, observe, if_pos h]
      exact phase_tearDown_requested o c caller mo.now
    | elapse hdue reached =>
      obtain rfl := Option.some.inj hdue
      rw [step, elapse, if_neg (Nat.not_lt.mpr reached)]
      exact phase_tearDown_requested o c caller mo.now
    | opened h | refused h | disconnect h => cases h
  | ended =>
    cases ready with
    | opened h | refused h | disconnect h | elapse h => cases h

theorem takes_step (o : Options) (now : Time) (allowed : p.Allows a) :
    Takes o p ⟨now, a, (p.step o now a).output, (p.step o now a).dials⟩ (p.step o now a).phase :=
  ⟨allowed, rfl⟩

theorem Heeds.taken (run : Trace (Heeds o caller) r log r') (taken : r.wish = .taken) :
    r'.wish = .taken := by
  refine run.preserves (P := fun r => r.wish = .taken) taken ?_
  intro s mo t hs h
  cases h with
  | takes => cases hs
  | @goesOn _ _ wish =>
    cases wish with
    | taken => rfl
    | posted | dropped => cases hs

theorem Leaves.trace (leaves : Leaves deadline caller p) (run : Trace (Takes o) p log p') :
    Leaves deadline caller p' ∧ ∀ mo ∈ log, mo.dials = false := by
  refine run.history (P := fun log p => Leaves deadline caller p ∧ ∀ mo ∈ log, mo.dials = false)
    ⟨leaves, List.forall_mem_nil _⟩ ?_
  rintro past p mo p' ⟨hleaves, hpast⟩ takes
  obtain ⟨hdials, hleaves'⟩ := hleaves.step takes
  exact ⟨hleaves', List.forall_mem_append.mpr ⟨hpast, List.forall_mem_singleton.mpr hdials⟩⟩

end Leaving

/-! ## The end that was asked for -/

/-- What comes of a wish that is taken while a connection is driven: DISCONNECT is the last packet
of the queue, unless the writer has stopped, and its end is the last that the application is told. -/
structure Flushed (o : Options) (caller : Option Waiter) (earlier : List Moment) (c : Connection)
    (take : Moment) (t : Phase) (after : List Moment) (r : Wished) : Prop where
  queued : c.isOpen = true → take.output = .ofPackets [.ofBody .disconnect] ∧
    ∃ c', t = .closing c' (take.now + o.retryDelay) caller ∧
      c'.queue.toList = c.queue.toList ++ [.ofBody .disconnect]
  stopped : c.isOpen = false → take.output.packets = [] ∧ t = .ended
  losses : losses (take :: after) = if r.phase.isEnded then [.requested] else []
  last : r.phase.isEnded = true →
    (events (earlier ++ take :: after)).getLast? = some (.disconnected .requested)

/-- What comes of a wish that is taken, in a step from one phase to another. -/
structure Final (o : Options) (w : Waiter) (caller : Option Waiter) (earlier : List Moment)
    (s : Phase) (take : Moment) (t : Phase) (after : List Moment) (r : Wished) : Prop where
  taken : r.wish = .taken
  undialed : ∀ mo ∈ take :: after, mo.dials = false
  leaves : Leaves (take.now + o.retryDelay) caller r.phase
  -- whatever the request finds to do now ends it, and at the deadline it finds something
  ends : ∀ mo r', Heeds o caller r mo r' → Ready mo.now r.phase mo.act → r'.phase = .ended
  due : ∀ now, take.now + o.retryDelay ≤ now →
    ∃ mo r', mo.now = now ∧ Heeds o caller r mo r' ∧ r'.phase = .ended
  answer : answers w earlier = [] →
    answers w (earlier ++ take :: after) = lastWord (take :: after) r.phase
  driven : ∀ c nextTick, s = .driving c nextTick → Flushed o caller earlier c take t after r
  undriven : s.connection? = none →
    r.phase = .ended ∧ packets (take :: after) = [] ∧ events (take :: after) = []

section Final
variable {o : Options} {w : Waiter} {caller : Option Waiter} {p s t : Phase} {c : Connection}
  {r : Wished} {take : Moment} {past earlier after log : List Moment} {nextTick : Time}

theorem closes_of_trace (closes : Closes earlier s) (run : Trace (Takes o) s after t) :
    Closes (earlier ++ after) t := by
  have hany : ∀ mo ∈ after, True := fun _ _ => trivial
  exact run.invariant closes hany fun h _ takes => h.step takes

theorem Closes.losses_eq {since : List Moment} (closes : Closes since p) :
    losses since = if p.isEnded then [.requested] else [] := by
  cases closes with
  | flushes quiet => exact quiet
  | closed loss => exact loss

theorem Closes.last {since : List Moment} (closes : Closes since p) (ended : p.isEnded = true)
    (earlier : List Moment) :
    (events (earlier ++ since)).getLast? = some (.disconnected .requested) := by
  cases closes with
  | flushes => cases ended
  | closed _ last => rw [events_append, List.getLast?_append, last]; rfl

theorem flushed_of_driving (takes : Takes o (.driving c nextTick) take t)
    (act : take.act = .disconnect caller) (rest : Trace (Takes o) t after r.phase)
    (earlier : List Moment) : Flushed o caller earlier c take t after r := by
  have hheeding := (takes.heeding rfl act).2
  generalize houtput : take.output = output at hheeding
  cases hheeding with
  | closes hopen =>
    have hquiet : losses [take] = [] := by rw [losses_singleton, houtput]; rfl
    have hall := closes_of_trace (.flushes hquiet) rest
    refine ⟨fun _ => ⟨houtput, _, rfl, Queue.toList_push _ _⟩, fun h => ?_, hall.losses_eq,
      fun hended => hall.last hended _⟩
    cases h.symm.trans hopen
  | stuck hstopped =>
    have hevents : take.output.events = [.disconnected .requested] := by rw [houtput]; rfl
    have hstart : Closes [take] .ended := by
      refine .closed ?_ ?_
      · rw [losses_singleton, houtput]
        rfl
      · rw [events_cons, hevents]
        rfl
    have hall := closes_of_trace hstart rest
    refine ⟨fun h => ?_, fun _ => ⟨by rw [houtput]; rfl, rfl⟩, hall.losses_eq,
      fun hended => hall.last hended _⟩
    cases h.symm.trans hstopped
  | stops between => cases between

/-- Nothing is left where no connection is driven, and nothing is seen of that. -/
theorem quiet_of_undriven (takes : Takes o s take t) (listens : s.listens = true)
    (act : take.act = .disconnect caller) (undriven : s.connection? = none)
    (rest : Trace (Takes o) t after r.phase) :
    r.phase = .ended ∧ packets (take :: after) = [] ∧ events (take :: after) = [] := by
  have hheeding := (takes.heeding listens act).2
  obtain ⟨rfl, hpackets, hevents⟩ :
      t = .ended ∧ take.output.packets = [] ∧ take.output.events = [] := by
    generalize take.output = output at hheeding
    cases hheeding with
    | closes | stuck => cases undriven
    | cancels | stops => exact ⟨rfl, rfl, rfl⟩
  have hended : r.phase = .ended := rest.preserves (P := (· = .ended)) rfl fun h takes =>
    (step_ended (h ▸ takes)).1
  have hquiet := rests_of_ended rest
  refine ⟨hended, ?_, ?_⟩
  · rw [packets_cons, hpackets, List.nil_append, packets, List.flatMap_eq_nil_iff]
    exact fun mo hmo => by rw [(hquiet mo hmo).1]
  · rw [events_cons, hevents, List.nil_append, events, List.flatMap_eq_nil_iff]
    exact fun mo hmo => by rw [(hquiet mo hmo).1]

/-- A wish that is not made yet might as well wait in the channel. -/
theorem heeds_of_unasked (before : Trace (Takes o) (.opening w) past p)
    (unasked : ∀ mo ∈ past, ∀ other, mo.act ≠ .disconnect other) (active : p.isEnded = false)
    (caller : Option Waiter) :
    Trace (Heeds o caller) ⟨.opening w, .posted⟩ past ⟨p, .posted⟩ := by
  revert active
  have hstart : (opening w).isEnded = false →
      Trace (Heeds o caller) ⟨.opening w, .posted⟩ [] ⟨.opening w, .posted⟩ := fun _ => .idle _
  refine before.invariant (P := fun past p => p.isEnded = false →
    Trace (Heeds o caller) ⟨.opening w, .posted⟩ past ⟨p, .posted⟩) hstart unasked ?_
  intro past p mo p' hpast alone takes hactive
  have hbefore : p.isEnded = false := by
    rw [← Bool.not_eq_true]
    intro hended
    obtain rfl := eq_ended hended
    rw [(step_ended takes).1] at hactive
    cases hactive
  have hstep : Heeds o caller ⟨p, .posted⟩ mo ⟨p', Wish.posted.after p'⟩ := .goesOn takes alone
  rw [Wish.after, hactive] at hstep
  exact (hpast hbefore).concat hstep

theorem due_of_taken (taken : r.wish = .taken) {deadline now : Time}
    (leaves : Leaves deadline caller r.phase) (reached : deadline ≤ now) :
    ∃ mo r', mo.now = now ∧ Heeds o caller r mo r' ∧ r'.phase = .ended := by
  obtain ⟨p, wish⟩ := r
  have hallowed : p.Allows .elapse := by
    intro c nextTick
    rintro rfl
    cases leaves
  have takes := takes_step o now hallowed
  refine ⟨_, _, rfl, .goesOn takes fun _ => Act.noConfusion, ?_⟩
  cases leaves with
  | closing c => exact takes.ended_of_ready (.closing c) (.elapse rfl reached)
  | ended => rfl

/-- The step that takes the wish, and what follows. -/
theorem final_of_taken (stand : Stand o w earlier s) (takes : Takes o s take t)
    (listens : s.listens = true) (act : take.act = .disconnect caller)
    (rest : Trace (Heeds o caller) ⟨t, .taken⟩ after r)
    (own : ∀ mo ∈ take :: after, mo.act.waiter? ≠ some w) :
    Final o w caller earlier s take t after r := by
  obtain ⟨hdials, hheeding⟩ := takes.heeding listens act
  have hrest := Heeds.trace rest
  have htaken : r.wish = .taken := Heeds.taken rest rfl
  obtain ⟨hleaves, hundialed⟩ := hheeding.leaves.trace hrest
  obtain ⟨hown, hownrest⟩ := List.forall_mem_cons.mp own
  refine ⟨htaken, List.forall_mem_cons.mpr ⟨hdials, hundialed⟩, hleaves, ?_, ?_, ?_, ?_, ?_⟩
  · exact fun mo r' h ready => h.takes_step.ended_of_ready hleaves ready
  · exact fun now reached => due_of_taken htaken hleaves reached
  · intro unanswered
    have hsince := since_of_taken stand unanswered takes hown listens act
    have hall := hrest.invariant (P := Since o w caller (take.now + o.retryDelay) earlier) hsince
      hownrest fun h own takes => h.step takes own
    exact hall.answers
  · rintro c nextTick rfl
    exact flushed_of_driving takes act hrest earlier
  · exact fun undriven => quiet_of_undriven takes listens act undriven hrest

theorem takes_of_posted (posted : r.wish = .posted) (listens : r.phase.listens = true)
    (now : Time) : ∃ mo r', mo.now = now ∧ Heeds o caller r mo r' ∧ r'.wish = .taken := by
  obtain ⟨p, wish⟩ := r
  obtain rfl : wish = .posted := posted
  have takes : Takes o p _ _ := takes_step o now (a := .disconnect caller) trivial
  exact ⟨_, _, rfl, .takes listens takes rfl, rfl⟩

/-- No act is a call made by the one that waits for the connection. -/
theorem own_of_heeds {r₀ : Wished} (run : Trace (Heeds o caller) r₀ log r) (own : caller ≠ some w)
    (calls : ∀ mo ∈ log, ∀ a, mo.act = .connection a → a.waiter? ≠ some w) :
    ∀ mo ∈ log, mo.act.waiter? ≠ some w := by
  intro mo hmo
  obtain ⟨front, rest, rfl⟩ := List.append_of_mem hmo
  obtain ⟨s, t, -, h, -⟩ := run.middle
  have hcalls := calls mo hmo
  generalize hact : mo.act = act at hcalls
  cases act with
  | connection a => exact hcalls a rfl
  | disconnect other =>
    cases h with
    | takes _ _ htakes =>
      cases hact.symm.trans htakes
      exact own
    | goesOn _ alone => exact absurd hact (alone other)
  | opened | refused | observe | tick | elapse => exact nobody_ne w

theorem hears_of_trace {d : Waiter} (run : Trace (Heeds o (some d)) ⟨.opening w, .posted⟩ log r)
    (own : d ≠ w) (calls : ∀ mo ∈ log, ∀ a, mo.act = .connection a → a.waiter? ≠ some d) :
    Hears d log r := by
  have hunowed : Unowed d (.opening w) :=
    ⟨fun h => own (opening.inj h).symm, fun c hc => by cases hc⟩
  have hstart : Hears d [] ⟨.opening w, .posted⟩ :=
    ⟨⟨iff_of_true rfl rfl, Wish.noConfusion⟩, hunowed, Wish.noConfusion, rfl⟩
  exact run.invariant hstart calls fun hears calls h => hears.step h calls

/-- A wish to disconnect, made at any point of a request to connect, ends it: it is taken, or the
request has ended without, and the call that made it returns. Once it was taken the transport is not
opened again, a connection is closed behind what is in its queue, and its end comes last. -/
theorem disconnect_is_final (valid : o.validate = .ok ())
    (before : Trace (Takes o) (.opening w) past p)
    (unasked : ∀ mo ∈ past, ∀ other, mo.act ≠ .disconnect other) (active : p.isEnded = false)
    (run : Trace (Heeds o caller) ⟨p, .posted⟩ log r)
    (calls : ∀ mo ∈ past ++ log, ∀ a v, mo.act = .connection a → a.waiter? = some v →
      v ≠ w ∧ caller ≠ some v) (own : caller ≠ some w) :
    -- the call returns when the request ends, whether its wish was taken or not
    (∀ d, caller = some d →
        r.told d (past ++ log) = if r.phase.isEnded then [.ok .disconnected] else []) ∧
      (r.wish = .dropped → r.phase.isEnded = true) ∧
      -- a wish can be taken as long as it waits, and it does not wait long
      (r.wish = .posted → r.phase.isEnded = false ∧ ∀ now,
        Ready now r.phase (.disconnect caller) ∧
          (∃ mo r', mo.now = now ∧ Heeds o caller r mo r' ∧ r'.wish = .taken) ∧
          ∀ more r', Trace (Stands o caller now) r more r' → r'.wish = .posted →
            more.countP (·.act.isOwn) ≤ 3) ∧
      ∀ front mo rest, log = front ++ mo :: rest →
        -- who waits for a connection that goes is told so
        (answers w (past ++ front) = [] → mo.output.losses ≠ [] →
          mo.answersTo w = [.error .connectionLost] ∨ (∃ orders, mo.act = .tick orders) ∧
            mo.answersTo w = [.error (.connackTimeout o.connackTimeout)]) ∧
        (mo.act = .disconnect caller → ∃ s t, Trace (Takes o) p front s ∧ Takes o s mo t ∧
          Final o w caller (past ++ front) s mo t rest r) := by
  have whole := (heeds_of_unasked before unasked active caller).append run
  have hstart : Wished.Coherent ⟨.opening w, .posted⟩ := ⟨iff_of_true rfl rfl, Wish.noConfusion⟩
  have coherent := hstart.trace whole
  have hown : ∀ mo ∈ past ++ log, mo.act.waiter? ≠ some w := own_of_heeds whole own
    fun mo hmo a hact hw => (calls mo hmo a w hact hw).1 rfl
  refine ⟨?_, coherent.dropped, ?_, ?_⟩
  · rintro d rfl
    have hears := hears_of_trace whole (fun h => own (congrArg some h))
      fun mo hmo a hact hd => (calls mo hmo a d hact hd).2 rfl
    exact hears.told
  · intro posted
    have listens := coherent.posted.mp posted
    refine ⟨active_of_listens listens, fun now => ?_⟩
    refine ⟨.disconnect listens, takes_of_posted posted listens now, ?_⟩
    intro more r' hmore hposted
    exact Nat.le_trans (coherent.waits (Options.validate_eq_ok_iff.mp valid) hmore hposted)
      (ahead_le now r.phase)
  · rintro front mo rest rfl
    obtain ⟨s, t, hfront, hmo, hrest⟩ := run.middle
    have hearlier := before.append (Heeds.trace hfront)
    rw [List.forall_mem_append, List.forall_mem_append] at hown
    obtain ⟨hpast, hfrontown, hmorest⟩ := hown
    have stand := (heard_of_trace hearlier (List.forall_mem_append.mpr ⟨hpast, hfrontown⟩)).stand
    refine ⟨fun unanswered loss => ?_, fun act => ?_⟩
    · exact stand.lost unanswered hmo.takes_step (hmorest mo List.mem_cons_self) loss
    · cases hmo with
      | takes listens step =>
        exact ⟨_, _, Heeds.trace hfront, step, final_of_taken stand step listens act hrest hmorest⟩
      | goesOn _ alone => exact absurd act (alone caller)

end Final

/-- The wish is taken before the CONNACK, which comes while the connection closes. -/
def answeredLate : List Moment :=
  [⟨3, .disconnect (some 9), .ofPackets [.ofBody .disconnect], false⟩,
    ⟨4, .connection (.handle (.packet (.ofBody (.connack true .accepted)))),
      { events := [.connected true], answers := [⟨7, .ok (.connected true)⟩] }, false⟩,
    ⟨5003, .elapse,
      { events := [.disconnected .requested], answers := [⟨9, .ok .disconnected⟩] }, false⟩]

theorem heeds_answeredLate : Trace (Heeds plainOptions (some 9))
    ⟨.driving (.fresh plainOptions (some 7) 0) 1000, .posted⟩ answeredLate ⟨.ended, .taken⟩ := by
  let first : Connection := .fresh plainOptions (some 7) 0
  let closed := first.after (first.session.disconnect true 3)
  let greeted := closed.withHandshake ⟨60000, .accepted true, none⟩
  have htake : Heeds plainOptions (some 9) ⟨.driving first 1000, .posted⟩ answeredLate[0]
      ⟨.closing closed 5003 (some 9), .taken⟩ := .takes rfl ⟨trivial, rfl⟩ rfl
  have hgreet : Heeds plainOptions (some 9) ⟨.closing closed 5003 (some 9), .taken⟩
      answeredLate[1] ⟨.closing greeted 5003 (some 9), .taken⟩ :=
    .goesOn ⟨⟨_, rfl, rfl⟩, rfl⟩ fun _ => Act.noConfusion
  have hend : Heeds plainOptions (some 9) ⟨.closing greeted 5003 (some 9), .taken⟩
      answeredLate[2] ⟨.ended, .taken⟩ :=
    .goesOn ⟨fun _ _ => Phase.noConfusion, rfl⟩ fun _ => Act.noConfusion
  exact .next htake (.next hgreet (.next hend (.idle _)))

theorem validate_plainOptions : plainOptions.validate = .ok () :=
  Options.validate_eq_ok_iff.mpr ⟨show "broker:1883" ≠ "" by decide, Nat.succ_ne_zero 2,
    Nat.succ_ne_zero 4999, Nat.succ_ne_zero 999, Bool.noConfusion,
    fun h => absurd h (show "c1" ≠ "" by decide), show "c1".utf8ByteSize ≤ 65535 by decide,
    fun _ h => (by cases h), fun _ h => (by cases h)⟩

theorem disconnect_is_final_answeredLate :
    let opened : Moment := ⟨0, .opened, .ofPackets [plainOptions.connectPacket.toPacket], false⟩
    plainOptions.validate = .ok () ∧
      Trace (Takes plainOptions) (.opening 7) [opened]
        (.driving (.fresh plainOptions (some 7) 0) 1000) ∧
      Trace (Heeds plainOptions (some 9))
        ⟨.driving (.fresh plainOptions (some 7) 0) 1000, .posted⟩ answeredLate ⟨.ended, .taken⟩ ∧
      Wished.told 9 (opened :: answeredLate) ⟨.ended, .taken⟩ = [.ok .disconnected] ∧
      answers 7 (opened :: answeredLate) = [.ok (.connected true)] ∧
      (events (opened :: answeredLate)).getLast? = some (.disconnected .requested) ∧
      ∀ mo ∈ answeredLate, mo.dials = false := by
  intro opened
  have before : Trace (Takes plainOptions) (.opening 7) [opened]
      (.driving (.fresh plainOptions (some 7) 0) 1000) :=
    .next ⟨rfl, drive_eq _ _ _⟩ (.idle _)
  have unasked : ∀ mo ∈ [opened], ∀ other, mo.act ≠ .disconnect other := by
    simp [opened]
  have calls : ∀ mo ∈ [opened] ++ answeredLate, ∀ a v, mo.act = .connection a →
      a.waiter? = some v → v ≠ 7 ∧ some 9 ≠ some v := by
    intro mo hmo a v hact hv
    simp only [opened, answeredLate, List.cons_append, List.nil_append, List.mem_cons,
      List.not_mem_nil, or_false] at hmo
    obtain rfl | rfl | rfl | rfl := hmo <;> cases hact
    cases hv
  obtain ⟨htold, -, -, hall⟩ :=
    disconnect_is_final validate_plainOptions before unasked rfl heeds_answeredLate calls (by decide)
  obtain ⟨s, t, hfront, -, final⟩ := (hall [] answeredLate[0] (answeredLate.drop 1) rfl).2 rfl
  have hflushed : (events (opened :: answeredLate)).getLast? = some (.disconnected .requested) := by
    cases hfront
    exact (final.driven _ _ rfl).last rfl
  exact ⟨validate_plainOptions, before, heeds_answeredLate, htold 9 rfl, final.answer rfl, hflushed,
    final.undialed⟩

end Phase

end Mqtt
