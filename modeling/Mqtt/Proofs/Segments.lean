import Mqtt.Proofs.Clients
import Mqtt.Proofs.Lives

/-!
# The shape of the log of events

What the application is told falls into segments, one for each transport that opened: that the broker
accepted the connection, what its exchanges raise, and why it ended. A segment without the first has
none of the second, and nothing follows on the last but that the transport could not be opened again.
-/
namespace Mqtt

/-- What the application is told of a connection that is gone. -/
inductive Segment : List Event → Prop
  | unaccepted (reason : DisconnectReason) : Segment [.disconnected reason]
  | accepted {exchanges : List Event} (sessionPresent : Bool)
      (h : ∀ e ∈ exchanges, e.isExchange = true) (reason : DisconnectReason) :
      Segment (.connected sessionPresent :: (exchanges ++ [.disconnected reason]))

/-- A segment so far, of a connection that the broker accepted or did not. -/
inductive Segment.Begun : Bool → List Event → Prop
  | unaccepted : Begun false []
  | accepted {exchanges : List Event} (sessionPresent : Bool)
      (h : ∀ e ∈ exchanges, e.isExchange = true) : Begun true (.connected sessionPresent :: exchanges)

/-- Segments one after the other. -/
def IsSegmented (es : List Event) : Prop :=
  ∃ segments : List (List Event), segments.flatten = es ∧ ∀ s ∈ segments, Segment s

namespace Segment
variable {accepted : Bool} {es more s last before after between : List Event} {e : Event}
  {segments : List (List Event)}

theorem Begun.raise (begun : Begun true es) (h : ∀ e ∈ more, e.isExchange = true) :
    Begun true (es ++ more) := by
  cases begun with
  | accepted sessionPresent hes =>
    exact .accepted sessionPresent (List.forall_mem_append.mpr ⟨hes, h⟩)

/-- The end of a connection closes its segment. -/
theorem Begun.close (begun : Begun accepted es)
    (h : ∀ e ∈ more, accepted = true ∧ e.isExchange = true) (reason : DisconnectReason) :
    Segment (es ++ (more ++ [.disconnected reason])) := by
  cases begun with
  | unaccepted =>
    obtain rfl : more = [] := List.eq_nil_iff_forall_not_mem.mpr fun e he =>
      Bool.noConfusion (h e he).1
    exact .unaccepted reason
  | accepted sessionPresent hes =>
    rw [List.cons_append, ← List.append_assoc]
    exact .accepted sessionPresent
      (List.forall_mem_append.mpr ⟨hes, fun e he => (h e he).2⟩) reason

theorem singleton_eq {x : Event} (h : before ++ e :: after = [x]) :
    before = [] ∧ e = x ∧ after = [] := by
  cases before with
  | nil =>
    cases h
    exact ⟨rfl, rfl, rfl⟩
  | cons y before => cases List.append_eq_nil_iff.mp (List.cons.inj h).2 |>.2

/-- What an exchange raises comes after its connection was accepted. -/
theorem of_exchange (h : Segment (before ++ e :: after)) (he : e.isExchange = true) :
    ∃ sessionPresent recent, before = .connected sessionPresent :: recent ∧
      ∀ reason, .disconnected reason ∉ recent := by
  generalize hs : before ++ e :: after = s at h
  cases h with
  | unaccepted reason =>
    obtain ⟨rfl, rfl, -⟩ := singleton_eq hs
    cases he
  | @accepted exchanges sessionPresent hes reason =>
    cases before with
    | nil =>
      cases hs
      cases he
    | cons x before =>
      obtain ⟨rfl, htail⟩ := List.cons.inj hs
      refine ⟨sessionPresent, before, rfl, fun reason' hmem => ?_⟩
      obtain ⟨-, -, hlast⟩ | ⟨older, -, hbefore⟩ := Trace.middle_of_concat htail.symm
      · subst hlast
        cases he
      · rw [hbefore] at hes
        exact Bool.noConfusion (hes _ (List.mem_append_left _ hmem))

/-- A connection is accepted at the start of its segment, and it ends. -/
theorem of_connected {sessionPresent : Bool}
    (h : Segment (before ++ .connected sessionPresent :: after)) :
    before = [] ∧ ∃ reason, .disconnected reason ∈ after := by
  generalize hs : before ++ .connected sessionPresent :: after = s at h
  cases h with
  | unaccepted reason => cases (singleton_eq hs).2.1
  | @accepted exchanges sessionPresent' hes reason =>
    cases before with
    | nil =>
      cases hs
      exact ⟨rfl, reason, List.mem_concat_self⟩
    | cons x before =>
      obtain ⟨-, htail⟩ := List.cons.inj hs
      obtain ⟨-, -, hlast⟩ | ⟨older, -, hbefore⟩ := Trace.middle_of_concat htail.symm
      · cases hlast
      · rw [hbefore] at hes
        exact Bool.noConfusion (hes (.connected sessionPresent) (by simp))

/-- An event of a sequence of segments is one of a segment. -/
theorem middle_of_flatten (h : segments.flatten = before ++ e :: after) :
    ∃ older pre post newer, (pre ++ e :: post) ∈ segments ∧ older ⊆ segments ∧
      before = older.flatten ++ pre ∧ after = post ++ newer := by
  induction segments generalizing before with
  | nil => cases List.append_eq_nil_iff.mp h.symm |>.2
  | cons s segments ih =>
    rw [List.flatten_cons] at h
    have later : ∀ {more}, segments.flatten = more ++ e :: after → before = s ++ more →
        ∃ older pre post newer, (pre ++ e :: post) ∈ s :: segments ∧ older ⊆ s :: segments ∧
          before = older.flatten ++ pre ∧ after = post ++ newer := by
      rintro more hrest rfl
      obtain ⟨older, pre, post, newer, hmem, hsub, rfl, hafter⟩ := ih hrest
      exact ⟨s :: older, pre, post, newer, List.mem_cons_of_mem _ hmem, List.cons_subset_cons s hsub,
        by simp, hafter⟩
    obtain ⟨more, hbefore, hrest⟩ | ⟨more, hs, hrest⟩ := List.append_eq_append_iff.mp h
    · exact later hrest hbefore
    · cases more with
      | nil =>
        have hfirst : segments.flatten = [] ++ e :: after := hrest.symm
        exact later hfirst (by simp [hs])
      | cons x more =>
        obtain ⟨rfl, hafter⟩ := List.cons.inj hrest
        exact ⟨[], before, more, segments.flatten, hs ▸ List.mem_cons_self, List.nil_subset _, rfl,
          hafter⟩

theorem accepted_before_exchange (h : IsSegmented (before ++ e :: after)) (he : e.isExchange = true) :
    ∃ older sessionPresent recent, before = older ++ .connected sessionPresent :: recent ∧
      ∀ reason, .disconnected reason ∉ recent := by
  obtain ⟨segments, hflatten, closed⟩ := h
  obtain ⟨older, pre, post, newer, hmem, -, rfl, -⟩ := middle_of_flatten hflatten
  obtain ⟨sessionPresent, recent, rfl, hrecent⟩ := of_exchange (closed _ hmem) he
  exact ⟨older.flatten, sessionPresent, recent, rfl, hrecent⟩

theorem disconnected_between {first second : Bool}
    (h : IsSegmented (before ++ .connected first :: between ++ .connected second :: after)) :
    ∃ reason, .disconnected reason ∈ between := by
  obtain ⟨segments, hflatten, closed⟩ := h
  obtain ⟨older, pre, post, newer, hmem, hsub, hfirst, -⟩ := middle_of_flatten hflatten
  obtain ⟨rfl, -⟩ := of_connected (closed _ hmem)
  rw [List.append_nil] at hfirst
  obtain ⟨-, pre', post', newer', hmem', -, -, rfl⟩ := middle_of_flatten hfirst.symm
  obtain ⟨-, reason, hreason⟩ := of_connected (closed _ (hsub hmem'))
  exact ⟨reason, List.mem_append_left _ hreason⟩

end Segment

namespace Phase

def Act.isOpened : Act → Bool
  | opened => true
  | refused _ | disconnect _ | observe | tick _ | elapse | connection _ => false

/-- How many transports opened. -/
def openings (log : List Moment) : Nat := log.countP fun mo => mo.act.isOpened

/-- The transport could not be opened again, and nothing was told after that. -/
def GaveUp (log : List Moment) (last : List Event) : Prop :=
  ∃ past mo rest fault, log = past ++ mo :: rest ∧ mo.act = .refused fault ∧
    mo.output.events = last ∧ last = [.disconnected (.transport fault.message)] ∧ events rest = []

/-- What the application has been told at a phase: the segments of the connections that are gone, and
what came last. -/
structure Told (log : List Moment) (p : Phase) (segments : List (List Event)) (last : List Event) :
    Prop where
  events : events log = segments.flatten ++ last
  closed : ∀ s ∈ segments, Segment s
  openings : openings log = segments.length + p.connection?.toList.length
  live : ∀ c, p.connection? = some c → Segment.Begun c.session.isAccepted last
  quiet : p.connection? = none → last = [] ∨ p = .ended ∧ segments ≠ [] ∧ GaveUp log last
  between : p.isBetween = true → segments ≠ []

/-- A step without a connection. -/
inductive Waits (p : Phase) (mo : Moment) (p' : Phase) : Prop
  | opens {c : Connection} (act : mo.act.isOpened = true) (dialing : p.isDialing = true)
      (connection : p'.connection? = some c) (fresh : c.session.isAccepted = false)
      (events : mo.output.events = [])
  | rests (act : mo.act.isOpened = false) (connection : p'.connection? = none)
      (between : p'.isBetween = true → p.isBetween = true) (ends : p = .ended → p' = .ended)
      (events : mo.output.events = [])
  | givesUp {n : Nat} {fault : TransportFault} (phase : p = .reopening n) (ended : p' = .ended)
      (act : mo.act = .refused fault)
      (events : mo.output.events = [.disconnected (.transport fault.message)])

section Told
variable {o : Options} {w : Waiter} {p p' : Phase} {mo : Moment} {c c' : Connection}
  {log : List Moment} {segments : List (List Event)} {last : List Event}

theorem Takes.waits (takes : Takes o p mo p') (hp : p.connection? = none) : Waits p mo p' := by
  have hchange := takes.change
  have hallowed := takes.1
  obtain ⟨now, act, output, dials⟩ := mo
  dsimp only at hchange hallowed
  cases hchange with
  | rests hidle =>
    refine .rests ?_ hp id id rfl
    cases act <;> first | rfl | cases hidle
  | opens | reopens => exact .opens rfl rfl rfl rfl rfl
  | unreachable | cancels => exact .rests rfl rfl Bool.noConfusion (fun h => by cases h) rfl
  | fails => exact .rests rfl rfl (fun _ => rfl) (fun h => by cases h) rfl
  | givesUp => exact .givesUp rfl rfl rfl rfl
  | stops => exact .rests rfl rfl Bool.noConfusion (fun _ => rfl) rfl
  | dials hwait =>
    obtain ⟨rfl, -⟩ | rfl := hwait <;>
      exact .rests rfl rfl (fun _ => rfl) (fun h => by cases h) rfl
  | works hk => cases hp.symm.trans hk
  | closes | ticks => cases hp
  | ends hends => cases hends <;> cases hp

theorem isOpened_of_connection (takes : Takes o p mo p') (hp : p.connection? = some c) :
    mo.act.isOpened = false := by
  have hallowed := takes.1
  cases hact : mo.act with
  | opened =>
    rw [hact] at hallowed
    cases p with
    | driving | closing => cases hallowed
    | opening | pausing | reopening | backingOff | ended => cases hp
  | _ => rfl

theorem Lives.begun (lives : Lives c mo c') (begun : Segment.Begun c.session.isAccepted last) :
    Segment.Begun c'.session.isAccepted (last ++ mo.output.events) := by
  cases lives with
  | greets sessionPresent waits accepted _ hevents =>
    rw [waits] at begun
    rw [accepted, hevents]
    cases begun with
    | unaccepted => exact .accepted sessionPresent (List.forall_mem_nil _)
  | serves accepted h =>
    have haccepted : c'.session.isAccepted = true :=
      (congrArg Handshake.isAccepted h.handshake).trans accepted
    rw [accepted] at begun
    rw [haccepted]
    exact begun.raise h.traffic.events
  | keeps _ _ hsame hevents =>
    rw [hsame, hevents, List.append_nil]
    exact begun

theorem openings_append (xs ys : List Moment) : openings (xs ++ ys) = openings xs + openings ys :=
  List.countP_append

theorem openings_singleton (mo : Moment) : openings [mo] = if mo.act.isOpened then 1 else 0 := by
  rw [openings, List.countP_singleton]

theorem GaveUp.later (gaveUp : GaveUp log last) (quiet : mo.output.events = []) :
    GaveUp (log ++ [mo]) last := by
  obtain ⟨past, mo', rest, fault, rfl, hact, hevents, hlast, hrest⟩ := gaveUp
  refine ⟨past, mo', rest ++ [mo], fault, by simp, hact, hevents, hlast, ?_⟩
  rw [events_append, hrest, events_cons, quiet]
  rfl

theorem Told.events_concat (told : Told log p segments last) (mo : Moment) :
    Phase.events (log ++ [mo]) = segments.flatten ++ (last ++ mo.output.events) := by
  rw [events_append, told.events, List.append_assoc, events_cons]
  exact congrArg _ (congrArg _ (List.append_nil _))

theorem Told.openings_concat (told : Told log p segments last) (mo : Moment) :
    Phase.openings (log ++ [mo]) =
      segments.length + p.connection?.toList.length + if mo.act.isOpened then 1 else 0 := by
  rw [openings_append, told.openings, openings_singleton]

/-- A connection that goes on adds to the segment it has begun. -/
theorem Told.goes_on (told : Told log p segments last) (takes : Takes o p mo p')
    (hp : p.connection? = some c) (hp' : p'.connection? = some c') (lives : Lives c mo c') :
    Told (log ++ [mo]) p' segments (last ++ mo.output.events) where
  events := told.events_concat mo
  closed := told.closed
  openings := by
    rw [told.openings_concat, isOpened_of_connection takes hp, hp, hp']
    rfl
  live k hk := by
    cases hp'.symm.trans hk
    exact lives.begun (told.live c hp)
  quiet hnone := by cases hp'.symm.trans hnone
  between h := by cases (connection?_of_isBetween h).symm.trans hp'

/-- The end of a connection closes the segment it has begun. -/
theorem Told.closes {reason : DisconnectReason} (told : Told log p segments last)
    (takes : Takes o p mo p') (hp : p.connection? = some c) (dies : Dies o c mo reason p') :
    Told (log ++ [mo]) p' (segments ++ [last ++ mo.output.events]) [] := by
  have hgone : p'.connection? = none := by
    rw [dies.phase]
    split <;> rfl
  obtain ⟨before, hbefore, hexchanges⟩ := dies.events
  have hsegment : Segment (last ++ mo.output.events) := by
    rw [hbefore]
    exact (told.live c hp).close hexchanges reason
  refine ⟨?_, ?_, ?_, fun k hk => ?_, fun _ => .inl rfl, fun _ => ?_⟩
  · rw [told.events_concat, List.flatten_append, List.append_nil, List.flatten_singleton]
  · exact List.forall_mem_append.mpr ⟨told.closed, List.forall_mem_singleton.mpr hsegment⟩
  · rw [told.openings_concat, isOpened_of_connection takes hp, hp, hgone, List.length_append]
    rfl
  · cases hgone.symm.trans hk
  · exact List.append_ne_nil_of_right_ne_nil _ (List.cons_ne_nil _ _)

theorem Told.last_eq_nil (told : Told log p segments last) (hp : p.connection? = none)
    (running : p ≠ .ended) : last = [] := by
  obtain hlast | ⟨hended, -⟩ := told.quiet hp
  · exact hlast
  · exact absurd hended running

/-- Without a connection nothing is told, unless it is given up to open the transport again. -/
theorem Told.waits (told : Told log p segments last) (hp : p.connection? = none)
    (waits : Waits p mo p') : Told (log ++ [mo]) p' segments (last ++ mo.output.events) := by
  have hopenings := told.openings_concat mo
  rw [hp] at hopenings
  cases waits with
  | opens act dialing connection fresh quiet =>
    have running : p ≠ .ended := by
      rintro rfl
      cases dialing
    refine ⟨told.events_concat mo, told.closed, ?_, fun k hk => ?_, fun h => ?_, fun h => ?_⟩
    · rw [hopenings, connection, act]
      rfl
    · cases connection.symm.trans hk
      rw [fresh, told.last_eq_nil hp running, quiet]
      exact .unaccepted
    · cases connection.symm.trans h
    · cases (connection?_of_isBetween h).symm.trans connection
  | rests act connection between ends quiet =>
    refine ⟨told.events_concat mo, told.closed, ?_, fun k hk => ?_, fun _ => ?_, fun h => ?_⟩
    · rw [hopenings, connection, act]
      rfl
    · cases connection.symm.trans hk
    · rw [quiet, List.append_nil]
      obtain hlast | ⟨hended, hsegments, hlast⟩ := told.quiet hp
      · exact .inl hlast
      · exact .inr ⟨ends hended, hsegments, hlast.later quiet⟩
    · exact told.between (between h)
  | @givesUp n fault phase ended act hlone =>
    subst phase ended
    have gaveUp : GaveUp (log ++ [mo]) (last ++ mo.output.events) := by
      rw [told.last_eq_nil rfl (fun h => by cases h), List.nil_append]
      exact ⟨log, mo, [], fault, rfl, act, rfl, hlone, rfl⟩
    refine ⟨told.events_concat mo, told.closed, ?_, fun k hk => ?_, fun _ => ?_, fun h => ?_⟩
    · rw [hopenings, act]
      rfl
    · cases hk
    · exact .inr ⟨rfl, told.between rfl, gaveUp⟩
    · cases h

theorem Told.step (told : Told log p segments last) (takes : Takes o p mo p') :
    ∃ segments last, Told (log ++ [mo]) p' segments last := by
  cases hp : p.connection? with
  | some c =>
    obtain ⟨-, c', hp', lives⟩ | ⟨reason, -, dies⟩ := takes.lives_or_dies hp
    · exact ⟨_, _, told.goes_on takes hp hp' lives⟩
    · exact ⟨_, _, told.closes takes hp dies⟩
  | none => exact ⟨_, _, told.waits hp (takes.waits hp)⟩

theorem told_of_trace (run : Trace (Takes o) (.opening w) log p) :
    ∃ segments last, Told log p segments last := by
  refine run.history (P := fun log p => ∃ segments last, Told log p segments last) ?_ ?_
  · refine ⟨[], [], rfl, List.forall_mem_nil _, rfl, fun c hc => ?_, fun _ => .inl rfl, fun h => ?_⟩
    · cases hc
    · cases h
  · rintro past t mo t' ⟨segments, last, told⟩ takes
    exact told.step takes

/-- What has been told goes on to be a sequence of segments. -/
theorem Told.completion (told : Told log p segments last) :
    ∃ more, IsSegmented (Phase.events log ++ more) := by
  have hlast : ∃ more, IsSegmented (last ++ more) := by
    cases hp : p.connection? with
    | some c =>
      have hsegment := (told.live c hp).close (List.forall_mem_nil _) .transportClosed
      exact ⟨_, [_], List.flatten_singleton, List.forall_mem_singleton.mpr hsegment⟩
    | none =>
      obtain rfl | ⟨-, -, past, mo, rest, fault, -, -, -, rfl, -⟩ := told.quiet hp
      · exact ⟨[], [], rfl, List.forall_mem_nil _⟩
      · exact ⟨[], [_], rfl, List.forall_mem_singleton.mpr (.unaccepted _)⟩
  obtain ⟨more, s, hflatten, hs⟩ := hlast
  refine ⟨more, segments ++ s, ?_, List.forall_mem_append.mpr ⟨told.closed, hs⟩⟩
  rw [told.events, List.append_assoc, ← hflatten, List.flatten_append]

end Told

end Phase

namespace Client
variable {o : Options} {c : Client} {log : List Moment} {i : Nat}

/-- What is told of a request to connect has the shape of its connections, whenever it is looked at,
and a client that made one request is told nothing else. -/
theorem events_segmented (run : Trace Takes (fresh o) log c) (made : i < c.phases.size) :
    (∃ segments last, Phase.Told (moments i log) (c.phase i) segments last) ∧
      (∃ more, IsSegmented (Phase.events (moments i log) ++ more)) ∧
      (∀ before e after, Phase.events (moments i log) = before ++ e :: after → e.isExchange = true →
        ∃ older sessionPresent recent, before = older ++ .connected sessionPresent :: recent ∧
          ∀ reason, .disconnected reason ∉ recent) ∧
      (∀ before first between second after, Phase.events (moments i log) =
        before ++ .connected first :: between ++ .connected second :: after →
          ∃ reason, .disconnected reason ∈ between) ∧
      (c.phases.size = 1 → events log = Phase.events (moments i log)) := by
  obtain ⟨w, hrun⟩ := (covers_of_trace run).run i made
  obtain ⟨segments, last, told⟩ := Phase.told_of_trace hrun
  obtain ⟨more, hmore⟩ := told.completion
  refine ⟨⟨segments, last, told⟩, ⟨more, hmore⟩, ?_, ?_, fun hsize => ?_⟩
  · intro before e after hevents he
    rw [hevents, List.append_assoc, List.cons_append] at hmore
    exact Segment.accepted_before_exchange hmore he
  · intro before first between second after hevents
    rw [hevents, List.append_assoc _ _ more, List.cons_append] at hmore
    exact Segment.disconnected_between hmore
  · obtain rfl : i = 0 := Nat.lt_one_iff.mp (hsize ▸ made)
    exact events_of_single run (Nat.le_of_eq hsize)

def onceOptions : Options := { Phase.plainOptions with reconnectAttempts := 0 }

/-- A message comes on a connection that is then lost and cannot be opened again. -/
def receivedOnce : List Phase.Moment :=
  [⟨0, .opened, .ofPackets [onceOptions.connectPacket.toPacket], false⟩,
    ⟨3, .connection (.handle (.packet (.ofBody (.connack true .accepted)))),
      { events := [.connected true], answers := [⟨7, .ok (.connected true)⟩] }, false⟩,
    ⟨4, .connection (.handle (.packet Phase.bareMessage.toPacket)),
      .ofEvent (.received Phase.bareMessage), false⟩,
    ⟨5, .connection .readEnd, {}, false⟩,
    ⟨5, .observe, .ofEvent (.disconnected .transportClosed), false⟩,
    ⟨5005, .elapse, {}, true⟩,
    ⟨5006, .refused .timedOut, .ofEvent (.disconnected (.transport "timed out")), false⟩]

open Phase (driving pausing reopening ended drive_eq) in
theorem trace_receivedOnce : Trace (Phase.Takes onceOptions) (.opening 7) receivedOnce .ended := by
  let first : Connection := .fresh onceOptions (some 7) 0
  let accepted := first.withHandshake ⟨60000, .accepted true, none⟩
  exact .next (t := driving first 1000) ⟨rfl, drive_eq _ _ _⟩ <|
    .next (t := driving accepted 1000) ⟨⟨_, rfl, rfl⟩, rfl⟩ <|
    .next (t := driving accepted 1000) ⟨⟨_, rfl, rfl⟩, rfl⟩ <|
    .next (t := driving (accepted.endReading .transportClosed) 1000) ⟨trivial, rfl⟩ <|
    .next (t := pausing 5005) ⟨trivial, rfl⟩ <|
    .next (t := reopening 0) ⟨fun _ _ h => (by cases h), rfl⟩ <|
    .next (t := ended) ⟨rfl, rfl⟩ <| .idle ended

theorem events_segmented_receivedOnce :
    ∃ current, Trace Takes (fresh onceOptions) (.connect 7 {} :: receivedOnce.map (.turn 0))
        ⟨onceOptions, #[.ended], some 0, current⟩ ∧
      ∃ segments last, Phase.Told receivedOnce .ended segments last ∧
        events (.connect 7 {} :: receivedOnce.map (.turn 0)) = segments.flatten ++ last ∧
        Phase.events receivedOnce = [.connected true, .received Phase.bareMessage,
          .disconnected .transportClosed, .disconnected (.transport "timed out")] := by
  have others : ∀ mo ∈ receivedOnce, ∀ k, mo.act ≠ .connection (.call k) := by
    simp [receivedOnce]
  obtain ⟨current, hturns⟩ := trace_of_run trace_receivedOnce others none
  have run : Trace Takes (fresh onceOptions) (.connect 7 {} :: receivedOnce.map (.turn 0))
      ⟨onceOptions, #[.ended], some 0, current⟩ := .next (.connect 7) hturns
  obtain ⟨⟨segments, last, told⟩, -, -, -, hevents⟩ := events_segmented run Nat.one_pos
  exact ⟨current, run, segments, last, told, (hevents rfl).trans told.events, rfl⟩

end Client

end Mqtt
