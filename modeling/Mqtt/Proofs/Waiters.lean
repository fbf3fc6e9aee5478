import Mqtt.Proofs.Requests
import Mqtt.Proofs.Trace

/-!
# Calls that wait for the broker

A call waits from the step that sends its request to the step that ends it, and hears of that end
once. Each call waits on a channel of its own, so what the channel is told is told to the call.
-/
namespace Mqtt

namespace Subscriptions

section Fates
variable {policy : RetryPolicy} {now : Time} {s t : Subscriptions} {x : UInt16} {c : Context Call}
  {a : Ask} {mo : Moment} {log since : List Moment} {call : Call}

@[simp] theorem calls_append (xs ys : List Moment) : calls (xs ++ ys) = calls xs ++ calls ys :=
  List.filterMap_append

@[simp] theorem answers_append (w : Waiter) (xs ys : List Moment) :
    answers w (xs ++ ys) = answers w xs ++ answers w ys :=
  List.flatMap_append

@[simp] theorem answers_singleton (w : Waiter) (mo : Moment) : answers w [mo] = mo.answersTo w :=
  List.flatMap_singleton _ _

@[simp] theorem times_concat (r : Request) (xs : List Moment) (mo : Moment) :
    times r (xs ++ [mo]) = times r xs ++ mo.times r := by
  simp [times]

theorem act_of_ends {outcome : Except ClientError Reply}
    (h : c.exchange.request.ends? (c.verdict policy now == .exhausted) a = some outcome) :
    act policy x now (some c) a = none := by
  cases a with
  | call c' => cases h
  | suback id code | unsuback id =>
    rw [act, Option.filter_eq_none_iff]
    intro c' hc'
    cases hc'
    exact fun hnone => by simp_all [Request.ends?]
  | tick =>
    cases hv : c.verdict policy now <;> simp [Request.ends?, hv] at h
    simp [act, Context.kept?, hv]
  | reset => rfl

theorem act_of_waits (hcall : ∀ c', a = .call c' → c'.request.id ≠ x)
    (h : c.exchange.request.ends? (c.verdict policy now == .exhausted) a = none) :
    ∃ c', act policy x now (some c) a = some c' ∧ c'.exchange = c.exchange ∧
      ∀ {times}, c.Records times → c'.Records
        (times ++ if a = .tick then (c.resent? policy now).toList.map fun _ => now else []) := by
  cases a with
  | call c' =>
    refine ⟨c, if_neg (hcall c' rfl), rfl, fun {times} hrecords => ?_⟩
    simpa using hrecords
  | suback id code | unsuback id =>
    refine ⟨c, ?_, rfl, fun {times} hrecords => by simpa using hrecords⟩
    rw [act, Option.filter_some, if_pos]
    exact Option.isNone_iff_eq_none.mpr h
  | tick =>
    rw [act, Option.bind_some, if_pos rfl]
    cases hv : c.verdict policy now with
    | waits =>
      refine ⟨c, by simp [Context.kept?, hv], rfl, fun {times} hrecords => ?_⟩
      simpa [Context.resent?, hv] using hrecords
    | overdue =>
      refine ⟨c.resend now, by simp [Context.kept?, hv], rfl, fun {times} hrecords => ?_⟩
      simpa [Context.resent?, hv] using hrecords.resend
    | exhausted => simp [Request.ends?, hv] at h
  | reset => cases h

theorem exchange_of_act {held : Option (Context Call)} (h : act policy x now held a = some c) :
    a = .call c.exchange ∨ ∃ c', held = some c' ∧ c'.exchange = c.exchange := by
  cases a with
  | call c' =>
    rw [act] at h
    split at h
    · cases h
      exact .inl rfl
    · exact .inr ⟨c, h, rfl⟩
  | suback id code | unsuback id => exact .inr ⟨c, (Option.filter_eq_some_iff.mp h).1, rfl⟩
  | tick =>
    obtain ⟨c', hheld, hkept⟩ := Option.bind_eq_some_iff.mp h
    exact .inr ⟨c', hheld, (Context.exchange_of_kept? hkept).symm⟩
  | reset => cases h

/-- What waits after a step waited before, unless the step was its call. -/
theorem origin_of_at (takes : s.Takes mo t) (sound : s.Sound policy) (h : t.At x (some c)) :
    mo.ask = .call c.exchange ∨ ∃ c', s.At x (some c') ∧ c'.exchange = c.exchange := by
  obtain ⟨held, hheld⟩ := sound.everywhere x
  obtain hcall | ⟨c', rfl, hsame⟩ := exchange_of_act ((takes.at_act sound hheld).unique h)
  · exact .inl hcall
  · exact .inr ⟨c', hheld, hsame⟩

theorem answersTo_of_gone {w : Waiter} (takes : s.Takes mo t) (sound : s.Sound policy)
    (gone : ∀ x c, s.At x (some c) → c.exchange.waiter ≠ w) : mo.answersTo w = [] := by
  have hanswers : ∀ a ∈ mo.output.answers, a.waiter ≠ w := by
    obtain ⟨x, c, reply, event, h, -, hanswers, -⟩ | ⟨-, hfails⟩ := tells_of_takes takes sound
    · rw [hanswers]
      rintro a ha
      obtain rfl := List.mem_singleton.mp ha
      exact gone x c h
    · intro a ha
      obtain ⟨-, x, c, h, hw⟩ := hfails a ha
      exact hw ▸ gone x c h
  rw [Moment.answersTo, toWaiter, List.filterMap_eq_nil_iff]
  exact fun a ha => if_neg (hanswers a ha)

theorem fresh_of_takes (takes : s.Takes mo t) (h : s.At x (some c)) {c' : Call}
    (hask : mo.ask = .call c') : c'.request.id ≠ x := by
  cases takes with
  | call now c'' fresh =>
    cases hask
    rintro rfl
    cases (not_contains_iff.mp fresh).unique h
  | suback | unsuback | tick | reset => cases hask

theorem result_of_takes (takes : s.Takes mo t) : mo.result = .ok () := by
  cases takes with
  | call now c fresh => obtain ⟨request | request, waiter⟩ := c <;> rfl
  | suback | unsuback | reset => rfl
  | tick now hfirst hsecond => rw [tickInOrder_eq hfirst hsecond]

/-- A call that was made waits without an answer, or was answered once and is gone. -/
inductive Fate (call : Call) (since : List Moment) (s : Subscriptions) : Prop
  | waits {c : Context Call} (h : s.At call.request.id (some c)) (exchange : c.exchange = call)
      (alone : s.Alone call.request.id call.waiter) (records : c.Records (times call.request since))
      (unanswered : answers call.waiter since = [])
  | answered (outcome : Except ClientError Reply) (h : answers call.waiter since = [outcome])
      (gone : ∀ x c, s.At x (some c) → c.exchange.waiter ≠ call.waiter)

theorem Fate.step (h : Fate call since s) (sound : s.Sound policy) (takes : s.Takes mo t)
    (hother : ∀ c, mo.ask = .call c → c.waiter ≠ call.waiter) : Fate call (since ++ [mo]) t := by
  cases h with
  | answered outcome h gone =>
    refine .answered outcome ?_ fun x c hc => ?_
    · rw [answers_append, answers_singleton, answersTo_of_gone takes sound gone, List.append_nil, h]
    · obtain hcall | ⟨c', hc', hsame⟩ := origin_of_at takes sound hc
      · exact hother _ hcall
      · exact hsame ▸ gone x c' hc'
  | @waits c h hexchange alone records unanswered =>
    subst hexchange
    have hanswers := answersTo_of_at takes sound h alone
    have hact := takes.at_act sound h
    cases hends : c.exchange.request.ends? (c.verdict policy mo.now == .exhausted) mo.ask with
    | none =>
      obtain ⟨c', hc', hsame, hrecords⟩ :=
        act_of_waits (fun c' hask => fresh_of_takes takes h hask) hends
      rw [hc'] at hact
      rw [hends] at hanswers
      refine .waits hact hsame ?_ ?_ ?_
      · intro x c'' hc'' hw
        obtain hcall | ⟨c₀, hc₀, hsame'⟩ := origin_of_at takes sound hc''
        · exact absurd hw (hother _ hcall)
        · exact alone x c₀ hc₀ (hsame' ▸ hw)
      · rw [times_concat, times_of_at takes sound h]
        exact hrecords records
      · rw [answers_append, answers_singleton, unanswered, hanswers]
        rfl
    | some outcome =>
      rw [act_of_ends hends] at hact
      rw [hends] at hanswers
      refine .answered outcome ?_ fun x c'' hc'' hw => ?_
      · rw [answers_append, answers_singleton, unanswered, hanswers]
        rfl
      · obtain hcall | ⟨c₀, hc₀, hsame'⟩ := origin_of_at takes sound hc''
        · exact hother _ hcall hw
        · obtain rfl := alone x c₀ hc₀ (hsame' ▸ hw)
          cases hact.unique hc''

/-- All that waits and all that was answered was called. -/
structure Known (log : List Moment) (s : Subscriptions) : Prop where
  waiting : ∀ x c, s.At x (some c) → c.exchange ∈ calls log
  answered : ∀ w, answers w log ≠ [] → ∃ c ∈ calls log, c.waiter = w

theorem Known.step (h : Known log s) (sound : s.Sound policy) (takes : s.Takes mo t) :
    Known (log ++ [mo]) t where
  waiting x c hc := by
    rw [calls_append, List.mem_append]
    obtain hcall | ⟨c', hc', hsame⟩ := origin_of_at takes sound hc
    · exact .inr (by simp [calls, hcall, Ask.call?])
    · exact .inl (hsame ▸ h.waiting x c' hc')
  answered w hw := by
    simp only [calls_append, List.mem_append]
    by_cases hlog : answers w log = []
    · rw [answers_append, hlog, answers_singleton, List.nil_append] at hw
      have hwaits : ∃ x c, s.At x (some c) ∧ c.exchange.waiter = w := by
        by_contra hnone
        exact hw (answersTo_of_gone takes sound fun x c hc hw => hnone ⟨x, c, hc, hw⟩)
      obtain ⟨x, c, hc, rfl⟩ := hwaits
      exact ⟨c.exchange, .inl (h.waiting x c hc), rfl⟩
    · obtain ⟨c, hc, hw'⟩ := h.answered w hlog
      exact ⟨c, .inl hc, hw'⟩

theorem known_of_trace (h : Trace Takes (new policy) log s) : s.Sound policy ∧ Known log s := by
  have hstart : (new policy).Sound policy ∧ Known [] (new policy) := by
    refine ⟨sound_new policy, fun x c hc => ?_, fun w hw => absurd rfl hw⟩
    cases (at_new policy x).unique hc
  have hany : ∀ mo ∈ log, True := fun _ _ => trivial
  exact h.invariant (P := fun log s => s.Sound policy ∧ Known log s) hstart hany
    fun ⟨sound, known⟩ _ takes => ⟨takes.sound sound, known.step sound takes⟩

theorem fate_of_call (sound : s.Sound policy) (known : Known log s) (takes : s.Takes mo t)
    (hcall : mo.ask = .call call) (hown : ∀ c ∈ calls log, c.waiter ≠ call.waiter) :
    Fate call [mo] t := by
  have horigin : ∀ x c, t.At x (some c) → c.exchange.waiter = call.waiter →
      c.exchange = call := by
    intro x c hc hw
    obtain hask | ⟨c', hc', hsame⟩ := origin_of_at takes sound hc
    · exact Ask.call.inj (hask.symm.trans hcall)
    · exact absurd hw (hown _ (hsame ▸ known.waiting x c' hc'))
  cases takes with
  | call now c fresh =>
    obtain rfl := Ask.call.inj hcall
    have hat := at_call policy fresh (not_contains_iff.mp fresh) now
    rw [act, if_pos rfl] at hat
    refine .waits hat rfl (fun x c' hc' hw => ?_) ?_ ?_
    · rw [← hc'.named, horigin x c' hc' hw]
    · have htimes : times c.request [⟨now, .call c, (s.call c now).output, (s.call c now).result⟩] =
          [now] := by
        simp [times, Moment.times, output_call fresh, Output.ofPackets]
      rw [htimes]
      exact Context.records_restart _ now
    · rw [answers_singleton, Moment.answersTo, output_call fresh]
      rfl
  | suback | unsuback | tick | reset => cases hcall

/-- What a call is answered next, if it still waits, is told by the history since it was made. -/
theorem Fate.answersTo_eq (h : Fate call since s) (sound : s.Sound policy) (takes : s.Takes mo t) :
    mo.answersTo call.waiter =
      if answers call.waiter since = [] then
        (call.request.ends? (policy.isExhausted (times call.request since) mo.now) mo.ask).toList
      else [] := by
  cases h with
  | answered outcome h gone => rw [answersTo_of_gone takes sound gone, if_neg (by simp [h])]
  | @waits c h hexchange alone records unanswered =>
    subst hexchange
    have hspent : (c.verdict policy mo.now == .exhausted) =
        policy.isExhausted (times c.exchange.request since) mo.now := by
      rw [Bool.eq_iff_iff, beq_iff_eq]
      exact records.verdict_eq_exhausted_iff policy mo.now
    rw [answersTo_of_at takes sound h alone, hspent, if_pos unanswered]

section Life
variable {past life : List Moment} {e : Moment}

/-- Waiters that no two calls share tell the calls before and after from this one. -/
theorem waiter_ne_of_nodup (hcall : e.ask = .call call)
    (hown : ((calls (past ++ e :: life)).map Call.waiter).Nodup) :
    (∀ c ∈ calls past, c.waiter ≠ call.waiter) ∧ ∀ c ∈ calls life, c.waiter ≠ call.waiter := by
  have hcalls : calls (e :: life) = call :: calls life := by simp [calls, hcall, Ask.call?]
  rw [calls_append, hcalls, List.map_append, List.map_cons] at hown
  have hcons := List.nodup_middle.mp hown
  obtain ⟨hmem, -⟩ := List.nodup_cons.mp hcons
  rw [List.mem_append, not_or] at hmem
  constructor
  · intro c hc hw
    exact hmem.1 (hw ▸ List.mem_map_of_mem hc)
  · intro c hc hw
    exact hmem.2 (hw ▸ List.mem_map_of_mem hc)

theorem fate_of_trace (h : Trace Takes (new policy) (past ++ e :: life) s)
    (hcall : e.ask = .call call) (hpast : ∀ c ∈ calls past, c.waiter ≠ call.waiter)
    (hlife : ∀ c ∈ calls life, c.waiter ≠ call.waiter) :
    s.Sound policy ∧ Fate call (e :: life) s := by
  obtain ⟨s₁, s₂, hbefore, htakes, hafter⟩ := h.middle
  obtain ⟨sound, known⟩ := known_of_trace hbefore
  have hother : ∀ mo ∈ life, ∀ c, mo.ask = .call c → c.waiter ≠ call.waiter := by
    intro mo hmo c hc
    exact hlife c (List.mem_filterMap.mpr ⟨mo, hmo, by rw [hc]; rfl⟩)
  exact hafter.invariant (P := fun since s => s.Sound policy ∧ Fate call since s)
    ⟨htakes.sound sound, fate_of_call sound known htakes hcall hpast⟩ hother
    fun ⟨sound, fate⟩ hmo takes => ⟨takes.sound sound, fate.step sound takes hmo⟩

theorem answers_of_trace (h : Trace Takes (new policy) (past ++ e :: life) s)
    (hpast : ∀ c ∈ calls past, c.waiter ≠ call.waiter) : answers call.waiter past = [] := by
  obtain ⟨s₁, s₂, hbefore, -, -⟩ := h.middle
  obtain ⟨-, known⟩ := known_of_trace hbefore
  by_contra hanswered
  obtain ⟨c, hc, hw⟩ := known.answered call.waiter hanswered
  exact hpast c hc hw

end Life

/-- What the tables hold under an identifier, as calls. -/
def Tracks (s : Subscriptions) (x : UInt16) (call : Call) : Prop :=
  (∃ e, s.subscribes.get? x = some e ∧
      call = ⟨.subscribe e.exchange.request, e.exchange.waiter⟩) ∨
    ∃ e, s.unsubscribes.get? x = some e ∧
      call = ⟨.unsubscribe e.exchange.request, e.exchange.waiter⟩

theorem Sound.tracks_iff (sound : s.Sound policy) :
    s.Tracks x call ↔ ∃ c, s.At x (some c) ∧ c.exchange = call := by
  constructor
  · rintro (⟨e, he, rfl⟩ | ⟨e, he, rfl⟩)
    · exact ⟨_, sound.at_subscribe he, rfl⟩
    · exact ⟨_, sound.at_unsubscribe he, rfl⟩
  · rintro ⟨c, h, rfl⟩
    generalize hheld : some c = held at h
    cases h with
    | idle => cases hheld
    | subscribe he => cases hheld; exact .inl ⟨_, he, rfl⟩
    | unsubscribe _ he => cases hheld; exact .inr ⟨_, he, rfl⟩

theorem Fate.answered_or_tracked (h : Fate call since s) (sound : s.Sound policy) :
    (answers call.waiter since).length ≤ 1 ∧
      (answers call.waiter since = [] → s.Tracks call.request.id call) ∧
      (answers call.waiter since ≠ [] →
        ∀ x call', s.Tracks x call' → call'.waiter ≠ call.waiter) := by
  cases h with
  | waits hat hexchange _ _ unanswered =>
    refine ⟨?_, fun _ => sound.tracks_iff.mpr ⟨_, hat, hexchange⟩, absurd unanswered⟩
    rw [unanswered]
    exact Nat.zero_le 1
  | answered outcome hone gone =>
    refine ⟨?_, fun hnone => ?_, fun _ x call' htracks => ?_⟩
    · rw [hone]
      exact Nat.le_refl 1
    · cases hone.symm.trans hnone
    · obtain ⟨c, hat, rfl⟩ := sound.tracks_iff.mp htracks
      exact gone x c hat

/-- Only calls that were made are answered, and the application is told of those that succeed. -/
theorem told_of_trace {past rest : List Moment}
    (h : Trace Takes (new policy) (past ++ mo :: rest) s) :
    (∀ a ∈ mo.output.answers, ∃ call ∈ calls past, call.waiter = a.waiter) ∧
      ((∃ call ∈ calls past, ∃ reply event, call.request.Confirms reply event ∧
          mo.output.answers = [⟨call.waiter, .ok reply⟩] ∧ mo.output.events = [event]) ∨
        mo.output.events = [] ∧ ∀ a ∈ mo.output.answers, ∃ error, a.outcome = .error error) := by
  obtain ⟨s₁, s₂, hbefore, htakes, -⟩ := h.middle
  obtain ⟨sound, known⟩ := known_of_trace hbefore
  obtain ⟨x, c, reply, event, hat, hconfirms, hanswers, hevents⟩ | ⟨hevents, hfails⟩ :=
    tells_of_takes htakes sound
  · have hcall := known.waiting x c hat
    refine ⟨fun a ha => ⟨c.exchange, hcall, ?_⟩,
      .inl ⟨c.exchange, hcall, reply, event, hconfirms, hanswers, hevents⟩⟩
    rw [hanswers, List.mem_singleton] at ha
    rw [ha]
  · refine ⟨fun a ha => ?_, .inr ⟨hevents, fun a ha => (hfails a ha).1⟩⟩
    obtain ⟨-, x, c, hat, hw⟩ := hfails a ha
    exact ⟨c.exchange, known.waiting x c hat, hw⟩

theorem not_tracks_of_reset {past : List Moment}
    (h : Trace Takes (new policy) (past ++ [mo]) s) (hreset : mo.ask = .reset) (x : UInt16)
    (call : Call) : ¬ s.Tracks x call := by
  obtain ⟨s₁, s₂, hbefore, htakes, hafter⟩ := h.middle
  cases hafter
  obtain ⟨sound, -⟩ := known_of_trace hbefore
  intro htracks
  obtain ⟨c, hat, -⟩ := (htakes.sound sound).tracks_iff.mp htracks
  obtain hask | ⟨c', hat', -⟩ := origin_of_at htakes sound hat
  · cases hreset.symm.trans hask
  · have hnone := htakes.at_act sound hat'
    rw [hreset] at hnone
    cases hnone.unique hat

/-- Every call that waits is answered once, by what ends its request. -/
theorem answered_once (h : Trace Takes (new policy) log s)
    (hown : ((calls log).map Call.waiter).Nodup) :
    (∀ past e life call, log = past ++ e :: life → e.ask = .call call →
      answers call.waiter (past ++ [e]) = [] ∧ (answers call.waiter log).length ≤ 1 ∧
        (answers call.waiter log = [] → s.Tracks call.request.id call) ∧
        (answers call.waiter log ≠ [] → ∀ x call', s.Tracks x call' → call'.waiter ≠ call.waiter) ∧
        ∀ before mo after, life = before ++ mo :: after →
          mo.answersTo call.waiter =
            if answers call.waiter (e :: before) = [] then
              (call.request.ends? (policy.isExhausted (times call.request (e :: before)) mo.now)
                mo.ask).toList
            else []) ∧
      (∀ past mo rest, log = past ++ mo :: rest → mo.result = .ok () ∧
        (∀ a ∈ mo.output.answers, ∃ call ∈ calls past, call.waiter = a.waiter) ∧
          ((∃ call ∈ calls past, ∃ reply event, call.request.Confirms reply event ∧
              mo.output.answers = [⟨call.waiter, .ok reply⟩] ∧ mo.output.events = [event]) ∨
            mo.output.events = [] ∧
              ∀ a ∈ mo.output.answers, ∃ error, a.outcome = .error error)) ∧
      ∀ past mo, log = past ++ [mo] → mo.ask = .reset →
        (∀ x call, ¬ s.Tracks x call) ∧ ∀ call ∈ calls log, answers call.waiter log ≠ [] := by
  have hanswers : ∀ {past e life call}, log = past ++ e :: life → e.ask = .call call →
      ∀ xs, answers call.waiter (past ++ xs) = answers call.waiter xs := by
    rintro past e life call rfl hcall xs
    rw [answers_append, answers_of_trace h (waiter_ne_of_nodup hcall hown).1, List.nil_append]
  have hfate : ∀ {past e life call}, log = past ++ e :: life → e.ask = .call call →
      s.Sound policy ∧ Fate call (e :: life) s := by
    rintro past e life call rfl hcall
    obtain ⟨hpast, hlife⟩ := waiter_ne_of_nodup hcall hown
    exact fate_of_trace h hcall hpast hlife
  refine ⟨?_, ?_, ?_⟩
  · intro past e life call hlog hcall
    obtain ⟨sound, fate⟩ := hfate hlog hcall
    rw [hanswers hlog hcall, hlog, hanswers hlog hcall]
    obtain ⟨hone, htracked, hgone⟩ := fate.answered_or_tracked sound
    subst hlog
    obtain ⟨hpast, hlife⟩ := waiter_ne_of_nodup hcall hown
    refine ⟨?_, hone, htracked, hgone, ?_⟩
    · obtain ⟨s₁, s₂, hbefore, htakes, -⟩ := h.middle
      obtain ⟨sound, known⟩ := known_of_trace hbefore
      rw [answers_singleton]
      exact answersTo_of_gone htakes sound fun x c hat => hpast _ (known.waiting x c hat)
    · rintro before mo after rfl
      have hlog : Trace Takes (new policy) ((past ++ e :: before) ++ mo :: after) s := by
        simpa using h
      obtain ⟨s₁, s₂, hbefore, htakes, -⟩ := hlog.middle
      obtain ⟨sound, fate⟩ := fate_of_trace hbefore hcall hpast fun c hc => hlife c (by simp [hc])
      exact fate.answersTo_eq sound htakes
  · rintro past mo rest rfl
    obtain ⟨s₁, s₂, -, htakes, -⟩ := h.middle
    exact ⟨result_of_takes htakes, told_of_trace h⟩
  · rintro past mo hlog hreset
    have hempty := not_tracks_of_reset (hlog ▸ h) hreset
    refine ⟨hempty, fun call hmem hunanswered => ?_⟩
    obtain ⟨e, he, hcalls⟩ := List.mem_filterMap.mp hmem
    have hcall := Ask.call?_eq_some.mp hcalls
    obtain ⟨before, life, hsplit⟩ := List.append_of_mem he
    obtain ⟨sound, fate⟩ := hfate hsplit hcall
    rw [hsplit, hanswers hsplit hcall] at hunanswered
    exact hempty _ call ((fate.answered_or_tracked sound).2.1 hunanswered)

end Fates

/-- Two calls: the request of one is acknowledged after its second attempt, and the connection is
lost before the other's is. -/
def exchanges : List Moment :=
  let q : Subscribe := ⟨7, ⟨"in", .refl true⟩, .atLeastOnce⟩
  let r : Unsubscribe := ⟨3, ⟨"out", .refl true⟩⟩
  [⟨0, .call ⟨.subscribe q, 0⟩, .ofPackets [.ofBody (.subscribe q)], .ok ()⟩,
    ⟨6, .tick, .ofPackets [.ofBody (.subscribe q)], .ok ()⟩,
    ⟨7, .call ⟨.unsubscribe r, 1⟩, .ofPackets [.ofBody (.unsubscribe r)], .ok ()⟩,
    ⟨8, .suback 7 (.granted .atLeastOnce),
      { events := [.subscribed 7 q.filter (.granted .atLeastOnce)]
        answers := [⟨0, .ok (.subscribed (.granted .atLeastOnce))⟩] }, .ok ()⟩,
    ⟨9, .unsuback 7, {}, .ok ()⟩,
    ⟨10, .reset, .ofAnswers [⟨1, .error .connectionLost⟩], .ok ()⟩]

theorem trace_exchanges : ∃ s, Trace Takes (.new ⟨5, 2⟩) exchanges s :=
  ⟨_, .cons (.call 0 ⟨.subscribe ⟨7, ⟨"in", by decide⟩, .atLeastOnce⟩, 0⟩ rfl) rfl <|
    .cons (.tick 6 (.refl _) (.refl _)) rfl <|
    .cons (.call 7 ⟨.unsubscribe ⟨3, ⟨"out", by decide⟩⟩, 1⟩ rfl) rfl <|
    .cons (.suback 8 7 (.granted .atLeastOnce)) rfl <|
    .cons (.unsuback 9 7) rfl <|
    .cons (.reset 10) (by rfl) <|
    .idle _⟩

theorem answered_once_exchanges :
    ∃ s, Trace Takes (.new ⟨5, 2⟩) exchanges s ∧ ((calls exchanges).map Call.waiter).Nodup ∧
      answers 0 exchanges = [.ok (.subscribed (.granted .atLeastOnce))] ∧
      (answers 0 exchanges).length ≤ 1 ∧ (∀ x call, s.Tracks x call → call.waiter ≠ 0) ∧
      answers 1 exchanges ≠ [] ∧ ∀ x call, ¬ s.Tracks x call := by
  obtain ⟨s, run⟩ := trace_exchanges
  have hown : ((calls exchanges).map Call.waiter).Nodup := by decide
  have hanswers : answers 0 exchanges = [.ok (.subscribed (.granted .atLeastOnce))] := rfl
  obtain ⟨hcalls, -, hreset⟩ := answered_once run hown
  obtain ⟨-, hone, -, hgone, -⟩ := hcalls [] _ (exchanges.drop 1) _ rfl rfl
  obtain ⟨hempty, hall⟩ := hreset (exchanges.take 5) _ rfl rfl
  refine ⟨s, run, hown, hanswers, hone, hgone ?_, hall _ (List.getElem_mem (n := 1) ?_), hempty⟩
  · exact List.cons_ne_nil _ _ ∘ hanswers.symm.trans
  · decide

end Subscriptions

end Mqtt
