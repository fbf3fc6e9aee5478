import Mqtt.Proofs.Discipline

/-!
# Deadlines

An exchange that nobody answers is given up in bounded time. Each of its attempts waits for the
first tick after the retry delay, so with ticks that are never further apart than a gap an attempt
costs at least the delay, and at most the delay and the gap. The record may hold any other request
in between, as long as nothing else ends the exchange.
-/
namespace Mqtt

namespace Context
variable {α : Type} {policy : RetryPolicy} {now : Time} {c : Context α}

theorem le_wait_of_waits (h : c.verdict policy now = .waits) : now ≤ c.lastSent + policy.delay := by
  cases h ▸ c.judged policy now with
  | waits hwait => exact Nat.sub_le_iff_le_add'.mp hwait

theorem limit_le_of_exhausted (h : c.verdict policy now = .exhausted) :
    policy.limit ≤ c.attempt ∧ c.lastSent + policy.delay < now := by
  cases h ▸ c.judged policy now with
  | exhausted hwait hlimit =>
    exact ⟨hlimit, Nat.not_le.mp (mt Nat.sub_le_iff_le_add'.mpr hwait)⟩

end Context

namespace RetryTable

section Ticks
variable {α : Type} [Exchange α]

namespace Entry

def tick? (e : Entry α) : Option Time :=
  match e.request with
  | .tick => some e.now
  | .enqueue _ | .requeue _ | .finalize _ | .take _ | .reset => none

/-- A tick takes out what was tracked under the identifier. -/
def GivesUp (x : UInt16) (e : Entry α) : Prop := e.request = .tick ∧ e.Removes x

/-- A tick gives the exchange back as one that failed after so many attempts. -/
def GivesBack (exchange : α) (attempts : Nat) (e : Entry α) : Prop :=
  e.request = .tick ∧ ∃ es, e.result = .ok es ∧
    ∃ c ∈ es, c.exchange = exchange ∧ c.attempt = attempts ∧ c.finished = true ∧ c.succeeded = false

/-- What is tracked under the identifier is replaced, or taken out by anything but a tick. -/
def Disturbs (x : UInt16) (e : Entry α) : Prop :=
  e.Enters x ∨ e.request ≠ .tick ∧ e.Removes x

end Entry

/-- When the ticks of a record were. -/
def ticks (log : List (Entry α)) : List Time := log.filterMap Entry.tick?

/-- Until a tick gives up what is tracked under the identifier, nothing else disturbs it. -/
def LeftAlone (x : UInt16) : List (Entry α) → Prop
  | [] => True
  | e :: rest => e.GivesUp x ∨ ¬ e.Disturbs x ∧ LeftAlone x rest

end Ticks

/-- Times that never go back and are at most a gap apart, the first of them bounded, and that reach
a deadline. -/
structure Regular (gap : Nat) (bound deadline : Time) (times : List Time) : Prop where
  first : ∀ now ∈ times.head?, now ≤ bound
  steady : times.IsChain fun earlier later => earlier ≤ later ∧ later ≤ earlier + gap
  reaches : ∃ now ∈ times, deadline ≤ now

theorem Regular.head {gap : Nat} {bound deadline now : Time} {times : List Time}
    (h : Regular gap bound deadline (now :: times)) : now ≤ bound :=
  h.first now rfl

theorem Regular.tail {gap : Nat} {bound deadline now : Time} {times : List Time}
    (h : Regular gap bound deadline (now :: times)) (early : now < deadline) :
    Regular gap (now + gap) deadline times where
  first later hlater := ((List.isChain_cons.mp h.steady).1 later hlater).2
  steady := (List.isChain_cons.mp h.steady).2
  reaches := by
    obtain ⟨last, hlast, hreach⟩ := h.reaches
    obtain rfl | hlast := List.mem_cons.mp hlast
    · exact absurd hreach (Nat.not_le.mpr early)
    · exact ⟨last, hlast, hreach⟩

/-! ## What an entry does to an exchange that is left alone -/

section Steps
variable {α : Type} [Exchange α] {policy : RetryPolicy} {t t' : RetryTable α} {e : Entry α}
  {x : UInt16} {c : Context α} {rest : List (Entry α)}

theorem LeftAlone.tail (h : LeftAlone x (e :: rest)) (stays : ¬ e.GivesUp x) :
    ¬ e.Disturbs x ∧ LeftAlone x rest :=
  h.resolve_left stays

theorem Entry.GivesBack.givesUp {exchange : α} {attempts : Nat} (h : e.GivesBack exchange attempts) :
    e.GivesUp (Exchange.id exchange) := by
  obtain ⟨htick, es, hes, c, hc, rfl, -⟩ := h
  refine ⟨htick, ?_⟩
  rw [Entry.Removes, htick]
  exact ⟨es, hes, c, hc, rfl⟩

omit [Exchange α] in
theorem ticks_cons_of_tick (htick : e.request = .tick) : ticks (e :: rest) = e.now :: ticks rest := by
  rw [ticks, List.filterMap_cons, Entry.tick?, htick, ticks]

omit [Exchange α] in
theorem ticks_cons_of_ne (hother : e.request ≠ .tick) : ticks (e :: rest) = ticks rest := by
  rw [ticks, List.filterMap_cons, Entry.tick?]
  cases hrequest : e.request with
  | tick => exact absurd hrequest hother
  | enqueue | requeue | finalize | take | reset => rfl

/-- What a tick does under an identifier. -/
theorem Takes.ticked (takes : t.Takes e t') (sound : t.Sound policy) (htick : e.request = .tick)
    (x : UInt16) :
    t'.get? x = (t.get? x).bind (Context.kept? policy e.now) ∧
      e.times x = ((t.get? x).bind (Context.resent? policy e.now)).toList.map (fun _ => e.now) ∧
      (e.GivesUp x ↔ ((t.get? x).bind (Context.exhausted? policy e.now)).isSome = true) := by
  cases takes with
  | tick now horder =>
    rw [← sound.policy]
    refine ⟨get?_tickInOrder horder now x, ?_,
      (and_iff_right rfl).trans (removes_tick_iff sound horder)⟩
    rw [Entry.times, filter_journal horder, List.map_map]
    rfl
  | enqueue | requeue | finalize | take | reset => cases htick

/-- An exchange that a tick finds exhausted is among those that it gives back. -/
theorem Takes.givesBack (takes : t.Takes e t') (sound : t.Sound policy) (htick : e.request = .tick)
    (hc : t.get? x = some c) (hv : c.verdict policy e.now = .exhausted) :
    e.GivesBack c.exchange c.attempt := by
  cases takes with
  | tick now horder =>
    have hmem := (mem_exhausted_iff horder).mpr ⟨x, c, hc, by rw [sound.policy]; exact hv, rfl⟩
    exact ⟨rfl, _, tickInOrder_result horder now, c.finish false, hmem, rfl, rfl, rfl, rfl⟩
  | enqueue | requeue | finalize | take | reset => cases htick

/-- What is asked at other times leaves an exchange that it does not disturb as it is. -/
theorem Takes.undisturbed (takes : t.Takes e t') (sound : t.Sound policy) (hother : e.request ≠ .tick)
    (hquiet : ¬ e.Disturbs x) : t'.get? x = t.get? x ∧ e.times x = [] := by
  obtain ⟨henters, hremoves⟩ := not_or.mp hquiet
  have hsees := takes.sees sound x
  generalize t'.get? x = held' at hsees ⊢
  cases hsees with
  | entered h hid => exact absurd ⟨_, h, hid⟩ henters
  | ticked h => exact absurd h hother
  | removed _ h => exact absurd ⟨hother, h⟩ hremoves
  | quiet _ _ htimes => exact ⟨rfl, htimes⟩

theorem Takes.entered {exchange : α} (takes : t.Takes e t') (sound : t.Sound policy)
    (hentered : e.request.entered? = some exchange) :
    e.times (Exchange.id exchange) = [e.now] ∧
      t'.get? (Exchange.id exchange) = some ((Context.new exchange e.now).restart e.now) := by
  have hsees := takes.sees sound (Exchange.id exchange)
  generalize t'.get? (Exchange.id exchange) = held' at hsees ⊢
  cases hsees with
  | entered h _ htimes =>
    obtain rfl := Option.some.inj (h.symm.trans hentered)
    exact ⟨htimes, rfl⟩
  | ticked htick => exact absurd ⟨exchange, hentered, rfl⟩ (not_enters_of_tick htick)
  | removed henters | quiet henters => exact absurd ⟨exchange, hentered, rfl⟩ henters

/-- Where nothing is tracked nothing is given up. -/
theorem Takes.of_none (takes : t.Takes e t') (sound : t.Sound policy) (hnone : t.get? x = none)
    (henters : ¬ e.Enters x) : t'.get? x = none ∧ e.times x = [] ∧ ¬ e.GivesUp x := by
  have hsees := takes.sees sound x
  rw [hnone] at hsees
  obtain ⟨hnone', htimes⟩ := hsees.of_none henters
  refine ⟨hnone', htimes, fun hgives => ?_⟩
  have hspent := (takes.ticked sound hgives.1 x).2.2.mp hgives
  simp [hnone] at hspent

end Steps

/-! ## How long an exchange waits -/

section Waiting
variable {α : Type} {policy : RetryPolicy} {start next now : Time} {gap : Nat} {c : Context α}

/-- How far an exchange that was entered at `start` has come, when a tick comes at `next` or
before. -/
structure Waiting (policy : RetryPolicy) (start : Time) (gap : Nat) (next : Time) (c : Context α) :
    Prop where
  attempt : c.attempt ≤ policy.limit
  /-- Every wait that is over took the delay at least. -/
  earliest : start + c.attempt * policy.delay ≤ c.lastSent + policy.delay
  /-- None of them took more than the delay and a gap. -/
  latest : c.lastSent + (policy.delay + gap) ≤ start + c.attempt * (policy.delay + gap)
  soon : next ≤ c.lastSent + (policy.delay + gap)
  /-- Without a gap all ticks come at once. -/
  still : gap = 0 → next ≤ c.lastSent

/-- When an exchange that was entered at `start` has been given up. -/
def deadline (policy : RetryPolicy) (start : Time) (gap : Nat) : Time :=
  start + policy.limit * (policy.delay + gap)

theorem waiting_restart (hlimit : 1 ≤ policy.limit) (c : Context α) (start : Time) (gap : Nat) :
    Waiting policy start gap (start + gap) (c.restart start) where
  attempt := hlimit
  earliest := by simp [Context.restart]
  latest := by simp [Context.restart]
  soon := by simp only [Context.restart]; lia
  still h := by simp [Context.restart, h]

theorem Waiting.latest_le (h : Waiting policy start gap next c) :
    c.lastSent + (policy.delay + gap) ≤ deadline policy start gap := by
  have hle := Nat.mul_le_mul_right (policy.delay + gap) h.attempt
  exact h.latest.trans (Nat.add_le_add_left hle start)

/-- A tick that comes too early for the exchange comes before the deadline. -/
theorem Waiting.early_of_waits (h : Waiting policy start gap next c) (hgap : 0 < policy.delay + gap)
    (hnow : now ≤ next) (hv : c.verdict policy now = .waits) :
    now < deadline policy start gap := by
  have hwait := Context.le_wait_of_waits hv
  have hle := h.latest_le
  obtain rfl | hpos := Nat.eq_zero_or_pos gap
  · have hstill := h.still rfl
    lia
  · lia

/-- A tick at which the exchange is written again comes before the deadline. -/
theorem Waiting.early_of_overdue (h : Waiting policy start gap next c)
    (hgap : 0 < policy.delay + gap) (hnow : now ≤ next) (hv : c.verdict policy now = .overdue) :
    now < deadline policy start gap := by
  have hattempt := Context.attempt_lt_of_overdue hv
  have hle := Nat.mul_le_mul_right (policy.delay + gap) (Nat.succ_le_of_lt hattempt)
  have hlatest := h.latest
  have hsoon := h.soon
  rw [Nat.succ_mul] at hle
  rw [deadline]
  lia

theorem Waiting.waits (h : Waiting policy start gap next c) (hnow : now ≤ next)
    (hv : c.verdict policy now = .waits) : Waiting policy start gap (now + gap) c := by
  have hwait := Context.le_wait_of_waits hv
  refine ⟨h.attempt, h.earliest, h.latest, by lia, fun hzero => ?_⟩
  have hstill := h.still hzero
  lia

theorem Waiting.resend (h : Waiting policy start gap next c) (hnow : now ≤ next)
    (hv : c.verdict policy now = .overdue) : Waiting policy start gap (now + gap) (c.resend now) := by
  have hover := Context.wait_lt_of_overdue hv
  obtain ⟨-, hearliest, hlatest, hsoon, -⟩ := h
  refine ⟨Context.attempt_lt_of_overdue hv, ?_, ?_, ?_, fun hzero => ?_⟩
  · simp only [Context.resend, Nat.succ_mul]
    lia
  · simp only [Context.resend, Nat.succ_mul]
    lia
  · simp only [Context.resend]
    lia
  · simp [Context.resend, hzero]

/-- The tick that finds the exchange exhausted comes neither too early nor too late. -/
theorem Waiting.exhausted (h : Waiting policy start gap next c) (hnow : now ≤ next)
    (hv : c.verdict policy now = .exhausted) : c.attempt = policy.limit ∧
      start + policy.limit * policy.delay < now ∧ now ≤ deadline policy start gap := by
  obtain ⟨hlimit, hover⟩ := Context.limit_le_of_exhausted hv
  have hattempt := Nat.le_antisymm h.attempt hlimit
  have hearliest := h.earliest
  have hle := h.latest_le
  have hsoon := h.soon
  rw [hattempt] at hearliest
  refine ⟨hattempt, ?_, ?_⟩ <;> lia

end Waiting

/-! ## The end of an exchange -/

section Deadlines
variable {α : Type} [Exchange α] {policy : RetryPolicy} {t t' : RetryTable α} {e : Entry α}
  {x : UInt16} {c : Context α} {exchange : α} {start next : Time} {gap : Nat}
  {past rest : List (Entry α)}

/-- What is tracked under the identifier is given up for the first time by the entry, in due time
and after so many writes. -/
structure GivenUp (policy : RetryPolicy) (start : Time) (gap : Nat) (exchange : α) (writes : Nat)
    (before : List (Entry α)) (e : Entry α) : Prop where
  givesBack : e.GivesBack exchange policy.limit
  notBefore : start + policy.limit * policy.delay < e.now
  inTime : e.now ≤ deadline policy start gap
  writes : (times (Exchange.id exchange) (before ++ [e])).length = writes
  first : ∀ e' ∈ before, ¬ e'.GivesUp (Exchange.id exchange)

theorem GivenUp.cons {writes : Nat} {before : List (Entry α)} {e' : Entry α}
    (h : GivenUp policy start gap exchange writes before e')
    (stays : ¬ e.GivesUp (Exchange.id exchange)) :
    GivenUp policy start gap exchange ((e.times (Exchange.id exchange)).length + writes)
      (e :: before) e' where
  givesBack := h.givesBack
  notBefore := h.notBefore
  inTime := h.inTime
  writes := by
    rw [List.cons_append, times, List.flatMap_cons, List.length_append, ← h.writes, times]
  first := List.forall_mem_cons.mpr ⟨stays, h.first⟩

/-- An exchange that waits is given up before the ticks have reached its deadline. -/
theorem Waiting.exists_givenUp (h : Trace Takes t rest t') (hgap : 0 < policy.delay + gap)
    (sound : t.Sound policy) (hc : t.get? (Exchange.id exchange) = some c)
    (hexchange : c.exchange = exchange) (waiting : Waiting policy start gap next c)
    (alone : LeftAlone (Exchange.id exchange) rest)
    (regular : Regular gap next (deadline policy start gap) (ticks rest)) :
    ∃ writes before e after, rest = before ++ e :: after ∧
      GivenUp policy start gap exchange writes before e ∧ c.attempt + writes = policy.limit := by
  induction h generalizing c next with
  | idle =>
    obtain ⟨now, hnow, -⟩ := regular.reaches
    cases hnow
  | @next t₁ t₂ _ e rest takes _ ih =>
    -- an entry that does not end the exchange may write it once more
    have later {c' : Context α} {next' : Time} (stays : ¬ e.GivesUp (Exchange.id exchange))
        (hget : t₂.get? (Exchange.id exchange) = some c') (hexchange' : c'.exchange = exchange)
        (hattempt : c'.attempt = c.attempt + (e.times (Exchange.id exchange)).length)
        (waiting' : Waiting policy start gap next' c')
        (regular' : Regular gap next' (deadline policy start gap) (ticks rest)) :
        ∃ writes before e' after, e :: rest = before ++ e' :: after ∧
          GivenUp policy start gap exchange writes before e' ∧
          c.attempt + writes = policy.limit := by
      obtain ⟨writes, before, e', after, rfl, given, hwrites⟩ :=
        ih (takes.sound sound) hget hexchange' waiting' (alone.tail stays).2 regular'
      refine ⟨_, e :: before, e', after, rfl, given.cons stays, ?_⟩
      rw [← hwrites, hattempt, Nat.add_assoc]
    by_cases htick : e.request = .tick
    · obtain ⟨hget, htimes, hgives⟩ := takes.ticked sound htick (Exchange.id exchange)
      rw [hc, Option.bind_some] at hget htimes hgives
      rw [ticks_cons_of_tick htick] at regular
      have hnow := regular.head
      cases hv : c.verdict policy e.now with
      | waits =>
        simp only [Context.kept?, Context.resent?, Context.exhausted?, hv] at hget htimes hgives
        exact later (by simp [hgives]) hget hexchange (by simp [htimes]) (waiting.waits hnow hv)
          (regular.tail (waiting.early_of_waits hgap hnow hv))
      | overdue =>
        simp only [Context.kept?, Context.resent?, Context.exhausted?, hv] at hget htimes hgives
        exact later (by simp [hgives]) hget hexchange (by simp [htimes, Context.resend])
          (waiting.resend hnow hv) (regular.tail (waiting.early_of_overdue hgap hnow hv))
      | exhausted =>
        simp only [Context.resent?, hv] at htimes
        obtain ⟨hattempt, hbefore, htime⟩ := waiting.exhausted hnow hv
        have hback := takes.givesBack sound htick hc hv
        rw [hexchange, hattempt] at hback
        exact ⟨0, [], e, rest, rfl, ⟨hback, hbefore, htime, by simp [times, htimes], by simp⟩,
          hattempt⟩
    · have stays : ¬ e.GivesUp (Exchange.id exchange) := fun hgives => htick hgives.1
      obtain ⟨hget, htimes⟩ := takes.undisturbed sound htick (alone.tail stays).1
      rw [ticks_cons_of_ne htick] at regular
      exact later stays (hget.trans hc) hexchange (by simp [htimes]) waiting regular

/-- Until it is entered again, an exchange that is not tracked is neither written nor given up. -/
theorem quiet_of_none (h : Trace Takes t rest t') (sound : t.Sound policy)
    (hnone : t.get? x = none) (hrest : ∀ e ∈ rest, ¬ e.Enters x) :
    ∀ e ∈ rest, e.times x = [] ∧ ¬ e.GivesUp x := by
  induction h with
  | idle => exact fun e he => absurd he List.not_mem_nil
  | next takes _ ih =>
    obtain ⟨henters, hrest⟩ := List.forall_mem_cons.mp hrest
    obtain ⟨hnone, hquiet⟩ := takes.of_none sound hnone henters
    exact List.forall_mem_cons.mpr ⟨hquiet, ih (takes.sound sound) hnone hrest⟩

/-- An exchange that nobody answers is given up by exactly one tick, after as many writes as are
allowed, each of which has waited for the delay and for no more than a gap on top of it. -/
theorem given_up_in_time (hlimit : 1 ≤ policy.limit) (hgap : 0 < policy.delay + gap)
    (h : Trace Takes (empty policy) (past ++ e :: rest) t)
    (hentered : e.request.entered? = some exchange)
    (alone : LeftAlone (Exchange.id exchange) rest)
    (regular : Regular gap (e.now + gap) (deadline policy e.now gap) (ticks rest)) :
    ∃ before e' after, rest = before ++ e' :: after ∧ e'.GivesBack exchange policy.limit ∧
      e.now + policy.limit * policy.delay < e'.now ∧
      e'.now ≤ e.now + policy.limit * (policy.delay + gap) ∧
      (times (Exchange.id exchange) (e :: (before ++ [e']))).length = policy.limit ∧
      (∀ e₀ ∈ before, ¬ e₀.GivesUp (Exchange.id exchange)) ∧
      ∀ life later, after = life ++ later → (∀ e₀ ∈ life, ¬ e₀.Enters (Exchange.id exchange)) →
        ∀ e₀ ∈ life, e₀.times (Exchange.id exchange) = [] ∧
          ¬ e₀.GivesUp (Exchange.id exchange) := by
  obtain ⟨t₁, t₂, hpast, takes, hrest⟩ := h.middle
  have sound := sound_of_trace hpast
  obtain ⟨htimes, hget⟩ := takes.entered sound hentered
  obtain ⟨writes, before, e', after, rfl, given, hwrites⟩ :=
    (waiting_restart hlimit _ e.now gap).exists_givenUp hrest hgap (takes.sound sound) hget rfl
      alone regular
  refine ⟨before, e', after, rfl, given.givesBack, given.notBefore, given.inTime, ?_, given.first, ?_⟩
  · rw [times, List.flatMap_cons, List.length_append, htimes, ← hwrites, ← given.writes]
    rfl
  · rintro life later rfl hlife
    obtain ⟨t₃, t₄, hbefore, gives, hafter⟩ := hrest.middle
    obtain ⟨t₅, hlived, -⟩ := hafter.split
    have sound₃ := hbefore.preserves (takes.sound sound) fun sound takes => takes.sound sound
    have hgone := (gives.sees sound₃ (Exchange.id exchange)).of_removes given.givesBack.givesUp.2
    exact quiet_of_none hlived (gives.sound sound₃) hgone hlife

end Deadlines

/-- The first tick comes too early for the exchange, which is given up by the one at 16. -/
def patience : List (Entry AckExchange) :=
  [⟨4, .tick, [], [], .ok []⟩,
    ⟨10, .tick, [.ofBody (.puback 7)], [(7, .ofBody (.puback 7))], .ok []⟩,
    ⟨16, .tick, [], [], .ok [⟨⟨7⟩, 2, 10, true, false⟩]⟩,
    ⟨22, .tick, [], [], .ok []⟩]

def firstAttempt (now : Time) : Entry AckExchange :=
  ⟨now, .enqueue ⟨7⟩, [.ofBody (.puback 7)], [(7, .ofBody (.puback 7))], .ok []⟩

/-- The table that tracks one exchange. -/
def tracking (policy : RetryPolicy) (c : Context AckExchange) : RetryTable AckExchange :=
  ⟨policy, (∅ : Contexts AckExchange).insert c.exchange.id c⟩

theorem trace_patience :
    ∃ t, Trace Takes (empty ⟨5, 2⟩) ([] ++ firstAttempt 0 :: patience) t := by
  have first : Takes (.empty ⟨5, 2⟩) (firstAttempt 0) (tracking ⟨5, 2⟩ ⟨⟨7⟩, 1, 0, false, false⟩) :=
    .enqueue 0 (⟨7⟩ : AckExchange)
  have early : Takes (tracking ⟨5, 2⟩ ⟨⟨7⟩, 1, 0, false, false⟩) ⟨4, .tick, [], [], .ok []⟩
      (tracking ⟨5, 2⟩ ⟨⟨7⟩, 1, 0, false, false⟩) :=
    .tick 4 (.refl _)
  have second : Takes (tracking ⟨5, 2⟩ ⟨⟨7⟩, 1, 0, false, false⟩)
      ⟨10, .tick, [.ofBody (.puback 7)], [(7, .ofBody (.puback 7))], .ok []⟩
      (tracking ⟨5, 2⟩ ⟨⟨7⟩, 2, 10, false, false⟩) :=
    .tick 10 (.refl _)
  have last : Takes (tracking ⟨5, 2⟩ ⟨⟨7⟩, 2, 10, false, false⟩)
      ⟨16, .tick, [], [], .ok [⟨⟨7⟩, 2, 10, true, false⟩]⟩ (.empty ⟨5, 2⟩) :=
    .tick 16 (.refl _)
  have after : Takes (.empty ⟨5, 2⟩ : RetryTable AckExchange) ⟨22, .tick, [], [], .ok []⟩
      (.empty ⟨5, 2⟩) :=
    .tick 22 (.refl _)
  exact ⟨_, .next first <| .next early <| .next second <| .next last <| .next after <| .idle _⟩

theorem given_up_in_time_patience :
    ∃ t, Trace Takes (empty ⟨5, 2⟩) ([] ++ firstAttempt 0 :: patience) t ∧ LeftAlone 7 patience ∧
      Regular 6 6 (deadline ⟨5, 2⟩ 0 6) (ticks patience) ∧
      ∃ before e' after, patience = before ++ e' :: after ∧ e'.GivesBack ⟨7⟩ 2 ∧
        10 < e'.now ∧ e'.now ≤ 22 ∧ (times 7 (firstAttempt 0 :: (before ++ [e']))).length = 2 := by
  obtain ⟨t, run⟩ := trace_patience
  have alone : LeftAlone 7 patience := by
    have hquiet : ∀ e ∈ patience, ¬ e.Disturbs 7 := by
      simp [patience, Entry.Disturbs, Entry.Enters, Request.entered?]
    simp only [patience, List.forall_mem_cons] at hquiet
    obtain ⟨h₄, h₁₀, -⟩ := hquiet
    exact .inr ⟨h₄, .inr ⟨h₁₀, .inl ⟨rfl, _, rfl, _, List.mem_cons_self, rfl⟩⟩⟩
  have regular : Regular 6 6 (deadline ⟨5, 2⟩ 0 6) (ticks patience) :=
    ⟨by decide, by decide, by decide⟩
  obtain ⟨before, e', after, hlog, hback, hbefore, htime, hwrites, -⟩ :=
    given_up_in_time (by decide) (by decide) run rfl alone regular
  exact ⟨t, run, alone, regular, before, e', after, hlog, hback, hbefore, htime, hwrites⟩

def atOnce : List (Entry AckExchange) := [⟨0, .tick, [], [], .ok []⟩]

/-- Without a delay and without a gap all ticks come at once, and at none of them the wait is
over. -/
theorem not_given_up_at_once :
    ∃ t, Trace Takes (empty ⟨0, 1⟩) ([] ++ firstAttempt 0 :: atOnce) t ∧ LeftAlone 7 atOnce ∧
      Regular 0 0 (deadline ⟨0, 1⟩ 0 0) (ticks atOnce) ∧ ∀ e ∈ atOnce, ¬ e.GivesUp 7 := by
  have first : Takes (.empty ⟨0, 1⟩) (firstAttempt 0) (tracking ⟨0, 1⟩ ⟨⟨7⟩, 1, 0, false, false⟩) :=
    .enqueue 0 (⟨7⟩ : AckExchange)
  have early : Takes (tracking ⟨0, 1⟩ ⟨⟨7⟩, 1, 0, false, false⟩) ⟨0, .tick, [], [], .ok []⟩
      (tracking ⟨0, 1⟩ ⟨⟨7⟩, 1, 0, false, false⟩) :=
    .tick 0 (.refl _)
  have hquiet : ∀ e ∈ atOnce, ¬ e.Disturbs 7 ∧ ¬ e.GivesUp 7 := by
    simp [atOnce, Entry.Disturbs, Entry.Enters, Request.entered?, Entry.GivesUp, Entry.Removes]
  obtain ⟨hdisturbs, hgives⟩ := hquiet _ List.mem_cons_self
  exact ⟨_, .next first <| .next early <| .idle _, .inr ⟨hdisturbs, trivial⟩,
    ⟨by decide, by decide, by decide⟩, fun e he => (hquiet e he).2⟩

end RetryTable

end Mqtt
