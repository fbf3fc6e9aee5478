import Mqtt.Proofs.Hold
import Mqtt.Proofs.Trace

/-!
# Releases of incoming messages

A PUBREL delivers what was received last under its identifier, and delivers it once. That it also
is answered when nothing is held has its price: a message whose PUBREC was written as often as
allowed is given up, and the PUBREL that comes after that completes it undelivered.
-/
namespace Mqtt

section Receptions
variable {x : UInt16}

@[simp] theorem receptions_concat (log : List Moment) (mo : Moment) :
    receptions x (log ++ [mo]) = receptions x log ++ (mo.trigger.receives? x).toList := by
  cases h : mo.trigger.receives? x <;> simp [receptions, h]

theorem receptions_eq_nil_iff {log : List Moment} :
    receptions x log = [] ↔ ∀ mo ∈ log, mo.trigger.receives? x = none :=
  List.filterMap_eq_nil_iff

theorem deliveries_concat (log : List Moment) (mo : Moment) :
    deliveries x (log ++ [mo]) = deliveries x log ++ mo.output.deliveriesOf x := by
  simp [deliveries]

@[simp] theorem deliveries_append (xs ys : List Moment) :
    deliveries x (xs ++ ys) = deliveries x xs ++ deliveries x ys :=
  List.flatMap_append

end Receptions

namespace Incoming

section Runs
variable {policy : RetryPolicy} {m m' : Incoming} {x : UInt16}

/-! ## At most once -/

/-- What is held is what was received last. -/
theorem held_of_run {log : List Moment} (run : Run Takes (.new policy) log m)
    {c : Context HeldExchange} (h : m.held x = some c) :
    (receptions x log).getLast? = some c.exchange.publish := by
  have persists : Persists policy x (fun _ => True) fun since held =>
      ∀ c, held = some c → (receptions x since).getLast? = some c.exchange.publish := by
    intro since held mo hP _ _ c' hc'
    rw [receptions_concat]
    cases ha : mo.trigger.receives? x with
    | some p =>
      rw [act_of_receives ha, Option.some.injEq] at hc'
      rw [← hc']
      exact List.getLast?_concat
    | none =>
      obtain ⟨c, hc, hexchange⟩ := exchange_of_act ha hc'
      rw [hexchange, Option.toList_none, List.append_nil]
      exact hP c hc
  exact persists.of_run run (sound_new policy) (by simp [held_new]) (fun _ _ => trivial) c h

theorem length_deliveries_act (policy : RetryPolicy) (now : Time)
    (held : Option (Context HeldExchange)) {a : Trigger} (ha : a.receives? x = none) :
    (act policy x now held a).deliveries.length + (act policy x now held a).held.toList.length ≤
      held.toList.length := by
  have hheld : (act policy x now held a).held.toList.length ≤ held.toList.length := by
    cases hc' : (act policy x now held a).held with
    | none => exact Nat.zero_le _
    | some c' =>
      obtain ⟨c, hc, -⟩ := exchange_of_act ha hc'
      rw [hc]
      exact Nat.le_refl 1
  by_cases hrel : a = .pubrel x
  · subst hrel
    cases held <;> simp [act]
  · rw [deliveries_act, if_neg hrel, List.length_nil, Nat.zero_add]
    exact hheld

/-- While nothing is received, at most what is held is delivered. -/
theorem length_deliveries_le {log : List Moment} (run : Run Takes m log m') (sound : m.Sound policy)
    (hlog : receptions x log = []) :
    (deliveries x log).length + (m'.held x).toList.length ≤ (m.held x).toList.length := by
  have persists : Persists policy x (fun mo => mo.trigger.receives? x = none) fun since held =>
      (deliveries x since).length + held.toList.length ≤ (m.held x).toList.length := by
    intro since held mo hP ha shown
    have hstep := length_deliveries_act policy mo.now held ha
    rw [deliveries_concat, List.length_append, shown.deliveries]
    omega
  exact persists.of_run run sound (by simp [deliveries]) (receptions_eq_nil_iff.mp hlog)

/-- Only a PUBREL delivers, and what it delivers was received last. -/
theorem delivered_of_run {past rest : List Moment} {mo : Moment} {q : PublishPacket}
    (run : Run Takes (.new policy) (past ++ mo :: rest) m) (hq : q ∈ mo.output.deliveriesOf x) :
    mo.trigger = .pubrel x ∧ (receptions x past).getLast? = some q := by
  obtain ⟨m₁, hpast, shown⟩ := shown_of_run run x
  rw [shown.deliveries, deliveries_act] at hq
  split at hq
  · next hmo =>
    obtain ⟨c, hc, rfl⟩ := Option.map_eq_some_iff.mp (Option.mem_toList.mp hq)
    exact ⟨hmo, held_of_run hpast hc⟩
  · contradiction

/-! ## At least once -/

/-- After the last message that was received, a tick found its PUBREC written as often as allowed
and the wait for its PUBREL over. -/
def Lapsed (policy : RetryPolicy) (x : UInt16) (log : List Moment) : Prop :=
  ∃ before t after, log = before ++ t :: after ∧ receptions x after = [] ∧ t.trigger = .tick ∧
    policy.isExhausted (attempts (· == .ofBody (.pubrec x)) before) t.now = true

theorem lapsed_concat {log : List Moment} {mo : Moment} (ha : mo.trigger.receives? x = none) :
    Lapsed policy x (log ++ [mo]) ↔ Lapsed policy x log ∨ (mo.trigger = .tick ∧
      policy.isExhausted (attempts (· == .ofBody (.pubrec x)) log) mo.now = true) := by
  constructor
  · rintro ⟨before, t, after, heq, hafter, ht, hexhausted⟩
    obtain ⟨rfl, rfl, rfl⟩ | ⟨older, rfl, rfl⟩ := Trace.middle_of_concat heq
    · exact .inr ⟨ht, hexhausted⟩
    · rw [receptions_concat, List.append_eq_nil_iff] at hafter
      exact .inl ⟨before, t, older, rfl, hafter.1, ht, hexhausted⟩
  · rintro (⟨before, t, after, rfl, hafter, ht, hexhausted⟩ | ⟨ht, hexhausted⟩)
    · refine ⟨before, t, after ++ [mo], by simp, ?_, ht, hexhausted⟩
      rw [receptions_concat, hafter, ha]
      rfl
    · exact ⟨log, mo, [], rfl, rfl, ht, hexhausted⟩

theorem not_lapsed_concat {log : List Moment} {mo : Moment} {p : PublishPacket}
    (ha : mo.trigger.receives? x = some p) : ¬ Lapsed policy x (log ++ [mo]) := by
  rintro ⟨before, t, after, heq, hafter, ht, -⟩
  obtain ⟨-, -, rfl⟩ | ⟨older, rfl, -⟩ := Trace.middle_of_concat heq
  · rw [ht] at ha
    contradiction
  · rw [receptions_concat, ha] at hafter
    simp at hafter

/-- What is held, by what has happened `since` some time, if something was received since then. -/
def Keeps (policy : RetryPolicy) (x : UInt16) (since : List Moment) :
    Option (Context HeldExchange) → Prop
  | some c => (receptions x since).getLast? = some c.exchange.publish ∧
      c.Records (attempts (· == .ofBody (.pubrec x)) since) ∧ ¬ Lapsed policy x since
  | none => Lapsed policy x since

theorem keeps_receive {since : List Moment} {held : Option (Context HeldExchange)} {mo : Moment}
    {p : PublishPacket} (ha : mo.trigger.receives? x = some p)
    (shown : Shown (act policy x mo.now held mo.trigger) x mo.output) :
    Keeps policy x (since ++ [mo]) (act policy x mo.now held mo.trigger).held := by
  have hpubrecs := shown.pubrecs
  rw [act_of_receives ha] at hpubrecs ⊢
  have hne : mo.trigger ≠ .tick := by
    rw [(receives?_eq_some.mp ha).1]
    simp
  refine ⟨?_, ?_, not_lapsed_concat ha⟩
  · rw [receptions_concat, ha]
    exact List.getLast?_concat
  · rw [attempts_of_restart hpubrecs hne]
    exact Context.records_restart _ _

theorem Keeps.quiet {since : List Moment} {held : Option (Context HeldExchange)} {mo : Moment}
    (h : Keeps policy x since held) (ha : mo.trigger.receives? x = none)
    (hpubrecs : mo.output.pubrecsOf x = [])
    (hmo : mo.trigger = .tick →
      policy.isExhausted (attempts (· == .ofBody (.pubrec x)) since) mo.now = false) :
    Keeps policy x (since ++ [mo]) held := by
  have hlapsed : Lapsed policy x (since ++ [mo]) ↔ Lapsed policy x since := by
    rw [lapsed_concat ha, or_iff_left]
    rintro ⟨htick, hexhausted⟩
    rw [hmo htick] at hexhausted
    contradiction
  cases held with
  | none => exact hlapsed.mpr h
  | some c =>
    obtain ⟨hlast, hrecords, hnot⟩ := h
    refine ⟨?_, ?_, mt hlapsed.mp hnot⟩
    · rw [receptions_concat, ha, Option.toList_none, List.append_nil]
      exact hlast
    · rw [attempts_of_quiet hpubrecs]
      exact hrecords

theorem Keeps.step {since : List Moment} {held : Option (Context HeldExchange)} {mo : Moment}
    (h : Keeps policy x since held) (ha : mo.trigger.receives? x = none)
    (hmo : mo.trigger ≠ .pubrel x ∧ mo.trigger ≠ .reset)
    (shown : Shown (act policy x mo.now held mo.trigger) x mo.output) :
    Keeps policy x (since ++ [mo]) (act policy x mo.now held mo.trigger).held := by
  have hpubrecs := shown.pubrecs
  by_cases htick : mo.trigger = .tick
  · -- a tick gives up exactly what the record of the attempts says has lapsed
    rw [htick, act] at hpubrecs ⊢
    cases held with
    | none => exact (lapsed_concat ha).mpr (.inl h)
    | some c =>
      obtain ⟨hlast, hrecords, hnot⟩ := id h
      have hverdict := hrecords.verdict_eq_exhausted_iff policy mo.now
      cases hv : c.verdict policy mo.now with
      | waits =>
        simp only [Option.bind_some, Context.resent?, Context.kept?, hv] at hpubrecs ⊢
        exact h.quiet ha hpubrecs fun _ => Bool.eq_false_iff.mpr (by simp [← hverdict, hv])
      | overdue =>
        simp only [Option.bind_some, Context.resent?, Context.kept?, hv] at hpubrecs ⊢
        refine ⟨?_, ?_, ?_⟩
        · rw [receptions_concat, ha, Option.toList_none, List.append_nil]
          exact hlast
        · rw [attempts_of_resend hpubrecs htick]
          exact hrecords.resend
        · rw [lapsed_concat ha, ← hverdict, hv]
          exact not_or.mpr ⟨hnot, by simp⟩
      | exhausted =>
        simp only [Option.bind_some, Context.kept?, hv]
        exact (lapsed_concat ha).mpr (.inr ⟨htick, hverdict.mp hv⟩)
  · rw [act_quiet ha htick hmo] at hpubrecs ⊢
    exact h.quiet ha hpubrecs fun h => absurd h htick

/-- Until it is released, what was received last is held or has lapsed. -/
theorem keeps_of_run {log : List Moment} (run : Run Takes m log m') (sound : m.Sound policy)
    (hlog : ∀ mo ∈ log, mo.trigger ≠ .pubrel x ∧ mo.trigger ≠ .reset)
    (hreceived : receptions x log ≠ []) : Keeps policy x log (m'.held x) := by
  have persists : Persists policy x (fun mo => mo.trigger ≠ .pubrel x ∧ mo.trigger ≠ .reset)
      fun since held => receptions x since ≠ [] → Keeps policy x since held := by
    intro since held mo hP hmo shown hreceived
    cases ha : mo.trigger.receives? x with
    | some p => exact keeps_receive ha shown
    | none =>
      rw [receptions_concat, ha, Option.toList_none, List.append_nil] at hreceived
      exact (hP hreceived).step ha hmo shown
  exact persists.of_run run sound (fun h => absurd rfl h) hlog hreceived

theorem deliveriesOf_of_run {past life rest : List Moment} {mo : Moment}
    (run : Run Takes (.new policy) (past ++ life ++ mo :: rest) m) (hmo : mo.trigger = .pubrel x)
    (hlife : ∀ mo ∈ life, mo.trigger ≠ .pubrel x ∧ mo.trigger ≠ .reset)
    (hreceived : receptions x life ≠ []) :
    (Lapsed policy x life → mo.output.deliveriesOf x = []) ∧
      (¬ Lapsed policy x life →
        mo.output.deliveriesOf x = (receptions x life).getLast?.toList) := by
  obtain ⟨m₂, hrun, shown⟩ := shown_of_run run x
  obtain ⟨m₁, hpast, hrun⟩ := hrun.split
  have hkeeps := keeps_of_run hrun (sound_of_run hpast) hlife hreceived
  rw [shown.deliveries, deliveries_act, if_pos hmo]
  cases hc : m₂.held x with
  | none =>
    rw [hc] at hkeeps
    exact ⟨fun _ => rfl, fun hnot => absurd hkeeps hnot⟩
  | some c =>
    rw [hc] at hkeeps
    obtain ⟨hlast, -, hnot⟩ := hkeeps
    rw [hlast]
    exact ⟨fun hlapsed => absurd hlapsed hnot, fun _ => rfl⟩

theorem length_deliveries_le_one {past part rest : List Moment}
    (run : Run Takes (.new policy) (past ++ part ++ rest) m) (hpart : receptions x part = []) :
    (deliveries x part).length ≤ 1 := by
  obtain ⟨m₂, hrun, -⟩ := run.split
  obtain ⟨m₁, hpast, hrun⟩ := hrun.split
  have hle := length_deliveries_le hrun (sound_of_run hpast) hpart
  have hheld : (m₁.held x).toList.length ≤ 1 := Option.length_toList_le
  omega

theorem deliveries_eq_nil {past life rest : List Moment}
    (run : Run Takes (.new policy) (past ++ life ++ rest) m)
    (hlife : ∀ mo ∈ life, mo.trigger ≠ .pubrel x) : deliveries x life = [] := by
  rw [deliveries, List.flatMap_eq_nil_iff]
  intro mo hmo
  obtain ⟨before, after, rfl⟩ := List.append_of_mem hmo
  have hlog : past ++ (before ++ mo :: after) ++ rest =
      past ++ before ++ mo :: (after ++ rest) := by simp
  rw [hlog] at run
  exact List.eq_nil_iff_forall_not_mem.mpr fun q hq => hlife mo hmo (delivered_of_run run hq).1

/-- A message that was received and did not lapse is delivered once, however often it is repeated
before its PUBREL and however often that is repeated. -/
theorem deliveries_eq_singleton {past pubs rels rest : List Moment} {mo : Moment}
    {q : PublishPacket}
    (run : Run Takes (.new policy) (past ++ pubs ++ mo :: (rels ++ rest)) m)
    (hpubs : ∀ mo' ∈ pubs, mo'.trigger ≠ .pubrel x ∧ mo'.trigger ≠ .reset)
    (hq : (receptions x pubs).getLast? = some q) (hlapsed : ¬ Lapsed policy x pubs)
    (hmo : mo.trigger = .pubrel x) (hrels : receptions x rels = []) :
    deliveries x (pubs ++ mo :: rels) = [q] := by
  have hpart : receptions x (mo :: rels) = [] := by
    rw [receptions_eq_nil_iff] at hrels ⊢
    exact List.forall_mem_cons.mpr ⟨by rw [hmo]; rfl, hrels⟩
  have hreceived : receptions x pubs ≠ [] := by
    intro h
    rw [h] at hq
    contradiction
  have hnone : deliveries x pubs = [] := deliveries_eq_nil run fun mo hmo => (hpubs mo hmo).1
  have hone : mo.output.deliveriesOf x = [q] := by
    rw [(deliveriesOf_of_run run hmo hpubs hreceived).2 hlapsed, hq]
    rfl
  have hrun : Run Takes (.new policy) (past ++ pubs ++ (mo :: rels) ++ rest) m := by simpa using run
  have hlength := length_deliveries_le_one hrun hpart
  rw [deliveries, List.flatMap_cons, hone, List.singleton_append, List.length_cons] at hlength
  rw [deliveries_append, hnone, List.nil_append, deliveries, List.flatMap_cons, hone,
    List.length_eq_zero_iff.mp (Nat.le_zero.mp (Nat.le_of_succ_le_succ hlength))]
  rfl

theorem answered_of_run {log : List Moment} {mo : Moment} (run : Run Takes (.new policy) log m)
    (hmo : mo ∈ log) (ha : mo.trigger = .pubrel x) :
    mo.result = .ok () ∧ mo.output.packets = [.ofBody (.pubcomp x)] := by
  obtain ⟨past, rest, rfl⟩ := List.append_of_mem hmo
  obtain ⟨m₁, r, -, htakes, houtput, hresult, -⟩ := run.middle
  rw [← houtput, ← hresult]
  rw [ha] at htakes
  cases htakes with
  | pubrel id => exact pubrel_answered x

end Runs

/-! ## Runs of any kind -/

section Log
variable {policy : RetryPolicy} {m : Incoming} {log : List Moment} {x : UInt16}

/-- A message is delivered by the PUBREL that follows it, and by no other. -/
theorem delivered_once (run : Run Takes (.new policy) log m) :
    (∀ past mo rest, log = past ++ mo :: rest → ∀ q ∈ mo.output.deliveriesOf x,
        mo.trigger = .pubrel x ∧ (receptions x past).getLast? = some q) ∧
      (∀ past part rest, log = past ++ part ++ rest → receptions x part = [] →
        (deliveries x part).length ≤ 1) ∧
      (∀ past pubs mo rels rest q, log = past ++ pubs ++ mo :: (rels ++ rest) →
        (∀ mo' ∈ pubs, mo'.trigger ≠ .pubrel x ∧ mo'.trigger ≠ .reset) →
          (receptions x pubs).getLast? = some q → ¬ Lapsed policy x pubs →
            mo.trigger = .pubrel x → receptions x rels = [] →
              deliveries x (pubs ++ mo :: rels) = [q]) ∧
      ∀ mo ∈ log, mo.trigger = .pubrel x →
        mo.result = .ok () ∧ mo.output.packets = [.ofBody (.pubcomp x)] := by
  refine ⟨?_, ?_, ?_, fun mo hmo ha => answered_of_run run hmo ha⟩
  · rintro past mo rest rfl q hq
    exact delivered_of_run run hq
  · rintro past part rest rfl hpart
    exact length_deliveries_le_one run hpart
  · rintro past pubs mo rels rest q rfl hpubs hq hlapsed hmo hrels
    exact deliveries_eq_singleton run hpubs hq hlapsed hmo hrels

end Log

/-- A message, its repetition in other words, and the PUBREL twice. -/
def repetition : List Moment :=
  let p (payload : Wire.Bytes) : PublishPacket := .new ⟨"in", by decide⟩ (.exactlyOnce 7) payload
  [⟨0, .publish (p [1]), .ofPackets [.ofBody (.pubrec 7)], .ok ()⟩,
    ⟨6, .tick, .ofPackets [.ofBody (.pubrec 7)], .ok ()⟩,
    ⟨7, .publish (p [2]), .ofPackets [.ofBody (.pubrec 7)], .ok ()⟩,
    ⟨8, .pubrel 7, .ofEvent (.received (p [2])) ++ .ofPackets [.ofBody (.pubcomp 7)], .ok ()⟩,
    ⟨9, .pubrel 7, .ofPackets [.ofBody (.pubcomp 7)], .ok ()⟩]

theorem run_repetition : ∃ m, Run Takes (.new ⟨5, 2⟩) repetition m :=
  ⟨_, .step (.publish _) rfl rfl <|
    .step (takes_tick _ _) rfl rfl <|
    .step (.publish _) rfl rfl <|
    .step (.pubrel 7) rfl rfl <|
    .step (.pubrel 7) rfl rfl <|
    .idle _⟩

theorem delivered_once_repetition :
    ∃ m, Run Takes (.new ⟨5, 2⟩) repetition m ∧ ¬ Lapsed ⟨5, 2⟩ 7 (repetition.take 3) ∧
      deliveries 7 repetition = [.new ⟨"in", by decide⟩ (.exactlyOnce 7) [2]] := by
  obtain ⟨m, run⟩ := run_repetition
  have hlapsed : ¬ Lapsed ⟨5, 2⟩ 7 (repetition.take 3) :=
    @not_lapsed_concat ⟨5, 2⟩ 7 (repetition.take 2) _ _ rfl
  obtain ⟨-, -, hone, -⟩ := delivered_once run
  exact ⟨m, run, hlapsed, hone [] (repetition.take 3) _ (repetition.drop 4) [] _ rfl (by decide) rfl
    hlapsed rfl rfl⟩

section Log
variable {policy : RetryPolicy} {m : Incoming} {log : List Moment} {x : UInt16}

/-- A message that was received is delivered by the next PUBREL unless it lapsed. -/
theorem released_unless_lapsed {past life : List Moment} {e mo : Moment} {p : PublishPacket}
    (run : Run Takes (.new policy) log m) (hlog : log = past ++ e :: (life ++ [mo]))
    (he : e.trigger = .publish p) (hp : p.delivery = .exactlyOnce x)
    (hlife : ∀ mo' ∈ life, mo'.trigger ≠ .pubrel x ∧ mo'.trigger ≠ .reset)
    (hmo : mo.trigger = .pubrel x) :
    .ofBody (.pubrec x) ∈ e.output.packets ∧ mo.output.packets = [.ofBody (.pubcomp x)] ∧
      ∃ q, (receptions x (e :: life)).getLast? = some q ∧
        (Lapsed policy x (e :: life) → mo.output.deliveriesOf x = []) ∧
        (¬ Lapsed policy x (e :: life) → mo.output.deliveriesOf x = [q]) := by
  subst hlog
  have hreceives : e.trigger.receives? x = some p := receives?_eq_some.mpr ⟨he, hp⟩
  have hreceived : receptions x (e :: life) ≠ [] := by simp [receptions, hreceives]
  have hall : ∀ mo' ∈ e :: life, mo'.trigger ≠ .pubrel x ∧ mo'.trigger ≠ .reset :=
    List.forall_mem_cons.mpr ⟨by simp [he], hlife⟩
  have hlog : past ++ e :: (life ++ [mo]) = past ++ (e :: life) ++ mo :: [] := by simp
  obtain ⟨hlapsed, hnot⟩ := deliveriesOf_of_run (hlog ▸ run) hmo hall hreceived
  obtain ⟨q, hq⟩ := Option.ne_none_iff_exists'.mp (mt List.getLast?_eq_none_iff.mp hreceived)
  rw [hq] at hnot
  refine ⟨?_, (answered_of_run run (by simp) hmo).2, q, hq, hlapsed, hnot⟩
  obtain ⟨m₁, -, shown⟩ := shown_of_run run x
  have hpubrecs := shown.pubrecs
  rw [act_of_receives hreceives] at hpubrecs
  have hmem : .ofBody (.pubrec x) ∈ e.output.pubrecsOf x := by
    rw [hpubrecs]
    exact List.mem_singleton_self _
  exact (List.mem_filter.mp hmem).1

end Log

theorem released_unless_lapsed_repetition :
    ∃ m q, Run Takes (.new ⟨5, 2⟩) (repetition.take 4) m ∧ ¬ Lapsed ⟨5, 2⟩ 7 (repetition.take 3) ∧
      (receptions 7 (repetition.take 3)).getLast? = some q ∧
        deliveries 7 ((repetition.drop 3).take 1) = [q] := by
  obtain ⟨m', hrun⟩ := run_repetition
  have hsplit : Run Takes (.new ⟨5, 2⟩) (repetition.take 4 ++ repetition.drop 4) m' := hrun
  obtain ⟨m, run, -⟩ := hsplit.split
  have hlapsed : ¬ Lapsed ⟨5, 2⟩ 7 (repetition.take 3) :=
    @not_lapsed_concat ⟨5, 2⟩ 7 (repetition.take 2) _ _ rfl
  have hlog : repetition.take 4 = [] ++ _ :: ((repetition.take 3).tail ++ [_]) := rfl
  obtain ⟨-, -, q, hq, -, hdelivered⟩ := released_unless_lapsed run hlog rfl rfl (by decide) rfl
  exact ⟨m, q, run, hlapsed, hq, (List.append_nil _).trans (hdelivered hlapsed)⟩

/-- A message whose PUBREC is written twice and whose PUBREL comes after that. -/
def lapse : List Moment :=
  let p : PublishPacket := .new ⟨"in", by decide⟩ (.exactlyOnce 7) [1]
  [⟨0, .publish p, .ofPackets [.ofBody (.pubrec 7)], .ok ()⟩,
    ⟨6, .tick, .ofPackets [.ofBody (.pubrec 7)], .ok ()⟩,
    ⟨12, .tick, {}, .ok ()⟩,
    ⟨13, .pubrel 7, .ofPackets [.ofBody (.pubcomp 7)], .ok ()⟩]

theorem run_lapse : ∃ m, Run Takes (.new ⟨5, 2⟩) lapse m :=
  ⟨_, .step (.publish _) rfl rfl <|
    .step (takes_tick _ _) rfl rfl <|
    .step (takes_tick _ _) rfl rfl <|
    .step (.pubrel 7) rfl rfl <|
    .idle _⟩

/-- That a PUBREC was written is no promise that the message is delivered. -/
theorem acknowledged_undelivered :
    ¬ ∀ (policy : RetryPolicy) (m : Incoming) (past : List Moment) (e : Moment) (life : List Moment)
        (mo : Moment) (x : UInt16) (p : PublishPacket),
      Run Takes (.new policy) (past ++ e :: (life ++ [mo])) m →
        (∀ mo' ∈ past ++ e :: (life ++ [mo]), mo'.trigger ≠ .reset) →
          e.trigger = .publish p → p.delivery = .exactlyOnce x →
            .ofBody (.pubrec x) ∈ e.output.packets → (∀ mo' ∈ life, mo'.trigger ≠ .pubrel x) →
              mo.trigger = .pubrel x →
                ∃ q ∈ receptions x (e :: life), q ∈ deliveries x (life ++ [mo]) := by
  intro h
  obtain ⟨m, run⟩ := run_lapse
  obtain ⟨q, -, hq⟩ := h ⟨5, 2⟩ m [] _ ((lapse.drop 1).take 2) _ 7 _ run (by decide) rfl rfl
    (by decide) (by decide) rfl
  have hnone : deliveries 7 (lapse.drop 1) = [] := rfl
  exact absurd (hnone ▸ (hq : q ∈ deliveries 7 (lapse.drop 1))) List.not_mem_nil

end Incoming

end Mqtt
