import Mqtt.Proofs.Outcomes

/-!
# Sending exactly once

A message that is to be delivered exactly once is written, repeated with the duplicate mark, and
once its PUBREC was handled only its PUBREL is written. Each of the two has the whole number of
attempts.
-/
namespace Mqtt

/-- How many PUBRECs with the identifier were answered with a PUBREL. -/
def answered (x : UInt16) (log : List Moment) : Nat :=
  log.countP fun mo => mo.trigger = .pubrec x && !(mo.output.packetsOf x).isEmpty

namespace Outgoing

/-- A message was written `n` times after the first, and its release `k` times after that. -/
def Wrote (p : PublishPacket) (x : UInt16) (since : List Moment) (n k : Nat) : Prop :=
  written x since = (p.setDup false).toPacket ::
    (List.replicate n (p.setDup true).toPacket ++ List.replicate k (.ofBody (.pubrel x)))

section Wrote
variable {p : PublishPacket} {x : UInt16} {since : List Moment} {mo : Moment} {n k : Nat}

theorem Wrote.quiet (h : Wrote p x since n k) (packets : mo.output.packetsOf x = []) :
    Wrote p x (since ++ [mo]) n k := by
  rw [Wrote, written_concat, packets, List.append_nil]
  exact h

theorem Wrote.again (h : Wrote p x since n 0)
    (packets : mo.output.packetsOf x = [(p.setDup true).toPacket]) :
    Wrote p x (since ++ [mo]) (n + 1) 0 := by
  rw [Wrote, written_concat, packets, show written x since = _ from h, List.replicate_succ']
  simp

theorem Wrote.release (h : Wrote p x since n k)
    (packets : mo.output.packetsOf x = [.ofBody (.pubrel x)]) :
    Wrote p x (since ++ [mo]) n (k + 1) := by
  rw [Wrote, written_concat, packets, show written x since = _ from h, List.replicate_succ']
  simp

theorem answered_of_quiet (packets : mo.output.packetsOf x = []) :
    answered x (since ++ [mo]) = answered x since := by
  simp [answered, packets]

theorem answered_of_ne (ha : mo.trigger ≠ .pubrec x) :
    answered x (since ++ [mo]) = answered x since := by
  simp [answered, ha]

theorem answered_of_release {q : Packet} (ha : mo.trigger = .pubrec x)
    (packets : mo.output.packetsOf x = [q]) :
    answered x (since ++ [mo]) = answered x since + 1 := by
  simp [answered, ha, packets]

end Wrote

/-- What was written for a message keeps to what its acceptance and the PUBRECs allow. -/
def Bounded (limit : Nat) (p : PublishPacket) (x : UInt16) (since : List Moment) : Prop :=
  ∃ n k, Wrote p x since n k ∧ n + 1 ≤ limit ∧ k ≤ limit * answered x since

/-- The message waits for its PUBREC. -/
structure Sending (limit : Nat) (p : PublishPacket) (x : UInt16) (since : List Moment) (n : Nat)
    (c : Context PublishExchange) : Prop where
  wrote : Wrote p x since n 0
  attempt : c.attempt = n + 1
  le_limit : n + 1 ≤ limit
  publish : c.exchange.publish = p
  phase : released x since = false

/-- The release of the message waits for its PUBCOMP. What the PUBRECs allow leaves room for the
attempts that are left. -/
structure Releasing (limit : Nat) (p : PublishPacket) (x : UInt16) (since : List Moment) (n k : Nat)
    (c : Context ReleaseExchange) : Prop where
  wrote : Wrote p x since n k
  le_limit : n + 1 ≤ limit
  attempt : c.attempt ≤ limit
  room : k + (limit - c.attempt) ≤ limit * answered x since
  phase : released x since = true

/-- How far the message `p` came under `x`, by what happened `since` it was accepted. -/
def Shakes (limit : Nat) (p : PublishPacket) (x : UInt16) (since : List Moment) : Stage → Prop
  | .idle => Bounded limit p x since
  | .puback _ => False
  | .pubrec c => ∃ n, Sending limit p x since n c
  | .pubcomp c => ∃ n k, Releasing limit p x since n k c

section Shakes
variable {policy : RetryPolicy} {p : PublishPacket} {x : UInt16} {since : List Moment} {s : Stage}
  {mo : Moment} {n k : Nat}

theorem Bounded.quiet {limit : Nat} (h : Bounded limit p x since)
    (packets : mo.output.packetsOf x = []) : Bounded limit p x (since ++ [mo]) := by
  obtain ⟨n, k, hwrote, hn, hk⟩ := h
  exact ⟨n, k, hwrote.quiet packets, hn, by rwa [answered_of_quiet packets]⟩

/-! ### Before the PUBREC -/

section Sending
variable {c : Context PublishExchange}

theorem Sending.bounded {limit : Nat} (h : Sending limit p x since n c) : Bounded limit p x since :=
  ⟨n, 0, h.wrote, h.le_limit, Nat.zero_le _⟩

theorem Sending.quiet {limit : Nat} (h : Sending limit p x since n c)
    (packets : mo.output.packetsOf x = []) (ha : mo.trigger ≠ .pubrec x) :
    Sending limit p x (since ++ [mo]) n c where
  wrote := h.wrote.quiet packets
  attempt := h.attempt
  le_limit := h.le_limit
  publish := h.publish
  phase := (released_of_ne ha).trans h.phase

theorem Sending.look (h : Sending policy.limit p x since n c) (ha : mo.trigger = .tick)
    (packets : mo.output.packetsOf x = (Stage.look policy mo.now .pubrec c).packets) :
    Shakes policy.limit p x (since ++ [mo]) (Stage.look policy mo.now .pubrec c).stage := by
  have hne : mo.trigger ≠ .pubrec x := by simp [ha]
  cases hv : c.verdict policy mo.now with
  | waits =>
    rw [Stage.look_of_waits hv] at packets ⊢
    exact ⟨n, h.quiet packets hne⟩
  | overdue =>
    rw [Stage.look_of_overdue hv] at packets ⊢
    have hlt := Context.attempt_lt_of_overdue hv
    rw [h.attempt] at hlt
    refine ⟨n + 1, h.wrote.again ?_, congrArg (· + 1) h.attempt, hlt, h.publish,
      (released_of_ne hne).trans h.phase⟩
    rw [packets, h.attempt, ← h.publish]
    rfl
  | exhausted =>
    rw [Stage.look_of_exhausted hv] at packets ⊢
    exact h.bounded.quiet packets

/-- The PUBREC allows all attempts of the release; one of them is made at once. -/
theorem Sending.release {exchange : ReleaseExchange} {now : Time}
    (h : Sending policy.limit p x since n c) (hlimit : 1 ≤ policy.limit)
    (ha : mo.trigger = .pubrec x) (packets : mo.output.packetsOf x = [.ofBody (.pubrel x)]) :
    Releasing policy.limit p x (since ++ [mo]) n 1 ((Context.new exchange now).restart now) where
  wrote := h.wrote.release packets
  le_limit := h.le_limit
  attempt := hlimit
  room := by
    rw [answered_of_release ha packets, Nat.mul_succ]
    simp only [Context.restart]
    omega
  phase := released_of_eq ha

end Sending

/-! ### After the PUBREC -/

section Releasing
variable {c : Context ReleaseExchange}

theorem Releasing.bounded {limit : Nat} (h : Releasing limit p x since n k c) :
    Bounded limit p x since :=
  ⟨n, k, h.wrote, h.le_limit, Nat.le_trans (Nat.le_add_right _ _) h.room⟩

theorem Releasing.quiet {limit : Nat} (h : Releasing limit p x since n k c)
    (packets : mo.output.packetsOf x = []) : Releasing limit p x (since ++ [mo]) n k c where
  wrote := h.wrote.quiet packets
  le_limit := h.le_limit
  attempt := h.attempt
  room := by
    rw [answered_of_quiet packets]
    exact h.room
  phase := released_of_released h.phase

theorem Releasing.look (h : Releasing policy.limit p x since n k c) (hid : c.exchange.id = x)
    (ha : mo.trigger = .tick)
    (packets : mo.output.packetsOf x = (Stage.look policy mo.now .pubcomp c).packets) :
    Shakes policy.limit p x (since ++ [mo]) (Stage.look policy mo.now .pubcomp c).stage := by
  cases hv : c.verdict policy mo.now with
  | waits =>
    rw [Stage.look_of_waits hv] at packets ⊢
    exact ⟨n, k, h.quiet packets⟩
  | overdue =>
    rw [Stage.look_of_overdue hv] at packets ⊢
    have hlt := Context.attempt_lt_of_overdue hv
    have hroom := h.room
    have hpacket : Exchange.packet c.exchange (c.attempt + 1) = .ofBody (.pubrel x) :=
      congrArg (fun id => Packet.ofBody (.pubrel id)) hid
    refine ⟨n, k + 1, h.wrote.release (hpacket ▸ packets), h.le_limit, hlt, ?_,
      released_of_released h.phase⟩
    rw [answered_of_ne (by simp [ha])]
    simp only [Context.resend]
    omega
  | exhausted =>
    rw [Stage.look_of_exhausted hv] at packets ⊢
    exact h.bounded.quiet packets

/-- A repeated PUBREC allows all attempts anew, whatever was left of the earlier ones. -/
theorem Releasing.again {now : Time} (h : Releasing policy.limit p x since n k c)
    (hlimit : 1 ≤ policy.limit) (ha : mo.trigger = .pubrec x)
    (packets : mo.output.packetsOf x = [.ofBody (.pubrel x)]) :
    Releasing policy.limit p x (since ++ [mo]) n (k + 1) (c.restart now) where
  wrote := h.wrote.release packets
  le_limit := h.le_limit
  attempt := hlimit
  room := by
    have hroom := h.room
    rw [answered_of_release ha packets, Nat.mul_succ]
    simp only [Context.restart]
    omega
  phase := released_of_eq ha

end Releasing

/-! ### All along -/

theorem begins_shakes {e : Moment} (hlimit : 1 ≤ policy.limit) (he : e.trigger = .publish p)
    (hp : p.delivery = .exactlyOnce x) : Begins policy x e (Shakes policy.limit p x) := by
  intro shown
  simp only [he, Stage.act, hp, if_true] at shown ⊢
  refine ⟨0, ?_, rfl, hlimit, rfl, by simp [released, he]⟩
  rw [Wrote, written, List.flatMap_singleton, shown.packets]
  rfl

theorem Shakes.quiet {limit : Nat} (h : Shakes limit p x since s)
    (packets : mo.output.packetsOf x = []) (ha : mo.trigger = .pubrec x → s.pubrec? = none) :
    Shakes limit p x (since ++ [mo]) s := by
  cases s with
  | idle => exact Bounded.quiet h packets
  | puback c => exact h
  | pubrec c =>
    obtain ⟨n, hsending⟩ := h
    exact ⟨n, hsending.quiet packets fun heq => Option.some_ne_none c (ha heq)⟩
  | pubcomp c =>
    obtain ⟨n, k, hreleasing⟩ := h
    exact ⟨n, k, hreleasing.quiet packets⟩

theorem persists_shakes (hlimit : 1 ≤ policy.limit) :
    Persists policy x (Shakes policy.limit p x) := by
  intro since s mo h named ha shown
  -- what the stage does not mind writes nothing and leaves the stage as it is
  by_cases hminds : s.Minds x mo.trigger
  · generalize hmo : mo.trigger = a at hminds shown ⊢
    obtain ⟨packets, -⟩ := shown
    cases s with
    | idle => exact hminds.elim
    | puback c => exact h.elim
    | pubrec c =>
      obtain ⟨n, hsending⟩ := h
      obtain rfl | rfl := hminds
      · rw [Stage.act, if_pos rfl] at packets ⊢
        exact ⟨n, 1, hsending.release hlimit hmo packets⟩
      · exact hsending.look hmo packets
    | pubcomp c =>
      obtain ⟨n, k, hreleasing⟩ := h
      obtain rfl | rfl | rfl := hminds
      · rw [Stage.act, if_pos rfl] at packets ⊢
        exact ⟨n, k + 1, hreleasing.again hlimit hmo packets⟩
      · rw [Stage.act, if_pos rfl] at packets ⊢
        exact hreleasing.bounded.quiet packets
      · exact hreleasing.look named hmo packets
  · obtain ⟨hstage, hpackets, -⟩ := Stage.act_of_not_minds policy mo.now ha hminds
    rw [hstage]
    refine h.quiet (shown.packets.trans hpackets) fun heq => ?_
    cases s with
    | pubrec c => exact absurd (.inl heq) hminds
    | idle | puback c | pubcomp c => rfl

theorem Shakes.bounded {limit : Nat} (h : Shakes limit p x since s) : Bounded limit p x since := by
  cases s with
  | idle => exact h
  | puback c => exact h.elim
  | pubrec c =>
    obtain ⟨n, hsending⟩ := h
    exact hsending.bounded
  | pubcomp c =>
    obtain ⟨n, k, hreleasing⟩ := h
    exact hreleasing.bounded

/-- What is written at a moment is the release if a PUBREC was handled, and the message if not. -/
theorem Shakes.packet_eq_release_iff (h : Shakes policy.limit p x since s) (named : s.Named x)
    (ha : mo.trigger.opens? ≠ some x) (shown : Shown (s.act policy x mo.now mo.trigger) x mo.output)
    {q : Packet} (hq : q ∈ mo.output.packetsOf x) :
    q = .ofBody (.pubrel x) ↔ released x (since ++ [mo]) = true := by
  rw [shown.packets] at hq
  by_cases hminds : s.Minds x mo.trigger
  · generalize hmo : mo.trigger = a at hminds hq
    cases s with
    | idle => exact hminds.elim
    | puback c => exact h.elim
    | pubrec c =>
      obtain ⟨n, hsending⟩ := h
      obtain rfl | rfl := hminds
      · rw [Stage.act, if_pos rfl, List.mem_singleton] at hq
        exact iff_of_true hq (released_of_eq hmo)
      · rw [released_of_ne (by simp [hmo]), hsending.phase]
        refine iff_of_false ?_ Bool.false_ne_true
        obtain ⟨attempt, rfl⟩ := Stage.exists_attempt_of_mem_look hq
        exact PublishPacket.toPacket_ne_pubrel _ x
    | pubcomp c =>
      obtain ⟨n, k, hreleasing⟩ := h
      refine iff_of_true ?_ (released_of_released hreleasing.phase)
      obtain rfl | rfl | rfl := hminds
      · simpa [Stage.act] using hq
      · simp [Stage.act] at hq
      · obtain ⟨attempt, rfl⟩ := Stage.exists_attempt_of_mem_look hq
        exact congrArg (fun id => Packet.ofBody (.pubrel id)) named
  · obtain ⟨-, hpackets, -⟩ := Stage.act_of_not_minds policy mo.now ha hminds
    rw [hpackets] at hq
    contradiction

end Shakes

section Log
variable {policy : RetryPolicy} {m : Outgoing} {past life : List Moment} {e : Moment}
  {p : PublishPacket} {x : UInt16}

/-- How a message that is delivered exactly once is written. -/
theorem written_exactly_once {log : List Moment} (hlimit : 1 ≤ policy.limit)
    (run : Run Takes (.new policy) log m) (hlog : log = past ++ e :: life)
    (he : e.trigger = .publish p) (hp : p.delivery = .exactlyOnce x) (hx : x ∉ opened life) :
    (∃ n k, written x (e :: life) = (p.setDup false).toPacket ::
          (List.replicate n (p.setDup true).toPacket ++ List.replicate k (.ofBody (.pubrel x))) ∧
        n + 1 ≤ policy.limit ∧ k ≤ policy.limit * answered x life) ∧
      (∀ before mo after, life = before ++ mo :: after → ∀ q ∈ mo.output.packetsOf x,
        (q = .ofBody (.pubrel x) ↔ released x (before ++ [mo]) = true)) ∧
      m.puback x = (m, {}) ∧ (released x life = false → m.pubcomp x = (m, {})) := by
  subst hlog
  have hreleased : ∀ rest, released x (e :: rest) = released x rest := by simp [released, he]
  have hid : p.delivery.id? = some x := congrArg Delivery.id? hp
  obtain ⟨s, hs, hshakes⟩ :=
    (persists_shakes hlimit).of_message run he hid (begins_shakes hlimit he hp) hx
  refine ⟨?_, ?_, puback_of_none ?_, fun hnone => pubcomp_of_none ?_⟩
  · have hanswered : answered x (e :: life) = answered x life := by simp [answered, he]
    rw [← hanswered]
    exact hshakes.bounded
  · rintro before mo after rfl q hq
    obtain ⟨ha, s, named, hshakes, shown⟩ :=
      (persists_shakes hlimit).turn run he hid (begins_shakes hlimit he hp) hx
    rw [← hreleased (before ++ [mo])]
    exact hshakes.packet_eq_release_iff named ha shown hq
  · rw [hs.puback]
    cases s with
    | puback c => exact hshakes.elim
    | idle | pubrec c | pubcomp c => rfl
  · rw [hs.pubcomp]
    cases s with
    | pubcomp c =>
      obtain ⟨n, k, hreleasing⟩ := hshakes
      have hphase := hreleasing.phase
      rw [hreleased, hnone] at hphase
      contradiction
    | idle | puback c | pubrec c => rfl

end Log

theorem written_handshake :
    ∃ m, Run Takes (.new ⟨5, 2⟩) handshake m ∧ 7 ∉ opened handshake.tail ∧
      (∃ n k, n + 1 ≤ 2 ∧ k ≤ 2 * answered 7 handshake.tail ∧
        (written 7 handshake).length = n + k + 1) ∧
      released 7 (handshake.tail.take 2) = true ∧ m.puback 7 = (m, {}) := by
  obtain ⟨m, run⟩ := run_handshake
  have hx : 7 ∉ opened handshake.tail := by decide
  obtain ⟨⟨n, k, hwritten, hn, hk⟩, hmoments, hpuback, -⟩ :=
    written_exactly_once (by decide) run (show handshake = [] ++ _ :: handshake.tail from rfl)
      rfl rfl hx
  have hrelease : released 7 (handshake.tail.take 2) = true :=
    (hmoments (handshake.tail.take 1) _ (handshake.tail.drop 2) rfl _ List.mem_cons_self).mp rfl
  refine ⟨m, run, hx, ⟨n, k, hn, hk, ?_⟩, hrelease, hpuback⟩
  have hlength := congrArg List.length hwritten
  rwa [List.length_cons, List.length_append, List.length_replicate, List.length_replicate]
    at hlength

end Outgoing

end Mqtt
