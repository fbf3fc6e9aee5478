import Mqtt.Proofs.Header
import Mqtt.Stream

/-!
# Chunks

The incremental decoder answers alike however its input is cut. Taking packets until nothing or
an error comes is described by a relation without a bound on the number of steps, and a buffer
that grows before or after packets are taken out gives the same packets.
-/
namespace Mqtt
open Wire

namespace Stream

/-- Taking packets until nothing or an error comes. -/
inductive Drains : Stream → List StreamItem → Stream → Prop
  | nothing {s t : Stream} (h : s.next = (none, t)) : Drains s [] t
  | error {s t : Stream} {e : ReadError} (h : s.next = (some (.error e), t)) :
      Drains s [.error e] t
  | packet {s t u : Stream} {p : Packet} {items : List StreamItem}
      (h : s.next = (some (.packet p), t)) (tail : Drains t items u) :
      Drains s (.packet p :: items) u

/-- How many packets a stream can still give: each takes a byte or ends a wait for a body. -/
def measure (s : Stream) : Nat :=
  match s.state with
  | .header => s.buffer.length
  | .body _ _ => s.buffer.length + 1

theorem nextBody_some {type : FixedHeader.StreamType} {size : UInt32} {buffer : Bytes}
    {item : StreamItem} {t : Stream} (h : nextBody type size buffer = (some item, t)) :
    size.toNat ≤ buffer.length ∧ item = readBody type size (buffer.take size.toNat) ∧
      t = ⟨.header, buffer.drop size.toNat⟩ := by
  simp only [nextBody] at h
  split at h
  · simp at h
  · next hlen =>
    rw [List.length_take] at hlen
    simp only [Prod.mk.injEq, Option.some.injEq] at h
    exact ⟨by omega, h.1.symm, h.2.symm⟩

theorem nextBody_none {type : FixedHeader.StreamType} {size : UInt32} {buffer : Bytes}
    {t : Stream} (h : nextBody type size buffer = (none, t)) : t = ⟨.body type size, buffer⟩ := by
  simp only [nextBody] at h
  split at h
  · simp only [Prod.mk.injEq] at h
    exact h.2.symm
  · simp at h

theorem nextBody_of_le {type : FixedHeader.StreamType} {size : UInt32} {buffer : Bytes}
    (h : size.toNat ≤ buffer.length) :
    nextBody type size buffer =
      (some (readBody type size (buffer.take size.toNat)), ⟨.header, buffer.drop size.toNat⟩) := by
  simp only [nextBody]
  rw [if_neg (by rw [List.length_take]; omega)]

/-- A packet that is taken makes the stream smaller. -/
theorem measure_next {s t : Stream} {p : Packet} (h : s.next = (some (.packet p), t)) :
    t.measure < s.measure := by
  obtain ⟨state, buffer⟩ := s
  cases state with
  | body type size =>
    obtain ⟨-, -, rfl⟩ := nextBody_some h
    simp only [measure, List.length_drop]
    omega
  | header =>
    simp only [next] at h
    split at h
    · simp at h
    · simp at h
    · next type size used hscan =>
      obtain ⟨hpos, hle⟩ := FixedHeader.scan?_used hscan
      obtain ⟨-, -, rfl⟩ := nextBody_some h
      simp only [measure, List.length_drop]
      omega

theorem drains_drainUpTo {fuel : Nat} {s : Stream} (h : s.measure < fuel) :
    Drains s (drainUpTo fuel s).1 (drainUpTo fuel s).2 := by
  induction fuel generalizing s with
  | zero => omega
  | succ fuel ih =>
    rw [drainUpTo]
    split
    · next t hnext => exact .nothing hnext
    · next e t hnext => exact .error hnext
    · next p t hnext =>
      have hlt := measure_next hnext
      exact .packet hnext (ih (by omega))

/-- The bound on the steps of `drain` is never reached. -/
theorem drains_drain (s : Stream) : Drains s s.drain.1 s.drain.2 := by
  apply drains_drainUpTo
  obtain ⟨state, buffer⟩ := s
  cases state <;> simp [measure]

theorem Drains.unique {s t t' : Stream} {items items' : List StreamItem} (h : Drains s items t)
    (h' : Drains s items' t') : items = items' ∧ t = t' := by
  induction h generalizing items' t' with
  | nothing hnext => cases h' <;> simp_all
  | error hnext => cases h' <;> simp_all
  | packet hnext _ ih =>
    cases h' with
    | nothing hnext' => simp_all
    | error hnext' => simp_all
    | packet hnext' tail' =>
      rw [hnext] at hnext'
      simp only [Prod.mk.injEq, Option.some.injEq, StreamItem.packet.injEq] at hnext'
      obtain ⟨rfl, rfl⟩ := hnext'
      obtain ⟨rfl, rfl⟩ := ih tail'
      exact ⟨rfl, rfl⟩

/-! ## A buffer that grows -/

theorem feed_nil (s : Stream) : s.feed [] = s := by
  simp [feed]

theorem feed_feed (s : Stream) (bs cs : Bytes) : (s.feed bs).feed cs = s.feed (bs ++ cs) := by
  simp [feed]

theorem nextBody_feed {type : FixedHeader.StreamType} {size : UInt32} {buffer : Bytes}
    {item : StreamItem} {t : Stream} (more : Bytes)
    (h : nextBody type size buffer = (some item, t)) :
    nextBody type size (buffer ++ more) = (some item, t.feed more) := by
  obtain ⟨hle, rfl, rfl⟩ := nextBody_some h
  rw [nextBody_of_le (by rw [List.length_append]; omega), List.take_append_of_le_length hle,
    List.drop_append_of_le_length hle]
  rfl

/-- A header that is all there is the same header in a longer buffer. -/
theorem next_of_scan? {buffer : Bytes} {type : FixedHeader.StreamType} {size : UInt32} {used : Nat}
    (more : Bytes) (h : FixedHeader.scan? buffer = some (.ok (type, size, used))) :
    next ⟨.header, buffer ++ more⟩ = nextBody type size (buffer.drop used ++ more) := by
  simp only [next]
  rw [FixedHeader.scan?_grow more h]
  simp only
  rw [List.drop_append_of_le_length (FixedHeader.scan?_used h).2]

/-- An answer does not depend on what comes after it. -/
theorem next_feed_some {s t : Stream} {item : StreamItem} (more : Bytes)
    (h : s.next = (some item, t)) : (s.feed more).next = (some item, t.feed more) := by
  obtain ⟨state, buffer⟩ := s
  cases state with
  | body type size => exact nextBody_feed more h
  | header =>
    cases hscan : FixedHeader.scan? buffer with
    | none => simp [next, hscan] at h
    | some found =>
      cases found with
      | error e =>
        simp only [next, hscan, Prod.mk.injEq, Option.some.injEq] at h
        obtain ⟨rfl, rfl⟩ := h
        simp only [feed, next]
        rw [FixedHeader.scan?_grow more hscan]
      | ok found =>
        obtain ⟨type, size, used⟩ := found
        simp only [next, hscan] at h
        rw [feed, next_of_scan? more hscan]
        exact nextBody_feed more h

/-- The decoder that waits has lost nothing. -/
theorem next_feed_none {s t : Stream} (more : Bytes) (h : s.next = (none, t)) :
    (t.feed more).next = (s.feed more).next := by
  obtain ⟨state, buffer⟩ := s
  cases state with
  | body type size => rw [nextBody_none h]
  | header =>
    cases hscan : FixedHeader.scan? buffer with
    | none =>
      simp only [next, hscan, Prod.mk.injEq] at h
      rw [← h.2]
    | some found =>
      cases found with
      | error e => simp [next, hscan] at h
      | ok found =>
        obtain ⟨type, size, used⟩ := found
        simp only [next, hscan] at h
        rw [nextBody_none h, feed, feed, next_of_scan? more hscan]
        rfl

/-! ## What was taken before the buffer grew -/

/-- Only the next answer of a stream counts. -/
theorem Drains.of_next_eq {s s' t : Stream} {items : List StreamItem} (heq : s'.next = s.next)
    (h : Drains s items t) : Drains s' items t := by
  cases h with
  | nothing hnext => exact .nothing (heq.trans hnext)
  | error hnext => exact .error (heq.trans hnext)
  | packet hnext tail => exact .packet (heq.trans hnext) tail

/-- The decoder that has given its packets without an error waits. -/
theorem Drains.waits {s t : Stream} {items : List StreamItem} (h : Drains s items t)
    (clean : ∀ e, .error e ∉ items) : t.next = (none, t) := by
  induction h with
  | @nothing s t hnext =>
    have hfed := next_feed_none [] hnext
    rw [feed_nil, feed_nil] at hfed
    exact hfed.trans hnext
  | error hnext => exact absurd List.mem_cons_self (clean _)
  | packet hnext tail ih => exact ih fun e he => clean e (List.mem_cons_of_mem _ he)

/-- Packets taken early and packets taken later are the packets taken at once. -/
theorem Drains.append {s t u : Stream} {items later : List StreamItem} {more : Bytes}
    (h : Drains s items t) (clean : ∀ e, .error e ∉ items) (h' : Drains (t.feed more) later u) :
    Drains (s.feed more) (items ++ later) u := by
  induction h with
  | nothing hnext => exact h'.of_next_eq (next_feed_none more hnext).symm
  | error hnext => exact absurd List.mem_cons_self (clean _)
  | packet hnext tail ih =>
    have hclean := fun e he => clean e (List.mem_cons_of_mem _ he)
    exact .packet (next_feed_some more hnext) (ih hclean h')

/-- Nothing that comes later changes what was taken up to an error. -/
theorem Drains.feed_error {s t : Stream} {items : List StreamItem} {e : ReadError} (more : Bytes)
    (h : Drains s items t) (he : .error e ∈ items) : Drains (s.feed more) items (t.feed more) := by
  induction h with
  | nothing hnext => simp at he
  | error hnext => exact .error (next_feed_some more hnext)
  | packet hnext tail ih =>
    have htail := (List.mem_cons.mp he).resolve_left (by simp)
    exact .packet (next_feed_some more hnext) (ih htail)

end Stream

/-- The answers up to and including the first error. -/
def untilError : List StreamItem → List StreamItem
  | [] => []
  | .error e :: _ => [.error e]
  | .packet p :: items => .packet p :: untilError items

theorem untilError_append_of_clean {items : List StreamItem} (later : List StreamItem)
    (clean : ∀ e, .error e ∉ items) : untilError (items ++ later) = items ++ untilError later := by
  induction items with
  | nil => rfl
  | cons item items ih =>
    have hclean := fun e he => clean e (List.mem_cons_of_mem _ he)
    cases item with
    | packet p => rw [List.cons_append, untilError, ih hclean, List.cons_append]
    | error e => exact absurd List.mem_cons_self (clean e)

theorem mem_of_mem_untilError {item : StreamItem} {items : List StreamItem}
    (h : item ∈ untilError items) : item ∈ items := by
  induction items with
  | nil => exact h
  | cons first items ih =>
    cases first with
    | packet p =>
      obtain rfl | htail := List.mem_cons.mp h
      · exact List.mem_cons_self
      · exact List.mem_cons_of_mem _ (ih htail)
    | error e =>
      rw [untilError, List.mem_singleton] at h
      rw [h]
      exact List.mem_cons_self

namespace Stream

/-- Errors come last. -/
theorem Drains.untilError_append {s t : Stream} {items : List StreamItem} {e : ReadError}
    (later : List StreamItem) (h : Drains s items t) (he : .error e ∈ items) :
    untilError (items ++ later) = items := by
  induction h with
  | nothing hnext => simp at he
  | error hnext => rfl
  | packet hnext tail ih =>
    have htail := (List.mem_cons.mp he).resolve_left (by simp)
    rw [List.cons_append, untilError, ih htail]

/-! ## Whole runs -/

/-- All answers of a run, chunk after chunk. -/
def answers (s : Stream) (chunks : List Bytes) : List StreamItem :=
  (s.run chunks).1.flatMap Prod.fst

theorem answers_cons (s : Stream) (chunk : Bytes) (chunks : List Bytes) :
    s.answers (chunk :: chunks) = (s.push chunk).1 ++ (s.push chunk).2.answers chunks := by
  simp [answers, run]

theorem run_cons_snd (s : Stream) (chunk : Bytes) (chunks : List Bytes) :
    (s.run (chunk :: chunks)).2 = ((s.push chunk).2.run chunks).2 := by
  simp [run]

/-- A run gives what taking the packets of all its bytes at once gives. -/
theorem run_drains {s t : Stream} {chunks : List Bytes} {items : List StreamItem}
    (waits : s.next = (none, s)) (h : Drains (s.feed chunks.flatten) items t) :
    untilError (s.answers chunks) = items ∧
      ((∀ e, .error e ∉ items) → (s.run chunks).2 = t) := by
  induction chunks generalizing s t items with
  | nil =>
    rw [List.flatten_nil, feed_nil] at h
    obtain ⟨rfl, rfl⟩ := h.unique (.nothing waits)
    exact ⟨rfl, fun _ => rfl⟩
  | cons chunk chunks ih =>
    rw [List.flatten_cons, ← feed_feed] at h
    have hfirst : Drains (s.feed chunk) (s.push chunk).1 (s.push chunk).2 := drains_drain _
    rw [answers_cons, run_cons_snd]
    by_cases clean : ∀ e, .error e ∉ (s.push chunk).1
    · -- the decoder waits again, now in another state, so the induction is over all of them
      have hlater := drains_drain ((s.push chunk).2.feed chunks.flatten)
      obtain ⟨hitems, hstate⟩ := ih (hfirst.waits clean) hlater
      obtain ⟨rfl, rfl⟩ := h.unique (hfirst.append clean hlater)
      rw [untilError_append_of_clean _ clean, hitems]
      exact ⟨rfl, fun hclean => hstate fun e he => hclean e (List.mem_append_right _ he)⟩
    · -- the later chunks are not part of what counts
      obtain ⟨e, he⟩ := Classical.not_forall.mp clean
      have he : .error e ∈ (s.push chunk).1 := Classical.not_not.mp he
      obtain ⟨rfl, rfl⟩ := h.unique (hfirst.feed_error _ he)
      exact ⟨hfirst.untilError_append _ he, fun hclean => absurd he (hclean e)⟩

/-- The cuts between the chunks change neither the packets up to the first error nor, when there
is none, what the decoder waits for and has not taken. -/
theorem run_eq_of_flatten_eq {chunks chunks' : List Bytes} (h : chunks.flatten = chunks'.flatten) :
    untilError (empty.answers chunks) = untilError (empty.answers chunks') ∧
      ((∀ e, .error e ∉ empty.answers chunks) → (empty.run chunks).2 = (empty.run chunks').2) := by
  have hdrains := drains_drain (empty.feed chunks.flatten)
  obtain ⟨hitems, hstate⟩ := run_drains rfl hdrains
  rw [h] at hdrains
  obtain ⟨hitems', hstate'⟩ := run_drains rfl hdrains
  rw [← h] at hitems' hstate'
  refine ⟨hitems.trans hitems'.symm, fun clean => ?_⟩
  have hclean : ∀ e, .error e ∉ (empty.feed chunks.flatten).drain.1 := by
    rw [← hitems]
    exact fun e he => clean e (mem_of_mem_untilError he)
  exact (hstate hclean).trans (hstate' hclean).symm

/-- An acknowledgment cut inside its header and its body, and the same bytes in one piece. -/
theorem run_puback_cut :
    ([[64], [], [2, 0], [7, 208]] : List Bytes).flatten = ([[64, 2, 0, 7, 208]] : List Bytes).flatten ∧
      (∀ e, .error e ∉ empty.answers [[64], [], [2, 0], [7, 208]]) ∧
      untilError (empty.answers [[64], [], [2, 0], [7, 208]]) =
        untilError (empty.answers [[64, 2, 0, 7, 208]]) ∧
      (empty.run [[64], [], [2, 0], [7, 208]]).2 = (empty.run [[64, 2, 0, 7, 208]]).2 := by
  have hflat : ([[64], [], [2, 0], [7, 208]] : List Bytes).flatten =
      ([[64, 2, 0, 7, 208]] : List Bytes).flatten := rfl
  have hitems : empty.answers [[64], [], [2, 0], [7, 208]] =
      [.packet ⟨⟨.standard .puback, 2⟩, .puback 7⟩] := by decide
  have hclean : ∀ e, .error e ∉ empty.answers [[64], [], [2, 0], [7, 208]] := by
    rw [hitems]
    simp
  exact ⟨hflat, hclean, (run_eq_of_flatten_eq hflat).1, (run_eq_of_flatten_eq hflat).2 hclean⟩

end Stream

end Mqtt
