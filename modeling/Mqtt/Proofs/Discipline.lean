import Mathlib.Data.List.Chain
import Mqtt.Client.Incoming
import Mqtt.Proofs.Run
import Mqtt.Proofs.Trace

/-!
# The retry discipline

A record of a retry table tells, entry by entry, what the table was asked, what it wrote under
which identifier and what it gave back. From the record alone it follows which exchanges are
tracked and how often each was written, when the next attempt is due, and when an exchange is
given up. The queue is open throughout; time may stand still or go back.
-/
namespace Mqtt

namespace RetryTable

/-- What a retry table is asked to do. -/
inductive Request (α : Type)
  | enqueue (exchange : α)
  | requeue (c : Context α)
  | tick
  | finalize (id : UInt16)
  | take (id : UInt16)
  | reset

/-- The exchange that begins with its first attempt. -/
def Request.entered? {α : Type} : Request α → Option α
  | enqueue exchange => some exchange
  | requeue c => some c.exchange
  | tick | finalize _ | take _ | reset => none

/-- What was asked at some time and what came of it. The packets are told twice, as they were
queued and with the identifiers of their exchanges. -/
structure Entry (α : Type) where
  now : Time
  request : Request α
  packets : List Packet
  written : List (UInt16 × Packet)
  result : Except ClientError (List (Context α))

section Table
variable {α : Type} [Exchange α]

namespace Entry

def Enters (x : UInt16) (e : Entry α) : Prop :=
  ∃ exchange, e.request.entered? = some exchange ∧ Exchange.id exchange = x

/-- Whatever was tracked under the identifier is gone after the entry. -/
def Removes (x : UInt16) (e : Entry α) : Prop :=
  match e.request with
  | .finalize id | .take id => id = x
  | .reset => True
  | .tick => ∃ es, e.result = .ok es ∧ ∃ c ∈ es, Exchange.id c.exchange = x
  | .enqueue _ | .requeue _ => False

/-- The time of each packet that was written under the identifier. -/
def times (x : UInt16) (e : Entry α) : List Time :=
  (e.written.filter fun w => w.1 == x).map fun _ => e.now

end Entry

def times (x : UInt16) (log : List (Entry α)) : List Time := log.flatMap (Entry.times x)

/-- What the visits of a pass write, each packet with the identifier that was visited. -/
def journal (policy : RetryPolicy) (now : Time) : Sweep α → List UInt16 → List (UInt16 × Packet)
  | _, [] => []
  | s, id :: order =>
    let r := visit policy true now s id
    (r.sent.take (r.sent.length - s.sent.length)).reverse.map (Prod.mk id) ++
      journal policy now r order

/-- The entry of a request that writes the first attempt of an exchange. -/
def Entry.ofWrite (now : Time) (request : Request α) (exchange : α)
    (r : Step (RetryTable α) ClientError Unit) : Entry α :=
  ⟨now, request, r.output.packets, r.output.packets.map (Prod.mk (Exchange.id exchange)),
    r.result.map fun _ => []⟩

/-- The entry of a request that may take an exchange out. -/
def Entry.ofRemoval (now : Time) (request : Request α) (r : Option (Context α × RetryTable α)) :
    Entry α :=
  ⟨now, request, [], [], .ok (r.map Prod.fst).toList⟩

/-- The steps of a table on an open queue. A tick goes through the table in any order. -/
inductive Takes (t : RetryTable α) : Entry α → RetryTable α → Prop
  | enqueue (now : Time) (exchange : α) :
      Takes t (.ofWrite now (.enqueue exchange) exchange (t.enqueue true exchange now))
        (t.enqueue true exchange now).state
  | requeue (now : Time) (c : Context α) :
      Takes t (.ofWrite now (.requeue c) c.exchange (t.enqueueContext true c now))
        (t.enqueueContext true c now).state
  | tick (now : Time) {order : List UInt16} (h : order.Perm t.ids) :
      Takes t
        ⟨now, .tick, (t.tickInOrder true now order).output.packets,
          journal t.policy now ⟨t.contexts, [], [], false⟩ order,
          (t.tickInOrder true now order).result⟩
        (t.tickInOrder true now order).state
  | finalize (now : Time) (id : UInt16) :
      Takes t (.ofRemoval now (.finalize id) (t.finalize id))
        (((t.finalize id).map Prod.snd).getD t)
  | take (now : Time) (id : UInt16) :
      Takes t (.ofRemoval now (.take id) (t.take id)) (((t.take id).map Prod.snd).getD t)
  | reset (now : Time) : Takes t ⟨now, .reset, [], [], .ok t.toList⟩ t.reset

/-- The exchange was entered under `x`, is in the table still, and `life` is the record since. -/
def Live (x : UInt16) (exchange : α) (log life : List (Entry α)) : Prop :=
  ∃ e rest, life = e :: rest ∧ life <:+ log ∧ e.request.entered? = some exchange ∧
    Exchange.id exchange = x ∧ ∀ e' ∈ rest, ¬ e'.Enters x ∧ ¬ e'.Removes x

/-- The wait after the last of these attempts is over. -/
def Overdue (policy : RetryPolicy) (times : List Time) (now : Time) : Prop :=
  ∃ last, times.getLast? = some last ∧ last + policy.delay < now

end Table

/-! ## The journal of a pass -/

section Journal
variable {α : Type} [Exchange α] {policy : RetryPolicy} {now : Time} {t : RetryTable α}
  {order : List UInt16}

theorem journal_eq {s : Sweep α} (hopen : s.blocked = false) (hnodup : order.Nodup) :
    journal policy now s order =
      order.filterMap fun id =>
        s.contexts[id]?.bind fun c => (c.resent? policy now).map (Prod.mk id) := by
  induction order generalizing s with
  | nil => rfl
  | cons id order ih =>
    obtain ⟨hid, hnodup⟩ := List.nodup_cons.mp hnodup
    have hvisit := swept_visit policy now hopen id
    have hsame : ∀ other ∈ order, (visit policy true now s id).contexts[other]? =
        s.contexts[other]? := by
      intro other hother
      rw [hvisit.contexts, if_neg]
      rw [List.mem_singleton]
      exact fun heq => hid (heq ▸ hother)
    have htail : journal policy now (visit policy true now s id) order =
        order.filterMap fun other =>
          s.contexts[other]?.bind fun c => (c.resent? policy now).map (Prod.mk other) := by
      rw [ih hvisit.blocked hnodup]
      exact List.filterMap_congr fun other hother => by rw [hsame other hother]
    rw [journal, htail, hvisit.sent]
    cases hc : s.contexts[id]? with
    | none => simp [hc]
    | some c => cases hq : c.resent? policy now <;> simp [hc, hq]

/-- Nothing but what the visits write is queued. -/
theorem map_snd_journal (h : order.Perm t.ids) (now : Time) :
    (journal t.policy now ⟨t.contexts, [], [], false⟩ order).map Prod.snd =
      (t.tickInOrder true now order).output.packets := by
  rw [journal_eq rfl (nodup_of_perm_ids h), tickInOrder_output h, List.map_filterMap,
    Output.ofPackets]
  refine List.filterMap_congr fun id _ => ?_
  rw [Option.map_bind, get?]
  refine Option.bind_congr fun c _ => ?_
  rw [Function.comp_apply, Option.map_map]
  exact Option.map_id'

/-- Under an identifier a pass writes what the exchange there is due. -/
theorem filter_journal (h : order.Perm t.ids) (now : Time) (x : UInt16) :
    (journal t.policy now ⟨t.contexts, [], [], false⟩ order).filter (fun w => w.1 == x) =
      ((t.get? x).bind (Context.resent? t.policy now)).toList.map (Prod.mk x) := by
  have hnodup := nodup_of_perm_ids h
  have hkeep : ∀ id ∈ order,
      ((t.contexts[id]?.bind fun c => (c.resent? t.policy now).map (Prod.mk id)).filter
        fun w => w.1 == x) =
        if (id == x) = true then
          t.contexts[id]?.bind fun c => (c.resent? t.policy now).map (Prod.mk id)
        else none := by
    intro id _
    cases t.contexts[id]? with
    | none => simp
    | some c => cases hq : c.resent? t.policy now <;> simp [Option.filter, hq]
  rw [journal_eq rfl hnodup, List.filter_filterMap, List.filterMap_congr hkeep,
    ← List.filterMap_filter, List.filter_beq]
  cases hc : t.get? x with
  | none =>
    have hmem : x ∉ order := by simp [h.mem_iff, mem_ids, hc]
    simp [List.count_eq_zero_of_not_mem hmem]
  | some c =>
    have hmem : x ∈ order := by simp [h.mem_iff, mem_ids, hc]
    rw [List.count_eq_one_of_mem hnodup hmem, List.replicate_one, List.filterMap_cons,
      List.filterMap_nil, show t.contexts[x]? = some c from hc]
    cases hq : c.resent? t.policy now <;> simp [hq]

theorem mem_journal_iff (h : order.Perm t.ids) {x : UInt16} {q : Packet} :
    (x, q) ∈ journal t.policy now ⟨t.contexts, [], [], false⟩ order ↔
      ∃ c, t.get? x = some c ∧ c.verdict t.policy now = .overdue ∧
        q = Exchange.packet c.exchange (c.attempt + 1) := by
  rw [journal_eq rfl (nodup_of_perm_ids h), List.mem_filterMap]
  constructor
  · rintro ⟨id, -, hwrites⟩
    obtain ⟨c, hc, hwritten⟩ := Option.bind_eq_some_iff.mp hwrites
    obtain ⟨q, hq, ⟨⟩⟩ := Option.map_eq_some_iff.mp hwritten
    cases hv : c.verdict t.policy now <;> simp [Context.resent?, hv] at hq
    exact ⟨c, hc, hv, hq.symm⟩
  · rintro ⟨c, hc, hv, rfl⟩
    have hmem : x ∈ order := by simp [h.mem_iff, mem_ids, hc]
    refine ⟨x, hmem, ?_⟩
    rw [show t.contexts[x]? = some c from hc]
    simp [Context.resent?, hv]

omit [Exchange α] in
theorem mem_exhausted_iff (h : order.Perm t.ids) {c : Context α} :
    (c ∈ order.filterMap fun id => (t.get? id).bind (Context.exhausted? t.policy now)) ↔
      ∃ x c', t.get? x = some c' ∧ c'.verdict t.policy now = .exhausted ∧ c = c'.finish false := by
  rw [List.mem_filterMap]
  constructor
  · rintro ⟨id, -, hgone⟩
    obtain ⟨c', hc', hspent⟩ := Option.bind_eq_some_iff.mp hgone
    cases hv : c'.verdict t.policy now <;> simp [Context.exhausted?, hv] at hspent
    exact ⟨id, c', hc', hv, hspent.symm⟩
  · rintro ⟨x, c', hc', hv, rfl⟩
    refine ⟨x, by simp [h.mem_iff, mem_ids, hc'], ?_⟩
    simp [hc', Context.exhausted?, hv]

end Journal

/-! ## One identifier -/

section Seen
variable {α : Type} [Exchange α] {policy : RetryPolicy} {t t' : RetryTable α} {e : Entry α}
  {x : UInt16}

/-- Every exchange is tracked under its own identifier. -/
structure Sound (policy : RetryPolicy) (t : RetryTable α) : Prop where
  policy : t.policy = policy
  named : ∀ {x c}, t.get? x = some c → Exchange.id c.exchange = x

theorem sound_empty (policy : RetryPolicy) : (empty policy : RetryTable α).Sound policy where
  policy := rfl
  named h := by simp at h

theorem nodup_exhausted {order : List UInt16} (sound : t.Sound policy) (h : order.Perm t.ids)
    (now : Time) :
    ((order.filterMap fun id => (t.get? id).bind (Context.exhausted? t.policy now)).map
      fun c => Exchange.id c.exchange).Nodup := by
  have hsame : ∀ id x, ((t.get? id).bind (Context.exhausted? t.policy now)).map
      (fun c => Exchange.id c.exchange) = some x → x = id := by
    intro id x hx
    obtain ⟨c, hgone, rfl⟩ := Option.map_eq_some_iff.mp hx
    obtain ⟨c', hc', hspent⟩ := Option.bind_eq_some_iff.mp hgone
    rw [Context.exchange_of_exhausted? hspent, sound.named hc']
  rw [List.map_filterMap]
  refine (nodup_of_perm_ids h).filterMap fun id id' x hid hid' => ?_
  rw [← hsame id x hid, ← hsame id' x hid']

/-- What an entry means under an identifier: what was tracked there and what is now. -/
inductive Sees (policy : RetryPolicy) (x : UInt16) (e : Entry α) (held : Option (Context α)) :
    Option (Context α) → Prop
  | entered {exchange : α} (h : e.request.entered? = some exchange)
      (hid : Exchange.id exchange = x) (times : e.times x = [e.now]) :
      Sees policy x e held (some ((Context.new exchange e.now).restart e.now))
  | ticked (h : e.request = .tick)
      (times : e.times x = (held.bind (Context.resent? policy e.now)).toList.map fun _ => e.now)
      (removes : e.Removes x ↔ (held.bind (Context.exhausted? policy e.now)).isSome = true) :
      Sees policy x e held (held.bind (Context.kept? policy e.now))
  | removed (enters : ¬ e.Enters x) (h : e.Removes x) (times : e.times x = []) :
      Sees policy x e held none
  | quiet (enters : ¬ e.Enters x) (h : ¬ e.Removes x) (times : e.times x = []) :
      Sees policy x e held held

theorem sees_write {now : Time} {request : Request α} {c : Context α}
    (h : request.entered? = some c.exchange) :
    Sees policy x
      (.ofWrite now request c.exchange (t.enqueueContext true c now)) (t.get? x)
      ((t.enqueueContext true c now).state.get? x) := by
  rw [get?_enqueueContext]
  by_cases hid : Exchange.id c.exchange = x
  · rw [if_pos hid]
    refine .entered h hid ?_
    simp [Entry.times, Entry.ofWrite, enqueueContext, Step.emit, Output.ofPackets, hid]
  · rw [if_neg hid]
    refine .quiet ?_ ?_ ?_
    · rintro ⟨exchange, hexchange, hid'⟩
      obtain rfl : c.exchange = exchange := Option.some.inj (h.symm.trans hexchange)
      exact hid hid'
    · intro hremoves
      cases request <;> simp_all [Entry.Removes, Entry.ofWrite, Request.entered?]
    · simp [Entry.times, Entry.ofWrite, enqueueContext, Step.emit, Output.ofPackets, hid]

theorem sees_removal {now : Time} {request : Request α} {id : UInt16} (f : Context α → Context α)
    (h : request = .finalize id ∨ request = .take id) :
    Sees policy x (.ofRemoval now request ((t.get? id).map fun c => (f c, t.erase id))) (t.get? x)
      (((((t.get? id).map fun c => (f c, t.erase id)).map Prod.snd).getD t).get? x) := by
  have henters : ¬ (Entry.ofRemoval now request ((t.get? id).map fun c =>
      (f c, t.erase id))).Enters x := by
    rintro ⟨exchange, hexchange, -⟩
    obtain rfl | rfl := h <;> simp [Entry.ofRemoval, Request.entered?] at hexchange
  have hremoves : (Entry.ofRemoval now request ((t.get? id).map fun c =>
      (f c, t.erase id))).Removes x ↔ id = x := by
    obtain rfl | rfl := h <;> exact Iff.rfl
  rw [get?_removed t f id x]
  split
  · next hid => exact .removed henters (hremoves.mpr hid) rfl
  · next hid => exact .quiet henters (mt hremoves.mp hid) rfl

theorem removes_tick_iff {now : Time} {order : List UInt16} {packets : List Packet}
    {written : List (UInt16 × Packet)} (sound : t.Sound policy) (h : order.Perm t.ids) :
    (Entry.mk now .tick packets written (t.tickInOrder true now order).result).Removes x ↔
      ((t.get? x).bind (Context.exhausted? t.policy now)).isSome = true := by
  simp only [Entry.Removes, tickInOrder_result h, Except.ok.injEq, exists_eq_left',
    List.mem_filterMap, Option.isSome_iff_exists]
  constructor
  · rintro ⟨c', ⟨id, -, hc'⟩, hid⟩
    obtain ⟨c, hc, hgone⟩ := Option.bind_eq_some_iff.mp hc'
    rw [Context.exchange_of_exhausted? hgone, sound.named hc] at hid
    exact ⟨c', hid ▸ hc'⟩
  · rintro ⟨c', hc'⟩
    obtain ⟨c, hc, hgone⟩ := Option.bind_eq_some_iff.mp hc'
    refine ⟨c', ⟨x, ?_, hc'⟩, ?_⟩
    · simp [h.mem_iff, mem_ids, hc]
    · rw [Context.exchange_of_exhausted? hgone, sound.named hc]

theorem sees_tick {now : Time} {order : List UInt16} (sound : t.Sound policy)
    (h : order.Perm t.ids) :
    Sees policy x
      ⟨now, .tick, (t.tickInOrder true now order).output.packets,
        journal t.policy now ⟨t.contexts, [], [], false⟩ order,
        (t.tickInOrder true now order).result⟩
      (t.get? x) ((t.tickInOrder true now order).state.get? x) := by
  rw [get?_tickInOrder h, ← sound.policy]
  refine .ticked rfl ?_ (removes_tick_iff sound h)
  rw [Entry.times, filter_journal h, List.map_map]
  rfl

/-- Every step of a table is one of four things under every identifier. -/
theorem Takes.sees (takes : t.Takes e t') (sound : t.Sound policy) (x : UInt16) :
    Sees policy x e (t.get? x) (t'.get? x) := by
  cases takes with
  | enqueue now exchange => exact sees_write rfl
  | requeue now c => exact sees_write rfl
  | tick now h => exact sees_tick sound h
  | finalize now id => exact sees_removal (Context.finish · true) (.inl rfl)
  | take now id => exact sees_removal (fun c => c) (.inr rfl)
  | reset now =>
    rw [RetryTable.reset, get?_empty]
    refine .removed ?_ trivial rfl
    rintro ⟨exchange, hexchange, -⟩
    cases hexchange

theorem Takes.sound (takes : t.Takes e t') (sound : t.Sound policy) : t'.Sound policy where
  policy := by
    refine Eq.trans ?_ sound.policy
    cases takes with
    | tick now h => exact tickInOrder_policy now
    | finalize now id =>
      rw [RetryTable.finalize]
      cases t.get? id <;> rfl
    | take now id =>
      rw [RetryTable.take]
      cases t.get? id <;> rfl
    | _ => rfl
  named := by
    intro x c hc
    have hsees := takes.sees sound x
    rw [hc] at hsees
    generalize hheld : t.get? x = held at hsees
    generalize hnext : some c = next at hsees
    cases hsees with
    | entered h hid =>
      cases hnext
      exact hid
    | ticked h =>
      obtain ⟨c', hc', hkept⟩ := Option.bind_eq_some_iff.mp hnext.symm
      rw [Context.exchange_of_kept? hkept]
      exact sound.named (hheld.trans hc')
    | removed => contradiction
    | quiet => exact sound.named (hheld.trans hnext.symm)

theorem sound_of_trace {log : List (Entry α)} (h : Trace Takes (empty policy) log t) :
    t.Sound policy :=
  h.preserves (sound_empty policy) fun sound takes => takes.sound sound

/-- What is queued is what is written under the identifiers. -/
theorem Takes.packets (takes : t.Takes e t') : e.written.map Prod.snd = e.packets := by
  cases takes with
  | enqueue | requeue => simp [Entry.ofWrite, Function.comp_def]
  | tick now h => exact map_snd_journal h now
  | finalize | take | reset => rfl

end Seen

/-! ## Due times -/

section Due
variable {α : Type} {policy : RetryPolicy} {now : Time} {c : Context α} {times : List Time}

theorem not_overdue_iff_of_records (h : c.Records times) :
    ¬ Overdue policy times now ↔ now - c.lastSent ≤ policy.delay := by
  have hdue : Overdue policy times now ↔ c.lastSent + policy.delay < now := by
    simp [Overdue, h.lastSent]
  rw [hdue, Nat.not_lt, Nat.sub_le_iff_le_add, Nat.add_comm]

theorem verdict_eq_overdue_iff (h : c.Records times) :
    c.verdict policy now = .overdue ↔ times.length < policy.limit ∧ Overdue policy times now := by
  rw [← h.attempt, Context.verdict]
  split
  · next hwait => simp [(not_overdue_iff_of_records h).mpr hwait]
  · next hwait =>
    have hdue := not_not.mp (mt (not_overdue_iff_of_records h).mp hwait)
    split
    · next hlimit => simp [Nat.not_lt.mpr hlimit]
    · next hlimit => simp [Nat.not_le.mp hlimit, hdue]

theorem verdict_eq_exhausted_iff (h : c.Records times) :
    c.verdict policy now = .exhausted ↔ policy.limit ≤ times.length ∧ Overdue policy times now := by
  rw [← h.attempt, Context.verdict]
  split
  · next hwait => simp [(not_overdue_iff_of_records h).mpr hwait]
  · next hwait =>
    have hdue := not_not.mp (mt (not_overdue_iff_of_records h).mp hwait)
    split
    · next hlimit => simp [hlimit, hdue]
    · next hlimit => simp [hlimit]

end Due

/-! ## What the record tells -/

section Record
variable {α : Type} [Exchange α] {policy : RetryPolicy} {t t' : RetryTable α} {e : Entry α}
  {x : UInt16} {exchange : α} {log life : List (Entry α)} {held held' : Option (Context α)}

omit [Exchange α] in
@[simp] theorem times_concat (x : UInt16) (log : List (Entry α)) (e : Entry α) :
    times x (log ++ [e]) = times x log ++ e.times x := by
  simp [times]

theorem not_enters_of_tick (h : e.request = .tick) : ¬ e.Enters x := by
  rintro ⟨exchange, hexchange, -⟩
  rw [h] at hexchange
  cases hexchange

theorem live_of_entered (h : e.request.entered? = some exchange) (hid : Exchange.id exchange = x)
    (log : List (Entry α)) : Live x exchange (log ++ [e]) [e] :=
  ⟨e, [], rfl, List.suffix_append log [e], h, hid, by simp⟩

theorem Live.concat (h : Live x exchange log life) (henters : ¬ e.Enters x)
    (hremoves : ¬ e.Removes x) : Live x exchange (log ++ [e]) (life ++ [e]) := by
  obtain ⟨e₀, rest, rfl, hsuffix, hentered, hid, hrest⟩ := h
  refine ⟨e₀, rest ++ [e], rfl, ?_, hentered, hid, ?_⟩
  · obtain ⟨past, rfl⟩ := hsuffix
    exact ⟨past, by simp⟩
  · rw [List.forall_mem_append]
    exact ⟨hrest, by simpa using ⟨henters, hremoves⟩⟩

/-- What is live after an entry was entered by it, or was live and is let be. -/
theorem Live.of_concat (h : Live x exchange (log ++ [e]) life) :
    (life = [e] ∧ e.Enters x) ∨
      (¬ e.Enters x ∧ ¬ e.Removes x ∧
        ∃ life', life = life' ++ [e] ∧ Live x exchange log life') := by
  obtain ⟨e₀, rest, rfl, hsuffix, hentered, hid, hrest⟩ := h
  obtain hnil | ⟨since, hsince, hpast⟩ := List.suffix_concat_iff.mp hsuffix
  · cases hnil
  · cases since with
    | nil =>
      obtain ⟨rfl, rfl⟩ := List.cons.inj hsince
      exact .inl ⟨rfl, exchange, hentered, hid⟩
    | cons first before =>
      obtain ⟨rfl, rfl⟩ := List.cons.inj hsince
      obtain ⟨hbefore, hlast⟩ := List.forall_mem_append.mp hrest
      obtain ⟨henters, hremoves⟩ := hlast e (List.mem_singleton_self e)
      exact .inr ⟨henters, hremoves, e₀ :: before, rfl,
        e₀, before, rfl, hpast, hentered, hid, hbefore⟩

/-- Under an identifier no two exchanges are live. -/
theorem Live.unique {exchange' : α} {life' : List (Entry α)} (h : Live x exchange log life)
    (h' : Live x exchange' log life') : life = life' ∧ exchange = exchange' := by
  -- of two records the longer one would begin before the shorter and not know of its entry
  have haux : ∀ {a b : α} {xs ys : List (Entry α)}, Live x a log xs → Live x b log ys →
      xs <:+ ys → xs = ys := by
    rintro a b _ _ ⟨e, rest, rfl, -, hentered, hid, -⟩ ⟨e', rest', rfl, -, -, -, hrest'⟩ hsuffix
    obtain heq | hinside := List.suffix_cons_iff.mp hsuffix
    · exact heq
    · exact absurd ⟨a, hentered, hid⟩ (hrest' e (hinside.mem List.mem_cons_self)).1
  have hlife : life = life' := by
    obtain ⟨-, -, -, hsuffix, -⟩ := id h
    obtain ⟨-, -, -, hsuffix', -⟩ := id h'
    obtain hle | hle := List.suffix_or_suffix_of_suffix hsuffix hsuffix'
    · exact haux h h' hle
    · exact (haux h' h hle).symm
  subst hlife
  obtain ⟨e, rest, rfl, -, hentered, -⟩ := h
  obtain ⟨e', rest', heq, -, hentered', -⟩ := h'
  obtain ⟨rfl, -⟩ := List.cons.inj heq
  exact ⟨rfl, Option.some.inj (hentered.symm.trans hentered')⟩

/-- What is tracked under `x` is what is live there, with its attempts as the record has them. -/
def Tracks (policy : RetryPolicy) (x : UInt16) (log : List (Entry α)) : Option (Context α) → Prop
  | some c => ∃ life, Live x c.exchange log life ∧ c.Records (times x life) ∧ 1 ≤ c.attempt ∧
      c.attempt ≤ policy.limit
  | none => ∀ exchange life, ¬ Live x exchange log life

theorem tracks_none_of_removes (henters : ¬ e.Enters x) (hremoves : e.Removes x) :
    Tracks policy x (log ++ [e]) none := by
  intro exchange life h
  obtain ⟨-, henters'⟩ | ⟨-, hremoves', -⟩ := h.of_concat
  · exact henters henters'
  · exact hremoves' hremoves

theorem Tracks.none_concat (h : Tracks policy x log none) (henters : ¬ e.Enters x) :
    Tracks policy x (log ++ [e]) none := by
  intro exchange life hlive
  obtain ⟨-, henters'⟩ | ⟨-, -, life', -, hlive'⟩ := hlive.of_concat
  · exact henters henters'
  · exact h exchange life' hlive'

theorem Tracks.some_concat {c : Context α} (h : Tracks policy x log (some c))
    (henters : ¬ e.Enters x) (hremoves : ¬ e.Removes x) (htimes : e.times x = []) :
    Tracks policy x (log ++ [e]) (some c) := by
  obtain ⟨life, hlive, hrecords, hattempt⟩ := h
  refine ⟨life ++ [e], hlive.concat henters hremoves, ?_, hattempt⟩
  rwa [times_concat, htimes, List.append_nil]

theorem Tracks.step (hlimit : 1 ≤ policy.limit) (h : Tracks policy x log held)
    (sees : Sees policy x e held held') : Tracks policy x (log ++ [e]) held' := by
  cases sees with
  | entered hentered hid htimes =>
    refine ⟨[e], live_of_entered hentered hid log, ?_, Nat.le_refl 1, hlimit⟩
    rw [times, List.flatMap_singleton, htimes]
    exact Context.records_restart _ _
  | ticked htick htimes hremoves =>
    have henters := not_enters_of_tick (x := x) htick
    cases held with
    | none => exact h.none_concat henters
    | some c =>
      cases hv : c.verdict policy e.now with
      | waits =>
        simp only [Option.bind_some, Context.resent?, Context.kept?, Context.exhausted?, hv]
          at htimes hremoves ⊢
        exact h.some_concat henters (by simp [hremoves]) htimes
      | overdue =>
        obtain ⟨life, hlive, hrecords, -⟩ := h
        simp only [Option.bind_some, Context.resent?, Context.kept?, Context.exhausted?, hv]
          at htimes hremoves ⊢
        refine ⟨life ++ [e], hlive.concat henters (by simp [hremoves]), ?_,
          Nat.le_add_left 1 c.attempt, Context.attempt_lt_of_overdue hv⟩
        rw [times_concat, htimes]
        exact hrecords.resend
      | exhausted =>
        simp only [Option.bind_some, Context.kept?, Context.exhausted?, hv] at hremoves ⊢
        exact tracks_none_of_removes henters (hremoves.mpr rfl)
  | removed henters hremoves => exact tracks_none_of_removes henters hremoves
  | quiet henters hremoves htimes =>
    cases held with
    | none => exact h.none_concat henters
    | some c => exact h.some_concat henters hremoves htimes

theorem tracks_of_trace (hlimit : 1 ≤ policy.limit) (h : Trace Takes (empty policy) log t)
    (x : UInt16) : Tracks policy x log (t.get? x) := by
  have hstart : (empty policy : RetryTable α).Sound policy ∧
      Tracks policy x [] ((empty policy : RetryTable α).get? x) := by
    refine ⟨sound_empty policy, ?_⟩
    rw [get?_empty]
    rintro exchange life ⟨e, rest, rfl, hsuffix, -⟩
    exact absurd hsuffix.length_le (by simp)
  have hany : ∀ e ∈ log, True := fun _ _ => trivial
  have hlog := h.invariant (P := fun log t => t.Sound policy ∧ Tracks policy x log (t.get? x))
    hstart hany fun ⟨sound, htracks⟩ _ takes =>
      ⟨takes.sound sound, htracks.step hlimit (takes.sees sound x)⟩
  exact hlog.2

/-- What is live is in the table. -/
theorem tracked_of_live (hlimit : 1 ≤ policy.limit) (h : Trace Takes (empty policy) log t)
    (hlive : Live x exchange log life) :
    ∃ c, t.get? x = some c ∧ c.exchange = exchange ∧ c.Records (times x life) := by
  have htracks := tracks_of_trace hlimit h x
  cases hc : t.get? x with
  | none =>
    rw [hc] at htracks
    exact absurd hlive (htracks exchange life)
  | some c =>
    rw [hc] at htracks
    obtain ⟨life', hlive', hrecords, -⟩ := htracks
    obtain ⟨rfl, hexchange⟩ := hlive'.unique hlive
    exact ⟨c, rfl, hexchange, hrecords⟩

/-- Each attempt comes when the wait after the one before is over. -/
def Spaced (policy : RetryPolicy) (times : List Time) : Prop :=
  times.IsChain fun earlier later => earlier + policy.delay < later

/-- Since an exchange was entered its attempts were spaced, and it knows of them while it is in the
table. -/
structure Paced (policy : RetryPolicy) (x : UInt16) (since : List (Entry α))
    (held : Option (Context α)) : Prop where
  spaced : Spaced policy (times x since)
  records : ∀ {c}, held = some c → c.Records (times x since)

omit [Exchange α] in
theorem Paced.quiet {since : List (Entry α)} (h : Paced policy x since held)
    (htimes : e.times x = []) (hheld : held' = held ∨ held' = none) :
    Paced policy x (since ++ [e]) held' := by
  have hsame : times x (since ++ [e]) = times x since := by
    rw [times_concat, htimes, List.append_nil]
  refine ⟨hsame ▸ h.spaced, ?_⟩
  rintro c rfl
  obtain rfl | hnone := hheld
  · rw [hsame]
    exact h.records rfl
  · cases hnone

theorem Paced.step {since : List (Entry α)} (h : Paced policy x since held)
    (henters : ¬ e.Enters x) (sees : Sees policy x e held held') :
    Paced policy x (since ++ [e]) held' := by
  cases sees with
  | entered hentered hid => exact absurd ⟨_, hentered, hid⟩ henters
  | ticked htick htimes =>
    cases held with
    | none => exact h.quiet htimes (.inl rfl)
    | some c =>
      have hrecords := h.records rfl
      cases hv : c.verdict policy e.now with
      | waits =>
        simp only [Option.bind_some, Context.resent?, Context.kept?, hv] at htimes ⊢
        exact h.quiet htimes (.inl rfl)
      | overdue =>
        simp only [Option.bind_some, Context.resent?, Context.kept?, hv] at htimes ⊢
        refine ⟨?_, ?_⟩
        · rw [times_concat, htimes]
          refine List.IsChain.append h.spaced (List.isChain_singleton _) ?_
          intro earlier hearlier later hlater
          obtain rfl := Option.some.inj (hrecords.lastSent.symm.trans hearlier)
          obtain rfl : e.now = later := by simpa using hlater
          exact Context.wait_lt_of_overdue hv
        · rintro _ ⟨⟩
          rw [times_concat, htimes]
          exact hrecords.resend
      | exhausted =>
        simp only [Option.bind_some, Context.resent?, Context.kept?, hv] at htimes ⊢
        exact h.quiet htimes (.inr rfl)
  | removed _ _ htimes => exact h.quiet htimes (.inr rfl)
  | quiet _ _ htimes => exact h.quiet htimes (.inl rfl)

/-- Nothing that a step does under an identifier brings back what is gone from there. -/
theorem Sees.of_none (sees : Sees policy x e none held') (henters : ¬ e.Enters x) :
    held' = none ∧ e.times x = [] := by
  cases sees with
  | entered hentered hid => exact absurd ⟨_, hentered, hid⟩ henters
  | ticked _ htimes => exact ⟨rfl, htimes⟩
  | removed _ _ htimes => exact ⟨rfl, htimes⟩
  | quiet _ _ htimes => exact ⟨rfl, htimes⟩

theorem Sees.of_removes (sees : Sees policy x e held held') (hremoves : e.Removes x) :
    held' = none := by
  cases sees with
  | entered hentered =>
    rw [Entry.Removes] at hremoves
    split at hremoves <;> simp_all [Request.entered?]
  | ticked htick htimes hgone =>
    cases held with
    | none => rfl
    | some c =>
      have hspent := hgone.mp hremoves
      cases hv : c.verdict policy e.now <;> simp [Context.exhausted?, Context.kept?, hv] at hspent ⊢
  | removed => rfl
  | quiet _ hquiet => exact absurd hremoves hquiet

theorem Sees.of_enters (sees : Sees policy x e held held') (henters : e.Enters x) :
    e.times x = [e.now] ∧ ∃ c : Context α, held' = some (c.restart e.now) := by
  cases sees with
  | entered _ _ htimes => exact ⟨htimes, _, rfl⟩
  | ticked htick => exact absurd henters (not_enters_of_tick htick)
  | removed hquiet | quiet hquiet => exact absurd henters hquiet

/-! ## What the record forces -/

section Life
variable {past rest : List (Entry α)}

theorem spaced_of_trace (h : Trace Takes (empty policy) (past ++ e :: (life ++ rest)) t)
    (henters : e.Enters x) (hlife : ∀ e' ∈ life, ¬ e'.Enters x) :
    Spaced policy (times x (e :: life)) := by
  obtain ⟨t₁, t₂, hpast, htakes, hnext⟩ := h.middle
  obtain ⟨t₃, hlived, -⟩ := hnext.split
  have sound := sound_of_trace hpast
  obtain ⟨htimes, c, hc⟩ := (htakes.sees sound x).of_enters henters
  have hfirst : times x [e] = [e.now] := by rw [times, List.flatMap_singleton, htimes]
  have hstart : Paced policy x [e] (t₂.get? x) := by
    refine ⟨hfirst ▸ List.isChain_singleton _, fun hc' => ?_⟩
    obtain rfl := Option.some.inj (hc.symm.trans hc')
    exact hfirst ▸ Context.records_restart c e.now
  have hpaced := hlived.invariant
    (P := fun since t => t.Sound policy ∧ Paced policy x since (t.get? x))
    ⟨htakes.sound sound, hstart⟩ hlife fun ⟨sound, hpaced⟩ henters' takes =>
      ⟨takes.sound sound, hpaced.step henters' (takes.sees sound x)⟩
  exact hpaced.2.spaced

/-- What has left the table is not written until it is entered again. -/
theorem times_eq_nil_of_removes (h : Trace Takes (empty policy) (past ++ e :: (life ++ rest)) t)
    (hremoves : e.Removes x) (hlife : ∀ e' ∈ life, ¬ e'.Enters x) : times x life = [] := by
  obtain ⟨t₁, t₂, hpast, htakes, hnext⟩ := h.middle
  obtain ⟨t₃, hlived, -⟩ := hnext.split
  have sound := sound_of_trace hpast
  have hgone := (htakes.sees sound x).of_removes hremoves
  have hstart : t₂.Sound policy ∧ t₂.get? x = none ∧ times x ([] : List (Entry α)) = [] :=
    ⟨htakes.sound sound, hgone, rfl⟩
  have hquiet := hlived.invariant
    (P := fun since t => t.Sound policy ∧ t.get? x = none ∧ times x since = [])
    hstart hlife fun ⟨sound, hnone, hnever⟩ henters' takes => by
      have sees := takes.sees sound x
      rw [hnone] at sees
      obtain ⟨hnone', htimes⟩ := sees.of_none henters'
      exact ⟨takes.sound sound, hnone', by rw [times_concat, hnever, htimes, List.append_nil]⟩
  exact hquiet.2.2

/-- Of what is tracked a tick gives up what was written as often as is allowed, once its last wait
is over. -/
theorem result_of_tick (hlimit : 1 ≤ policy.limit)
    (h : Trace Takes (empty policy) (past ++ e :: rest) t) (htick : e.request = .tick) :
    ∃ es, e.result = .ok es ∧ (es.map fun c => Exchange.id c.exchange).Nodup ∧
      ∀ c, c ∈ es ↔ c.finished = true ∧ c.succeeded = false ∧
        ∃ x life, Live x c.exchange past life ∧ c.Records (times x life) ∧
          (times x life).length = policy.limit ∧ Overdue policy (times x life) e.now := by
  obtain ⟨t₁, t₂, hpast, htakes, -⟩ := h.middle
  have sound := sound_of_trace hpast
  cases htakes with
  | tick now horder =>
    refine ⟨_, tickInOrder_result horder now, nodup_exhausted sound horder now, fun c => ?_⟩
    rw [mem_exhausted_iff horder, sound.policy]
    constructor
    · rintro ⟨x, c, hc, hv, rfl⟩
      have htracks := tracks_of_trace hlimit hpast x
      rw [hc] at htracks
      obtain ⟨life, hlive, hrecords, -, hattempt⟩ := htracks
      obtain ⟨hall, hdue⟩ := (verdict_eq_exhausted_iff hrecords).mp hv
      rw [hrecords.attempt] at hattempt
      exact ⟨rfl, rfl, x, life, hlive, ⟨hrecords.attempt, hrecords.lastSent⟩,
        Nat.le_antisymm hattempt hall, hdue⟩
    · rintro ⟨hfinished, hsucceeded, x, life, hlive, hrecords, hall, hdue⟩
      obtain ⟨c', hc', hexchange, hrecords'⟩ := tracked_of_live hlimit hpast hlive
      refine ⟨x, c', hc', (verdict_eq_exhausted_iff hrecords').mpr ⟨hall.ge, hdue⟩, ?_⟩
      obtain ⟨exchange, attempt, lastSent, finished, succeeded⟩ := c
      obtain rfl : attempt = c'.attempt := hrecords.attempt.trans hrecords'.attempt.symm
      obtain rfl : lastSent = c'.lastSent :=
        Option.some.inj (hrecords.lastSent.symm.trans hrecords'.lastSent)
      subst hexchange hfinished hsucceeded
      rfl
  | enqueue | requeue | finalize | take | reset => cases htick

/-- A tick writes what was written less often than is allowed, once its last wait is over. -/
theorem mem_written_of_tick (hlimit : 1 ≤ policy.limit)
    (h : Trace Takes (empty policy) (past ++ e :: rest) t) (htick : e.request = .tick)
    (x : UInt16) (q : Packet) :
    (x, q) ∈ e.written ↔ ∃ exchange life, Live x exchange past life ∧
      (times x life).length < policy.limit ∧ Overdue policy (times x life) e.now ∧
      q = Exchange.packet exchange ((times x life).length + 1) := by
  obtain ⟨t₁, t₂, hpast, htakes, -⟩ := h.middle
  have sound := sound_of_trace hpast
  cases htakes with
  | tick now horder =>
    rw [mem_journal_iff horder, sound.policy]
    constructor
    · rintro ⟨c, hc, hv, rfl⟩
      have htracks := tracks_of_trace hlimit hpast x
      rw [hc] at htracks
      obtain ⟨life, hlive, hrecords, -⟩ := htracks
      obtain ⟨hmore, hdue⟩ := (verdict_eq_overdue_iff hrecords).mp hv
      exact ⟨c.exchange, life, hlive, hmore, hdue, by rw [hrecords.attempt]⟩
    · rintro ⟨exchange, life, hlive, hmore, hdue, rfl⟩
      obtain ⟨c, hc, rfl, hrecords⟩ := tracked_of_live hlimit hpast hlive
      exact ⟨c, hc, (verdict_eq_overdue_iff hrecords).mpr ⟨hmore, hdue⟩, by rw [hrecords.attempt]⟩
  | enqueue | requeue | finalize | take | reset => cases htick

end Life

/-- How often an exchange is written, how far its attempts are apart, and when it is given up. -/
theorem retry_discipline (hlimit : 1 ≤ policy.limit) (h : Trace Takes (empty policy) log t) :
    (∀ e ∈ log, e.written.map Prod.snd = e.packets) ∧
      (∀ x c, t.get? x = some c → ∃ life, Live x c.exchange log life ∧
        c.attempt = (times x life).length ∧ 1 ≤ c.attempt ∧ c.attempt ≤ policy.limit) ∧
      (∀ x exchange life, Live x exchange log life → ∃ c, t.get? x = some c ∧ c.exchange = exchange) ∧
      ∀ past e rest, log = past ++ e :: rest →
        (∀ x life after, rest = life ++ after → (∀ e' ∈ life, ¬ e'.Enters x) →
          (e.Enters x → Spaced policy (times x (e :: life))) ∧
            (e.Removes x → times x life = [])) ∧
        (e.request = .tick →
          (∃ es, e.result = .ok es ∧ (es.map fun c => Exchange.id c.exchange).Nodup ∧
            ∀ c, c ∈ es ↔ c.finished = true ∧ c.succeeded = false ∧
              ∃ x life, Live x c.exchange past life ∧ c.Records (times x life) ∧
                (times x life).length = policy.limit ∧ Overdue policy (times x life) e.now) ∧
          ∀ x q, (x, q) ∈ e.written ↔ ∃ exchange life, Live x exchange past life ∧
            (times x life).length < policy.limit ∧ Overdue policy (times x life) e.now ∧
            q = Exchange.packet exchange ((times x life).length + 1)) := by
  refine ⟨fun e he => ?_, fun x c hc => ?_, fun x exchange life hlive => ?_, ?_⟩
  · obtain ⟨past, rest, rfl⟩ := List.append_of_mem he
    obtain ⟨t₁, t₂, -, htakes, -⟩ := h.middle
    exact htakes.packets
  · have htracks := tracks_of_trace hlimit h x
    rw [hc] at htracks
    obtain ⟨life, hlive, hrecords, hattempt⟩ := htracks
    exact ⟨life, hlive, hrecords.attempt, hattempt⟩
  · obtain ⟨c, hc, hexchange, -⟩ := tracked_of_live hlimit h hlive
    exact ⟨c, hc, hexchange⟩
  · rintro past e rest rfl
    refine ⟨?_, fun htick => ⟨result_of_tick hlimit h htick, mem_written_of_tick hlimit h htick⟩⟩
    rintro x life after rfl hlife
    exact ⟨fun henters => spaced_of_trace h henters hlife,
      fun hremoves => times_eq_nil_of_removes h hremoves hlife⟩

end Record

/-- An exchange that is never acknowledged; the second attempt is the last. -/
def lapse : List (Entry AckExchange) :=
  [⟨0, .enqueue ⟨7⟩, [.ofBody (.puback 7)], [(7, .ofBody (.puback 7))], .ok []⟩,
    ⟨6, .tick, [.ofBody (.puback 7)], [(7, .ofBody (.puback 7))], .ok []⟩,
    ⟨12, .tick, [], [], .ok [⟨⟨7⟩, 2, 6, true, false⟩]⟩,
    ⟨20, .tick, [], [], .ok []⟩]

theorem trace_lapse : ∃ t, Trace Takes (.empty ⟨5, 2⟩) lapse t :=
  ⟨_, .cons (.enqueue 0 ⟨7⟩) rfl <|
    .cons (.tick 6 (.refl _)) rfl <|
    .cons (.tick 12 (.refl _)) rfl <|
    .cons (.tick 20 (.refl _)) rfl <|
    .idle _⟩

theorem retry_discipline_lapse :
    ∃ t, Trace Takes (.empty ⟨5, 2⟩) lapse t ∧ Spaced ⟨5, 2⟩ [0, 6] ∧
      times 7 (lapse.drop 3) = [] ∧
      ∃ x life, Live x ⟨7⟩ (lapse.take 2) life ∧ (times x life).length = 2 ∧
        Overdue ⟨5, 2⟩ (times x life) 12 := by
  obtain ⟨t, run⟩ := trace_lapse
  obtain ⟨-, -, -, hentries⟩ := retry_discipline (by decide) run
  obtain ⟨hfirst, -⟩ := hentries [] _ (lapse.drop 1) rfl
  obtain ⟨hlast, hgone⟩ := hentries (lapse.take 2) _ (lapse.drop 3) rfl
  obtain ⟨⟨es, hes, -, hmem⟩, -⟩ := hgone rfl
  obtain rfl := Except.ok.inj hes
  have hspent := (hmem ⟨⟨7⟩, 2, 6, true, false⟩).mp List.mem_cons_self
  obtain ⟨-, -, x, life, hlive, -, hall, hdue⟩ := hspent
  have htick : ∀ e ∈ lapse.drop 1, e.request = .tick := by simp [lapse]
  have hquiet : ∀ e ∈ lapse.drop 1, ¬ e.Enters 7 := fun e he => not_enters_of_tick (htick e he)
  have hspaced := (hfirst 7 (lapse.drop 1) [] (List.append_nil _).symm hquiet).1 ⟨⟨7⟩, rfl, rfl⟩
  have hnever := (hlast 7 (lapse.drop 3) [] rfl fun e he =>
    hquiet e (List.mem_of_mem_drop (i := 2) he)).2 ⟨_, rfl, _, List.mem_cons_self, rfl⟩
  exact ⟨t, run, hspaced, hnever, x, life, hlive, hall, hdue⟩

end RetryTable

end Mqtt
