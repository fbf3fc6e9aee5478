import Mqtt.Client.Incoming
import Mqtt.Proofs.Retries

/-!
# Retry tables on a closed queue

Nothing can be written on a closed queue. An exchange is not entered then, and nothing becomes of
the table. A pass, however, counts an attempt before it writes it: it stops at the first exchange
that is due with an attempt counted that was not written, and leaves in the table what it gave up
on the way there.
-/
namespace Mqtt

theorem Context.resent?_eq_none {α : Type} [Exchange α] {policy : RetryPolicy} {now : Time}
    {c : Context α} (h : c.verdict policy now ≠ .overdue) : c.resent? policy now = none := by
  rw [resent?]
  split
  · next hv => exact absurd hv h
  · rfl
  · rfl

namespace RetryTable

section Due
variable {α : Type} {t : RetryTable α} {now : Time} {id : UInt16} {c : Context α}

/-- A pass is to write what is tracked under the identifier once more. -/
def due (t : RetryTable α) (now : Time) (id : UInt16) : Bool :=
  (t.get? id).any fun c => c.verdict t.policy now == .overdue

theorem due_iff :
    t.due now id = true ↔ ∃ c, t.get? id = some c ∧ c.verdict t.policy now = .overdue := by
  cases hc : t.get? id with
  | none => simp [due, hc]
  | some c => simp [due, hc]

theorem ne_overdue_of_not_due (h : t.due now id = false) (hc : t.get? id = some c) :
    c.verdict t.policy now ≠ .overdue := by
  intro hv
  have hdue := due_iff.mpr ⟨c, hc, hv⟩
  rw [h] at hdue
  cases hdue

end Due

variable {α : Type} [Exchange α] {policy : RetryPolicy} {now : Time} {t : RetryTable α}
  {order before after : List UInt16} {id : UInt16} {c : Context α}

/-! ## A pass that stops -/

/-- Only where something is to be written it matters whether the queue is open. -/
theorem visit_closed {s : Sweep α}
    (h : ∀ c, s.contexts[id]? = some c → c.verdict policy now ≠ .overdue) :
    visit policy false now s id = visit policy true now s id := by
  cases hc : s.contexts[id]? with
  | none => simp [visit, hc]
  | some c =>
    have judged := c.judged policy now
    generalize hv : c.verdict policy now = verdict at judged
    cases judged with
    | waits hwait => simp only [visit, hc, if_pos hwait]
    | exhausted hwait hlimit => simp only [visit, hc, if_neg hwait, if_pos hlimit]
    | overdue => exact absurd hv (h c hc)

theorem visit_closed_overdue {s : Sweep α} (hrunning : s.blocked = false)
    (hc : s.contexts[id]? = some c) (hv : c.verdict policy now = .overdue) :
    visit policy false now s id =
      { s with contexts := s.contexts.insert id (c.resend now), blocked := true } := by
  cases hv ▸ c.judged policy now with
  | overdue hwait hlimit =>
    simp only [visit, hrunning, hc, if_neg hwait, if_neg hlimit, Bool.false_eq_true, if_false]

theorem foldl_visit_blocked {s : Sweep α} {isOpen : Bool} (h : s.blocked = true)
    (order : List UInt16) : order.foldl (visit policy isOpen now) s = s := by
  induction order with
  | nil => rfl
  | cons id order ih => rw [List.foldl_cons, visit, if_pos h, ih]

theorem foldl_visit_closed {s : Sweep α} (hrunning : s.blocked = false) (hnodup : order.Nodup)
    (h : ∀ id ∈ order, ∀ c, s.contexts[id]? = some c → c.verdict policy now ≠ .overdue) :
    order.foldl (visit policy false now) s = order.foldl (visit policy true now) s := by
  induction order generalizing s with
  | nil => rfl
  | cons id order ih =>
    obtain ⟨hid, hnodup⟩ := List.nodup_cons.mp hnodup
    obtain ⟨hfirst, hrest⟩ := List.forall_mem_cons.mp h
    have hvisit := swept_visit policy now hrunning id
    rw [List.foldl_cons, List.foldl_cons, visit_closed hfirst]
    refine ih hvisit.blocked hnodup fun other hother c hc => ?_
    have hne : other ∉ [id] := by
      rw [List.mem_singleton]
      exact fun heq => hid (heq ▸ hother)
    rw [hvisit.contexts, if_neg hne] at hc
    exact hrest other hother c hc

/-- A pass that meets nothing to write does not notice that the queue is closed. -/
theorem sweep_closed_of_not_due (h : order.Perm t.ids)
    (hnone : ∀ id ∈ order, t.due now id = false) :
    t.sweep false now order = t.sweep true now order :=
  foldl_visit_closed rfl (nodup_of_perm_ids h) fun id hid _ hc =>
    ne_overdue_of_not_due (hnone id hid) hc

/-- Where a pass stops, what it visited before is done with, and nothing is visited after. -/
theorem sweep_closed_of_due (h : (before ++ id :: after).Perm t.ids)
    (hnone : ∀ x ∈ before, t.due now x = false) (hc : t.get? id = some c)
    (hv : c.verdict t.policy now = .overdue) :
    (t.sweep false now (before ++ id :: after)).blocked = true ∧
      (t.sweep false now (before ++ id :: after)).sent = [] ∧
      ∀ x, (t.sweep false now (before ++ id :: after)).contexts[x]? =
        if x = id then some (c.resend now)
        else if x ∈ before then (t.get? x).map (Context.visited t.policy now)
        else t.get? x := by
  obtain ⟨hbefore, -, hdisjoint⟩ := List.nodup_append.mp (nodup_of_perm_ids h)
  have hid : id ∉ before := fun hmem => hdisjoint id hmem id List.mem_cons_self rfl
  have hquiet : ∀ x ∈ before, ∀ c, t.contexts[x]? = some c → c.verdict t.policy now ≠ .overdue :=
    fun x hx c hc => ne_overdue_of_not_due (hnone x hx) hc
  have hswept : Swept t.policy now ⟨t.contexts, [], [], false⟩ before
      (before.foldl (visit t.policy false now) ⟨t.contexts, [], [], false⟩) := by
    rw [foldl_visit_closed rfl hbefore hquiet]
    exact swept_foldl rfl hbefore
  have hsame : (before.foldl (visit t.policy false now) ⟨t.contexts, [], [], false⟩).contexts[id]? =
      some c := by
    rw [hswept.contexts, if_neg hid]
    exact hc
  rw [sweep, List.foldl_append, List.foldl_cons, visit_closed_overdue hswept.blocked hsame hv,
    foldl_visit_blocked rfl]
  refine ⟨rfl, ?_, fun x => ?_⟩
  · rw [hswept.sent, List.append_nil, List.reverse_eq_nil_iff, List.filterMap_eq_nil_iff]
    intro x hx
    exact Option.bind_eq_none_iff.mpr fun c hc => Context.resent?_eq_none (hquiet x hx c hc)
  · rw [Std.TreeMap.getElem?_insert, hswept.contexts]
    by_cases hx : x = id
    · simp [hx]
    · simp [hx, Ne.symm hx, get?]

/-- A closed queue stops a pass at the first exchange that is due, in the order of the pass. -/
theorem tickInOrder_closed_of_due (h : (before ++ id :: after).Perm t.ids)
    (hnone : ∀ x ∈ before, t.due now x = false) (hc : t.get? id = some c)
    (hv : c.verdict t.policy now = .overdue) :
    (t.tickInOrder false now (before ++ id :: after)).result = .error .queueClosed ∧
      (t.tickInOrder false now (before ++ id :: after)).output = {} ∧
      ∀ x, (t.tickInOrder false now (before ++ id :: after)).state.get? x =
        if x = id then some (c.resend now)
        else if x ∈ before then (t.get? x).map (Context.visited t.policy now)
        else t.get? x := by
  obtain ⟨hblocked, hsent, hcontexts⟩ := sweep_closed_of_due h hnone hc hv
  simp only [tickInOrder, hblocked, hsent, if_true]
  exact ⟨trivial, rfl, hcontexts⟩

theorem tickInOrder_closed_of_not_due (h : order.Perm t.ids)
    (hnone : ∀ id ∈ order, t.due now id = false) :
    t.tickInOrder false now order = t.tickInOrder true now order := by
  rw [tickInOrder, sweep_closed_of_not_due h hnone, tickInOrder]

/-- On a closed queue nothing is entered and nothing is written. A pass fails if something is due;
it has then counted an attempt for the first exchange that was, has finished those before that ran
out of attempts, and all of them are in the table still. -/
theorem closed_queue_leaves (t : RetryTable α) :
    (∀ exchange now, t.enqueue false exchange now = .fail t .queueClosed) ∧
      (∀ c now, t.enqueueContext false c now = .fail t .queueClosed) ∧
      ∀ now order, order.Perm t.ids →
        ((∃ e, (t.tickInOrder false now order).result = .error e) ↔ ∃ id, t.due now id = true) ∧
        ∀ e, (t.tickInOrder false now order).result = .error e →
          e = .queueClosed ∧ (t.tickInOrder false now order).output = {} ∧
            ∃ before id after c, order = before ++ id :: after ∧
              (∀ x ∈ before, t.due now x = false) ∧ t.get? id = some c ∧
              c.verdict t.policy now = .overdue ∧
              ∀ x, (t.tickInOrder false now order).state.get? x =
                if x = id then some (c.resend now)
                else if x ∈ before then (t.get? x).map (Context.visited t.policy now)
                else t.get? x := by
  refine ⟨fun _ _ => rfl, fun _ _ => rfl, fun now order h => ?_⟩
  cases hfind : order.find? (t.due now) with
  | none =>
    have hnone : ∀ id ∈ order, t.due now id = false := by simpa using hfind
    rw [tickInOrder_closed_of_not_due h hnone, tickInOrder_result h]
    refine ⟨⟨?_, ?_⟩, ?_⟩
    · rintro ⟨e, ⟨⟩⟩
    · rintro ⟨id, hdue⟩
      obtain ⟨c, hc, -⟩ := due_iff.mp hdue
      have hid : id ∈ order := by simp [h.mem_iff, mem_ids, hc]
      rw [hnone id hid] at hdue
      cases hdue
    · rintro e ⟨⟩
  | some id =>
    obtain ⟨hdue, before, after, rfl, hnone⟩ := List.find?_eq_some_iff_append.mp hfind
    obtain ⟨c, hc, hv⟩ := due_iff.mp hdue
    have hbefore : ∀ x ∈ before, t.due now x = false := by simpa using hnone
    obtain ⟨hresult, houtput, hstate⟩ := tickInOrder_closed_of_due h hbefore hc hv
    refine ⟨⟨fun _ => ⟨id, hdue⟩, fun _ => ⟨_, hresult⟩⟩, fun e he => ?_⟩
    obtain rfl := Except.error.inj (hresult.symm.trans he)
    exact ⟨rfl, houtput, before, id, after, c, rfl, hbefore, hc, hv, hstate⟩

/-- The first exchange was written as often as is allowed, the second one only once. -/
def stalled : RetryTable AckExchange :=
  let t : RetryTable AckExchange := ((empty ⟨5, 2⟩).enqueue true ⟨1⟩ 0).state
  ((t.tick true 6).state.enqueue true ⟨2⟩ 7).state

theorem closed_queue_leaves_stalled :
    [1, 2].Perm stalled.ids ∧
      (stalled.tickInOrder false 20 [1, 2]).result = .error .queueClosed ∧
      ∃ before id after c, [1, 2] = before ++ id :: after ∧ stalled.get? id = some c ∧
        (stalled.tickInOrder false 20 [1, 2]).state.get? id = some (c.resend 20) := by
  obtain ⟨-, -, hpass⟩ := closed_queue_leaves stalled
  have hperm : [1, 2].Perm stalled.ids := .refl _
  have hfails : (stalled.tickInOrder false 20 [1, 2]).result = .error .queueClosed := rfl
  obtain ⟨-, hleaves⟩ := hpass 20 [1, 2] hperm
  obtain ⟨-, -, before, id, after, c, horder, -, hc, -, hstate⟩ := hleaves _ hfails
  exact ⟨hperm, hfails, before, id, after, c, horder, hc, by rw [hstate, if_pos rfl]⟩

/-- What is given up stays although it is finished, and an attempt counts that was not written. -/
theorem not_unchanged_stalled :
    stalled.get? 1 = some ⟨⟨1⟩, 2, 6, false, false⟩ ∧
      stalled.get? 2 = some ⟨⟨2⟩, 1, 7, false, false⟩ ∧
      (stalled.tickInOrder false 20 [1, 2]).result = .error .queueClosed ∧
      (stalled.tickInOrder false 20 [1, 2]).output.packets = [] ∧
      (stalled.tickInOrder false 20 [1, 2]).state.get? 1 = some ⟨⟨1⟩, 2, 6, true, false⟩ ∧
      (stalled.tickInOrder false 20 [1, 2]).state.get? 2 = some ⟨⟨2⟩, 2, 20, false, false⟩ :=
  ⟨rfl, rfl, rfl, rfl, rfl, rfl⟩

end RetryTable

end Mqtt
