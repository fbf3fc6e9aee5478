import Mathlib.Data.List.Nodup
import Mqtt.Client.RetryTable

/-!
# Retry tables

What an operation of a retry table does under each identifier. A pass does to every exchange of
the table what a look at the clock does to a single one, in whatever order it meets them. The
queue is open throughout.
-/
namespace Mqtt

/-- What a look at the clock finds about an exchange. -/
inductive Verdict
  | waits
  | overdue
  | exhausted
  deriving DecidableEq, Repr

namespace Context
variable {α : Type} [Exchange α]

def verdict (policy : RetryPolicy) (now : Time) (c : Context α) : Verdict :=
  if now - c.lastSent ≤ policy.delay then .waits
  else if policy.limit ≤ c.attempt then .exhausted
  else .overdue

/-- What a verdict says of the clock and of the attempts. -/
inductive Judged (policy : RetryPolicy) (now : Time) (c : Context α) : Verdict → Prop
  | waits (hwait : now - c.lastSent ≤ policy.delay) : Judged policy now c .waits
  | exhausted (hwait : ¬ now - c.lastSent ≤ policy.delay) (hlimit : policy.limit ≤ c.attempt) :
      Judged policy now c .exhausted
  | overdue (hwait : ¬ now - c.lastSent ≤ policy.delay) (hlimit : ¬ policy.limit ≤ c.attempt) :
      Judged policy now c .overdue

omit [Exchange α] in
theorem judged (policy : RetryPolicy) (now : Time) (c : Context α) :
    c.Judged policy now (c.verdict policy now) := by
  rw [verdict]
  split
  · next hwait => exact .waits hwait
  · next hwait =>
    split
    · next hlimit => exact .exhausted hwait hlimit
    · next hlimit => exact .overdue hwait hlimit

omit [Exchange α] in
theorem attempt_lt_of_overdue {policy : RetryPolicy} {now : Time} {c : Context α}
    (h : c.verdict policy now = .overdue) : c.attempt < policy.limit := by
  cases h ▸ c.judged policy now with
  | overdue _ hlimit => exact Nat.not_le.mp hlimit

omit [Exchange α] in
theorem wait_lt_of_overdue {policy : RetryPolicy} {now : Time} {c : Context α}
    (h : c.verdict policy now = .overdue) : c.lastSent + policy.delay < now := by
  cases h ▸ c.judged policy now with
  | overdue hwait => exact Nat.not_le.mp (mt Nat.sub_le_iff_le_add'.mpr hwait)

/-- What is left of an exchange in the table. -/
def kept? (policy : RetryPolicy) (now : Time) (c : Context α) : Option (Context α) :=
  match c.verdict policy now with
  | .waits => some c
  | .overdue => some (c.resend now)
  | .exhausted => none

def resent? (policy : RetryPolicy) (now : Time) (c : Context α) : Option Packet :=
  match c.verdict policy now with
  | .overdue => some (Exchange.packet c.exchange (c.attempt + 1))
  | .waits | .exhausted => none

theorem exists_attempt_of_resent? {policy : RetryPolicy} {now : Time} {c : Context α} {q : Packet}
    (h : c.resent? policy now = some q) : ∃ attempt, q = Exchange.packet c.exchange attempt := by
  rw [resent?] at h
  split at h <;> cases h
  exact ⟨_, rfl⟩

def exhausted? (policy : RetryPolicy) (now : Time) (c : Context α) : Option (Context α) :=
  match c.verdict policy now with
  | .exhausted => some (c.finish false)
  | .waits | .overdue => none

omit [Exchange α] in
@[simp] theorem exchange_finish (c : Context α) (succeeded : Bool) :
    (c.finish succeeded).exchange = c.exchange := rfl

omit [Exchange α] in
theorem exchange_of_kept? {policy : RetryPolicy} {now : Time} {c c' : Context α}
    (h : c.kept? policy now = some c') : c'.exchange = c.exchange := by
  rw [kept?] at h
  split at h <;> cases h <;> rfl

omit [Exchange α] in
theorem exchange_of_exhausted? {policy : RetryPolicy} {now : Time} {c c' : Context α}
    (h : c.exhausted? policy now = some c') : c'.exchange = c.exchange := by
  rw [exhausted?] at h
  split at h <;> cases h
  rfl

/-- An exchange after its visit and before those that are given up leave the table. -/
def visited (policy : RetryPolicy) (now : Time) (c : Context α) : Context α :=
  match c.verdict policy now with
  | .waits => c
  | .overdue => c.resend now
  | .exhausted => c.finish false

end Context

namespace RetryTable
variable {α : Type} [Exchange α] {policy : RetryPolicy} {now : Time}

/-! ## Putting an exchange in and taking it out -/

omit [Exchange α] in
theorem size_erase_add_one {m : Contexts α} {id : UInt16} (h : m.contains id = true) :
    (m.erase id).size + 1 = m.size := by
  have hpos : m.size ≠ 0 := by
    intro hzero
    have hempty : m.isEmpty = true := by simp [Std.TreeMap.isEmpty_eq_size_eq_zero, hzero]
    rw [Std.TreeMap.contains_of_isEmpty hempty] at h
    contradiction
  rw [Std.TreeMap.size_erase, if_pos h]
  omega

omit [Exchange α] in
theorem size_erase {t : RetryTable α} {id : UInt16} {c : Context α} (h : t.get? id = some c) :
    (t.erase id).size + 1 = t.size := by
  refine size_erase_add_one ?_
  rw [Std.TreeMap.contains_eq_isSome_getElem?, show t.contexts[id]? = some c from h]
  rfl

theorem size_enqueueContext {t : RetryTable α} {c : Context α} (now : Time)
    (h : t.get? (Exchange.id c.exchange) = none) :
    (t.enqueueContext true c now).state.size = t.size + 1 := by
  have hnew : t.contexts.contains (Exchange.id c.exchange) = false := by
    rw [Std.TreeMap.contains_eq_isSome_getElem?,
      show t.contexts[Exchange.id c.exchange]? = none from h]
    rfl
  simp [size, enqueueContext, Step.emit, Std.TreeMap.size_insert, hnew]

theorem size_enqueue {t : RetryTable α} (exchange : α) (now : Time)
    (h : t.get? (Exchange.id exchange) = none) :
    (t.enqueue true exchange now).state.size = t.size + 1 :=
  size_enqueueContext now h

@[simp] theorem events_enqueueContext (t : RetryTable α) (c : Context α) (now : Time) :
    (t.enqueueContext true c now).output.events = [] := rfl

@[simp] theorem events_enqueue (t : RetryTable α) (exchange : α) (now : Time) :
    (t.enqueue true exchange now).output.events = [] := rfl

omit [Exchange α] in
theorem finalize_of_none {t : RetryTable α} {id : UInt16} (h : t.get? id = none) :
    t.finalize id = none := by
  rw [finalize, h, Option.map_none]

omit [Exchange α] in
theorem finalize_of_some {t : RetryTable α} {id : UInt16} {c : Context α} (h : t.get? id = some c) :
    t.finalize id = some (c.finish true, t.erase id) := by
  rw [finalize, h, Option.map_some]

omit [Exchange α] in
theorem take_of_none {t : RetryTable α} {id : UInt16} (h : t.get? id = none) :
    t.take id = none := by
  rw [take, h, Option.map_none]

omit [Exchange α] in
theorem take_of_some {t : RetryTable α} {id : UInt16} {c : Context α} (h : t.get? id = some c) :
    t.take id = some (c, t.erase id) := by
  rw [take, h, Option.map_some]

omit [Exchange α] in
/-- An exchange that is taken out is gone, and the others stay. -/
theorem get?_removed (t : RetryTable α) (f : Context α → Context α) (id x : UInt16) :
    ((((t.get? id).map fun c => (f c, t.erase id)).map Prod.snd).getD t).get? x =
      if id = x then none else t.get? x := by
  cases hc : t.get? id with
  | none =>
    split
    · next hid => rw [← hid]; exact hc
    · rfl
  | some c => exact get?_erase t id x

/-! ## A visit -/

theorem visit_none {s : Sweep α} {id : UInt16} (hopen : s.blocked = false)
    (h : s.contexts[id]? = none) : visit policy true now s id = s := by
  simp [visit, hopen, h]

theorem visit_some (policy : RetryPolicy) (now : Time) {s : Sweep α} {id : UInt16} {c : Context α}
    (hopen : s.blocked = false) (h : s.contexts[id]? = some c) :
    (visit policy true now s id).blocked = false ∧
      (visit policy true now s id).sent = (c.resent? policy now).toList ++ s.sent ∧
      (visit policy true now s id).exhausted =
        (if (c.exhausted? policy now).isSome then [id] else []) ++ s.exhausted ∧
      (∀ other, (visit policy true now s id).contexts[other]? =
        if id = other then some (c.visited policy now) else s.contexts[other]?) ∧
      (visit policy true now s id).contexts.size = s.contexts.size := by
  have hmem : s.contexts.contains id = true := by
    rw [Std.TreeMap.contains_eq_isSome_getElem?, h]
    rfl
  simp only [visit, hopen, h, Context.resent?, Context.exhausted?, Context.visited,
    Context.verdict, Bool.false_eq_true, if_false, if_true]
  split
  · -- nothing is written back: the table has the exchange as it was
    refine ⟨hopen, rfl, rfl, fun other => ?_, rfl⟩
    split
    · next hid => rw [← hid, h]
    · rfl
  · split
    · refine ⟨rfl, rfl, rfl, fun other => ?_, ?_⟩
      · simp [Std.TreeMap.getElem?_insert]
      · simp [Std.TreeMap.size_insert, hmem]
    · refine ⟨rfl, rfl, rfl, fun other => ?_, ?_⟩
      · simp [Std.TreeMap.getElem?_insert]
      · simp [Std.TreeMap.size_insert, hmem]

/-! ## All visits -/

/-- What a sweep in a given order has done when it began with `s` and is at `r`. -/
structure Swept (policy : RetryPolicy) (now : Time) (s : Sweep α) (order : List UInt16)
    (r : Sweep α) : Prop where
  blocked : r.blocked = false
  sent : r.sent =
    (order.filterMap fun id => s.contexts[id]?.bind (Context.resent? policy now)).reverse ++ s.sent
  exhausted : r.exhausted =
    (order.filter fun id =>
      (s.contexts[id]?.bind (Context.exhausted? policy now)).isSome).reverse ++ s.exhausted
  contexts : ∀ id, r.contexts[id]? =
    if id ∈ order then s.contexts[id]?.map (Context.visited policy now) else s.contexts[id]?
  size : r.contexts.size = s.contexts.size

theorem swept_visit (policy : RetryPolicy) (now : Time) {s : Sweep α} (hopen : s.blocked = false)
    (id : UInt16) :
    Swept policy now s [id] (visit policy true now s id) := by
  cases h : s.contexts[id]? with
  | none =>
    rw [visit_none hopen h]
    refine ⟨hopen, by simp [h], by simp [h], fun other => ?_, rfl⟩
    by_cases hid : other = id
    · simp [hid, h]
    · simp [hid]
  | some c =>
    obtain ⟨hblocked, hsent, hexhausted, hcontexts, hsize⟩ := visit_some policy now hopen h
    refine ⟨hblocked, ?_, ?_, fun other => ?_, hsize⟩
    · rw [hsent]
      cases hr : c.resent? policy now <;> simp [h, hr]
    · rw [hexhausted]
      cases he : c.exhausted? policy now <;> simp [h, he]
    · rw [hcontexts]
      by_cases hid : other = id
      · simp [hid, h]
      · simp [hid, Ne.symm hid]

theorem Swept.append {s r u : Sweep α} {xs ys : List UInt16} (h : Swept policy now s xs r)
    (h' : Swept policy now r ys u) (hdisjoint : ∀ id ∈ ys, id ∉ xs) :
    Swept policy now s (xs ++ ys) u := by
  -- a visit changes nothing but its own exchange, so the second sweep meets what the first met
  have hsame : ∀ id ∈ ys, r.contexts[id]? = s.contexts[id]? := by
    intro id hid
    rw [h.contexts, if_neg (hdisjoint id hid)]
  refine ⟨h'.blocked, ?_, ?_, fun id => ?_, h'.size.trans h.size⟩
  · rw [h'.sent, h.sent, List.filterMap_append, List.reverse_append, List.append_assoc]
    congr 2
    exact List.filterMap_congr fun id hid => by rw [hsame id hid]
  · rw [h'.exhausted, h.exhausted, List.filter_append, List.reverse_append, List.append_assoc]
    congr 2
    exact List.filter_congr fun id hid => by rw [hsame id hid]
  · rw [h'.contexts]
    by_cases hy : id ∈ ys
    · simp [hy, hsame id hy]
    · simp [hy, h.contexts]

theorem swept_foldl {s : Sweep α} {order : List UInt16} (hopen : s.blocked = false)
    (hnodup : order.Nodup) : Swept policy now s order (order.foldl (visit policy true now) s) := by
  induction order generalizing s with
  | nil => exact ⟨hopen, rfl, rfl, fun id => by simp, rfl⟩
  | cons id order ih =>
    obtain ⟨hid, hnodup⟩ := List.nodup_cons.mp hnodup
    have hfirst := swept_visit policy now hopen id
    refine hfirst.append (ih hfirst.blocked hnodup) fun other hother => ?_
    rw [List.mem_singleton]
    exact fun heq => hid (heq ▸ hother)

/-! ## The pass -/

omit [Exchange α] in
theorem getElem?_foldl_erase (ids : List UInt16) (m : Contexts α) (id : UInt16) :
    (ids.foldl (fun m id => m.erase id) m)[id]? = if id ∈ ids then none else m[id]? := by
  induction ids generalizing m with
  | nil => simp
  | cons first ids ih =>
    rw [List.foldl_cons, ih, Std.TreeMap.getElem?_erase]
    by_cases hid : first = id
    · simp [hid]
    · simp [hid, Ne.symm hid]

omit [Exchange α] in
theorem size_foldl_erase {ids : List UInt16} {m : Contexts α} (hnodup : ids.Nodup)
    (hmem : ∀ id ∈ ids, m.contains id = true) :
    (ids.foldl (fun m id => m.erase id) m).size + ids.length = m.size := by
  induction ids generalizing m with
  | nil => rfl
  | cons first ids ih =>
    obtain ⟨hfirst, hnodup⟩ := List.nodup_cons.mp hnodup
    have hrest : ∀ id ∈ ids, (m.erase first).contains id = true := by
      intro id hid
      have hne : first ≠ id := fun heq => hfirst (heq ▸ hid)
      simpa [Std.TreeMap.contains_erase, hne] using hmem id (List.mem_cons_of_mem _ hid)
    have hsize := size_erase_add_one (hmem first List.mem_cons_self)
    rw [List.foldl_cons, List.length_cons, ← hsize, ← ih hnodup hrest]
    omega

omit [Exchange α] in
theorem mem_ids {t : RetryTable α} {id : UInt16} : id ∈ t.ids ↔ (t.get? id).isSome = true := by
  rw [ids, Std.TreeMap.mem_keys, Std.TreeMap.mem_iff_isSome_getElem?, get?]

omit [Exchange α] in
theorem toList_eq (t : RetryTable α) : t.toList = t.ids.filterMap t.get? := by
  have hvalues : t.contexts.foldr (fun _ c cs => c :: cs) [] = t.contexts.toList.map Prod.snd := by
    rw [Std.TreeMap.foldr_eq_foldr_toList, List.map_eq_foldr]
  have hget : ∀ entry ∈ t.contexts.toList, t.get? entry.1 = some entry.2 :=
    fun entry h => Std.TreeMap.mem_toList_iff_getElem?_eq_some.mp h
  calc t.toList = t.contexts.toList.map Prod.snd := hvalues
    _ = t.contexts.toList.filterMap fun entry => t.get? entry.1 := by
      rw [List.filterMap_congr hget, List.filterMap_eq_map']
    _ = t.ids.filterMap t.get? := by
      rw [ids, ← Std.TreeMap.map_fst_toList_eq_keys, List.filterMap_map]
      rfl

omit [Exchange α] in
theorem nodup_of_perm_ids {t : RetryTable α} {order : List UInt16} (h : order.Perm t.ids) :
    order.Nodup :=
  h.nodup_iff.mpr Std.TreeMap.nodup_keys

variable {t : RetryTable α} {order : List UInt16}

theorem swept_sweep (h : order.Perm t.ids) (now : Time) :
    Swept t.policy now ⟨t.contexts, [], [], false⟩ order (t.sweep true now order) :=
  swept_foldl rfl (nodup_of_perm_ids h)

theorem tickInOrder_policy (now : Time) :
    (t.tickInOrder true now order).state.policy = t.policy := by
  simp only [tickInOrder]
  split <;> rfl

theorem tickInOrder_output (h : order.Perm t.ids) (now : Time) :
    (t.tickInOrder true now order).output =
      .ofPackets (order.filterMap fun id => (t.get? id).bind (Context.resent? t.policy now)) := by
  have hswept := swept_sweep h now
  simp only [tickInOrder, hswept.blocked, hswept.sent, Bool.false_eq_true, if_false,
    List.append_nil, List.reverse_reverse]
  rfl

theorem tickInOrder_result (h : order.Perm t.ids) (now : Time) :
    (t.tickInOrder true now order).result =
      .ok (order.filterMap fun id => (t.get? id).bind (Context.exhausted? t.policy now)) := by
  have hswept := swept_sweep h now
  simp only [tickInOrder, hswept.blocked, hswept.exhausted, Bool.false_eq_true, if_false,
    List.append_nil, List.reverse_reverse, List.filterMap_filter]
  refine congrArg Except.ok (List.filterMap_congr fun id hid => ?_)
  rw [hswept.contexts, if_pos hid, get?]
  cases hc : t.contexts[id]? with
  | none => rfl
  | some c => cases hv : c.verdict t.policy now <;> simp [Context.exhausted?, Context.visited, hv]

/-- A pass, and what is put out for the exchanges that it gives up. -/
theorem tickInOrder_andThen (h : order.Perm t.ids) (now : Time)
    (put : List (Context α) → Output) :
    ((t.tickInOrder true now order).andThen fun t es => .emit t (put es)) =
      (⟨(t.tickInOrder true now order).state,
        .ofPackets (order.filterMap fun id => (t.get? id).bind (Context.resent? t.policy now)) ++
          put (order.filterMap fun id => (t.get? id).bind (Context.exhausted? t.policy now)),
        .ok ()⟩ : Step (RetryTable α) ClientError Unit) := by
  simp only [Step.andThen, tickInOrder_result h now, tickInOrder_output h now, Step.emit]

/-- A pass does to every exchange what a look at the clock does to it. -/
theorem get?_tickInOrder (h : order.Perm t.ids) (now : Time) (id : UInt16) :
    (t.tickInOrder true now order).state.get? id =
      (t.get? id).bind (Context.kept? t.policy now) := by
  have hswept := swept_sweep h now
  simp only [tickInOrder, hswept.blocked, hswept.exhausted, Bool.false_eq_true, if_false,
    List.append_nil, List.reverse_reverse, get?, getElem?_foldl_erase, hswept.contexts,
    List.mem_filter]
  cases hc : t.contexts[id]? with
  | none => simp
  | some c =>
    have hmem : id ∈ order := by
      rw [h.mem_iff, mem_ids, get?, hc]
      rfl
    cases hv : c.verdict t.policy now <;>
      simp [hmem, Context.exhausted?, Context.kept?, Context.visited, hv]

/-- Who ran out of attempts has left the table, and nobody else. -/
theorem size_tickInOrder (h : order.Perm t.ids) (now : Time) :
    (t.tickInOrder true now order).state.size +
      (order.filterMap fun id => (t.get? id).bind (Context.exhausted? t.policy now)).length =
        t.size := by
  have hswept := swept_sweep h now
  have hlength : (order.filterMap fun id =>
      (t.get? id).bind (Context.exhausted? t.policy now)).length =
        (order.filter fun id =>
          ((t.get? id).bind (Context.exhausted? t.policy now)).isSome).length := by
    rw [List.length_filterMap_eq_countP, List.countP_eq_length_filter]
  have herase := size_foldl_erase (m := (t.sweep true now order).contexts)
    ((nodup_of_perm_ids h).filter fun id =>
      ((t.get? id).bind (Context.exhausted? t.policy now)).isSome) (by
        intro id hid
        obtain ⟨hmem, hspent⟩ := List.mem_filter.mp hid
        rw [Std.TreeMap.contains_eq_isSome_getElem?, hswept.contexts, if_pos hmem]
        cases hc : t.contexts[id]? with
        | none => simp [get?, hc] at hspent
        | some c => rfl)
  rw [show (t.sweep true now order).contexts.size = t.size from hswept.size] at herase
  rw [hlength, ← herase]
  simp only [tickInOrder, hswept.blocked, hswept.exhausted, Bool.false_eq_true, if_false,
    List.append_nil, List.reverse_reverse, size, get?]

/-! ## One identifier -/

omit [Exchange α] in
/-- Of what a pass brings forth, only the exchange under `x` has a part in what concerns `x`. -/
theorem filterMap_pass {β γ : Type} {x : UInt16} {f : Context α → Option β} {g : β → Option γ}
    (h : order.Perm t.ids)
    (hother : ∀ id c b, t.get? id = some c → f c = some b → id ≠ x → g b = none) :
    (order.filterMap fun id => (t.get? id).bind f).filterMap g =
      (((t.get? x).bind f).bind g).toList := by
  have hnone : ∀ id, id ≠ x → ((t.get? id).bind f).bind g = none := by
    intro id hid
    cases hc : t.get? id with
    | none => rfl
    | some c =>
      cases hb : f c with
      | none => simp [hb]
      | some b => simpa [hb] using hother id c b hc hb hid
  rw [List.filterMap_filterMap]
  by_cases hmem : x ∈ order
  · obtain ⟨before, after, rfl⟩ := List.append_of_mem hmem
    have hnodup := List.nodup_middle.mp (nodup_of_perm_ids h)
    have hrest : ∀ ids : List UInt16, x ∉ ids →
        ids.filterMap (fun id => ((t.get? id).bind f).bind g) = [] := by
      intro ids hids
      rw [List.filterMap_eq_nil_iff]
      exact fun id hid => hnone id fun heq => hids (heq ▸ hid)
    have hx := (List.nodup_cons.mp hnodup).1
    rw [List.mem_append, not_or] at hx
    rw [List.filterMap_append, hrest before hx.1, List.nil_append, List.filterMap_cons]
    cases hg : ((t.get? x).bind f).bind g <;> simp [hrest after hx.2]
  · have hx : t.get? x = none := by
      rwa [h.mem_iff, mem_ids, Bool.not_eq_true, Option.isSome_eq_false_iff,
        Option.isNone_iff_eq_none] at hmem
    rw [hx, Option.bind_none, Option.bind_none, Option.toList_none, List.filterMap_eq_nil_iff]
    exact fun id hid => hnone id fun heq => hmem (heq ▸ hid)

omit [Exchange α] in
theorem filter_pass {β : Type} {x : UInt16} (f : Context α → Option β) (keep : β → Bool)
    (h : order.Perm t.ids)
    (hkeep : ∀ id c b, t.get? id = some c → f c = some b → keep b = (id == x)) :
    (order.filterMap fun id => (t.get? id).bind f).filter keep = ((t.get? x).bind f).toList := by
  have hpass := filterMap_pass (f := f) (g := Option.guard keep) (x := x) h (by
    intro id c b hc hb hid
    simp [Option.guard, hkeep id c b hc hb, hid])
  rw [List.filterMap_eq_filter] at hpass
  rw [hpass]
  cases hc : t.get? x with
  | none => rfl
  | some c =>
    cases hb : f c with
    | none => simp [hb]
    | some b => simp [hb, Option.guard, hkeep x c b hc hb]

end RetryTable

end Mqtt
