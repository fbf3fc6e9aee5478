import Mqtt.Proofs.Hold

/-!
# Receipts of incoming messages

A message that is delivered at least once goes to the application the moment it comes, and its
PUBACK is written then. The PUBACK passes through a table that would write it again, so it is taken
out of the table in the same step: the table is empty whenever the machine rests, and no look at the
clock writes a PUBACK. What is held for a PUBREL is not touched.
-/
namespace Mqtt

/-- The identifier that a PUBACK acknowledges. -/
def Packet.puback? (p : Packet) : Option UInt16 :=
  match p.body with
  | .puback id => some id
  | _ => none

/-- The message, if it is delivered at least once. -/
def PublishPacket.receipted? (p : PublishPacket) : Option PublishPacket :=
  match p.delivery with
  | .atLeastOnce _ => some p
  | .atMostOnce | .exactlyOnce _ => none

/-- The message that the application gets and that is delivered at least once. -/
def Event.receipted? : Event → Option PublishPacket
  | .received p => p.receipted?
  | _ => none

namespace Output

def pubacks (o : Output) : List UInt16 := o.packets.filterMap Packet.puback?

def receipted (o : Output) : List PublishPacket := o.events.filterMap Event.receipted?

end Output

/-- Whether a message comes that is delivered at least once. -/
def Trigger.IsReceipt (a : Trigger) : Prop :=
  ∃ p x, a = .publish p ∧ p.delivery = .atLeastOnce x

namespace RetryTable
variable {α : Type} [Exchange α] {t : RetryTable α}

omit [Exchange α] in
theorem ids_eq_nil_iff : t.ids = [] ↔ ∀ id, t.get? id = none := by
  simp only [List.eq_nil_iff_forall_not_mem, mem_ids, Option.not_isSome_iff_eq_none]

/-- An exchange that is acknowledged in the step that enters it leaves an empty table empty. -/
theorem ids_erase_enqueue (empty : t.ids = []) (e : α) (now : Time) :
    ((t.enqueue true e now).state.erase (Exchange.id e)).ids = [] := by
  rw [ids_eq_nil_iff] at empty ⊢
  intro id
  rw [get?_erase, enqueue, get?_enqueueContext]
  split
  · rfl
  · next hid => exact (if_neg hid).trans (empty id)

theorem ids_tickInOrder (empty : t.ids = []) {order : List UInt16} (h : order.Perm t.ids)
    (now : Time) : (t.tickInOrder true now order).state.ids = [] := by
  rw [ids_eq_nil_iff] at empty ⊢
  intro id
  rw [get?_tickInOrder h, empty id]
  rfl

end RetryTable

namespace Incoming

section Steps
variable {policy : RetryPolicy} {m : Incoming} {now : Time} {p : PublishPacket} {x : UInt16}
  {a : Trigger} {r : Step Incoming ClientError Unit}

/-- The PUBACK is written, the message delivered, and the PUBACK forgotten. -/
theorem publish_of_atLeastOnce (h : p.delivery = .atLeastOnce x) (m : Incoming) (now : Time) :
    m.publish true p now =
      ⟨⟨(m.acknowledged.enqueue true ⟨x⟩ now).state.erase x, m.awaitPubrel⟩,
        ⟨[.ofBody (.puback x)], [.received p], []⟩, .ok ()⟩ := by
  have hentered : (m.acknowledged.enqueue true ⟨x⟩ now).state.get? x =
      some ((Context.new ⟨x⟩ now).restart now) :=
    (RetryTable.get?_enqueueContext _ _ _ _).trans (if_pos rfl)
  have henqueue : m.acknowledged.enqueue true ⟨x⟩ now =
      ⟨(m.acknowledged.enqueue true ⟨x⟩ now).state, .ofPackets [.ofBody (.puback x)], .ok ()⟩ := rfl
  rw [publish, h]
  dsimp only
  rw [henqueue, Step.andThen_ok, RetryTable.finalize_of_some hentered]
  rfl

/-- A message that asks for an answer fails on a closed queue, and nothing else happens. -/
theorem publish_closed (h : p.delivery ≠ .atMostOnce) (m : Incoming) (now : Time) :
    m.publish false p now = .fail m .queueClosed := by
  rw [publish]
  split
  · next hd => exact absurd hd h
  · rfl
  · rfl

theorem pubacks_tickInOrder (empty : m.acknowledged.ids = []) {first second : List UInt16}
    (hfirst : first.Perm m.acknowledged.ids) (hsecond : second.Perm m.awaitPubrel.ids) :
    (m.tickInOrder true now first second).output.pubacks = [] := by
  rw [empty, List.perm_nil] at hfirst
  subst hfirst
  rw [tickInOrder_eq (by rw [empty]) hsecond, Output.pubacks, List.filterMap_eq_nil_iff]
  intro q hq
  obtain ⟨id, -, hid⟩ := List.mem_filterMap.mp hq
  obtain ⟨c, -, hc⟩ := Option.bind_eq_some_iff.mp hid
  obtain ⟨attempt, rfl⟩ := Context.exists_attempt_of_resent? hc
  rfl

/-- No step leaves a PUBACK to be written again. -/
theorem Takes.ids_acknowledged (takes : m.Takes now a r) (empty : m.acknowledged.ids = []) :
    r.state.acknowledged.ids = [] := by
  cases takes with
  | publish p =>
    cases hd : p.delivery with
    | atLeastOnce x =>
      rw [publish_of_atLeastOnce hd]
      exact RetryTable.ids_erase_enqueue empty ⟨x⟩ now
    | atMostOnce | exactlyOnce id =>
      rw [Incoming.publish, hd]
      exact empty
  | pubrel id =>
    cases h : m.held id with
    | none => rw [pubrel_of_none h]; exact empty
    | some c => rw [pubrel_of_some h]; exact empty
  | tick hfirst hsecond =>
    rw [tickInOrder_eq hfirst hsecond]
    exact RetryTable.ids_tickInOrder empty hfirst now
  | reset => exact RetryTable.ids_eq_nil_iff.mpr (RetryTable.get?_empty _)

theorem receipted_of_exactlyOnce (h : p.delivery = .exactlyOnce x) :
    (Output.ofEvent (.received p)).receipted = [] := by
  simp [Output.receipted, Output.ofEvent, Output.ofEvents, Event.receipted?,
    PublishPacket.receipted?, h]

/-- What comes otherwise has nothing to do with PUBACKs and the messages that they acknowledge. -/
theorem Takes.no_receipt (takes : m.Takes now a r) (sound : m.Sound policy)
    (empty : m.acknowledged.ids = []) (other : ¬ a.IsReceipt) :
    r.output.pubacks = [] ∧ r.output.receipted = [] := by
  cases takes with
  | publish p =>
    cases hd : p.delivery with
    | atLeastOnce x => exact absurd ⟨p, x, rfl, hd⟩ other
    | atMostOnce =>
      rw [Incoming.publish, hd]
      refine ⟨rfl, ?_⟩
      simp [Step.emit, Output.receipted, Output.ofEvent, Output.ofEvents, Event.receipted?,
        PublishPacket.receipted?, hd]
    | exactlyOnce id =>
      rw [Incoming.publish, hd]
      exact ⟨rfl, rfl⟩
  | pubrel id =>
    cases h : m.held id with
    | none =>
      rw [pubrel_of_none h]
      exact ⟨rfl, rfl⟩
    | some c =>
      rw [pubrel_of_some h]
      refine ⟨rfl, ?_⟩
      exact receipted_of_exactlyOnce (sound.named h).delivery
  | tick hfirst hsecond =>
    refine ⟨pubacks_tickInOrder empty hfirst hsecond, ?_⟩
    rw [tickInOrder_eq hfirst hsecond]
    rfl
  | reset => exact ⟨rfl, rfl⟩

end Steps

section Runs
variable {policy : RetryPolicy} {m : Incoming} {log : List Moment}

theorem ids_acknowledged_of_run (run : Run Takes (.new policy) log m) : m.acknowledged.ids = [] :=
  run.preserves (fun m => m.acknowledged.ids = []) (fun empty takes => takes.ids_acknowledged empty)
    (RetryTable.ids_eq_nil_iff.mpr (RetryTable.get?_empty policy))

/-- Each message that is delivered at least once is acknowledged and delivered once for each time
that it comes, then and at no other moment. -/
theorem receipted_once (run : Run Takes (.new policy) log m) :
    (∀ mo ∈ log, ∀ p x, mo.trigger = .publish p → p.delivery = .atLeastOnce x →
        mo.output = ⟨[.ofBody (.puback x)], [.received p], []⟩ ∧ mo.result = .ok ()) ∧
      (∀ mo ∈ log, ¬ mo.trigger.IsReceipt →
        mo.output.pubacks = [] ∧ mo.output.receipted = []) ∧
      m.acknowledged.ids = [] ∧
      (∀ p x now, p.delivery = .atLeastOnce x →
        (m.publish true p now).state.awaitPubrel = m.awaitPubrel) ∧
      ∀ (m' : Incoming) p now, p.delivery ≠ .atMostOnce →
        m'.publish false p now = .fail m' .queueClosed := by
  refine ⟨fun mo hmo p x ha hp => ?_, fun mo hmo other => ?_, ids_acknowledged_of_run run,
    fun p x now hp => ?_, fun m' p now hp => publish_closed hp m' now⟩
  · obtain ⟨past, rest, rfl⟩ := List.append_of_mem hmo
    obtain ⟨m₁, r, -, takes, houtput, hresult, -⟩ := run.middle
    rw [ha] at takes
    cases takes with
    | publish =>
      rw [← houtput, ← hresult, publish_of_atLeastOnce hp]
      exact ⟨rfl, rfl⟩
  · obtain ⟨past, rest, rfl⟩ := List.append_of_mem hmo
    obtain ⟨m₁, r, hpast, takes, houtput, -⟩ := run.middle
    rw [← houtput]
    exact takes.no_receipt (sound_of_run hpast) (ids_acknowledged_of_run hpast) other
  · rw [publish_of_atLeastOnce hp]

end Runs

/-- Two messages under one identifier: the second comes while the first waits for its PUBREL, and
the PUBREC of the first is overdue before that comes. -/
def sharedId : List Moment :=
  let p (delivery : Delivery) : PublishPacket := .new ⟨"door", by decide⟩ delivery [1]
  [⟨0, .publish (p (.exactlyOnce 7)), .ofPackets [.ofBody (.pubrec 7)], .ok ()⟩,
    ⟨1, .publish (p (.atLeastOnce 7)), ⟨[.ofBody (.puback 7)], [.received (p (.atLeastOnce 7))], []⟩,
      .ok ()⟩,
    ⟨7, .tick, .ofPackets [.ofBody (.pubrec 7)], .ok ()⟩,
    ⟨8, .pubrel 7, .ofEvent (.received (p (.exactlyOnce 7))) ++ .ofPackets [.ofBody (.pubcomp 7)],
      .ok ()⟩]

theorem run_sharedId : ∃ m, Run Takes (.new ⟨5, 2⟩) sharedId m :=
  ⟨_, .step (.publish _) rfl rfl <|
    .step (.publish _) rfl rfl <|
    .step (takes_tick _ _) rfl rfl <|
    .step (.pubrel 7) rfl rfl <|
    .idle _⟩

theorem receipted_once_sharedId :
    ∃ m second tick, Run Takes (.new ⟨5, 2⟩) sharedId m ∧
      sharedId[1]? = some second ∧ second.output.pubacks = [7] ∧
      sharedId[2]? = some tick ∧ ¬ tick.trigger.IsReceipt ∧ tick.output.pubacks = [] ∧
      m.acknowledged.ids = [] := by
  obtain ⟨m, run⟩ := run_sharedId
  obtain ⟨hreceipts, hothers, hempty, -⟩ := receipted_once run
  have other : ¬ Trigger.tick.IsReceipt := by
    rintro ⟨p, x, hp, -⟩
    cases hp
  refine ⟨m, _, _, run, rfl, ?_, rfl, other, ?_, hempty⟩
  · rw [(hreceipts _ (List.mem_of_getElem? (i := 1) rfl) _ 7 rfl rfl).1]
    rfl
  · exact (hothers _ (List.mem_of_getElem? (i := 2) rfl) other).1

end Incoming

end Mqtt
