import Mqtt.Proofs.Trace
import Mqtt.Scenario.Link

/-!
# The order of writing

Packets may be queued at any moment, while the writer takes the oldest one, hands bytes over, or
waits. Whether it hands over what it has encoded depends on a look at the queue, and every
interleaving comes to the same bytes: the packets one after another in the order they were
queued, up to and including the first DISCONNECT. When the writer waits for a packet nothing is
held back, and the first failure is reported once and ends all writing.
-/
namespace Mqtt
open Wire

/-! ## What is to be written -/

namespace Writer

/-- Whether the writer goes on when it has encoded the packet. -/
def GoesOn (p : Packet) : Prop := (Packet.write p).fault = none ∧ isDisconnect p = false

/-- The packets as bytes, one after another. -/
def encodings (ps : List Packet) : Bytes := ps.flatMap fun p => (Packet.write p).bytes

/-- What is written of the packets: DISCONNECT is the last one, and one that cannot be encoded is
not begun. -/
def script : List Packet → Bytes
  | [] => []
  | p :: rest =>
    if (Packet.write p).fault.isSome then []
    else (Packet.write p).bytes ++ if isDisconnect p then [] else script rest

section Script
variable {p : Packet} {ps qs : List Packet}

theorem script_cons (encoded : (Packet.write p).fault = none) :
    script (p :: ps) = (Packet.write p).bytes ++ if isDisconnect p then [] else script ps := by
  rw [script, encoded]
  rfl

theorem script_append (goOn : ∀ p ∈ ps, GoesOn p) : script (ps ++ qs) = encodings ps ++ script qs := by
  induction ps with
  | nil => rfl
  | cons p ps ih =>
    obtain ⟨⟨hencoded, hdisconnect⟩, hrest⟩ := List.forall_mem_cons.mp goOn
    rw [List.cons_append, script_cons hencoded, hdisconnect, if_neg Bool.false_ne_true, ih hrest,
      encodings, encodings, List.flatMap_cons, List.append_assoc]

theorem encodings_concat (ps : List Packet) (p : Packet) :
    encodings (ps ++ [p]) = encodings ps ++ (Packet.write p).bytes := by
  rw [encodings, List.flatMap_append, List.flatMap_singleton, encodings]

theorem script_concat (goOn : ∀ p ∈ ps, GoesOn p) (encoded : (Packet.write p).fault = none) :
    script (ps ++ [p]) = encodings (ps ++ [p]) := by
  rw [script_append goOn, script_cons encoded, script, ite_self, List.append_nil, encodings_concat]

/-- Nothing is written after a DISCONNECT. -/
theorem script_of_isDisconnect (goOn : ∀ p ∈ ps, GoesOn p) (encoded : (Packet.write p).fault = none)
    (last : isDisconnect p = true) (qs : List Packet) :
    script (ps ++ p :: qs) = encodings (ps ++ [p]) := by
  rw [script_append goOn, script_cons encoded, last, if_pos rfl, List.append_nil, encodings_concat]

/-- Packets that are queued later leave what is to be written before them. -/
theorem script_prefix (ps qs : List Packet) : script ps <+: script (ps ++ qs) := by
  induction ps with
  | nil => exact List.nil_prefix
  | cons p ps ih =>
    rw [List.cons_append, script, script]
    split
    · exact List.nil_prefix
    · refine (List.prefix_append_right_inj _).mpr ?_
      split
      · exact List.nil_prefix
      · exact ih

theorem prefix_script {out held : Bytes} (goOn : ∀ p ∈ ps, GoesOn p)
    (written : out ++ held = encodings ps) (qs : List Packet) : out <+: script (ps ++ qs) := by
  rw [script_append goOn, ← written, List.append_assoc]
  exact List.prefix_append _ _

end Script

/-! ## Where the writer stands -/

/-- How a writer stands that took `taken` from the queue, handed over `out` and reported
`reasons`; `more` says whether the queue holds a packet. What it holds back is in the buffer. -/
inductive Stands (taken : List Packet) (out : Bytes) (reasons : List DisconnectReason) (more : Bool) :
    Writer → Prop
  /-- Only a packet in the queue lets it hold something back. -/
  | idle {buffer : Array UInt8} (goOn : ∀ p ∈ taken, GoesOn p)
      (written : out ++ buffer.toList = encodings taken) (flushed : buffer = #[] ∨ more = true)
      (quiet : reasons = []) : Stands taken out reasons more ⟨.idle, buffer⟩
  | holding {earlier : List Packet} {p : Packet} {flush : Bool} {buffer : Array UInt8}
      (all : taken = earlier ++ [p]) (goOn : ∀ q ∈ earlier, GoesOn q)
      (written : out ++ buffer.toList = encodings earlier)
      (unflushed : flush = false → isDisconnect p = false ∧ more = true) (quiet : reasons = []) :
      Stands taken out reasons more ⟨.holding p flush, buffer⟩
  | flushing {earlier : List Packet} {p : Packet} {buffer : Array UInt8}
      (all : taken = earlier ++ [p]) (goOn : ∀ q ∈ earlier, GoesOn q)
      (encoded : (Packet.write p).fault = none) (written : out ++ buffer.toList = encodings taken)
      (quiet : reasons = []) : Stands taken out reasons more ⟨.flushing (isDisconnect p), buffer⟩
  | finished {earlier : List Packet} {p : Packet} {buffer : Array UInt8}
      (all : taken = earlier ++ [p]) (goOn : ∀ q ∈ earlier, GoesOn q)
      (encoded : (Packet.write p).fault = none) (last : isDisconnect p = true)
      (written : out = encodings taken) (quiet : reasons = []) :
      Stands taken out reasons more ⟨.finished, buffer⟩
  | failed {message : String} {buffer : Array UInt8} (written : out <+: script taken)
      (reported : reasons = [.transport message]) : Stands taken out reasons more ⟨.failed, buffer⟩

/-- Nothing is handed over when a packet is taken. -/
theorem handed_take (w : Writer) (p : Packet) (more : Bool) : (w.take p more).handed = [] := by
  rw [take]
  split
  · rw [encode]
    split <;> rfl
  · rfl

theorem isStopped_iff (w : Writer) : w.isStopped = true ↔ w.phase = .finished ∨ w.phase = .failed := by
  simp [isStopped]

theorem not_isStopped_of_needsRoom {w : Writer} (h : w.needsRoom = true) : w.isStopped = false := by
  rw [needsRoom] at h
  split at h
  · next hphase => simp [isStopped, hphase]
  · next hphase => simp [isStopped, hphase]
  · cases h
  · cases h
  · cases h

theorem rest_of_extract (buffer : Array UInt8) (n : Nat) :
    (buffer.extract 0 n).toList ++ (buffer.extract n buffer.size).toList = buffer.toList := by
  rw [← Array.toList_append, Array.extract_append_extract, Nat.zero_min, Array.extract_eq_self_of_le]
  exact Nat.le_max_right _ _

section Steps
variable {taken earlier : List Packet} {out : Bytes} {reasons : List DisconnectReason} {more : Bool}
  {w : Writer} {p : Packet}

/-- Nothing is handed over but what is to be written. -/
theorem Stands.begins_script (h : Stands taken out reasons more w) : out <+: script taken := by
  cases h with
  | idle goOn written =>
    have hprefix := prefix_script goOn written []
    rwa [List.append_nil] at hprefix
  | holding all goOn written =>
    rw [all]
    exact prefix_script goOn written _
  | flushing all goOn encoded written =>
    subst all
    exact ⟨_, written.trans (script_concat goOn encoded).symm⟩
  | finished all goOn encoded last written =>
    subst all
    have hscript : script _ = out := (script_concat goOn encoded).trans written.symm
    exact hscript ▸ List.prefix_rfl
  | failed written => exact written

/-- A packet that comes to the queue leaves the writer where it stands. -/
theorem Stands.push (h : Stands taken out reasons more w) : Stands taken out reasons true w := by
  cases h with
  | idle goOn written flushed quiet => exact .idle goOn written (.inr rfl) quiet
  | holding all goOn written unflushed quiet =>
    exact .holding all goOn written (fun hflush => ⟨(unflushed hflush).1, rfl⟩) quiet
  | flushing all goOn encoded written quiet => exact .flushing all goOn encoded written quiet
  | finished all goOn encoded last written quiet =>
    exact .finished all goOn encoded last written quiet
  | failed written reported => exact .failed written reported

theorem Stands.encode (goOn : ∀ q ∈ earlier, GoesOn q)
    (written : out ++ w.buffer.toList = encodings earlier) {flush : Bool}
    (unflushed : flush = false → isDisconnect p = false ∧ more = true) :
    Stands (earlier ++ [p]) out (w.encode p flush).reason.toList more (w.encode p flush).writer := by
  have happended : out ++ (w.buffer ++ (Packet.write p).bytes).toList = encodings (earlier ++ [p]) := by
    rw [Array.toList_appendList, ← List.append_assoc, written, encodings_concat]
  rw [Writer.encode]
  cases hfault : (Packet.write p).fault with
  | some fault => exact .failed (prefix_script goOn written _) rfl
  | none =>
    cases flush with
    | true => exact .flushing rfl goOn hfault happended rfl
    | false =>
      obtain ⟨hdisconnect, hmore⟩ := unflushed rfl
      have hlast : ∀ q ∈ [p], GoesOn q := List.forall_mem_singleton.mpr ⟨hfault, hdisconnect⟩
      exact .idle (List.forall_mem_append.mpr ⟨goOn, hlast⟩) happended (.inr hmore) rfl

/-- The packet that was taken is encoded at once or waits for room. -/
theorem Stands.take {next : Bool} (h : Stands taken out reasons more w) (ready : w.phase = .idle) :
    Stands (taken ++ [p]) out (reasons ++ (w.take p next).reason.toList) next
      (w.take p next).writer := by
  have hunflushed : (isDisconnect p || !next) = false → isDisconnect p = false ∧ next = true := by
    simp
  cases h with
  | idle goOn written flushed quiet =>
    rw [quiet, List.nil_append, Writer.take]
    dsimp only
    split
    · exact .encode goOn written hunflushed
    · exact .holding rfl goOn written hunflushed rfl
  | holding | flushing | finished | failed => cases ready

/-- While bytes are to be handed over it makes no difference how many of them still are. -/
theorem Stands.shift {out' : Bytes} {buffer : Array UInt8} (h : Stands taken out reasons more w)
    (waits : w.needsRoom = true) (same : out' ++ buffer.toList = out ++ w.buffer.toList) :
    Stands taken out' reasons more ⟨w.phase, buffer⟩ := by
  cases h with
  | holding all goOn written unflushed quiet =>
    exact .holding all goOn (same.trans written) unflushed quiet
  | flushing all goOn encoded written quiet =>
    exact .flushing all goOn encoded (same.trans written) quiet
  | idle | finished | failed => cases waits

/-- What was handed over is no longer held back, and when nothing is left the writer goes on. -/
theorem Stands.handOver (h : Stands taken out reasons more w) (waits : w.needsRoom = true) (n : Nat) :
    Stands taken (out ++ (w.handOver n).handed) (reasons ++ (w.handOver n).reason.toList) more
      (w.handOver n).writer := by
  have hshift : Stands taken (out ++ (w.buffer.extract 0 n).toList) reasons more
      ⟨w.phase, w.buffer.extract n w.buffer.size⟩ := by
    refine h.shift waits ?_
    rw [List.append_assoc, rest_of_extract]
  clear h
  obtain ⟨phase, buffer⟩ := w
  rw [Writer.handOver]
  dsimp only at hshift ⊢
  by_cases hrest : buffer.extract n buffer.size = #[]
  · rw [hrest] at hshift ⊢
    cases hshift with
    | holding all goOn written unflushed quiet =>
      subst all quiet
      exact .encode goOn written unflushed
    | @flushing _ p _ all goOn encoded written quiet =>
      subst all quiet
      cases hlast : isDisconnect p with
      | true =>
        have hflushed := (List.append_nil _).symm.trans written
        exact .finished rfl goOn encoded hlast hflushed rfl
      | false =>
        have hplain : ∀ q ∈ [p], GoesOn q := List.forall_mem_singleton.mpr ⟨encoded, hlast⟩
        exact .idle (List.forall_mem_append.mpr ⟨goOn, hplain⟩) written (.inl rfl) rfl
    | idle | finished | failed => cases waits
  · have hmore : (!(buffer.extract n buffer.size).isEmpty) = true := by simpa using hrest
    rw [hmore, if_pos rfl]
    simpa using hshift

/-- The bytes that the transport took before it failed are those that come next. -/
theorem Stands.fail (h : Stands taken out reasons more w) (waits : w.needsRoom = true) (n : Nat)
    (fault : TransportFault) :
    Stands taken (out ++ (w.handOver n).handed) (reasons ++ (w.fail fault).reason.toList) more
      (w.fail fault).writer := by
  have hprefix := (h.handOver waits n).begins_script
  cases h with
  | holding _ _ _ _ quiet | flushing _ _ _ _ quiet =>
    rw [quiet]
    exact .failed hprefix rfl
  | idle | finished | failed => cases waits

/-- A writer that is ready for a packet when there is none holds nothing back. -/
theorem Stands.written_of_idle (h : Stands taken out reasons false w) (ready : w.phase = .idle) :
    (∀ p ∈ taken, GoesOn p) ∧ out = encodings taken := by
  cases h with
  | idle goOn written flushed =>
    have hflushed := flushed.resolve_right Bool.false_ne_true
    subst hflushed
    exact ⟨goOn, (List.append_nil _).symm.trans written⟩
  | holding | flushing | finished | failed => cases ready

/-- A writer that has finished wrote all that is to be written, whatever else is queued. -/
theorem Stands.written_of_finished (h : Stands taken out reasons more w)
    (finished : w.phase = .finished) (ps : List Packet) : out = script (taken ++ ps) := by
  cases h with
  | finished all goOn encoded last written =>
    subst all
    rw [List.append_assoc, List.singleton_append, script_of_isDisconnect goOn encoded last, written]
  | idle | holding | flushing | failed => cases finished

/-- Only a writer that failed has reported anything, and that is one failure of the transport. -/
theorem Stands.reasons_eq (h : Stands taken out reasons more w) :
    reasons = [] ∨ w.phase = .failed ∧ ∃ message, reasons = [.transport message] := by
  cases h with
  | idle _ _ _ quiet | holding _ _ _ _ quiet | flushing _ _ _ _ quiet | finished _ _ _ _ _ quiet =>
    exact .inl quiet
  | failed written reported => exact .inr ⟨rfl, _, reported⟩

theorem eq_last_of_fault {last : Packet} {fault : Fault} (goOn : ∀ q ∈ earlier, GoesOn q)
    (hp : p ∈ earlier ++ [last]) (hfault : (Packet.write p).fault = some fault) : p = last := by
  obtain hp | hp := List.mem_append.mp hp
  · cases hfault.symm.trans (goOn p hp).1
  · exact List.mem_singleton.mp hp

/-- A packet that cannot be encoded still waits for room, or a failure was reported. -/
theorem Stands.of_fault {fault : Fault} (h : Stands taken out reasons more w) (hp : p ∈ taken)
    (hfault : (Packet.write p).fault = some fault) :
    (∃ flush, w.phase = .holding p flush) ∨ ∃ message, reasons = [.transport message] := by
  cases h with
  | idle goOn => cases hfault.symm.trans (goOn p hp).1
  | holding all goOn =>
    rw [eq_last_of_fault goOn (all ▸ hp) hfault]
    exact .inl ⟨_, rfl⟩
  | flushing all goOn encoded | finished all goOn encoded =>
    rw [eq_last_of_fault goOn (all ▸ hp) hfault, encoded] at hfault
    cases hfault
  | failed written reported => exact .inr ⟨_, reported⟩

end Steps

end Writer

/-! ## The queue and its writer -/

/-- The queue and the writer that empties it. -/
structure WriteSide where
  queue : Queue Packet
  writer : Writer

namespace WriteSide

/-- What happens between the queue and the transport. -/
inductive Move
  | queues (p : Packet)
  | takes (p : Packet)
  | hands (n : Nat)
  | fails (n : Nat) (fault : TransportFault)

/-- A move, with what it hands over and the reason that it reports. -/
structure Moment where
  move : Move
  handed : Bytes
  reason : Option DisconnectReason

def Move.queued : Move → List Packet
  | queues p => [p]
  | takes _ | hands _ | fails _ _ => []

def Move.taken : Move → List Packet
  | takes p => [p]
  | queues _ | hands _ | fails _ _ => []

def Moment.of (move : Move) (a : WriterStep) : Moment := ⟨move, a.handed, a.reason⟩

/-- Keep what a step of the writer left. -/
def after (s : WriteSide) (a : WriterStep) : WriteSide := { s with writer := a.writer }

def new : WriteSide := ⟨.empty, .new⟩

/-- What can happen: a packet may be queued at any time. The writer takes the oldest one when it
is ready and looks whether there is another, and while it has bytes to hand over the transport
takes some or fails, before it takes any or later, even when it has taken all. -/
inductive Works : WriteSide → Moment → WriteSide → Prop
  | queues {s : WriteSide} (p : Packet) :
      Works s ⟨.queues p, [], none⟩ { s with queue := s.queue.push p }
  | takes {s : WriteSide} {p : Packet} {queue : Queue Packet} (ready : s.writer.phase = .idle)
      (oldest : s.queue.pop? = some (p, queue)) :
      Works s (.of (.takes p) (s.writer.take p (!queue.isEmpty)))
        (WriteSide.after { s with queue := queue } (s.writer.take p (!queue.isEmpty)))
  | hands {s : WriteSide} (n : Nat) (waits : s.writer.needsRoom = true) :
      Works s (.of (.hands n) (s.writer.handOver n)) (s.after (s.writer.handOver n))
  | fails {s : WriteSide} (n : Nat) (fault : TransportFault) (waits : s.writer.needsRoom = true) :
      Works s ⟨.fails n fault, (s.writer.handOver n).handed, (s.writer.fail fault).reason⟩
        (s.after (s.writer.fail fault))

def queued (log : List Moment) : List Packet := log.flatMap (·.move.queued)

def taken (log : List Moment) : List Packet := log.flatMap (·.move.taken)

def handed (log : List Moment) : Bytes := log.flatMap (·.handed)

def reasons (log : List Moment) : List DisconnectReason := log.flatMap (·.reason.toList)

/-- Whether the writer waits for a packet, which need not come: the queue may be closed. -/
def Waits (s : WriteSide) : Prop := s.writer.phase = .idle ∧ s.queue.toList = []

/-- The state after what happened: the queue holds what was not taken. -/
structure Reached (log : List Moment) (s : WriteSide) : Prop where
  inQueue : queued log = taken log ++ s.queue.toList
  stands : s.writer.Stands (taken log) (handed log) (reasons log) (!s.queue.isEmpty)

section Runs
variable {s t : WriteSide} {mo : Moment} {log past : List Moment}

theorem flatMap_concat {α : Type} (f : Moment → List α) (log : List Moment) (mo : Moment) :
    (log ++ [mo]).flatMap f = log.flatMap f ++ f mo := by
  rw [List.flatMap_append, List.flatMap_singleton]

theorem Reached.step (h : Reached past s) (works : Works s mo t) : Reached (past ++ [mo]) t := by
  obtain ⟨inQueue, stands⟩ := h
  constructor
  · rw [queued, taken, flatMap_concat, flatMap_concat, ← queued, ← taken, inQueue]
    cases works with
    | queues p => simp [Move.queued, Move.taken]
    | takes ready oldest =>
      simp [Queue.toList_of_pop? oldest, Moment.of, Move.queued, Move.taken, after]
    | hands n waits | fails n fault waits => simp [Moment.of, Move.queued, Move.taken, after]
  · rw [taken, handed, reasons, flatMap_concat, flatMap_concat, flatMap_concat, ← taken, ← handed,
      ← reasons]
    cases works with
    | queues p =>
      have hmore : (s.queue.push p).isEmpty = false := by
        simp [Bool.eq_false_iff, Queue.isEmpty_iff]
      simpa [Move.taken, hmore] using stands.push
    | takes ready oldest =>
      simpa [Moment.of, Move.taken, after, Writer.handed_take] using stands.take ready
    | hands n waits => simpa [Moment.of, Move.taken, after] using stands.handOver waits n
    | fails n fault waits => simpa [Move.taken, after] using stands.fail waits n fault

theorem reached_new : Reached [] new where
  inQueue := rfl
  stands := .idle (List.forall_mem_nil _) rfl (.inl rfl) rfl

theorem reached_of_run (run : Trace Works new log s) : Reached log s :=
  run.history reached_new fun reached works => reached.step works

/-- Only the queue changes when the writer has stopped. -/
theorem quiet_of_isStopped (run : Trace Works s log t) (stopped : s.writer.isStopped = true) :
    handed log = [] ∧ reasons log = [] := by
  induction run with
  | idle => exact ⟨rfl, rfl⟩
  | next first tail ih =>
    cases first with
    | queues p => exact ih stopped
    | takes ready oldest => simp [Writer.isStopped, ready] at stopped
    | hands n waits | fails n fault waits =>
      rw [Writer.not_isStopped_of_needsRoom waits] at stopped
      cases stopped

/-- A reason is reported once, and nothing is handed over from then on. -/
theorem reported_once (run : Trace Works new log s) {rest : List Moment} {reason : DisconnectReason}
    (hlog : log = past ++ mo :: rest) (hreason : mo.reason = some reason) :
    (∃ message, reason = .transport message) ∧ reasons past = [] ∧ handed rest = [] ∧
      reasons rest = [] := by
  subst hlog
  obtain ⟨t, t', hpast, works, htail⟩ := run.middle
  have hreached := (reached_of_run hpast).step works
  obtain hquiet | ⟨hfailed, message, hreported⟩ := hreached.stands.reasons_eq
  · rw [reasons, flatMap_concat, hreason, List.append_eq_nil_iff] at hquiet
    cases hquiet.2
  · rw [reasons, flatMap_concat, hreason] at hreported
    have happended : reasons past ++ [reason] = [] ++ [.transport message] := hreported
    obtain ⟨hnone, hmessage⟩ := List.append_inj' happended rfl
    have hstopped := (Writer.isStopped_iff _).mpr (.inr hfailed)
    exact ⟨⟨message, List.singleton_inj.mp hmessage⟩, hnone, quiet_of_isStopped htail hstopped⟩

/-- The writer hands the packets over in the order they were queued, holds nothing back when it
waits for one, and ends with the first DISCONNECT or the first failure. -/
theorem written_in_order (run : Trace Works new log s) :
    handed log <+: Writer.script (queued log) ∧
      (s.Waits → (∀ p ∈ queued log, Writer.GoesOn p) ∧
        handed log = Writer.encodings (queued log)) ∧
      (s.writer.phase = .finished → handed log = Writer.script (queued log)) ∧
      (∀ mo ∈ log, ∀ n fault, mo.move = .fails n fault →
        mo.reason = some (.transport fault.message)) ∧
      (∀ p ∈ taken log, ∀ fault, (Packet.write p).fault = some fault →
        (∃ flush, s.writer.phase = .holding p flush) ∨
          ∃ message, reasons log = [.transport message]) ∧
      ∀ past mo rest reason, log = past ++ mo :: rest → mo.reason = some reason →
        (∃ message, reason = .transport message) ∧ reasons past = [] ∧ handed rest = [] ∧
          reasons rest = [] := by
  obtain ⟨inQueue, stands⟩ := reached_of_run run
  refine ⟨?_, fun waits => ?_, fun finished => ?_, fun mo hmo n fault hmove => ?_,
    fun p hp fault hfault => stands.of_fault hp hfault,
    fun past mo rest reason hlog hreason => reported_once run hlog hreason⟩
  · rw [inQueue]
    exact stands.begins_script.trans (Writer.script_prefix _ _)
  · obtain ⟨ready, hempty⟩ := waits
    rw [(Queue.isEmpty_iff _).mpr hempty] at stands
    rw [inQueue, hempty, List.append_nil]
    exact stands.written_of_idle ready
  · rw [inQueue]
    exact stands.written_of_finished finished _
  · obtain ⟨past, rest, rfl⟩ := List.append_of_mem hmo
    obtain ⟨t, t', -, works, -⟩ := run.middle
    cases works with
    | queues | takes | hands => cases hmove
    | fails n' fault' =>
      cases hmove
      rfl

end Runs

/-- DISCONNECT is queued before a PINGREQ, and the transport takes the bytes in two pieces. -/
def farewell : List Moment :=
  [⟨.queues (.ofBody (.puback 1)), [], none⟩, ⟨.queues (.ofBody .pingreq), [], none⟩,
    ⟨.takes (.ofBody (.puback 1)), [], none⟩, ⟨.queues (.ofBody .disconnect), [], none⟩,
    ⟨.takes (.ofBody .pingreq), [], none⟩, ⟨.queues (.ofBody .pingreq), [], none⟩,
    ⟨.takes (.ofBody .disconnect), [], none⟩, ⟨.hands 5, [0x40, 2, 0, 1, 0xc0], none⟩,
    ⟨.hands 3, [0, 0xe0, 0], none⟩]

theorem run_farewell : ∃ s, Trace Works new farewell s ∧ s.writer.phase = .finished :=
  ⟨_, .cons (.queues _) rfl <| .cons (.queues _) rfl <| .cons (.takes rfl rfl) rfl <|
    .cons (.queues _) rfl <| .cons (.takes rfl rfl) rfl <| .cons (.queues _) rfl <|
    .cons (.takes rfl rfl) rfl <| .cons (.hands 5 rfl) rfl <| .cons (.hands 3 rfl) rfl <| .idle _,
    rfl⟩

theorem written_in_order_farewell :
    ∃ s, Trace Works new farewell s ∧ s.writer.phase = .finished ∧
      handed farewell = Writer.script (queued farewell) ∧
      Writer.script (queued farewell) = [0x40, 2, 0, 1, 0xc0, 0, 0xe0, 0] := by
  obtain ⟨s, run, finished⟩ := run_farewell
  obtain ⟨-, -, hfinished, -⟩ := written_in_order run
  exact ⟨s, run, finished, hfinished finished, by decide⟩

/-! ## Connections and links -/

section Connections
variable {c c' : Connection} {l l' : Scenario.Link}

def ofConnection (c : Connection) : WriteSide := ⟨c.queue, c.writer⟩

/-- What happens on the way from a link and its connection to another, as the write side sees it:
the bytes under way to the broker are those that are handed over. -/
structure Follows (log : List Moment) (l : Scenario.Link) (c : Connection) (l' : Scenario.Link)
    (c' : Connection) : Prop where
  run : Trace Works (ofConnection c) log (ofConnection c')
  toBroker : l'.toBroker = l.toBroker ++ handed log
  reasons : c'.reasons = c.reasons ++ reasons log

theorem Follows.refl (l : Scenario.Link) (c : Connection) : Follows [] l c l c :=
  ⟨.idle _, (List.append_nil _).symm, (List.append_nil _).symm⟩

theorem Follows.step {mo : Moment} (works : Works (ofConnection c) mo (ofConnection c'))
    (toBroker : l'.toBroker = l.toBroker ++ mo.handed)
    (reasons : c'.reasons = c.reasons ++ mo.reason.toList) : Follows [mo] l c l' c' where
  run := .next works (.idle _)
  toBroker := by rw [toBroker, handed, List.flatMap_singleton]
  reasons := by rw [reasons, WriteSide.reasons, List.flatMap_singleton]

theorem Follows.trans {log log' : List Moment} {l'' : Scenario.Link} {c'' : Connection}
    (h : Follows log l c l' c') (h' : Follows log' l' c' l'' c'') :
    Follows (log ++ log') l c l'' c'' where
  run := h.run.append h'.run
  toBroker := by
    rw [h'.toBroker, h.toBroker, List.append_assoc, handed, handed, handed, List.flatMap_append]
  reasons := by
    rw [h'.reasons, h.reasons, List.append_assoc, WriteSide.reasons, WriteSide.reasons,
      WriteSide.reasons, List.flatMap_append]

theorem follows_takePacket? (l : Scenario.Link) (h : c.takePacket? = some c') :
    ∃ log, Follows log l c l c' := by
  rw [Connection.takePacket?] at h
  split at h
  · cases h
  · next ready =>
    obtain ⟨⟨p, queue⟩, oldest, rfl⟩ := Option.map_eq_some_iff.mp h
    have hready : c.writer.phase = .idle := by simpa using ready
    refine ⟨_, .step (.takes hready oldest) ?_ rfl⟩
    rw [Moment.of, Writer.handed_take, List.append_nil]

theorem follows_drainOnce? {capacity : Nat} (h : l.drainOnce? capacity c = some (l', c')) :
    ∃ log, Follows log l c l' c' := by
  rw [Scenario.Link.drainOnce?] at h
  split at h
  · next waits =>
    have hfails : ∀ fault, Follows _ l c l (c.writeFault fault) := fun fault =>
      .step (.fails 0 fault waits) (by simp [Writer.handOver]) rfl
    dsimp only at h
    split at h
    · cases h
    · split at h
      · cases h
        exact ⟨_, hfails _⟩
      · split at h
        · cases h
          exact ⟨_, hfails _⟩
        · split at h
          · cases h
            exact ⟨[], .idle _, (List.append_nil _).symm, (List.append_nil _).symm⟩
          · cases h
            exact ⟨_, .step (.hands _ waits) rfl rfl⟩
  · obtain ⟨c₁, htake, hc₁⟩ := Option.map_eq_some_iff.mp h
    cases hc₁
    exact follows_takePacket? l htake

theorem follows_drainUpTo (capacity fuel : Nat) (l : Scenario.Link) (c : Connection) :
    ∃ log, Follows log l c (l.drainUpTo capacity fuel c).1 (l.drainUpTo capacity fuel c).2 := by
  induction fuel generalizing l c with
  | zero => exact ⟨[], .refl l c⟩
  | succ fuel ih =>
    rw [Scenario.Link.drainUpTo]
    split
    · exact ⟨[], .refl l c⟩
    · next l' c' h =>
      obtain ⟨first, hfirst⟩ := follows_drainOnce? h
      obtain ⟨rest, hrest⟩ := ih l' c'
      exact ⟨first ++ rest, hfirst.trans hrest⟩

/-- A link does nothing to the queue and the writer but let them work. -/
theorem follows_drain? {capacity : Nat} (h : l.drain? capacity c = some (l', c')) :
    ∃ log, Follows log l c l' c' := by
  obtain ⟨⟨l₁, c₁⟩, honce, hrest⟩ := Option.map_eq_some_iff.mp h
  obtain ⟨first, hfirst⟩ := follows_drainOnce? honce
  obtain ⟨rest, hrest'⟩ := follows_drainUpTo capacity (3 * c₁.queue.size + 8) l₁ c₁
  rw [show l₁.drainUpTo capacity _ c₁ = (l', c') from hrest] at hrest'
  exact ⟨first ++ rest, hfirst.trans hrest'⟩

end Connections

end WriteSide

end Mqtt
