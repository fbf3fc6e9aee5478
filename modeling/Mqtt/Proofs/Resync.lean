import Mathlib.Data.List.TakeWhile
import Mqtt.Proofs.Frame

/-!
# Bodies that cannot be read

A buffer holds frames one after the other. Each call of the incremental decoder takes one of them,
and what it answers is what a fresh decoder answers for that frame alone: a body that cannot be read
costs its own frame and no more. Where a header is wrong nobody can say where the next one begins,
and there the decoder stays.
-/
namespace Mqtt
open Wire

namespace Frame

/-- The type byte is one of the standard, or its number has no use. -/
def WellFormed (f : Frame) : Prop := f.Reserved ∨ ∃ t, TypeByte.ofByte f.type = .ok t

/-- What a fresh decoder answers when the buffer holds the frame alone. -/
def answer (f : Frame) : Option StreamItem := (Stream.empty.feed f.bytes).next.1

variable {f : Frame}

/-- Every body that is all there is taken, whatever becomes of it. -/
theorem WellFormed.next (h : f.WellFormed) :
    ∃ item, f.answer = some item ∧
      ∀ s, Stream.next ⟨.header, f.bytes ++ s⟩ = (some item, ⟨.header, s⟩) := by
  suffices hnext : ∃ item, ∀ s, Stream.next ⟨.header, f.bytes ++ s⟩ = (some item, ⟨.header, s⟩) by
    obtain ⟨item, hitem⟩ := hnext
    have halone := hitem []
    rw [List.append_nil] at halone
    exact ⟨item, congrArg Prod.fst halone, hitem⟩
  rcases h with hreserved | ⟨t, htype⟩
  · have htype : TypeByte.ofByte f.type =
        .error (.reserved (f.type.toNat / 16) (f.type.toNat % 16)) := by
      rw [TypeByte.ofByte, hreserved]
    exact ⟨_, fun s => (f.reserved_answers s htype).2.2⟩
  · exact ⟨_, fun s => f.next_legal s htype⟩

/-- A frame of which a part is missing gives nothing yet. -/
theorem WellFormed.next_part (h : f.WellFormed) {part : Bytes} (begins : part <+: f.bytes)
    (ne : part ≠ f.bytes) : (Stream.next ⟨.header, part⟩).1 = none := by
  obtain ⟨missing, hmissing⟩ := begins
  obtain ⟨item, -, hnext⟩ := h.next
  have hwhole := hnext []
  rw [List.append_nil, ← hmissing] at hwhole
  cases hpart : Stream.next ⟨.header, part⟩ with
  | mk got t =>
    cases got with
    | none => rfl
    | some early =>
      -- what it gave without the missing bytes would have left them in the buffer
      have hfed := Stream.next_feed_some missing hpart
      rw [show Stream.feed ⟨.header, part⟩ missing = ⟨.header, part ++ missing⟩ from rfl, hwhole,
        Prod.mk.injEq] at hfed
      have hempty : t.buffer ++ missing = [] := (congrArg Stream.buffer hfed.2).symm
      rw [(List.append_eq_nil_iff.mp hempty).2, List.append_nil] at hmissing
      exact absurd hmissing ne

end Frame

/-- A buffer whose header is wrong: its length goes on after the fourth byte, or its type does not
have its flags. -/
inductive Derailed : Bytes → HeaderError → Prop
  | length {type last : UInt8} {digits rest : Bytes} (four : digits.length = 4)
      (high : ∀ b ∈ digits, 128 ≤ b) : Derailed (type :: (digits ++ last :: rest)) .malformedLength
  | flags {type : UInt8} {digits rest : Bytes} {n : Nat} {kind : Kind} {flags : Nat}
      (field : LengthField 4 digits n)
      (invalid : TypeByte.ofByte type = .error (.invalidFlags kind flags)) :
      Derailed (type :: (digits ++ rest)) (.type (.invalidFlags kind flags))

namespace FixedHeader

/-- After four digits with the top bit set no length can follow. -/
theorem scanLength?_overlong {last : UInt8} {digits rest : Bytes} (four : digits.length = 4)
    (high : ∀ b ∈ digits, 128 ≤ b) :
    scanLength? (digits ++ last :: rest) = some (.error .malformedLength) := by
  have htake : (digits ++ last :: rest).take 4 = digits := List.take_left' four
  have hwhile : digits.takeWhile (fun b => 128 ≤ b) = digits :=
    List.takeWhile_eq_self_iff.mpr (by simpa using high)
  have hlong : ¬ (digits ++ last :: rest).length ≤ 4 := by
    rw [List.length_append, List.length_cons]
    omega
  simp only [scanLength?, htake, hwhile]
  rw [if_neg (Nat.lt_irrefl _), if_neg hlong]

theorem scan?_of_derailed {bs : Bytes} {e : HeaderError} (h : Derailed bs e) :
    scan? bs = some (.error e) := by
  cases h with
  | length four high => rw [scan?, scanLength?_overlong four high]
  | flags field invalid =>
    rw [scan?, scanLength?_append _ field]
    simp only [invalid]

end FixedHeader

namespace Stream

/-- One call after the other, before each of them the bytes that came in. -/
def polls (s : Stream) : List Bytes → List (Option StreamItem) × Stream
  | [] => ([], s)
  | chunk :: chunks =>
    let (item, t) := (s.feed chunk).next
    let (items, u) := polls t chunks
    (item :: items, u)

theorem polls_cons {s t : Stream} {chunk : Bytes} {item : Option StreamItem}
    (h : (s.feed chunk).next = (item, t)) (chunks : List Bytes) :
    s.polls (chunk :: chunks) = (item :: (t.polls chunks).1, (t.polls chunks).2) := by
  rw [polls, h]

theorem polls_append (s : Stream) (xs ys : List Bytes) :
    s.polls (xs ++ ys) =
      ((s.polls xs).1 ++ ((s.polls xs).2.polls ys).1, ((s.polls xs).2.polls ys).2) := by
  induction xs generalizing s with
  | nil => rfl
  | cons x xs ih =>
    have hcall : (s.feed x).next = ((s.feed x).next.1, (s.feed x).next.2) := rfl
    rw [List.cons_append, polls_cons hcall, ih, polls_cons hcall, List.cons_append]

/-- As many calls as there are frames take the frames. -/
theorem polls_frames {frames : List Frame} (formed : ∀ f ∈ frames, f.WellFormed) (rest : Bytes) :
    polls ⟨.header, frames.flatMap Frame.bytes ++ rest⟩ (List.replicate frames.length []) =
      (frames.map Frame.answer, ⟨.header, rest⟩) := by
  induction frames with
  | nil => rfl
  | cons f frames ih =>
    obtain ⟨hf, hframes⟩ := List.forall_mem_cons.mp formed
    obtain ⟨item, hanswer, hnext⟩ := hf.next
    have hcall := hnext (frames.flatMap Frame.bytes ++ rest)
    rw [← List.append_assoc, ← List.flatMap_cons, ← feed_nil ⟨.header, _⟩] at hcall
    rw [List.length_cons, List.replicate_succ, polls_cons hcall, ih hframes, List.map_cons, hanswer]

/-- A wrong header is met again by every call and stays where it is. -/
theorem polls_derailed {bs : Bytes} {e : HeaderError} (h : Derailed bs e) (chunks : List Bytes) :
    polls ⟨.header, bs⟩ chunks =
      (List.replicate chunks.length (some (.error (.header e))), ⟨.header, bs ++ chunks.flatten⟩) := by
  have hscan := FixedHeader.scan?_of_derailed h
  clear h
  induction chunks generalizing bs with
  | nil => simp [polls]
  | cons chunk chunks ih =>
    have hgrown := FixedHeader.scan?_grow chunk hscan
    have hcall : (feed ⟨.header, bs⟩ chunk).next =
        (some (.error (.header e)), ⟨.header, bs ++ chunk⟩) := by
      simp only [feed, next, hgrown]
    rw [polls_cons hcall, ih hgrown, List.length_cons, List.replicate_succ, List.flatten_cons,
      List.append_assoc]

/-- Each call takes one frame and answers as if it were alone, whether its body can be read or not;
a frame that is not all there is waited for, and a wrong header is not passed. -/
theorem resynchronises {frames : List Frame} (formed : ∀ f ∈ frames, f.WellFormed) :
    (∀ f ∈ frames, f.answer.isSome = true) ∧
      (∀ (tail : Bytes), ∀ i ≤ frames.length,
        (empty.feed (frames.flatMap Frame.bytes ++ tail)).polls (List.replicate i []) =
          ((frames.take i).map Frame.answer,
            ⟨.header, (frames.drop i).flatMap Frame.bytes ++ tail⟩)) ∧
      (∀ (g : Frame) (tail : Bytes), g.WellFormed → tail <+: g.bytes → tail ≠ g.bytes →
        ((empty.feed (frames.flatMap Frame.bytes ++ tail)).polls
          (List.replicate (frames.length + 1) [])).1 = frames.map Frame.answer ++ [none]) ∧
      ∀ bs e, Derailed bs e → ∀ chunks,
        (empty.feed (frames.flatMap Frame.bytes ++ bs)).polls
            (List.replicate frames.length [] ++ chunks) =
          (frames.map Frame.answer ++ List.replicate chunks.length (some (.error (.header e))),
            ⟨.header, bs ++ chunks.flatten⟩) := by
  have hfeed (bs : Bytes) : empty.feed bs = ⟨.header, bs⟩ := rfl
  refine ⟨fun f hf => ?_, fun tail i hi => ?_, fun g tail hg begins ne => ?_,
    fun bs e derailed chunks => ?_⟩
  · obtain ⟨item, hanswer, -⟩ := (formed f hf).next
    rw [hanswer]
    rfl
  · have hfirst : ∀ f ∈ frames.take i, f.WellFormed :=
      fun f hf => formed f (List.mem_of_mem_take hf)
    have hpolls := polls_frames hfirst ((frames.drop i).flatMap Frame.bytes ++ tail)
    rwa [← List.append_assoc, ← List.flatMap_append, List.take_append_drop, List.length_take,
      Nat.min_eq_left hi] at hpolls
  · have hlast : (polls ⟨.header, tail⟩ [[]]).1 = [none] := by
      simp only [polls, feed_nil, hg.next_part begins ne]
    rw [hfeed, List.replicate_succ', polls_append, polls_frames formed, hlast]
  · rw [hfeed, polls_append, polls_frames formed, polls_derailed derailed]

/-- A SUBACK with a return code that does not exist, a packet of the unused type 15, and an
acknowledgement; then the start of another one, or flags that it may not have. -/
theorem resynchronises_badBodies :
    let frames : List Frame := [⟨0x90, [3], [0, 1, 9], .last (by decide)⟩,
      ⟨0xF0, [1], [42], .last (by decide)⟩, ⟨0x40, [2], [7, 208], .last (by decide)⟩]
    let buffer := frames.flatMap Frame.bytes
    (∀ f ∈ frames, f.WellFormed) ∧
      ((empty.feed (buffer ++ [0x40, 2, 7])).polls [[], [], [], []]).1 =
        [some (.error (.packet .suback (.payload (.subscribeCode 9)))),
          some (.error (.reserved 15 [42])), some (.packet (.ofBody (.puback 2000))), none] ∧
      (empty.feed (buffer ++ [0x42, 2, 7])).polls [[], [], [], [], [208]] =
        (frames.map Frame.answer ++
          List.replicate 2 (some (.error (.header (.type (.invalidFlags .puback 2))))),
          ⟨.header, [0x42, 2, 7, 208]⟩) := by
  intro frames buffer
  have formed : ∀ f ∈ frames, f.WellFormed := by
    intro f hf
    obtain rfl | rfl | rfl : f = _ ∨ f = _ ∨ f = _ := by simpa [frames] using hf
    · exact .inr ⟨.standard .suback, rfl⟩
    · exact .inl rfl
    · exact .inr ⟨.standard .puback, rfl⟩
  obtain ⟨-, -, hpart, hderailed⟩ := resynchronises formed
  refine ⟨formed, ?_, ?_⟩
  · have hwhole : (⟨0x40, [2], [7, 208], .last (by decide)⟩ : Frame).WellFormed :=
      .inr ⟨.standard .puback, rfl⟩
    exact hpart _ [0x40, 2, 7] hwhole ⟨[208], rfl⟩ (by decide)
  · exact hderailed [0x42, 2, 7] _ (.flags (.last (by decide)) rfl) [[], [208]]

end Stream

end Mqtt
