import Mqtt.Proofs.Fields
import Mqtt.Proofs.Wildcards

/-!
# Topic filters by their characters

The standard says of each wildcard what may stand next to it, and never speaks of levels. The texts
that it allows are exactly those that filters are made of, and every filter is read back from the
bytes it is written to.
-/
namespace Mqtt
open Wire

/-- The start of the text or a slash comes right before. -/
def BeginsLevel (l : List Char) : Prop := l = [] ∨ l.getLast? = some '/'

/-- The end of the text or a slash comes right after. -/
def EndsLevel (r : List Char) : Prop := r = [] ∨ r.head? = some '/'

/-- The texts that the standard allows for a topic filter. -/
structure IsPattern (s : String) : Prop where
  ne_empty : s ≠ ""
  size_le : s.utf8ByteSize ≤ 65535
  /-- A `#` ends the text and is a whole level. -/
  hash : ∀ l r, s.toList = l ++ '#' :: r → r = [] ∧ BeginsLevel l
  /-- A `+` is a whole level. -/
  plus : ∀ l r, s.toList = l ++ '+' :: r → BeginsLevel l ∧ EndsLevel r

theorem beginsLevel_iff {l : List Char} : BeginsLevel l ↔ ∀ x ∈ l.getLast?, x = '/' := by
  rw [BeginsLevel, ← List.getLast?_eq_none_iff]
  cases l.getLast? <;> simp

theorem endsLevel_iff {r : List Char} : EndsLevel r ↔ ∀ x ∈ r.head?, x = '/' := by
  rw [EndsLevel, ← List.head?_eq_none_iff]
  cases r.head? <;> simp

/-- The two wildcards together are where the rules for each of them put it. -/
theorem wildcardsFit_iff {cs : List Char} :
    WildcardsFit cs ↔ (∀ l r, cs = l ++ '#' :: r → r = [] ∧ BeginsLevel l) ∧
      ∀ l r, cs = l ++ '+' :: r → BeginsLevel l ∧ EndsLevel r := by
  constructor
  · intro fit
    refine ⟨fun l r hcs => ⟨fit.last l r hcs, ?_⟩, fun l r hcs => ?_⟩
    · exact beginsLevel_iff.mpr (fit.alone l '#' r hcs (.inl rfl)).1
    · obtain ⟨hl, hr⟩ := fit.alone l '+' r hcs (.inr rfl)
      exact ⟨beginsLevel_iff.mpr hl, endsLevel_iff.mpr hr⟩
  · intro h
    obtain ⟨hash, plus⟩ := h
    refine ⟨fun l c r hcs wild => ?_, fun l r hcs => (hash l r hcs).1⟩
    rcases wild with rfl | rfl
    · obtain ⟨rfl, hl⟩ := hash l r hcs
      exact ⟨beginsLevel_iff.mp hl, by simp⟩
    · obtain ⟨hl, hr⟩ := plus l r hcs
      exact ⟨beginsLevel_iff.mp hl, endsLevel_iff.mp hr⟩

theorem isTopicFilter_iff_isPattern {s : String} : isTopicFilter s = true ↔ IsPattern s := by
  rw [isTopicFilter_iff, wildcardsFit_iff]
  exact ⟨fun h => ⟨h.1, h.2.1, h.2.2.1, h.2.2.2⟩,
    fun h => ⟨h.ne_empty, h.size_le, h.hash, h.plus⟩⟩

namespace TopicFilter

theorem exists_ofText?_iff {s : String} : (∃ t, ofText? s = some t) ↔ isTopicFilter s = true := by
  constructor
  · rintro ⟨t, ht⟩
    rw [← ofText?_eq_some_iff.mp ht]
    exact t.valid
  · intro h
    exact ⟨⟨s, h⟩, ofText?_text ⟨s, h⟩⟩

/-- A filter is never too long to be written. -/
theorem write_eq (t : TopicFilter) :
    t.write = .ok (word t.text.utf8ByteSize.toUInt16 ++ Text.toBytes t.text) :=
  if_pos (isTopicFilter_iff_isPattern.mp t.valid).size_le

/-- The texts of filters are those that the standard allows, and a filter that is written before
anything else is read back, with the rest left over. -/
theorem filter_iff_pattern (s : String) :
    ((∃ t, ofText? s = some t) ↔ IsPattern s) ∧
      ∀ t, ofText? s = some t → t.text = s ∧
        ∃ w, t.write = .ok w ∧ ∀ rest, TopicFilter.read (w ++ rest) = .ok (t, rest) := by
  refine ⟨exists_ofText?_iff.trans isTopicFilter_iff_isPattern, fun t ht => ?_⟩
  refine ⟨ofText?_eq_some_iff.mp ht, _, t.write_eq, fun rest => ?_⟩
  exact read_eq_ok_iff.mpr ⟨_, t.write_eq, rfl⟩

/-- Wildcards at both ends of one text, a `#` that a slash follows, and a `+` within a level. -/
example : isTopicFilter "+//#" = true ∧ isTopicFilter "a/#/" = false ∧ isTopicFilter "a+" = false := by
  decide +kernel

end TopicFilter

end Mqtt
