import Mathlib.Data.List.Basic
import Mqtt.Topic.Filter
import Mqtt.Topic.Name

/-!
# Wildcards

A topic filter is checked level by level. Seen through its characters, a wildcard stands alone
between slashes or the ends of the text, and nothing comes after a `#`.
-/
namespace Mqtt

/-- Where wildcards may stand in a filter. -/
structure WildcardsFit (cs : List Char) : Prop where
  alone : ∀ l c r, cs = l ++ c :: r → c = '#' ∨ c = '+' →
    (∀ x ∈ l.getLast?, x = '/') ∧ ∀ x ∈ r.head?, x = '/'
  last : ∀ l r, cs = l ++ '#' :: r → r = []

theorem topicLevels_ne_nil (cs : List Char) : topicLevels cs ≠ [] := by
  cases cs with
  | nil => simp [topicLevels]
  | cons c cs =>
    rw [topicLevels]
    split
    · simp
    · split <;> simp

/-- Characters without a slash are one level. -/
theorem topicLevels_of_notMem {level : List Char} (h : '/' ∉ level) :
    topicLevels level = [level] := by
  induction level with
  | nil => rfl
  | cons c cs ih =>
    rw [List.mem_cons, not_or] at h
    rw [topicLevels, if_neg (Ne.symm h.1), ih h.2]

/-- The first slash ends the first level. -/
theorem topicLevels_append {level : List Char} (rest : List Char) (h : '/' ∉ level) :
    topicLevels (level ++ '/' :: rest) = level :: topicLevels rest := by
  induction level with
  | nil => rw [List.nil_append, topicLevels, if_pos rfl]
  | cons c cs ih =>
    rw [List.mem_cons, not_or] at h
    rw [List.cons_append, topicLevels, if_neg (Ne.symm h.1), ih h.2]

theorem getLast?_append_slash (level cs : List Char) :
    (level ++ '/' :: cs).getLast? = some (cs.getLast?.getD '/') := by
  rw [List.getLast?_append, List.getLast?_cons, Option.some_or]

theorem isPlainLevel_iff {level : List Char} :
    isPlainLevel level = true ↔ ∀ c ∈ level, ¬ (c = '#' ∨ c = '+') := by
  simp [isPlainLevel, not_or]

theorem exists_wildcard_of_not_plain {level : List Char} (h : isPlainLevel level ≠ true) :
    ∃ l c r, level = l ++ c :: r ∧ (c = '#' ∨ c = '+') := by
  rw [Ne, isPlainLevel_iff] at h
  push Not at h
  obtain ⟨c, hc, hwild⟩ := h
  obtain ⟨l, r, hlevel⟩ := List.append_of_mem hc
  exact ⟨l, c, r, hlevel, hwild⟩

/-- Inside a level there is no slash for a wildcard to stand next to. -/
theorem wildcard_alone {l r : List Char} {c : Char} (hslash : '/' ∉ l ++ c :: r)
    (hl : ∀ x ∈ l.getLast?, x = '/') (hr : ∀ x ∈ r.head?, x = '/') : l = [] ∧ r = [] := by
  rw [List.mem_append, List.mem_cons, not_or, not_or] at hslash
  constructor
  · by_contra hne
    have hlast := hl _ (List.getLast?_eq_some_getLast hne)
    exact hslash.1 (hlast ▸ List.getLast_mem hne)
  · cases r with
    | nil => rfl
    | cons x r => exact absurd (hr x rfl) (fun hx => hslash.2.2 (by simp [hx]))

/-- The last level may be a wildcard of either kind. -/
theorem wildcardsFit_iff_of_notMem {level : List Char} (h : '/' ∉ level) :
    WildcardsFit level ↔ level = ['#'] ∨ level = ['+'] ∨ isPlainLevel level = true := by
  constructor
  · intro hfit
    by_cases hplain : isPlainLevel level = true
    · exact .inr (.inr hplain)
    · obtain ⟨l, c, r, rfl, hwild⟩ := exists_wildcard_of_not_plain hplain
      obtain ⟨hl, hr⟩ := hfit.alone l c r rfl hwild
      obtain ⟨rfl, rfl⟩ := wildcard_alone h hl hr
      rcases hwild with rfl | rfl <;> simp
  · intro hlevel
    rcases hlevel with rfl | rfl | hplain
    · refine ⟨fun l c r hcs _ => ?_, fun l r hcs => ?_⟩ <;>
        simp_all [List.singleton_eq_append_iff]
    · refine ⟨fun l c r hcs _ => ?_, fun l r hcs => ?_⟩ <;>
        simp_all [List.singleton_eq_append_iff]
    · rw [isPlainLevel_iff] at hplain
      exact ⟨fun l c r hcs hwild => absurd hwild (hplain c (by simp [hcs])),
        fun l r hcs => absurd (.inl rfl) (hplain '#' (by simp [hcs]))⟩

/-- A level that a slash ends may be a `+`, and the rest is a filter of its own. -/
theorem wildcardsFit_append_iff {level rest : List Char} (h : '/' ∉ level) :
    WildcardsFit (level ++ '/' :: rest) ↔
      (level = ['+'] ∨ isPlainLevel level = true) ∧ WildcardsFit rest := by
  constructor
  · intro hfit
    constructor
    · by_cases hplain : isPlainLevel level = true
      · exact .inr hplain
      · obtain ⟨l, c, r, rfl, hwild⟩ := exists_wildcard_of_not_plain hplain
        have hcs : l ++ c :: r ++ '/' :: rest = l ++ c :: (r ++ '/' :: rest) := by simp
        obtain ⟨hl, hr⟩ := hfit.alone l c _ hcs hwild
        have hr : ∀ x ∈ r.head?, x = '/' := by
          intro x hx
          exact hr x (by rw [List.head?_append, Option.mem_def.mp hx]; rfl)
        obtain ⟨rfl, rfl⟩ := wildcard_alone h hl hr
        rcases hwild with rfl | rfl
        · exact absurd (hfit.last [] _ hcs) (by simp)
        · exact .inl rfl
    · have hshift (l r : List Char) (c : Char) (hrest : rest = l ++ c :: r) :
          level ++ '/' :: rest = (level ++ '/' :: l) ++ c :: r := by simp [hrest]
      refine ⟨fun l c r hrest hwild => ?_, fun l r hrest => hfit.last _ r (hshift l r '#' hrest)⟩
      obtain ⟨hl, hr⟩ := hfit.alone _ c r (hshift l r c hrest) hwild
      refine ⟨fun x hx => hl x ?_, hr⟩
      rw [getLast?_append_slash, Option.mem_def.mp hx]
      rfl
  · intro hlevel
    obtain ⟨hlevel, hfit⟩ := hlevel
    -- a wildcard of the whole is one of the rest, or the level is that wildcard
    have hwhere (l r : List Char) (c : Char) (hcs : level ++ '/' :: rest = l ++ c :: r)
        (hwild : c = '#' ∨ c = '+') :
        (∃ l', l = level ++ '/' :: l' ∧ rest = l' ++ c :: r) ∨
          (l = [] ∧ c = '+' ∧ r = '/' :: rest) := by
      have hne : '/' ≠ c := by rcases hwild with rfl | rfl <;> decide
      rcases List.append_eq_append_iff.mp hcs with ⟨l', rfl, hl'⟩ | ⟨r', rfl, hr'⟩
      · cases l' with
        | nil => simp [hne] at hl'
        | cons x l' =>
          rw [List.cons_append, List.cons.injEq] at hl'
          exact .inl ⟨l', by rw [← hl'.1], hl'.2⟩
      · cases r' with
        | nil => simp [hne.symm] at hr'
        | cons x r' =>
          rw [List.cons_append, List.cons.injEq] at hr'
          obtain ⟨rfl, rfl⟩ := hr'
          rcases hlevel with hplus | hplain
          · obtain ⟨rfl, rfl, rfl⟩ : l = [] ∧ c = '+' ∧ r' = [] := by
              cases l <;> simp_all
            exact .inr ⟨rfl, rfl, rfl⟩
          · exact absurd hwild (isPlainLevel_iff.mp hplain c (by simp))
    constructor
    · intro l c r hcs hwild
      rcases hwhere l r c hcs hwild with ⟨l', rfl, hrest⟩ | ⟨rfl, -, rfl⟩
      · obtain ⟨hl, hr⟩ := hfit.alone l' c r hrest hwild
        refine ⟨fun x hx => ?_, hr⟩
        rw [getLast?_append_slash, Option.mem_def, Option.some.injEq] at hx
        subst hx
        cases hlast : l'.getLast? with
        | none => rfl
        | some y => exact hl y hlast
      · simp
    · intro l r hcs
      rcases hwhere l r '#' hcs (.inl rfl) with ⟨l', -, hrest⟩ | ⟨-, hplus, -⟩
      · exact hfit.last l' r hrest
      · simp at hplus

theorem areFilterLevels_cons {level : List Char} {levels : List (List Char)} (h : levels ≠ []) :
    areFilterLevels (level :: levels) = true ↔
      (level = ['+'] ∨ isPlainLevel level = true) ∧ areFilterLevels levels = true := by
  cases levels with
  | nil => exact absurd rfl h
  | cons next levels => simp [areFilterLevels]

/-- The levels of a text are those of a filter when its wildcards stand where they may. -/
theorem areFilterLevels_topicLevels_iff (cs : List Char) :
    areFilterLevels (topicLevels cs) = true ↔ WildcardsFit cs := by
  induction hn : cs.length using Nat.strongRecOn generalizing cs with
  | ind n ih =>
    by_cases hslash : '/' ∈ cs
    · obtain ⟨level, rest, rfl, hlevel⟩ := List.eq_append_cons_of_mem hslash
      have hlt : rest.length < n := by
        rw [← hn, List.length_append, List.length_cons]
        omega
      have hrest := ih rest.length hlt rest rfl
      rw [topicLevels_append rest hlevel, areFilterLevels_cons (topicLevels_ne_nil rest), hrest,
        wildcardsFit_append_iff hlevel]
    · rw [topicLevels_of_notMem hslash, wildcardsFit_iff_of_notMem hslash]
      simp [areFilterLevels, or_assoc]

/-- A filter is not empty, fits its length prefix, and has its wildcards where they may be. -/
theorem isTopicFilter_iff {s : String} :
    isTopicFilter s = true ↔
      s ≠ "" ∧ s.utf8ByteSize ≤ Wire.maxPrefixed ∧ WildcardsFit s.toList := by
  simp [isTopicFilter, areFilterLevels_topicLevels_iff, and_assoc]

theorem isTopicName_iff {s : String} :
    isTopicName s = true ↔ s.utf8ByteSize ≤ Wire.maxPrefixed ∧ '#' ∉ s.toList ∧ '+' ∉ s.toList := by
  simp only [isTopicName, Bool.and_eq_true, decide_eq_true_eq, List.all_eq_true, bne_iff_ne]
  refine and_congr_right fun _ => ⟨fun h => ⟨fun hc => (h _ hc).1 rfl, fun hc => (h _ hc).2 rfl⟩,
    fun h c hc => ⟨?_, ?_⟩⟩
  · rintro rfl
    exact h.1 hc
  · rintro rfl
    exact h.2 hc

end Mqtt
