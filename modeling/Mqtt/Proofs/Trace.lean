/-!
# Traces

The paths of a machine whose steps carry labels. A label is what an observer sees of a step, and
a trace is all that is seen of a path.
-/
namespace Mqtt

/-- The paths from one state to another, with the labels of the steps. -/
inductive Trace {σ μ : Type} (step : σ → μ → σ → Prop) : σ → List μ → σ → Prop
  | idle (s : σ) : Trace step s [] s
  | next {s t u : σ} {m : μ} {rest : List μ} (first : step s m t) (tail : Trace step t rest u) :
      Trace step s (m :: rest) u

namespace Trace
variable {σ μ : Type} {step : σ → μ → σ → Prop} {s t u : σ} {m : μ}

theorem cons {m' : μ} {rest : List μ} (first : step s m' t) (label : m' = m)
    (tail : Trace step t rest u) : Trace step s (m :: rest) u :=
  label ▸ .next first tail

theorem split {xs ys : List μ} (h : Trace step s (xs ++ ys) u) :
    ∃ t, Trace step s xs t ∧ Trace step t ys u := by
  induction xs generalizing s with
  | nil => exact ⟨s, .idle s, h⟩
  | cons x xs ih =>
    cases h with
    | next first tail =>
      obtain ⟨t, hxs, hys⟩ := ih tail
      exact ⟨t, .next first hxs, hys⟩

theorem append {xs ys : List μ} (h : Trace step s xs t) (h' : Trace step t ys u) :
    Trace step s (xs ++ ys) u := by
  induction h with
  | idle => exact h'
  | next first tail ih => exact .next first (ih h')

theorem concat {xs : List μ} (h : Trace step s xs t) (last : step t m u) :
    Trace step s (xs ++ [m]) u :=
  h.append (.next last (.idle u))

/-- The path that a machine takes which follows each step under the same label. -/
theorem map {τ : Type} {step' : τ → μ → τ → Prop} {f : σ → τ} {log : List μ}
    (h : Trace step s log t) (follows : ∀ {s m t}, step s m t → step' (f s) m (f t)) :
    Trace step' (f s) log (f t) := by
  induction h with
  | idle s => exact .idle (f s)
  | next first tail ih => exact .next (follows first) ih

/-- A label that leaves no choice leads to one state. -/
theorem unique {log : List μ} (h : Trace step s log t) (h' : Trace step s log u)
    (functional : ∀ {s m t t'}, step s m t → step s m t' → t = t') : t = u := by
  induction h with
  | idle => cases h'; rfl
  | next first tail ih =>
    cases h' with
    | next first' tail' =>
      cases functional first first'
      exact ih tail'

/-- The step that was taken at a label of a trace. -/
theorem middle {past rest : List μ} {m : μ} (h : Trace step s (past ++ m :: rest) u) :
    ∃ t t', Trace step s past t ∧ step t m t' ∧ Trace step t' rest u := by
  obtain ⟨t, hpast, hnext⟩ := h.split
  cases hnext with
  | next first tail => exact ⟨t, _, hpast, first, tail⟩

/-- A label of a longer log is the last one or one of those before. -/
theorem middle_of_concat {log before after : List μ} {m m' : μ}
    (h : log ++ [m] = before ++ m' :: after) :
    (after = [] ∧ log = before ∧ m = m') ∨
      ∃ older, after = older ++ [m] ∧ log = before ++ m' :: older := by
  obtain rfl | ⟨older, last, rfl⟩ := List.eq_nil_or_concat after
  · obtain ⟨hlog, hlast⟩ := List.append_inj' h rfl
    exact .inl ⟨rfl, hlog, List.singleton_inj.mp hlast⟩
  · rw [List.concat_eq_append, ← List.cons_append, ← List.append_assoc] at h
    obtain ⟨hlog, hlast⟩ := List.append_inj' h rfl
    rw [List.singleton_inj.mp hlast]
    exact .inr ⟨older, List.concat_eq_append, hlog⟩

/-- What every allowed step keeps of the history and the state holds all along. -/
theorem invariant {P : List μ → σ → Prop} {allowed : μ → Prop} {since log : List μ}
    (h : Trace step s log t) (start : P since s) (hlog : ∀ m ∈ log, allowed m)
    (keeps : ∀ {past s m t}, P past s → allowed m → step s m t → P (past ++ [m]) t) :
    P (since ++ log) t := by
  induction h generalizing since with
  | idle => rwa [List.append_nil]
  | next first tail ih =>
    obtain ⟨hfirst, htail⟩ := List.forall_mem_cons.mp hlog
    have hrest := ih (keeps start hfirst first) htail
    rwa [List.append_assoc] at hrest

/-- What every step keeps of the history and the state holds from the start on. -/
theorem history {P : List μ → σ → Prop} {log : List μ} (h : Trace step s log t) (start : P [] s)
    (keeps : ∀ {past s m t}, P past s → step s m t → P (past ++ [m]) t) : P log t := by
  have hany : ∀ m ∈ log, True := fun _ _ => trivial
  exact h.invariant start hany fun hpast _ first => keeps hpast first

/-- What every step keeps of the state holds all along. -/
theorem preserves {P : σ → Prop} {log : List μ} (h : Trace step s log t) (start : P s)
    (keeps : ∀ {s m t}, P s → step s m t → P t) : P t := by
  induction h with
  | idle => exact start
  | next first tail ih => exact ih (keeps start first)

end Trace

end Mqtt
