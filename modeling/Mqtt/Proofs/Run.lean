import Mqtt.Proofs.Retries

/-!
# Runs

What the machines that exchange messages are asked, moment by moment, and what they put out. A
run relates two states of a machine by its history, which is all that an observer sees of it.
-/
namespace Mqtt

namespace Step
variable {σ τ ε α β : Type}

theorem andThen_ok (s : σ) (output : Output) (a : α) (f : σ → α → Step σ ε β) :
    (⟨s, output, .ok a⟩ : Step σ ε α).andThen f =
      ⟨(f s a).state, output ++ (f s a).output, (f s a).result⟩ := rfl

theorem inside_mk (s : σ) (output : Output) (result : Except ε α) (put : σ → τ) :
    (⟨s, output, result⟩ : Step σ ε α).inside put = ⟨put s, output, result⟩ := rfl

end Step

/-- What a machine that exchanges messages is asked to do. -/
inductive Trigger
  | publish (p : PublishPacket)
  | puback (id : UInt16)
  | pubrec (id : UInt16)
  | pubrel (id : UInt16)
  | pubcomp (id : UInt16)
  | tick
  | reset
  deriving DecidableEq, Repr

/-- What was asked at some time, and what came of it. -/
structure Moment where
  now : Time
  trigger : Trigger
  output : Output
  result : Except ClientError Unit

section Run
variable {σ : Type} {takes : σ → Time → Trigger → Step σ ClientError Unit → Prop} {s t u : σ}

/-- The runs of a machine that answers a trigger with the steps that `takes` allows. Time may
stand still or go back. -/
inductive Run (takes : σ → Time → Trigger → Step σ ClientError Unit → Prop) :
    σ → List Moment → σ → Prop
  | idle (s : σ) : Run takes s [] s
  | next {s t : σ} {now : Time} {a : Trigger} {r : Step σ ClientError Unit} {rest : List Moment}
      (first : takes s now a r) (tail : Run takes r.state rest t) :
      Run takes s (⟨now, a, r.output, r.result⟩ :: rest) t

theorem Run.step {mo : Moment} {rest : List Moment} {r : Step σ ClientError Unit}
    (first : takes s mo.now mo.trigger r) (output : r.output = mo.output)
    (result : r.result = mo.result) (tail : Run takes r.state rest t) :
    Run takes s (mo :: rest) t := by
  obtain ⟨now, a, _, _⟩ := mo
  subst output result
  exact .next first tail

theorem Run.split {xs ys : List Moment} (h : Run takes s (xs ++ ys) u) :
    ∃ t, Run takes s xs t ∧ Run takes t ys u := by
  induction xs generalizing s with
  | nil => exact ⟨s, .idle s, h⟩
  | cons x xs ih =>
    cases h with
    | next first tail =>
      obtain ⟨t, hxs, hys⟩ := ih tail
      exact ⟨t, .next first hxs, hys⟩

/-- The step that was taken at a moment of a run. -/
theorem Run.middle {past rest : List Moment} {mo : Moment}
    (h : Run takes s (past ++ mo :: rest) u) :
    ∃ t r, Run takes s past t ∧ takes t mo.now mo.trigger r ∧ r.output = mo.output ∧
      r.result = mo.result ∧ Run takes r.state rest u := by
  obtain ⟨t, hpast, hnext⟩ := h.split
  cases hnext with
  | next first tail => exact ⟨t, _, hpast, first, rfl, rfl, tail⟩

/-- What every step keeps holds all along. -/
theorem Run.preserves {log : List Moment} (h : Run takes s log t) (P : σ → Prop)
    (step : ∀ {s now a r}, P s → takes s now a r → P r.state) (start : P s) : P t := by
  induction h with
  | idle => exact start
  | next first tail ih => exact ih (step start first)

/-- What is seen of a machine keeps a property of the history, if each allowed step does. -/
theorem Run.simulates {τ : Type} {R : σ → τ → Prop} {P : List Moment → τ → Prop}
    {allowed : Moment → Prop} {v : τ} {since log : List Moment}
    (step : ∀ {s v since now a r}, R s v → P since v → takes s now a r →
      allowed ⟨now, a, r.output, r.result⟩ →
        ∃ v', R r.state v' ∧ P (since ++ [⟨now, a, r.output, r.result⟩]) v')
    (run : Run takes s log t) (seen : R s v) (start : P since v) (hlog : ∀ mo ∈ log, allowed mo) :
    ∃ v', R t v' ∧ P (since ++ log) v' := by
  induction run generalizing since v with
  | idle => exact ⟨v, seen, by rwa [List.append_nil]⟩
  | next first tail ih =>
    obtain ⟨hfirst, htail⟩ := List.forall_mem_cons.mp hlog
    obtain ⟨v', seen', hnext⟩ := step seen start first hfirst
    have hrest := ih seen' hnext htail
    rwa [List.append_assoc] at hrest

end Run

/-! ## Attempts -/

namespace Moment

/-- The time of each packet of a kind that was written at a moment. -/
def sends (counts : Packet → Bool) (mo : Moment) : List Time :=
  (mo.output.packets.filter counts).map fun _ => mo.now

end Moment

/-- A tick adds attempts; a packet that anything else writes is a first attempt again. -/
def addAttempts (counts : Packet → Bool) (times : List Time) (mo : Moment) : List Time :=
  if mo.trigger = .tick then times ++ mo.sends counts
  else if (mo.sends counts).isEmpty then times
  else mo.sends counts

/-- When packets of a kind were written, from the last one on that no tick wrote. -/
def attempts (counts : Packet → Bool) (log : List Moment) : List Time :=
  log.foldl (addAttempts counts) []

@[simp] theorem attempts_concat (counts : Packet → Bool) (log : List Moment) (mo : Moment) :
    attempts counts (log ++ [mo]) = addAttempts counts (attempts counts log) mo := by
  simp [attempts]

section Attempts
variable {counts : Packet → Bool} {since : List Moment} {mo : Moment}

theorem attempts_of_quiet (h : mo.output.packets.filter counts = []) :
    attempts counts (since ++ [mo]) = attempts counts since := by
  have hsends : mo.sends counts = [] := congrArg (List.map fun _ => mo.now) h
  rw [attempts_concat, addAttempts, hsends]
  split <;> simp

theorem attempts_of_restart {q : Packet} (h : mo.output.packets.filter counts = [q])
    (ha : mo.trigger ≠ .tick) : attempts counts (since ++ [mo]) = [mo.now] := by
  have hsends : mo.sends counts = [mo.now] := congrArg (List.map fun _ => mo.now) h
  rw [attempts_concat, addAttempts, hsends, if_neg ha]
  rfl

theorem attempts_of_resend {q : Packet} (h : mo.output.packets.filter counts = [q])
    (ha : mo.trigger = .tick) :
    attempts counts (since ++ [mo]) = attempts counts since ++ [mo.now] := by
  have hsends : mo.sends counts = [mo.now] := congrArg (List.map fun _ => mo.now) h
  rw [attempts_concat, addAttempts, hsends, if_pos ha]

end Attempts

/-- As many attempts as are allowed were made, and the wait after the last is over. -/
def RetryPolicy.isExhausted (policy : RetryPolicy) (times : List Time) (now : Time) : Bool :=
  policy.limit ≤ times.length && times.getLast?.any fun last => policy.delay < now - last

namespace Context
variable {α : Type} {policy : RetryPolicy} {now : Time} {c : Context α} {times : List Time}

structure Records (c : Context α) (times : List Time) : Prop where
  attempt : c.attempt = times.length
  lastSent : times.getLast? = some c.lastSent

theorem records_restart (c : Context α) (now : Time) : (c.restart now).Records [now] := ⟨rfl, rfl⟩

theorem Records.resend (h : c.Records times) : (c.resend now).Records (times ++ [now]) where
  attempt := by simp [Context.resend, h.attempt]
  lastSent := by simp [Context.resend]

theorem Records.verdict_eq_exhausted_iff (h : c.Records times) (policy : RetryPolicy) (now : Time) :
    c.verdict policy now = .exhausted ↔ policy.isExhausted times now = true := by
  simp only [verdict, RetryPolicy.isExhausted, h.lastSent, h.attempt, Option.any_some,
    Bool.and_eq_true, decide_eq_true_eq]
  split
  · next hwait =>
    simp only [reduceCtorEq, false_iff, not_and]
    exact fun _ hover => Nat.not_lt.mpr hwait hover
  · next hwait =>
    split
    · next hlimit => exact iff_of_true rfl ⟨hlimit, Nat.not_le.mp hwait⟩
    · next hlimit => exact iff_of_false (by decide) fun h => hlimit h.1

end Context

end Mqtt
