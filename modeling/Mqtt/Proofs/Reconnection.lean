import Mqtt.Proofs.Lives

/-!
# Opening again

After the loss of a connection that the broker had accepted, the transport is opened again once the
retry delay is over, if the loss can be made good and the options say so. A connection that was
never accepted is not made good, not even when it was itself to make a loss good.
-/
namespace Mqtt

namespace Phase

/-- Whether a wait that ends at `due` is found over. -/
def Moment.isDue (due : Time) (mo : Moment) : Prop := mo.act = .elapse ∧ due ≤ mo.now

/-- Nothing happens before a wait is over, and then the transport is asked to open. -/
def Reopens (due : Time) (log : List Moment) : Prop :=
  ∀ past mo rest, log = past ++ mo :: rest → (∀ m ∈ past, ¬ m.isDue due) →
    mo.output = ({} : Output) ∧ (mo.dials = true ↔ mo.isDue due)

/-- A connection was accepted when the application was told so since the transport opened. -/
def WasAccepted (life : List Moment) : Prop :=
  ∃ sessionPresent, .connected sessionPresent ∈ events life

/-- What it takes for the loss of a connection to be made good. -/
def IsMadeGood (o : Options) (life : List Moment) (reason : DisconnectReason) : Prop :=
  WasAccepted life ∧ reason.isRecoverable = true ∧ o.reconnect = true

section Reconnection
variable {o : Options} {w : Waiter} {p p' : Phase} {mo e fin : Moment} {due : Time}
  {reason : DisconnectReason} {log front life rest : List Moment}

theorem step_pausing (takes : Takes o (.pausing due) mo p')
    (alone : ∀ caller, mo.act ≠ .disconnect caller) :
    mo.output = ({} : Output) ∧ (p' = .pausing due ∧ ¬ mo.isDue due ∧ mo.dials = false ∨
      p' = .reopening 0 ∧ mo.isDue due ∧ mo.dials = true) := by
  have hstep := takes.2
  have hchange := takes.change
  obtain ⟨now, act, output, dials⟩ := mo
  dsimp only at hchange alone hstep ⊢
  cases hchange with
  | rests hidle =>
    refine ⟨rfl, .inl ⟨rfl, ?_, rfl⟩⟩
    rintro ⟨rfl, hdue⟩
    rw [step, elapse, if_neg (Nat.not_lt.mpr hdue)] at hstep
    cases hstep
  | stops => exact absurd rfl (alone _)
  | dials hwait hover =>
    obtain ⟨h, rfl⟩ | h := hwait
    · cases h
      exact ⟨rfl, .inr ⟨rfl, ⟨rfl, hover⟩, rfl⟩⟩
    · cases h
  | works h => cases h
  | ends h => cases h

theorem reopens_of_pausing (run : Trace (Takes o) (.pausing due) log p)
    (alone : ∀ mo ∈ log, ∀ caller, mo.act ≠ .disconnect caller) : Reopens due log := by
  intro past mo rest hlog hpast
  subst hlog
  obtain ⟨t, t', hbefore, htakes, -⟩ := run.middle
  have ht : (∀ m ∈ past, ¬ m.isDue due) → (∀ m ∈ past, ∀ caller, m.act ≠ .disconnect caller) →
      t = .pausing due := by
    refine hbefore.history (P := fun past t => (∀ m ∈ past, ¬ m.isDue due) →
      (∀ m ∈ past, ∀ caller, m.act ≠ .disconnect caller) → t = .pausing due)
      (fun _ _ => rfl) ?_
    intro past t m t' hpast takes hwaits halone
    rw [List.forall_mem_append, List.forall_mem_singleton] at hwaits halone
    obtain rfl := hpast hwaits.1 halone.1
    obtain ⟨-, ⟨rfl, -⟩ | ⟨-, hdue, -⟩⟩ := step_pausing takes halone.2
    · rfl
    · exact absurd hdue hwaits.2
  obtain rfl := ht hpast fun m hm => alone m (by simp [hm])
  obtain ⟨houtput, ⟨-, hwaits, hdials⟩ | ⟨-, hdue, hdials⟩⟩ :=
    step_pausing htakes (alone mo (by simp))
  · exact ⟨houtput, by simp [hdials, hwaits]⟩
  · exact ⟨houtput, iff_of_true hdials hdue⟩

theorem step_ended (takes : Takes o .ended mo p') :
    p' = .ended ∧ mo.output = ({} : Output) ∧ mo.dials = false := by
  have hchange := takes.change
  obtain ⟨now, act, output, dials⟩ := mo
  dsimp only at hchange ⊢
  cases hchange with
  | rests => exact ⟨rfl, rfl, rfl⟩
  | stops h => cases h
  | dials h => obtain ⟨h, -⟩ | h := h <;> cases h
  | works h => cases h
  | ends h => cases h

/-- What is over stays over. -/
theorem rests_of_ended (run : Trace (Takes o) .ended log p) :
    ∀ mo ∈ log, mo.output = {} ∧ mo.dials = false := by
  intro mo hmo
  obtain ⟨past, rest, rfl⟩ := List.append_of_mem hmo
  obtain ⟨t, t', hbefore, htakes, -⟩ := run.middle
  obtain rfl : t = .ended := hbefore.preserves (P := (· = .ended)) rfl fun hs takes =>
    (step_ended (hs ▸ takes)).1
  exact (step_ended htakes).2

/-- The phase that the loss of a connection leads to. -/
theorem phase_of_loss (run : Trace (Takes o) (.opening w) (front ++ e :: life ++ fin :: rest) p)
    (hopened : e.act = .opened) (hlife : losses life = []) (hfin : reason ∈ fin.output.losses) :
    ∃ t, Trace (Takes o) t rest p ∧ fin.dials = false ∧
      (IsMadeGood o life reason → t = .pausing (fin.now + o.retryDelay)) ∧
      (¬ IsMadeGood o life reason → t = .ended) := by
  obtain ⟨t₁, t₂, hbefore, hlast, hrest⟩ := run.middle
  obtain ⟨s₁, s₂, hfront, hopen, hlives⟩ := hbefore.middle
  obtain ⟨waiter, hc, -, -⟩ := connection_of_opened hopen hopened
  obtain ⟨k, hk, haccepted⟩ := connected_of_life hlives hc rfl hlife
  obtain ⟨hnone, -⟩ | ⟨reason', hsome, hdies⟩ := hlast.lives_or_dies hk
  · rw [hnone] at hfin
    cases hfin
  · rw [hsome, List.mem_singleton] at hfin
    subst hfin
    refine ⟨t₂, hrest, hdies.dials, fun h => ?_, fun h => ?_⟩
    · rw [hdies.phase, if_pos]
      simpa [haccepted, IsMadeGood, WasAccepted, and_assoc] using h
    · rw [hdies.phase, if_neg]
      simpa [haccepted, IsMadeGood, WasAccepted, and_assoc] using h

/-- A connection that is lost is made good when the broker had accepted it, the reason allows it and
the options ask for it, and the run is over in every other case. -/
theorem reopened_iff_accepted
    (run : Trace (Takes o) (.opening w) (front ++ e :: life ++ fin :: rest) p)
    (hopened : e.act = .opened) (hlife : losses life = []) (hfin : reason ∈ fin.output.losses) :
    (IsMadeGood o life reason → (∀ mo ∈ rest, ∀ caller, mo.act ≠ .disconnect caller) →
        Reopens (fin.now + o.retryDelay) rest) ∧
      (¬ IsMadeGood o life reason → fin.dials = false ∧
        ∀ mo ∈ rest, mo.output = ({} : Output) ∧ mo.dials = false) := by
  obtain ⟨t, hrest, hdials, hpauses, hends⟩ := phase_of_loss run hopened hlife hfin
  refine ⟨fun h alone => ?_, fun h => ?_⟩
  · rw [hpauses h] at hrest
    exact reopens_of_pausing hrest alone
  · rw [hends h] at hrest
    exact ⟨hdials, rests_of_ended hrest⟩

end Reconnection

/-- A connection that the broker accepted is lost. It is opened again, and lost before the CONNACK. -/
def lostAgain : List Moment :=
  [⟨0, .opened, .ofPackets [plainOptions.connectPacket.toPacket], false⟩,
    ⟨3, .connection (.handle (.packet (.ofBody (.connack true .accepted)))),
      { events := [.connected true], answers := [⟨7, .ok (.connected true)⟩] }, false⟩,
    ⟨5, .connection .readEnd, {}, false⟩,
    ⟨5, .observe, .ofEvent (.disconnected .transportClosed), false⟩,
    ⟨5005, .elapse, {}, true⟩,
    ⟨5006, .opened, .ofPackets [plainOptions.connectPacket.toPacket], false⟩,
    ⟨5010, .connection .readEnd, {}, false⟩,
    ⟨5010, .observe, .ofEvent (.disconnected .transportClosed), false⟩,
    ⟨10010, .elapse, {}, false⟩]

theorem trace_lostAgain : Trace (Takes plainOptions) (.opening 7) lostAgain .ended := by
  let first : Connection := .fresh plainOptions (some 7) 0
  let accepted := first.withHandshake ⟨60000, .accepted true, none⟩
  let second : Connection := .fresh plainOptions none 5006
  exact .next (t := driving first 1000) ⟨rfl, drive_eq _ _ _⟩ <|
    .next (t := driving accepted 1000) ⟨⟨_, rfl, rfl⟩, rfl⟩ <|
    .next (t := driving (accepted.endReading .transportClosed) 1000) ⟨trivial, rfl⟩ <|
    .next (t := pausing 5005) ⟨trivial, rfl⟩ <|
    .next (t := reopening 0) ⟨fun _ _ h => (by cases h), rfl⟩ <|
    .next (t := driving second 6006) ⟨rfl, drive_eq _ _ _⟩ <|
    .next (t := driving (second.endReading .transportClosed) 6006) ⟨trivial, rfl⟩ <|
    .next (t := ended) ⟨trivial, rfl⟩ <|
    .next (t := ended) ⟨fun _ _ h => (by cases h), rfl⟩ <| .idle ended

theorem reopened_iff_accepted_lostAgain :
    Trace (Takes plainOptions) (.opening 7) lostAgain .ended ∧
      Reopens 5005 (lostAgain.drop 4) ∧
      ∀ mo ∈ lostAgain.drop 8, mo.output = ({} : Output) ∧ mo.dials = false := by
  have hfirst : Trace (Takes plainOptions) (.opening 7)
      ([] ++ lostAgain[0] :: (lostAgain.drop 1).take 2 ++ lostAgain[3] :: lostAgain.drop 4) .ended :=
    trace_lostAgain
  have hsecond : Trace (Takes plainOptions) (.opening 7)
      (lostAgain.take 5 ++ lostAgain[5] :: (lostAgain.drop 6).take 1 ++
        lostAgain[7] :: lostAgain.drop 8) .ended := trace_lostAgain
  have hlost : DisconnectReason.transportClosed ∈
      (Output.ofEvent (.disconnected .transportClosed)).losses := List.mem_singleton_self _
  have hgood := (reopened_iff_accepted hfirst rfl rfl hlost).1
  have hover := (reopened_iff_accepted hsecond rfl rfl hlost).2
  refine ⟨trace_lostAgain, hgood ⟨⟨true, List.mem_singleton_self _⟩, rfl, rfl⟩ ?_, (hover ?_).2⟩
  · simp [lostAgain]
  · rintro ⟨⟨sessionPresent, hconnected⟩, -⟩
    cases hconnected

/-- That a connection was accepted earlier in the run does not make a loss good. -/
theorem not_reopened_of_accepted_before :
    ¬ ∀ (o : Options) (w : Waiter) (p : Phase) (e fin : Moment) (front life rest : List Moment)
      (reason : DisconnectReason),
      Trace (Takes o) (.opening w) (front ++ e :: life ++ fin :: rest) p → e.act = .opened →
        losses life = [] → reason ∈ fin.output.losses → o.reconnect = true →
          reason.isRecoverable = true → WasAccepted (front ++ e :: life) →
            (∀ mo ∈ front ++ e :: life ++ fin :: rest, ∀ caller, mo.act ≠ .disconnect caller) →
              Reopens (fin.now + o.retryDelay) rest := by
  intro h
  have hreopens := h plainOptions 7 .ended (lostAgain[5]) (lostAgain[7]) (lostAgain.take 5)
    ((lostAgain.drop 6).take 1) (lostAgain.drop 8) .transportClosed trace_lostAgain rfl rfl
    (List.mem_singleton_self _) rfl rfl ⟨true, List.mem_cons_self⟩ (by simp [lostAgain])
  have hdials := (hreopens [] (lostAgain[8]) [] rfl (List.forall_mem_nil _)).2
  exact Bool.noConfusion (hdials.mpr ⟨rfl, Nat.le_refl _⟩)

end Phase

end Mqtt
