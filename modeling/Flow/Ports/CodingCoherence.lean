import Flow.Ports.CodingMoves

/-!
# Coherence of the session document

`enter` writes the phase, the state, the deadline and the start of a phase together.
`Coherent` is what a document then satisfies: outside done the state is the one of
the policy, nothing has ended, and the deadline is the last phase change plus the
timeout of the phase; in done the end is recorded and nothing is running out; a turn
has a start exactly while one runs.

The time of the last phase change is not in the document: `Timeline` carries it, and
every operation that takes the session through another phase sets it.

Three operations assign the fields by hand, and a turn completion can enter the phase
the session is in.  `Operation.orderly` says when these do no harm.
-/

namespace Flow.Ports.Coding

open Flow.Verified.Run Option

/-- What the fields that a phase change writes together satisfy, when the last
change of the phase was at `changed`. -/
structure Clock.Coherent (c : StepConfig) (changed : Time) (k : Clock) : Prop where
  state : k.phase ≠ .done → k.state = (c.policies k.phase).state
  notEnded : k.phase ≠ .done → k.endedAt = none
  startedAt : k.phase ≠ .done → k.phaseStartedAt = changed
  deadline : k.phase ≠ .done → k.phaseDeadline = c.deadline k.phase k.phaseStartedAt
  ended : k.phase = .done → k.endedAt ≠ none
  noDeadline : k.phase = .done → k.phaseDeadline = none
  turn : k.turnStartedAt ≠ none ↔ k.phase = .running

/-- The time of the last phase change after an operation at `now` took the
session through the phases of a path. -/
def lastChange (now : Time) : Time → List Phase → Time
  | changed, p :: q :: rest => lastChange now (if p = q then changed else now) (q :: rest)
  | changed, _ => changed

structure Timeline where
  session : Session
  changedAt : Time
deriving DecidableEq, Repr

def Timeline.start (svc : Service) (input : StartInput) (time : Time) : Timeline :=
  ⟨svc.start input time, time⟩

def Timeline.advance (svc : Service) (w : Timeline) (call : Operation × List Sandbox) :
    Option Timeline :=
  (call.1.run svc call.2 w.session).map fun d =>
    ⟨writeDocument w.session d.session,
      lastChange call.1.now w.changedAt (call.1.path svc call.2 w.session d.session)⟩

def Coherent (svc : Service) (w : Timeline) : Prop :=
  w.session.clock.Coherent svc.step w.changedAt

/-- When an operation that assigns fields by hand, or that may enter the phase
the session is in, does no harm. -/
def Operation.orderly (svc : Service) (w : Timeline) : Operation → Bool
  | .archive _ _ => w.session.phase ≠ .idle ∨ svc.step.timeouts.idle ≤ 0
  | .pullRequestState event link _ =>
    ¬(w.session.phase = .idle ∧ svc.endsIdle event link w.session) ∨
      svc.step.timeouts.idle ≤ 0
  | .selectEnvironment _ _ _ now =>
    w.session.phase ≠ .awaitingUser ∨
      now = w.changedAt ∧ svc.step.deadline .awaitingUser now = svc.step.deadline .queued now
  | .completeTurn _ turnID _ request now =>
    completionPhase (reportTurn w.session turnID request) request ≠ some w.session.phase ∨
      w.session.phase = .done ∨ now = w.changedAt
  | _ => true

section Transition

variable {c : StepConfig} {s t : Session} {now changed : Time}

theorem enter_coherent (b : Session) (phase : Phase)
    (hturn : b.turnStartedAt ≠ none ↔ b.phase = .running) :
    (c.enter b phase now).clock.Coherent c now where
  state h := if_neg h
  notEnded h := if_neg h
  startedAt _ := rfl
  deadline _ := rfl
  ended h := by
    have hdone : phase = .done := h
    simp [Session.clock, StepConfig.enter, hdone]
  noDeadline h := by
    have hdone : phase = .done := h
    simp [Session.clock, hdone]
  turn := by
    show (c.enter b phase now).turnStartedAt ≠ none ↔ phase = .running
    unfold StepConfig.enter
    by_cases hrunning : phase = .running
    · by_cases hb : b.phase = .running
      · simpa [hrunning, hb] using hturn.2 hb
      · simp [hrunning, hb]
    · by_cases hb : b.phase = .running
      · simp [hrunning, hb]
      · have hnone : b.turnStartedAt = none := by
          by_contra h
          exact hb (hturn.1 h)
        simp [hb, hnone]

/-- One transition keeps a session coherent, and moves the time of the last
change exactly when it changes the phase. -/
theorem Moves.coherent (h : Moves c now s t) (hs : s.clock.Coherent c changed) :
    t.clock.Coherent c (if s.phase = t.phase then changed else now) := by
  cases h with
  | kept hclock =>
    rw [if_pos (Session.phase_eq_of_clock hclock).symm, hclock]
    exact hs
  | entered b phase hb ht hdeclared =>
    have hphase : t.phase = phase := Session.phase_eq_of_clock ht
    have hne : s.phase ≠ t.phase := by
      rw [hphase]
      exact (canTransition_ne hdeclared).symm
    rw [if_neg hne, ht]
    have hturn := hs.turn
    rw [← hb] at hturn
    exact enter_coherent b phase hturn

/-- A session that is ended by hand keeps the deadline of idle. -/
theorem endIdle_coherent_iff (hidle : s.phase = .idle) (hs : s.clock.Coherent c changed) :
    (endIdle now s).clock.Coherent c now ↔ c.timeouts.idle ≤ 0 := by
  have hne : s.clock.phase ≠ .done := by simp [Session.clock, hidle]
  have hdeadline : s.phaseDeadline = c.deadline .idle s.phaseStartedAt := by
    have h := hs.deadline hne
    rwa [show s.clock.phase = .idle from hidle] at h
  have hnone : c.deadline .idle s.phaseStartedAt = none ↔ c.timeouts.idle ≤ 0 := by
    show (if 0 < c.timeouts.idle then some _ else none) = none ↔ _
    by_cases h : 0 < c.timeouts.idle
    · simpa [if_pos h] using h
    · simpa [if_neg h] using h
  constructor
  · intro h
    have hended : s.phaseDeadline = none := h.noDeadline rfl
    rw [← hnone, ← hdeadline]
    exact hended
  · intro hidleTimeout
    have hturn : s.turnStartedAt = none := by
      by_contra h
      have hrunning : s.phase = .running := hs.turn.1 h
      simp [hidle] at hrunning
    exact
      { state := fun h => absurd rfl h
        notEnded := fun h => absurd rfl h
        startedAt := fun h => absurd rfl h
        deadline := fun h => absurd rfl h
        ended := fun _ => by simp [Session.clock, endIdle]
        noDeadline := fun _ => hdeadline.trans (hnone.2 hidleTimeout)
        turn := by simp [Session.clock, endIdle, hturn] }

theorem selected_coherent_iff (hwaiting : s.phase = .awaitingUser)
    (hs : s.clock.Coherent c changed) :
    Clock.Coherent c now { s.clock with phase := .queued, state := .pending } ↔
      now = changed ∧ c.deadline .awaitingUser now = c.deadline .queued now := by
  have hne : s.clock.phase ≠ .done := by simp [Session.clock, hwaiting]
  have hstarted : s.phaseStartedAt = changed := hs.startedAt hne
  have hdeadline : s.phaseDeadline = c.deadline .awaitingUser s.phaseStartedAt := by
    have h := hs.deadline hne
    rwa [show s.clock.phase = .awaitingUser from hwaiting] at h
  constructor
  · intro h
    have hnow : s.phaseStartedAt = now := h.startedAt (by simp)
    have hqueued : s.phaseDeadline = c.deadline .queued s.phaseStartedAt := h.deadline (by simp)
    refine ⟨hnow.symm.trans hstarted, ?_⟩
    rw [← hnow, ← hdeadline]
    exact hqueued
  · rintro ⟨hnow, hsame⟩
    have hstart : s.phaseStartedAt = now := hstarted.trans hnow.symm
    have hturn : s.turnStartedAt = none := by
      by_contra h
      have hrunning : s.phase = .running := hs.turn.1 h
      simp [hwaiting] at hrunning
    exact
      { state := fun _ => rfl
        notEnded := fun _ => hs.notEnded hne
        startedAt := fun _ => hstart
        deadline := fun _ => by
          show s.phaseDeadline = c.deadline .queued s.phaseStartedAt
          rw [hdeadline, hstart, hsame]
        ended := fun h => by simp at h
        noDeadline := fun h => by simp at h
        turn := by simp [Session.clock, hturn] }

/-- Entering the phase of the session starts it again, which shows unless the session has ended
or nothing is moved. -/
theorem reenter_coherent_iff (b : Session) (hb : b.clock = s.clock)
    (hs : s.clock.Coherent c changed) :
    (c.enter b s.phase now).clock.Coherent c changed ↔ s.phase = .done ∨ now = changed := by
  have hturn := hs.turn
  rw [← hb] at hturn
  constructor
  · intro h
    by_cases hdone : s.phase = .done
    · exact .inl hdone
    · exact .inr (h.startedAt hdone)
  · rintro (hdone | rfl)
    · have h : (c.enter b s.phase now).clock.Coherent c now := enter_coherent b s.phase hturn
      exact
        { state := fun hne => absurd hdone hne
          notEnded := fun hne => absurd hdone hne
          startedAt := fun hne => absurd hdone hne
          deadline := fun hne => absurd hdone hne
          ended := h.ended
          noDeadline := h.noDeadline
          turn := h.turn }
    · exact enter_coherent b s.phase hturn

end Transition

section Operation

variable {svc : Service} {w : Timeline}

/-- **An operation keeps a coherent session coherent exactly when it is
orderly.** -/
theorem coherent_advance_iff {w' : Timeline} {call : Operation × List Sandbox}
    (hw : Coherent svc w) (h : w.advance svc call = some w') :
    Coherent svc w' ↔ call.1.orderly svc w := by
  obtain ⟨op, sandboxes⟩ := call
  obtain ⟨d, hrun, rfl⟩ := map_eq_some_iff.1 h
  unfold Coherent at hw ⊢
  rw [writeDocument_clock]
  cases op with
  | reconcile obs provisioned published =>
    cases hrun
    obtain ⟨hstep, hprovision, hpublish⟩ := reconcile_moves svc.step w.session
      { obs with sandboxes := sandboxes } provisioned published
    simp only [Operation.orderly, iff_true]
    exact hpublish.coherent (hprovision.coherent (hstep.coherent hw))
  | events sandboxID patch now =>
    simp only [Operation.run] at hrun
    split at hrun
    · cases hrun
    · cases hrun
      simp only [Operation.orderly, iff_true]
      exact (patchApply_moves patch).coherent ((patchRunning_moves patch).coherent hw)
  | completeTurn grant turnID retried request now =>
    simp only [Operation.orderly, decide_eq_true_eq]
    show d.session.clock.Coherent svc.step
      (if w.session.phase = d.session.phase then w.changedAt else now) ↔ _
    rcases completeTurn_clock hrun with ⟨hnone, hclock⟩ | ⟨b, phase, hsome, hb, hclock⟩
    · rw [if_pos (Session.phase_eq_of_clock hclock).symm, hclock, hnone]
      simpa using hw
    · have hphase : d.session.phase = phase := Session.phase_eq_of_clock hclock
      rw [hsome, hclock, hphase]
      by_cases hsame : w.session.phase = phase
      · subst hsame
        simpa using reenter_coherent_iff b hb hw
      · have hturn := hw.turn
        rw [← hb] at hturn
        rw [if_neg hsame]
        simp only [ne_eq, some.injEq, Ne.symm hsame, not_false_eq_true, true_or, iff_true]
        exact enter_coherent b phase hturn
  | archive userID now =>
    obtain ⟨t, ht, rfl⟩ := map_eq_some_iff.1 hrun
    simp only [Operation.orderly]
    show t.clock.Coherent svc.step (if w.session.phase = t.phase then w.changedAt else now) ↔ _
    rcases archive_clock ht with ⟨hbusy, hclock⟩ | ⟨hidle, hclock⟩
    · rw [if_pos (Session.phase_eq_of_clock hclock).symm, hclock]
      simpa [hbusy] using hw
    · have hdone : t.phase = .done := Session.phase_eq_of_clock hclock
      rw [hdone, hidle, if_neg (by simp), hclock, endIdle_coherent_iff hidle hw]
      simp
  | pullRequestState event link now =>
    cases hrun
    simp only [Operation.orderly]
    show (svc.dispatchState event link now w.session).clock.Coherent svc.step
      (if w.session.phase = (svc.dispatchState event link now w.session).phase then
        w.changedAt else now) ↔ _
    rcases dispatchState_clock event link with ⟨hbusy, hclock⟩ | ⟨hidle, hends, hclock⟩
    · rw [if_pos (Session.phase_eq_of_clock hclock).symm, hclock]
      simpa [hbusy] using hw
    · rw [Session.phase_eq_of_clock hclock, hidle, if_neg (by simp [endIdle]), hclock,
        endIdle_coherent_iff hidle hw]
      simp [hends]
  | selectEnvironment environmentID codeHost repository now =>
    obtain ⟨t, ht, rfl⟩ := map_eq_some_iff.1 hrun
    simp only [Operation.orderly]
    show t.clock.Coherent svc.step (if w.session.phase = t.phase then w.changedAt else now) ↔ _
    rcases selectEnvironment_clock ht with ⟨hmoved, hclock⟩ | ⟨hwaiting, hclock⟩
    · rw [if_pos (Session.phase_eq_of_clock hclock).symm, hclock]
      simpa [hmoved] using hw
    · have hqueued : t.phase = .queued := congrArg Clock.phase hclock
      rw [hqueued, hwaiting, hclock, selected_coherent_iff hwaiting hw]
      simp
  | _ =>
    simp only [Operation.orderly, iff_true]
    exact (quiet_moves rfl hrun).coherent hw

end Operation

theorem start_coherent (svc : Service) (input : StartInput) (time : Time) :
    Coherent svc (Timeline.start svc input time) := by
  show (svc.start input time).clock.Coherent svc.step time
  unfold Service.start
  by_cases happroval : input.requireApproval
  · rw [if_pos happroval]
    exact enter_coherent _ _ (by simp)
  · rw [if_neg happroval]
    cases input.quota with
    | none => exact enter_coherent _ _ (by simp)
    | some text => exact enter_coherent _ _ (by simp [StepConfig.enter])

def Orderly (svc : Service) (w : Timeline) (call : Operation × List Sandbox) : Prop :=
  call.1.orderly svc w

instance (svc : Service) (w : Timeline) (call : Operation × List Sandbox) :
    Decidable (Orderly svc w call) :=
  inferInstanceAs (Decidable (call.1.orderly svc w = true))

/-- **Every session that orderly operations reach is coherent.** -/
theorem coherent_of_reaches (svc : Service) (input : StartInput) (time : Time) (w : Timeline)
    (h : Reaches (Timeline.advance svc) (Orderly svc) (Timeline.start svc input time) w) :
    Coherent svc w := by
  refine h.invariant (P := Coherent svc) ?_ (start_coherent svc input time)
  intro w call w' hw horderly hstep
  exact (coherent_advance_iff hw hstep).2 horderly

def ambiguous : StartInput := { id := "s-1", workspaceKey := "acme", source := "issue" }

/-- The reconciler asks which of two environments the session should use. -/
def asksEnvironment : Operation × List Sandbox :=
  (.reconcile { now := minute } { selection := ["env-1", "env-2"] } {}, [])

theorem coherent_of_answer :
    Coherent defaultService
      ⟨{ defaultService.step.enter
          { defaultService.start ambiguous 0 with environmentID := "env-1",
                                                  nextReconcileAt := 2 * minute }
          .queued (2 * minute) with version := 3 }, 2 * minute⟩ :=
  coherent_of_reaches defaultService ambiguous 0 _
    (reaches_of_exec [asksEnvironment, (.answer "env-1" (2 * minute), [])] _ _ (by decide))

/-- **A session whose environment was selected keeps the deadline of awaitingUser**: queued for
a week instead of half an hour, and started a minute before it was queued. -/
theorem selected_environment_keeps_deadline :
    ¬∀ (svc : Service) (input : StartInput) (time : Time) (w : Timeline),
      Reaches (Timeline.advance svc) Unrestricted (Timeline.start svc input time) w →
      Coherent svc w := by
  intro hall
  have hrun := hall defaultService ambiguous 0 _
    (reaches_of_exec
      [asksEnvironment, (.selectEnvironment "env-1" "github" "acme/app" (2 * minute), [])]
      _ ⟨{ defaultService.step.enter (defaultService.start ambiguous 0) .awaitingUser minute with
            environmentID := "env-1", codeHost := "github", repository := "acme/app"
            phase := .queued, state := .pending, version := 3 }, 2 * minute⟩ (by decide))
  exact absurd (hrun.deadline (by decide)) (by decide)

end Flow.Ports.Coding
