import Flow.Ports.CodingMachine

/-!
# Stops of coding sessions

A session that a user stops enters stopping while a sandbox lives; its runner then has
the stop grace to commit, and the session ends without an error.  The step tests the stop
first, and in stopping no longer: there the cap on running time ends the session with an
error, and it ends the grace.
-/

namespace Flow.Ports.Coding

open List

/-- A user stopped the session, and no error ends it. -/
structure Stopped (s : Session) : Prop where
  requested : s.stopRequested = true
  errorCode : s.errorCode = .unset
  state : s.phase = .done → s.state = .stale

/-- What a step owes a stopped session: one that is done is stale without an error, and no live
sandbox is asked to stop before the grace since the session entered stopping. -/
def KeepsStop (c : StepConfig) (s : Session) (obs : Observation) : Prop :=
  ((c.step s obs).session.phase = .done →
    (c.step s obs).session.state = .stale ∧ (c.step s obs).session.errorCode = .unset) ∧
  ∀ record ∈ obs.sandboxes, liveSandbox record →
    ⟨.stopSandbox, record.id⟩ ∈ (c.step s obs).actions →
    c.timeouts.stopGrace ≤ obs.now - s.phaseStartedAt

/-- In stopping the cap on running time is not reached, and the deadline of the phase
leaves a live sandbox the grace. -/
def LeavesGrace (c : StepConfig) (s : Session) (obs : Observation) : Prop :=
  s.phase = .stopping → c.overCap s obs.now = false ∧
    (obs.sandboxes.any liveSandbox → timedOut s obs.now →
      c.timeouts.stopGrace ≤ obs.now - s.phaseStartedAt)

def StepConfig.looks (c : StepConfig) : Session → List Observation → List (Session × Observation)
  | _, [] => []
  | s, obs :: rest => (s, obs) :: c.looks (c.step s obs).session rest

variable {c : StepConfig} {s : Session} {obs : Observation}

theorem step_stopping (hstopping : s.phase = .stopping) (hcap : c.overCap s obs.now = false) :
    c.step s obs = c.schedule (c.stepStopping { session := s, nextIn := c.reconcileInterval } obs)
      obs.now := by
  simp [StepConfig.step, hstopping, hcap, sandboxLost, StepConfig.runnerLost, StepConfig.stepPhase]

theorem step_overCap (hstopping : s.phase = .stopping) (hcap : c.overCap s obs.now) :
    (c.step s obs).session.phase = .done ∧ (c.step s obs).session.errorCode = .sessionTimeout := by
  simp [StepConfig.step, hstopping, hcap, StepConfig.fail, StepConfig.finish, StepConfig.enter]

theorem Stopped.finish (h : Stopped s) (c : StepConfig) (obs : Observation) (nextIn : Duration) :
    Stopped (c.finish { session := s, nextIn := nextIn } obs.sandboxes obs.now).session := by
  refine ⟨h.requested, h.errorCode, fun _ => ?_⟩
  simp [StepConfig.finish, StepConfig.enter, terminalState, h.requested, h.errorCode]

/-- **One step** keeps to the stop exactly when it leaves the grace, and then the session
is stopped after it. -/
theorem step_stops_iff (h : Stopped s) (obs : Observation) :
    (KeepsStop c s obs ↔ LeavesGrace c s obs) ∧
      (LeavesGrace c s obs → Stopped (c.step s obs).session) := by
  by_cases hstopping : s.phase = .stopping
  · cases hcap : c.overCap s obs.now with
    | true =>
      obtain ⟨hdone, hcode⟩ := step_overCap hstopping hcap
      refine ⟨⟨fun hkeeps => ?_, fun hgrace => ?_⟩, fun hgrace => ?_⟩
      · have hunset := (hkeeps.1 hdone).2
        rw [hcode] at hunset
        cases hunset
      · cases hcap.symm.trans (hgrace hstopping).1
      · cases hcap.symm.trans (hgrace hstopping).1
    | false =>
      have hdeadline : LeavesGrace c s obs ↔ (obs.sandboxes.any liveSandbox →
          timedOut s obs.now → c.timeouts.stopGrace ≤ obs.now - s.phaseStartedAt) := by
        simp [LeavesGrace, hstopping, hcap]
      unfold KeepsStop
      rw [hdeadline, step_stopping hstopping hcap]
      unfold StepConfig.stepStopping
      by_cases hend : ¬obs.sandboxes.any liveSandbox ∨ timedOut s obs.now
      · rw [if_pos hend]
        have hstopped := h.finish c obs c.reconcileInterval
        refine ⟨⟨fun hkeeps hlive _ => ?_, fun hgrace => ⟨fun hdone => ?_, ?_⟩⟩, fun _ => hstopped⟩
        · obtain ⟨record, hmem, hrecord⟩ := any_eq_true.1 hlive
          exact hkeeps.2 record hmem hrecord
            (mem_foldl_release.2 (.inr ⟨record, hmem, .inr ⟨rfl, .inr hrecord⟩⟩))
        · exact ⟨hstopped.state hdone, hstopped.errorCode⟩
        · intro record hmem hrecord _
          have hlive := any_eq_true.2 ⟨record, hmem, hrecord⟩
          exact hgrace hlive (hend.resolve_left (not_not.2 hlive))
      · rw [if_neg hend]
        rw [not_or] at hend
        have hphase : s.phase ≠ .done := by simp [hstopping]
        refine ⟨iff_of_true ?_ fun _ hout => absurd hout hend.2, fun _ => ?_⟩
        · split
          · rename_i hpassed
            exact ⟨fun hdone => absurd hdone hphase, fun _ _ _ _ => hpassed⟩
          · exact ⟨fun hdone => absurd hdone hphase, fun _ _ _ hact => by cases hact⟩
        · split <;> exact h
  · have hgrace : LeavesGrace c s obs := fun hphase => absurd hphase hstopping
    suffices hstep : KeepsStop c s obs ∧ Stopped (c.step s obs).session from
      ⟨iff_of_true hstep.1 hgrace, fun _ => hstep.2⟩
    unfold KeepsStop StepConfig.step
    by_cases hdone : s.phase = .done
    · simp only [if_pos hdone]
      exact ⟨⟨fun _ => ⟨h.state hdone, h.errorCode⟩, fun _ _ _ hact => by cases hact⟩, h⟩
    · simp only [if_neg hdone, if_pos (And.intro h.requested hstopping)]
      by_cases hlive : obs.sandboxes.any liveSandbox
      · simp only [hlive]
        refine ⟨⟨fun hphase => ?_, fun _ _ _ hact => ?_⟩, h.requested, h.errorCode, ?_⟩
        · cases hphase
        · simp [Decision.add] at hact
        · intro hphase
          cases hphase
      · simp only [hlive]
        have hstopped := h.finish c obs c.reconcileInterval
        refine ⟨⟨fun hphase => ⟨hstopped.state hphase, hstopped.errorCode⟩, ?_⟩, hstopped⟩
        exact fun record hmem hrecord _ =>
          absurd (any_eq_true.2 ⟨record, hmem, hrecord⟩) hlive

/-- **A user's stop ends as a stop** in exactly the runs that leave the grace: in stopping
no step finds the cap on running time reached, or a live sandbox past the deadline of the
phase before the grace. -/
theorem stop_kept_iff (c : StepConfig) (s : Session) (hphase : s.phase ≠ .done)
    (hcode : s.errorCode = .unset) (hrequested : s.stopRequested = true)
    (observations : List Observation) :
    (∀ pass ∈ c.looks s observations, KeepsStop c pass.1 pass.2) ↔
      ∀ pass ∈ c.looks s observations, LeavesGrace c pass.1 pass.2 := by
  have hstopped : Stopped s := ⟨hrequested, hcode, fun hdone => absurd hdone hphase⟩
  clear hphase hcode hrequested
  induction observations generalizing s with
  | nil => simp [StepConfig.looks]
  | cons obs rest ih =>
    obtain ⟨hiff, hnext⟩ := step_stops_iff (c := c) hstopped obs
    simp only [StepConfig.looks, forall_mem_cons]
    rw [hiff]
    exact and_congr_right fun hgrace => ih _ (hnext hgrace)

def hourlyConfig : StepConfig where
  timeouts := ⟨minute, minute, minute, minute, minute, 120 * minute, 0, minute, minute, minute,
    60 * minute⟩
  retries := ⟨0, 0, 0⟩
  reconcileInterval := 5 * second
  maxSessions := 0
  workspaceSessions := 0

def stoppedSession : Session :=
  { id := "s-1", workspaceKey := "acme", phase := .running, stopRequested := true
    sandboxID := "sb-1", turnStartedAt := some 0 }

def seenLive (now : Time) : Observation :=
  { now := now, sandboxes := [{ id := "sb-1", phase := .running }] }

/-- Stopped ten minutes into its turn, and seen again after the grace. -/
theorem stop_kept_early :
    (hourlyConfig.step stoppedSession (seenLive (10 * minute))).session.phase = .stopping ∧
    ∀ pass ∈ hourlyConfig.looks stoppedSession
      [seenLive (10 * minute), seenLive (11 * minute)],
      KeepsStop hourlyConfig pass.1 pass.2 := by
  refine ⟨by decide, (stop_kept_iff hourlyConfig stoppedSession (by decide) rfl rfl _).2 ?_⟩
  unfold LeavesGrace
  decide

/-- **A stop ends in an error.** Stopped an hour into its turn, the session enters stopping and
its hour is accounted; a second later it ends with `sessionTimeout`, and its live sandbox is
stopped without the grace. -/
theorem stop_ends_in_error :
    ((hourlyConfig.looks stoppedSession
      [seenLive (60 * minute), seenLive (60 * minute + second)]).map fun pass =>
        let d := hourlyConfig.step pass.1 pass.2
        (d.session.phase, d.session.state, d.session.errorCode, d.actions)) =
      [(.stopping, .stopping, .unset, [⟨.enqueueStop, ""⟩]),
        (.done, .error, .sessionTimeout,
          [⟨.stopSandbox, "sb-1"⟩, ⟨.revokeTokens, "sb-1"⟩])] ∧
    ¬KeepsStop hourlyConfig
      (hourlyConfig.step stoppedSession (seenLive (60 * minute))).session
      (seenLive (60 * minute + second)) := by
  unfold KeepsStop
  decide

end Flow.Ports.Coding
