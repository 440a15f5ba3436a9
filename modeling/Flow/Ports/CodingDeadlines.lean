import Flow.Ports.CodingOperations

/-!
# Phase deadlines

A phase with a timeout sets a deadline on the session, and a reconciler pass that
finds it passed moves the session on.  The guards that a step tests before the
timeout move it as well: a stop request, the cap on running time, a lost sandbox, a
silent runner, free capacity.

One guard keeps the session where it is.  An idle session with a turn in its inbox
and a warm sandbox waits for the runner of that sandbox to ask for the turn, and this
is tested before the deadline.  A live runner that does not ask leaves the session
idle for good: heartbeats are expected only during setup and turns.
-/

namespace Flow.Ports.Coding

variable {c : StepConfig} {s : Session} {d : Decision} {obs : Observation} {now : Time}

/-- The session is idle, has a turn to run and a warm sandbox for it, and neither a
stop request nor the cap on running time ends it. -/
def StepConfig.parked (c : StepConfig) (s : Session) (obs : Observation) : Bool :=
  s.phase = .idle ∧ s.stopRequested = false ∧ c.overCap s obs.now = false ∧
    0 < obs.pendingTurns ∧ aliveSandbox (currentSandbox s obs.sandboxes)

/-! ## Where the ways out lead -/

@[simp] theorem finish_phase (sandboxes : List Sandbox) :
    (c.finish d sandboxes now).session.phase = .done := rfl

@[simp] theorem fail_phase (sandboxes : List Sandbox) (code : ErrorCode) (message : String) :
    (c.fail d sandboxes code message now).session.phase = .done := rfl

@[simp] theorem requeue_phase (sandboxes : List Sandbox) :
    (c.requeue d sandboxes now).session.phase = .queued := rfl

@[simp] theorem schedule_session : (c.schedule d now).session = d.session := rfl

theorem startFailed_phase_ne (sandboxes : List Sandbox) (current : Sandbox) (code : ErrorCode)
    (message : String) :
    (c.startFailed d sandboxes current code message now).session.phase ≠ .starting := by
  unfold StepConfig.startFailed
  split
  · exact nofun
  · exact nofun

theorem stepQueued_phase_ne (hdeadline : timedOut d.session obs.now) :
    (c.stepQueued d obs).session.phase ≠ .queued := by
  unfold StepConfig.stepQueued
  dsimp only
  split
  · exact nofun
  · split
    · exact nofun
    · split
      · exact nofun
      · exact nofun

theorem stepStarting_phase_ne (current : Option Sandbox) (hdeadline : timedOut d.session obs.now) :
    (c.stepStarting d current obs).session.phase ≠ .starting := by
  unfold StepConfig.stepStarting
  cases current with
  | none => exact nofun
  | some record =>
    dsimp only
    split
    · exact startFailed_phase_ne _ _ _ _
    · exact startFailed_phase_ne _ _ _ _

theorem stepIdle_phase_ne_iff (current : Option Sandbox) (hphase : d.session.phase = .idle)
    (hdeadline : timedOut d.session obs.now) :
    (c.stepIdle d current obs).session.phase ≠ .idle ↔
      ¬ (0 < obs.pendingTurns ∧ aliveSandbox current) := by
  unfold StepConfig.stepIdle
  by_cases hturns : 0 < obs.pendingTurns
  · cases halive : aliveSandbox current with
    | false => simp [hturns]
    | true => simp [hturns, hphase]
  · simp [hturns, hdeadline]

/-- What depends on the phase alone moves a session past its deadline, unless it is idle with a
turn for a warm sandbox. -/
theorem stepPhase_phase_ne_iff (current : Option Sandbox) (hdone : d.session.phase ≠ .done)
    (hdeadline : timedOut d.session obs.now) :
    (c.stepPhase d current obs).session.phase ≠ d.session.phase ↔
      ¬ (d.session.phase = .idle ∧ 0 < obs.pendingTurns ∧ aliveSandbox current) := by
  unfold StepConfig.stepPhase
  dsimp only
  cases hphase : d.session.phase with
  | queued => simp [stepQueued_phase_ne hdeadline]
  | starting => simp [stepStarting_phase_ne current hdeadline]
  | idle => simpa using stepIdle_phase_ne_iff current hphase hdeadline
  | stopping => simp [StepConfig.stepStopping, hdeadline]
  | done => exact absurd hphase hdone
  | _ => simp [hdeadline]

theorem step_session_of_parked (h : c.parked s obs) : (c.step s obs).session = s := by
  obtain ⟨hphase, hstop, hcap, hturns, halive⟩ := of_decide_eq_true h
  have hlost : sandboxLost s (currentSandbox s obs.sandboxes) = none := by
    simp [sandboxLost, hphase]
  have hrunner : c.runnerLost s (currentSandbox s obs.sandboxes) obs = false := by
    simp [StepConfig.runnerLost, hphase]
  simp [StepConfig.step, StepConfig.stepPhase, StepConfig.stepIdle, hphase, hstop, hcap, hlost,
    hrunner, hturns, halive]

/-- **A deadline is effective unless the session waits for a warm runner.**  The
guards before the phase all move the session; without them its phase decides. -/
theorem deadline_effective_iff (c : StepConfig) (s : Session) (obs : Observation)
    (hdone : s.phase ≠ .done) (hdeadline : timedOut s obs.now) :
    (c.step s obs).session.phase ≠ s.phase ↔ ¬ c.parked s obs := by
  constructor
  · intro hne hparked
    exact hne (congrArg Session.phase (step_session_of_parked hparked))
  intro hparked
  unfold StepConfig.step
  rw [if_neg hdone]
  split
  · next hstop =>
      split
      · exact hdone.symm
      · exact hstop.2.symm
  · next hstop =>
      split
      · exact hdone.symm
      · next hcap =>
          split
          · exact hdone.symm
          · split
            · exact hdone.symm
            · apply (stepPhase_phase_ne_iff _ hdone hdeadline).mpr
              rintro ⟨hidle, hturns, halive⟩
              change s.phase = .idle at hidle
              refine hparked (decide_eq_true ⟨hidle, ?_, ?_, hturns, halive⟩)
              · simpa [hidle] using hstop
              · simpa using hcap

/-- A session that went idle at 0 with a warm sandbox. -/
def idleSession : Session :=
  defaultConfig.enter { id := "s-1", workspaceKey := "acme", sandboxID := "sb-1" } .idle 0

def afterIdle (pendingTurns : Nat) : Observation :=
  { now := 16 * minute, pendingTurns := pendingTurns
    sandboxes := [{ id := "sb-1", phase := .running }] }

/-- Without a turn in its inbox the session is moved. -/
theorem deadline_ends_idle :
    idleSession.phase ≠ .done ∧ timedOut idleSession (afterIdle 0).now ∧
      ((defaultConfig.step idleSession (afterIdle 0)).session.phase ≠ idleSession.phase ↔
        ¬ defaultConfig.parked idleSession (afterIdle 0)) :=
  ⟨by decide, by decide,
    deadline_effective_iff defaultConfig idleSession (afterIdle 0) (by decide) (by decide)⟩

/-- With one it stays idle past its deadline. -/
theorem deadline_ignored :
    ¬∀ (c : StepConfig) (s : Session) (obs : Observation), s.phase ≠ .done →
      timedOut s obs.now → (c.step s obs).session.phase ≠ s.phase := by
  intro hall
  exact hall defaultConfig idleSession (afterIdle 1) (by decide) (by decide) (by decide)

end Flow.Ports.Coding
