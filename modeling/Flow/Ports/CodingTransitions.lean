import Flow.Ports.CodingMoves
import Mathlib.Data.List.Chain

/-!
# Declared phase changes

`canTransition` is the table of phase changes a session may make.  Nothing in
the service consults it, so that every change is declared is a property of
all the operations together.

It holds for every operation but one.  A turn completion enters the phase its
status asks for without looking at the phase the session is in: a turn that
completes while the session is still in setup, or waits for an answer, moves
it by a change the table does not have.
-/

namespace Flow.Ports.Coding

open Flow.Verified.Run

def Declared (path : List Phase) : Prop :=
  path.IsChain fun src dst => src = dst ∨ canTransition src dst

instance (path : List Phase) : Decidable (Declared path) :=
  inferInstanceAs (Decidable (List.IsChain _ path))

def completesInOrder (s : Session) (request : TurnCompleteRequest) : Bool :=
  s.stopRequested || s.phase = .stopping ||
    match request.status with
    | .success =>
      s.phase = .running || s.phase = .publishing ||
        s.phase = .idle && !((s.pushed || request.pushed) && publishesTurn request)
    | .awaitingInput =>
      s.phase = .running || s.phase = .provisioning || s.phase = .awaitingUser
    | .stopped => s.phase ≠ .done
    | .error => true

def Operation.inOrder (s : Session) : Operation → Bool
  | .completeTurn _ _ _ request _ => completesInOrder s request
  | _ => true

theorem declared_pair {p q : Phase} : Declared [p, q] ↔ p = q ∨ canTransition p q := by
  simp [Declared]

theorem Moves.declared {c : StepConfig} {now : Time} {s t : Session}
    (h : Moves c now s t) : s.phase = t.phase ∨ canTransition s.phase t.phase := by
  cases h with
  | kept h => exact .inl (Session.phase_eq_of_clock h).symm
  | entered b phase hb ht hdeclared =>
    right
    rw [Session.phase_eq_of_clock ht]
    exact hdeclared

theorem reconcile_declared (svc : Service) (sandboxes : List Sandbox) (s : Session)
    (obs : Observation) (provisioned : ProvisionOutcome) (published : PublishOutcome) :
    Declared [s.phase, (svc.step.step s { obs with sandboxes := sandboxes }).session.phase,
      (svc.step.stepProvision s { obs with sandboxes := sandboxes } provisioned).session.phase,
      (svc.step.reconcile s { obs with sandboxes := sandboxes } provisioned
        published).session.phase] := by
  obtain ⟨hstep, hprovision, hpublish⟩ := reconcile_moves svc.step s
    { obs with sandboxes := sandboxes } provisioned published
  simp only [Declared, List.isChain_cons_cons]
  exact ⟨hstep.declared, hprovision.declared, hpublish.declared, by simp⟩

/-- The phases from which entering idle, publishing or awaitingUser is a declared
change, or none. -/
theorem enter_idle_iff (p : Phase) : p = .idle ∨ canTransition p .idle ↔
    p = .running ∨ p = .publishing ∨ p = .idle := by
  cases p <;> decide

theorem enter_publishing_iff (p : Phase) : p = .publishing ∨ canTransition p .publishing ↔
    p = .running ∨ p = .publishing := by
  cases p <;> decide

theorem enter_awaitingUser_iff (p : Phase) : p = .awaitingUser ∨ canTransition p .awaitingUser ↔
      p = .running ∨ p = .provisioning ∨ p = .awaitingUser := by
  cases p <;> decide

theorem enter_stopping_iff (p : Phase) : p = .stopping ∨ canTransition p .stopping ↔ p ≠ .done := by
  cases p <;> decide

theorem enter_done (p : Phase) : p = .done ∨ canTransition p .done := by
  cases p <;> decide

/-- A completion makes a declared change exactly when it is in order. -/
theorem completion_declared_iff (s : Session) (turnID : String) (request : TurnCompleteRequest) :
    (∀ phase, completionPhase (reportTurn s turnID request) request = some phase →
      s.phase = phase ∨ canTransition s.phase phase) ↔ completesInOrder s request := by
  have hreport : completionPhase (reportTurn s turnID request) request =
      completionPhase { s with pushed := s.pushed || request.pushed } request := by
    simp [completionPhase]
  rw [hreport]
  unfold completionPhase completesInOrder
  by_cases hstop : s.stopRequested ∨ s.phase = .stopping
  · rcases hstop with hstop | hstop <;> simp [hstop]
  · rw [if_neg hstop]
    have hrequested : s.stopRequested = false := by simpa using fun h => hstop (.inl h)
    have hstopping : s.phase ≠ .stopping := fun h => hstop (.inr h)
    simp only [hrequested, hstopping]
    cases request.status with
    | success =>
      by_cases hpublish : (s.pushed || request.pushed) ∧ publishesTurn request
      · simp only [if_pos hpublish, Option.some.injEq, forall_eq']
        rw [enter_publishing_iff]
        simp [hpublish.1, hpublish.2]
      · simp only [if_neg hpublish, Option.some.injEq, forall_eq']
        rw [enter_idle_iff]
        have hfalse : ((s.pushed || request.pushed) && publishesTurn request) = false := by
          simpa using hpublish
        simp [hfalse, or_assoc]
    | awaitingInput =>
      simp only [Option.some.injEq, forall_eq']
      rw [enter_awaitingUser_iff]
      simp [or_assoc]
    | stopped =>
      simp only [Option.some.injEq, forall_eq']
      rw [enter_stopping_iff]
      simp
    | error => simp [enter_done]

/-- **Every phase change is declared, except out-of-order completions.** -/
theorem path_declared_iff (svc : Service) (sandboxes : List Sandbox) (s : Session)
    (op : Operation) (d : Decision) (h : op.run svc sandboxes s = some d) :
    Declared (op.path svc sandboxes s d.session) ↔ op.inOrder s := by
  cases op with
  | reconcile obs provisioned published =>
    cases h
    simp only [Operation.inOrder, iff_true]
    exact reconcile_declared svc sandboxes s obs provisioned published
  | events sandboxID patch now =>
    simp only [Operation.run] at h
    split at h
    · cases h
    · cases h
      simp only [Operation.inOrder, iff_true]
      show Declared [s.phase, _, _]
      simp only [Declared, List.isChain_cons_cons]
      exact ⟨(patchRunning_moves patch).declared, (patchApply_moves patch).declared, by simp⟩
  | completeTurn grant turnID retried request now =>
    show Declared [s.phase, d.session.phase] ↔ completesInOrder s request
    rw [← completion_declared_iff s turnID request, declared_pair]
    rcases completeTurn_clock h with ⟨hnone, hclock⟩ | ⟨b, phase, hsome, -, hclock⟩
    · rw [Session.phase_eq_of_clock hclock]
      simp [hnone]
    · have hphase : d.session.phase = phase := Session.phase_eq_of_clock hclock
      simp [hsome, hphase]
  | archive userID now =>
    obtain ⟨t, ht, rfl⟩ := Option.map_eq_some_iff.1 h
    simp only [Operation.inOrder, iff_true]
    apply declared_pair.2
    rcases archive_clock ht with ⟨-, hclock⟩ | ⟨-, hclock⟩
    · exact .inl (Session.phase_eq_of_clock hclock).symm
    · rw [Session.phase_eq_of_clock hclock]
      exact enter_done s.phase
  | pullRequestState event link now =>
    cases h
    simp only [Operation.inOrder, iff_true]
    apply declared_pair.2
    rcases dispatchState_clock event link with ⟨-, hclock⟩ | ⟨-, -, hclock⟩
    · exact .inl (Session.phase_eq_of_clock hclock).symm
    · rw [Session.phase_eq_of_clock hclock]
      exact enter_done s.phase
  | selectEnvironment environmentID codeHost repository now =>
    obtain ⟨t, ht, rfl⟩ := Option.map_eq_some_iff.1 h
    simp only [Operation.inOrder, iff_true]
    apply declared_pair.2
    rcases selectEnvironment_clock ht with ⟨-, hclock⟩ | ⟨hwaiting, hclock⟩
    · exact .inl (Session.phase_eq_of_clock hclock).symm
    · have hqueued : t.phase = .queued := congrArg Clock.phase hclock
      rw [hqueued, hwaiting]
      decide
  | _ =>
    simp only [Operation.inOrder, iff_true]
    exact declared_pair.2 (quiet_moves rfl h).declared

def settingUp : Session :=
  defaultService.step.enter
    { defaultService.step.enter
        { defaultService.start ⟨"s-1", "acme", "u-1", "issue", "env-1", "auto", "Fix", false,
            false, none⟩ 0 with sandboxID := "sb-1" } .starting minute with
      currentTurnID := "turn-1", version := 3 } .setup (2 * minute)

def succeeded : TurnCompleteRequest := { status := .success }

theorem running_to_idle :
    Declared (Operation.path defaultService [{ id := "sb-1" }]
      (defaultService.step.enter settingUp .running (3 * minute))
      (defaultService.completeDecision
        (defaultService.step.enter settingUp .running (3 * minute)) [{ id := "sb-1" }] "turn-1"
        succeeded (4 * minute)).session
      (.completeTurn "sb-1" "turn-1" false succeeded (4 * minute))) :=
  (path_declared_iff defaultService [{ id := "sb-1" }]
    (defaultService.step.enter settingUp .running (3 * minute))
    (.completeTurn "sb-1" "turn-1" false succeeded (4 * minute)) _ rfl).2 (by decide)

/-- **A turn that completes while the session is in setup takes it to idle**,
which the table does not declare. -/
theorem setup_to_idle :
    ¬∀ (svc : Service) (input : StartInput) (time : Time) (s : Session) (op : Operation)
        (sandboxes : List Sandbox) (d : Decision),
      Reaches (advance svc) Unrestricted (svc.start input time) s →
      op.run svc sandboxes s = some d → Declared (op.path svc sandboxes s d.session) := by
  intro hall
  have hrun : Reaches (advance defaultService) Unrestricted
      (defaultService.start ⟨"s-1", "acme", "u-1", "issue", "env-1", "auto", "Fix", false,
        false, none⟩ 0) settingUp :=
    reaches_of_exec
      [(.reconcile { now := minute } { sandboxID := "sb-1" } {}, []),
        (.bootstrap "sb-1" (some "turn-1") false (2 * minute), [{ id := "sb-1" }])]
      _ _ (by decide)
  have hpath := hall defaultService _ _ settingUp
    (.completeTurn "sb-1" "turn-1" false succeeded (3 * minute)) [{ id := "sb-1" }] _ hrun rfl
  revert hpath
  decide

/-- The operations that can take a session out of done. -/
def Operation.reopens : Operation → Bool
  | .prompt .. | .restart .. | .startOver .. => true
  | .completeTurn _ _ retried _ _ => retried
  | _ => false

theorem run_clock_of_done {svc : Service} {sandboxes : List Sandbox} {s : Session} {d : Decision}
    {op : Operation} (hdone : s.phase = .done) (hop : op.reopens = false)
    (h : op.run svc sandboxes s = some d) : d.session.clock = s.clock := by
  have halong {edges : List (Phase × Phase)} (hquiet : op.quiet) (hedges : op.edges = some edges)
      (hstays : ∀ edge ∈ edges, edge.1 ≠ .done) : d.session.clock = s.clock := by
    cases quiet_along hquiet hedges h with
    | kept hclock => exact hclock
    | entered b p q hs hb ht hedge => exact absurd (hs.symm.trans hdone) (hstays _ hedge)
  cases op with
  | reconcile =>
    cases h
    simp [StepConfig.reconcile, StepConfig.stepProvision, StepConfig.step, hdone, Decision.has]
  | events =>
    obtain ⟨_, ⟨⟩⟩ := Option.ite_none_left_eq_some.1 h
    simp [Service.patchApply, Service.patchRunning, hdone, Session.clock]
  | completeTurn =>
    cases hop
    simp [Operation.run, Service.completeTurn, hdone] at h
  | failSession => exact absurd hdone (Option.ite_none_left_eq_some.1 h).1
  | archive =>
    obtain ⟨t, ht, rfl⟩ := Option.map_eq_some_iff.1 h
    exact ((archive_clock ht).resolve_right fun hidle => by simp [hdone] at hidle).2
  | pullRequestState event link =>
    cases h
    exact ((dispatchState_clock event link).resolve_right fun hidle => by simp [hdone] at hidle).2
  | selectEnvironment =>
    obtain ⟨t, ht, rfl⟩ := Option.map_eq_some_iff.1 h
    exact ((selectEnvironment_clock ht).resolve_right fun hw => by simp [hdone] at hw).2
  | _ => first | exact halong rfl rfl (by decide) | cases hop

/-- `CreatePullRequest`: `commits` tells whether the store has commits of the session, and
`published` is what `publish` answered for the branch. -/
def createPullRequest (branchName : String) (commits : Bool) (published : PublishOutcome)
    (s : Session) : Option Session :=
  if s.repository = "" ∨ branchName = "" then none
  else if !s.pushed && !s.existingBranch && s.pullRequests.isEmpty && !commits then none
  else if s.phase ≠ .idle ∧ s.phase ≠ .done ∧ s.phase ≠ .awaitingUser then none
  else if published.code ≠ .unset then none
  else
    let s := published.applyTo s
    if s.errorCode = .pullRequestFailed ∨ s.errorCode = .pushFailed then
      some { s with
        errorCode := .unset, error := "", state := terminalState .unset s.stopRequested }
    else some s

/-- What may be asked of a finished session: an operation, or a pull request for its branch. -/
inductive DoneCall where
  | operation (op : Operation) (sandboxes : List Sandbox)
  | createPullRequest (branchName : String) (commits : Bool) (published : PublishOutcome)
deriving DecidableEq, Repr

def DoneCall.reopens : DoneCall → Bool
  | .operation op _ => op.reopens
  | .createPullRequest .. => false

def DoneCall.advance (svc : Service) (s : Session) : DoneCall → Option Session
  | .operation op sandboxes => Coding.advance svc s (op, sandboxes)
  | .createPullRequest branchName commits published =>
    (Coding.createPullRequest branchName commits published s).map (writeDocument s)

/-- The clock of a session that ended with the clock `ended`: its state may have changed since,
but not to an error. -/
structure EndedAs (ended : Clock) (s : Session) : Prop where
  clock : s.clock = { ended with state := s.state }
  state : s.state = ended.state ∨ s.state ≠ .error

theorem EndedAs.of_clock {ended : Clock} {s t : Session} (hs : EndedAs ended s)
    (h : t.clock = s.clock) : EndedAs ended t := by
  have hstate : t.state = s.state := congrArg Clock.state h
  exact ⟨by rw [h, hs.clock, hstate], hstate ▸ hs.state⟩

theorem PublishOutcome.applyTo_clock (outcome : PublishOutcome) (s : Session) :
    (outcome.applyTo s).clock = s.clock := by
  unfold PublishOutcome.applyTo
  split <;> rfl

theorem terminalState_unset_ne_error (stopped : Bool) :
    terminalState .unset stopped ≠ .error := by
  cases stopped <;> decide

/-- A pull request that is created keeps the clock, or ends the error of a failed publication. -/
theorem createPullRequest_endedAs {ended : Clock} {s t : Session} {branchName : String}
    {commits : Bool} {published : PublishOutcome} (hs : EndedAs ended s)
    (h : createPullRequest branchName commits published s = some t) : EndedAs ended t := by
  have happlied := hs.of_clock (published.applyTo_clock s)
  simp only [createPullRequest, Option.ite_none_left_eq_some] at h
  obtain ⟨-, -, -, -, h⟩ := h
  split at h
  · cases h
    generalize (published.applyTo s).stopRequested = stopped
    exact ⟨congrArg (fun c => { c with state := terminalState .unset stopped }) happlied.clock,
      .inr (terminalState_unset_ne_error stopped)⟩
  · cases h
    exact happlied

/-- **A finished session stays as it ended** in every run without a prompt, a restart, a start
over and a completion that is retried after a lost commit: only an error it ended with can be
taken back, by a pull request that is created later. -/
theorem finished_of_reaches {svc : Service} {s t : Session} (hdone : s.phase = .done)
    (hrun : Reaches (fun s (call : DoneCall) => call.advance svc s)
      (fun _ call => call.reopens = false) s t) :
    EndedAs s.clock t := by
  refine hrun.invariant (P := EndedAs s.clock) (fun t call u ht hop hstep => ?_) ⟨rfl, .inl rfl⟩
  have htdone : t.phase = .done := (congrArg Clock.phase ht.clock).trans hdone
  cases call with
  | operation op sandboxes =>
    obtain ⟨d, hd, rfl⟩ := Option.map_eq_some_iff.1 hstep
    exact ht.of_clock ((writeDocument_clock _ _).trans (run_clock_of_done htdone hop hd))
  | createPullRequest =>
    obtain ⟨v, hv, rfl⟩ := Option.map_eq_some_iff.1 hstep
    exact (createPullRequest_endedAs ht hv).of_clock (writeDocument_clock _ _)

/-- A pass, the pull request that failed, and the archive. -/
theorem finished_archived :
    ∃ t, Reaches (fun s (call : DoneCall) => call.advance defaultService s)
        (fun _ call => call.reopens = false)
        { settingUp with
          phase := .done, state := .error, errorCode := .pullRequestFailed, repository := "web",
          pushed := true, endedAt := some 5 } t ∧
      (t.archivedAt.isSome = true ∧ t.pullRequests.length = 1 ∧ t.state = .complete) ∧
      t.clock.endedAt = some 5 :=
  exists_reaches_and
    [.operation (.reconcile { now := 9 } {} {}) [],
      .createPullRequest "fix" false
        { pullRequest := some ⟨"github", "", "web", 1, "", "open", "", 9⟩ },
      .operation (.archive "u" 9) []] _ (by decide)
    fun t hrun _ => congrArg Clock.endedAt (finished_of_reaches rfl hrun).clock

end Flow.Ports.Coding
