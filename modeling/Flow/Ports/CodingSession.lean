import Mathlib.Data.List.Basic

/-!
# Coding sessions: the document, the phases and `enter`

The document of one coding session, the records of its sandboxes, the policy of each
phase and the table of declared phase changes, as `internal/domain/coding.go`,
`internal/sandbox` and `internal/coding/phases.go` have them, and `enter`, through
which the machine moves a session.

Instants and durations are nanoseconds.  A Go string whose zero value means "not set"
keeps `""`; an enumeration whose zero value is the empty string has the constructor
`unset`.  Fields that no function of this development reads are left out.
-/

namespace Flow.Ports.Coding

/-- An instant, in nanoseconds. -/
abbrev Time := Int

/-- A span of time, in nanoseconds. -/
abbrev Duration := Int

def second : Duration := 1000000000

def minute : Duration := 60 * second

/-- `Duration.Milliseconds`: whole milliseconds, rounded toward zero. -/
def milliseconds (d : Duration) : Int := d.tdiv 1000000

/-! ## Phases -/

inductive Phase where
  | awaitingApproval
  | queued
  | provisioning
  | starting
  | setup
  | running
  | awaitingUser
  | publishing
  | idle
  | stopping
  | done
deriving DecidableEq, Repr

/-- The state shown to users; `unset` is the state of a document that has not
entered a phase. -/
inductive State where
  | unset
  | pending
  | active
  | stopping
  | complete
  | awaitingInput
  | error
  | stale
deriving DecidableEq, Repr

/-- The error codes; a runner may report one that is not listed. -/
inductive ErrorCode where
  | unset
  | noCodeAccess
  | noGitHubConnection
  | noGitLabConnection
  | missingCommitSigningKey
  | noPolicyRepos
  | personalAccessDenied
  | githubTransientError
  | gitlabTransientError
  | repoNotInPolicy
  | requiresGithubConnection
  | requiresGitlabConnection
  | quotaExceeded
  | permissionDenied
  | approvalExpired
  | capacityUnavailable
  | sandboxDisabled
  | sandboxStartFailed
  | imagePullFailed
  | unschedulable
  | environmentSetupFailed
  | snapshotFailed
  | runnerLost
  | sandboxLost
  | turnTimeout
  | sessionTimeout
  | harnessFailed
  | modelUnavailable
  | pushFailed
  | pullRequestFailed
  | signingFailed
  | internal
  | other (code : String)
deriving DecidableEq, Repr

structure Timeouts where
  queue : Duration
  approval : Duration
  provision : Duration
  start : Duration
  setup : Duration
  turn : Duration
  heartbeat : Duration
  publish : Duration
  idle : Duration
  stopGrace : Duration
  maxSession : Duration
deriving DecidableEq, Repr

structure Retries where
  provision : Int
  start : Int
  publish : Int
deriving DecidableEq, Repr

/-- The contract of one phase.  `Retries` of the source's policy is read by
nothing and left out. -/
structure PhasePolicy where
  state : State
  timeout : Duration
  onTimeout : ErrorCode
deriving DecidableEq, Repr

def phasePolicies (t : Timeouts) : Phase → PhasePolicy
  | .awaitingApproval => ⟨.awaitingInput, t.approval, .approvalExpired⟩
  | .queued => ⟨.pending, t.queue, .capacityUnavailable⟩
  | .provisioning => ⟨.pending, t.provision, .sandboxStartFailed⟩
  | .starting => ⟨.pending, t.start, .sandboxStartFailed⟩
  | .setup => ⟨.active, t.setup, .environmentSetupFailed⟩
  | .running => ⟨.active, t.turn, .turnTimeout⟩
  | .awaitingUser => ⟨.awaitingInput, t.approval, .approvalExpired⟩
  | .publishing => ⟨.active, t.publish, .pullRequestFailed⟩
  | .idle => ⟨.complete, t.idle, .unset⟩
  | .stopping => ⟨.stopping, t.stopGrace * 2, .unset⟩
  | .done => ⟨.unset, 0, .unset⟩

/-- The declared phase changes, apart from the ones to stopping and done. -/
def transitions : Phase → List Phase
  | .awaitingApproval => [.queued]
  | .queued => [.provisioning]
  | .provisioning => [.starting, .awaitingUser]
  | .starting => [.setup, .running, .provisioning]
  | .setup => [.running]
  | .running => [.awaitingUser, .publishing, .idle]
  | .awaitingUser => [.running, .queued]
  | .publishing => [.idle, .running]
  | .idle => [.running, .queued]
  | .stopping => [.done]
  | .done => [.queued]

def canTransition (src dst : Phase) : Bool :=
  (src ≠ .done ∧ src ≠ .stopping ∧ (dst = .stopping ∨ dst = .done)) ∨
    dst ∈ transitions src

def terminalState (errorCode : ErrorCode) (stoppedByUser : Bool) : State :=
  if errorCode ≠ .unset then .error
  else if stoppedByUser then .stale
  else .complete

/-- The loop of `Backoff`, on the doublings that are left. -/
def backoffFrom (delay : Duration) : Nat → Duration
  | 0 => delay
  | n + 1 => if delay < minute then backoffFrom (delay * 2) n else delay

def backoff (attempt : Nat) : Duration := min (backoffFrom (2 * second) attempt) minute

inductive Kind where
  | session
  | snapshot
  | debug
  | warm
deriving DecidableEq, Repr

inductive Desired where
  | running
  | stopped
deriving DecidableEq, Repr

inductive SandboxPhase where
  | pending
  | starting
  | running
  | succeeded
  | failed
  | missing
deriving DecidableEq, Repr

def SandboxPhase.text : SandboxPhase → String
  | .pending => "pending"
  | .starting => "starting"
  | .running => "running"
  | .succeeded => "succeeded"
  | .failed => "failed"
  | .missing => "missing"

inductive Reason where
  | unset
  | imagePull
  | unschedulable
  | oomKilled
  | deadlineExceeded
  | evicted
  | initFailed
  | exitNonZero
  | quota
  | startFailed
  | unknown
deriving DecidableEq, Repr

structure Sandbox where
  id : String
  kind : Kind := .session
  desired : Desired := .running
  phase : SandboxPhase := .pending
  reason : Reason := .unset
  message : String := ""
  endedAt : Option Time := none
  heartbeatAt : Option Time := none
deriving DecidableEq, Repr

def liveSandbox (record : Sandbox) : Bool :=
  record.endedAt = none ∧ record.phase ≠ .succeeded ∧ record.phase ≠ .failed ∧
    record.phase ≠ .missing

def goneSandbox (record : Sandbox) : Bool :=
  record.desired = .running ∧
    (record.phase = .failed ∨ record.phase = .missing ∨ record.phase = .succeeded)

/-- The gate of trusted external sources. -/
inductive ApprovalState where
  | unset
  | required
  | approved
  | rejected
deriving DecidableEq, Repr

structure PlanStep where
  content : String
  status : String
deriving DecidableEq, Repr

structure DiffSummary where
  path : String
  additions : Int
  deletions : Int
  status : String
deriving DecidableEq, Repr

/-- A tool step of the running turn. -/
structure SessionStep where
  turnID : String
  action : String
  parameter : String
  time : Time
deriving DecidableEq, Repr

structure ExternalURL where
  label : String
  url : String
deriving DecidableEq, Repr

/-- A linked pull or merge request: the fields its links are found, merged
and closed by. -/
structure PullRequest where
  codeHost : String
  hostName : String
  repository : String
  number : Int
  url : String := ""
  state : String := "open"
  headSHA : String := ""
  updatedAt : Time := 0
deriving DecidableEq, Repr

structure Session where
  id : String
  workspaceKey : String
  creatorID : String := ""
  source : String := ""
  environmentID : String := ""
  snapshotID : String := ""
  state : State := .unset
  phase : Phase := .queued
  modelSelection : String := ""
  model : String := ""
  modelReason : String := ""
  displayTitle : String := ""
  summary : String := ""
  plan : List PlanStep := []
  externalURLs : List ExternalURL := []
  diffs : List DiffSummary := []
  codeHost : String := ""
  repository : String := ""
  pullRequests : List PullRequest := []
  latestPullRequest : Option PullRequest := none
  errorCode : ErrorCode := .unset
  error : String := ""
  approvalState : ApprovalState := .unset
  approvedBy : String := ""
  version : Nat := 1
  startedAt : Option Time := none
  endedAt : Option Time := none
  phaseStartedAt : Time := 0
  phaseDeadline : Option Time := none
  attempts : Nat := 0
  sandboxAttempts : Nat := 0
  stopRequested : Bool := false
  stoppedBy : String := ""
  sandboxID : String := ""
  currentTurnID : String := ""
  lastTurnID : String := ""
  turnStartedAt : Option Time := none
  currentStep : Option SessionStep := none
  archivedAt : Option Time := none
  runningMillis : Int := 0
  harnessResumeID : String := ""
  headSHA : String := ""
  pushed : Bool := false
  existingBranch : Bool := false
  branchPushed : Bool := false
  nextReconcileAt : Time := 0
deriving DecidableEq, Repr

def currentSandbox (s : Session) (sandboxes : List Sandbox) : Option Sandbox :=
  sandboxes.find? fun record => record.id = s.sandboxID ∧ s.sandboxID ≠ ""

/-! ## Moving a session to a phase -/

/-- The configuration that the machine reads. -/
structure StepConfig where
  timeouts : Timeouts
  retries : Retries
  reconcileInterval : Duration
  maxSessions : Int
  workspaceSessions : Int
deriving DecidableEq, Repr

def StepConfig.policies (c : StepConfig) : Phase → PhasePolicy := phasePolicies c.timeouts

def StepConfig.deadline (c : StepConfig) (phase : Phase) (now : Time) : Option Time :=
  if 0 < (c.policies phase).timeout then some (now + (c.policies phase).timeout) else none

/-- Moves a session to `phase` at `now`: its state follows the policy of the phase and its
deadline the timeout, the retry counter resets and the time of a running turn is accounted. -/
def StepConfig.enter (c : StepConfig) (s : Session) (phase : Phase) (now : Time) :
    Session :=
  { s with
    runningMillis := match s.turnStartedAt with
      | some start =>
        if s.phase = .running ∧ phase ≠ .running then
          s.runningMillis + max 0 (milliseconds (now - start))
        else s.runningMillis
      | none => s.runningMillis
    turnStartedAt :=
      if s.phase = .running ∧ phase ≠ .running then none
      else if phase = .running ∧ s.phase ≠ .running then some now
      else s.turnStartedAt
    startedAt :=
      if phase = .running ∧ s.phase ≠ .running ∧ s.startedAt = none then some now
      else s.startedAt
    attempts := if phase ≠ s.phase then 0 else s.attempts
    phase := phase
    phaseStartedAt := now
    phaseDeadline := c.deadline phase now
    state :=
      if phase = .done then
        terminalState s.errorCode (s.stopRequested || s.approvalState = .rejected)
      else (c.policies phase).state
    endedAt := if phase = .done then some now else none }

section Enter

variable (c : StepConfig) (s : Session) (phase : Phase) (now : Time)

@[simp] theorem enter_phase : (c.enter s phase now).phase = phase := rfl

@[simp] theorem enter_phaseStartedAt : (c.enter s phase now).phaseStartedAt = now := rfl

@[simp] theorem enter_phaseDeadline :
    (c.enter s phase now).phaseDeadline = c.deadline phase now := rfl

@[simp] theorem enter_version : (c.enter s phase now).version = s.version := rfl

@[simp] theorem enter_sandboxID : (c.enter s phase now).sandboxID = s.sandboxID := rfl

@[simp] theorem enter_sandboxAttempts :
    (c.enter s phase now).sandboxAttempts = s.sandboxAttempts := rfl

@[simp] theorem enter_currentTurnID : (c.enter s phase now).currentTurnID = s.currentTurnID := rfl

@[simp] theorem enter_lastTurnID : (c.enter s phase now).lastTurnID = s.lastTurnID := rfl

@[simp] theorem enter_workspaceKey : (c.enter s phase now).workspaceKey = s.workspaceKey := rfl

@[simp] theorem enter_id : (c.enter s phase now).id = s.id := rfl

@[simp] theorem enter_stopRequested : (c.enter s phase now).stopRequested = s.stopRequested := rfl

@[simp] theorem deadline_done : c.deadline .done now = none := rfl

end Enter

inductive ActionKind where
  | provision
  | publish
  | stopSandbox
  | revokeTokens
  | enqueueStop
deriving DecidableEq, Repr

/-- One side effect that a decision asks for. -/
structure Action where
  kind : ActionKind
  sandboxID : String
deriving DecidableEq, Repr

/-- What an operation decided: the next document, the actions to run before
it is written and when to look at the session again. -/
structure Decision where
  session : Session
  actions : List Action := []
  nextIn : Duration := 0
deriving DecidableEq, Repr

def addAction (actions : List Action) (kind : ActionKind) (sandboxID : String) :
    List Action :=
  if ⟨kind, sandboxID⟩ ∈ actions then actions else actions ++ [⟨kind, sandboxID⟩]

def Decision.add (d : Decision) (kind : ActionKind) (sandboxID : String) : Decision :=
  { d with actions := addAction d.actions kind sandboxID }

def Decision.has (d : Decision) (kind : ActionKind) : Bool :=
  d.actions.any fun action => action.kind = kind

@[simp] theorem add_session (d : Decision) (kind : ActionKind) (id : String) :
    (d.add kind id).session = d.session := rfl

@[simp] theorem addAction_nil (kind : ActionKind) (id : String) :
    addAction [] kind id = [⟨kind, id⟩] := rfl

@[simp] theorem mem_addAction (actions : List Action) (kind : ActionKind) (id : String)
    (a : Action) :
    a ∈ addAction actions kind id ↔ a ∈ actions ∨ a = ⟨kind, id⟩ := by
  unfold addAction
  split
  · rename_i hmem
    constructor
    · exact Or.inl
    · rintro (h | rfl)
      · exact h
      · exact hmem
  · simp

end Flow.Ports.Coding
