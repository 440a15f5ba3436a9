import Flow.Ports.CodingMachine
import Flow.Verified.Run

/-!
# The operations on a coding session

Every operation that moves a coding session, as a function of the document it is
applied to: the reconciler pass, the runtime calls of the sandbox runner
(`runtime.go`, `events.go`), the requests of members (`service.go`, `triggers.go`)
and the pull request webhook (`webhooks.go`).  An operation fails, and the document
stays, or yields a decision: the document it writes and the sandbox actions it asks
for.  The store applies each to the version it was computed from, so a sequence of
operations is a sequence of applications of `Operation.run`.

The inbox, the activity feed and the notifications are left out here.
-/

namespace Flow.Ports.Coding

/-- The session service: its machine, and the case folding of
`strings.EqualFold`, of which nothing is assumed. -/
structure Service where
  step : StepConfig
  equalFold : String → String → Bool

def defaultConfig : StepConfig where
  timeouts :=
    { queue := 30 * minute, approval := 7 * 24 * 60 * minute, provision := 5 * minute
      start := 10 * minute, setup := 20 * minute, turn := 60 * minute, heartbeat := 2 * minute
      publish := 5 * minute, idle := 15 * minute, stopGrace := minute
      maxSession := 4 * 60 * minute }
  retries := { provision := 3, start := 2, publish := 5 }
  reconcileInterval := 5 * second
  maxSessions := 20
  workspaceSessions := 5

def defaultService : Service :=
  ⟨defaultConfig, fun a b => a.toLower == b.toLower⟩

def isSpace (ch : Char) : Bool :=
  let n := ch.toNat
  9 ≤ n ∧ n ≤ 13 ∨ n = 0x20 ∨ n = 0x85 ∨ n = 0xA0 ∨ n = 0x1680 ∨
    0x2000 ≤ n ∧ n ≤ 0x200a ∨ n = 0x2028 ∨ n = 0x2029 ∨ n = 0x202f ∨ n = 0x205f ∨ n = 0x3000

def trimSpace (text : String) : String :=
  String.ofList (((text.toList.dropWhile isSpace).reverse.dropWhile isSpace).reverse)

def firstLine (text : String) (limit : Nat) : String :=
  let line := (trimSpace text).toList.takeWhile (· ≠ '\n')
  if limit < line.length then String.ofList (line.take (limit - 1) ++ ['…'])
  else String.ofList line

/-! ## Calls of the runner -/

/-- The first call of a session sandbox moves starting to setup, or to running after a restored
snapshot; a session that has moved is left alone. -/
def Service.bootstrapMove (svc : Service) (grant : String) (turn : Option String)
    (restored : Bool) (now : Time) (s : Session) : Option Session :=
  if s.sandboxID ≠ grant then none
  else if s.phase ≠ .starting then some s
  else
    let s := { s with sandboxAttempts := 0, currentTurnID := turn.getD s.currentTurnID }
    some (svc.step.enter s (if restored then .running else .setup) now)

def Service.finishSetup (svc : Service) (now : Time) (s : Session) : Session :=
  if s.phase ≠ .setup then s else svc.step.enter s .running now

/-- The session changes of one batch of runner events. -/
structure SessionPatch where
  plan : Option (List PlanStep) := none
  diffs : Option (List DiffSummary) := none
  summary : String := ""
  errorText : String := ""
  awaiting : Bool := false
  running : Bool := false
  step : Option SessionStep := none
deriving DecidableEq, Repr

def Service.patchRunning (svc : Service) (patch : SessionPatch) (now : Time) (s : Session) :
    Session :=
  let s := { s with
    plan := patch.plan.getD s.plan
    diffs := patch.diffs.getD s.diffs
    summary := if patch.summary ≠ "" then patch.summary else s.summary
    error := if patch.errorText ≠ "" then patch.errorText else s.error
    currentStep := patch.step.or s.currentStep }
  if patch.running ∧ s.phase = .setup then svc.step.enter s .running now else s

def Service.patchApply (svc : Service) (patch : SessionPatch) (now : Time) (s : Session) :
    Session :=
  let s := svc.patchRunning patch now s
  if patch.awaiting ∧ s.phase = .running then svc.step.enter s .awaitingUser now else s

def acceptsTurn (s : Session) : Bool :=
  s.currentTurnID = "" ∧ (s.phase = .idle ∨ s.phase = .awaitingUser ∨ s.phase = .running) ∨
    s.phase = .awaitingUser

/-- The session update of an inbox call that hands out turn `turnID`; `sandboxID` is that of the
document the call read. -/
def Service.inboxMove (svc : Service) (sandboxID turnID : String) (now : Time)
    (s : Session) : Option Session :=
  if s.sandboxID ≠ sandboxID ∨ s.stopRequested then none
  else
    let s := { s with currentTurnID := if s.currentTurnID = "" then turnID else s.currentTurnID }
    some (if s.phase = .idle ∨ s.phase = .awaitingUser then svc.step.enter s .running now else s)

inductive TurnStatus where
  | success
  | error
  | stopped
  | awaitingInput
deriving DecidableEq, Repr

/-- The report of a completed turn; its commits are stored apart from the
session. -/
structure TurnCompleteRequest where
  status : TurnStatus
  summary : String := ""
  displayTitle : String := ""
  harnessSessionID : String := ""
  pushed : Bool := false
  headSHA : String := ""
  diff : List DiffSummary := []
  errorDetail : Option (ErrorCode × String) := none
  scope : String := ""
deriving DecidableEq, Repr

/-- Write turns publish, and runners that predate the scope field. -/
def publishesTurn (request : TurnCompleteRequest) : Bool :=
  request.scope = "" ∨ request.scope = "write"

def reportTurn (s : Session) (turnID : String) (request : TurnCompleteRequest) : Session :=
  let title := trimSpace request.displayTitle
  { s with
    lastTurnID := turnID, currentTurnID := ""
    harnessResumeID :=
      if request.harnessSessionID ≠ "" then request.harnessSessionID else s.harnessResumeID
    summary :=
      if trimSpace request.summary ≠ "" then trimSpace request.summary else s.summary
    displayTitle :=
      if title ≠ "" ∧ publishesTurn request then firstLine title 120 else s.displayTitle
    diffs := if request.diff ≠ [] then request.diff else s.diffs
    headSHA := if request.headSHA ≠ "" then request.headSHA else s.headSHA
    pushed := s.pushed || request.pushed
    branchPushed := s.branchPushed || request.pushed
    existingBranch := s.existingBranch || request.pushed }

section ReportTurn

variable (s : Session) (turnID : String) (request : TurnCompleteRequest)

@[simp] theorem reportTurn_phase : (reportTurn s turnID request).phase = s.phase := by
  simp [reportTurn]

@[simp] theorem reportTurn_stopRequested :
    (reportTurn s turnID request).stopRequested = s.stopRequested := by
  simp [reportTurn]

@[simp] theorem reportTurn_sandboxID : (reportTurn s turnID request).sandboxID = s.sandboxID := by
  simp [reportTurn]

@[simp] theorem reportTurn_currentTurnID : (reportTurn s turnID request).currentTurnID = "" := by
  simp [reportTurn]

@[simp] theorem reportTurn_pushed :
    (reportTurn s turnID request).pushed = (s.pushed || request.pushed) := by
  simp [reportTurn]

end ReportTurn

def turnError (phase : Phase) (request : TurnCompleteRequest) : ErrorCode × String :=
  let detail := request.errorDetail.getD (.unset, "")
  let code := if detail.1 ≠ .unset then detail.1 else .harnessFailed
  let message := if detail.2 ≠ "" then detail.2 else "The agent failed."
  (if phase = .setup ∧ code = .harnessFailed then .environmentSetupFailed else code, message)

/-- Where a completed turn takes the session; `ns` is the document with what
the turn reported. -/
def Service.completion (svc : Service) (ns : Session) (sandboxes : List Sandbox)
    (request : TurnCompleteRequest) (now : Time) : Decision :=
  -- Step finishes a requested stop once the sandbox drained.
  if ns.stopRequested ∨ ns.phase = .stopping then { session := ns }
  else match request.status with
    | .success =>
      { session := svc.step.enter ns
          (if ns.pushed ∧ publishesTurn request then .publishing else .idle) now }
    | .awaitingInput => { session := svc.step.enter ns .awaitingUser now }
    | .stopped => { session := svc.step.enter { ns with stopRequested := true } .stopping now }
    | .error =>
      svc.step.fail { session := ns } sandboxes (turnError ns.phase request).1
        (turnError ns.phase request).2 now

def Service.completeDecision (svc : Service) (s : Session) (sandboxes : List Sandbox)
    (turnID : String) (request : TurnCompleteRequest) (now : Time) : Decision :=
  let d := svc.completion (reportTurn s turnID request) sandboxes request now
  { d with session := { d.session with nextReconcileAt := now } }

/-- What `CompleteTurn` decides for the document it read. Its first attempt checks that the
sandbox serves the session, which has not ended; an attempt after a version conflict only checks
the turn. -/
def Service.completeTurn (svc : Service) (grant turnID : String) (retried : Bool)
    (sandboxes : List Sandbox) (request : TurnCompleteRequest) (now : Time) (s : Session) :
    Option Decision :=
  if !retried ∧ (s.sandboxID ≠ grant ∨ s.phase = .done) then none
  else if turnID ≠ s.currentTurnID then none
  else some (svc.completeDecision s sandboxes turnID request now)

/-! ## Requests of members -/

structure StartInput where
  id : String
  workspaceKey : String
  creatorID : String := ""
  source : String := ""
  environmentID : String := ""
  modelSelection : String := ""
  displayTitle : String := ""
  existingBranch : Bool := false
  requireApproval : Bool := false
  /-- The text of an exceeded quota. -/
  quota : Option String := none
deriving DecidableEq, Repr

def startedInAcme : StartInput := { id := "s-1", workspaceKey := "acme" }

def Service.start (svc : Service) (input : StartInput) (now : Time) : Session :=
  let base : Session :=
    { id := input.id, workspaceKey := input.workspaceKey, creatorID := input.creatorID
      source := input.source, environmentID := input.environmentID
      modelSelection := input.modelSelection, displayTitle := input.displayTitle
      existingBranch := input.existingBranch, nextReconcileAt := now }
  if input.requireApproval then
    svc.step.enter { base with approvalState := .required } .awaitingApproval now
  else
    let s := svc.step.enter base .queued now
    match input.quota with
    | some text => svc.step.enter { s with errorCode := .quotaExceeded, error := text } .done now
    | none => s

def branchPublished (s : Session) (recorded : Bool) : Bool :=
  s.pushed || s.pullRequests ≠ [] || s.source = "pullRequest" || s.existingBranch && recorded

def Service.resetForTurn (svc : Service) (s : Session) (now : Time) (recorded : Bool) :
    Session :=
  svc.step.enter
    { s with
      errorCode := .unset, error := "", stopRequested := false, stoppedBy := ""
      sandboxID := "", sandboxAttempts := 0, currentTurnID := ""
      existingBranch := branchPublished s recorded
      pushed := false, currentStep := none }
    .queued now

/-- A prompt that answers the repository selection picks the environment. -/
def Service.answer (svc : Service) (environmentID : String) (now : Time) (s : Session) :
    Option Session :=
  if s.phase ≠ .awaitingUser then none
  else
    some (svc.step.enter { s with environmentID := environmentID, nextReconcileAt := now }
      .queued now)

def Service.prompt (svc : Service) (recorded : Bool) (now : Time) (s : Session) : Session :=
  let s := { s with nextReconcileAt := now }
  if s.phase = .done ∨ s.phase = .awaitingUser ∧ s.sandboxID = "" then
    svc.resetForTurn s now recorded
  else s

def requestStop (userID : String) (now : Time) (s : Session) : Session :=
  { s with
    stopRequested := true
    stoppedBy := if s.stoppedBy = "" then userID else s.stoppedBy
    nextReconcileAt := now }

def stop (userID : String) (now : Time) (s : Session) : Option Session :=
  if s.phase = .done then none else some (requestStop userID now s)

def Service.restart (svc : Service) (useDefaultModel recorded : Bool) (now : Time)
    (s : Session) : Option Session :=
  if s.phase ≠ .done then none
  else
    let s := if useDefaultModel then { s with modelSelection := "auto", model := "" } else s
    some (svc.resetForTurn { s with nextReconcileAt := now } now recorded)

def Service.startOverDrain (svc : Service) (sandboxes : List Sandbox) (now : Time)
    (s : Session) : Option Decision :=
  if s.phase ≠ .idle ∨ s.approvalState = .rejected then none
  else some (svc.step.finish { session := s } sandboxes now)

def Service.startOver (svc : Service) (model : String) (recorded : Bool) (now : Time)
    (s : Session) : Option Session :=
  if s.phase ≠ .done then none
  else
    some (svc.resetForTurn
      { s with modelSelection := model, model := "", modelReason := "", nextReconcileAt := now }
      now recorded)

/-- Approves or rejects a session from an untrusted external source. -/
def Service.approve (svc : Service) (userID : String) (reject : Bool) (now : Time)
    (s : Session) : Option Session :=
  if s.phase ≠ .awaitingApproval then none
  else
    let s := { s with approvedBy := userID, nextReconcileAt := now }
    if reject then
      some (svc.step.enter { s with approvalState := .rejected, stoppedBy := userID } .done now)
    else some (svc.step.enter { s with approvalState := .approved } .queued now)

def endIdle (now : Time) (s : Session) : Session :=
  { s with phase := .done, state := .complete, endedAt := some now }

def archive (userID : String) (now : Time) (s : Session) : Option Session :=
  if s.archivedAt ≠ none then none
  else
    let s := { s with archivedAt := some now }
    match s.phase with
    | .done => some s
    | .idle => some (endIdle now s)
    | _ => some (requestStop userID now s)

def Service.failSession (svc : Service) (sandboxes : List Sandbox) (code : ErrorCode)
    (message : String) (now : Time) (s : Session) : Option Decision :=
  if s.phase = .done then none
  else some (svc.step.fail { session := s } sandboxes code message now)

/-! ## Triggers and webhooks -/

def selectEnvironment (environmentID codeHost repository : String) (s : Session) :
    Option Session :=
  if s.environmentID = environmentID ∧ s.phase ≠ .awaitingUser then some s
  else if s.phase ≠ .awaitingUser ∨ s.environmentID ≠ "" then none
  else
    some { s with
      environmentID := environmentID, codeHost := codeHost, repository := repository
      phase := .queued, state := .pending }

inductive ChangeRequestEvent where
  | opened
  | updated
  | closed
  | merged
deriving DecidableEq, Repr

def eventState (event : ChangeRequestEvent) (state : String) : String :=
  match event with
  | .merged => "merged"
  | .closed => if state = "" ∨ state = "open" then "closed" else state
  | _ => state

def Service.sameRequest (svc : Service) (link pr : PullRequest) : Bool :=
  pr.number = link.number ∧ svc.equalFold pr.repository link.repository

/-- Closing `link` archives the session: it was not merged and no other linked
request is open. -/
def Service.closesSession (svc : Service) (s : Session) (link : PullRequest) : Bool :=
  (s.pullRequests.all fun pr =>
    !(svc.sameRequest link pr ∧ pr.state = "merged" ∨
      !svc.sameRequest link pr ∧ pr.state = "open")) &&
    match s.latestPullRequest with
    | none => true
    | some latest => !svc.sameRequest link latest || latest.state ≠ "merged"

def Service.recordRequest (svc : Service) (link : PullRequest) (now : Time) (s : Session) :
    Session :=
  { s with
    pullRequests := s.pullRequests.map fun pr =>
      if svc.sameRequest link pr then
        { pr with
          state := link.state, updatedAt := now
          headSHA := if link.headSHA ≠ "" then link.headSHA else pr.headSHA }
      else pr
    latestPullRequest := s.latestPullRequest.map fun latest =>
      if svc.sameRequest link latest then { latest with state := link.state } else latest }

def reportedLink (event : ChangeRequestEvent) (link : PullRequest) : PullRequest :=
  { link with
    state := if eventState event link.state ≠ "" then eventState event link.state else "open" }

def Service.closes (svc : Service) (event : ChangeRequestEvent) (link : PullRequest)
    (s : Session) : Bool :=
  event = .closed ∧ link.state = "closed" ∧ s.archivedAt = none ∧ svc.closesSession s link

/-- A merged request ends an idle session; a request closed without merging
archives its session: an idle one ends, a busy one is stopped. -/
def Service.dispatchState (svc : Service) (event : ChangeRequestEvent) (link : PullRequest)
    (now : Time) (s : Session) : Session :=
  let link := reportedLink event link
  let closes := svc.closes event link s
  let s := svc.recordRequest link now s
  let s := if event = .merged ∧ s.phase = .idle then endIdle now s else s
  if closes then
    let s := { s with archivedAt := some now }
    match s.phase with
    | .done => s
    | .idle => endIdle now s
    | _ => { s with stopRequested := true, nextReconcileAt := now }
  else s

/-! ## The operations -/

/-- An operation with its arguments and its time. `reconcile` carries what the pass observed
besides the sandboxes, and its outcomes. -/
inductive Operation where
  | reconcile (obs : Observation) (provisioned : ProvisionOutcome) (published : PublishOutcome)
  | bootstrap (grant : String) (turn : Option String) (restored : Bool) (now : Time)
  | heartbeat (now : Time)
  | events (sandboxID : String) (patch : SessionPatch) (now : Time)
  | inbox (sandboxID turnID : String) (now : Time)
  | completeTurn (grant turnID : String) (retried : Bool) (request : TurnCompleteRequest)
      (now : Time)
  | answer (environmentID : String) (now : Time)
  | prompt (recorded : Bool) (now : Time)
  | stop (userID : String) (now : Time)
  | restart (useDefaultModel recorded : Bool) (now : Time)
  | startOverDrain (now : Time)
  | startOver (model : String) (recorded : Bool) (now : Time)
  | approve (userID : String) (reject : Bool) (now : Time)
  | archive (userID : String) (now : Time)
  | failSession (code : ErrorCode) (message : String) (now : Time)
  | pullRequestState (event : ChangeRequestEvent) (link : PullRequest) (now : Time)
  | selectEnvironment (environmentID codeHost repository : String) (now : Time)
deriving DecidableEq, Repr

def Operation.now : Operation → Time
  | .reconcile obs _ _ => obs.now
  | .bootstrap _ _ _ now | .heartbeat now | .events _ _ now | .inbox _ _ now
  | .completeTurn _ _ _ _ now | .answer _ now | .prompt _ now | .stop _ now
  | .restart _ _ now | .startOverDrain now | .startOver _ _ now | .approve _ _ now
  | .archive _ now | .failSession _ _ now | .pullRequestState _ _ now
  | .selectEnvironment _ _ _ now => now

/-- What an operation does to the document `s` of a session with sandboxes
`sandboxes`; `none` when it fails. -/
def Operation.run (svc : Service) (sandboxes : List Sandbox) (s : Session) :
    Operation → Option Decision
  | .reconcile obs provisioned published =>
    some (svc.step.reconcile s { obs with sandboxes := sandboxes } provisioned published)
  | .bootstrap grant turn restored now =>
    (svc.bootstrapMove grant turn restored now s).map ({ session := · })
  | .heartbeat now => some { session := svc.finishSetup now s }
  | .events sandboxID patch now =>
    if s.sandboxID ≠ sandboxID then none else some { session := svc.patchApply patch now s }
  | .inbox sandboxID turnID now =>
    (svc.inboxMove sandboxID turnID now s).map ({ session := · })
  | .completeTurn grant turnID retried request now =>
    svc.completeTurn grant turnID retried sandboxes request now s
  | .answer environmentID now => (svc.answer environmentID now s).map ({ session := · })
  | .prompt recorded now => some { session := svc.prompt recorded now s }
  | .stop userID now => (Coding.stop userID now s).map ({ session := · })
  | .restart useDefaultModel recorded now =>
    (svc.restart useDefaultModel recorded now s).map ({ session := · })
  | .startOverDrain now => svc.startOverDrain sandboxes now s
  | .startOver model recorded now => (svc.startOver model recorded now s).map ({ session := · })
  | .approve userID reject now => (svc.approve userID reject now s).map ({ session := · })
  | .archive userID now => (Coding.archive userID now s).map ({ session := · })
  | .failSession code message now => svc.failSession sandboxes code message now s
  | .pullRequestState event link now =>
    some { session := svc.dispatchState event link now s }
  | .selectEnvironment environmentID codeHost repository _ =>
    (Coding.selectEnvironment environmentID codeHost repository s).map ({ session := · })

def Operation.via (svc : Service) (sandboxes : List Sandbox) (s : Session) :
    Operation → List Session
  | .reconcile obs provisioned _ =>
    let obs := { obs with sandboxes := sandboxes }
    [(svc.step.step s obs).session, (svc.step.stepProvision s obs provisioned).session]
  | .events _ patch now => [svc.patchRunning patch now s]
  | _ => []

/-- The phases an operation that writes `t` takes the session through. -/
def Operation.path (svc : Service) (sandboxes : List Sandbox) (s t : Session)
    (op : Operation) : List Phase :=
  s.phase :: (op.via svc sandboxes s).map Session.phase ++ [t.phase]

/-- What the store writes for a changed document: its row and workspace stay, and it gets the
next version. An unchanged one is not written. -/
def writeDocument (before after : Session) : Session :=
  let after := { after with
    id := before.id, workspaceKey := before.workspaceKey, version := before.version }
  if after = before then before else { after with version := before.version + 1 }

def advance (svc : Service) (s : Session) (call : Operation × List Sandbox) :
    Option Session :=
  (call.1.run svc call.2 s).map fun d => writeDocument s d.session

end Flow.Ports.Coding
