import Flow.Ports.CodingSession

/-!
# The coding session machine

`StepConfig.step` of `internal/coding/machine.go`: from a session, what the
reconciler observed and the configuration it computes the next document and
the actions to run before it is written.  `afterProvision` and `afterPublish`
complete a decision that asked for a sandbox or a pull request.

`StepCase` says once what `step` can decide; every result about the machine
is proved from it.
-/

namespace Flow.Ports.Coding

open List

/-- What the reconciler saw before a step. `spendErr` is the text of an exceeded quota; another
failure of the spend check ends the pass. -/
structure Observation where
  now : Time
  processStart : Time := 0
  providerEnabled : Bool := true
  activeInWorkspace : Int := 0
  activeTotal : Int := 0
  spendErr : Option String := none
  pendingTurns : Nat := 0
  sandboxes : List Sandbox := []
deriving DecidableEq, Repr

def release (actions : List Action) (record : Sandbox) : List Action :=
  addAction
    (if record.desired = .running ∨ liveSandbox record then
      addAction actions .stopSandbox record.id
    else actions)
    .revokeTokens record.id

def StepConfig.finish (c : StepConfig) (d : Decision) (sandboxes : List Sandbox)
    (now : Time) : Decision :=
  { d with
    actions := sandboxes.foldl release d.actions
    session := c.enter { d.session with pushed := false, currentTurnID := "" } .done now }

def StepConfig.fail (c : StepConfig) (d : Decision) (sandboxes : List Sandbox)
    (code : ErrorCode) (message : String) (now : Time) : Decision :=
  c.finish { d with session := { d.session with errorCode := code, error := message } }
    sandboxes now

def timedOut (s : Session) (now : Time) : Bool :=
  match s.phaseDeadline with
  | some deadline => deadline ≤ now
  | none => false

def sandboxErrorCode : Reason → ErrorCode
  | .imagePull => .imagePullFailed
  | .unschedulable => .unschedulable
  | .quota => .capacityUnavailable
  | .initFailed => .snapshotFailed
  | _ => .sandboxStartFailed

def lostMessage (record : Sandbox) : String :=
  match record.reason with
  | .oomKilled =>
    "The sandbox ran out of memory. Use a larger sandbox size for this environment."
  | .evicted => "The sandbox was evicted from its node."
  | .deadlineExceeded => "The sandbox reached its maximum lifetime."
  | _ =>
    if record.message ≠ "" then record.message
    else if record.phase = .missing then "The sandbox no longer exists."
    else "The sandbox stopped unexpectedly (" ++ record.phase.text ++ ")."

/-! ## Sandbox starts and requeues -/

/-- Retries a failed sandbox start with a new sandbox id while start retries
remain; a failed snapshot restore falls back to inline setup. -/
def StepConfig.startFailed (c : StepConfig) (d : Decision) (sandboxes : List Sandbox)
    (current : Sandbox) (code : ErrorCode) (message : String) (now : Time) : Decision :=
  if c.retries.start ≤ d.session.sandboxAttempts then
    c.fail d sandboxes code message now
  else
    let d := (d.add .stopSandbox current.id).add .revokeTokens current.id
    let s := { d.session with
      sandboxAttempts := d.session.sandboxAttempts + 1
      sandboxID := ""
      snapshotID := if code = .snapshotFailed then "" else d.session.snapshotID }
    Decision.add { d with session := c.enter s .provisioning now } .provision ""

/-- What sending a session back to the queue asks for one of its sandboxes. -/
def drain (actions : List Action) (record : Sandbox) : List Action :=
  if record.desired = .running then addAction actions .stopSandbox record.id else actions

/-- Sends a session whose sandbox is gone back to the queue for its next
turn. -/
def StepConfig.requeue (c : StepConfig) (d : Decision) (sandboxes : List Sandbox)
    (now : Time) : Decision :=
  let s := { d.session with
    sandboxID := "", sandboxAttempts := 0, currentTurnID := ""
    existingBranch :=
      d.session.existingBranch || d.session.pushed || d.session.pullRequests ≠ [] }
  { d with
    actions := sandboxes.foldl drain d.actions
    session := c.enter s .queued now }

def StepConfig.overCap (c : StepConfig) (s : Session) (now : Time) : Bool :=
  let running := match s.turnStartedAt with
    | some start =>
      if s.phase = .running then s.runningMillis + milliseconds (now - start)
      else s.runningMillis
    | none => s.runningMillis
  0 < c.timeouts.maxSession ∧ c.timeouts.maxSession ≤ running * 1000000

/-- The text of a lost sandbox, in the phases that need one.  awaitingUser may
have none: the repository is selected before provisioning. -/
def sandboxLost (s : Session) (current : Option Sandbox) : Option String :=
  if s.phase = .setup ∨ s.phase = .running ∨ s.phase = .awaitingUser ∨
      s.phase = .publishing then
    match current with
    | some record => if goneSandbox record then some (lostMessage record) else none
    | none =>
      if s.phase ≠ .publishing ∧ ¬(s.phase = .awaitingUser ∧ s.sandboxID = "") then
        some "The session's sandbox record is missing."
      else none
  else none

/-- The runner stopped sending heartbeats while setup or a turn runs. -/
def StepConfig.runnerLost (c : StepConfig) (s : Session) (current : Option Sandbox)
    (obs : Observation) : Bool :=
  let last := s.phaseStartedAt
  let last := match current.bind Sandbox.heartbeatAt with
    | some beat => if last < beat then beat else last
    | none => last
  let last := if last < obs.processStart then obs.processStart else last
  (s.phase = .setup ∨ s.phase = .running) ∧ 0 < c.timeouts.heartbeat ∧
    c.timeouts.heartbeat ≤ obs.now - last

def StepConfig.hasCapacity (c : StepConfig) (obs : Observation) : Bool :=
  (c.workspaceSessions ≤ 0 ∨ obs.activeInWorkspace < c.workspaceSessions) ∧
    (c.maxSessions ≤ 0 ∨ obs.activeTotal < c.maxSessions)

def StepConfig.stepQueued (c : StepConfig) (d : Decision) (obs : Observation) : Decision :=
  let s := d.session
  if !obs.providerEnabled then
    c.fail d obs.sandboxes .sandboxDisabled
      "Coding sandboxes are disabled on this server." obs.now
  else match obs.spendErr with
    | some text => c.fail d obs.sandboxes .quotaExceeded text obs.now
    | none =>
      if c.hasCapacity obs then
        Decision.add { d with session := c.enter s .provisioning obs.now } .provision ""
      else if timedOut s obs.now then
        c.fail d obs.sandboxes (c.policies s.phase).onTimeout
          "No sandbox capacity became available in time." obs.now
      else d

def StepConfig.stepStarting (c : StepConfig) (d : Decision) (current : Option Sandbox)
    (obs : Observation) : Decision :=
  let s := d.session
  match current with
  | none => Decision.add { d with session := c.enter s .provisioning obs.now } .provision ""
  | some record =>
    if goneSandbox record then
      c.startFailed d obs.sandboxes record (sandboxErrorCode record.reason)
        (lostMessage record) obs.now
    else if timedOut s obs.now then
      let code :=
        if record.reason = .imagePull ∨ record.reason = .unschedulable ∨
            record.reason = .quota then sandboxErrorCode record.reason
        else (c.policies s.phase).onTimeout
      c.startFailed d obs.sandboxes record code "The sandbox did not start in time." obs.now
    else d

/-- The session's sandbox is warm: live and wanted running. -/
def aliveSandbox (current : Option Sandbox) : Bool :=
  current.any fun record => liveSandbox record && record.desired = .running

def StepConfig.stepIdle (c : StepConfig) (d : Decision) (current : Option Sandbox)
    (obs : Observation) : Decision :=
  let alive := aliveSandbox current
  if 0 < obs.pendingTurns ∧ alive = false then c.requeue d obs.sandboxes obs.now
  -- The warm runner long-polls the inbox and picks the turn up.
  else if 0 < obs.pendingTurns then d
  else if timedOut d.session obs.now then c.finish d obs.sandboxes obs.now
  else if current.isSome ∧ alive = false then
    { d with session := { d.session with sandboxID := "" }, nextIn := minute }
  else { d with nextIn := minute }

def StepConfig.stepStopping (c : StepConfig) (d : Decision) (obs : Observation) : Decision :=
  if ¬obs.sandboxes.any liveSandbox ∨ timedOut d.session obs.now then
    c.finish d obs.sandboxes obs.now
  -- The runner had its grace period for a WIP commit.
  else if c.timeouts.stopGrace ≤ obs.now - d.session.phaseStartedAt then
    { d with actions := obs.sandboxes.foldl drain d.actions }
  else d

def StepConfig.stepPhase (c : StepConfig) (d : Decision) (current : Option Sandbox)
    (obs : Observation) : Decision :=
  let s := d.session
  let onTimeout := (c.policies s.phase).onTimeout
  match s.phase with
  | .awaitingApproval =>
    if timedOut s obs.now then
      c.fail d obs.sandboxes onTimeout "Nobody approved the session in time." obs.now
    else { d with nextIn := minute }
  | .queued => c.stepQueued d obs
  | .provisioning =>
    if timedOut s obs.now then
      c.fail d obs.sandboxes onTimeout "Provisioning the sandbox timed out." obs.now
    else d.add .provision ""
  | .starting => c.stepStarting d current obs
  | .setup =>
    if timedOut s obs.now then
      c.fail d obs.sandboxes onTimeout "Environment setup timed out." obs.now
    else d
  | .running =>
    if timedOut s obs.now then
      -- The runner gets the stop grace to push a WIP; the session then ends
      -- with turnTimeout.
      let s := { s with errorCode := onTimeout, error := "The turn exceeded its time limit." }
      { Decision.add { d with session := c.enter s .stopping obs.now } .enqueueStop "" with
        nextIn := c.timeouts.stopGrace }
    else d
  | .awaitingUser =>
    if timedOut s obs.now then
      c.fail d obs.sandboxes onTimeout "Nobody answered the agent's question in time." obs.now
    else if 0 < obs.pendingTurns ∧ ¬(current.any liveSandbox) then
      c.requeue d obs.sandboxes obs.now
    else { d with nextIn := minute }
  | .publishing =>
    if timedOut s obs.now then
      c.fail d obs.sandboxes onTimeout "Opening the pull request timed out." obs.now
    else d.add .publish ""
  | .idle => c.stepIdle d current obs
  | .stopping => c.stepStopping d obs
  | .done => d

/-- When the session is looked at again: not after its deadline, and soon
while provisioning or publishing. -/
def StepConfig.schedule (c : StepConfig) (d : Decision) (now : Time) : Decision :=
  let untilDeadline := match d.session.phaseDeadline with
    | some deadline =>
      if d.session.phase ≠ .done ∧ 0 < deadline - now ∧ deadline - now < d.nextIn then
        deadline - now
      else d.nextIn
    | none => d.nextIn
  { d with
    nextIn := if d.has .provision || d.has .publish then c.reconcileInterval else untilDeadline }

def StepConfig.step (c : StepConfig) (s : Session) (obs : Observation) : Decision :=
  let d : Decision := { session := s, nextIn := c.reconcileInterval }
  let current := currentSandbox s obs.sandboxes
  if s.phase = .done then { d with nextIn := 0 }
  -- A stop request wins over everything else.
  else if s.stopRequested ∧ s.phase ≠ .stopping then
    if ¬obs.sandboxes.any liveSandbox then c.finish d obs.sandboxes obs.now
    else
      { Decision.add { d with session := c.enter s .stopping obs.now } .enqueueStop "" with
        nextIn := c.timeouts.stopGrace }
  else if c.overCap s obs.now then
    c.fail d obs.sandboxes .sessionTimeout "The session reached its maximum running time." obs.now
  else match sandboxLost s current with
    | some message => c.fail d obs.sandboxes .sandboxLost message obs.now
    | none =>
      if c.runnerLost s current obs then
        c.fail d obs.sandboxes .runnerLost "The runner stopped sending heartbeats." obs.now
      else c.schedule (c.stepPhase d current obs) obs.now

/-! ## Provisioning and publishing -/

structure Resolved where
  environmentID : String
  codeHost : String
  repository : String
  model : String
  modelReason : String
  snapshotID : String
deriving DecidableEq, Repr

def Resolved.apply (r : Resolved) (s : Session) : Session :=
  { s with
    environmentID := r.environmentID, codeHost := r.codeHost, repository := r.repository
    model := r.model, modelReason := r.modelReason, snapshotID := r.snapshotID
    modelSelection := if s.modelSelection = "" then "auto" else s.modelSelection }

/-- The result of provisioning: a sandbox, a failure, or the environments to
choose from. -/
structure ProvisionOutcome where
  sandboxID : String := ""
  code : ErrorCode := .unset
  message : String := ""
  transient : Bool := false
  selection : List String := []
  apply : Option Resolved := none
deriving DecidableEq, Repr

def ProvisionOutcome.applyTo (outcome : ProvisionOutcome) (s : Session) : Session :=
  match outcome.apply with
  | some resolved => resolved.apply s
  | none => s

def StepConfig.afterProvision (c : StepConfig) (d : Decision) (sandboxes : List Sandbox)
    (outcome : ProvisionOutcome) (now : Time) : Decision :=
  let s := outcome.applyTo d.session
  if outcome.sandboxID ≠ "" then
    { d with
      session := c.enter { s with sandboxID := outcome.sandboxID } .starting now
      nextIn := c.reconcileInterval }
  else if outcome.selection ≠ [] then
    { d with session := c.enter s .awaitingUser now, nextIn := minute }
  else if outcome.transient ∧ s.attempts < c.retries.provision then
    { d with session := { s with attempts := s.attempts + 1 }, nextIn := backoff s.attempts }
  else
    c.fail { d with session := s } sandboxes
      (if outcome.code = .unset then (c.policies .provisioning).onTimeout else outcome.code)
      outcome.message now

structure PublishOutcome where
  pullRequest : Option PullRequest := none
  code : ErrorCode := .unset
  message : String := ""
  transient : Bool := false
deriving DecidableEq, Repr

def pullRequestLabel (pr : PullRequest) : String :=
  if pr.codeHost = "gitlab" then "Merge request !" ++ toString pr.number
  else "Pull request #" ++ toString pr.number

/-- Relabels the first link with the request's address, or appends one. -/
def labelURL (label url : String) : List ExternalURL → List ExternalURL
  | [] => [⟨label, url⟩]
  | link :: rest =>
    if link.url = url then { link with label := label } :: rest
    else link :: labelURL label url rest

def mergePullRequest (s : Session) (pr : PullRequest) : Session :=
  let sameRequest := fun (existing : PullRequest) =>
    existing.codeHost = pr.codeHost ∧ existing.hostName = pr.hostName ∧
      existing.number = pr.number
  { s with
    pullRequests :=
      if s.pullRequests.any (fun existing => sameRequest existing) then
        s.pullRequests.map fun existing => if sameRequest existing then pr else existing
      else s.pullRequests ++ [pr]
    latestPullRequest := some pr
    externalURLs := labelURL (pullRequestLabel pr) pr.url s.externalURLs }

def PublishOutcome.applyTo (outcome : PublishOutcome) (s : Session) : Session :=
  match outcome.pullRequest with
  | some pr => mergePullRequest s pr
  | none => s

def StepConfig.afterPublish (c : StepConfig) (d : Decision) (sandboxes : List Sandbox)
    (outcome : PublishOutcome) (now : Time) : Decision :=
  let s := d.session
  if outcome.code = .unset then
    { d with
      session := c.enter { outcome.applyTo s with pushed := false } .idle now
      nextIn := minute }
  else if outcome.transient ∧ s.attempts < c.retries.publish then
    { d with session := { s with attempts := s.attempts + 1 }, nextIn := backoff s.attempts }
  else
    c.fail d sandboxes
      (if outcome.transient then (c.policies .publishing).onTimeout else outcome.code)
      outcome.message now

def Decision.without (d : Decision) (kind : ActionKind) : Decision :=
  { d with actions := d.actions.filter fun action => action.kind ≠ kind }

/-- The step of a reconciler pass, completed with the outcome of provisioning
where the step asked for it. -/
def StepConfig.stepProvision (c : StepConfig) (s : Session) (obs : Observation)
    (provisioned : ProvisionOutcome) : Decision :=
  let d := c.step s obs
  if d.has .provision then
    c.afterProvision (d.without .provision) obs.sandboxes provisioned obs.now
  else d

def StepConfig.reconcile (c : StepConfig) (s : Session) (obs : Observation)
    (provisioned : ProvisionOutcome) (published : PublishOutcome) : Decision :=
  let d := c.stepProvision s obs provisioned
  if d.has .publish then c.afterPublish (d.without .publish) obs.sandboxes published obs.now
  else d

variable {actions : List Action} {a : Action} {sandboxes : List Sandbox}

theorem mem_release {record : Sandbox} :
    a ∈ release actions record ↔ a ∈ actions ∨ a = ⟨.revokeTokens, record.id⟩ ∨
      a = ⟨.stopSandbox, record.id⟩ ∧ (record.desired = .running ∨ liveSandbox record) := by
  unfold release
  by_cases hwanted : record.desired = .running ∨ liveSandbox record
  · rw [if_pos hwanted]
    simp only [mem_addAction]
    tauto
  · rw [if_neg hwanted]
    simp [hwanted]

/-- Ending a session revokes the tokens of every sandbox and stops every one
that is live or wanted running. -/
theorem mem_foldl_release :
    a ∈ sandboxes.foldl release actions ↔ a ∈ actions ∨ ∃ record ∈ sandboxes,
      a = ⟨.revokeTokens, record.id⟩ ∨
        a = ⟨.stopSandbox, record.id⟩ ∧ (record.desired = .running ∨ liveSandbox record) := by
  induction sandboxes generalizing actions with
  | nil => simp
  | cons record rest ih =>
    simp [ih, mem_release, or_assoc]

theorem mem_foldl_drain : a ∈ sandboxes.foldl drain actions ↔ a ∈ actions ∨ ∃ record ∈ sandboxes,
      a = ⟨.stopSandbox, record.id⟩ ∧ record.desired = .running := by
  induction sandboxes generalizing actions with
  | nil => simp
  | cons record rest ih =>
    simp only [foldl_cons, ih, exists_mem_cons_iff]
    unfold drain
    by_cases hwanted : record.desired = .running
    · rw [if_pos hwanted]
      simp [hwanted, or_assoc]
    · rw [if_neg hwanted]
      simp [hwanted]

theorem Decision.has_iff {d : Decision} {kind : ActionKind} :
    d.has kind ↔ ∃ a ∈ d.actions, a.kind = kind := by
  simp [Decision.has]

theorem mem_of_mem_foldl_release (h : a ∈ sandboxes.foldl release actions)
    (hrevoke : a.kind ≠ .revokeTokens) (hstop : a.kind ≠ .stopSandbox) : a ∈ actions := by
  rcases mem_foldl_release.1 h with h | ⟨record, -, rfl | ⟨rfl, -⟩⟩
  · exact h
  · exact absurd rfl hrevoke
  · exact absurd rfl hstop

theorem mem_of_mem_foldl_drain (h : a ∈ sandboxes.foldl drain actions)
    (hstop : a.kind ≠ .stopSandbox) : a ∈ actions := by
  rcases mem_foldl_drain.1 h with h | ⟨record, -, rfl, -⟩
  · exact h
  · exact absurd rfl hstop

/-! ## What a step can decide -/

/-- The document and the actions `step` can decide on. -/
inductive StepCase (c : StepConfig) (s : Session) (obs : Observation) :
    Session → List Action → Prop where
  | same : StepCase c s obs s []
  | provision (h : s.phase = .provisioning) : StepCase c s obs s [⟨.provision, ""⟩]
  | publish (h : s.phase = .publishing) : StepCase c s obs s [⟨.publish, ""⟩]
  | drained (h : s.phase = .stopping) :
      StepCase c s obs s (obs.sandboxes.foldl drain [])
  | forgotten (h : s.phase = .idle) : StepCase c s obs { s with sandboxID := "" } []
  | ended (code : ErrorCode) (error : String) (h : s.phase ≠ .done) :
      StepCase c s obs
        (c.enter { s with errorCode := code, error := error, pushed := false,
                          currentTurnID := "" } .done obs.now)
        (obs.sandboxes.foldl release [])
  | stopped (code : ErrorCode) (error : String) (h : s.phase ≠ .done)
      (hstopping : s.phase ≠ .stopping)
      (hwhy : s.stopRequested ∧ obs.sandboxes.any liveSandbox ∨ s.phase = .running) :
      StepCase c s obs
        (c.enter { s with errorCode := code, error := error } .stopping obs.now)
        [⟨.enqueueStop, ""⟩]
  | admitted (h : s.phase = .queued) (hroom : c.hasCapacity obs) :
      StepCase c s obs (c.enter s .provisioning obs.now) [⟨.provision, ""⟩]
  | restarted (h : s.phase = .starting) :
      StepCase c s obs (c.enter s .provisioning obs.now) [⟨.provision, ""⟩]
  | retried (h : s.phase = .starting) (record : Sandbox) (snapshotID : String)
      (hrecord : currentSandbox s obs.sandboxes = some record) :
      StepCase c s obs
        (c.enter { s with sandboxAttempts := s.sandboxAttempts + 1, sandboxID := "",
                          snapshotID := snapshotID } .provisioning obs.now)
        [⟨.stopSandbox, record.id⟩, ⟨.revokeTokens, record.id⟩, ⟨.provision, ""⟩]
  | requeued (h : s.phase = .awaitingUser ∨ s.phase = .idle) (existing : Bool) :
      StepCase c s obs
        (c.enter { s with sandboxID := "", sandboxAttempts := 0, currentTurnID := "",
                          existingBranch := existing } .queued obs.now)
        (obs.sandboxes.foldl drain [])

/-- A decision that `step` can come to. -/
def StepCase.Allows (c : StepConfig) (s : Session) (obs : Observation) (d : Decision) : Prop :=
  StepCase c s obs d.session d.actions

section StepCase

variable {c : StepConfig} {s : Session} {obs : Observation} {nextIn : Duration}

private theorem case_fail (hdone : s.phase ≠ .done) (code : ErrorCode) (message : String) :
    StepCase.Allows c s obs (c.fail ⟨s, [], nextIn⟩ obs.sandboxes code message obs.now) :=
  .ended code message hdone

private theorem case_finish (hdone : s.phase ≠ .done) :
    StepCase.Allows c s obs (c.finish ⟨s, [], nextIn⟩ obs.sandboxes obs.now) :=
  .ended s.errorCode s.error hdone

private theorem case_requeue (h : s.phase = .awaitingUser ∨ s.phase = .idle) :
    StepCase.Allows c s obs (c.requeue ⟨s, [], nextIn⟩ obs.sandboxes obs.now) :=
  .requeued h _

private theorem case_startFailed (h : s.phase = .starting) {record : Sandbox}
    (hrecord : currentSandbox s obs.sandboxes = some record) (code : ErrorCode) (message : String) :
    StepCase.Allows c s obs
      (c.startFailed ⟨s, [], nextIn⟩ obs.sandboxes record code message obs.now) := by
  unfold StepConfig.startFailed
  split
  · exact case_fail (by simp [h]) code message
  · exact .retried h record _ hrecord

private theorem case_queued (h : s.phase = .queued) :
    StepCase.Allows c s obs (c.stepQueued ⟨s, [], nextIn⟩ obs) := by
  have hdone : s.phase ≠ .done := by simp [h]
  fun_cases StepConfig.stepQueued c ⟨s, [], nextIn⟩ obs
  case case3 => exact .admitted h ‹_›
  case case5 => exact .same
  all_goals exact case_fail hdone _ _

private theorem case_starting (h : s.phase = .starting) : StepCase.Allows c s obs
      (c.stepStarting ⟨s, [], nextIn⟩ (currentSandbox s obs.sandboxes) obs) := by
  generalize hcurrent : currentSandbox s obs.sandboxes = current
  fun_cases StepConfig.stepStarting c ⟨s, [], nextIn⟩ current obs
  · exact .restarted h
  · exact case_startFailed h hcurrent _ _
  · exact case_startFailed h hcurrent _ _
  · exact .same

private theorem case_idle (h : s.phase = .idle) (current : Option Sandbox) :
    StepCase.Allows c s obs (c.stepIdle ⟨s, [], nextIn⟩ current obs) := by
  fun_cases StepConfig.stepIdle c ⟨s, [], nextIn⟩ current obs
  · exact case_requeue (.inr h)
  · exact .same
  · exact case_finish (by simp [h])
  · exact .forgotten h
  · exact .same

private theorem case_stopping (h : s.phase = .stopping) :
    StepCase.Allows c s obs (c.stepStopping ⟨s, [], nextIn⟩ obs) := by
  fun_cases StepConfig.stepStopping c ⟨s, [], nextIn⟩ obs
  · exact case_finish (by simp [h])
  · exact .drained h
  · exact .same

private theorem case_phase (hdone : s.phase ≠ .done) : StepCase.Allows c s obs
      (c.stepPhase ⟨s, [], nextIn⟩ (currentSandbox s obs.sandboxes) obs) := by
  unfold StepConfig.stepPhase
  dsimp only
  split
  next h =>
    split
    · exact case_fail hdone _ _
    · exact .same
  next h => exact case_queued h
  next h =>
    split
    · exact case_fail hdone _ _
    · exact .provision h
  next h => exact case_starting h
  next h =>
    split
    · exact case_fail hdone _ _
    · exact .same
  next h =>
    split
    · exact .stopped _ _ hdone (by simp [h]) (.inr h)
    · exact .same
  next h =>
    split
    · exact case_fail hdone _ _
    · split
      · exact case_requeue (.inl h)
      · exact .same
  next h =>
    split
    · exact case_fail hdone _ _
    · exact .publish h
  next h => exact case_idle h _
  next h => exact case_stopping h
  next h => exact absurd h hdone

/-- **What `step` decides.** -/
theorem step_case (c : StepConfig) (s : Session) (obs : Observation) :
    StepCase c s obs (c.step s obs).session (c.step s obs).actions := by
  unfold StepConfig.step
  dsimp only
  split
  · exact .same
  next hdone =>
    split
    next hstop =>
      split
      · exact case_finish hdone
      next hlive =>
        exact .stopped s.errorCode s.error hdone hstop.2
          (.inl ⟨hstop.1, by simpa using hlive⟩)
    next =>
      repeat' split
      · exact case_fail hdone _ _
      · exact case_fail hdone _ _
      · exact case_fail hdone _ _
      · exact case_phase hdone

end StepCase

end Flow.Ports.Coding
