import Flow.Ports.CodingOperations
import Flow.Verified.Table

/-!
# How an operation moves a session

The part of the document that `enter` keeps together is its `Clock`: the
phase, the state shown for it, when it was entered, when it times out, when
the session ended and when the running turn started.  `Moves` says what one
transition does to it: nothing, or it enters a phase that the table declares.

Every transition of the reconciler, of the runner's calls and of the members'
requests is a `Moves`.  The ones that are not are named: a turn completion
enters its phase from wherever the session is (`completeTurn_clock`), and
`endIdle` and `selectEnvironment` assign fields by hand.
-/

namespace Flow.Ports.Coding

open List Option Flow.Verified.Table

/-- The fields of a document that a phase change writes together. -/
structure Clock where
  phase : Phase
  state : State
  endedAt : Option Time
  phaseStartedAt : Time
  phaseDeadline : Option Time
  turnStartedAt : Option Time
deriving DecidableEq, Repr

def Session.clock (s : Session) : Clock :=
  { s with }

theorem Session.phase_eq_of_clock {s t : Session} (h : t.clock = s.clock) :
    t.phase = s.phase := congrArg Clock.phase h

theorem writeDocument_field {α : Type} (field : Session → α)
    (hfield : ∀ (s : Session) (id workspaceKey : String) (version : Nat),
      field { s with id := id, workspaceKey := workspaceKey, version := version } = field s)
    (before after : Session) : field (writeDocument before after) = field after := by
  unfold writeDocument
  dsimp only
  split
  · rename_i h
    conv_lhs => rw [← h]
    exact hfield after _ _ _
  · exact hfield after _ _ _

@[simp] theorem writeDocument_clock (before after : Session) :
    (writeDocument before after).clock = after.clock :=
  writeDocument_field Session.clock (fun _ _ _ _ => rfl) before after

@[simp] theorem writeDocument_phase (before after : Session) :
    (writeDocument before after).phase = after.phase :=
  writeDocument_field Session.phase (fun _ _ _ _ => rfl) before after

@[simp] theorem writeDocument_sandboxID (before after : Session) :
    (writeDocument before after).sandboxID = after.sandboxID :=
  writeDocument_field Session.sandboxID (fun _ _ _ _ => rfl) before after

@[simp] theorem writeDocument_sandboxAttempts (before after : Session) :
    (writeDocument before after).sandboxAttempts = after.sandboxAttempts :=
  writeDocument_field Session.sandboxAttempts (fun _ _ _ _ => rfl) before after

@[simp] theorem writeDocument_currentTurnID (before after : Session) :
    (writeDocument before after).currentTurnID = after.currentTurnID :=
  writeDocument_field Session.currentTurnID (fun _ _ _ _ => rfl) before after

@[simp] theorem writeDocument_id (before after : Session) :
    (writeDocument before after).id = before.id := by
  unfold writeDocument
  dsimp only
  split <;> rfl

@[simp] theorem writeDocument_workspaceKey (before after : Session) :
    (writeDocument before after).workspaceKey = before.workspaceKey := by
  unfold writeDocument
  dsimp only
  split <;> rfl

theorem writeDocument_follows (before after : Session) :
    Follows Session.version before (writeDocument before after) := by
  unfold writeDocument
  dsimp only
  split
  · exact .refl _ _
  · exact ⟨Nat.le_succ _, fun h => absurd h (Nat.succ_ne_self _).symm⟩

/-! ## Transitions -/

/-- One transition: the clock stands still, or the session enters a phase
that is declared from the one it is in. -/
inductive Moves (c : StepConfig) (now : Time) (s t : Session) : Prop where
  | kept (h : t.clock = s.clock)
  | entered (b : Session) (phase : Phase) (hb : b.clock = s.clock)
      (ht : t.clock = (c.enter b phase now).clock) (hdeclared : canTransition s.phase phase)

section Machine

variable {c : StepConfig} {s t : Session} {now : Time}

theorem Moves.refl (c : StepConfig) (now : Time) (s : Session) : Moves c now s s :=
  .kept rfl

theorem Moves.enter (b : Session) {phase : Phase} (hb : b.clock = s.clock)
    (hdeclared : canTransition s.phase phase) : Moves c now s (c.enter b phase now) :=
  .entered b phase hb rfl hdeclared

variable {p : Phase} {obs : Observation} {d : Decision}

theorem canTransition_ne {q : Phase} (h : canTransition p q) : q ≠ p := by
  rintro rfl
  cases q <;> simp [canTransition, transitions] at h

theorem canTransition_done (h : p ≠ .done) : canTransition p .done := by
  cases p <;> first | rfl | exact absurd rfl h

theorem canTransition_stopping (h : p ≠ .done) (hstop : p ≠ .stopping) :
    canTransition p .stopping := by
  cases p <;> first | rfl | exact absurd rfl h | exact absurd rfl hstop

theorem step_moves (c : StepConfig) (s : Session) (obs : Observation) :
    Moves c obs.now s (c.step s obs).session := by
  have hcase := step_case c s obs
  generalize (c.step s obs).session = t at hcase
  generalize (c.step s obs).actions = actions at hcase
  cases hcase with
  | same | provision h | publish h | drained h => exact .refl c obs.now s
  | forgotten h => exact .kept rfl
  | ended code error h => exact .enter _ rfl (canTransition_done h)
  | stopped code error h hstopping hwhy =>
    exact .enter _ rfl (canTransition_stopping h hstopping)
  | admitted h hroom => exact .enter s rfl (by rw [h]; rfl)
  | restarted h => exact .enter s rfl (by rw [h]; rfl)
  | retried h record snapshotID hrecord => exact .enter _ rfl (by rw [h]; rfl)
  | requeued h existing =>
    refine .enter _ rfl ?_
    rcases h with h | h <;> rw [h] <;> rfl

theorem step_provision_phase (h : (c.step s obs).has .provision) :
    (c.step s obs).session.phase = .provisioning ∧ ¬(c.step s obs).has .publish := by
  have hcase := step_case c s obs
  rw [Decision.has_iff] at h ⊢
  generalize (c.step s obs).session = t at hcase ⊢
  generalize (c.step s obs).actions = actions at hcase h ⊢
  obtain ⟨a, ha, hkind⟩ := h
  cases hcase with
  | same | forgotten _ => simp at ha
  | publish _ | stopped _ _ _ _ _ => simp_all
  | drained _ | requeued _ _ =>
    exact absurd (mem_of_mem_foldl_drain ha (by simp [hkind])) (by simp)
  | ended _ _ _ =>
    exact absurd (mem_of_mem_foldl_release ha (by simp [hkind]) (by simp [hkind])) (by simp)
  | provision hphase => exact ⟨hphase, by simp⟩
  | admitted _ _ | restarted _ | retried _ _ _ _ => exact ⟨rfl, by simp⟩

theorem step_publish_phase (h : (c.step s obs).has .publish) :
    (c.step s obs).session.phase = .publishing ∧ (c.step s obs).actions = [⟨.publish, ""⟩] := by
  have hcase := step_case c s obs
  rw [Decision.has_iff] at h
  generalize (c.step s obs).session = t at hcase ⊢
  generalize (c.step s obs).actions = actions at hcase h ⊢
  obtain ⟨a, ha, hkind⟩ := h
  cases hcase with
  | publish hphase => exact ⟨hphase, rfl⟩
  | drained _ | requeued _ _ =>
    exact absurd (mem_of_mem_foldl_drain ha (by simp [hkind])) (by simp)
  | ended _ _ _ =>
    exact absurd (mem_of_mem_foldl_release ha (by simp [hkind]) (by simp [hkind])) (by simp)
  | same | forgotten _ => simp at ha
  | provision _ | stopped _ _ _ _ _ | admitted _ _ | restarted _ => simp_all
  | retried _ record _ _ =>
    simp only [mem_cons, not_mem_nil, or_false] at ha
    rcases ha with rfl | rfl | rfl <;> simp at hkind

theorem applyTo_clock (outcome : ProvisionOutcome) (s : Session) :
    (outcome.applyTo s).clock = s.clock := by
  unfold ProvisionOutcome.applyTo
  cases outcome.apply with
  | none => rfl
  | some resolved => rfl

theorem applyTo_sandboxID (outcome : ProvisionOutcome) (s : Session) :
    (outcome.applyTo s).sandboxID = s.sandboxID := by
  unfold ProvisionOutcome.applyTo
  cases outcome.apply with
  | none => rfl
  | some resolved => rfl

theorem afterProvision_moves (d : Decision) (sandboxes : List Sandbox)
    (outcome : ProvisionOutcome) (h : d.session.phase = .provisioning) :
    Moves c now d.session (c.afterProvision d sandboxes outcome now).session := by
  have hclock := applyTo_clock outcome d.session
  fun_cases StepConfig.afterProvision c d sandboxes outcome now
  · exact .enter _ hclock (by rw [h]; rfl)
  · exact .enter _ hclock (by rw [h]; rfl)
  · exact .kept hclock
  · exact (.enter _ hclock (canTransition_done (by simp [h])))

theorem publishOutcome_clock (outcome : PublishOutcome) (s : Session) :
    (outcome.applyTo s).clock = s.clock := by
  unfold PublishOutcome.applyTo
  cases outcome.pullRequest with
  | none => rfl
  | some pr => rfl

theorem afterPublish_moves (d : Decision) (sandboxes : List Sandbox)
    (outcome : PublishOutcome) (h : d.session.phase = .publishing) :
    Moves c now d.session (c.afterPublish d sandboxes outcome now).session := by
  fun_cases StepConfig.afterPublish c d sandboxes outcome now
  · exact .enter _ (publishOutcome_clock outcome d.session) (by rw [h]; rfl)
  · exact .kept rfl
  · exact (.enter _ rfl (canTransition_done (by simp [h])))

theorem afterProvision_not_publish (h : ¬d.has .publish) (sandboxes : List Sandbox)
    (outcome : ProvisionOutcome) : ¬(c.afterProvision d sandboxes outcome now).has .publish := by
  have hsame : ∀ s n, ¬Decision.has ⟨s, d.actions, n⟩ .publish := fun _ _ => h
  fun_cases StepConfig.afterProvision c d sandboxes outcome now
  case case4 =>
    rw [Decision.has_iff]
    rintro ⟨a, ha, hkind⟩
    refine h (Decision.has_iff.2 ⟨a, ?_, hkind⟩)
    exact mem_of_mem_foldl_release ha (by simp [hkind]) (by simp [hkind])
  all_goals exact hsame _ _

theorem has_without {kind other : ActionKind} (h : (d.without other).has kind) : d.has kind := by
  rw [Decision.has_iff] at h ⊢
  obtain ⟨a, ha, hkind⟩ := h
  exact ⟨a, mem_of_mem_filter ha, hkind⟩

theorem stepProvision_publish_phase {provisioned : ProvisionOutcome}
    (h : (c.stepProvision s obs provisioned).has .publish) :
    (c.stepProvision s obs provisioned).session.phase = .publishing := by
  unfold StepConfig.stepProvision at h ⊢
  dsimp only at h ⊢
  split at h
  · rename_i hprovision
    refine absurd h (afterProvision_not_publish ?_ obs.sandboxes provisioned)
    exact fun hpublish => (step_provision_phase hprovision).2 (has_without hpublish)
  · rename_i hprovision
    rw [if_neg hprovision]
    exact (step_publish_phase h).1

/-- **A reconciler pass is three transitions**: the step, provisioning and
publishing. -/
theorem reconcile_moves (c : StepConfig) (s : Session) (obs : Observation)
    (provisioned : ProvisionOutcome) (published : PublishOutcome) :
    Moves c obs.now s (c.step s obs).session ∧
      Moves c obs.now (c.step s obs).session (c.stepProvision s obs provisioned).session ∧
      Moves c obs.now (c.stepProvision s obs provisioned).session
        (c.reconcile s obs provisioned published).session := by
  refine ⟨step_moves c s obs, ?_, ?_⟩
  · unfold StepConfig.stepProvision
    dsimp only
    split
    · rename_i h
      exact afterProvision_moves ((c.step s obs).without .provision) obs.sandboxes
        provisioned (step_provision_phase h).1
    · exact .refl _ _ _
  · unfold StepConfig.reconcile
    dsimp only
    split
    · rename_i h
      exact afterPublish_moves ((c.stepProvision s obs provisioned).without .publish)
        obs.sandboxes published (stepProvision_publish_phase h)
    · exact .refl _ _ _

end Machine

/-! ## The other operations -/

section Operations

variable {svc : Service} {s t : Session} {now : Time}

theorem patchRunning_moves (patch : SessionPatch) :
    Moves svc.step now s (svc.patchRunning patch now s) := by
  unfold Service.patchRunning
  dsimp only
  split
  · rename_i h
    exact .enter _ rfl (by rw [h.2]; rfl)
  · exact .kept rfl

theorem patchApply_moves (patch : SessionPatch) :
    Moves svc.step now (svc.patchRunning patch now s) (svc.patchApply patch now s) := by
  unfold Service.patchApply
  dsimp only
  split
  · rename_i h
    exact .enter _ rfl (by rw [h.2]; rfl)
  · exact .refl _ _ _

def completionPhase (s : Session) (request : TurnCompleteRequest) : Option Phase :=
  if s.stopRequested ∨ s.phase = .stopping then none
  else match request.status with
    | .success =>
      some (if s.pushed ∧ publishesTurn request then .publishing else .idle)
    | .awaitingInput => some .awaitingUser
    | .stopped => some .stopping
    | .error => some .done

private theorem completion_clock (ns : Session) (sandboxes : List Sandbox)
    (request : TurnCompleteRequest) :
    (completionPhase ns request = none ∧
      (svc.completion ns sandboxes request now).session.clock = ns.clock) ∨
    ∃ b phase, completionPhase ns request = some phase ∧ b.clock = ns.clock ∧
      (svc.completion ns sandboxes request now).session.clock =
        (svc.step.enter b phase now).clock := by
  unfold completionPhase Service.completion
  by_cases hstop : ns.stopRequested ∨ ns.phase = .stopping
  · rw [if_pos hstop, if_pos hstop]
    exact .inl ⟨rfl, rfl⟩
  · rw [if_neg hstop, if_neg hstop]
    right
    cases hstatus : request.status with
    | success | awaitingInput => exact ⟨ns, _, rfl, rfl, rfl⟩
    | stopped => exact ⟨{ ns with stopRequested := true }, _, rfl, rfl, rfl⟩
    | error =>
      exact ⟨{ ns with
        errorCode := (turnError ns.phase request).1, error := (turnError ns.phase request).2
        pushed := false, currentTurnID := "" }, _, rfl, rfl, rfl⟩

variable {retried : Bool} {sandboxes : List Sandbox} {request : TurnCompleteRequest} {d : Decision}
  {c : StepConfig} {op : Operation}

theorem completeTurn_eq_some {grant turnID : String}
    (h : svc.completeTurn grant turnID retried sandboxes request now s = some d) :
    d = svc.completeDecision s sandboxes turnID request now := by
  unfold Service.completeTurn at h
  split at h
  · cases h
  · split at h
    · cases h
    · exact (some.inj h).symm

theorem reportTurn_clock (s : Session) (turnID : String) (request : TurnCompleteRequest) :
    (reportTurn s turnID request).clock = s.clock := by
  simp [Session.clock, reportTurn]

theorem completeDecision_clock (sandboxes : List Sandbox) (turnID : String)
    (request : TurnCompleteRequest) :
    (svc.completeDecision s sandboxes turnID request now).session.clock =
      (svc.completion (reportTurn s turnID request) sandboxes request now).session.clock := by
  unfold Service.completeDecision
  rfl

theorem completeTurn_clock {grant turnID : String}
    (h : svc.completeTurn grant turnID retried sandboxes request now s = some d) :
    (completionPhase (reportTurn s turnID request) request = none ∧ d.session.clock = s.clock) ∨
    ∃ b phase, completionPhase (reportTurn s turnID request) request = some phase ∧
      b.clock = s.clock ∧ d.session.clock = (svc.step.enter b phase now).clock := by
  rw [completeTurn_eq_some h, completeDecision_clock, ← reportTurn_clock s turnID request]
  exact completion_clock (reportTurn s turnID request) sandboxes request

/-! ## The phase changes of each operation -/

/-- The phase changes an operation can make; `none` for those that leave it to the machine,
which may end a session in any phase. -/
def Operation.edges : Operation → Option (List (Phase × Phase))
  | .reconcile .. | .completeTurn .. | .failSession .. => none
  | .bootstrap .. => some [(.starting, .setup), (.starting, .running)]
  | .heartbeat .. => some [(.setup, .running)]
  | .events .. =>
    some [(.setup, .running), (.setup, .awaitingUser), (.running, .awaitingUser)]
  | .inbox .. => some [(.idle, .running), (.awaitingUser, .running)]
  | .answer .. | .selectEnvironment .. => some [(.awaitingUser, .queued)]
  | .prompt .. => some [(.done, .queued), (.awaitingUser, .queued)]
  | .stop .. => some []
  | .restart .. | .startOver .. => some [(.done, .queued)]
  | .startOverDrain .. | .archive .. | .pullRequestState .. => some [(.idle, .done)]
  | .approve .. => some [(.awaitingApproval, .queued), (.awaitingApproval, .done)]

/-- The operations that make at most one transition, and make it through
`enter` in a phase they check. -/
def Operation.quiet : Operation → Bool
  | .bootstrap .. | .heartbeat .. | .inbox .. | .answer .. | .prompt .. | .stop ..
  | .restart .. | .startOverDrain .. | .startOver .. | .approve .. | .failSession .. => true
  | _ => false

/-- One transition along one of `edges`, or none. -/
inductive Along (c : StepConfig) (now : Time) (edges : List (Phase × Phase)) (s t : Session) :
    Prop where
  | kept (h : t.clock = s.clock)
  | entered (b : Session) (p q : Phase) (hs : s.phase = p) (hb : b.clock = s.clock)
      (ht : t.clock = (c.enter b q now).clock) (hedge : (p, q) ∈ edges)

variable {edges : List (Phase × Phase)}

theorem Along.enter {b : Session} {p q : Phase} (hs : s.phase = p)
    (hb : b.clock = s.clock) (hedge : (p, q) ∈ edges) : Along c now edges s (c.enter b q now) :=
  .entered b p q hs hb rfl hedge

theorem Along.moves (h : Along c now edges s t)
    (hdeclared : ∀ edge ∈ edges, canTransition edge.1 edge.2) : Moves c now s t := by
  cases h with
  | kept h => exact .kept h
  | entered b p q hs hb ht hedge => exact .entered b q hb ht (hs ▸ hdeclared _ hedge)

theorem Along.phase (h : Along c now edges s t) :
    t.phase = s.phase ∨ (s.phase, t.phase) ∈ edges := by
  cases h with
  | kept h => exact .inl (Session.phase_eq_of_clock h)
  | entered b p q hs hb ht hedge =>
    have hq : t.phase = q := Session.phase_eq_of_clock ht
    rw [hs, hq]
    exact .inr hedge

theorem quiet_along (hquiet : op.quiet)
    (hedges : op.edges = some edges) (h : op.run svc sandboxes s = some d) :
    Along svc.step op.now edges s d.session := by
  cases op with
  | bootstrap grant turn restored now =>
    cases hedges
    obtain ⟨t, ht, rfl⟩ := map_eq_some_iff.1 h
    revert ht
    fun_cases Service.bootstrapMove svc grant turn restored now s
    all_goals rintro ⟨⟩
    · exact .kept rfl
    next hphase _ =>
      refine .enter (not_not.1 hphase) rfl ?_
      cases restored <;> simp
  | heartbeat now =>
    cases hedges
    cases h
    fun_cases Service.finishSetup svc now s
    · exact .kept rfl
    next hphase => exact .enter (not_not.1 hphase) rfl (by simp)
  | inbox sandboxID turnID now =>
    cases hedges
    obtain ⟨t, ht, rfl⟩ := map_eq_some_iff.1 h
    revert ht
    fun_cases Service.inboxMove svc sandboxID turnID now s
    all_goals rintro ⟨⟩
    split
    next hphase =>
      rcases hphase with hphase | hphase <;> exact .enter hphase rfl (by simp)
    next => exact .kept rfl
  | prompt recorded now =>
    cases hedges
    cases h
    fun_cases Service.prompt svc recorded now s
    next hphase =>
      rcases hphase with hphase | hphase
      · exact .enter hphase rfl (by simp)
      · exact .enter hphase.1 rfl (by simp)
    next => exact .kept rfl
  | stop userID now =>
    obtain ⟨t, ht, rfl⟩ := map_eq_some_iff.1 h
    obtain ⟨_, ⟨⟩⟩ := ite_none_left_eq_some.1 ht
    exact .kept rfl
  | answer | restart | startOver =>
    -- each checks the one phase it leaves
    cases hedges
    obtain ⟨t, ht, rfl⟩ := map_eq_some_iff.1 h
    obtain ⟨hphase, ⟨⟩⟩ := ite_none_left_eq_some.1 ht
    refine .enter (not_not.1 hphase) ?_ (by simp)
    try split
    all_goals rfl
  | startOverDrain now =>
    cases hedges
    obtain ⟨hphase, ⟨⟩⟩ := ite_none_left_eq_some.1 h
    exact .enter (not_not.1 (not_or.1 hphase).1) rfl (by simp)
  | approve userID reject now =>
    cases hedges
    obtain ⟨t, ht, rfl⟩ := map_eq_some_iff.1 h
    revert ht
    fun_cases Service.approve svc userID reject now s
    all_goals rintro ⟨⟩
    all_goals exact .enter (not_not.1 ‹_›) rfl (by simp)
  | failSession => cases hedges
  | _ => cases hquiet

/-- **A quiet operation is one transition.** -/
theorem quiet_moves (hquiet : op.quiet) (h : op.run svc sandboxes s = some d) :
    Moves svc.step op.now s d.session := by
  cases op with
  | failSession code message now =>
    obtain ⟨hphase, ⟨⟩⟩ := ite_none_left_eq_some.1 h
    exact .enter _ rfl (canTransition_done hphase)
  | _ => first | exact (quiet_along hquiet rfl h).moves (by decide) | cases hquiet

/-! ## Assignments by hand -/

theorem archive_clock {userID : String} (h : archive userID now s = some t) :
    (s.phase ≠ .idle ∧ t.clock = s.clock) ∨
      (s.phase = .idle ∧ t.clock = (endIdle now s).clock) := by
  revert h
  fun_cases archive userID now s
  · nofun
  next hdone =>
    intro h
    have hphase : s.phase ≠ .idle := fun hidle => nomatch hidle.symm.trans hdone
    exact .inl ⟨hphase, (congrArg Session.clock (some.inj h)).symm⟩
  next hidle =>
    rintro ⟨⟩
    exact .inr ⟨hidle, rfl⟩
  next hidle =>
    rintro ⟨⟩
    exact .inl ⟨hidle, rfl⟩

def Service.endsIdle (svc : Service) (event : ChangeRequestEvent) (link : PullRequest)
    (s : Session) : Bool :=
  event = .merged || svc.closes event (reportedLink event link) s

/-- The webhook ends an idle session when its request was merged or closes the
session, and leaves the clock of any other. -/
theorem dispatchState_clock (event : ChangeRequestEvent) (link : PullRequest) :
    (¬(s.phase = .idle ∧ svc.endsIdle event link s) ∧
        (svc.dispatchState event link now s).clock = s.clock) ∨
      (s.phase = .idle ∧ svc.endsIdle event link s ∧
        (svc.dispatchState event link now s).clock = (endIdle now s).clock) := by
  unfold Service.dispatchState Service.endsIdle
  generalize reportedLink event link = reported
  have hrecord : (svc.recordRequest reported now s).phase = s.phase := rfl
  by_cases hmerged : event = .merged
  · subst hmerged
    have hcloses : svc.closes .merged reported s = false := rfl
    by_cases hidle : s.phase = .idle
    · right
      simp only [hrecord, hidle]
      exact ⟨trivial, by simp, rfl⟩
    · left
      simp only [hrecord, hidle, false_and, not_false_eq_true, true_and]
      rfl
  · simp only [hmerged, false_and, if_false]
    by_cases hcloses : svc.closes event reported s
    · rw [if_pos hcloses]
      cases hphase : s.phase with
      | idle =>
        right
        refine ⟨rfl, hcloses, ?_⟩
        simp only [hrecord, hphase]
        rfl
      | _ =>
        left
        simp [Session.clock, Service.recordRequest, hphase]
    · rw [if_neg hcloses]
      exact .inl ⟨fun h => hcloses h.2, rfl⟩

theorem selectEnvironment_clock {environmentID codeHost repository : String}
    (h : selectEnvironment environmentID codeHost repository s = some t) :
    (s.phase ≠ .awaitingUser ∧ t.clock = s.clock) ∨ (s.phase = .awaitingUser ∧
        t.clock = { s.clock with phase := .queued, state := .pending }) := by
  revert h
  fun_cases selectEnvironment environmentID codeHost repository s
  all_goals rintro ⟨⟩
  next hsame => exact .inl ⟨hsame.2, rfl⟩
  next _ hwaiting => exact .inr ⟨not_not.1 (not_or.1 hwaiting).1, rfl⟩

private theorem patchApply_edges (patch : SessionPatch) :
    (svc.patchApply patch now s).phase = s.phase ∨ (s.phase, (svc.patchApply patch now s).phase) ∈
        [(Phase.setup, Phase.running), (.setup, .awaitingUser), (.running, .awaitingUser)] := by
  have hrunning : (svc.patchRunning patch now s).phase = s.phase ∨
      s.phase = .setup ∧ (svc.patchRunning patch now s).phase = .running := by
    unfold Service.patchRunning
    dsimp only
    split
    · rename_i h
      exact .inr ⟨h.2, rfl⟩
    · exact .inl rfl
  unfold Service.patchApply
  dsimp only
  split
  · rename_i h
    rcases hrunning with hphase | ⟨hsetup, -⟩
    · simp [← hphase, h.2]
    · simp [hsetup]
  · rcases hrunning with hphase | ⟨hsetup, hphase⟩
    · exact .inl hphase
    · simp [hsetup, hphase]

/-- **What an operation does to the phase.** -/
theorem run_edges (hedges : op.edges = some edges) (h : op.run svc sandboxes s = some d) :
    d.session.phase = s.phase ∨ (s.phase, d.session.phase) ∈ edges := by
  by_cases hquiet : op.quiet
  · exact (quiet_along hquiet hedges h).phase
  cases op with
  | events sandboxID patch now =>
    cases hedges
    obtain ⟨_, ⟨⟩⟩ := ite_none_left_eq_some.1 h
    exact patchApply_edges patch
  | archive userID now =>
    obtain ⟨t, ht, rfl⟩ := map_eq_some_iff.1 h
    cases hedges
    rcases archive_clock ht with ⟨-, hclock⟩ | ⟨hidle, hclock⟩
    · exact .inl (Session.phase_eq_of_clock hclock)
    · simp [Session.phase_eq_of_clock hclock, hidle, endIdle]
  | pullRequestState event link now =>
    cases h
    cases hedges
    rcases dispatchState_clock event link with ⟨-, hclock⟩ | ⟨hidle, -, hclock⟩
    · exact .inl (Session.phase_eq_of_clock hclock)
    · simp [Session.phase_eq_of_clock hclock, hidle, endIdle]
  | selectEnvironment environmentID codeHost repository now =>
    obtain ⟨t, ht, rfl⟩ := map_eq_some_iff.1 h
    cases hedges
    rcases selectEnvironment_clock ht with ⟨-, hclock⟩ | ⟨hwaiting, hclock⟩
    · exact .inl (Session.phase_eq_of_clock hclock)
    · have hqueued : t.phase = .queued := congrArg Clock.phase hclock
      simp [hqueued, hwaiting]
  | _ => first | exact absurd rfl hquiet | cases hedges

/-- The operations that leave the session its sandbox and its current turn. -/
def Operation.keepsTurn : Operation → Bool
  | .heartbeat .. | .events .. | .answer .. | .stop .. | .approve .. | .archive ..
  | .pullRequestState .. | .selectEnvironment .. => true
  | _ => false

theorem patchApply_keepsTurn (patch : SessionPatch) :
    (svc.patchApply patch now s).sandboxID = s.sandboxID ∧
      (svc.patchApply patch now s).currentTurnID = s.currentTurnID := by
  have hrunning : (svc.patchRunning patch now s).sandboxID = s.sandboxID ∧
      (svc.patchRunning patch now s).currentTurnID = s.currentTurnID := by
    unfold Service.patchRunning
    dsimp only
    split <;> exact ⟨rfl, rfl⟩
  unfold Service.patchApply
  dsimp only
  split <;> exact hrunning

theorem dispatchState_keepsTurn (event : ChangeRequestEvent) (link : PullRequest) :
    (svc.dispatchState event link now s).sandboxID = s.sandboxID ∧
      (svc.dispatchState event link now s).currentTurnID = s.currentTurnID := by
  unfold Service.dispatchState
  dsimp only
  have hrecorded : (svc.recordRequest (reportedLink event link) now s).sandboxID = s.sandboxID ∧
      (svc.recordRequest (reportedLink event link) now s).currentTurnID = s.currentTurnID :=
    ⟨rfl, rfl⟩
  generalize svc.recordRequest (reportedLink event link) now s = recorded at hrecorded ⊢
  by_cases hmerged : event = .merged ∧ recorded.phase = .idle
  · split <;> exact hrecorded
  · split
    · cases recorded.phase <;> exact hrecorded
    · exact hrecorded

theorem run_keepsTurn (hop : op.keepsTurn) (h : op.run svc sandboxes s = some d) :
    d.session.sandboxID = s.sandboxID ∧ d.session.currentTurnID = s.currentTurnID := by
  cases op with
  | heartbeat now =>
    cases h
    fun_cases Service.finishSetup svc now s <;> exact ⟨rfl, rfl⟩
  | events sandboxID patch now =>
    obtain ⟨_, ⟨⟩⟩ := ite_none_left_eq_some.1 h
    exact patchApply_keepsTurn patch
  | pullRequestState event link now =>
    cases h
    exact dispatchState_keepsTurn event link
  | answer | stop | approve | archive | selectEnvironment =>
    obtain ⟨t, ht, rfl⟩ := map_eq_some_iff.1 h
    simp only [Service.answer, Coding.stop, Service.approve, Coding.archive,
      Coding.selectEnvironment] at ht
    repeat' split at ht
    all_goals cases ht
    all_goals exact ⟨rfl, rfl⟩
  | _ => cases hop

end Operations

end Flow.Ports.Coding
