import Flow.Ports.CodingMoves

/-!
# Ending a session releases its sandboxes

A session that is done is never leased again, so whatever it still holds is
held by nobody.  `finish` asks to stop every sandbox that is live or wanted
running and to revoke the tokens of every sandbox; the operations that reach
done without it ask for nothing.
-/

namespace Flow.Ports.Coding

open Option

/-- The actions stop every sandbox that is live or wanted running, and revoke
the tokens of every sandbox. -/
def Releases (sandboxes : List Sandbox) (actions : List Action) : Prop :=
  ∀ record ∈ sandboxes,
    (record.desired = .running ∨ liveSandbox record →
      ⟨.stopSandbox, record.id⟩ ∈ actions) ∧ ⟨.revokeTokens, record.id⟩ ∈ actions

/-- The operation moves a session to done without `finish`: it rejects the
session, archives it, or reports a pull request. -/
def Operation.endsWithoutFinish : Operation → Bool
  | .approve .. | .archive .. | .pullRequestState .. => true
  | _ => false

section Machine

variable {c : StepConfig} {s : Session} {now : Time}

theorem foldl_release_releases (sandboxes : List Sandbox) (actions : List Action) :
    Releases sandboxes (sandboxes.foldl release actions) := by
  intro record hrecord
  constructor
  · intro hwanted
    exact mem_foldl_release.2 (.inr ⟨record, hrecord, .inr ⟨rfl, hwanted⟩⟩)
  · exact mem_foldl_release.2 (.inr ⟨record, hrecord, .inl rfl⟩)

theorem finish_releases (d : Decision) (sandboxes : List Sandbox) :
    Releases sandboxes (c.finish d sandboxes now).actions :=
  foldl_release_releases sandboxes d.actions

theorem fail_releases (d : Decision) (sandboxes : List Sandbox) (code : ErrorCode)
    (message : String) :
    Releases sandboxes (c.fail d sandboxes code message now).actions :=
  finish_releases _ sandboxes

theorem step_releases {obs : Observation} (hs : s.phase ≠ .done)
    (hd : (c.step s obs).session.phase = .done) :
    Releases obs.sandboxes (c.step s obs).actions := by
  have hcase := step_case c s obs
  generalize (c.step s obs).session = t at hcase hd
  generalize (c.step s obs).actions = actions at hcase ⊢
  cases hcase with
  | ended code error h => exact foldl_release_releases obs.sandboxes []
  | same | provision _ | publish _ | drained _ | forgotten _ => exact absurd hd hs
  | stopped _ _ _ _ _ | admitted _ _ | restarted _ | retried _ _ _ _ | requeued _ _ =>
    simp at hd

theorem afterProvision_releases {d : Decision} {sandboxes : List Sandbox}
    {outcome : ProvisionOutcome} (hs : d.session.phase ≠ .done)
    (hd : (c.afterProvision d sandboxes outcome now).session.phase = .done) :
    Releases sandboxes (c.afterProvision d sandboxes outcome now).actions := by
  revert hd
  fun_cases StepConfig.afterProvision c d sandboxes outcome now
  · simp
  · simp
  · have hphase := Session.phase_eq_of_clock (applyTo_clock outcome d.session)
    exact fun hd => absurd (hphase ▸ hd) hs
  · exact fun _ => fail_releases _ sandboxes _ _

theorem afterPublish_releases {d : Decision} {sandboxes : List Sandbox}
    {outcome : PublishOutcome} (hs : d.session.phase ≠ .done)
    (hd : (c.afterPublish d sandboxes outcome now).session.phase = .done) :
    Releases sandboxes (c.afterPublish d sandboxes outcome now).actions := by
  revert hd
  fun_cases StepConfig.afterPublish c d sandboxes outcome now
  · simp
  · exact fun hd => absurd hd hs
  · exact fun _ => fail_releases d sandboxes _ _

/-- A reconciler pass that ends the session, by its step, by provisioning or by
publishing, releases its sandboxes. -/
theorem reconcile_releases {obs : Observation} {provisioned : ProvisionOutcome}
    {published : PublishOutcome} (hs : s.phase ≠ .done)
    (hd : (c.reconcile s obs provisioned published).session.phase = .done) :
    Releases obs.sandboxes (c.reconcile s obs provisioned published).actions := by
  have hprovisioned : (c.stepProvision s obs provisioned).session.phase = .done →
      Releases obs.sandboxes (c.stepProvision s obs provisioned).actions := by
    fun_cases StepConfig.stepProvision c s obs provisioned
    next h =>
      apply afterProvision_releases
      show (c.step s obs).session.phase ≠ .done
      simp [(step_provision_phase h).1]
    next => exact step_releases hs
  revert hd
  fun_cases StepConfig.reconcile c s obs provisioned published
  next h =>
    apply afterPublish_releases
    show (c.stepProvision s obs provisioned).session.phase ≠ .done
    simp [stepProvision_publish_phase h]
  next => exact hprovisioned

end Machine

section Operations

variable {svc : Service} {s t : Session} {now : Time}

/-- A completion that ends the session is the completion of a failed turn. -/
theorem completeTurn_releases {grant turnID : String} {retried : Bool}
    {sandboxes : List Sandbox} {request : TurnCompleteRequest} {d : Decision}
    (h : svc.completeTurn grant turnID retried sandboxes request now s = some d)
    (hs : s.phase ≠ .done) (hd : d.session.phase = .done) :
    Releases sandboxes d.actions := by
  rw [completeTurn_eq_some h] at hd ⊢
  rw [← reportTurn_phase s turnID request] at hs
  unfold Service.completeDecision Service.completion at hd ⊢
  dsimp only at hd ⊢
  split at hd
  · exact absurd hd hs
  · rename_i hstop
    rw [if_neg hstop]
    cases hstatus : request.status with
    | success =>
      rw [hstatus] at hd
      simp only [enter_phase] at hd
      split at hd <;> cases hd
    | awaitingInput => simp [hstatus] at hd
    | stopped => simp [hstatus] at hd
    | error => exact fail_releases _ sandboxes _ _

theorem releases_nil_iff (sandboxes : List Sandbox) : Releases sandboxes [] ↔ sandboxes = [] := by
  constructor
  · intro h
    cases sandboxes with
    | nil => rfl
    | cons record rest => exact absurd (h record List.mem_cons_self).2 (by simp)
  · rintro rfl
    intro record hrecord
    simp at hrecord

/-- **Ending a session releases its sandboxes** exactly when it ends through
`finish`, or has no sandboxes. -/
theorem ending_releases_iff (svc : Service) (sandboxes : List Sandbox) (s : Session)
    (op : Operation) (d : Decision) (h : op.run svc sandboxes s = some d)
    (hs : s.phase ≠ .done) (hd : d.session.phase = .done) :
    Releases sandboxes d.actions ↔ ¬op.endsWithoutFinish ∨ sandboxes = [] := by
  have hfinish : op.endsWithoutFinish = false → Releases sandboxes d.actions →
      (Releases sandboxes d.actions ↔ ¬op.endsWithoutFinish ∨ sandboxes = []) := by
    intro hop hreleases
    simp [hop, hreleases]
  have hnothing : op.endsWithoutFinish = true → d.actions = [] →
      (Releases sandboxes d.actions ↔ ¬op.endsWithoutFinish ∨ sandboxes = []) := by
    intro hop hactions
    rw [hactions, releases_nil_iff]
    simp [hop]
  cases op with
  | reconcile obs provisioned published =>
    cases h
    exact hfinish rfl (reconcile_releases hs hd)
  | completeTurn grant turnID retried request now =>
    exact hfinish rfl (completeTurn_releases h hs hd)
  | startOverDrain now =>
    obtain ⟨_, ⟨⟩⟩ := ite_none_left_eq_some.1 h
    exact hfinish rfl (finish_releases _ sandboxes)
  | failSession code message now =>
    obtain ⟨_, ⟨⟩⟩ := ite_none_left_eq_some.1 h
    exact hfinish rfl (fail_releases _ sandboxes code message)
  | approve | archive =>
    obtain ⟨t, -, rfl⟩ := map_eq_some_iff.1 h
    exact hnothing rfl rfl
  | pullRequestState event link now =>
    cases h
    exact hnothing rfl rfl
  | _ =>
    -- No other operation has an edge to done.
    rcases run_edges rfl h with hsame | hedge
    · exact absurd (hsame.symm.trans hd) hs
    · simp [hd] at hedge

end Operations

/-- An idle session whose sandbox `sb-1` is warm. -/
def warm : Session :=
  defaultService.step.enter
    { id := "s-1", workspaceKey := "acme", sandboxID := "sb-1", lastTurnID := "turn-1" }
    .idle minute

def warmSandbox : Sandbox := { id := "sb-1", phase := .running }

theorem idle_timeout_releases :
    Releases [warmSandbox]
      (defaultConfig.reconcile warm { now := 20 * minute, sandboxes := [warmSandbox] }
        {} {}).actions :=
  (ending_releases_iff defaultService [warmSandbox] warm
    (.reconcile { now := 20 * minute } {} {}) _ rfl (by decide) (by decide)).2 (.inl (by decide))

/-- **Archiving an idle session keeps its sandbox**: the session ends, and the
running sandbox is neither stopped nor are its tokens revoked. -/
theorem archive_keeps_sandbox :
    ¬∀ (svc : Service) (sandboxes : List Sandbox) (s : Session) (op : Operation) (d : Decision),
      op.run svc sandboxes s = some d → s.phase ≠ .done → d.session.phase = .done →
      Releases sandboxes d.actions := by
  intro hall
  have hreleases := hall defaultService [warmSandbox] warm (.archive "u-1" (2 * minute)) _ rfl
    (by decide) (by decide)
  exact absurd (hreleases warmSandbox List.mem_cons_self).2 (by decide)

end Flow.Ports.Coding
