import Flow.Ports.CodingServing

/-!
# What an operation does with the session's sandbox

An operation can do three things with the sandbox of a session: keep it, let
go of it, or, as a pass that provisions, put another one in its place.
`Assigns` says what its decision then looks like: which sandbox the document
names, which sandboxes the actions stop and revoke, and that a decision with
such actions changes the document, so that it is written under a new version.
-/

namespace Flow.Ports.Coding

open List Option

def Phase.usesSandbox (phase : Phase) : Bool :=
  phase ≠ .stopping ∧ phase ≠ .done

def Phase.needsSandbox (phase : Phase) : Bool :=
  phase = .starting ∨ phase = .setup ∨ phase = .running

theorem usesSandbox_of_needs {phase : Phase} (h : phase.needsSandbox) : phase.usesSandbox := by
  revert h
  cases phase <;> decide

/-- What a decision on the document `s` does with sandboxes, when provisioning
gave `given`. -/
structure Assigns (s : Session) (sandboxes : List Sandbox) (given : Option String)
    (d : Decision) : Prop where
  uses : d.session.phase.usesSandbox → d.session.sandboxID ≠ "" → s.phase.usesSandbox
  serving : d.session.phase.usesSandbox → d.session.sandboxID ≠ "" →
    d.session.sandboxID = s.sandboxID ∧ (∀ a ∈ d.actions, ¬a.touches) ∨
      given = some d.session.sandboxID ∧
        ∀ a ∈ d.actions, a.touches → s.phase = .starting ∧ a.sandboxID = s.sandboxID
  needs : (s.phase.needsSandbox → s.sandboxID ≠ "") →
    d.session.phase.needsSandbox → d.session.sandboxID ≠ ""
  revokes : ∀ x, ⟨.revokeTokens, x⟩ ∈ d.actions → ∃ record ∈ sandboxes, record.id = x ∧
    (⟨.stopSandbox, x⟩ ∈ d.actions ∨ record.desired = .stopped)
  changes : ∀ a ∈ d.actions, a.touches → s.phase.usesSandbox →
    d.session.phase ≠ s.phase ∨ d.session.sandboxAttempts ≠ s.sandboxAttempts

/-! ## Decisions of the machine -/

variable {kind : ActionKind}

section Machine

variable {c : StepConfig} {s : Session} {sandboxes : List Sandbox} {given : Option String}
  {d : Decision} {now : Time}

theorem Assigns.of_untouched (huses : d.session.phase.usesSandbox → s.phase.usesSandbox)
    (hid : d.session.sandboxID = s.sandboxID ∨ d.session.sandboxID = "")
    (hneeds : d.session.phase.needsSandbox → d.session.sandboxID = s.sandboxID ∧
      s.phase.needsSandbox)
    (hactions : ∀ a ∈ d.actions, ¬a.touches) : Assigns s sandboxes given d where
  uses := fun hd _ => huses hd
  serving := fun _ hne => .inl ⟨hid.resolve_right hne, hactions⟩
  needs := fun hs hd => by
    rw [(hneeds hd).1]
    exact hs (hneeds hd).2
  revokes := fun _ hx => absurd rfl (hactions _ hx)
  changes := fun a ha htouches => absurd htouches (hactions a ha)

def RevokesStopped (sandboxes : List Sandbox) (actions : List Action) : Prop :=
  ∀ x, ⟨.revokeTokens, x⟩ ∈ actions → ∃ record ∈ sandboxes, record.id = x ∧
    (⟨.stopSandbox, x⟩ ∈ actions ∨ record.desired = .stopped)

theorem revokes_foldl_release {actions : List Action}
    (hactions : RevokesStopped sandboxes actions) :
    RevokesStopped sandboxes (sandboxes.foldl release actions) := by
  intro x hx
  rcases mem_foldl_release.1 hx with hx | ⟨record, hrecord, hx | ⟨hx, -⟩⟩
  · obtain ⟨record, hrecord, hid, hstop⟩ := hactions x hx
    exact ⟨record, hrecord, hid, hstop.imp_left fun h => mem_foldl_release.2 (.inl h)⟩
  · have hid : record.id = x := (congrArg Action.sandboxID hx).symm
    refine ⟨record, hrecord, hid, ?_⟩
    cases hdesired : record.desired with
    | running =>
      rw [← hid]
      exact .inl (mem_foldl_release.2 (.inr ⟨record, hrecord, .inr ⟨rfl, .inl hdesired⟩⟩))
    | stopped => exact .inr rfl
  · exact absurd (congrArg Action.kind hx) (by simp)

theorem finish_assigns (hactions : RevokesStopped sandboxes d.actions) :
    Assigns s sandboxes given (c.finish d sandboxes now) where
  uses := fun hd => absurd hd (by simp [StepConfig.finish, Phase.usesSandbox])
  serving := fun hd => absurd hd (by simp [StepConfig.finish, Phase.usesSandbox])
  needs := fun _ hd => absurd hd (by simp [StepConfig.finish, Phase.needsSandbox])
  revokes := revokes_foldl_release hactions
  changes := by
    intro a _ _ hs
    left
    rintro hphase
    simp [← hphase, StepConfig.finish, Phase.usesSandbox] at hs

theorem step_assigns (c : StepConfig) (s : Session) (obs : Observation)
    (given : Option String) : Assigns s obs.sandboxes given (c.step s obs) := by
  have hcase := step_case c s obs
  generalize c.step s obs = d at hcase ⊢
  obtain ⟨t, actions, nextIn⟩ := d
  dsimp only at hcase
  cases hcase with
  | same | provision h | publish h =>
    exact .of_untouched id (.inl rfl) (fun h => ⟨rfl, h⟩) (by simp [Action.touches])
  | forgotten h =>
    refine .of_untouched id (.inr rfl) ?_ (by simp)
    simp [Phase.needsSandbox, h]
  | stopped code error h hstopping hwhy =>
    refine .of_untouched ?_ (.inl rfl) ?_ (by simp [Action.touches])
    · simp [Phase.usesSandbox]
    · simp [Phase.needsSandbox]
  | admitted h _ | restarted h =>
    refine .of_untouched ?_ (.inl rfl) ?_ (by simp [Action.touches])
    · simp [Phase.usesSandbox, h]
    · simp [Phase.needsSandbox]
  | drained h =>
    have hs : ¬s.phase.usesSandbox := by simp [Phase.usesSandbox, h]
    refine ⟨fun hd _ => hd, fun hd => absurd hd hs, fun hneeds => hneeds, ?_, ?_⟩
    · intro x hx
      exact absurd (mem_of_mem_foldl_drain hx (by simp)) (by simp)
    · exact fun _ _ _ huses => absurd huses hs
  | ended code error h =>
    have hfinish : Assigns s obs.sandboxes given
        (c.finish { session := { s with errorCode := code, error := error } }
          obs.sandboxes obs.now) := finish_assigns nofun
    exact { hfinish with }
  | retried h record snapshotID hrecord =>
    refine ⟨fun _ hne => absurd rfl hne, fun _ hne => absurd rfl hne, ?_, ?_, ?_⟩
    · simp [Phase.needsSandbox]
    · intro x hx
      have hid : x = record.id := by simpa using hx
      refine ⟨record, mem_of_find?_eq_some hrecord, hid.symm, .inl ?_⟩
      simp [hid]
    · intro a _ _ _
      exact .inl (by simp [h])
  | requeued h existing =>
    refine ⟨fun _ hne => absurd rfl hne, fun _ hne => absurd rfl hne, ?_, ?_, ?_⟩
    · simp [Phase.needsSandbox]
    · intro x hx
      exact absurd (mem_of_mem_foldl_drain hx (by simp)) (by simp)
    · intro a _ _ _
      rcases h with h | h <;> simp [h]

/-- A decision that asks for a sandbox: it keeps the sandbox it has without
touching any, or gives up on the start of its current one. -/
structure Provisions (s : Session) (d : Decision) : Prop where
  phase : d.session.phase = .provisioning
  uses : s.phase.usesSandbox
  sandbox : d.session.sandboxID = s.sandboxID ∧ (∀ a ∈ d.actions, ¬a.touches) ∨
    d.session.sandboxID = ""
  touches : ∀ a ∈ d.actions, a.touches → s.phase = .starting ∧ a.sandboxID = s.sandboxID ∧
    d.session.sandboxAttempts ≠ s.sandboxAttempts

theorem id_of_currentSandbox {record : Sandbox} (h : currentSandbox s sandboxes = some record) :
    record.id = s.sandboxID := by
  have hid := find?_some h
  exact (of_decide_eq_true hid).1

theorem step_provisions {obs : Observation} (h : (c.step s obs).has .provision) :
    Provisions s (c.step s obs) := by
  have hphase := (step_provision_phase h).1
  have hcase := step_case c s obs
  rw [Decision.has_iff] at h
  generalize c.step s obs = d at hcase h hphase ⊢
  obtain ⟨t, actions, nextIn⟩ := d
  obtain ⟨a, ha, hkind⟩ := h
  dsimp only at hcase ha hphase
  cases hcase with
  | same | forgotten _ => simp at ha
  | publish _ | stopped _ _ _ _ _ => simp_all
  | drained _ | requeued _ _ =>
    exact absurd (mem_of_mem_foldl_drain ha (by simp [hkind])) (by simp)
  | ended _ _ _ => simp at hphase
  | provision hs | admitted hs _ | restarted hs =>
    exact ⟨hphase, by simp [Phase.usesSandbox, hs], .inl ⟨rfl, by simp [Action.touches]⟩,
      by simp [Action.touches]⟩
  | retried hs record snapshotID hrecord =>
    refine ⟨hphase, by simp [Phase.usesSandbox, hs], .inr rfl, ?_⟩
    have hid := id_of_currentSandbox hrecord
    intro a ha htouches
    simp only [mem_cons, not_mem_nil, or_false] at ha
    rcases ha with rfl | rfl | rfl
    · exact ⟨hs, hid, by simp⟩
    · exact ⟨hs, hid, by simp⟩
    · simp [Action.touches] at htouches

theorem applyTo_sandboxAttempts (outcome : ProvisionOutcome) (s : Session) :
    (outcome.applyTo s).sandboxAttempts = s.sandboxAttempts := by
  unfold ProvisionOutcome.applyTo
  cases outcome.apply with
  | none => rfl
  | some resolved => rfl

/-- Provisioning puts the sandbox it gives in place of the one that the session
had, or leaves the session as the step decided. -/
theorem afterProvision_assigns {outcome : ProvisionOutcome} (h : Provisions s d)
    (hrevokes : RevokesStopped sandboxes d.actions)
    (hgiven : outcome.sandboxID ≠ "" → given = some outcome.sandboxID) :
    Assigns s sandboxes given (c.afterProvision d sandboxes outcome now) := by
  have hid := applyTo_sandboxID outcome d.session
  have hattempts := applyTo_sandboxAttempts outcome d.session
  have hphase : (outcome.applyTo d.session).phase = .provisioning :=
    (Session.phase_eq_of_clock (applyTo_clock outcome d.session)).trans h.phase
  -- Without a new sandbox the session has the one it had, or none.
  have hkept : ∀ (t : Session) (nextIn : Duration), t.sandboxID = d.session.sandboxID →
      t.sandboxAttempts = d.session.sandboxAttempts → ¬t.phase.needsSandbox →
      Assigns s sandboxes given ⟨t, d.actions, nextIn⟩ := by
    intro t nextIn htid htattempts htneeds
    refine ⟨fun _ _ => h.uses, fun _ hne => .inl ?_, fun _ hneeds => absurd hneeds htneeds,
      hrevokes, ?_⟩
    · rw [htid] at hne ⊢
      exact h.sandbox.resolve_right hne
    · intro a ha htouches _
      right
      rw [htattempts]
      exact (h.touches a ha htouches).2.2
  fun_cases StepConfig.afterProvision c d sandboxes outcome now
  next hne =>
    refine ⟨fun _ _ => h.uses, fun _ _ => .inr ⟨hgiven hne, ?_⟩, fun _ _ => hne, hrevokes, ?_⟩
    · intro a ha htouches
      exact ⟨(h.touches a ha htouches).1, (h.touches a ha htouches).2.1⟩
    · intro a ha htouches _
      right
      rw [hattempts]
      exact (h.touches a ha htouches).2.2
  · exact hkept _ _ hid hattempts (by simp [Phase.needsSandbox])
  · exact hkept _ _ hid hattempts (by simp +zetaDelta [Phase.needsSandbox, hphase])
  · exact finish_assigns hrevokes

theorem mem_without {a : Action} (h : a.kind ≠ kind) :
    a ∈ (d.without kind).actions ↔ a ∈ d.actions := by
  simp [Decision.without, h]

theorem Assigns.without (h : Assigns s sandboxes given d)
    (hstop : kind ≠ .stopSandbox) : Assigns s sandboxes given (d.without kind) where
  uses := h.uses
  serving := by
    intro hd hne
    apply (h.serving hd hne).imp
    · exact fun hkept => ⟨hkept.1, fun a ha => hkept.2 a (mem_of_mem_filter ha)⟩
    · exact fun hgiven => ⟨hgiven.1, fun a ha => hgiven.2 a (mem_of_mem_filter ha)⟩
  needs := h.needs
  revokes := by
    intro x hx
    obtain ⟨record, hrecord, hid, hstopped⟩ := h.revokes x (mem_of_mem_filter hx)
    exact ⟨record, hrecord, hid, hstopped.imp_left (mem_without hstop.symm).2⟩
  changes := fun a ha => h.changes a (mem_of_mem_filter ha)

theorem Provisions.without (h : Provisions s d) : Provisions s (d.without kind) where
  phase := h.phase
  uses := h.uses
  sandbox := h.sandbox.imp_left fun hkept =>
    ⟨hkept.1, fun a ha => hkept.2 a (mem_of_mem_filter ha)⟩
  touches := fun a ha => h.touches a (mem_of_mem_filter ha)

theorem afterPublish_assigns {outcome : PublishOutcome} (h : Assigns s sandboxes given d)
    (hphase : d.session.phase = .publishing) (huntouched : ∀ a ∈ d.actions, ¬a.touches) :
    Assigns s sandboxes given (c.afterPublish d sandboxes outcome now) := by
  have hd : d.session.phase.usesSandbox := by simp [Phase.usesSandbox, hphase]
  have hid : (outcome.applyTo d.session).sandboxID = d.session.sandboxID := by
    unfold PublishOutcome.applyTo
    cases outcome.pullRequest with
    | none => rfl
    | some pr => rfl
  have hkept : ∀ (t : Session) (nextIn : Duration), t.sandboxID = d.session.sandboxID →
      ¬t.phase.needsSandbox → Assigns s sandboxes given ⟨t, d.actions, nextIn⟩ := by
    intro t nextIn htid htneeds
    refine ⟨fun _ hne => ?_, fun _ hne => ?_, fun _ hneeds => absurd hneeds htneeds,
      h.revokes, fun a ha htouches => absurd htouches (huntouched a ha)⟩
    · exact h.uses hd (by rwa [← htid])
    · have hserving := h.serving hd (by rwa [← htid])
      rwa [← htid] at hserving
  fun_cases StepConfig.afterPublish c d sandboxes outcome now
  · exact hkept _ _ hid (by simp [Phase.needsSandbox])
  · exact hkept _ _ rfl (by simp +zetaDelta [Phase.needsSandbox, hphase])
  · exact finish_assigns h.revokes

theorem step_publish_untouched {obs : Observation} (h : (c.step s obs).has .publish) :
    ∀ a ∈ (c.step s obs).actions, ¬a.touches := by
  rw [(step_publish_phase h).2]
  simp [Action.touches]

theorem reconcile_assigns (c : StepConfig) (s : Session) (obs : Observation)
    (provisioned : ProvisionOutcome) (published : PublishOutcome)
    (hgiven : (c.step s obs).has .provision → provisioned.sandboxID ≠ "" →
      given = some provisioned.sandboxID) :
    Assigns s obs.sandboxes given (c.reconcile s obs provisioned published) := by
  have hstep := step_assigns c s obs given
  by_cases hprovision : (c.step s obs).has .provision
  · have hd : c.stepProvision s obs provisioned =
        c.afterProvision ((c.step s obs).without .provision) obs.sandboxes provisioned obs.now :=
      if_pos hprovision
    have hpublish : ¬(c.stepProvision s obs provisioned).has .publish := by
      rw [hd]
      refine afterProvision_not_publish ?_ obs.sandboxes provisioned
      exact fun h => (step_provision_phase hprovision).2 (has_without h)
    have hreconcile : c.reconcile s obs provisioned published =
        c.stepProvision s obs provisioned := if_neg hpublish
    rw [hreconcile, hd]
    exact afterProvision_assigns (step_provisions hprovision).without
      (hstep.without (by simp)).revokes (hgiven hprovision)
  · have hd : c.stepProvision s obs provisioned = c.step s obs := if_neg hprovision
    unfold StepConfig.reconcile
    rw [hd]
    dsimp only
    split
    next hpublish =>
      apply afterPublish_assigns (hstep.without (by simp)) (step_publish_phase hpublish).1
      exact fun a ha => step_publish_untouched hpublish a (mem_of_mem_filter ha)
    next => exact hstep

end Machine

variable {op : Operation}

section Operations

variable {svc : Service} {s : Session} {sandboxes : List Sandbox} {d : Decision} {now : Time}

theorem completeTurn_assigns {grant turnID : String} {retried : Bool}
    {request : TurnCompleteRequest} (given : Option String) (hs : s.phase ≠ .done)
    (h : svc.completeTurn grant turnID retried sandboxes request now s = some d) :
    Assigns s sandboxes given d := by
  rw [completeTurn_eq_some h]
  have hreported := reportTurn_phase s turnID request
  have hid := reportTurn_sandboxID s turnID request
  unfold Service.completeDecision Service.completion
  generalize reportTurn s turnID request = ns at hreported hid ⊢
  by_cases hstop : ns.stopRequested ∨ ns.phase = .stopping
  · rw [if_pos hstop]
    refine .of_untouched ?_ (.inl hid) ?_ (by simp)
    · exact fun huses => hreported ▸ huses
    · exact fun hneeds => ⟨hid, hreported ▸ hneeds⟩
  · rw [if_neg hstop]
    have huses : s.phase.usesSandbox := by
      rw [← hreported] at hs ⊢
      simpa [Phase.usesSandbox, hs] using (not_or.1 hstop).2
    cases request.status with
    | success =>
      refine .of_untouched (fun _ => huses) (.inl hid) ?_ (by simp)
      dsimp only
      split <;> simp [Phase.needsSandbox]
    | awaitingInput | stopped =>
      refine .of_untouched (fun _ => huses) (.inl hid) ?_ (by simp)
      simp [Phase.needsSandbox]
    | error =>
      have hfinish : Assigns s sandboxes given
          (svc.step.fail { session := ns } sandboxes (turnError ns.phase request).1
            (turnError ns.phase request).2 now) := finish_assigns nofun
      exact { hfinish with }

/-- **What an operation that decides does with sandboxes.** -/
theorem run_assigns {caller : Caller} (hop : op.decides caller)
    (hadvances : op.advances svc s sandboxes) (h : op.run svc sandboxes s = some d) :
    Assigns s sandboxes (op.given svc s sandboxes) d := by
  cases op with
  | reconcile obs provisioned published =>
    cases h
    refine reconcile_assigns svc.step s { obs with sandboxes := sandboxes } provisioned
      published ?_
    intro hprovision hne
    exact if_pos ⟨hprovision, hne⟩
  | completeTurn grant turnID retried request now =>
    exact completeTurn_assigns _ (of_decide_eq_true hadvances) h
  | failSession | startOverDrain =>
    obtain ⟨_, ⟨⟩⟩ := ite_none_left_eq_some.1 h
    exact finish_assigns nofun
  | _ => cases hop

/-! ## Operations that read and write in one step -/

/-- What an operation that takes no sandbox action does with the session's
sandbox. -/
structure KeepsSandbox (s t : Session) : Prop where
  serving : t.phase.usesSandbox → t.sandboxID ≠ "" →
    s.phase.usesSandbox ∧ t.sandboxID = s.sandboxID
  needs : (s.phase.needsSandbox → s.sandboxID ≠ "") →
    t.phase.needsSandbox → t.sandboxID ≠ ""

variable {t : Session}

theorem resetForTurn_keepsSandbox {b : Session} (recorded : Bool) :
    KeepsSandbox s (svc.resetForTurn b now recorded) :=
  ⟨fun _ hne => absurd rfl hne,
    fun _ hneeds => absurd hneeds (by simp [Service.resetForTurn, Phase.needsSandbox])⟩

theorem keepsSandbox_of_edges {edges : List (Phase × Phase)} (hedges : op.edges = some edges)
    (h : op.run svc sandboxes s = some d) (hid : d.session.sandboxID = s.sandboxID)
    (hall : ∀ edge ∈ edges, (edge.2.usesSandbox → edge.1.usesSandbox) ∧
      (edge.2.needsSandbox → edge.1.needsSandbox)) : KeepsSandbox s d.session := by
  have hphase : (d.session.phase.usesSandbox → s.phase.usesSandbox) ∧
      (d.session.phase.needsSandbox → s.phase.needsSandbox) := by
    rcases run_edges hedges h with hsame | hedge
    · rw [hsame]
      exact ⟨id, id⟩
    · exact hall _ hedge
  refine ⟨fun huses _ => ⟨hphase.1 huses, hid⟩, fun hs hneeds => ?_⟩
  rw [hid]
  exact hs (hphase.2 hneeds)

theorem updates_keepsSandbox (hop : op.updates)
    (h : op.run svc sandboxes s = some d) : KeepsSandbox s d.session := by
  cases op with
  | prompt recorded now =>
    cases h
    fun_cases Service.prompt svc recorded now s
    · exact resetForTurn_keepsSandbox recorded
    · exact ⟨fun huses _ => ⟨huses, rfl⟩, id⟩
  | restart _ recorded _ | startOver _ recorded _ =>
    obtain ⟨t, ht, rfl⟩ := map_eq_some_iff.1 h
    obtain ⟨_, ⟨⟩⟩ := ite_none_left_eq_some.1 ht
    exact resetForTurn_keepsSandbox recorded
  | stop userID now => exact keepsSandbox_of_edges rfl h (run_keepsTurn rfl h).1 (by simp)
  | answer | approve | archive | pullRequestState | selectEnvironment =>
    exact keepsSandbox_of_edges rfl h (run_keepsTurn rfl h).1 (by decide)
  | _ => cases hop

theorem answers_keepsSandbox {grant : String} {read : Session}
    (hgrant : grant ≠ "") (hop : op.answers grant read)
    (h : op.run svc sandboxes s = some d) : KeepsSandbox s d.session := by
  simp only [Operation.answers, Bool.and_eq_true] at hop
  replace hop := hop.2
  cases op with
  | bootstrap sandboxID turn restored now =>
    refine keepsSandbox_of_edges rfl h ?_ (by decide)
    obtain ⟨t, ht, rfl⟩ := map_eq_some_iff.1 h
    revert ht
    fun_cases Service.bootstrapMove svc sandboxID turn restored now s
    all_goals rintro ⟨⟩
    all_goals rfl
  | heartbeat | events =>
    exact keepsSandbox_of_edges rfl h (run_keepsTurn rfl h).1 (by decide)
  | inbox sandboxID turnID now =>
    have hsandbox : sandboxID = grant := by
      simp only [Bool.and_eq_true, decide_eq_true_eq] at hop
      exact hop.1.1
    obtain ⟨t, ht, rfl⟩ := map_eq_some_iff.1 h
    have hid : t.sandboxID = s.sandboxID ∧ s.sandboxID = sandboxID := by
      obtain ⟨hserves, ⟨⟩⟩ := ite_none_left_eq_some.1 ht
      have hs : s.sandboxID = sandboxID := not_not.1 (not_or.1 hserves).1
      dsimp only
      split <;> exact ⟨rfl, hs⟩
    refine ⟨fun huses _ => ⟨?_, hid.1⟩, fun _ _ => ?_⟩
    · rcases run_edges rfl h with hsame | hedge
      · rwa [hsame] at huses
      · simp only [mem_cons, Prod.mk.injEq, not_mem_nil, or_false] at hedge
        rcases hedge with hedge | hedge <;> rw [hedge.1] <;> rfl
    · rw [hid.1, hid.2, hsandbox]
      exact hgrant
  | _ => cases hop

end Operations

end Flow.Ports.Coding
