import Flow.Ports.CodingMoves
import Flow.Verified.Slots

/-!
# Session capacity

`FLOW_CODING_MAX_SESSIONS` and `FLOW_CODING_WORKSPACE_SESSIONS` bound the sessions
that hold a sandbox, from provisioning through publishing and while stopping.  The
machine checks them when it admits a queued session, against a count that the pass
read before.

This is the whole installation: the session rows, any number of reconciler passes on
any number of replicas, each of which leases a session, counts and later commits what
it decided, and every other operation on any session.  Nothing is locked between the
count and the commit, and a session that leaves idle is not counted at all.
-/

namespace Flow.Ports.Coding

open List Option Flow.Verified Run Table

/-- The phases of `codingActivePhases`. -/
def Phase.holdsCapacity : Phase → Bool
  | .provisioning | .starting | .setup | .running | .awaitingUser | .publishing
  | .stopping => true
  | _ => false

/-! ## How a session comes to hold capacity -/

section Enters

variable {c : StepConfig} {svc : Service} {s : Session}

/-- A step takes a session without capacity into a phase that holds it by admitting it, or by
stopping it while a sandbox is live. -/
theorem step_enters {obs : Observation} (hs : s.phase.holdsCapacity = false)
    (ht : (c.step s obs).session.phase.holdsCapacity) :
    (s.phase = .queued ∧ c.hasCapacity obs) ∨
      (s.stopRequested ∧ obs.sandboxes.any liveSandbox) := by
  have hcase := step_case c s obs
  generalize (c.step s obs).session = t at hcase ht
  generalize (c.step s obs).actions = actions at hcase
  cases hcase with
  | admitted h hroom => exact .inl ⟨h, hroom⟩
  | stopped code error h hstopping hwhy =>
    rcases hwhy with hwhy | hrunning
    · exact .inr hwhy
    · simp [hrunning, Phase.holdsCapacity] at hs
  | same | forgotten _ => simp [hs] at ht
  | provision h | publish h | drained h | restarted h | retried h _ _ _ =>
    simp [h, Phase.holdsCapacity] at hs
  | ended _ _ _ | requeued _ _ => simp [Phase.holdsCapacity] at ht

theorem reconcile_enters {obs : Observation} {provisioned : ProvisionOutcome}
    {published : PublishOutcome} (hs : s.phase.holdsCapacity = false)
    (ht : (c.reconcile s obs provisioned published).session.phase.holdsCapacity) :
    (s.phase = .queued ∧ c.hasCapacity obs) ∨
      (s.stopRequested ∧ obs.sandboxes.any liveSandbox) := by
  by_cases hstep : (c.step s obs).session.phase.holdsCapacity
  · exact step_enters hs hstep
  · have hprovision : ¬(c.step s obs).has .provision := fun h =>
      hstep (by rw [(step_provision_phase h).1]; rfl)
    have hpublish : ¬(c.step s obs).has .publish := fun h =>
      hstep (by rw [(step_publish_phase h).1]; rfl)
    have hsame : c.reconcile s obs provisioned published = c.step s obs := by
      simp [StepConfig.reconcile, StepConfig.stepProvision, if_neg hprovision, if_neg hpublish]
    rw [hsame] at ht
    exact absurd ht hstep

def Operation.wakes (s : Session) : Operation → Bool
  | .inbox .. => s.phase = .idle
  | .completeTurn _ turnID _ request _ =>
    (completionPhase (reportTurn s turnID request) request).any Phase.holdsCapacity
  | _ => false

/-- Outside the reconciler, a session comes to hold capacity by waking up. -/
theorem run_enters {op : Operation} {sandboxes : List Sandbox} {d : Decision}
    (hop : ∀ obs provisioned published, op ≠ .reconcile obs provisioned published)
    (h : op.run svc sandboxes s = some d) (hs : s.phase.holdsCapacity = false)
    (hd : d.session.phase.holdsCapacity) : op.wakes s := by
  cases op with
  | reconcile obs provisioned published => exact absurd rfl (hop obs provisioned published)
  | completeTurn grant turnID retried request now =>
    rcases completeTurn_clock h with ⟨-, hclock⟩ | ⟨b, phase, hsome, -, hclock⟩
    · rw [Session.phase_eq_of_clock hclock, hs] at hd
      cases hd
    · have hphase : d.session.phase = phase := Session.phase_eq_of_clock hclock
      simpa [Operation.wakes, hsome, hphase] using hd
  | failSession code message now =>
    obtain ⟨_, ⟨⟩⟩ := ite_none_left_eq_some.1 h
    simp [StepConfig.fail, StepConfig.finish, Phase.holdsCapacity] at hd
  | _ =>
    rcases run_edges rfl h with hsame | hedge
    · rw [hsame, hs] at hd
      cases hd
    · grind [Phase.holdsCapacity, Operation.wakes]

end Enters

/-! ## The installation -/

/-- A reconciler pass: the document it leased and what it counted, in the
session's workspace and in total. -/
structure Pass where
  read : Session
  counted : Option (Nat × Nat) := none
deriving DecidableEq, Repr

structure Installation where
  sessions : List Session := []
  passes : List Pass := []
deriving DecidableEq, Repr

def activeTotal (sessions : List Session) : Nat :=
  sessions.countP fun s => s.phase.holdsCapacity

def activeInWorkspace (sessions : List Session) (workspaceKey : String) : Nat :=
  sessions.countP fun s => s.workspaceKey = workspaceKey && s.phase.holdsCapacity

def countActiveCodingSessions (sessions : List Session) (workspaceKey : String) : Nat × Nat :=
  (activeInWorkspace sessions workspaceKey, activeTotal sessions)

def Pass.observe (pass : Pass) (obs : Observation) : Observation :=
  let counted := pass.counted.getD (0, 0)
  { obs with activeInWorkspace := counted.1, activeTotal := counted.2 }

inductive Event where
  | start (input : StartInput) (time : Time)
  | lease (id : String)
  | count (pass : Nat)
  | commit (pass : Nat) (obs : Observation) (provisioned : ProvisionOutcome)
      (published : PublishOutcome)
  | call (id : String) (op : Operation) (sandboxes : List Sandbox)
deriving DecidableEq, Repr

def Operation.isReconcile : Operation → Bool
  | .reconcile .. => true
  | _ => false

def Installation.commit (svc : Service) (sys : Installation) (pass : Pass)
    (obs : Observation) (provisioned : ProvisionOutcome) (published : PublishOutcome) :
    Option (List Session) :=
  match lookup Session.id sys.sessions pass.read.id with
  | none => none
  | some row =>
    if row.version = pass.read.version then
      let d := svc.step.reconcile pass.read (pass.observe obs) provisioned published
      some (replace Session.id sys.sessions (writeDocument row d.session))
    else some sys.sessions

/-- A pass on a queued session counts before it commits; every other operation is applied to the
row as it stands. -/
def Installation.step (svc : Service) (sys : Installation) : Event → Option Installation
  | .start input time =>
    if (lookup Session.id sys.sessions input.id).isSome then none
    else some { sys with sessions := sys.sessions ++ [svc.start input time] }
  | .lease id =>
    match lookup Session.id sys.sessions id with
    | some row =>
      if row.phase = .done then none
      else some { sys with passes := sys.passes ++ [{ read := row }] }
    | none => none
  | .count p =>
    match sys.passes[p]? with
    | some pass =>
      let counted := countActiveCodingSessions sys.sessions pass.read.workspaceKey
      some { sys with passes := sys.passes.set p { pass with counted := some counted } }
    | none => none
  | .commit p obs provisioned published =>
    match sys.passes[p]? with
    | some pass =>
      if pass.read.phase = .queued ∧ pass.counted = none then none
      else (sys.commit svc pass obs provisioned published).map fun sessions =>
        { sessions := sessions, passes := sys.passes.eraseIdx p }
    | none => none
  | .call id op sandboxes =>
    match lookup Session.id sys.sessions id with
    | some row =>
      if op.isReconcile then none
      else (op.run svc sandboxes row).map fun d =>
        { sys with
          sessions := replace Session.id sys.sessions (writeDocument row d.session) }
    | none => none

/-! ## Admissible steps -/

def Installation.room (svc : Service) (sys : Installation) (workspaceKey : String) : Bool :=
  (svc.step.workspaceSessions ≤ 0 ∨
      activeInWorkspace sys.sessions workspaceKey < svc.step.workspaceSessions) ∧
    (svc.step.maxSessions ≤ 0 ∨ activeTotal sys.sessions < svc.step.maxSessions)

def Installation.upToDate (sys : Installation) (pass : Pass) : Bool :=
  match pass.counted with
  | some counted =>
    activeInWorkspace sys.sessions pass.read.workspaceKey ≤ counted.1 ∧
      activeTotal sys.sessions ≤ counted.2
  | none => true

/-- A pass admits a queued session on a count that is up to date; a session that
is stopped while it holds no capacity, or wakes up, finds room. -/
def Installation.admissible (svc : Service) (sys : Installation) : Event → Bool
  | .commit p obs _ _ =>
    match sys.passes[p]? with
    | some pass =>
      (lookup Session.id sys.sessions pass.read.id).all fun row =>
        row.version ≠ pass.read.version || row.phase.holdsCapacity ||
          (row.phase ≠ .queued || sys.upToDate pass) &&
            (!(row.stopRequested && obs.sandboxes.any liveSandbox) ||
              sys.room svc row.workspaceKey)
    | none => true
  | .call id op _ =>
    match lookup Session.id sys.sessions id with
    | some row => row.phase.holdsCapacity || !op.wakes row || sys.room svc row.workspaceKey
    | none => true
  | _ => true

def Admissible (svc : Service) (sys : Installation) (event : Event) : Prop :=
  sys.admissible svc event

instance (svc : Service) (sys : Installation) (event : Event) :
    Decidable (Admissible svc sys event) :=
  inferInstanceAs (Decidable (sys.admissible svc event = true))

def WithinCapacity (svc : Service) (sys : Installation) : Prop :=
  (0 < svc.step.maxSessions → activeTotal sys.sessions ≤ svc.step.maxSessions) ∧
    (0 < svc.step.workspaceSessions → ∀ workspaceKey,
      activeInWorkspace sys.sessions workspaceKey ≤ svc.step.workspaceSessions)

section Bound

variable {svc : Service} {sys sys' : Installation}

/-- What every run keeps: row ids are unique, and what a pass leased has become
the row that is there now. -/
structure Installation.WellFormed (sys : Installation) : Prop where
  nodup : (sys.sessions.map Session.id).Nodup
  follows : ∀ pass ∈ sys.passes, ∃ row,
    lookup Session.id sys.sessions pass.read.id = some row ∧
      Follows Session.version pass.read row

theorem wellFormed_replace (hwf : sys.WellFormed) {row : Session} {id : String}
    (hrow : lookup Session.id sys.sessions id = some row) (after : Session)
    {passes : List Pass} (hpasses : ∀ pass ∈ passes, pass ∈ sys.passes) :
    Installation.WellFormed
      ⟨replace Session.id sys.sessions (writeDocument row after), passes⟩ where
  nodup := by
    rw [map_key_replace]
    exact hwf.nodup
  follows := by
    intro pass hpass
    obtain ⟨now, hnow, hfollows⟩ := hwf.follows pass (hpasses pass hpass)
    refine ⟨_, lookup_replace hnow, ?_⟩
    split
    · rename_i hid
      -- The row that was written is the one the pass leased.
      rw [writeDocument_id, key_of_lookup hrow] at hid
      rw [hid, hrow] at hnow
      cases hnow
      exact hfollows.trans (writeDocument_follows row after)
    · exact hfollows

theorem countP_replace_le {rows : List Session} (hnodup : (rows.map Session.id).Nodup)
    {row new : Session} (hrow : lookup Session.id rows new.id = some row)
    (p : Session → Bool) {limit : Int} (hbound : rows.countP p ≤ limit)
    (hroom : p row = false → p new → rows.countP p < limit) :
    (replace Session.id rows new).countP p ≤ limit := by
  have hcount := countP_replace p hnodup hrow
  cases hold : p row with
  | true =>
    simp only [hold, if_true] at hcount
    split at hcount <;> omega
  | false =>
    cases hnew : p new with
    | true =>
      have hfree := hroom hold hnew
      simp only [hnew, if_true] at hcount
      omega
    | false =>
      simp only [hnew, Bool.false_eq_true, if_false] at hcount
      omega

theorem within_replace (hwf : sys.WellFormed) (hwithin : WithinCapacity svc sys) {row : Session}
    {id : String} (hrow : lookup Session.id sys.sessions id = some row) {after : Session}
    {passes : List Pass} (hroom : row.phase.holdsCapacity = false → after.phase.holdsCapacity →
      sys.room svc row.workspaceKey) :
    WithinCapacity svc ⟨replace Session.id sys.sessions (writeDocument row after), passes⟩ := by
  have hkey : lookup Session.id sys.sessions (writeDocument row after).id = some row := by
    rw [writeDocument_id, key_of_lookup hrow]
    exact hrow
  constructor
  · intro hmax
    apply countP_replace_le hwf.nodup hkey _ (hwithin.1 hmax)
    intro hold hnew
    rw [writeDocument_phase] at hnew
    exact (of_decide_eq_true (hroom hold hnew)).2.resolve_left (Int.not_le.2 hmax)
  · intro hmax workspaceKey
    apply countP_replace_le hwf.nodup hkey _ (hwithin.2 hmax workspaceKey)
    intro hold hnew
    simp only [writeDocument_phase, writeDocument_workspaceKey, Bool.and_eq_true,
      decide_eq_true_eq] at hnew
    simp only [hnew.1] at hold
    have hfree := (of_decide_eq_true (hroom hold hnew.2)).1.resolve_left (Int.not_le.2 hmax)
    rwa [hnew.1] at hfree

/-- A pass that commits what it decided for the row it leased. -/
theorem commit_room (hwf : sys.WellFormed) {p : Nat} {pass : Pass} {row : Session}
    {obs : Observation} {provisioned : ProvisionOutcome} {published : PublishOutcome}
    (hpass : sys.passes[p]? = some pass)
    (hrow : lookup Session.id sys.sessions pass.read.id = some row)
    (hversion : row.version = pass.read.version)
    (hcounted : ¬(pass.read.phase = .queued ∧ pass.counted = none))
    (hadmissible : sys.admissible svc (.commit p obs provisioned published))
    (hheld : row.phase.holdsCapacity = false)
    (hholds : (svc.step.reconcile pass.read (pass.observe obs) provisioned
      published).session.phase.holdsCapacity) :
    sys.room svc row.workspaceKey := by
  have hread : pass.read = row := by
    obtain ⟨now, hnow, hfollows⟩ := hwf.follows pass (mem_of_getElem? hpass)
    rw [hrow] at hnow
    cases hnow
    exact hfollows.eq_of_version hversion.symm
  simp only [Installation.admissible, hpass, hrow, all_some, hversion, hheld, ne_eq,
    not_true_eq_false, decide_false, Bool.false_or, Bool.and_eq_true, Bool.or_eq_true,
    decide_eq_true_eq] at hadmissible
  obtain ⟨hcurrent, hstopped⟩ := hadmissible
  rw [hread] at hholds
  rcases reconcile_enters hheld hholds with ⟨hqueued, hcapacity⟩ | ⟨hstop, hlive⟩
  · -- The machine found capacity on the count, and the count is up to date.
    have hcurrent := hcurrent.resolve_left (not_not.2 hqueued)
    cases hcount : pass.counted with
    | none => exact absurd ⟨hread ▸ hqueued, hcount⟩ hcounted
    | some counted =>
      simp only [Installation.upToDate, hcount, decide_eq_true_eq, hread] at hcurrent
      have hfound := of_decide_eq_true hcapacity
      simp only [Pass.observe, hcount, getD_some] at hfound
      refine decide_eq_true ⟨?_, ?_⟩
      · rcases hfound.1 with h | h
        · exact .inl h
        · exact .inr (by omega)
      · rcases hfound.2 with h | h
        · exact .inl h
        · exact .inr (by omega)
  · have hlive : obs.sandboxes.any liveSandbox := hlive
    apply hstopped.resolve_left
    rw [hstop, hlive]
    decide

@[simp] theorem start_id (svc : Service) (input : StartInput) (time : Time) :
    (svc.start input time).id = input.id := by
  fun_cases Service.start <;> rfl

theorem start_holdsCapacity (svc : Service) (input : StartInput) (time : Time) :
    (svc.start input time).phase.holdsCapacity = false := by
  fun_cases Service.start <;> rfl

/-- **One admissible step keeps the bound.** -/
theorem within_step {event : Event} (hwf : sys.WellFormed) (hwithin : WithinCapacity svc sys)
    (hadmissible : Admissible svc sys event) (h : sys.step svc event = some sys') :
    sys'.WellFormed ∧ WithinCapacity svc sys' := by
  revert h
  fun_cases Installation.step svc sys event
  all_goals intro h
  all_goals try cases h
  next input time hnew =>
    have hnone : lookup Session.id sys.sessions input.id = none := by simpa using hnew
    refine ⟨⟨Slots.nodup_push hwf.nodup ?_, ?_⟩, ?_⟩
    · rw [start_id, List.mem_map]
      rintro ⟨row, hrow, hid⟩
      exact ne_of_lookup_eq_none hnone row hrow hid
    · intro pass hpass
      obtain ⟨row, hrow, hfollows⟩ := hwf.follows pass hpass
      exact ⟨row, lookup_append_of_some _ hrow, hfollows⟩
    · simpa [WithinCapacity, activeTotal, activeInWorkspace, start_holdsCapacity] using hwithin
  next id row hrow _ =>
    refine ⟨⟨hwf.nodup, Slots.forall_push hwf.follows ?_⟩, hwithin⟩
    exact ⟨row, by rw [key_of_lookup hrow]; exact hrow, .refl _ _⟩
  next p pass hpass _ =>
    refine ⟨⟨hwf.nodup, Slots.forall_set hwf.follows ?_⟩, hwithin⟩
    exact hwf.follows pass (mem_of_getElem? hpass)
  next p obs provisioned published pass hpass hcounted =>
    obtain ⟨sessions, hcommit, rfl⟩ := map_eq_some_iff.1 h
    have hpasses : ∀ other ∈ sys.passes.eraseIdx p, other ∈ sys.passes :=
      fun other => mem_of_mem_eraseIdx
    revert hcommit
    fun_cases Installation.commit svc sys pass obs provisioned published
    all_goals rintro ⟨⟩
    next row hrow hversion _ =>
      refine ⟨wellFormed_replace hwf hrow _ hpasses, within_replace hwf hwithin hrow ?_⟩
      exact commit_room hwf hpass hrow hversion hcounted hadmissible
    next =>
      exact ⟨⟨hwf.nodup, fun other hother => hwf.follows other (hpasses other hother)⟩, hwithin⟩
  next id op sandboxes row hrow hop =>
    obtain ⟨d, hrun, rfl⟩ := map_eq_some_iff.1 h
    refine ⟨wellFormed_replace hwf hrow _ fun pass hpass => hpass,
      within_replace hwf hwithin hrow ?_⟩
    intro hheld hholds
    have hwakes : op.wakes row := by
      refine run_enters ?_ hrun hheld hholds
      rintro obs provisioned published rfl
      exact hop rfl
    unfold Admissible at hadmissible
    simpa [Installation.admissible, hrow, hheld, hwakes] using hadmissible

end Bound

/-- **Session capacity holds** in every installation that admissible steps
reach. -/
theorem capacity_of_reaches (svc : Service) (sys : Installation)
    (h : Reaches (Installation.step svc) (Admissible svc) {} sys) : WithinCapacity svc sys := by
  refine (h.invariant (P := fun sys => sys.WellFormed ∧ WithinCapacity svc sys) ?_ ?_).2
  · intro sys event sys' hsys hadmissible hstep
    exact within_step hsys.1 hsys.2 hadmissible hstep
  · refine ⟨⟨nodup_nil, ?_⟩, ?_, ?_⟩
    · simp
    · intro hmax
      exact Int.le_of_lt hmax
    · intro hmax workspaceKey
      exact Int.le_of_lt hmax

def oneSession : Service :=
  ⟨{ defaultConfig with maxSessions := 1 }, defaultService.equalFold⟩

def twoLeases : List Event :=
  [.start { id := "s-1", workspaceKey := "acme" } 0,
    .start { id := "s-2", workspaceKey := "acme" } 0, .lease "s-1", .lease "s-2"]

/-- A session admitted at `now`, whose sandbox was provisioned. -/
def admitted (id sandboxID : String) (now : Time) : Session :=
  { oneSession.step.enter { id := id, workspaceKey := "acme", sandboxID := sandboxID }
      .starting now with version := 2 }

/-- The second replica counts after the first has committed: its session waits
in the queue. -/
theorem one_replica_after_the_other :
    WithinCapacity oneSession
      ⟨[admitted "s-1" "sb-1" minute, oneSession.start { id := "s-2", workspaceKey := "acme" } 0],
        []⟩ :=
  capacity_of_reaches oneSession _
    (reaches_of_exec
      (twoLeases ++
        [.count 0, .commit 0 { now := minute } { sandboxID := "sb-1" } {},
          .count 0, .commit 0 { now := minute } { sandboxID := "sb-2" } {}])
      _ _ (by decide))

/-- **Two replicas that both count before either commits exceed the bound.** -/
theorem two_replicas_exceed :
    ¬∀ (svc : Service) (sys : Installation),
      Reaches (Installation.step svc) Unrestricted {} sys → WithinCapacity svc sys := by
  intro hall
  have hwithin := hall oneSession
    ⟨[admitted "s-1" "sb-1" minute, admitted "s-2" "sb-2" minute], []⟩
    (reaches_of_exec
      (twoLeases ++
        [.count 0, .count 1, .commit 0 { now := minute } { sandboxID := "sb-1" } {},
          .commit 0 { now := minute } { sandboxID := "sb-2" } {}])
      _ _ (by decide))
  exact absurd (hwithin.1 (by decide)) (by decide)

end Flow.Ports.Coding
