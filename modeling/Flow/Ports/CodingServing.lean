import Flow.Ports.CodingMoves

/-!
# A session and its sandboxes, with operations in flight

An operation that stops sandboxes is not one step.  A reconciler pass, the completion
of a turn, `FailSession` and `StartOver` read the document, read the sandboxes,
decide, run their sandbox actions one by one, and only then write the document, if it
still has the version they read.  A runner's call authenticates its token and reads
the document before it writes it.

This is one session with its sandbox records, the tokens that were revoked and any
number of operations in flight, interleaved step by step.
-/

namespace Flow.Ports.Coding

open Flow.Verified Run Table

/-- Who runs an operation: the service, or a runner with a token for a sandbox; `retried` after
the commit of a completion lost to another writer. -/
inductive Caller where
  | service
  | runner (grant : String) (retried : Bool)
deriving DecidableEq, Repr

inductive Work where
  /-- A runner's call has authenticated its token. -/
  | authenticated (grant : String)
  | began (caller : Caller) (read : Session)
  | observed (caller : Caller) (read : Session) (sandboxes : List Sandbox)
  /-- The operation decided on `next`; `pending` are the sandbox actions still to
  run, and `acted` says that some were run. -/
  | decided (caller : Caller) (read : Session) (sandboxes : List Sandbox) (next : Session)
      (pending : List Action) (acted : Bool)
  | ended
deriving DecidableEq, Repr

def Work.acted : Work → Bool
  | .decided _ _ _ _ _ acted => acted
  | _ => false

/-- A session, its sandbox records, the sandboxes whose tokens were revoked and
the operations in flight. -/
structure World where
  session : Session
  sandboxes : List Sandbox := []
  revoked : List String := []
  works : List Work := []
deriving DecidableEq, Repr

def Action.touches (a : Action) : Bool :=
  a.kind = .stopSandbox ∨ a.kind = .revokeTokens

def stopSandbox (id : String) (sandboxes : List Sandbox) : List Sandbox :=
  sandboxes.map fun record => if record.id = id then { record with desired := .stopped } else record

def World.perform (w : World) (a : Action) : World :=
  match a.kind with
  | .stopSandbox => { w with sandboxes := stopSandbox a.sandboxID w.sandboxes }
  | .revokeTokens => { w with revoked := a.sandboxID :: w.revoked }
  | _ => w

/-- The live session sandbox, written by an earlier pass, that provisioning
reuses. -/
def reusable (sandboxes : List Sandbox) : Option Sandbox :=
  sandboxes.reverse.find? fun record =>
    record.kind ≠ .warm ∧ record.desired = .running ∧ liveSandbox record

def Operation.given (svc : Service) (read : Session) (observed : List Sandbox) :
    Operation → Option String
  | .reconcile obs provisioned _ =>
    if (svc.step.step read { obs with sandboxes := observed }).has .provision ∧
        provisioned.sandboxID ≠ "" then some provisioned.sandboxID
    else none
  | _ => none

/-- The sandbox records after provisioning gave `given`: reused from what the pass observed, or
new or newly bound. `none` when provisioning cannot have given it. -/
def World.provision (w : World) (observed : List Sandbox) (fresh : Sandbox) :
    Option String → Option (List Sandbox)
  | none => some w.sandboxes
  | some sandboxID =>
    match reusable observed with
    | some record => if record.id = sandboxID then some w.sandboxes else none
    | none =>
      if fresh.id = sandboxID ∧ fresh.desired = .running ∧ sandboxID ∉ w.revoked ∧
          sandboxID ∉ w.sandboxes.map Sandbox.id then
        some (w.sandboxes ++ [fresh])
      else none

/-- The operations that decide before they write: a turn completion for the
runner, the others for the service. -/
def Operation.decides (caller : Caller) : Operation → Bool
  | .completeTurn grant _ retried _ _ => caller = .runner grant retried
  | .reconcile .. | .failSession .. | .startOverDrain .. => caller = .service
  | _ => false

/-- The session update that a runner's call makes after it read `read`, which
its sandbox has to serve. -/
def Operation.answers (grant : String) (read : Session) (op : Operation) : Bool :=
  grant = read.sandboxID && read.phase ≠ .done &&
    match op with
    | .bootstrap sandboxID _ restored _ =>
      sandboxID = grant && read.phase = .starting && restored = (read.snapshotID ≠ "" : Bool)
    | .heartbeat _ => read.phase = .setup
    | .events sandboxID _ _ => sandboxID = grant
    | .inbox sandboxID _ _ => sandboxID = grant && acceptsTurn read && !read.stopRequested
    | _ => false

/-- The session updates of members, triggers and webhooks, which read and write
in one step. -/
def Operation.updates : Operation → Bool
  | .answer .. | .prompt .. | .stop .. | .restart .. | .startOver .. | .approve ..
  | .archive .. | .pullRequestState .. | .selectEnvironment .. => true
  | _ => false

inductive Label where
  | authenticate (grant : String)
  | read (k : Nat)
  | begin
  | observe (k : Nat)
  | decide (k : Nat) (op : Operation) (fresh : Sandbox)
  /-- The next action of an operation; an error of the store is ignored. -/
  | act (k : Nat) (succeeds : Bool)
  | commit (k : Nat)
  | answer (k : Nat) (op : Operation)
  | update (op : Operation)
  /-- An operation fails, or its replica crashes. -/
  | abandon (k : Nat)
  | report (record : Sandbox)
  /-- The sandbox reconciler stops a sandbox and revokes its tokens. -/
  | reap (id : String)
deriving DecidableEq, Repr

/-- The provider changes everything about a record but what it is for. -/
def reportSandbox (report : Sandbox) (sandboxes : List Sandbox) : List Sandbox :=
  sandboxes.map fun record =>
    if record.id = report.id then { report with desired := record.desired, kind := record.kind }
    else record

/-- The next state of a decided operation whose actions are run: its document is written if the
session has the version it read. -/
def World.commit (w : World) (k : Nat) (caller : Caller) (read : Session)
    (observed : List Sandbox) (next : Session) : World :=
  if w.session.version = read.version then
    { w with session := writeDocument w.session next, works := w.works.set k .ended }
  else match caller with
    | .service => { w with works := w.works.set k .ended }
    -- A completion reads the document again and decides on the same sandboxes.
    | .runner grant _ =>
      { w with works := w.works.set k (.observed (.runner grant true) w.session observed) }

def World.step (svc : Service) (w : World) : Label → Option World
  | .authenticate grant =>
    if grant ∈ w.sandboxes.map Sandbox.id ∧ grant ∉ w.revoked then
      some { w with works := w.works ++ [.authenticated grant] }
    else none
  | .read k =>
    match w.works[k]? with
    | some (.authenticated grant) =>
      some { w with works := w.works.set k (.began (.runner grant false) w.session) }
    | _ => none
  | .begin => some { w with works := w.works ++ [.began .service w.session] }
  | .observe k =>
    match w.works[k]? with
    | some (.began caller read) =>
      some { w with works := w.works.set k (.observed caller read w.sandboxes) }
    | _ => none
  | .decide k op fresh =>
    match w.works[k]? with
    | some (.observed caller read observed) =>
      if op.decides caller then
        match op.run svc observed read,
            w.provision observed fresh (op.given svc read observed) with
        | some d, some sandboxes =>
          let work := Work.decided caller read observed d.session
            (d.actions.filter Action.touches) false
          some { w with sandboxes := sandboxes, works := w.works.set k work }
        | _, _ => none
      else none
    | _ => none
  | .act k succeeds =>
    match w.works[k]? with
    | some (.decided caller read observed next (a :: pending) _) =>
      let work := Work.decided caller read observed next pending true
      some { (if succeeds then w.perform a else w) with works := w.works.set k work }
    | _ => none
  | .commit k =>
    match w.works[k]? with
    | some (.decided caller read observed next [] _) =>
      some (w.commit k caller read observed next)
    | _ => none
  | .answer k op =>
    match w.works[k]? with
    | some (.began (.runner grant false) read) =>
      if op.answers grant read then
        (op.run svc [] w.session).map fun d =>
          { w with
            session := writeDocument w.session d.session, works := w.works.set k .ended }
      else none
    | _ => none
  | .update op =>
    if op.updates then
      (op.run svc [] w.session).map fun d =>
        { w with session := writeDocument w.session d.session }
    else none
  | .abandon k => some { w with works := w.works.set k .ended }
  | .report record => some { w with sandboxes := reportSandbox record w.sandboxes }
  | .reap id =>
    if w.sandboxes.any fun record => record.id = id ∧ record.desired = .stopped then
      some { w with revoked := id :: w.revoked }
    else none

/-- A session that sets up or runs a turn has a current sandbox that is wanted running and whose
tokens are valid. -/
def Serving (w : World) : Prop :=
  w.session.phase = .setup ∨ w.session.phase = .running →
    ∃ record, currentSandbox w.session w.sandboxes = some record ∧
      record.desired = .running ∧ record.id ∉ w.revoked

def World.start (svc : Service) (input : StartInput) (time : Time) : World :=
  { session := svc.start input time }

/-- No operation but `k` is between its sandbox actions and its commit. -/
def World.quietBut (w : World) (k : Nat) : Bool :=
  (w.works.set k .ended).all fun work => !work.acted

def World.quiet (w : World) : Bool :=
  w.works.all fun work => !work.acted

/-- A completion does not find the session ended, and a pass that gave up on a sandbox start is
given another sandbox. -/
def Operation.advances (svc : Service) (read : Session) (observed : List Sandbox)
    (op : Operation) : Bool :=
  match op with
  | .completeTurn .. => read.phase ≠ .done
  | _ => read.phase ≠ .starting || op.given svc read observed ≠ some read.sandboxID

/-- Sandbox actions run without an error, on the version that was read, and their operation
commits before another acts or writes. -/
def World.undisturbed (svc : Service) (w : World) : Label → Bool
  | .decide k op _ =>
    match w.works[k]? with
    | some (.observed _ read observed) => op.advances svc read observed
    | _ => true
  | .act k succeeds =>
    match w.works[k]? with
    | some (.decided _ read _ _ _ _) =>
      succeeds && w.quietBut k && w.session.version = read.version
    | _ => true
  | .commit k => w.quietBut k
  | .answer _ _ | .update _ => w.quiet
  | .abandon k => !(w.works[k]?).any Work.acted
  | _ => true

def Undisturbed (svc : Service) (w : World) (label : Label) : Prop :=
  w.undisturbed svc label

instance (svc : Service) (w : World) (label : Label) : Decidable (Undisturbed svc w label) :=
  inferInstanceAs (Decidable (w.undisturbed svc label = true))

end Flow.Ports.Coding
