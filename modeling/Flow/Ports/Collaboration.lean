import Flow.Verified.Run
import Flow.Verified.Slots
import Mathlib.Logic.Function.Basic

/-!
# Access to documents on a collaboration socket

A socket joins issue descriptions and standalone documents.  For each it keeps what
the last check of the user's access found, and an update frame is accepted by it.
When access may have changed, `socketAccessWork` marks what is kept as stale and
lists the documents to check again; checks run on several goroutines at once, and an
update frame that finds what is kept stale checks on its own.

A check reads the access and records it in later lock sections, and a frame looks up
the document in one section after the other; each of these is one step.

`readAt`, `changes` and `settled` are not in the program: how often the access to a
document had changed when a value was read, how often it has changed by now, and
whether a check that read after the last change has recorded what it read.
-/

namespace Flow.Ports.Collaboration

open Flow.Verified.Run Function

inductive Role where
  | none
  | viewer
  | commenter
  | editor
  | owner
deriving DecidableEq, Repr

def documentRoleRank : Role → Nat
  | .owner => 4
  | .editor => 3
  | .commenter => 2
  | .viewer => 1
  | .none => 0

def canEditDocument (role : Role) : Bool := 3 ≤ documentRoleRank role

/-- What `socketIssue` reads of an issue. -/
structure IssueView where
  visible : Bool
  canEdit : Bool
  teamID : String
deriving DecidableEq, Repr

/-- What `socketDocumentRole` reads of a standalone document.  A conflict is a
document whose collaboration moved to another id. -/
inductive DocumentView where
  | forbidden
  | missing
  | found (conflict : Bool) (role : Role)
deriving DecidableEq, Repr

/-- The user's access to a document, as an issue description and as a
standalone document. -/
structure View where
  issue : IssueView
  document : DocumentView
deriving DecidableEq, Repr

/-- How long a check counts, in nanoseconds. -/
def documentAccessTTL : Nat := 5000000000

/-- Whether a check at `checkedAt` still counts; a stale one has no time. -/
def fresh (now : Nat) (checkedAt : Option Nat) : Bool :=
  checkedAt.any fun time => now < time + documentAccessTTL

structure IssueSocketAccess where
  teamID : String
  canEdit : Bool
  checkedAt : Option Nat
  /-- How often the entry was marked stale. -/
  generation : Nat := 0
  readAt : Nat
deriving DecidableEq, Repr

structure DocumentSocketAccess where
  documentID : String
  canEdit : Bool
  checkedAt : Option Nat
  readAt : Nat
deriving DecidableEq, Repr

/-- What the four maps of a socket hold for one document. -/
structure Entry where
  joined : Bool := false
  issueID : Option String := none
  issueAccess : Option IssueSocketAccess := none
  documentAccess : Option DocumentSocketAccess := none
deriving DecidableEq, Repr

def Entry.ofIssue (issueID : String) (access : IssueSocketAccess) : Entry :=
  { joined := true, issueID := some issueID, issueAccess := some access }

def Entry.ofDocument (access : DocumentSocketAccess) : Entry :=
  { joined := true, documentAccess := some access }

def Entry.editable (entry : Entry) : Bool :=
  entry.issueAccess.any IssueSocketAccess.canEdit ||
    entry.documentAccess.any DocumentSocketAccess.canEdit

def Entry.generation (entry : Entry) : Nat :=
  (entry.issueAccess.map IssueSocketAccess.generation).getD 0

/-- Which documents are checked again. In `issues` and `documents` the id `*` stands for all; an
issue has the team that a change left it in, or the empty text. -/
structure SocketAccessScope where
  all : Bool := false
  issues : List (String × String) := []
  documents : List String := []
  users : List String := []
deriving DecidableEq, Repr

def SocketAccessScope.coversIssue (scope : SocketAccessScope) (userID : String) (entry : Entry) :
    Bool :=
  match entry.issueID with
  | none => false
  | some issueID =>
    entry.joined && (scope.all || scope.users.contains userID ||
      (scope.issues.lookup "*").isSome ||
      (scope.issues.lookup issueID).any fun team =>
        team = "" || !(entry.issueAccess.any fun access => access.teamID = team))

def SocketAccessScope.coversDocument (scope : SocketAccessScope) (userID id : String)
    (access : DocumentSocketAccess) : Bool :=
  scope.all || scope.users.contains userID || scope.documents.contains "*" ||
    scope.documents.contains id || scope.documents.contains access.documentID

/-- What `socketAccessWork` does to the entry of one document. -/
def socketAccessWork (scope : SocketAccessScope) (userID id : String) (entry : Entry) : Entry :=
  { entry with
    issueAccess := entry.issueAccess.map fun access =>
      if scope.coversIssue userID entry then
        { access with checkedAt := none, generation := access.generation + 1 }
      else access
    documentAccess := entry.documentAccess.map fun access =>
      if scope.coversDocument userID id access then { access with checkedAt := none }
      else access }

/-! ## Checks -/

/-- What a lock section of a check or a frame does to the entry. -/
inductive Touch where
  | keep
  | stamp (teamID : String) (generation : Nat)
  | setEditAccess (canEdit : Bool) (readAt : Nat)
  /-- `revokeDocument`, with the read that it follows, if any. -/
  | revoke (readAt : Option Nat)
deriving DecidableEq, Repr

/-- A check stamps the entry with the time only if the entry was not marked
stale since the check began. -/
def stamp (now : Nat) (teamID : String) (generation : Nat) (entry : Entry) : Entry :=
  { entry with
    issueAccess := entry.issueAccess.map fun access =>
      { access with
        teamID
        checkedAt := if access.generation = generation then some now else access.checkedAt } }

def setEditAccess (now : Nat) (canEdit : Bool) (readAt : Nat) (entry : Entry) : Entry :=
  match entry.issueAccess, entry.issueID with
  | some access, some _ => { entry with issueAccess := some { access with canEdit, readAt } }
  | _, _ =>
    { entry with
      documentAccess := entry.documentAccess.map fun access =>
        { access with canEdit, checkedAt := some now, readAt } }

def Touch.apply (now : Nat) : Touch → Entry → Entry
  | .keep, entry => entry
  | .stamp teamID generation, entry => Collaboration.stamp now teamID generation entry
  | .setEditAccess canEdit readAt, entry => Collaboration.setEditAccess now canEdit readAt entry
  | .revoke _, _ => {}

/-- The read whose result the section records. -/
def Touch.recorded : Touch → Option Nat
  | .keep | .stamp _ _ => none
  | .setEditAccess _ readAt => some readAt
  | .revoke readAt => readAt

inductive Recheck where
  | start
  | generation (generation : Nat)
  | read (generation : Nat) (view : IssueView) (readAt : Nat)
  | stamped (canEdit : Bool) (readAt : Nat)
  | role (view : DocumentView) (readAt : Nat)
  /-- Whether the document may still be used; none after an error. -/
  | finished (allowed : Option Bool)
deriving DecidableEq, Repr

def recheckIssueDocument (view : IssueView) (changes : Nat) (fails : Bool) (entry : Entry) :
    Recheck → Option (Recheck × Touch)
  | .start => some (.generation entry.generation, .keep)
  | .generation generation =>
    if fails then some (.finished none, .keep) else some (.read generation view changes, .keep)
  | .read generation view readAt =>
    if view.visible then
      some (.stamped view.canEdit readAt, .stamp view.teamID generation)
    else some (.finished (some false), .revoke (some readAt))
  | .stamped canEdit readAt => some (.finished (some true), .setEditAccess canEdit readAt)
  | .role _ _ | .finished _ => none

def recheckStandaloneDocument (view : DocumentView) (changes : Nat) (fails : Bool) :
    Recheck → Option (Recheck × Touch)
  | .start => if fails then some (.finished none, .keep) else some (.role view changes, .keep)
  | .role (.found true _) _ => some (.finished none, .keep)
  | .role (.found false role) readAt =>
    if role ≠ .none then
      some (.finished (some true), .setEditAccess (canEditDocument role) readAt)
    else some (.finished (some false), .revoke (some readAt))
  | .role .missing readAt | .role .forbidden readAt =>
    some (.finished (some false), .revoke (some readAt))
  | _ => none

inductive DocumentKind where
  | issue
  | standalone
deriving DecidableEq, Repr

structure Check where
  id : String
  kind : DocumentKind
  stage : Recheck := .start
deriving DecidableEq, Repr

def Check.next (view : View) (changes : Nat) (fails : Bool) (entry : Entry) (check : Check) :
    Option (Recheck × Touch) :=
  match check.kind with
  | .issue => recheckIssueDocument view.issue changes fails entry check.stage
  | .standalone => recheckStandaloneDocument view.document changes fails check.stage

/-! ## Frames -/

inductive FrameKind where
  | update
  | awareness
deriving DecidableEq, Repr

/-- How an update frame was allowed: whether the socket then held access that
allows editing, what a read of its own found, when the value was read that
allowed it, and how the access stood then. -/
structure Decision where
  held : Bool
  read : Option Bool
  readAt : Option Nat
  changes : Nat
  settled : Bool
deriving DecidableEq, Repr

inductive Outcome where
  /-- The document is not joined. -/
  | refused
  /-- The document is no longer the issue's description, or has moved. -/
  | conflict
  /-- A check found that the document is out of reach. -/
  | lost
  | readonly
  | failed
  | relayed
  /-- An update with this id is already stored. -/
  | duplicate
  | persisted (decision : Decision)
deriving DecidableEq, Repr

inductive FrameStage where
  | received
  | joined
  | bound
  | current
  | recheck (stage : Recheck)
  /-- Before the last lookup of an issue description. -/
  | editable
  /-- Before the lookup of a standalone document. -/
  | standalone
  /-- The socket's access to a standalone document is stale. -/
  | stale
  | role (view : DocumentView) (readAt : Nat)
  | decided (decision : Decision)
  | ended (outcome : Outcome)
deriving DecidableEq, Repr

def FrameStage.decision : FrameStage → Option Decision
  | .decided decision | .ended (.persisted decision) => some decision
  | _ => none

inductive Answer where
  | ok
  | failed
  /-- Another document is the issue's, or the update is already stored. -/
  | other
deriving DecidableEq, Repr

structure Frame where
  id : String
  kind : FrameKind := .update
  stage : FrameStage := .received
deriving DecidableEq, Repr

/-- What a frame sees of its document in one step. -/
structure Sight where
  now : Nat
  view : View
  changes : Nat
  settled : Bool
  entry : Entry

def Sight.decide (sight : Sight) (read : Option Bool) (readAt : Option Nat) : Decision :=
  { held := sight.entry.editable, read, readAt, changes := sight.changes,
    settled := sight.settled }

/-- The lookup of `documentSocketCanEdit`.  Without an entry the frame is
allowed. -/
def documentSocketCanEdit (sight : Sight) : FrameStage :=
  match sight.entry.documentAccess with
  | none => .decided (sight.decide none none)
  | some access =>
    if fresh sight.now access.checkedAt then
      if access.canEdit then .decided (sight.decide none (some access.readAt))
      else .ended .readonly
    else .stale

def DocumentView.allows : DocumentView → Bool
  | .found false role => canEditDocument role
  | _ => false

def documentSocketRole (sight : Sight) (readAt : Nat) : DocumentView → FrameStage
  | .found false role =>
    if canEditDocument role then .decided (sight.decide (some true) (some readAt))
    else .ended .readonly
  | _ => .ended .conflict

def handleCollaborationFrame (sight : Sight) (answer : Answer) (kind : FrameKind) :
    FrameStage → Option (FrameStage × Touch)
  | .received => some (if sight.entry.joined then .joined else .ended .refused, .keep)
  | .joined =>
    match sight.entry.issueID, kind with
    | some _, _ => some (.bound, .keep)
    | none, .update => some (.standalone, .keep)
    | none, .awareness => some (.ended .relayed, .keep)
  | .bound =>
    match answer with
    | .ok => some (.current, .keep)
    | .failed => some (.ended .failed, .keep)
    | .other => some (.ended .conflict, .keep)
  | .current =>
    if sight.entry.issueAccess.any fun access => fresh sight.now access.checkedAt then
      some (.editable, .keep)
    else some (.recheck .start, .keep)
  | .recheck (.finished none) => some (.ended .failed, .keep)
  | .recheck (.finished (some false)) => some (.ended .lost, .keep)
  | .recheck (.finished (some true)) => some (.editable, .keep)
  | .recheck stage =>
    (recheckIssueDocument sight.view.issue sight.changes (answer = .failed) sight.entry stage).map
      fun (stage, touch) => (.recheck stage, touch)
  | .editable =>
    match kind with
    | .awareness => some (.ended .relayed, .keep)
    | .update =>
      if sight.entry.issueAccess.any IssueSocketAccess.canEdit then
        some (.decided
          (sight.decide none (sight.entry.issueAccess.map IssueSocketAccess.readAt)), .keep)
      else some (.ended .readonly, .keep)
  | .standalone => some (documentSocketCanEdit sight, .keep)
  | .stale =>
    if answer = .failed ∨ sight.view.document = .forbidden then some (.ended .failed, .keep)
    else some (.role sight.view.document sight.changes, .keep)
  | .role view readAt =>
    some (documentSocketRole sight readAt view, .setEditAccess view.allows readAt)
  | .decided decision =>
    match answer with
    | .ok => some (.ended (.persisted decision), .keep)
    | .failed => some (.ended .failed, .keep)
    | .other => some (.ended .duplicate, .keep)
  | .ended _ => none

structure State where
  now : Nat
  userID : String
  entries : String → Entry
  views : String → View
  changes : String → Nat
  settled : String → Bool
  checks : List Check := []
  frames : List Frame := []

inductive Label where
  | tick (duration : Nat)
  | change (id : String) (view : View)
  /-- `socketAccessWork`. -/
  | work (scope : SocketAccessScope)
  | recheck (id : String) (kind : DocumentKind)
  | check (i : Nat) (fails : Bool)
  | frame (id : String) (kind : FrameKind)
  | advance (j : Nat) (answer : Answer)
  /-- `revokeDocument` for another reason than a check, such as a credential
  that was revoked. -/
  | revoke (id : String)
deriving DecidableEq, Repr

def State.sight (s : State) (id : String) : Sight :=
  { now := s.now, view := s.views id, changes := s.changes id, settled := s.settled id,
    entry := s.entries id }

def State.touch (s : State) (id : String) (touch : Touch) : State :=
  { s with
    entries := update s.entries id (touch.apply s.now (s.entries id))
    settled := update s.settled id
      (s.settled id || touch.recorded == some (s.changes id)) }

def State.checkNext (s : State) (i : Nat) (fails : Bool) : Option (Check × Recheck × Touch) :=
  s.checks[i]?.bind fun check =>
    (check.next (s.views check.id) (s.changes check.id) fails (s.entries check.id)).map
      fun next => (check, next)

def State.frameNext (s : State) (j : Nat) (answer : Answer) :
    Option (Frame × FrameStage × Touch) :=
  s.frames[j]?.bind fun frame =>
    (handleCollaborationFrame (s.sight frame.id) answer frame.kind frame.stage).map
      fun next => (frame, next)

def State.step (s : State) : Label → Option State
  | .tick duration => some { s with now := s.now + duration }
  | .change id view =>
    some
      { s with
        views := update s.views id view
        changes := update s.changes id (s.changes id + 1)
        settled := update s.settled id false }
  | .work scope =>
    some { s with entries := fun id => socketAccessWork scope s.userID id (s.entries id) }
  | .recheck id kind => some { s with checks := s.checks ++ [{ id, kind }] }
  | .check i fails => (s.checkNext i fails).map fun (check, stage, touch) =>
    { s.touch check.id touch with checks := s.checks.set i { check with stage } }
  | .frame id kind => some { s with frames := s.frames ++ [{ id, kind }] }
  | .advance j answer => (s.frameNext j answer).map fun (frame, stage, touch) =>
    { s.touch frame.id touch with frames := s.frames.set j { frame with stage } }
  | .revoke id => some (s.touch id (.revoke none))

/-- The section that a label runs, and on which document. -/
def State.touching (s : State) : Label → Option (String × Touch)
  | .check i fails => (s.checkNext i fails).map fun (check, _, touch) => (check.id, touch)
  | .advance j answer => (s.frameNext j answer).map fun (frame, _, touch) => (frame.id, touch)
  | .revoke id => some (id, .revoke none)
  | _ => none

end Flow.Ports.Collaboration
