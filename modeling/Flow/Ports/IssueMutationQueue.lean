import Mathlib.Data.List.Basic
import Mathlib.Logic.Function.Basic
import Flow.Verified.Run

/-!
# The queue of issue writes

The web client sends the writes of an issue one after another.  It remembers the run
of versions that its own writes produced, its lineage: an edit that is based on a
version of the run is sent with its newest version, since only the client's own writes
have moved past the version that the user saw.

The server is the one that the queue expects: a write that changes an issue raises its
version by one, one that changes nothing keeps it, one without an expected version is
applied, and one with an expected version is accepted exactly when no field that it
names was changed after that version.  An issue is given by its changes, oldest first,
so that its version is their number; a change is the client's own or another's.  What
a write really changes is open.

A request may fail before or after the server has served it, and answers and other
clients' writes come at any time.
-/

namespace Flow.Ports.IssueMutationQueue

open Flow.Verified Function

structure Change where
  fields : List Nat
  own : Bool
deriving DecidableEq, Repr

def version (changes : List Change) : Int := changes.length

/-- A write that changes nothing leaves no trace. -/
def append (changes : List Change) (fields : List Nat) (own : Bool) : List Change :=
  if fields = [] then changes else changes ++ [⟨fields, own⟩]

def after (changes : List Change) (v : Int) : List Change := changes.drop v.toNat

def accepts (changes : List Change) (named : List Nat) : Option Int → Bool
  | none => true
  | some sent => (after changes sent).all fun change => change.fields.all fun f => f ∉ named

structure Result where
  issue : Nat
  version : Int
deriving DecidableEq, Repr

/-- A written issue, with the other issues that the write has changed
(`affectedIssues`). -/
structure Written where
  result : Result
  affected : List Result
deriving DecidableEq, Repr

inductive Answer where
  | ok (written : List Written)
  /-- 409, with the version of the stored issue. -/
  | conflict (current : Option Int)
  | failed
deriving DecidableEq, Repr

/-! ## The queue -/

/-- `IssueUpdateInput`: the fields that it sets, apart from their values. -/
structure Edit where
  path : Nat
  expected : Option Int
  fields : List Nat
  /-- It carries no part of a document. -/
  mergeable : Bool
deriving DecidableEq, Repr

inductive Stage where
  | queued
  /-- Sent, with the version that it carries. -/
  | sent (version : Option Int)
  | answered (version : Option Int) (answer : Answer)
  | settled
deriving DecidableEq, Repr

/-- An edit of one issue, or another write of some issues. -/
inductive Work where
  | edit (id : Nat) (edit : Edit)
  | write (ids : List Nat)
deriving DecidableEq, Repr

def Work.ids : Work → List Nat
  | .edit id _ => [id]
  | .write ids => ids

structure Task where
  work : Work
  stage : Stage
deriving DecidableEq, Repr

/-- The versions after `first` up to `last` are the client's own. -/
structure Lineage where
  first : Int
  last : Int
deriving DecidableEq, Repr

structure State where
  issues : Nat → List Change
  tasks : List Task
  tails : Nat → Option Nat
  lineages : Nat → Option Lineage
  /-- The version of the stored issue at a conflict. -/
  conflicts : Nat → Option Int
  /-- The task that takes later edits in. -/
  waiting : Nat → Option Nat
  /-- The fields of other clients' changes that an accepted edit has replaced, though
  they came after the version that it was based on. -/
  replaced : List Nat

def State.start (issues : Nat → List (List Nat)) : State where
  issues id := (issues id).map fun fields => ⟨fields, false⟩
  tasks := []
  tails _ := none
  lineages _ := none
  conflicts _ := none
  waiting _ := none
  replaced := []

def versionToSend (lineage : Option Lineage) : Option Int → Option Int
  | none => none
  | some expected =>
    match lineage with
    | some run =>
      if run.first ≤ expected ∧ expected < run.last then some run.last else some expected
    | none => some expected

def recordSent (lineage : Option Lineage) (sent version : Int) : Option Lineage :=
  if version ≤ sent then lineage
  else
    match lineage with
    | some run => if run.last = sent then some ⟨run.first, version⟩ else some ⟨sent, version⟩
    | none => some ⟨sent, version⟩

def recordUnversioned (lineage : Option Lineage) (version : Int) : Option Lineage :=
  match lineage with
  | some run =>
    if version ≤ run.last then some run
    else if run.last = version - 1 then some ⟨run.first, version⟩
    else some ⟨version - 1, version⟩
  | none => some ⟨version - 1, version⟩

def recordWrite (lineage : Option Lineage) (sent : Option Int) (version : Int) : Option Lineage :=
  match sent with
  | some sent => recordSent lineage sent version
  | none => recordUnversioned lineage version

def State.record (st : State) (sent : Option Int) (result : Result) : State :=
  { st with
    lineages := update st.lineages result.issue
      (recordWrite (st.lineages result.issue) sent result.version) }

/-- `recordFailure` of a conflict. -/
def State.recordConflict (st : State) (current : Option Int) (id : Nat) : State :=
  { st with
    lineages := update st.lineages id none
    conflicts := update st.conflicts id (current.orElse fun _ => st.conflicts id) }

def State.setStage (st : State) (index : Nat) (stage : Stage) : State :=
  { st with tasks := st.tasks.modify index fun task => { task with stage } }

def State.enqueue (st : State) (work : Work) : State :=
  { st with
    tasks := st.tasks ++ [⟨work, .queued⟩]
    tails := fun id => if id ∈ work.ids then some st.tasks.length else st.tails id }

/-- The edit that a waiting one becomes when it takes another in. -/
def Edit.merge (edit other : Edit) : Edit :=
  { edit with fields := edit.fields ++ other.fields.filter fun f => f ∉ edit.fields }

def Edit.takes (edit other : Edit) : Bool :=
  edit.path = other.path && edit.mergeable && other.mergeable && edit.expected = other.expected

def Task.takeIn (task : Task) (edit : Edit) : Option Task :=
  match task.work with
  | .edit id waiting =>
    if waiting.takes edit then some { task with work := .edit id (waiting.merge edit) } else none
  | .write _ => none

/-- `queueIssueUpdate`, when no waiting edit takes it in. -/
def State.queueEdit (st : State) (id : Nat) (edit : Edit) : State :=
  { st.enqueue (.edit id edit) with
    waiting := update st.waiting id
      (if (st.tails id).isSome then some st.tasks.length else none) }

/-- The waiting task of an issue after it took an edit in. -/
def State.merged (st : State) (id : Nat) (edit : Edit) : Option (Nat × Task) :=
  (st.waiting id).bind fun index =>
    (st.tasks[index]?).bind fun task => (task.takeIn edit).map fun task => (index, task)

def State.queueIssueUpdate (st : State) (id : Nat) (edit : Edit) : State :=
  match st.merged id edit with
  | some (index, task) => { st with tasks := st.tasks.set index task }
  | none => st.queueEdit id edit

def State.queueIssuesWrite (st : State) (ids : List Nat) : State :=
  { st.enqueue (.write ids.dedup) with
    waiting := fun id => if id ∈ ids then none else st.waiting id }

def State.ready (st : State) (index : Nat) (task : Task) : Bool :=
  (st.tasks.take index).all fun earlier =>
    earlier.stage = .settled || earlier.work.ids.all fun id => id ∉ task.work.ids

/-- Whether an edit shares the conflict of an earlier write. -/
def sharesConflict (conflict expected : Option Int) : Bool :=
  match conflict, expected with
  | some version, some expected => expected < version
  | _, _ => false

def State.stopWaiting (st : State) (id index : Nat) : State :=
  { st with
    waiting := update st.waiting id
      (if st.waiting id = some index then none else st.waiting id) }

def State.run (st : State) (index : Nat) : Work → State
  | .write _ => st.setStage index (.sent none)
  | .edit id edit =>
    (st.stopWaiting id index).setStage index
      (if sharesConflict (st.conflicts id) edit.expected then .settled
        else .sent (versionToSend (st.lineages id) edit.expected))

def State.recordWritten (st : State) (sent : Option Int) (written : Written) : State :=
  (written.affected.foldl (fun st result => st.record none result) st).record sent written.result

def State.settle (st : State) (index : Nat) (task : Task) (sent : Option Int) (answer : Answer) :
    State :=
  let st := st.setStage index .settled
  match answer with
  | .ok written => written.foldl (fun st written => st.recordWritten sent written) st
  | .conflict current => task.work.ids.foldl (fun st id => st.recordConflict current id) st
  | .failed => st

def State.cleanup (st : State) (index : Nat) (ids : List Nat) : State :=
  { st with
    tails := fun id => if id ∈ ids ∧ st.tails id = some index then none else st.tails id
    conflicts := fun id => if id ∈ ids ∧ st.tails id = some index then none else st.conflicts id }

/-! ## Requests -/

/-- What a write does to an issue: the fields that it changes, whether the answer has the issue,
and the other issues that it changes. -/
structure Effect where
  issue : Nat
  fields : List Nat
  reported : Bool
  affected : List (Nat × List Nat)
deriving DecidableEq, Repr

def raise (issues : Nat → List Change) (id : Nat) (fields : List Nat) : Nat → List Change :=
  update issues id (append (issues id) fields true)

/-- The other issues that a write changes, one after another. -/
def raiseAll (issues : Nat → List Change) :
    List (Nat × List Nat) → (Nat → List Change) × List Result
  | [] => (issues, [])
  | (id, fields) :: rest =>
    let raised := raise issues id fields
    let others := raiseAll raised rest
    (others.1, ⟨id, version (raised id)⟩ :: others.2)

def serveAll (issues : Nat → List Change) : List Effect → (Nat → List Change) × List Written
  | [] => (issues, [])
  | effect :: rest =>
    let raised := raise issues effect.issue effect.fields
    let affected := raiseAll raised effect.affected
    let others := serveAll affected.1 rest
    let written := ⟨⟨effect.issue, version (raised effect.issue)⟩, affected.2⟩
    (others.1, if effect.reported then written :: others.2 else others.2)

def Work.allows : Work → List Effect → Bool
  | .edit id input, effects =>
    effects.all (fun effect =>
      effect.issue = id && effect.fields.all fun f => f ∈ input.fields) && effects.length = 1
  | .write ids, effects => effects.all fun effect => effect.issue ∈ ids

def Effect.raisesOthers (effect : Effect) : Bool :=
  effect.affected.all fun other => other.2 ≠ []

/-- The fields of other clients' changes after the version that an edit is based on
which the edit names. -/
def replacedBy (changes : List Change) (edit : Edit) : List Nat :=
  match edit.expected with
  | none => []
  | some base =>
    ((after changes base).filter fun change => !change.own).flatMap fun change =>
      change.fields.filter fun f => f ∈ edit.fields

def State.apply (st : State) (index : Nat) (sent : Option Int) (effects : List Effect) : State :=
  let served := serveAll st.issues effects
  ({ st with issues := served.1 } : State).setStage index (.answered sent (.ok served.2))

def State.serve (st : State) (index : Nat) (work : Work) (sent : Option Int)
    (effects : List Effect) : State :=
  match work with
  | .write _ => st.apply index sent effects
  | .edit id edit =>
    if accepts (st.issues id) edit.fields sent then
      { st.apply index sent effects with
        replaced := st.replaced ++ replacedBy (st.issues id) edit }
    else st.setStage index (.answered sent (.conflict (some (version (st.issues id)))))

inductive Label where
  | queueIssueUpdate (id : Nat) (edit : Edit)
  | queueIssuesWrite (ids : List Nat)
  | run (index : Nat)
  | serve (index : Nat) (effects : List Effect)
  /-- The server answers a conflict of another kind. -/
  | refuse (index : Nat) (current : Option Int)
  | fail (index : Nat)
  | settle (index : Nat)
  | cleanup (index : Nat)
  | foreign (id : Nat) (fields : List Nat)
deriving DecidableEq, Repr

def Task.request (task : Task) : Option (Option Int) :=
  match task.stage with
  | .sent sent => some sent
  | _ => none

def Task.answer (task : Task) : Option (Option Int × Answer) :=
  match task.stage with
  | .answered sent answer => some (sent, answer)
  | _ => none

/-- The version that a task carries that has no answer yet at the client. -/
def Task.pending (task : Task) : Option (Option Int) :=
  match task.stage with
  | .sent sent => some sent
  | .answered sent _ => some sent
  | _ => none

def step (st : State) : Label → Option State
  | .queueIssueUpdate id edit => some (st.queueIssueUpdate id edit)
  | .queueIssuesWrite ids => some (st.queueIssuesWrite ids)
  | .run index =>
    (st.tasks[index]?).bind fun task =>
      if task.stage = .queued ∧ st.ready index task then some (st.run index task.work) else none
  | .serve index effects =>
    (st.tasks[index]?).bind fun task =>
      task.request.bind fun sent =>
        if task.work.allows effects ∧ effects.all Effect.raisesOthers then
          some (st.serve index task.work sent effects)
        else none
  | .refuse index current =>
    (st.tasks[index]?).bind fun task =>
      task.request.map fun sent => st.setStage index (.answered sent (.conflict current))
  | .fail index =>
    (st.tasks[index]?).bind fun task =>
      task.pending.map fun sent => st.setStage index (.answered sent .failed)
  | .settle index =>
    (st.tasks[index]?).bind fun task =>
      task.answer.map fun answer => st.settle index task answer.1 answer.2
  | .cleanup index =>
    (st.tasks[index]?).bind fun task =>
      if task.stage = .settled then some (st.cleanup index task.work.ids) else none
  | .foreign id fields =>
    if fields ≠ [] then
      some { st with issues := update st.issues id (append (st.issues id) fields false) }
    else none

/-! ## What the queue promises -/

/-- The versions after one up to another are the client's own: the change at a place
has produced the next version. -/
def OwnRun (changes : List Change) (first last : Int) : Prop :=
  ∀ i : Nat, first ≤ i → (i : Int) < last → ∃ change, changes[i]? = some change ∧ change.own

/-- An edit that is sent with another version than its base has only own versions between the
two, and no accepted edit has replaced another client's change that came after its base. -/
structure Promise (st : State) : Prop where
  between : ∀ task ∈ st.tasks, ∀ id edit base sent, task.work = .edit id edit →
    edit.expected = some base → task.stage = .sent (some sent) → sent ≠ base →
      base < sent ∧ OwnRun (st.issues id) base sent
  replaced : st.replaced = []

/-- The stored version of an issue is the client's own, or the first one. -/
def ownVersion (changes : List Change) : Bool := changes.getLast?.all Change.own

/-- A write without a version changes every issue that it writes, or the issue's
version is the client's own. -/
def soundEffects (issues : Nat → List Change) : List Effect → Bool
  | [] => true
  | effect :: rest =>
    let raised := raise issues effect.issue effect.fields
    (effect.fields ≠ [] || ownVersion (issues effect.issue)) &&
      soundEffects (raiseAll raised effect.affected).1 rest

/-- The server accepts an edit with a version only when all changes after it are the
client's own. -/
def soundRequest (st : State) (effects : List Effect) (work : Work) : Option Int → Bool
  | none => soundEffects st.issues effects
  | some sent =>
    match work with
    | .write _ => true
    | .edit id edit =>
      !accepts (st.issues id) edit.fields (some sent) ||
        (after (st.issues id) sent).all Change.own

def Sound (st : State) : Label → Bool
  | .serve index effects =>
    ((st.tasks[index]?).bind fun task =>
      task.request.map fun sent => soundRequest st effects task.work sent).getD true
  | _ => true

end Flow.Ports.IssueMutationQueue
