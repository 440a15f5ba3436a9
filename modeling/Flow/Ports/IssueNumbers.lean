import Flow.Verified.Run
import Flow.Verified.Slots

/-!
# Issue numbers

Every issue of a workspace has a number, and most have an id made of it.  The workspace
has a sequence, a row with the last number.  A transaction that creates issues or moves
them to another team reads the sequence under a row lock, which it holds until it ends,
loads some issues, and numbers from the sequence; a workflow that the creation of an issue
triggers numbers from the loaded issues.

A workflow run, an import and a migration change the whole workspace: they load all
issues without a lock, number from these alone, and take the lock only to write what they
have created.  An issue that was written elsewhere since the load is kept, and one that
was created elsewhere under the id of a new one is a conflict, after which the change is
made again.

An update of an issue takes the lock when it names another team than the one the issue was
read with.  If the issue is moved between that read and the transaction, the update may
move it back without the lock, and without advancing the sequence.

Deletions leave the sequence alone.
-/

namespace Flow.Ports.IssueNumbers

open Flow.Verified

/-! ## Issues and their numbers -/

/-- The id of an issue: `issue_` with a number, or a creation key or a random id. -/
inductive Id where
  | numbered (number : Nat)
  | keyed (key : Nat)
deriving DecidableEq, Repr

structure Issue where
  id : Id
  number : Nat
deriving DecidableEq, Repr

def nextIssueNumber (issues : List Issue) : Nat :=
  issues.foldl (fun next issue => if next ≤ issue.number then issue.number + 1 else next) 1

/-- The issues that a change works on, and `NextIssueNumber`. -/
structure Data where
  issues : List Issue
  nextIssueNumber : Nat
deriving DecidableEq, Repr

def Issue.new (number : Nat) : Issue := ⟨.numbered number, number⟩

def consecutive (number count : Nat) : List Issue :=
  (List.range' number count).map Issue.new

def createByWorkflows : Nat → List Issue → List Issue
  | 0, _ => []
  | count + 1, issues =>
    let created := Issue.new (nextIssueNumber issues)
    created :: createByWorkflows count (created :: issues)

/-- `createIssueInWorkspace`, with sub-issues of a template and triggered workflows; `none` when
an issue has the creation key. -/
def createIssueInWorkspace (data : Data) (key : Option Nat) (children workflows : Nat) :
    Option (List Issue) :=
  if key.any fun key => data.issues.any fun issue => issue.id = .keyed key then none
  else
    let number := if data.nextIssueNumber = 0 then nextIssueNumber data.issues
      else data.nextIssueNumber
    let created := ⟨key.elim (.numbered number) .keyed, number⟩ :: consecutive (number + 1) children
    some (created ++ createByWorkflows workflows (created ++ data.issues))

def createNext (data : Data) (children : Nat) : List Issue :=
  consecutive (max data.nextIssueNumber (nextIssueNumber data.issues)) (children + 1)

/-- `moveIssueToTeam` of several issues; the issues with their new numbers. -/
def moveIssuesToTeam : List Id → Data → List Issue
  | [], _ => []
  | id :: ids, data =>
    let number := max data.nextIssueNumber (nextIssueNumber data.issues)
    ⟨id, number⟩ :: moveIssuesToTeam ids
      { issues := data.issues.map fun issue => if issue.id = id then ⟨id, number⟩ else issue
        nextIssueNumber := number + 1 }

def migrateIssues : List Nat → Nat → List Issue
  | [], _ => []
  | key :: keys, number => ⟨.keyed key, number⟩ :: migrateIssues keys (number + 1)

inductive Operation where
  | createIssue (key : Option Nat) (children workflows : Nat)
  | createInstance (children : Nat)
  | moveToTeam (ids : List Id)
  /-- `workflow_run.executed`, with the number of issues it creates. -/
  | runWorkflow (count : Nat)
  | commitImport (count : Nat)
  | migrate (keys : List Nat)
deriving DecidableEq, Repr

def Operation.full : Operation → Bool
  | .runWorkflow _ | .commitImport _ | .migrate _ => true
  | _ => false

def Operation.writes (data : Data) : Operation → Option (List Issue)
  | .createIssue key children workflows => createIssueInWorkspace data key children workflows
  | .createInstance children => some (createNext data children)
  | .moveToTeam ids => some (moveIssuesToTeam ids data)
  | .runWorkflow count => some (createByWorkflows count data.issues)
  | .commitImport count => some (consecutive (nextIssueNumber data.issues) count)
  | .migrate keys => some (migrateIssues keys (nextIssueNumber data.issues))

def Operation.key : Operation → Option Nat
  | .createIssue key _ _ => key
  | _ => none

def Operation.creates : Operation → Bool
  | .moveToTeam _ => false
  | _ => true

/-- A change of the whole workspace, after its load. -/
inductive Task where
  | loaded (operation : Operation) (base : List Issue)
  | ended
deriving DecidableEq, Repr

structure State where
  issues : List Issue
  /-- `last_number`. -/
  sequence : Nat
  locked : Option (Operation × Data)
  tasks : List Task
  given : List Nat
  taken : List Id
deriving DecidableEq, Repr

def State.start : State where
  issues := []
  sequence := 0
  locked := none
  tasks := []
  given := []
  taken := []

def ids (issues : List Issue) : List Id := issues.map Issue.id

def lookup (issues : List Issue) (id : Id) : Option Issue := issues.find? fun issue => issue.id = id

/-- A row is inserted, or replaces the one with its id. -/
def upsert (issues : List Issue) (row : Issue) : List Issue :=
  if row.id ∈ ids issues then issues.map fun issue => if issue.id = row.id then row else issue
  else row :: issues

def maxNumber (issues : List Issue) : Nat :=
  issues.foldl (fun last issue => max last issue.number) 0

/-- The issues whose numbers the sequence is moved past: of a scoped change only those
that it has created. -/
def Operation.counted (data : Data) (rows : List Issue) : Operation → List Issue
  | .createInstance _ => rows
  | _ => rows ++ data.issues

def State.write (st : State) (operation : Operation) (data : Data) (rows : List Issue) : State :=
  { st with
    issues := rows.foldl upsert st.issues
    sequence := max st.sequence (maxNumber (operation.counted data rows))
    given := st.given ++ rows.map Issue.number
    taken := st.taken ++ if operation.creates then (ids rows).filter (· ∈ ids st.issues) else [] }

def State.unlock (st : State) : State := { st with locked := none }

def State.putTask (st : State) (i : Nat) (task : Task) : State :=
  { st with tasks := st.tasks.set i task }

/-- What a transaction works on: the issues it loads, with the one of its creation key, and the
next number. A move and a scoped creation also look at the next number of the server's copy of
the workspace, `memory`. -/
def State.data (st : State) (operation : Operation) (loaded : List Id) (memory : Nat) : Data where
  issues := st.issues.filter fun issue =>
    issue.id ∈ loaded ∨ operation.key.any fun key => issue.id = .keyed key
  nextIssueNumber :=
    match operation with
    | .createIssue _ _ _ => st.sequence + 1
    | _ => max memory (st.sequence + 1)

inductive Label where
  | begin (operation : Operation) (loaded : List Id) (memory : Nat)
  | commit
  | rollback
  | load (operation : Operation)
  | replace (i : Nat)
  /-- A move whose transaction has not taken the lock: the team was compared before it began. -/
  | moveUnlocked (id : Id) (loaded : List Id) (memory : Nat)
  | delete (ids : List Id)
deriving DecidableEq, Repr

def Operation.movesLoaded (data : Data) : Operation → Bool
  | .moveToTeam moved => moved.all (· ∈ ids data.issues)
  | _ => true

def Operation.newKeys (issues : List Issue) : Operation → Bool
  | .migrate keys => decide keys.Nodup && keys.all fun key => .keyed key ∉ ids issues
  | _ => true

def conflicts (base stored rows : List Issue) : Bool :=
  rows.any fun row => lookup base row.id ≠ lookup stored row.id

def step (st : State) : Label → Option State
  | .begin operation loaded memory =>
    let data := st.data operation loaded memory
    if st.locked = none ∧ operation.full = false ∧ operation.movesLoaded data then
      some { st with locked := some (operation, data) }
    else none
  | .commit =>
    st.locked.map fun (operation, data) =>
      match operation.writes data with
      | none => st.unlock
      | some rows => (st.write operation data rows).unlock
  | .rollback => st.locked.map fun _ => st.unlock
  | .load operation =>
    if operation.full ∧ operation.newKeys st.issues then
      some { st with tasks := st.tasks ++ [.loaded operation st.issues] }
    else none
  | .replace i =>
    if st.locked = none then
      match st.tasks[i]? with
      | some (.loaded operation base) =>
        (operation.writes ⟨base, 0⟩).map fun rows =>
          if conflicts base st.issues rows then st.putTask i .ended
          else (st.write operation ⟨base, 0⟩ rows).putTask i .ended
      | _ => none
    else none
  | .moveUnlocked id loaded memory =>
    let data : Data := ⟨st.issues.filter fun issue => issue.id ∈ loaded, memory⟩
    if id ∈ ids data.issues ∧ st.locked.all fun tx => id ∉ ids tx.2.issues then
      let rows := moveIssuesToTeam [id] data
      some { st with
        issues := rows.foldl upsert st.issues
        given := st.given ++ rows.map Issue.number }
    else none
  | .delete deleted =>
    -- the rows that a transaction has loaded are locked
    if st.locked.all fun tx => deleted.all (· ∉ ids tx.2.issues) then
      some { st with issues := st.issues.filter fun issue => issue.id ∉ deleted }
    else none

/-! ## What the sequence promises -/

/-- No number was given twice, and no new issue took the id of another. -/
structure Promise (st : State) : Prop where
  numbers : st.given.Nodup
  ids : st.taken = []

/-- A change of the whole workspace that is written: the last number of the sequence is
the largest number of the issues that it has loaded. No issue is moved without the lock. -/
def Sound (st : State) : Label → Bool
  | .moveUnlocked _ _ _ => false
  | .replace i =>
    match st.tasks[i]? with
    | some (.loaded _ base) => st.sequence < nextIssueNumber base
    | _ => true
  | _ => true

end Flow.Ports.IssueNumbers
