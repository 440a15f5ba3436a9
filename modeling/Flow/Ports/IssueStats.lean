import Mathlib.Data.List.Dedup
import Flow.Verified.Run
import Flow.Verified.Table
import Flow.Verified.Tally

/-!
# Issue counters

`issue_scope_counts` holds, for the workspace and for each team, project and assignee,
how many issue rows have a status, status type, priority and archived flag.  Every
transaction that writes issue rows computes its deltas from the rows before and after
it and adds them to the counters when it commits.

These are the issue rows and the counters of one SQLite workspace, the write paths
(`writeIssueRecord`, `writeIssueRecordBatch`, `replaceIssueRecords`, `importIssues`,
the removals of a scoped mutation and of a deleted team) and the commit that flushes
the deltas.  A row holds its indexed columns beside its JSON payload.  The deltas of a
rewritten row come from the payload, those of a row deleted by team from the columns.
-/

namespace Flow.Ports.IssueStats

open Flow.Verified
open Run (Reaches)

/-! ## Issues and their rows -/

/-- A team, a user or a project, as an issue shows it. -/
structure Named where
  id : String
  name : String
deriving DecidableEq, Repr

structure WorkflowState where
  id : String
  type : String
  name : String
deriving DecidableEq, Repr

structure IssueLabel where
  id : String
  name : String
  issueCount : Nat
deriving DecidableEq, Repr

/-- An issue.  `body` stands for the fields that no write path looks at. -/
structure Issue where
  id : String
  version : Nat
  identifier : String
  priority : Int
  archivedAt : Option Nat
  team : Named
  state : WorkflowState
  assignee : Option Named
  delegate : Option Named
  creator : Named
  labels : List IssueLabel
  project : Option Named
  agentSessionState : String
  body : String
deriving DecidableEq, Repr

def stripNUL (text : String) : String :=
  String.ofList (text.toList.filter fun ch => ch ≠ '\x00')

def Named.stripped (ref : Named) : Named :=
  { id := stripNUL ref.id, name := stripNUL ref.name }

/-- The JSON payload of an issue, as the value it decodes to: without the read
decorations, and without NUL in any string. -/
def Issue.payload (issue : Issue) : Issue :=
  { id := stripNUL issue.id
    version := if issue.version = 0 then 1 else issue.version
    identifier := stripNUL issue.identifier
    priority := issue.priority
    archivedAt := issue.archivedAt
    team := issue.team.stripped
    state := ⟨stripNUL issue.state.id, stripNUL issue.state.type, stripNUL issue.state.name⟩
    assignee := issue.assignee.map Named.stripped
    delegate := issue.delegate.map Named.stripped
    creator := issue.creator.stripped
    labels := issue.labels.map fun label => ⟨stripNUL label.id, stripNUL label.name, 0⟩
    project := issue.project.map Named.stripped
    agentSessionState := ""
    body := stripNUL issue.body }

structure Dimensions where
  team : String
  project : String
  assignee : String
  state : String
  type : String
  priority : Int
  archived : Nat
deriving DecidableEq, Repr

def issueStatsOf (issue : Issue) : Dimensions :=
  { team := issue.team.id
    project := (issue.project.map Named.id).getD ""
    assignee := (issue.assignee.map Named.id).getD ""
    state := issue.state.id
    type := issue.state.type
    priority := issue.priority
    archived := if issue.archivedAt.isSome then 1 else 0 }

/-- A row of `issue_records`: the indexed columns the counters are about, and
the payload. -/
structure Row where
  id : String
  identifier : String
  columns : Dimensions
  data : Issue
deriving DecidableEq, Repr

/-- The columns take the ids as they are, the payload loses NUL. -/
def issueRecordValues (issue : Issue) : Row :=
  { id := issue.id
    identifier := issue.identifier
    columns :=
      { team := issue.team.id
        project := (issue.project.map Named.id).getD ""
        assignee := (issue.assignee.map Named.id).getD ""
        state := issue.state.id
        type := issue.state.type
        priority := issue.priority
        archived := if issue.archivedAt.isSome then 1 else 0 }
    data := issue.payload }

/-- The payload is stored already, or is what the stored one would be written as. -/
def equalIssueRecordData (previous : Option Issue) (next : Issue) : Bool :=
  match previous with
  | none => false
  | some old => old = next || old.payload = next

/-- `issueReferences`: the display data by id, the last entry of an id. -/
structure References where
  teams : List Named
  states : List WorkflowState
  users : List Named
  labels : List IssueLabel
  projects : List Named
deriving DecidableEq, Repr

def References.named (entries : List Named) (ref : Named) : Named :=
  (entries.reverse.find? fun entry => entry.id = ref.id).getD ref

def References.resolve (refs : References) (issue : Issue) : Issue :=
  { issue with
    team := References.named refs.teams issue.team
    state := (refs.states.reverse.find? fun entry => entry.id = issue.state.id).getD issue.state
    creator := References.named refs.users issue.creator
    assignee := issue.assignee.map (References.named refs.users)
    delegate := issue.delegate.map (References.named refs.users)
    project := issue.project.map (References.named refs.projects)
    labels := issue.labels.map fun label =>
      (refs.labels.reverse.find? fun entry => entry.id = label.id).getD label }

/-- `issueReferences.equalOwned`: nothing but display data differs. -/
def References.equalOwned (refs : References) (previous : Option Issue) (next : Issue) : Bool :=
  match previous with
  | none => false
  | some old =>
    old.state.type = next.state.type &&
      ((refs.resolve old).payload = (refs.resolve next).payload)

inductive Scope where
  | workspace
  | team
  | project
  | assignee
deriving DecidableEq, Repr

/-- `issueStatsKey`, the key of `issue_scope_counts` within a workspace. -/
structure StatsKey where
  scope : Scope
  id : String
  state : String
  type : String
  priority : Int
  archived : Nat
deriving DecidableEq, Repr

def Dimensions.scopeId (d : Dimensions) : Scope → String
  | .workspace => ""
  | .team => d.team
  | .project => d.project
  | .assignee => d.assignee

def Dimensions.key (d : Dimensions) (scope : Scope) : StatsKey :=
  ⟨scope, d.scopeId scope, d.state, d.type, d.priority, d.archived⟩

abbrev Deltas : Type := List (StatsKey × Int)

def addIssueStats (deltas : Deltas) (d : Option Dimensions) (delta : Int) : Deltas :=
  match d with
  | none => deltas
  | some d =>
    [Scope.workspace, .team, .project, .assignee].foldl
      (fun deltas scope => Tally.bump deltas (d.key scope) delta) deltas

/-- What a transaction sees: the issue rows with its own writes, and the deltas
it has queued for its commit. -/
structure Tx where
  records : List Row
  pending : Deltas
deriving DecidableEq, Repr

/-- `SELECT … FROM issue_records WHERE id=?`. -/
def readRow (records : List Row) (id : String) : Option Row :=
  Table.lookup Row.id records id

def readData (records : List Row) (id : String) : Option Issue :=
  (readRow records id).map Row.data

def writeIssueStats (tx : Tx) (deltas : Deltas) : Tx :=
  { tx with pending := Tally.merge tx.pending deltas }

/-- `INSERT … ON CONFLICT(workspace_key,id) DO UPDATE`.  An identifier that
another issue has violates the unique index. -/
def upsertRow (records : List Row) (row : Row) : Option (List Row) :=
  if records.any fun other => other.id ≠ row.id && other.identifier = row.identifier then none
  else if (readRow records row.id).isSome then some (Table.replace Row.id records row)
  else some (records ++ [row])

/-- The multi-row inserts write their rows in order. -/
def importIssueRecordBatch (records : List Row) (issues : List Issue) : Option (List Row) :=
  issues.foldlM (fun records issue => upsertRow records (issueRecordValues issue)) records

/-- `DELETE FROM issue_records WHERE id=?`. -/
def deleteRow (records : List Row) (id : String) : List Row :=
  records.filter fun row => row.id ≠ id

/-! ## The write paths -/

def writeIssueRecord (tx : Tx) (issue : Issue) (metadata : Option References) : Option Tx :=
  let values := issueRecordValues issue
  let raw := readData tx.records issue.id
  if equalIssueRecordData raw values.data then some tx
  else if (metadata.map fun refs => refs.equalOwned raw issue).getD false then some tx
  else do
    let old := raw.map issueStatsOf
    let delta := addIssueStats (addIssueStats [] old (-1)) (some (issueStatsOf issue)) 1
    let tx := writeIssueStats tx delta
    let records ← upsertRow tx.records values
    some { tx with records }

/-- The payload a batch compares with: the one its caller read, or the stored
one. -/
def batchPrevious (records : List Row) (previous : List (String × Issue)) (id : String) :
    Option Issue :=
  match previous.lookup id with
  | some raw => some raw
  | none => readData records id

structure Batch where
  deltas : Deltas
  changed : List Issue
deriving DecidableEq, Repr

/-- A changed issue: its old payload leaves its counters and it enters its new
ones. -/
def Batch.change (batch : Batch) (old : Option Issue) (issue : Issue) : Batch :=
  { deltas := addIssueStats (addIssueStats batch.deltas (old.map issueStatsOf) (-1))
      (some (issueStatsOf issue)) 1
    changed := batch.changed ++ [issue] }

def batchIssue (refs : References) (old : String → Option Issue) (batch : Batch) (issue : Issue) :
    Batch :=
  if equalIssueRecordData (old issue.id) (issueRecordValues issue).data ||
      refs.equalOwned (old issue.id) issue then
    batch
  else batch.change (old issue.id) issue

def writeIssueRecordBatch (tx : Tx) (issues : List Issue) (refs : References)
    (previous : List (String × Issue)) : Option Tx :=
  let batch := issues.foldl (batchIssue refs (batchPrevious tx.records previous)) ⟨[], []⟩
  if batch.changed = [] then some tx
  else do
    let tx := writeIssueStats tx batch.deltas
    let records ← importIssueRecordBatch tx.records batch.changed
    some { tx with records }

/-- `recordFingerprint`: the payload a full mutation loaded, as it was stored
and as the mutation would write it unchanged. -/
structure Fingerprint where
  stored : Issue
  loaded : Issue
deriving DecidableEq, Repr

/-- The fingerprints of a full mutation; without them every row is its own. -/
abbrev RecordBase : Type := Option (List (String × Fingerprint))

/-- Whether an issue is stored otherwise than a full mutation loaded it. -/
def changedElsewhere (fingerprint : Option Fingerprint) (current : Option Issue) : Bool :=
  match fingerprint, current with
  | some fingerprint, some current => current ≠ fingerprint.stored
  | some _, none => true
  | none, some _ => true
  | none, none => false

/-- Whether the mutation left the issue as it loaded it. -/
def untouched (fingerprint : Option Fingerprint) (issue : Issue) : Bool :=
  match fingerprint with
  | some fingerprint => fingerprint.loaded = (issueRecordValues issue).data
  | none => false

/-- The loop of the full synchronisation: the rows, the deltas and the ids that
no issue of the collection has had yet. -/
structure Sync where
  records : List Row
  deltas : Deltas
  previous : List String
deriving DecidableEq, Repr

/-- One issue of a slice of the collection; `records` are the rows at its start. An issue that
changed elsewhere is kept when the mutation did not touch it, and fails the mutation otherwise.
-/
def syncIssue (refs : References) (base : RecordBase) (records : List Row)
    (acc : Batch × List String) (issue : Issue) : Option (Batch × List String) :=
  let current := readData records issue.id
  let fingerprint := base.bind fun base => base.lookup issue.id
  let previous := acc.2.filter fun id => id ≠ issue.id
  if base.isSome && changedElsewhere fingerprint current then
    if untouched fingerprint issue then some (acc.1, previous) else none
  else some (batchIssue refs (readData records) acc.1 issue, previous)

def syncSlice (refs : References) (base : RecordBase) (sync : Sync) (slice : List Issue) :
    Option Sync := do
  let (batch, previous) ←
    slice.foldlM (syncIssue refs base sync.records) (⟨sync.deltas, []⟩, sync.previous)
  let records ← importIssueRecordBatch sync.records batch.changed
  some ⟨records, batch.deltas, previous⟩

/-- A stored row that the collection does not have: deleted, unless it was
committed elsewhere after the load. -/
def syncMissing (base : RecordBase) (sync : Sync) (id : String) : Option Sync :=
  let remove : Sync :=
    { sync with
      records := deleteRow sync.records id
      deltas := addIssueStats sync.deltas ((readRow sync.records id).map Row.columns) (-1) }
  match base with
  | none => some remove
  | some base =>
    match base.lookup id with
    | none => some sync
    | some fingerprint =>
      if readData sync.records id = some fingerprint.stored then some remove else none

def replaceIssueRecords (tx : Tx) (issues : List Issue) (refs : References) (base : RecordBase) :
    Option Tx := do
  let sync ← (issues.toChunks 64).foldlM (syncSlice refs base)
    ⟨tx.records, [], tx.records.map Row.id⟩
  let sync ← sync.previous.foldlM (syncMissing base) sync
  some { writeIssueStats tx sync.deltas with records := sync.records }

/-- The removals of a scoped mutation: the issues it loaded and did not
return. -/
def removeIssues (tx : Tx) (loaded : List (String × Issue)) (remaining : List String) : Tx :=
  loaded.foldl
    (fun tx entry =>
      if entry.1 ∈ remaining then tx
      else
        { writeIssueStats tx (addIssueStats [] (some (issueStatsOf entry.2)) (-1)) with
          records := deleteRow tx.records entry.1 })
    tx

def deleteTeamOwnedIssueRecords (tx : Tx) (teamID : String) : Tx :=
  let owned := tx.records.filter fun row => row.columns.team = teamID
  if teamID = "" || owned = [] then tx
  else
    let deltas := owned.foldl
      (fun deltas row => addIssueStats deltas (some { row.columns with team := teamID }) (-1)) []
    { writeIssueStats tx deltas with
      records := tx.records.filter fun row => row.columns.team ≠ teamID }

def importData (issues : List Issue) (id : String) : Option Issue :=
  (issues.find? fun issue => issue.id = id).map Issue.payload

def importUnchanged (issues : List Issue) (row : Row) : Bool :=
  match importData issues row.id with
  | some raw => equalIssueRecordData (some row.data) raw
  | none => false

def importExisting (records : List Row) (issues : List Issue) : List Row :=
  records.filter fun row => row.id ∈ issues.map Issue.id

def importKept (records : List Row) (issues : List Issue) : List String :=
  ((importExisting records issues).filter (importUnchanged issues)).map Row.id

def importChanged (records : List Row) (issues : List Issue) : List Issue :=
  issues.filter fun issue => issue.id ∉ importKept records issues

def importIssues (tx : Tx) (issues : List Issue) : Option Tx :=
  if issues.length > 1000 then none
  else if issues = [] then some tx
  else if issues.any fun issue => issue.id = "" then none
  else if ¬ (issues.map Issue.id).Nodup then none
  else
    let changed := importChanged tx.records issues
    let delta :=
      ((importExisting tx.records issues).filter fun row => !importUnchanged issues row).foldl
        (fun delta row => addIssueStats delta (some (issueStatsOf row.data)) (-1)) []
    let delta := changed.foldl
      (fun delta issue => addIssueStats delta (some (issueStatsOf issue)) 1) delta
    if changed = [] then some tx
    else do
      let records ← importIssueRecordBatch tx.records changed
      some { writeIssueStats tx delta with records }

inductive Call where
  | write (issue : Issue) (metadata : Option References)
  | batch (issues : List Issue) (refs : References) (previous : List (String × Issue))
  | replace (issues : List Issue) (refs : References) (base : RecordBase)
  | remove (loaded : List (String × Issue)) (remaining : List String)
  | deleteTeam (teamID : String)
  | importBatch (issues : List Issue)
deriving DecidableEq, Repr

/-- The rows a caller read are locked: they are stored as it read them, and it
read each once. -/
def locked (records : List Row) (loaded : List (String × Issue)) : Bool :=
  (loaded.map Prod.fst).Nodup &&
    loaded.all fun entry => readData records entry.1 = some entry.2

def Call.run (tx : Tx) : Call → Option Tx
  | .write issue metadata => writeIssueRecord tx issue metadata
  | .batch issues refs previous =>
    if locked tx.records previous then writeIssueRecordBatch tx issues refs previous else none
  | .replace issues refs base => replaceIssueRecords tx issues refs base
  | .remove loaded remaining =>
    if locked tx.records loaded then some (removeIssues tx loaded remaining) else none
  | .deleteTeam teamID => some (deleteTeamOwnedIssueRecords tx teamID)
  | .importBatch issues => importIssues tx issues

/-- The issue rows and the counters of the workspace. -/
structure Db where
  records : List Row
  counts : Deltas
deriving DecidableEq, Repr

/-- `COUNT(*) … GROUP BY` for each scope. -/
def migrateIssueStats (records : List Row) : Deltas :=
  [Scope.workspace, .team, .project, .assignee].flatMap fun scope =>
    ((records.map fun row => row.columns.key scope).dedup).map fun key =>
      (key, (records.countP fun row => row.columns.key scope = key : Nat))

inductive Label where
  | commit (calls : List Call)
  /-- The counters of the workspace are built at a start. -/
  | migrate
deriving DecidableEq, Repr

def Db.step (db : Db) : Label → Option Db
  | .commit calls => do
      let tx ← calls.foldlM Call.run ⟨db.records, []⟩
      some ⟨tx.records, Tally.merge db.counts tx.pending⟩
  | .migrate => some { db with counts := migrateIssueStats db.records }

def Db.empty : Db := ⟨[], []⟩

end Flow.Ports.IssueStats
