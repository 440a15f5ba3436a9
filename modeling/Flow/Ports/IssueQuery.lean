import Mathlib.Data.List.Basic
import Mathlib.Algebra.Order.Ring.Rat

/-!
# Issue queries

An issue list asks for the rows of a workspace that meet the conditions of an
`IssueRecordQuery`: the viewer's access, an archived state, team, project, status and
id lists, a text, and a tree of filters.  The store compiles these to one SQL
condition on a row.

`compileIssueFilter` follows the compiler of the filter tree, with its depth, node and
value limits, its field aliases and its operators; a compiled `Clause` is tested on a
row.  `issueRecordWhere` joins it with the other conditions, and `sharedIssues` is the
recursive table of the issues shared with a viewer.

The comparisons are those of SQLite.  How it reads a text as a number, matches a
pattern and normalises a date is a parameter (`Dialect`), and so are the customer,
agent session, release and attribute filters (`Db.extra`): they read tables of their
own and never the query.
-/

namespace Flow.Ports.IssueQuery

open List
open Option (bind_eq_some_iff bind_eq_bind)

/-! ## Rows and columns -/

/-- A row of `issue_records`. -/
structure Row where
  id : String
  identifier : String
  team : String
  state : String
  type : String
  project : String
  assignee : String
  creator : String
  cycle : String
  parent : String
  priority : Int
  sortOrder : Rat
  title : String
  createdAt : String
  updatedAt : String
  archived : Bool
deriving DecidableEq, Repr

/-- The columns a filter or a grouping names. -/
inductive Column where
  | id | identifier | team | state | type | project | assignee | creator | cycle | parent
  | priority | sortOrder | title | createdAt | updatedAt
deriving DecidableEq, Repr

inductive Cell where
  | text (value : String)
  | number (value : Rat)
deriving DecidableEq, Repr

def Row.cell (row : Row) : Column → Cell
  | .id => .text row.id
  | .identifier => .text row.identifier
  | .team => .text row.team
  | .state => .text row.state
  | .type => .text row.type
  | .project => .text row.project
  | .assignee => .text row.assignee
  | .creator => .text row.creator
  | .cycle => .text row.cycle
  | .parent => .text row.parent
  | .priority => .number row.priority
  | .sortOrder => .number row.sortOrder
  | .title => .text row.title
  | .createdAt => .text row.createdAt
  | .updatedAt => .text row.updatedAt

/-- What the database does with the texts a filter binds. -/
structure Dialect where
  /-- The number that a text is for a numeric column. -/
  numeric : String → Option Rat
  /-- Whether a text has a part, for `LOWER(text) LIKE '%part%'`. -/
  like : String → String → Bool
  /-- A date of a filter as the timestamp columns hold it. -/
  timestamp : String → Option String

def Dialect.equal (d : Dialect) : Cell → String → Bool
  | .text cell, value => cell = value
  | .number cell, value => d.numeric value = some cell

/-- A number sorts before any text that is not one. -/
def Dialect.less (d : Dialect) : Cell → String → Bool
  | .text cell, value => cell < value
  | .number cell, value =>
    match d.numeric value with
    | some number => cell < number
    | none => true

def Dialect.greater (d : Dialect) : Cell → String → Bool
  | .text cell, value => value < cell
  | .number cell, value =>
    match d.numeric value with
    | some number => number < cell
    | none => false

/-- Who an issue is shared with. -/
inductive Subject where
  | user | workspace | team
deriving DecidableEq, Repr

/-- A row of `issue_permission_records`. -/
structure Permission where
  issue : String
  subjectType : Subject
  subject : String
deriving DecidableEq, Repr

/-- The tables of one workspace that issue queries read. -/
structure Db where
  records : List Row
  /-- Issue and label ids. -/
  labels : List (String × String)
  /-- Issue and user ids. -/
  subscribers : List (String × String)
  /-- Issue and user ids. -/
  actors : List (String × String)
  permissions : List Permission
  dialect : Dialect
  /-- The condition of a customer, agent session, release or attribute field with
  an operator and values, or none when it is refused. -/
  extra : String → String → List String → Option (Row → Bool)
  /-- The groups of an issue when it is grouped by customer; none is the group
  without a customer. -/
  customers : String → List String
  /-- The value of an attribute of an issue, empty without one. -/
  attributeValue : String → String → String
  /-- `issueTextSelection`: whether the search index finds an issue. -/
  textSelection : String → String → Bool

/-! ## Filters -/

inductive IssueFilter where
  | node (all : List IssueFilter) (any : List IssueFilter) (not : Option IssueFilter)
      (field : String) (operator : String) (values : List String)

def IssueFilter.leaf (field operator : String) (values : List String) : IssueFilter :=
  .node [] [] none field operator values

/-- `strings.ToLower` on the letters of field names and operators, which are ASCII. -/
def lower (text : String) : String := String.ofList (text.toList.map Char.toLower)

def fieldAliases : List (String × String) :=
  [("state", "status"), ("stateid", "status"), ("teamid", "team"), ("projectid", "project"),
    ("assigneeid", "assignee"), ("creatorid", "creator"), ("cycleid", "cycle"),
    ("label", "labels"), ("labelid", "labels"), ("subscriber", "subscribers"),
    ("subscriberid", "subscribers"), ("createdat", "createdAt"), ("updatedat", "updatedAt"),
    ("sortorder", "sortOrder"), ("myactivity", "myActivity"), ("statustype", "statusType")]

def normalizeField (field : String) : String :=
  (fieldAliases.lookup (lower field)).getD field

def queryColumns : List (String × Column) :=
  [("id", .id), ("identifier", .identifier), ("team", .team), ("teamId", .team),
    ("status", .state), ("stateId", .state), ("statusType", .type), ("project", .project),
    ("projectId", .project), ("assignee", .assignee), ("creator", .creator), ("cycle", .cycle),
    ("parent", .parent), ("priority", .priority), ("createdAt", .createdAt),
    ("updatedAt", .updatedAt), ("title", .title), ("sortOrder", .sortOrder)]

def attributeFields : List String :=
  ["projectMilestoneId", "estimate", "dueDate", "completedAt", "canceledAt", "startedAt",
    "templateId", "externalSource", "delegateId", "firstLabel", "agentSessionId", "addedToCycle",
    "hasLinks", "autoClosed", "triagedAt", "statusChangedAt", "nextOccurrenceAt",
    "recurrenceInstance", "snoozedUntil", "autoClosedAt"]

def attributePrefixes : List String :=
  ["relation:", "suggestedLabel:", "suggestedAssignee:", "suggestedProject:", "suggestedTeam:",
    "suggestedDuplicate:", "suggestedRelated:", "suggested:"]

def isAttributeField (field : String) : Bool :=
  attributeFields.contains field ||
    attributePrefixes.any fun start =>
      start.toList.isPrefixOf field.toList && start.length < field.length

/-- `releaseFilterColumns`. -/
def releaseFields : List String :=
  ["release", "releaseId", "releasePipeline", "releasePipelineId", "releaseStage", "releaseStatus",
    "releasedAt"]

def isExtraField (field : String) : Bool :=
  ["customerId", "customers", "agentSessionState"].contains field || releaseFields.contains field ||
    isAttributeField field

inductive Comparison where
  | equal | less | greater
deriving DecidableEq, Repr

/-- The relation tables of issues. -/
inductive Relation where
  | labels | subscribers | actors
deriving DecidableEq, Repr

/-- A compiled condition on a row. -/
inductive Clause where
  | always
  | never
  | compare (column : Column) (comparison : Comparison) (value : String)
  | titleLike (value : String)
  /-- The issue has a row in the table, with this value when one is given. -/
  | related (table : Relation) (value : Option String)
  | sharedWith (users : List String)
  | hasSubIssues
  | extra (field : String) (operator : String) (values : List String)
  | and (left right : Clause)
  | or (left right : Clause)
  | not (clause : Clause)
deriving DecidableEq, Repr

def Clause.all (clauses : List Clause) : Clause := clauses.foldr .and .always

def Clause.any (clauses : List Clause) : Clause := clauses.foldr .or .never

def bindList (column : Column) (values : List String) : Clause :=
  .any (values.map fun value => .compare column .equal value)

def Db.relation (db : Db) : Relation → List (String × String)
  | .labels => db.labels
  | .subscribers => db.subscribers
  | .actors => db.actors

/-- Whether a row meets a condition, given what `hasSubIssues` answers for it. -/
def Clause.test (db : Db) (sub : Bool) (row : Row) : Clause → Bool
  | .always => true
  | .never => false
  | .compare column .equal value => db.dialect.equal (row.cell column) value
  | .compare column .less value => db.dialect.less (row.cell column) value
  | .compare column .greater value => db.dialect.greater (row.cell column) value
  | .titleLike value => db.dialect.like row.title value
  | .related table none => (db.relation table).any fun entry => entry.1 = row.id
  | .related table (some value) => (db.relation table).contains (row.id, value)
  | .sharedWith users =>
    db.permissions.any fun p =>
      p.issue = row.id && p.subjectType = .user && users.contains p.subject
  | .hasSubIssues => sub
  | .extra field operator values =>
    (db.extra field operator values).any fun test => test row
  | .and left right => left.test db sub row && right.test db sub row
  | .or left right => left.test db sub row || right.test db sub row
  | .not clause => !clause.test db sub row

/-- `EXISTS (SELECT 1 FROM issue_records child …)`: an unarchived child that is
visible. -/
def Db.hasSubIssues (db : Db) (visible : Row → Bool) (row : Row) : Bool :=
  db.records.any fun child => child.parent = row.id && !child.archived && visible child

/-! ## The filter compiler -/

def relationTable : String → Option Relation
  | "labels" => some .labels
  | "subscribers" => some .subscribers
  | "myActivity" => some .actors
  | _ => none

/-- `is`, `in`, `isNot` and `notIn` without the negation. -/
def memberClause (field : String) (column : Option Column) (relation : Option Relation)
    (values : List String) : Clause :=
  match relation with
  | some table =>
    let clause := Clause.any (values.map fun value => .related table (some value))
    if values.contains "" then .or clause (.not (.related table none)) else clause
  | none =>
    match column with
    | none => .never
    | some column =>
      if field = "status" then .or (bindList column values) (bindList .type values)
      else bindList column values

/-- `includesAll` without the negation. -/
def includesAllClause (table : Relation) (values : List String) : Clause :=
  .all (values.map fun value =>
    if value = "" then .not (.related table none) else .related table (some value))

def emptyClause (column : Option Column) (relation : Option Relation) : Clause :=
  match relation, column with
  | some table, _ => .not (.related table none)
  | none, some column => .compare column .equal ""
  | none, none => .never

def orderClause (column : Column) (op value : String) : Clause :=
  match op with
  | "before" => .compare column .less value
  | "after" => .compare column .greater value
  | "gt" => .compare column .greater value
  | "gte" => .not (.compare column .less value)
  | "lt" => .compare column .less value
  | _ => .not (.compare column .greater value)

/-- The values of a term: dates as the timestamp columns hold them. -/
def columnValues (db : Db) (field : String) (values : List String) : Option (List String) :=
  if field = "createdAt" ∨ field = "updatedAt" then values.mapM db.dialect.timestamp
  else some values

def operatorClause (field : String) (column : Option Column) (relation : Option Relation)
    (op : String) (values : List String) : Option Clause :=
  if op = "is" ∨ op = "in" then some (memberClause field column relation values)
  else if op = "isnot" ∨ op = "notin" then some (.not (memberClause field column relation values))
  else if op = "includesall" ∨ op = "excludesall" then
    match relation with
    | none => none
    | some table =>
      if values = [] ∨ values.length > 100 then none
      else if op = "excludesall" then some (.not (includesAllClause table values))
      else some (includesAllClause table values)
  else if op = "isempty" then some (emptyClause column relation)
  else if op = "isnotempty" then some (.not (emptyClause column relation))
  else if op ∈ ["before", "after", "gt", "gte", "lt", "lte"] then
    match values, relation, column with
    | [value], none, some column => some (orderClause column op value)
    | _, _, _ => none
  else if op = "contains" ∨ op = "doesnotcontain" then
    match values with
    | [value] =>
      if field = "title" then
        if op = "doesnotcontain" then some (.not (.titleLike value)) else some (.titleLike value)
      else none
    | _ => none
  else none

variable {relation : Option Relation}

theorem operatorClause_is {field op : String} {column : Option Column}
    {values : List String} (hop : op = "is" ∨ op = "in") :
    operatorClause field column relation op values =
      some (memberClause field column relation values) :=
  if_pos hop

def columnClause (db : Db) (field operator : String) (values : List String) : Option Clause := do
  let values ← columnValues db field values
  if (relationTable field).isNone && (queryColumns.lookup field).isNone then none
  else
    operatorClause field (queryColumns.lookup field) (relationTable field)
      (if operator = "" then "is" else lower operator) values

def isSpace (ch : Char) : Bool :=
  let n := ch.toNat
  9 ≤ n ∧ n ≤ 13 ∨ n = 0x20 ∨ n = 0x85 ∨ n = 0xA0 ∨ n = 0x1680 ∨
    0x2000 ≤ n ∧ n ≤ 0x200a ∨ n = 0x2028 ∨ n = 0x2029 ∨ n = 0x202f ∨ n = 0x205f ∨ n = 0x3000

/-- `strings.TrimSpace(value) == ""`, which a team filter refuses. -/
def blank (value : String) : Bool := value.toList.all isSpace

/-- The term of a filter node: its field under its own name. -/
def compileTerm (db : Db) (field operator : String) (values : List String) : Option Clause :=
  let op := lower operator
  if field = "team" ∧
      (op ∉ ["", "is", "isnot", "in", "notin"] ∨ values = [] ∨ values.any blank) then
    none
  else if field = "sharedWith" then
    if values = [] ∨ values.length > 100 then none else some (.sharedWith values)
  else if field = "hasSubIssues" then
    if op = "isempty" then some (.not .hasSubIssues)
    else if op = "isnotempty" then some .hasSubIssues
    else none
  else if isExtraField field then
    (db.extra field operator values).map fun _ => .extra field operator values
  else columnClause db field operator values

/-- The fields whose terms are not only those of their column or relation. -/
def specialField (field : String) : Bool :=
  ["team", "sharedWith", "hasSubIssues", "createdAt", "updatedAt"].contains field ||
    isExtraField field

variable {operator : String}

theorem compileTerm_of_not_special {db : Db} {field : String} {values : List String}
    (hspecial : specialField field = false)
    (hknown : ((relationTable field).isNone && (queryColumns.lookup field).isNone) = false) :
    compileTerm db field operator values =
      operatorClause field (queryColumns.lookup field) (relationTable field)
        (if operator = "" then "is" else lower operator) values := by
  simp only [specialField, Bool.or_eq_false_iff, contains_eq_mem, mem_cons, decide_eq_false_iff_not,
    not_or] at hspecial
  obtain ⟨⟨hteam, hshared, hsub, hcreated, hupdated⟩, hextra⟩ := hspecial
  simp [compileTerm, columnClause, columnValues, hteam, hshared, hsub, hextra, hcreated, hupdated,
    hknown]

theorem lower_eq_empty_iff (text : String) : lower text = "" ↔ text = "" := by
  unfold lower
  constructor
  · intro h
    have hlist : (text.toList.map Char.toLower) = [] := by simpa using congrArg String.toList h
    simpa using hlist
  · rintro rfl
    rfl

theorem operator_eq (operator : String) : (if operator = "" then "is" else lower operator) =
      if lower operator = "" then "is" else lower operator := by
  by_cases h : operator = ""
  · rw [if_pos h, if_pos ((lower_eq_empty_iff operator).2 h)]
  · rw [if_neg h, if_neg fun hlower => h ((lower_eq_empty_iff operator).1 hlower)]

theorem compileTerm_relation {db : Db} {field operator : String} {table : Relation}
    {values : List String}
    (hfield : relationTable field = some table) :
    compileTerm db field operator values =
      operatorClause field none (some table) (if operator = "" then "is" else lower operator)
        values := by
  have hcases : field = "labels" ∨ field = "subscribers" ∨ field = "myActivity" := by
    unfold relationTable at hfield
    split at hfield <;> simp_all
  have hplace : queryColumns.lookup field = none ∧ specialField field = false := by
    rcases hcases with rfl | rfl | rfl <;> decide
  rw [compileTerm_of_not_special hplace.2 (by rw [hfield]; rfl), hfield, hplace.1]

/-- The term of a node; one without a field is always met. -/
def nodeTerm (db : Db) (field operator : String) (values : List String) : Option Clause :=
  if normalizeField field = "" then some .always
  else compileTerm db (normalizeField field) operator values

mutual

/-- `compileIssueFilterScoped`: the clause of a node and the nodes that remain of
the budget. -/
def compileIssueFilter (db : Db) (depth : Nat) (remaining : Int) :
    IssueFilter → Option (Clause × Int)
  | .node all any not field operator values => do
      let remaining := remaining - 1
      if depth > 8 ∨ remaining < 0 ∨ values.length > 1000 then none
      else
        let (all, remaining) ← compileChildren db (depth + 1) remaining all
        let (any, remaining) ← compileChildren db (depth + 1) remaining any
        let (not, remaining) ← compileNot db (depth + 1) remaining not
        let term ← nodeTerm db field operator values
        let any := if any = [] then .always else Clause.any any
        some (.all [Clause.all all, any, not, term], remaining)

def compileChildren (db : Db) (depth : Nat) (remaining : Int) :
    List IssueFilter → Option (List Clause × Int)
  | [] => some ([], remaining)
  | child :: rest => do
      let (clause, remaining) ← compileIssueFilter db depth remaining child
      let (clauses, remaining) ← compileChildren db depth remaining rest
      some (clause :: clauses, remaining)

def compileNot (db : Db) (depth : Nat) (remaining : Int) :
    Option IssueFilter → Option (Clause × Int)
  | none => some (.always, remaining)
  | some child => do
      let (clause, remaining) ← compileIssueFilter db depth remaining child
      some (.not clause, remaining)

end

/-! ### Testing a compiled filter -/

section Test

variable {db : Db} {sub : Bool} {row : Row}

@[simp] theorem Clause.test_all (clauses : List Clause) :
    (Clause.all clauses).test db sub row = clauses.all fun clause => clause.test db sub row := by
  induction clauses with
  | nil => rfl
  | cons clause rest ih => rw [all_cons, ← ih]; rfl

@[simp] theorem Clause.test_any (clauses : List Clause) :
    (Clause.any clauses).test db sub row = clauses.any fun clause => clause.test db sub row := by
  induction clauses with
  | nil => rfl
  | cons clause rest ih => rw [any_cons, ← ih]; rfl

theorem test_bindList (column : Column) (values : List String) :
    (bindList column values).test db sub row =
      values.any fun value => db.dialect.equal (row.cell column) value := by
  rw [bindList, Clause.test_any, any_map]
  rfl

theorem test_node (all any : List Clause) (not term : Clause) :
    (Clause.all [.all all, if any = [] then .always else .any any, not, term]).test db sub row =
      (all.all (fun c => c.test db sub row) &&
        (any.isEmpty || any.any fun c => c.test db sub row) &&
        not.test db sub row && term.test db sub row) := by
  cases any <;> simp [Clause.test, Bool.and_assoc]

mutual

/-- The clause of a filter, whatever the limits on its depth and size. -/
inductive Compiled (db : Db) : IssueFilter → Clause → Prop where
  | node {all any : List IssueFilter} {not : Option IssueFilter} {field operator : String}
      {values : List String} {all' any' : List Clause} {not' term : Clause}
      (hall : CompiledAll db all all') (hany : CompiledAll db any any')
      (hnot : CompiledNot db not not') (hterm : nodeTerm db field operator values = some term) :
      Compiled db (.node all any not field operator values)
        (.all [.all all', if any' = [] then .always else .any any', not', term])

inductive CompiledAll (db : Db) : List IssueFilter → List Clause → Prop where
  | nil : CompiledAll db [] []
  | cons {child : IssueFilter} {rest : List IssueFilter} {clause : Clause} {clauses : List Clause}
      (hchild : Compiled db child clause) (hrest : CompiledAll db rest clauses) :
      CompiledAll db (child :: rest) (clause :: clauses)

inductive CompiledNot (db : Db) : Option IssueFilter → Clause → Prop where
  | none : CompiledNot db none .always
  | some {child : IssueFilter} {clause : Clause} (hchild : Compiled db child clause) :
      CompiledNot db (some child) (.not clause)

end

mutual

theorem compiled_of_compile :
    ∀ {filter : IssueFilter} {depth : Nat} {remaining left : Int} {clause : Clause},
      compileIssueFilter db depth remaining filter = some (clause, left) → Compiled db filter clause
  | .node all any not field operator values, _, _, _, _ => by
      intro h
      obtain ⟨_, h⟩ := Option.ite_none_left_eq_some.1 h
      simp only [bind_eq_bind, bind_eq_some_iff, Prod.exists, Option.some.injEq,
        Prod.mk.injEq] at h
      obtain ⟨all', _, hall, any', _, hany, not', _, hnot, term, hterm, rfl, -⟩ := h
      exact .node (compiledAll_of_compile hall) (compiledAll_of_compile hany)
        (compiledNot_of_compile hnot) hterm

theorem compiledAll_of_compile :
    ∀ {filters : List IssueFilter} {depth : Nat} {remaining left : Int} {clauses : List Clause},
      compileChildren db depth remaining filters = some (clauses, left) →
        CompiledAll db filters clauses
  | [], _, _, _, _ => by
      rintro ⟨⟩
      exact .nil
  | child :: rest, _, _, _, _ => by
      intro h
      simp only [compileChildren, bind_eq_bind, bind_eq_some_iff, Prod.exists,
        Option.some.injEq, Prod.mk.injEq] at h
      obtain ⟨first, _, hfirst, others, _, hothers, rfl, -⟩ := h
      exact .cons (compiled_of_compile hfirst) (compiledAll_of_compile hothers)

theorem compiledNot_of_compile :
    ∀ {filter : Option IssueFilter} {depth : Nat} {remaining left : Int} {clause : Clause},
      compileNot db depth remaining filter = some (clause, left) → CompiledNot db filter clause
  | none, _, _, _, _ => by
      rintro ⟨⟩
      exact .none
  | some child, _, _, _, _ => by
      intro h
      simp only [compileNot, bind_eq_bind, bind_eq_some_iff, Prod.exists,
        Option.some.injEq, Prod.mk.injEq] at h
      obtain ⟨inner, _, hinner, rfl, -⟩ := h
      exact .some (compiled_of_compile hinner)

end

/-- What a compiled node is made of, and what it tests. -/
theorem compileIssueFilter_eq_some {depth : Nat} {remaining left : Int} {all any : List IssueFilter}
    {not : Option IssueFilter}
    (h : compileIssueFilter db depth remaining (.node all any not field operator values) =
      some (clause, left)) :
    ∃ all' any' not' term left₁ left₂, values.length ≤ 1000 ∧
      compileChildren db (depth + 1) (remaining - 1) all = some (all', left₁) ∧
      compileChildren db (depth + 1) left₁ any = some (any', left₂) ∧
      compileNot db (depth + 1) left₂ not = some (not', left) ∧
      nodeTerm db field operator values = some term ∧
      ∀ sub row, clause.test db sub row = (all'.all (fun c => c.test db sub row) &&
          (any'.isEmpty || any'.any fun c => c.test db sub row) &&
          not'.test db sub row && term.test db sub row) := by
  simp only [compileIssueFilter] at h
  split at h
  · cases h
  · simp only [bind_eq_bind, bind_eq_some_iff, Prod.exists] at h
    obtain ⟨all', left₁, hall, any', left₂, hany, not', left₃, hnot, term, hterm, rfl, rfl⟩ := h
    exact ⟨all', any', not', term, left₁, left₂, by omega, hall, hany, hnot, hterm,
      fun _ _ => test_node all' any' not' term⟩

end Test

/-! ## Queries -/

structure Access where
  userID : String
  workspaceID : String
  visibleTeamIDs : List String
  admin : Bool
  archivedTeamIDs : List String
deriving DecidableEq, Repr

structure GroupCase where
  value : String
  filter : IssueFilter

/-- The parts of `IssueRecordQuery` that select and group rows. -/
structure Query where
  workspace : String
  filter : IssueFilter
  teamIDs : List String
  projectIDs : List String
  stateIDs : List String
  releaseIDs : List String
  issueIDs : List String
  restrictToIssueIDs : Bool
  /-- None is unrestricted. -/
  allowedTeamIDs : Option (List String)
  access : Option Access
  text : String
  searchText : String
  archived : String
  groupBy : String
  groupValue : Option String
  groupValues : List String
  groupCases : List GroupCase
  nested : Bool

def Db.childrenOf (db : Db) (ids : List String) : List String :=
  (db.records.filter fun row => ids.contains row.parent).map Row.id

def Db.granted (db : Db) (workspace : String) (access : Access) : List String :=
  (db.permissions.filter fun p =>
    match p.subjectType with
    | .user => p.subject = access.userID
    | .workspace => ["", access.workspaceID, workspace].contains p.subject
    | .team => access.visibleTeamIDs.contains p.subject).map Permission.issue

/-- Adds the children that are missing, as often as there are rows. -/
def Db.closeDown (db : Db) : Nat → List String → List String
  | 0, ids => ids
  | fuel + 1, ids =>
    db.closeDown fuel (ids ++ (db.childrenOf ids).filter fun id => !ids.contains id)

/-- `shared_issues`: the granted issues and everything below them. -/
def Db.sharedIssues (db : Db) (workspace : String) (access : Access) : List String :=
  db.closeDown db.records.length (db.granted workspace access)

/-- Whether the viewer is a member of the team of an issue, or it is shared with
the viewer. -/
def accessible (db : Db) (query : Query) (row : Row) : Bool :=
  match query.access with
  | none => true
  | some access =>
    access.admin || access.visibleTeamIDs.contains row.team ||
      (db.sharedIssues query.workspace access).contains row.id

def inLiveTeam (query : Query) (row : Row) : Bool :=
  match query.access with
  | none => true
  | some access => !access.archivedTeamIDs.contains row.team

def inAllowedTeam (query : Query) (row : Row) : Bool :=
  match query.allowedTeamIDs with
  | none => true
  | some teams => teams.contains row.team

def visible (db : Db) (query : Query) (row : Row) : Bool :=
  accessible db query row && inLiveTeam query row && inAllowedTeam query row

def archivedMatches (archived : String) (row : Row) : Bool :=
  archived = "all" || row.archived == (archived = "true")

/-- A list of ids that restricts a column when it is given. -/
def listed (values : List String) (required : Bool) (cell : String) : Bool :=
  if values ≠ [] ∨ required then values.contains cell else true

def groupColumn : String → Option Column
  | "status" => some .state
  | "priority" => some .priority
  | "assignee" => some .assignee
  | "creator" => some .creator
  | "team" => some .team
  | "project" => some .project
  | "cycle" => some .cycle
  | _ => none

def groupAttribute : String → Option String
  | "label" => some "firstLabel"
  | "milestone" => some "projectMilestoneId"
  | "estimate" => some "estimate"
  | _ => none

def compileCases (db : Db) : Int → List String → List GroupCase → Option (List Clause)
  | _, _, [] => some []
  | budget, seen, item :: rest =>
    if item.value = "" ∨ item.value.utf8ByteSize > 191 ∨ item.value ∈ seen then none
    else do
      let (clause, budget) ← compileIssueFilter db 0 budget item.filter
      let clauses ← compileCases db budget (item.value :: seen) rest
      some (clause :: clauses)

def caseIndex : Option Nat → Int
  | some index => index
  | none => -1

/-- `issueGroupCaseExpression`: the first case that a row meets, or -1. Cases are compiled
without the query, so `hasSubIssues` sees every child. -/
def caseExpression (db : Db) (cases : List GroupCase) : Option (Row → Int) :=
  if cases = [] ∨ cases.length > 64 then none
  else (compileCases db 400 [] cases).map fun clauses row =>
    caseIndex (clauses.findIdx? fun clause =>
      clause.test db (db.hasSubIssues (fun _ => true) row) row)

def groupWhere (db : Db) (query : Query) : Option (Row → Bool) :=
  if query.groupBy = "cases" then do
    let expression ← caseExpression db query.groupCases
    if query.groupValues ≠ [] then none
    else
      match query.groupValue with
      | none => some fun _ => true
      | some value =>
        match query.groupCases.findIdx? fun item => item.value = value with
        | some index => some fun row => expression row = index
        | none => some fun row => value = "" && expression row = -1
  else if query.groupValues ≠ [] then do
    let column ← groupColumn query.groupBy
    if query.groupValue.isSome ∨ query.groupValues.length > 1000 then none
    else some fun row => query.groupValues.any fun value => db.dialect.equal (row.cell column) value
  else
    match query.groupValue with
    | none => some fun _ => true
    | some value =>
      if query.groupBy = "customer" then
        some fun row =>
          if value = "" then db.customers row.id = [] else (db.customers row.id).contains value
      else if query.groupBy = "none" then some fun _ => true
      else
        match groupAttribute query.groupBy with
        | some field => db.extra field "" [value]
        | none => do
            let column ← groupColumn query.groupBy
            some fun row => db.dialect.equal (row.cell column) value

/-- The condition of a query on a row, or none when the query is refused. -/
def issueRecordWhere (db : Db) (query : Query) : Option (Row → Bool) :=
  if query.workspace = "" then none
  else if query.access.any fun access => !access.admin && access.userID = "" then none
  else do
    let (filter, _) ← compileIssueFilter db 0 100 query.filter
    let group ← groupWhere db query
    some fun row =>
      visible db query row && archivedMatches query.archived row &&
        listed query.teamIDs false row.team && listed query.projectIDs false row.project &&
        listed query.stateIDs false row.state &&
        listed query.issueIDs query.restrictToIssueIDs row.id &&
        (query.text = "" || db.dialect.like row.title query.text ||
          db.dialect.like row.identifier query.text) &&
        filter.test db (db.hasSubIssues (visible db query) row) row && group row

/-- The conditions of a query on a row, besides its filter and its group. -/
def meetsQuery (db : Db) (query : Query) (row : Row) : Bool :=
  visible db query row && archivedMatches query.archived row &&
    listed query.teamIDs false row.team && listed query.projectIDs false row.project &&
    listed query.stateIDs false row.state &&
    listed query.issueIDs query.restrictToIssueIDs row.id &&
    (query.text = "" || db.dialect.like row.title query.text ||
      db.dialect.like row.identifier query.text)

theorem issueRecordWhere_isSome (db : Db) (query : Query) : (issueRecordWhere db query).isSome =
      (query.workspace ≠ "" &&
        !(query.access.any fun access => !access.admin && access.userID = "") &&
        (compileIssueFilter db 0 100 query.filter).isSome && (groupWhere db query).isSome) := by
  unfold issueRecordWhere
  by_cases hworkspace : query.workspace = ""
  · simp [hworkspace]
  cases query.access.any fun access => !access.admin && decide (access.userID = "") with
  | true => simp
  | false =>
    cases compileIssueFilter db 0 100 query.filter with
    | none => simp
    | some compiled => cases groupWhere db query <;> simp [hworkspace]

end Flow.Ports.IssueQuery
