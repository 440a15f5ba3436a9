import Flow.Ports.IssueGroups
import Flow.Ports.IssueStats

/-!
# Group counts from the counters

`issue_scope_counts` holds how many issues of a workspace, team, project or
assignee have a status, status type, priority and archived state.
`flatIssueGroups` answers a query by status, by priority or ungrouped from it when
the query asks for one such scope and has only status and priority terms besides:
`issueGroupsFromStats` for a viewer of every team, `memberIssueGroupsFromStats` for
a member, who also sees the issues shared from other teams.
-/

namespace Flow.Ports.IssueQuery

open Flow.Verified
open Flow.Ports.IssueStats (Scope StatsKey Dimensions)

def Row.dimensions (row : Row) : Dimensions :=
  { team := row.team
    project := row.project
    assignee := row.assignee
    state := row.state
    type := row.type
    priority := row.priority
    archived := if row.archived then 1 else 0 }

/-- `issue_scope_counts` of a workspace. -/
abbrev Counters : Type := List (StatsKey × Int)

/-- Every counter is the number of rows with its dimensions, and no row is missing. -/
structure Counters.Exact (counters : Counters) (records : List Row) : Prop where
  nodup : (counters.map Prod.fst).Nodup
  entries : ∀ entry ∈ counters,
    entry.2 = (records.countP fun row => row.dimensions.key entry.1.scope = entry.1 : Int)
  complete : ∀ k, k ∉ counters.map Prod.fst →
    (records.countP fun row => row.dimensions.key k.scope = k) = 0

def counterRow (k : StatsKey) : Row :=
  { id := "", identifier := "", team := "", state := k.state, type := k.type, project := "",
    assignee := "", creator := "", cycle := "", parent := "", priority := k.priority,
    sortOrder := 0, title := "", createdAt := "", updatedAt := "", archived := false }

/-- Whether a condition names only the columns that the counters have. -/
def Clause.onCounters : Clause → Bool
  | .always => true
  | .never => true
  | .compare column _ _ => [Column.state, .type, .priority].contains column
  | .and left right => left.onCounters && right.onCounters
  | .or left right => left.onCounters && right.onCounters
  | .not clause => clause.onCounters
  | _ => false

def archivedCounter (archived : String) (k : StatsKey) : Bool :=
  archived = "all" || k.archived = if archived = "true" then 1 else 0

def counterCell (groupBy : String) (k : StatsKey) : Cell :=
  if groupBy = "status" then .text k.state
  else if groupBy = "priority" then .number k.priority
  else .text "all"

def selectCounters (db : Db) (counters : Counters) (archived : String) (clauses : List Clause)
    (scope : Scope) (ids : List String) : Counters :=
  counters.filter fun entry =>
    (entry.1.scope = scope && ids.contains entry.1.id && archivedCounter archived entry.1 &&
      clauses.all fun clause => clause.test db false (counterRow entry.1)) && 0 < entry.2

def sumIn (groupBy : String) (entries : Counters) (k : Cell) : Int :=
  ((entries.filter fun entry => counterCell groupBy entry.1 = k).map Prod.snd).sum

def counterGroups (query : Query) (entries : Counters) : List (Cell × Int) :=
  query.orderedGroups (entries.map fun entry => counterCell query.groupBy entry.1)
    (sumIn query.groupBy entries)

/-! ## The scope of a query -/

/-- The scope, its ids and the conditions that a query leaves for the counters. -/
structure CounterScope where
  scope : Scope
  ids : List String
  clauses : List Clause

def scopeField (field : String) : Option Scope :=
  if lower field = "assignee" ∨ lower field = "assigneeid" then some .assignee
  else if lower field = "team" ∨ lower field = "teamid" then some .team
  else if lower field = "project" ∨ lower field = "projectid" then some .project
  else none

def counterFields : List String := ["status", "statusType", "priority"]

/-- A scope term: the first sets the scope, the others of its field restrict the
ids. -/
def addScopeTerm (found : CounterScope) (scope : Scope) (operator : String) (values : List String) :
    Option CounterScope :=
  if lower operator ∉ ["", "is", "in"] then none
  else if found.scope = .workspace then some { found with scope, ids := values }
  else if found.scope ≠ scope then none
  else some { found with ids := found.ids.filter fun id => values.contains id }

/-- The own term of a node, after its children.  A term on a counter column is
compiled with the node's children. -/
def addTerm (db : Db) (found : CounterScope) (all : List IssueFilter) (field operator : String)
    (values : List String) : Option CounterScope :=
  if field = "" then some found
  else
    match scopeField field with
    | some scope => addScopeTerm found scope operator values
    | none =>
      if field ∉ counterFields then none
      else
        (compileIssueFilter db 0 100 (.node all [] none field operator values)).map
          fun compiled => { found with clauses := found.clauses ++ [compiled.1] }

mutual

def addFilter (db : Db) (found : CounterScope) : IssueFilter → Option CounterScope
  | .node all any not field operator values =>
    if !any.isEmpty || not.isSome then none
    else do
      let found ← addFilters db found all
      addTerm db found all field operator values

def addFilters (db : Db) (found : CounterScope) : List IssueFilter → Option CounterScope
  | [] => some found
  | child :: rest => do
      let found ← addFilter db found child
      addFilters db found rest

end

def initialScope (query : Query) : CounterScope :=
  if query.teamIDs ≠ [] then ⟨.team, query.teamIDs, []⟩
  else if query.projectIDs ≠ [] then ⟨.project, query.projectIDs, []⟩
  else ⟨.workspace, [""], []⟩

/-- The deleted teams that are hidden from every viewer. -/
def hiddenTeams (query : Query) : List String :=
  (query.access.map Access.archivedTeamIDs).getD []

def counterGrouping (query : Query) : Bool := ["status", "priority", "none"].contains query.groupBy

def otherRestriction (query : Query) : Bool :=
  query.text ≠ "" || query.stateIDs ≠ [] || query.allowedTeamIDs.isSome ||
    query.restrictToIssueIDs || query.releaseIDs ≠ []

def counterScope (db : Db) (query : Query) : Option CounterScope :=
  if (query.access.any fun access => !access.admin) || otherRestriction query then none
  else if !counterGrouping query then none
  else if query.teamIDs ≠ [] ∧ query.projectIDs ≠ [] then none
  else
    match addFilter db (initialScope query) query.filter with
    | none => none
    | some found =>
      if hiddenTeams query ≠ [] ∧ found.scope ≠ .team ∧ found.scope ≠ .workspace then none
      else some found

/-! ## Answers -/

inductive CountFailure where
  /-- `ErrIssueQuery`. -/
  | refused
  /-- The counters have no such column. -/
  | noColumn
deriving DecidableEq, Repr

abbrev Answer : Type := Except CountFailure (List (Cell × Int))

/-- `flatIssueGroupsBySQL`, with its refusal. -/
def rowAnswer (db : Db) (query : Query) : Answer :=
  match flatIssueGroupsBySQL db query with
  | none => .error .refused
  | some groups => .ok groups

def addMoves (groups : List (Cell × Int)) (moves : Cell → Int) : List (Cell × Int) :=
  groups.filterMap fun group =>
    if 0 < group.2 + moves group.1 then some (group.1, group.2 + moves group.1) else none

/-- The groups of the counters of a scope.  A team scope leaves the hidden teams
out, and the workspace scope subtracts their counters. -/
def scopeGroups (db : Db) (counters : Counters) (query : Query) (found : CounterScope) :
    List (Cell × Int) :=
  let select := selectCounters db counters query.archived found.clauses
  match found.scope with
  | .team =>
    counterGroups query
      (select .team (found.ids.filter fun id => !(hiddenTeams query).contains id))
  | .workspace =>
    if hiddenTeams query = [] then counterGroups query (select .workspace found.ids)
    else
      addMoves (counterGroups query (select .workspace found.ids)) fun k =>
        -Tally.total (counterGroups query (select .team (hiddenTeams query))) k
  | scope => counterGroups query (select scope found.ids)

/-- `issueGroupsFromStats`, or none when it does not handle the query. -/
def issueGroupsFromStats (db : Db) (counters : Counters) (query : Query) : Option Answer :=
  (counterScope db query).map fun found =>
    if found.clauses.all Clause.onCounters then .ok (scopeGroups db counters query found)
    else .error .noColumn

mutual

def onStatusAndPriority : IssueFilter → Bool
  | .node all any not field _ _ =>
    any.isEmpty && not.isNone && onStatusAndPriorityAll all &&
      ["", "status", "state", "stateid", "statustype", "priority"].contains (lower field)

def onStatusAndPriorityAll : List IssueFilter → Bool
  | [] => true
  | child :: rest => onStatusAndPriority child && onStatusAndPriorityAll rest

end

def countedTeams (query : Query) (access : Access) : List String :=
  access.visibleTeamIDs.filter fun id =>
    !access.archivedTeamIDs.contains id && (query.teamIDs = [] || query.teamIDs.contains id)

def memberGroups (db : Db) (counters : Counters) (query : Query) (access : Access)
    (base : Row → Bool) (condition : Clause) : List (Cell × Int) :=
  let entries :=
    selectCounters db counters query.archived [condition] .team (countedTeams query access)
  let shared := db.records.filter fun row =>
    base row && !access.visibleTeamIDs.contains row.team &&
      (db.sharedIssues query.workspace access).contains row.id
  let cell : Row → Cell := fun row => counterCell query.groupBy (row.dimensions.key .team)
  query.orderedGroups
    (entries.map (fun entry => counterCell query.groupBy entry.1) ++ shared.map cell)
    fun k => sumIn query.groupBy entries k + (shared.countP fun row => cell row = k : Int)

/-- `memberIssueGroupsFromStats`, or none when it does not handle the query. -/
def memberIssueGroupsFromStats (db : Db) (counters : Counters) (query : Query) : Option Answer :=
  match query.access with
  | none => none
  | some access =>
    if access.admin || access.userID = "" || otherRestriction query || query.issueIDs ≠ [] ||
        query.projectIDs ≠ [] then none
    else if !counterGrouping query || !onStatusAndPriority query.filter then none
    else do
      let base ← issueRecordWhere db query
      let (condition, _) ← compileIssueFilter db 0 100 query.filter
      some (if condition.onCounters then .ok (memberGroups db counters query access base condition)
        else .error .noColumn)

/-- What `flatIssueGroups` answers from the counters, if it does.  A nested search
is counted from the rows. -/
def counterAnswer (db : Db) (counters : Counters) (query : Query) : Option Answer :=
  if query.nested && query.searchText ≠ "" then none
  else
    match issueGroupsFromStats db counters query.withoutGroupValue with
    | some answer => some answer
    | none => memberIssueGroupsFromStats db counters query.withoutGroupValue

end Flow.Ports.IssueQuery
