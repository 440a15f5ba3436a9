import Mathlib.Data.String.Basic
import Mathlib.Data.Sum.Order
import Mathlib.Order.Lattice
import Flow.Ports.IssueQuery
import Flow.Verified.Grouping

/-!
# Group counts from the rows

`flatIssueGroupsBySQL` counts the rows of a query in their own groups.  A row is
in one group of a column, attribute or case grouping, and in the group of each of
its customers.  Groups without rows are left out; the others are listed in the
order of the grouping column, the cases in their own order and the group without a
customer last.
-/

namespace Flow.Ports.IssueQuery

open List Option Flow.Verified

/-- A value in the order of the database: numbers before texts. -/
def Cell.rank : Cell → Lex (Rat ⊕ String)
  | .number value => toLex (.inl value)
  | .text value => toLex (.inr value)

theorem Cell.rank_injective : Function.Injective Cell.rank := by
  intro a b h
  cases a <;> cases b <;> simp_all [Cell.rank]

instance : LinearOrder Cell := LinearOrder.lift' Cell.rank Cell.rank_injective

def Query.withoutGroupValue (query : Query) : Query :=
  { query with groupValue := none, groupValues := [] }

def caseValue (cases : List GroupCase) (index : Int) : String :=
  if index < 0 then "" else ((cases[index.toNat]?).map GroupCase.value).getD ""

def Query.groupKeys (query : Query) (db : Db) : Option (Row → List Cell) :=
  if query.groupBy = "cases" then
    (caseExpression db query.groupCases).map fun expression row =>
      [.text (caseValue query.groupCases (expression row))]
  else if query.groupBy = "none" then some fun _ => [.text "all"]
  else if query.groupBy = "customer" then
    some fun row =>
      if db.customers row.id = [] then [.text ""] else (db.customers row.id).map .text
  else
    match groupAttribute query.groupBy with
    | some field => some fun row => [.text (db.attributeValue field row.id)]
    | none => (groupColumn query.groupBy).map fun column row => [row.cell column]

def Query.orderedGroups (query : Query) (keys : List Cell) (count : Cell → Int) :
    List (Cell × Int) :=
  if query.groupBy = "cases" then
    ((query.groupCases.map GroupCase.value ++ [""]).map Cell.text).filterMap fun k =>
      if 0 < count k then some (k, count k) else none
  else if query.groupBy = "customer" then
    Grouping.groups (keys.filter fun k => k ≠ .text "") count ++
      Grouping.groups (keys.filter fun k => k = .text "") count
  else Grouping.groups keys count

variable {query : Query}

/-- The listed groups are determined by the counts. -/
theorem Query.orderedGroups_congr {keys keys' : List Cell} {count count' : Cell → Int}
    (hcount : ∀ k, count k = count' k) (hkeys : ∀ k, 0 < count k → (k ∈ keys ↔ k ∈ keys')) :
    query.orderedGroups keys count = query.orderedGroups keys' count' := by
  have hfun : count = count' := funext hcount
  subst hfun
  unfold Query.orderedGroups
  split
  · rfl
  split
  · congr 1
    · apply Grouping.groups_congr (fun _ => rfl)
      intro k hpos
      simp [hkeys k hpos]
    · apply Grouping.groups_congr (fun _ => rfl)
      intro k hpos
      simp [hkeys k hpos]
  · exact Grouping.groups_congr (fun _ => rfl) hkeys

/-! ## Flat counts -/

/-- The condition of the query with its text search, whatever group is paged. -/
def issueNestedBase (db : Db) (query : Query) : Option (Row → Bool) :=
  (issueRecordWhere db query.withoutGroupValue).map fun condition row =>
    condition row && (query.searchText = "" || db.textSelection query.searchText row.id)

variable {db : Db}

theorem groupWhere_withoutGroupValue {group : Row → Bool}
    (h : groupWhere db query.withoutGroupValue = some group) (row : Row) : group row := by
  unfold groupWhere Query.withoutGroupValue at h
  split at h
  · obtain ⟨expression, -, h⟩ := bind_eq_some_iff.1 h
    cases h
    rfl
  · cases h
    rfl

theorem issueRecordWhere_eq_some {condition : Row → Bool}
    (h : issueRecordWhere db query.withoutGroupValue = some condition) :
    ∃ filter left, compileIssueFilter db 0 100 query.filter = some (filter, left) ∧
      ∀ row, condition row = (meetsQuery db query row &&
          filter.test db (db.hasSubIssues (visible db query) row) row) := by
  unfold issueRecordWhere at h
  split at h
  · cases h
  split at h
  · cases h
  simp only [bind_eq_bind, bind_eq_some_iff, Prod.exists, some.injEq] at h
  obtain ⟨filter, left, hfilter, group, hgroup, rfl⟩ := h
  refine ⟨filter, left, hfilter, fun row => ?_⟩
  simp only [groupWhere_withoutGroupValue hgroup row, Bool.and_true]
  rfl

def countIn (rows : List Row) (keys : Row → List Cell) (k : Cell) : Int :=
  (rows.countP fun row => (keys row).contains k : Nat)

def Query.rowGroups (query : Query) (rows : List Row) (keys : Row → List Cell) :
    List (Cell × Int) :=
  query.orderedGroups (rows.flatMap keys) (countIn rows keys)

/-- The condition of the rows that are counted.  Only nested groups have a search
text. -/
def flatWhere (db : Db) (query : Query) : Option (Row → Bool) :=
  if query.nested && query.searchText ≠ "" then issueNestedBase db query
  else issueRecordWhere db query.withoutGroupValue

def flatIssueGroupsBySQL (db : Db) (query : Query) : Option (List (Cell × Int)) := do
  let base ← flatWhere db query
  let keys ← query.groupKeys db
  some (query.rowGroups (db.records.filter base) keys)

def plainRow (id parent team state : String) : Row :=
  { id, parent, team, state, identifier := id, type := "started", project := "", assignee := "",
    creator := "", cycle := "", priority := 0, sortOrder := 0, title := id, createdAt := "",
    updatedAt := "", archived := false }

def issuesOnly (records : List Row) : Db :=
  { records, labels := [], subscribers := [], actors := [], permissions := [],
    dialect := ⟨fun _ => none, fun _ _ => false, fun _ => none⟩,
    extra := fun _ _ _ => none, customers := fun _ => [], attributeValue := fun _ _ => "",
    textSelection := fun _ _ => false }

def byStatus : Query :=
  { workspace := "acme", filter := .leaf "" "" [], teamIDs := [], projectIDs := [], stateIDs := [],
    releaseIDs := [], issueIDs := [], restrictToIssueIDs := false, allowedTeamIDs := none,
    access := none, text := "", searchText := "", archived := "false", groupBy := "status",
    groupValue := none, groupValues := [], groupCases := [], nested := false }

end Flow.Ports.IssueQuery
