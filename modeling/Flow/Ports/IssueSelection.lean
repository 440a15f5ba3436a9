import Flow.Ports.IssueGroups

/-!
# The rows of a query

`issueRecordSelection` is the condition that the pages of a query and its total share:
that of `issueRecordWhere`, the text search, and for a nested list that the parent is
not in the result.

When the filter asks for a label that few issues have, the rows are read from the label
index and the label term is taken out of the filter.  A row that meets the query has the
label and meets the rest (`where_drivable`).  Conversely, the rest is only the other
children of the root, without the root's own term, and the parents of a nested list are
tested without the label.  Under `LabelSourceFaithful` the selection is the rows that
match (`issueRecordSelection_eq`).
-/

namespace Flow.Ports.IssueQuery

open List Option Flow.Verified.Grouping

def labelLeafIDs : IssueFilter → Option (List String)
  | .node [] [] none field operator values =>
    if normalizeField field ≠ "labels" then none
    else if lower operator ∉ ["", "is", "in"] then none
    else if values = [] ∨ values.length > 1000 ∨ values.contains "" then none
    else some values
  | _ => none

mutual

/-- `issueFilterContainsLabels`. -/
def containsLabels : IssueFilter → Bool
  | .node all any not field _ _ =>
    normalizeField field = "labels" || containsLabelsNot not || containsLabelsAny all ||
      containsLabelsAny any

def containsLabelsAny : List IssueFilter → Bool
  | [] => false
  | child :: rest => containsLabels child || containsLabelsAny rest

def containsLabelsNot : Option IssueFilter → Bool
  | none => false
  | some child => containsLabels child

end

/-- The label leaves among some children, and the other children; none when a
label is asked for in another way. -/
def splitLabels : List IssueFilter → Option (List (List String) × List IssueFilter)
  | [] => some ([], [])
  | child :: rest =>
    match labelLeafIDs child with
    | some ids => (splitLabels rest).map fun split => (ids :: split.1, split.2)
    | none =>
      if containsLabels child then none
      else (splitLabels rest).map fun split => (split.1, child :: split.2)

/-- The rest of the filter and the label ids; those of a child are sorted and compacted. -/
def drivableLabelFilter (filter : IssueFilter) : Option (IssueFilter × List String) :=
  match labelLeafIDs filter, filter with
  | some ids, _ => some (.leaf "" "" [], ids)
  | none, .node all [] none _ _ _ =>
    match splitLabels all with
    | some ([ids], rest) => some (.node rest [] none "" "" [], distinct ids)
    | _ => none
  | none, _ => none

def labelDrivenMaxIssues : Nat := 10000

def labelDrivenWorkspaceMaxIssues : Nat := 2000

/-- `issueLabelIssueCount`, which stops counting above the limit. -/
def issueLabelIssueCount (db : Db) (ids : List String) : Nat :=
  min (db.labels.countP fun entry => ids.contains entry.2) (labelDrivenMaxIssues + 1)

/-- The rest of the filter and the labels that the rows are read from. -/
def labelDrivenIssueSource (db : Db) (query : Query) : Option (IssueFilter × List String) :=
  match drivableLabelFilter query.filter with
  | none => none
  | some (rest, ids) =>
    let count := issueLabelIssueCount db ids
    if count > labelDrivenMaxIssues ∨
        query.teamIDs = [] ∧ count > labelDrivenWorkspaceMaxIssues then none
    else some (rest, ids)

/-- `issueNestedRootClause`: the parent of the row is not in the result. -/
def isRoot (records : List Row) (base : Row → Bool) (row : Row) : Bool :=
  row.parent = "" || !records.any fun parent => parent.id = row.parent && base parent

/-- Of a nested list only the rows whose parent is not in the result. -/
def nestedRoots (db : Db) (query : Query) : Option (Row → Bool) :=
  if query.nested then (issueNestedBase db query).map (isRoot db.records) else some fun _ => true

def matching (db : Db) (query : Query) : Option (Row → Bool) := do
  let condition ← issueRecordWhere db query
  let root ← nestedRoots db query
  some fun row =>
    condition row && (query.searchText = "" || db.textSelection query.searchText row.id) && root row

def carries (db : Db) (ids : List String) (row : Row) : Bool :=
  ids.any fun id => db.labels.contains (row.id, id)

theorem carries_distinct (db : Db) (ids : List String) (row : Row) :
    carries db (distinct ids) row = carries db ids row := by
  rw [Bool.eq_iff_iff]
  simp [carries]

def Query.withFilter (query : Query) (filter : IssueFilter) : Query := { query with filter }

def issueRecordSelection (db : Db) (query : Query) : Option (Row → Bool) :=
  match labelDrivenIssueSource db query with
  | none => matching db query
  | some (rest, ids) =>
    (matching db (query.withFilter rest)).map fun condition row =>
      carries db ids row && condition row

/-! ## The rows of a label -/

section Driven

variable {db : Db}

variable {depth : Nat} {ids : List String} {clause : Clause}

theorem test_labelLeaf {remaining left : Int} {filter : IssueFilter}
    (hids : labelLeafIDs filter = some ids)
    (h : compileIssueFilter db depth remaining filter = some (clause, left)) :
    left ≤ remaining ∧ ∀ sub row, clause.test db sub row = carries db ids row := by
  unfold labelLeafIDs at hids
  split at hids
  · rename_i field operator values
    split at hids
    · cases hids
    rename_i hfield
    split at hids
    · cases hids
    rename_i hoperator
    split at hids
    · cases hids
    rename_i hvalues
    cases hids
    rw [not_not] at hfield hoperator
    obtain ⟨all, any, not, term, left₁, left₂, -, hall, hany, hnot, hterm, htest⟩ :=
      compileIssueFilter_eq_some h
    obtain ⟨rfl, rfl⟩ := hall
    obtain ⟨rfl, rfl⟩ := hany
    obtain ⟨rfl, rfl⟩ := hnot
    have hmember : (if operator = "" then "is" else lower operator) = "is" ∨
        (if operator = "" then "is" else lower operator) = "in" := by
      rw [operator_eq]
      simp only [mem_cons, not_mem_nil, or_false] at hoperator
      rcases hoperator with h | h | h <;> simp [h]
    rw [nodeTerm, hfield, compileTerm_relation rfl, operatorClause_is hmember] at hterm
    cases hterm
    simp only [not_or, Bool.not_eq_true] at hvalues
    refine ⟨by omega, fun sub row => ?_⟩
    rw [htest, memberClause, if_neg (by rw [hvalues.2.2]; exact Bool.false_ne_true)]
    simp [Clause.test, carries, Db.relation, Function.comp_def]
  · cases hids

mutual

theorem compileIssueFilter_add {depth : Nat} {remaining left more : Int} (hmore : 0 ≤ more) :
    ∀ {filter : IssueFilter} {clause : Clause},
      compileIssueFilter db depth remaining filter = some (clause, left) →
      compileIssueFilter db depth (remaining + more) filter = some (clause, left + more)
  | .node all any not field operator values, clause => by
      intro h
      simp only [compileIssueFilter] at h ⊢
      split at h
      · cases h
      rw [if_neg (by omega)]
      simp only [bind_eq_bind, bind_eq_some_iff, Prod.exists, some.injEq, Prod.mk.injEq] at h ⊢
      obtain ⟨all', left₁, hall, any', left₂, hany, not', left₃, hnot, term, hterm, hclause,
        hleft⟩ :=
        h
      have hstart : remaining + more - 1 = remaining - 1 + more := by omega
      refine ⟨all', left₁ + more, ?_, any', left₂ + more, compileChildren_add hmore hany, not',
        left₃ + more, compileNot_add hmore hnot, term, hterm, hclause, by omega⟩
      rw [hstart]
      exact compileChildren_add hmore hall

theorem compileChildren_add {depth : Nat} {remaining left more : Int} (hmore : 0 ≤ more) :
    ∀ {children : List IssueFilter} {clauses : List Clause},
      compileChildren db depth remaining children = some (clauses, left) →
      compileChildren db depth (remaining + more) children = some (clauses, left + more)
  | [], clauses => by
      intro h
      simp only [compileChildren, some.injEq, Prod.mk.injEq] at h ⊢
      exact ⟨h.1, by omega⟩
  | child :: rest, clauses => by
      intro h
      simp only [compileChildren, bind_eq_bind, bind_eq_some_iff, Prod.exists,
        some.injEq, Prod.mk.injEq] at h ⊢
      obtain ⟨clause, left₁, hchild, clauses', left₂, hrest, hclauses, hleft⟩ := h
      exact ⟨clause, left₁ + more, compileIssueFilter_add hmore hchild, clauses', left₂ + more,
        compileChildren_add hmore hrest, hclauses, by omega⟩

theorem compileNot_add {depth : Nat} {remaining left more : Int} (hmore : 0 ≤ more) :
    ∀ {child : Option IssueFilter} {clause : Clause},
      compileNot db depth remaining child = some (clause, left) →
      compileNot db depth (remaining + more) child = some (clause, left + more)
  | none, clause => by
      intro h
      simp only [compileNot, some.injEq, Prod.mk.injEq] at h ⊢
      exact ⟨h.1, by omega⟩
  | some child, clause => by
      intro h
      simp only [compileNot, bind_eq_bind, bind_eq_some_iff, Prod.exists,
        some.injEq, Prod.mk.injEq] at h ⊢
      obtain ⟨clause', left₁, hchild, hclause, hleft⟩ := h
      exact ⟨clause', left₁ + more, compileIssueFilter_add hmore hchild, hclause, by omega⟩

end

/-- The children that are not label leaves compile with the budget that the leaves
leave over. -/
theorem compile_splitLabels {remaining left more : Int} (hmore : 0 ≤ more) :
    ∀ {children : List IssueFilter} {clauses : List Clause} {leaves : List (List String)}
      {rest : List IssueFilter},
      splitLabels children = some (leaves, rest) →
      compileChildren db depth remaining children = some (clauses, left) →
      ∃ clauses' left', compileChildren db depth (remaining + more) rest = some (clauses', left') ∧
        left + more ≤ left' ∧
        ∀ sub row, (clauses.all fun clause => clause.test db sub row) =
          ((leaves.all fun ids => carries db ids row) &&
            clauses'.all fun clause => clause.test db sub row) := by
  intro children
  induction children generalizing remaining more with
  | nil =>
    intro clauses leaves rest hsplit h
    cases hsplit
    obtain ⟨rfl, rfl⟩ := h
    exact ⟨[], _, rfl, le_refl _, fun _ _ => rfl⟩
  | cons child others ih =>
    intro clauses leaves rest hsplit h
    simp only [compileChildren, bind_eq_bind, bind_eq_some_iff, Prod.exists] at h
    obtain ⟨clause, left₁, hchild, clauses', left₂, hothers, rfl, rfl⟩ := h
    simp only [splitLabels] at hsplit
    split at hsplit
    · -- the budget of the leaf goes to the children after it
      rename_i ids hids
      obtain ⟨⟨leaves', rest'⟩, hsplit', heq⟩ := map_eq_some_iff.1 hsplit
      cases heq
      obtain ⟨hleft, hleaf⟩ := test_labelLeaf hids hchild
      have hlarger : 0 ≤ more + (remaining - left₁) := by omega
      obtain ⟨clauses'', left', hrest, hle, htest⟩ := ih hlarger hsplit' hothers
      refine ⟨clauses'', left', ?_, by omega, ?_⟩
      · rw [← hrest]
        congr 1
        omega
      · intro sub row
        rw [all_cons, all_cons, htest, hleaf, Bool.and_assoc]
    · split at hsplit
      · cases hsplit
      obtain ⟨⟨leaves', rest'⟩, hsplit', heq⟩ := map_eq_some_iff.1 hsplit
      cases heq
      obtain ⟨clauses'', left', hrest, hle, htest⟩ := ih hmore hsplit' hothers
      refine ⟨clause :: clauses'', left', ?_, hle, ?_⟩
      · rw [compileChildren, compileIssueFilter_add hmore hchild]
        simp [hrest]
      · intro sub row
        rw [all_cons, all_cons, htest]
        cases clause.test db sub row <;> simp

/-- Whether a row meets a filter; none meets one that is refused. -/
def meets (db : Db) (sub : Bool) (row : Row) (filter : IssueFilter) : Bool :=
  (compileIssueFilter db 0 100 filter).any fun compiled => compiled.1.test db sub row

def meetsRoot (db : Db) (sub : Bool) (row : Row) : IssueFilter → Bool
  | .node _ _ _ field operator values =>
    (nodeTerm db field operator values).any fun term => term.test db sub row

theorem meetsRoot_of_test {filter : IssueFilter} {left : Int} {sub : Bool} {row : Row}
    (h : compileIssueFilter db 0 100 filter = some (clause, left))
    (htest : clause.test db sub row) : meetsRoot db sub row filter := by
  obtain ⟨all, any, not, field, operator, values⟩ := filter
  obtain ⟨_, _, _, term, _, _, -, -, -, -, hterm, hnode⟩ := compileIssueFilter_eq_some h
  rw [hnode, Bool.and_eq_true] at htest
  rw [meetsRoot, hterm]
  exact htest.2

/-- What a filter that a label drives tests: the label, the rest, and the term of
its root. -/
theorem compile_drivable {filter rest : IssueFilter} {left : Int}
    (hdrive : drivableLabelFilter filter = some (rest, ids))
    (h : compileIssueFilter db 0 100 filter = some (clause, left)) :
    ∃ clause' left', compileIssueFilter db 0 100 rest = some (clause', left') ∧
      ∀ sub row, clause.test db sub row =
        (carries db ids row && clause'.test db sub row && meetsRoot db sub row filter) := by
  unfold drivableLabelFilter at hdrive
  split at hdrive
  · -- the root is the leaf itself
    rename_i ids' hleaf
    cases hdrive
    refine ⟨.all [.all [], .always, .always, .always], 99, rfl, fun sub row => ?_⟩
    have htest := (test_labelLeaf hleaf h).2 sub row
    cases hlabel : carries db ids row with
    | false => rw [htest, hlabel]; rfl
    | true => rw [htest, hlabel, meetsRoot_of_test h (htest.trans hlabel)]; rfl
  · split at hdrive
    · rename_i ids' others hsplit
      cases hdrive
      obtain ⟨all', any', not', term, left₁, left₂, -, hall, hany, hnot, hterm, htest⟩ :=
        compileIssueFilter_eq_some h
      obtain ⟨clauses, left', hrest, -, hsame⟩ :=
        compile_splitLabels (le_refl (0 : Int)) hsplit hall
      refine ⟨.all [.all clauses, .always, .always, .always], left', ?_, ?_⟩
      · have hroot : nodeTerm db "" "" [] = some .always := rfl
        rw [Int.add_zero] at hrest
        simp only [compileIssueFilter]
        rw [hrest]
        rfl
      · intro sub row
        cases hany
        cases hnot
        rw [htest, hsame, meetsRoot, hterm, carries_distinct]
        simp [Clause.test]
    · cases hdrive
  · cases hdrive

/-- **A label drives a filter faithfully** for exactly the rows with the label that, when
they meet the rest, meet an accepted filter's own term at its root: the rest is without it. -/
theorem label_driving_iff (db : Db) (filter rest : IssueFilter) (ids : List String)
    (hdrive : drivableLabelFilter filter = some (rest, ids)) (sub : Bool) (row : Row) :
    (meets db sub row filter = true ↔ carries db ids row = true ∧ meets db sub row rest = true) ↔
      (carries db ids row = true → meets db sub row rest = true →
        (compileIssueFilter db 0 100 filter).isSome = true ∧
          meetsRoot db sub row filter = true) := by
  unfold meets
  cases hcompile : compileIssueFilter db 0 100 filter with
  | none => simp
  | some compiled =>
    obtain ⟨clause', left', hrest, htest⟩ := compile_drivable hdrive hcompile
    rw [hrest, any_some, htest, Bool.and_eq_true, Bool.and_eq_true]
    simp only [isSome_some, true_and]
    constructor
    · exact fun hiff hlabel hmet => (hiff.2 ⟨hlabel, hmet⟩).2
    · exact fun hroot => ⟨And.left, fun hmet => ⟨hmet, hroot hmet.1 hmet.2⟩⟩

def bugged : Db := { issuesOnly [plainRow "a" "" "ENG" "todo"] with labels := [("a", "bug")] }

/-- A filter with a label and a status among its children drives faithfully. -/
theorem label_drives_children :
    meets bugged false (plainRow "a" "" "ENG" "todo") (.node
        [.leaf "labels" "in" ["bug", "ops"], .leaf "status" "" ["todo"]] [] none "" "" []) = true ↔
      carries bugged ["bug", "ops"] (plainRow "a" "" "ENG" "todo") = true ∧
        meets bugged false (plainRow "a" "" "ENG" "todo")
          (.node [.leaf "status" "" ["todo"]] [] none "" "" []) = true :=
  (label_driving_iff bugged _ _ ["bug", "ops"] (by rfl) false
    (plainRow "a" "" "ENG" "todo")).2 fun _ _ => by decide

/-- **The term of the root is lost.**  A filter asks for team `OPS`, and below that for a
label; the issue of `ENG` with the label does not meet it, and meets what drives it. -/
theorem label_loses_root :
    ∃ rest, drivableLabelFilter (.node [.leaf "labels" "is" ["bug"]] [] none "team" "is" ["OPS"]) =
        some (rest, ["bug"]) ∧
      meets bugged false (plainRow "a" "" "ENG" "todo")
        (.node [.leaf "labels" "is" ["bug"]] [] none "team" "is" ["OPS"]) = false ∧
      carries bugged ["bug"] (plainRow "a" "" "ENG" "todo") = true ∧
        meets bugged false (plainRow "a" "" "ENG" "todo") rest = true :=
  ⟨.node [] [] none "" "" [], by rfl, by decide, by decide, by decide⟩

/-- A row that meets a query has the label that drives it, and meets the rest. -/
theorem where_drivable {query : Query} {rest : IssueFilter} {condition : Row → Bool}
    (hdrive : drivableLabelFilter query.filter = some (rest, ids))
    (h : issueRecordWhere db query = some condition) :
    ∃ condition', issueRecordWhere db (query.withFilter rest) = some condition' ∧
      ∀ row, condition row → carries db ids row ∧ condition' row := by
  unfold issueRecordWhere at h
  split at h
  · cases h
  rename_i hworkspace
  split at h
  · cases h
  rename_i hviewer
  simp only [bind_eq_bind, bind_eq_some_iff, Prod.exists, some.injEq] at h
  obtain ⟨filter, left, hfilter, group, hgroup, rfl⟩ := h
  obtain ⟨filter', left', hfilter', htest⟩ := compile_drivable hdrive hfilter
  have hwhere : issueRecordWhere db (query.withFilter rest) = some fun row =>
      meetsQuery db query row && filter'.test db (db.hasSubIssues (visible db query) row) row &&
        group row := by
    have hworkspace' : ¬ (query.withFilter rest).workspace = "" := hworkspace
    have hviewer' : ¬ ((query.withFilter rest).access.any fun access =>
        !access.admin && access.userID = "") = true := hviewer
    have hcompiled : compileIssueFilter db 0 100 (query.withFilter rest).filter =
        some (filter', left') := hfilter'
    have hgroup' : groupWhere db (query.withFilter rest) = some group := hgroup
    unfold issueRecordWhere
    rw [if_neg hworkspace', if_neg hviewer', hcompiled, hgroup']
    rfl
  refine ⟨_, hwhere, ?_⟩
  intro row hmet
  simp only [meetsQuery, Bool.and_eq_true] at hmet ⊢
  obtain ⟨⟨hothers, hmet⟩, hgrouped⟩ := hmet
  rw [htest, Bool.and_eq_true, Bool.and_eq_true] at hmet
  exact ⟨hmet.1.1, ⟨hothers, hmet.1.2⟩, hgrouped⟩

end Driven

/-! ## When the label index gives the rows of the query -/

/-- The rows with one of the labels that meet the rest of a query meet the query,
and for a nested list the parents of its rows do too. -/
structure LabelSourceFaithful (db : Db) (query : Query) (rest : IssueFilter) (ids : List String) :
    Prop where
  rows : ∀ condition condition', issueRecordWhere db query = some condition →
    issueRecordWhere db (query.withFilter rest) = some condition' →
    ∀ row ∈ db.records, carries db ids row = true → condition' row = true → condition row = true
  parents : query.nested = true → ∀ condition base base',
    issueRecordWhere db query = some condition → issueNestedBase db query = some base →
    issueNestedBase db (query.withFilter rest) = some base' →
    ∀ row ∈ db.records, condition row = true →
      ∀ parent ∈ db.records, parent.id = row.parent → base' parent = true → base parent = true

def SelectsMatching (db : Db) (query : Query) : Prop :=
  ∀ rest ids, labelDrivenIssueSource db query = some (rest, ids) →
    LabelSourceFaithful db query rest ids

variable {db : Db} {query : Query} {rest : IssueFilter} {ids : List String}

theorem drivable_of_labelDriven (h : labelDrivenIssueSource db query = some (rest, ids)) :
    drivableLabelFilter query.filter = some (rest, ids) := by
  unfold labelDrivenIssueSource at h
  split at h
  · cases h
  · rename_i hdrive
    simp only at h
    split at h
    · cases h
    · cases h
      exact hdrive

theorem base_drivable {base : Row → Bool}
    (hdrive : drivableLabelFilter query.filter = some (rest, ids))
    (h : issueNestedBase db query = some base) :
    ∃ base', issueNestedBase db (query.withFilter rest) = some base' ∧
      ∀ row, base row → base' row := by
  obtain ⟨condition, hwhere, rfl⟩ := map_eq_some_iff.1 h
  have hdrive' : drivableLabelFilter query.withoutGroupValue.filter = some (rest, ids) := hdrive
  obtain ⟨condition', hwhere', himp⟩ := where_drivable hdrive' hwhere
  refine ⟨_, map_eq_some_iff.2 ⟨condition', hwhere', rfl⟩, ?_⟩
  intro row hmet
  rw [Bool.and_eq_true] at hmet ⊢
  exact ⟨(himp row hmet.1).2, hmet.2⟩

theorem nestedRoots_drivable {condition root : Row → Bool}
    (hdrive : drivableLabelFilter query.filter = some (rest, ids))
    (hfaithful : LabelSourceFaithful db query rest ids)
    (hwhere : issueRecordWhere db query = some condition) (h : nestedRoots db query = some root) :
    ∃ root', nestedRoots db (query.withFilter rest) = some root' ∧
      ∀ row ∈ db.records, condition row → root' row = root row := by
  unfold nestedRoots at h ⊢
  split at h
  · rename_i hnested
    obtain ⟨base, hbase, rfl⟩ := map_eq_some_iff.1 h
    obtain ⟨base', hbase', himp⟩ := base_drivable hdrive hbase
    have hnested' : (query.withFilter rest).nested = true := hnested
    rw [if_pos hnested']
    refine ⟨_, map_eq_some_iff.2 ⟨base', hbase', rfl⟩, ?_⟩
    intro row hrow hmet
    have hparents :=
      hfaithful.parents hnested condition base base' hwhere hbase hbase' row hrow hmet
    unfold isRoot
    congr 2
    rw [Bool.eq_iff_iff]
    simp only [List.any_eq_true, Bool.and_eq_true, decide_eq_true_eq]
    constructor
    · rintro ⟨parent, hmem, hid, hbase⟩
      exact ⟨parent, hmem, hid, hparents parent hmem hid hbase⟩
    · rintro ⟨parent, hmem, hid, hbase⟩
      exact ⟨parent, hmem, hid, himp parent hbase⟩
  · rename_i hnested
    cases h
    have hnested' : ¬ (query.withFilter rest).nested = true := hnested
    rw [if_neg hnested']
    exact ⟨_, rfl, fun _ _ _ => rfl⟩

/-- **The selection is the rows that match**, when the label index gives them. -/
theorem issueRecordSelection_eq {condition : Row → Bool} (h : matching db query = some condition)
    (hfaithful : SelectsMatching db query) :
    ∃ selected, issueRecordSelection db query = some selected ∧
      ∀ row ∈ db.records, selected row = condition row := by
  unfold issueRecordSelection
  split
  · exact ⟨condition, h, fun _ _ => rfl⟩
  · rename_i rest ids hsource
    have hdrive := drivable_of_labelDriven hsource
    have hfaithful := hfaithful rest ids hsource
    simp only [matching, bind_eq_bind, bind_eq_some_iff, some.injEq] at h
    obtain ⟨met, hwhere, root, hroot, rfl⟩ := h
    obtain ⟨met', hwhere', himp⟩ := where_drivable hdrive hwhere
    obtain ⟨root', hroot', hroots⟩ := nestedRoots_drivable hdrive hfaithful hwhere hroot
    have hmatching : matching db (query.withFilter rest) = some fun row =>
        met' row && (query.searchText = "" || db.textSelection query.searchText row.id) &&
          root' row := by
      rw [matching, hwhere', hroot']
      rfl
    rw [hmatching]
    refine ⟨_, rfl, fun row hrow => ?_⟩
    beta_reduce
    cases hmet : met row with
    | true =>
      obtain ⟨hlabel, hmet'⟩ := himp row hmet
      rw [hlabel, hmet', hroots row hrow hmet, Bool.true_and]
    | false =>
      have hnot : (carries db ids row && met' row) = false := by
        rw [Bool.eq_false_iff]
        intro hboth
        rw [Bool.and_eq_true] at hboth
        have := hfaithful.rows met met' hwhere hwhere' row hrow hboth.1 hboth.2
        rw [hmet] at this
        cases this
      rw [← Bool.and_assoc, ← Bool.and_assoc, hnot]
      simp

end Flow.Ports.IssueQuery
