import Flow.Ports.IssueGroupCounters

/-!
# What the counters select for a query

`addFilter` reads the terms of a filter into a scope, its ids and the conditions
that are tested on the counters.  A row is in that scope and meets those conditions
exactly when it meets the filter (`addFilter_holds`), and the conditions name only
columns of the counters unless a status, status type or priority term has a team,
project or assignee term below it (`addFilter_onCounters`).
-/

namespace Flow.Ports.IssueQuery

open List Option
open Flow.Ports.IssueStats (Scope StatsKey Dimensions)

variable {db : Db} {query : Query} {row : Row}

mutual

theorem Compiled.unique : ∀ {filter : IssueFilter} {clause clause' : Clause},
    Compiled db filter clause → Compiled db filter clause' → clause = clause'
  | _, _, _, .node hall hany hnot hterm, .node hall' hany' hnot' hterm' => by
      rw [CompiledAll.unique hall hall', CompiledAll.unique hany hany',
        CompiledNot.unique hnot hnot', some.inj (hterm.symm.trans hterm')]

theorem CompiledAll.unique : ∀ {filters : List IssueFilter} {clauses clauses' : List Clause},
    CompiledAll db filters clauses → CompiledAll db filters clauses' → clauses = clauses'
  | _, _, _, .nil, .nil => rfl
  | _, _, _, .cons hchild hrest, .cons hchild' hrest' => by
      rw [Compiled.unique hchild hchild', CompiledAll.unique hrest hrest']

theorem CompiledNot.unique : ∀ {filter : Option IssueFilter} {clause clause' : Clause},
    CompiledNot db filter clause → CompiledNot db filter clause' → clause = clause'
  | _, _, _, .none, .none => rfl
  | _, _, _, .some hchild, .some hchild' => by
      rw [Compiled.unique hchild hchild']

end

/-! ## Conditions on counters -/

variable {clause term : Clause} {field operator : String} {values : List String} {scope : Scope}
  {found found' : CounterScope} {all : List IssueFilter}

/-- A condition on the counters' columns tests a counter as it tests its rows. -/
theorem test_counterRow (h : clause.onCounters) (scope : Scope) (sub : Bool) :
    clause.test db false (counterRow (row.dimensions.key scope)) = clause.test db sub row := by
  induction clause with
  | always => rfl
  | never => rfl
  | compare column comparison value =>
    have hcell : (counterRow (row.dimensions.key scope)).cell column = row.cell column := by
      simp only [Clause.onCounters, contains_iff_mem, mem_cons, not_mem_nil,
        or_false] at h
      rcases h with rfl | rfl | rfl <;> rfl
    cases comparison <;> simp [Clause.test, hcell]
  | and left right ihl ihr | or left right ihl ihr =>
    simp only [Clause.onCounters, Bool.and_eq_true] at h
    simp [Clause.test, ihl h.1, ihr h.2]
  | not clause ih => simp only [Clause.test, ih h]
  | _ => cases h

theorem test_of_onCounters (h : clause.onCounters) (sub : Bool) :
    clause.test db sub row = clause.test db false row := by
  rw [← test_counterRow h .workspace sub, test_counterRow h .workspace false]

@[simp] theorem onCounters_all (clauses : List Clause) :
    (Clause.all clauses).onCounters = clauses.all Clause.onCounters := by
  induction clauses with
  | nil => rfl
  | cons clause rest ih => rw [all_cons, ← ih]; rfl

@[simp] theorem onCounters_any (clauses : List Clause) :
    (Clause.any clauses).onCounters = clauses.all Clause.onCounters := by
  induction clauses with
  | nil => rfl
  | cons clause rest ih => rw [all_cons, ← ih]; rfl

theorem onCounters_bindList (column : Column) (values : List String) :
    (bindList column values).onCounters =
      (values.isEmpty || [Column.state, .type, .priority].contains column) := by
  rw [bindList, onCounters_any, List.all_map]
  cases values with
  | nil => rfl
  | cons value rest =>
    cases hcolumn : [Column.state, .type, .priority].contains column with
    | false => simp only [List.all_cons, Function.comp_apply, Clause.onCounters, hcolumn]; rfl
    | true =>
      simp only [Bool.or_true, List.all_eq_true, Function.comp_apply, Clause.onCounters, hcolumn]
      exact fun _ _ => trivial

theorem onCounters_operatorClause {op : String} {column : Column}
    (hcolumn : [Column.state, .type, .priority].contains column) (hfield : field ≠ "title")
    (h : operatorClause field (some column) none op values = some clause) :
    clause.onCounters := by
  have hmember : (memberClause field (some column) none values).onCounters = true := by
    simp only [memberClause]
    split
    · simp only [Clause.onCounters, onCounters_bindList, hcolumn]
      simp
    · simp only [onCounters_bindList, hcolumn, Bool.or_true]
  have horder : ∀ value, (orderClause column op value).onCounters = true := by
    intro value
    unfold orderClause
    split <;> exact hcolumn
  unfold operatorClause at h
  split at h
  · cases h; exact hmember
  split at h
  · cases h; exact hmember
  split at h
  · cases h
  split at h
  · cases h; exact hcolumn
  split at h
  · cases h; exact hcolumn
  split at h
  · rcases values with _ | ⟨value, _ | ⟨_, _⟩⟩
    · cases h
    · cases h
      exact horder value
    · cases h
  split at h
  · rcases values with _ | ⟨value, _ | ⟨_, _⟩⟩
    · cases h
    · cases h
    · cases h
  · cases h

theorem onCounters_compileTerm (hfield : field ∈ counterFields)
    (h : compileTerm db field operator values = some term) : term.onCounters := by
  have hfacts : ∀ field ∈ counterFields, field ≠ "title" ∧ specialField field = false ∧
      relationTable field = none ∧ ∃ column, queryColumns.lookup field = some column ∧
        [Column.state, .type, .priority].contains column = true := by
    simp only [counterFields, forall_mem_cons]
    refine ⟨⟨by decide, by decide, rfl, .state, by decide⟩,
      ⟨by decide, by decide, rfl, .type, by decide⟩,
      ⟨by decide, by decide, rfl, .priority, by decide⟩, by simp⟩
  obtain ⟨htitle, hspecial, hrelation, column, hcolumn, hcounted⟩ := hfacts field hfield
  rw [compileTerm_of_not_special hspecial (by rw [hcolumn]; simp), hcolumn, hrelation] at h
  exact onCounters_operatorClause hcounted htitle h

theorem nodeTerm_counterField (hfield : field ∈ counterFields)
    (h : nodeTerm db field operator values = some term) : term.onCounters := by
  have hname : ∀ field ∈ counterFields, normalizeField field = field ∧ field ≠ "" := by decide
  rw [nodeTerm, (hname field hfield).1, if_neg (hname field hfield).2] at h
  exact onCounters_compileTerm hfield h

/-! ## Scope terms -/

def scopeColumn : Scope → Column
  | .workspace => .id
  | .team => .team
  | .project => .project
  | .assignee => .assignee

def knownFields : List String :=
  ["team", "sharedWith", "hasSubIssues", "labels", "subscribers", "myActivity"] ++
    queryColumns.map Prod.fst

theorem known_of_compileTerm (h : compileTerm db field operator values = some term) :
    field ∈ knownFields ∨ isExtraField field := by
  by_cases hextra : isExtraField field = true
  · exact .inr hextra
  by_cases hspecial : field ∈ ["team", "sharedWith", "hasSubIssues"]
  · exact .inl (mem_append_left _ (mem_append_left ["labels", "subscribers", "myActivity"]
      hspecial))
  simp only [mem_cons, not_or] at hspecial
  simp only [compileTerm, hspecial.1, hspecial.2.1, hspecial.2.2, hextra] at h
  obtain ⟨values', -, h⟩ := bind_eq_some_iff.1 h
  split at h
  · cases h
  rename_i hknown
  refine .inl ?_
  cases hrelation : relationTable field with
  | some table =>
    unfold relationTable at hrelation
    split at hrelation
    · decide
    · decide
    · decide
    · cases hrelation
  | none =>
    cases hcolumn : queryColumns.lookup field with
    | none => simp [hrelation, hcolumn] at hknown
    | some column =>
      obtain ⟨before, after, hcolumns, -⟩ := lookup_eq_some_iff.1 hcolumn
      exact mem_append_right _ (by simp [hcolumns])

/-- The names in lower case of the fields that the counters know. -/
def plainNames : List String := ["team", "project", "assignee", "status", "priority"]

/-- These names have no colon, and no other field is one in another case. -/
theorem lower_extraField (h : isExtraField field) : lower field ∉ plainNames := by
  have hlists : ∀ field ∈ ["customerId", "customers", "agentSessionState"] ++ releaseFields ++
      attributeFields, lower field ∉ plainNames := by decide
  unfold isExtraField isAttributeField at h
  simp only [Bool.or_eq_true, List.contains_iff_mem, List.any_eq_true, Bool.and_eq_true] at h
  rcases h with (h | h) | h | ⟨start, hstart, hlike, -⟩
  · exact hlists field (List.mem_append_left _ (List.mem_append_left _ h))
  · exact hlists field (List.mem_append_left _ (List.mem_append_right _ h))
  · exact hlists field (List.mem_append_right _ h)
  · have hcolon : ':' ∈ (lower field).toList := by
      have hin : ∀ start ∈ attributePrefixes, ':' ∈ start.toList := by decide
      have hfield : ':' ∈ field.toList :=
        (List.isPrefixOf_iff_prefix.1 hlike).subset (hin start hstart)
      rw [lower, String.toList_ofList]
      exact List.mem_map.2 ⟨':', hfield, by decide⟩
    intro hname
    have hnone : ∀ name ∈ plainNames, ':' ∉ name.toList := by decide
    exact hnone _ hname hcolon

theorem eq_lower_of_compileTerm (hname : lower field ∈ plainNames)
    (h : compileTerm db field operator values = some term) : field = lower field := by
  rcases known_of_compileTerm h with hknown | hextra
  · have hnames : ∀ field ∈ knownFields, lower field ∈ plainNames → field = lower field := by decide
    exact hnames field hknown hname
  · exact absurd hname (lower_extraField hextra)

def scopeName : Scope → String
  | .workspace => ""
  | .team => "team"
  | .project => "project"
  | .assignee => "assignee"

theorem scopeField_eq_some (h : scopeField field = some scope) :
    scope ≠ .workspace ∧
      (lower field = scopeName scope ∨ lower field = scopeName scope ++ "id") := by
  revert h
  fun_cases scopeField field
  all_goals rintro ⟨⟩
  all_goals exact ⟨by decide, by assumption⟩

theorem nodeTerm_scope (hscope : scopeField field = some scope)
    (hop : lower operator ∈ ["", "is", "in"]) (h : nodeTerm db field operator values = some term) :
    term = bindList (scopeColumn scope) values := by
  obtain ⟨hne, hname⟩ := scopeField_eq_some hscope
  have hwritten : normalizeField field = scopeName scope ∧ scopeName scope ≠ "" := by
    refine ⟨?_, by cases scope <;> first | exact absurd rfl hne | decide⟩
    rcases hname with hname | hname
    · -- under its own name the field has no alias
      have hown : normalizeField field = field := by
        rw [normalizeField, hname]
        cases scope <;> rfl
      have hmem : lower field ∈ plainNames := by
        rw [hname]
        cases scope <;> first | exact absurd rfl hne | decide
      rw [nodeTerm, hown] at h
      split at h
      · rename_i hempty
        rw [hempty] at hmem
        exact absurd hmem (by decide)
      · rw [hown, eq_lower_of_compileTerm hmem h, hname]
    · rw [normalizeField, hname]
      cases scope <;> first | exact absurd rfl hne | rfl
  have hoperator : (if operator = "" then "is" else lower operator) = "is" ∨
      (if operator = "" then "is" else lower operator) = "in" := by
    rw [operator_eq]
    simp only [mem_cons, not_mem_nil, or_false] at hop
    rcases hop with hop | hop | hop <;> simp [hop]
  rw [nodeTerm, hwritten.1, if_neg hwritten.2] at h
  cases scope with
  | workspace => exact absurd rfl hne
  | project | assignee =>
    rw [scopeName, compileTerm_of_not_special (by decide) (by decide),
      operatorClause_is hoperator] at h
    exact (some.inj h).symm
  | team =>
    simp only [scopeName, compileTerm] at h
    split at h
    · cases h
    simp only [show ("team" = "sharedWith") = False by decide, if_false,
      show isExtraField "team" = false by decide, Bool.false_eq_true, columnClause, columnValues,
      show ("team" = "createdAt" ∨ "team" = "updatedAt") = False by decide,
      bind_eq_bind, bind_some] at h
    rw [operatorClause_is hoperator] at h
    exact (some.inj h).symm

/-! ## What the scope of a query selects -/

/-- Whether a row is in a scope and meets its conditions. -/
def CounterScope.holds (db : Db) (found : CounterScope) (sub : Bool) (row : Row) : Bool :=
  found.ids.contains (row.dimensions.scopeId found.scope) &&
    found.clauses.all fun clause => clause.test db sub row

def CounterScope.Whole (found : CounterScope) : Prop := found.scope = .workspace → found.ids = [""]

theorem test_scopeTerm {sub : Bool} (hscope : scope ≠ .workspace) :
    (bindList (scopeColumn scope) values).test db sub row =
      values.contains (row.dimensions.scopeId scope) := by
  rw [test_bindList, contains_eq_any_beq]
  cases scope <;> first | exact absurd rfl hscope | rfl

theorem addScopeTerm_holds (hwhole : found.Whole) (hne : scope ≠ .workspace)
    (h : addScopeTerm found scope operator values = some found') :
    found'.Whole ∧ ∀ sub row, found'.holds db sub row =
      (found.holds db sub row && (bindList (scopeColumn scope) values).test db sub row) := by
  revert h
  fun_cases addScopeTerm found scope operator values
  all_goals rintro ⟨⟩
  next hworkspace =>
    refine ⟨fun hscope' => absurd hscope' hne, fun sub row => ?_⟩
    rw [test_scopeTerm hne]
    simp only [CounterScope.holds, hworkspace, hwhole hworkspace]
    rw [Bool.and_comm]
    simp [Dimensions.scopeId]
  next hworkspace hsame =>
    refine ⟨fun hscope' => absurd hscope' hworkspace, fun sub row => ?_⟩
    rw [test_scopeTerm hne]
    have hboth : ∀ id, (found.ids.filter fun id => values.contains id).contains id =
        (found.ids.contains id && values.contains id) := by
      intro id
      simp
    simp only [CounterScope.holds, ← not_not.1 hsame, hboth]
    ac_rfl

/-- What the own term of an accepted node is. -/
inductive Added (db : Db) (found : CounterScope) (all : List IssueFilter)
    (field : String) (values : List String) (term : Clause) : CounterScope → Prop where
  | empty (hfield : field = "") (hterm : term = .always) :
    Added db found all field values term found
  | scope {found' : CounterScope} (scope : Scope) (operator : String)
      (hscope : scopeField field = some scope) (hne : scope ≠ .workspace)
      (hterm : term = bindList (scopeColumn scope) values)
      (h : addScopeTerm found scope operator values = some found') :
      Added db found all field values term found'
  | counter (all' : List Clause) (hscope : scopeField field = none)
      (hfield : field ∈ counterFields) (hall : CompiledAll db all all')
      (hterm : term.onCounters = true) :
      Added db found all field values term
        { found with clauses := found.clauses ++ [.all [.all all', .always, .always, term]] }

theorem added_of_addTerm (h : addTerm db found all field operator values = some found')
    (hterm : nodeTerm db field operator values = some term) :
    Added db found all field values term found' := by
  revert h
  fun_cases addTerm db found all field operator values
  next hempty =>
    rintro ⟨⟩
    rw [nodeTerm, hempty] at hterm
    exact .empty hempty (some.inj hterm).symm
  next scope hscope =>
    intro h
    obtain ⟨hop, -⟩ := ite_none_left_eq_some.1 h
    exact .scope scope operator hscope (scopeField_eq_some hscope).1
      (nodeTerm_scope hscope (not_not.1 hop) hterm) h
  next =>
    intro h
    cases h
  next hscope hfield =>
    intro h
    obtain ⟨⟨clause, left⟩, hclause, rfl⟩ := map_eq_some_iff.1 h
    cases compiled_of_compile hclause with
    | node hall hany hnot hterm' =>
      cases hany
      cases hnot
      cases hterm.symm.trans hterm'
      exact .counter _ hscope (not_not.1 hfield) hall
        (nodeTerm_counterField (not_not.1 hfield) hterm)

theorem Added.holds {tests : List Clause} (hwhole : found.Whole)
    (h : Added db found all field values term found') (hall : CompiledAll db all tests)
    (hholds : ∀ sub row, found.holds db sub row → tests.all (fun c => c.test db sub row)) :
    found'.Whole ∧ ∀ sub row,
      found'.holds db sub row = (found.holds db sub row && term.test db sub row) := by
  cases h with
  | empty _ hterm => exact ⟨hwhole, fun sub row => by simp [hterm, Clause.test]⟩
  | scope scope operator _ hne hterm h =>
    rw [hterm]
    exact addScopeTerm_holds hwhole hne h
  | counter all' _ _ hall' _ =>
    cases hall.unique hall'
    refine ⟨hwhole, fun sub row => ?_⟩
    have hjoin : ∀ clause : Clause,
        CounterScope.holds db { found with clauses := found.clauses ++ [clause] } sub row =
          (found.holds db sub row && clause.test db sub row) := by
      simp [CounterScope.holds, Bool.and_assoc]
    rw [hjoin]
    cases hfound : found.holds db sub row with
    | false => rfl
    | true =>
      have hmet := hholds sub row hfound
      simp [hmet, Clause.test]

/-- An accepted node has only children that all hold, and its own term. -/
theorem addFilter_eq_some {any : List IssueFilter} {not : Option IssueFilter}
    (h : addFilter db found (.node all any not field operator values) = some found') :
    any = [] ∧ not = none ∧ ∃ found₁, addFilters db found all = some found₁ ∧
      addTerm db found₁ all field operator values = some found' := by
  obtain ⟨hplain, h⟩ := ite_none_left_eq_some.1 h
  simp only [Bool.or_eq_true, Bool.not_eq_true', not_or, Bool.not_eq_false,
    List.isEmpty_iff, not_isSome_iff_eq_none] at hplain
  exact ⟨hplain.1, hplain.2, bind_eq_some_iff.1 h⟩

mutual

/-- A scope selects the rows of the filter. -/
theorem addFilter_holds : ∀ {filter : IssueFilter} {clause : Clause} {found found' : CounterScope},
    Compiled db filter clause → found.Whole → addFilter db found filter = some found' →
      found'.Whole ∧ ∀ sub row, found'.holds db sub row =
        (found.holds db sub row && clause.test db sub row)
  | _, _, _, _, .node hall hany hnot hterm => by
      intro hwhole h
      obtain ⟨rfl, rfl, found₁, hfound₁, h⟩ := addFilter_eq_some h
      cases hany
      cases hnot
      obtain ⟨hwhole₁, hholds₁⟩ := addFilters_holds hall hwhole hfound₁
      obtain ⟨hwhole', hholds'⟩ := (added_of_addTerm h hterm).holds hwhole₁ hall (by
        intro sub row hholds
        rw [hholds₁, Bool.and_eq_true] at hholds
        exact hholds.2)
      refine ⟨hwhole', fun sub row => ?_⟩
      rw [hholds', hholds₁, test_node]
      simp [Clause.test, Bool.and_assoc]

theorem addFilters_holds :
    ∀ {filters : List IssueFilter} {clauses : List Clause} {found found' : CounterScope},
      CompiledAll db filters clauses → found.Whole → addFilters db found filters = some found' →
        found'.Whole ∧ ∀ sub row, found'.holds db sub row =
          (found.holds db sub row && clauses.all fun c => c.test db sub row)
  | _, _, _, _, .nil => by
      rintro hwhole ⟨⟩
      exact ⟨hwhole, fun sub row => by simp⟩
  | _, _, _, _, .cons hchild hrest => by
      intro hwhole h
      obtain ⟨found₁, hfound₁, h⟩ := bind_eq_some_iff.1 h
      obtain ⟨hwhole₁, hholds₁⟩ := addFilter_holds hchild hwhole hfound₁
      obtain ⟨hwhole', hholds'⟩ := addFilters_holds hrest hwhole₁ h
      refine ⟨hwhole', fun sub row => ?_⟩
      rw [hholds', hholds₁, all_cons, Bool.and_assoc]

end

/-! ## Terms the counters cannot test -/

mutual

/-- Whether a filter has a team, project or assignee term with values. -/
def scopeTerm : IssueFilter → Bool
  | .node all _ _ field _ values =>
    scopeTermIn all || (scopeField field).isSome && !values.isEmpty

def scopeTermIn : List IssueFilter → Bool
  | [] => false
  | child :: rest => scopeTerm child || scopeTermIn rest

end

mutual

/-- Whether a status, status type or priority term has such a term below it. -/
def mixesScopes : IssueFilter → Bool
  | .node all _ _ field _ _ => mixesScopesIn all || counterFields.contains field && scopeTermIn all

def mixesScopesIn : List IssueFilter → Bool
  | [] => false
  | child :: rest => mixesScopes child || mixesScopesIn rest

end

theorem Added.onCounters (h : Added db found all field values term found') :
    term.onCounters = !((scopeField field).isSome && !values.isEmpty) := by
  cases h with
  | empty hfield hterm =>
    rw [hfield, hterm, show scopeField "" = none by decide]
    rfl
  | scope scope _ hscope hne hterm _ =>
    have hcolumn : [Column.state, .type, .priority].contains (scopeColumn scope) = false := by
      cases scope <;> rfl
    rw [hterm, onCounters_bindList, hscope, hcolumn]
    simp
  | counter _ hscope _ _ hterm =>
    rw [hterm, hscope]
    rfl

mutual

theorem onCounters_compile :
    ∀ {filter : IssueFilter} {clause : Clause} {found found' : CounterScope},
      Compiled db filter clause → addFilter db found filter = some found' →
        clause.onCounters = !scopeTerm filter
  | _, _, _, _, .node hall hany hnot hterm => by
      intro h
      obtain ⟨rfl, rfl, found₁, hfound₁, h⟩ := addFilter_eq_some h
      cases hany
      cases hnot
      simp only [onCounters_all, all_cons, all_nil, Bool.and_true, if_true,
        onCounters_compileAll hall hfound₁, (added_of_addTerm h hterm).onCounters, scopeTerm,
        Bool.not_or]
      simp [Clause.onCounters]

theorem onCounters_compileAll :
    ∀ {filters : List IssueFilter} {clauses : List Clause} {found found' : CounterScope},
      CompiledAll db filters clauses → addFilters db found filters = some found' →
        clauses.all Clause.onCounters = !scopeTermIn filters
  | _, _, _, _, .nil => fun _ => rfl
  | _, _, _, _, .cons hchild hrest => by
      intro h
      obtain ⟨found₁, hfound₁, h⟩ := bind_eq_some_iff.1 h
      rw [all_cons, onCounters_compile hchild hfound₁, onCounters_compileAll hrest h,
        scopeTermIn, Bool.not_or]

end

theorem addScopeTerm_clauses (h : addScopeTerm found scope operator values = some found') :
    found'.clauses = found.clauses := by
  revert h
  fun_cases addScopeTerm found scope operator values
  all_goals rintro ⟨⟩
  all_goals rfl

mutual

/-- The collected conditions are on the counters unless a term mixes scopes in. -/
theorem addFilter_onCounters :
    ∀ (filter : IssueFilter) {found found' : CounterScope},
      addFilter db found filter = some found' →
      found'.clauses.all Clause.onCounters =
        (found.clauses.all Clause.onCounters && !mixesScopes filter)
  | .node all any not field operator values => by
      intro h
      have hwhole := h
      obtain ⟨rfl, rfl, found₁, hfound₁, h⟩ := addFilter_eq_some h
      have hbelow := addFilters_onCounters all hfound₁
      revert h
      fun_cases addTerm db found₁ all field operator values
      next hempty =>
        rintro ⟨⟩
        rw [hbelow, mixesScopes, hempty, show counterFields.contains "" = false by decide]
        simp
      next scope hscope =>
        intro h
        have hother : counterFields.contains field = false := by
          have hnone : ∀ field ∈ counterFields, scopeField field = none := by decide
          rw [Bool.eq_false_iff, ne_eq, contains_iff_mem]
          intro hmem
          rw [hnone field hmem] at hscope
          cases hscope
        rw [addScopeTerm_clauses h, hbelow, mixesScopes, hother]
        simp
      next => nofun
      next hscope hfield =>
        intro h
        obtain ⟨⟨clause, left⟩, hclause, rfl⟩ := map_eq_some_iff.1 h
        have hcolumns := onCounters_compile (compiled_of_compile hclause) hwhole
        rw [scopeTerm, hscope] at hcolumns
        rw [all_append, hbelow, all_cons, all_nil, hcolumns, mixesScopes,
          contains_iff_mem.2 (not_not.1 hfield)]
        simp [Bool.and_assoc]

theorem addFilters_onCounters : ∀ (filters : List IssueFilter) {found found' : CounterScope},
      addFilters db found filters = some found' → found'.clauses.all Clause.onCounters =
          (found.clauses.all Clause.onCounters && !mixesScopesIn filters)
  | [] => by
      intro h
      cases h
      simp [mixesScopesIn]
  | child :: rest => by
      intro h
      obtain ⟨found₁, hfound₁, h⟩ := bind_eq_some_iff.1 h
      rw [addFilters_onCounters rest h, addFilter_onCounters child hfound₁, mixesScopesIn,
        Bool.not_or, Bool.and_assoc]

end

end Flow.Ports.IssueQuery
