import Flow.Ports.IssueGroupCountersScope

/-!
# Counters and rows give the same groups

When `issue_scope_counts` is exact, the groups that are read from it are those of the
rows, under the conditions of `counterAnswer_eq_iff`: the counters are read without the
id list of a query, and lack the column of a team, project or assignee term below a
status, status type or priority term.
-/

namespace Flow.Ports.IssueQuery

open List Option Flow.Verified
open Flow.Ports.IssueStats (Scope StatsKey Dimensions)

variable {db : Db} {query : Query} {row : Row}

/-! ## Counts -/

theorem all_congr_mem {α : Type} {p q : α → Bool} {l : List α} (h : ∀ x ∈ l, p x = q x) :
    l.all p = l.all q := by
  induction l with
  | nil => rfl
  | cons x rest ih =>
    rw [all_cons, all_cons, h x mem_cons_self,
      ih fun y hy => h y (mem_cons_of_mem x hy)]

variable {counters : Counters}

theorem Counters.Exact.total (h : counters.Exact db.records) (k : StatsKey) :
    Tally.total counters k =
      (db.records.countP fun row => row.dimensions.key k.scope = k : Int) := by
  by_cases hmem : k ∈ counters.map Prod.fst
  · obtain ⟨entry, hentry, rfl⟩ := mem_map.1 hmem
    rw [Tally.total_of_mem h.nodup hentry, h.entries entry hentry]
  · rw [Tally.total_of_not_mem hmem, h.complete k hmem]
    rfl

def selectRows (db : Db) (archived : String) (clauses : List Clause) (scope : Scope)
    (ids : List String) (row : Row) : Bool :=
  ids.contains (row.dimensions.scopeId scope) && archivedMatches archived row &&
    clauses.all fun clause => clause.test db false row

def rowCell (groupBy : String) (row : Row) : Cell :=
  counterCell groupBy (row.dimensions.key .workspace)

theorem archivedCounter_key (archived : String) (row : Row) (scope : Scope) :
    archivedCounter archived (row.dimensions.key scope) = archivedMatches archived row := by
  have hkey : (row.dimensions.key scope).archived = if row.archived then 1 else 0 := rfl
  unfold archivedCounter archivedMatches
  rw [hkey]
  by_cases harchived : archived = "true" <;> by_cases hrow : row.archived = true <;>
    simp [hrow]

variable {archived groupBy : String} {clauses : List Clause} {found : CounterScope}
  {condition : Row → Bool}

/-- **The counters count the rows.** -/
theorem sumIn_selectCounters (h : counters.Exact db.records)
    (hclauses : clauses.all Clause.onCounters) (scope : Scope) (ids : List String)
    (groupBy : String) (k : Cell) :
    sumIn groupBy (selectCounters db counters archived clauses scope ids) k =
      (db.records.countP fun row =>
        selectRows db archived clauses scope ids row && rowCell groupBy row = k : Int) := by
  have htotal : ∀ key : StatsKey,
      (key.scope = scope && ids.contains key.id && archivedCounter archived key &&
        (clauses.all fun clause => clause.test db false (counterRow key)) &&
        decide (counterCell groupBy key = k)) = true →
      Tally.total counters key =
        (db.records.countP fun row => row.dimensions.key scope = key : Int) := by
    intro key hkey
    simp only [Bool.and_eq_true, decide_eq_true_eq] at hkey
    rw [h.total, hkey.1.1.1.1]
  have hsum := Tally.sum_filter_eq_countP h.nodup htotal
  have hentries : (selectCounters db counters archived clauses scope ids).filter
        (fun entry => decide (counterCell groupBy entry.1 = k)) =
      counters.filter fun entry =>
        (decide (entry.1.scope = scope) && ids.contains entry.1.id &&
          archivedCounter archived entry.1 &&
          (clauses.all fun clause => clause.test db false (counterRow entry.1)) &&
          decide (counterCell groupBy entry.1 = k)) && decide (0 < entry.2) := by
    rw [selectCounters, List.filter_filter]
    apply List.filter_congr
    intro entry _
    ac_rfl
  rw [sumIn, hentries, hsum]
  congr 1
  apply countP_congr
  intro row _
  have htests : (clauses.all fun clause =>
      clause.test db false (counterRow (row.dimensions.key scope))) =
      clauses.all fun clause => clause.test db false row := by
    exact all_congr_mem fun clause hclause =>
      test_counterRow (all_eq_true.1 hclauses clause hclause) scope false
  rw [archivedCounter_key, htests]
  simp only [Dimensions.key]
  exact Iff.rfl

/-! ## Groups of rows -/

def rowCount (db : Db) (groupBy : String) (p : Row → Bool) (k : Cell) : Int :=
  (db.records.countP fun row => p row && rowCell groupBy row = k : Nat)

def selectedGroups (db : Db) (query : Query) (p : Row → Bool) : List (Cell × Int) :=
  query.orderedGroups (db.records.map (rowCell query.groupBy)) (rowCount db query.groupBy p)

theorem rowCount_nonneg (groupBy : String) (p : Row → Bool) (k : Cell) :
    0 ≤ rowCount db groupBy p k := Int.natCast_nonneg _

variable {p : Row → Bool}

theorem mem_of_rowCount_pos {k : Cell} (h : 0 < rowCount db groupBy p k) :
    k ∈ db.records.map (rowCell groupBy) := by
  obtain ⟨row, hrow, hp⟩ := countP_pos_iff.1 (Int.natCast_pos.1 h)
  simp only [Bool.and_eq_true, decide_eq_true_eq] at hp
  exact mem_map.2 ⟨row, hrow, hp.2⟩

variable {q : Row → Bool}

theorem rowCount_congr (h : ∀ row ∈ db.records, p row = q row) (k : Cell) :
    rowCount db groupBy p k = rowCount db groupBy q k := by
  apply congrArg Int.ofNat
  apply countP_congr
  intro row hrow
  rw [h row hrow]

theorem selectedGroups_congr (h : ∀ row ∈ db.records, p row = q row) :
    selectedGroups db query p = selectedGroups db query q :=
  Query.orderedGroups_congr (rowCount_congr h) fun _ _ => Iff.rfl

theorem rowCount_split (groupBy : String) (p q : Row → Bool) (k : Cell) : rowCount db groupBy p k =
      rowCount db groupBy (fun row => p row && q row) k +
        rowCount db groupBy (fun row => p row && !q row) k := by
  unfold rowCount
  rw [Tally.countP_eq_sum, Tally.countP_eq_sum, Tally.countP_eq_sum, ← sum_map_add]
  congr 2
  funext row
  cases hp : p row <;> cases hq : q row <;> simp [hp, hq]

theorem orderedGroups_eq_groups (hgrouping : counterGrouping query) (keys : List Cell)
    (count : Cell → Int) : query.orderedGroups keys count = Grouping.groups keys count := by
  simp only [counterGrouping, contains_iff_mem, mem_cons, not_mem_nil,
    or_false] at hgrouping
  unfold Query.orderedGroups
  rcases hgrouping with h | h | h <;> rw [h] <;> rfl

theorem selectedGroups_eq_iff (hgrouping : counterGrouping query) :
    selectedGroups db query p = selectedGroups db query q ↔
      ∀ k, rowCount db query.groupBy p k = rowCount db query.groupBy q k := by
  unfold selectedGroups
  rw [orderedGroups_eq_groups hgrouping, orderedGroups_eq_groups hgrouping]
  exact Grouping.groups_eq_iff (fun _ h => mem_of_rowCount_pos h) (fun _ h => mem_of_rowCount_pos h)
    (rowCount_nonneg _ _) (rowCount_nonneg _ _)

/-- A further condition changes no group exactly when every row meets it. -/
theorem selectedGroups_and_eq_iff (hgrouping : counterGrouping query) :
    selectedGroups db query p = selectedGroups db query (fun row => p row && q row) ↔
      ∀ row ∈ db.records, p row → q row := by
  rw [selectedGroups_eq_iff hgrouping]
  constructor
  · intro h row hrow hp
    have hcount := h (rowCell query.groupBy row)
    rw [rowCount_split query.groupBy p q] at hcount
    rw [← Bool.not_eq_false]
    intro hq
    have hpos : 0 < rowCount db query.groupBy (fun row => p row && !q row)
        (rowCell query.groupBy row) :=
      Int.natCast_pos.2 (countP_pos_iff.2 ⟨row, hrow, by simp [hp, hq]⟩)
    omega
  · intro h k
    apply rowCount_congr
    intro row hrow
    cases hp : p row with
    | false => rfl
    | true => rw [h row hrow hp, Bool.true_and]

theorem mem_of_sumIn_pos {entries : Counters} {k : Cell} (h : 0 < sumIn groupBy entries k) :
    k ∈ entries.map fun entry => counterCell groupBy entry.1 := by
  by_contra hnot
  have hempty : entries.filter (fun entry => decide (counterCell groupBy entry.1 = k)) = [] := by
    rw [filter_eq_nil_iff]
    intro entry hentry hcell
    exact hnot (mem_map.2 ⟨entry, hentry, of_decide_eq_true hcell⟩)
  rw [sumIn, hempty] at h
  exact absurd h (by decide)

/-- Groups that count what a selection has, at every key where they count, are its groups. -/
theorem orderedGroups_eq_selectedGroups {keys : List Cell} {count : Cell → Int}
    (hcount : ∀ k, count k = rowCount db query.groupBy p k) (hkeys : ∀ k, 0 < count k → k ∈ keys) :
    query.orderedGroups keys count = selectedGroups db query p :=
  Query.orderedGroups_congr hcount fun k hpos =>
    ⟨fun _ => mem_of_rowCount_pos (hcount k ▸ hpos), fun _ => hkeys k hpos⟩

theorem counterGroups_eq (h : counters.Exact db.records)
    (hclauses : clauses.all Clause.onCounters) (scope : Scope) (ids : List String) :
    counterGroups query (selectCounters db counters archived clauses scope ids) =
      selectedGroups db query (selectRows db archived clauses scope ids) :=
  orderedGroups_eq_selectedGroups (sumIn_selectCounters h hclauses scope ids query.groupBy)
    fun _ => mem_of_sumIn_pos

def scopeRows (db : Db) (query : Query) (found : CounterScope) (row : Row) : Bool :=
  inLiveTeam query row && archivedMatches query.archived row && found.holds db false row

theorem inLiveTeam_eq (query : Query) (row : Row) :
    inLiveTeam query row = !(hiddenTeams query).contains row.team := by
  unfold inLiveTeam hiddenTeams
  cases query.access <;> rfl

theorem total_selectedGroups (hgrouping : counterGrouping query) (p : Row → Bool) (k : Cell) :
    Tally.total (selectedGroups db query p) k = rowCount db query.groupBy p k := by
  rw [selectedGroups, orderedGroups_eq_groups hgrouping]
  apply Grouping.total_groups
  · exact fun _ hpos => mem_of_rowCount_pos hpos
  · exact rowCount_nonneg _ _

theorem addMoves_filterMap {count moves total : Cell → Int}
    (htotal : ∀ k, count k + moves k = total k) (hpos : ∀ k, 0 < total k → 0 < count k)
    (ks : List Cell) :
    addMoves (ks.filterMap fun k => if 0 < count k then some (k, count k) else none) moves =
      ks.filterMap fun k => if 0 < total k then some (k, total k) else none := by
  unfold addMoves
  rw [filterMap_filterMap]
  congr 1
  funext k
  by_cases hcount : 0 < count k
  · simp [hcount, htotal]
  · have hk : ¬0 < total k := fun hk => hcount (hpos k hk)
    simp [hcount, hk]

theorem addMoves_orderedGroups {count moves total : Cell → Int}
    (htotal : ∀ k, count k + moves k = total k) (hpos : ∀ k, 0 < total k → 0 < count k)
    (ks : List Cell) :
    addMoves (query.orderedGroups ks count) moves = query.orderedGroups ks total := by
  unfold Query.orderedGroups
  simp only [Grouping.groups_eq_filterMap]
  split
  · exact addMoves_filterMap htotal hpos _
  split
  · rw [← addMoves_filterMap htotal hpos, ← addMoves_filterMap htotal hpos]
    exact filterMap_append
  · exact addMoves_filterMap htotal hpos _

/-- Subtracting the groups of some rows leaves the groups of the others. -/
theorem addMoves_selectedGroups (hgrouping : counterGrouping query) :
    addMoves (selectedGroups db query p)
        (fun k => -Tally.total (selectedGroups db query fun row => p row && !q row) k) =
      selectedGroups db query fun row => p row && q row := by
  apply addMoves_orderedGroups
  · intro k
    rw [total_selectedGroups hgrouping, rowCount_split query.groupBy p q]
    omega
  · intro k hpos
    have hrest : 0 ≤ rowCount db query.groupBy (fun row => p row && !q row) k :=
      rowCount_nonneg _ _ _
    rw [rowCount_split query.groupBy p q]
    omega

theorem selectRows_eq (archived : String) (row : Row) :
    selectRows db archived found.clauses found.scope found.ids row =
      (archivedMatches archived row && found.holds db false row) := by
  unfold selectRows CounterScope.holds
  ac_rfl

/-- **The groups of a scope are those of its rows.** -/
theorem scopeGroups_eq (h : counters.Exact db.records) (hgrouping : counterGrouping query)
    (hclauses : found.clauses.all Clause.onCounters) (hwhole : found.Whole)
    (hhidden : hiddenTeams query ≠ [] → found.scope = .team ∨ found.scope = .workspace) :
    scopeGroups db counters query found = selectedGroups db query (scopeRows db query found) := by
  have hnothing : hiddenTeams query = [] →
      counterGroups query (selectCounters db counters query.archived found.clauses found.scope
        found.ids) = selectedGroups db query (scopeRows db query found) := by
    intro hempty
    rw [counterGroups_eq h hclauses]
    apply selectedGroups_congr
    intro row _
    rw [selectRows_eq, scopeRows, inLiveTeam_eq, hempty]
    simp
  unfold scopeGroups
  cases hscope : found.scope with
  | team =>
    simp only [counterGroups_eq h hclauses]
    apply selectedGroups_congr
    intro row _
    have hids : (found.ids.filter fun id => !(hiddenTeams query).contains id).contains row.team =
        (found.ids.contains row.team && !(hiddenTeams query).contains row.team) := by
      simp
    simp only [selectRows, scopeRows, CounterScope.holds, hscope, inLiveTeam_eq,
      Dimensions.scopeId, Row.dimensions, hids]
    ac_rfl
  | workspace =>
    simp only
    split
    · rename_i hempty
      rw [← hscope]
      exact hnothing hempty
    · -- the team counters of the hidden teams count the rows to subtract
      have hteam : selectedGroups db query
            (selectRows db query.archived found.clauses .team (hiddenTeams query)) =
          selectedGroups db query fun row =>
            selectRows db query.archived found.clauses .workspace found.ids row &&
              !inLiveTeam query row := by
        apply selectedGroups_congr
        intro row _
        simp only [selectRows, hwhole hscope, inLiveTeam_eq, Bool.not_not]
        ac_rfl
      rw [counterGroups_eq h hclauses, counterGroups_eq h hclauses, hteam,
        addMoves_selectedGroups hgrouping]
      apply selectedGroups_congr
      intro row _
      rw [← hscope, selectRows_eq, scopeRows]
      ac_rfl
  | project | assignee =>
    rw [hscope] at hnothing hhidden
    exact hnothing (by_contra fun hne => absurd (hhidden hne) (by decide))

theorem rowAnswer_eq {base : Row → Bool} (hgrouping : counterGrouping query)
    (hbase : flatWhere db query = some base) :
    rowAnswer db query = .ok (selectedGroups db query base) := by
  have hkeys : query.groupKeys db = some fun row => [rowCell query.groupBy row] := by
    simp only [counterGrouping, contains_iff_mem, mem_cons, not_mem_nil,
      or_false] at hgrouping
    rcases hgrouping with h | h | h <;> unfold Query.groupKeys <;> rw [h] <;> rfl
  have hflat : flatIssueGroupsBySQL db query =
      some (query.rowGroups (db.records.filter base) fun row => [rowCell query.groupBy row]) := by
    simp [flatIssueGroupsBySQL, hbase, hkeys]
  rw [rowAnswer, hflat]
  refine congrArg Except.ok (orderedGroups_eq_selectedGroups (fun k => ?_) fun k hpos => ?_)
  · apply congrArg Int.ofNat
    rw [countP_filter]
    apply countP_congr
    intro row _
    simp only [contains_cons, contains_nil, Bool.or_false, Bool.and_eq_true,
      beq_iff_eq, decide_eq_true_eq]
    exact ⟨fun hrow => ⟨hrow.2, hrow.1.symm⟩, fun hrow => ⟨hrow.2.symm, hrow.1⟩⟩
  · obtain ⟨row, hrow, hin⟩ := countP_pos_iff.1 (Int.natCast_pos.1 hpos)
    exact mem_flatMap.2 ⟨row, hrow, contains_iff_mem.1 hin⟩

/-! ## The counters of a member -/

theorem onCounters_statusTerm {field operator : String} {values : List String} {term : Clause}
    (hfield : ["", "status", "state", "stateid", "statustype", "priority"].contains (lower field))
    (h : nodeTerm db field operator values = some term) : term.onCounters := by
  unfold nodeTerm at h
  split at h
  · cases h
    rfl
  rename_i hempty
  simp only [contains_iff_mem, mem_cons, not_mem_nil, or_false] at hfield
  apply onCounters_compileTerm _ h
  have hown : lower field ∈ plainNames → fieldAliases.lookup (lower field) = none →
      normalizeField field = lower field := by
    intro hname hlookup
    have hsame : normalizeField field = field := by rw [normalizeField, hlookup]; rfl
    rw [hsame] at h ⊢
    exact eq_lower_of_compileTerm hname h
  rcases hfield with hfield | hfield | hfield | hfield | hfield | hfield
  · rw [lower_eq_empty_iff] at hfield
    exact absurd (by rw [hfield]; decide) hempty
  · rw [hown (by rw [hfield]; decide) (by rw [hfield]; decide), hfield]
    decide
  · rw [normalizeField, hfield]
    show "status" ∈ counterFields
    decide
  · rw [normalizeField, hfield]
    show "status" ∈ counterFields
    decide
  · rw [normalizeField, hfield]
    show "statusType" ∈ counterFields
    decide
  · rw [hown (by rw [hfield]; decide) (by rw [hfield]; decide), hfield]
    decide

mutual

theorem onCounters_statusFilter : ∀ {filter : IssueFilter} {clause : Clause},
    Compiled db filter clause → onStatusAndPriority filter → clause.onCounters
  | _, _, .node hall hany hnot hterm => by
      intro h
      simp only [onStatusAndPriority, Bool.and_eq_true, List.isEmpty_iff,
        Option.isNone_iff_eq_none] at h
      obtain ⟨⟨⟨rfl, rfl⟩, hchildren⟩, hfield⟩ := h
      cases hany
      cases hnot
      simp [onCounters_statusFilterAll hall hchildren, onCounters_statusTerm hfield hterm,
        Clause.onCounters]

theorem onCounters_statusFilterAll : ∀ {filters : List IssueFilter} {clauses : List Clause},
    CompiledAll db filters clauses → onStatusAndPriorityAll filters → clauses.all Clause.onCounters
  | _, _, .nil => fun _ => rfl
  | _, _, .cons hchild hrest => by
      intro h
      simp only [onStatusAndPriorityAll, Bool.and_eq_true] at h
      rw [all_cons, onCounters_statusFilter hchild h.1, onCounters_statusFilterAll hrest h.2]
      rfl

end

theorem where_eq_of_not_restricted (hother : otherRestriction query = false)
    (h : issueRecordWhere db query.withoutGroupValue = some condition) :
    ∃ filter left, compileIssueFilter db 0 100 query.filter = some (filter, left) ∧
      ∀ row, condition row =
        (accessible db query row && inLiveTeam query row && archivedMatches query.archived row &&
          listed query.teamIDs false row.team && listed query.projectIDs false row.project &&
          listed query.issueIDs false row.id &&
          filter.test db (db.hasSubIssues (visible db query) row) row) := by
  obtain ⟨filter, left, hfilter, hrows⟩ := issueRecordWhere_eq_some h
  refine ⟨filter, left, hfilter, fun row => ?_⟩
  simp only [otherRestriction, Bool.or_eq_false_iff, decide_eq_false_iff_not, not_not,
    isSome_eq_false_iff, isNone_iff_eq_none] at hother
  obtain ⟨⟨⟨⟨htext, hstates⟩, hallowed⟩, hrestrict⟩, -⟩ := hother
  have hteams : inAllowedTeam query row = true := by rw [inAllowedTeam, hallowed]
  have hstate : listed query.stateIDs false row.state = true := by simp [listed, hstates]
  rw [hrows, meetsQuery, visible, hteams, hstate, hrestrict, htext]
  simp

section Member

variable {access : Access} {base : Row → Bool} {condition : Clause} {left : Int}

theorem member_where (haccess : query.access = some access) (hadmin : access.admin = false)
    (hother : otherRestriction query = false) (hissues : query.issueIDs = [])
    (hprojects : query.projectIDs = [])
    (hbase : issueRecordWhere db query.withoutGroupValue = some base)
    (hcondition : compileIssueFilter db 0 100 query.filter = some (condition, left))
    (honCounters : condition.onCounters) (row : Row) :
    base row = ((access.visibleTeamIDs.contains row.team ||
          (db.sharedIssues query.workspace access).contains row.id) &&
        !access.archivedTeamIDs.contains row.team && archivedMatches query.archived row &&
        listed query.teamIDs false row.team && condition.test db false row) := by
  obtain ⟨filter, left', hfilter, hrows⟩ := where_eq_of_not_restricted hother hbase
  rw [hcondition] at hfilter
  cases hfilter
  have hproject : listed query.projectIDs false row.project = true := by simp [listed, hprojects]
  have hissue : listed query.issueIDs false row.id = true := by simp [listed, hissues]
  have haccessible : accessible db query row = (access.visibleTeamIDs.contains row.team ||
      (db.sharedIssues query.workspace access).contains row.id) := by
    simp [accessible, haccess, hadmin]
  have hlive : inLiveTeam query row = !access.archivedTeamIDs.contains row.team := by
    simp [inLiveTeam, haccess]
  rw [hrows, hproject, hissue, haccessible, hlive, test_of_onCounters honCounters,
    Bool.and_true, Bool.and_true]

theorem selectRows_countedTeams (row : Row) :
    selectRows db query.archived [condition] .team (countedTeams query access) row =
      (access.visibleTeamIDs.contains row.team && !access.archivedTeamIDs.contains row.team &&
        archivedMatches query.archived row && listed query.teamIDs false row.team &&
        condition.test db false row) := by
  have hteams : (countedTeams query access).contains row.team =
      (access.visibleTeamIDs.contains row.team && !access.archivedTeamIDs.contains row.team &&
        listed query.teamIDs false row.team) := by
    rw [Bool.eq_iff_iff]
    by_cases hempty : query.teamIDs = [] <;>
      simp [countedTeams, listed, and_assoc]
  rw [selectRows, show row.dimensions.scopeId .team = row.team from rfl, hteams, all_cons,
    all_nil, Bool.and_true]
  ac_rfl

/-- **The groups of a member are those of the rows**: of visible teams, from the
counters, and of other teams. -/
theorem memberGroups_eq (h : counters.Exact db.records) (haccess : query.access = some access)
    (hadmin : access.admin = false) (hother : otherRestriction query = false)
    (hissues : query.issueIDs = []) (hprojects : query.projectIDs = [])
    (hbase : issueRecordWhere db query.withoutGroupValue = some base)
    (hcondition : compileIssueFilter db 0 100 query.filter = some (condition, left))
    (honCounters : condition.onCounters) :
    memberGroups db counters query access base condition = selectedGroups db query base := by
  have hrow := member_where haccess hadmin hother hissues hprojects hbase hcondition honCounters
  have hshared : (db.records.filter fun row => base row &&
        !access.visibleTeamIDs.contains row.team &&
        (db.sharedIssues query.workspace access).contains row.id) =
      db.records.filter fun row => base row && !access.visibleTeamIDs.contains row.team := by
    apply filter_congr
    intro row _
    rw [hrow]
    cases access.visibleTeamIDs.contains row.team <;>
      cases (db.sharedIssues query.workspace access).contains row.id <;> simp
  unfold memberGroups
  simp only [hshared]
  refine orderedGroups_eq_selectedGroups (fun k => ?_) fun k hpos => ?_
  · rw [sumIn_selectCounters h (by simp [honCounters]),
      rowCount_split query.groupBy base fun row => access.visibleTeamIDs.contains row.team]
    congr 1
    · apply rowCount_congr
      intro row _
      rw [selectRows_countedTeams, hrow]
      cases access.visibleTeamIDs.contains row.team <;> simp
    · rw [countP_filter]
      apply congrArg Int.ofNat
      apply countP_congr
      intro row _
      rw [Bool.and_comm]
      rfl
  · have hcases : ∀ a b : Int, 0 < a + b → 0 < a ∨ 0 < b := by omega
    refine mem_append.2 ((hcases _ _ hpos).imp mem_of_sumIn_pos fun hleft => ?_)
    obtain ⟨row, hmem, hcell⟩ := countP_pos_iff.1 (Int.natCast_pos.1 hleft)
    exact mem_map.2 ⟨row, hmem, of_decide_eq_true hcell⟩

end Member

/-! ## Counters and rows -/

def Query.withoutIssueIDs (query : Query) : Query := { query with issueIDs := [] }

def IssueIDsLeaveOutNone (db : Db) (query : Query) : Prop :=
  ∀ base, flatWhere db query.withoutIssueIDs = some base →
    ∀ row ∈ db.records, base row = true → listed query.issueIDs false row.id = true

/-- When the counters answer a query as the rows do. -/
def CountersSuffice (db : Db) (query : Query) : Prop :=
  (query.nested && query.searchText ≠ "") = false →
    (counterScope db query.withoutGroupValue).isSome = true →
      (issueRecordWhere db query.withoutGroupValue).isSome = true ∧
        mixesScopes query.filter = false ∧ IssueIDsLeaveOutNone db query

/-- What `counterScope` has checked. -/
structure Served (db : Db) (query : Query) (found : CounterScope) : Prop where
  admin : query.access.all Access.admin = true
  other : otherRestriction query = false
  grouping : counterGrouping query = true
  single : query.teamIDs = [] ∨ query.projectIDs = []
  scope : addFilter db (initialScope query) query.filter = some found
  hidden : hiddenTeams query ≠ [] → found.scope = .team ∨ found.scope = .workspace

theorem served_of_counterScope (h : counterScope db query = some found) :
    Served db query found := by
  revert h
  fun_cases counterScope db query
  all_goals rintro ⟨⟩
  rename_i hopen hgrouping hsingle hscope hhidden
  simp only [Bool.or_eq_true, not_or, Bool.not_eq_true] at hopen
  refine ⟨?_, hopen.2, by simpa using hgrouping, ?_, hscope, ?_⟩
  · cases haccess : query.access with
    | none => rfl
    | some access => simpa [haccess] using hopen.1
  · by_cases hteams : query.teamIDs = []
    · exact .inl hteams
    · exact .inr (by_contra fun hprojects => hsingle ⟨hteams, hprojects⟩)
  · intro hne
    by_contra hscope'
    rw [not_or] at hscope'
    exact hhidden ⟨hne, hscope'.1, hscope'.2⟩

theorem initialScope_whole (query : Query) : (initialScope query).Whole := by
  fun_cases initialScope query
  · nofun
  · nofun
  · exact fun _ => rfl

theorem initialScope_holds (hsingle : query.teamIDs = [] ∨ query.projectIDs = []) (sub : Bool)
    (row : Row) :
    (initialScope query).holds db sub row =
      (listed query.teamIDs false row.team && listed query.projectIDs false row.project) := by
  unfold initialScope
  by_cases hteams : query.teamIDs = []
  · by_cases hprojects : query.projectIDs = []
    · simp [hteams, hprojects, CounterScope.holds, listed, Dimensions.scopeId]
    · simp [hteams, hprojects, CounterScope.holds, listed, Dimensions.scopeId, Row.dimensions]
  · have hprojects : query.projectIDs = [] := hsingle.resolve_left hteams
    simp [hteams, hprojects, CounterScope.holds, listed, Dimensions.scopeId, Row.dimensions]

theorem Served.onCounters_eq (h : Served db query found) :
    found.clauses.all Clause.onCounters = !mixesScopes query.filter := by
  rw [addFilter_onCounters query.filter h.scope]
  have hnone : (initialScope query).clauses = [] := by
    fun_cases initialScope query <;> rfl
  rw [hnone, all_nil, Bool.true_and]

theorem Served.where_eq (h : Served db query found) (hmixes : mixesScopes query.filter = false)
    (hwhere : issueRecordWhere db query.withoutGroupValue = some condition) (row : Row) :
    condition row = (scopeRows db query found row && listed query.issueIDs false row.id) := by
  obtain ⟨filter, left, hfilter, hrows⟩ := where_eq_of_not_restricted h.other hwhere
  obtain ⟨-, hholds⟩ :=
    addFilter_holds (compiled_of_compile hfilter) (initialScope_whole query) h.scope
  have haccess : accessible db query row = true := by
    unfold accessible
    have hadmin := h.admin
    cases haccess : query.access with
    | none => rfl
    | some access =>
      rw [haccess] at hadmin
      simp [show access.admin = true from hadmin]
  have hclauses : found.clauses.all Clause.onCounters = true := by
    rw [h.onCounters_eq, hmixes]
    rfl
  have hsub : found.holds db (db.hasSubIssues (visible db query) row) row =
      found.holds db false row := by
    unfold CounterScope.holds
    congr 1
    exact all_congr_mem fun clause hclause =>
      test_of_onCounters (all_eq_true.1 hclauses clause hclause) _
  rw [hrows, haccess, scopeRows, ← hsub, hholds, initialScope_holds h.single]
  ac_rfl

theorem flatWhere_of_not_search (h : (query.nested && decide (query.searchText ≠ "")) = false) :
    flatWhere db query = issueRecordWhere db query.withoutGroupValue := by
  unfold flatWhere
  rw [if_neg (by simpa using h)]

/-- The rows that meet a query without its id list. -/
theorem Served.issueIDs_iff (h : Served db query found)
    (hsearch : (query.nested && decide (query.searchText ≠ "")) = false)
    (hmixes : mixesScopes query.filter = false)
    (hwhere : issueRecordWhere db query.withoutGroupValue = some condition) :
    IssueIDsLeaveOutNone db query ↔ ∀ row ∈ db.records, scopeRows db query found row →
        listed query.issueIDs false row.id := by
  have hsome : (issueRecordWhere db query.withoutIssueIDs.withoutGroupValue).isSome = true := by
    have hsome : (issueRecordWhere db query.withoutGroupValue).isSome = true := by rw [hwhere]; rfl
    rw [issueRecordWhere_isSome] at hsome ⊢
    exact hsome
  obtain ⟨base, hbase⟩ := isSome_iff_exists.1 hsome
  have hserved : Served db query.withoutIssueIDs found :=
    ⟨h.admin, h.other, h.grouping, h.single, h.scope, h.hidden⟩
  have hrows : ∀ row, base row = scopeRows db query found row := by
    intro row
    rw [hserved.where_eq hmixes hbase row]
    exact Bool.and_true _
  have hflat : flatWhere db query.withoutIssueIDs = _ := flatWhere_of_not_search hsearch
  rw [hbase] at hflat
  constructor
  · intro hnone row hrow hscope
    exact hnone base hflat row hrow (by rw [hrows, hscope])
  · intro hnone base' hbase' row hrow hmeets
    rw [hflat] at hbase'
    cases hbase'
    exact hnone row hrow (by rw [← hrows, hmeets])

/-- The answer of `issueGroupsFromStats`. -/
theorem statsAnswer_eq_iff (h : counters.Exact db.records)
    (hscope : counterScope db query = some found)
    (hsearch : (query.nested && decide (query.searchText ≠ "")) = false) :
    (if found.clauses.all Clause.onCounters then .ok (scopeGroups db counters query found)
        else .error .noColumn) = rowAnswer db query ↔
      (issueRecordWhere db query.withoutGroupValue).isSome ∧
        mixesScopes query.filter = false ∧ IssueIDsLeaveOutNone db query := by
  have hserved := served_of_counterScope hscope
  have hflat : flatWhere db query = _ := flatWhere_of_not_search hsearch
  cases hwhere : issueRecordWhere db query.withoutGroupValue with
  | none =>
    have hrefused : rowAnswer db query = .error .refused := by
      rw [rowAnswer, flatIssueGroupsBySQL, hflat, hwhere]
      rfl
    rw [hrefused]
    split <;> simp
  | some condition =>
    rw [rowAnswer_eq hserved.grouping (hflat.trans hwhere), hserved.onCounters_eq]
    cases hmixes : mixesScopes query.filter with
    | true => simp
    | false =>
      obtain ⟨filter, left, hfilter, -⟩ := issueRecordWhere_eq_some hwhere
      have hwhole := (addFilter_holds (compiled_of_compile hfilter) (initialScope_whole query)
        hserved.scope).1
      have hclauses : found.clauses.all Clause.onCounters = true := by
        rw [hserved.onCounters_eq, hmixes]
        rfl
      rw [scopeGroups_eq h hserved.grouping hclauses hwhole hserved.hidden,
        selectedGroups_congr fun row _ => hserved.where_eq hmixes hwhere row,
        hserved.issueIDs_iff hsearch hmixes hwhere,
        ← selectedGroups_and_eq_iff hserved.grouping]
      simp

/-- **A member's answer is that of the rows.** -/
theorem memberAnswer_eq (h : counters.Exact db.records) {answer : Answer}
    (hsearch : (query.nested && decide (query.searchText ≠ "")) = false)
    (hanswer : memberIssueGroupsFromStats db counters query.withoutGroupValue = some answer) :
    answer = rowAnswer db query := by
  revert hanswer
  fun_cases memberIssueGroupsFromStats db counters query.withoutGroupValue
  case case1 | case2 | case3 => nofun
  rename_i access haccess hguards hkind
  intro hanswer
  simp only [bind_eq_bind, bind_eq_some_iff, Prod.exists, some.injEq] at hanswer
  obtain ⟨base, hbase, condition, left, hcondition, hanswer⟩ := hanswer
  simp only [Bool.or_eq_true, not_or, Bool.not_eq_true, decide_eq_true_eq, not_not,
    Bool.not_eq_true', Bool.not_eq_false] at hguards hkind
  obtain ⟨⟨⟨⟨hadmin, -⟩, hother⟩, hissues⟩, hprojects⟩ := hguards
  obtain ⟨hgrouping, hstatus⟩ := hkind
  have honCounters := onCounters_statusFilter (compiled_of_compile hcondition) hstatus
  have hflat : flatWhere db query = some base := (flatWhere_of_not_search hsearch).trans hbase
  rw [honCounters] at hanswer
  rw [← hanswer, rowAnswer_eq (show counterGrouping query = true from hgrouping) hflat]
  apply congrArg Except.ok
  exact memberGroups_eq h haccess hadmin hother hissues hprojects hbase hcondition honCounters

/-- **Counters and rows.** With exact counters, what is answered from them is what the rows
give, exactly when the query is accepted, no term mixes in a column the counters lack, and its
id list leaves out no row. -/
theorem counterAnswer_eq_iff (db : Db) (counters : Counters) (query : Query)
    (h : counters.Exact db.records) :
    (∀ answer, counterAnswer db counters query = some answer → answer = rowAnswer db query) ↔
      CountersSuffice db query := by
  unfold counterAnswer CountersSuffice
  cases hsearch : query.nested && decide (query.searchText ≠ "") with
  | true => simp
  | false =>
    simp only [Bool.false_eq_true, if_false, true_implies]
    unfold issueGroupsFromStats
    cases hscope : counterScope db query.withoutGroupValue with
    | none =>
      simp only [isSome_none, Bool.false_eq_true, false_implies, iff_true]
      intro answer hanswer
      exact memberAnswer_eq h hsearch hanswer
    | some found =>
      simp only [map_some, some.injEq, forall_eq', isSome_some,
        true_implies]
      exact statsAnswer_eq_iff h hscope hsearch

def twoIssues : Db := issuesOnly [plainRow "a" "" "ENG" "todo", plainRow "b" "" "ENG" "todo"]

def twoCounters : Counters :=
  [(⟨.workspace, "", "todo", "started", 0, 0⟩, 2), (⟨.team, "ENG", "todo", "started", 0, 0⟩, 2),
    (⟨.project, "", "todo", "started", 0, 0⟩, 2), (⟨.assignee, "", "todo", "started", 0, 0⟩, 2)]

theorem twoCounters_exact : twoCounters.Exact twoIssues.records := by
  refine ⟨by decide, by decide, ?_⟩
  intro k hk
  rw [countP_eq_zero]
  intro row hrow hkey
  have hcovered : ∀ row ∈ twoIssues.records,
      ∀ scope ∈ [Scope.workspace, .team, .project, .assignee],
      row.dimensions.key scope ∈ twoCounters.map Prod.fst := by decide
  refine hk (of_decide_eq_true hkey ▸ hcovered row hrow k.scope ?_)
  cases k.scope <;> decide

/-- The counters answer for all issues by status. -/
theorem counterAnswer_eq_byStatus :
    counterAnswer twoIssues twoCounters byStatus = some (.ok [(.text "todo", 2)]) ∧
      ∀ answer, counterAnswer twoIssues twoCounters byStatus = some answer →
        answer = rowAnswer twoIssues byStatus := by
  refine ⟨by decide, (counterAnswer_eq_iff twoIssues twoCounters byStatus twoCounters_exact).2 ?_⟩
  intro _ _
  exact ⟨by decide, by decide, fun _ _ _ _ _ => rfl⟩

def onlyIssueA : Query := { byStatus with issueIDs := ["a"] }

def statusOverTeam : Query :=
  { byStatus with filter := .node [.leaf "team" "" ["ENG"]] [] none "status" "" ["todo"] }

/-- The counters are read without the id list of a query, and a status term above
a team term names a column they do not have. -/
theorem counterAnswer_ne_rows :
    twoCounters.Exact twoIssues.records ∧
      counterAnswer twoIssues twoCounters onlyIssueA = some (.ok [(.text "todo", 2)]) ∧
      rowAnswer twoIssues onlyIssueA = .ok [(.text "todo", 1)] ∧
      counterAnswer twoIssues twoCounters statusOverTeam = some (.error .noColumn) ∧
      rowAnswer twoIssues statusOverTeam = .ok [(.text "todo", 2)] :=
  ⟨twoCounters_exact, by decide, by decide, by decide, by decide⟩

end Flow.Ports.IssueQuery
