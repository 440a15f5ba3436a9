import Mathlib.Data.Fintype.EquivFin
import Flow.Ports.IssueGroups

/-!
# The cache scope of an issue query

Pages of issues and counts of groups are cached under a key that `issueQueryScope` gives:
the query without its access, and of the access the user, the administrator role and the
visible teams.  A query without an access restriction has the scope of one of nobody, and
empty values are left out of the key.

The condition of a query reads more of the access: the archived teams, and the id of the
workspace for issues that are shared with it.  `selected_eq_iff` says for which two
accesses that leaves a difference.
-/

namespace Flow.Ports.IssueQuery

open List Option

def Query.withoutAccess (query : Query) : Query := { query with access := none }

def accessUser (access : Option Access) : String := (access.map Access.userID).getD ""

def accessAdmin (access : Option Access) : Bool := (access.map Access.admin).getD false

/-- `accessTeams`; no list and an empty one are both left out of the key. -/
def accessTeams (access : Option Access) : List String :=
  (access.map Access.visibleTeamIDs).getD []

/-- What is encoded in a cache key. -/
structure Scope where
  query : Query
  user : String
  admin : Bool
  teams : List String
  gen : Int
  revision : Int

def issueQueryScope (query : Query) (gen revision : Int) : Scope :=
  ⟨query.withoutAccess, accessUser query.access, accessAdmin query.access,
    accessTeams query.access, gen, revision⟩

def selected (db : Db) (query : Query) : Option (List Row) :=
  (issueRecordWhere db query).map fun condition => db.records.filter condition

/-! ## Accesses of one scope -/

/-- What the key has of two accesses is the same. -/
def SameKey (a₁ a₂ : Option Access) : Prop :=
  accessUser a₁ = accessUser a₂ ∧ accessAdmin a₁ = accessAdmin a₂ ∧
    accessTeams a₁ = accessTeams a₂

/-- Both accesses restrict or neither does.  Two that restrict hide the same archived
teams, and a viewer who is no administrator is of the same workspace, unless every query
of the viewer is refused. -/
def SameView : Option Access → Option Access → Prop
  | none, none => True
  | some x, some y =>
    x.admin = false ∧ x.userID = "" ∨
      (∀ team, team ∈ x.archivedTeamIDs ↔ team ∈ y.archivedTeamIDs) ∧
        (x.admin = true ∨ x.workspaceID = y.workspaceID)
  | _, _ => False

def Query.withAccess (query : Query) (access : Option Access) : Query := { query with access }

def anonymous (access : Option Access) : Bool :=
  access.any fun access => !access.admin && access.userID = ""

section Same

variable {db : Db} {query : Query} {a₁ a₂ : Option Access} {x y : Access}

theorem selected_of_anonymous (h : anonymous query.access) : selected db query = none := by
  have hwhere : issueRecordWhere db query = none := by
    unfold issueRecordWhere
    split
    · rfl
    · exact if_pos h
  rw [selected, hwhere]
  rfl

theorem selected_congr (hanonymous : anonymous a₁ = anonymous a₂)
    (hvisible : visible db (query.withAccess a₁) = visible db (query.withAccess a₂)) :
    selected db (query.withAccess a₁) = selected db (query.withAccess a₂) := by
  unfold anonymous at hanonymous
  unfold selected issueRecordWhere
  rw [hvisible]
  simp only [Query.withAccess, hanonymous]
  rfl

theorem accessible_congr (hkey : SameKey (some x) (some y))
    (hid : x.admin = true ∨ x.workspaceID = y.workspaceID) (row : Row) :
    accessible db (query.withAccess (some x)) row =
      accessible db (query.withAccess (some y)) row := by
  obtain ⟨huser, hadmin, hteams⟩ := hkey
  have huser : x.userID = y.userID := huser
  have hadmin : x.admin = y.admin := hadmin
  have hteams : x.visibleTeamIDs = y.visibleTeamIDs := hteams
  rcases hid with hid | hid
  · simp [accessible, Query.withAccess, hid, ← hadmin]
  · simp [accessible, Query.withAccess, Db.sharedIssues, Db.granted, huser, hadmin, hteams, hid]

theorem inLiveTeam_congr (h : ∀ team, team ∈ x.archivedTeamIDs ↔ team ∈ y.archivedTeamIDs)
    (row : Row) :
    inLiveTeam (query.withAccess (some x)) row = inLiveTeam (query.withAccess (some y)) row := by
  simp [inLiveTeam, Query.withAccess, h]

theorem selected_of_sameView (hkey : SameKey a₁ a₂) (hview : SameView a₁ a₂) (db : Db)
    (query : Query) : selected db (query.withAccess a₁) = selected db (query.withAccess a₂) := by
  cases a₁ with
  | none =>
    cases a₂ with
    | none => rfl
    | some y => cases hview
  | some x =>
    cases a₂ with
    | none => cases hview
    | some y =>
      have hanonymous : anonymous (some x) = anonymous (some y) := by
        have huser : x.userID = y.userID := hkey.1
        have hadmin : x.admin = y.admin := hkey.2.1
        simp [anonymous, huser, hadmin]
      rcases hview with ⟨hadmin, huser⟩ | ⟨hlive, hid⟩
      · have hrefused : anonymous (some x) = true := by simp [anonymous, hadmin, huser]
        have hx : selected db (query.withAccess (some x)) = none := selected_of_anonymous hrefused
        have hy : selected db (query.withAccess (some y)) = none :=
          selected_of_anonymous (hanonymous ▸ hrefused)
        rw [hx, hy]
      · refine selected_congr hanonymous (funext fun row => ?_)
        unfold visible
        rw [accessible_congr hkey hid, inLiveTeam_congr hlive]
        rfl

end Same

/-! ## Databases that tell two accesses apart -/

section Apart

variable {x y : Access} {workspace team subject : String} {subjectType : Subject}

/-- One issue of a team, shared with one subject. -/
def sharedWith (team : String) (subjectType : Subject) (subject : String) : Db :=
  { issuesOnly [plainRow "a" "" team "todo"] with permissions := [⟨"a", subjectType, subject⟩] }

def allIn (workspace : String) : Query := { byStatus with workspace }

/-- The issue is selected when it is visible: the query asks for nothing else. -/
theorem selected_sharedWith (hworkspace : workspace ≠ "") (hx : anonymous (some x) = false) :
    selected (sharedWith team subjectType subject) ((allIn workspace).withAccess (some x)) =
      some ([plainRow "a" "" team "todo"].filter
        (visible (sharedWith team subjectType subject)
          ((allIn workspace).withAccess (some x)))) := by
  unfold anonymous at hx
  unfold selected issueRecordWhere
  rw [if_neg (show ((allIn workspace).withAccess (some x)).workspace ≠ "" from hworkspace),
    if_neg (by simpa [Query.withAccess] using hx)]
  refine congrArg some (filter_congr fun row hrow => ?_)
  rw [mem_singleton.1 hrow]
  simp [Clause.test, Clause.all, archivedMatches, listed, allIn, Query.withAccess, byStatus,
    plainRow]

theorem sharedIssues_sharedWith : (sharedWith team subjectType subject).sharedIssues workspace x =
    (sharedWith team subjectType subject).granted workspace x := by
  have hgranted : (sharedWith team subjectType subject).granted workspace x = ["a"] ∨
      (sharedWith team subjectType subject).granted workspace x = [] := by
    unfold Db.granted sharedWith
    cases subjectType <;> simp only [filter_cons, filter_nil] <;> split <;> simp
  unfold Db.sharedIssues
  rcases hgranted with h | h <;> rw [h] <;> rfl

theorem visible_sharedWith_user :
    visible (sharedWith team .user x.userID) ((allIn workspace).withAccess (some x))
      (plainRow "a" "" team "todo") = !x.archivedTeamIDs.contains team := by
  have hshared :
      ((sharedWith team .user x.userID).sharedIssues workspace x).contains "a" = true := by
    rw [sharedIssues_sharedWith]
    simp [Db.granted, sharedWith]
  show ((_ || ((sharedWith team .user x.userID).sharedIssues workspace x).contains "a") && _ &&
    true) = _
  rw [hshared, Bool.or_true, Bool.true_and, Bool.and_true]
  rfl

/-- One who is no administrator sees an issue of another team when it is shared with
everybody, with the workspace or with the id in the access. -/
theorem visible_sharedWith_workspace (hadmin : x.admin = false) (hteam : team ∉ x.visibleTeamIDs)
    (hlive : team ∉ x.archivedTeamIDs) :
    visible (sharedWith team .workspace subject) ((allIn workspace).withAccess (some x))
      (plainRow "a" "" team "todo") = ["", x.workspaceID, workspace].contains subject := by
  have hshared : ((sharedWith team .workspace subject).sharedIssues workspace x).contains "a" =
      ["", x.workspaceID, workspace].contains subject := by
    rw [sharedIssues_sharedWith]
    unfold Db.granted sharedWith
    simp only [filter_cons, filter_nil]
    cases hsubject : ["", x.workspaceID, workspace].contains subject <;> simp
  show ((x.admin || x.visibleTeamIDs.contains team ||
      ((sharedWith team .workspace subject).sharedIssues workspace x).contains "a") &&
    !x.archivedTeamIDs.contains team && true) = _
  rw [hshared, hadmin]
  simp [hteam, hlive]

/-- An issue shared with the id of one viewer's workspace is hidden from a viewer of
another. -/
theorem selected_ne_of_workspaceID (hadmin : x.admin = false) (huser : x.userID ≠ "")
    (hkey : SameKey (some x) (some y)) (hid : x.workspaceID ≠ "")
    (hne : x.workspaceID ≠ y.workspaceID) :
    ∃ (query : Query) (db : Db),
      selected db (query.withAccess (some x)) ≠ selected db (query.withAccess (some y)) := by
  have hadmin' : y.admin = false := (show x.admin = y.admin from hkey.2.1) ▸ hadmin
  have huser' : y.userID ≠ "" := (show x.userID = y.userID from hkey.1) ▸ huser
  have hteams : x.visibleTeamIDs = y.visibleTeamIDs := hkey.2.2
  obtain ⟨team, hteam⟩ := Infinite.exists_notMem_finset
    (x.visibleTeamIDs ++ x.archivedTeamIDs ++ y.archivedTeamIDs).toFinset
  obtain ⟨workspace, hworkspace⟩ := Infinite.exists_notMem_finset {"", x.workspaceID}
  simp only [List.mem_toFinset, List.mem_append, not_or] at hteam
  simp only [Finset.mem_insert, Finset.mem_singleton, not_or] at hworkspace
  refine ⟨allIn workspace, sharedWith team .workspace x.workspaceID, fun h => ?_⟩
  rw [selected_sharedWith hworkspace.1 (by simp [anonymous, huser]),
    selected_sharedWith hworkspace.1 (by simp [anonymous, huser']), some.injEq] at h
  simp only [filter_cons, filter_nil,
    visible_sharedWith_workspace hadmin hteam.1.1 hteam.1.2,
    visible_sharedWith_workspace hadmin' (hteams ▸ hteam.1.1) hteam.2] at h
  have hseen : ["", x.workspaceID, workspace].contains x.workspaceID = true := by simp
  have hunseen : ["", y.workspaceID, workspace].contains x.workspaceID = false := by
    simp [hid, hne, Ne.symm hworkspace.2]
  rw [hseen, hunseen] at h
  cases h

/-- An issue of a team that one viewer has archived is hidden from that one. -/
theorem archived_of_selected (hx : anonymous (some x) = false) (hy : anonymous (some y) = false)
    (huser : x.userID = y.userID)
    (h : ∀ (query : Query) (db : Db),
      selected db (query.withAccess (some x)) = selected db (query.withAccess (some y)))
    (team : String) : team ∈ x.archivedTeamIDs ↔ team ∈ y.archivedTeamIDs := by
  have hrows := h (allIn "acme") (sharedWith team .user x.userID)
  have hyuser : visible (sharedWith team .user y.userID) ((allIn "acme").withAccess (some y))
      (plainRow "a" "" team "todo") = _ := visible_sharedWith_user
  rw [← huser] at hyuser
  rw [selected_sharedWith (by decide) hx, selected_sharedWith (by decide) hy, some.injEq] at hrows
  simp only [filter_cons, filter_nil, visible_sharedWith_user, hyuser] at hrows
  rw [← contains_iff_mem, ← contains_iff_mem]
  cases hxt : x.archivedTeamIDs.contains team <;> cases hyt : y.archivedTeamIDs.contains team <;>
    simp_all

end Apart

theorem sameView_of_selected {a₁ a₂ : Option Access} (hkey : SameKey a₁ a₂)
    (h : ∀ (query : Query) (db : Db),
      selected db (query.withAccess a₁) = selected db (query.withAccess a₂)) :
    SameView a₁ a₂ := by
  -- of two accesses of one key, one of them absent, the other is nobody's
  have hnobody : ∀ y, SameKey none (some y) →
      selected (issuesOnly []) (byStatus.withAccess none) ≠
        selected (issuesOnly []) (byStatus.withAccess (some y)) := by
    intro y hkey
    have huser : "" = y.userID := hkey.1
    have hadmin : false = y.admin := hkey.2.1
    have hnone : selected (issuesOnly []) (byStatus.withAccess (some y)) = none :=
      selected_of_anonymous (show anonymous (some y) = true by simp [anonymous, ← huser, ← hadmin])
    rw [hnone]
    decide
  cases a₁ with
  | none =>
    cases a₂ with
    | none => trivial
    | some y => exact hnobody y hkey (h _ _)
  | some x =>
    cases a₂ with
    | none => exact hnobody x ⟨hkey.1.symm, hkey.2.1.symm, hkey.2.2.symm⟩ (h _ _).symm
    | some y =>
      have huser : x.userID = y.userID := hkey.1
      have hadmin : x.admin = y.admin := hkey.2.1
      cases hx : anonymous (some x) with
      | true => exact .inl (by simpa [anonymous] using hx)
      | false =>
        have hy : anonymous (some y) = false := by
          simpa [anonymous, huser, hadmin] using hx
        refine .inr ⟨archived_of_selected hx hy huser h, ?_⟩
        by_contra hnot
        rw [not_or, Bool.not_eq_true] at hnot
        obtain ⟨hmember, hne⟩ := hnot
        have hnamed : x.userID ≠ "" := by simpa [anonymous, hmember] using hx
        by_cases hid : x.workspaceID = ""
        · obtain ⟨query, db, hrows⟩ := selected_ne_of_workspaceID (hadmin ▸ hmember)
            (huser ▸ hnamed) ⟨hkey.1.symm, hkey.2.1.symm, hkey.2.2.symm⟩
            (fun hempty => hne (hid.trans hempty.symm)) (Ne.symm hne)
          exact hrows (h query db).symm
        · obtain ⟨query, db, hrows⟩ := selected_ne_of_workspaceID hmember hnamed hkey hid hne
          exact hrows (h query db)

/-- **What the cache scope leaves out.**  Queries of one scope with two accesses are both
refused or select the same rows of every database, exactly when accesses with one key
see alike. -/
theorem selected_eq_iff (a₁ a₂ : Option Access) :
    (∀ q₁ q₂ : Query, q₁.access = a₁ → q₂.access = a₂ → ∀ gen revision : Int,
      issueQueryScope q₁ gen revision = issueQueryScope q₂ gen revision →
        ∀ db, selected db q₁ = selected db q₂) ↔
      (SameKey a₁ a₂ → SameView a₁ a₂) := by
  constructor
  · intro h hkey
    refine sameView_of_selected hkey fun query db => h _ _ rfl rfl 0 0 ?_ db
    obtain ⟨huser, hadmin, hteams⟩ := hkey
    simp [issueQueryScope, Query.withAccess, Query.withoutAccess, huser, hadmin, hteams]
  · rintro h q₁ q₂ rfl rfl gen revision hscope db
    have hkey : SameKey q₁.access q₂.access :=
      ⟨congrArg Scope.user hscope, congrArg Scope.admin hscope, congrArg Scope.teams hscope⟩
    have hquery : q₁.withoutAccess = q₂.withoutAccess := congrArg Scope.query hscope
    have hsame := selected_of_sameView hkey (h hkey) db q₁.withoutAccess
    rw [show q₁.withoutAccess.withAccess q₁.access = q₁ from rfl, hquery,
      show q₂.withoutAccess.withAccess q₂.access = q₂ from rfl] at hsame
    exact hsame

/-- The issues that a member of one team sees, with the archived teams and the workspace
id of the member's access. -/
def byMember (archivedTeamIDs : List String) (workspaceID : String) : Query :=
  { byStatus with access := some ⟨"ann", workspaceID, ["ENG"], false, archivedTeamIDs⟩ }

def sharedWithWorkspace : Db :=
  { issuesOnly [plainRow "b" "" "OPS" "todo"] with permissions := [⟨"b", .workspace, "w1"⟩] }

/-- Queries of one scope: an archived team's issue is selected by one of them, and so is
an issue that is shared with the id of one workspace; and a query without a restriction
selects every row while nobody's is refused. -/
theorem scope_shared_by_others :
    (issueQueryScope (byMember [] "w1") 1 1 = issueQueryScope (byMember ["ENG"] "w1") 1 1 ∧
      selected (issuesOnly [plainRow "a" "" "ENG" "todo"]) (byMember [] "w1") =
        some [plainRow "a" "" "ENG" "todo"] ∧
      selected (issuesOnly [plainRow "a" "" "ENG" "todo"]) (byMember ["ENG"] "w1") = some []) ∧
    (issueQueryScope (byMember [] "w1") 1 1 = issueQueryScope (byMember [] "w2") 1 1 ∧
      selected sharedWithWorkspace (byMember [] "w1") = some [plainRow "b" "" "OPS" "todo"] ∧
      selected sharedWithWorkspace (byMember [] "w2") = some []) ∧
    (issueQueryScope byStatus 1 1 =
        issueQueryScope { byStatus with access := some ⟨"", "w1", [], false, []⟩ } 1 1 ∧
      selected (issuesOnly [plainRow "a" "" "ENG" "todo"]) byStatus =
        some [plainRow "a" "" "ENG" "todo"] ∧
      selected (issuesOnly [plainRow "a" "" "ENG" "todo"])
        { byStatus with access := some ⟨"", "w1", [], false, []⟩ } = none) :=
  ⟨⟨rfl, by decide, by decide⟩, ⟨rfl, by decide, by decide⟩, rfl, by decide, by decide⟩

end Flow.Ports.IssueQuery
