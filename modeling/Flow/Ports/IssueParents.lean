import Flow.Verified.Forest
import Flow.Verified.Run
import Flow.Verified.Table

/-!
# Parents of issues

An issue names its parent, and the parent lists its sub-issues.  A parent is
set by an update of one issue, by a batch update of many, and by a relation
`parent_of` or `sub_issue_of`; deleting the relation removes it.

Each operation loads part of the issues, checks and changes those, and writes
them back.  The check against cycles follows parents among the loaded issues
only and stops at one that was not loaded.  An update loads the ancestors of
the new parent; a batch update loads the issues, their parents, and the
children of all of these; a relation loads its two issues.
-/

namespace Flow.Ports.Issues

open Option Relation Flow.Verified Run Table Forest Function

/-! ## Issues -/

inductive RelationType where
  | related
  | blocks
  | blockedBy
  | duplicate
  | parentOf
  | subIssueOf
deriving DecidableEq, Repr

def inverseRelation : RelationType → RelationType
  | .blocks => .blockedBy
  | .blockedBy => .blocks
  | .parentOf => .subIssueOf
  | .subIssueOf => .parentOf
  | value => value

structure IssueRelation where
  id : String
  type : RelationType
  issueID : String
  relatedIssueID : String
deriving DecidableEq, Repr

/-- What the operations on parents read and write of an issue. -/
structure Issue where
  id : String
  parentID : Option String := none
  subIssueIDs : List String := []
  relations : List IssueRelation := []
deriving DecidableEq, Repr

def issueByID (data : List Issue) (id : String) : Option Issue :=
  lookup Issue.id data id

def modify (data : List Issue) (id : String) (change : Issue → Issue) : List Issue :=
  data.map fun issue => if issue.id = id then change issue else issue

def appendUnique (values : List String) (value : String) : List String :=
  if value ∈ values then values else values ++ [value]

def removeString (values : List String) (value : String) : List String :=
  values.filter (· ≠ value)

/-- Sets the parent of an issue; the empty text removes it.  The sub-issues of
the old and the new parent follow, if they are loaded. -/
def setParent (data : List Issue) (issueID parentID : String) : List Issue :=
  let data := match (issueByID data issueID).bind Issue.parentID with
    | some old => modify data old fun parent =>
      { parent with subIssueIDs := removeString parent.subIssueIDs issueID }
    | none => data
  if parentID = "" then modify data issueID fun issue => { issue with parentID := none }
  else
    modify (modify data issueID fun issue => { issue with parentID := some parentID }) parentID
      fun parent => { parent with subIssueIDs := appendUnique parent.subIssueIDs issueID }

/-- The loop of `issueParentCreatesCycle`; a loop that is cut off counts as a
cycle, which `walk_stable` excludes. -/
def walk (data : List Issue) (issueID : String) : Nat → List String → String → Bool
  | 0, _, _ => true
  | fuel + 1, seen, parentID =>
    if parentID = "" then false
    else if parentID ∈ seen then true
    else if parentID = issueID then true
    else
      match (issueByID data parentID).bind Issue.parentID with
      | none => false
      | some next => walk data issueID fuel (parentID :: seen) next

/-- Whether the new parent of an issue leads back to it, among the loaded
issues. -/
def issueParentCreatesCycle (data : List Issue) (issueID parentID : String) : Bool :=
  walk data issueID (data.length + 1) [] parentID

def applyUpdate (data : List Issue) (issueID parentID : String) : Option (List Issue) :=
  if parentID = issueID then none
  else if parentID ≠ "" ∧ (issueByID data parentID = none ∨
      issueParentCreatesCycle data issueID parentID) then none
  else some (setParent data issueID parentID)

def loadLimit : Nat := 1000

def ancestorLimit : Nat := 64

/-- The ancestors of an issue that an update follows, until one is missing or
was seen; it fails when there are too many. -/
def loadAncestors (issues : List Issue) : Nat → List String → String →
    Option (List String × List String)
  | 0, _, _ => none
  | fuel + 1, seen, parent =>
    if parent = "" ∨ parent ∈ seen then some ([], seen)
    else if ancestorLimit < seen.length then none
    else
      match issueByID issues parent with
      | none => some ([], parent :: seen)
      | some ancestor =>
        (loadAncestors issues fuel (parent :: seen) (ancestor.parentID.getD "")).map
          fun (ids, seen) => (parent :: ids, seen)

def load (issues : List Issue) (ids parents : List String) : List Issue :=
  issues.filter fun issue => issue.id ∈ ids || issue.parentID.any (· ∈ parents)

/-- `UpdateIssueRecord` loads the issue, the new and the old parent with their ancestors, and
the children of the issue and of its old parent; other fields load `extra`. -/
def loadUpdate (issues : List Issue) (id parentID : String) (extra : List String) :
    Option (List Issue) :=
  match issueByID issues id with
  | none => none
  | some original =>
    let old := original.parentID.getD ""
    match loadAncestors issues (ancestorLimit + 2) [] parentID with
    | none => none
    | some (ids, seen) =>
      match loadAncestors issues (ancestorLimit + 2) seen old with
      | none => none
      | some (ids', _) =>
        let data := load issues (id :: parentID :: old :: extra ++ ids ++ ids')
          (id :: original.parentID.toList)
        if loadLimit < data.length then none else some data

/-- `mutateIssueScope` for a batch that sets a parent loads the issues, their parents, and the
children of all of these. -/
def loadBatch (issues : List Issue) (ids extra : List String) : Option (List Issue) :=
  if ids = [] ∨ loadLimit < ids.length then none
  else
    let named := load issues ids []
    let loaded := load issues (ids ++ named.filterMap Issue.parentID) []
    let data := load issues (loaded.map Issue.id ++ extra) (ids ++ loaded.filterMap Issue.parentID)
    if loadLimit < data.length then none else some data

/-! ## Operations -/

inductive Operation where
  | update (id parentID : String) (extra : List String)
  | batch (ids : List String) (parentID : String) (extra : List String)
  | createRelation (id : String) (type : RelationType) (relatedIssueID relationID : String)
  | deleteRelation (id relationID : String)
deriving DecidableEq, Repr

def writeBack (issues data : List Issue) : List Issue :=
  issues.map fun issue => (issueByID data issue.id).getD issue

/-- The updates of a batch, one after the other; the first that fails undoes
them all. -/
def applyAll (parentID : String) : List String → List Issue → Option (List Issue)
  | [], data => some data
  | id :: ids, data =>
    if issueByID data id = none then none
    else (applyUpdate data id parentID).bind (applyAll parentID ids)

def RelationType.family (type : RelationType) (id relatedIssueID : String) :
    Option (String × String) :=
  match type with
  | .parentOf => some (relatedIssueID, id)
  | .subIssueOf => some (id, relatedIssueID)
  | _ => none

def addRelation (data : List Issue) (id : String) (type : RelationType)
    (relatedIssueID relationID : String) : List Issue :=
  let data := modify data id fun issue =>
    { issue with relations := issue.relations ++ [⟨relationID, type, id, relatedIssueID⟩] }
  modify data relatedIssueID fun target =>
    { target with
      relations := target.relations ++ [⟨relationID, inverseRelation type, relatedIssueID, id⟩] }

def createRelation (data : List Issue) (id : String) (type : RelationType)
    (relatedIssueID relationID : String) : Option (List Issue) :=
  if issueByID data id = none ∨ issueByID data relatedIssueID = none ∨ id = relatedIssueID then none
  else
    let data' := addRelation data id type relatedIssueID relationID
    match type.family id relatedIssueID with
    | none => some data'
    | some (child, parent) =>
      if issueParentCreatesCycle data child parent then none
      else some (setParent data' child parent)

def removeRelation (data : List Issue) (id relationID : String) : List Issue :=
  modify data id fun issue =>
    { issue with relations := issue.relations.filter fun relation => relation.id ≠ relationID }

def deleteRelation (data : List Issue) (id relationID : String) : Option (List Issue) :=
  match (issueByID data id).bind fun issue =>
      issue.relations.find? fun relation => relation.id = relationID with
  | none => none
  | some removed =>
    let data := removeRelation data id relationID
    if issueByID data removed.relatedIssueID = none then some data
    else
      let data := removeRelation data removed.relatedIssueID relationID
      match removed.type with
      | .parentOf => some (setParent data removed.relatedIssueID "")
      | .subIssueOf => some (setParent data id "")
      | _ => some data

/-- The issues that a relation is deleted from: the issue, and those that its
relations with the id name. -/
def relatedOf (issues : List Issue) (id relationID : String) : List String :=
  match issueByID issues id with
  | none => []
  | some issue =>
    (issue.relations.filter fun relation => relation.id = relationID).map
      IssueRelation.relatedIssueID

def Operation.loads (issues : List Issue) : Operation → Option (List Issue)
  | .update id parentID extra => loadUpdate issues id parentID extra
  | .batch ids _ extra => loadBatch issues ids extra
  | .createRelation id _ relatedIssueID _ => some (load issues [id, relatedIssueID] [])
  | .deleteRelation id relationID => some (load issues (id :: relatedOf issues id relationID) [])

def Operation.apply (data : List Issue) : Operation → Option (List Issue)
  | .update id parentID _ =>
    if issueByID data id = none then none else applyUpdate data id parentID
  | .batch ids parentID _ => applyAll parentID ids.eraseDups data
  | .createRelation id type relatedIssueID relationID =>
    Issues.createRelation data id type relatedIssueID relationID
  | .deleteRelation id relationID => Issues.deleteRelation data id relationID

/-- One operation on the stored issues; one that fails changes nothing. -/
def step (issues : List Issue) (op : Operation) : Option (List Issue) :=
  (op.loads issues).bind fun data => (op.apply data).map (writeBack issues)

/-! ## What is promised -/

def parentOf (issues : List Issue) (id : String) : Option String :=
  ((issueByID issues id).bind Issue.parentID).filter (· ≠ "")

def Operation.newParent : Operation → Option String
  | .update _ parentID _ | .batch _ parentID _ => if parentID = "" then none else some parentID
  | .createRelation id type relatedIssueID _ => (type.family id relatedIssueID).map Prod.snd
  | .deleteRelation _ _ => none

/-- The loaded issues have every stored ancestor of `parent`. -/
def Closed (issues data : List Issue) (parent : String) : Prop :=
  ∀ id, ReflTransGen (Up (parentOf issues)) parent id →
    (issueByID issues id).isSome → (issueByID data id).isSome

/-- The operation loads the ancestors of the parent that it sets.  An update of
one issue always does (`loads_of_update`). -/
def LoadsAncestors (issues : List Issue) (op : Operation) : Prop :=
  match op with
  | .update _ _ _ => True
  | op => ∀ data, op.loads issues = some data → ∀ parent ∈ op.newParent, Closed issues data parent

variable {seen : List String} {issue : Issue}

theorem unseen_lt {data : List Issue} (h : issue ∈ data) (hseen : issue.id ∉ seen) :
    data.countP (fun i => i.id ∉ issue.id :: seen) < data.countP fun i => i.id ∉ seen := by
  have hsplit : data.filter (fun i => i.id ∉ issue.id :: seen) =
      (data.filter fun i => i.id ∉ seen).filter fun i => i.id ≠ issue.id := by
    simp
  rw [List.countP_eq_length_filter, List.countP_eq_length_filter, hsplit]
  exact List.length_filter_lt_length_iff_exists.2
    ⟨issue, List.mem_filter.2 ⟨h, by simpa using hseen⟩, by simp⟩

/-- **The loop ends**: with more rounds than issues that it has not seen, their number does not
matter. -/
theorem walk_stable (data : List Issue) (issueID : String) :
    ∀ (fuel fuel' : Nat) (seen : List String) (parentID : String),
      data.countP (fun i => i.id ∉ seen) < fuel → data.countP (fun i => i.id ∉ seen) < fuel' →
      walk data issueID fuel seen parentID = walk data issueID fuel' seen parentID := by
  intro fuel
  induction fuel with
  | zero =>
    omega
  | succ fuel ih =>
    intro fuel' seen parentID h h'
    cases fuel' with
    | zero => omega
    | succ fuel' =>
      unfold walk
      repeat' split
      all_goals try rfl
      next hseen _ _ next hnext =>
        obtain ⟨issue, hissue, _⟩ := bind_eq_some_iff.1 hnext
        have hid : issue.id = parentID := key_of_lookup hissue
        have hlt := unseen_lt (mem_of_lookup hissue) (hid ▸ hseen)
        rw [hid] at hlt
        exact ih fuel' (parentID :: seen) next (by omega) (by omega)

/-! ## Parents under changes of loaded issues -/

def parents (data : List Issue) (id : String) : Option (Option String) :=
  (issueByID data id).map Issue.parentID

/-- The parent of an issue as it will be stored: as loaded, or else as stored. -/
def view (issues data : List Issue) (id : String) : Option String :=
  ((parents data id).getD ((issueByID issues id).bind Issue.parentID)).filter (· ≠ "")

section Parents

variable {issues data : List Issue} {id issueID parentID : String}

theorem parents_isSome : (parents data id).isSome = (issueByID data id).isSome :=
  isSome_map

theorem parents_modify {change : Issue → Issue} (hchange : ∀ i, (change i).id = i.id) :
    parents (modify data issueID change) id =
      (issueByID data id).map fun i => (if id = issueID then change i else i).parentID := by
  have hkey : ∀ i : Issue, (if i.id = issueID then change i else i).id = i.id := by
    intro i
    split
    · exact hchange i
    · rfl
  unfold parents issueByID modify
  rw [lookup_map hkey]
  cases hfound : lookup Issue.id data id with
  | none => rfl
  | some issue =>
    have hid : issue.id = id := key_of_lookup hfound
    simp [hid]

theorem parents_modify_of_same {change : Issue → Issue} (hchange : ∀ i, (change i).id = i.id)
    (hparent : ∀ i, (change i).parentID = i.parentID) :
    parents (modify data issueID change) = parents data := by
  funext id
  rw [parents_modify hchange]
  congr 1
  funext i
  split
  · exact hparent i
  · rfl

theorem parents_modify_parent (value : Option String) (h : (issueByID data issueID).isSome) :
    parents (modify data issueID fun i => { i with parentID := value }) =
      update (parents data) issueID (some value) := by
  funext id
  refine Eq.trans (parents_modify fun _ => rfl) ?_
  by_cases hid : id = issueID
  · subst hid
    obtain ⟨issue, hissue⟩ := isSome_iff_exists.1 h
    rw [hissue]
    simp
  · rw [update_of_ne hid]
    simp [parents, hid]

theorem parents_setParent (h : (issueByID data issueID).isSome) :
    parents (setParent data issueID parentID) = update (parents data) issueID
        (some (if parentID = "" then none else some parentID)) := by
  unfold setParent
  extract_lets data'
  have hfirst : parents data' = parents data := by
    unfold data'
    split
    · exact parents_modify_of_same (fun _ => rfl) fun _ => rfl
    · rfl
  have hsome : (issueByID data' issueID).isSome := by
    rw [← parents_isSome, hfirst, parents_isSome]
    exact h
  split
  · rw [parents_modify_parent none hsome, hfirst]
  · refine Eq.trans (parents_modify_of_same (fun _ => rfl) fun _ => rfl) ?_
    rw [parents_modify_parent _ hsome, hfirst]

theorem view_setParent (h : (issueByID data issueID).isSome) :
    view issues (setParent data issueID parentID) = update (view issues data) issueID
        (if parentID = "" then none else some parentID) := by
  funext id
  unfold view
  rw [parents_setParent h]
  by_cases hid : id = issueID
  · subst hid
    rw [update_self, update_self]
    split
    · rfl
    · rename_i hne
      simp [hne]
  · rw [update_of_ne hid, update_of_ne hid]

end Parents

/-! ## The check is complete when the ancestors are loaded -/

section Check

variable {issues data data' : List Issue} {issueID parentID : String}

/-- The loaded issues have every stored ancestor of `parentID`, as it will be
stored. -/
def Covered (issues data : List Issue) (parentID : String) : Prop :=
  ∀ id, ReflTransGen (Up (view issues data)) parentID id →
    (issueByID issues id).isSome → (issueByID data id).isSome

theorem view_of_next {next : String}
    (h : (issueByID data parentID).bind Issue.parentID = some next) :
    view issues data parentID = (some next).filter (· ≠ "") := by
  obtain ⟨issue, hissue, hparent⟩ := bind_eq_some_iff.1 h
  unfold view parents
  rw [hissue, map_some, getD_some, hparent]

theorem view_of_end (hcovered : Covered issues data parentID)
    (h : (issueByID data parentID).bind Issue.parentID = none) :
    view issues data parentID = none := by
  unfold view parents
  cases hloaded : issueByID data parentID with
  | some issue =>
    rw [hloaded] at h
    rw [map_some, getD_some, show issue.parentID = none from h]
    rfl
  | none =>
    have hmissing : issueByID issues parentID = none := by
      by_contra hne
      have hsome := hcovered parentID .refl (isSome_iff_ne_none.2 hne)
      rw [hloaded] at hsome
      cases hsome
    rw [hmissing]
    rfl

/-- When the loop finds no cycle, the new parent does not lead to the issue. -/
theorem walk_sound {fuel : Nat} (hcovered : Covered issues data parentID)
    (hne : parentID ≠ "") (h : walk data issueID fuel seen parentID = false) :
    ¬ReflTransGen (Up (view issues data)) parentID issueID := by
  fun_induction walk data issueID fuel seen parentID with
  | case1 | case3 | case4 => cases h
  | case2 => exact absurd rfl hne
  | case5 seen parentID _ _ _ hissue hend =>
    intro hpath
    rcases ReflTransGen.cases_head hpath with rfl | ⟨z, hz, _⟩
    · exact hissue rfl
    · rw [Up, view_of_end hcovered hend] at hz
      cases hz
  | case6 seen parentID _ _ _ hissue next hnext ih =>
    intro hpath
    rcases ReflTransGen.cases_head hpath with rfl | ⟨z, hz, hrest⟩
    · exact hissue rfl
    · have hstep := hz
      rw [Up, view_of_next hnext, filter_eq_some_iff] at hz
      obtain ⟨⟨⟩, hznext⟩ := hz
      apply ih (fun id hid => hcovered id (hid.head hstep)) (of_decide_eq_true hznext) h
      exact hrest

/-- **The check is complete**: among loaded issues that have the ancestors of the
new parent it finds every cycle. -/
theorem check_sound (hcovered : Covered issues data parentID) (hne : parentID ≠ "")
    (h : ¬issueParentCreatesCycle data issueID parentID) :
    ¬ReflTransGen (Up (view issues data)) parentID issueID :=
  walk_sound hcovered hne (Bool.not_eq_true _ ▸ h)

theorem isSome_setParent (h : (issueByID data issueID).isSome) (id : String) :
    (issueByID (setParent data issueID parentID) id).isSome = (issueByID data id).isSome := by
  rw [← parents_isSome, parents_setParent h, ← parents_isSome]
  by_cases hid : id = issueID
  · subst hid
    rw [update_self, parents_isSome, h]
    rfl
  · rw [update_of_ne hid]

theorem isSome_of_parents (h : parents data' = parents data) (id : String) :
    (issueByID data' id).isSome = (issueByID data id).isSome := by
  rw [← parents_isSome, h, parents_isSome]

theorem view_of_parents (h : parents data' = parents data) :
    view issues data' = view issues data := by
  unfold view
  rw [h]

/-- What the updates of a batch keep. -/
structure Keeps (issues data : List Issue) (parentID : String) : Prop where
  acyclic : Acyclic (view issues data)
  covered : parentID ≠ "" → Covered issues data parentID
  stored : ∀ id, (issueByID data id).isSome → (issueByID issues id).isSome

theorem Keeps.of_parents (h : Keeps issues data parentID)
    (hparents : parents data' = parents data) : Keeps issues data' parentID := by
  have hview : view issues data' = view issues data := view_of_parents hparents
  have hsome := isSome_of_parents hparents
  refine ⟨hview ▸ h.acyclic, fun hne id hid hstored => ?_, fun id hid => ?_⟩
  · rw [hsome]
    rw [hview] at hid
    exact h.covered hne id hid hstored
  · rw [hsome] at hid
    exact h.stored id hid

theorem Keeps.setParent (h : Keeps issues data parentID) (hissue : (issueByID data issueID).isSome)
    (hpath : parentID ≠ "" → ¬ReflTransGen (Up (view issues data)) parentID issueID) :
    Keeps issues (setParent data issueID parentID) parentID := by
  refine ⟨?_, fun hne id hid hstored => ?_, fun id hid => ?_⟩
  · rw [view_setParent hissue]
    split
    · exact h.acyclic.update_none
    · rename_i hne
      exact h.acyclic.update_some (hpath hne)
  · rw [isSome_setParent hissue]
    rw [view_setParent hissue] at hid
    exact h.covered hne id (above_update (hpath hne) hid) hstored
  · rw [isSome_setParent hissue] at hid
    exact h.stored id hid

theorem keeps_applyUpdate (h : Keeps issues data parentID)
    (hissue : (issueByID data issueID).isSome)
    (happly : applyUpdate data issueID parentID = some data') : Keeps issues data' parentID := by
  obtain ⟨_, happly⟩ := ite_none_left_eq_some.1 happly
  obtain ⟨hchecks, ⟨⟩⟩ := ite_none_left_eq_some.1 happly
  exact h.setParent hissue fun hne =>
    check_sound (h.covered hne) hne fun hcycle => hchecks ⟨hne, .inr hcycle⟩

theorem keeps_applyAll {ids : List String} (h : Keeps issues data parentID)
    (happly : applyAll parentID ids data = some data') : Keeps issues data' parentID := by
  induction ids generalizing data with
  | nil =>
    cases happly
    exact h
  | cons id ids ih =>
    obtain ⟨hissue, happly⟩ := ite_none_left_eq_some.1 happly
    obtain ⟨next, hnext, hrest⟩ := bind_eq_some_iff.1 happly
    exact ih (keeps_applyUpdate h (isSome_iff_ne_none.2 hissue) hnext) hrest

end Check

variable {keep : Issue → Bool}

section Load

variable {issues data : List Issue}

theorem issueByID_filter {id : String} (hnodup : (issues.map Issue.id).Nodup)
    (h : issueByID (issues.filter keep) id = some issue) : issueByID issues id = some issue := by
  have hmem := List.mem_of_mem_filter (mem_of_lookup h)
  have hid : issue.id = id := key_of_lookup h
  rw [← hid]
  exact lookup_of_mem hnodup hmem

theorem isSome_filter (hmem : issue ∈ issues)
    (hkeep : keep issue) : (issueByID (issues.filter keep) issue.id).isSome := by
  unfold issueByID lookup
  rw [List.find?_isSome]
  exact ⟨issue, List.mem_filter.2 ⟨hmem, hkeep⟩, by simp⟩

theorem view_filter (hnodup : (issues.map Issue.id).Nodup) :
    view issues (issues.filter keep) = parentOf issues := by
  funext id
  unfold view parents parentOf
  cases hloaded : issueByID (issues.filter keep) id with
  | none => rfl
  | some issue =>
    rw [issueByID_filter hnodup hloaded]
    rfl

theorem stored_filter (hnodup : (issues.map Issue.id).Nodup) (id : String)
    (h : (issueByID (issues.filter keep) id).isSome) : (issueByID issues id).isSome := by
  obtain ⟨issue, hissue⟩ := isSome_iff_exists.1 h
  rw [issueByID_filter hnodup hissue]
  rfl

theorem id_writeBack (issue : Issue) : ((issueByID data issue.id).getD issue).id = issue.id := by
  cases hloaded : issueByID data issue.id with
  | none => rfl
  | some loaded => exact key_of_lookup hloaded

theorem parentOf_writeBack
    (hstored : ∀ id, (issueByID data id).isSome → (issueByID issues id).isSome) :
    parentOf (writeBack issues data) = view issues data := by
  funext id
  unfold parentOf view parents
  have hlookup : issueByID (writeBack issues data) id =
      (issueByID issues id).map fun issue => (issueByID data issue.id).getD issue :=
    lookup_map id_writeBack
  rw [hlookup]
  cases hissue : issueByID issues id with
  | none =>
    have hnone : issueByID data id = none := by
      by_contra hne
      have hsome := hstored id (isSome_iff_ne_none.2 hne)
      rw [hissue] at hsome
      cases hsome
    rw [hnone]
    rfl
  | some issue =>
    have hid : issue.id = id := key_of_lookup hissue
    rw [map_some, hid]
    cases issueByID data id with
    | none => rfl
    | some loaded => rfl

theorem map_id_writeBack : (writeBack issues data).map Issue.id = issues.map Issue.id :=
  map_key_map id_writeBack

end Load

/-! ## An update loads the ancestors of the new parent -/

variable {parent : String}

section Ancestors

variable {issues data : List Issue}

theorem parentOf_of_some {id : String} (h : issueByID issues id = some issue) :
    parentOf issues id = issue.parentID.filter (· ≠ "") := by
  unfold parentOf
  rw [h]
  rfl

theorem parentOf_of_none {id : String} (h : issueByID issues id = none) :
    parentOf issues id = none := by
  unfold parentOf
  rw [h]
  rfl

/-- The loop that follows ancestors leaves none out; what it has seen leads to
where it is. -/
theorem loadAncestors_spec (hacyclic : Acyclic (parentOf issues)) {fuel : Nat}
    {ids seen' : List String} {id : String}
    (hseen : ∀ s ∈ seen, TransGen (Up (parentOf issues)) s parent)
    (h : loadAncestors issues fuel seen parent = some (ids, seen')) (hne : parent ≠ "")
    (hpath : ReflTransGen (Up (parentOf issues)) parent id)
    (hstored : (issueByID issues id).isSome) : id ∈ ids := by
  fun_induction loadAncestors issues fuel seen parent generalizing ids seen' with
  | case1 | case3 => cases h
  | case2 _ seen parent hend =>
    exact absurd (hseen parent (hend.resolve_left hne)) (hacyclic parent)
  | case4 _ seen parent _ _ hmissing =>
    rcases ReflTransGen.cases_head hpath with rfl | ⟨z, hz, _⟩
    · rw [hmissing] at hstored
      cases hstored
    · rw [Up, parentOf_of_none hmissing] at hz
      cases hz
  | case5 _ seen parent _ _ ancestor hancestor ih =>
    obtain ⟨⟨rest, last⟩, hrest, heq⟩ := map_eq_some_iff.1 h
    cases heq
    rcases ReflTransGen.cases_head hpath with rfl | ⟨z, hz, hpath'⟩
    · exact List.mem_cons_self
    · have hup := hz
      rw [Up, parentOf_of_some hancestor, filter_eq_some_iff] at hz
      rw [hz.1] at hrest ih
      refine List.mem_cons_of_mem _ (ih (fun s hs => ?_) hrest (of_decide_eq_true hz.2) hpath')
      rcases List.mem_cons.1 hs with rfl | hs
      · exact .single hup
      · exact (hseen s hs).tail hup

/-- **An update of one issue loads the ancestors of the new parent**, for trees
of any depth: where there are too many it fails. -/
theorem loads_of_update {id parentID : String} {extra : List String}
    (hacyclic : Acyclic (parentOf issues))
    (h : loadUpdate issues id parentID extra = some data) (hne : parentID ≠ "") :
    Closed issues data parentID := by
  intro y hpath hstored
  revert h
  fun_cases loadUpdate issues id parentID extra
  case case5 hids _ _ _ _ _ =>
    intro h
    rw [← some.inj h]
    have hmem := loadAncestors_spec hacyclic (by simp) hids hne hpath hstored
    obtain ⟨issue, hissue⟩ := isSome_iff_exists.1 hstored
    have hid : issue.id = y := key_of_lookup hissue
    rw [← hid]
    apply isSome_filter (mem_of_lookup hissue)
    rw [hid]
    simp [hmem]
  all_goals nofun

end Ancestors

/-- The stored issues have distinct ids, and no cycle. -/
structure Forested (issues : List Issue) : Prop where
  ids : (issues.map Issue.id).Nodup
  acyclic : Acyclic (parentOf issues)

variable {relationID : String}

section Run

variable {issues data data' : List Issue} {op : Operation}

theorem loads_filter (h : op.loads issues = some data) : ∃ keep, data = issues.filter keep := by
  cases op with
  | createRelation | deleteRelation =>
    cases h
    exact ⟨_, rfl⟩
  | update | batch =>
    simp only [Operation.loads, loadUpdate, loadBatch] at h
    repeat' split at h
    all_goals cases h
    exact ⟨_, rfl⟩

theorem parents_addRelation (id : String) (type : RelationType)
    (relatedIssueID relationID : String) :
    parents (addRelation data id type relatedIssueID relationID) = parents data := by
  refine Eq.trans (parents_modify_of_same (fun _ => rfl) fun _ => rfl) ?_
  exact parents_modify_of_same (fun _ => rfl) fun _ => rfl

theorem parents_removeRelation (id relationID : String) :
    parents (removeRelation data id relationID) = parents data :=
  parents_modify_of_same (fun _ => rfl) fun _ => rfl

theorem family_mem {id relatedIssueID child : String} {type : RelationType}
    (h : type.family id relatedIssueID = some (child, parent)) :
    child = id ∨ child = relatedIssueID := by
  cases type <;> cases h
  · exact .inr rfl
  · exact .inl rfl

theorem keeps_createRelation {id relatedIssueID : String} {type : RelationType}
    (hkeeps : ∀ parent, (type.family id relatedIssueID).map Prod.snd = some parent →
      Keeps issues data parent) (hbare : Keeps issues data "")
    (happly : createRelation data id type relatedIssueID relationID = some data') :
    ∃ parent, Keeps issues data' parent := by
  obtain ⟨hloaded, happly⟩ := ite_none_left_eq_some.1 happly
  rw [not_or, not_or] at hloaded
  have hparents : parents (addRelation data id type relatedIssueID relationID) = parents data :=
    parents_addRelation id type relatedIssueID relationID
  split at happly
  next =>
    cases happly
    exact ⟨"", hbare.of_parents hparents⟩
  next child parent hfamily =>
    obtain ⟨hcheck, ⟨⟩⟩ := ite_none_left_eq_some.1 happly
    have hkeep := hkeeps parent (by rw [hfamily]; rfl)
    have hchild : (issueByID data child).isSome := by
      rw [isSome_iff_ne_none]
      rcases family_mem hfamily with rfl | rfl
      · exact hloaded.1
      · exact hloaded.2.1
    have hkeep' := hkeep.of_parents hparents
    refine ⟨parent, hkeep'.setParent ?_ fun hne hpath => ?_⟩
    · rw [isSome_of_parents hparents]
      exact hchild
    · rw [view_of_parents hparents] at hpath
      exact check_sound (hkeep.covered hne) hne hcheck hpath

def removedRelation (data : List Issue) (id relationID : String) : Option IssueRelation :=
  (issueByID data id).bind fun issue =>
    issue.relations.find? fun relation => relation.id = relationID

/-- The child and the parent of the deleted relation, if its other issue is there. -/
def removedFamily (data : List Issue) (id relationID : String) : Option (String × String) :=
  (removedRelation data id relationID).bind fun removed =>
    if issueByID data removed.relatedIssueID = none then none
    else removed.type.family id removed.relatedIssueID

theorem removedFamily_loaded {id child : String}
    (h : removedFamily data id relationID = some (child, parent)) :
    (issueByID data child).isSome := by
  obtain ⟨removed, hremoved, hfamily⟩ := bind_eq_some_iff.1 h
  obtain ⟨hrelated, hfamily⟩ := ite_none_left_eq_some.1 hfamily
  obtain ⟨issue, hissue, _⟩ := bind_eq_some_iff.1 hremoved
  rcases family_mem hfamily with rfl | rfl
  · rw [hissue]
    rfl
  · exact isSome_iff_ne_none.2 hrelated

theorem parents_deleteRelation {id : String} (h : deleteRelation data id relationID = some data') :
    parents data' = (removedFamily data id relationID).elim (parents data) fun family =>
      update (parents data) family.1 (some none) := by
  unfold deleteRelation at h
  split at h
  · cases h
  next removed hremoved =>
    have hfirst : parents (removeRelation data id relationID) = parents data :=
      parents_removeRelation id relationID
    dsimp only at h
    generalize removeRelation data id relationID = first at h hfirst
    have hnone : issueByID first removed.relatedIssueID = none ↔
        issueByID data removed.relatedIssueID = none := by
      rw [← not_isSome_iff_eq_none, isSome_of_parents hfirst, not_isSome_iff_eq_none]
    have hfamily : removedFamily data id relationID =
        if issueByID data removed.relatedIssueID = none then none
        else removed.type.family id removed.relatedIssueID := by
      rw [removedFamily, removedRelation, hremoved, bind_some]
    split at h
    next hmissing =>
      cases h
      rw [hfamily, if_pos (hnone.1 hmissing)]
      exact hfirst
    next htarget =>
      rw [if_neg (mt hnone.2 htarget)] at hfamily
      have hsecond : parents (removeRelation first removed.relatedIssueID relationID) =
          parents data := (parents_removeRelation removed.relatedIssueID relationID).trans hfirst
      have hclear : ∀ child parent, removedFamily data id relationID = some (child, parent) →
          parents (setParent (removeRelation first removed.relatedIssueID relationID) child "") =
            update (parents data) child (some none) := by
        intro child parent hchild
        have hloaded := removedFamily_loaded hchild
        rw [← isSome_of_parents hsecond] at hloaded
        rw [parents_setParent hloaded, hsecond, if_pos rfl]
      rw [hfamily] at hclear ⊢
      cases htype : removed.type <;> rw [htype] at h hclear <;> cases h
      case parentOf | subIssueOf => exact hclear _ _ rfl
      all_goals exact hsecond

theorem keeps_deleteRelation {id : String} (hbare : Keeps issues data "")
    (happly : deleteRelation data id relationID = some data') : Keeps issues data' "" := by
  have hparents := parents_deleteRelation happly
  cases hfamily : removedFamily data id relationID with
  | none =>
    rw [hfamily] at hparents
    exact hbare.of_parents hparents
  | some family =>
    have hloaded := removedFamily_loaded hfamily
    rw [hfamily] at hparents
    apply (hbare.setParent hloaded fun hne => absurd rfl hne).of_parents
    rw [hparents, parents_setParent hloaded]
    rfl

theorem keeps_loaded (h : Forested issues) (hloads : op.loads issues = some data)
    (hclosed : parent ≠ "" → Closed issues data parent) :
    Keeps issues data parent := by
  obtain ⟨keep, rfl⟩ := loads_filter hloads
  have hview : view issues (issues.filter keep) = parentOf issues := view_filter h.ids
  refine ⟨hview ▸ h.acyclic, fun hne id hid hstored => ?_, stored_filter h.ids⟩
  rw [hview] at hid
  exact hclosed hne id hid hstored

/-- **An operation that loads the ancestors of the new parent makes no cycle.** -/
theorem forested_step {issues' : List Issue} (h : Forested issues)
    (hok : LoadsAncestors issues op) (hstep : step issues op = some issues') :
    Forested issues' := by
  obtain ⟨data, hloads, hwrite⟩ := bind_eq_some_iff.1 hstep
  obtain ⟨data', happly, rfl⟩ := map_eq_some_iff.1 hwrite
  have hbare : Keeps issues data "" := keeps_loaded h hloads fun hne => absurd rfl hne
  have hkeeps : ∃ parent, Keeps issues data' parent := by
    cases op with
    | update id parentID extra =>
      have hkeep : Keeps issues data parentID :=
        keeps_loaded h hloads (loads_of_update h.acyclic hloads)
      obtain ⟨hissue, happly⟩ := ite_none_left_eq_some.1 happly
      exact ⟨parentID, keeps_applyUpdate hkeep (isSome_iff_ne_none.2 hissue) happly⟩
    | batch ids parentID extra =>
      have hkeep : Keeps issues data parentID := by
        refine keeps_loaded h hloads fun hne => hok data hloads parentID ?_
        simp [Operation.newParent, hne]
      exact ⟨parentID, keeps_applyAll hkeep happly⟩
    | createRelation id type relatedIssueID relationID =>
      refine keeps_createRelation (fun parent hparent => ?_) hbare happly
      exact keeps_loaded h hloads fun _ => hok data hloads parent hparent
    | deleteRelation id relationID => exact ⟨"", keeps_deleteRelation hbare happly⟩
  obtain ⟨parent, hkeep⟩ := hkeeps
  constructor
  · rw [map_id_writeBack]
    exact h.ids
  · rw [parentOf_writeBack hkeep.stored]
    exact hkeep.acyclic

end Run

/-! ## Main results -/

/-- **Following parents never returns.** From a forest, in every run whose batch updates and new
relations load the stored ancestors of the parent they set, parents make no cycle. -/
theorem parents_of_reaches (issues : List Issue) (hids : (issues.map Issue.id).Nodup)
    (hforest : Acyclic (parentOf issues)) (issues' : List Issue)
    (hrun : Reaches step LoadsAncestors issues issues') : Acyclic (parentOf issues') := by
  have hforested : Forested issues' :=
    hrun.invariant (P := Forested) (fun _ _ _ h hok hstep => forested_step h hok hstep)
      ⟨hids, hforest⟩
  exact hforested.acyclic

def chain : List Issue :=
  [{ id := "e", parentID := some "d" }, { id := "d", parentID := some "c", subIssueIDs := ["e"] },
    { id := "c", parentID := some "b", subIssueIDs := ["d"] },
    { id := "b", parentID := some "a", subIssueIDs := ["c"] },
    { id := "a", subIssueIDs := ["b"] }]

/-- Parents that come later in some order make no cycle. -/
theorem acyclic_of_rank {issues : List Issue} (rank : String → Nat)
    (h : ∀ issue ∈ issues, ∀ parent ∈ issue.parentID, rank parent < rank issue.id) :
    Acyclic (parentOf issues) := by
  have hup : ∀ a b, Up (parentOf issues) a b → rank b < rank a := by
    intro a b hab
    rw [Up, parentOf, filter_eq_some_iff] at hab
    obtain ⟨issue, hissue, hparent⟩ := bind_eq_some_iff.1 hab.1
    have hid : issue.id = a := key_of_lookup hissue
    rw [← hid]
    exact h issue (mem_of_lookup hissue) b hparent
  intro a ha
  have hlt : TransGen (fun a b : Nat => b < a) (rank a) (rank a) := ha.lift rank hup
  rw [transGen_eq_self] at hlt
  exact Nat.lt_irrefl _ hlt

theorem acyclic_chain : Acyclic (parentOf chain) :=
  acyclic_of_rank (fun id => chain.length - chain.findIdx fun issue => issue.id = id) (by decide)

theorem closed_of_root {issues data : List Issue}
    (hroot : parentOf issues parent = none) (hloaded : (issueByID data parent).isSome) :
    Closed issues data parent := by
  intro id hpath _
  rcases ReflTransGen.cases_head hpath with rfl | ⟨next, hnext, _⟩
  · exact hloaded
  · rw [Up, hroot] at hnext
    cases hnext

def moved : List Issue :=
  [{ id := "e", parentID := some "b" }, { id := "d", parentID := some "c" },
    { id := "c", parentID := some "b", subIssueIDs := ["d"] },
    { id := "b", parentID := some "a", subIssueIDs := ["c", "e"] },
    { id := "a", subIssueIDs := ["b"] }]

/-- The chain with `e` below `b` and `d` below `a`; the relation did not load
`c`, which still lists `d`. -/
def related : List Issue :=
  [{ id := "e", parentID := some "b" },
    { id := "d", parentID := some "a", relations := [⟨"r-1", .subIssueOf, "d", "a"⟩] },
    { id := "c", parentID := some "b", subIssueIDs := ["d"] },
    { id := "b", parentID := some "a", subIssueIDs := ["c", "e"] },
    { id := "a", subIssueIDs := ["b", "d"], relations := [⟨"r-1", .parentOf, "a", "d"⟩] }]

/-- An update and a relation to a root. -/
theorem parents_after_moves :
    Reaches step LoadsAncestors chain related ∧ Acyclic (parentOf related) := by
  have hmove : step chain (.update "e" "b" []) = some moved := by decide
  have hrelate : step moved (.createRelation "d" .subIssueOf "a" "r-1") = some related := by decide
  have hloads : LoadsAncestors moved (.createRelation "d" .subIssueOf "a" "r-1") := by
    intro data hdata parent hparent
    cases hdata
    cases hparent
    exact closed_of_root (by decide) (by decide)
  have hfirst : LoadsAncestors chain (.update "e" "b" []) := trivial
  have hrun : Reaches step LoadsAncestors chain related :=
    ((Reaches.refl chain).snoc hfirst hmove).snoc hloads hrelate
  exact ⟨hrun, parents_of_reaches chain (by decide) acyclic_chain related hrun⟩

/-- **Parents close a cycle.** A relation loads its two issues, so the check does not see that
`c` is below `b` and `b` below `a`. A batch of `a` and `e` loads `b` and `d`, so it does not see
`c`, by which `d` is below `a`. -/
theorem parents_in_cycle :
    ((chain.map Issue.id).Nodup ∧ Acyclic (parentOf chain)) ∧
    (∃ issues, Reaches step Unrestricted chain issues ∧
      step chain (.createRelation "a" .subIssueOf "c" "r-1") = some issues ∧
      ¬Acyclic (parentOf issues)) ∧
    ∃ issues, Reaches step Unrestricted chain issues ∧
      step chain (.batch ["a", "e"] "d" []) = some issues ∧ ¬Acyclic (parentOf issues) := by
  refine ⟨⟨by decide, acyclic_chain⟩, ?_, ?_⟩
  · obtain ⟨issues, hrun, hstep, hcycle, hrest⟩ : ∃ issues, Reaches step Unrestricted chain issues ∧
        step chain (.createRelation "a" .subIssueOf "c" "r-1") = some issues ∧
        Up (parentOf issues) "a" "c" ∧ Up (parentOf issues) "c" "b" ∧
        Up (parentOf issues) "b" "a" :=
      exists_reaches [.createRelation "a" .subIssueOf "c" "r-1"] _ (by decide)
    refine ⟨issues, hrun, hstep, fun hacyclic => hacyclic "a" ?_⟩
    exact ((TransGen.single hcycle).tail hrest.1).tail hrest.2
  · obtain ⟨issues, hrun, hstep, hcycle, hrest⟩ : ∃ issues, Reaches step Unrestricted chain issues ∧
        step chain (.batch ["a", "e"] "d" []) = some issues ∧
        Up (parentOf issues) "a" "d" ∧ Up (parentOf issues) "d" "c" ∧
          Up (parentOf issues) "c" "b" ∧ Up (parentOf issues) "b" "a" :=
      exists_reaches [.batch ["a", "e"] "d" []] _ (by decide)
    refine ⟨issues, hrun, hstep, fun hacyclic => hacyclic "a" ?_⟩
    exact (((TransGen.single hcycle).tail hrest.1).tail hrest.2.1).tail hrest.2.2

end Flow.Ports.Issues
