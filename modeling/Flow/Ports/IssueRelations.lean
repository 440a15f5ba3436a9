import Flow.Ports.IssueParents

/-!
# Parents that deleted relations leave

A relation `parent_of` or `sub_issue_of` sets a parent when it is created.  Its deletion
removes the parent of that child, whichever it is by then.
-/

namespace Flow.Ports.Issues

open List Option Flow.Verified Run Table Function

/-- A deletion changes the parent of the child of its relation at most, and that only from the
parent that the relation names. -/
def UndoesOnly (issues issues' : List Issue) (id relationID : String) : Prop :=
  ∀ child, parentOf issues' child ≠ parentOf issues child →
    ∃ removed ∈ removedRelation issues id relationID, ∃ parent,
      removed.type.family id removed.relatedIssueID = some (child, parent) ∧
        parentOf issues child = some parent

variable {issues issues' : List Issue} {id relationID : String}

theorem issueByID_load {ids parents : List String} (hnodup : (issues.map Issue.id).Nodup)
    (hmem : id ∈ ids) : issueByID (load issues ids parents) id = issueByID issues id := by
  cases hloaded : issueByID (load issues ids parents) id with
  | some issue => exact (issueByID_filter hnodup hloaded).symm
  | none =>
    cases hstored : issueByID issues id with
    | none => rfl
    | some issue =>
      have hid : issue.id = id := key_of_lookup hstored
      have hsome : (issueByID (load issues ids parents) issue.id).isSome :=
        isSome_filter (mem_of_lookup hstored) (by simp [hid, hmem])
      rw [hid, hloaded] at hsome
      cases hsome

theorem removedFamily_load (hnodup : (issues.map Issue.id).Nodup) :
    removedFamily (load issues (id :: relatedOf issues id relationID) []) id relationID =
      removedFamily issues id relationID := by
  unfold removedFamily removedRelation
  rw [issueByID_load hnodup mem_cons_self]
  refine bind_congr fun removed hremoved => ?_
  obtain ⟨issue, hissue, hfind⟩ := bind_eq_some_iff.1 hremoved
  have hrelated : removed.relatedIssueID ∈ relatedOf issues id relationID := by
    rw [relatedOf, hissue]
    refine mem_map_of_mem (mem_filter.2 ⟨mem_of_find?_eq_some hfind, ?_⟩)
    simpa using find?_some hfind
  rw [issueByID_load hnodup (mem_cons_of_mem _ hrelated)]

theorem parentOf_delete (hnodup : (issues.map Issue.id).Nodup)
    (hstep : step issues (.deleteRelation id relationID) = some issues') :
    parentOf issues' = (removedFamily issues id relationID).elim (parentOf issues) fun family =>
      update (parentOf issues) family.1 none := by
  obtain ⟨data', happly, rfl⟩ := map_eq_some_iff.1 hstep
  have hparents := parents_deleteRelation happly
  have hview : view issues (issues.filter fun issue =>
      issue.id ∈ id :: relatedOf issues id relationID || issue.parentID.any (· ∈ [])) =
      parentOf issues :=
    view_filter hnodup
  cases hfamily : removedFamily issues id relationID with
  | none =>
    rw [removedFamily_load hnodup, hfamily] at hparents
    rw [parentOf_writeBack fun x hx => stored_filter hnodup x (isSome_of_parents hparents x ▸ hx),
      view_of_parents hparents]
    exact hview
  | some family =>
    have hloaded := removedFamily_loaded ((removedFamily_load hnodup).trans hfamily)
    rw [removedFamily_load hnodup, hfamily] at hparents
    have hset : parents data' = parents (setParent (load issues (id :: relatedOf issues id
        relationID) []) family.1 "") := by
      rw [parents_setParent hloaded]
      exact hparents
    have hstored : ∀ x, (issueByID data' x).isSome → (issueByID issues x).isSome := by
      intro x hx
      rw [isSome_of_parents hset, isSome_setParent hloaded] at hx
      exact stored_filter hnodup x hx
    rw [parentOf_writeBack hstored, view_of_parents hset, view_setParent hloaded]
    exact congrArg (update · family.1 none) hview

/-- **A deletion undoes only its relation**, in every run, exactly when the child of the
relation has no parent by then, or the one that the relation names. -/
theorem deletion_undoes_iff (start : List Issue) (hids : (start.map Issue.id).Nodup)
    (issues issues' : List Issue) (hrun : Reaches step Unrestricted start issues)
    (id relationID : String) (hstep : step issues (.deleteRelation id relationID) = some issues') :
    UndoesOnly issues issues' id relationID ↔
      ∀ family ∈ removedFamily issues id relationID,
        parentOf issues family.1 = none ∨ parentOf issues family.1 = some family.2 := by
  have hnodup : (issues.map Issue.id).Nodup := by
    refine hrun.invariant (P := fun issues => (issues.map Issue.id).Nodup) ?_ hids
    intro issues op issues' hnodup _ hstep
    obtain ⟨data, _, hwrite⟩ := bind_eq_some_iff.1 hstep
    obtain ⟨data', _, rfl⟩ := map_eq_some_iff.1 hwrite
    rw [map_id_writeBack]
    exact hnodup
  have hparents := parentOf_delete hnodup hstep
  constructor
  · rintro hundoes ⟨child, parent⟩ hfamily
    obtain ⟨removed, hremoved, hfamily'⟩ := bind_eq_some_iff.1 hfamily
    obtain ⟨_, hfamily'⟩ := ite_none_left_eq_some.1 hfamily'
    rw [hfamily] at hparents
    by_cases hsame : parentOf issues' child = parentOf issues child
    · rw [hparents] at hsame
      exact .inl (hsame.symm.trans (update_self ..))
    · obtain ⟨found, hfound, parent', hchild, hparent⟩ := hundoes child hsame
      cases hremoved.symm.trans hfound
      cases hfamily'.symm.trans hchild
      exact .inr hparent
  · intro hparent child hchanged
    cases hfamily : removedFamily issues id relationID with
    | none =>
      rw [hparents, hfamily] at hchanged
      exact absurd rfl hchanged
    | some family =>
      rw [hparents, hfamily] at hchanged
      by_cases hchild : child = family.1
      · subst hchild
        obtain ⟨removed, hremoved, hfamily'⟩ := bind_eq_some_iff.1 hfamily
        obtain ⟨_, hfamily'⟩ := ite_none_left_eq_some.1 hfamily'
        rcases hparent family hfamily with hnone | hsome
        · rw [hnone] at hchanged
          exact absurd (update_self ..) hchanged
        · exact ⟨removed, hremoved, family.2, hfamily', hsome⟩
      · exact absurd (update_of_ne hchild ..) hchanged

def three : List Issue := [{ id := "a" }, { id := "b" }, { id := "c" }]

/-- A relation that is created and deleted. -/
theorem deletion_undoes_relation :
    ∃ issues, Reaches step Unrestricted three issues ∧ parentOf issues "b" = some "a" ∧
      ∀ issues', step issues (.deleteRelation "b" "r-1") = some issues' →
        UndoesOnly issues issues' "b" "r-1" := by
  obtain ⟨issues, hrun, hparent, hfamily⟩ : ∃ issues, Reaches step Unrestricted three issues ∧
      parentOf issues "b" = some "a" ∧ removedFamily issues "b" "r-1" = some ("b", "a") :=
    exists_reaches [.createRelation "a" .parentOf "b" "r-1"] _ (by decide)
  refine ⟨issues, hrun, hparent, fun issues' hstep => ?_⟩
  apply (deletion_undoes_iff three (by decide) issues issues' hrun "b" "r-1" hstep).2
  rintro family hmem
  cases hfamily.symm.trans hmem
  exact .inr hparent

/-- **A deletion clears another parent.**  `a` becomes the parent of `b` by a relation, an
update moves `b` below `c`, and the deletion of the relation removes that parent. -/
theorem deletion_clears_other_parent :
    ∃ issues, Reaches step Unrestricted three issues ∧ parentOf issues "b" = some "c" ∧
      removedFamily issues "a" "r-1" = some ("b", "a") ∧
      ((step issues (.deleteRelation "a" "r-1")).any fun issues' =>
        parentOf issues' "b" = none) = true :=
  exists_reaches [.createRelation "a" .parentOf "b" "r-1", .update "b" "c" []] _ (by decide)

end Flow.Ports.Issues
