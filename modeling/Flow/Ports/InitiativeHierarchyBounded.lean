import Flow.Ports.InitiativeHierarchy
import Flow.Verified.Table

/-!
# The hierarchy of initiatives stays bounded

A write gives parents to one initiative only: those that were stored, those that were
asked for, and those that the change took over from its copy.  When the new ones pass
the two checks against the stored graph, the library's rule for new edges of one node
applies.

The checks of the code are about the copy.  Two changes that are both valid on the same
copy can close a cycle or make a chain too long (`hierarchy_broken`).
-/

namespace Flow.Ports.InitiativeHierarchy

open List Option Relation Flow.Verified Layers Table Bool

variable {κ : Type} [DecidableEq κ]

section Checks

variable {data : Bootstrap κ} {child parent id : κ}

theorem mem_foldl_addParent (relations : List (InitiativeRelation κ)) (parents : List κ) :
    parent ∈ relations.foldl (InitiativeRelation.addParent id) parents ↔
      parent ∈ parents ∨ ∃ relation ∈ relations, relation.type = .parent ∧
        relation.initiativeID = id ∧ relation.relatedInitiativeID = parent := by
  induction relations generalizing parents with
  | nil => simp
  | cons relation rest ih =>
    rw [foldl_cons, ih]
    unfold InitiativeRelation.addParent
    split
    · simp only [exists_mem_cons_iff]
      grind
    · simp only [exists_mem_cons_iff]
      grind

theorem mem_initiativeParents :
    parent ∈ data.initiativeParents id ↔ parent ∈ data.recordParents id ∨
      ∃ relation ∈ data.initiativeRelations, relation.type = .parent ∧
        relation.initiativeID = id ∧ relation.relatedInitiativeID = parent :=
  mem_foldl_addParent _ _

theorem mem_recordParents : parent ∈ data.recordParents id ↔
      ∃ item, data.initiativeByID id = some item ∧ parent ∈ item.parentInitiativeIDs := by
  unfold Bootstrap.recordParents
  cases data.initiativeByID id <;> simp

theorem mem_keys (h : data.initiativeParents id ≠ []) : id ∈ data.keys := by
  obtain ⟨parent, hparent⟩ := exists_mem_of_ne_nil _ h
  rcases mem_initiativeParents.mp hparent with hrecord | ⟨relation, hrelation, _, rfl, _⟩
  · obtain ⟨item, hitem, _⟩ := mem_recordParents.mp hrecord
    exact mem_append_left _ (mem_keys_of_lookup hitem)
  · exact mem_append_right _ (mem_map_of_mem hrelation)

theorem mem_children : child ∈ data.children parent ↔ parent ∈ data.initiativeParents child := by
  unfold Bootstrap.children
  simp only [List.mem_flatMap, List.mem_eraseDups, List.mem_map, List.mem_filter,
    decide_eq_true_eq]
  constructor
  · rintro ⟨key, _, _, ⟨hmem, rfl⟩, rfl⟩
    exact hmem
  · intro hmem
    exact ⟨child, mem_keys (List.ne_nil_of_mem hmem), parent, ⟨hmem, rfl⟩, rfl⟩

/-- A candidate that passes the check against cycles does not lead to the child. -/
theorem not_reach_of_cycle {candidates : List κ}
    (h : data.initiativeParentCycle child candidates = false) (hparent : parent ∈ candidates) :
    ¬ReflTransGen (Link data.initiativeParents) parent child := by
  intro hreach
  have hfound : data.initiativeParentCycle child candidates = true :=
    (search_eq_true_iff (fun _ => mem_keys) (by rw [length_reverse])).mpr
      ⟨parent, mem_reverse.mpr hparent, hreach⟩
  rw [h] at hfound
  cases hfound

theorem length_above (hacyclic : Acyclic data.initiativeParents)
    (hback : ¬ReflTransGen (Link data.initiativeParents) parent child) {above : List κ}
    (habove : (parent :: above).IsChain (Link data.initiativeParents)) :
    above.length ≤ data.above child parent := by
  apply le_longest (fun _ => mem_keys) habove (hacyclic.nodup habove)
  intro k hk hchild
  rw [mem_singleton.mp hchild] at hk
  exact hback (reach_of_chain habove (mem_cons_of_mem _ hk))

/-- The chain below a child is measured: it is a chain of children, read backwards. -/
theorem length_below (hacyclic : Acyclic data.initiativeParents) {below : List κ}
    (hbelow : (below ++ [child]).IsChain (Link data.initiativeParents)) :
    below.length ≤ data.below child := by
  have hkeys : ∀ k, data.children k ≠ [] → k ∈ data.keys.flatMap data.initiativeParents := by
    intro k hk
    obtain ⟨other, hother⟩ := exists_mem_of_ne_nil _ hk
    have hparent := mem_children.mp hother
    exact mem_flatMap.mpr ⟨other, mem_keys (ne_nil_of_mem hparent), hparent⟩
  have hreverse : (child :: below.reverse) = (below ++ [child]).reverse := by simp
  have hchain : (child :: below.reverse).IsChain (Link data.children) := by
    rw [hreverse, isChain_reverse]
    exact hbelow.imp fun _ _ hlink => mem_children.mpr hlink
  have hnodup : (child :: below.reverse).Nodup := by
    rw [hreverse, nodup_reverse]
    exact hacyclic.nodup hbelow
  have hle := le_longest hkeys hchain hnodup (fun _ _ => not_mem_nil)
  rwa [length_reverse] at hle

theorem fits_of_nesting (hacyclic : Acyclic data.initiativeParents) {candidates : List κ}
    (hnesting : data.initiativeNestingTooDeep child candidates = false)
    (hparent : parent ∈ candidates)
    (hback : ¬ReflTransGen (Link data.initiativeParents) parent child) {below above : List κ}
    (hbelow : (below ++ [child]).IsChain (Link data.initiativeParents))
    (habove : (parent :: above).IsChain (Link data.initiativeParents)) :
    below.length + above.length + 2 ≤ maxInitiativeNesting := by
  unfold Bootstrap.initiativeNestingTooDeep at hnesting
  rw [if_neg (List.ne_nil_of_mem hparent), List.any_eq_false] at hnesting
  have hle : ¬maxInitiativeNesting < data.above child parent + data.below child + 2 := by
    simpa using hnesting parent hparent
  have hup := length_above hacyclic hback habove
  have hdown := length_below hacyclic hbelow
  omega

end Checks

/-! ## What an operation makes of a copy -/

/-- The ends of a relation, which never change. -/
def InitiativeRelation.SameEnds (a b : InitiativeRelation κ) : Prop :=
  a.initiativeID = b.initiativeID ∧ a.relatedInitiativeID = b.relatedInitiativeID

/-- An operation changes the record of its child, and relations of it. -/
structure Applied (copy ours : Bootstrap κ) (operation : Operation κ) : Prop where
  initiative : ∀ mine ∈ ours.initiatives, mine ∈ copy.initiatives ∨
    mine.id = operation.child ∧ ∀ parent ∈ mine.parentInitiativeIDs,
      parent ∈ operation.requested copy ∨ parent ∈ operation.takenOver copy
  relation : ∀ relation ∈ ours.initiativeRelations, relation ∈ copy.initiativeRelations ∨
    relation.initiativeID = operation.child ∧
      (relation.type = .parent → relation.relatedInitiativeID ∈ operation.requested copy)
  ends : ∀ relation ∈ ours.initiativeRelations,
    (∃ old ∈ copy.initiativeRelations, old.id = relation.id ∧ old.SameEnds relation) ∨
      relation.id ∈ operation.relationIDs ∧
        ∀ twin ∈ ours.initiativeRelations, twin.id = relation.id →
          twin ∉ copy.initiativeRelations → relation.SameEnds twin

section Applied

variable {copy ours : Bootstrap κ} {child parent id relationID : κ}

variable {parents : List κ} {add : Bool} {newID : κ → κ} {relation : InitiativeRelation κ}

theorem mem_setParents {mine : Initiative κ}
    (h : mine ∈ (copy.setParents child parents).initiatives) :
    mine ∈ copy.initiatives ∨ mine.id = child ∧ mine.parentInitiativeIDs = parents := by
  obtain ⟨item, hitem, rfl⟩ := mem_map.mp h
  split
  · rename_i hid
    exact .inr ⟨hid, rfl⟩
  · exact .inl hitem

theorem eq_setParents_of_change (h : copy.changeInitiativeParent child parent add = some ours) :
    ours = copy.setParents child (copy.changedParents child parent add) := by
  obtain ⟨_, h⟩ := ite_none_left_eq_some.mp h
  obtain ⟨_, h⟩ := ite_none_left_eq_some.mp h
  obtain ⟨_, h⟩ := ite_none_left_eq_some.mp h
  exact (some.inj h).symm

theorem mem_changedParents {p : κ} (h : p ∈ copy.changedParents child parent add) :
    p ∈ copy.initiativeParents child ∨ add ∧ p = parent := by
  rcases mem_append.mp h with h | h
  · exact .inl (mem_of_mem_filter h)
  · split at h
    · rename_i hadd
      exact .inr ⟨hadd, mem_singleton.mp h⟩
    · cases h

/-- The initiatives after an operation on a relation: the parent that was asked for is
requested, and the others are taken over. -/
theorem applied_of_change (operation : Operation κ) (change : Prop) [Decidable change] (add : Bool)
    (hchange : (if change then copy.changeInitiativeParent operation.child parent add
      else some copy) = some ours)
    (hrequested : change → add → parent ∈ operation.requested copy)
    (htaken : operation.takenOver copy = copy.initiativeParents operation.child) :
    ours.initiativeRelations = copy.initiativeRelations ∧
      ∀ mine ∈ ours.initiatives, mine ∈ copy.initiatives ∨
        mine.id = operation.child ∧ ∀ p ∈ mine.parentInitiativeIDs,
          p ∈ operation.requested copy ∨ p ∈ operation.takenOver copy := by
  split at hchange
  · rename_i hchanges
    obtain rfl := eq_setParents_of_change hchange
    refine ⟨rfl, fun mine hmine => ?_⟩
    rcases mem_setParents hmine with hold | ⟨hid, hparents⟩
    · exact .inl hold
    · refine .inr ⟨hid, fun p hp => ?_⟩
      rw [hparents] at hp
      rcases mem_changedParents hp with hp | ⟨hadd, rfl⟩
      · exact .inr (htaken ▸ hp)
      · exact .inl (hrequested hchanges hadd)
  · obtain rfl := some.inj hchange
    exact ⟨rfl, fun _ h => .inl h⟩

/-! ### Updates of the parents -/

theorem parentRelation_cases (copy : Bootstrap κ) (id : κ) (newID : κ → κ) (parent : κ) :
    (copy.parentRelation id newID parent ∈ copy.initiativeRelations ∧
        (copy.parentRelation id newID parent).initiativeID = id ∧
        (copy.parentRelation id newID parent).relatedInitiativeID = parent) ∨
      copy.parentRelation id newID parent = ⟨newID parent, id, parent, .parent⟩ := by
  unfold Bootstrap.parentRelation
  cases hlast : (copy.initiativeRelations.filter fun relation =>
      relation.initiativeID = id ∧ relation.type = .parent ∧
        relation.relatedInitiativeID = parent).getLast? with
  | none => exact .inr rfl
  | some relation =>
    have hmem := mem_filter.mp (mem_of_getLast? hlast)
    have hfields := of_decide_eq_true hmem.2
    exact .inl ⟨hmem.1, hfields.1, hfields.2.2⟩

theorem updatedRelations_cases (h : relation ∈ copy.updatedRelations id parents newID) :
    relation ∈ copy.initiativeRelations ∨
      ∃ parent ∈ parents.eraseDups, relation = ⟨newID parent, id, parent, .parent⟩ := by
  rcases mem_append.mp h with h | h
  · exact .inl (mem_of_mem_filter h)
  · obtain ⟨parent, hparent, rfl⟩ := mem_map.mp h
    rcases parentRelation_cases copy id newID parent with ⟨hmem, _⟩ | hnew
    · exact .inl hmem
    · exact .inr ⟨parent, hparent, hnew⟩

theorem applied_of_parents (operation : Operation κ)
    (hrequested : operation.requested copy = parents)
    (hids : operation.relationIDs = parents.eraseDups.map newID)
    (hnodup : (parents.eraseDups.map newID).Nodup)
    (hrelations : ours.initiativeRelations = copy.updatedRelations operation.child parents newID)
    (hinitiatives : ∀ mine ∈ ours.initiatives, mine ∈ copy.initiatives ∨
      mine.id = operation.child ∧ mine.parentInitiativeIDs = parents.eraseDups) :
    Applied copy ours operation := by
  refine ⟨fun mine hmine => ?_, fun relation hrelation => ?_, fun relation hrelation => ?_⟩
  · refine (hinitiatives mine hmine).imp_right fun ⟨hid, hparents⟩ =>
      ⟨hid, fun parent hparent => ?_⟩
    rw [hparents] at hparent
    exact .inl (hrequested ▸ mem_eraseDups.mp hparent)
  all_goals rw [hrelations] at hrelation
  · rcases updatedRelations_cases hrelation with hold | ⟨parent, hparent, rfl⟩
    · exact .inl hold
    · exact .inr ⟨rfl, fun _ => hrequested ▸ mem_eraseDups.mp hparent⟩
  · rcases updatedRelations_cases hrelation with hold | ⟨parent, hparent, rfl⟩
    · exact .inl ⟨relation, hold, rfl, rfl, rfl⟩
    · refine .inr ⟨hids ▸ mem_map_of_mem hparent, fun twin htwin hid hnew => ?_⟩
      rcases updatedRelations_cases (hrelations ▸ htwin) with hold | ⟨other, hother, rfl⟩
      · exact absurd hold hnew
      · exact ⟨rfl, inj_on_of_nodup_map hnodup hparent hother hid.symm⟩

theorem applied_updateInitiative (hnodup : (parents.eraseDups.map newID).Nodup)
    (h : copy.updateInitiative id parents newID = some ours) :
    Applied copy ours (.updateInitiative id parents newID) := by
  obtain ⟨_, ⟨⟩⟩ := ite_none_left_eq_some.mp h
  exact applied_of_parents _ rfl rfl hnodup rfl fun mine hmine => mem_setParents hmine

theorem applied_createInitiative (hnodup : (parents.eraseDups.map newID).Nodup)
    (h : copy.createInitiative id parents newID = some ours) :
    Applied copy ours (.createInitiative id parents newID) := by
  obtain ⟨_, ⟨⟩⟩ := ite_none_left_eq_some.mp h
  refine applied_of_parents _ rfl rfl hnodup rfl fun mine hmine => ?_
  rcases mem_cons.mp hmine with rfl | hold
  · exact .inr ⟨rfl, rfl⟩
  · exact .inl hold

/-! ### Changes of relations -/

theorem applied_createInitiativeRelation (h : copy.createInitiativeRelation relation = some ours) :
    Applied copy ours (.createInitiativeRelation relation) := by
  obtain ⟨_, h⟩ := ite_none_left_eq_some.mp h
  obtain ⟨_, h⟩ := ite_none_left_eq_some.mp h
  obtain ⟨_, h⟩ := ite_none_left_eq_some.mp h
  obtain ⟨data, hchange, rfl⟩ := map_eq_some_iff.mp h
  obtain ⟨hsame, hmine⟩ := applied_of_change (.createInitiativeRelation relation)
    (relation.type = .parent) true hchange
    (fun htype _ => by simp [Operation.requested, htype]) rfl
  refine ⟨hmine, fun item hitem => ?_, fun item hitem => ?_⟩
  · rcases mem_append.mp hitem with hitem | hitem
    · exact .inl (hsame ▸ hitem)
    · rw [mem_singleton.mp hitem]
      exact .inr ⟨rfl, fun htype => by simp [Operation.requested, htype]⟩
  · rcases mem_append.mp hitem with hitem | hitem
    · exact .inl ⟨item, hsame ▸ hitem, rfl, rfl, rfl⟩
    · obtain rfl := mem_singleton.mp hitem
      refine .inr ⟨mem_cons_self, fun twin htwin _ hnew => ?_⟩
      rcases mem_append.mp htwin with hold | htwin
      · exact absurd (hsame ▸ hold) hnew
      · obtain rfl := mem_singleton.mp htwin
        exact ⟨rfl, rfl⟩

theorem applied_updateInitiativeRelation {type : RelationType}
    (hcopy : (copy.initiativeRelations.map InitiativeRelation.id).Nodup)
    (h : copy.updateInitiativeRelation id relationID type = some ours) :
    Applied copy ours (.updateInitiativeRelation id relationID type) := by
  obtain ⟨previous, hprevious, h⟩ := bind_eq_some_iff.mp h
  obtain ⟨data, hchange, rfl⟩ := map_eq_some_iff.mp h
  have hrequested : type = .parent → previous.relatedInitiativeID ∈
      (Operation.updateInitiativeRelation id relationID type).requested copy := by
    intro htype
    simp [Operation.requested, htype, hprevious]
  obtain ⟨hsame, hmine⟩ := applied_of_change
    (.updateInitiativeRelation id relationID type) _ _ hchange
    (fun _ htype => hrequested (of_decide_eq_true htype)) rfl
  have hfound : previous.id = relationID ∧ previous.initiativeID = id := by
    simpa using find?_some hprevious
  refine ⟨hmine, fun item hitem => ?_, fun item hitem => ?_⟩
  · obtain ⟨old, hold, rfl⟩ := mem_map.mp hitem
    rw [hsame] at hold
    split
    · rename_i hmatch
      refine .inr ⟨hmatch.2, fun htype => ?_⟩
      have hids : old.id = previous.id := hmatch.1.trans hfound.1.symm
      have hold : old = previous :=
        inj_on_of_nodup_map hcopy hold (mem_of_find?_eq_some hprevious) hids
      exact hold ▸ hrequested htype
    · exact .inl hold
  · obtain ⟨old, hold, rfl⟩ := mem_map.mp hitem
    refine .inl ⟨old, hsame ▸ hold, ?_⟩
    split <;> exact ⟨rfl, rfl, rfl⟩

theorem applied_deleteInitiativeRelation
    (h : copy.deleteInitiativeRelation id relationID = some ours) :
    Applied copy ours (.deleteInitiativeRelation id relationID) := by
  obtain ⟨previous, hprevious, h⟩ := bind_eq_some_iff.mp h
  obtain ⟨data, hchange, rfl⟩ := map_eq_some_iff.mp h
  obtain ⟨hsame, hmine⟩ := applied_of_change (.deleteInitiativeRelation id relationID)
    _ _ hchange (fun _ hadd => by cases hadd) rfl
  refine ⟨hmine, fun item hitem => ?_, fun item hitem => ?_⟩
  · exact .inl (hsame ▸ mem_of_mem_filter hitem)
  · exact .inl ⟨item, hsame ▸ mem_of_mem_filter hitem, rfl, rfl, rfl⟩

theorem applied (operation : Operation κ) (hnodup : operation.relationIDs.Nodup)
    (hcopy : (copy.initiativeRelations.map InitiativeRelation.id).Nodup)
    (h : operation.apply copy = some ours) : Applied copy ours operation := by
  cases operation with
  | updateInitiative id parents newID => exact applied_updateInitiative hnodup h
  | createInitiative id parents newID => exact applied_createInitiative hnodup h
  | createInitiativeRelation relation => exact applied_createInitiativeRelation h
  | updateInitiativeRelation id relationID type => exact applied_updateInitiativeRelation hcopy h
  | deleteInitiativeRelation id relationID => exact applied_deleteInitiativeRelation h

end Applied

/-! ## What a write makes of the stored records -/

section Written

variable {copy ours stored written : Bootstrap κ} {operation : Operation κ} {parent id : κ}

theorem mem_mergeParents {base mine theirs : List κ} (h : parent ∈ mergeParents base mine theirs) :
    parent ∈ theirs ∨ parent ∈ mine ∧ parent ∉ base := by
  unfold mergeParents at h
  split at h
  · exact .inl h
  · split at h
    · rename_i htheirs
      by_cases hbase : parent ∈ base
      · exact .inl (htheirs ▸ hbase)
      · exact .inr ⟨h, hbase⟩
    · rcases mem_append.mp h with h | h
      · exact .inl (mem_eraseDups.mp (mem_of_mem_filter h))
      · obtain ⟨hmine, hnew⟩ := mem_filter.mp h
        exact .inr ⟨mem_eraseDups.mp hmine, (of_decide_eq_true hnew).2⟩

variable {data : Bootstrap κ} {item : Initiative κ}

theorem mem_of_initiativeByID (h : data.initiativeByID id = some item) :
    item ∈ data.initiatives ∧ item.id = id :=
  ⟨mem_of_lookup h, key_of_lookup h⟩

theorem mem_of_relationByID {item : InitiativeRelation κ} (h : data.relationByID id = some item) :
    item ∈ data.initiativeRelations ∧ item.id = id :=
  ⟨mem_of_lookup h, key_of_lookup h⟩

theorem not_mem_of_relationByID {item : InitiativeRelation κ}
    (h : (data.relationByID id).isNone) (hid : item.id = id) :
    item ∉ data.initiativeRelations :=
  fun hmem => ne_of_lookup_eq_none (isNone_iff_eq_none.mp h) item hmem hid

theorem id_rebaseInitiative (theirs : Initiative κ) :
    (rebaseInitiative copy ours theirs).id = theirs.id := by
  unfold rebaseInitiative
  split <;> rfl

theorem mem_rebaseInitiative (h : Applied copy ours operation)
    (hcopy : (copy.initiatives.map Initiative.id).Nodup) {theirs : Initiative κ}
    (hparent : parent ∈ (rebaseInitiative copy ours theirs).parentInitiativeIDs) :
    parent ∈ theirs.parentInitiativeIDs ∨ theirs.id = operation.child ∧
      (parent ∈ operation.requested copy ∨ parent ∈ operation.takenOver copy) := by
  unfold rebaseInitiative at hparent
  split at hparent
  · rename_i old mine hold hmine
    obtain ⟨hold, holdID⟩ := mem_of_initiativeByID hold
    obtain ⟨hmine, hmineID⟩ := mem_of_initiativeByID hmine
    rcases mem_mergeParents hparent with htheirs | ⟨hnew, hbase⟩
    · exact .inl htheirs
    · rcases h.initiative mine hmine with hcopied | ⟨hchild, hparents⟩
      · have hsame : mine = old :=
          inj_on_of_nodup_map hcopy hcopied hold (hmineID.trans holdID.symm)
        exact absurd (hsame ▸ hnew) hbase
      · exact .inr ⟨hmineID.symm.trans hchild, hparents parent hnew⟩
  · exact .inl hparent

theorem mem_recordParents_written (h : Applied copy ours operation)
    (hcopy : (copy.initiatives.map Initiative.id).Nodup) (hwritten : written.initiatives =
      stored.initiatives.map (rebaseInitiative copy ours) ++ createdInitiatives copy ours stored)
    (hparent : parent ∈ written.recordParents id) :
    parent ∈ stored.recordParents id ∨ id = operation.child ∧
      (parent ∈ operation.requested copy ∨ parent ∈ operation.takenOver copy) := by
  obtain ⟨item, hitem, hparent⟩ := mem_recordParents.mp hparent
  unfold Bootstrap.initiativeByID at hitem
  rw [hwritten, find?_append] at hitem
  rcases or_eq_some_iff.mp hitem with hold | ⟨_, hnew⟩
  · have hmap : lookup Initiative.id (stored.initiatives.map (rebaseInitiative copy ours)) id =
        (lookup Initiative.id stored.initiatives id).map (rebaseInitiative copy ours) :=
      lookup_map id_rebaseInitiative
    obtain ⟨theirs, hfind, rfl⟩ := map_eq_some_iff.mp (hmap.symm.trans hold)
    have hid : theirs.id = id := key_of_lookup hfind
    rcases mem_rebaseInitiative h hcopy hparent with hparent | ⟨hchild, hparent⟩
    · exact .inl (mem_recordParents.mpr ⟨theirs, hfind, hparent⟩)
    · exact .inr ⟨hid ▸ hchild, hparent⟩
  · have hid : item.id = id := key_of_lookup hnew
    obtain ⟨hmine, hcreated⟩ := mem_filter.mp (mem_of_find?_eq_some hnew)
    rw [and_eq_true] at hcreated
    rcases h.initiative item hmine with hcopied | ⟨hchild, hparents⟩
    · exact absurd rfl (ne_of_lookup_eq_none (isNone_iff_eq_none.mp hcreated.1) item hcopied)
    · exact .inr ⟨hid.symm.trans hchild, hparents parent hparent⟩

/-! ### Relations -/

def OneEnds (relations : List (InitiativeRelation κ)) : Prop :=
  ∀ a ∈ relations, ∀ b ∈ relations, a.id = b.id → a.SameEnds b

/-- Where a relation of the written workspace comes from: a stored one with its ends, of its
type or given one by the operation, or one that it has created. -/
inductive Origin (copy ours stored : Bootstrap κ) (relation : InitiativeRelation κ) : Prop where
  | kept (theirs : InitiativeRelation κ) (htheirs : theirs ∈ stored.initiativeRelations)
      (hid : theirs.id = relation.id) (hends : theirs.SameEnds relation)
      (htype : relation.type = theirs.type ∨
        ∃ mine ∈ ours.initiativeRelations, mine ∉ copy.initiativeRelations ∧
          mine.id = theirs.id ∧ mine.type = relation.type)
  | created (hmine : relation ∈ ours.initiativeRelations)
      (hcopy : (copy.relationByID relation.id).isNone = true)

theorem origin_rebaseRelation (hcopy : (copy.initiativeRelations.map InitiativeRelation.id).Nodup)
    {theirs relation : InitiativeRelation κ} (htheirs : theirs ∈ stored.initiativeRelations)
    (h : rebaseRelation copy ours theirs = some (some relation)) :
    Origin copy ours stored relation := by
  unfold rebaseRelation at h
  split at h
  · rename_i old mine hold hmine
    obtain ⟨hold, holdID⟩ := mem_of_relationByID hold
    obtain ⟨hmine, hmineID⟩ := mem_of_relationByID hmine
    obtain ⟨type, hmerge, heq⟩ := map_eq_some_iff.mp h
    obtain rfl := some.inj heq
    refine .kept theirs htheirs rfl ⟨rfl, rfl⟩ ?_
    unfold mergeScalar at hmerge
    split at hmerge
    · exact .inl (some.inj hmerge).symm
    · rename_i hchanged
      have hnew : mine ∉ copy.initiativeRelations := by
        intro hcopied
        have hsame : mine = old :=
          inj_on_of_nodup_map hcopy hcopied hold (hmineID.trans holdID.symm)
        exact hchanged (hsame ▸ rfl)
      have hmineType : some mine.type = some type := by
        split at hmerge
        · exact hmerge
        · split at hmerge
          · exact hmerge
          · cases hmerge
      exact .inr ⟨mine, hmine, hnew, hmineID, some.inj hmineType⟩
  · cases h
  · obtain rfl := some.inj (some.inj h)
    exact .kept theirs htheirs rfl ⟨rfl, rfl⟩ (.inl rfl)

theorem mem_of_mapM {α β : Type} {f : α → Option β} {xs : List α} {ys : List β}
    (h : xs.mapM f = some ys) {y : β} (hy : y ∈ ys) : ∃ x ∈ xs, f x = some y := by
  induction xs generalizing ys with
  | nil =>
    obtain rfl := some.inj h
    cases hy
  | cons x xs ih =>
    rw [mapM_cons] at h
    obtain ⟨first, hfirst, h⟩ := bind_eq_some_iff.mp h
    obtain ⟨rest, hrest, h⟩ := bind_eq_some_iff.mp h
    obtain rfl := some.inj h
    rcases mem_cons.mp hy with rfl | hy
    · exact ⟨x, mem_cons_self, hfirst⟩
    · exact exists_mem_cons_of_exists (ih hrest hy)

theorem written_of_rebase (hcopy : (copy.initiativeRelations.map InitiativeRelation.id).Nodup)
    (h : rebaseMetadata copy ours stored = some written) :
    written.initiatives =
      stored.initiatives.map (rebaseInitiative copy ours) ++ createdInitiatives copy ours stored ∧
    ∀ relation ∈ written.initiativeRelations, Origin copy ours stored relation := by
  obtain ⟨relations, hrelations, rfl⟩ := map_eq_some_iff.mp h
  refine ⟨rfl, fun relation hrelation => ?_⟩
  rcases mem_append.mp hrelation with hkept | hcreated
  · obtain ⟨kept, hmem, rfl⟩ := mem_filterMap.mp hkept
    obtain ⟨theirs, htheirs, hrebase⟩ := mem_of_mapM hrelations hmem
    exact origin_rebaseRelation hcopy htheirs hrebase
  · obtain ⟨hmine, hnone⟩ := mem_filter.mp hcreated
    rw [and_eq_true] at hnone
    exact .created hmine hnone.1

end Written

structure Inv (st : State κ) : Prop where
  bounded : Bounded st.stored.initiativeParents maxInitiativeNesting
  stored : ∀ relation ∈ st.stored.initiativeRelations, relation ∈ st.committed.initiativeRelations
  ends : OneEnds st.committed.initiativeRelations

/-- What the guards of a step say. -/
structure Taken (st : State κ) (l : Label κ) (ours written : Bootstrap κ) : Prop where
  relations : ∀ relation ∈ l.copy.initiativeRelations,
    relation ∈ st.committed.initiativeRelations
  initiativeIDs : (l.copy.initiatives.map Initiative.id).Nodup
  relationIDs : (l.copy.initiativeRelations.map InitiativeRelation.id).Nodup
  fresh : ∀ id ∈ l.operation.relationIDs, (st.committed.relationByID id).isNone = true
  applied : Applied l.copy ours l.operation
  rebased : rebaseMetadata l.copy ours st.stored = some written

theorem taken_of_step {st st' : State κ} {l : Label κ} (h : step st l = some st') :
    ∃ ours written, Taken st l ours written ∧ st' = st.commit written := by
  obtain ⟨hguard, h⟩ := ite_none_right_eq_some.mp h
  obtain ⟨ours, hours, h⟩ := bind_eq_some_iff.mp h
  obtain ⟨written, hwritten, rfl⟩ := map_eq_some_iff.mp h
  simp only [State.copyOf, State.newIDs, and_eq_true, List.all_eq_true,
    decide_eq_true_eq] at hguard
  obtain ⟨⟨⟨⟨_, hrelations⟩, hinitiativeIDs⟩, hrelationIDs⟩, ⟨hnodup, hfresh⟩, _⟩ := hguard
  exact ⟨ours, written, ⟨hrelations, hinitiativeIDs, hrelationIDs, hfresh,
    applied l.operation hnodup hrelationIDs hours, hwritten⟩, rfl⟩

section Step

variable {st : State κ} {l : Label κ} {ours written : Bootstrap κ} {id parent : κ}

theorem ends_of_applied (hinv : Inv st) (h : Taken st l ours written)
    {mine theirs : InitiativeRelation κ} (hmine : mine ∈ ours.initiativeRelations)
    (htheirs : theirs ∈ st.stored.initiativeRelations) (hid : mine.id = theirs.id) :
    mine.SameEnds theirs := by
  rcases h.applied.ends mine hmine with ⟨old, hold, holdID, hends⟩ | ⟨hnew, _⟩
  · have hsame := hinv.ends old (h.relations old hold) theirs (hinv.stored theirs htheirs)
      (holdID.trans hid)
    exact ⟨hends.1.symm.trans hsame.1, hends.2.symm.trans hsame.2⟩
  · exact absurd (hinv.stored theirs htheirs) (not_mem_of_relationByID (h.fresh _ hnew) hid.symm)

/-- The parents after a write are stored ones, or those of the child that were asked
for or taken over. -/
theorem mem_parents_written (hinv : Inv st) (h : Taken st l ours written)
    (hparent : parent ∈ written.initiativeParents id) :
    parent ∈ st.stored.initiativeParents id ∨ id = l.operation.child ∧
      (parent ∈ l.operation.requested l.copy ∨ parent ∈ l.operation.takenOver l.copy) := by
  obtain ⟨hinitiatives, horigin⟩ := written_of_rebase h.relationIDs h.rebased
  rcases mem_initiativeParents.mp hparent with hrecord | ⟨relation, hrelation, htype, rfl, rfl⟩
  · rcases mem_recordParents_written h.applied h.initiativeIDs hinitiatives hrecord with
      hold | hnew
    · exact .inl (mem_initiativeParents.mpr (.inl hold))
    · exact .inr hnew
  · cases horigin relation hrelation with
    | kept theirs htheirs hid hends hkept =>
      rcases hkept with hsame | ⟨mine, hmine, hnew, hmineID, hmineType⟩
      · exact .inl (mem_initiativeParents.mpr (.inr ⟨theirs, htheirs, hsame.symm.trans htype,
          hends.1, hends.2⟩))
      · have hmineEnds := ends_of_applied hinv h hmine htheirs hmineID
        rcases h.applied.relation mine hmine with hcopied | ⟨hchild, hrequested⟩
        · exact absurd hcopied hnew
        · have hmem := hrequested (hmineType.trans htype)
          rw [hmineEnds.2.trans hends.2] at hmem
          exact .inr ⟨(hmineEnds.1.trans hends.1).symm.trans hchild, .inl hmem⟩
    | created hmine hcopy =>
      rcases h.applied.relation relation hmine with hcopied | ⟨hchild, hrequested⟩
      · exact absurd hcopied (not_mem_of_relationByID hcopy rfl)
      · exact .inr ⟨hchild, .inl (hrequested htype)⟩

theorem ends_written (hinv : Inv st) (h : Taken st l ours written)
    {relation : InitiativeRelation κ} (hrelation : relation ∈ written.initiativeRelations) :
    (∃ old ∈ st.committed.initiativeRelations, old.id = relation.id ∧ old.SameEnds relation) ∨
      (st.committed.relationByID relation.id).isNone ∧
        relation ∈ ours.initiativeRelations ∧ relation ∉ l.copy.initiativeRelations ∧
        ∀ twin ∈ ours.initiativeRelations, twin.id = relation.id →
          twin ∉ l.copy.initiativeRelations → relation.SameEnds twin := by
  cases (written_of_rebase h.relationIDs h.rebased).2 relation hrelation with
  | kept theirs htheirs hid hends _ =>
    exact .inl ⟨theirs, hinv.stored theirs htheirs, hid, hends⟩
  | created hmine hcopy =>
    rcases h.applied.ends relation hmine with ⟨old, hold, hid, hends⟩ | ⟨hnew, htwin⟩
    · exact .inl ⟨old, h.relations old hold, hid, hends⟩
    · exact .inr ⟨h.fresh _ hnew, hmine, not_mem_of_relationByID hcopy rfl, htwin⟩

theorem oneEnds_commit (hinv : Inv st) (h : Taken st l ours written) :
    OneEnds (st.commit written).committed.initiativeRelations := by
  have hmixed : ∀ a ∈ st.committed.initiativeRelations, ∀ b ∈ written.initiativeRelations,
      a.id = b.id → a.SameEnds b := by
    intro a ha b hb hid
    rcases ends_written hinv h hb with ⟨old, hold, holdID, hends⟩ | ⟨hnone, _⟩
    · have hsame := hinv.ends a ha old hold (hid.trans holdID.symm)
      exact ⟨hsame.1.trans hends.1, hsame.2.trans hends.2⟩
    · exact absurd ha (not_mem_of_relationByID hnone hid)
  intro a ha b hb hid
  rcases mem_append.mp ha with ha | ha
  · rcases mem_append.mp hb with hb | hb
    · exact hinv.ends a ha b hb hid
    · exact hmixed a ha b hb hid
  · rcases mem_append.mp hb with hb | hb
    · have hsame := hmixed b hb a ha hid.symm
      exact ⟨hsame.1.symm, hsame.2.symm⟩
    · rcases ends_written hinv h ha with ⟨old, hold, holdID, hends⟩ | ⟨hnone, _, _, htwin⟩
      · have hsame := hmixed old hold b hb (holdID.trans hid)
        exact ⟨hends.1.symm.trans hsame.1, hends.2.symm.trans hsame.2⟩
      · rcases ends_written hinv h hb with ⟨old, hold, holdID, _⟩ | ⟨_, hmine, hnew, _⟩
        · exact absurd hold (not_mem_of_relationByID hnone (holdID.trans hid.symm))
        · exact htwin b hmine hid.symm hnew

/-- New edges of the child that pass the checks of the stored workspace keep the number
of levels. -/
theorem bounded_written (hinv : Inv st) (h : Taken st l ours written) (hsound : Sound st l) :
    Bounded written.initiativeParents maxInitiativeNesting := by
  simp only [Sound, and_eq_true, not_eq_true', List.all_eq_true,
    decide_eq_true_eq] at hsound
  obtain ⟨⟨hcycle, hnesting⟩, htaken⟩ := hsound
  have hnew : ∀ p ∈ written.initiativeParents l.operation.child,
      p ∉ st.stored.initiativeParents l.operation.child →
        p ∈ l.operation.requested l.copy := by
    intro p hp hnotstored
    rcases mem_parents_written hinv h hp with hold | ⟨_, hrequested | htakenOver⟩
    · exact absurd hold hnotstored
    · exact hrequested
    · exact absurd (htaken p htakenOver) hnotstored
  have hback : ∀ p ∈ written.initiativeParents l.operation.child,
      p ∉ st.stored.initiativeParents l.operation.child →
        ¬ReflTransGen (Link st.stored.initiativeParents) p l.operation.child :=
    fun p hp hnotstored => not_reach_of_cycle hcycle (hnew p hp hnotstored)
  refine hinv.bounded.extend ?_ hback ?_
  · intro k hk p hp
    rcases mem_parents_written hinv h hp with hold | ⟨hchild, _⟩
    · exact hold
    · exact absurd hchild hk
  · intro p hp hnotstored below above hbelow habove
    refine fits_of_nesting hinv.bounded.acyclic hnesting ?_ (hback p hp hnotstored) hbelow habove
    exact List.mem_filter.mpr ⟨hnew p hp hnotstored, by simpa using hnotstored⟩

end Step

theorem inv_step {st st' : State κ} {l : Label κ} (hinv : Inv st) (hsound : Sound st l)
    (hstep : step st l = some st') : Inv st' := by
  obtain ⟨ours, written, h, rfl⟩ := taken_of_step hstep
  exact ⟨bounded_written hinv h hsound, fun _ => mem_append_right _, oneEnds_commit hinv h⟩

/-- **The hierarchy stays bounded** in every run whose changes pass their checks against
the stored workspace as well, and that take no parent over which is not stored. -/
theorem hierarchy_of_reaches {data : Bootstrap κ}
    (hdata : Bounded data.initiativeParents maxInitiativeNesting)
    (hends : OneEnds data.initiativeRelations) {st : State κ}
    (hrun : Run.Reaches step (fun st l => Sound st l = true) (State.start data) st) :
    Promise st := by
  have hinv : Inv st := hrun.invariant (P := Inv)
    (fun _ _ _ h hsound hstep => inv_step h hsound hstep) ⟨hdata, fun _ h => h, hends⟩
  exact ⟨hinv.bounded.acyclic, hinv.bounded⟩

/-! ## Two changes -/

def flat (ids : List Nat) : Bootstrap Nat := ⟨ids.map fun id => ⟨id, []⟩, []⟩

theorem initiativeParents_flat (ids : List Nat) (id : Nat) :
    (flat ids).initiativeParents id = [] := by
  refine eq_nil_iff_forall_not_mem.mpr fun parent hparent => ?_
  rcases mem_initiativeParents.mp hparent with hrecord | ⟨_, hrelation, _⟩
  · obtain ⟨item, hitem, hparent⟩ := mem_recordParents.mp hrecord
    obtain ⟨_, _, rfl⟩ := mem_map.mp (mem_of_initiativeByID hitem).1
    cases hparent
  · cases hrelation

theorem bounded_flat (ids : List Nat) :
    Bounded (flat ids).initiativeParents maxInitiativeNesting := by
  intro chain hchain
  cases hchain with
  | nil => exact Nat.zero_le _
  | singleton => exact Nat.succ_le_succ (Nat.zero_le 4)
  | cons_cons hlink =>
    unfold Link at hlink
    rw [initiativeParents_flat] at hlink
    cases hlink

/-- A change on a copy; new relations of a child get ids of its own. -/
def move (copy : Bootstrap Nat) (child parent : Nat) : Label Nat :=
  ⟨copy, .updateInitiative child [parent] fun parent => 100 * child + parent⟩

/-- The second initiative goes under the first, and the third under the second. -/
theorem hierarchy_three_levels :
    ∃ st, Run.Reaches step (fun st l => Sound st l = true) (State.start (flat [1, 2, 3])) st ∧
      (st.stored.initiativeParents 3 = [2] ∧ st.stored.initiativeParents 2 = [1]) ∧
      Promise st := by
  refine Run.exists_reaches_and
    [move (flat [1, 2, 3]) 2 1, move ⟨[⟨1, []⟩, ⟨2, [1]⟩, ⟨3, []⟩], [⟨201, 2, 1, .parent⟩]⟩ 3 2]
    _ (by decide) fun _ hrun _ => ?_
  exact hierarchy_of_reaches (bounded_flat _) (fun _ ha => by cases ha) hrun

/-- The third initiative under the second, and the fourth under the fifth. -/
def twoBranches : Bootstrap Nat :=
  ⟨[⟨1, []⟩, ⟨2, [1]⟩, ⟨3, [2]⟩, ⟨4, [5]⟩, ⟨5, []⟩, ⟨6, []⟩], []⟩

/-- Two changes on the same copy, each of them valid there, close a cycle; and two
others make a chain of six levels. -/
theorem hierarchy_broken :
    (∃ st, Run.Reaches step Run.Unrestricted (State.start (flat [1, 2])) st ∧
      (st.stored.initiativeParents 1 = [2] ∧ st.stored.initiativeParents 2 = [1])) ∧
    ∃ st, Run.Reaches step Run.Unrestricted (State.start twoBranches) st ∧
      (2 ∈ st.stored.initiativeParents 3 ∧ 1 ∈ st.stored.initiativeParents 2 ∧
        4 ∈ st.stored.initiativeParents 1 ∧ 5 ∈ st.stored.initiativeParents 4 ∧
        6 ∈ st.stored.initiativeParents 5) :=
  ⟨Run.exists_reaches [move (flat [1, 2]) 1 2, move (flat [1, 2]) 2 1] _ (by decide),
    Run.exists_reaches [move twoBranches 1 4, move twoBranches 5 6] _ (by decide)⟩

end Flow.Ports.InitiativeHierarchy
