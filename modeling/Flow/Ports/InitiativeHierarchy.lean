import Flow.Verified.Layers
import Flow.Verified.Run

/-!
# The hierarchy of initiatives

An initiative names its parents in its own record, and older workspaces in relations
of type `parent` as well; the parent graph has both.  A change of parents is checked
against the server's own copy of the workspace: no parent may lead back to the
initiative, and the chain below it and the chain above a new parent may not have more
than five levels together.

What the change has made of the copy is written record by record, each merged with the
stored one: lists of ids are merged as sets, a record that another write has deleted is
not brought back, and a record that the change has deleted goes.

A server refreshes single records, so a copy has records that were committed at
different times.  Ids of new records are new.
-/

namespace Flow.Ports.InitiativeHierarchy

open Flow.Verified Layers

/-! ## Initiatives -/

inductive RelationType where
  | related
  | parent
  | blocks
  | blockedBy
deriving DecidableEq, Repr

structure Initiative (κ : Type) where
  id : κ
  parentInitiativeIDs : List κ
deriving DecidableEq, Repr

structure InitiativeRelation (κ : Type) where
  id : κ
  initiativeID : κ
  relatedInitiativeID : κ
  type : RelationType
deriving DecidableEq, Repr

structure Bootstrap (κ : Type) where
  initiatives : List (Initiative κ)
  initiativeRelations : List (InitiativeRelation κ)
deriving DecidableEq, Repr

variable {κ : Type} [DecidableEq κ]

def Bootstrap.initiativeByID (data : Bootstrap κ) (id : κ) : Option (Initiative κ) :=
  data.initiatives.find? fun item => item.id = id

def Bootstrap.relationByID (data : Bootstrap κ) (id : κ) : Option (InitiativeRelation κ) :=
  data.initiativeRelations.find? fun item => item.id = id

def Bootstrap.recordParents (data : Bootstrap κ) (id : κ) : List κ :=
  ((data.initiativeByID id).map Initiative.parentInitiativeIDs).getD []

def InitiativeRelation.addParent (id : κ) (parents : List κ) (relation : InitiativeRelation κ) :
    List κ :=
  if relation.type = .parent ∧ relation.initiativeID = id ∧
      relation.relatedInitiativeID ∉ parents then
    parents ++ [relation.relatedInitiativeID]
  else parents

def Bootstrap.initiativeParents (data : Bootstrap κ) (id : κ) : List κ :=
  data.initiativeRelations.foldl (InitiativeRelation.addParent id) (data.recordParents id)

def Bootstrap.keys (data : Bootstrap κ) : List κ :=
  data.initiatives.map Initiative.id ++
    data.initiativeRelations.map InitiativeRelation.initiativeID

/-- `InitiativeParentCycle`; there is fuel for every candidate and every parent. -/
def Bootstrap.initiativeParentCycle (data : Bootstrap κ) (child : κ) (candidates : List κ) :
    Bool :=
  search data.initiativeParents child
    (candidates.length + unvisited data.initiativeParents data.keys []) [] candidates.reverse

def maxInitiativeNesting : Nat := 5

def Bootstrap.children (data : Bootstrap κ) (id : κ) : List κ :=
  data.keys.eraseDups.flatMap fun key =>
    ((data.initiativeParents key).filter fun parent => parent = id).map fun _ => key

/-- `longestInitiativeChain` of the parents above a candidate. -/
def Bootstrap.above (data : Bootstrap κ) (child candidate : κ) : Nat :=
  longest data.initiativeParents data.keys.length candidate [child]

/-- `longestInitiativeChain` of the children below an initiative. -/
def Bootstrap.below (data : Bootstrap κ) (child : κ) : Nat :=
  longest data.children (data.keys.flatMap data.initiativeParents).length child []

def Bootstrap.initiativeNestingTooDeep (data : Bootstrap κ) (child : κ) (candidates : List κ) :
    Bool :=
  if candidates = [] then false
  else candidates.any fun candidate =>
    maxInitiativeNesting < data.above child candidate + data.below child + 2

/-! ## Changes of parents -/

def Bootstrap.setParents (data : Bootstrap κ) (id : κ) (parents : List κ) : Bootstrap κ :=
  { data with
    initiatives := data.initiatives.map fun item =>
      if item.id = id then { item with parentInitiativeIDs := parents } else item }

/-- The parents that `changeInitiativeParent` writes. -/
def Bootstrap.changedParents (data : Bootstrap κ) (child parent : κ) (add : Bool) : List κ :=
  (data.initiativeParents child).filter (· ≠ parent) ++ if add then [parent] else []

def Bootstrap.changeInitiativeParent (data : Bootstrap κ) (child parent : κ) (add : Bool) :
    Option (Bootstrap κ) :=
  if data.initiativeByID child = none then none
  else if add ∧ data.initiativeParentCycle child [parent] then none
  else if add ∧ parent ∉ data.initiativeParents child ∧
      data.initiativeNestingTooDeep child [parent] then none
  else some (data.setParents child (data.changedParents child parent add))

def Bootstrap.parentRelation (data : Bootstrap κ) (id : κ) (newID : κ → κ) (parent : κ) :
    InitiativeRelation κ :=
  ((data.initiativeRelations.filter fun relation =>
      relation.initiativeID = id ∧ relation.type = .parent ∧
        relation.relatedInitiativeID = parent).getLast?).getD
    ⟨newID parent, id, parent, .parent⟩

/-- Whether `applyInitiativeUpdate` refuses the parents. -/
def Bootstrap.refusesParents (data : Bootstrap κ) (id : κ) (parents : List κ) : Bool :=
  data.initiativeParentCycle id parents ||
    data.initiativeNestingTooDeep id
      (parents.filter fun parent => parent ∉ data.initiativeParents id) ||
    parents.any fun parent => parent = id || (data.initiativeByID parent).isNone

def Bootstrap.updatedRelations (data : Bootstrap κ) (id : κ) (parents : List κ) (newID : κ → κ) :
    List (InitiativeRelation κ) :=
  (data.initiativeRelations.filter fun relation =>
      ¬(relation.initiativeID = id ∧ relation.type = .parent)) ++
    parents.eraseDups.map (data.parentRelation id newID)

/-- The parents of `applyInitiativeUpdate`, for the record of an initiative that is
there. -/
def Bootstrap.updateInitiative (data : Bootstrap κ) (id : κ) (parents : List κ) (newID : κ → κ) :
    Option (Bootstrap κ) :=
  if data.initiativeByID id = none ∨ data.refusesParents id parents then none
  else some
    { data.setParents id parents.eraseDups with
      initiativeRelations := data.updatedRelations id parents newID }

def Bootstrap.createInitiative (data : Bootstrap κ) (id : κ) (parents : List κ) (newID : κ → κ) :
    Option (Bootstrap κ) :=
  if data.refusesParents id parents then none
  else some
    { initiatives := ⟨id, parents.eraseDups⟩ :: data.initiatives
      initiativeRelations := data.updatedRelations id parents newID }

def Bootstrap.createInitiativeRelation (data : Bootstrap κ) (relation : InitiativeRelation κ) :
    Option (Bootstrap κ) :=
  if relation.relatedInitiativeID = relation.initiativeID then none
  else if data.initiativeByID relation.initiativeID = none ∨
      data.initiativeByID relation.relatedInitiativeID = none then none
  else if data.initiativeRelations.any fun item =>
      item.initiativeID = relation.initiativeID &&
        item.relatedInitiativeID = relation.relatedInitiativeID && item.type = relation.type then
    none
  else
    (if relation.type = .parent then
        data.changeInitiativeParent relation.initiativeID relation.relatedInitiativeID true
      else some data).map fun data =>
    { data with initiativeRelations := data.initiativeRelations ++ [relation] }

def Bootstrap.relationOf (data : Bootstrap κ) (id relationID : κ) :
    Option (InitiativeRelation κ) :=
  data.initiativeRelations.find? fun item => item.id = relationID ∧ item.initiativeID = id

def changesParent (previous type : RelationType) : Bool :=
  previous ≠ type && (previous = .parent || type = .parent)

def Bootstrap.updateInitiativeRelation (data : Bootstrap κ) (id relationID : κ)
    (type : RelationType) : Option (Bootstrap κ) :=
  (data.relationOf id relationID).bind fun previous =>
    (if changesParent previous.type type then
        data.changeInitiativeParent id previous.relatedInitiativeID (type = .parent)
      else some data).map fun data =>
    { data with
      initiativeRelations := data.initiativeRelations.map fun item =>
        if item.id = relationID ∧ item.initiativeID = id then { item with type } else item }

def Bootstrap.deleteInitiativeRelation (data : Bootstrap κ) (id relationID : κ) :
    Option (Bootstrap κ) :=
  (data.relationOf id relationID).bind fun previous =>
    (if previous.type = .parent then
        data.changeInitiativeParent id previous.relatedInitiativeID false
      else some data).map fun data =>
    { data with
      initiativeRelations := data.initiativeRelations.filter fun item =>
        ¬(item.id = relationID ∧ item.initiativeID = id) }

inductive Operation (κ : Type) where
  | updateInitiative (id : κ) (parents : List κ) (newID : κ → κ)
  | createInitiative (id : κ) (parents : List κ) (newID : κ → κ)
  | createInitiativeRelation (relation : InitiativeRelation κ)
  | updateInitiativeRelation (id relationID : κ) (type : RelationType)
  | deleteInitiativeRelation (id relationID : κ)

def Operation.apply (copy : Bootstrap κ) : Operation κ → Option (Bootstrap κ)
  | .updateInitiative id parents newID => copy.updateInitiative id parents newID
  | .createInitiative id parents newID => copy.createInitiative id parents newID
  | .createInitiativeRelation relation => copy.createInitiativeRelation relation
  | .updateInitiativeRelation id relationID type =>
    copy.updateInitiativeRelation id relationID type
  | .deleteInitiativeRelation id relationID => copy.deleteInitiativeRelation id relationID

/-! ## Writing -/

/-- `mergeMetadataValues` of a value that does not merge with another. -/
def mergeScalar {α : Type} [DecidableEq α] (base ours theirs : α) : Option α :=
  if ours = base then some theirs
  else if theirs = base then some ours
  else if ours = theirs then some ours
  else none

/-- `mergeMetadataLists` of lists of ids. -/
def mergeIDs (base ours theirs : List κ) : List κ :=
  theirs.eraseDups.filter (fun id => ¬(id ∈ base ∧ id ∉ ours)) ++
    ours.eraseDups.filter fun id => id ∉ theirs ∧ id ∉ base

def mergeParents (base ours theirs : List κ) : List κ :=
  if ours = base then theirs
  else if theirs = base then ours
  else mergeIDs base ours theirs

def rebaseInitiative (base ours : Bootstrap κ) (theirs : Initiative κ) : Initiative κ :=
  match base.initiativeByID theirs.id, ours.initiativeByID theirs.id with
  | some old, some mine =>
    { theirs with
      parentInitiativeIDs :=
        mergeParents old.parentInitiativeIDs mine.parentInitiativeIDs theirs.parentInitiativeIDs }
  | _, _ => theirs

/-- A stored relation with our change: `none` when it does not merge, and `some none`
when it goes. -/
def rebaseRelation (base ours : Bootstrap κ) (theirs : InitiativeRelation κ) :
    Option (Option (InitiativeRelation κ)) :=
  match base.relationByID theirs.id, ours.relationByID theirs.id with
  | some old, some mine =>
    (mergeScalar old.type mine.type theirs.type).map fun type => some { theirs with type }
  | some _, none => some none
  | none, _ => some (some theirs)

def createdInitiatives (base ours stored : Bootstrap κ) : List (Initiative κ) :=
  ours.initiatives.filter fun item =>
    (base.initiativeByID item.id).isNone && (stored.initiativeByID item.id).isNone

def createdRelations (base ours stored : Bootstrap κ) : List (InitiativeRelation κ) :=
  ours.initiativeRelations.filter fun item =>
    (base.relationByID item.id).isNone && (stored.relationByID item.id).isNone

/-- `rebaseMetadata` and the write of the records; `none` for a conflict. -/
def rebaseMetadata (base ours stored : Bootstrap κ) : Option (Bootstrap κ) :=
  (stored.initiativeRelations.mapM (rebaseRelation base ours)).map fun relations =>
    { initiatives :=
        stored.initiatives.map (rebaseInitiative base ours) ++ createdInitiatives base ours stored
      initiativeRelations :=
        relations.filterMap (fun relation => relation) ++ createdRelations base ours stored }

structure State (κ : Type) where
  stored : Bootstrap κ
  /-- The records that were committed at any time. -/
  committed : Bootstrap κ

def State.start (data : Bootstrap κ) : State κ := ⟨data, data⟩

def State.commit (st : State κ) (data : Bootstrap κ) : State κ where
  stored := data
  committed :=
    { initiatives := st.committed.initiatives ++ data.initiatives
      initiativeRelations := st.committed.initiativeRelations ++ data.initiativeRelations }

structure Label (κ : Type) where
  copy : Bootstrap κ
  operation : Operation κ

/-- Every record of a copy was committed, and it has one record of an id. -/
def State.copyOf (st : State κ) (copy : Bootstrap κ) : Bool :=
  copy.initiatives.all (· ∈ st.committed.initiatives) &&
    copy.initiativeRelations.all (· ∈ st.committed.initiativeRelations) &&
    decide (copy.initiatives.map Initiative.id).Nodup &&
    decide (copy.initiativeRelations.map InitiativeRelation.id).Nodup

def Operation.relationIDs : Operation κ → List κ
  | .updateInitiative _ parents newID => parents.eraseDups.map newID
  | .createInitiative _ parents newID => parents.eraseDups.map newID
  | .createInitiativeRelation relation => [relation.id]
  | _ => []

def Operation.initiativeID : Operation κ → Option κ
  | .createInitiative id _ _ => some id
  | _ => none

def State.newIDs (st : State κ) (operation : Operation κ) : Bool :=
  decide operation.relationIDs.Nodup &&
    operation.relationIDs.all (fun id => (st.committed.relationByID id).isNone) &&
    operation.initiativeID.all fun id => (st.committed.initiativeByID id).isNone

def step (st : State κ) (l : Label κ) : Option (State κ) :=
  if st.copyOf l.copy && st.newIDs l.operation then
    (l.operation.apply l.copy).bind fun ours =>
      (rebaseMetadata l.copy ours st.stored).map st.commit
  else none

/-! ## What the checks promise -/

/-- No cycle, and no chain with more levels than allowed. -/
structure Promise (st : State κ) : Prop where
  acyclic : Acyclic st.stored.initiativeParents
  bounded : Bounded st.stored.initiativeParents maxInitiativeNesting

def Operation.child : Operation κ → κ
  | .updateInitiative id _ _ => id
  | .createInitiative id _ _ => id
  | .createInitiativeRelation relation => relation.initiativeID
  | .updateInitiativeRelation id _ _ => id
  | .deleteInitiativeRelation id _ => id

def Operation.requested (copy : Bootstrap κ) : Operation κ → List κ
  | .updateInitiative _ parents _ => parents
  | .createInitiative _ parents _ => parents
  | .createInitiativeRelation relation =>
    if relation.type = .parent then [relation.relatedInitiativeID] else []
  | .updateInitiativeRelation id relationID type =>
    if type = .parent then
      ((copy.relationOf id relationID).map InitiativeRelation.relatedInitiativeID).toList
    else []
  | .deleteInitiativeRelation _ _ => []

/-- The parents that an operation takes over from its copy: a change of a relation
writes all parents of the initiative. -/
def Operation.takenOver (copy : Bootstrap κ) : Operation κ → List κ
  | .updateInitiative _ _ _ => []
  | .createInitiative _ _ _ => []
  | operation => copy.initiativeParents operation.child

/-- The requested parents pass the checks against the stored workspace as well, and the parents
taken over from the copy are stored. -/
def Sound (st : State κ) (l : Label κ) : Bool :=
  let child := l.operation.child
  let requested := l.operation.requested l.copy
  !st.stored.initiativeParentCycle child requested &&
    !st.stored.initiativeNestingTooDeep child
      (requested.filter fun parent => parent ∉ st.stored.initiativeParents child) &&
    (l.operation.takenOver l.copy).all fun parent => parent ∈ st.stored.initiativeParents child

end Flow.Ports.InitiativeHierarchy
