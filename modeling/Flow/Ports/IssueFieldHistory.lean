import Flow.Verified.Json
import Flow.Verified.Run

/-!
# Field versions of an issue

A PATCH of an issue names the version that its client read.  When the issue is
at another version by now, the PATCH is still accepted if the fields that it
names have not changed since.  What has changed is kept in one record for each
issue: the version at which each field changed last, and a base version before
which nothing is known.

Not every write raises the version: a relation between two issues sets the
parent of one of them and leaves its version.
-/

namespace Flow.Ports.FieldHistory

open List Option Flow.Verified.Run
open Flow.Verified (Json)

/-! ## Issues and their fields -/

structure DocumentContent where
  id : String
  version : Nat
  content : String
  contentState : String
  contentData : Json
  updatedAt : Int
deriving DecidableEq, Repr

/-- What of an issue a PATCH can set.  Of the team, the state, the people, the
project and the labels only the ids count; times are in nanoseconds. -/
structure Issue where
  version : Nat
  title : String := ""
  description : String := ""
  descriptionState : String := ""
  documentContent : Option DocumentContent := none
  teamID : String := ""
  stateID : String := ""
  priority : Int := 0
  estimate : Option Rat := none
  assigneeID : Option String := none
  delegateID : Option String := none
  projectID : Option String := none
  projectMilestoneID : Option String := none
  cycleID : Option String := none
  dueDate : Option String := none
  slaBreachesAt : Option Int := none
  slaType : String := ""
  labelIDs : List String := []
  subscriberIDs : List String := []
  archivedAt : Option Int := none
  parentID : Option String := none
  sortOrder : Rat := 0
  icon : String := ""
  recurrence : String := ""
  nextOccurrenceAt : Option Int := none
  snoozedUntil : Option Int := none

def normalizeIssueRecord (issue : Issue) : Issue :=
  if issue.version = 0 then { issue with version := 1 } else issue

/-- The fields that are compared. -/
inductive Field where
  | title
  | description
  | teamID
  | stateID
  | priority
  | estimate
  | assigneeID
  | delegateID
  | projectID
  | projectMilestoneID
  | cycleID
  | dueDate
  | slaBreachesAt
  | slaType
  | labelIDs
  | subscriberIDs
  | archived
  | parentID
  | sortOrder
  | icon
  | recurrence
  | nextOccurrenceAt
  | snoozedUntil
deriving DecidableEq, Repr

def Field.all : List Field :=
  [.title, .description, .teamID, .stateID, .priority, .estimate, .assigneeID, .delegateID,
    .projectID, .projectMilestoneID, .cycleID, .dueDate, .slaBreachesAt, .slaType, .labelIDs,
    .subscriberIDs, .archived, .parentID, .sortOrder, .icon, .recurrence, .nextOccurrenceAt,
    .snoozedUntil]

inductive Value where
  | text (value : String)
  | texts (values : List String)
  | document (description state : String) (content : Option DocumentContent)
  | int (value : Int)
  | number (value : Option Rat)
  | time (value : Option Int)
  | flag (value : Bool)
deriving DecidableEq

def sortedIDs (values : List String) : List String :=
  (values.insertionSort (· ≤ ·)).destutter (· ≠ ·)

def issueCASValues (issue : Issue) : Field → Value
  | .title => .text issue.title
  | .description =>
    .document issue.description issue.descriptionState issue.documentContent
  | .teamID => .text issue.teamID
  | .stateID => .text issue.stateID
  | .priority => .int issue.priority
  | .estimate => .number issue.estimate
  | .assigneeID => .text (issue.assigneeID.getD "")
  | .delegateID => .text (issue.delegateID.getD "")
  | .projectID => .text (issue.projectID.getD "")
  | .projectMilestoneID => .text (issue.projectMilestoneID.getD "")
  | .cycleID => .text (issue.cycleID.getD "")
  | .dueDate => .text (issue.dueDate.getD "")
  | .slaBreachesAt => .time issue.slaBreachesAt
  | .slaType => .text issue.slaType
  | .labelIDs => .texts (sortedIDs issue.labelIDs)
  | .subscriberIDs => .texts (sortedIDs issue.subscriberIDs)
  | .archived => .flag issue.archivedAt.isSome
  | .parentID => .text (issue.parentID.getD "")
  | .sortOrder => .number (some issue.sortOrder)
  | .icon => .text issue.icon
  | .recurrence => .text issue.recurrence
  | .nextOccurrenceAt => .time issue.nextOccurrenceAt
  | .snoozedUntil => .time issue.snoozedUntil

def changedFields (before issue : Issue) : List Field :=
  Field.all.filter fun field => issueCASValues before field ≠ issueCASValues issue field

/-- The members of a PATCH.  `documentUpdateIds` stands for a list that is not
empty, and `descriptionData` also for an empty object. -/
inductive Member where
  | expectedVersion
  | expectedDocumentVersion
  | documentUpdateIDs
  | descriptionState
  | descriptionData
  | contentState
  /-- A member that is named like the field that it sets. -/
  | field (field : Field)
deriving DecidableEq, Repr

/-- The fields that a member stands for.  An assignee that is an application
becomes the delegate, so both count. -/
def Member.fields : Member → List Field
  | .expectedVersion | .expectedDocumentVersion => []
  | .documentUpdateIDs | .descriptionState | .descriptionData | .contentState => [.description]
  | .field .assigneeID => [.delegateID, .assigneeID]
  | .field named => [named]

/-- What a caller sends: a PATCH, or some other payload. -/
inductive Payload where
  | patch (members : List Member)
  | other
deriving DecidableEq, Repr

/-- The fields that a PATCH names; other payloads opt out of the comparison. -/
def issueCASFields : Payload → Option (List Field)
  | .patch members => some (members.flatMap Member.fields)
  | .other => none

/-! ## The record of changes -/

structure IssueFieldHistory where
  version : Nat
  baseVersion : Nat
  /-- The version at which a field changed last; 0 for one without an entry. -/
  fields : Field → Nat

def recordIssueFieldHistory (before : Option Issue) (stored : Option IssueFieldHistory)
    (issue : Issue) : IssueFieldHistory :=
  let issue := normalizeIssueRecord issue
  match before with
  | none =>
    -- the first write compares with an issue that has no fields and version 0
    { version := issue.version
      baseVersion := issue.version
      fields := fun field =>
        if field ∈ changedFields { version := 0 } issue then issue.version else 0 }
  | some before =>
    let before := normalizeIssueRecord before
    let history : IssueFieldHistory :=
      match stored.filter fun history => history.version = before.version with
      | some history => { history with version := issue.version }
      | none =>
        { version := issue.version, baseVersion := before.version, fields := fun _ => 0 }
    let changed := changedFields before issue
    { version := issue.version
      baseVersion :=
        if changed ≠ [] ∧ issue.version ≤ before.version then issue.version
        else history.baseVersion
      fields := fun field =>
        if field ∈ changed then issue.version else history.fields field }

/-- Whether a payload that expects a version may be applied. Every field of a PATCH has a value,
so the check for an unknown one is left out. -/
def checkIssueFieldVersion (issue : Issue) (stored : Option IssueFieldHistory) (expected : Nat)
    (payload : Payload) : Bool :=
  if issue.version = expected then true
  else
    match issueCASFields payload with
    | none => false
    | some fields =>
      if expected < 1 ∨ issue.version < expected then false
      else
        match stored with
        | none => false
        | some history =>
          if history.version ≠ issue.version ∨ expected < history.baseVersion then false
          else fields.all fun field => history.fields field ≤ expected

/-- A client that has read the issue and is about to send a payload. -/
structure Read where
  version : Nat
  payload : Payload
  /-- The fields that writes have changed since the read. -/
  changed : List Field := []

structure State where
  issue : Option Issue
  history : Option IssueFieldHistory
  reads : List Read := []

inductive Label where
  | read (payload : Payload)
  /-- A write, under the lock of the issue, that leaves it as given. -/
  | write (issue : Issue)

def Read.after (before issue : Issue) (read : Read) : Read :=
  { read with changed := read.changed ++ changedFields before issue }

/-- A write raises the version or leaves it. -/
def State.step (s : State) : Label → Option State
  | .read payload => s.issue.map fun issue =>
    { s with reads := s.reads ++ [{ version := issue.version, payload }] }
  | .write written =>
    let issue := normalizeIssueRecord written
    let history := recordIssueFieldHistory s.issue s.history written
    match s.issue with
    | none => some { s with issue := some issue, history := some history }
    | some before =>
      if issue.version < before.version then none
      else some
        { issue := some issue
          history := some history
          reads := s.reads.map (Read.after before issue) }

/-! ## What is promised -/

/-- If the payload of a client is accepted, then no write since its read has
changed a field that it sets. -/
def State.Sound (s : State) : Prop :=
  ∀ issue ∈ s.issue, ∀ read ∈ s.reads,
    checkIssueFieldVersion issue s.history read.version read.payload →
      ∀ fields ∈ issueCASFields read.payload, ∀ field ∈ fields, field ∉ read.changed

instance (s : State) : Decidable s.Sound := by
  unfold State.Sound
  infer_instance

/-- The write does not leave the issue at the version that a client has read
and change a field that the client is about to set. -/
def Versioned (s : State) : Label → Prop
  | .read _ => True
  | .write issue =>
    ∀ before ∈ s.issue, (normalizeIssueRecord issue).version = before.version →
      ∀ read ∈ s.reads, read.version = before.version →
        ∀ fields ∈ issueCASFields read.payload, ∀ field ∈ fields,
          field ∉ changedFields before (normalizeIssueRecord issue)

instance (s : State) : DecidablePred (Versioned s)
  | .read _ => isTrue trivial
  | .write issue =>
    decidable_of_iff
      (s.issue.all fun before =>
        (normalizeIssueRecord issue).version != before.version || s.reads.all fun read =>
          read.version != before.version || (issueCASFields read.payload).all fun fields =>
            fields.all fun field =>
              !(changedFields before (normalizeIssueRecord issue)).contains field)
      (by simp [Versioned, Option.all_eq_true, Decidable.imp_iff_not_or])

theorem normalizeIssueRecord_version (issue : Issue) :
    (normalizeIssueRecord issue).version ≠ 0 := by
  unfold normalizeIssueRecord
  split
  · exact Nat.one_ne_zero
  · assumption

theorem normalizeIssueRecord_of_ne {issue : Issue} (h : issue.version ≠ 0) :
    normalizeIssueRecord issue = issue := if_neg h

section Record

variable {before issue : Issue} {stored : Option IssueFieldHistory}

theorem record_fields_of_mem {field : Field} (hbefore : before.version ≠ 0)
    (h : field ∈ changedFields before (normalizeIssueRecord issue)) :
    (recordIssueFieldHistory (some before) stored issue).fields field =
      (normalizeIssueRecord issue).version := by
  simp only [recordIssueFieldHistory, normalizeIssueRecord_of_ne hbefore]
  exact if_pos h

theorem record_fields_of_not_mem {field : Field} {history : IssueFieldHistory}
    (hbefore : before.version ≠ 0) (hversion : history.version = before.version)
    (h : field ∉ changedFields before (normalizeIssueRecord issue)) :
    (recordIssueFieldHistory (some before) (some history) issue).fields field =
      history.fields field := by
  simp only [recordIssueFieldHistory, normalizeIssueRecord_of_ne hbefore, filter_some, hversion]
  exact if_neg h

theorem record_baseVersion {history : IssueFieldHistory} (hbefore : before.version ≠ 0)
    (hversion : history.version = before.version) :
    (recordIssueFieldHistory (some before) (some history) issue).baseVersion = history.baseVersion ∨
      (recordIssueFieldHistory (some before) (some history) issue).baseVersion =
        (normalizeIssueRecord issue).version := by
  simp only [recordIssueFieldHistory, normalizeIssueRecord_of_ne hbefore, filter_some, hversion]
  split
  · exact Or.inr rfl
  · exact Or.inl rfl

end Record

/-! ## Clients and the record -/

/-- A read is not ahead of the issue, and a field that has changed since is recorded at a later
version, or the record begins at one. -/
structure Tracked (issue : Issue) (stored : Option IssueFieldHistory) (read : Read) : Prop where
  version_le : read.version ≤ issue.version
  changed : ∀ fields ∈ issueCASFields read.payload, ∀ field ∈ fields, field ∈ read.changed →
    read.version < issue.version ∧ ∃ history ∈ stored, history.version = issue.version ∧
      (read.version < history.fields field ∨ read.version < history.baseVersion)

theorem Tracked.new (issue : Issue) (stored : Option IssueFieldHistory) (payload : Payload) :
    Tracked issue stored { version := issue.version, payload } where
  version_le := Nat.le_refl _
  changed := fun _ _ _ _ hmem => absurd hmem not_mem_nil

/-- A field that changed before the write stays recorded, and one that the
write changes is recorded at the version of the write. -/
theorem Tracked.write {before issue : Issue} {stored : Option IssueFieldHistory} {read : Read}
    (h : Tracked before stored read) (hbefore : before.version ≠ 0)
    (hle : before.version ≤ (normalizeIssueRecord issue).version)
    (hversioned : (normalizeIssueRecord issue).version = before.version →
      read.version = before.version → ∀ fields ∈ issueCASFields read.payload, ∀ field ∈ fields,
        field ∉ changedFields before (normalizeIssueRecord issue)) :
    Tracked (normalizeIssueRecord issue) (some (recordIssueFieldHistory (some before) stored issue))
      (read.after before (normalizeIssueRecord issue)) where
  version_le := Nat.le_trans h.version_le hle
  changed := by
    intro fields hfields field hfield hmem
    have hread := h.version_le
    by_cases hnow : field ∈ changedFields before (normalizeIssueRecord issue)
    · have hlt : read.version < (normalizeIssueRecord issue).version := by
        by_contra hnot
        exact hversioned (by omega) (by omega) fields hfields field hfield hnow
      refine ⟨hlt, _, rfl, rfl, Or.inl ?_⟩
      rw [record_fields_of_mem hbefore hnow]
      exact hlt
    · have hold : field ∈ read.changed := (mem_append.1 hmem).resolve_right hnow
      obtain ⟨hlt, history, hstored, hversion, hrecorded⟩ :=
        h.changed fields hfields field hfield hold
      cases hstored
      refine ⟨Nat.lt_of_lt_of_le hlt hle, _, rfl, rfl, ?_⟩
      rw [record_fields_of_not_mem hbefore hversion hnow]
      refine hrecorded.imp id fun hbase => ?_
      rcases @record_baseVersion before issue history hbefore hversion with heq | heq <;> rw [heq]
      · exact hbase
      · exact Nat.lt_of_lt_of_le hlt hle

theorem Tracked.not_mem_changed {issue : Issue} {stored : Option IssueFieldHistory} {read : Read}
    (h : Tracked issue stored read)
    (hcheck : checkIssueFieldVersion issue stored read.version read.payload)
    {fields : List Field} (hfields : fields ∈ issueCASFields read.payload) {field : Field}
    (hfield : field ∈ fields) : field ∉ read.changed := by
  intro hmem
  obtain ⟨hlt, history, hstored, hversion, hrecorded⟩ := h.changed fields hfields field hfield hmem
  cases hstored
  unfold checkIssueFieldVersion at hcheck
  rw [if_neg (Nat.ne_of_gt hlt), hfields] at hcheck
  dsimp only at hcheck
  split at hcheck
  · cases hcheck
  · split at hcheck
    · cases hcheck
    · next hnot =>
        have hle := of_decide_eq_true (all_eq_true.1 hcheck field hfield)
        rcases hrecorded with hrecorded | hrecorded
        · exact absurd hle (Nat.not_le_of_lt hrecorded)
        · exact hnot (Or.inr hrecorded)

def State.Tracked (s : State) : Prop :=
  match s.issue with
  | none => s.reads = []
  | some issue => issue.version ≠ 0 ∧ ∀ read ∈ s.reads, FieldHistory.Tracked issue s.history read

def State.loaded (issue : Option Issue) (history : Option IssueFieldHistory) : State :=
  { issue := issue.map normalizeIssueRecord, history }

theorem State.tracked_loaded (issue : Option Issue) (history : Option IssueFieldHistory) :
    (State.loaded issue history).Tracked := by
  cases issue with
  | none => rfl
  | some issue =>
    exact ⟨normalizeIssueRecord_version issue, fun _ hread => absurd hread not_mem_nil⟩

theorem State.Tracked.step {s t : State} {a : Label} (h : s.Tracked) (ha : Versioned s a)
    (hstep : s.step a = some t) : t.Tracked := by
  obtain ⟨current, history, reads⟩ := s
  cases a with
  | read payload =>
    cases current with
    | none => cases hstep
    | some issue =>
      cases hstep
      refine ⟨h.1, fun read hread => ?_⟩
      rcases mem_append.1 hread with hread | hread
      · exact h.2 read hread
      · cases mem_singleton.1 hread
        exact FieldHistory.Tracked.new issue history payload
  | write issue =>
    cases current with
    | none =>
      cases hstep
      refine ⟨normalizeIssueRecord_version issue, fun read hread => ?_⟩
      rw [show reads = [] from h] at hread
      cases hread
    | some before =>
      simp only [State.step] at hstep
      split at hstep
      · cases hstep
      · next hle =>
          cases hstep
          refine ⟨normalizeIssueRecord_version issue, fun read hread => ?_⟩
          obtain ⟨read, hmem, rfl⟩ := mem_map.1 hread
          exact (h.2 read hmem).write h.1 (Nat.le_of_not_lt hle) fun heq hread =>
            ha before rfl heq read hmem hread

theorem State.Tracked.sound {s : State} (h : s.Tracked) : s.Sound := by
  intro issue hissue read hread hcheck fields hfields field hfield
  unfold State.Tracked at h
  rw [mem_def.1 hissue] at h
  exact (h.2 read hread).not_mem_changed hcheck hfields hfield

/-- **Fields are compared soundly** in every run without a write that leaves the version at what
a client has read and changes a field that the client is about to set: an accepted PATCH sets
only fields unchanged since the read. -/
theorem changed_of_reaches {issue : Option Issue} {history : Option IssueFieldHistory}
    {s : State} (h : Reaches State.step Versioned (State.loaded issue history) s) : s.Sound :=
  (Reaches.invariant (fun _ _ _ hs ha hstep => State.Tracked.step hs ha hstep) h
    (State.tracked_loaded issue history)).sound

/-- Some client's payload is accepted although the issue has a later version. -/
def State.AcceptsOlder (s : State) : Prop :=
  ∃ issue ∈ s.issue, ∃ read ∈ s.reads, read.version < issue.version ∧
    checkIssueFieldVersion issue s.history read.version read.payload

instance (s : State) : Decidable s.AcceptsOlder := by
  unfold State.AcceptsOlder
  infer_instance

/-- A client sets the title after two writes, of which one leaves the version
and changes the parent. -/
theorem changed_after_relation :
    ∃ s, Reaches State.step Versioned (State.loaded (some { version := 3 }) none) s ∧
      s.AcceptsOlder ∧ s.Sound := by
  refine exists_reaches_and
    [.read (.patch [.expectedVersion, .field .title]),
      .write { version := 3, parentID := some "p" },
      .write { version := 4, parentID := some "p", priority := 1 }] _ (by decide)
      fun _ hs _ => ?_
  exact changed_of_reaches hs

/-- A client has read the issue and is about to set its parent; a relation sets another and
leaves the version. The PATCH is accepted at once, and also after a further write that raises
the version. -/
theorem accepted_over_a_change :
    (∃ s, Reaches State.step Unrestricted (State.loaded (some { version := 3 }) none) s ∧
      ¬s.Sound ∧ s.issue.map Issue.version = some 3) ∧
    (∃ s, Reaches State.step Unrestricted (State.loaded (some { version := 3 }) none) s ∧
      ¬s.Sound ∧ s.issue.map Issue.version = some 4) :=
  ⟨exists_reaches
      [.read (.patch [.expectedVersion, .field .parentID]),
        .write { version := 3, parentID := some "p" }]
      (State.loaded (some { version := 3 }) none) (by decide),
    exists_reaches
      [.read (.patch [.expectedVersion, .field .parentID]),
        .write { version := 3, parentID := some "p" },
        .write { version := 4, parentID := some "p", priority := 1 }]
      (State.loaded (some { version := 3 }) none) (by decide)⟩

end Flow.Ports.FieldHistory
