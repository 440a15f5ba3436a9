import Flow.Verified.Keyset
import Flow.Verified.Run
import Flow.Verified.Table

/-!
# The change log and its retention

The events of a workspace carry a cursor, `seq`, counted by a row of
`workspace_event_seq`.  Retention deletes old events in batches that go by the time
of an event, not by its seq, skip some types and never reach into the newest changes
of a workspace; `pruned` is the highest seq it has deleted.  A client pages through
the events after its cursor, and is told to reload when the log cannot continue from
it.

The tables are those of all workspaces, since a batch takes from all of them.  Three
transactions write them, each a step: an insertion, which numbers the event or leaves
that to the sequencer, a numbering, and a batch of `PruneDomainEvents`.  A page is
read from one snapshot.  How numberings are kept apart is the subject of
`Flow.Ports.EventSequencer`; here one numbers an event and moves the head at once.
-/

namespace Flow.Ports.ChangeLog

open Flow.Verified

/-- The event of a row, with the time as it is stored. -/
structure DomainEvent where
  id : String
  type : String
  aggregateID : String
  payload : String
  createdAt : String
deriving DecidableEq, Repr

/-- A row of `domain_events`. -/
structure EventRow where
  event : DomainEvent
  workspaceID : Option String
  seq : Option Nat
  actorID : Option String
deriving DecidableEq, Repr

def EventRow.id (row : EventRow) : String := row.event.id

/-- A row of `workspace_event_seq`. -/
structure Counter where
  head : Nat
  pruned : Nat
deriving DecidableEq, Repr

structure Database where
  events : List EventRow
  /-- `workspace_event_seq` by its primary key. -/
  counters : String → Option Counter

def Database.empty : Database := { events := [], counters := fun _ => none }

/-- The latest cursor of a workspace; a workspace without a row has none. -/
def Database.head (db : Database) (workspace : String) : Nat :=
  ((db.counters workspace).map Counter.head).getD 0

def Database.pruned (db : Database) (workspace : String) : Nat :=
  ((db.counters workspace).map Counter.pruned).getD 0

/-- `nextWorkspaceSeq`: the workspace with its head moved on. -/
def Database.advance (db : Database) (workspace : String) : Database :=
  let counter := (db.counters workspace).getD { head := 0, pruned := 0 }
  { db with
    counters := fun other =>
      if other = workspace then some { counter with head := counter.head + 1 }
      else db.counters other }

/-- A new event, numbered in its transaction or later (`afterCommit`). Only events of a
workspace have a cursor and an actor. -/
def Database.insertDomainEvent (db : Database) (event : DomainEvent)
    (workspaceID actorID : Option String) (afterCommit : Bool) : Option Database :=
  if event.id ∈ db.events.map EventRow.id then none
  else
    match workspaceID.filter (· ≠ "") with
    | none =>
      some { db with
        events := db.events ++
          [{ event := event, workspaceID := workspaceID, seq := none, actorID := none }] }
    | some workspace =>
      if afterCommit then
        some { db with
          events := db.events ++
            [{ event := event, workspaceID := some workspace, seq := none, actorID := actorID }] }
      else
        let next := db.advance workspace
        some { next with
          events := db.events ++
            [{ event := event, workspaceID := some workspace,
               seq := some (next.head workspace), actorID := actorID }] }

def Database.numberEvent (db : Database) (id : String) : Option Database :=
  (Table.lookup EventRow.id db.events id).bind fun row =>
    match row.seq, row.workspaceID with
    | none, some workspace =>
      let next := db.advance workspace
      some { next with
        events := Table.replace EventRow.id db.events
          { row with seq := some (next.head workspace) } }
    | _, _ => none

/-- These are never pruned. -/
def retainedDomainEventTypes : List String := ["workspace_preferences.updated"]

def domainEventPruneBatch : Nat := 1000

/-- The row is not among the newest changes of its workspace. -/
def Database.outsideWindow (db : Database) (minRows : Nat) (row : EventRow) : Bool :=
  match row.seq with
  | none => true
  | some seq => (row.workspaceID.bind db.counters).any fun c => seq + minRows ≤ c.head

/-- The row is older than the cutoff, of a type that is not retained, and outside
the window.  Times are compared as they are stored, as text. -/
def Database.prunable (db : Database) (cutoff : String) (minRows : Nat) (row : EventRow) : Bool :=
  row.event.createdAt < cutoff ∧ row.event.type ∉ retainedDomainEventTypes ∧
    db.outsideWindow minRows row

/-- What the query of a batch may answer: the oldest prunable rows, those of one
time in any order. -/
def Database.IsBatch (db : Database) (cutoff : String) (minRows : Nat)
    (rows : List EventRow) : Prop :=
  rows.Nodup ∧ (∀ row ∈ rows, row ∈ db.events ∧ db.prunable cutoff minRows row = true) ∧
    rows.length = min domainEventPruneBatch (db.events.countP (db.prunable cutoff minRows)) ∧
    ∀ row ∈ rows, ∀ other ∈ db.events, db.prunable cutoff minRows other = true →
      other ∉ rows → ¬ other.event.createdAt < row.event.createdAt

instance (db : Database) (cutoff : String) (minRows : Nat) (rows : List EventRow) :
    Decidable (db.IsBatch cutoff minRows rows) :=
  inferInstanceAs (Decidable (_ ∧ _ ∧ _ ∧ _))

def EventRow.seqIn (workspace : String) (row : EventRow) : Option Nat :=
  if row.workspaceID = some workspace then row.seq else none

def prunedThrough (rows : List EventRow) (workspace : String) : Nat :=
  (rows.filterMap (EventRow.seqIn workspace)).foldl max 0

/-- `UPDATE workspace_event_seq SET pruned=? WHERE … AND pruned<?`. -/
def Counter.prune (counter : Counter) (through : Nat) : Counter :=
  if counter.pruned < through then { counter with pruned := through } else counter

/-- `PruneDomainEvents`, given the rows that its query answers. -/
def Database.prune (db : Database) (cutoff : String) (minRows : Nat) (rows : List EventRow) :
    Option Database :=
  if db.IsBatch cutoff minRows rows then
    some
      { events := db.events.filter fun row => row.id ∉ rows.map EventRow.id
        counters := fun workspace =>
          (db.counters workspace).map (·.prune (prunedThrough rows workspace)) }
  else none

structure ChangeRecord where
  seq : Nat
  actorID : String
  event : DomainEvent
deriving DecidableEq, Repr

structure ChangePage where
  records : List ChangeRecord
  head : Nat
  hasMore : Bool
  resyncRequired : Bool
deriving DecidableEq, Repr

def EventRow.record (workspace : String) (row : EventRow) : Option ChangeRecord :=
  (row.seqIn workspace).map fun seq =>
    { seq := seq, actorID := row.actorID.getD "", event := row.event }

/-- Up to `limit` changes after `since`, oldest first. -/
def workspaceChanges (db : Database) (workspace : String) (since limit : Int) : ChangePage :=
  let limit := if limit ≤ 0 then 200 else limit.toNat
  let head := db.head workspace
  if since < 0 ∨ since > head ∨ since < db.pruned workspace then
    { records := [], head := head, hasMore := false, resyncRequired := true }
  else
    let after := (db.events.filterMap (EventRow.record workspace)).filter (since < ·.seq)
    let rows := (Keyset.inOrder ChangeRecord.seq after).take (limit + 1)
    { records := rows.take limit, head := head, hasMore := limit < rows.length
      resyncRequired := false }

inductive Label where
  | insert (event : DomainEvent) (workspaceID actorID : Option String) (afterCommit : Bool)
  | number (id : String)
  | prune (cutoff : String) (minRows : Nat) (rows : List EventRow)
deriving DecidableEq

def step (db : Database) : Label → Option Database
  | .insert event workspaceID actorID afterCommit =>
    db.insertDomainEvent event workspaceID actorID afterCommit
  | .number id => db.numberEvent id
  | .prune cutoff minRows rows => db.prune cutoff minRows rows

/-- What a page of up to `limit` changes after `since` promises: the events with the next seqs,
as many as there are or as it may hold, and whether there are more. -/
structure Contiguous (db : Database) (workspace : String) (since limit : Nat)
    (page : ChangePage) : Prop where
  seqs : page.records.map ChangeRecord.seq =
    List.range' (since + 1) (min limit (db.head workspace - since))
  records : ∀ record ∈ page.records, ∃ row ∈ db.events, row.record workspace = some record
  complete : ∀ row ∈ db.events, ∀ record, row.record workspace = some record →
    since < record.seq → record.seq ≤ since + limit → record ∈ page.records
  hasMore : page.hasMore = true ↔ min limit (db.head workspace - since) <
    db.head workspace - since

end Flow.Ports.ChangeLog
