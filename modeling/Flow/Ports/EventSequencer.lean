import Flow.Verified.Run
import Mathlib.Data.List.Sort

/-!
# The change-log sequencer

A writer commits its events without a cursor, together with one
`domain_event_sequencing` row for each, whose `order_id` comes from an auto-increment
counter.  A numbering transaction, holding the workspace's numbering lock, reads at
most `sequencingBatch` committed rows in `order_id` order, gives the events that still
lack one the next seqs, retires the rows and moves the workspace's head on.  Readers
page through the numbered events from a cursor.

This is one workspace: its tables, the statements of `sequenceWorkspaceBatch` and
`sequencePostgresBatch` as functions of what is committed when they run,
`workspaceChanges`, and `step`, which interleaves open write transactions, one
numbering, retention and any number of readers.  Each statement of a numbering is a
step of its own on the dialect that runs them one by one.

A workspace without a `workspace_event_seq` row reads as head and pruned zero, which
is how `lockEventHead` and the readers treat it.
-/

namespace Flow.Ports.EventSequencer

open Flow.Verified.Run

def sequencingBatch : Nat := 500

/-- One `domain_events` row of the workspace; `seq` is its cursor. -/
structure EventRow where
  id : String
  seq : Option Nat
deriving DecidableEq, Repr

/-- One `domain_event_sequencing` row of the workspace. -/
structure SequencingRow where
  orderId : Nat
  eventId : String
deriving DecidableEq, Repr

structure Database where
  events : List EventRow
  queue : List SequencingRow
  head : Nat
  pruned : Nat
deriving DecidableEq, Repr

/-- An open write transaction: the events it inserted that have no
sequencing row yet, and the sequencing rows it has written. -/
structure Writer where
  sequencing : List String
  queued : List SequencingRow
deriving DecidableEq, Repr

/-- The numbering transaction that holds the lock, after each of its
statements. -/
inductive Numbering where
  | locked
  | selected (orders : List Nat) (assign : List String)
  | headLocked (orders : List Nat) (assign : List String) (head : Nat)
  | updated (orders : List Nat) (assign : List String) (head : Nat)
deriving DecidableEq, Repr

/-- A cursor reader: where it started, the highest seq it has read and what
it has read. -/
structure Reader where
  since : Nat
  cursor : Nat
  seen : List (Nat × String)
deriving DecidableEq, Repr

/-- The workspace with its open transactions and readers. `orderCounter` is the auto-increment
counter; `assigned` records every seq a numbering committed with its event. -/
structure System where
  db : Database
  orderCounter : Nat
  writers : List Writer
  numbering : Option Numbering
  readers : List Reader
  assigned : List (Nat × String)
deriving DecidableEq, Repr

/-- `SELECT … FROM domain_event_sequencing … ORDER BY order_id LIMIT ?`. -/
def queuedBatch (db : Database) : List SequencingRow :=
  (db.queue.insertionSort (fun a b => a.orderId ≤ b.orderId)).take sequencingBatch

/-- The joined event exists and has no seq yet: `found.Valid && !seq.Valid`. -/
def unnumbered (db : Database) (id : String) : Bool :=
  match db.events.find? (fun e => e.id = id) with
  | some e => e.seq.isNone
  | none => false

def assignable (db : Database) (rows : List SequencingRow) : List String :=
  (rows.map SequencingRow.eventId).filter (unnumbered db)

/-- How many rows `UPDATE domain_events … WHERE seq IS NULL AND id IN (…)`
affects. -/
def rowsAffected (db : Database) (assign : List String) : Nat :=
  (db.events.filter (fun e => e.seq.isNone && assign.contains e.id)).length

/-- The seq `CASE id WHEN … THEN head+index+1` gives an event. -/
def caseSeq (assign : List String) (head : Nat) (id : String) : Nat :=
  head + assign.idxOf id + 1

def numberRow (assign : List String) (head : Nat) (e : EventRow) : EventRow :=
  if e.seq.isNone && assign.contains e.id then
    { e with seq := some (caseSeq assign head e.id) }
  else e

/-- What a numbering commits: the seqs, the moved head and the retired
rows. -/
def commitBatch (db : Database) (orders : List Nat) (assign : List String)
    (head : Nat) : Database :=
  { db with
    events := db.events.map (numberRow assign head)
    head := head + assign.length
    queue := db.queue.filter (fun q => !orders.contains q.orderId) }

def assignments (assign : List String) (head : Nat) : List (Nat × String) :=
  (List.range' (head + 1) assign.length).zip assign

/-- `sequencePostgresBatch` before its commit: batch, seqs and head are one statement, which
fails when it numbered fewer events than it found pending. -/
def sequencePostgresBatch (db : Database) : Option Numbering :=
  let rows := queuedBatch db
  let pending := assignable db rows
  if rowsAffected db pending = pending.length then
    some (.updated (rows.map SequencingRow.orderId) pending db.head)
  else none

/-- `PruneDomainEvents`: delete the events and record the highest deleted
seq. -/
def pruneEvents (db : Database) (ids : List String) : Database :=
  { db with
    events := db.events.filter (fun e => !ids.contains e.id)
    pruned := ((db.events.filter (fun e => ids.contains e.id)).filterMap EventRow.seq).foldl
      max db.pruned }

structure ChangePage where
  records : List (Nat × String)
  head : Nat
  resyncRequired : Bool
deriving DecidableEq, Repr

def numberedAfter (db : Database) (since : Nat) : List (Nat × String) :=
  (db.events.filterMap (fun e => e.seq.bind fun q =>
    if since < q then some (q, e.id) else none)).insertionSort (fun a b => a.1 ≤ b.1)

def workspaceChanges (db : Database) (since limit : Nat) : ChangePage :=
  if db.head < since ∨ since < db.pruned then
    { records := [], head := db.head, resyncRequired := true }
  else
    { records := (numberedAfter db since).take (if limit = 0 then 200 else limit)
      head := db.head, resyncRequired := false }

/-- A reader resumes from the last seq it read; told to resync, it reloads a
snapshot and resumes from the head. -/
def Reader.advance (r : Reader) (page : ChangePage) : Reader :=
  if page.resyncRequired then
    { since := page.head, cursor := page.head, seen := [] }
  else
    { r with
      cursor := (page.records.getLast?.map Prod.fst).getD r.cursor
      seen := r.seen ++ page.records }

/-! ## The interleaving -/

inductive Action where
  | beginWrite (events : List String)
  | queueRow (writer : Nat)
  | commitWrite (writer : Nat)
  | abortWrite (writer : Nat)
  | skipOrders (count : Nat)
  | lockNumbering
  | selectBatch
  | lockEventHead
  | updateEvents
  | postgresBatch
  | commitNumbering
  | abortNumbering
  | prune (ids : List String)
  | openReader (since : Nat)
  | readChanges (reader : Nat) (limit : Nat)
deriving DecidableEq, Repr

def lockedEvents : Option Numbering → List String
  | some (.updated _ assign _) => assign
  | _ => []

/-- One statement or commit of one party.  A failed statement, a lost lock
and a crash are `abortNumbering` and `abortWrite`. -/
def step (s : System) : Action → Option System
  | .beginWrite events =>
    some { s with writers := s.writers ++ [{ sequencing := events, queued := [] }] }
  | .queueRow i =>
    match s.writers[i]? with
    | some { sequencing := id :: rest, queued := rows } =>
      some { s with
        orderCounter := s.orderCounter + 1
        writers := s.writers.set i
          { sequencing := rest, queued := rows ++ [⟨s.orderCounter + 1, id⟩] } }
    | _ => none
  | .commitWrite i =>
    match s.writers[i]? with
    | some { sequencing := [], queued := rows } =>
      let ids := rows.map SequencingRow.eventId
      -- the primary key refuses an id the table holds or the writer repeats
      if ids.Nodup ∧ ∀ id ∈ ids, id ∉ s.db.events.map EventRow.id then
        some { s with
          writers := s.writers.eraseIdx i
          db := { s.db with
            events := s.db.events ++ ids.map (fun id => ⟨id, none⟩)
            queue := s.db.queue ++ rows } }
      else none
    | _ => none
  | .abortWrite i => some { s with writers := s.writers.eraseIdx i }
  | .skipOrders count => some { s with orderCounter := s.orderCounter + count }
  | .lockNumbering =>
    match s.numbering with
    | none => some { s with numbering := some .locked }
    | some _ => none
  | .selectBatch =>
    match s.numbering with
    | some .locked =>
      let rows := queuedBatch s.db
      some { s with
        numbering := some (.selected (rows.map SequencingRow.orderId)
          (assignable s.db rows)) }
    | _ => none
  | .lockEventHead =>
    match s.numbering with
    | some (.selected orders assign) =>
      some { s with numbering := some (.headLocked orders assign s.db.head) }
    | _ => none
  | .updateEvents =>
    match s.numbering with
    | some (.headLocked orders assign head) =>
      if rowsAffected s.db assign = assign.length then
        some { s with numbering := some (.updated orders assign head) }
      else none
    | _ => none
  | .postgresBatch =>
    match s.numbering with
    | some .locked =>
      (sequencePostgresBatch s.db).map fun batch => { s with numbering := some batch }
    | _ => none
  | .commitNumbering =>
    match s.numbering with
    | some (.updated orders assign head) =>
      some { s with
        db := commitBatch s.db orders assign head
        numbering := none
        assigned := s.assigned ++ assignments assign head }
    | _ => none
  | .abortNumbering => some { s with numbering := none }
  | .prune ids =>
    if ∀ id ∈ ids, id ∉ lockedEvents s.numbering then
      some { s with db := pruneEvents s.db ids }
    else none
  | .openReader since =>
    some { s with readers := s.readers ++ [{ since, cursor := since, seen := [] }] }
  | .readChanges i limit =>
    match s.readers[i]? with
    | some r =>
      some { s with
        readers := s.readers.set i (r.advance (workspaceChanges s.db r.cursor limit)) }
    | none => none

/-- A workspace at rest: no transaction is open, the committed seqs are the recorded ones, and
these are `1..head`. The queue may hold rows of any events, numbered and deleted ones included.
-/
structure AtRest (s : System) : Prop where
  writers : s.writers = []
  numbering : s.numbering = none
  readers : s.readers = []
  ids : (s.db.events.map EventRow.id).Nodup
  seqs : s.assigned.map Prod.fst = List.range' 1 s.db.head
  recorded : ∀ e ∈ s.db.events, ∀ q, e.seq = some q → (q, e.id) ∈ s.assigned

end Flow.Ports.EventSequencer
