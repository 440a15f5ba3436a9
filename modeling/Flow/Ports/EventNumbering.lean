import Flow.Ports.EventSequencer

/-!
# Calls that number events

A writer that has committed calls `sequenceWorkspaceEvents` with the ids of its
events, and a rescue calls it without ids.  The call runs numbering transactions until
its events have their seqs.  On MySQL it first looks whether another numbering has
covered it, then tries the numbering lock without waiting; when the lock is taken it
waits for the holder in shared mode and looks again, and only then queues for it.  On
PostgreSQL it queues at once.  A numbering that consumed a full batch is followed by
another one, which no longer asks for the ids of the call.

The numbering transactions are those of `Flow.Ports.EventSequencer`: a call takes one
of its actions for every statement under the lock, and its writers and its retention
interleave with the calls.  A failed statement, a lost connection and a server that
stops are `fail`, which returns an error and gives up the lock.

Event ids are generated, so a writer commits ids that no writer has committed before.
-/

namespace Flow.Ports.EventNumbering

open Flow.Ports.EventSequencer (System Database Action EventRow SequencingRow Numbering AtRest
  sequencingBatch)

inductive Dialect where
  | mysql
  | postgres
deriving DecidableEq, Repr

inductive Mode where
  | numberingTry
  | numberingWait
deriving DecidableEq, Repr

inductive Stage where
  /-- Before the first `eventsNumbered`. -/
  | checking
  | locking
  /-- The lock was taken; waits for it in shared mode. -/
  | sharing
  /-- Holds the lock in shared mode, before `eventsNumbered`. -/
  | covering
  | locked
  /-- Holds the lock and found its events not covered. -/
  | rechecked
  | returned (ok : Bool)
deriving DecidableEq, Repr

structure Call where
  events : List String
  ids : List String
  mode : Mode
  stage : Stage
deriving DecidableEq, Repr

/-- The workspace, the calls, the call that holds the numbering lock, and every id
that a writer has committed. -/
structure World where
  sys : System
  calls : List Call
  holder : Option Nat
  committed : List String

/-- No event of the ids is without a seq. -/
def eventsNumbered (db : Database) (ids : List String) : Bool :=
  db.events.countP (fun e => e.seq.isNone && ids.contains e.id) = 0

def World.put (w : World) (i : Nat) (call : Call) : World :=
  { w with calls := w.calls.set i call }

/-! ## The calls -/

def World.begin (dialect : Dialect) (w : World) (events : List String) : Option World :=
  if ∀ id ∈ events, id ∈ w.committed then
    let tries : Bool := events ≠ [] ∧ dialect ≠ .postgres
    some { w with
      calls := w.calls ++
        [{ events := events, ids := events
           mode := if tries then .numberingTry else .numberingWait
           stage := if tries then .checking else .locking }] }
  else none

def World.check (w : World) (i : Nat) : Option World :=
  w.calls[i]?.bind fun call =>
    if call.stage = .checking then
      if eventsNumbered w.sys.db call.ids then
        some (w.put i { call with stage := .returned true })
      else some (w.put i { call with stage := .locking })
    else none

def World.free (w : World) : Bool :=
  w.holder = none ∧ ∀ call ∈ w.calls, call.stage ≠ .covering

def World.acquire (w : World) (i : Nat) (call : Call) : Option World :=
  if w.free then
    (EventSequencer.step w.sys .lockNumbering).map fun sys =>
      { w.put i { call with stage := .locked } with sys := sys, holder := some i }
  else none

def World.lock (w : World) (i : Nat) : Option World :=
  w.calls[i]?.bind fun call =>
    if call.stage = .locking then
      if !w.free ∧ call.mode = .numberingTry then
        some (w.put i { call with stage := .sharing })
      else w.acquire i call
    else none

/-- The wait in shared mode ends.  A workspace that has no counter row yet
(`absent`) is locked for numbering instead. -/
def World.share (w : World) (i : Nat) (absent : Bool) : Option World :=
  w.calls[i]?.bind fun call =>
    if call.stage = .sharing then
      if absent then w.acquire i call
      else if w.holder = none then some (w.put i { call with stage := .covering })
      else none
    else none

/-- After another numbering has committed: the call returns if that one covered its
events, and else queues for the lock. -/
def World.cover (w : World) (i : Nat) : Option World :=
  w.calls[i]?.bind fun call =>
    if call.stage = .covering then
      if eventsNumbered w.sys.db call.ids then
        some (w.put i { call with stage := .returned true })
      else some (w.put i { call with mode := .numberingWait, stage := .locking })
    else none

/-- A call that queued for the lock with its ids looks first whether they were
covered. -/
def Call.rechecks (dialect : Dialect) (call : Call) : Bool :=
  dialect = .mysql ∧ call.mode = .numberingWait ∧ call.ids ≠ []

def World.release (w : World) : Option World :=
  (EventSequencer.step w.sys .abortNumbering).map fun sys =>
    { w with sys := sys, holder := none }

def World.recheck (dialect : Dialect) (w : World) (i : Nat) : Option World :=
  w.calls[i]?.bind fun call =>
    if call.stage = .locked ∧ call.rechecks dialect ∧ w.holder = some i then
      if eventsNumbered w.sys.db call.ids then
        (w.put i { call with stage := .returned true }).release
      else some (w.put i { call with stage := .rechecked })
    else none

def statement (dialect : Dialect) : Action → Bool
  | .selectBatch => dialect = .mysql
  | .lockEventHead => dialect = .mysql
  | .updateEvents => dialect = .mysql
  | .postgresBatch => dialect = .postgres
  | _ => false

/-- A statement of `sequenceWorkspaceBatch` or `sequencePostgresBatch`. -/
def World.number (dialect : Dialect) (w : World) (i : Nat) (a : Action) : Option World :=
  w.calls[i]?.bind fun call =>
    if w.holder = some i ∧ statement dialect a ∧
        (call.stage = .rechecked ∨ call.stage = .locked ∧ !call.rechecks dialect) then
      (EventSequencer.step w.sys a).map fun sys => { w with sys := sys }
    else none

def Call.next (call : Call) (consumed : Nat) : Call :=
  if call.mode = .numberingTry ∧ consumed = 0 then
    { call with mode := .numberingWait, stage := .locking }
  else if consumed < sequencingBatch then { call with stage := .returned true }
  else { call with ids := [], mode := .numberingWait, stage := .locking }

/-- The numbering commits.  One that found no row has written nothing. -/
def World.commit (w : World) (i : Nat) : Option World :=
  w.calls[i]?.bind fun call =>
    if w.holder = some i then
      match w.sys.numbering with
      | some (.selected [] _) => (w.put i (call.next 0)).release
      | some (.updated orders _ _) =>
        (EventSequencer.step w.sys .commitNumbering).map fun sys =>
          { w.put i (call.next orders.length) with sys := sys, holder := none }
      | _ => none
    else none

def World.fail (w : World) (i : Nat) : Option World :=
  w.calls[i]?.bind fun call =>
    match call.stage with
    | .returned _ => none
    | _ =>
      let failed := w.put i { call with stage := .returned false }
      if w.holder = some i then failed.release else some failed

def numbers : Action → Bool
  | .lockNumbering | .selectBatch | .lockEventHead | .updateEvents | .postgresBatch
  | .commitNumbering | .abortNumbering => true
  | _ => false

def written (sys : System) : Action → List String
  | .commitWrite i =>
    ((sys.writers[i]?).map fun writer => writer.queued.map SequencingRow.eventId).getD []
  | _ => []

/-- A writer, retention or a reader. -/
def World.other (w : World) (a : Action) : Option World :=
  if numbers a = false ∧ ∀ id ∈ written w.sys a, id ∉ w.committed then
    (EventSequencer.step w.sys a).map fun sys =>
      { w with sys := sys, committed := w.committed ++ written w.sys a }
  else none

inductive Label where
  | begin (events : List String)
  | check (i : Nat)
  | lock (i : Nat)
  | share (i : Nat) (absent : Bool)
  | cover (i : Nat)
  | recheck (i : Nat)
  | number (i : Nat) (a : Action)
  | commit (i : Nat)
  | fail (i : Nat)
  | other (a : Action)
deriving DecidableEq

def World.step (dialect : Dialect) (w : World) : Label → Option World
  | .begin events => w.begin dialect events
  | .check i => w.check i
  | .lock i => w.lock i
  | .share i absent => w.share i absent
  | .cover i => w.cover i
  | .recheck i => w.recheck dialect i
  | .number i a => w.number dialect i a
  | .commit i => w.commit i
  | .fail i => w.fail i
  | .other a => w.other a

/-- No transaction and no call is open, order ids were given out once, and every unnumbered
event that a writer committed has its row in the queue. There may be any other events and rows.
-/
structure World.Ready (w : World) : Prop where
  rest : AtRest w.sys
  calls : w.calls = []
  holder : w.holder = none
  orders : (w.sys.db.queue.map SequencingRow.orderId).Nodup
  bound : ∀ row ∈ w.sys.db.queue, row.orderId ≤ w.sys.orderCounter
  queued : ∀ e ∈ w.sys.db.events, e.id ∈ w.committed → e.seq = none →
    ∃ row ∈ w.sys.db.queue, row.eventId = e.id

end Flow.Ports.EventNumbering
