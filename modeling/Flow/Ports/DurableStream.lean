import Mathlib.Data.List.Range
import Flow.Ports.RealtimeHub

/-!
# Durable event streams

A client resumes its stream from a seq of the change log.  `realtimeEvents` subscribes
to the hub first, then `replayChanges` writes what the log holds after the cursor, a
page at a time, and then the stream goes on with the events that the hub pushed
meanwhile; those at or below the replayed cursor are dropped, since the replay wrote
them.  A cursor that the log does not know, is older than what it retains, or is too
far behind is answered by a resync marker.

The hub is given by what it may do with an event: hold it, deliver it, or answer it
with a marker.  A full channel is emptied and gets a marker; what the stream takes
from it meanwhile stays in front of the marker.  If it takes the last event after the
hub has looked whether there is one, the hub waits for ever instead and there is no
marker: `Sound` leaves such runs out, and other subscribers are taken not to do so.  The
log of a workspace is its head and the seq up to which it was pruned: the seqs above that
one are all there.  A push carries the seq of its event when the lookup of
`stampChangeCursor` has found it.
-/

namespace Flow.Ports.DurableStream

open Flow.Verified
open Run (Reaches)

/-- `ChangePage`, by the seqs of its records. -/
structure ChangePage where
  records : List Nat
  head : Nat
  hasMore : Bool
  resyncRequired : Bool
deriving DecidableEq, Repr

def workspaceChanges (head pruned since limit : Nat) : ChangePage :=
  if since > head ∨ since < pruned then ⟨[], head, false, true⟩
  else
    let rows := (List.range' (since + 1) (head - since)).take (limit + 1)
    ⟨rows.take limit, head, limit < rows.length, false⟩

def maxChangesLimit : Nat := 500

def maxReplayPages : Nat := 20

/-! ## The stream -/

/-- What the hub sends: a change, with its seq when it was found, a marker, or an event outside
the log. -/
inductive Item where
  | event (seq : Nat) (stamped : Bool)
  | marker
  | signal
deriving DecidableEq, Repr

inductive Written where
  | event (seq : Nat)
  | marker
deriving DecidableEq, Repr

inductive Phase where
  | opening
  /-- Before it reads a page, with the pages that it may still read. -/
  | reading (pages : Nat)
  /-- The records of a page that it has yet to write, and whether there are more. -/
  | writing (records : List Nat) (more : Bool) (pages : Nat)
  | marking
  | live
  | ended
deriving DecidableEq, Repr

structure State where
  head : Nat
  pruned : Nat
  pushed : List Nat
  hub : List Item
  channel : List Item
  phase : Phase
  since : Int
  /-- The cursor of the replay, and then `replaySeq`. -/
  cursor : Nat
  out : List Written
  /-- The head when the handler subscribed. -/
  joined : Nat
  /-- The head when the last marker was written. -/
  marked : Option Nat
deriving DecidableEq, Repr

def State.start (since : Int) : State :=
  { head := 0, pruned := 0, pushed := [], hub := [], channel := [], phase := .opening
    since, cursor := since.toNat, out := [], joined := 0, marked := none }

def State.durable (st : State) : Bool := 0 ≤ st.since

/-- A send to the channel that comes to its end; a full one is emptied, but for what is
taken from it meanwhile. -/
def offer (channel : List Item) (item : Item) (takes : List Bool) : List Item :=
  if channel.length < 64 then channel ++ [item]
  else (Realtime.picked takes channel).1 ++ [.marker]

def State.deliver (st : State) (item : Item) (takes : List Bool) : State :=
  if st.phase = .opening then st else { st with channel := offer st.channel item takes }

/-- The subscription.  A negative cursor is none of the log: the hub does not know
it either and sends a marker first. -/
def State.subscribe (st : State) : State :=
  if st.durable then { st with phase := .reading maxReplayPages, joined := st.head }
  else { st with phase := .live, joined := st.head, channel := [.marker] }

section Steps

variable (visible : Nat → Bool)

def State.write (st : State) (seq : Nat) : State :=
  if visible seq then { st with out := st.out ++ [.event seq] } else st

def State.writeMarker (st : State) : State :=
  { st with out := st.out ++ [.marker], marked := some st.head }

def State.readPage (st : State) (pages : Nat) : State :=
  let page := workspaceChanges st.head st.pruned st.cursor maxChangesLimit
  if page.resyncRequired then { st with phase := .marking, cursor := max st.cursor page.head }
  else { st with phase := .writing page.records page.hasMore pages }

def nextPhase (more : Bool) (pages : Nat) : Phase :=
  if !more then .live else if pages ≤ 1 then .marking else .reading (pages - 1)

def State.receive (st : State) : Item → State
  | .marker => st.writeMarker
  | .signal => st
  | .event seq stamped =>
    if st.durable && stamped && seq ≤ st.cursor then st else st.write visible seq

inductive Label where
  | commit
  | prune (upto : Nat)
  | push (seq : Nat) (stamped : Bool)
  | deliver (index : Nat) (takes : List Bool)
  | answer (index : Nat) (takes : List Bool)
  /-- The hub sends something else: a marker or an event that is not in the log. -/
  | resync (takes : List Bool)
  | signal (takes : List Bool)
  | subscribe
  | read
  | replay
  | mark
  | receive
  | stop
deriving DecidableEq, Repr

def step (st : State) : Label → Option State
  | .commit => some { st with head := st.head + 1 }
  | .prune upto => if upto ≤ st.head then some { st with pruned := max st.pruned upto } else none
  | .push seq stamped =>
    if 0 < seq ∧ seq ∉ st.pushed ∧ (stamped → seq ≤ st.head) then
      some { st with pushed := st.pushed ++ [seq], hub := st.hub ++ [.event seq stamped] }
    else none
  | .deliver index takes =>
    st.hub[index]?.map fun item =>
      ({ st with hub := st.hub.eraseIdx index } : State).deliver item takes
  | .answer index takes =>
    st.hub[index]?.map fun _ =>
      ({ st with hub := st.hub.eraseIdx index } : State).deliver .marker takes
  | .resync takes => some (st.deliver .marker takes)
  | .signal takes => some (st.deliver .signal takes)
  | .subscribe => if st.phase = .opening then some st.subscribe else none
  | .read =>
    match st.phase with
    | .reading pages => some (st.readPage pages)
    | _ => none
  | .replay =>
    match st.phase with
    | .writing (seq :: rest) more pages =>
      some (({ st with cursor := seq, phase := .writing rest more pages } : State).write
        visible seq)
    | .writing [] more pages => some { st with phase := nextPhase more pages }
    | _ => none
  | .mark => if st.phase = .marking then some { st.writeMarker with phase := .live } else none
  | .receive =>
    match st.phase, st.channel with
    | .live, item :: rest => some (({ st with channel := rest } : State).receive visible item)
    | _, _ => none
  | .stop => some { st with phase := .ended }

end Steps

/-! ## What the stream promises -/

def Item.seq? : Item → Option Nat
  | .event seq _ => some seq
  | .marker => none
  | .signal => none

def carried (items : List Item) : List Nat := items.filterMap Item.seq?

def Written.seq? : Written → Option Nat
  | .event seq => some seq
  | .marker => none

def State.written (st : State) : List Nat := st.out.filterMap Written.seq?

/-- The changes between a push and the stream. -/
def State.transit (st : State) : List Nat := carried st.channel ++ carried st.hub

/-- The seq above which changes are owed: the cursor, or the head when the last
marker was written. -/
def State.base (st : State) : Int :=
  match st.marked with
  | none => st.since
  | some head => head

/-- Before the live loop, with no marker due. -/
def Phase.replaying : Phase → Bool
  | .opening => true
  | .reading _ => true
  | .writing _ _ _ => true
  | .marking => false
  | .live => false
  | .ended => false

/-- Why a change that is owed need not be written now. -/
inductive Accounted (st : State) (seq : Nat) : Prop where
  | written (h : seq ∈ st.written)
  /-- The replay has yet to come to it. -/
  | ahead (h : st.phase.replaying) (hc : st.cursor < seq)
  | marking (h : st.phase = .marking)
  | unpushed (h : seq ∉ st.pushed)
  | transit (h : seq ∈ st.transit)
  /-- A marker is on its way. -/
  | marker (h : Item.marker ∈ st.channel)
  | ended (h : st.phase = .ended)

def State.Settled (st : State) : Prop :=
  st.phase = .ended ∨ st.phase = .live ∧ st.hub = [] ∧ st.channel = []

/-- The steps of the stream and of the deliveries to it. -/
def Label.own : Label → Bool
  | .deliver _ _ => true
  | .subscribe => true
  | .read => true
  | .replay => true
  | .mark => true
  | .receive => true
  | _ => false

/-- The replay reads with a cursor that is not above the head, a push carries the seq of
its event, and the stream takes nothing from a full channel while the hub empties it. -/
def Sound (st : State) : Label → Bool
  | .read => st.cursor ≤ st.head
  | .push _ stamped => stamped
  | .deliver _ takes | .answer _ takes | .resync takes | .signal takes =>
    st.channel.length < 64 || (Realtime.picked takes st.channel).1 = []
  | _ => true

/-- A written change is written once, every change that is owed is accounted for, and the
stream's own steps end, with only unpushed changes open. -/
structure Promise (visible : Nat → Bool) (st : State) : Prop where
  once : st.written.Nodup
  accounted : ∀ seq : Nat, 0 < seq → st.base < seq → seq ≤ st.head → visible seq →
    Accounted st seq
  settles : st.cursor ≤ st.head →
    ∃ st', Reaches (step visible) (fun st l => Sound st l ∧ l.own) st st' ∧ st'.Settled

end Flow.Ports.DurableStream
