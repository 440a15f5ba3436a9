import Mathlib.Algebra.Order.Ring.Int
import Mathlib.Data.List.Basic
import Mathlib.Logic.Function.Basic
import Flow.Verified.Run

/-!
# The collaboration client

`IssueCollaborationProvider` connects the document of an editor to the server.  A local
edit becomes a pending update, which is sent and stays pending until the server echoes
its id.  When too many or too large updates are pending, only a flag is set: the
document has every edit, and a delta against the clocks that the server is known to have
replaces the updates later.

A document is a set of parts: what a client has inserted, by its clock, and what was
deleted.  Yjs is given by what is relied on: applying an update adds its parts, an
update of the server has all parts of the clock ranges that it names, and the delta
against a state vector has what the vector lacks and all deletions.

Messages come at any time, also from a socket that was given up; observers may edit the
document while an update is applied.  It is never revoked, nor the provider destroyed.
-/

namespace Flow.Ports.CollaborationClient

open Flow.Verified

inductive Part where
  | struct (client clock : Nat)
  | deletion (id : Nat)
deriving DecidableEq, Repr

abbrev Document := Part → Bool

abbrev Clocks := Nat → Nat

def Document.merge (doc other : Document) : Document := fun part => doc part || other part

/-- A state vector covers a part.  It says nothing about deletions. -/
def Part.behind (clocks : Clocks) : Part → Bool
  | .struct client clock => clock < clocks client
  | .deletion _ => false

structure Update where
  content : Document
  byteLength : Nat

/-- What is relied on of the encoder. -/
structure Yjs where
  encodeStateAsUpdate : Document → Clocks → Update
  contains : ∀ doc clocks part, doc part = true → part.behind clocks = false →
    (encodeStateAsUpdate doc clocks).content part = true

/-- The clocks of one client in an update, as `parseUpdateMeta` gives them. -/
structure ClockRange where
  client : Nat
  start : Nat
  stop : Nat
deriving DecidableEq, Repr

structure ServerUpdate where
  content : Document
  ranges : List ClockRange
  contiguous : ∀ range ∈ ranges, ∀ clock, range.start ≤ clock → clock < range.stop →
    content (.struct range.client clock) = true

/-! ## The edits -/

/-- What the provider knows about the edits of its document. -/
structure Edits where
  document : Document
  serverClocks : Clocks
  /-- In the order of insertion. -/
  pendingUpdates : List (Nat × Update)
  pendingBytes : Int
  deferredUpdate : Bool
  /-- `crypto.randomUUID` never repeats an id. -/
  nextID : Nat
  edits : List Document
  /-- What has come back from the server, in an update or by its id. -/
  acknowledged : Document

/-- `pendingUpdates.set` with a new id. -/
def Edits.enqueue (held : Edits) (update : Update) : Edits :=
  { held with
    pendingUpdates := held.pendingUpdates ++ [(held.nextID, update)]
    pendingBytes := held.pendingBytes + update.byteLength
    nextID := held.nextID + 1 }

def Edits.defer (held : Edits) : Edits := { held with deferredUpdate := true }

def Edits.overflows (held : Edits) (update : Update) : Bool :=
  held.deferredUpdate || 128 ≤ held.pendingUpdates.length ||
    1024 * 1024 < held.pendingBytes + update.byteLength

def Edits.queue (held : Edits) (update : Update) : Edits :=
  if held.overflows update then held.defer else held.enqueue update

def Edits.pending (held : Edits) (id : Nat) : Option Update :=
  (held.pendingUpdates.find? fun entry => entry.1 = id).map Prod.snd

def Edits.acknowledgeUpdate (held : Edits) (id : Nat) : Edits :=
  { held with
    pendingBytes := held.pendingBytes - ((held.pending id).map Update.byteLength).getD 0
    pendingUpdates := held.pendingUpdates.filter fun entry => entry.1 ≠ id
    acknowledged := held.acknowledged.merge
      (((held.pending id).map Update.content).getD fun _ => false) }

/-- One client of `applyServerUpdate`: out-of-order gaps stay conservative. -/
def advance (clocks : Clocks) (range : ClockRange) : Clocks :=
  if range.start ≤ clocks range.client then
    Function.update clocks range.client (max (clocks range.client) range.stop)
  else clocks

def Edits.receive (held : Edits) (update : ServerUpdate) : Edits :=
  { held with
    document := held.document.merge update.content
    acknowledged := held.acknowledged.merge update.content }

def Edits.learn (held : Edits) (update : ServerUpdate) : Edits :=
  { held with serverClocks := update.ranges.foldl advance held.serverClocks }

def Edits.edit (held : Edits) (content : Document) : Edits :=
  { held with
    document := held.document.merge content
    edits := held.edits ++ [content] }

section Encoder

variable (yjs : Yjs)

def Edits.delta (held : Edits) : Update :=
  yjs.encodeStateAsUpdate held.document held.serverClocks

/-- The delta takes the place of the flag. -/
def Edits.derive (held : Edits) : Edits :=
  if held.deferredUpdate ∧ held.pendingUpdates = [] then
    { held with
      pendingUpdates := [(held.nextID, held.delta yjs)]
      pendingBytes := (held.delta yjs).byteLength
      deferredUpdate := false
      nextID := held.nextID + 1 }
  else held

end Encoder

/-- The flag takes the place of the pending updates, one of which is too large. -/
def Edits.giveUp (held : Edits) : Edits :=
  { held with pendingUpdates := [], pendingBytes := 0, deferredUpdate := true }

/-! ## The provider -/

structure Socket where
  id : Nat
  isOpen : Bool
deriving DecidableEq, Repr

structure State where
  held : Edits
  sentUpdates : List Nat
  oversized : Bool
  receivedServerState : Bool
  seedQueued : Bool
  seededWithoutServerState : Bool
  readOnly : Bool
  synced : Bool
  conflicted : Bool
  started : Bool
  suspended : Bool
  hidden : Bool
  socket : Option Socket
  nextSocket : Nat
  /-- The bytes of `documentId`. -/
  documentLength : Nat

def State.start (document : Document) (seeded hidden : Bool) (documentLength : Nat) : State where
  held :=
    { document, serverClocks := fun _ => 0, pendingUpdates := [], pendingBytes := 0,
      deferredUpdate := false, nextID := 0, edits := [], acknowledged := fun _ => false }
  sentUpdates := []
  oversized := false
  receivedServerState := false
  seedQueued := false
  seededWithoutServerState := seeded
  readOnly := false
  synced := false
  conflicted := false
  started := false
  suspended := false
  hidden
  socket := none
  nextSocket := 0
  documentLength

/-- The bytes of an update frame; an update id has 43 bytes. -/
def State.frameLength (st : State) (update : Update) : Nat :=
  3 + st.documentLength + (2 + 43) + update.byteLength

def maxFrameBytes : Nat := 2097152

def maxBuffered : Nat := 2 * 1024 * 1024

/-- `bufferedAmount` at the checks of one flush. -/
abbrev Buffered := Nat → Nat

/-- The end of a flush that met a frame that is too large. -/
def State.giveUp (st : State) : State :=
  { st with held := st.held.giveUp, sentUpdates := [], oversized := true }

/-- The loop of `flushPendingUpdates`. -/
def State.sendAll (st : State) (buffered : Buffered) : Nat → List (Nat × Update) → State
  | _, [] => { st with oversized := false }
  | check, (id, update) :: rest =>
    if id ∈ st.sentUpdates then State.sendAll st buffered check rest
    else if maxBuffered < buffered check then st
    else if maxFrameBytes < st.frameLength update then st.giveUp
    else
      State.sendAll { st with sentUpdates := st.sentUpdates ++ [id] } buffered (check + 1) rest

def State.maySend (st : State) : Bool :=
  st.synced && !st.readOnly && st.socket.any Socket.isOpen

section Provider

variable (yjs : Yjs)

def State.derive (st : State) : State := { st with held := st.held.derive yjs }

def State.flushPendingUpdates (st : State) (buffered : Buffered) : State :=
  if st.maySend = false ∨ maxBuffered < buffered 0 then st
  else (st.derive yjs).sendAll buffered 1 (st.derive yjs).held.pendingUpdates

/-- A local edit: its parts, and the size of the update that announces it. -/
structure Edit where
  content : Document
  byteLength : Nat
  buffered : Buffered

def State.includeSeed (st : State) : Bool :=
  st.seededWithoutServerState && !st.receivedServerState && !st.seedQueued

/-- The update of a local edit: the first one has the seed as well. -/
def State.announced (st : State) (edit : Edit) : Update :=
  if st.includeSeed then yjs.encodeStateAsUpdate (st.held.edit edit.content).document fun _ => 0
  else ⟨edit.content, edit.byteLength⟩

def State.onDocumentUpdate (st : State) (edit : Edit) : State :=
  State.flushPendingUpdates yjs
    { st with
      seedQueued := st.seedQueued || st.includeSeed
      held := (st.held.edit edit.content).queue (st.announced yjs edit) }
    edit.buffered

structure Received where
  update : ServerUpdate
  reactions : List Edit

def State.applyServerUpdate (st : State) (received : Received) : State :=
  let st := { st with held := st.held.receive received.update }
  let st := received.reactions.foldl (State.onDocumentUpdate yjs) st
  { st with held := st.held.learn received.update }

/-- `acknowledgeUpdate`, and the update is not sent any more. -/
def State.acknowledgeUpdate (st : State) (id : Nat) : State :=
  { st with
    held := st.held.acknowledgeUpdate id
    sentUpdates := st.sentUpdates.filter (· ≠ id) }

def State.setReadOnly (st : State) (readOnly : Bool) (buffered : Buffered) : State :=
  if st.readOnly = readOnly then st
  else if readOnly then { st with readOnly }
  else State.flushPendingUpdates yjs { st with readOnly, sentUpdates := [] } buffered

/-- An update of a `document.sync` message, with its id. -/
def State.syncUpdate (st : State) (update : Nat × Received) : State :=
  (st.applyServerUpdate yjs update.2).acknowledgeUpdate update.1

structure Sync where
  readOnly : Bool
  contentState : Option Received
  updates : List (Nat × Received)
  more : Bool
  buffered : Buffered × Buffered

/-- The server's state that a `document.sync` message carries. -/
def State.syncState (st : State) (sync : Sync) : State :=
  let st := st.setReadOnly yjs sync.readOnly sync.buffered.1
  let st :=
    { st with
      receivedServerState :=
        st.receivedServerState || sync.contentState.isSome || !sync.updates.isEmpty }
  let st := sync.contentState.elim st (st.applyServerUpdate yjs)
  sync.updates.foldl (State.syncUpdate yjs) st

/-- `handleTextMessage` of a `document.sync` message. -/
def State.handleSync (st : State) (sync : Sync) : State :=
  if sync.more then st.syncState yjs sync
  else
    State.flushPendingUpdates yjs { st.syncState yjs sync with synced := true } sync.buffered.2

/-- `handleBinaryMessage` of an update frame. -/
def State.handleUpdateFrame (st : State) (payload : Received) (updateID : Option Nat)
    (buffered : Buffered) : State :=
  let st := st.applyServerUpdate yjs payload
  State.flushPendingUpdates yjs (updateID.elim st st.acknowledgeUpdate) buffered

end Provider

def State.disconnect (st : State) : State :=
  { st with synced := false, sentUpdates := [], receivedServerState := false, socket := none }

def State.connect (st : State) : State :=
  if st.started then
    { st with socket := some ⟨st.nextSocket, false⟩, nextSocket := st.nextSocket + 1 }
  else st

def State.begin (st : State) : State :=
  if st.started || st.conflicted then st
  else if st.hidden then { st with started := true, suspended := true }
  else State.connect { st with started := true }

def State.stop (st : State) : State :=
  if st.started then { st.disconnect with started := false, suspended := false } else st

/-- `onVisibilityChange`; the timer of a hidden page is apart. -/
def State.onVisibilityChange (st : State) (hidden : Bool) : State :=
  if hidden || !st.started || !st.suspended then { st with hidden }
  else State.connect { st with hidden, suspended := false }

/-- Unsent edits keep the socket, but a read-only viewer's. -/
def State.suspendWhenHidden (st : State) : State :=
  if !st.started || st.suspended || !st.hidden then st
  else if !st.readOnly && (!st.held.pendingUpdates.isEmpty || st.held.deferredUpdate) then st
  else { st.disconnect with suspended := true }

def State.setOpen (st : State) (socket : Nat) (isOpen : Bool) : State :=
  { st with
    socket := st.socket.map fun current =>
      if current.id = socket then { current with isOpen } else current }

/-- A superseded socket must not reset the live one. -/
def State.onClose (st : State) (socket : Nat) : State :=
  if st.socket.any (fun current => current.id ≠ socket) then st else st.disconnect

inductive Label where
  | edit (edit : Edit)
  | start
  | stop
  | connect
  | open (socket : Nat)
  | closing (socket : Nat)
  | close (socket : Nat)
  | visibility (hidden : Bool)
  | suspend
  | conflict
  /-- `document.access` and `document.readonly`. -/
  | access (readOnly : Bool) (buffered : Buffered)
  | sync (sync : Sync)
  | updateFrame (payload : Received) (updateID : Option Nat) (buffered : Buffered)
  | heartbeat (buffered : Buffered)

def step (yjs : Yjs) (st : State) : Label → Option State
  | .edit edit => some (st.onDocumentUpdate yjs edit)
  | .start => some st.begin
  | .stop => some st.stop
  | .connect => some st.connect
  | .open socket => some (st.setOpen socket true)
  | .closing socket => some (st.setOpen socket false)
  | .close socket => some (st.onClose socket)
  | .visibility hidden => some (st.onVisibilityChange hidden)
  | .suspend => some st.suspendWhenHidden
  | .conflict => some (State.stop { st with conflicted := true })
  | .access readOnly buffered => some (st.setReadOnly yjs readOnly buffered)
  | .sync sync => some (st.handleSync yjs sync)
  | .updateFrame payload updateID buffered =>
    some (st.handleUpdateFrame yjs payload updateID buffered)
  | .heartbeat buffered =>
    if st.socket.any Socket.isOpen then some (st.flushPendingUpdates yjs buffered) else none

/-! ## What the provider promises -/

/-- Where an edit is: every part that the server has not acknowledged is in one pending update,
or in the delta that the flag stands for. -/
inductive Edits.Keeps (yjs : Yjs) (held : Edits) (edit : Document) : Prop where
  | acknowledged (h : ∀ part, edit part = true → held.acknowledged part = true)
  | pending (entry : Nat × Update) (hentry : entry ∈ held.pendingUpdates)
      (h : ∀ part, edit part = true →
        held.acknowledged part = true ∨ entry.2.content part = true)
  | deferred (hdeferred : held.deferredUpdate = true)
      (h : ∀ part, edit part = true →
        held.acknowledged part = true ∨ (held.delta yjs).content part = true)

/-- No local edit is lost, and the bytes are counted. -/
structure Promise (yjs : Yjs) (st : State) : Prop where
  kept : ∀ edit ∈ st.held.edits, st.held.Keeps yjs edit
  bytes : st.held.pendingBytes =
    (st.held.pendingUpdates.map fun entry => (entry.2.byteLength : Int)).sum

end Flow.Ports.CollaborationClient
