import Mathlib.Algebra.Order.Ring.Nat
import Flow.Verified.Reorder
import Flow.Verified.Run

/-!
# The realtime hub

One workspace of the hub that pushes events to the open streams of an instance.  Every
operation of the hub runs under its lock; a step is one of them.

A change-log event has a seq, and an ordered hub delivers these in order.  An event
that comes before an earlier one waits until the earlier one comes or the gap timer
fires.  One that comes after a later one was delivered is answered by a resync marker,
which tells the subscribers to reload.

A delivery goes to the replay window and to the buffer of every subscriber.  A full
buffer is emptied and gets a marker.  A subscriber reads its buffer without the lock:
it may take some of the events meanwhile (`Environment.takes`).  If it takes the last one
after the hub has looked whether there is one, the hub waits for it for ever and keeps
its lock, so nothing is said of runs with such reads (`Hub.raced`), here or by a
subscriber of another workspace.  The window is bounded, and the bound over all
workspaces may take it away at any delivery (`Environment.evicts`).
-/

namespace Flow.Ports.Realtime

open Flow.Verified
open Reorder (Line)

/-- `domain.RealtimeEvent`, as it is published. -/
structure Event where
  id : Nat
  /-- The place in the change log, or 0. -/
  seq : Nat
  /-- The bytes of the payload. -/
  payload : Nat
  /-- `RoutineCredentialEvent` of its type. -/
  routine : Bool
deriving DecidableEq, Repr

structure Item where
  id : Nat
  seq : Nat
  payload : Nat
  /-- `workspace.resync_required`. -/
  marker : Bool
  /-- The number of its delivery. -/
  stamp : Nat
deriving DecidableEq, Repr

def maxPayload : Nat := 256 * 2 ^ 10

/-- The item of an event; a large one is replaced by a marker. -/
def Event.item (event : Event) (stamp : Nat) : Item :=
  if event.payload > maxPayload then ⟨event.id, 0, 0, true, stamp⟩
  else ⟨event.id, event.seq, event.payload, false, stamp⟩

def resyncMarker (id stamp : Nat) : Item := ⟨id, 0, 0, true, stamp⟩

structure Subscriber where
  id : Nat
  capacity : Nat
  buffer : List Item
  received : List Item
  lost : List Item
  /-- The number of deliveries before it subscribed. -/
  joined : Nat
deriving DecidableEq, Repr

/-- What it has been sent and did not lose. -/
def Subscriber.stream (s : Subscriber) : List Item := s.received ++ s.buffer

/-- The elements at the places that a mask marks, and the others. -/
def picked {α : Type} : List Bool → List α → List α × List α
  | _, [] => ([], [])
  | [], rest => ([], rest)
  | take :: mask, item :: rest =>
    let others := picked mask rest
    if take then (item :: others.1, others.2) else (others.1, item :: others.2)

theorem picked_sublist {α : Type} (mask : List Bool) (items : List α) :
    (picked mask items).1.Sublist items := by
  induction items generalizing mask with
  | nil => cases mask <;> exact .slnil
  | cons item rest ih =>
    cases mask with
    | nil => exact List.nil_sublist _
    | cons take mask =>
      cases take with
      | false => exact (ih mask).cons item
      | true => exact (ih mask).cons_cons item

/-- The send of `deliverLocked` to one subscriber, when it comes to its end. -/
def Subscriber.offer (s : Subscriber) (item : Item) (takes : List Bool) : Subscriber :=
  if s.buffer.length < s.capacity then { s with buffer := s.buffer ++ [item] }
  else
    let (taken, lost) := picked takes s.buffer
    { s with
      buffer := [resyncMarker item.id item.stamp]
      received := s.received ++ taken
      lost := s.lost ++ lost ++ [item] }

/-- It reads while the hub empties its full buffer. -/
def Subscriber.races (s : Subscriber) (takes : List Bool) : Bool :=
  s.capacity ≤ s.buffer.length && (picked takes s.buffer).1 ≠ []

/-! ## The hub -/

structure Order where
  line : Line Event
  timer : Option Nat

structure Call where
  event : Event
  /-- The number of deliveries before it. -/
  arrival : Nat
deriving DecidableEq, Repr

structure Hub where
  subscribers : List Subscriber
  nextID : Nat
  /-- The replay window, and its size. -/
  history : Option (List Item × Nat)
  order : Option Order
  nextTimer : Nat
  log : List Item
  published : List Call
  /-- Whether a `resyncAll` has started the order anew for nobody to hear. -/
  silent : Bool
  /-- Whether a subscriber has read while the hub emptied its buffer. -/
  raced : Bool

def Hub.empty : Hub := ⟨[], 0, none, none, 0, [], [], false, false⟩

structure Environment where
  /-- Which of its events a subscriber takes while a delivery empties its buffer. -/
  takes : Nat → Nat → List Bool
  /-- Whether a delivery ends with the window taken away. -/
  evicts : Nat → Bool
  fresh : Nat

/-- Drops the oldest events of a window that is too long or too large. -/
def trim : List Item → Nat → List Item × Nat
  | [], bytes => ([], bytes)
  | item :: rest, bytes =>
    if rest.length + 1 > 256 ∨ bytes > 8 * 2 ^ 20 then trim rest (bytes - (item.payload + 256))
    else (item :: rest, bytes)

def Hub.deliverLocked (hub : Hub) (env : Environment) (item : Item) : Hub :=
  let (items, bytes) := hub.history.getD ([], 0)
  { hub with
    history :=
      if env.evicts item.stamp then none
      else some (trim (items ++ [item]) (bytes + item.payload + 256))
    subscribers := hub.subscribers.map fun s => s.offer item (env.takes s.id item.stamp)
    log := hub.log ++ [item]
    raced := hub.raced || hub.subscribers.any fun s => s.races (env.takes s.id item.stamp) }

def Hub.deliver (hub : Hub) (env : Environment) (event : Event) : Hub :=
  hub.deliverLocked env (event.item hub.log.length)

def Hub.deliverMarker (hub : Hub) (env : Environment) : Hub :=
  hub.deliverLocked env (resyncMarker env.fresh hub.log.length)

def Hub.awaitGap (hub : Hub) (line : Line Event) : Hub :=
  { hub with order := some ⟨line, some hub.nextTimer⟩, nextTimer := hub.nextTimer + 1 }

/-- The timer after a release: it is stopped when something was released or nothing
waits. -/
def Order.timerAfter (order : Order) (progressed : Bool) (line : Line Event) : Option Nat :=
  if order.timer.isSome ∧ (progressed ∨ line.waiting = []) then none else order.timer

def Hub.releaseInOrder (hub : Hub) (env : Environment) (order : Order) (skipGap : Bool) : Hub :=
  let (out, line) := Reorder.release order.line.waiting.length order.line skipGap
  let hub := out.foldl (fun hub entry => hub.deliver env entry.2) hub
  let timer := order.timerAfter (out ≠ []) line
  if line.waiting ≠ [] ∧ timer = none then hub.awaitGap line
  else { hub with order := some ⟨line, timer⟩ }

def Hub.hold (hub : Hub) (timer : Option Nat) (line : Line Event) : Hub :=
  match timer with
  | none => hub.awaitGap line
  | some timer => { hub with order := some ⟨line, some timer⟩ }

/-- The switch of `publishInOrderLocked`. -/
def Hub.publishTo (hub : Hub) (env : Environment) (order : Order) (event : Event) : Hub :=
  if order.line.last = 0 ∨ event.seq = order.line.last + 1 then
    (hub.deliver env event).releaseInOrder env ⟨⟨event.seq, order.line.waiting⟩, order.timer⟩ false
  else if event.seq ≤ order.line.last then hub.deliverMarker env
  else hub.hold order.timer (order.line.wait event.seq event)

def newOrder : Order := ⟨⟨0, []⟩, none⟩

def Hub.publishInOrder (hub : Hub) (env : Environment) (event : Event) : Hub :=
  hub.publishTo env (hub.order.getD newOrder) event

def Hub.publish (hub : Hub) (env : Environment) (event : Event) : Hub :=
  let hub := { hub with published := hub.published ++ [⟨event, hub.log.length⟩] }
  if event.routine then hub
  else if event.seq > 0 then hub.publishInOrder env event
  else hub.deliver env event

/-- The callback of the gap timer. -/
def Hub.fire (hub : Hub) (env : Environment) (timer : Nat) : Hub :=
  match hub.order with
  | none => hub
  | some order =>
    if order.timer = some timer then hub.releaseInOrder env { order with timer := none } true
    else hub

def Hub.releaseAll (env : Environment) : Nat → Hub → Hub
  | 0, hub => hub
  | fuel + 1, hub =>
    match hub.order with
    | none => hub
    | some order =>
      if order.line.waiting = [] then hub
      else (hub.releaseInOrder env order true).releaseAll env fuel

/-- Whether `resyncAll` tells the workspace: it has a window or a subscriber. -/
def Hub.told (hub : Hub) : Bool := hub.history.isSome || !hub.subscribers.isEmpty

def Hub.waiting (hub : Hub) : Nat := (hub.order.map fun order => order.line.waiting.length).getD 0

def Hub.resyncAll (hub : Hub) (env : Environment) : Hub :=
  let released := hub.releaseAll env hub.waiting
  let cleared := { released with order := none }
  if hub.told then cleared.deliverMarker env
  else { cleared with silent := hub.silent || hub.order.isSome }

/-- The cursor of a client that resumes. -/
inductive Since where
  | nothing
  | seq (n : Nat)
  | id (n : Nat)
deriving DecidableEq, Repr

def Since.finds (item : Item) : Since → Bool
  | .nothing => false
  | .seq n => 0 < n ∧ item.seq = n
  | .id n => item.id = n

def Hub.join (hub : Hub) (buffer : List Item) (replayed : Nat) : Hub :=
  { hub with
    nextID := hub.nextID + 1
    subscribers := hub.subscribers ++
      [⟨hub.nextID + 1, 64 + replayed, buffer, [], [], hub.log.length⟩] }

/-- The events of the window after the one that a cursor names. -/
def Hub.replay (hub : Hub) (since : Since) : Option (List Item) :=
  let items := (hub.history.getD ([], 0)).1
  (items.findIdx? since.finds).map fun index => items.drop (index + 1)

def Hub.subscribeSince (hub : Hub) (since : Since) (fresh : Nat) : Hub :=
  match hub.replay since with
  | some events => hub.join events events.length
  | none =>
    if since = .nothing then hub.join [] 0
    else hub.join [resyncMarker fresh hub.log.length] 0

def Subscriber.receive (s : Subscriber) : Subscriber :=
  match s.buffer with
  | [] => s
  | item :: rest => { s with buffer := rest, received := s.received ++ [item] }

inductive Label where
  | publish (event : Event) (env : Environment)
  | fire (timer : Nat) (env : Environment)
  | resyncAll (env : Environment)
  /-- Other workspaces have filled the windows. -/
  | evict
  | subscribe
  | subscribeSince (since : Since) (fresh : Nat)
  | receive (id : Nat)
  | unsubscribe (id : Nat)

def Hub.step (hub : Hub) : Label → Option Hub
  | .publish event env => some (hub.publish env event)
  | .fire timer env => some (hub.fire env timer)
  | .resyncAll env => some (hub.resyncAll env)
  | .evict => some { hub with history := none }
  | .subscribe => some (hub.join [] 0)
  | .subscribeSince since fresh => some (hub.subscribeSince since fresh)
  | .receive id =>
    some { hub with subscribers := hub.subscribers.map fun s => if s.id = id then s.receive else s }
  | .unsubscribe id =>
    some { hub with subscribers := hub.subscribers.filter fun s => s.id ≠ id }

end Flow.Ports.Realtime
