import Flow.Ports.CodingMoves

/-!
# Handing turns to the runner

The turns of a session wait in its inbox.  `Bootstrap` returns the current turn, or
marks the oldest undelivered one delivered and makes it current; `Inbox` marks and
returns the next one when the runner may take it.  Each is a sequence of store calls:
read the document, list the inbox, list what is undelivered, settle the scope of a
turn, mark it delivered, update the document.  Calls overlap, and may stop between
any two of these.

This is one session with its inbox and the calls of its runner, interleaved by store
calls, with every other operation on the session in between.  Three histories are
kept beside it: the completed turns, the turns that a successful call returned, and
for every successful bootstrap the current turn and the turn it returned.
-/

namespace Flow.Ports.Coding

open Flow.Verified Run Table

/-! ## The inbox -/

inductive InboxKind where
  | turn
  | stop
  | signal
deriving DecidableEq, Repr

/-- A turn; its scope is settled when `scopePendingSince`, in milliseconds, is
zero. -/
structure Turn where
  id : String
  scopePendingSince : Int := 0
deriving DecidableEq, Repr

/-- An inbox row; `sandboxID` is the sandbox that a stop is for. -/
structure InboxItem where
  seq : Nat
  kind : InboxKind
  turn : Option Turn := none
  sandboxID : String := ""
  delivered : Bool := false
deriving DecidableEq, Repr

def InboxItem.turnID (item : InboxItem) : Option String :=
  if item.kind = .turn then item.turn.map Turn.id else none

def inboxLimit : Nat := 200

def codingInbox (items : List InboxItem) (after : Nat) : List InboxItem :=
  (items.filter fun item => after < item.seq).take inboxLimit

def undeliveredCodingInbox (items : List InboxItem) : List InboxItem :=
  (items.filter fun item => !item.delivered).take inboxLimit

def markCodingInboxDelivered (items : List InboxItem) (seq : Nat) : List InboxItem :=
  items.map fun item => if item.seq = seq then { item with delivered := true } else item

/-- Appends an item with the next sequence number; a turn is enqueued once. -/
def enqueueCodingInbox (items : List InboxItem) (kind : InboxKind) (turn : Option Turn)
    (sandboxID : String) : List InboxItem :=
  if items.any fun item =>
      item.kind = kind ∧ turn.any fun t => t.id ≠ "" ∧ item.turn.any fun u => u.id = t.id then
    items
  else items ++ [⟨(items.map InboxItem.seq).max?.getD 0 + 1, kind, turn, sandboxID, false⟩]

def settleScope (items : List InboxItem) (seq : Nat) (turnID : String) : List InboxItem :=
  items.map fun item =>
    if item.seq = seq ∧ !item.delivered ∧
        item.turn.any (fun turn => turn.id = turnID ∧ turn.scopePendingSince ≠ 0) then
      { item with turn := item.turn.map ({ · with scopePendingSince := 0 }) }
    else item

/-- A pending scope is settled by force after this time. -/
def turnScopePendingStale : Duration := 10 * second

/-- Whether the turn of a listed item may be delivered now: its scope is settled, or was pending
so long that it is settled here. -/
def turnReady (items : List InboxItem) (item : InboxItem) (now : Time) :
    List InboxItem × Bool :=
  match item.turn with
  | none => (items, true)
  | some turn =>
    if turn.scopePendingSince = 0 then (items, true)
    else if now - turn.scopePendingSince * 1000000 < turnScopePendingStale then (items, false)
    else (settleScope items item.seq turn.id,
      items.any fun row => row.seq = item.seq ∧ !row.delivered ∧
        row.turn.any fun stored => stored.id = turn.id ∧ stored.scopePendingSince ≠ 0)

/-! ## Calls of the runner -/

/-- A call of the runner whose token was granted for a sandbox. -/
inductive Request where
  | bootstrap (grant : String)
  | inbox (grant : String) (after : Nat)
deriving DecidableEq, Repr

def Request.grant : Request → String
  | .bootstrap grant | .inbox grant _ => grant

def Request.isBootstrap : Request → Bool
  | .bootstrap _ => true
  | .inbox _ _ => false

/-- A call in flight: what it has read so far. `marked` says that it has marked the turn it is
about to return. -/
inductive Call where
  | began (request : Request) (read : Session)
  | listed (request : Request) (read : Session) (items : List InboxItem)
  /-- The next turn to deliver. -/
  | picked (request : Request) (read : Session) (response : List InboxItem)
      (item : InboxItem) (turnID : String)
  /-- Its scope is settled. -/
  | ready (request : Request) (read : Session) (response : List InboxItem)
      (item : InboxItem) (turnID : String)
  | resolved (request : Request) (read : Session) (response : List InboxItem)
      (turn : Option String) (marked : Bool)
  | answering (request : Request) (response : List InboxItem) (turn : Option String)
      (marked : Bool)
  | ended
deriving DecidableEq, Repr

def Call.marked : Call → Option String
  | .resolved _ _ _ turn marked | .answering _ _ turn marked => if marked then turn else none
  | _ => none

def Call.bootstrapping : Call → Bool
  | .began request _ | .listed request _ _ | .picked request _ _ _ _ | .ready request _ _ _ _
  | .resolved request _ _ _ _ | .answering request _ _ _ => request.isBootstrap
  | .ended => false

/-- A call that knows the turn it returns.  A bootstrap updates the document
that was starting, an inbox call the one it hands a turn to. -/
def Request.resolve (request : Request) (read : Session) (response : List InboxItem)
    (turn : Option String) (marked : Bool) : Call :=
  if request.isBootstrap ∧ read.phase = .starting ∨ !request.isBootstrap ∧ turn.isSome then
    .resolved request read response turn marked
  else .answering request response turn marked

def nextTurn : List InboxItem → Option (InboxItem × String)
  | [] => none
  | item :: rest =>
    match item.turnID with
    | some turnID => some (item, turnID)
    | none => nextTurn rest

/-- The items an inbox call returns, up to the first undelivered turn, and that
turn if the runner may take it.  A stop for another sandbox is left out. -/
def inboxItems (read : Session) (undelivered : List Nat) :
    List InboxItem → List InboxItem × Option (InboxItem × String)
  | [] => ([], none)
  | item :: rest =>
    if item.kind ≠ .turn then
      let (items, next) := inboxItems read undelivered rest
      if item.kind = .stop ∧ item.sandboxID ≠ "" ∧ item.sandboxID ≠ read.sandboxID then
        (items, next)
      else (item :: items, next)
    else if item.seq ∉ undelivered then inboxItems read undelivered rest
    else match item.turnID with
      | some turnID =>
        if acceptsTurn read ∧ !read.stopRequested then ([], some (item, turnID))
        else ([], none)
      | none => ([], none)

/-! ## The session, its inbox and the calls in flight -/

structure Mailbox where
  session : Session
  items : List InboxItem := []
  calls : List Call := []
  /-- The turns that were the session's last turn at some point. -/
  completed : List String := []
  returned : List String := []
  /-- For every bootstrap that succeeded the current turn of the session then,
  and the turn it returned. -/
  bootstraps : List (String × Option String) := []
deriving DecidableEq, Repr

def Mailbox.start (svc : Service) (input : StartInput) (time : Time) : Mailbox :=
  { session := svc.start input time }

inductive Delivery where
  | enqueue (kind : InboxKind) (turn : Option Turn) (sandboxID : String)
  /-- The scope of a queued turn is settled in the background. -/
  | settle (seq : Nat) (turnID : String)
  /-- Another operation on the session, with the sandboxes it sees. -/
  | operate (op : Operation) (sandboxes : List Sandbox)
  | begin (request : Request)
  | list (k : Nat)
  | undelivered (k : Nat)
  | ready (k : Nat) (now : Time)
  | mark (k : Nat)
  | update (k : Nat) (now : Time)
  | respond (k : Nat)
  | stop (k : Nat)
deriving DecidableEq, Repr

def Operation.other : Operation → Bool
  | .bootstrap .. | .inbox .. => false
  | _ => true

def Request.list (request : Request) (read : Session) (items : List InboxItem) : Call :=
  match request with
  | .bootstrap _ =>
    let all := codingInbox items 0
    if read.currentTurnID ≠ "" ∧ all.any fun item => item.turnID = some read.currentTurnID then
      request.resolve read [] (some read.currentTurnID) false
    else .listed request read all
  | .inbox _ after => .listed request read (codingInbox items after)

def Request.pick (request : Request) (read : Session) (listed pending : List InboxItem) : Call :=
  match request with
  | .bootstrap _ =>
    match nextTurn pending with
    | some (item, turnID) => .picked request read [] item turnID
    | none => request.resolve read [] none false
  | .inbox _ _ =>
    match inboxItems read (pending.map InboxItem.seq) listed with
    | (response, some (item, turnID)) => .picked request read response item turnID
    | (response, none) => request.resolve read response none false

/-- The update of the document by a call that read `read` and returns `turn`. -/
def Request.update (svc : Service) (request : Request) (read : Session)
    (turn : Option String) (now : Time) (s : Session) : Option Session :=
  match request with
  | .bootstrap grant => svc.bootstrapMove grant turn (read.snapshotID ≠ "") now s
  | .inbox _ _ => svc.inboxMove read.sandboxID (turn.getD "") now s

def Mailbox.step (svc : Service) (w : Mailbox) : Delivery → Option Mailbox
  -- Whoever enqueues a turn has given it an id.
  | .enqueue kind turn sandboxID =>
    if turn.any fun t => t.id = "" then none
    else some { w with items := enqueueCodingInbox w.items kind turn sandboxID }
  | .settle seq turnID => some { w with items := settleScope w.items seq turnID }
  | .operate op sandboxes =>
    if op.other then
      (op.run svc sandboxes w.session).map fun d =>
        { w with
          session := writeDocument w.session d.session
          completed := d.session.lastTurnID :: w.completed }
    else none
  | .begin request =>
    if w.session.phase = .done ∨ w.session.sandboxID ≠ request.grant then none
    else some { w with calls := w.calls ++ [.began request w.session] }
  | .list k =>
    match w.calls[k]? with
    | some (.began request read) =>
      some { w with calls := w.calls.set k (request.list read w.items) }
    | _ => none
  | .undelivered k =>
    match w.calls[k]? with
    | some (.listed request read items) =>
      let call := request.pick read items (undeliveredCodingInbox w.items)
      some { w with calls := w.calls.set k call }
    | _ => none
  | .ready k now =>
    match w.calls[k]? with
    | some (.picked request read response item turnID) =>
      let (items, ready) := turnReady w.items item now
      let call := if ready then .ready request read response item turnID
        else request.resolve read response none false
      some { w with items := items, calls := w.calls.set k call }
    | _ => none
  | .mark k =>
    match w.calls[k]? with
    | some (.ready request read response item turnID) =>
      let call := request.resolve read (response ++ [item]) (some turnID) true
      some { w with
        items := markCodingInboxDelivered w.items item.seq, calls := w.calls.set k call }
    | _ => none
  | .update k now =>
    match w.calls[k]? with
    | some (.resolved request read response turn marked) =>
      match request.update svc read turn now w.session with
      | some t =>
        some { w with
          session := writeDocument w.session t
          calls := w.calls.set k (.answering request response turn marked) }
      | none => some { w with calls := w.calls.set k .ended }
    | _ => none
  | .respond k =>
    match w.calls[k]? with
    | some (.answering request _ turn _) =>
      some { w with
        calls := w.calls.set k .ended
        returned := turn.toList ++ w.returned
        bootstraps := if request.isBootstrap then
          (w.session.currentTurnID, turn) :: w.bootstraps else w.bootstraps }
    | _ => none
  | .stop k => some { w with calls := w.calls.set k .ended }

/-! ## What is promised -/

def Mailbox.accounts (w : Mailbox) (turnID : String) : Bool :=
  turnID = w.session.currentTurnID || turnID ∈ w.completed || turnID ∈ w.returned

/-- **No turn is lost**: every turn marked delivered is the current one, was completed or was
returned, or is about to be returned by a call in flight. -/
def Accounted (w : Mailbox) : Prop :=
  ∀ item ∈ w.items, item.delivered → ∀ turnID, item.turnID = some turnID →
    w.accounts turnID ∨ ∃ call ∈ w.calls, call.marked = some turnID

/-- **No turn is handed out as a different one**: a bootstrap that succeeded while the session
had a current turn in its inbox returned that turn. -/
def Repeats (w : Mailbox) : Prop :=
  ∀ entry ∈ w.bootstraps, entry.1 ≠ "" → (∃ item ∈ w.items, item.turnID = some entry.1) →
    entry.2 = some entry.1

/-- No bootstrap but call `k` is in flight. -/
def Mailbox.aloneBut (w : Mailbox) (k : Nat) : Bool :=
  (w.calls.set k .ended).all fun call => !call.bootstrapping

def Mailbox.alone (w : Mailbox) : Bool :=
  w.calls.all fun call => !call.bootstrapping

/-- The session still has the sandbox of the call, and takes turns. -/
def Request.served (request : Request) (s : Session) : Bool :=
  s.sandboxID = request.grant && (request.isBootstrap || !s.stopRequested)

/-- A call that has marked a turn is neither stopped nor refused before the turn is accounted
for; a bootstrap finds the current turn in what it lists, and nothing else changes it meanwhile;
and no other operation takes the current turn away before it was returned or completed. -/
def Mailbox.uninterrupted (svc : Service) (w : Mailbox) : Delivery → Bool
  | .operate op sandboxes =>
    (op.run svc sandboxes w.session).all fun d =>
      d.session.currentTurnID = w.session.currentTurnID ||
        w.alone && (d.session.lastTurnID = w.session.currentTurnID ||
          w.session.currentTurnID ∈ w.completed ++ w.returned)
  | .list k =>
    match w.calls[k]? with
    | some (.began (.bootstrap _) read) =>
      read.currentTurnID = "" ||
        (codingInbox w.items 0).any fun item => item.turnID = some read.currentTurnID
    | _ => true
  | .update k _ =>
    match w.calls[k]? with
    | some (.resolved request read response turn marked) =>
      w.aloneBut k &&
        (request.served w.session ||
          ((Call.resolved request read response turn marked).marked).all w.accounts)
    | _ => true
  | .stop k => ((w.calls[k]?).bind Call.marked).all w.accounts
  | _ => true

def Uninterrupted (svc : Service) (w : Mailbox) (label : Delivery) : Prop :=
  w.uninterrupted svc label

instance (svc : Service) (w : Mailbox) (label : Delivery) :
    Decidable (Uninterrupted svc w label) :=
  inferInstanceAs (Decidable (w.uninterrupted svc label = true))

end Flow.Ports.Coding
