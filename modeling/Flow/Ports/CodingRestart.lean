import Flow.Ports.CodingDelivery
import Flow.Verified.Keyset
import Flow.Verified.Slots

/-!
# Restarting a finished session

`Restart` queues a finished session again.  It lists the inbox, keeps the last turn
of the list and enqueues a copy of it, unless a turn is waiting already; then it
resets the session.  The list is the first page of the inbox: the items with the
lowest numbers.
-/

namespace Flow.Ports.Restart

open List
open Flow.Ports.Coding (InboxKind Service Session Time defaultService inboxLimit)
open Flow.Verified.Keyset (lastHit lastHit_eq_none_iff lastHit_eq_some_iff)
open Flow.Verified.Slots (Reply)

/-! ## The inbox -/

inductive TurnKind where
  | initial
  | followUp
  | prComment
  | fixPR
  | rebase
  | lint
  | test
  | configureEnvironment
  | fixEnvironment
  | restart
deriving DecidableEq, Repr

/-- What a turn may do to the repository; `unset` leaves it to the runner. -/
inductive TurnScope where
  | unset
  | write
  | noPublish
  | readOnly
deriving DecidableEq, Repr

inductive TurnScopeSource where
  | unset
  | user
  | kind
  | rules
  | model
deriving DecidableEq, Repr

structure Turn where
  id : String
  prompt : String
  authorID : String := ""
  attachments : List String := []
  kind : TurnKind := .initial
  scope : TurnScope := .unset
  scopeSource : TurnScopeSource := .unset
  scopePendingSince : Int := 0
  includeLeftovers : Bool := false
deriving DecidableEq, Repr

structure InboxItem where
  seq : Nat
  kind : InboxKind
  turn : Option Turn := none
  delivered : Bool := false
deriving DecidableEq, Repr

def InboxItem.asTurn (item : InboxItem) : Option Turn :=
  if item.kind = .turn then item.turn else none

def InboxItem.pending (item : InboxItem) : Bool :=
  item.kind = .turn && !item.delivered

/-- `COALESCE(MAX(seq),0)+1`. -/
def nextSeq (items : List InboxItem) : Nat :=
  (items.map InboxItem.seq).max?.getD 0 + 1

/-- The inbox of a session, in the order of its numbers, which start at 1. -/
structure Inbox where
  items : List InboxItem
  ordered : items.Pairwise fun a b => a.seq < b.seq
  positive : ∀ item ∈ items, 0 < item.seq

/-- The items after a number, of which a query returns the first. -/
def Inbox.codingInbox (inbox : Inbox) (after : Nat) : List InboxItem :=
  (inbox.items.filter fun item => after < item.seq).take inboxLimit

def Inbox.pendingCodingTurns (inbox : Inbox) : Nat :=
  inbox.items.countP InboxItem.pending

def Inbox.push (inbox : Inbox) (kind : InboxKind) (turn : Option Turn) : Inbox where
  items := inbox.items ++ [⟨nextSeq inbox.items, kind, turn, false⟩]
  ordered := by
    refine pairwise_append.mpr ⟨inbox.ordered, pairwise_singleton _ _, ?_⟩
    intro item hitem new hnew
    rw [mem_singleton.mp hnew]
    exact (Nat.lt_succ_of_le (le_max?_getD_of_mem (mem_map_of_mem hitem)))
  positive := by
    intro item hitem
    rcases mem_append.mp hitem with hitem | hitem
    · exact inbox.positive item hitem
    · rw [mem_singleton.mp hitem]
      exact Nat.succ_pos _

theorem Inbox.turn_of_push {inbox : Inbox} {kind : InboxKind} {turn turn' : Turn}
    (h : (inbox.push kind (some turn)).items =
      inbox.items ++ [⟨nextSeq inbox.items, kind, some turn', false⟩]) : turn = turn' := by
  simpa [Inbox.push] using h

def Inbox.hasTurn (inbox : Inbox) (kind : InboxKind) (turnID : String) : Bool :=
  inbox.items.any fun item => item.kind = kind && item.turn.any fun turn => turn.id = turnID

/-- Appends an item; a turn with an id is enqueued once. -/
def Inbox.enqueueCodingInbox (inbox : Inbox) (kind : InboxKind) (turn : Option Turn) : Inbox :=
  if turn.any fun t => t.id ≠ "" && inbox.hasTurn kind t.id then inbox
  else inbox.push kind turn

inductive RestartError where
  | conflict
  | refused
  | store
deriving DecidableEq, Repr

structure State where
  session : Session
  inbox : Inbox

/-- A request, with the id that `NewID` returns in it. -/
structure Request where
  userID : String
  useDefaultModel : Bool := false
  newID : String
  now : Time

/-- What a restart meets: the spend guard, which passes where none is set, the
answers of its store calls, and whether commits are recorded. -/
structure Replies where
  guard : Bool := true
  session : Reply := .ok
  inbox : Reply := .ok
  pending : Reply := .ok
  enqueue : Reply := .ok
  update : Reply := .ok
  recorded : Bool := false

def lastTurn (items : List InboxItem) : Option Turn :=
  lastHit InboxItem.asTurn items

def Request.turn (req : Request) (last : Turn) : Turn :=
  { last with id := "turn_" ++ req.newID, kind := .restart, authorID := req.userID }

def requeue (svc : Service) (req : Request) (re : Replies) (st : State) :
    State × Option RestartError :=
  if re.update = .failed then (st, some .store)
  else
    match svc.restart req.useDefaultModel re.recorded req.now st.session with
    | none => (st, some .conflict)
    | some session =>
      ({ st with session }, if re.update = .ok then none else some .store)

def enqueueLast (svc : Service) (req : Request) (re : Replies) (st : State) (last : Turn) :
    State × Option RestartError :=
  if re.pending ≠ .ok then (st, some .store)
  else if st.inbox.pendingCodingTurns ≠ 0 then requeue svc req re st
  else if re.enqueue = .failed then (st, some .store)
  else
    let st := { st with inbox := st.inbox.enqueueCodingInbox .turn (some (req.turn last)) }
    if re.enqueue ≠ .ok then (st, some .store) else requeue svc req re st

def restart (svc : Service) (req : Request) (re : Replies) (st : State) :
    State × Option RestartError :=
  if re.session ≠ .ok then (st, some .store)
  else if st.session.phase ≠ .done ∨ st.session.approvalState = .rejected then
    (st, some .conflict)
  else if !re.guard then (st, some .refused)
  else if re.inbox ≠ .ok then (st, some .store)
  else
    match lastTurn (st.inbox.codingInbox 0) with
    | none => (st, some .conflict)
    | some last => enqueueLast svc req re st last

/-! ## What is promised -/

/-- The turn of the item with the highest number of those that are turns. -/
def LatestTurn (items : List InboxItem) (turn : Turn) : Prop :=
  ∃ item ∈ items, item.asTurn = some turn ∧
    ∀ other ∈ items, other.asTurn.isSome → other.seq ≤ item.seq

def Turn.Asks (turn other : Turn) : Prop :=
  turn.prompt = other.prompt ∧ turn.attachments = other.attachments ∧ turn.scope = other.scope

instance (turn other : Turn) : Decidable (turn.Asks other) :=
  inferInstanceAs (Decidable (_ ∧ _))

def RepeatsLatest (before after : Inbox) : Prop :=
  ∃ latest turn, LatestTurn before.items latest ∧ turn.Asks latest ∧
    after.items = before.items ++ [⟨nextSeq before.items, .turn, some turn, false⟩]

def LatestListed (inbox : Inbox) : Prop :=
  ∃ listed latest, LatestTurn (inbox.items.take inboxLimit) listed ∧
    LatestTurn inbox.items latest ∧ listed.Asks latest

/-- The guard lets the session run, and the store calls up to the insert take
effect. -/
def Replies.Pass (re : Replies) : Prop :=
  re.guard = true ∧ re.session = .ok ∧ re.inbox = .ok ∧ re.pending = .ok ∧ re.enqueue ≠ .failed

instance (re : Replies) : Decidable re.Pass :=
  inferInstanceAs (Decidable (_ ∧ _))

/-! ## The inbox after a restart -/

theorem codingInbox_zero (inbox : Inbox) : inbox.codingInbox 0 = inbox.items.take inboxLimit := by
  unfold Inbox.codingInbox
  rw [filter_eq_self.mpr fun item hitem => decide_eq_true (inbox.positive item hitem)]

theorem lastTurn_eq_some_iff (inbox : Inbox) {turn : Turn} :
    lastTurn (inbox.codingInbox 0) = some turn ↔ LatestTurn (inbox.items.take inboxLimit) turn := by
  rw [codingInbox_zero]
  exact lastHit_eq_some_iff (inbox.ordered.sublist (take_sublist _ _))

theorem requeue_inbox (svc : Service) (req : Request) (re : Replies) (st : State) :
    (requeue svc req re st).1.inbox = st.inbox := by
  unfold requeue
  split
  · rfl
  · split
    · rfl
    · rfl

/-- When a restart enqueues: the session may run, no turn is waiting, and nothing
fails before the insert. -/
structure Admits (re : Replies) (st : State) : Prop where
  pass : re.Pass
  done : st.session.phase = .done
  approved : st.session.approvalState ≠ .rejected
  delivered : st.inbox.pendingCodingTurns = 0

section Inbox

variable {svc : Service} {req : Request} {re : Replies} {st : State}

theorem restart_inbox_of_admits {last : Turn} (h : Admits re st)
    (hlast : lastTurn (st.inbox.codingInbox 0) = some last) :
    (restart svc req re st).1.inbox = st.inbox.enqueueCodingInbox .turn (some (req.turn last)) := by
  obtain ⟨⟨hguard, hsession, hinbox, hpending, henqueue⟩, hdone, happroved, hdelivered⟩ := h
  simp only [restart, hsession, hdone, happroved, hguard, hinbox, hlast, ne_eq, not_true_eq_false,
    or_self, Bool.not_true, Bool.false_eq_true]
  simp only [enqueueLast, hpending, hdelivered, henqueue, ne_eq, not_true_eq_false, if_false]
  split
  · rfl
  · exact requeue_inbox ..

/-- A restart leaves the inbox as it is, or enqueues the last turn that it lists. -/
theorem restart_inbox_cases (svc : Service) (req : Request) (re : Replies) (st : State) :
    (restart svc req re st).1.inbox = st.inbox ∨
      Admits re st ∧ ∃ last, lastTurn (st.inbox.codingInbox 0) = some last ∧
        (restart svc req re st).1.inbox =
          st.inbox.enqueueCodingInbox .turn (some (req.turn last)) := by
  by_cases hadmits : Admits re st ∧ ∃ last, lastTurn (st.inbox.codingInbox 0) = some last
  · obtain ⟨hadmits, last, hlast⟩ := hadmits
    exact .inr ⟨hadmits, last, hlast, restart_inbox_of_admits hadmits hlast⟩
  · left
    -- each test that a restart passes is a part of `Admits`
    unfold restart
    split
    · rfl
    next hsession =>
    split
    · rfl
    next hdone =>
    split
    · rfl
    next hguard =>
    split
    · rfl
    next hinbox =>
    split
    · rfl
    next last hlast =>
    unfold enqueueLast
    split
    · rfl
    next hpending =>
    split
    · exact requeue_inbox ..
    next hdelivered =>
    split
    · rfl
    next henqueue =>
    simp only [not_or, not_not] at hsession hdone hinbox hpending hdelivered
    have hpass : re.Pass := ⟨by simpa using hguard, hsession, hinbox, hpending, henqueue⟩
    exact absurd ⟨⟨hpass, hdone.1, hdone.2, hdelivered⟩, last, hlast⟩ hadmits

theorem enqueueCodingInbox_of_fresh {inbox : Inbox} {kind : InboxKind} {turn : Turn}
    (hfresh : ∀ item ∈ inbox.items, ∀ t, item.turn = some t → t.id ≠ turn.id) :
    inbox.enqueueCodingInbox kind (some turn) = inbox.push kind (some turn) := by
  have hnot : inbox.hasTurn kind turn.id = false := by
    refine any_eq_false.mpr fun item hitem => ?_
    cases hturn : item.turn with
    | none => simp
    | some t => simp [hfresh item hitem t hturn]
  simp [Inbox.enqueueCodingInbox, hnot]

theorem pendingCodingTurns_eq_zero {inbox : Inbox} : inbox.pendingCodingTurns = 0 ↔
      ∀ item ∈ inbox.items, item.kind = .turn → item.delivered := by
  unfold Inbox.pendingCodingTurns
  simp [InboxItem.pending]

end Inbox

/-! ## Which turn is repeated -/

/-- **A restart repeats the latest request**, in a finished session without a waiting turn,
exactly when the session was not rejected, the spend guard and the store let it enqueue, and the
latest turns of the first page of the inbox and of the inbox ask for the same. -/
theorem restart_repeats_iff (svc : Service) (req : Request) (re : Replies) (st : State)
    (hdone : st.session.phase = .done)
    (hdelivered : ∀ item ∈ st.inbox.items, item.kind = .turn → item.delivered = true)
    (hfresh : ∀ item ∈ st.inbox.items, ∀ t, item.turn = some t → t.id ≠ "turn_" ++ req.newID) :
    RepeatsLatest st.inbox (restart svc req re st).1.inbox ↔
      st.session.approvalState ≠ .rejected ∧ re.Pass ∧ LatestListed st.inbox := by
  constructor
  · rintro ⟨latest, turn, hlatest, hasks, hafter⟩
    rcases restart_inbox_cases svc req re st with hsame | ⟨hadmits, last, hlast, henqueued⟩
    · rw [hsame] at hafter
      exact absurd hafter (by simp)
    · rw [henqueued, enqueueCodingInbox_of_fresh hfresh] at hafter
      rw [← Inbox.turn_of_push hafter] at hasks
      exact ⟨hadmits.approved, hadmits.pass, last, latest, (lastTurn_eq_some_iff _).mp hlast,
        hlatest, hasks⟩
  · rintro ⟨happroved, hpass, listed, latest, hlisted, hlatest, hasks⟩
    have hadmits : Admits re st :=
      ⟨hpass, hdone, happroved, pendingCodingTurns_eq_zero.mpr hdelivered⟩
    refine ⟨latest, req.turn listed, hlatest, hasks, ?_⟩
    rw [restart_inbox_of_admits hadmits ((lastTurn_eq_some_iff _).mpr hlisted),
      enqueueCodingInbox_of_fresh hfresh]
    rfl

theorem latestListed_of_length_le {inbox : Inbox} (hlength : inbox.items.length ≤ inboxLimit)
    (hturn : ∃ item ∈ inbox.items, item.asTurn.isSome) : LatestListed inbox := by
  obtain ⟨item, hitem, hsome⟩ := hturn
  have hpage : inbox.items.take inboxLimit = inbox.items := take_of_length_le hlength
  cases hlast : lastHit InboxItem.asTurn inbox.items with
  | none =>
    rw [lastHit_eq_none_iff.mp hlast item hitem] at hsome
    cases hsome
  | some latest =>
    have hlatest : LatestTurn inbox.items latest := (lastHit_eq_some_iff inbox.ordered).mp hlast
    exact ⟨latest, latest, by rwa [hpage], hlatest, rfl, rfl, rfl⟩

def finished (inbox : Inbox) : State where
  session := { id := "s-1", workspaceKey := "acme", phase := .done }
  inbox := inbox

def byAda : Request := { userID := "ada", newID := "01J", now := 0 }

/-- Two delivered turns with a stop between them. -/
def shortInbox : Inbox where
  items := [⟨1, .turn, some { id := "turn-1", prompt := "add a test" }, true⟩,
    ⟨2, .stop, none, false⟩,
    ⟨3, .turn, some { id := "turn-3", prompt := "rename it", scope := .write }, true⟩]
  ordered := by decide
  positive := by decide

theorem restart_repeats_short :
    RepeatsLatest shortInbox (restart defaultService byAda {} (finished shortInbox)).1.inbox := by
  have hfresh : ∀ item ∈ shortInbox.items, ∀ t, item.turn = some t →
      t.id ≠ "turn_" ++ byAda.newID := by
    simp [shortInbox, byAda]
  exact (restart_repeats_iff defaultService byAda {} (finished shortInbox) rfl (by decide)
    hfresh).mpr ⟨by decide, by decide, latestListed_of_length_le (by decide) (by decide)⟩

/-- The turns of a session that asks for one thing for a whole page, and for another
thing after it. -/
def turnOf (seq : Nat) : Turn :=
  { id := "turn-" ++ toString seq
    prompt := if seq ≤ inboxLimit then "add a test" else "rename it" }

/-- An inbox that is one turn longer than a page, all of it delivered. -/
def longInbox : Inbox where
  items := (range' 1 (inboxLimit + 1)).map fun seq => ⟨seq, .turn, some (turnOf seq), true⟩
  ordered := pairwise_map.mpr (pairwise_lt_range' 1)
  positive := by
    refine forall_mem_map.mpr fun seq hseq => ?_
    exact (mem_range'_1.mp hseq).1

theorem longInbox_fresh :
    ∀ item ∈ longInbox.items, ∀ t, item.turn = some t → t.id ≠ "turn_" ++ byAda.newID := by
  have hids : ∀ seq ∈ range' 1 (inboxLimit + 1),
      (turnOf seq).id ≠ "turn_" ++ byAda.newID := by
    decide +kernel
  refine forall_mem_map.mpr fun seq hseq t ht => ?_
  rw [← Option.some.inj ht]
  exact hids seq hseq

/-- **A restart repeats an old request.**  Its list ends with the last turn of the first
page, and the turn after the page asks for something else. -/
theorem restart_repeats_old :
    ((finished longInbox).session.phase = .done ∧
      (finished longInbox).session.approvalState ≠ .rejected ∧ Replies.Pass {} ∧
      (∀ item ∈ longInbox.items, item.kind = .turn → item.delivered = true) ∧
      ∀ item ∈ longInbox.items, ∀ t, item.turn = some t → t.id ≠ "turn_" ++ byAda.newID) ∧
    LatestTurn longInbox.items (turnOf 201) ∧
    (restart defaultService byAda {} (finished longInbox)).1.inbox =
      longInbox.push .turn (some (byAda.turn (turnOf 200))) ∧
    ¬RepeatsLatest longInbox (restart defaultService byAda {} (finished longInbox)).1.inbox := by
  have hdelivered : ∀ item ∈ longInbox.items, item.kind = .turn → item.delivered = true :=
    forall_mem_map.mpr fun _ _ _ => rfl
  have hadmits : Admits {} (finished longInbox) :=
    ⟨by decide, rfl, by decide, pendingCodingTurns_eq_zero.mpr hdelivered⟩
  have hlatest : lastHit InboxItem.asTurn longInbox.items = some (turnOf 201) := by
    decide +kernel
  have hlast : lastTurn (longInbox.codingInbox 0) = some (turnOf 200) := by
    decide +kernel
  have hafter : (restart defaultService byAda {} (finished longInbox)).1.inbox =
      longInbox.push .turn (some (byAda.turn (turnOf 200))) :=
    (restart_inbox_of_admits hadmits hlast).trans (enqueueCodingInbox_of_fresh longInbox_fresh)
  refine ⟨⟨rfl, by decide, by decide, hdelivered, longInbox_fresh⟩,
    (lastHit_eq_some_iff longInbox.ordered).mp hlatest, hafter, ?_⟩
  rintro ⟨latest, turn, hlatest', hasks, hitems⟩
  have hlatest'' := (lastHit_eq_some_iff longInbox.ordered).mpr hlatest'
  rw [hlatest, Option.some.injEq] at hlatest''
  rw [← Inbox.turn_of_push hitems, ← hlatest''] at hasks
  exact absurd hasks.1 (by decide)

theorem restart_inbox_of_pending {svc : Service} {req : Request} {re : Replies} {st : State}
    (h : st.inbox.pendingCodingTurns ≠ 0) : (restart svc req re st).1.inbox = st.inbox := by
  rcases restart_inbox_cases svc req re st with hsame | ⟨hadmits, -⟩
  · exact hsame
  · exact absurd hadmits.delivered h

theorem pendingCodingTurns_push (inbox : Inbox) (turn : Option Turn) :
    (inbox.push .turn turn).pendingCodingTurns = inbox.pendingCodingTurns + 1 := by
  simp [Inbox.pendingCodingTurns, Inbox.push, InboxItem.pending]

/-- The inbox has not changed, or a turn has been added. -/
def Inbox.AtMostOne (before after : Inbox) : Prop :=
  after = before ∨ ∃ turn, after = before.push .turn (some turn)

theorem Inbox.AtMostOne.restart {before : Inbox} {svc : Service} {req : Request} {re : Replies}
    {st : State} (h : before.AtMostOne st.inbox) :
    before.AtMostOne (restart svc req re st).1.inbox := by
  rcases h with hsame | ⟨turn, hpush⟩
  · rcases restart_inbox_cases svc req re st with hafter | ⟨-, last, -, hafter⟩
    · exact .inl (hafter.trans hsame)
    · rw [hafter, hsame, Inbox.enqueueCodingInbox]
      split
      · exact .inl rfl
      · exact .inr ⟨_, rfl⟩
  · rw [restart_inbox_of_pending (by rw [hpush, pendingCodingTurns_push]; exact nofun)]
    exact .inr ⟨turn, hpush⟩

/-- **Restarts in a row enqueue at most one turn**, whoever asks for them and whatever fails:
one after a failed reset finds the turn of the one before. -/
theorem restarts_enqueue_once (svc : Service) (calls : List (Request × Replies)) (st : State) :
    st.inbox.AtMostOne
      (calls.foldl (fun st call => (restart svc call.1 call.2 st).1) st).inbox := by
  induction calls using reverseRecOn with
  | nil => exact .inl rfl
  | append_singleton calls call ih =>
    rw [foldl_concat]
    exact ih.restart

end Flow.Ports.Restart
