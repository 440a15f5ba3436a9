import Flow.Ports.CollaborationClient
import Flow.Verified.Slots
import Flow.Verified.Table

/-!
# The collaboration client loses no edit

The document has every edit, and what the known clocks cover has come back from the
server, since a clock is advanced only past ranges that leave no gap.  So the delta
against the known clocks has every part of every edit that is not acknowledged, and
an update may be given up for the flag at any time.
-/

namespace Flow.Ports.CollaborationClient

open List Option Flow.Verified

theorem Document.merge_left {doc other : Document} {part : Part} (h : doc part) :
    doc.merge other part := by
  rw [Document.merge, h, Bool.true_or]

theorem Document.merge_right {doc other : Document} {part : Part} (h : other part) :
    doc.merge other part := by
  rw [Document.merge, h, Bool.or_true]

/-! ## The invariant -/

def bytes (pending : List (Nat × Update)) : Int :=
  (pending.map fun entry => (entry.2.byteLength : Int)).sum

structure Inv (yjs : Yjs) (held : Edits) : Prop where
  /-- What the clocks cover has come back. -/
  known : ∀ part, part.behind held.serverClocks = true → held.acknowledged part = true
  owned : ∀ edit ∈ held.edits, ∀ part, edit part = true → held.document part = true
  kept : ∀ edit ∈ held.edits, held.Keeps yjs edit
  counted : held.pendingBytes = bytes held.pendingUpdates
  fresh : ∀ entry ∈ held.pendingUpdates, entry.1 < held.nextID
  nodup : (held.pendingUpdates.map Prod.fst).Nodup

section Operations

variable {yjs : Yjs} {held : Edits} {edit : Document}

/-- Every part of an edit that the document has is acknowledged or in the delta, since
the clocks cover only what is acknowledged. -/
theorem Edits.acknowledged_or_delta
    (hknown : ∀ part, part.behind held.serverClocks → held.acknowledged part)
    (howned : ∀ part, edit part → held.document part) (part : Part)
    (hpart : edit part) :
    held.acknowledged part ∨ (held.delta yjs).content part := by
  cases hbehind : part.behind held.serverClocks with
  | true => exact .inl (hknown part hbehind)
  | false => exact .inr (yjs.contains _ _ part (howned part hpart) hbehind)

theorem Inv.acknowledged_or_delta (h : Inv yjs held) (hedit : edit ∈ held.edits)
    (part : Part) (hpart : edit part) :
    held.acknowledged part ∨ (held.delta yjs).content part :=
  Edits.acknowledged_or_delta h.known (h.owned edit hedit) part hpart

theorem Inv.giveUp (h : Inv yjs held) : Inv yjs held.giveUp :=
  { h with
    kept := fun _ hedit => .deferred rfl (h.acknowledged_or_delta hedit)
    counted := rfl
    fresh := nofun
    nodup := nodup_nil }

theorem Inv.derive (h : Inv yjs held) : Inv yjs (held.derive yjs) := by
  unfold Edits.derive
  split
  · exact { h with
      kept := fun _ hedit => .pending _ mem_cons_self (h.acknowledged_or_delta hedit)
      counted := by simp [bytes]
      fresh := by simp
      nodup := nodup_singleton _ }
  · exact h

theorem Edits.Keeps.mono {held' : Edits} (h : held.Keeps yjs edit)
    (hack : ∀ part, held.acknowledged part → held'.acknowledged part)
    (hpending : ∀ entry ∈ held.pendingUpdates, entry ∈ held'.pendingUpdates)
    (hdeferred : held.deferredUpdate → held'.Keeps yjs edit) : held'.Keeps yjs edit := by
  cases h with
  | acknowledged h => exact .acknowledged fun part hpart => hack part (h part hpart)
  | pending entry hentry h =>
    exact .pending entry (hpending entry hentry) fun part hpart =>
      (h part hpart).imp_left (hack part)
  | deferred hflag _ => exact hdeferred hflag

/-- A local edit is in the document, and announced by an update that has it. -/
theorem Inv.queue_edit (h : Inv yjs held) {content : Document} {update : Update}
    (hupdate : ∀ part, content part → update.content part) :
    Inv yjs ((held.edit content).queue update) := by
  have howned : ∀ edit ∈ held.edits ++ [content], ∀ part, edit part = true →
      held.document.merge content part = true := by
    intro edit hedit part hpart
    rcases mem_append.mp hedit with hold | hnew
    · exact Document.merge_left (h.owned edit hold part hpart)
    · rw [mem_singleton.mp hnew] at hpart
      exact Document.merge_right hpart
  have hknown : ∀ part, part.behind (held.edit content).serverClocks = true →
      (held.edit content).acknowledged part = true := h.known
  have hdelta : ∀ edit ∈ held.edits ++ [content], ∀ part, edit part = true →
      held.acknowledged part = true ∨
        ((held.edit content).delta yjs).content part = true :=
    fun edit hedit => Edits.acknowledged_or_delta hknown (howned edit hedit)
  unfold Edits.queue
  split
  · exact { h with owned := howned, kept := fun edit hedit => .deferred rfl (hdelta edit hedit) }
  · refine { h with owned := howned, kept := ?_, counted := ?_, fresh := ?_, nodup := ?_ }
    · intro edit hedit
      rcases mem_append.mp hedit with hold | hnew
      · exact (h.kept edit hold).mono (fun _ hack => hack)
          (fun _ hentry => mem_append_left _ hentry)
          fun hflag => .deferred hflag (hdelta edit hedit)
      · refine .pending (held.nextID, update) (mem_append_right _ mem_cons_self) ?_
        intro part hpart
        rw [mem_singleton.mp hnew] at hpart
        exact .inr (hupdate part hpart)
    · show held.pendingBytes + update.byteLength = bytes (held.pendingUpdates ++ [_])
      simp [bytes, h.counted]
    · refine Slots.forall_push (fun entry hentry => ?_) (Nat.lt_succ_self _)
      exact Nat.lt_succ_of_lt (h.fresh entry hentry)
    · refine Slots.nodup_push h.nodup fun hmem => ?_
      obtain ⟨entry, hentry, hid⟩ := mem_map.mp hmem
      exact (h.fresh entry hentry).ne hid

theorem bytes_filter {pending : List (Nat × Update)} (hnodup : (pending.map Prod.fst).Nodup)
    (id : Nat) :
    bytes (pending.filter fun entry => entry.1 ≠ id) = bytes pending -
      (((pending.find? fun entry => entry.1 = id).map Prod.snd).map Update.byteLength).getD 0 := by
  have hsplit := ((filter_append_perm (fun entry : Nat × Update => entry.1 = id) pending).map
    fun entry => (entry.2.byteLength : Int)).sum_eq
  rw [map_append, Table.filter_key_eq hnodup, Table.lookup] at hsplit
  simp only [bytes, ← hsplit]
  cases pending.find? fun entry => entry.1 = id <;> simp

theorem Inv.acknowledgeUpdate (h : Inv yjs held) (id : Nat) :
    Inv yjs (held.acknowledgeUpdate id) := by
  have hack : ∀ part, held.acknowledged part = true →
      (held.acknowledgeUpdate id).acknowledged part = true :=
    fun _ hpart => Document.merge_left hpart
  refine {
    known := fun part hbehind => hack part (h.known part hbehind)
    owned := h.owned
    kept := fun edit hedit => ?_
    counted := ?_
    fresh := fun entry hentry => h.fresh entry (mem_of_mem_filter hentry)
    nodup := (filter_sublist.map _).nodup h.nodup }
  · cases h.kept edit hedit with
    | acknowledged hall => exact .acknowledged fun part hpart => hack part (hall part hpart)
    | deferred hflag hall =>
      exact .deferred hflag fun part hpart => (hall part hpart).imp_left (hack part)
    | pending entry hentry hall =>
      by_cases hid : entry.1 = id
      · -- The update that has the edit is the one that came back.
        have hfound : held.pending id = some entry.2 :=
          hid ▸ congrArg (Option.map Prod.snd) (Table.lookup_of_mem h.nodup hentry)
        refine .acknowledged fun part hpart => ?_
        rcases hall part hpart with hpart | hpart
        · exact hack part hpart
        · apply Document.merge_right
          rw [hfound]
          exact hpart
      · refine .pending entry (mem_filter.mpr ⟨hentry, by simpa using hid⟩) ?_
        exact fun part hpart => (hall part hpart).imp_left (hack part)
  · show held.pendingBytes - _ = bytes _
    rw [h.counted]
    exact (bytes_filter h.nodup id).symm

/-! ### Updates of the server -/

theorem Inv.receive (h : Inv yjs held) (update : ServerUpdate) : Inv yjs (held.receive update) := by
  have hack : ∀ part, held.acknowledged part = true →
      (held.receive update).acknowledged part = true :=
    fun _ hpart => Document.merge_left hpart
  have hdocument : ∀ edit ∈ held.edits, ∀ part, edit part = true →
      (held.receive update).document part = true :=
    fun edit hedit part hpart => Document.merge_left (h.owned edit hedit part hpart)
  have hknown : ∀ part, part.behind (held.receive update).serverClocks = true →
      (held.receive update).acknowledged part = true :=
    fun part hbehind => hack part (h.known part hbehind)
  exact { h with
    known := hknown
    owned := hdocument
    kept := fun edit hedit => (h.kept edit hedit).mono hack (fun _ hentry => hentry)
      fun hflag => .deferred hflag (Edits.acknowledged_or_delta hknown (hdocument edit hedit)) }

theorem behind_advance {clocks : Clocks} {range : ClockRange} {part : Part}
    (h : part.behind (advance clocks range)) :
    part.behind clocks ∨
      ∃ clock, part = .struct range.client clock ∧ range.start ≤ clock ∧ clock < range.stop := by
  unfold advance at h
  split at h
  · cases part with
    | deletion id => exact .inl h
    | struct client clock =>
      by_cases hclient : client = range.client
      · subst hclient
        have hlt : clock < max (clocks range.client) range.stop := by
          simpa [Part.behind] using h
        by_cases hold : clock < clocks range.client
        · exact .inl (by simpa [Part.behind] using hold)
        · exact .inr ⟨clock, rfl, by omega, by omega⟩
      · left
        simpa [Part.behind, Function.update_of_ne hclient] using h
  · exact .inl h

theorem acknowledged_of_behind_foldl {acknowledged : Document} (ranges : List ClockRange)
    (hranges : ∀ range ∈ ranges, ∀ clock, range.start ≤ clock → clock < range.stop →
      acknowledged (.struct range.client clock)) :
    ∀ clocks : Clocks, (∀ part, part.behind clocks → acknowledged part) →
      ∀ part, part.behind (ranges.foldl advance clocks) → acknowledged part := by
  induction ranges with
  | nil => exact fun _ hclocks => hclocks
  | cons range rest ih =>
    intro clocks hclocks
    apply ih (fun r hr => hranges r (mem_cons_of_mem _ hr)) (advance clocks range)
    intro part hbehind
    rcases behind_advance hbehind with hold | ⟨clock, rfl, hstart, hstop⟩
    · exact hclocks part hold
    · exact hranges range mem_cons_self clock hstart hstop

theorem Inv.learn (h : Inv yjs held) {update : ServerUpdate}
    (hreceived : ∀ part, update.content part → held.acknowledged part) :
    Inv yjs (held.learn update) := by
  have hknown : ∀ part, part.behind (held.learn update).serverClocks = true →
      held.acknowledged part = true :=
    acknowledged_of_behind_foldl update.ranges
      (fun range hrange clock hstart hstop =>
        hreceived _ (update.contiguous range hrange clock hstart hstop))
      held.serverClocks h.known
  exact { h with
    known := hknown
    kept := fun edit hedit => (h.kept edit hedit).mono (fun _ hack => hack)
      (fun _ hentry => hentry)
      fun hflag => .deferred hflag (Edits.acknowledged_or_delta hknown (h.owned edit hedit)) }

end Operations

section Provider

variable {yjs : Yjs} {st : State}

theorem sendAll_held (buffered : Buffered) (pending : List (Nat × Update)) :
    ∀ (st : State) (check : Nat), (st.sendAll buffered check pending).held = st.held ∨
      (st.sendAll buffered check pending).held = st.held.giveUp := by
  induction pending with
  | nil => exact fun _ _ => .inl rfl
  | cons entry rest ih =>
    intro st check
    unfold State.sendAll
    split
    · exact ih st check
    · split
      · exact .inl rfl
      · split
        · exact .inr rfl
        · exact ih { st with sentUpdates := st.sentUpdates ++ [entry.1] } (check + 1)

theorem held_flush (st : State) (buffered : Buffered) :
    (st.flushPendingUpdates yjs buffered).held = st.held ∨
      (st.flushPendingUpdates yjs buffered).held = st.held.derive yjs ∨
      (st.flushPendingUpdates yjs buffered).held = (st.held.derive yjs).giveUp := by
  unfold State.flushPendingUpdates
  split
  · exact .inl rfl
  · exact .inr (sendAll_held buffered _ (st.derive yjs) 1)

theorem inv_flush (h : Inv yjs st.held) (buffered : Buffered) :
    Inv yjs (st.flushPendingUpdates yjs buffered).held := by
  rcases held_flush st buffered with hheld | hheld | hheld <;> rw [hheld]
  · exact h
  · exact h.derive
  · exact h.derive.giveUp

theorem announced_contains (st : State) (edit : Edit) {part : Part}
    (hpart : edit.content part) : (st.announced yjs edit).content part := by
  unfold State.announced
  split
  · apply yjs.contains _ _ part (Document.merge_right hpart)
    cases part with
    | struct client clock => simp [Part.behind]
    | deletion id => rfl
  · exact hpart

theorem inv_onDocumentUpdate (h : Inv yjs st.held) (edit : Edit) :
    Inv yjs (st.onDocumentUpdate yjs edit).held :=
  inv_flush (h.queue_edit fun _ hpart => announced_contains st edit hpart) edit.buffered

/-! ### What an edit forgets

No step of an observer's edit takes an acknowledgement back, which the clocks that are
learnt after it rely on. -/

theorem acknowledged_derive (held : Edits) :
    (held.derive yjs).acknowledged = held.acknowledged := by
  unfold Edits.derive
  split <;> rfl

theorem acknowledged_flush (st : State) (buffered : Buffered) :
    (st.flushPendingUpdates yjs buffered).held.acknowledged = st.held.acknowledged := by
  rcases held_flush st buffered with hheld | hheld | hheld <;> rw [hheld]
  · exact acknowledged_derive st.held
  · exact acknowledged_derive st.held

theorem acknowledged_onDocumentUpdate (st : State) (edit : Edit) :
    (st.onDocumentUpdate yjs edit).held.acknowledged = st.held.acknowledged := by
  have hqueue : ∀ (held : Edits) (update : Update),
      (held.queue update).acknowledged = held.acknowledged := by
    intro held update
    unfold Edits.queue
    split <;> rfl
  exact (acknowledged_flush _ edit.buffered).trans (hqueue _ _)

theorem inv_reactions (reactions : List Edit) : ∀ (st : State), Inv yjs st.held →
    Inv yjs (reactions.foldl (State.onDocumentUpdate yjs) st).held ∧
      (reactions.foldl (State.onDocumentUpdate yjs) st).held.acknowledged =
        st.held.acknowledged := by
  induction reactions with
  | nil => exact fun _ h => ⟨h, rfl⟩
  | cons edit rest ih =>
    intro st h
    obtain ⟨hinv, hack⟩ := ih _ (inv_onDocumentUpdate h edit)
    exact ⟨hinv, hack.trans (acknowledged_onDocumentUpdate st edit)⟩

theorem inv_applyServerUpdate (h : Inv yjs st.held) (received : Received) :
    Inv yjs (st.applyServerUpdate yjs received).held := by
  obtain ⟨hinv, hack⟩ := inv_reactions received.reactions
    { st with held := st.held.receive received.update } (h.receive received.update)
  refine hinv.learn fun part hpart => ?_
  rw [hack]
  exact Document.merge_right hpart

theorem inv_setReadOnly (h : Inv yjs st.held) (readOnly : Bool) (buffered : Buffered) :
    Inv yjs (st.setReadOnly yjs readOnly buffered).held := by
  unfold State.setReadOnly
  split
  · exact h
  · split
    · exact h
    · refine inv_flush ?_ buffered
      exact h

theorem inv_syncUpdates (updates : List (Nat × Received)) : ∀ {st : State}, Inv yjs st.held →
    Inv yjs (updates.foldl (State.syncUpdate yjs) st).held := by
  induction updates with
  | nil => exact fun h => h
  | cons update rest ih =>
    exact fun h => ih ((inv_applyServerUpdate h update.2).acknowledgeUpdate update.1)

theorem inv_syncState (h : Inv yjs st.held) (sync : Sync) :
    Inv yjs (st.syncState yjs sync).held := by
  apply inv_syncUpdates sync.updates
  have haccess := inv_setReadOnly h sync.readOnly sync.buffered.1
  cases sync.contentState with
  | none => exact haccess
  | some content =>
    refine inv_applyServerUpdate ?_ content
    exact haccess

theorem inv_handleSync (h : Inv yjs st.held) (sync : Sync) :
    Inv yjs (st.handleSync yjs sync).held := by
  unfold State.handleSync
  split
  · exact inv_syncState h sync
  · refine inv_flush ?_ sync.buffered.2
    exact inv_syncState h sync

theorem inv_handleUpdateFrame (h : Inv yjs st.held) (payload : Received) (updateID : Option Nat)
    (buffered : Buffered) : Inv yjs (st.handleUpdateFrame yjs payload updateID buffered).held := by
  have happlied := inv_applyServerUpdate h payload
  refine inv_flush ?_ buffered
  cases updateID with
  | none => exact happlied
  | some id => exact happlied.acknowledgeUpdate id

/-! ### The connection has no edits -/

theorem held_connect (st : State) : st.connect.held = st.held := by
  unfold State.connect
  split <;> rfl

theorem held_begin (st : State) : st.begin.held = st.held := by
  unfold State.begin
  split
  · rfl
  · split
    · rfl
    · exact held_connect _

theorem held_stop (st : State) : st.stop.held = st.held := by
  unfold State.stop
  split <;> rfl

theorem held_onVisibilityChange (st : State) (hidden : Bool) :
    (st.onVisibilityChange hidden).held = st.held := by
  unfold State.onVisibilityChange
  split
  · rfl
  · exact held_connect _

theorem held_suspendWhenHidden (st : State) : st.suspendWhenHidden.held = st.held := by
  unfold State.suspendWhenHidden
  split
  · rfl
  · split <;> rfl

theorem held_onClose (st : State) (socket : Nat) : (st.onClose socket).held = st.held := by
  unfold State.onClose
  split <;> rfl

end Provider

theorem inv_start (yjs : Yjs) (document : Document) (seeded hidden : Bool) (documentLength : Nat) :
    Inv yjs (State.start document seeded hidden documentLength).held where
  known part h := by
    cases part with
    | struct client clock => simp [State.start, Part.behind] at h
    | deletion id => cases h
  owned := nofun
  kept := nofun
  counted := rfl
  fresh := nofun
  nodup := nodup_nil

theorem inv_step {yjs : Yjs} {st st' : State} {l : Label} (h : Inv yjs st.held)
    (hstep : step yjs st l = some st') : Inv yjs st'.held := by
  cases l with
  | edit edit =>
    cases hstep
    exact inv_onDocumentUpdate h edit
  | start =>
    cases hstep
    exact (held_begin st).symm ▸ h
  | stop =>
    cases hstep
    exact (held_stop st).symm ▸ h
  | connect =>
    cases hstep
    exact (held_connect st).symm ▸ h
  | «open» | closing =>
    cases hstep
    exact h
  | close socket =>
    cases hstep
    exact (held_onClose st socket).symm ▸ h
  | visibility hidden =>
    cases hstep
    exact (held_onVisibilityChange st hidden).symm ▸ h
  | suspend =>
    cases hstep
    exact (held_suspendWhenHidden st).symm ▸ h
  | conflict =>
    cases hstep
    exact (held_stop { st with conflicted := true }).symm ▸ h
  | access readOnly buffered =>
    cases hstep
    exact inv_setReadOnly h readOnly buffered
  | sync sync =>
    cases hstep
    exact inv_handleSync h sync
  | updateFrame payload updateID buffered =>
    cases hstep
    exact inv_handleUpdateFrame h payload updateID buffered
  | heartbeat buffered =>
    obtain ⟨_, hstep⟩ := ite_none_right_eq_some.mp hstep
    cases hstep
    exact inv_flush h buffered

/-- **No local edit is lost.** In every run, every part of a local edit that has not come back
from the server is in one pending update, or in the delta that the flag stands for; and the
bytes of the pending updates are counted. -/
theorem edits_kept_of_reaches (yjs : Yjs) {document : Document} {seeded hidden : Bool}
    {documentLength : Nat} {st : State} (hrun : Run.Reaches (step yjs) Run.Unrestricted
      (State.start document seeded hidden documentLength) st) : Promise yjs st := by
  have hinv : Inv yjs st.held := hrun.invariant (P := fun st => Inv yjs st.held)
    (fun _ _ _ h _ hstep => inv_step h hstep)
    (inv_start yjs document seeded hidden documentLength)
  exact ⟨hinv.kept, hinv.counted⟩

/-- An encoder that writes the parts that are asked for, in 80 bytes. -/
def plainYjs : Yjs where
  encodeStateAsUpdate doc clocks := ⟨fun part => doc part && !part.behind clocks, 80⟩
  contains doc clocks part hdoc hbehind := by
    show (doc part && !part.behind clocks) = true
    rw [hdoc, hbehind]
    rfl

/-- The insertion of one's first clock, and the deletion of it. -/
def typed : Edit := ⟨fun part => part = .struct 7 0, 20, fun _ => 0⟩

def erased : Edit := ⟨fun part => part = .deletion 0, 1048576, fun _ => 0⟩

/-- A text is typed and sent; the socket closes before the echo, and a deletion whose
update is too large for the queue is kept by the flag. -/
theorem edits_kept_offline :
    ∃ st, Run.Reaches (step plainYjs) Run.Unrestricted
        (State.start (fun _ => false) false false 4) st ∧
      (st.held.edits.length = 2 ∧ st.held.pendingBytes = 20 ∧ st.held.deferredUpdate = true) ∧
      Promise plainYjs st := by
  refine Run.exists_reaches_and
    [.start, .open 0, .sync ⟨false, none, [], false, fun _ => 0, fun _ => 0⟩, .edit typed,
      .close 0, .edit erased] _ (by decide) fun _ hrun _ => ?_
  exact edits_kept_of_reaches plainYjs hrun

end Flow.Ports.CollaborationClient
