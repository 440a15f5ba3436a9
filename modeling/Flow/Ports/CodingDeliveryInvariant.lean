import Flow.Ports.CodingDelivery
import Flow.Verified.Slots

/-!
# No turn is lost or handed out as a different one

`Tracked` is what every uninterrupted run keeps.  A delivered turn is
accounted for, or a call in flight that marked it is about to return it.  A
bootstrap in flight knows the current turn: until it updates the document, the
current turn is the one it read, and it returns that turn if there is one.
-/

namespace Flow.Ports.Coding

open List Option Flow.Verified Run Table Bool
open Slots (getElem?_set_cases getElem?_push_cases nodup_push forall_push)

/-! ## The current turn under other operations -/

section Operations

variable {svc : Service} {s : Session} {sandboxes : List Sandbox} {d : Decision} {now : Time}

def KeepsOrClears (before after : Session) : Prop :=
  after.currentTurnID = before.currentTurnID ∨ after.currentTurnID = ""

theorem KeepsOrClears.trans {a b c : Session} (hab : KeepsOrClears a b) (hbc : KeepsOrClears b c) :
    KeepsOrClears a c := by
  rcases hbc with hbc | hbc
  · exact hab.imp hbc.trans hbc.trans
  · exact .inr hbc

theorem applyTo_currentTurnID (outcome : ProvisionOutcome) (s : Session) :
    (outcome.applyTo s).currentTurnID = s.currentTurnID := by
  unfold ProvisionOutcome.applyTo
  cases outcome.apply with
  | none => rfl
  | some resolved => rfl

theorem step_currentTurnID (c : StepConfig) (s : Session) (obs : Observation) :
    KeepsOrClears s (c.step s obs).session := by
  have hcase := step_case c s obs
  generalize (c.step s obs).session = t at hcase ⊢
  generalize (c.step s obs).actions = actions at hcase
  cases hcase with
  | ended _ _ _ | requeued _ _ => exact .inr rfl
  | _ => exact .inl rfl

theorem afterProvision_currentTurnID {c : StepConfig} (outcome : ProvisionOutcome) :
    KeepsOrClears d.session (c.afterProvision d sandboxes outcome now).session := by
  have hcurrent := applyTo_currentTurnID outcome d.session
  fun_cases StepConfig.afterProvision c d sandboxes outcome now
  case case4 => exact .inr rfl
  all_goals exact .inl hcurrent

theorem afterPublish_currentTurnID {c : StepConfig} (outcome : PublishOutcome) :
    KeepsOrClears d.session (c.afterPublish d sandboxes outcome now).session := by
  have hcurrent : (outcome.applyTo d.session).currentTurnID = d.session.currentTurnID := by
    unfold PublishOutcome.applyTo
    cases outcome.pullRequest with
    | none => rfl
    | some pr => rfl
  fun_cases StepConfig.afterPublish c d sandboxes outcome now
  · exact .inl hcurrent
  · exact .inl rfl
  · exact .inr rfl

theorem reconcile_currentTurnID (c : StepConfig) (s : Session) (obs : Observation)
    (provisioned : ProvisionOutcome) (published : PublishOutcome) :
    KeepsOrClears s (c.reconcile s obs provisioned published).session := by
  have hstep := step_currentTurnID c s obs
  have hprovision : KeepsOrClears s (c.stepProvision s obs provisioned).session := by
    fun_cases StepConfig.stepProvision c s obs provisioned
    · exact hstep.trans (afterProvision_currentTurnID provisioned)
    · exact hstep
  fun_cases StepConfig.reconcile c s obs provisioned published
  · exact hprovision.trans (afterPublish_currentTurnID published)
  · exact hprovision

theorem completeTurn_currentTurnID {grant turnID : String} {retried : Bool}
    {request : TurnCompleteRequest}
    (h : svc.completeTurn grant turnID retried sandboxes request now s = some d) :
    d.session.currentTurnID = "" := by
  rw [completeTurn_eq_some h]
  unfold Service.completeDecision Service.completion
  have hcurrent := reportTurn_currentTurnID s turnID request
  split
  · exact hcurrent
  · cases request.status with
    | error => rfl
    | _ => exact hcurrent

/-- **No other operation makes a turn current**: it keeps the current turn or
leaves none. -/
theorem other_currentTurnID {op : Operation} (hop : op.other)
    (h : op.run svc sandboxes s = some d) : KeepsOrClears s d.session := by
  by_cases hkeeps : op.keepsTurn
  · exact .inl (run_keepsTurn hkeeps h).2
  cases op with
  | reconcile obs provisioned published =>
    cases h
    exact reconcile_currentTurnID svc.step s _ provisioned published
  | bootstrap | inbox => cases hop
  | completeTurn grant turnID retried request now => exact .inr (completeTurn_currentTurnID h)
  | prompt recorded now =>
    cases h
    fun_cases Service.prompt svc recorded now s
    · exact .inr rfl
    · exact .inl rfl
  | restart | startOver =>
    obtain ⟨t, ht, rfl⟩ := map_eq_some_iff.1 h
    obtain ⟨_, ⟨⟩⟩ := ite_none_left_eq_some.1 ht
    exact .inr rfl
  | startOverDrain | failSession =>
    obtain ⟨_, ⟨⟩⟩ := ite_none_left_eq_some.1 h
    exact .inr rfl
  | _ => exact absurd rfl hkeeps

end Operations

def Mailbox.Holds (w : Mailbox) (seq : Nat) (turnID : String) : Prop :=
  ∃ stored ∈ w.items, stored.seq = seq ∧ stored.turnID = some turnID

/-- What a call in flight knows of the document it read: its sandbox serves the session, and
nobody else changes the current turn during a bootstrap. -/
structure ReadSound (w : Mailbox) (request : Request) (read : Session) : Prop where
  served : read.sandboxID = request.grant
  current : request.isBootstrap → read.currentTurnID = w.session.currentTurnID

def CallSound (w : Mailbox) : Call → Prop
  | .began request read => ReadSound w request read
  -- A bootstrap goes on to what is undelivered when there is no current turn.
  | .listed request read items =>
    ReadSound w request read ∧ (request.isBootstrap → read.currentTurnID = "") ∧
      ∀ item ∈ items, ∀ turnID, item.turnID = some turnID → w.Holds item.seq turnID
  | .picked request read _ item turnID | .ready request read _ item turnID =>
    ReadSound w request read ∧ (request.isBootstrap → read.currentTurnID = "") ∧
      w.Holds item.seq turnID
  | .resolved request read _ turn _ =>
    ReadSound w request read ∧
      (request.isBootstrap → read.currentTurnID ≠ "" → turn = some read.currentTurnID) ∧
      ∀ turnID, turn = some turnID → ∃ seq, w.Holds seq turnID
  | .answering request _ turn _ =>
    request.isBootstrap → w.session.currentTurnID ≠ "" →
      turn = some w.session.currentTurnID
  | .ended => True

/-- What every uninterrupted run keeps. -/
structure Tracked (w : Mailbox) : Prop where
  nodup : (w.items.map InboxItem.seq).Nodup
  named : ∀ item ∈ w.items, item.turnID ≠ some ""
  current : w.session.currentTurnID ≠ "" → ∃ seq, w.Holds seq w.session.currentTurnID
  accounted : Accounted w
  repeats : ∀ entry ∈ w.bootstraps, entry.1 ≠ "" → entry.2 = some entry.1
  calls : ∀ (k : Nat) (call : Call), w.calls[k]? = some call → CallSound w call

/-! ## Calls that another step passes -/

section Passes

variable {w w' : Mailbox}

/-- A call stays sound when the items it saw are still there and, for a bootstrap, the current
turn is the same. -/
theorem CallSound.pass {call : Call} (h : CallSound w call)
    (hitems : ∀ seq turnID, w.Holds seq turnID → w'.Holds seq turnID)
    (hcurrent : call.bootstrapping → w'.session.currentTurnID = w.session.currentTurnID) :
    CallSound w' call := by
  have hread : ∀ request read, (call.bootstrapping ↔ request.isBootstrap) →
      ReadSound w request read → ReadSound w' request read := by
    intro request read hboot hread
    exact ⟨hread.served, fun hb => (hread.current hb).trans (hcurrent (hboot.2 hb)).symm⟩
  cases call with
  | began request read => exact hread request read Iff.rfl h
  | listed request read items =>
    exact ⟨hread request read Iff.rfl h.1, h.2.1,
      fun item hitem turnID hturn => hitems _ _ (h.2.2 item hitem turnID hturn)⟩
  | picked request read | ready request read =>
    exact ⟨hread request read Iff.rfl h.1, h.2.1, hitems _ _ h.2.2⟩
  | resolved request read response turn marked =>
    refine ⟨hread request read Iff.rfl h.1, h.2.1, fun turnID hturn => ?_⟩
    obtain ⟨seq, hholds⟩ := h.2.2 turnID hturn
    exact ⟨seq, hitems _ _ hholds⟩
  | answering request response turn marked =>
    intro hboot hne
    rw [hcurrent hboot] at hne ⊢
    exact h hboot hne
  | ended => trivial

theorem marked_set {calls : List Call} {k : Nat} {old new : Call} {turnID : String}
    (hat : calls[k]? = some old) (h : ∃ call ∈ calls, call.marked = some turnID) :
    (∃ call ∈ calls.set k new, call.marked = some turnID) ∨ old.marked = some turnID := by
  obtain ⟨call, hcall, hmarked⟩ := h
  obtain ⟨j, hj⟩ := mem_iff_getElem?.1 hcall
  by_cases hjk : k = j
  · subst hjk
    rw [hat] at hj
    cases hj
    exact .inr hmarked
  · have hset : (calls.set k new)[j]? = some call := (getElem?_set_ne hjk).trans hj
    exact .inl ⟨call, mem_of_getElem? hset, hmarked⟩

theorem Tracked.place (h : Tracked w) {k : Nat} {old new : Call} (hat : w.calls[k]? = some old)
    (hsound : CallSound w new) (hmarked : ∀ turnID, old.marked = some turnID →
      new.marked = some turnID ∨ w.accounts turnID) :
    Tracked { w with calls := w.calls.set k new } := by
  refine { h with accounted := ?_, calls := ?_ }
  · intro item hitem hdelivered turnID hturn
    rcases h.accounted item hitem hdelivered turnID hturn with haccounts | hcall
    · exact .inl haccounts
    · obtain ⟨hlt, -⟩ := List.getElem?_eq_some_iff.1 hat
      rcases marked_set hat hcall with hcall | hold
      · exact .inr hcall
      · rcases hmarked turnID hold with hnew | haccounts
        · exact .inr ⟨new, mem_of_getElem? (getElem?_set_self hlt), hnew⟩
        · exact .inl haccounts
  · intro j call hj
    rcases getElem?_set_cases hj with ⟨rfl, rfl⟩ | ⟨_, hj⟩
    · exact hsound.pass (fun _ _ => id) fun _ => rfl
    · exact (h.calls j call hj).pass (fun _ _ => id) fun _ => rfl

/-- The inbox changes: items stay, and a delivered one was delivered before or
is marked by a call in flight. -/
theorem Tracked.restock (h : Tracked w) {items : List InboxItem}
    (hnodup : (items.map InboxItem.seq).Nodup) (hnamed : ∀ item ∈ items, item.turnID ≠ some "")
    (hholds : ∀ seq turnID, w.Holds seq turnID → Mailbox.Holds { w with items := items } seq turnID)
    (hdelivered : ∀ item ∈ items, item.delivered → ∀ turnID, item.turnID = some turnID →
      (∃ before ∈ w.items, before.delivered ∧ before.turnID = some turnID) ∨
        ∃ call ∈ w.calls, call.marked = some turnID) :
    Tracked { w with items := items } where
  nodup := hnodup
  named := hnamed
  current := by
    intro hne
    obtain ⟨seq, hcurrent⟩ := h.current hne
    exact ⟨seq, hholds _ _ hcurrent⟩
  accounted := by
    intro item hitem hwas turnID hturn
    rcases hdelivered item hitem hwas turnID hturn with ⟨before, hbefore, hwas, hturn⟩ | hcall
    · exact h.accounted before hbefore hwas turnID hturn
    · exact .inr hcall
  repeats := h.repeats
  calls := fun k call hat => (h.calls k call hat).pass hholds fun _ => rfl

end Passes

section Inbox

variable {w : Mailbox}

theorem Tracked.map (h : Tracked w) {f : InboxItem → InboxItem}
    (hseq : ∀ item, (f item).seq = item.seq) (hturn : ∀ item, (f item).turnID = item.turnID)
    (hdelivered : ∀ item ∈ w.items, (f item).delivered → item.delivered ∨
      ∀ turnID, item.turnID = some turnID → ∃ call ∈ w.calls, call.marked = some turnID) :
    Tracked { w with items := w.items.map f } := by
  apply h.restock
  · rw [List.map_map]
    have hcomp : InboxItem.seq ∘ f = InboxItem.seq := funext hseq
    rw [hcomp]
    exact h.nodup
  · intro item hitem
    obtain ⟨before, hbefore, rfl⟩ := mem_map.1 hitem
    rw [hturn]
    exact h.named before hbefore
  · rintro seq turnID ⟨stored, hstored, hid, hholds⟩
    exact ⟨f stored, mem_map_of_mem hstored, (hseq stored).trans hid,
      (hturn stored).trans hholds⟩
  · intro item hitem hwas turnID hid
    obtain ⟨before, hbefore, rfl⟩ := mem_map.1 hitem
    rw [hturn] at hid
    rcases hdelivered before hbefore hwas with hwas | hcall
    · exact .inl ⟨before, hbefore, hwas, hid⟩
    · exact .inr (hcall turnID hid)

theorem tracked_settle (h : Tracked w) (seq : Nat) (turnID : String) :
    Tracked { w with items := settleScope w.items seq turnID } := by
  apply h.map
  · intro item
    split <;> rfl
  · intro item
    split
    · simp [InboxItem.turnID, Function.comp_def]
    · rfl
  · intro item _ hwas
    split at hwas <;> exact .inl hwas

theorem tracked_turnReady (h : Tracked w) (item : InboxItem) (now : Time) :
    Tracked { w with items := (turnReady w.items item now).1 } := by
  fun_cases turnReady w.items item now
  case case4 => exact tracked_settle h _ _
  all_goals exact h

theorem tracked_mark (h : Tracked w) {seq : Nat} {turnID : String} (hholds : w.Holds seq turnID)
    (hcall : ∃ call ∈ w.calls, call.marked = some turnID) :
    Tracked { w with items := markCodingInboxDelivered w.items seq } := by
  apply h.map
  · intro item
    split <;> rfl
  · intro item
    split <;> rfl
  · intro item hitem hwas
    split at hwas
    · rename_i hseq
      right
      intro other hother
      obtain ⟨stored, hstored, hstoredSeq, hturn⟩ := hholds
      -- Sequence numbers are unique, so this is the item the call has picked.
      have hsame : item = stored :=
        inj_on_of_nodup_map h.nodup hitem hstored (hseq.trans hstoredSeq.symm)
      rw [hsame, hturn] at hother
      cases hother
      exact hcall
    · exact .inl hwas

theorem tracked_enqueue (h : Tracked w) {kind : InboxKind} {turn : Option Turn}
    (hid : ¬turn.any fun t => t.id = "") (sandboxID : String) :
    Tracked { w with items := enqueueCodingInbox w.items kind turn sandboxID } := by
  unfold enqueueCodingInbox
  split
  · exact h
  · refine h.restock (nodup_push h.nodup ?_) (forall_push h.named ?_) ?_ (forall_push ?_ ?_)
    · intro hmem
      have hle := le_max?_getD_of_mem (k := 0) hmem
      dsimp only at hle
      omega
    · unfold InboxItem.turnID
      split
      · cases turn with
        | none => simp
        | some t => simpa using hid
      · simp
    · rintro seq turnID ⟨stored, hstored, hholds⟩
      exact ⟨stored, mem_append_left _ hstored, hholds⟩
    · exact fun item hitem hwas turnID hturn => .inl ⟨item, hitem, hwas, hturn⟩
    · exact fun hwas => nomatch hwas

end Inbox

section Calls

variable {w : Mailbox} {request : Request} {read : Session}

@[simp] theorem marked_resolve (response : List InboxItem) (turn : Option String) (marked : Bool) :
    (request.resolve read response turn marked).marked = if marked then turn else none := by
  unfold Request.resolve
  split <;> rfl

theorem resolve_sound (hread : ReadSound w request read) (response : List InboxItem)
    {turn : Option String} (marked : Bool)
    (hcurrent : request.isBootstrap → read.currentTurnID ≠ "" → turn = some read.currentTurnID)
    (hholds : ∀ turnID, turn = some turnID → ∃ seq, w.Holds seq turnID) :
    CallSound w (request.resolve read response turn marked) := by
  unfold Request.resolve
  split
  · exact ⟨hread, hcurrent, hholds⟩
  · intro hboot hne
    rw [← hread.current hboot] at hne ⊢
    exact hcurrent hboot hne

theorem resolve_none_sound (hread : ReadSound w request read) (response : List InboxItem)
    (hcurrent : request.isBootstrap → read.currentTurnID = "") :
    CallSound w (request.resolve read response none false) := by
  refine resolve_sound hread response false ?_ (by simp)
  intro hboot hne
  exact absurd (hcurrent hboot) hne

variable {items : List InboxItem} {item : InboxItem} {turnID : String}

theorem list_sound (hread : ReadSound w request read)
    (hlisted : request.isBootstrap → read.currentTurnID ≠ "" →
      (codingInbox w.items 0).any fun item => item.turnID = some read.currentTurnID) :
    CallSound w (request.list read w.items) := by
  have hstored : ∀ after, ∀ item ∈ codingInbox w.items after, ∀ turnID,
      item.turnID = some turnID → w.Holds item.seq turnID :=
    fun _ item hitem _ hturn => ⟨item, mem_of_mem_filter (mem_of_mem_take hitem), rfl, hturn⟩
  fun_cases Request.list request read w.items
  next hfound =>
    apply resolve_sound hread [] false (fun _ _ => rfl)
    rintro turnID ⟨⟩
    obtain ⟨item, hitem, hturn⟩ := any_eq_true.1 hfound.2
    exact ⟨item.seq, hstored 0 item hitem _ (of_decide_eq_true hturn)⟩
  next hmissing =>
    refine ⟨hread, fun hboot => ?_, hstored 0⟩
    by_contra hne
    exact hmissing ⟨hne, hlisted hboot hne⟩
  next grant after => exact ⟨hread, nofun, hstored after⟩

theorem mem_of_nextTurn (h : nextTurn items = some (item, turnID)) :
    item ∈ items ∧ item.turnID = some turnID := by
  induction items with
  | nil => cases h
  | cons head rest ih =>
    simp only [nextTurn] at h
    split at h
    next hturn =>
      cases h
      exact ⟨mem_cons_self, hturn⟩
    next => exact ⟨mem_cons_of_mem head (ih h).1, (ih h).2⟩

theorem mem_of_inboxItems {undelivered : List Nat} {response : List InboxItem}
    (h : inboxItems read undelivered items = (response, some (item, turnID))) :
    item ∈ items ∧ item.turnID = some turnID := by
  induction items generalizing response with
  | nil => cases h
  | cons head rest ih =>
    have htail : ∀ response, inboxItems read undelivered rest = (response, some (item, turnID)) →
        item ∈ head :: rest ∧ item.turnID = some turnID :=
      fun _ h => ⟨mem_cons_of_mem head (ih h).1, (ih h).2⟩
    simp only [inboxItems] at h
    split at h
    · split at h
      · exact htail _ h
      · have hnext : (inboxItems read undelivered rest).2 = some (item, turnID) :=
          congrArg Prod.snd h
        exact htail _ (Prod.ext rfl hnext)
    · split at h
      · exact htail _ h
      · split at h
        · rename_i hturn
          split at h <;> cases h
          exact ⟨mem_cons_self, hturn⟩
        · cases h

theorem pick_sound (h : CallSound w (.listed request read items)) :
    CallSound w (request.pick read items (undeliveredCodingInbox w.items)) := by
  obtain ⟨hread, hcurrent, hstored⟩ := h
  fun_cases Request.pick request read items (undeliveredCodingInbox w.items)
  next item turnID hnext =>
    obtain ⟨hmem, hturn⟩ := mem_of_nextTurn hnext
    have hitem : item ∈ w.items := mem_of_mem_filter (mem_of_mem_take hmem)
    exact ⟨hread, hcurrent, item, hitem, rfl, hturn⟩
  next => exact resolve_none_sound hread [] hcurrent
  next response item turnID hnext =>
    obtain ⟨hmem, hturn⟩ := mem_of_inboxItems hnext
    exact ⟨hread, hcurrent, hstored item hmem turnID hturn⟩
  next => exact resolve_none_sound hread _ hcurrent

end Calls

section Updates

variable {svc : Service} {w : Mailbox}

/-- A write that changes the current turn: nothing was current, or what was is
accounted for, and no bootstrap in flight is misled. -/
theorem Tracked.write (h : Tracked w) {t : Session} {completed : List String}
    (hcompleted : ∀ turnID ∈ w.completed, turnID ∈ completed)
    (hholds : t.currentTurnID ≠ "" → ∃ seq, w.Holds seq t.currentTurnID)
    (hkept : t.currentTurnID = w.session.currentTurnID ∨ w.session.currentTurnID = "" ∨
      w.session.currentTurnID ∈ completed ∨ w.session.currentTurnID ∈ w.returned)
    (hcalls : ∀ (k : Nat) (call : Call), w.calls[k]? = some call → call.bootstrapping →
      t.currentTurnID ≠ w.session.currentTurnID →
      CallSound { w with session := writeDocument w.session t, completed := completed } call) :
    Tracked { w with session := writeDocument w.session t, completed := completed } where
  nodup := h.nodup
  named := h.named
  current := by
    simp only [writeDocument_currentTurnID]
    exact hholds
  accounted := by
    intro item hitem hdelivered turnID hturn
    rcases h.accounted item hitem hdelivered turnID hturn with haccounts | hcall
    · left
      simp only [Mailbox.accounts, or_eq_true, decide_eq_true_eq,
        writeDocument_currentTurnID] at haccounts ⊢
      rcases haccounts with (hcurrent | hdone) | hreturned
      · subst hcurrent
        rcases hkept with hsame | hnone | hdone | hreturned
        · exact .inl (.inl hsame.symm)
        · exact absurd (hturn.trans (congrArg some hnone)) (h.named item hitem)
        · exact .inl (.inr hdone)
        · exact .inr hreturned
      · exact .inl (.inr (hcompleted turnID hdone))
      · exact .inr hreturned
    · exact .inr hcall
  repeats := h.repeats
  calls := by
    intro k call hat
    by_cases hsame : call.bootstrapping → t.currentTurnID = w.session.currentTurnID
    · refine (h.calls k call hat).pass (fun _ _ => id) fun hboot => ?_
      simpa using hsame hboot
    · obtain ⟨hboot, hne⟩ := Classical.not_imp.1 hsame
      exact hcalls k call hat hboot hne

theorem not_bootstrapping_of_aloneBut {k j : Nat} {call : Call} (h : w.aloneBut k)
    (hj : j ≠ k) (hat : w.calls[j]? = some call) : call.bootstrapping = false := by
  have hset : (w.calls.set k .ended)[j]? = some call :=
    (getElem?_set_ne (Ne.symm hj)).trans hat
  simpa using all_eq_true.1 h call (mem_of_getElem? hset)

theorem tracked_operate (h : Tracked w) {op : Operation} {sandboxes : List Sandbox}
    {d : Decision} (hop : op.other) (hd : op.run svc sandboxes w.session = some d)
    (hok : w.uninterrupted svc (.operate op sandboxes)) :
    Tracked { w with
      session := writeDocument w.session d.session
      completed := d.session.lastTurnID :: w.completed } := by
  simp only [Mailbox.uninterrupted, hd, all_some, or_eq_true, and_eq_true,
    decide_eq_true_eq, mem_append] at hok
  apply h.write (fun _ => mem_cons_of_mem _)
  · intro hne
    have hsame := (other_currentTurnID hop hd).resolve_right hne
    rw [hsame] at hne ⊢
    exact h.current hne
  · rcases hok with hsame | ⟨-, hlast | hdone | hreturned⟩
    · exact .inl hsame
    · exact .inr (.inr (.inl (hlast ▸ mem_cons_self)))
    · exact .inr (.inr (.inl (mem_cons_of_mem _ hdone)))
    · exact .inr (.inr (.inr hreturned))
  · intro k call hat hboot hne
    obtain ⟨halone, -⟩ := hok.resolve_left hne
    have hnot := all_eq_true.1 halone call (mem_of_getElem? hat)
    simp [hboot] at hnot

variable {request : Request} {turn : Option String} {now : Time}

theorem update_currentTurnID {read s t : Session}
    (h : request.update svc read turn now s = some t) :
    t.currentTurnID = s.currentTurnID ∨
      turn = some t.currentTurnID ∧ (request.isBootstrap ∨ s.currentTurnID = "") := by
  cases request with
  | bootstrap grant =>
    obtain ⟨_, h⟩ := ite_none_left_eq_some.1 h
    split at h <;> cases h
    · exact .inl rfl
    · cases turn with
      | none => exact .inl rfl
      | some turnID => exact .inr ⟨rfl, .inl rfl⟩
  | inbox grant after =>
    simp only [Request.update, Service.inboxMove] at h
    obtain ⟨_, h⟩ := ite_none_left_eq_some.1 h
    have hcurrent : t.currentTurnID =
        if s.currentTurnID = "" then turn.getD "" else s.currentTurnID := by
      split at h <;> cases h <;> rfl
    rw [hcurrent]
    split
    next hnone =>
      cases turn with
      | none => exact .inl hnone.symm
      | some turnID => exact .inr ⟨rfl, .inr hnone⟩
    next => exact .inl rfl

theorem update_isSome {read s : Session} (turn : Option String) (now : Time)
    (hread : read.sandboxID = request.grant) (h : request.served s) :
    request.update svc read turn now s ≠ none := by
  simp only [Request.served, and_eq_true, decide_eq_true_eq] at h
  cases request with
  | bootstrap grant =>
    simp only [Request.update, Service.bootstrapMove]
    have hgrant : s.sandboxID = grant := h.1
    rw [if_neg (not_not.2 hgrant)]
    split <;> simp
  | inbox grant after =>
    have hserved : ¬(s.sandboxID ≠ read.sandboxID ∨ s.stopRequested) := by
      rw [hread, h.1]
      simpa [Request.isBootstrap] using h.2
    simp only [Request.update, Service.inboxMove]
    rw [if_neg hserved]
    simp

theorem tracked_update (h : Tracked w) {k : Nat} {read t : Session} {response : List InboxItem}
    {marked : Bool} (hat : w.calls[k]? = some (.resolved request read response turn marked))
    (halone : w.aloneBut k) (ht : request.update svc read turn now w.session = some t) :
    Tracked { w with
      session := writeDocument w.session t
      calls := w.calls.set k (.answering request response turn marked) } := by
  obtain ⟨hread, hcurrent, hholds⟩ := h.calls k _ hat
  have hanswering : CallSound w (.answering request response turn marked) := by
    intro hboot hne
    rw [← hread.current hboot] at hne ⊢
    exact hcurrent hboot hne
  have hplaced := h.place hat hanswering fun turnID hmarked => .inl hmarked
  have hchanged := update_currentTurnID ht
  apply hplaced.write (fun _ => id)
  · intro hne
    rcases hchanged with hsame | ⟨hturn, -⟩
    · rw [hsame] at hne ⊢
      exact h.current hne
    · exact hholds _ hturn
  · rcases hchanged with hsame | ⟨hturn, hboot | hnone⟩
    · exact .inl hsame
    · by_cases hnone : w.session.currentTurnID = ""
      · exact .inr (.inl hnone)
      · -- The bootstrap read the current turn and returns it.
        rw [← hread.current hboot] at hnone
        have hsame := (hcurrent hboot hnone).symm.trans hturn
        rw [hread.current hboot] at hsame
        exact .inl (some.inj hsame).symm
    · exact .inr (.inl hnone)
  · intro j call hj hboot hne
    obtain ⟨hturn, -⟩ := hchanged.resolve_left hne
    rcases getElem?_set_cases hj with ⟨rfl, rfl⟩ | ⟨hjk, hj⟩
    · intro _ _
      simpa using hturn
    · rw [not_bootstrapping_of_aloneBut halone hjk hj] at hboot
      cases hboot

end Updates

section Step

variable {svc : Service} {w w' : Mailbox}

variable {request : Request} {response : List InboxItem}

theorem tracked_begin (h : Tracked w) (hserved : w.session.sandboxID = request.grant) :
    Tracked { w with calls := w.calls ++ [.began request w.session] } := by
  refine { h with accounted := ?_, calls := ?_ }
  · intro item hitem hdelivered turnID hturn
    apply (h.accounted item hitem hdelivered turnID hturn).imp_right
    rintro ⟨call, hcall, hmarked⟩
    exact ⟨call, mem_append_left _ hcall, hmarked⟩
  · intro k call hk
    rcases getElem?_push_cases hk with ⟨rfl, rfl⟩ | hk
    · exact ⟨hserved, fun _ => rfl⟩
    · exact (h.calls k call hk).pass (fun _ _ => id) fun _ => rfl

theorem tracked_marks (h : Tracked w) {k : Nat} {read : Session} {item : InboxItem}
    {turnID : String} (hat : w.calls[k]? = some (.ready request read response item turnID)) :
    Tracked { w with
      items := markCodingInboxDelivered w.items item.seq
      calls := w.calls.set k
        (request.resolve read (response ++ [item]) (some turnID) true) } := by
  obtain ⟨hread, hcurrent, hholds⟩ := h.calls k _ hat
  obtain ⟨hlt, -⟩ := List.getElem?_eq_some_iff.1 hat
  have hsound : CallSound w (request.resolve read (response ++ [item]) (some turnID) true) := by
    apply resolve_sound hread _ true (fun hboot hne => absurd (hcurrent hboot) hne)
    rintro _ ⟨⟩
    exact ⟨item.seq, hholds⟩
  exact tracked_mark (h.place hat hsound (by simp [Call.marked])) hholds
    ⟨_, mem_of_getElem? (getElem?_set_self hlt), by simp⟩

theorem tracked_respond (h : Tracked w) {k : Nat} {turn : Option String} {marked : Bool}
    (hat : w.calls[k]? = some (.answering request response turn marked)) :
    Tracked { w with
      calls := w.calls.set k .ended
      returned := turn.toList ++ w.returned
      bootstraps := if request.isBootstrap then
        (w.session.currentTurnID, turn) :: w.bootstraps else w.bootstraps } := by
  refine { h with accounted := ?_, repeats := ?_, calls := ?_ }
  · intro item hitem hdelivered turnID hturn
    rcases h.accounted item hitem hdelivered turnID hturn with haccounts | hcall
    · left
      simp only [Mailbox.accounts, or_eq_true, decide_eq_true_eq] at haccounts ⊢
      exact haccounts.imp_right (mem_append_right _)
    · rcases marked_set hat hcall with hcall | hmarked
      · exact .inr hcall
      · left
        have hreturned : turn = some turnID := by
          cases marked with
          | true => exact hmarked
          | false => cases hmarked
        simp [Mailbox.accounts, hreturned]
  · intro entry hentry hne
    have hsound := h.calls k _ hat
    by_cases hboot : request.isBootstrap
    · simp only [hboot] at hentry
      rcases mem_cons.1 hentry with rfl | hentry
      · exact hsound hboot hne
      · exact h.repeats entry hentry hne
    · simp only [hboot] at hentry
      exact h.repeats entry hentry hne
  · intro j call hj
    rcases getElem?_set_cases hj with ⟨rfl, rfl⟩ | ⟨_, hj⟩
    · trivial
    · exact (h.calls j call hj).pass (fun _ _ => id) fun _ => rfl

/-- **Every uninterrupted step keeps a tracked mailbox tracked.** -/
theorem tracked_step (h : Tracked w) {label : Delivery} (hok : Uninterrupted svc w label)
    (hstep : w.step svc label = some w') : Tracked w' := by
  unfold Uninterrupted at hok
  revert hstep
  fun_cases Mailbox.step svc w label
  all_goals intro hstep
  all_goals try cases hstep
  next hid => exact tracked_enqueue h hid _
  next seq turnID => exact tracked_settle h seq turnID
  next hop =>
    obtain ⟨d, hd, rfl⟩ := map_eq_some_iff.1 hstep
    exact tracked_operate h hop hd hok
  next hserved => exact tracked_begin h (not_not.1 (not_or.1 hserved).2)
  next k request read hat =>
    refine h.place hat (list_sound (h.calls k _ hat) ?_) (by simp [Call.marked])
    intro hboot hne
    cases request with
    | bootstrap grant => simpa [Mailbox.uninterrupted, hat, hne] using hok
    | inbox grant after => cases hboot
  next k _ _ _ hat _ => exact h.place hat (pick_sound (h.calls k _ hat)) (by simp [Call.marked])
  next k now request read response item turnID hat items ready hturn _ =>
    have hready := tracked_turnReady h item now
    rw [hturn] at hready
    obtain ⟨hread, hcurrent, hholds⟩ := hready.calls k _ hat
    refine hready.place hat ?_ (by simp [Call.marked])
    cases ready with
    | true => exact ⟨hread, hcurrent, hholds⟩
    | false => exact resolve_none_sound hread response hcurrent
  next hat _ => exact tracked_marks h hat
  next hat t ht =>
    simp only [Mailbox.uninterrupted, hat, and_eq_true] at hok
    exact tracked_update h hat hok.1 ht
  next k now request read response turn marked hat hrefused =>
    simp only [Mailbox.uninterrupted, hat, and_eq_true, or_eq_true] at hok
    refine h.place hat trivial fun turnID hmarked => .inr ?_
    rcases hok.2 with hserved | haccounts
    · exact absurd hrefused (update_isSome turn now (h.calls k _ hat).1.served hserved)
    · rw [hmarked] at haccounts
      exact haccounts
  next hat => exact tracked_respond h hat
  next k =>
    cases hat : w.calls[k]? with
    | none =>
      rw [set_eq_of_length_le (getElem?_eq_none_iff.1 hat)]
      exact h
    | some call =>
      refine h.place hat trivial fun turnID hmarked => .inr ?_
      simpa [Mailbox.uninterrupted, hat, hmarked] using hok

end Step

theorem start_tracked (svc : Service) (input : StartInput) (time : Time) :
    Tracked (Mailbox.start svc input time) := by
  have hcurrent : (svc.start input time).currentTurnID = "" := by
    fun_cases Service.start svc input time <;> rfl
  refine ⟨by simp [Mailbox.start], by simp [Mailbox.start], fun hne => absurd hcurrent hne, ?_,
    by simp [Mailbox.start], by simp [Mailbox.start]⟩
  intro item hitem
  simp [Mailbox.start] at hitem

/-- **No turn is lost or handed out as a different one** in an uninterrupted
run. -/
theorem delivery_of_reaches (svc : Service) (input : StartInput) (time : Time) (w : Mailbox)
    (h : Reaches (Mailbox.step svc) (Uninterrupted svc) (Mailbox.start svc input time) w) :
    Accounted w ∧ Repeats w := by
  have htracked : Tracked w := by
    refine h.invariant (P := Tracked) ?_ (start_tracked svc input time)
    intro w label w' hw hok hstep
    exact tracked_step hw hok hstep
  exact ⟨htracked.accounted, fun entry hentry hne _ => htracked.repeats entry hentry hne⟩

/-- Two turns wait, and the session is given the sandbox `sb-1`. -/
def toStarting : List Delivery :=
  [.enqueue .turn (some { id := "turn-1" }) "", .enqueue .turn (some { id := "turn-2" }) "",
    .operate (.reconcile { now := minute } { sandboxID := "sb-1" } {}) []]

def bootstrapToMark (k : Nat) : List Delivery :=
  [.begin (.bootstrap "sb-1"), .list k, .undelivered k, .ready k (2 * minute), .mark k]

def waiting : Session :=
  { defaultConfig.enter { defaultService.start startedInAcme 0 with sandboxID := "sb-1" }
      .starting minute with version := 2 }

def bootstrapped : Session :=
  { defaultConfig.enter { waiting with currentTurnID := "turn-1" } .setup (2 * minute) with
    version := 3 }

def twoTurns (first second : Bool) : List InboxItem :=
  [⟨1, .turn, some { id := "turn-1" }, "", first⟩, ⟨2, .turn, some { id := "turn-2" }, "", second⟩]

/-- A bootstrap crashes before its response; the next one returns the same
turn. -/
theorem delivery_after_crash :
    Accounted ⟨bootstrapped, twoTurns true false, [.ended, .ended], [""], ["turn-1"],
        [("turn-1", some "turn-1")]⟩ ∧
      Repeats ⟨bootstrapped, twoTurns true false, [.ended, .ended], [""], ["turn-1"],
        [("turn-1", some "turn-1")]⟩ :=
  delivery_of_reaches defaultService startedInAcme 0 _
    (reaches_of_exec
      (toStarting ++ bootstrapToMark 0 ++
        [.update 0 (2 * minute), .stop 0, .begin (.bootstrap "sb-1"), .list 1, .respond 1])
      _ _ (by decide))

/-- **Turns go astray.** A call that stops after it marked a turn loses it: it is not
undelivered any more, and nobody has it. The second of two overlapping bootstraps returns
another turn than the current one. -/
theorem turns_go_astray :
    (∃ w, Reaches (Mailbox.step defaultService) Unrestricted
        (Mailbox.start defaultService startedInAcme 0) w ∧ ¬Accounted w) ∧
      ∃ w, Reaches (Mailbox.step defaultService) Unrestricted
        (Mailbox.start defaultService startedInAcme 0) w ∧ ¬Repeats w := by
  constructor
  · refine ⟨⟨waiting, twoTurns true false, [.ended], [""], [], []⟩,
      reaches_of_exec (toStarting ++ bootstrapToMark 0 ++ [.stop 0]) _ _ (by decide), fun h => ?_⟩
    rcases h _ mem_cons_self rfl "turn-1" rfl with haccounts | ⟨call, hcall, hmarked⟩
    · exact absurd haccounts (by decide)
    · rw [mem_singleton.1 hcall] at hmarked
      cases hmarked
  · refine ⟨⟨bootstrapped, twoTurns true true, [.ended, .ended], [""], ["turn-2", "turn-1"],
      [("turn-1", some "turn-2"), ("turn-1", some "turn-1")]⟩,
      reaches_of_exec (toStarting ++ bootstrapToMark 0 ++ bootstrapToMark 1 ++
        [.update 0 (2 * minute), .respond 0, .update 1 (2 * minute), .respond 1])
        _ _ (by decide), fun h => ?_⟩
    have hsecond := h _ mem_cons_self (by decide) ⟨_, mem_cons_self, rfl⟩
    exact absurd hsecond (by decide)

end Flow.Ports.Coding
