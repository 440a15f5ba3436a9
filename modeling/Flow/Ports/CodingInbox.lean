import Flow.Verified.Run
import Flow.Verified.Slots
import Mathlib.Data.List.Range

/-!
# Appending to the inbox of a coding session

Items of a session's inbox are numbered from 1.  A call of `EnqueueCodingInbox`
looks for an item of the same turn, reads the next number and inserts the item
with it, in three statements; two inserts with one number collide, and the call
that lost begins again.
-/

namespace Flow.Ports.Inbox

open List Option Flow.Verified Run Slots

/-- What an item carries: perhaps a turn, of which only the id counts here. -/
structure Payload where
  turn : Option String
deriving DecidableEq, Repr

def codingInboxTurnID (payload : Payload) : String :=
  payload.turn.getD ""

structure Item where
  seq : Nat
  kind : String
  payload : Payload
deriving DecidableEq, Repr

def Item.IsFor (item : Item) (kind turnID : String) : Prop :=
  item.kind = kind ∧ codingInboxTurnID item.payload = turnID

instance (item : Item) (kind turnID : String) : Decidable (item.IsFor kind turnID) :=
  inferInstanceAs (Decidable (_ ∧ _))

/-- The number of the item of a turn.  Items are kept in the order of their
numbers. -/
def codingInboxTurnSeq (items : List Item) (kind turnID : String) : Option Nat :=
  (items.find? fun item => item.IsFor kind turnID).map Item.seq

/-- `COALESCE(MAX(seq),0)`. -/
def maxSeq (items : List Item) : Nat :=
  (items.map Item.seq).foldl max 0

/-! ## Calls -/

def maxAttempts : Nat := 8

inductive Stage where
  | start
  | missed
  | numbered (seq : Nat)
  | refused (seq : Nat)
  | done (result : Option Nat)
deriving DecidableEq, Repr

structure Call where
  kind : String
  payload : Payload
  attempt : Nat := 0
  stage : Stage := .start
deriving DecidableEq, Repr

def Call.turnID (call : Call) : String := codingInboxTurnID call.payload

def Call.item (call : Call) (seq : Nat) : Item := ⟨seq, call.kind, call.payload⟩

def Call.inserts (items : List Item) (reply : Reply) (call : Call) : Option Item :=
  match call.stage with
  | .numbered seq =>
    if seq ∈ items.map Item.seq ∨ reply = .failed then none else some (call.item seq)
  | _ => none

def Call.ends (result : Option Nat) (call : Call) : Call :=
  { call with stage := .done result }

/-- The lookup at the start of an attempt; an item without a turn is not looked
up. -/
def Call.look (items : List Item) (reply : Reply) (call : Call) : Call :=
  if maxAttempts ≤ call.attempt then call.ends none
  else if call.turnID = "" then { call with stage := .missed }
  else if reply ≠ .ok then call.ends none
  else
    match codingInboxTurnSeq items call.kind call.turnID with
    | some seq => call.ends (some seq)
    | none => { call with stage := .missed }

def Call.number (items : List Item) (reply : Reply) (call : Call) : Call :=
  if reply ≠ .ok then call.ends none else { call with stage := .numbered (maxSeq items + 1) }

def Call.insert (items : List Item) (reply : Reply) (seq : Nat) (call : Call) : Call :=
  if seq ∈ items.map Item.seq ∨ reply ≠ .ok then { call with stage := .refused seq }
  else call.ends (some seq)

/-- After an error, the call begins again if its number is taken. -/
def Call.retry (items : List Item) (reply : Reply) (seq : Nat) (call : Call) : Call :=
  if reply ≠ .ok ∨ seq ∉ items.map Item.seq then call.ends none
  else { call with attempt := call.attempt + 1, stage := .start }

def Call.next (items : List Item) (reply : Reply) (call : Call) : Option Call :=
  match call.stage with
  | .start => some (call.look items reply)
  | .missed => some (call.number items reply)
  | .numbered seq => some (call.insert items reply seq)
  | .refused seq => some (call.retry items reply seq)
  | .done _ => none

structure State where
  items : List Item := []
  calls : List Call := []
deriving DecidableEq, Repr

inductive Label where
  | enqueue (kind : String) (payload : Payload)
  | advance (i : Nat) (reply : Reply)
deriving DecidableEq, Repr

/-- A call without a kind is refused at once. -/
def State.step (s : State) : Label → Option State
  | .enqueue kind payload =>
    if kind = "" then none
    else some { s with calls := s.calls ++ [{ kind, payload }] }
  | .advance i reply =>
    match s.calls[i]? with
    | none => none
    | some call => (call.next s.items reply).map fun next =>
      { items := s.items ++ (call.inserts s.items reply).toList
        calls := s.calls.set i next }

/-! ## What is promised -/

/-- The inbox has one item for each turn, a call that succeeded has returned an item of its
turn, and numbers are distinct. -/
structure State.EnqueuedOnce (s : State) : Prop where
  single : ∀ item ∈ s.items, ∀ item' ∈ s.items, codingInboxTurnID item.payload ≠ "" →
    item'.IsFor item.kind (codingInboxTurnID item.payload) → item = item'
  returned : ∀ call ∈ s.calls, ∀ seq, call.stage = .done (some seq) →
    ∃ item ∈ s.items, item.seq = seq ∧ item.IsFor call.kind call.turnID
  distinct : (s.items.map Item.seq).Nodup

/-- The call has found no item of the turn, and has not read a number. -/
def Call.waiting (kind turnID : String) (call : Call) : Bool :=
  call.stage == .missed && call.kind == kind && call.turnID == turnID

/-- Whether the step inserts no item of a turn while another call for the turn
is between its lookup and its number. -/
def State.undisturbed (s : State) : Label → Bool
  | .enqueue _ _ => true
  | .advance i reply =>
    match s.calls[i]?.bind fun call => call.inserts s.items reply with
    | none => true
    | some item => codingInboxTurnID item.payload == "" ||
        s.calls.all fun call => !call.waiting item.kind (codingInboxTurnID item.payload)

def Undisturbed (s : State) (a : Label) : Prop := s.undisturbed a

instance (s : State) (a : Label) : Decidable (Undisturbed s a) :=
  inferInstanceAs (Decidable (_ = true))

def Numbered (items : List Item) : Prop :=
  items.map Item.seq = range' 1 items.length

theorem maxSeq_append (items : List Item) (item : Item) :
    maxSeq (items ++ [item]) = max (maxSeq items) item.seq := by
  unfold maxSeq
  rw [map_append, foldl_append]
  rfl

variable {items : List Item} {seq : Nat} {call : Call} {reply : Reply} {a : Label}

theorem Numbered.mem (h : Numbered items) :
    seq ∈ items.map Item.seq ↔ 1 ≤ seq ∧ seq ≤ items.length := by
  rw [show items.map Item.seq = _ from h, mem_range'_1]
  omega

variable {item : Item}

theorem Numbered.push (h : Numbered items) (hseq : item.seq = items.length + 1) :
    Numbered (items ++ [item]) := by
  unfold Numbered
  rw [map_append, h, length_append, length_singleton, range'_concat,
    map_singleton, hseq, Nat.one_mul, Nat.add_comm 1]

theorem Numbered.distinct (h : Numbered items) : (items.map Item.seq).Nodup := by
  rw [h]
  exact nodup_range'

/-! ## What a call knows -/

/-- What the stage of a call says about the inbox: a call that has found no item of its turn is
right, and once it has read its number, items of its turn have that or a later one. -/
structure Call.Knows (items : List Item) (call : Call) : Prop where
  missed : call.stage = .missed → call.turnID ≠ "" →
    ∀ item ∈ items, ¬item.IsFor call.kind call.turnID
  numbered : ∀ seq, call.stage = .numbered seq → 1 ≤ seq ∧ seq ≤ items.length + 1 ∧
    (call.turnID ≠ "" → ∀ item ∈ items, item.IsFor call.kind call.turnID → seq ≤ item.seq)
  done : ∀ seq, call.stage = .done (some seq) →
    ∃ item ∈ items, item.seq = seq ∧ item.IsFor call.kind call.turnID

theorem Call.knows_of_stage (hmissed : call.stage ≠ .missed)
    (hnumbered : ∀ seq, call.stage ≠ .numbered seq) (hdone : ∀ seq, call.stage ≠ .done (some seq)) :
    call.Knows items where
  missed := fun h => absurd h hmissed
  numbered := fun seq h => absurd h (hnumbered seq)
  done := fun seq h => absurd h (hdone seq)

theorem mem_of_turnSeq {kind turnID : String}
    (h : codingInboxTurnSeq items kind turnID = some seq) :
    ∃ item ∈ items, item.seq = seq ∧ item.IsFor kind turnID := by
  obtain ⟨item, hitem, hseq⟩ := map_eq_some_iff.1 h
  have hfor := find?_some hitem
  exact ⟨item, mem_of_find?_eq_some hitem, hseq, by simpa using hfor⟩

theorem not_isFor_of_turnSeq {kind turnID : String}
    (h : codingInboxTurnSeq items kind turnID = none) :
    ∀ item ∈ items, ¬item.IsFor kind turnID := by
  intro item hitem hfor
  have hnone := find?_eq_none.1 (map_eq_none_iff.1 h) item hitem
  exact hnone (decide_eq_true hfor)

theorem Call.Knows.inserts (h : call.Knows items) (hnumbers : Numbered items)
    (hinserts : call.inserts items reply = some item) :
    item.seq = items.length + 1 ∧ item.IsFor call.kind call.turnID ∧
      (call.turnID ≠ "" → ∀ item' ∈ items, ¬item'.IsFor call.kind call.turnID) := by
  unfold Call.inserts at hinserts
  split at hinserts
  · next seq hstage =>
      split at hinserts
      · cases hinserts
      · next hfree =>
          cases hinserts
          obtain ⟨hpos, hle, hlater⟩ := h.numbered seq hstage
          rw [hnumbers.mem] at hfree
          have hseq : seq = items.length + 1 := by
            omega
          refine ⟨hseq, ⟨rfl, rfl⟩, fun hturn item' hitem' hfor => ?_⟩
          have hge := hlater hturn item' hitem' hfor
          have hle' := ((hnumbers.mem.1 (mem_map_of_mem hitem')).2)
          omega
  · cases hinserts

theorem Call.Knows.other (h : call.Knows items) (hseq : item.seq = items.length + 1)
    (hwaiting : codingInboxTurnID item.payload = "" ∨
      call.waiting item.kind (codingInboxTurnID item.payload) = false) :
    call.Knows (items ++ [item]) where
  missed := by
    intro hstage hturn item' hitem' hfor
    rcases mem_append.1 hitem' with hitem' | hitem'
    · exact h.missed hstage hturn item' hitem' hfor
    · rw [mem_singleton.1 hitem'] at hfor
      rcases hwaiting with hempty | hnot
      · exact hturn (hfor.2.symm.trans hempty)
      · rw [Call.waiting, hstage, hfor.1, hfor.2] at hnot
        simp at hnot
  numbered := by
    intro seq hstage
    obtain ⟨hpos, hle, hlater⟩ := h.numbered seq hstage
    refine ⟨hpos, ?_, fun hturn item' hitem' hfor => ?_⟩
    · rw [length_append]
      omega
    · rcases mem_append.1 hitem' with hitem' | hitem'
      · exact hlater hturn item' hitem' hfor
      · rw [mem_singleton.1 hitem', hseq]
        exact hle
  done := by
    intro seq hstage
    obtain ⟨item', hitem', hfacts⟩ := h.done seq hstage
    exact ⟨item', mem_append_left _ hitem', hfacts⟩

section Statements

variable {items : List Item} {reply : Reply} {call : Call}

theorem Call.inserts_eq_none (h : ∀ seq, call.stage ≠ .numbered seq) :
    call.inserts items reply = none := by
  unfold Call.inserts
  split
  · next seq hstage => exact absurd hstage (h seq)
  · rfl

theorem Call.knows_ends_none (items : List Item) (call : Call) : (call.ends none).Knows items :=
  Call.knows_of_stage (by simp [Call.ends]) (by simp [Call.ends]) (by simp [Call.ends])

theorem Call.knows_ends {seq : Nat} (h : ∃ item ∈ items, item.seq = seq ∧
    item.IsFor call.kind call.turnID) : (call.ends (some seq)).Knows items where
  missed := fun hstage => (by cases hstage)
  numbered := fun _ hstage => (by cases hstage)
  done := fun seq' hstage => (by cases hstage; exact h)

theorem Call.knows_look : (call.look items reply).Knows items := by
  unfold Call.look
  split
  · exact Call.knows_ends_none items call
  split
  · next hturn => exact ⟨fun _ hne => absurd hturn hne, by simp, by simp⟩
  split
  · exact Call.knows_ends_none items call
  split
  · next hseq => exact Call.knows_ends (mem_of_turnSeq hseq)
  · next hseq => exact ⟨fun _ _ => not_isFor_of_turnSeq hseq, by simp, by simp⟩

theorem Call.Knows.number (h : call.Knows items) (hstage : call.stage = .missed)
    (hmax : maxSeq items = items.length) : (call.number items reply).Knows items := by
  unfold Call.number
  split
  · exact Call.knows_ends_none items call
  · refine ⟨by simp, fun seq hseq => ?_, by simp⟩
    cases hseq
    refine ⟨by omega, by omega, fun hturn item hitem hfor => ?_⟩
    exact absurd hfor (h.missed hstage hturn item hitem)

theorem Call.knows_insert {seq : Nat} (hstage : call.stage = .numbered seq) :
    (call.insert items reply seq).Knows (items ++ (call.inserts items reply).toList) := by
  unfold Call.insert
  split
  · exact Call.knows_of_stage (by simp) (by simp) (by simp)
  · next hfree =>
      rw [not_or, not_not] at hfree
      refine Call.knows_ends ⟨call.item seq, ?_, rfl, rfl, rfl⟩
      unfold Call.inserts
      rw [hstage]
      simp [hfree.1, hfree.2]

theorem Call.knows_retry {seq : Nat} : (call.retry items reply seq).Knows items := by
  unfold Call.retry
  split
  · exact Call.knows_ends_none items call
  · exact Call.knows_of_stage (by simp) (by simp) (by simp)

theorem Call.Knows.next {call' : Call} (h : call.Knows items)
    (hmax : maxSeq items = items.length) (hnext : call.next items reply = some call') :
    call'.Knows (items ++ (call.inserts items reply).toList) := by
  unfold Call.next at hnext
  split at hnext
  · next hstage =>
      cases hnext
      rw [Call.inserts_eq_none (by simp [hstage]), toList_none, append_nil]
      exact Call.knows_look
  · next hstage =>
      cases hnext
      rw [Call.inserts_eq_none (by simp [hstage]), toList_none, append_nil]
      exact h.number hstage hmax
  · next seq hstage =>
      cases hnext
      exact Call.knows_insert hstage
  · next seq hstage =>
      cases hnext
      rw [Call.inserts_eq_none (by simp [hstage]), toList_none, append_nil]
      exact Call.knows_retry
  · cases hnext

end Statements

structure State.Good (s : State) : Prop where
  numbers : Numbered s.items
  max : maxSeq s.items = s.items.length
  single : ∀ item ∈ s.items, ∀ item' ∈ s.items, codingInboxTurnID item.payload ≠ "" →
    item'.IsFor item.kind (codingInboxTurnID item.payload) → item = item'
  calls : ∀ call ∈ s.calls, call.Knows s.items

theorem single_push (h : ∀ item ∈ items, ∀ item' ∈ items, codingInboxTurnID item.payload ≠ "" →
      item'.IsFor item.kind (codingInboxTurnID item.payload) → item = item')
    (hfirst : codingInboxTurnID item.payload ≠ "" → ∀ item' ∈ items,
      ¬item'.IsFor item.kind (codingInboxTurnID item.payload)) :
    ∀ x ∈ items ++ [item], ∀ y ∈ items ++ [item], codingInboxTurnID x.payload ≠ "" →
      y.IsFor x.kind (codingInboxTurnID x.payload) → x = y := by
  intro x hx y hy hturn hfor
  rcases mem_append.1 hx with hx | hx <;> rcases mem_append.1 hy with hy | hy
  · exact h x hx y hy hturn hfor
  · rw [mem_singleton.1 hy] at hfor
    exact absurd ⟨hfor.1.symm, hfor.2.symm⟩ (hfirst (hfor.2 ▸ hturn) x hx)
  · rw [mem_singleton.1 hx] at hturn hfor
    exact absurd hfor (hfirst hturn y hy)
  · rw [mem_singleton.1 hx, mem_singleton.1 hy]

variable {s : State}

theorem not_waiting_of_undisturbed {i : Nat}
    (h : Undisturbed s (.advance i reply)) (hcall : s.calls[i]? = some call)
    (hitem : call.inserts s.items reply = some item) {other : Call} (hother : other ∈ s.calls) :
    codingInboxTurnID item.payload = "" ∨
      other.waiting item.kind (codingInboxTurnID item.payload) = false := by
  unfold Undisturbed State.undisturbed at h
  dsimp only at h
  rw [hcall, bind_some, hitem] at h
  rcases Bool.or_eq_true_iff.1 h with hempty | hall
  · exact Or.inl (eq_of_beq hempty)
  · exact Or.inr (by simpa using all_eq_true.1 hall other hother)

theorem State.Good.step {t : State} (h : s.Good) (ha : Undisturbed s a)
    (hstep : s.step a = some t) : t.Good := by
  cases a with
  | enqueue kind payload =>
    simp only [State.step] at hstep
    split at hstep
    · cases hstep
    · cases hstep
      exact ⟨h.numbers, h.max, h.single,
      forall_push h.calls (Call.knows_of_stage (by simp) (by simp) (by simp))⟩
  | advance i reply =>
    simp only [State.step] at hstep
    split at hstep
    · cases hstep
    next call hcall =>
    obtain ⟨call', hnext, rfl⟩ := map_eq_some_iff.1 hstep
    have hmem : call ∈ s.calls := mem_of_getElem? hcall
    have hknows := (h.calls call hmem).next h.max hnext
    cases hitem : call.inserts s.items reply with
    | none =>
      rw [hitem, toList_none, append_nil] at hknows
      rw [toList_none, append_nil]
      exact ⟨h.numbers, h.max, h.single, forall_set h.calls hknows⟩
    | some item =>
      rw [hitem] at hknows
      obtain ⟨hseq, hfor, hfirst⟩ := (h.calls call hmem).inserts h.numbers hitem
      refine ⟨h.numbers.push hseq, ?_, single_push h.single ?_, forall_set ?_ hknows⟩
      · rw [toList_some, maxSeq_append, h.max, length_append, length_singleton]
        omega
      · rw [hfor.1, hfor.2]
        exact hfirst
      · intro other hother
        exact (h.calls other hother).other hseq (not_waiting_of_undisturbed ha hcall hitem hother)

theorem items_of_step {t : State} (hstep : s.step a = some t) : s.items <+: t.items := by
  cases a with
  | enqueue kind payload =>
    simp only [State.step] at hstep
    split at hstep
    · cases hstep
    · cases hstep
      exact prefix_rfl
  | advance i reply =>
    simp only [State.step] at hstep
    split at hstep
    · cases hstep
    · obtain ⟨call', -, rfl⟩ := map_eq_some_iff.1 hstep
      exact prefix_append _ _

/-- **A turn is enqueued once**, in every run in which no item is inserted while another call
for its turn is between its lookup and its number: the inbox has one item for each turn, a call
that succeeds returns the number of the item of its turn, and no number is used again. -/
theorem enqueued_of_reaches {s : State} (h : Reaches State.step Undisturbed {} s) :
    s.EnqueuedOnce ∧ ∀ t, Reaches State.step Unrestricted s t → s.items <+: t.items := by
  have hgood : s.Good := by
    apply Reaches.invariant (fun _ _ _ hs ha hstep => State.Good.step hs ha hstep) h
    exact ⟨rfl, rfl, by simp, by simp⟩
  refine ⟨⟨hgood.single, fun call hcall => (hgood.calls call hcall).done, hgood.numbers.distinct⟩,
    fun t ht => ?_⟩
  exact Reaches.respects (R := fun s t => s.items <+: t.items) (fun _ => prefix_rfl)
    (fun _ _ _ => IsPrefix.trans) (fun _ _ _ => items_of_step) ht

def enqueueTurn : Label := .enqueue "turn" ⟨some "t"⟩

/-- Of two calls that have read the same number one begins again, and finds the
item of the other. -/
theorem enqueued_after_collision :
    ∃ s, Reaches State.step Undisturbed {} s ∧
      (s.items.length = 1 ∧ ∀ call ∈ s.calls, call.stage = .done (some 1)) ∧ s.EnqueuedOnce := by
  refine exists_reaches_and
    [enqueueTurn, enqueueTurn, .advance 0 .ok, .advance 1 .ok, .advance 0 .ok, .advance 1 .ok,
      .advance 0 .ok, .advance 1 .ok, .advance 1 .ok, .advance 1 .ok] _ (by decide)
      fun _ hrun _ => ?_
  exact (enqueued_of_reaches hrun).1

/-- **A turn is enqueued twice.** Two calls for a turn find no item; one reads its number and
inserts its item before the other reads its number, so that both inserts succeed. -/
theorem turn_enqueued_twice :
    ∃ s, Reaches State.step Unrestricted {} s ∧
      (s.items.map Item.seq = [1, 2] ∧
        ∀ item ∈ s.items, item.IsFor "turn" "t") ∧ ¬s.EnqueuedOnce := by
  obtain ⟨s, hrun, hitems⟩ : ∃ s, Reaches State.step Unrestricted {} s ∧
      s.items = [⟨1, "turn", ⟨some "t"⟩⟩, ⟨2, "turn", ⟨some "t"⟩⟩] :=
    exists_reaches
      [enqueueTurn, enqueueTurn, .advance 0 .ok, .advance 1 .ok, .advance 1 .ok, .advance 1 .ok,
        .advance 0 .ok, .advance 0 .ok] _ (by decide)
  refine ⟨s, hrun, ?_, fun h => ?_⟩
  · rw [hitems]
    decide
  · have heq := h.single ⟨1, "turn", ⟨some "t"⟩⟩ (by rw [hitems]; decide)
      ⟨2, "turn", ⟨some "t"⟩⟩ (by rw [hitems]; decide) (by decide) (by decide)
    cases heq

end Flow.Ports.Inbox
