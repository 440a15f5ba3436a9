import Mathlib.Data.List.Flatten
import Flow.Ports.EventNumbering
import Flow.Ports.EventSequencerInvariant
import Flow.Verified.Table

/-!
# A call that returns has its events numbered

A committed event without a seq has a row in the queue, and keeps it until a
numbering gives the event its seq: a numbering retires rows that it has read, and
it numbers the unnumbered event of every row it has read.  That is the invariant
of the tables.

A call returns without an error in two ways.  It has seen its events numbered, or
its own numbering has consumed less than a full batch; then the batch was the
whole queue and held every event that was committed before, those of the call
among them.
-/

namespace Flow.Ports.EventNumbering

open List Option Flow.Ports.EventSequencer Flow.Verified
open Run (Reaches Unrestricted)

def allRows (queue : List SequencingRow) (writers : List Writer) : List SequencingRow :=
  queue ++ writers.flatMap Writer.queued

/-- The batch that the open numbering has read: the order ids of its rows and the
events that it numbers. -/
def batch : Option Numbering → Option (List Nat × List String)
  | some (.selected orders assign) => some (orders, assign)
  | some (.headLocked orders assign _) => some (orders, assign)
  | some (.updated orders assign _) => some (orders, assign)
  | _ => none

/-- Order ids are given out once; the rows of an open batch are there, and it numbers no more
events than it has rows; and a committed event without a seq has a row, which an open batch
retires only if it numbers the event. -/
structure Queued (sys : System) (committed : List String) : Prop where
  orders : ((allRows sys.db.queue sys.writers).map SequencingRow.orderId).Nodup
  bound : ∀ row ∈ allRows sys.db.queue sys.writers, row.orderId ≤ sys.orderCounter
  kept : ∀ read assign, batch sys.numbering = some (read, assign) →
    ∀ order ∈ read, order ∈ sys.db.queue.map SequencingRow.orderId
  sized : ∀ read assign, batch sys.numbering = some (read, assign) →
    assign.length ≤ read.length
  queued : ∀ e ∈ sys.db.events, e.id ∈ committed → e.seq = none →
    ∃ row ∈ sys.db.queue, row.eventId = e.id ∧
      ∀ read assign, batch sys.numbering = some (read, assign) →
        row.orderId ∈ read → e.id ∈ assign

variable {sys sys' : System} {committed : List String}

variable {w : World} {head i : Nat} {rows : List SequencingRow} {numbering : Option Numbering}
  {db : Database} {e : EventRow} {orders : List Nat} {assign : List String} {a : Action}

theorem World.Ready.queued_sys (h : w.Ready) : Queued w.sys w.committed where
  orders := by
    rw [h.rest.writers]
    simpa [allRows] using h.orders
  bound := by
    rw [h.rest.writers]
    simpa [allRows] using h.bound
  kept := by
    rw [h.rest.numbering]
    exact nofun
  sized := by
    rw [h.rest.numbering]
    exact nofun
  queued := by
    intro e he hcommitted hseq
    obtain ⟨row, hrow, hid⟩ := h.queued e he hcommitted hseq
    rw [h.rest.numbering]
    exact ⟨row, hrow, hid, nofun⟩

/-! ## Writers -/

/-- Only the writers change, and with them rows go or none do. -/
theorem Queued.writers {writers : List Writer} {counter : Nat} (h : Queued sys committed)
    (hsub : (writers.flatMap Writer.queued).Sublist (sys.writers.flatMap Writer.queued))
    (hcounter : sys.orderCounter ≤ counter) :
    Queued { sys with writers := writers, orderCounter := counter } committed := by
  have hrows : (allRows sys.db.queue writers).Sublist (allRows sys.db.queue sys.writers) :=
    (Sublist.refl _).append hsub
  refine ⟨h.orders.sublist (hrows.map _), fun row hrow => ?_, h.kept, h.sized, h.queued⟩
  exact Nat.le_trans (h.bound row (hrows.subset hrow)) hcounter

theorem Queued.queueRow {id : String} {rest : List String} (h : Queued sys committed)
    (hwriter : sys.writers[i]? = some { sequencing := id :: rest, queued := rows }) :
    Queued
      { sys with
        orderCounter := sys.orderCounter + 1
        writers := sys.writers.set i
          { sequencing := rest, queued := rows ++ [⟨sys.orderCounter + 1, id⟩] } }
      committed := by
  obtain ⟨front, back, hwriters, hset, _⟩ := Slots.exists_around hwriter
  have hperm : (allRows sys.db.queue (sys.writers.set i
      { sequencing := rest, queued := rows ++ [⟨sys.orderCounter + 1, id⟩] })).Perm
        (⟨sys.orderCounter + 1, id⟩ :: allRows sys.db.queue sys.writers) := by
    rw [hset, hwriters]
    simp only [allRows, flatMap_append, flatMap_cons, append_assoc, cons_append]
    simp only [← append_assoc]
    exact perm_middle
  refine ⟨?_, ?_, h.kept, h.sized, h.queued⟩
  · refine (hperm.map _).nodup_iff.mpr (nodup_cons.mpr ⟨fun hmem => ?_, h.orders⟩)
    obtain ⟨row, hrow, horder⟩ := mem_map.mp hmem
    have hle := h.bound row hrow
    change row.orderId = sys.orderCounter + 1 at horder
    omega
  · intro row hrow
    rcases mem_cons.mp (hperm.mem_iff.mp hrow) with rfl | hrow
    · exact Nat.le_refl _
    · exact Nat.le_succ_of_le (h.bound row hrow)

theorem Queued.commitWrite (h : Queued sys committed)
    (hwriter : sys.writers[i]? = some { sequencing := [], queued := rows })
    (hfresh : ∀ id ∈ rows.map SequencingRow.eventId, id ∉ sys.db.events.map EventRow.id) :
    Queued
      { sys with
        writers := sys.writers.eraseIdx i
        db := { sys.db with
          events := sys.db.events ++
            (rows.map SequencingRow.eventId).map (fun id => ⟨id, none⟩)
          queue := sys.db.queue ++ rows } }
      (committed ++ rows.map SequencingRow.eventId) := by
  obtain ⟨front, back, hwriters, _, herase⟩ := Slots.exists_around hwriter
  have hperm : (allRows (sys.db.queue ++ rows) (sys.writers.eraseIdx i)).Perm
      (allRows sys.db.queue sys.writers) := by
    rw [herase, hwriters]
    simp only [allRows, flatMap_append, append_assoc]
    exact (perm_append_comm_assoc _ _ _).append_left _
  have horders := (hperm.map SequencingRow.orderId).nodup_iff.mpr h.orders
  refine ⟨horders, fun row hrow => h.bound row (hperm.mem_iff.mp hrow), ?_, h.sized, ?_⟩
  · intro read assign hbatch order horder
    rw [map_append]
    exact mem_append_left _ (h.kept read assign hbatch order horder)
  · intro e he hcommitted hseq
    rcases mem_append.mp he with hold | hnew
    · -- the primary key refuses the id of an event that is there
      have hknown := (mem_append.mp hcommitted).resolve_right fun hid =>
        hfresh e.id hid (mem_map_of_mem hold)
      obtain ⟨row, hrow, hrest⟩ := h.queued e hold hknown hseq
      exact ⟨row, mem_append_left _ hrow, hrest⟩
    · obtain ⟨id, hid, rfl⟩ := mem_map.mp hnew
      obtain ⟨row, hrow, rfl⟩ := mem_map.mp hid
      refine ⟨row, mem_append_right _ hrow, rfl, fun read assign hbatch hread => ?_⟩
      have hqueue := h.kept read assign hbatch row.orderId hread
      rw [allRows, map_append, map_append] at horders
      have hdisjoint := disjoint_of_nodup_append (nodup_append.mp horders).1
      exact absurd (mem_map_of_mem hrow) (hdisjoint hqueue)

/-! ## Retention and numberings -/

theorem unnumbered_of_mem (hids : (db.events.map EventRow.id).Nodup) (he : e ∈ db.events)
    (hseq : e.seq = none) : unnumbered db e.id := by
  have hfind : db.events.find? (fun other => other.id = e.id) = some e :=
    Table.lookup_of_mem hids he
  unfold unnumbered
  simp [hfind, hseq]

def readBatch (db : Database) : List Nat × List String :=
  ((queuedBatch db).map SequencingRow.orderId, assignable db (queuedBatch db))

theorem Queued.renumber (h : Queued sys committed) (hids : (sys.db.events.map EventRow.id).Nodup)
    (hbatch : ∀ b, batch numbering = some b → batch sys.numbering = some b ∨ b = readBatch sys.db) :
    Queued { sys with numbering := numbering } committed := by
  refine ⟨h.orders, h.bound, ?_, ?_, ?_⟩
  · intro read assign hsome order horder
    rcases hbatch _ hsome with hsame | hread
    · exact h.kept read assign hsame order horder
    · cases hread
      obtain ⟨row, hrow, rfl⟩ := mem_map.mp horder
      exact mem_map_of_mem ((perm_insertionSort _ _).mem_iff.mp (mem_of_mem_take hrow))
  · intro read assign hsome
    rcases hbatch _ hsome with hsame | hread
    · exact h.sized read assign hsame
    · cases hread
      rw [length_map, ← length_map SequencingRow.eventId]
      exact length_filter_le _ _
  · intro e he hcommitted hseq
    obtain ⟨row, hrow, hid, hold⟩ := h.queued e he hcommitted hseq
    refine ⟨row, hrow, hid, fun read assign hsome hmem => ?_⟩
    rcases hbatch _ hsome with hsame | hread
    · exact hold read assign hsame hmem
    cases hread
    obtain ⟨other, hother, hsame⟩ := mem_map.mp hmem
    have hqueue : (sys.db.queue.map SequencingRow.orderId).Nodup := by
      have horders := h.orders
      rw [allRows, map_append] at horders
      exact (nodup_append.mp horders).1
    have heq : other = row :=
      inj_on_of_nodup_map hqueue ((perm_insertionSort _ _).mem_iff.mp (mem_of_mem_take hother))
        hrow hsame
    rw [assignable, mem_filter]
    refine ⟨?_, unnumbered_of_mem hids he hseq⟩
    rw [← hid, ← heq]
    exact mem_map_of_mem hother

theorem unnumbered_of_commit (he : e ∈ (commitBatch db orders assign head).events)
    (hseq : e.seq = none) : e ∈ db.events ∧ e.id ∉ assign := by
  obtain ⟨old, hold, rfl⟩ := mem_map.mp he
  unfold numberRow at hseq ⊢
  split at hseq
  · cases hseq
  · next hleft =>
      rw [if_neg hleft]
      exact ⟨hold, fun hmem => hleft (by simp [hseq, hmem])⟩

theorem Queued.commitNumbering {assigned : List (Nat × String)} (h : Queued sys committed)
    (hbatch : batch sys.numbering = some (orders, assign)) :
    Queued { sys with
        db := commitBatch sys.db orders assign head, numbering := none, assigned := assigned }
      committed := by
  have hrows : (allRows (sys.db.queue.filter fun row => !orders.contains row.orderId)
      sys.writers).Sublist (allRows sys.db.queue sys.writers) :=
    filter_sublist.append (Sublist.refl _)
  refine ⟨h.orders.sublist (hrows.map _), fun row hrow => h.bound row (hrows.subset hrow),
    nofun, nofun, ?_⟩
  intro e he hcommitted hseq
  obtain ⟨hold, hassign⟩ := unnumbered_of_commit he hseq
  obtain ⟨row, hrow, hid, hread⟩ := h.queued e hold hcommitted hseq
  refine ⟨row, mem_filter.mpr ⟨hrow, ?_⟩, hid, nofun⟩
  have hunread : row.orderId ∉ orders := fun hmem => hassign (hread orders assign hbatch hmem)
  simpa using hunread

theorem written_commitWrite
    (hwriter : sys.writers[i]? = some { sequencing := [], queued := rows }) :
    written sys (.commitWrite i) = rows.map SequencingRow.eventId := by
  simp [written, hwriter]

/-- **Every action keeps the queue.** -/
theorem Queued.step (h : Queued sys committed) (hinv : Inv sys)
    (hstep : EventSequencer.step sys a = some sys') : Queued sys' (committed ++ written sys a) := by
  revert hstep
  fun_cases EventSequencer.step sys a
  all_goals intro hstep
  all_goals try cases hstep
  case case4 hwriter _ hok =>
    rw [written_commitWrite hwriter]
    exact h.commitWrite hwriter hok.2
  all_goals simp only [written, append_nil]
  · exact h.writers (by simp) (Nat.le_refl _)
  next hwriter => exact h.queueRow hwriter
  · exact h.writers ((eraseIdx_sublist _ _).flatMap _) (Nat.le_refl _)
  · exact h.writers (Sublist.refl _) (Nat.le_add_right _ _)
  -- the statements of a numbering
  · exact h.renumber hinv.ids fun _ hread => by cases hread
  · exact h.renumber hinv.ids fun _ hread => .inr (some.inj hread).symm
  next hnumbering =>
    exact h.renumber hinv.ids fun _ hsame => .inl ((congrArg batch hnumbering).trans hsame)
  next hnumbering _ =>
    exact h.renumber hinv.ids fun _ hsame => .inl ((congrArg batch hnumbering).trans hsame)
  · obtain ⟨numbering, hread, rfl⟩ := map_eq_some_iff.mp hstep
    obtain ⟨_, ⟨⟩⟩ := ite_none_right_eq_some.mp hread
    exact h.renumber hinv.ids fun _ hread => .inr (some.inj hread).symm
  next hnumbering => exact h.commitNumbering (congrArg batch hnumbering)
  · exact h.renumber hinv.ids fun _ hread => by cases hread
  -- retention and readers
  · exact ⟨h.orders, h.bound, h.kept, h.sized, fun e he => h.queued e (mem_filter.mp he).1⟩
  · exact { h with }
  · exact { h with }

/-! ## The events of a call -/

def Numbered (db : Database) (events : List String) : Prop :=
  ∀ e ∈ db.events, e.id ∈ events → e.seq ≠ none

/-- The events that are still there and have no seq are among the given ones. -/
def Within (db : Database) (events assign : List String) : Prop :=
  ∀ e ∈ db.events, e.id ∈ events → e.seq = none → e.id ∈ assign

theorem numbered_of_eventsNumbered {ids : List String} (h : eventsNumbered db ids) :
    Numbered db ids := by
  intro e he hid hseq
  have hcount := countP_eq_zero.mp (of_decide_eq_true h) e he
  exact hcount (by simp [hseq, hid])

theorem mem_of_step (hstep : EventSequencer.step sys a = some sys') (he : e ∈ sys'.db.events)
    (hseq : e.seq = none) : e ∈ sys.db.events ∨ e.id ∈ written sys a := by
  revert hstep
  fun_cases EventSequencer.step sys a
  all_goals intro hstep
  all_goals try cases hstep
  all_goals try exact .inl he
  next i rows hwriter ids _ =>
    refine (mem_append.mp he).imp id fun hnew => ?_
    obtain ⟨id, hid, rfl⟩ := mem_map.mp hnew
    rwa [written_commitWrite hwriter]
  · obtain ⟨_, _, rfl⟩ := map_eq_some_iff.mp hstep
    exact .inl he
  · exact .inl (unnumbered_of_commit he hseq).1
  · exact .inl (mem_filter.mp he).1

section Frame

variable {events : List String} {a : Action}

/-- No action takes a seq away or brings back an event of the call. -/
theorem Numbered.step (h : Numbered sys.db events) (hstep : EventSequencer.step sys a = some sys')
    (hfresh : ∀ id ∈ written sys a, id ∉ events) : Numbered sys'.db events := by
  intro e he hid hseq
  rcases mem_of_step hstep he hseq with hold | hnew
  · exact h e hold hid hseq
  · exact hfresh e.id hnew hid

theorem Within.step {assign : List String} (h : Within sys.db events assign)
    (hstep : EventSequencer.step sys a = some sys')
    (hfresh : ∀ id ∈ written sys a, id ∉ events) : Within sys'.db events assign := by
  intro e he hid hseq
  rcases mem_of_step hstep he hseq with hold | hnew
  · exact h e hold hid hseq
  · exact absurd hid (hfresh e.id hnew)

/-- A batch that is not full is the whole queue, so it numbers every event that a
writer committed before. -/
theorem Queued.within (h : Queued sys committed)
    (hids : (sys.db.events.map EventRow.id).Nodup) (hevents : ∀ id ∈ events, id ∈ committed)
    (hshort : (queuedBatch sys.db).length < sequencingBatch) :
    Within sys.db events (assignable sys.db (queuedBatch sys.db)) := by
  intro e he hid hseq
  obtain ⟨row, hrow, heq, _⟩ := h.queued e he (hevents e.id hid) hseq
  have hall : queuedBatch sys.db =
      sys.db.queue.insertionSort (fun a b => a.orderId ≤ b.orderId) := by
    unfold queuedBatch at hshort ⊢
    rw [length_take] at hshort
    exact take_of_length_le (by omega)
  have hbatch : row ∈ queuedBatch sys.db := by
    rw [hall]
    exact (perm_insertionSort _ _).mem_iff.mpr hrow
  rw [assignable, mem_filter]
  exact ⟨heq ▸ mem_map_of_mem hbatch, unnumbered_of_mem hids he hseq⟩

theorem numbered_of_commit {orders : List Nat} {assign : List String} {head : Nat}
    (h : Within sys.db events assign) :
    Numbered (commitBatch sys.db orders assign head) events := by
  intro e he hid hseq
  obtain ⟨hold, hassign⟩ := unnumbered_of_commit he hseq
  exact hassign (h e hold hid hseq)

end Frame

/-! ## The calls -/

/-- What is known of a call: its events are committed; its loop has them all, or none and queues
for the lock; once it has returned without an error they have their seqs; and under the lock a
batch that is not full numbers those without one. -/
structure Call.Good (sys : System) (committed : List String) (holds : Prop) (call : Call) :
    Prop where
  known : ∀ id ∈ call.events, id ∈ committed
  ids : call.ids = call.events ∨ call.ids = [] ∧ call.mode = .numberingWait
  tries : call.stage = .checking ∨ call.stage = .sharing ∨ call.stage = .covering →
    call.ids = call.events
  numbered : call.stage = .returned true → Numbered sys.db call.events
  within : holds → ∀ read assign, batch sys.numbering = some (read, assign) →
    read.length < sequencingBatch → Within sys.db call.events assign

structure World.Good (w : World) : Prop where
  inv : Inv w.sys
  queued : Queued w.sys w.committed
  held : ∀ i, w.holder = some i → i < w.calls.length
  calls : ∀ (i : Nat) (call : Call), w.calls[i]? = some call →
    call.Good w.sys w.committed (w.holder = some i)

theorem World.Ready.good (h : w.Ready) : w.Good where
  inv := h.rest.inv
  queued := h.queued_sys
  held := by
    rw [h.holder]
    exact nofun
  calls := by
    rw [h.calls]
    exact nofun

section Calls

variable {w w' : World} {i : Nat} {call : Call} {holds holds' : Prop} {a : Action}
  {dialect : Dialect}

theorem Call.Good.restage {stage : Stage} (h : call.Good sys committed holds)
    (htries : stage = .checking ∨ stage = .sharing ∨ stage = .covering →
      call.ids = call.events) (hnumbered : stage = .returned true → Numbered sys.db call.events) :
    Call.Good sys committed holds { call with stage := stage } :=
  ⟨h.known, h.ids, htries, hnumbered, h.within⟩

theorem Call.Good.covered (h : call.Good sys committed holds) (hids : call.ids = call.events)
    (hcovered : eventsNumbered sys.db call.ids) :
    Call.Good sys committed holds { call with stage := .returned true } :=
  h.restage nofun fun _ => hids ▸ numbered_of_eventsNumbered hcovered

/-- The tables change by an action that commits no id of a call. If the call holds the lock, it
held it before with the same batch. -/
theorem Call.Good.frame (h : call.Good sys committed holds)
    (hstep : EventSequencer.step sys a = some sys') (hfresh : ∀ id ∈ written sys a, id ∉ committed)
    (hbatch : holds' → ∀ read assign, batch sys'.numbering = some (read, assign) →
      holds ∧ batch sys.numbering = some (read, assign)) :
    call.Good sys' (committed ++ written sys a) holds' := by
  have hnew : ∀ id ∈ written sys a, id ∉ call.events :=
    fun id hid hevent => hfresh id hid (h.known id hevent)
  refine ⟨fun id hid => mem_append_left _ (h.known id hid), h.ids, h.tries, ?_, ?_⟩
  · intro hstage
    exact (h.numbered hstage).step hstep hnew
  · intro hholds read assign hsome hshort
    obtain ⟨hheld, hread⟩ := hbatch hholds read assign hsome
    exact (h.within hheld read assign hread hshort).step hstep hnew

/-- The tables change by an action of a numbering, and the call holds no lock with a
batch. -/
theorem Call.Good.unheld (h : call.Good sys committed holds)
    (hstep : EventSequencer.step sys a = some sys') (hwritten : written sys a = [])
    (hunread : holds' → ∀ read assign, batch sys'.numbering ≠ some (read, assign)) :
    call.Good sys' committed holds' := by
  have hfresh : ∀ id ∈ written sys a, id ∉ committed := by
    rw [hwritten]
    exact nofun
  have hframe : call.Good sys' (committed ++ written sys a) holds' :=
    h.frame hstep hfresh fun hholds read assign hsome =>
      absurd hsome (hunread hholds read assign)
  rwa [hwritten, append_nil] at hframe

theorem World.Good.put {call' : Call} (h : w.Good)
    (hcall' : call'.Good w.sys w.committed (w.holder = some i)) : (w.put i call').Good := by
  refine ⟨h.inv, h.queued, fun k hk => ?_, fun k other hother => ?_⟩
  · rw [World.put, length_set]
    exact h.held k hk
  · rcases Slots.getElem?_set_cases hother with ⟨rfl, rfl⟩ | ⟨_, hold⟩
    · exact hcall'
    · exact h.calls k other hold

/-- A call moves, the tables change by an action of a numbering, and then the call holds the
lock with no batch yet, or nobody does. -/
theorem World.Good.relock {call' : Call} {holder : Option Nat} (h : w.Good)
    (hcall : w.calls[i]? = some call)
    (hstep : EventSequencer.step w.sys a = some sys') (hwritten : written w.sys a = [])
    (hholder : holder = some i ∧ batch sys'.numbering = none ∨ holder = none)
    (hcall' : call'.Good sys' w.committed False) :
    ({ w.put i call' with sys := sys', holder := holder } : World).Good := by
  have hlocked : ∀ k, holder = some k → k = i ∧ batch sys'.numbering = none := by
    intro k hk
    rcases hholder with ⟨hi, hnone⟩ | hnone
    · exact ⟨some.inj (hk.symm.trans hi), hnone⟩
    · cases hnone.symm.trans hk
  have hunread : ∀ k, holder = some k → ∀ read assign,
      batch sys'.numbering ≠ some (read, assign) := by
    intro k hk read assign
    rw [(hlocked k hk).2]
    exact nofun
  have hqueued := h.queued.step h.inv hstep
  rw [hwritten, append_nil] at hqueued
  refine ⟨h.inv.step hstep, hqueued, fun k hk => ?_, fun k other hother => ?_⟩
  · rw [World.put, List.length_set, (hlocked k hk).1]
    exact (List.getElem?_eq_some_iff.mp hcall).1
  · rcases Slots.getElem?_set_cases hother with ⟨rfl, rfl⟩ | ⟨_, hold⟩
    · exact ⟨hcall'.known, hcall'.ids, hcall'.tries, hcall'.numbered,
        fun hk read assign hsome => absurd hsome (hunread _ hk read assign)⟩
    · exact (h.calls k other hold).unheld hstep hwritten (hunread k)

/-! ### Statements of a call -/

theorem World.Good.begin {events : List String} (h : w.Good)
    (hstep : w.begin dialect events = some w') : w'.Good := by
  obtain ⟨hknown, hstep⟩ := ite_none_right_eq_some.mp hstep
  cases hstep
  refine ⟨h.inv, h.queued, fun k hk => ?_, fun k other hother => ?_⟩
  · rw [length_append]
    exact Nat.lt_of_lt_of_le (h.held k hk) (Nat.le_add_right _ _)
  · rcases Nat.lt_or_ge k w.calls.length with hlt | hge
    · rw [getElem?_append_left hlt] at hother
      exact h.calls k other hother
    · rw [getElem?_append_right hge] at hother
      rw [mem_singleton.mp (mem_of_getElem? hother)]
      refine ⟨hknown, .inl rfl, fun _ => rfl, ?_, ?_⟩
      · intro hstage
        split at hstage <;> cases hstage
      · intro hk
        exact absurd (h.held k hk) (Nat.not_lt_of_ge hge)

theorem World.Good.check (h : w.Good) (hstep : w.check i = some w') : w'.Good := by
  obtain ⟨call, hcall, hstep⟩ := bind_eq_some_iff.mp hstep
  obtain ⟨hstage, hstep⟩ := ite_none_right_eq_some.mp hstep
  have hgood := h.calls i call hcall
  split at hstep
  · next hcovered =>
      cases hstep
      exact h.put (hgood.covered (hgood.tries (.inl hstage)) hcovered)
  · cases hstep
    exact h.put (hgood.restage nofun nofun)

theorem World.Good.acquire (h : w.Good) (hcall : w.calls[i]? = some call)
    (hstep : w.acquire i call = some w') : w'.Good := by
  obtain ⟨_, hstep⟩ := ite_none_right_eq_some.mp hstep
  obtain ⟨sys', hsys, rfl⟩ := map_eq_some_iff.mp hstep
  have hgood : call.Good sys' w.committed False := (h.calls i call hcall).unheld hsys rfl False.elim
  have hbatch : batch sys'.numbering = none := by
    simp only [EventSequencer.step] at hsys
    split at hsys
    · cases hsys
      rfl
    · cases hsys
  refine h.relock hcall hsys rfl (.inl ⟨rfl, hbatch⟩) (hgood.restage ?_ ?_)
  · rintro (hstage | hstage | hstage) <;> cases hstage
  · intro hstage
    cases hstage

theorem World.Good.lock (h : w.Good) (hstep : w.lock i = some w') : w'.Good := by
  obtain ⟨call, hcall, hstep⟩ := bind_eq_some_iff.mp hstep
  obtain ⟨_, hstep⟩ := ite_none_right_eq_some.mp hstep
  split at hstep
  · next htries =>
      cases hstep
      have hgood := h.calls i call hcall
      refine h.put (hgood.restage (fun _ => ?_) nofun)
      rcases hgood.ids with hids | ⟨_, hwait⟩
      · exact hids
      · cases hwait.symm.trans htries.2
  · exact h.acquire hcall hstep

theorem World.Good.share {absent : Bool} (h : w.Good) (hstep : w.share i absent = some w') :
    w'.Good := by
  obtain ⟨call, hcall, hstep⟩ := bind_eq_some_iff.mp hstep
  obtain ⟨hstage, hstep⟩ := ite_none_right_eq_some.mp hstep
  split at hstep
  · exact h.acquire hcall hstep
  · obtain ⟨_, hstep⟩ := ite_none_right_eq_some.mp hstep
    cases hstep
    have hgood := h.calls i call hcall
    exact h.put (hgood.restage (fun _ => hgood.tries (.inr (.inl hstage))) nofun)

theorem World.Good.cover (h : w.Good) (hstep : w.cover i = some w') : w'.Good := by
  obtain ⟨call, hcall, hstep⟩ := bind_eq_some_iff.mp hstep
  obtain ⟨hstage, hstep⟩ := ite_none_right_eq_some.mp hstep
  have hgood := h.calls i call hcall
  have hids := hgood.tries (.inr (.inr hstage))
  split at hstep
  · next hcovered =>
      cases hstep
      exact h.put (hgood.covered hids hcovered)
  · cases hstep
    exact h.put ⟨hgood.known, .inl hids, nofun, nofun, hgood.within⟩

theorem World.Good.release {call' : Call} (h : w.Good) (hcall : w.calls[i]? = some call)
    (hcall' : call'.Good w.sys w.committed holds)
    (hstep : (w.put i call').release = some w') : w'.Good := by
  obtain ⟨sys', hsys, rfl⟩ := map_eq_some_iff.mp hstep
  exact h.relock hcall hsys rfl (.inr rfl) (hcall'.unheld hsys rfl False.elim)

theorem World.Good.recheck (h : w.Good) (hstep : w.recheck dialect i = some w') : w'.Good := by
  obtain ⟨call, hcall, hstep⟩ := bind_eq_some_iff.mp hstep
  obtain ⟨⟨_, hrechecks, _⟩, hstep⟩ := ite_none_right_eq_some.mp hstep
  have hgood := h.calls i call hcall
  have hids : call.ids = call.events :=
    hgood.ids.resolve_right fun hnone => (of_decide_eq_true hrechecks).2.2 hnone.1
  split at hstep
  · next hcovered => exact h.release hcall (hgood.covered hids hcovered) hstep
  · cases hstep
    exact h.put (hgood.restage nofun nofun)

theorem batch_of_statement (ha : statement dialect a)
    (hstep : EventSequencer.step sys a = some sys') :
    sys'.db = sys.db ∧ written sys a = [] ∧ (batch sys'.numbering = batch sys.numbering ∨
        batch sys'.numbering = some (readBatch sys.db)) := by
  revert hstep
  fun_cases EventSequencer.step sys a
  all_goals try cases ha
  all_goals intro hstep
  all_goals try cases hstep
  · exact ⟨rfl, rfl, .inr rfl⟩
  next hnumbering => exact ⟨rfl, rfl, .inl (congrArg batch hnumbering).symm⟩
  next hnumbering _ => exact ⟨rfl, rfl, .inl (congrArg batch hnumbering).symm⟩
  · obtain ⟨numbering, hread, rfl⟩ := map_eq_some_iff.mp hstep
    obtain ⟨_, ⟨⟩⟩ := ite_none_right_eq_some.mp hread
    exact ⟨rfl, rfl, .inr rfl⟩

theorem World.Good.number (h : w.Good) (hstep : w.number dialect i a = some w') : w'.Good := by
  obtain ⟨call, hcall, hstep⟩ := bind_eq_some_iff.mp hstep
  obtain ⟨⟨hholder, hstatement, _⟩, hstep⟩ := ite_none_right_eq_some.mp hstep
  obtain ⟨sys', hsys, rfl⟩ := map_eq_some_iff.mp hstep
  obtain ⟨hdb, hwritten, hbatch⟩ := batch_of_statement hstatement hsys
  have hqueued := h.queued.step h.inv hsys
  rw [hwritten, append_nil] at hqueued
  refine ⟨h.inv.step hsys, hqueued, h.held, fun k other hother => ?_⟩
  have hgood := h.calls k other hother
  refine ⟨hgood.known, hgood.ids, hgood.tries, fun hstage => hdb ▸ hgood.numbered hstage, ?_⟩
  intro hk read assign hsome hshort
  rw [hdb]
  rcases hbatch with hsame | hread
  · exact hgood.within hk read assign (hsame ▸ hsome) hshort
  · cases hread.symm.trans hsome
    rw [length_map] at hshort
    exact h.queued.within h.inv.ids hgood.known hshort

/-- What the loop makes of a numbering: it returns only when the batch was not
full. -/
theorem Call.Good.next {consumed : Nat} (h : call.Good sys committed False)
    (hnumbered : consumed < sequencingBatch → Numbered sys.db call.events) :
    (call.next consumed).Good sys committed False := by
  unfold Call.next
  split
  · next htry =>
      have hids : call.ids = call.events :=
        h.ids.resolve_right fun hwait => by
          cases htry.1.symm.trans hwait.2
      exact ⟨h.known, .inl hids, nofun, nofun, nofun⟩
  · split
    · next hshort => exact h.restage nofun fun _ => hnumbered hshort
    · exact ⟨h.known, .inr ⟨rfl, rfl⟩, nofun, nofun, nofun⟩

theorem World.Good.commit (h : w.Good) (hstep : w.commit i = some w') : w'.Good := by
  obtain ⟨call, hcall, hstep⟩ := bind_eq_some_iff.mp hstep
  obtain ⟨hholder, hstep⟩ := ite_none_right_eq_some.mp hstep
  have hgood := h.calls i call hcall
  split at hstep
  · next assign hnumbering =>
      have hbatch : batch w.sys.numbering = some ([], assign) := by rw [hnumbering]; rfl
      have hempty : assign = [] :=
        eq_nil_of_length_eq_zero (Nat.le_zero.mp (h.queued.sized _ _ hbatch))
      have hwithin := hgood.within hholder [] assign hbatch (by decide)
      have hnumbered : Numbered w.sys.db call.events := by
        intro e he hid hseq
        have hmem := hwithin e he hid hseq
        rw [hempty] at hmem
        cases hmem
      have hunheld : call.Good w.sys w.committed False := { hgood with within := False.elim }
      exact h.release hcall (hunheld.next fun _ => hnumbered) hstep
  · next orders assign head hnumbering =>
      obtain ⟨sys', hsys, rfl⟩ := map_eq_some_iff.mp hstep
      have hbatch : batch w.sys.numbering = some (orders, assign) := by rw [hnumbering]; rfl
      have hdb : sys'.db = commitBatch w.sys.db orders assign head := by
        simp only [EventSequencer.step, hnumbering] at hsys
        cases hsys
        rfl
      refine h.relock hcall hsys rfl (.inr rfl)
        ((hgood.unheld hsys rfl False.elim).next fun hshort => ?_)
      rw [hdb]
      exact numbered_of_commit (hgood.within hholder orders assign hbatch hshort)
  · cases hstep

theorem World.Good.fail (h : w.Good) (hstep : w.fail i = some w') : w'.Good := by
  obtain ⟨call, hcall, hstep⟩ := bind_eq_some_iff.mp hstep
  have hfailed : Call.Good w.sys w.committed (w.holder = some i)
      { call with stage := .returned false } :=
    (h.calls i call hcall).restage nofun nofun
  split at hstep
  · cases hstep
  · split at hstep
    · exact h.release hcall hfailed hstep
    · cases hstep
      exact h.put hfailed

theorem numbering_of_step (ha : numbers a = false)
    (hstep : EventSequencer.step sys a = some sys') : sys'.numbering = sys.numbering := by
  revert hstep
  fun_cases EventSequencer.step sys a
  all_goals try cases ha
  all_goals rintro ⟨⟩
  all_goals rfl

theorem World.Good.other (h : w.Good) (hstep : w.other a = some w') : w'.Good := by
  obtain ⟨⟨hquiet, hfresh⟩, hstep⟩ := ite_none_right_eq_some.mp hstep
  obtain ⟨sys', hsys, rfl⟩ := map_eq_some_iff.mp hstep
  have hsame := congrArg batch (numbering_of_step hquiet hsys)
  refine ⟨h.inv.step hsys, h.queued.step h.inv hsys, h.held, fun k other hother => ?_⟩
  exact (h.calls k other hother).frame hsys hfresh fun hk read assign hsome =>
    ⟨hk, hsame ▸ hsome⟩

end Calls

/-- **Every step keeps what is known of the calls.** -/
theorem World.Good.step {dialect : Dialect} {w' : World} {l : Label} (h : w.Good)
    (hstep : w.step dialect l = some w') : w'.Good := by
  cases l with
  | begin events => exact h.begin hstep
  | check i => exact h.check hstep
  | lock i => exact h.lock hstep
  | share i absent => exact h.share hstep
  | cover i => exact h.cover hstep
  | recheck i => exact h.recheck hstep
  | number i a => exact h.number hstep
  | commit i => exact h.commit hstep
  | fail i => exact h.fail hstep
  | other a => exact h.other hstep

/-- **A call that returns has its events numbered.** In every run, on either dialect, the events
of a call that has returned without an error have their seqs, if they still exist. -/
theorem events_numbered_of_reaches {dialect : Dialect} {start w : World}
    (hstart : start.Ready) (hrun : Reaches (World.step dialect) Unrestricted start w) :
    ∀ call ∈ w.calls, call.stage = .returned true →
      ∀ e ∈ w.sys.db.events, e.id ∈ call.events → e.seq.isSome := by
  have hgood : w.Good :=
    hrun.invariant (P := World.Good) (fun _ _ _ h _ hstep => h.step hstep) hstart.good
  intro call hcall hreturned e he hid
  obtain ⟨i, hi⟩ := getElem?_of_mem hcall
  exact isSome_iff_ne_none.mpr ((hgood.calls i call hi).numbered hreturned e he hid)

/-- The workspace at rest of `resting`, before any call. -/
def quiet : World := { sys := resting, calls := [], holder := none, committed := [] }

theorem quiet_ready : quiet.Ready where
  rest := resting_atRest
  calls := rfl
  holder := rfl
  orders := by decide
  bound := by decide
  queued := by decide

/-- The first call numbers the events of both; the second finds the lock taken,
waits for the first and is covered. -/
theorem events_numbered_by_another :
    ∃ w, (Reaches (World.step .mysql) Unrestricted quiet w ∧
      w.calls.map Call.stage = [.returned true, .returned true] ∧
      w.calls.map Call.events = [["a"], ["b"]]) ∧
      ∀ call ∈ w.calls, call.stage = .returned true →
        ∀ e ∈ w.sys.db.events, e.id ∈ call.events → e.seq.isSome := by
  refine (exists_congr fun _ => and_assoc).mpr <| Run.exists_reaches_and
    [.other (.beginWrite ["a"]), .other (.beginWrite ["b"]), .other (.queueRow 1),
      .other (.queueRow 0), .other (.commitWrite 0), .other (.commitWrite 0), .begin ["a"],
      .begin ["b"], .check 0, .check 1, .lock 0, .number 0 .selectBatch, .lock 1,
      .number 0 .lockEventHead, .number 0 .updateEvents, .commit 0, .share 1 false, .cover 1]
    quiet (by decide +kernel) fun w hrun _ => ?_
  exact events_numbered_of_reaches quiet_ready hrun

/-- **No committed event is forgotten**, whichever calls fail: it has its seq, or a row. -/
theorem queued_or_numbered_of_reaches {dialect : Dialect} {start w : World}
    (hstart : start.Ready) (hrun : Reaches (World.step dialect) Unrestricted start w) :
    ∀ e ∈ w.sys.db.events, e.id ∈ w.committed → e.seq = none →
      ∃ row ∈ w.sys.db.queue, row.eventId = e.id := by
  have hgood : w.Good :=
    hrun.invariant (P := World.Good) (fun _ _ _ h _ hstep => h.step hstep) hstart.good
  intro e he hcommitted hseq
  obtain ⟨row, hrow, hid, -⟩ := hgood.queued.queued e he hcommitted hseq
  exact ⟨row, hrow, hid⟩

/-- A call fails before it has numbered its event. -/
theorem queued_after_failure :
    ∃ w, Reaches (World.step .mysql) Unrestricted quiet w ∧
      (w.calls.map Call.stage = [.returned false] ∧ ⟨"a", none⟩ ∈ w.sys.db.events ∧
        "a" ∈ w.committed) ∧ ∃ row ∈ w.sys.db.queue, row.eventId = "a" :=
  Run.exists_reaches_and
    [.other (.beginWrite ["a"]), .other (.queueRow 0), .other (.commitWrite 0), .begin ["a"],
      .check 0, .lock 0, .number 0 .selectBatch, .fail 0]
    quiet (by decide +kernel) fun _ hrun h =>
      queued_or_numbered_of_reaches quiet_ready hrun _ h.2.1 h.2.2 rfl

end Flow.Ports.EventNumbering
