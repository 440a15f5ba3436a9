import Flow.Ports.EventSequencer
import Flow.Verified.Slots
import Mathlib.Data.List.Nodup
import Mathlib.Data.List.Perm.Subperm

/-!
# Cursor safety of the change-log sequencer

The invariant that carries the change log through every interleaving: the
seqs ever handed out are `1..head` in the order they were handed out, every
numbered row carries the seq recorded for it, the open numbering still sees
the head it locked and the unnumbered rows it updated, and a reader has read
every event numbered between where it started and its cursor.

A numbering therefore hands out only seqs above the head, and the head is
above every seq committed before; that is all a cursor reader needs.
-/

namespace Flow.Ports.EventSequencer

open List Option Flow.Verified.Run Bool
open Flow.Verified.Slots (forall_push forall_set)

/-- What the open numbering may rely on: the head it locked is the committed one, and the rows
it updated are there, unnumbered and distinct. -/
def NumberingInv (db : Database) : Option Numbering → Prop
  | some (.headLocked _ _ head) => head = db.head
  | some (.updated _ assign head) =>
    head = db.head ∧ assign.Nodup ∧
      ∀ id ∈ assign, ({ id := id, seq := none } : EventRow) ∈ db.events
  | _ => True

structure ReaderInv (db : Database) (r : Reader) : Prop where
  bound : r.cursor = r.since ∨ r.cursor ≤ db.head
  covered : ∀ e ∈ db.events, ∀ q, e.seq = some q → r.since < q → q ≤ r.cursor →
    (q, e.id) ∈ r.seen

structure Inv (s : System) : Prop where
  ids : (s.db.events.map EventRow.id).Nodup
  seqs : s.assigned.map Prod.fst = range' 1 s.db.head
  recorded : ∀ e ∈ s.db.events, ∀ q, e.seq = some q → (q, e.id) ∈ s.assigned
  numbering : NumberingInv s.db s.numbering
  readers : ∀ r ∈ s.readers, ReaderInv s.db r

variable {s s' : System} {a : Action}

theorem AtRest.inv (h : AtRest s) : Inv s where
  ids := h.ids
  seqs := h.seqs
  recorded := h.recorded
  numbering := by simp [NumberingInv, h.numbering]
  readers := by simp [h.readers]

theorem Inv.assigned_unique (h : Inv s) {q : Nat} {a b : String}
    (ha : (q, a) ∈ s.assigned) (hb : (q, b) ∈ s.assigned) : a = b := by
  have hnodup : (s.assigned.map Prod.fst).Nodup := by
    rw [h.seqs]
    exact nodup_range'
  have heq := inj_on_of_nodup_map hnodup ha hb rfl
  exact congrArg Prod.snd heq

variable {p : Nat × String} {db : Database} {assign : List String} {head : Nat}

theorem Inv.assigned_le (h : Inv s) (hp : p ∈ s.assigned) : 1 ≤ p.1 ∧ p.1 ≤ s.db.head := by
  have hmem : p.1 ∈ s.assigned.map Prod.fst := mem_map_of_mem hp
  rw [h.seqs, mem_range'_1] at hmem
  omega

/-! ## Statements that hand out no seq -/

/-- A step that keeps the head and numbers no further row keeps the invariant, whatever else it
adds or removes. -/
private theorem Inv.of_numbered_subset (h : Inv s) (hassigned : s'.assigned = s.assigned)
    (hreaders : s'.readers = s.readers) (hhead : s'.db.head = s.db.head)
    (hids : (s'.db.events.map EventRow.id).Nodup)
    (hsub : ∀ e ∈ s'.db.events, ∀ q, e.seq = some q → e ∈ s.db.events)
    (hnum : NumberingInv s'.db s'.numbering) : Inv s' where
  ids := hids
  seqs := by rw [hassigned, hhead]; exact h.seqs
  recorded := by
    intro e he q hq
    rw [hassigned]
    exact h.recorded e (hsub e he q hq) q hq
  numbering := hnum
  readers := by
    intro r hr
    rw [hreaders] at hr
    have hrInv := h.readers r hr
    refine { bound := by rw [hhead]; exact hrInv.bound, covered := ?_ }
    intro e he q hq
    exact hrInv.covered e (hsub e he q hq) q hq

/-- A step that leaves the tables, the record and the readers alone keeps the invariant when the
numbering it leaves meets its part. -/
private theorem Inv.of_numbering (h : Inv s) (hdb : s'.db = s.db)
    (hassigned : s'.assigned = s.assigned) (hreaders : s'.readers = s.readers)
    (hnum : NumberingInv s.db s'.numbering) : Inv s' := by
  apply h.of_numbered_subset hassigned hreaders (by rw [hdb])
  · rw [hdb]; exact h.ids
  · intro e he _ _
    rwa [hdb] at he
  · rw [hdb]; exact hnum

private theorem NumberingInv.mono {db' : Database} {n : Option Numbering} (h : NumberingInv db n)
    (hhead : db'.head = db.head)
    (hrows : ∀ e ∈ db.events, e.id ∈ lockedEvents n → e ∈ db'.events) : NumberingInv db' n := by
  match n with
  | none => trivial
  | some .locked => trivial
  | some (.selected _ _) => trivial
  | some (.headLocked _ _ _) => exact h.trans hhead.symm
  | some (.updated _ _ _) =>
    exact ⟨h.1.trans hhead.symm, h.2.1, fun id hid => hrows _ (h.2.2 id hid) hid⟩

private theorem Inv.commitWrite (h : Inv s) (i : Nat) (rows : List SequencingRow)
    (hnodup : (rows.map SequencingRow.eventId).Nodup)
    (hfresh : ∀ id ∈ rows.map SequencingRow.eventId, id ∉ s.db.events.map EventRow.id) :
    Inv { s with
      writers := s.writers.eraseIdx i
      db := { s.db with
        events := s.db.events ++
          (rows.map SequencingRow.eventId).map (fun id => ⟨id, none⟩)
        queue := s.db.queue ++ rows } } := by
  refine h.of_numbered_subset rfl rfl rfl ?_ ?_ 
    (h.numbering.mono rfl fun e he _ => mem_append_left _ he)
  · have hnew : ((rows.map SequencingRow.eventId).map
        (fun id => ({ id := id, seq := none } : EventRow))).map EventRow.id =
        rows.map SequencingRow.eventId := by
      simp
    simp only [List.map_append, hnew]
    refine List.nodup_append.2 ⟨h.ids, hnodup, ?_⟩
    intro a ha b hb hab
    exact hfresh b hb (hab ▸ ha)
  · intro e he q hq
    rcases List.mem_append.1 he with hold | hnew
    · exact hold
    · simp only [List.mem_map] at hnew
      obtain ⟨id, _, rfl⟩ := hnew
      simp at hq

private theorem Inv.prune (h : Inv s) (ids : List String)
    (hfree : ∀ id ∈ ids, id ∉ lockedEvents s.numbering) :
    Inv { s with db := pruneEvents s.db ids } := by
  refine h.of_numbered_subset rfl rfl rfl ?_ ?_ ?_
  · exact h.ids.sublist (filter_sublist.map _)
  · intro e he _ _
    exact (mem_filter.1 he).1
  · refine h.numbering.mono rfl fun e he hlocked => mem_filter.2 ⟨he, ?_⟩
    have hnot : e.id ∉ ids := fun hmem => hfree e.id hmem hlocked
    simp [hnot]

/-! ## The update and the commit of a numbering -/

/-- When the update affects as many rows as it was given ids, the ids are
distinct and each names an unnumbered row. -/
theorem rowsAffected_eq_length (hids : (db.events.map EventRow.id).Nodup)
    (hrows : rowsAffected db assign = assign.length) :
    assign.Nodup ∧ ∀ id ∈ assign, ({ id := id, seq := none } : EventRow) ∈ db.events := by
  let hit := db.events.filter (fun e => e.seq.isNone && assign.contains e.id)
  have hhitIds : (hit.map EventRow.id).Nodup :=
    hids.sublist (filter_sublist.map _)
  have hsub : hit.map EventRow.id ⊆ assign := by
    intro id hid
    obtain ⟨e, he, rfl⟩ := mem_map.1 hid
    have hcond := (mem_filter.1 he).2
    simp only [and_eq_true, contains_eq_mem, decide_eq_true_eq] at hcond
    exact hcond.2
  have hlen : assign.length ≤ (hit.map EventRow.id).length := by
    rw [length_map]
    exact hrows.ge
  have hperm : (hit.map EventRow.id).Perm assign :=
    (subperm_of_subset hhitIds hsub).perm_of_length_le hlen
  refine ⟨hperm.nodup_iff.1 hhitIds, ?_⟩
  intro id hid
  obtain ⟨e, he, heq⟩ := mem_map.1 (hperm.mem_iff.2 hid)
  obtain ⟨hmem, hcond⟩ := mem_filter.1 he
  have hrow : e = { id := id, seq := none } := by
    cases e
    simp_all
  rwa [hrow] at hmem

@[simp] theorem numberRow_id (assign : List String) (head : Nat) (e : EventRow) :
    (numberRow assign head e).id = e.id := by
  unfold numberRow
  split <;> rfl

theorem numberRow_seq {q : Nat} {e : EventRow} (h : (numberRow assign head e).seq = some q) :
    e.seq = some q ∨ (e.id ∈ assign ∧ q = caseSeq assign head e.id) := by
  unfold numberRow at h
  split at h
  · rename_i hcond
    simp only [and_eq_true, contains_eq_mem, decide_eq_true_eq] at hcond
    exact Or.inr ⟨hcond.2, (some.inj h).symm⟩
  · exact Or.inl h

theorem map_fst_assignments (assign : List String) (head : Nat) :
    (assignments assign head).map Prod.fst = range' (head + 1) assign.length := by
  rw [assignments, map_fst_zip]
  simp

theorem caseSeq_mem_assignments {id : String} (hid : id ∈ assign) :
    (caseSeq assign head id, id) ∈ assignments assign head := by
  have hlt : assign.idxOf id < assign.length := idxOf_lt_length_of_mem hid
  rw [assignments, mem_iff_getElem]
  refine ⟨assign.idxOf id, by simpa using hlt, ?_⟩
  simp [caseSeq, Nat.add_right_comm]

theorem lt_of_mem_assignments (hp : p ∈ assignments assign head) : head < p.1 := by
  have hmem : p.1 ∈ (assignments assign head).map Prod.fst := mem_map_of_mem hp
  rw [map_fst_assignments, mem_range'_1] at hmem
  omega

private theorem Inv.commitNumbering (h : Inv s) (orders : List Nat) (assign : List String) :
    Inv { s with
      db := commitBatch s.db orders assign s.db.head
      numbering := none
      assigned := s.assigned ++ assignments assign s.db.head } where
  ids := by
    have hmap : (s.db.events.map (numberRow assign s.db.head)).map EventRow.id =
        s.db.events.map EventRow.id := by
      rw [List.map_map]
      exact List.map_congr_left fun e _ => numberRow_id assign s.db.head e
    simpa [commitBatch, hmap] using h.ids
  seqs := by
    simp only [commitBatch, map_append, map_fst_assignments, h.seqs]
    rw [Nat.add_comm s.db.head 1, range'_append_1]
  recorded := by
    intro e he q hq
    obtain ⟨old, hold, rfl⟩ := mem_map.1 he
    rw [numberRow_id]
    rcases numberRow_seq hq with hseq | ⟨hmem, rfl⟩
    · exact mem_append_left _ (h.recorded old hold q hseq)
    · exact mem_append_right _ (caseSeq_mem_assignments hmem)
  numbering := trivial
  readers := by
    intro r hr
    have hrInv := h.readers r hr
    refine { bound := ?_, covered := ?_ }
    · rcases hrInv.bound with heq | hle
      · exact Or.inl heq
      · exact Or.inr (Nat.le_trans hle (Nat.le_add_right _ _))
    · intro e he q hq hlt hle
      obtain ⟨old, hold, rfl⟩ := mem_map.1 he
      rw [numberRow_id]
      rcases numberRow_seq hq with hseq | ⟨_, rfl⟩
      · exact hrInv.covered old hold q hseq hlt hle
      · -- a new seq is above the head, and a cursor that moved is not
        rcases hrInv.bound with heq | hbound
        · omega
        · simp only [caseSeq] at hle
          omega

/-! ## Reading a page -/

theorem mem_numberedAfter {since : Nat} : p ∈ numberedAfter db since ↔
      ∃ e ∈ db.events, e.seq = some p.1 ∧ since < p.1 ∧ e.id = p.2 := by
  simp only [numberedAfter, mem_insertionSort, mem_filterMap,
    bind_eq_some_iff]
  constructor
  · rintro ⟨e, he, q, hq, hif⟩
    split at hif
    · rename_i hlt
      simp only [some.injEq] at hif
      subst hif
      exact ⟨e, he, hq, hlt, rfl⟩
    · simp at hif
  · rintro ⟨e, he, hq, hlt, hid⟩
    refine ⟨e, he, p.1, hq, ?_⟩
    rw [if_pos hlt, hid]

/-- A page is a prefix of the numbered events in seq order: what it leaves
out is numbered no lower than what it holds. -/
private theorem le_of_mem_drop {since n : Nat} {r : Nat × String}
    (hp : p ∈ (numberedAfter db since).take n) (hr : r ∈ (numberedAfter db since).drop n) :
    p.1 ≤ r.1 := by
  have hsorted : (numberedAfter db since).Pairwise (fun a b => a.1 ≤ b.1) := by
    exact pairwise_insertionSort _ _
  rw [← take_append_drop n (numberedAfter db since)] at hsorted
  exact (pairwise_append.1 hsorted).2.2 p hp r hr

/-- **Resuming skips nothing.**  After a page the reader has read every event
numbered up to its new cursor. -/
private theorem Inv.advance (h : Inv s) {r : Reader} (hr : ReaderInv s.db r) (limit : Nat) :
    ReaderInv s.db (r.advance (workspaceChanges s.db r.cursor limit)) := by
  unfold workspaceChanges
  split
  · refine { bound := Or.inl rfl, covered := ?_ }
    intro e _ q _ hlt hle
    simp only [Reader.advance, if_true] at hlt hle
    omega
  · generalize (if limit = 0 then 200 else limit) = n
    let page := (numberedAfter s.db r.cursor).take n
    have hpage : ∀ p ∈ page, ∃ e ∈ s.db.events, e.seq = some p.1 ∧ r.cursor < p.1 ∧
        e.id = p.2 := fun p hp => mem_numberedAfter.1 (mem_of_mem_take hp)
    cases hlast : page.getLast? with
    | none =>
      have hnil : page = [] := getLast?_eq_none_iff.1 hlast
      refine { bound := ?_, covered := ?_ }
      · simpa [Reader.advance, page, hnil] using hr.bound
      · intro e he q hq hlt hle
        rw [show (numberedAfter s.db r.cursor).take n = [] from hnil] at hle ⊢
        exact mem_append_left _ (hr.covered e he q hq hlt hle)
    | some last =>
      have hlastMem : last ∈ page := mem_of_getLast? hlast
      obtain ⟨le, hle, hleSeq, hleLt, hleId⟩ := hpage last hlastMem
      have hrec : (last.1, le.id) ∈ s.assigned := h.recorded le hle last.1 hleSeq
      refine { bound := ?_, covered := ?_ }
      · right
        simp only [Reader.advance]
        rw [show ((numberedAfter s.db r.cursor).take n).getLast? = some last from hlast]
        exact (h.assigned_le hrec).2
      · intro e he q hq hlt hcur
        simp only [Reader.advance] at hlt hcur ⊢
        rw [show ((numberedAfter s.db r.cursor).take n).getLast? = some last from hlast]
          at hcur
        by_cases hold : q ≤ r.cursor
        · exact mem_append_left _ (hr.covered e he q hq hlt hold)
        · apply mem_append_right _
          have hmem : (q, e.id) ∈ numberedAfter s.db r.cursor :=
            mem_numberedAfter.2 ⟨e, he, hq, Nat.lt_of_not_le hold, rfl⟩
          rw [← take_append_drop n (numberedAfter s.db r.cursor)] at hmem
          rcases mem_append.1 hmem with htake | hdrop
          · exact htake
          · -- left out of the page, it would share the last seq of the page
            have hge : last.1 ≤ q := le_of_mem_drop hlastMem hdrop
            have hq' : q = last.1 := Nat.le_antisymm hcur hge
            have hid : e.id = le.id :=
              h.assigned_unique (h.recorded e he q hq) (hq' ▸ hrec)
            have heq : (q, e.id) = last := by
              rw [hq', hid, hleId]
            rw [heq]
            exact hlastMem

/-- **One step keeps the invariant.** -/
theorem Inv.step (h : Inv s) (hstep : step s a = some s') : Inv s' := by
  revert hstep
  fun_cases EventSequencer.step s a
  all_goals intro hstep
  all_goals try cases hstep
  -- a writer begins, queues a row, ends, and order ids are skipped
  case case1 | case2 | case7 | case8 => exact h.of_numbering rfl rfl rfl h.numbering
  next i rows hwriter ids hok => exact h.commitWrite i rows hok.1 hok.2
  -- the statements of a numbering
  · exact h.of_numbering rfl rfl rfl trivial
  · exact h.of_numbering rfl rfl rfl trivial
  · exact h.of_numbering rfl rfl rfl rfl
  next orders assign head hn hrows =>
    have hnum := h.numbering
    rw [hn] at hnum
    exact h.of_numbering rfl rfl rfl ⟨hnum, rowsAffected_eq_length h.ids hrows⟩
  · obtain ⟨batch, hbatch, rfl⟩ := map_eq_some_iff.1 hstep
    obtain ⟨hrows, hbatch⟩ := ite_none_right_eq_some.1 hbatch
    cases hbatch
    exact h.of_numbering rfl rfl rfl ⟨rfl, rowsAffected_eq_length h.ids hrows⟩
  next orders assign head hn =>
    have hnum := h.numbering
    rw [hn] at hnum
    rw [hnum.1]
    exact h.commitNumbering orders assign
  · exact h.of_numbering rfl rfl rfl trivial
  next ids hfree => exact h.prune ids hfree
  next since =>
    refine { h with readers := forall_push h.readers { bound := .inl rfl, covered := ?_ } }
    intro e _ q _ hlt hle
    exact absurd hle (Nat.not_le.2 hlt)
  next i limit r hr =>
    have hadvance := h.advance (h.readers r (mem_of_getElem? hr)) limit
    exact { h with readers := forall_set h.readers hadvance }

theorem inv_of_reaches {s₀ : System} (h : AtRest s₀)
    (hrun : Reaches step Unrestricted s₀ s) : Inv s :=
  Reaches.invariant (fun _ _ _ hinv _ hstep => hinv.step hstep) hrun h.inv

/-! ## What a later state can show below an earlier head -/

/-- What a step does to the head, the record and the numbered rows: it brings none, or commits
the open numbering. -/
theorem step_tables (hstep : step s a = some s') :
    (s'.db.head = s.db.head ∧ s'.assigned = s.assigned ∧
        ∀ e ∈ s'.db.events, e.seq = none ∨ e ∈ s.db.events) ∨
      ∃ orders assign head, s.numbering = some (.updated orders assign head) ∧
        s'.db = commitBatch s.db orders assign head ∧
        s'.assigned = s.assigned ++ assignments assign head := by
  revert hstep
  fun_cases EventSequencer.step s a
  all_goals intro hstep
  all_goals try cases hstep
  all_goals try exact .inl ⟨rfl, rfl, fun _ => .inr⟩
  · refine .inl ⟨rfl, rfl, fun e he => (mem_append.1 he).symm.imp_left fun hnew => ?_⟩
    obtain ⟨id, _, rfl⟩ := mem_map.1 hnew
    rfl
  · obtain ⟨batch, _, rfl⟩ := map_eq_some_iff.1 hstep
    exact .inl ⟨rfl, rfl, fun _ => .inr⟩
  next orders assign head hn => exact .inr ⟨orders, assign, head, hn, rfl, rfl⟩
  · exact .inl ⟨rfl, rfl, fun e he => .inr (mem_filter.1 he).1⟩

theorem assigned_prefix_step (hstep : step s a = some s') : s.assigned <+: s'.assigned := by
  rcases step_tables hstep with ⟨_, h, _⟩ | ⟨_, _, _, _, _, h⟩
  · exact h ▸ prefix_refl _
  · exact h ▸ prefix_append _ _

theorem assigned_prefix {ok : System → Action → Prop}
    (hrun : Reaches step ok s s') : s.assigned <+: s'.assigned :=
  Reaches.respects (R := fun s t => s.assigned <+: t.assigned)
    (fun _ => prefix_refl _) (fun _ _ _ => IsPrefix.trans)
    (fun _ _ _ => assigned_prefix_step) hrun

/-- Everything `t` numbers at or below the head of `s` is a row of `s`. -/
structure Settled (s t : System) : Prop where
  head : s.db.head ≤ t.db.head
  rows : ∀ e ∈ t.db.events, ∀ q, e.seq = some q → q ≤ s.db.head → e ∈ s.db.events

private theorem Settled.step {t t' : System} (hinv : Inv t)
    (h : Settled s t) (hstep : step t a = some t') : Settled s t' := by
  rcases step_tables hstep with ⟨hhead, _, hrows⟩ | ⟨orders, assign, head, hn, hdb, _⟩
  · refine ⟨hhead ▸ h.head, fun e he q hq hle => ?_⟩
    rcases hrows e he with hnone | hold
    · cases hnone.symm.trans hq
    · exact h.rows e hold q hq hle
  · have hnum := hinv.numbering
    rw [hn] at hnum
    obtain ⟨rfl, _, _⟩ := hnum
    refine { head := ?_, rows := ?_ }
    · rw [hdb]
      exact Nat.le_trans h.head (Nat.le_add_right _ _)
    · rw [hdb]
      intro e he q hq hle
      obtain ⟨old, hold, rfl⟩ := mem_map.1 he
      rcases numberRow_seq hq with hseq | ⟨_, rfl⟩
      · have hkeep : numberRow assign t.db.head old = old := by
          simp [numberRow, hseq]
        rw [hkeep]
        exact h.rows old hold q hseq hle
      · have := h.head
        simp only [caseSeq] at hle
        omega

theorem settled_of_reaches {t : System} (h : Inv s)
    (hrun : Reaches step Unrestricted s t) : Settled s t := by
  -- the invariant carries `Inv` along: only with it does a commit number above
  have hboth : Inv t ∧ Settled s t :=
    Reaches.invariant (P := fun u => Inv u ∧ Settled s u)
      (fun _ _ _ hu _ hstep => ⟨hu.1.step hstep, hu.2.step hu.1 hstep⟩) hrun
      ⟨h, { head := Nat.le_refl _, rows := fun _ he _ _ _ => he }⟩
  exact hboth.2

/-- The commit of a numbering hands out seqs above the head of every earlier state, each to the
row of its event. -/
theorem commitNumbering_above {t u : System} (hs : Inv s) (ht : Inv t)
    (hhead : s.db.head ≤ t.db.head) (hstep : step t .commitNumbering = some u) (hp : p ∈ u.assigned)
    (hnew : p ∉ t.assigned) :
    (∀ p' ∈ s.assigned, p'.1 < p.1) ∧
      ({ id := p.2, seq := some p.1 } : EventRow) ∈ u.db.events := by
  simp only [step] at hstep
  split at hstep
  · rename_i orders assign head hn
    cases hstep
    have hnum := ht.numbering
    rw [hn] at hnum
    obtain ⟨rfl, hnodup, hrows⟩ := hnum
    have hbatch : p ∈ assignments assign t.db.head :=
      (mem_append.1 hp).resolve_left hnew
    constructor
    · intro p' hp'
      have hle := (hs.assigned_le hp').2
      have hlt := lt_of_mem_assignments hbatch
      omega
    · have hid : p.2 ∈ assign := (of_mem_zip hbatch).2
      have hseq : caseSeq assign t.db.head p.2 = p.1 := by
        have hkeys : ((assignments assign t.db.head).map Prod.snd).Nodup := by
          rw [assignments, map_snd_zip (by simp)]
          exact hnodup
        have hcase : (caseSeq assign t.db.head p.2, p.2) ∈
            assignments assign t.db.head := caseSeq_mem_assignments hid
        exact congrArg Prod.fst (inj_on_of_nodup_map hkeys hcase hbatch rfl)
      refine mem_map.2 ⟨_, hrows p.2 hid, ?_⟩
      simp [numberRow, hid, hseq]
  · cases hstep

/-- **Change-log cursor safety.** In every interleaving of writers, numberings, retention and
readers: the seqs ever assigned (a record that only grows) are exactly `1..head`, each to one
event, and every numbered row has the seq recorded for it; a later numbering assigns only higher
seqs; and whatever is later shown at or below a reader's cursor, the reader has read. -/
theorem change_log_cursor_safety {s₀ s : System} (h₀ : AtRest s₀)
    (hrun : Reaches step Unrestricted s₀ s) :
    s.assigned.map Prod.fst = range' 1 s.db.head ∧
      (∀ t, Reaches step Unrestricted s t → s.assigned <+: t.assigned) ∧
      (∀ e ∈ s.db.events, ∀ q, e.seq = some q →
        (q, e.id) ∈ s.assigned ∧ ∀ id, (q, id) ∈ s.assigned → id = e.id) ∧
      (∀ t u, Reaches step Unrestricted s t → step t .commitNumbering = some u →
        ∀ p ∈ u.assigned, p ∉ t.assigned →
          (∀ p' ∈ s.assigned, p'.1 < p.1) ∧
            ({ id := p.2, seq := some p.1 } : EventRow) ∈ u.db.events) ∧
      (∀ r ∈ s.readers, ∀ t, Reaches step Unrestricted s t →
        ∀ e ∈ t.db.events, ∀ q, e.seq = some q → r.since < q → q ≤ r.cursor →
          (q, e.id) ∈ r.seen) := by
  have hinv := inv_of_reaches h₀ hrun
  refine ⟨hinv.seqs, fun _ => assigned_prefix, ?_, ?_, ?_⟩
  · intro e he q hq
    have hmem := hinv.recorded e he q hq
    exact ⟨hmem, fun id hid => hinv.assigned_unique hid hmem⟩
  · intro t u hst hstep p hp hnew
    have ht := inv_of_reaches h₀ (hrun.trans hst)
    exact commitNumbering_above hinv ht (settled_of_reaches hinv hst).head hstep hp hnew
  · intro r hr t hst e he q hq hlt hle
    have hrInv := hinv.readers r hr
    have hbound : q ≤ s.db.head := by
      rcases hrInv.bound with heq | hcur
      · omega
      · exact Nat.le_trans hle hcur
    have hrow := (settled_of_reaches hinv hst).rows e he q hq hbound
    exact hrInv.covered e hrow q hq hlt hle

/-- A workspace with one numbered event, whose queue still holds a row of
that event and a row of a deleted one. -/
def resting : System :=
  { db := { events := [⟨"e1", some 1⟩], queue := [⟨3, "e1"⟩, ⟨4, "gone"⟩]
            head := 1, pruned := 0 }
    orderCounter := 4, writers := [], numbering := none, readers := []
    assigned := [(1, "e1")] }

theorem resting_atRest : AtRest resting where
  writers := rfl
  numbering := rfl
  readers := rfl
  ids := by decide
  seqs := by decide
  recorded := by decide

/-- Two writers take their order ids in one order and commit in the other; a
reader reads between the numberings. -/
def lateCommit : List Action :=
  [.openReader 0, .beginWrite ["a"], .beginWrite ["b"], .queueRow 0, .queueRow 1,
   .commitWrite 1, .lockNumbering, .selectBatch, .lockEventHead, .updateEvents,
   .commitNumbering, .readChanges 0 0, .commitWrite 0, .lockNumbering,
   .postgresBatch, .commitNumbering, .readChanges 0 0]

theorem change_log_cursor_safety_lateCommit :
    ∃ s, exec step Unrestricted lateCommit resting = some s ∧
      s.assigned = [(1, "e1"), (2, "b"), (3, "a")] ∧
      s.assigned.map Prod.fst = range' 1 s.db.head := by
  refine ⟨_, rfl, by decide, ?_⟩
  exact (change_log_cursor_safety resting_atRest
    (reaches_of_exec lateCommit resting _ rfl)).1

end Flow.Ports.EventSequencer
