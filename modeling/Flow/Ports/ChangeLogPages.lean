import Flow.Ports.ChangeLog

/-!
# Pages of the change log have no gaps

Retention may leave holes in any pattern, but only at or below the highest seq it
has deleted, and it records that seq.  So above `pruned` every seq up to the head
still has its event, which is the invariant; a cursor from there on continues
without a gap, and a cursor below it is refused.
-/

namespace Flow.Ports.ChangeLog

open List Option Flow.Verified
open Run (Reaches Unrestricted)

def seqs (events : List EventRow) (workspace : String) : List Nat :=
  events.filterMap (EventRow.seqIn workspace)

/-- The events have their seqs once, none above the head, and all those above
`pruned`. -/
structure Dense (db : Database) : Prop where
  ids : (db.events.map EventRow.id).Nodup
  distinct : ∀ workspace, (seqs db.events workspace).Nodup
  le_head : ∀ workspace, ∀ n ∈ seqs db.events workspace, n ≤ db.head workspace
  complete : ∀ workspace n, db.pruned workspace < n → n ≤ db.head workspace →
    n ∈ seqs db.events workspace

theorem dense_empty : Dense Database.empty where
  ids := nodup_nil
  distinct _ := nodup_nil
  le_head _ _ h := nomatch h
  complete _ _ hpos hzero := absurd (Nat.lt_of_lt_of_le hpos hzero) (Nat.lt_irrefl 0)

variable {db db' : Database} {workspace other : String}

@[simp]
theorem head_advance : (db.advance workspace).head workspace = db.head workspace + 1 := by
  unfold Database.advance Database.head
  cases db.counters workspace <;> simp

theorem head_advance_ne (h : other ≠ workspace) :
    (db.advance workspace).head other = db.head other := by
  simp [Database.advance, Database.head, h]

@[simp]
theorem pruned_advance : (db.advance workspace).pruned other = db.pruned other := by
  unfold Database.advance Database.pruned
  by_cases h : other = workspace
  · subst h
    cases db.counters other <;> simp
  · simp [h]

/-- An event of the workspace gets the next seq: by its insertion, or later. -/
theorem Dense.number {events : List EventRow} (h : Dense db) (hids : (events.map EventRow.id).Nodup)
    (hperm : (seqs events workspace).Perm ((db.head workspace + 1) :: seqs db.events workspace))
    (hother : ∀ other ≠ workspace, seqs events other = seqs db.events other) :
    Dense { db.advance workspace with events := events } where
  ids := hids
  distinct other := by
    by_cases hsame : other = workspace
    · subst hsame
      refine hperm.nodup_iff.mpr (nodup_cons.mpr ⟨fun hmem => ?_, h.distinct other⟩)
      exact absurd (h.le_head other _ hmem) (Nat.not_succ_le_self _)
    · exact hother other hsame ▸ h.distinct other
  le_head other n hn := by
    change n ≤ (db.advance workspace).head other
    by_cases hsame : other = workspace
    · subst hsame
      rw [head_advance]
      rcases mem_cons.mp (hperm.mem_iff.mp hn) with rfl | hn
      · exact Nat.le_refl _
      · exact Nat.le_succ_of_le (h.le_head other n hn)
    · rw [head_advance_ne hsame]
      exact h.le_head other n (hother other hsame ▸ hn)
  complete other n hlow hhigh := by
    change (db.advance workspace).pruned other < n at hlow
    change n ≤ (db.advance workspace).head other at hhigh
    rw [pruned_advance] at hlow
    by_cases hsame : other = workspace
    · subst hsame
      rw [head_advance] at hhigh
      apply hperm.mem_iff.mpr
      rcases Nat.lt_or_eq_of_le hhigh with hlt | rfl
      · exact mem_cons_of_mem _ (h.complete other n hlow (Nat.le_of_lt_succ hlt))
      · exact mem_cons_self
    · rw [head_advance_ne hsame] at hhigh
      exact (hother other hsame).symm ▸ h.complete other n hlow hhigh

/-! ## The writes keep the log dense -/

theorem seqs_push (events : List EventRow) (row : EventRow) (workspace : String) :
    seqs (events ++ [row]) workspace = seqs events workspace ++ (row.seqIn workspace).toList := by
  unfold seqs
  cases h : row.seqIn workspace <;> simp [h]

theorem Dense.push {row : EventRow} (h : Dense db)
    (hid : row.id ∉ db.events.map EventRow.id) (hseq : row.seq = none) :
    Dense { db with events := db.events ++ [row] } := by
  have hseqs : ∀ workspace, seqs (db.events ++ [row]) workspace = seqs db.events workspace := by
    intro workspace
    have hnone : row.seqIn workspace = none := by
      unfold EventRow.seqIn
      rw [hseq, ite_self]
    rw [seqs_push, hnone, toList_none, append_nil]
  refine ⟨?_, ?_, ?_, ?_⟩
  · rw [map_append]
    exact nodup_append_comm.mp (nodup_cons.mpr ⟨hid, h.ids⟩)
  · intro workspace
    exact hseqs workspace ▸ h.distinct workspace
  · intro workspace n hn
    exact h.le_head workspace n (hseqs workspace ▸ hn)
  · intro workspace n hlow hhigh
    exact (hseqs workspace).symm ▸ h.complete workspace n hlow hhigh

theorem Dense.insert {event : DomainEvent} {workspaceID actorID : Option String}
    {afterCommit : Bool} (h : Dense db)
    (hstep : db.insertDomainEvent event workspaceID actorID afterCommit = some db') :
    Dense db' := by
  obtain ⟨hid, hstep⟩ := ite_none_left_eq_some.mp hstep
  split at hstep
  · cases hstep
    exact h.push hid rfl
  · next workspace _ =>
      split at hstep
      · cases hstep
        exact h.push hid rfl
      · cases hstep
        apply h.number
        · rw [map_append]
          exact nodup_append_comm.mp (nodup_cons.mpr ⟨hid, h.ids⟩)
        · rw [seqs_push, head_advance]
          simp only [EventRow.seqIn]
          exact perm_append_comm
        · intro other hne
          have hnone : some workspace ≠ some other := fun heq => hne (some.inj heq).symm
          rw [seqs_push]
          simp only [EventRow.seqIn, if_neg hnone, toList_none, append_nil]

theorem Dense.numberEvent {id : String} (h : Dense db)
    (hstep : db.numberEvent id = some db') : Dense db' := by
  obtain ⟨row, hlookup, hstep⟩ := bind_eq_some_iff.mp hstep
  split at hstep
  · next workspace hseq hworkspace =>
      cases hstep
      rw [head_advance]
      let new : EventRow := { row with seq := some (db.head workspace + 1) }
      have hkey : new.id = row.id := rfl
      obtain ⟨front, back, hevents, hreplace⟩ :=
        Table.replace_of_mem h.ids (Table.mem_of_lookup hlookup) hkey
      have hnew : new.seqIn workspace = some (db.head workspace + 1) := if_pos hworkspace
      have hnewOther : ∀ other ≠ workspace, new.seqIn other = none := by
        intro other hne
        refine if_neg fun heq => hne ?_
        exact (some.inj (hworkspace.symm.trans heq)).symm
      have hold : ∀ other, row.seqIn other = none := by
        intro other
        unfold EventRow.seqIn
        rw [hseq, ite_self]
      have hseqs : ∀ other, seqs db.events other = seqs front other ++ seqs back other := by
        intro other
        rw [hevents]
        unfold seqs
        rw [filterMap_append, filterMap_cons_none (hold other)]
      apply h.number
      · rw [Table.map_key_replace]
        exact h.ids
      · rw [hseqs, hreplace]
        unfold seqs
        rw [filterMap_append, filterMap_cons_some hnew]
        exact perm_middle
      · intro other hne
        rw [hseqs, hreplace]
        unfold seqs
        rw [filterMap_append, filterMap_cons_none (hnewOther other hne)]
  · cases hstep

theorem le_prunedThrough {rows : List EventRow} {row : EventRow} {n : Nat} (h : row ∈ rows)
    (hseq : row.seqIn workspace = some n) : n ≤ prunedThrough rows workspace := by
  have hle : ∀ (l : List Nat) (start : Nat), start ≤ l.foldl max start ∧
      ∀ n ∈ l, n ≤ l.foldl max start := by
    intro l
    induction l with
    | nil => exact fun start => ⟨Nat.le_refl start, fun _ hn => nomatch hn⟩
    | cons m rest ih =>
      intro start
      obtain ⟨hstart, hrest⟩ := ih (max start m)
      refine ⟨Nat.le_trans (Nat.le_max_left start m) hstart, fun n hn => ?_⟩
      rcases mem_cons.mp hn with rfl | hn
      · exact Nat.le_trans (Nat.le_max_right start n) hstart
      · exact hrest n hn
  exact (hle _ 0).2 n (mem_filterMap.mpr ⟨row, h, hseq⟩)

theorem Counter.pruned_prune (counter : Counter) (through : Nat) :
    (counter.prune through).pruned = max counter.pruned through := by
  unfold Counter.prune
  split
  · next h => exact (Nat.max_eq_right (Nat.le_of_lt h)).symm
  · next h => exact (Nat.max_eq_left (Nat.le_of_not_lt h)).symm

@[simp]
theorem Counter.head_prune (counter : Counter) (through : Nat) :
    (counter.prune through).head = counter.head := by
  unfold Counter.prune
  split <;> rfl

section Prune

variable {cutoff : String} {minRows : Nat} {rows : List EventRow}

theorem head_of_prune (hstep : db.prune cutoff minRows rows = some db') :
    db'.head workspace = db.head workspace := by
  obtain ⟨_, hstep⟩ := ite_none_right_eq_some.mp hstep
  cases hstep
  unfold Database.head
  cases hcounter : db.counters workspace <;> simp [hcounter]

/-- The mark is at or above where it was and every seq that was deleted. -/
theorem pruned_of_prune (hstep : db.prune cutoff minRows rows = some db')
    (hhead : db.head workspace ≠ 0) :
    db'.pruned workspace = max (db.pruned workspace) (prunedThrough rows workspace) := by
  obtain ⟨_, hstep⟩ := ite_none_right_eq_some.mp hstep
  cases hstep
  unfold Database.head at hhead
  unfold Database.pruned
  cases hcounter : db.counters workspace with
  | none => simp [hcounter] at hhead
  | some counter => simp [hcounter, Counter.pruned_prune]

theorem mem_of_prune (h : Dense db) (hstep : db.prune cutoff minRows rows = some db')
    {row : EventRow} {n : Nat} (hrow : row ∈ db.events)
    (hseq : row.seqIn workspace = some n) (hn : prunedThrough rows workspace < n) :
    row ∈ db'.events := by
  obtain ⟨⟨_, hrows, _, _⟩, hstep⟩ := ite_none_right_eq_some.mp hstep
  cases hstep
  refine mem_filter.mpr ⟨hrow, decide_eq_true fun hid => ?_⟩
  obtain ⟨deleted, hdeleted, hsame⟩ := mem_map.mp hid
  have heq : deleted = row :=
    inj_on_of_nodup_map h.ids (hrows deleted hdeleted).1 hrow hsame
  exact absurd (le_prunedThrough (heq ▸ hdeleted) hseq) (Nat.not_le_of_lt hn)

theorem sublist_of_prune (hstep : db.prune cutoff minRows rows = some db') :
    db'.events.Sublist db.events := by
  obtain ⟨_, hstep⟩ := ite_none_right_eq_some.mp hstep
  cases hstep
  exact filter_sublist

theorem Dense.prune (h : Dense db) (hstep : db.prune cutoff minRows rows = some db') :
    Dense db' := by
  have hsub := sublist_of_prune hstep
  refine ⟨?_, ?_, ?_, ?_⟩
  · exact h.ids.sublist (hsub.map _)
  · exact fun workspace => (h.distinct workspace).sublist (hsub.filterMap _)
  · intro workspace n hn
    rw [head_of_prune hstep]
    exact h.le_head workspace n ((hsub.filterMap _).subset hn)
  · intro workspace n hlow hhigh
    rw [head_of_prune hstep] at hhigh
    rw [pruned_of_prune hstep (Nat.ne_of_gt (Nat.lt_of_lt_of_le (Nat.zero_lt_of_lt hlow) hhigh))]
      at hlow
    obtain ⟨hmark, hthrough⟩ := Nat.max_lt.mp hlow
    obtain ⟨row, hrow, hseq⟩ := mem_filterMap.mp (h.complete workspace n hmark hhigh)
    exact mem_filterMap.mpr ⟨row, mem_of_prune h hstep hrow hseq hthrough, hseq⟩

end Prune

/-- **Every write keeps the log dense.** -/
theorem Dense.step {l : Label} (h : Dense db) (hstep : step db l = some db') : Dense db' := by
  cases l with
  | insert event workspaceID actorID afterCommit => exact h.insert hstep
  | number id => exact h.numberEvent hstep
  | prune cutoff minRows rows => exact h.prune hstep

theorem dense_of_reaches (hrun : Reaches step Unrestricted Database.empty db) : Dense db :=
  hrun.invariant (P := Dense) (fun _ _ _ h _ hstep => h.step hstep) dense_empty

/-! ## Pages -/

variable {since limit : Nat}

def recordsAfter (db : Database) (workspace : String) (since : Nat) : List ChangeRecord :=
  Keyset.inOrder ChangeRecord.seq
    ((db.events.filterMap (EventRow.record workspace)).filter (since < ·.seq))

theorem mem_recordsAfter {record : ChangeRecord} : record ∈ recordsAfter db workspace since ↔
      (∃ row ∈ db.events, row.record workspace = some record) ∧ since < record.seq := by
  unfold recordsAfter
  rw [(Keyset.perm_inOrder _ _).mem_iff, mem_filter, mem_filterMap,
    decide_eq_true_iff]

theorem map_seq_filterMap_record (events : List EventRow) (workspace : String) :
    (events.filterMap (EventRow.record workspace)).map ChangeRecord.seq =
      seqs events workspace := by
  rw [List.map_filterMap]
  refine List.filterMap_congr fun row _ => ?_
  unfold EventRow.record
  rw [Option.map_map]
  exact Option.map_id_fun' ▸ rfl

/-- From the mark on, the records after a cursor have every seq up to the head. -/
theorem map_seq_recordsAfter (h : Dense db) (hpruned : db.pruned workspace ≤ since)
    (hhead : since ≤ db.head workspace) :
    (recordsAfter db workspace since).map ChangeRecord.seq =
      range' (since + 1) (db.head workspace - since) := by
  have hseqs := map_seq_filterMap_record db.events workspace
  refine Keyset.map_inOrder_eq_range' ?_ fun n => ?_
  · exact (hseqs ▸ h.distinct workspace).sublist (filter_sublist.map _)
  · have hmem : n ∈ ((db.events.filterMap (EventRow.record workspace)).filter
        (since < ·.seq)).map ChangeRecord.seq ↔ n ∈ seqs db.events workspace ∧ since < n := by
      rw [← hseqs]
      simp only [List.mem_map, List.mem_filter, decide_eq_true_eq]
      constructor
      · rintro ⟨record, ⟨hrecord, hlt⟩, rfl⟩
        exact ⟨⟨record, hrecord, rfl⟩, hlt⟩
      · rintro ⟨⟨record, hrecord, rfl⟩, hlt⟩
        exact ⟨record, ⟨hrecord, hlt⟩, rfl⟩
    rw [hmem]
    constructor
    · rintro ⟨hn, hlt⟩
      have := h.le_head workspace n hn
      omega
    · intro hn
      exact ⟨h.complete workspace n (by omega) (by omega), by omega⟩

theorem contiguous_take (h : Dense db) (hpruned : db.pruned workspace ≤ since)
    (hhead : since ≤ db.head workspace) (resync : Bool) :
    Contiguous db workspace since limit
      { records := ((recordsAfter db workspace since).take (limit + 1)).take limit
        head := db.head workspace
        hasMore := limit < ((recordsAfter db workspace since).take (limit + 1)).length
        resyncRequired := resync } := by
  have hseqs := map_seq_recordsAfter h hpruned hhead
  have htake : ((recordsAfter db workspace since).take (limit + 1)).take limit =
      (recordsAfter db workspace since).take limit := by
    rw [take_take, Nat.min_eq_left (Nat.le_succ limit)]
  have hlength : (recordsAfter db workspace since).length = db.head workspace - since := by
    rw [← length_map (f := ChangeRecord.seq), hseqs, length_range']
  rw [htake]
  refine ⟨?_, ?_, ?_, ?_⟩
  · rw [map_take, hseqs, Keyset.take_range']
  · intro record hrecord
    exact (mem_recordsAfter.mp (mem_of_mem_take hrecord)).1
  · intro row hrow record hrecord hlow hhigh
    obtain ⟨i, hi, hget⟩ :=
      mem_iff_getElem.mp (mem_recordsAfter.mpr ⟨⟨row, hrow, hrecord⟩, hlow⟩)
    have hseq : record.seq = since + 1 + i := by
      have hmap : ((recordsAfter db workspace since).map ChangeRecord.seq)[i]? =
          some record.seq := by
        rw [getElem?_map, getElem?_eq_getElem hi, hget]
        rfl
      rw [hseqs, getElem?_range' (by omega)] at hmap
      have := some.inj hmap
      omega
    rw [← hget]
    exact mem_take_iff_getElem.mpr ⟨i, by omega, rfl⟩
  · simp only [length_take, decide_eq_true_eq]
    omega

theorem workspaceChanges_of_continues {limit : Int} (hlimit : 0 < limit)
    (hpruned : db.pruned workspace ≤ since) (hhead : since ≤ db.head workspace) :
    workspaceChanges db workspace since limit =
      { records := ((recordsAfter db workspace since).take (limit.toNat + 1)).take limit.toNat
        head := db.head workspace
        hasMore := limit.toNat < ((recordsAfter db workspace since).take
          (limit.toNat + 1)).length
        resyncRequired := false } := by
  have hin : ¬ ((since : Int) < 0 ∨ (since : Int) > db.head workspace ∨
      (since : Int) < db.pruned workspace) := by omega
  have hafter : (db.events.filterMap (EventRow.record workspace)).filter
      (fun record => (since : Int) < record.seq) =
        (db.events.filterMap (EventRow.record workspace)).filter (since < ·.seq) :=
    filter_congr fun record _ => decide_eq_decide.mpr Int.ofNat_lt
  unfold workspaceChanges recordsAfter
  simp only [if_neg (Int.not_le.mpr hlimit)]
  rw [if_neg hin, hafter]

/-- **Pages have no gaps.** After any writes and any retention, a cursor is refused exactly when
it is negative, above the head or below the mark of retention, and a page from any other cursor
has the events with the next seqs. -/
theorem pages_contiguous_of_reaches (hrun : Reaches step Unrestricted Database.empty db)
    (workspace : String) (since limit : Int) (hlimit : 0 < limit) :
    ((workspaceChanges db workspace since limit).resyncRequired = true ↔
      since < 0 ∨ db.head workspace < since ∨ since < db.pruned workspace) ∧
    ((workspaceChanges db workspace since limit).resyncRequired = false →
      Contiguous db workspace since.toNat limit.toNat
        (workspaceChanges db workspace since limit)) := by
  by_cases hout : since < 0 ∨ db.head workspace < since ∨ since < db.pruned workspace
  · have hpage : (workspaceChanges db workspace since limit).resyncRequired = true := by
      unfold workspaceChanges
      rw [if_pos hout]
    refine ⟨iff_of_true hpage hout, fun hfalse => ?_⟩
    rw [hpage] at hfalse
    cases hfalse
  · have hnonneg : 0 ≤ since := by omega
    obtain ⟨since, rfl⟩ := Int.eq_ofNat_of_zero_le hnonneg
    have hpruned : db.pruned workspace ≤ since := by omega
    have hhead : since ≤ db.head workspace := by omega
    rw [workspaceChanges_of_continues hlimit hpruned hhead]
    refine ⟨iff_of_false nofun hout, fun _ => ?_⟩
    exact contiguous_take (dense_of_reaches hrun) hpruned hhead false

def plainEvent (id createdAt : String) : DomainEvent :=
  { id := id, type := "issue.updated", aggregateID := "i", payload := "", createdAt := createdAt }

/-- The second event is older than the first and the only one that a batch
deletes; the seqs 1 and 3 stay, and a page after 2 has the third event. -/
theorem pages_contiguous_after_prune :
    ∃ db, (Reaches step Unrestricted Database.empty db ∧
      (workspaceChanges db "w" 2 5).resyncRequired = false ∧
      seqs db.events "w" = [1, 3] ∧ db.pruned "w" = 2) ∧ (0 : Int) < 5 ∧
      Contiguous db "w" 2 5 (workspaceChanges db "w" 2 5) := by
  refine (exists_congr fun _ => and_assoc).mpr <| Run.exists_reaches_and
    [.insert (plainEvent "a" "2026-02") (some "w") none false,
      .insert (plainEvent "b" "2026-01") (some "w") none false,
      .prune "2026-02" 0
        [{ event := plainEvent "b" "2026-01", workspaceID := some "w", seq := some 2,
           actorID := none }],
      .insert (plainEvent "c" "2026-03") (some "w") none true, .number "c"] Database.empty
    (by decide +kernel) fun db hrun hpage => ?_
  exact ⟨by decide, (pages_contiguous_of_reaches hrun "w" 2 5 (by decide)).2 hpage.1⟩

end Flow.Ports.ChangeLog
