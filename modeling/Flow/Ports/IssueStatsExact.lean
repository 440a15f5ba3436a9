import Flow.Ports.IssueStats
import Flow.Verified.Slots

/-!
# The issue counters are exact

The deltas of a write are sound when they are what the write changed in the
counts of the rows.  A batch computes its deltas from the rows at its start, so
an issue it names twice leaves its old counters twice; a full synchronisation
does so for each slice of 64 (`counted_twice`).
-/

namespace Flow.Ports.IssueStats

open List Option Flow.Verified
open Run (Reaches)

/-! ## Counting rows -/

def weight (d : Option Dimensions) (k : StatsKey) : Int :=
  match d with
  | none => 0
  | some d => if d.key k.scope = k then 1 else 0

def rowsWith (records : List Row) (k : StatsKey) : Int :=
  (records.countP fun row => row.columns.key k.scope = k : Nat)

theorem key_eq_iff (d : Dimensions) (scope : Scope) (k : StatsKey) :
    d.key scope = k ↔ scope = k.scope ∧ d.key k.scope = k := by
  constructor
  · rintro rfl
    exact ⟨rfl, rfl⟩
  · rintro ⟨rfl, h⟩
    exact h

@[simp] theorem total_addIssueStats (deltas : Deltas) (d : Option Dimensions) (delta : Int)
    (k : StatsKey) :
    Tally.total (addIssueStats deltas d delta) k = Tally.total deltas k + delta * weight d k := by
  cases d with
  | none => simp [addIssueStats, weight]
  | some d =>
    have hone : ∀ scope, (if d.key scope = k then delta else 0) =
        if scope = k.scope then delta * weight (some d) k else 0 := by
      intro scope
      simp only [weight]
      by_cases hscope : scope = k.scope
      · subst hscope
        by_cases hk : d.key k.scope = k <;> simp
      · have hk : d.key scope ≠ k := fun h => hscope ((key_eq_iff d scope k).1 h).1
        simp [hscope, hk]
    simp only [addIssueStats, foldl_cons, foldl_nil, Tally.total_bump, hone]
    -- exactly one of the four scopes is the counter's
    cases k.scope <;> simp

theorem rowsWith_eq_sum (records : List Row) (k : StatsKey) :
    rowsWith records k = (records.map fun row => weight (some row.columns) k).sum := by
  unfold rowsWith
  rw [Tally.countP_eq_sum]
  simp [weight]

theorem rowsWith_append (records : List Row) (row : Row) (k : StatsKey) :
    rowsWith (records ++ [row]) k = rowsWith records k + weight (some row.columns) k := by
  simp [rowsWith_eq_sum]

theorem rowsWith_partition (records : List Row) (p : Row → Bool) (k : StatsKey) :
    rowsWith records k =
      rowsWith (records.filter p) k + rowsWith (records.filter fun row => !p row) k := by
  unfold rowsWith
  rw [countP_eq_countP_filter_add records _ p]
  rfl

variable {records : List Row} {old : String → Option Issue} {issue : Issue} {id : String}
  {row : Row} {issues : List Issue} {begun : Deltas} {batch : Batch}
  {loaded previous : List (String × Issue)} {refs : References} {base : RecordBase} {db : Db}

theorem rowsWith_replace {old new : Row} (hnodup : (records.map Row.id).Nodup)
    (h : readRow records new.id = some old) (k : StatsKey) :
    rowsWith (Table.replace Row.id records new) k =
      rowsWith records k + weight (some new.columns) k - weight (some old.columns) k := by
  have hcount := Table.countP_replace (fun row : Row => row.columns.key k.scope = k) hnodup h
  have hweight : ∀ row : Row, weight (some row.columns) k =
      ((if decide (row.columns.key k.scope = k) = true then 1 else 0 : Nat) : Int) := by
    intro row
    by_cases hk : row.columns.key k.scope = k <;> simp [weight]
  rw [hweight, hweight]
  unfold rowsWith
  omega

theorem rowsWith_deleteRow (hnodup : (records.map Row.id).Nodup) (id : String) (k : StatsKey) :
    rowsWith (deleteRow records id) k =
      rowsWith records k - weight ((readRow records id).map Row.columns) k := by
  have hkept : deleteRow records id = records.filter fun row => !decide (row.id = id) := by
    simp [deleteRow]
  have hgone : rowsWith (records.filter fun row => row.id = id) k =
      weight ((readRow records id).map Row.columns) k := by
    rw [rowsWith_eq_sum, Table.filter_key_eq hnodup]
    show _ = weight ((Table.lookup Row.id records id).map Row.columns) k
    cases Table.lookup Row.id records id <;> simp [weight]
  have hall := rowsWith_partition records (fun row => decide (row.id = id)) k
  rw [hkept, hall]
  omega

/-- The rows of the table: one for each id, with the dimensions of their
payload as columns. -/
structure Stored (records : List Row) : Prop where
  nodup : (records.map Row.id).Nodup
  agrees : ∀ row ∈ records, issueStatsOf row.data = row.columns

/-- The ids of an issue that are counted hold no NUL. -/
def Issue.keepsIds (issue : Issue) : Bool :=
  [issue.team.id, issue.state.id, issue.state.type, (issue.project.map Named.id).getD "",
    (issue.assignee.map Named.id).getD ""].all fun text => '\x00' ∉ text.toList

theorem stripNUL_of_not_mem {text : String} (h : '\x00' ∉ text.toList) : stripNUL text = text := by
  unfold stripNUL
  rw [filter_eq_self.2]
  · exact String.ofList_toList
  · intro ch hch
    have hne : ch ≠ '\x00' := fun heq => h (heq ▸ hch)
    simpa using hne

theorem map_stripped_id {ref : Option Named} (h : '\x00' ∉ ((ref.map Named.id).getD "").toList) :
    ((ref.map Named.stripped).map Named.id).getD "" = (ref.map Named.id).getD "" := by
  cases ref with
  | none => rfl
  | some ref => exact stripNUL_of_not_mem h

theorem issueStatsOf_payload (h : issue.keepsIds) :
    issueStatsOf issue.payload = issueStatsOf issue := by
  simp only [Issue.keepsIds, all_cons, all_nil, Bool.and_true, Bool.and_eq_true,
    decide_eq_true_eq] at h
  obtain ⟨hteam, hstate, htype, hproject, hassignee⟩ := h
  unfold issueStatsOf
  congr 1
  · exact stripNUL_of_not_mem hteam
  · exact map_stripped_id hproject
  · exact map_stripped_id hassignee
  · exact stripNUL_of_not_mem hstate
  · exact stripNUL_of_not_mem htype

theorem Stored.readData_dimensions (h : Stored records) (id : String) :
    (readData records id).map issueStatsOf = (readRow records id).map Row.columns := by
  unfold readData
  cases hread : readRow records id with
  | none => rfl
  | some row => exact congrArg some (h.agrees row (Table.mem_of_lookup hread))

theorem Stored.filter (h : Stored records) (p : Row → Bool) : Stored (records.filter p) :=
  ⟨h.nodup.sublist ((filter_sublist (l := records)).map Row.id),
    fun row hrow => h.agrees row (mem_filter.1 hrow).1⟩

theorem Stored.deleteRow (h : Stored records) (id : String) : Stored (deleteRow records id) :=
  h.filter _

theorem readRow_deleteRow_ne {other : String} (hne : other ≠ id) :
    readRow (deleteRow records id) other = readRow records other := by
  unfold readRow Table.lookup deleteRow
  rw [find?_filter]
  congr 1
  funext row
  by_cases hrow : row.id = other
  · simp [hrow, hne]
  · simp [hrow]

/-! ## Writing rows -/

/-- What an issue changes in a counter when it is written over the payload of
its id. -/
def netChange (old : String → Option Issue) (k : StatsKey) (issue : Issue) : Int :=
  weight (some (issueStatsOf issue)) k - weight ((old issue.id).map issueStatsOf) k

theorem readRow_replace_ne (hne : id ≠ row.id) :
    readRow (Table.replace Row.id records row) id = readRow records id := by
  cases hread : readRow records id with
  | some old =>
    unfold readRow at hread ⊢
    rw [Table.lookup_replace hread, if_neg hne]
  | none =>
    unfold readRow Table.lookup at hread ⊢
    rw [find?_eq_none] at hread ⊢
    intro new hnew
    obtain ⟨old, hold, rfl⟩ := mem_map.1 hnew
    split
    · simpa using Ne.symm hne
    · exact hread old hold

/-- One row written: the rows stay well formed, the other ids keep theirs, and
the counts change by the issue. -/
theorem upsertRow_spec {records' : List Row} (hs : Stored records) (hids : issue.keepsIds)
    (h : upsertRow records (issueRecordValues issue) = some records') :
    Stored records' ∧ (∀ id ≠ issue.id, readRow records' id = readRow records id) ∧
      ∀ k, rowsWith records' k = rowsWith records k + netChange (readData records) k issue := by
  unfold upsertRow at h
  split at h
  · cases h
  have hagrees : issueStatsOf (issueRecordValues issue).data = (issueRecordValues issue).columns :=
    issueStatsOf_payload hids
  have hchange : ∀ k, netChange (readData records) k issue =
      weight (some (issueRecordValues issue).columns) k -
        weight ((readRow records issue.id).map Row.columns) k := by
    intro k
    rw [← hs.readData_dimensions]
    rfl
  split at h
  · rename_i hsome
    obtain ⟨old, hold⟩ := isSome_iff_exists.1 hsome
    cases h
    refine ⟨⟨by rw [Table.map_key_replace]; exact hs.nodup, ?_⟩,
      fun id hne => readRow_replace_ne hne, ?_⟩
    · intro row hrow
      obtain ⟨prior, hprior, rfl⟩ := mem_map.1 hrow
      split
      · exact hagrees
      · exact hs.agrees prior hprior
    · intro k
      have hold' : readRow records issue.id = some old := hold
      rw [rowsWith_replace hs.nodup hold, hchange, hold']
      simp only [map_some]
      omega
  · rename_i hnone
    have hread : readRow records (issueRecordValues issue).id = none := by
      simpa using hnone
    replace hread : readRow records issue.id = none := hread
    have hfresh : ∀ row ∈ records, row.id ≠ issue.id := Table.ne_of_lookup_eq_none hread
    cases h
    refine ⟨⟨?_, ?_⟩, fun id hne => Table.lookup_append_singleton_ne (Ne.symm hne), ?_⟩
    · refine Slots.nodup_push hs.nodup fun hmem => ?_
      obtain ⟨row, hrow, heq⟩ := mem_map.1 hmem
      exact hfresh row hrow heq
    · exact Slots.forall_push hs.agrees hagrees
    · intro k
      rw [rowsWith_append, hchange, hread]
      simp [weight]

theorem importIssueRecordBatch_spec {records' : List Row} (hs : Stored records)
    (hnodup : (issues.map Issue.id).Nodup) (hids : ∀ issue ∈ issues, issue.keepsIds)
    (h : importIssueRecordBatch records issues = some records') :
    Stored records' ∧ ∀ k, rowsWith records' k =
        rowsWith records k + (issues.map (netChange (readData records) k)).sum := by
  induction issues generalizing records with
  | nil =>
    cases h
    exact ⟨hs, fun k => by simp⟩
  | cons issue rest ih =>
    rw [map_cons, nodup_cons] at hnodup
    obtain ⟨middle, hfirst, hrest⟩ := bind_eq_some_iff.1 h
    obtain ⟨hmiddle, hframe, hcount⟩ :=
      upsertRow_spec hs (hids issue mem_cons_self) hfirst
    obtain ⟨hend, hsum⟩ := ih hmiddle hnodup.2
      (fun other hother => hids other (mem_cons_of_mem _ hother)) hrest
    refine ⟨hend, fun k => ?_⟩
    -- the rest of the batch has other ids, so it finds the payloads it had
    have hsame : rest.map (netChange (readData middle) k) =
        rest.map (netChange (readData records) k) := by
      apply map_congr_left
      intro other hother
      have hne : other.id ≠ issue.id :=
        fun heq => hnodup.1 (heq ▸ mem_map_of_mem hother)
      simp [netChange, readData, hframe other.id hne]
    rw [hsum k, hsame, hcount k, map_cons, sum_cons]
    omega

/-! ## What a transaction has queued

`Tx.Owes` relates the rows a transaction started from, the rows it sees and its
deltas: they are what it changed. -/

/-- The queued deltas are what the transaction changed in the counts of the
rows. -/
structure Tx.Owes (start : List Row) (tx : Tx) : Prop where
  stored : Stored tx.records
  owed : ∀ k, Tally.total tx.pending k = rowsWith tx.records k - rowsWith start k

theorem Tx.Owes.write {start : List Row} {tx : Tx} {deltas : Deltas} (h : tx.Owes start)
    (hstored : Stored records)
    (hdeltas : ∀ k, Tally.total deltas k = rowsWith records k - rowsWith tx.records k) :
    ({ writeIssueStats tx deltas with records } : Tx).Owes start := by
  refine ⟨hstored, fun k => ?_⟩
  show Tally.total (Tally.merge tx.pending deltas) k = rowsWith records k - rowsWith start k
  rw [Tally.total_merge, h.owed k, hdeltas k]
  omega

variable {start : List Row} {tx tx' : Tx}

theorem writeIssueRecord_owes {metadata : Option References} (h : tx.Owes start)
    (hids : issue.keepsIds) (hw : writeIssueRecord tx issue metadata = some tx') :
    tx'.Owes start := by
  unfold writeIssueRecord at hw
  simp only at hw
  split at hw
  · cases hw
    exact h
  split at hw
  · cases hw
    exact h
  obtain ⟨records, hrecords, hend⟩ := bind_eq_some_iff.1 hw
  cases hend
  obtain ⟨hstored, -, hcount⟩ := upsertRow_spec h.stored hids hrecords
  refine h.write hstored fun k => ?_
  rw [hcount k]
  simp only [total_addIssueStats, Tally.total, netChange]
  omega

/-! ## Batches -/

def Batch.Sums (old : String → Option Issue) (begun : Deltas) (batch : Batch) : Prop :=
  ∀ k, Tally.total batch.deltas k =
    Tally.total begun k + (batch.changed.map (netChange old k)).sum

theorem Batch.Sums.change (h : batch.Sums old begun) (issue : Issue) :
    (batch.change (old issue.id) issue).Sums old begun := by
  intro k
  simp only [Batch.change, total_addIssueStats, h k, map_append, map_cons, map_nil,
    sum_append, sum_cons, sum_nil, netChange]
  omega

theorem batchIssue_sums (refs : References) (h : batch.Sums old begun) (issue : Issue) :
    (batchIssue refs old batch issue).Sums old begun := by
  unfold batchIssue
  split
  · exact h
  · exact h.change issue

theorem batchIssue_changed (refs : References) (old : String → Option Issue) (batch : Batch)
    (issue : Issue) : ∃ more, more.Sublist [issue] ∧
      (batchIssue refs old batch issue).changed = batch.changed ++ more := by
  unfold batchIssue
  split
  · exact ⟨[], nil_sublist _, (append_nil _).symm⟩
  · exact ⟨[issue], Sublist.refl _, rfl⟩

theorem foldl_batchIssue (refs : References) (h : batch.Sums old begun) (issues : List Issue) :
    (issues.foldl (batchIssue refs old) batch).Sums old begun ∧ ∃ more, more.Sublist issues ∧
        (issues.foldl (batchIssue refs old) batch).changed = batch.changed ++ more := by
  induction issues generalizing batch with
  | nil => exact ⟨h, [], Sublist.refl _, (append_nil _).symm⟩
  | cons issue rest ih =>
    obtain ⟨first, hfirst, hchanged⟩ := batchIssue_changed refs old batch issue
    obtain ⟨hsums, more, hmore, hrest⟩ := ih (batchIssue_sums refs h issue)
    refine ⟨hsums, first ++ more, hfirst.append hmore, ?_⟩
    rw [foldl_cons, hrest, hchanged, append_assoc]

theorem lookup_of_locked {raw : Issue} (h : locked records loaded)
    (hlookup : loaded.lookup id = some raw) : readData records id = some raw := by
  unfold locked at h
  rw [Bool.and_eq_true, List.all_eq_true] at h
  have hmem : (id, raw) ∈ loaded := by
    obtain ⟨before, after, hsplit, -⟩ := List.lookup_eq_some_iff.1 hlookup
    rw [hsplit]
    simp
  simpa using h.2 _ hmem

theorem batchPrevious_of_locked (h : locked records previous) :
    batchPrevious records previous = readData records := by
  funext id
  unfold batchPrevious
  split
  · rename_i raw hlookup
    exact (lookup_of_locked h hlookup).symm
  · rfl

theorem writeIssueRecordBatch_owes (h : tx.Owes start) (hlocked : locked tx.records previous)
    (hnodup : (issues.map Issue.id).Nodup) (hids : ∀ issue ∈ issues, issue.keepsIds)
    (hw : writeIssueRecordBatch tx issues refs previous = some tx') : tx'.Owes start := by
  unfold writeIssueRecordBatch at hw
  simp only [batchPrevious_of_locked hlocked] at hw
  have hempty : (⟨[], []⟩ : Batch).Sums (readData tx.records) [] := fun k => by simp
  obtain ⟨hsums, more, hmore, hchanged⟩ := foldl_batchIssue refs hempty issues
  rw [nil_append] at hchanged
  split at hw
  · cases hw
    exact h
  obtain ⟨records, hrecords, hend⟩ := bind_eq_some_iff.1 hw
  cases hend
  rw [hchanged] at hrecords
  obtain ⟨hstored, hcount⟩ := importIssueRecordBatch_spec h.stored
    (hnodup.sublist (hmore.map Issue.id)) (fun issue hissue => hids issue (hmore.subset hissue))
    hrecords
  refine h.write hstored fun k => ?_
  rw [hsums k, hchanged, hcount k]
  simp only [Tally.total]
  omega

/-! ## Full synchronisation -/

/-- The deltas of the loop are what it changed in the counts of the rows. -/
structure Sync.Owes (start : List Row) (sync : Sync) : Prop where
  stored : Stored sync.records
  owed : ∀ k, Tally.total sync.deltas k = rowsWith sync.records k - rowsWith start k

theorem syncIssue_cases {acc acc' : Batch × List String}
    (h : syncIssue refs base records acc issue = some acc') :
    acc'.1 = acc.1 ∨ acc'.1 = batchIssue refs (readData records) acc.1 issue := by
  unfold syncIssue at h
  simp only at h
  split at h
  · split at h
    · cases h
      exact .inl rfl
    · cases h
  · cases h
    exact .inr rfl

theorem foldlM_syncIssue {acc acc' : Batch × List String}
    (hsums : acc.1.Sums (readData records) begun)
    (h : issues.foldlM (syncIssue refs base records) acc = some acc') :
    acc'.1.Sums (readData records) begun ∧
      ∃ more, more.Sublist issues ∧ acc'.1.changed = acc.1.changed ++ more := by
  induction issues generalizing acc with
  | nil =>
    cases h
    exact ⟨hsums, [], Sublist.refl _, (append_nil _).symm⟩
  | cons issue rest ih =>
    obtain ⟨middle, hfirst, hrest⟩ := bind_eq_some_iff.1 h
    rcases syncIssue_cases hfirst with hsame | hbatch
    · obtain ⟨hend, more, hmore, hchanged⟩ := ih (hsame ▸ hsums) hrest
      exact ⟨hend, more, hmore.trans (sublist_cons_self _ _), hsame ▸ hchanged⟩
    · obtain ⟨first, hfirst', hone⟩ := batchIssue_changed refs (readData records) acc.1 issue
      obtain ⟨hend, more, hmore, hchanged⟩ :=
        ih (hbatch ▸ batchIssue_sums refs hsums issue) hrest
      refine ⟨hend, first ++ more, hfirst'.append hmore, ?_⟩
      rw [hchanged, hbatch, hone, append_assoc]

theorem syncSlice_owes {sync sync' : Sync} {slice : List Issue} (h : sync.Owes start)
    (hnodup : (slice.map Issue.id).Nodup) (hids : ∀ issue ∈ slice, issue.keepsIds)
    (hslice : syncSlice refs base sync slice = some sync') : sync'.Owes start := by
  obtain ⟨⟨batch, previous⟩, hbatch, hrest⟩ := bind_eq_some_iff.1 hslice
  obtain ⟨records, hrecords, hend⟩ := bind_eq_some_iff.1 hrest
  cases hend
  have hempty : (⟨sync.deltas, []⟩ : Batch).Sums (readData sync.records) sync.deltas :=
    fun k => by simp
  obtain ⟨hsums, more, hmore, hchanged⟩ := foldlM_syncIssue hempty hbatch
  rw [nil_append] at hchanged
  rw [hchanged] at hrecords
  obtain ⟨hstored, hcount⟩ := importIssueRecordBatch_spec h.stored
    (hnodup.sublist (hmore.map Issue.id)) (fun issue hissue => hids issue (hmore.subset hissue))
    hrecords
  refine ⟨hstored, fun k => ?_⟩
  rw [hsums k, hchanged, hcount k, h.owed k]
  omega

theorem syncMissing_owes {sync sync' : Sync} (h : sync.Owes start)
    (hmissing : syncMissing base sync id = some sync') : sync'.Owes start := by
  have hremove : Sync.Owes start
      { sync with
        records := deleteRow sync.records id
        deltas := addIssueStats sync.deltas ((readRow sync.records id).map Row.columns) (-1) } := by
    refine ⟨h.stored.deleteRow id, fun k => ?_⟩
    simp only [total_addIssueStats, rowsWith_deleteRow h.stored.nodup, h.owed k]
    omega
  unfold syncMissing at hmissing
  split at hmissing
  · cases hmissing
    exact hremove
  split at hmissing
  · cases hmissing
    exact h
  split at hmissing
  · cases hmissing
    exact hremove
  · cases hmissing

/-- What every step of a loop keeps holds at its end. -/
theorem foldlM_keeps {σ τ : Type} {f : σ → τ → Option σ} {items : List τ} {P : σ → Prop} {s t : σ}
    (h : P s) (hstep : ∀ item ∈ items, ∀ s t, P s → f s item = some t → P t)
    (hfold : items.foldlM f s = some t) : P t := by
  induction items generalizing s with
  | nil =>
    cases hfold
    exact h
  | cons item rest ih =>
    obtain ⟨middle, hfirst, hrest⟩ := bind_eq_some_iff.1 hfold
    exact ih (hstep item mem_cons_self _ _ h hfirst)
      (fun other hother => hstep other (mem_cons_of_mem _ hother)) hrest

theorem replaceIssueRecords_owes (h : tx.Owes start)
    (hnodup : ∀ slice ∈ issues.toChunks 64, (slice.map Issue.id).Nodup)
    (hids : ∀ slice ∈ issues.toChunks 64, ∀ issue ∈ slice, issue.keepsIds)
    (hw : replaceIssueRecords tx issues refs base = some tx') : tx'.Owes start := by
  obtain ⟨middle, hslices, hrest⟩ := bind_eq_some_iff.1 hw
  obtain ⟨last, hmissing, hend⟩ := bind_eq_some_iff.1 hrest
  cases hend
  have hbegin : Sync.Owes tx.records ⟨tx.records, [], tx.records.map Row.id⟩ :=
    ⟨h.stored, fun k => by simp [Tally.total]⟩
  have hmiddle : middle.Owes tx.records := foldlM_keeps hbegin
    (fun slice hslice s s' hs => syncSlice_owes hs (hnodup slice hslice) (hids slice hslice))
    hslices
  have hlast : last.Owes tx.records :=
    foldlM_keeps hmiddle (fun id _ s s' hs => syncMissing_owes hs) hmissing
  exact h.write hlast.stored hlast.owed

/-! ## Removals -/

theorem locked_iff : locked records loaded ↔ (loaded.map Prod.fst).Nodup ∧
      ∀ entry ∈ loaded, readData records entry.1 = some entry.2 := by
  simp [locked]

theorem removeIssues_owes {remaining : List String} (h : tx.Owes start)
    (hlocked : locked tx.records loaded) :
    (removeIssues tx loaded remaining).Owes start := by
  induction loaded generalizing tx with
  | nil => exact h
  | cons entry rest ih =>
    rw [locked_iff, map_cons, nodup_cons] at hlocked
    obtain ⟨⟨hfresh, hnodup⟩, hread⟩ := hlocked
    have hrest : ∀ other ∈ rest, readData tx.records other.1 = some other.2 :=
      fun other hother => hread other (mem_cons_of_mem _ hother)
    unfold removeIssues at ih ⊢
    rw [foldl_cons]
    split
    · exact ih h (locked_iff.2 ⟨hnodup, hrest⟩)
    · apply ih
      · refine h.write (h.stored.deleteRow entry.1) fun k => ?_
        have hdims := h.stored.readData_dimensions entry.1
        rw [hread entry mem_cons_self] at hdims
        rw [rowsWith_deleteRow h.stored.nodup, ← hdims]
        simp [Tally.total]
      · -- the deletion leaves the payloads of the other ids
        refine locked_iff.2 ⟨hnodup, fun other hother => ?_⟩
        have hne : other.1 ≠ entry.1 := fun heq => hfresh (heq ▸ mem_map_of_mem hother)
        rw [← hrest other hother]
        exact congrArg (Option.map Row.data) (readRow_deleteRow_ne hne)

theorem total_foldl_remove {α : Type} (f : α → Dimensions) (items : List α) (deltas : Deltas)
    (delta : Int) (k : StatsKey) :
    Tally.total
        (items.foldl (fun deltas item => addIssueStats deltas (some (f item)) delta) deltas) k =
      Tally.total deltas k + delta * (items.map fun item => weight (some (f item)) k).sum := by
  induction items generalizing deltas with
  | nil => simp
  | cons item rest ih =>
    rw [foldl_cons, ih, total_addIssueStats, map_cons, sum_cons, mul_add]
    omega

theorem deleteTeamOwnedIssueRecords_owes (h : tx.Owes start) (teamID : String) :
    (deleteTeamOwnedIssueRecords tx teamID).Owes start := by
  unfold deleteTeamOwnedIssueRecords
  simp only
  split
  · exact h
  refine h.write (h.stored.filter _) fun k => ?_
  -- the rows that go are counted under the team they are read by
  have hteam : ((tx.records.filter fun row => row.columns.team = teamID).map fun row =>
      weight (some { row.columns with team := teamID }) k) =
      (tx.records.filter fun row => row.columns.team = teamID).map fun row =>
        weight (some row.columns) k := by
    apply map_congr_left
    intro row hrow
    have hsame : row.columns.team = teamID := by simpa using (mem_filter.1 hrow).2
    rw [← hsame]
  have hkept : (tx.records.filter fun row => decide (row.columns.team ≠ teamID)) =
      tx.records.filter fun row => !decide (row.columns.team = teamID) := by
    congr 1
    simp
  rw [total_foldl_remove, hteam, ← rowsWith_eq_sum, hkept,
    rowsWith_partition tx.records (fun row => decide (row.columns.team = teamID)) k]
  simp only [Tally.total]
  omega

/-! ## Imports -/

theorem mem_importKept_iff (hs : Stored records) (hrow : row ∈ records)
    (hid : row.id ∈ issues.map Issue.id) :
    row.id ∈ importKept records issues ↔ importUnchanged issues row := by
  constructor
  · intro hmem
    obtain ⟨other, hother, heq⟩ := mem_map.1 hmem
    obtain ⟨hexisting, hunchanged⟩ := mem_filter.1 hother
    have hsame : other = row := by
      have hread := Table.lookup_of_mem hs.nodup hrow
      rw [← heq, Table.lookup_of_mem hs.nodup (mem_filter.1 hexisting).1] at hread
      exact some.inj hread
    rwa [← hsame]
  · intro hunchanged
    refine mem_map_of_mem (mem_filter.2 ⟨?_, hunchanged⟩)
    exact mem_filter.2 ⟨hrow, decide_eq_true hid⟩

theorem importExisting_changed (issues : List Issue) (hs : Stored records) :
    ((importExisting records issues).filter fun row => !importUnchanged issues row) =
      records.filter fun row => row.id ∈ (importChanged records issues).map Issue.id := by
  unfold importExisting
  rw [List.filter_filter]
  apply List.filter_congr
  intro row hrow
  rw [Bool.eq_iff_iff]
  simp only [Bool.and_eq_true, Bool.not_eq_true', decide_eq_true_eq]
  constructor
  · rintro ⟨hchanged, hid⟩
    obtain ⟨issue, hissue, heq⟩ := List.mem_map.1 hid
    have hnot : row.id ∉ importKept records issues := by
      rw [mem_importKept_iff hs hrow hid, hchanged]
      simp
    exact heq ▸ List.mem_map_of_mem (List.mem_filter.2 ⟨hissue, by simpa [heq] using hnot⟩)
  · intro hmem
    obtain ⟨issue, hissue, heq⟩ := List.mem_map.1 hmem
    obtain ⟨hin, hnot⟩ := List.mem_filter.1 hissue
    have hid : row.id ∈ issues.map Issue.id := heq ▸ List.mem_map_of_mem hin
    rw [decide_eq_true_eq, heq, mem_importKept_iff hs hrow hid] at hnot
    exact ⟨by simpa using hnot, hid⟩

theorem sum_readData (hs : Stored records) (hnodup : (issues.map Issue.id).Nodup) (k : StatsKey) :
    (issues.map fun issue => weight ((readData records issue.id).map issueStatsOf) k).sum =
      ((records.filter fun row => row.id ∈ issues.map Issue.id).map fun row =>
        weight (some (issueStatsOf row.data)) k).sum := by
  have hsum := Table.sum_map_lookup (fun row : Row => weight (some (issueStatsOf row.data)) k)
    hs.nodup hnodup
  rw [← hsum, List.map_map]
  congr 1
  apply List.map_congr_left
  intro issue _
  show weight (((readRow records issue.id).map Row.data).map issueStatsOf) k =
    ((readRow records issue.id).map fun row => weight (some (issueStatsOf row.data)) k).getD 0
  cases readRow records issue.id <;> rfl

theorem sum_netChange (old : String → Option Issue) (k : StatsKey) (issues : List Issue) :
    (issues.map (netChange old k)).sum =
      (issues.map fun issue => weight (some (issueStatsOf issue)) k).sum -
        (issues.map fun issue => weight ((old issue.id).map issueStatsOf) k).sum :=
  Tally.sum_map_sub _ _ issues

theorem importIssues_owes (h : tx.Owes start) (hids : ∀ issue ∈ issues, issue.keepsIds)
    (hw : importIssues tx issues = some tx') : tx'.Owes start := by
  unfold importIssues at hw
  split at hw
  · cases hw
  split at hw
  · cases hw
    exact h
  split at hw
  · cases hw
  split at hw
  · cases hw
  rename_i hnodup
  rw [not_not] at hnodup
  simp only at hw
  split at hw
  · cases hw
    exact h
  obtain ⟨records, hrecords, hend⟩ := bind_eq_some_iff.1 hw
  cases hend
  have hsub : (importChanged tx.records issues).Sublist issues := filter_sublist
  have hchanged : ((importChanged tx.records issues).map Issue.id).Nodup :=
    hnodup.sublist (hsub.map Issue.id)
  obtain ⟨hstored, hcount⟩ := importIssueRecordBatch_spec h.stored hchanged
    (fun issue hissue => hids issue (hsub.subset hissue)) hrecords
  refine h.write hstored fun k => ?_
  rw [total_foldl_remove, total_foldl_remove, importExisting_changed issues h.stored,
    ← sum_readData h.stored hchanged, hcount k, sum_netChange]
  simp only [Tally.total]
  omega

/-- A batch (for a full synchronisation, each slice of 64) names an issue
once. -/
def Call.namesOnce : Call → Bool
  | .batch issues _ _ => (issues.map Issue.id).Nodup
  | .replace issues _ _ => (issues.toChunks 64).all fun slice => (slice.map Issue.id).Nodup
  | _ => true

def Call.keepsIds : Call → Bool
  | .write issue _ => issue.keepsIds
  | .batch issues _ _ => issues.all Issue.keepsIds
  | .replace issues _ _ => (issues.toChunks 64).all fun slice => slice.all Issue.keepsIds
  | .importBatch issues => issues.all Issue.keepsIds
  | _ => true

theorem Call.run_owes {call : Call} (h : tx.Owes start) (honce : call.namesOnce)
    (hids : call.keepsIds) (hrun : call.run tx = some tx') : tx'.Owes start := by
  cases call with
  | write issue metadata => exact writeIssueRecord_owes h hids hrun
  | batch issues refs previous =>
    simp only [Call.run] at hrun
    split at hrun
    · rename_i hlocked
      exact writeIssueRecordBatch_owes h hlocked (of_decide_eq_true honce)
        (List.all_eq_true.1 hids) hrun
    · cases hrun
  | replace issues refs base =>
    simp only [Call.namesOnce, Call.keepsIds, List.all_eq_true, decide_eq_true_eq] at honce hids
    exact replaceIssueRecords_owes h honce hids hrun
  | remove loaded remaining =>
    simp only [Call.run] at hrun
    split at hrun
    · rename_i hlocked
      cases hrun
      exact removeIssues_owes h hlocked
    · cases hrun
  | deleteTeam teamID =>
    cases hrun
    exact deleteTeamOwnedIssueRecords_owes h teamID
  | importBatch issues => exact importIssues_owes h (List.all_eq_true.1 hids) hrun

/-- Every counter is the number of rows with its dimensions, and no row is missing. -/
structure Db.CountersExact (db : Db) : Prop where
  entries : ∀ entry ∈ db.counts, entry.2 = rowsWith db.records entry.1
  complete : ∀ k, k ∉ db.counts.map Prod.fst → rowsWith db.records k = 0

structure Db.Inv (db : Db) : Prop where
  stored : Stored db.records
  nodup : (db.counts.map Prod.fst).Nodup
  totals : ∀ k, Tally.total db.counts k = rowsWith db.records k

theorem Db.Inv.countersExact (h : db.Inv) : db.CountersExact := by
  refine ⟨fun entry hentry => ?_, fun k hk => ?_⟩
  · rw [← h.totals, Tally.total_of_mem h.nodup hentry]
  · rw [← h.totals, Tally.total_of_not_mem hk]

theorem Db.Inv.empty : Db.empty.Inv :=
  ⟨⟨nodup_nil, fun row hrow => by cases hrow⟩, nodup_nil, fun _ => rfl⟩

/-! ## Building the counters -/

theorem mem_migrateIssueStats {entry : StatsKey × Int} : entry ∈ migrateIssueStats records ↔
      ∃ row ∈ records, row.columns.key entry.1.scope = entry.1 ∧
        entry.2 = rowsWith records entry.1 := by
  have hscopes : ∀ scope : Scope, scope ∈ [Scope.workspace, .team, .project, .assignee] := by
    intro scope
    cases scope <;> simp
  unfold migrateIssueStats
  rw [mem_flatMap]
  constructor
  · rintro ⟨scope, -, hentry⟩
    obtain ⟨key, hkey, rfl⟩ := mem_map.1 hentry
    obtain ⟨row, hrow, rfl⟩ := mem_map.1 (mem_dedup.1 hkey)
    exact ⟨row, hrow, rfl, rfl⟩
  · rintro ⟨row, hrow, hkey, hcount⟩
    refine ⟨entry.1.scope, hscopes _, mem_map.2 ⟨entry.1, ?_, ?_⟩⟩
    · exact mem_dedup.2 (mem_map.2 ⟨row, hrow, hkey⟩)
    · exact Prod.ext rfl hcount.symm

theorem nodup_migrateIssueStats (records : List Row) :
    ((migrateIssueStats records).map Prod.fst).Nodup := by
  unfold migrateIssueStats
  rw [List.map_flatMap]
  simp only [List.map_map, Function.comp_def, List.map_id']
  rw [List.nodup_flatMap]
  refine ⟨fun scope _ => nodup_dedup _, ?_⟩
  -- the counters of two scopes differ in their scope
  have hscope : ∀ scope : Scope, ∀ key ∈ (records.map fun row => row.columns.key scope).dedup,
      key.scope = scope := by
    intro scope key hkey
    obtain ⟨row, -, rfl⟩ := mem_map.1 (mem_dedup.1 hkey)
    rfl
  have hne : [Scope.workspace, .team, .project, .assignee].Pairwise (· ≠ ·) := by decide
  refine hne.imp fun {scope other} hdiff => ?_
  intro key hkey hother
  exact hdiff ((hscope _ key hkey).symm.trans (hscope _ key hother))

theorem Db.Inv.migrate (h : db.Inv) :
    ({ db with counts := migrateIssueStats db.records } : Db).Inv := by
  have hnodup := nodup_migrateIssueStats db.records
  refine ⟨h.stored, hnodup, fun k => ?_⟩
  by_cases hmem : ∃ row ∈ db.records, row.columns.key k.scope = k
  · obtain ⟨row, hrow, hkey⟩ := hmem
    have hentry : (k, rowsWith db.records k) ∈ migrateIssueStats db.records :=
      mem_migrateIssueStats.2 ⟨row, hrow, hkey, rfl⟩
    exact Tally.total_of_mem hnodup hentry
  · have hzero : rowsWith db.records k = 0 := by
      unfold rowsWith
      rw [countP_eq_zero.2]
      · rfl
      · intro row hrow hkey
        exact hmem ⟨row, hrow, of_decide_eq_true hkey⟩
    rw [hzero]
    apply Tally.total_of_not_mem
    intro hkey
    obtain ⟨entry, hentry, rfl⟩ := mem_map.1 hkey
    obtain ⟨row, hrow, heq, -⟩ := mem_migrateIssueStats.1 hentry
    exact hmem ⟨row, hrow, heq⟩

def Label.calls : Label → List Call
  | .commit calls => calls
  | .migrate => []

def NamesOnce (_ : Db) (label : Label) : Prop := label.calls.all Call.namesOnce = true

def KeepsIds (_ : Db) (label : Label) : Prop := label.calls.all Call.keepsIds = true

instance (db : Db) (label : Label) : Decidable (NamesOnce db label) :=
  inferInstanceAs (Decidable (_ = true))

instance (db : Db) (label : Label) : Decidable (KeepsIds db label) :=
  inferInstanceAs (Decidable (_ = true))

def Sound (db : Db) (label : Label) : Prop := NamesOnce db label ∧ KeepsIds db label

instance (db : Db) (label : Label) : Decidable (Sound db label) :=
  inferInstanceAs (Decidable (_ ∧ _))

theorem Db.Inv.step {db' : Db} {label : Label} (h : db.Inv) (hsound : Sound db label)
    (hstep : db.step label = some db') : db'.Inv := by
  cases label with
  | migrate =>
    cases hstep
    exact h.migrate
  | commit calls =>
    obtain ⟨tx, htx, hend⟩ := bind_eq_some_iff.1 hstep
    cases hend
    have hbegin : (⟨db.records, []⟩ : Tx).Owes db.records :=
      ⟨h.stored, fun k => by simp [Tally.total]⟩
    have howes : tx.Owes db.records := foldlM_keeps hbegin
      (fun call hcall _ _ howes => Call.run_owes howes (all_eq_true.1 hsound.1 call hcall)
        (all_eq_true.1 hsound.2 call hcall)) htx
    refine ⟨howes.stored, Tally.nodup_merge h.nodup, fun k => ?_⟩
    show Tally.total (Tally.merge db.counts tx.pending) k = rowsWith tx.records k
    rw [Tally.total_merge, h.totals k, howes.owed k]
    omega

/-- **Issue counters.** After any committed transactions that name an issue once in a batch and
count ids without NUL, every counter is the number of rows with its dimensions. -/
theorem countersExact_of_reaches {db : Db} (hrun : Reaches Db.step Sound Db.empty db) :
    db.CountersExact :=
  (hrun.invariant (P := Db.Inv) (fun _ _ _ h hsound hstep => h.step hsound hstep)
    Db.Inv.empty).countersExact

/-! ## Concrete runs -/

def sampleIssue (id team : String) : Issue :=
  { id, version := 1, identifier := id, priority := 2, archivedAt := none, team := ⟨team, "Team"⟩,
    state := ⟨"todo", "unstarted", "Todo"⟩, assignee := none, delegate := none,
    creator := ⟨"u", "User"⟩, labels := [], project := none, agentSessionState := "", body := "" }

def noReferences : References := ⟨[], [], [], [], []⟩

/-- A full synchronisation adds two issues, a batch archives the first and moves its team, and
the next synchronisation deletes the second. -/
def ordinaryWrites : List Label :=
  let moved := { sampleIssue "a" "t" with archivedAt := some 5 }
  [.commit [.replace [sampleIssue "a" "s", sampleIssue "b" "s"] noReferences none],
    .commit [.batch [moved] noReferences []],
    .commit [.replace [moved] noReferences none]]

theorem countersExact_of_ordinaryWrites :
    ∃ db, (Reaches Db.step Sound Db.empty db ∧
      db.counts.map Prod.snd = [0, 0, 0, 0, 1, 1, 1, 1]) ∧ db.CountersExact := by
  refine (exists_congr fun _ => and_assoc).mpr <|
    Run.exists_reaches_and ordinaryWrites _ (by decide) fun db hrun _ => ?_
  exact countersExact_of_reaches hrun

def Db.Miscounts (db : Db) : Prop :=
  ∃ entry ∈ db.counts, entry.2 ≠ rowsWith db.records entry.1

instance (db : Db) : Decidable db.Miscounts :=
  inferInstanceAs (Decidable (∃ entry ∈ db.counts, _))

theorem Db.Miscounts.not_exact (h : db.Miscounts) : ¬ db.CountersExact := by
  obtain ⟨entry, hentry, hne⟩ := h
  exact fun hexact => hne (hexact.entries entry hentry)

/-- Each half of the condition is needed: a collection that names a new issue
twice counts it twice, and so does a rewritten issue whose team id holds a
NUL. -/
theorem counted_twice :
    (∃ db, Reaches Db.step KeepsIds Db.empty db ∧ db.records.length = 1 ∧ ¬ db.CountersExact) ∧
      ∃ db, Reaches Db.step NamesOnce Db.empty db ∧ db.records.length = 1 ∧
        ¬ db.CountersExact := by
  obtain ⟨db, hreach, hlen, hmis⟩ : ∃ db, Reaches Db.step KeepsIds Db.empty db ∧
      (db.records.length = 1 ∧ db.Miscounts) :=
    Run.exists_reaches
      [.commit [.replace [sampleIssue "a" "s", { sampleIssue "a" "s" with priority := 3 }]
        noReferences none]] _ (by decide)
  have hnul : ∃ db, Reaches Db.step NamesOnce Db.empty db ∧
      (db.records.length = 1 ∧ db.Miscounts) :=
    Run.exists_reaches
      [.commit [.write (sampleIssue "a" "s\x00") none],
        .commit [.write { sampleIssue "a" "s\x00" with priority := 3 } none]] _ (by decide)
  obtain ⟨db', hreach', hlen', hmis'⟩ := hnul
  exact ⟨⟨db, hreach, hlen, hmis.not_exact⟩, ⟨db', hreach', hlen', hmis'.not_exact⟩⟩

end Flow.Ports.IssueStats
