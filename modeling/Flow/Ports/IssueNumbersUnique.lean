import Flow.Ports.IssueNumbers
import Mathlib.Data.List.Nodup

/-!
# Numbers that are given once

The sequence is never below the number in an id, and the numbers of a transaction that
holds its lock are above it.  The numbers of a change of the whole workspace are above
those of the issues that it has loaded, which is enough for its ids, but not for the
numbers: others may have been given since, or to issues that are gone.  While no issue is
moved without the lock, the sequence is not below any number that was given, either.
-/

namespace Flow.Ports.IssueNumbers

open List Option Flow.Verified

/-! ## New numbers -/

theorem foldl_passes {α : Type} {f : Nat → α → Nat} {g : α → Nat}
    (hf : ∀ n item, n ≤ f n item ∧ g item ≤ f n item) (items : List α) (start : Nat) :
    start ≤ items.foldl f start ∧ ∀ item ∈ items, g item ≤ items.foldl f start := by
  induction items generalizing start with
  | nil => simp
  | cons head rest ih =>
    obtain ⟨hstart, hrest⟩ := ih (f start head)
    refine ⟨(hf start head).1.trans hstart, fun item hitem => ?_⟩
    rcases mem_cons.mp hitem with rfl | hitem
    · exact (hf start item).2.trans hstart
    · exact hrest item hitem

variable {issues rows : List Issue} {issue row : Issue} {start : Nat} {data : Data}
  {operation : Operation} {id : Id} {st : State}

theorem lt_nextIssueNumber (h : issue ∈ issues) : issue.number < nextIssueNumber issues := by
  refine (foldl_passes (g := fun issue => issue.number + 1)
    (fun next issue => ?_) issues 1).2 issue h
  split <;> omega

theorem le_maxNumber (h : issue ∈ issues) : issue.number ≤ maxNumber issues :=
  (foldl_passes (fun _ _ => ⟨Nat.le_max_left _ _, Nat.le_max_right _ _⟩) issues 0).2 issue h

/-- Numbers from `start` on, each of them once. -/
structure Fresh (start : Nat) (rows : List Issue) : Prop where
  above : ∀ row ∈ rows, start ≤ row.number
  nodup : (rows.map Issue.number).Nodup

theorem Fresh.nil (start : Nat) : Fresh start [] :=
  ⟨fun _ h => (nomatch h), nodup_nil⟩

theorem Fresh.cons (hrow : start ≤ row.number) (h : Fresh (row.number + 1) rows) :
    Fresh start (row :: rows) := by
  constructor
  · intro other hother
    rcases mem_cons.mp hother with rfl | hother
    · exact hrow
    · have := h.above other hother
      omega
  · refine nodup_cons.mpr ⟨fun hmem => ?_, h.nodup⟩
    obtain ⟨other, hother, heq⟩ := mem_map.mp hmem
    have := h.above other hother
    omega

theorem Fresh.mono {start' : Nat} (h : Fresh start rows) (hle : start' ≤ start) :
    Fresh start' rows :=
  ⟨fun row hrow => hle.trans (h.above row hrow), h.nodup⟩

theorem fresh_consecutive (number count : Nat) : Fresh number (consecutive number count) := by
  induction count generalizing number with
  | zero => exact Fresh.nil number
  | succ count ih => exact Fresh.cons (Nat.le_refl number) (ih (number + 1))

theorem fresh_createByWorkflows (count : Nat) (issues : List Issue) :
    Fresh (nextIssueNumber issues) (createByWorkflows count issues) := by
  induction count generalizing issues with
  | zero => exact Fresh.nil _
  | succ count ih =>
    refine Fresh.cons (Nat.le_refl _) ((ih _).mono ?_)
    exact lt_nextIssueNumber mem_cons_self

theorem fresh_migrateIssues (keys : List Nat) (number : Nat) :
    Fresh number (migrateIssues keys number) := by
  induction keys generalizing number with
  | nil => exact Fresh.nil number
  | cons key keys ih => exact Fresh.cons (Nat.le_refl number) (ih (number + 1))

theorem fresh_moveIssuesToTeam (moved : List Id) (data : Data) :
    Fresh data.nextIssueNumber (moveIssuesToTeam moved data) := by
  induction moved generalizing data with
  | nil => exact Fresh.nil _
  | cons id moved ih => exact Fresh.cons (Nat.le_max_left _ _) (ih ⟨_, _⟩)

theorem Fresh.append {more : List Issue} (h : Fresh start rows) (hmore : Fresh start more)
    (habove : ∀ row ∈ rows, ∀ other ∈ more, row.number < other.number) :
    Fresh start (rows ++ more) := by
  constructor
  · intro row hrow
    rcases mem_append.mp hrow with hrow | hrow
    · exact h.above row hrow
    · exact hmore.above row hrow
  · rw [map_append]
    refine nodup_append.mpr ⟨h.nodup, hmore.nodup, fun number hnumber other hother => ?_⟩
    obtain ⟨row, hrow, rfl⟩ := mem_map.mp hnumber
    obtain ⟨row', hrow', rfl⟩ := mem_map.mp hother
    exact (habove row hrow row' hrow').ne

/-- Workflows number from the issues that were just created, too. -/
theorem Fresh.withWorkflows {first : Issue} (h : Fresh start (first :: rows)) (workflows : Nat) :
    Fresh start (first :: rows ++ createByWorkflows workflows (first :: rows ++ issues)) := by
  have hworkflows := fresh_createByWorkflows workflows (first :: rows ++ issues)
  have habove : ∀ row ∈ first :: rows, row.number < nextIssueNumber (first :: rows ++ issues) :=
    fun row hrow => lt_nextIssueNumber (mem_append_left _ hrow)
  refine h.append (hworkflows.mono ?_) fun row hrow other hother => ?_
  · exact (h.above first mem_cons_self).trans (habove first mem_cons_self).le
  · exact (habove row hrow).trans_le (hworkflows.above other hother)

theorem fresh_createIssueInWorkspace {key : Option Nat} {children workflows : Nat}
    (hnext : 0 < data.nextIssueNumber)
    (h : createIssueInWorkspace data key children workflows = some rows) :
    Fresh data.nextIssueNumber rows := by
  obtain ⟨_, h⟩ := ite_none_left_eq_some.mp h
  rw [if_neg (Nat.ne_of_gt hnext)] at h
  cases h
  refine Fresh.withWorkflows ?_ workflows
  exact Fresh.cons (Nat.le_refl _) (fresh_consecutive _ children)

theorem fresh_of_begin (hfull : operation.full = false) (hnext : 0 < data.nextIssueNumber)
    (h : operation.writes data = some rows) : Fresh data.nextIssueNumber rows := by
  cases operation with
  | createIssue key children workflows => exact fresh_createIssueInWorkspace hnext h
  | createInstance children =>
    cases h
    exact (fresh_consecutive _ _).mono (Nat.le_max_left _ _)
  | moveToTeam moved =>
    cases h
    exact fresh_moveIssuesToTeam moved data
  | runWorkflow | commitImport | migrate => cases hfull

theorem fresh_of_load (hfull : operation.full) (h : operation.writes data = some rows) :
    Fresh (nextIssueNumber data.issues) rows := by
  cases operation with
  | runWorkflow count =>
    cases h
    exact fresh_createByWorkflows count data.issues
  | commitImport count =>
    cases h
    exact fresh_consecutive _ count
  | migrate keys =>
    cases h
    exact fresh_migrateIssues keys _
  | createIssue | createInstance | moveToTeam => cases hfull

/-! ## New ids -/

def Id.Below (n : Nat) : Id → Prop
  | .numbered number => number ≤ n
  | .keyed _ => True

theorem Id.Below.mono {n n' : Nat} (h : id.Below n) (hle : n ≤ n') : id.Below n' := by
  cases id with
  | numbered => exact Nat.le_trans h hle
  | keyed => trivial

def Made (keys : List Nat) (row : Issue) : Prop :=
  row.id = .numbered row.number ∨ ∃ key ∈ keys, row.id = .keyed key

theorem Made.below {keys : List Nat} (h : Made keys row) : row.id.Below row.number := by
  rcases h with h | ⟨key, _, h⟩
  · rw [h]
    exact Nat.le_refl _
  · rw [h]
    trivial

theorem made_consecutive {keys : List Nat} {number count : Nat}
    (h : row ∈ consecutive number count) :
    Made keys row := by
  obtain ⟨_, _, rfl⟩ := mem_map.mp h
  exact .inl rfl

theorem made_createByWorkflows {keys : List Nat} {count : Nat}
    (h : row ∈ createByWorkflows count issues) : Made keys row := by
  induction count generalizing issues with
  | zero => cases h
  | succ count ih =>
    rcases mem_cons.mp h with rfl | h
    · exact .inl rfl
    · exact ih h

theorem made_migrateIssues {keys : List Nat} {number : Nat} (h : row ∈ migrateIssues keys number) :
    Made keys row := by
  induction keys generalizing number with
  | nil => cases h
  | cons key keys ih =>
    rcases mem_cons.mp h with rfl | h
    · exact .inr ⟨key, mem_cons_self, rfl⟩
    · rcases ih h with hrow | ⟨other, hother, hrow⟩
      · exact .inl hrow
      · exact .inr ⟨other, mem_cons_of_mem _ hother, hrow⟩

def Operation.keys : Operation → List Nat
  | .createIssue key _ _ => key.toList
  | .migrate keys => keys
  | _ => []

theorem made_of_writes (hcreates : operation.creates) (h : operation.writes data = some rows)
    (hrow : row ∈ rows) : Made operation.keys row := by
  cases operation with
  | createIssue key children workflows =>
    obtain ⟨_, h⟩ := ite_none_left_eq_some.mp h
    cases h
    rcases mem_append.mp hrow with hrow | hrow
    · rcases mem_cons.mp hrow with rfl | hrow
      · cases key with
        | none => exact .inl rfl
        | some key => exact .inr ⟨key, mem_singleton.mpr rfl, rfl⟩
      · exact made_consecutive hrow
    · exact made_createByWorkflows hrow
  | createInstance | commitImport =>
    cases h
    exact made_consecutive hrow
  | runWorkflow =>
    cases h
    exact made_createByWorkflows hrow
  | migrate keys =>
    cases h
    exact made_migrateIssues hrow
  | moveToTeam => cases hcreates

theorem mem_of_moveIssuesToTeam {moved : List Id} (h : row ∈ moveIssuesToTeam moved data) :
    row.id ∈ moved := by
  induction moved generalizing data with
  | nil => cases h
  | cons id moved ih =>
    rcases mem_cons.mp h with rfl | h
    · exact mem_cons_self
    · exact mem_cons_of_mem _ (ih h)

theorem below_of_mem_ids {n : Nat} (hbelow : ∀ issue ∈ issues, issue.id.Below n)
    (h : id ∈ ids issues) : id.Below n := by
  obtain ⟨issue, hissue, rfl⟩ := mem_map.mp h
  exact hbelow issue hissue

theorem mem_upsert (h : issue ∈ upsert issues row) : issue ∈ issues ∨ issue = row := by
  unfold upsert at h
  split at h
  · obtain ⟨old, hold, rfl⟩ := mem_map.mp h
    split
    · exact .inr rfl
    · exact .inl hold
  · exact (mem_cons.mp h).symm

theorem mem_foldl_upsert (h : issue ∈ rows.foldl upsert issues) :
    issue ∈ issues ∨ issue ∈ rows := by
  induction rows generalizing issues with
  | nil => exact .inl h
  | cons row rows ih =>
    rcases ih h with h | h
    · rcases mem_upsert h with h | rfl
      · exact .inl h
      · exact .inr mem_cons_self
    · exact .inr (mem_cons_of_mem _ h)

theorem lookup_eq_none_iff : lookup issues id = none ↔ id ∉ ids issues := by
  unfold lookup ids
  rw [find?_eq_none]
  constructor
  · intro h hmem
    obtain ⟨issue, hissue, heq⟩ := mem_map.mp hmem
    exact h issue hissue (decide_eq_true heq)
  · intro h issue hissue heq
    exact h (of_decide_eq_true heq ▸ mem_map_of_mem hissue)

/-! ## The invariant of every run -/

/-- A transaction that holds the lock. -/
structure Open (st : State) (operation : Operation) (data : Data) : Prop where
  full : operation.full = false
  next : st.sequence < data.nextIssueNumber
  below : ∀ issue ∈ data.issues, issue.id.Below st.sequence
  keys : ∀ key ∈ operation.keys, .keyed key ∈ ids st.issues → .keyed key ∈ ids data.issues
  moves : operation.movesLoaded data = true

def Ready : Task → Prop
  | .loaded operation base =>
    operation.full = true ∧ (∀ issue ∈ base, issue.id.Below issue.number) ∧
      operation.newKeys base = true
  | .ended => True

structure Inv (st : State) : Prop where
  sequence : ∀ issue ∈ st.issues, issue.id.Below st.sequence
  below : ∀ issue ∈ st.issues, issue.id.Below issue.number
  locked : ∀ operation data, st.locked = some (operation, data) → Open st operation data
  tasks : ∀ task ∈ st.tasks, Ready task
  taken : st.taken = []

theorem inv_start : Inv State.start where
  sequence _ h := by cases h
  below _ h := by cases h
  locked _ _ h := by cases h
  tasks _ h := by cases h
  taken := rfl

section Steps

variable {st st' : State} {operation : Operation} {data : Data} {rows base : List Issue}

theorem Inv.unlock (h : Inv st) : Inv st.unlock := { h with locked := nofun }

theorem mem_counted {row : Issue} (h : row ∈ rows) : row ∈ operation.counted data rows := by
  cases operation with
  | createInstance => exact h
  | _ => exact mem_append_left _ h

theorem le_sequence_of_write {row : Issue} (h : row ∈ rows) :
    row.number ≤ (st.write operation data rows).sequence :=
  (le_maxNumber (mem_counted h)).trans (Nat.le_max_right _ _)

theorem Inv.write (h : Inv st) (hlocked : st.locked = none)
    (hbelow : ∀ row ∈ rows, row.id.Below row.number)
    (hids : operation.creates → ∀ row ∈ rows, row.id ∉ ids st.issues) :
    Inv (st.write operation data rows) := by
  constructor
  · intro issue hissue
    rcases mem_foldl_upsert hissue with hissue | hissue
    · exact (h.sequence issue hissue).mono (Nat.le_max_left _ _)
    · exact (hbelow issue hissue).mono (le_sequence_of_write hissue)
  · intro issue hissue
    rcases mem_foldl_upsert hissue with hissue | hissue
    · exact h.below issue hissue
    · exact hbelow issue hissue
  · intro _ _ hsome
    exact absurd (hlocked.symm.trans hsome) (by simp)
  · exact h.tasks
  · refine append_eq_nil_iff.mpr ⟨h.taken, ?_⟩
    split
    next hcreates =>
      refine filter_eq_nil_iff.mpr fun id hid => ?_
      obtain ⟨row, hrow, rfl⟩ := mem_map.mp hid
      simpa using hids hcreates row hrow
    next => rfl

/-- A creation key that is there already ends the transaction. -/
theorem key_not_mem_of_writes (hfull : operation.full = false)
    (h : operation.writes data = some rows) :
    ∀ key ∈ operation.keys, .keyed key ∉ ids data.issues := by
  intro key hkey hmem
  cases operation with
  | createIssue stored children workflows =>
    rw [mem_toList.mp hkey] at h
    obtain ⟨hnone, _⟩ := ite_none_left_eq_some.mp h
    obtain ⟨issue, hissue, heq⟩ := mem_map.mp hmem
    exact hnone (any_eq_true.mpr ⟨issue, hissue, decide_eq_true heq⟩)
  | createInstance | moveToTeam => cases hkey
  | runWorkflow | commitImport | migrate => cases hfull

theorem Open.fresh (h : Open st operation data) (hrows : operation.writes data = some rows) :
    Fresh (st.sequence + 1) rows :=
  (fresh_of_begin h.full (Nat.zero_lt_of_lt h.next) hrows).mono h.next

/-- The rows of a transaction have new ids, or are issues that it has loaded. -/
theorem Inv.commit (h : Inv st) (hopen : Open st operation data)
    (hrows : operation.writes data = some rows) :
    Inv (st.write operation data rows).unlock := by
  have hfresh := hopen.fresh hrows
  refine h.unlock.write rfl (fun row hrow => ?_) fun hcreates row hrow => ?_
  · cases operation with
    | moveToTeam moved =>
      cases hrows
      have hmem := all_eq_true.mp hopen.moves row.id (mem_of_moveIssuesToTeam hrow)
      apply (below_of_mem_ids hopen.below (of_decide_eq_true hmem)).mono
      exact Nat.le_of_lt (hfresh.above row hrow)
    | _ => exact (made_of_writes rfl hrows hrow).below
  · intro hmem
    rcases made_of_writes hcreates hrows hrow with hid | ⟨key, hkey, hid⟩
    · have hbelow := below_of_mem_ids h.sequence hmem
      rw [hid] at hbelow
      exact Nat.not_lt_of_le hbelow (hfresh.above row hrow)
    · refine key_not_mem_of_writes hopen.full hrows key hkey (hopen.keys key hkey ?_)
      exact hid ▸ hmem

theorem creates_of_full (h : operation.full) : operation.creates := by
  cases operation with
  | moveToTeam => cases h
  | _ => rfl

theorem not_mem_base (hready : Ready (.loaded operation base))
    (hrows : operation.writes ⟨base, 0⟩ = some rows) :
    ∀ row ∈ rows, row.id ∉ ids base := by
  obtain ⟨hfull, hbelow, hkeys⟩ := hready
  intro row hrow hmem
  rcases made_of_writes (creates_of_full hfull) hrows hrow with hid | ⟨key, hkey, hid⟩
  · obtain ⟨issue, hissue, heq⟩ := List.mem_map.mp hmem
    have hnumber := hbelow issue hissue
    rw [heq, hid] at hnumber
    have hlt := lt_nextIssueNumber hissue
    have hge := (fresh_of_load hfull hrows).above row hrow
    exact Nat.lt_irrefl _ ((hlt.trans_le hge).trans_le hnumber)
  · cases operation with
    | migrate keys =>
      simp only [Operation.newKeys, Bool.and_eq_true, List.all_eq_true,
        decide_eq_true_eq] at hkeys
      exact hkeys.2 key hkey (hid ▸ hmem)
    | _ => first | cases hkey | cases hfull

theorem Inv.replace (h : Inv st) (hlocked : st.locked = none)
    (hready : Ready (.loaded operation base)) (hrows : operation.writes ⟨base, 0⟩ = some rows)
    (hconflicts : conflicts base st.issues rows = false) :
    Inv (st.write operation ⟨base, 0⟩ rows) := by
  have hcreates := creates_of_full hready.1
  refine h.write hlocked (fun row hrow => (made_of_writes hcreates hrows hrow).below)
    fun _ row hrow => ?_
  have hsame := any_eq_false.mp hconflicts row hrow
  rw [decide_eq_true_eq, not_not] at hsame
  rw [← lookup_eq_none_iff, ← hsame]
  exact lookup_eq_none_iff.mpr (not_mem_base hready hrows row hrow)

theorem Inv.endTask (h : Inv st) (hlocked : st.locked = none) (i : Nat) :
    Inv (st.putTask i .ended) := by
  refine { h with locked := fun _ _ hsome => ?_, tasks := Slots.forall_set h.tasks trivial }
  cases hlocked.symm.trans hsome

theorem Inv.begin (h : Inv st) {loaded : List Id} {memory : Nat} (hfull : operation.full = false)
    (hmoves : operation.movesLoaded (st.data operation loaded memory)) :
    Open st operation (st.data operation loaded memory) where
  full := hfull
  next := by
    unfold State.data
    split
    · exact Nat.lt_succ_self _
    · exact Nat.lt_of_lt_of_le (Nat.lt_succ_self _) (Nat.le_max_right _ _)
  below issue hissue := h.sequence issue (mem_of_mem_filter hissue)
  keys key hkey hmem := by
    obtain ⟨issue, hissue, hid⟩ := mem_map.mp hmem
    refine mem_map.mpr ⟨issue, mem_filter.mpr ⟨hissue, decide_eq_true (.inr ?_)⟩, hid⟩
    cases operation with
    | createIssue stored children workflows =>
      rw [show (Operation.createIssue stored children workflows).key = some key from
        mem_toList.mp hkey]
      exact decide_eq_true hid
    | createInstance | moveToTeam => cases hkey
    | runWorkflow | commitImport | migrate => cases hfull
  moves := hmoves

theorem Inv.delete (h : Inv st) (deleted : List Id) :
    Inv { st with issues := st.issues.filter fun issue => issue.id ∉ deleted } where
  sequence issue hissue := h.sequence issue (mem_of_mem_filter hissue)
  below issue hissue := h.below issue (mem_of_mem_filter hissue)
  locked operation data hlocked := by
    have hopen := h.locked operation data hlocked
    refine { hopen with keys := fun key hkey hmem => ?_ }
    obtain ⟨issue, hissue, hid⟩ := mem_map.mp hmem
    exact hopen.keys key hkey (mem_map.mpr ⟨issue, mem_of_mem_filter hissue, hid⟩)
  tasks := h.tasks
  taken := h.taken

theorem ids_upsert {row : Issue} (h : row.id ∈ ids issues) :
    ids (upsert issues row) = ids issues := by
  unfold upsert
  rw [if_pos h]
  unfold ids
  rw [List.map_map]
  refine map_congr_left fun issue _ => ?_
  rw [Function.comp_apply]
  split
  next heq => exact heq.symm
  next => rfl

/-- A move without the lock gives a number above the issue's own. -/
theorem Inv.moveUnlocked (h : Inv st) {id : Id} {data : Data} {given : List Nat}
    (hdata : ∀ issue ∈ data.issues, issue ∈ st.issues) (hid : id ∈ ids data.issues) :
    Inv { st with issues := (moveIssuesToTeam [id] data).foldl upsert st.issues, given } := by
  obtain ⟨issue, hissue, rfl⟩ := mem_map.mp hid
  have hstored := hdata issue hissue
  have habove : issue.number ≤ max data.nextIssueNumber (nextIssueNumber data.issues) :=
    (lt_nextIssueNumber hissue).le.trans (Nat.le_max_right _ _)
  refine { sequence := fun other hother => ?_, below := fun other hother => ?_,
           locked := fun operation tx hlocked => ?_, tasks := h.tasks, taken := h.taken }
  · rcases mem_upsert hother with hother | rfl
    · exact h.sequence other hother
    · exact h.sequence issue hstored
  · rcases mem_upsert hother with hother | rfl
    · exact h.below other hother
    · exact (h.below issue hstored).mono habove
  · have hopen := h.locked operation tx hlocked
    have hids : ids ((moveIssuesToTeam [issue.id] data).foldl upsert st.issues) = ids st.issues :=
      ids_upsert (show issue.id ∈ _ from mem_map_of_mem hstored)
    exact { hopen with keys := fun key hkey hmem => hopen.keys key hkey (hids ▸ hmem) }

/-- What a step gives: the numbers of rows that a transaction or a change of the whole
workspace has written, which the sequence is moved past, that of a move without the lock,
or none. -/
inductive Gives (st : State) (l : Label) (st' : State) : Prop where
  | none (h : st'.given = st.given) (hsequence : st'.sequence = st.sequence)
  | locked (operation : Operation) (data : Data) (rows : List Issue)
      (hfresh : Fresh (st.sequence + 1) rows)
      (h : st'.given = st.given ++ rows.map Issue.number)
      (hsequence : st'.sequence = (st.write operation data rows).sequence)
  | full (operation : Operation) (base rows : List Issue) (i : Nat) (hlabel : l = .replace i)
      (htask : st.tasks[i]? = some (.loaded operation base))
      (hfresh : Fresh (nextIssueNumber base) rows)
      (h : st'.given = st.given ++ rows.map Issue.number)
      (hsequence : st'.sequence = (st.write operation ⟨base, 0⟩ rows).sequence)
  | unlocked (id : Id) (loaded : List Id) (memory : Nat)
      (hlabel : l = .moveUnlocked id loaded memory)

theorem inv_step {l : Label} (h : Inv st) (hstep : step st l = some st') :
    Inv st' ∧ Gives st l st' := by
  cases l with
  | begin operation loaded memory =>
    obtain ⟨hguard, ⟨⟩⟩ := ite_none_right_eq_some.mp hstep
    have hopen := h.begin hguard.2.1 hguard.2.2
    refine ⟨{ h with locked := fun operation data hlocked => ?_ }, .none rfl rfl⟩
    cases hlocked
    exact { hopen with }
  | commit =>
    obtain ⟨⟨operation, data⟩, hlocked, hstep⟩ := map_eq_some_iff.mp hstep
    have hopen := h.locked operation data hlocked
    cases hrows : operation.writes data with
    | none =>
      simp only [hrows] at hstep
      cases hstep
      exact ⟨h.unlock, .none rfl rfl⟩
    | some rows =>
      simp only [hrows] at hstep
      cases hstep
      exact ⟨h.commit hopen hrows, .locked operation data rows (hopen.fresh hrows) rfl rfl⟩
  | rollback =>
    obtain ⟨_, _, ⟨⟩⟩ := map_eq_some_iff.mp hstep
    exact ⟨h.unlock, .none rfl rfl⟩
  | load operation =>
    obtain ⟨hguard, ⟨⟩⟩ := ite_none_right_eq_some.mp hstep
    refine ⟨{ h with locked := fun operation data hlocked => ?_, tasks := ?_ }, .none rfl rfl⟩
    · have hopen := h.locked operation data hlocked
      exact { hopen with }
    · exact Slots.forall_push h.tasks ⟨hguard.1, h.below, hguard.2⟩
  | replace i =>
    obtain ⟨hlocked, hstep⟩ := ite_none_right_eq_some.mp hstep
    split at hstep
    next operation base htask =>
      obtain ⟨rows, hrows, hstep⟩ := map_eq_some_iff.mp hstep
      have hready := h.tasks _ (mem_of_getElem? htask)
      split at hstep
      next =>
        cases hstep
        exact ⟨h.endTask hlocked i, .none rfl rfl⟩
      next hconflicts =>
        cases hstep
        have hwritten := h.replace hlocked hready hrows (eq_false_of_ne_true hconflicts)
        exact ⟨hwritten.endTask hlocked i,
          .full operation base rows i rfl htask (fresh_of_load hready.1 hrows) rfl rfl⟩
    next => cases hstep
  | moveUnlocked id loaded memory =>
    obtain ⟨hguard, ⟨⟩⟩ := ite_none_right_eq_some.mp hstep
    exact ⟨h.moveUnlocked (fun _ hissue => mem_of_mem_filter hissue) hguard.1,
      .unlocked id loaded memory rfl⟩
  | delete deleted =>
    obtain ⟨_, ⟨⟩⟩ := ite_none_right_eq_some.mp hstep
    exact ⟨h.delete deleted, .none rfl rfl⟩

end Steps

theorem inv_of_reaches {ok : State → Label → Prop} (hrun : Run.Reaches step ok State.start st) :
    Inv st :=
  hrun.invariant (P := Inv) (fun _ _ _ h _ hstep => (inv_step h hstep).1) inv_start

/-- A new issue takes the id of no other, in every run. -/
theorem taken_eq_nil_of_reaches (hrun : Run.Reaches step Run.Unrestricted State.start st) :
    st.taken = [] :=
  (inv_of_reaches hrun).taken

/-- An import gives the number of a deleted issue, and its id, again; the new issue is moved,
and moved back without the lock while another is created. -/
theorem taken_after_import :
    ∃ st, Run.Reaches step Run.Unrestricted State.start st ∧
      (st.given = [1, 1, 2, 3, 3] ∧ ids st.issues = [.numbered 3, .numbered 1]) ∧ st.taken = [] :=
  Run.exists_reaches_and
    [.begin (.createIssue none 0 0) [] 0, .commit, .delete [.numbered 1], .load (.commitImport 1),
      .replace 0, .begin (.moveToTeam [.numbered 1]) [.numbered 1] 0, .commit,
      .begin (.createIssue none 0 0) [] 0, .moveUnlocked (.numbered 1) [.numbered 1] 0, .commit]
    _ (by decide) fun _ hrun _ => taken_eq_nil_of_reaches hrun

/-- The numbers that were given, while none is given without the lock. -/
structure Counted (st : State) : Prop where
  nodup : st.given.Nodup
  le : ∀ number ∈ st.given, number ≤ st.sequence

theorem Counted.append {st' : State} {data : Data} (h : Counted st) (hfresh : Fresh start rows)
    (hstart : st.sequence < start) (hgiven : st'.given = st.given ++ rows.map Issue.number)
    (hsequence : st'.sequence = (st.write operation data rows).sequence) : Counted st' := by
  constructor
  · rw [hgiven]
    refine nodup_append.mpr ⟨h.nodup, hfresh.nodup, fun number hnumber other hother => ?_⟩
    obtain ⟨row, hrow, rfl⟩ := mem_map.mp hother
    have hold := h.le number hnumber
    have hnew := hfresh.above row hrow
    omega
  · intro number hnumber
    rw [hsequence]
    rw [hgiven] at hnumber
    rcases mem_append.mp hnumber with hnumber | hnumber
    · exact (h.le number hnumber).trans (Nat.le_max_left _ _)
    · obtain ⟨row, hrow, rfl⟩ := mem_map.mp hnumber
      exact le_sequence_of_write hrow

theorem counted_step {st' : State} {l : Label} (h : Inv st) (hcounted : Counted st)
    (hsound : Sound st l) (hstep : step st l = some st') : Counted st' := by
  cases (inv_step h hstep).2 with
  | none hgiven hsequence =>
    refine ⟨hgiven ▸ hcounted.nodup, ?_⟩
    rw [hgiven, hsequence]
    exact hcounted.le
  | locked operation data rows hfresh hgiven hsequence =>
    exact hcounted.append hfresh (Nat.lt_succ_self _) hgiven hsequence
  | full operation base rows i hlabel htask hfresh hgiven hsequence =>
    subst hlabel
    simp only [Sound, htask, decide_eq_true_eq] at hsound
    exact hcounted.append hfresh hsound hgiven hsequence
  | unlocked id loaded memory hlabel =>
    subst hlabel
    cases hsound

/-- **Numbers are given once** in every run in which no issue is moved without the lock and
changes of the whole workspace are written while the last number of the sequence is that
of an issue they have loaded. -/
theorem numbers_unique_of_reaches {st : State}
    (hrun : Run.Reaches step (fun st l => Sound st l = true) State.start st) : Promise st := by
  have hcounted : Inv st ∧ Counted st := by
    refine hrun.invariant (P := fun st => Inv st ∧ Counted st)
      (fun _ _ _ h hsound hstep => ?_) ⟨inv_start, nodup_nil, nofun⟩
    exact ⟨(inv_step h.1 hstep).1, counted_step h.1 h.2 hsound hstep⟩
  exact ⟨hcounted.2.nodup, hcounted.1.taken⟩

/-- An issue with a sub-issue and one from a workflow, a move to another team, and
an import of two rows. -/
theorem numbers_unique_after_import :
    ∃ st, Run.Reaches step (fun st l => Sound st l = true) State.start st ∧
      (st.given = [1, 2, 3, 4, 5, 6]) ∧ Promise st := by
  refine Run.exists_reaches_and
    [.begin (.createIssue none 1 1) [] 0, .commit,
      .begin (.moveToTeam [.numbered 1]) [.numbered 1] 0, .commit,
      .load (.commitImport 2), .replace 0]
    _ (by decide) fun _ hrun _ => ?_
  exact numbers_unique_of_reaches hrun

/-- The number of a deleted issue is given to an imported one; a workflow run that has
loaded its issues before a move gives a second issue the number of the moved one; and an issue
that is moved back without the lock gets the number of one that was created since. -/
theorem number_given_twice :
    (∃ st, Run.Reaches step Run.Unrestricted State.start st ∧
      (st.given = [1, 1] ∧ st.issues = [Issue.new 1])) ∧
    (∃ st, Run.Reaches step Run.Unrestricted State.start st ∧
      (st.given = [1, 2, 2] ∧ st.issues = [⟨Id.numbered 2, 2⟩, ⟨Id.numbered 1, 2⟩])) ∧
    ∃ st, Run.Reaches step Run.Unrestricted State.start st ∧
      (st.given = [1, 2, 3, 3] ∧ st.issues = [⟨Id.numbered 3, 3⟩, ⟨Id.numbered 1, 3⟩]) := by
  refine ⟨?_, ?_, ?_⟩
  · exact Run.exists_reaches
      [.begin (.createIssue none 0 0) [] 0, .commit, .delete [.numbered 1],
        .load (.commitImport 1), .replace 0]
      _ (by decide)
  · exact Run.exists_reaches
      [.begin (.createIssue none 0 0) [] 0, .commit, .load (.runWorkflow 1),
        .begin (.moveToTeam [.numbered 1]) [.numbered 1] 0, .commit, .replace 0]
      _ (by decide)
  · exact Run.exists_reaches
      [.begin (.createIssue none 0 0) [] 0, .commit,
        .begin (.moveToTeam [.numbered 1]) [.numbered 1] 0, .commit,
        .begin (.createIssue none 0 0) [] 0, .commit, .moveUnlocked (.numbered 1) [.numbered 1] 0]
      _ (by decide)

end Flow.Ports.IssueNumbers
