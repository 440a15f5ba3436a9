import Flow.Ports.IssueCache

/-!
# Reads of cached issues

A copy from before the newest complete drop has a version below the one of that drop's
row.  Stored versions do not go down, so the comparison with the stored version turns
such a copy away, however late it was set.
-/

namespace Flow.Ports.IssueCache

open List Option Flow.Verified

/-! ## The invariant -/

def Behind (copy row : Issue) : Prop := copy.write < row.write → copy.normalized < row.version

theorem behind_of_not_passesFor {copy row : Issue} (h : copy.passesFor row = false) :
    Behind copy row := by
  intro hwrite
  simp only [Issue.passesFor, Bool.and_eq_false_iff, decide_eq_false_iff_not] at h
  rcases h with h | h
  · exact absurd hwrite h
  · exact Nat.lt_of_not_le h

/-- A row that the stored one has come from. -/
structure Earlier (row stored : Issue) : Prop where
  write : row.write ≤ stored.write
  version : row.version ≤ stored.version

theorem Earlier.trans {a b c : Issue} (hab : Earlier a b) (hbc : Earlier b c) : Earlier a c :=
  ⟨hab.write.trans hbc.write, hab.version.trans hbc.version⟩

def Good (stored dropped : Issue) : Reader → Prop
  | .started since _ | .missed since _ => since ≤ dropped.write
  | .found since _ copy =>
    since ≤ dropped.write ∧ (copy.write < since → copy.normalized < stored.version)
  | .storing since row _ => since ≤ row.write ∧ Behind row dropped
  | .returned since issue => since ≤ issue.write
  | .ended => True

def Pending (stored : Issue) : Drop → Prop
  | .committed row _ | .retrying row _ | .deleting row _ _ => Earlier row stored
  | .ended => True

structure Inv (st : State) : Prop where
  dropped : Earlier st.dropped st.stored
  cached : ∀ entry ∈ st.cached, Behind entry.2 st.dropped
  readers : ∀ reader ∈ st.readers, Good st.stored st.dropped reader
  drops : ∀ drop ∈ st.drops, Pending st.stored drop

theorem inv_start (issue : Issue) : Inv (State.start issue) where
  dropped := ⟨Nat.le_refl _, Nat.le_refl _⟩
  cached _ h := by cases h
  readers _ h := by cases h
  drops _ h := by cases h

theorem Good.stored {stored stored' dropped : Issue} {reader : Reader}
    (h : Good stored dropped reader) (hlater : Earlier stored stored') :
    Good stored' dropped reader := by
  cases reader with
  | found since key copy => exact ⟨h.1, fun hold => (h.2 hold).trans_le hlater.version⟩
  | _ => exact h

theorem Good.dropped {stored dropped dropped' : Issue} {reader : Reader}
    (h : Good stored dropped reader) (hnewer : dropped.write ≤ dropped'.write)
    (hbehind : ∀ row ∈ reader.storing?, Behind row dropped') : Good stored dropped' reader := by
  cases reader with
  | started | missed => exact Nat.le_trans h hnewer
  | found => exact ⟨h.1.trans hnewer, h.2⟩
  | storing since row keys => exact ⟨h.1, hbehind row rfl⟩
  | returned | ended => exact h

theorem Pending.stored {stored stored' : Issue} {drop : Drop} (h : Pending stored drop)
    (hlater : Earlier stored stored') : Pending stored' drop := by
  cases drop with
  | committed | retrying | deleting => exact Earlier.trans h hlater
  | ended => trivial

section Steps

variable {upper : String → String} {st st' : State} {i : Nat}

variable {reader : Reader} {drop : Drop} {key : String} {copy row : Issue}

theorem Inv.putReader (h : Inv st) (hgood : Good st.stored st.dropped reader) :
    Inv (st.putReader i reader) :=
  ⟨h.dropped, h.cached, Slots.forall_set h.readers hgood, h.drops⟩

theorem Inv.putDrop (h : Inv st) (hpending : Pending st.stored drop) : Inv (st.putDrop i drop) :=
  ⟨h.dropped, h.cached, h.readers, Slots.forall_set h.drops hpending⟩

theorem Inv.del (h : Inv st) (keys : List String) : Inv (st.del keys) :=
  ⟨h.dropped, fun entry hentry => h.cached entry (mem_of_mem_filter hentry), h.readers,
    h.drops⟩

theorem Inv.set (h : Inv st) (hrow : Behind row st.dropped) : Inv (st.set key row) := by
  refine ⟨h.dropped, fun entry hentry => ?_, h.readers, h.drops⟩
  rcases mem_cons.mp hentry with rfl | hentry
  · exact hrow
  · exact h.cached entry (mem_of_mem_filter hentry)

theorem mem_of_get (h : st.get key = some copy) : ∃ entry ∈ st.cached, entry.2 = copy := by
  obtain ⟨_, h⟩ := ite_none_left_eq_some.mp h
  obtain ⟨entry, hentry, rfl⟩ := map_eq_some_iff.mp h
  exact ⟨entry, mem_of_find?_eq_some hentry, rfl⟩

/-- A copy from before the read's start is turned away by the stored version. -/
theorem Inv.found (h : Inv st) {since : Nat} (hsince : since ≤ st.dropped.write)
    (hget : st.get key = some copy) : Good st.stored st.dropped (.found since key copy) := by
  obtain ⟨entry, hentry, rfl⟩ := mem_of_get hget
  refine ⟨hsince, fun hold => ?_⟩
  exact (h.cached entry hentry (hold.trans_le hsince)).trans_le h.dropped.version

theorem Inv.readerStep (h : Inv st) (hreader : st.readers[i]? = some reader)
    (hstep : st.readerStep i reader = some st') : Inv st' := by
  have hgood := h.readers reader (mem_of_getElem? hreader)
  cases reader with
  | started since key =>
    cases hstep
    cases hget : st.get key with
    | none => exact h.putReader hgood
    | some copy => exact h.putReader (h.found hgood hget)
  | found since key copy =>
    cases hstep
    split
    next heq =>
      refine h.putReader (Nat.le_of_not_lt fun hold => ?_)
      exact (hgood.2 hold).ne heq
    next => exact h.putReader hgood.1
  | missed since key =>
    cases hstep
    refine h.putReader ⟨Nat.le_trans hgood h.dropped.write, fun hold => ?_⟩
    exact absurd h.dropped.write (Nat.not_le_of_lt hold)
  | storing since row keys =>
    cases keys with
    | nil =>
      cases hstep
      exact h.putReader hgood.1
    | cons key keys =>
      cases hstep
      exact (h.set hgood.2).putReader hgood
  | returned | ended => cases hstep

theorem Inv.refuse (h : Inv st) (hreader : st.readers[i]? = some reader)
    (hstep : st.refuse i reader = some st') : Inv st' := by
  have hgood := h.readers reader (mem_of_getElem? hreader)
  cases reader with
  | found since key copy =>
    cases hstep
    exact h.putReader hgood.1
  | missed since key =>
    cases hstep
    exact h.putReader trivial
  | _ => cases hstep

theorem mem_dropKeys {found : Option Issue} {name : String} (h : Reached row key found name) :
    name ∈ dropKeys key found := by
  simp only [Reached, Bool.or_eq_true, Bool.and_eq_true, decide_eq_true_eq, Option.any_eq_true] at h
  rcases h with rfl | ⟨⟨⟨copy, rfl, hid, hidentifier⟩, hname⟩, hne⟩
  · cases found <;> exact mem_cons_self
  · rw [← hid, ← hidentifier] at hname
    refine mem_cons_of_mem _ (mem_filter.2 ⟨?_, decide_eq_true hne⟩)
    rcases hname with rfl | rfl
    · exact mem_cons_self
    · exact mem_cons_of_mem _ mem_cons_self

/-- A drop is complete that has left no copy which can pass for the record. -/
theorem Inv.complete (h : Inv st) (hrow : Earlier row st.stored)
    (hcached : ∀ entry ∈ st.cached, Behind entry.2 row)
    (hreaders : ∀ reader ∈ st.readers, ∀ copy ∈ reader.storing?, Behind copy row) :
    Inv (st.complete row) := by
  unfold State.complete
  split
  next hnewer =>
    refine ⟨hrow, hcached, fun reader hreader => ?_, h.drops⟩
    exact (h.readers reader hreader).dropped hnewer.le (hreaders reader hreader)
  next => exact h

theorem Inv.dropStep (h : Inv st) (hdrop : st.drops[i]? = some drop)
    (hsound : Sound st (.drop i)) (hstep : st.dropStep upper i drop = some st') :
    Inv st' := by
  have hpending := h.drops drop (List.mem_of_getElem? hdrop)
  cases drop with
  | committed row key =>
    cases hstep
    split
    · exact h.putDrop hpending
    · exact h.putDrop hpending
  | retrying row key =>
    cases hstep
    exact h.putDrop hpending
  | deleting row key found =>
    cases hstep
    simp only [Sound, hdrop, Bool.and_eq_true, List.all_eq_true, decide_eq_true_eq] at hsound
    obtain ⟨hkeys, hstoring⟩ := hsound
    refine ((h.del _).complete hpending (fun entry hentry => ?_)
      fun reader hreader copy hcopy => ?_).putDrop trivial
    · obtain ⟨hmem, hkept⟩ := List.mem_filter.mp hentry
      refine behind_of_not_passesFor (eq_false_of_ne_true fun hpasses => ?_)
      exact (of_decide_eq_true hkept) (mem_dropKeys (hkeys entry hmem hpasses))
    · have hall := hstoring reader hreader
      rw [Option.mem_def.mp hcopy] at hall
      exact behind_of_not_passesFor (by simpa using hall)
  | ended => cases hstep

theorem inv_step {l : Label} (h : Inv st) (hsound : Sound st l)
    (hstep : step upper st l = some st') : Inv st' := by
  cases l with
  | commit identifier version key =>
    obtain ⟨hguard, hstep⟩ := ite_none_right_eq_some.mp hstep
    cases hstep
    have hlater : Earlier st.stored
        { st.stored with identifier, version, write := st.stored.write + 1 } :=
      ⟨Nat.le_succ _, hguard.1⟩
    refine ⟨h.dropped.trans hlater, h.cached,
      fun reader hreader => (h.readers reader hreader).stored hlater, ?_⟩
    apply Slots.forall_push (fun drop hdrop => (h.drops drop hdrop).stored hlater)
    exact ⟨Nat.le_refl _, Nat.le_refl _⟩
  | drop i =>
    obtain ⟨drop, hdrop, hstep⟩ := bind_eq_some_iff.mp hstep
    exact h.dropStep hdrop hsound hstep
  | read key =>
    cases hstep
    exact ⟨h.dropped, h.cached, Slots.forall_push h.readers (Nat.le_refl _), h.drops⟩
  | reader i =>
    obtain ⟨reader, hreader, hstep⟩ := bind_eq_some_iff.mp hstep
    exact h.readerStep hreader hstep
  | refuse i =>
    obtain ⟨reader, hreader, hstep⟩ := bind_eq_some_iff.mp hstep
    exact h.refuse hreader hstep
  | expire key =>
    cases hstep
    exact h.del [key]

end Steps

theorem Inv.promise {st : State} (h : Inv st) : Promise st := by
  intro reader hreader result hresult
  have hgood := h.readers reader hreader
  cases reader with
  | returned since issue =>
    cases hresult
    exact hgood
  | _ => cases hresult

/-- **Reads are fresh** in every run whose drops reach every copy that can pass for the
stored record, while no read is about to set another. -/
theorem reads_fresh_of_reaches {upper : String → String} {issue : Issue} {st : State}
    (hrun : Run.Reaches (step upper) (fun st l => Sound st l = true) (State.start issue) st) :
    Promise st := by
  have hinv : Inv st := hrun.invariant (P := Inv)
    (fun _ _ _ h hsound hstep => inv_step h hsound hstep) (inv_start issue)
  exact hinv.promise

/-- A read by the identifier sets the record under the identifier and the id. A write keeps the
version, and its drop, called with the id, deletes both copies; the next read by the identifier
returns the write. -/
theorem reads_fresh_after_drop :
    ∃ st, Run.Reaches (step String.toUpper) (fun st l => Sound st l = true)
        (State.start ⟨"issue_1", "ENG-1", 1, 0⟩) st ∧
      (st.cached = [("issue_1", ⟨"issue_1", "ENG-1", 1, 1⟩),
          ("ENG-1", ⟨"issue_1", "ENG-1", 1, 1⟩)] ∧
        st.readers = [.returned 0 ⟨"issue_1", "ENG-1", 1, 0⟩,
          .returned 1 ⟨"issue_1", "ENG-1", 1, 1⟩]) ∧ Promise st := by
  refine Run.exists_reaches_and
    [.read "ENG-1", .reader 0, .reader 0, .reader 0, .reader 0, .reader 0,
      .commit "ENG-1" 1 "issue_1", .drop 0, .drop 0, .read "ENG-1", .reader 1, .reader 1,
      .reader 1, .reader 1, .reader 1] _ (by decide +kernel) fun _ hrun _ => ?_
  exact reads_fresh_of_reaches hrun

/-- A write keeps the version. A read has its row from before the write and sets it after the
drop; or a copy stays under a former identifier, which no drop names. The next read returns the
issue without the write. -/
theorem reads_stale :
    (∃ st, Run.Reaches (step String.toUpper) Run.Unrestricted
        (State.start ⟨"issue_1", "ENG-1", 1, 0⟩) st ∧
      (¬Promise st ∧ st.readers[1]? = some (.returned 1 ⟨"issue_1", "ENG-1", 1, 0⟩))) ∧
    ∃ st, Run.Reaches (step String.toUpper) Run.Unrestricted
        (State.start ⟨"issue_1", "OPS-2", 1, 0⟩) st ∧
      (¬Promise st ∧ st.readers[1]? = some (.returned 1 ⟨"issue_1", "OPS-2", 1, 0⟩)) :=
  ⟨Run.exists_reaches
      [.read "issue_1", .reader 0, .reader 0, .commit "ENG-1" 1 "issue_1", .drop 0, .drop 0,
        .drop 0, .reader 0, .reader 0, .reader 0, .read "issue_1", .reader 1, .reader 1]
      _ (by decide +kernel),
    Run.exists_reaches
      [.read "ENG-1", .reader 0, .reader 0, .reader 0, .reader 0, .reader 0, .reader 0,
        .commit "OPS-2" 1 "issue_1", .drop 0, .drop 0, .read "ENG-1", .reader 1, .reader 1]
      _ (by decide +kernel)⟩

end Flow.Ports.IssueCache
